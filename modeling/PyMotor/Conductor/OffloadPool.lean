import Mathlib.Algebra.Order.Ring.Nat
import Mathlib.Data.List.Count
import PyMotor.Conductor.Protocols

/-!
# Two-phase offload/pool matching

An engine tells what a block that it offloads contains, the pool backend tells where the block was
placed, and the two may arrive in either order. `OffloadPoolState` (`indexer/mod.rs`) holds what one
side said until the other has spoken: `offload` the content that no pool event has confirmed,
`pendingPool` the workers whose pool event found no content, and `content` what was confirmed and is
kept for a later medium.

Every entry carries the time it was made, for the sweep. Time is a number here, and each call reads
the clock once.
-/

namespace PyMotor.Conductor

/-- A reading of the clock. -/
abbrev Instant := Nat

@[ext] structure BlockContent where
  tokensHash : UInt64
  parentHash : Option UInt64
  deriving DecidableEq, Repr

structure OffloadCacheEntry where
  content : BlockContent
  insertedAt : Instant
  deriving DecidableEq, Repr

structure ContentEntry where
  content : BlockContent
  insertedAt : Instant
  deriving DecidableEq, Repr

/-- A block to store, with its parent. -/
abbrev PlacedBlock := Option UInt64 × KvCacheStoredBlockData

/-- What an engine says of an offloaded block: block hash, tokens hash, parent hash. -/
abbrev OffloadTriple := UInt64 × UInt64 × Option UInt64

structure OffloadPoolState where
  offload : Dict UInt64 OffloadCacheEntry
  content : Dict UInt64 ContentEntry
  /-- The waiting workers of a block, each with the time of its first pool event. -/
  pendingPool : Dict UInt64 (Dict WorkerKey Instant)

namespace OffloadPoolState

def new : OffloadPoolState := ⟨∅, ∅, ∅⟩

/-! ## Phase 1: offloads -/

/-- The blocks to store, grouped by worker. -/
abbrev Matched := Dict WorkerKey (List PlacedBlock)

/-- Append a block to the list of each of the workers. -/
def pushMatched (matched : Matched) (workers : List WorkerKey) (b : PlacedBlock) : Matched :=
  workers.foldl (fun m w => m.insert w ((m.get? w).getD [] ++ [b])) matched

def ingestOffloadLoop (now : Instant) (matched : Matched) (s : OffloadPoolState) :
    List OffloadTriple → Matched × OffloadPoolState
  | [] => (matched, s)
  | (blockHash, tokensHash, parentHash) :: triples =>
    let content : BlockContent := ⟨tokensHash, parentHash⟩
    match s.pendingPool.get? blockHash with
    | some pending =>
      ingestOffloadLoop now
        (pushMatched matched pending.keys (parentHash, ⟨blockHash, tokensHash⟩))
        { offload := s.offload.erase blockHash
          content := s.content.insert blockHash ⟨content, now⟩
          pendingPool := s.pendingPool.erase blockHash } triples
    | none =>
      -- a block that is offloaded again gives up its confirmed content
      ingestOffloadLoop now matched
        { s with
          offload := s.offload.insert blockHash ⟨content, now⟩
          content := s.content.erase blockHash } triples

def ingestOffloadBlocks (now : Instant) (s : OffloadPoolState) (triples : List OffloadTriple) :
    Matched × OffloadPoolState :=
  ingestOffloadLoop now ∅ s triples

/-! ## Phase 2: pool events -/

/-- The content of a block from `offload`, from where it moves to `content`, or from `content`. -/
def resolvePoolContent (now : Instant) (s : OffloadPoolState) (blockHash : UInt64) :
    Option BlockContent × OffloadPoolState :=
  match s.offload.get? blockHash with
  | some cached =>
    (some cached.content,
      { s with
        offload := s.offload.erase blockHash
        content := s.content.insert blockHash ⟨cached.content, now⟩ })
  | none => ((s.content.get? blockHash).map (·.content), s)

/-- The first critical section of `ingest_pool_blocks`: the blocks whose content is cached, and the
ones that are left for the lookup in the tiers. -/
def resolveLoop (now : Instant) (s : OffloadPoolState) :
    List UInt64 → List PlacedBlock × List UInt64 × OffloadPoolState
  | [] => ([], [], s)
  | bh :: bhs =>
    match s.resolvePoolContent now bh with
    | (some c, s) =>
      let (matched, need, s) := resolveLoop now s bhs
      ((c.parentHash, ⟨bh, c.tokensHash⟩) :: matched, need, s)
    | (none, s) =>
      let (matched, need, s) := resolveLoop now s bhs
      (matched, bh :: need, s)

/-- The critical section after a lookup that found the block in a tier. -/
def confirmContent (now : Instant) (s : OffloadPoolState) (blockHash : UInt64)
    (content : BlockContent) : OffloadPoolState :=
  { s with content := s.content.insert blockHash ⟨content, now⟩ }

/-- The critical section after a lookup that found nothing. A worker that waits already keeps its
time. -/
def queuePending (now : Instant) (s : OffloadPoolState) (blockHash : UInt64) (w : WorkerKey) :
    OffloadPoolState :=
  let waiting := (s.pendingPool.get? blockHash).getD ∅
  let waiting := if waiting.contains w then waiting else waiting.insert w now
  { s with pendingPool := s.pendingPool.insert blockHash waiting }

/-! ## Removal -/

/-- One block of a removal, and whether it has to be removed from the tier as well. -/
def evictOne (s : OffloadPoolState) (w : WorkerKey) (bh : UInt64) : Bool × OffloadPoolState :=
  if s.offload.contains bh then
    (false, { s with offload := s.offload.erase bh, content := s.content.erase bh })
  else
    match s.pendingPool.get? bh with
    | some entries =>
      if entries.contains w then
        (s.content.contains bh,
          { s with pendingPool :=
              if (entries.erase w).isEmpty then s.pendingPool.erase bh
              else s.pendingPool.insert bh (entries.erase w) })
      else (true, s)
    | none => (true, s)

/-- The hashes that need removal from the tier, and the caches without what was pending. -/
def evictPendingBlocks (s : OffloadPoolState) (w : WorkerKey) :
    List UInt64 → List UInt64 × OffloadPoolState
  | [] => ([], s)
  | bh :: bhs =>
    let (needTreeRemoval, s) := s.evictOne w bh
    let (hashes, s) := s.evictPendingBlocks w bhs
    (if needTreeRemoval then bh :: hashes else hashes, s)

/-- Keep the waiting workers that satisfy `q`, and the blocks that still have one. -/
def retainPending (s : OffloadPoolState) (q : WorkerKey → Instant → Bool) : OffloadPoolState :=
  let pending := s.pendingPool.mapVal (fun _ entries => entries.filter q)
  { s with pendingPool := pending.filter (fun _ entries => !entries.isEmpty) }

/-- With the number of blocks that nobody waits for any more. -/
def removePendingWorker (s : OffloadPoolState) (w : WorkerKey) : Nat × OffloadPoolState :=
  let s' := s.retainPending (fun v _ => decide (v ≠ w))
  (s.pendingPool.size - s'.pendingPool.size, s')

/-! ## Maintenance -/

/-- All entries of the three caches, every waiting worker counted. -/
def entryCount (s : OffloadPoolState) : Nat :=
  s.offload.size + s.content.size + (s.pendingPool.values.map Dict.size).sum

/-- Drop what is older than its time to live, and count it. -/
def sweepStaleCaches (s : OffloadPoolState) (now pendingTtl contentTtl offloadTtl : Nat) :
    Nat × OffloadPoolState :=
  let offload := s.offload.filter (fun _ e => decide (now - e.insertedAt < offloadTtl))
  let content := s.content.filter (fun _ e => decide (now - e.insertedAt < contentTtl))
  let s' := { s with offload := offload, content := content }.retainPending
    (fun _ insertedAt => decide (now - insertedAt < pendingTtl))
  (s.entryCount - s'.entryCount, s')

/-! ## What a removal finds -/

variable {s : OffloadPoolState} {w : WorkerKey} {bh : UInt64}

/-- Whether `w` waits for the block in `pending_pool`. -/
def waits (s : OffloadPoolState) (bh : UInt64) (w : WorkerKey) : Bool :=
  match s.pendingPool.get? bh with
  | some entries => entries.contains w
  | none => false

/-- How many occurrences of a hash in a removal the caches absorb: one if it is in `offload`, and one
if the worker waits for it, unless it is known as confirmed by then. -/
def absorbed (s : OffloadPoolState) (w : WorkerKey) (bh : UInt64) : Nat :=
  (s.offload.contains bh).toNat +
    (s.waits bh w && (!s.content.contains bh || s.offload.contains bh)).toNat

theorem evictOne_other {bh' : UInt64} (hne : bh' ≠ bh) :
    (s.evictOne w bh).2.offload.get? bh' = s.offload.get? bh' ∧
      (s.evictOne w bh).2.content.get? bh' = s.content.get? bh' ∧
      (s.evictOne w bh).2.pendingPool.get? bh' = s.pendingPool.get? bh' := by
  unfold evictOne
  split
  · exact ⟨Dict.get?_erase_ne _ hne.symm, Dict.get?_erase_ne _ hne.symm, rfl⟩
  · split
    · split
      · refine ⟨rfl, rfl, ?_⟩
        simp only
        split
        · exact Dict.get?_erase_ne _ hne.symm
        · exact Dict.get?_insert_ne _ _ hne.symm
      · exact ⟨rfl, rfl, rfl⟩
    · exact ⟨rfl, rfl, rfl⟩

theorem absorbed_congr {s' : OffloadPoolState} (ho : s'.offload.get? bh = s.offload.get? bh)
    (hc : s'.content.get? bh = s.content.get? bh)
    (hp : s'.pendingPool.get? bh = s.pendingPool.get? bh) : s'.absorbed w bh = s.absorbed w bh := by
  simp only [absorbed, waits, Dict.contains, ho, hc, hp]

/-- An occurrence that needs removal finds nothing to absorb it, any other uses up one. -/
theorem evictOne_absorbed (s : OffloadPoolState) (w : WorkerKey) (bh : UInt64) :
    if (s.evictOne w bh).1 then s.absorbed w bh = 0
    else s.absorbed w bh = (s.evictOne w bh).2.absorbed w bh + 1 := by
  unfold evictOne
  cases ho : s.offload.contains bh with
  | true =>
    have hgone : (s.offload.erase bh).contains bh = false := by simp [Dict.contains]
    have hgone' : (s.content.erase bh).contains bh = false := by simp [Dict.contains]
    simp only [↓reduceIte, Bool.false_eq_true, absorbed, waits, ho, hgone, hgone',
      Bool.or_true, Bool.or_false, Bool.not_false, Bool.toNat_true, Bool.toNat_false]
    omega
  | false =>
    cases hp : s.pendingPool.get? bh with
    | none => simp [absorbed, waits, ho, hp]
    | some entries =>
      cases he : entries.contains w with
      | false => simp [absorbed, waits, ho, hp, he]
      | true =>
        cases hc : s.content.contains bh with
        | true => simp [absorbed, waits, ho, hp, he, hc]
        | false =>
          -- afterwards the worker does not wait any more
          have hgone : (entries.erase w).contains w = false := by simp [Dict.contains]
          by_cases hempty : (entries.erase w).isEmpty = true
          · simp [absorbed, waits, ho, hp, he, hc, hempty]
          · simp [absorbed, waits, ho, hp, he, hc, hempty, hgone]

/-- **Which hashes need removal from the tier**: those that the event names more often than the
caches absorb. -/
theorem mem_evictPendingBlocks (hashes : List UInt64) (bh : UInt64) :
    ∀ s : OffloadPoolState,
      bh ∈ (s.evictPendingBlocks w hashes).1 ↔ s.absorbed w bh < hashes.count bh := by
  induction hashes with
  | nil => intro s; simp [evictPendingBlocks]
  | cons h hs ih =>
    intro s
    rw [evictPendingBlocks]
    by_cases heq : h = bh
    · subst heq
      have hstep := evictOne_absorbed s w h
      rw [List.count_cons_self]
      cases hneed : (s.evictOne w h).1 with
      | true =>
        simp only [hneed, ↓reduceIte] at hstep
        simp only [hneed, ↓reduceIte, List.mem_cons, true_or, true_iff]
        omega
      | false =>
        simp only [hneed, Bool.false_eq_true, ↓reduceIte] at hstep
        simp only [hneed, Bool.false_eq_true, ↓reduceIte, ih]
        omega
    · obtain ⟨ho, hc, hp⟩ := evictOne_other (s := s) (w := w) (Ne.symm heq)
      rw [List.count_cons_of_ne heq]
      have hmem : bh ∈ (if (s.evictOne w h).1 = true then
          h :: ((s.evictOne w h).2.evictPendingBlocks w hs).1
          else ((s.evictOne w h).2.evictPendingBlocks w hs).1) ↔
          bh ∈ ((s.evictOne w h).2.evictPendingBlocks w hs).1 := by
        split
        · simp [Ne.symm heq]
        · rfl
      simp only [hmem, ih, absorbed_congr ho hc hp]

end OffloadPoolState

end PyMotor.Conductor
