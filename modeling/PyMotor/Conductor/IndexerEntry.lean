import PyMotor.Conductor.LowerTier
import PyMotor.Conductor.OffloadPool
import PyMotor.Conductor.RadixTree

/-!
# The index of one model and tenant

`IndexerEntry` puts the parts together: the HBM tree with its lookup tables, one lower-tier index for
CPU and one for Disk, and the caches of the two-phase matching. Events arrive per worker, and the
medium of the worker decides which part they go to; engine and pool events (`events/vllm.rs`,
`events/pool.rs`) first resolve the workers they concern and then do the same to each of them.

`EntryOp` lists what can happen to an entry, one worker at a time, and `exec` does it; the loops of
the events over several workers are sequences of these steps.
-/

namespace PyMotor.Conductor

structure IndexerEntry where
  /-- `hbm_tree` and `lookups`. -/
  hbm : HbmIndex
  cpuTiers : LowerTierIndexer
  diskTiers : LowerTierIndexer
  offloadPool : OffloadPoolState

namespace IndexerEntry

def new : IndexerEntry := ⟨.new, .new, .new, .new⟩

/-- Dispatch an event on the medium of the worker. -/
def applyEvent (e : IndexerEntry) (w : WorkerKey) :
    KvCacheEventData → Except KvConductorError Unit × IndexerEntry
  | .stored data =>
    match w.medium with
    | .npu | .unknown =>
      let (r, hbm) := e.hbm.store w data
      (r, { e with hbm := hbm })
    | .cpu => (.ok (), { e with cpuTiers := e.cpuTiers.storeBlocks w data })
    | .disk => (.ok (), { e with diskTiers := e.diskTiers.storeBlocks w data })
  | .removed blockHashes =>
    match w.medium with
    | .npu | .unknown => (.ok (), { e with hbm := e.hbm.remove w blockHashes })
    | .cpu => (.ok (), { e with cpuTiers := e.cpuTiers.removeBlocks w blockHashes })
    | .disk => (.ok (), { e with diskTiers := e.diskTiers.removeBlocks w blockHashes })
  | .cleared =>
    match w.medium with
    | .npu | .unknown => (.ok (), { e with hbm := e.hbm.clear w })
    | .cpu => (.ok (), { e with cpuTiers := e.cpuTiers.clearWorker w })
    | .disk => (.ok (), { e with diskTiers := e.diskTiers.clearWorker w })

section Frame

variable (e : IndexerEntry) (w : WorkerKey) (event : KvCacheEventData)

@[simp] theorem applyEvent_offloadPool : (e.applyEvent w event).2.offloadPool = e.offloadPool := by
  cases event <;> cases hm : w.medium <;> simp only [applyEvent, hm]

theorem applyEvent_cpuTiers :
    (e.applyEvent w event).2.cpuTiers =
      if w.medium = .cpu then e.cpuTiers.apply w event else e.cpuTiers := by
  cases event <;> cases hm : w.medium <;>
    simp only [applyEvent, hm, reduceCtorEq, ↓reduceIte, LowerTierIndexer.apply]

theorem applyEvent_diskTiers :
    (e.applyEvent w event).2.diskTiers =
      if w.medium = .disk then e.diskTiers.apply w event else e.diskTiers := by
  cases event <;> cases hm : w.medium <;>
    simp only [applyEvent, hm, reduceCtorEq, ↓reduceIte, LowerTierIndexer.apply]

end Frame

/-! ## Confirmed blocks -/

/-- One `Stored` event per block, each with its own parent, until one fails. -/
def applyStores (e : IndexerEntry) (w : WorkerKey) :
    List PlacedBlock → Except KvConductorError Unit × IndexerEntry
  | [] => (.ok (), e)
  | (parentHash, block) :: blocks =>
    match e.applyEvent w (.stored ⟨parentHash, [block]⟩) with
    | (.ok (), e) => e.applyStores w blocks
    | (.error err, e) => (.error err, e)

/-- The blocks of several workers, one worker after the other. -/
def applyMatched (e : IndexerEntry) :
    List (WorkerKey × List PlacedBlock) → Except KvConductorError Unit × IndexerEntry
  | [] => (.ok (), e)
  | (w, blocks) :: matched =>
    match e.applyStores w blocks with
    | (.ok (), e) => e.applyMatched matched
    | (.error err, e) => (.error err, e)

/-- The non-HBM branch of `BlockStored`: ingest the offloads, and store what pool events waited for,
worker by worker in the order `σ`. -/
def offloadBlocks (e : IndexerEntry) (now : Instant)
    (σ : HashOrder (WorkerKey × List PlacedBlock)) (triples : List OffloadTriple) :
    Except KvConductorError Unit × IndexerEntry :=
  let (matched, s) := e.offloadPool.ingestOffloadBlocks now triples
  { e with offloadPool := s }.applyMatched (σ.iter 0 matched.entries)

/-- The content of a block in the CPU tier, else in the Disk tier. -/
def tierContent (e : IndexerEntry) (σ : HashOrder WorkerMap) (i : Nat) (bh : UInt64) :
    Option BlockContent :=
  ((e.cpuTiers.lookupBlock σ i bh).orElse fun _ => e.diskTiers.lookupBlock σ (i + 1) bh).map
    (fun key => ⟨key.localHash, key.parentHash⟩)

/-- The second half of `ingest_pool_blocks`: look up in the tiers what the caches did not know. -/
def tierLoop (e : IndexerEntry) (now : Instant) (σ : HashOrder WorkerMap) (w : WorkerKey) (i : Nat)
    (s : OffloadPoolState) : List UInt64 → List PlacedBlock × OffloadPoolState
  | [] => ([], s)
  | bh :: bhs =>
    match e.tierContent σ i bh with
    | some c =>
      let (matched, s) := e.tierLoop now σ w (i + 2) (s.confirmContent now bh c) bhs
      ((c.parentHash, ⟨bh, c.tokensHash⟩) :: matched, s)
    | none => e.tierLoop now σ w (i + 2) (s.queuePending now bh w) bhs

/-- The blocks of a pool event whose content is known; the others wait. -/
def ingestPoolBlocks (e : IndexerEntry) (now : Instant) (σ : HashOrder WorkerMap)
    (blockHashes : List UInt64) (w : WorkerKey) : List PlacedBlock × IndexerEntry :=
  let (matched, need, s) := e.offloadPool.resolveLoop now blockHashes
  let (matched', s) := e.tierLoop now σ w 0 s need
  (matched ++ matched', { e with offloadPool := s })

/-- A pool `stored` event, for one of its workers. -/
def poolStored (e : IndexerEntry) (now : Instant) (σ : HashOrder WorkerMap)
    (blockHashes : List UInt64) (w : WorkerKey) : Except KvConductorError Unit × IndexerEntry :=
  let (blocks, e) := e.ingestPoolBlocks now σ blockHashes w
  e.applyStores w blocks

/-! ## Removal -/

/-- A `BlockRemoved` or a pool `removed` event, for one of its workers. -/
def removeFrom (e : IndexerEntry) (blockHashes : List UInt64) (w : WorkerKey) :
    Except KvConductorError Unit × IndexerEntry :=
  let (treeHashes, s) := e.offloadPool.evictPendingBlocks w blockHashes
  let e := { e with offloadPool := s }
  if treeHashes.isEmpty then (.ok (), e) else e.applyEvent w (.removed treeHashes)

/-- An `AllBlocksCleared` or a pool `cleared` event, for one of its workers. -/
def clearAll (e : IndexerEntry) (w : WorkerKey) : Except KvConductorError Unit × IndexerEntry :=
  match e.applyEvent w .cleared with
  | (.ok (), e) => (.ok (), { e with offloadPool := (e.offloadPool.removePendingWorker w).2 })
  | (.error err, e) => (.error err, e)

/-- Forget an instance and DP rank on all media. -/
def removeWorkerAllMedia (e : IndexerEntry) (instanceId : InstanceId) (dpRank : DpRank) :
    IndexerEntry :=
  let mine (w : WorkerKey) : Bool := decide (w.instanceId = instanceId ∧ w.dpRank = dpRank)
  { hbm := (e.hbm.lookups.keys.filter mine).foldl (·.clear) e.hbm
    cpuTiers := (e.cpuTiers.workerBlocks.keys.filter mine).foldl (·.clearWorker) e.cpuTiers
    diskTiers := (e.diskTiers.workerBlocks.keys.filter mine).foldl (·.clearWorker) e.diskTiers
    offloadPool := e.offloadPool.retainPending (fun w _ => !mine w) }

end IndexerEntry

/-! ## Steps -/

/-- What can happen to an entry, one worker at a time. -/
inductive EntryOp where
  | event (w : WorkerKey) (event : KvCacheEventData)
  | offload (now : Instant) (σ : HashOrder (WorkerKey × List PlacedBlock))
      (triples : List OffloadTriple)
  | pool (now : Instant) (σ : HashOrder WorkerMap) (blockHashes : List UInt64) (w : WorkerKey)
  | removed (blockHashes : List UInt64) (w : WorkerKey)
  | cleared (w : WorkerKey)
  | removeWorker (instanceId : InstanceId) (dpRank : DpRank)
  | sweepCaches (now pendingTtl contentTtl offloadTtl : Nat)
  | sweepNodes (σ : HashOrder NodeId) (fuel : Nat)

namespace IndexerEntry

/-- A step counts whether it returned `Ok` or `Err`; a sweep of the nodes counts if it ends. -/
def exec (e : IndexerEntry) : EntryOp → Option IndexerEntry
  | .event w event => some (e.applyEvent w event).2
  | .offload now σ triples => some (e.offloadBlocks now σ triples).2
  | .pool now σ blockHashes w => some (e.poolStored now σ blockHashes w).2
  | .removed blockHashes w => some (e.removeFrom blockHashes w).2
  | .cleared w => some (e.clearAll w).2
  | .removeWorker instanceId dpRank => some (e.removeWorkerAllMedia instanceId dpRank)
  | .sweepCaches now pendingTtl contentTtl offloadTtl =>
    let (_, s) := e.offloadPool.sweepStaleCaches now pendingTtl contentTtl offloadTtl
    some { e with offloadPool := s }
  | .sweepNodes σ fuel =>
    (e.hbm.tree.sweepStaleNodes σ fuel).map (fun p => { e with hbm := ⟨p.1, e.hbm.lookups⟩ })

/-! ## Invariants of the tiers -/

variable {e e' : IndexerEntry}

/-- A property of the tier of a medium is kept if the events of the workers of this medium keep it,
and if any worker may be cleared. -/
structure KeptInTier (P : StorageMedium → LowerTierIndexer → Prop) : Prop where
  apply : ∀ {t w}, P w.medium t → ∀ event, P w.medium (t.apply w event)
  clear : ∀ {medium t}, P medium t → ∀ w, P medium (t.clearWorker w)

/-- Both lower tiers have the property. -/
def BothTiers (P : StorageMedium → LowerTierIndexer → Prop) (e : IndexerEntry) : Prop :=
  P .cpu e.cpuTiers ∧ P .disk e.diskTiers

namespace KeptInTier

variable {P : StorageMedium → LowerTierIndexer → Prop}

theorem applyEvent (hP : KeptInTier P) (h : BothTiers P e) (w : WorkerKey)
    (event : KvCacheEventData) : BothTiers P (e.applyEvent w event).2 := by
  refine ⟨?_, ?_⟩
  · rw [applyEvent_cpuTiers]
    split
    · next hm =>
      rw [← hm]
      exact hP.apply (hm ▸ h.1) event
    · exact h.1
  · rw [applyEvent_diskTiers]
    split
    · next hm =>
      rw [← hm]
      exact hP.apply (hm ▸ h.2) event
    · exact h.2

theorem applyStores (hP : KeptInTier P) (blocks : List PlacedBlock) (w : WorkerKey) :
    ∀ {e : IndexerEntry}, BothTiers P e → BothTiers P (e.applyStores w blocks).2 := by
  induction blocks with
  | nil =>
    intro e h
    exact h
  | cons b blocks ih =>
    intro e h
    have hb := hP.applyEvent h w (.stored ⟨b.1, [b.2]⟩)
    rw [IndexerEntry.applyStores]
    split
    · next heq =>
      rw [heq] at hb
      exact ih hb
    · next heq =>
      rw [heq] at hb
      exact hb

theorem applyMatched (hP : KeptInTier P) (matched : List (WorkerKey × List PlacedBlock)) :
    ∀ {e : IndexerEntry}, BothTiers P e → BothTiers P (e.applyMatched matched).2 := by
  induction matched with
  | nil =>
    intro e h
    exact h
  | cons p matched ih =>
    intro e h
    have hp := hP.applyStores p.2 p.1 h
    rw [IndexerEntry.applyMatched]
    split
    · next heq =>
      rw [heq] at hp
      exact ih hp
    · next heq =>
      rw [heq] at hp
      exact hp

theorem foldl_clearWorker (hP : KeptInTier P) {medium : StorageMedium} (ws : List WorkerKey) :
    ∀ {t : LowerTierIndexer}, P medium t → P medium (ws.foldl (·.clearWorker) t) := by
  induction ws with
  | nil =>
    intro t h
    exact h
  | cons w ws ih =>
    intro t h
    exact ih (hP.clear h w)

/-- **Every step keeps it.** -/
theorem exec (hP : KeptInTier P) {op : EntryOp} (h : BothTiers P e) (he : e.exec op = some e') :
    BothTiers P e' := by
  cases op with
  | event w event =>
    cases he
    exact hP.applyEvent h w event
  | offload now σ triples =>
    cases he
    refine hP.applyMatched _ ?_
    exact h
  | pool now σ hs w =>
    cases he
    refine hP.applyStores _ w ?_
    exact h
  | removed hs w =>
    cases he
    unfold removeFrom
    simp only
    split
    · exact h
    · refine hP.applyEvent ?_ w _
      exact h
  | cleared w =>
    cases he
    have hc := hP.applyEvent h w .cleared
    unfold clearAll
    split
    · next heq =>
      rw [heq] at hc
      exact hc
    · next heq =>
      rw [heq] at hc
      exact hc
  | removeWorker iid dp =>
    cases he
    exact ⟨hP.foldl_clearWorker _ h.1, hP.foldl_clearWorker _ h.2⟩
  | sweepCaches now p c o =>
    cases he
    exact h
  | sweepNodes σ fuel =>
    simp only [IndexerEntry.exec, Option.map_eq_some_iff] at he
    obtain ⟨p, -, rfl⟩ := he
    exact h

/-- **It holds in every run** that starts with it. -/
theorem run (hP : KeptInTier P) (hnew : ∀ medium, P medium .new) {ops : List EntryOp}
    (hrun : Run IndexerEntry.exec Free new ops e) : BothTiers P e :=
  hrun.invariant_state (I := BothTiers P) ⟨hnew .cpu, hnew .disk⟩ (fun h _ he => hP.exec h he)

end KeptInTier

/-! ### The tiers stay consistent -/

/-- In both lower tiers the owners of the edges and the reverse tables agree. -/
def TiersConsistent (e : IndexerEntry) : Prop := e.cpuTiers.Consistent ∧ e.diskTiers.Consistent

theorem consistent_kept : KeptInTier (fun _ t => t.Consistent) where
  apply h event := h.apply _ event
  clear h w := h.clearWorker w

theorem run_tiersConsistent {ops : List EntryOp} (hrun : Run exec Free new ops e) :
    e.TiersConsistent :=
  consistent_kept.run (fun _ => LowerTierIndexer.consistent_new) hrun

/-! ### Workers are in the tier of their medium -/

/-- The owners in a tier are workers of its medium. -/
def OwnersOn (medium : StorageMedium) (t : LowerTierIndexer) : Prop :=
  t.Consistent ∧ ∀ w key child, LowerTierIndexer.OwnsEdge t.edges w key child → w.medium = medium

theorem ownersOn_kept : KeptInTier OwnersOn where
  apply := by
    rintro t w ⟨hcons, hown⟩ event
    refine ⟨hcons.apply w event, fun v key child h => ?_⟩
    by_cases hv : v = w
    · rw [hv]
    · rw [(hcons.apply w event).agree, LowerTierIndexer.workerMap_apply_ne t event hv,
        ← hcons.agree] at h
      exact hown v key child h
  clear := by
    rintro medium t ⟨hcons, hown⟩ w
    refine ⟨hcons.clearWorker w, fun v key child h => ?_⟩
    rw [(hcons.clearWorker w).agree] at h
    by_cases hv : v = w
    · rw [hv, LowerTierIndexer.workerMap_clearWorker, Function.update_self, Dict.get?_empty] at h
      cases h
    · rw [LowerTierIndexer.workerMap_clearWorker, Function.update_of_ne hv, ← hcons.agree] at h
      exact hown v key child h

theorem run_ownersOn {ops : List EntryOp} (hrun : Run exec Free new ops e) : BothTiers OwnersOn e :=
  ownersOn_kept.run (fun _ => ⟨LowerTierIndexer.consistent_new, by
    rintro w key child ⟨edge, hedge, -⟩
    simp [LowerTierIndexer.new] at hedge⟩) hrun

end IndexerEntry

end PyMotor.Conductor
