import PyMotor.Conductor.IndexerEntry

/-!
# Offloads and pool events in any order

Take an entry that receives nothing but offloads and pool events of CPU and Disk workers, each event
ingested and its matches applied before the next. What the entry holds is then a function of which
events have occurred, not of their order or number (`CachesHold`, `TiersHold`): a worker owns a block
as soon as both the block was offloaded and a pool event named the two together. Until then the one
that came first waits in the caches, and a block that was confirmed stays known there even if it is
offloaded again.

The engine's hash makes the content of a block a function `content` of its hash, and different blocks
have different contents; otherwise the first writer of an edge would win.
-/

namespace PyMotor.Conductor

open Function (update update_self update_of_ne)

variable {content : UInt64 → BlockContent}

/-- The edge of a block with this content. -/
def BlockContent.key (c : BlockContent) : TransitionKey := ⟨c.parentHash, c.tokensHash⟩

/-- The block `b`, ready to be stored. -/
def placed (content : UInt64 → BlockContent) (b : UInt64) : PlacedBlock :=
  ((content b).parentHash, ⟨b, (content b).tokensHash⟩)

/-- The event that stores it. -/
def storeOf (content : UInt64 → BlockContent) (b : UInt64) : KvCacheStoreData :=
  ⟨(placed content b).1, [(placed content b).2]⟩

theorem placed_injective {b b' : UInt64} (h : placed content b = placed content b') : b = b' :=
  congrArg (fun x => x.2.blockHash) h

theorem eq_of_key_eq {S : Set UInt64} (hinj : Set.InjOn content S) {b c : UInt64} (hb : b ∈ S)
    (hc : c ∈ S) (hkey : (content c).key = (content b).key) : c = b := by
  rw [BlockContent.key, BlockContent.key, TransitionKey.mk.injEq] at hkey
  exact hinj hc hb (BlockContent.ext hkey.2 hkey.1)

/-! ## The tiers -/

namespace LowerTierIndexer

variable {t : LowerTierIndexer} {R : WorkerKey → UInt64 → Prop} {w : WorkerKey} {b : UInt64}

/-- The tier stores exactly the pairs `R`, every block under the edge of its content. -/
structure Holds (content : UInt64 → BlockContent) (t : LowerTierIndexer)
    (R : WorkerKey → UInt64 → Prop) : Prop extends Consistent t where
  table : ∀ w b k, (t.workerMap w).get? b = some k ↔ R w b ∧ k = (content b).key

theorem holds_new : Holds content new (fun _ _ => False) where
  toConsistent := consistent_new
  table w b k := by simp [workerMap, new]

theorem Holds.edge (h : Holds content t R) {key : TransitionKey} {edge : EdgeOwnersEntry}
    (hget : t.edges.get? key = some edge) :
    ∃ v, R v edge.childHash ∧ key = (content edge.childHash).key := by
  obtain ⟨v, hv⟩ := h.owned key edge hget
  exact ⟨v, (h.table v _ key).mp ((h.agree v key _).mp ⟨edge, hget, rfl, hv⟩)⟩

theorem Holds.ownsEdge_iff (h : Holds content t R) {key : TransitionKey} :
    OwnsEdge t.edges w key b ↔ R w b ∧ key = (content b).key := by
  rw [h.agree w key b, h.table w b key]

/-- **Storing one block** adds one pair, unless its edge is taken by another block. -/
theorem Holds.store (h : Holds content t R) (w : WorkerKey) (b : UInt64)
    (hfree : ∀ v c, R v c → (content c).key = (content b).key → c = b) :
    Holds content (t.storeBlocks w (storeOf content b))
      (fun v c => R v c ∨ (v = w ∧ c = b)) := by
  have hsame : ((t.workerMap w).get? b).any
      (fun existing => decide (existing ≠ (content b).key)) = false := by
    cases hget : (t.workerMap w).get? b with
    | none => rfl
    | some k => simp [((h.table w b k).mp hget).2]
  obtain ⟨edge, hj⟩ : ∃ edge, joinEdge t.edges (content b).key b w = some edge := by
    unfold joinEdge
    cases hget : t.edges.get? (content b).key with
    | none => exact ⟨_, rfl⟩
    | some edge =>
      obtain ⟨v, hv, hkey⟩ := h.edge hget
      have hchild : edge.childHash = b := hfree v _ hv hkey.symm
      cases hins : edge.insert b w with
      | none => exact absurd hchild (EdgeOwnersEntry.insert_eq_none.mp hins)
      | some edge' => exact ⟨edge', hins⟩
  have hmap : (t.storeBlocks w (storeOf content b)).workerMap =
      update t.workerMap w ((t.workerMap w).insert b (content b).key) := by
    have hloop : storeLoop w t.edges (t.workerMap w) (storeOf content b).parentHash
        (storeOf content b).blocks =
        (t.edges.insert (content b).key edge, (t.workerMap w).insert b (content b).key) := by
      show (if _ then _ else _) = _
      rw [if_neg]
      · split
        · next hnone =>
          rw [show joinEdge t.edges (content b).key b w = none from hnone] at hj
          cases hj
        · next edge' hsome =>
          rw [show joinEdge t.edges (content b).key b w = some edge' from hsome] at hj
          cases hj
          rfl
      · exact Bool.not_eq_true _ ▸ hsame
    rw [storeBlocks]
    simp only [hloop]
    exact workerMap_insert ..
  refine ⟨h.toConsistent.storeBlocks w _, fun v c k => ?_⟩
  rw [hmap]
  by_cases hv : v = w
  · subst hv
    rw [update_self, Dict.get?_insert]
    by_cases hc : b = c
    · subst hc
      simp [eq_comm]
    · simp [hc, Ne.symm hc, h.table v c k]
  · simp [hv, h.table v c k]

theorem Holds.lookupBlock_none (h : Holds content t R) (σ : HashOrder WorkerMap) (i : Nat)
    (hb : ∀ v, ¬ R v b) : t.lookupBlock σ i b = none := by
  have hnone : ∀ ms : List WorkerMap, (∀ m ∈ ms, m.get? b = none) → lookupLoop b ms = none := by
    intro ms
    induction ms with
    | nil => intro _; rfl
    | cons m ms ih =>
      intro hms
      rw [lookupLoop, hms m (by simp)]
      exact ih fun m' hm' => hms m' (List.mem_cons_of_mem m hm')
  refine hnone _ fun m hm => ?_
  obtain ⟨v, hv⟩ := Dict.mem_values_iff.mp (σ.mem_iter.mp hm)
  have hmap : t.workerMap v = m := by simp [workerMap, hv]
  cases hget : m.get? b with
  | none => rfl
  | some k =>
    rw [← hmap] at hget
    exact absurd ((h.table v b k).mp hget).1 (hb v)

end LowerTierIndexer

namespace IndexerEntry

variable {e : IndexerEntry} {R R' : WorkerKey → UInt64 → Prop} {O : UInt64 → Prop} {w : WorkerKey}

/-- Both tiers store the pairs `R` of the workers of their medium. -/
structure TiersHold (content : UInt64 → BlockContent) (e : IndexerEntry)
    (R : WorkerKey → UInt64 → Prop) : Prop where
  cpu : e.cpuTiers.Holds content (fun w b => w.medium = .cpu ∧ R w b)
  disk : e.diskTiers.Holds content (fun w b => w.medium = .disk ∧ R w b)

theorem TiersHold.congr (h : TiersHold content e R) (hR : ∀ w b, R w b ↔ R' w b) :
    TiersHold content e R' := by
  have : R = R' := by
    funext w b
    exact propext (hR w b)
  exact this ▸ h

/-- A worker of one of the two pool media. -/
def OnPoolMedium (w : WorkerKey) : Prop := w.medium = .cpu ∨ w.medium = .disk

/-- **Storing one block of a CPU or Disk worker.** -/
theorem TiersHold.store (h : TiersHold content e R) (hw : OnPoolMedium w) (b : UInt64)
    (hfree : ∀ v c, R v c → (content c).key = (content b).key → c = b) :
    ∃ e', e.applyEvent w (.stored (storeOf content b)) = (.ok (), e') ∧
      e'.offloadPool = e.offloadPool ∧
      TiersHold content e' (fun v c => R v c ∨ (v = w ∧ c = b)) := by
  have hcpu := h.cpu.store w b (fun v c hv => hfree v c hv.2)
  have hdisk := h.disk.store w b (fun v c hv => hfree v c hv.2)
  rcases hw with hm | hm
  · refine ⟨{ e with cpuTiers := e.cpuTiers.storeBlocks w (storeOf content b) },
      by simp only [applyEvent, hm], rfl, ?_, ?_⟩
    · refine ⟨hcpu.toConsistent, fun v c k => ?_⟩
      rw [hcpu.table v c k]
      have : v = w → v.medium = .cpu := by rintro rfl; exact hm
      tauto
    · refine ⟨h.disk.toConsistent, fun v c k => ?_⟩
      rw [h.disk.table v c k]
      have : v = w → v.medium ≠ .disk := by rintro rfl; rw [hm]; decide
      tauto
  · refine ⟨{ e with diskTiers := e.diskTiers.storeBlocks w (storeOf content b) },
      by simp only [applyEvent, hm], rfl, ?_, ?_⟩
    · refine ⟨h.cpu.toConsistent, fun v c k => ?_⟩
      rw [h.cpu.table v c k]
      have : v = w → v.medium ≠ .cpu := by rintro rfl; rw [hm]; decide
      tauto
    · refine ⟨hdisk.toConsistent, fun v c k => ?_⟩
      rw [hdisk.table v c k]
      have : v = w → v.medium = .disk := by rintro rfl; exact hm
      tauto

/-- The blocks of one worker. `O` bounds the blocks that occur; on it contents are distinct. -/
theorem TiersHold.applyStores (hinj : ∀ b c, O b → O c → (content c).key = (content b).key → c = b)
    (blocks : List PlacedBlock)
    (hblocks : ∀ x ∈ blocks, OnPoolMedium w ∧ ∃ b, O b ∧ x = placed content b) :
    ∀ {e : IndexerEntry} {R : WorkerKey → UInt64 → Prop}, TiersHold content e R →
      (∀ v c, R v c → O c) →
      ∃ e', e.applyStores w blocks = (.ok (), e') ∧ e'.offloadPool = e.offloadPool ∧
        TiersHold content e' (fun v c => R v c ∨ (v = w ∧ placed content c ∈ blocks)) := by
  induction blocks with
  | nil =>
    intro e R h _
    exact ⟨e, rfl, rfl, h.congr fun v c => by simp⟩
  | cons x blocks ih =>
    intro e R h hO
    obtain ⟨hw, b, hb, rfl⟩ := hblocks x (by simp)
    obtain ⟨e₁, he₁, hs₁, h₁⟩ := h.store hw b (fun v c hv => hinj b c hb (hO v c hv))
    obtain ⟨e₂, he₂, hs₂, h₂⟩ :=
      ih (fun y hy => hblocks y (List.mem_cons_of_mem _ hy)) h₁ (by
        rintro v c (hv | ⟨-, rfl⟩)
        · exact hO v c hv
        · exact hb)
    refine ⟨e₂, ?_, hs₂.trans hs₁, h₂.congr fun v c => ?_⟩
    · unfold IndexerEntry.applyStores
      rw [show e.applyEvent w (.stored ⟨_, [_]⟩) = _ from he₁]
      exact he₂
    · have : placed content c = placed content b ↔ c = b :=
        ⟨placed_injective, fun h => by rw [h]⟩
      rw [List.mem_cons, this]
      tauto

theorem TiersHold.applyMatched
    (hinj : ∀ b c, O b → O c → (content c).key = (content b).key → c = b)
    (matched : List (WorkerKey × List PlacedBlock))
    (hmatched : ∀ p ∈ matched, ∀ x ∈ p.2, OnPoolMedium p.1 ∧ ∃ b, O b ∧ x = placed content b) :
    ∀ {e : IndexerEntry} {R : WorkerKey → UInt64 → Prop}, TiersHold content e R →
      (∀ v c, R v c → O c) →
      ∃ e', e.applyMatched matched = (.ok (), e') ∧ e'.offloadPool = e.offloadPool ∧
        TiersHold content e'
          (fun v c => R v c ∨ ∃ blocks, (v, blocks) ∈ matched ∧ placed content c ∈ blocks) := by
  induction matched with
  | nil =>
    intro e R h _
    exact ⟨e, rfl, rfl, h.congr fun v c => by simp⟩
  | cons p matched ih =>
    intro e R h hO
    have hblocks := hmatched p (by simp)
    obtain ⟨e₁, he₁, hs₁, h₁⟩ := TiersHold.applyStores hinj p.2 hblocks h hO
    obtain ⟨e₂, he₂, hs₂, h₂⟩ :=
      ih (fun q hq => hmatched q (List.mem_cons_of_mem _ hq)) h₁ (by
        rintro v c (hv | ⟨-, hc⟩)
        · exact hO v c hv
        · obtain ⟨-, b, hb, hcb⟩ := hblocks _ hc
          rw [placed_injective hcb]
          exact hb)
    refine ⟨e₂, ?_, hs₂.trans hs₁, h₂.congr fun v c => ?_⟩
    · unfold IndexerEntry.applyMatched
      rw [he₁]
      exact he₂
    · simp only [List.mem_cons, or_assoc]
      refine or_congr_right ?_
      constructor
      · rintro (⟨rfl, hc⟩ | ⟨blocks, hmem, hc⟩)
        · exact ⟨p.2, Or.inl rfl, hc⟩
        · exact ⟨blocks, Or.inr hmem, hc⟩
      · rintro ⟨blocks, rfl | hmem, hc⟩
        · exact Or.inl ⟨rfl, hc⟩
        · exact Or.inr ⟨blocks, hmem, hc⟩

end IndexerEntry

/-! ## The caches -/

namespace OffloadPoolState

variable {s : OffloadPoolState} {Off Off' : UInt64 → Prop} {Pl Pl' : UInt64 → WorkerKey → Prop}
  {b : UInt64} {w : WorkerKey} {now : Instant}

/-- The caches when the blocks `Off` have been offloaded and the pairs `Pl` named by pool events: an
offloaded block is known and nobody waits for it, any other block is unknown and everybody who was
named with it waits. -/
structure CachesHold (content : UInt64 → BlockContent) (Off : UInt64 → Prop)
    (Pl : UInt64 → WorkerKey → Prop) (s : OffloadPoolState) : Prop where
  offload : ∀ b x, s.offload.get? b = some x → Off b ∧ x.content = content b
  confirmed : ∀ b x, s.content.get? b = some x → Off b ∧ x.content = content b
  known : ∀ b, Off b → s.pendingPool.get? b = none ∧
    ((∃ x, s.offload.get? b = some x) ∨ ∃ x, s.content.get? b = some x)
  waiting : ∀ b w, ¬ Off b → (s.waits b w = true ↔ Pl b w)

namespace CachesHold

theorem new : CachesHold content (fun _ => False) (fun _ _ => False) new where
  offload b x h := by simp [OffloadPoolState.new] at h
  confirmed b x h := by simp [OffloadPoolState.new] at h
  known b h := h.elim
  waiting b w _ := by simp [waits, OffloadPoolState.new]

theorem congr (h : CachesHold content Off Pl s) (hOff : ∀ b, Off b ↔ Off' b)
    (hPl : ∀ b w, ¬ Off b → (Pl b w ↔ Pl' b w)) : CachesHold content Off' Pl' s where
  offload b x hx := ⟨(hOff b).mp (h.offload b x hx).1, (h.offload b x hx).2⟩
  confirmed b x hx := ⟨(hOff b).mp (h.confirmed b x hx).1, (h.confirmed b x hx).2⟩
  known b hb := h.known b ((hOff b).mpr hb)
  waiting b w hb := by
    have hb' : ¬ Off b := mt (hOff b).mp hb
    rw [h.waiting b w hb', hPl b w hb']

theorem confirm (h : CachesHold content Off Pl s) (b : UInt64) (now : Instant) :
    CachesHold content (fun c => Off c ∨ c = b) Pl
      { offload := s.offload.erase b
        content := s.content.insert b ⟨content b, now⟩
        pendingPool := s.pendingPool.erase b } where
  offload c x hx := by
    have hold := h.offload c x (Dict.get?_of_erase hx)
    exact ⟨Or.inl hold.1, hold.2⟩
  confirmed c x hx := by
    simp only [Dict.get?_insert] at hx
    split at hx
    · next hc => cases hx; exact ⟨Or.inr hc.symm, by rw [hc]⟩
    · exact ⟨Or.inl (h.confirmed c x hx).1, (h.confirmed c x hx).2⟩
  known c hc := by
    by_cases hbc : b = c
    · subst hbc
      simp
    · have hc' : Off c := hc.resolve_right (Ne.symm hbc)
      simp only [Dict.get?_erase_ne _ hbc, Dict.get?_insert_ne _ _ hbc]
      exact h.known c hc'
  waiting c w hc := by
    rw [not_or] at hc
    rw [← h.waiting c w hc.1, waits, waits, Dict.get?_erase_ne _ (Ne.symm hc.2)]

theorem cache (h : CachesHold content Off Pl s) (b : UInt64) (now : Instant)
    (hb : s.pendingPool.get? b = none) :
    CachesHold content (fun c => Off c ∨ c = b) Pl
      { s with
        offload := s.offload.insert b ⟨content b, now⟩
        content := s.content.erase b } where
  offload c x hx := by
    simp only [Dict.get?_insert] at hx
    split at hx
    · next hc => cases hx; exact ⟨Or.inr hc.symm, by rw [hc]⟩
    · exact ⟨Or.inl (h.offload c x hx).1, (h.offload c x hx).2⟩
  confirmed c x hx := by
    have hold := h.confirmed c x (Dict.get?_of_erase hx)
    exact ⟨Or.inl hold.1, hold.2⟩
  known c hc := by
    by_cases hbc : b = c
    · subst hbc
      exact ⟨hb, Or.inl ⟨_, Dict.get?_insert_self ..⟩⟩
    · have hc' : Off c := hc.resolve_right (Ne.symm hbc)
      simp only [Dict.get?_erase_ne _ hbc, Dict.get?_insert_ne _ _ hbc]
      exact h.known c hc'
  waiting c w hc := by
    rw [not_or] at hc
    exact h.waiting c w hc.1

theorem move (h : CachesHold content Off Pl s) (hb : Off b) :
    CachesHold content Off Pl
      { s with
        offload := s.offload.erase b
        content := s.content.insert b ⟨content b, now⟩ } where
  offload c x hx := by
    exact h.offload c x (Dict.get?_of_erase hx)
  confirmed c x hx := by
    simp only [Dict.get?_insert] at hx
    split at hx
    · next hcb => cases hx; exact ⟨hcb ▸ hb, by rw [hcb]⟩
    · exact h.confirmed c x hx
  known c hc := by
    refine ⟨(h.known c hc).1, ?_⟩
    by_cases hbc : b = c
    · subst hbc
      exact Or.inr ⟨_, Dict.get?_insert_self ..⟩
    · simp only [Dict.get?_erase_ne _ hbc, Dict.get?_insert_ne _ _ hbc]
      exact (h.known c hc).2
  waiting := h.waiting

theorem resolve (h : CachesHold content Off Pl s) (now : Instant) (b : UInt64) :
    CachesHold content Off Pl (s.resolvePoolContent now b).2 ∧
      (Off b → (s.resolvePoolContent now b).1 = some (content b)) ∧
      (¬ Off b → (s.resolvePoolContent now b).1 = none) := by
  unfold resolvePoolContent
  cases ho : s.offload.get? b with
  | some x =>
    obtain ⟨hOff, hx⟩ := h.offload b x ho
    refine ⟨?_, fun _ => by simp only [hx], fun hno => absurd hOff hno⟩
    simp only [hx]
    exact h.move hOff
  | none =>
    refine ⟨h, fun hOff => ?_, fun hno => ?_⟩
    · obtain ⟨-, ⟨x, hx⟩ | ⟨x, hx⟩⟩ := h.known b hOff
      · rw [ho] at hx
        cases hx
      · simp only [hx, Option.map_some, (h.confirmed b x hx).2]
    · cases hc : s.content.get? b with
      | none => rfl
      | some x => exact absurd (h.confirmed b x hc).1 hno

theorem queue (h : CachesHold content Off Pl s) (now : Instant) (w : WorkerKey) (hb : ¬ Off b) :
    CachesHold content Off (fun c v => Pl c v ∨ (v = w ∧ c = b)) (s.queuePending now b w) where
  offload := h.offload
  confirmed := h.confirmed
  known c hc := by
    refine ⟨?_, (h.known c hc).2⟩
    have hne : b ≠ c := fun hbc => hb (hbc ▸ hc)
    simp only [queuePending, Dict.get?_insert_ne _ _ hne]
    exact (h.known c hc).1
  waiting c v hc := by
    rw [← h.waiting c v hc]
    by_cases hbc : b = c
    · subst hbc
      simp only [queuePending, waits, Dict.get?_insert_self, and_true]
      cases hp : s.pendingPool.get? b with
      | none =>
        simp only [Option.getD_none, Bool.false_eq_true, false_or]
        rw [if_neg (by simp [Dict.contains]), Dict.contains_insert]
        simp [Dict.contains, eq_comm]
      | some entries =>
        simp only [Option.getD_some]
        split
        · next hcont =>
          constructor
          · exact Or.inl
          · rintro (hv | rfl)
            · exact hv
            · exact hcont
        · rw [Dict.contains_insert]
          tauto
    · simp only [queuePending, waits, Dict.get?_insert_ne _ _ hbc, Ne.symm hbc, and_false, or_false]

end CachesHold

/-! ## The loops over an event -/

theorem mem_pushMatched {x y : PlacedBlock} (ws : List WorkerKey) :
    ∀ {matched : Matched},
      x ∈ ((pushMatched matched ws y).get? w).getD [] ↔
        x ∈ (matched.get? w).getD [] ∨ (w ∈ ws ∧ x = y) := by
  induction ws with
  | nil =>
    intro matched
    simp [pushMatched]
  | cons v ws ih =>
    intro matched
    have hstep : pushMatched matched (v :: ws) y =
        pushMatched (matched.insert v ((matched.get? v).getD [] ++ [y])) ws y := rfl
    rw [hstep, ih, Dict.get?_insert, List.mem_cons]
    by_cases hv : v = w
    · subst hv
      simp only [↓reduceIte, Option.getD_some, List.mem_append, List.mem_singleton, true_or,
        true_and]
      tauto
    · simp only [hv, ↓reduceIte, Ne.symm hv, false_or]

/-- The triples of an offload event say what the blocks contain. -/
def Truthful (content : UInt64 → BlockContent) (triples : List OffloadTriple) : Prop :=
  ∀ x ∈ triples, x.2 = ((content x.1).tokensHash, (content x.1).parentHash)

/-- **An offload event** makes its blocks known, and matches those that it made known with everybody
who was waiting. -/
theorem CachesHold.ingestOffloadLoop (now : Instant) (triples : List OffloadTriple)
    (htrue : Truthful content triples) :
    ∀ {Off : UInt64 → Prop} {s : OffloadPoolState} (matched : Matched),
      CachesHold content Off Pl s →
      CachesHold content (fun b => Off b ∨ b ∈ triples.map (·.1)) Pl
        (ingestOffloadLoop now matched s triples).2 ∧
      ∀ w x, x ∈ ((ingestOffloadLoop now matched s triples).1.get? w).getD [] ↔
        x ∈ (matched.get? w).getD [] ∨
          ∃ b ∈ triples.map (·.1), ¬ Off b ∧ Pl b w ∧ x = placed content b := by
  induction triples with
  | nil =>
    intro Off s matched h
    refine ⟨h.congr (fun b => by simp) (fun _ _ _ => Iff.rfl), fun w x => ?_⟩
    simp [OffloadPoolState.ingestOffloadLoop]
  | cons tr triples ih =>
    obtain ⟨b, th, ph⟩ := tr
    intro Off s matched h
    have htr := htrue (b, th, ph) (by simp)
    simp only [Prod.mk.injEq] at htr
    obtain ⟨rfl, rfl⟩ := htr
    have hrest : Truthful content triples := fun x hx => htrue x (List.mem_cons_of_mem _ hx)
    have hOff : ∀ {c : UInt64}, (Off c ∨ c = b) ∨ c ∈ triples.map (·.1) ↔
        Off c ∨ c ∈ ((b, (content b).tokensHash, (content b).parentHash) :: triples).map (·.1) := by
      intro c
      rw [List.map_cons, List.mem_cons, or_assoc]
    rw [OffloadPoolState.ingestOffloadLoop]
    cases hp : s.pendingPool.get? b with
    | some pending =>
      have hnew : ¬ Off b := fun hOff => by
        rw [(h.known b hOff).1] at hp
        cases hp
      have hkeys : ∀ v, v ∈ pending.keys ↔ Pl b v := by
        intro v
        rw [← h.waiting b v hnew, waits, hp, Dict.mem_keys_iff, Dict.contains_iff]
      obtain ⟨h', hmatched⟩ := ih hrest (pushMatched matched pending.keys (placed content b))
        (h.confirm b now)
      refine ⟨h'.congr (fun c => hOff) (fun _ _ _ => Iff.rfl), fun v x => ?_⟩
      show x ∈ ((OffloadPoolState.ingestOffloadLoop now
        (pushMatched matched pending.keys (placed content b)) _ triples).1.get? v).getD [] ↔ _
      rw [hmatched v x, mem_pushMatched, hkeys, or_assoc]
      refine or_congr_right ?_
      simp only [List.map_cons, List.mem_cons]
      constructor
      · rintro (⟨hv, rfl⟩ | ⟨c, hc, hno, hv, rfl⟩)
        · exact ⟨b, Or.inl rfl, hnew, hv, rfl⟩
        · exact ⟨c, Or.inr hc, fun h => hno (Or.inl h), hv, rfl⟩
      · rintro ⟨c, hc, hno, hv, rfl⟩
        by_cases hcb : c = b
        · subst hcb
          exact Or.inl ⟨hv, rfl⟩
        · refine Or.inr ⟨c, hc.resolve_left hcb, ?_, hv, rfl⟩
          rintro (h | h)
          · exact hno h
          · exact hcb h
    | none =>
      -- nobody was waiting for an unknown block
      have hnobody : ∀ v, ¬ Off b → ¬ Pl b v := by
        intro v hno hv
        have := (h.waiting b v hno).mpr hv
        simp [waits, hp] at this
      obtain ⟨h', hmatched⟩ := ih hrest matched (h.cache b now hp)
      refine ⟨h'.congr (fun c => hOff) (fun _ _ _ => Iff.rfl), fun v x => ?_⟩
      rw [hmatched v x]
      refine or_congr_right ?_
      simp only [List.map_cons, List.mem_cons]
      constructor
      · rintro ⟨c, hc, hno, hv, rfl⟩
        exact ⟨c, Or.inr hc, fun h => hno (Or.inl h), hv, rfl⟩
      · rintro ⟨c, hc, hno, hv, rfl⟩
        have hcb : c ≠ b := by
          rintro rfl
          exact hnobody v hno hv
        refine ⟨c, hc.resolve_left hcb, ?_, hv, rfl⟩
        rintro (h | h)
        · exact hno h
        · exact hcb h

/-- **A pool event** finds the content of its offloaded blocks, and has to look up the others. -/
theorem CachesHold.resolveLoop (now : Instant) (hs : List UInt64) :
    ∀ {s : OffloadPoolState}, CachesHold content Off Pl s →
      CachesHold content Off Pl (resolveLoop now s hs).2.2 ∧
      (∀ x, x ∈ (resolveLoop now s hs).1 ↔ ∃ b ∈ hs, Off b ∧ x = placed content b) ∧
      ∀ b, b ∈ (resolveLoop now s hs).2.1 ↔ b ∈ hs ∧ ¬ Off b := by
  induction hs with
  | nil =>
    intro s h
    exact ⟨h, by simp [OffloadPoolState.resolveLoop], by simp [OffloadPoolState.resolveLoop]⟩
  | cons b hs ih =>
    intro s h
    obtain ⟨h₁, hfound, hmissed⟩ := h.resolve now b
    obtain ⟨h₂, hmatched, hneed⟩ := ih h₁
    rw [OffloadPoolState.resolveLoop]
    -- a block resolves if it was offloaded, and is queued if not
    by_cases hb : Off b
    · have hres := hfound hb
      split
      · next c s' heq =>
        rw [heq] at hres h₂ hmatched hneed
        cases hres
        refine ⟨h₂, fun x => ?_, fun c => ?_⟩
        · simp only [List.mem_cons, hmatched]
          constructor
          · rintro (rfl | ⟨c, hc, hOff, rfl⟩)
            · exact ⟨b, Or.inl rfl, hb, rfl⟩
            · exact ⟨c, Or.inr hc, hOff, rfl⟩
          · rintro ⟨c, rfl | hc, hOff, rfl⟩
            · exact Or.inl rfl
            · exact Or.inr ⟨c, hc, hOff, rfl⟩
        · simp only [List.mem_cons, hneed]
          constructor
          · rintro ⟨hc, hno⟩
            exact ⟨Or.inr hc, hno⟩
          · rintro ⟨hc | hc, hno⟩
            · exact absurd (hc ▸ hb) hno
            · exact ⟨hc, hno⟩
      · next s' heq =>
        rw [heq] at hres
        cases hres
    · have hres := hmissed hb
      split
      · next c s' heq =>
        rw [heq] at hres
        cases hres
      · next s' heq =>
        rw [heq] at h₂ hmatched hneed
        refine ⟨h₂, fun x => ?_, fun c => ?_⟩
        · simp only [List.mem_cons, hmatched]
          constructor
          · rintro ⟨c, hc, hOff, rfl⟩
            exact ⟨c, Or.inr hc, hOff, rfl⟩
          · rintro ⟨c, rfl | hc, hOff, rfl⟩
            · exact absurd hOff hb
            · exact ⟨c, hc, hOff, rfl⟩
        · simp only [List.mem_cons, hneed]
          constructor
          · rintro (rfl | ⟨hc, hno⟩)
            · exact ⟨Or.inl rfl, hb⟩
            · exact ⟨Or.inr hc, hno⟩
          · rintro ⟨rfl | hc, hno⟩
            · exact Or.inl rfl
            · exact Or.inr ⟨hc, hno⟩

end OffloadPoolState

/-! ## Events of the two kinds -/

namespace IndexerEntry

open OffloadPoolState (CachesHold Truthful)

variable {e e' : IndexerEntry} {Off : UInt64 → Prop} {Pl : UInt64 → WorkerKey → Prop}
  {w : WorkerKey} {now : Instant}

theorem tierLoop_queues (now : Instant) (w : WorkerKey) (σ : HashOrder WorkerMap) (bs : List UInt64)
    (hbs : ∀ b ∈ bs, ¬ Off b) (htier : ∀ b, ¬ Off b → ∀ i, e.tierContent σ i b = none) :
    ∀ (i : Nat) {Pl : UInt64 → WorkerKey → Prop} {s : OffloadPoolState},
      CachesHold content Off Pl s →
      ∃ s', e.tierLoop now σ w i s bs = ([], s') ∧
        CachesHold content Off (fun b v => Pl b v ∨ (v = w ∧ b ∈ bs)) s' := by
  induction bs with
  | nil =>
    intro i Pl s h
    exact ⟨s, rfl, h.congr (fun _ => Iff.rfl) (fun b v _ => by simp)⟩
  | cons b bs ih =>
    intro i Pl s h
    have hb := hbs b (by simp)
    obtain ⟨s', hs', h'⟩ := ih (fun c hc => hbs c (List.mem_cons_of_mem b hc)) (i + 2)
      (h.queue now w hb)
    refine ⟨s', ?_, h'.congr (fun _ => Iff.rfl) fun c v _ => ?_⟩
    · rw [tierLoop, htier b hb i]
      exact hs'
    · rw [List.mem_cons]
      tauto

theorem tierContent_none (h : TiersHold content e (fun w b => Off b ∧ Pl b w))
    (σ : HashOrder WorkerMap) (b : UInt64) (hb : ¬ Off b) (i : Nat) :
    e.tierContent σ i b = none := by
  have hcpu := h.cpu.lookupBlock_none σ i (fun v hv => hb hv.2.1)
  have hdisk := h.disk.lookupBlock_none σ (i + 1) (fun v hv => hb hv.2.1)
  rw [tierContent, hcpu, hdisk]
  rfl

/-- The entry when the blocks `Off` have been offloaded and the pairs `Pl` named by pool events. -/
structure EntryHolds (content : UInt64 → BlockContent) (Off : UInt64 → Prop)
    (Pl : UInt64 → WorkerKey → Prop) (e : IndexerEntry) : Prop where
  caches : CachesHold content Off Pl e.offloadPool
  tiers : TiersHold content e (fun w b => Off b ∧ Pl b w)
  pool : ∀ b w, Pl b w → OnPoolMedium w

/-- **An offload event** adds its blocks. -/
theorem EntryHolds.offloadBlocks (h : EntryHolds content Off Pl e)
    (σ : HashOrder (WorkerKey × List PlacedBlock)) {triples : List OffloadTriple}
    (htrue : Truthful content triples)
    (hinj : Set.InjOn content {b | Off b ∨ b ∈ triples.map (·.1)}) :
    EntryHolds content (fun b => Off b ∨ b ∈ triples.map (·.1)) Pl
      (e.offloadBlocks now σ triples).2 := by
  obtain ⟨hcaches, hmatched⟩ := CachesHold.ingestOffloadLoop now triples htrue ∅ h.caches
  -- a block is handed to a worker exactly if it is new and was awaited
  have hentries : ∀ w x, (∃ blocks, (w, blocks) ∈ σ.iter 0
      (e.offloadPool.ingestOffloadBlocks now triples).1.entries ∧ x ∈ blocks) ↔
      ∃ b ∈ triples.map (·.1), ¬ Off b ∧ Pl b w ∧ x = placed content b := by
    intro w x
    have hwx := hmatched w x
    simp only [Dict.get?_empty, Option.getD_none, List.not_mem_nil, false_or] at hwx
    rw [← hwx]
    simp only [HashOrder.mem_iter, Dict.mem_entries_iff, OffloadPoolState.ingestOffloadBlocks]
    cases (OffloadPoolState.ingestOffloadLoop now ∅ e.offloadPool triples).1.get? w with
    | none => simp
    | some blocks => simp
  obtain ⟨e', he', hs', htiers⟩ := TiersHold.applyMatched
    (e := { e with offloadPool := (e.offloadPool.ingestOffloadBlocks now triples).2 })
    (R := fun w b => Off b ∧ Pl b w) (fun b c hb hc => eq_of_key_eq hinj hb hc)
    (σ.iter 0 (e.offloadPool.ingestOffloadBlocks now triples).1.entries) (by
      rintro ⟨w, blocks⟩ hp x hx
      obtain ⟨b, hb, -, hPl, rfl⟩ := (hentries w x).mp ⟨blocks, hp, hx⟩
      exact ⟨h.pool b w hPl, b, Or.inr hb, rfl⟩) ⟨h.tiers.cpu, h.tiers.disk⟩
    (fun v c hv => Or.inl hv.1)
  have heq : (e.offloadBlocks now σ triples).2 = e' := congrArg Prod.snd he'
  rw [heq]
  refine ⟨?_, htiers.congr fun v c => ?_, h.pool⟩
  · rw [hs']
    exact hcaches
  · rw [hentries v (placed content c)]
    constructor
    · rintro (⟨hOff, hPl⟩ | ⟨b, hb, -, hPl, hbc⟩)
      · exact ⟨Or.inl hOff, hPl⟩
      · rw [placed_injective hbc]
        exact ⟨Or.inr hb, hPl⟩
    · rintro ⟨hOff, hPl⟩
      by_cases hold : Off c
      · exact Or.inl ⟨hold, hPl⟩
      · exact Or.inr ⟨c, hOff.resolve_left hold, hold, hPl, rfl⟩

/-- **A pool event** adds its pairs. -/
theorem EntryHolds.poolStored (h : EntryHolds content Off Pl e) (σ : HashOrder WorkerMap)
    (hw : OnPoolMedium w) (hs : List UInt64) (hinj : Set.InjOn content {b | Off b}) :
    EntryHolds content Off (fun b v => Pl b v ∨ (v = w ∧ b ∈ hs)) (e.poolStored now σ hs w).2 := by
  obtain ⟨hcaches, hmatched, hneed⟩ := CachesHold.resolveLoop now hs h.caches
  obtain ⟨s', hs', hqueued⟩ := tierLoop_queues now w σ
    (OffloadPoolState.resolveLoop now e.offloadPool hs).2.1 (fun b hb => ((hneed b).mp hb).2)
    (fun b hb i => tierContent_none h.tiers σ b hb i) 0 hcaches
  have hingest : e.ingestPoolBlocks now σ hs w =
      ((OffloadPoolState.resolveLoop now e.offloadPool hs).1, { e with offloadPool := s' }) := by
    rw [ingestPoolBlocks]
    simp only [hs', List.append_nil]
  obtain ⟨e', he', hs'', htiers⟩ := TiersHold.applyStores (w := w)
    (e := { e with offloadPool := s' }) (R := fun w b => Off b ∧ Pl b w)
    (fun b c hb hc => eq_of_key_eq hinj hb hc) (OffloadPoolState.resolveLoop now e.offloadPool hs).1 (fun x hx => by
      obtain ⟨b, -, hb, rfl⟩ := (hmatched x).mp hx
      exact ⟨hw, b, hb, rfl⟩) ⟨h.tiers.cpu, h.tiers.disk⟩ (fun v c hv => hv.1)
  have heq : (e.poolStored now σ hs w).2 = e' := by
    rw [IndexerEntry.poolStored, hingest]
    simp only [he']
  rw [heq]
  refine ⟨?_, htiers.congr fun v c => ?_, ?_⟩
  · rw [hs'']
    refine hqueued.congr (fun _ => Iff.rfl) fun b v hb => ?_
    rw [hneed b]
    tauto
  · rw [hmatched]
    constructor
    · rintro (⟨hOff, hPl⟩ | ⟨rfl, b, hb, hOff, hbc⟩)
      · exact ⟨hOff, Or.inl hPl⟩
      · rw [placed_injective hbc]
        exact ⟨hOff, Or.inr ⟨rfl, hb⟩⟩
    · rintro ⟨hOff, hPl | ⟨rfl, hb⟩⟩
      · exact Or.inl ⟨hOff, hPl⟩
      · exact Or.inr ⟨rfl, c, hb, hOff, rfl⟩
  · rintro b v (hPl | ⟨rfl, -⟩)
    · exact h.pool b v hPl
    · exact hw

/-! ## Runs -/

/-- An offload event that says what the blocks contain, or a pool event of a CPU or Disk worker. -/
def IsTwoPhase (content : UInt64 → BlockContent) : EntryOp → Prop
  | .offload _ _ triples => Truthful content triples
  | .pool _ _ _ w => OnPoolMedium w
  | _ => False

/-- The block `b` was offloaded. -/
def Offloaded (ops : List EntryOp) (b : UInt64) : Prop :=
  ∃ now σ triples, EntryOp.offload now σ triples ∈ ops ∧ b ∈ triples.map (·.1)

/-- A pool event named the block `b` for the worker `w`. -/
def Pooled (ops : List EntryOp) (b : UInt64) (w : WorkerKey) : Prop :=
  ∃ now σ hs, EntryOp.pool now σ hs w ∈ ops ∧ b ∈ hs

/-- The edges of the tier of a worker. -/
def tierEdges (e : IndexerEntry) (w : WorkerKey) : EdgeMap :=
  match w.medium with
  | .disk => e.diskTiers.edges
  | _ => e.cpuTiers.edges

theorem offloaded_snoc_offload (ops : List EntryOp) (now : Instant)
    (σ : HashOrder (WorkerKey × List PlacedBlock)) (triples : List OffloadTriple) :
    Offloaded (ops ++ [.offload now σ triples]) =
      fun b => Offloaded ops b ∨ b ∈ triples.map (·.1) := by
  funext b
  refine propext ⟨?_, ?_⟩
  · rintro ⟨n, τ, tr, hmem, hb⟩
    rcases List.mem_append.mp hmem with hmem | hmem
    · exact Or.inl ⟨n, τ, tr, hmem, hb⟩
    · cases List.mem_singleton.mp hmem
      exact Or.inr hb
  · rintro (⟨n, τ, tr, hmem, hb⟩ | hb)
    · exact ⟨n, τ, tr, List.mem_append_left _ hmem, hb⟩
    · exact ⟨now, σ, triples, by simp, hb⟩

theorem pooled_snoc_pool (ops : List EntryOp) (now : Instant) (σ : HashOrder WorkerMap)
    (hs : List UInt64) (w : WorkerKey) : Pooled (ops ++ [.pool now σ hs w]) =
      fun b v => Pooled ops b v ∨ (v = w ∧ b ∈ hs) := by
  funext b v
  refine propext ⟨?_, ?_⟩
  · rintro ⟨n, τ, hs', hmem, hb⟩
    rcases List.mem_append.mp hmem with hmem | hmem
    · exact Or.inl ⟨n, τ, hs', hmem, hb⟩
    · cases List.mem_singleton.mp hmem
      exact Or.inr ⟨rfl, hb⟩
  · rintro (⟨n, τ, hs', hmem, hb⟩ | ⟨rfl, hb⟩)
    · exact ⟨n, τ, hs', List.mem_append_left _ hmem, hb⟩
    · exact ⟨now, σ, hs, by simp, hb⟩

theorem run_entryHolds {ops : List EntryOp} (hrun : Run exec Free new ops e) :
    (∀ op ∈ ops, IsTwoPhase content op) → Set.InjOn content {b | Offloaded ops b} →
      EntryHolds content (Offloaded ops) (Pooled ops) e := by
  refine hrun.invariant (I := fun ops e => (∀ op ∈ ops, IsTwoPhase content op) →
    Set.InjOn content {b | Offloaded ops b} →
      EntryHolds content (Offloaded ops) (Pooled ops) e) ?_ ?_
  · intro _ _
    have hoff : Offloaded [] = fun _ => False := by
      funext b
      simp [Offloaded]
    have hpool : Pooled [] = fun _ _ => False := by
      funext b w
      simp [Pooled]
    rw [hoff, hpool]
    refine ⟨CachesHold.new, ⟨?_, ?_⟩, fun _ _ h => h.elim⟩
    · simpa [new] using LowerTierIndexer.holds_new
    · simpa [new] using LowerTierIndexer.holds_new
  · intro ops e op e' ih _ he hops hinj
    have hsub : {b | Offloaded ops b} ⊆ {b | Offloaded (ops ++ [op]) b} := by
      rintro b ⟨now, σ, triples, hmem, hb⟩
      exact ⟨now, σ, triples, List.mem_append_left _ hmem, hb⟩
    have ih := ih (fun o ho => hops o (List.mem_append_left _ ho)) (hinj.mono hsub)
    have hop := hops op (by simp)
    -- the run has offloads and pool events only
    cases op with
    | offload now σ triples =>
      cases he
      have hpool : Pooled (ops ++ [.offload now σ triples]) = Pooled ops := by
        funext b w
        simp [Pooled]
      rw [offloaded_snoc_offload] at hinj ⊢
      rw [hpool]
      exact ih.offloadBlocks σ hop hinj
    | pool now σ hs w =>
      cases he
      have hoff : Offloaded (ops ++ [.pool now σ hs w]) = Offloaded ops := by
        funext b
        simp [Offloaded]
      rw [hoff] at hinj ⊢
      rw [pooled_snoc_pool]
      exact ih.poolStored σ hop hs hinj
    | event w ev => exact hop.elim
    | removed hs w => exact hop.elim
    | cleared w => exact hop.elim
    | removeWorker iid dp => exact hop.elim
    | sweepCaches n p c o => exact hop.elim
    | sweepNodes σ fuel => exact hop.elim

/-- **Offloads and pool events commute.** In every run of such events a worker owns a block, on the
edge of its content, exactly if the block was offloaded and a pool event named the two; every run
with the same offloads and the same pool events ends with the same edges and owners. -/
theorem owns_iff_offloaded_and_pooled {ops : List EntryOp} (hrun : Run exec Free new ops e)
    (hops : ∀ op ∈ ops, IsTwoPhase content op)
    (hinj : Set.InjOn content {b | Offloaded ops b}) :
    (∀ w, OnPoolMedium w → ∀ key b, LowerTierIndexer.OwnsEdge (e.tierEdges w) w key b ↔
      key = (content b).key ∧ Offloaded ops b ∧ Pooled ops b w) ∧
    ∀ ops' e', Run exec Free new ops' e' → (∀ op ∈ ops', IsTwoPhase content op) →
      (∀ b, Offloaded ops b ↔ Offloaded ops' b) → (∀ b w, Pooled ops b w ↔ Pooled ops' b w) →
      ∀ w key b,
        (LowerTierIndexer.OwnsEdge e.cpuTiers.edges w key b ↔
          LowerTierIndexer.OwnsEdge e'.cpuTiers.edges w key b) ∧
        (LowerTierIndexer.OwnsEdge e.diskTiers.edges w key b ↔
          LowerTierIndexer.OwnsEdge e'.diskTiers.edges w key b) := by
  have h := run_entryHolds hrun hops hinj
  refine ⟨fun w hw key b => ?_, fun ops' e' hrun' hops' hoff hpool w key b => ?_⟩
  · unfold tierEdges
    rcases hw with hm | hm
    · rw [hm]
      simp only
      rw [h.tiers.cpu.ownsEdge_iff]
      tauto
    · rw [hm]
      simp only
      rw [h.tiers.disk.ownsEdge_iff]
      tauto
  · have hsame : {b | Offloaded ops' b} = {b | Offloaded ops b} := Set.ext fun b => (hoff b).symm
    have h' := run_entryHolds hrun' hops' (hsame ▸ hinj)
    rw [h.tiers.cpu.ownsEdge_iff, h'.tiers.cpu.ownsEdge_iff, h.tiers.disk.ownsEdge_iff,
      h'.tiers.disk.ownsEdge_iff]
    simp only [hoff, hpool, and_self]

/-- Block 8 is offloaded before and block 9 after the pool event for the two of them. -/
def aroundRun : List EntryOp :=
  [.offload 0 .insertion [(8, 80, none)], .pool 1 .insertion [8, 9] ⟨"a", "a", 0, .cpu⟩,
   .offload 2 .insertion [(9, 80, some 8)]]

def aroundContent (b : UInt64) : BlockContent := if b = 8 then ⟨80, none⟩ else ⟨80, some 8⟩

theorem aroundRun_owns_second_block :
    ∃ e, Run exec Free new aroundRun e ∧
      LowerTierIndexer.OwnsEdge e.cpuTiers.edges ⟨"a", "a", 0, .cpu⟩ ⟨some 8, 80⟩ 9 := by
  have hsome : (runList exec Free new aroundRun).isSome = true := by decide
  obtain ⟨e, he⟩ := Option.isSome_iff_exists.mp hsome
  have hoff : ∀ b, Offloaded aroundRun b → b = 8 ∨ b = 9 := by
    rintro b ⟨now, σ, triples, hmem, hb⟩
    simp only [aroundRun, List.mem_cons, EntryOp.offload.injEq, reduceCtorEq, false_or,
      List.not_mem_nil, or_false] at hmem
    rcases hmem with ⟨-, -, rfl⟩ | ⟨-, -, rfl⟩
    · exact Or.inl (by simpa using hb)
    · exact Or.inr (by simpa using hb)
  have htwo : ∀ op ∈ aroundRun, IsTwoPhase aroundContent op := by
    intro op hop
    simp only [aroundRun, List.mem_cons, List.not_mem_nil, or_false] at hop
    rcases hop with rfl | rfl | rfl
    · intro x hx
      rw [List.mem_singleton.mp hx]
      rfl
    · exact Or.inl rfl
    · intro x hx
      rw [List.mem_singleton.mp hx]
      rfl
  have hinj : Set.InjOn aroundContent {b | Offloaded aroundRun b} := by
    intro b hb c hc hbc
    rcases hoff b hb with rfl | rfl <;> rcases hoff c hc with rfl | rfl
    · rfl
    · exact absurd hbc (by decide)
    · exact absurd hbc (by decide)
    · rfl
  have hown := (owns_iff_offloaded_and_pooled (runList_run he) htwo hinj).1
    ⟨"a", "a", 0, .cpu⟩ (Or.inl rfl) ⟨some 8, 80⟩ 9
  refine ⟨e, runList_run he, hown.mpr
    ⟨rfl, ⟨2, .insertion, [(9, 80, some 8)], ?_, ?_⟩, 1, .insertion, [8, 9], ?_, ?_⟩⟩
  · exact List.mem_cons_of_mem _ (List.mem_cons_of_mem _ List.mem_cons_self)
  · simp
  · exact List.mem_cons_of_mem _ List.mem_cons_self
  · simp

end IndexerEntry

end PyMotor.Conductor
