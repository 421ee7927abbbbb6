import Mathlib.Data.Set.Card
import PyMotor.Conductor.LowerTier
import PyMotor.Lib.Run

/-!
# Owners and reverse tables of a lower tier

Over a run of stores, removals and clears the forward and the reverse table stay inverse to each
other (`tables_inverse`), so the number of blocks is the number of owners of edges.

The list of workers, and with it the emptiness of the index, is read off the reverse tables. This is
right as long as no table is empty. A removal takes an emptied table away, but a store creates the
table before it looks at the chain: an empty chain, or one that is refused at its first block,
leaves a worker behind that owns nothing (`refusedStore_lists_worker`).
-/

namespace PyMotor.Conductor

/-- An edge with several owners has at least two. -/
def EdgeOwnersEntry.Proper : EdgeOwnersEntry → Prop
  | single _ _ => True
  | multi _ os => 2 ≤ os.size

namespace LowerTierIndexer

/-! ## Counting and listing -/

def totalBlocks (t : LowerTierIndexer) : Nat := (t.workerBlocks.values.map Dict.size).sum

def workerKeys (t : LowerTierIndexer) : List WorkerKey := t.workerBlocks.keys

def isEmpty (t : LowerTierIndexer) : Bool := t.workerBlocks.isEmpty

/-- One operation of one worker. -/
def exec (t : LowerTierIndexer) (op : WorkerKey × KvCacheEventData) : Option LowerTierIndexer :=
  some (t.apply op.1 op.2)

variable {t t' : LowerTierIndexer} {w : WorkerKey} {event : KvCacheEventData}
  {op : WorkerKey × KvCacheEventData} {ops : List (WorkerKey × KvCacheEventData)}

/-! ## The two forms of an edge -/

theorem size_insert_of_not_mem {s : OrdSet WorkerKey} (h : w ∉ s) :
    (s.insert w).size = s.size + 1 := by
  have hmem : w ∉ s.elems := h
  simp [OrdSet.insert, OrdSet.size, hmem]

theorem size_le_insert (s : OrdSet WorkerKey) (w : WorkerKey) : s.size ≤ (s.insert w).size := by
  by_cases h : w ∈ s
  · have hmem : w ∈ s.elems := h
    simp [OrdSet.insert, hmem]
  · rw [size_insert_of_not_mem h]
    exact Nat.le_succ _

theorem proper_kept : KeptByOwners EdgeOwnersEntry.Proper where
  single _ _ := trivial
  insert e c w e' hp hins := by
    cases e with
    | single c' o =>
      simp only [EdgeOwnersEntry.insert] at hins
      split at hins
      · cases hins
      · split at hins
        · cases hins
          trivial
        · next hne =>
          cases hins
          have hw : w ∉ (∅ : OrdSet WorkerKey).insert o := by simp [Ne.symm hne]
          show 2 ≤ _
          rw [size_insert_of_not_mem hw, size_insert_of_not_mem (OrdSet.not_mem_empty o)]
          exact Nat.le_add_left 2 _
    | multi c' os =>
      simp only [EdgeOwnersEntry.insert] at hins
      split at hins
      · cases hins
      · cases hins
        exact Nat.le_trans hp (size_le_insert os w)
  remove e w hp hkept := by
    cases e with
    | single c' o => trivial
    | multi c' os =>
      by_cases hw : w ∈ os
      · simp only [EdgeOwnersEntry.remove, hw, not_true_eq_false, ↓reduceIte] at hkept ⊢
        split at hkept
        · cases hkept
        · trivial
        · next r₁ r₂ rs hr =>
          show 2 ≤ _
          rw [OrdSet.size, hr]
          simp
      · simp only [EdgeOwnersEntry.remove, hw, not_false_eq_true, ↓reduceIte]
        exact hp

theorem KeptByOwners.apply {P : EdgeOwnersEntry → Prop} (hP : KeptByOwners P)
    (h : AllEdges P t.edges) (w : WorkerKey) (event : KvCacheEventData) :
    AllEdges P (t.apply w event).edges := by
  cases event with
  | stored data => exact hP.storeLoop data.blocks _ _ h
  | removed hs =>
    show AllEdges P (t.removeBlocks w hs).edges
    rw [(removeBlocks_eq t w hs).1]
    exact hP.removeLoop hs _ h
  | cleared =>
    show AllEdges P (t.clearWorker w).edges
    unfold clearWorker
    split
    · exact h
    · exact hP.foldl_removeOwner _ w h

/-! ## The number of blocks -/

/-- Every block of every reverse table, as the edge it is under and its worker. -/
def ownerPairs (t : LowerTierIndexer) : List (TransitionKey × WorkerKey) :=
  t.workerBlocks.entries.flatMap (fun p => p.2.values.map (fun key => (key, p.1)))

theorem length_ownerPairs (t : LowerTierIndexer) : t.ownerPairs.length = t.totalBlocks := by
  simp [ownerPairs, totalBlocks, Dict.values, Dict.size, List.length_flatMap, Function.comp_def]

theorem mem_ownerPairs {key : TransitionKey} :
    (key, w) ∈ t.ownerPairs ↔ ∃ c, (t.workerMap w).get? c = some key := by
  simp only [ownerPairs, List.mem_flatMap, List.mem_map, Prod.mk.injEq, Prod.exists]
  constructor
  · rintro ⟨v, m, hm, key', hkey, rfl, rfl⟩
    rw [workerMap, Dict.mem_entries_iff.mp hm]
    exact Dict.mem_values_iff.mp hkey
  · rintro ⟨c, hc⟩
    unfold workerMap at hc
    cases hm : t.workerBlocks.get? w with
    | none => simp [hm] at hc
    | some m =>
      rw [hm] at hc
      exact ⟨w, m, Dict.mem_entries_iff.mpr hm, key, Dict.mem_values_iff.mpr ⟨c, hc⟩, rfl, rfl⟩

theorem Consistent.nodup_ownerPairs (h : Consistent t) : t.ownerPairs.Nodup := by
  rw [ownerPairs, List.nodup_flatMap]
  constructor
  · rintro ⟨w, m⟩ hm
    have hget : t.workerBlocks.get? w = some m := Dict.mem_entries_iff.mp hm
    have hmap : t.workerMap w = m := by simp [workerMap, hget]
    refine List.Nodup.map_on (fun k _ k' _ heq => (Prod.mk.inj heq).1) ?_
    refine List.Nodup.map_on ?_ m.nodup.of_map
    rintro ⟨c, key⟩ hc ⟨c', key'⟩ hc' heq
    simp only at heq
    subst heq
    have hown := (h.agree w key c).mpr (hmap ▸ Dict.mem_entries_iff.mp hc)
    have hown' := (h.agree w key c').mpr (hmap ▸ Dict.mem_entries_iff.mp hc')
    rw [hown.child_eq hown']
  · refine (List.pairwise_map.mp t.workerBlocks.nodup).imp ?_
    rintro ⟨w, m⟩ ⟨v, m'⟩ hne
    simp only [Function.onFun, List.disjoint_left, List.mem_map]
    rintro _ ⟨key, -, rfl⟩ ⟨key', -, heq⟩
    exact hne (Prod.mk.inj heq).2.symm

theorem Consistent.ownsEdge_iff (h : Consistent t) {key : TransitionKey} {c : SequenceBlockHash} :
    OwnsEdge t.edges w key c ↔ ∃ m, t.workerBlocks.get? w = some m ∧ m.get? c = some key := by
  rw [h.agree w key c, workerMap]
  cases t.workerBlocks.get? w <;> simp

theorem Consistent.totalBlocks_eq (h : Consistent t) :
    t.totalBlocks = {p : TransitionKey × WorkerKey | ∃ c, OwnsEdge t.edges p.2 p.1 c}.ncard := by
  have hset : {p : TransitionKey × WorkerKey | ∃ c, OwnsEdge t.edges p.2 p.1 c} =
      ↑t.ownerPairs.toFinset := by
    ext ⟨key, w⟩
    rw [List.coe_toFinset, Set.mem_ofPred_eq, Set.mem_ofPred_eq, mem_ownerPairs]
    exact exists_congr (h.agree w key)
  rw [hset, Set.ncard_coe_finset, List.toFinset_card_of_nodup h.nodup_ownerPairs,
    length_ownerPairs]

/-- **What a clear leaves**: every owner but `w`. -/
theorem Consistent.ownsEdge_clearWorker (h : Consistent t) {v : WorkerKey} {key : TransitionKey}
    {c : SequenceBlockHash} :
    OwnsEdge (t.clearWorker w).edges v key c ↔ OwnsEdge t.edges v key c ∧ v ≠ w := by
  unfold LowerTierIndexer.clearWorker
  cases hw : t.workerBlocks.get? w with
  | none =>
    refine ⟨fun hown => ⟨hown, ?_⟩, fun hown => hown.1⟩
    rintro rfl
    obtain ⟨m, hm, -⟩ := h.ownsEdge_iff.mp hown
    rw [hw] at hm
    cases hm
  | some m =>
    rw [ownsEdge_foldl_removeOwner]
    refine and_congr_right fun hown => not_congr ⟨fun h' => h'.1, ?_⟩
    rintro rfl
    obtain ⟨m', hm', hc⟩ := h.ownsEdge_iff.mp hown
    rw [hw] at hm'
    cases hm'
    exact ⟨rfl, Dict.mem_values_iff.mpr ⟨c, hc⟩⟩

/-! ## Runs -/

theorem consistent_of_run {G : LowerTierIndexer → WorkerKey × KvCacheEventData → Prop}
    (hrun : Run exec G new ops t) : Consistent t := by
  refine hrun.invariant_state (I := Consistent) consistent_new ?_
  intro t op t' h _ he
  cases he
  exact h.apply op.1 op.2

theorem proper_of_run (hrun : Run exec Free new ops t) :
    AllEdges EdgeOwnersEntry.Proper t.edges := by
  refine hrun.invariant_state (I := fun t => AllEdges EdgeOwnersEntry.Proper t.edges) ?_ ?_
  · intro key edge h
    simp [new] at h
  · intro t op t' h _ he
    cases he
    exact proper_kept.apply h op.1 op.2

/-- **The two tables are inverse** in every reachable state: an owner of an edge has the edge under
its block in its reverse table, and no other way round. Every edge has an owner, an edge in the form
for several owners has two, the blocks are counted once for each owner of an edge, and a clear takes
its worker off every edge. -/
theorem tables_inverse (hrun : Run exec Free new ops t) :
    (∀ w key c, OwnsEdge t.edges w key c ↔
      ∃ m, t.workerBlocks.get? w = some m ∧ m.get? c = some key) ∧
    (∀ key edge, t.edges.get? key = some edge →
      (∃ w, edge.contains w = true) ∧ ∀ c os, edge = .multi c os → 2 ≤ os.size) ∧
    t.totalBlocks = {p : TransitionKey × WorkerKey | ∃ c, OwnsEdge t.edges p.2 p.1 c}.ncard ∧
    ∀ w v key c, OwnsEdge (t.clearWorker w).edges v key c ↔ OwnsEdge t.edges v key c ∧ v ≠ w := by
  have hC := consistent_of_run hrun
  have hP := proper_of_run hrun
  refine ⟨fun w key c => hC.ownsEdge_iff, fun key edge hedge => ⟨hC.owned key edge hedge, ?_⟩,
    hC.totalBlocks_eq, fun w v key c => hC.ownsEdge_clearWorker⟩
  rintro c os rfl
  exact hP key _ hedge

def tierWorker (id : String) : WorkerKey := ⟨id, id, 0, .cpu⟩

/-- One edge with two owners. -/
theorem tables_inverse_shared_edge :
    ∃ t, Run exec Free new [(tierWorker "a", .stored ⟨none, [⟨101, 1⟩]⟩),
        (tierWorker "b", .stored ⟨none, [⟨101, 1⟩]⟩)] t ∧
      t.totalBlocks = 2 ∧
      {p : TransitionKey × WorkerKey | ∃ c, OwnsEdge t.edges p.2 p.1 c}.ncard = 2 := by
  have hcount : (runList exec Free new [(tierWorker "a", .stored ⟨none, [⟨101, 1⟩]⟩),
      (tierWorker "b", .stored ⟨none, [⟨101, 1⟩]⟩)]).map totalBlocks = some 2 := by decide
  obtain ⟨t, ht, htotal⟩ := Option.map_eq_some_iff.mp hcount
  exact ⟨t, runList_run ht, htotal, (tables_inverse (runList_run ht)).2.2.1 ▸ htotal⟩

/-! ## Workers that own nothing -/

/-- The workers reported are those that own an edge, and the index is empty when it has no edge. -/
def ReportsOwners (t : LowerTierIndexer) : Prop :=
  (∀ w, w ∈ t.workerKeys ↔ ∃ key c, OwnsEdge t.edges w key c) ∧
    (t.isEmpty = true ↔ t.edges.isEmpty = true)

/-- A store for a worker without a reverse table has a first block, and no edge for that block leads
elsewhere. -/
def FirstBlockAccepted (t : LowerTierIndexer) : WorkerKey × KvCacheEventData → Prop
  | (w, .stored data) => t.workerBlocks.contains w = true ∨
      ∃ b ∈ data.blocks.head?, ∀ edge ∈ t.edges.get? ⟨data.parentHash, b.tokensHash⟩,
        edge.childHash = b.blockHash
  | _ => True

instance (t : LowerTierIndexer) :
    (op : WorkerKey × KvCacheEventData) → Decidable (t.FirstBlockAccepted op)
  | (w, .stored data) => inferInstanceAs (Decidable (t.workerBlocks.contains w = true ∨
      ∃ b ∈ data.blocks.head?, ∀ edge ∈ t.edges.get? ⟨data.parentHash, b.tokensHash⟩,
        edge.childHash = b.blockHash))
  | (_, .removed _) => inferInstanceAs (Decidable True)
  | (_, .cleared) => inferInstanceAs (Decidable True)

/-- No reverse table is empty. -/
def NoEmptyTable (t : LowerTierIndexer) : Prop :=
  ∀ w m, t.workerBlocks.get? w = some m → ∃ c key, m.get? c = some key

theorem Consistent.reportsOwners_iff (h : Consistent t) : t.ReportsOwners ↔ t.NoEmptyTable := by
  constructor
  · rintro ⟨hkeys, -⟩ w m hm
    obtain ⟨key, c, hown⟩ := (hkeys w).mp (Dict.mem_keys_iff.mpr ⟨m, hm⟩)
    obtain ⟨m', hm', hc⟩ := h.ownsEdge_iff.mp hown
    rw [hm] at hm'
    cases hm'
    exact ⟨c, key, hc⟩
  · intro hne
    have hkeys : ∀ w, w ∈ t.workerKeys ↔ ∃ key c, OwnsEdge t.edges w key c := by
      intro w
      rw [workerKeys, Dict.mem_keys_iff]
      constructor
      · rintro ⟨m, hm⟩
        obtain ⟨c, key, hc⟩ := hne w m hm
        exact ⟨key, c, h.ownsEdge_iff.mpr ⟨m, hm, hc⟩⟩
      · rintro ⟨key, c, hown⟩
        obtain ⟨m, hm, -⟩ := h.ownsEdge_iff.mp hown
        exact ⟨m, hm⟩
    refine ⟨hkeys, ?_⟩
    rw [isEmpty, Dict.isEmpty_iff, Dict.isEmpty_iff]
    constructor
    · intro hnone key
      cases hedge : t.edges.get? key with
      | none => rfl
      | some edge =>
        -- an edge has an owner, and its table is one of the tables
        obtain ⟨w, hw⟩ := h.owned key edge hedge
        obtain ⟨m, hm, -⟩ := h.ownsEdge_iff.mp ⟨edge, hedge, rfl, hw⟩
        rw [hnone w] at hm
        cases hm
    · intro hnone w
      cases hm : t.workerBlocks.get? w with
      | none => rfl
      | some m =>
        obtain ⟨c, key, hc⟩ := hne w m hm
        obtain ⟨edge, hedge, -⟩ := h.ownsEdge_iff.mpr ⟨m, hm, hc⟩
        rw [hnone key] at hedge
        cases hedge

theorem storeLoop_keeps (bs : List KvCacheStoredBlockData) {c : SequenceBlockHash} :
    ∀ {edges : EdgeMap} {m : WorkerMap} {parent : Option SequenceBlockHash},
      (∃ key, m.get? c = some key) →
      ∃ key, (storeLoop w edges m parent bs).2.get? c = some key := by
  induction bs with
  | nil =>
    intro edges m parent h
    exact h
  | cons b bs ih =>
    intro edges m parent h
    rw [storeLoop]
    split
    · exact h
    · split
      · exact h
      · refine ih ?_
        rw [Dict.get?_insert]
        split
        · exact ⟨_, rfl⟩
        · exact h

/-- A worker without a table gets its first block exactly if nothing speaks against it. -/
theorem storeLoop_first {edges : EdgeMap} {parent : Option SequenceBlockHash}
    {bs : List KvCacheStoredBlockData} :
    (∃ c key, (storeLoop w edges ∅ parent bs).2.get? c = some key) ↔
      ∃ b ∈ bs.head?, ∀ edge ∈ edges.get? ⟨parent, b.tokensHash⟩, edge.childHash = b.blockHash := by
  cases bs with
  | nil => simp [storeLoop]
  | cons b bs =>
    have hjoin : joinEdge edges ⟨parent, b.tokensHash⟩ b.blockHash w = none ↔
        ¬ ∀ edge ∈ edges.get? ⟨parent, b.tokensHash⟩, edge.childHash = b.blockHash := by
      unfold joinEdge
      cases edges.get? ⟨parent, b.tokensHash⟩ with
      | none => simp
      | some edge => simp [EdgeOwnersEntry.insert_eq_none]
    rw [storeLoop]
    simp only [Dict.get?_empty, Option.any_none, Bool.false_eq_true, ↓reduceIte, List.head?_cons,
      Option.mem_def, Option.some.injEq, exists_eq_left']
    split
    · next hnone => simpa using hjoin.mp hnone
    · next edge hsome =>
      have hacc : ∀ edge ∈ edges.get? ⟨parent, b.tokensHash⟩, edge.childHash = b.blockHash := by
        by_contra h
        rw [hjoin.mpr h] at hsome
        cases hsome
      refine iff_of_true ?_ hacc
      exact ⟨b.blockHash, storeLoop_keeps bs ⟨_, Dict.get?_insert_self ..⟩⟩

theorem noEmptyTable_insert (h : t.NoEmptyTable) (edges : EdgeMap) (m : WorkerMap) :
    (mk edges (t.workerBlocks.insert w m)).NoEmptyTable ↔ ∃ c key, m.get? c = some key := by
  constructor
  · intro h'
    exact h' w m (Dict.get?_insert_self ..)
  · intro hm v m' hv
    rw [Dict.get?_insert] at hv
    split at hv
    · cases hv
      exact hm
    · exact h v m' hv

theorem noEmptyTable_erase (h : t.NoEmptyTable) (edges : EdgeMap) (w : WorkerKey) :
    (mk edges (t.workerBlocks.erase w)).NoEmptyTable := by
  intro v m hv
  exact h v m (Dict.get?_of_erase hv)

/-- **One operation**: the tables stay free of empty ones unless a store creates one. -/
theorem noEmptyTable_apply (h : t.NoEmptyTable) (op : WorkerKey × KvCacheEventData) :
    (t.apply op.1 op.2).NoEmptyTable ↔ t.FirstBlockAccepted op := by
  obtain ⟨w, event⟩ := op
  cases event with
  | stored data =>
    show (t.storeBlocks w data).NoEmptyTable ↔ _
    rw [LowerTierIndexer.storeBlocks, noEmptyTable_insert h, FirstBlockAccepted, workerMap,
      Dict.contains_iff]
    cases hw : t.workerBlocks.get? w with
    | none =>
      rw [Option.getD_none, storeLoop_first]
      simp
    | some m =>
      obtain ⟨c, hc⟩ := h w m hw
      exact iff_of_true ⟨c, storeLoop_keeps data.blocks hc⟩ (Or.inl ⟨m, rfl⟩)
  | removed hs =>
    refine iff_of_true ?_ trivial
    show (t.removeBlocks w hs).NoEmptyTable
    unfold LowerTierIndexer.removeBlocks
    split
    · exact h
    · simp only
      split
      · exact noEmptyTable_erase h _ w
      · next hne =>
        rw [noEmptyTable_insert h]
        by_contra hno
        refine hne (Dict.isEmpty_iff.mpr fun c => Option.eq_none_iff_forall_ne_some.mpr ?_)
        exact fun key hc => hno ⟨c, key, hc⟩
  | cleared =>
    refine iff_of_true ?_ trivial
    show (t.clearWorker w).NoEmptyTable
    unfold LowerTierIndexer.clearWorker
    split
    · exact h
    · exact noEmptyTable_erase h _ w

/-- **When the report goes wrong**: exactly when a worker without a table stores a chain that is
empty or refused at its first block. -/
theorem Consistent.reportsOwners_apply (hC : Consistent t) (h : t.ReportsOwners)
    (op : WorkerKey × KvCacheEventData) :
    (t.apply op.1 op.2).ReportsOwners ↔ t.FirstBlockAccepted op := by
  rw [(hC.apply op.1 op.2).reportsOwners_iff]
  exact noEmptyTable_apply (hC.reportsOwners_iff.mp h) op

/-- **Only owners are reported.** As long as every worker without a table starts with a block that is
accepted, the listed workers are those that own an edge, and the index is empty when no edge is
left. -/
theorem reports_owners (hrun : Run exec FirstBlockAccepted new ops t) : t.ReportsOwners := by
  have hI : Consistent t ∧ t.ReportsOwners := by
    refine hrun.invariant_state (I := fun t => Consistent t ∧ t.ReportsOwners) ?_ ?_
    · refine ⟨consistent_new, consistent_new.reportsOwners_iff.mpr ?_⟩
      intro w m hm
      simp [new] at hm
    · rintro t op t' ⟨hC, h⟩ hG he
      cases he
      exact ⟨hC.apply op.1 op.2, (hC.reportsOwners_apply h op).mpr hG⟩
  exact hI.2

/-- A worker comes, shares an edge and leaves again. -/
theorem reports_owners_shared_edge :
    ∃ t, Run exec FirstBlockAccepted new [(tierWorker "a", .stored ⟨none, [⟨101, 1⟩]⟩),
        (tierWorker "b", .stored ⟨none, [⟨101, 1⟩]⟩), (tierWorker "b", .removed [101])] t ∧
      t.workerKeys = [tierWorker "a"] ∧ t.ReportsOwners := by
  have hkeys : (runList exec FirstBlockAccepted new
      [(tierWorker "a", .stored ⟨none, [⟨101, 1⟩]⟩),
        (tierWorker "b", .stored ⟨none, [⟨101, 1⟩]⟩), (tierWorker "b", .removed [101])]).map
      workerKeys = some [tierWorker "a"] := by decide
  obtain ⟨t, ht, hk⟩ := Option.map_eq_some_iff.mp hkeys
  exact ⟨t, runList_run ht, hk, reports_owners (runList_run ht)⟩

/-- **A worker that owns nothing**: the chain of `b` is refused at its first block, whose edge leads
to the block of `a`. When `a` has gone, no edge is left, and the index is not empty. -/
theorem refusedStore_lists_worker :
    ∃ t, Run exec Free new [(tierWorker "a", .stored ⟨none, [⟨101, 1⟩]⟩),
        (tierWorker "b", .stored ⟨none, [⟨102, 1⟩]⟩), (tierWorker "a", .removed [101])] t ∧
      t.workerKeys = [tierWorker "b"] ∧ t.edges.isEmpty = true ∧ t.isEmpty = false ∧
      ¬ t.ReportsOwners := by
  have hrun : (runList exec Free new [(tierWorker "a", .stored ⟨none, [⟨101, 1⟩]⟩),
      (tierWorker "b", .stored ⟨none, [⟨102, 1⟩]⟩), (tierWorker "a", .removed [101])]).map
      (fun t => (t.workerKeys, t.edges.isEmpty, t.isEmpty)) =
        some ([tierWorker "b"], true, false) := by decide
  obtain ⟨t, ht, h⟩ := Option.map_eq_some_iff.mp hrun
  simp only [Prod.mk.injEq] at h
  obtain ⟨hkeys, hedges, hempty⟩ := h
  refine ⟨t, runList_run ht, hkeys, hedges, hempty, fun hrep => ?_⟩
  rw [hrep.2.mpr hedges] at hempty
  cases hempty

end LowerTierIndexer

end PyMotor.Conductor
