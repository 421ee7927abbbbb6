import PyMotor.Conductor.Protocols

/-!
# The lower-tier index

The CPU and the Disk tier are each a graph of continuation edges
`(parent sequence hash, local hash) → child sequence hash`, every edge with the set of workers that
own it, next to a reverse table per worker from block hashes to edges (`lower_tier.rs`). Queries do
not start at the root but at continuation points that the caller provides per worker.

The two tables agree in every state that the operations reach (`Agree`): a worker owns the edge to a
block exactly if its reverse table names that edge for the block.
-/

namespace PyMotor.Conductor

/-- The key of an edge. -/
structure TransitionKey where
  parentHash : Option SequenceBlockHash
  localHash : LocalBlockHash
  deriving DecidableEq, Repr

inductive EdgeOwnersEntry where
  | single (childHash : SequenceBlockHash) (owner : WorkerKey)
  | multi (childHash : SequenceBlockHash) (owners : OrdSet WorkerKey)

namespace EdgeOwnersEntry

def childHash : EdgeOwnersEntry → SequenceBlockHash
  | single c _ => c
  | multi c _ => c

/-- `none` if the edge leads to another block already: the first writer wins. -/
def insert (e : EdgeOwnersEntry) (child : SequenceBlockHash) (w : WorkerKey) :
    Option EdgeOwnersEntry :=
  match e with
  | single c o =>
    if c ≠ child then none
    else if o = w then some (single c o)
    else some (multi c (((∅ : OrdSet WorkerKey).insert o).insert w))
  | multi c os => if c ≠ child then none else some (multi c (os.insert w))

/-- The flag says that the edge is to be deleted. -/
def remove (e : EdgeOwnersEntry) (w : WorkerKey) : Bool × EdgeOwnersEntry :=
  match e with
  | single c o => (decide (o = w), single c o)
  | multi c os =>
    if w ∉ os then (false, multi c os)
    else match (os.erase w).elems with
      | [] => (true, multi c (os.erase w))
      | [r] => (false, single c r)
      | _ :: _ :: _ => (false, multi c (os.erase w))

def contains : EdgeOwnersEntry → WorkerKey → Bool
  | single _ o, w => decide (o = w)
  | multi _ os, w => decide (w ∈ os)

def collectWorkers : EdgeOwnersEntry → List WorkerKey
  | single _ o => [o]
  | multi _ os => os.elems

variable {e e' : EdgeOwnersEntry} {child : SequenceBlockHash} {v w : WorkerKey}

theorem mem_collectWorkers : w ∈ e.collectWorkers ↔ e.contains w = true := by
  cases e with
  | single c o => simp [collectWorkers, contains, eq_comm]
  | multi c os => simp [collectWorkers, contains, OrdSet.mem_def]

theorem insert_eq_none : e.insert child w = none ↔ e.childHash ≠ child := by
  cases e with
  | single c o =>
    simp only [insert, childHash]
    split
    · next h => simp [h]
    · next h => split <;> simp [h]
  | multi c os =>
    simp only [insert, childHash]
    split
    · next h => simp [h]
    · next h => simp [h]

theorem insert_eq_some (h : e.insert child w = some e') :
    e.childHash = child ∧ e'.childHash = child ∧
      ∀ v, e'.contains v = true ↔ v = w ∨ e.contains v = true := by
  cases e with
  | single c o =>
    simp only [insert] at h
    split at h
    · cases h
    · next hc =>
      rw [ne_eq, not_not] at hc
      split at h
      · next ho =>
        cases h
        refine ⟨hc, hc, fun v => ?_⟩
        simp [contains, ho, eq_comm]
      · cases h
        refine ⟨hc, hc, fun v => ?_⟩
        simp only [contains, decide_eq_true_eq, OrdSet.mem_insert, OrdSet.not_mem_empty,
          or_false]
        rw [@eq_comm _ o v]
  | multi c os =>
    simp only [insert] at h
    split at h
    · cases h
    · next hc =>
      rw [ne_eq, not_not] at hc
      cases h
      exact ⟨hc, hc, fun v => by simp [contains]⟩

theorem remove_deleted (h : (e.remove w).1 = true) (hv : e.contains v = true) : v = w := by
  cases e with
  | single c o =>
    simp only [remove, contains, decide_eq_true_eq] at h hv
    rw [← hv, h]
  | multi c os =>
    simp only [remove] at h
    split at h
    · cases h
    · split at h
      · next hnil =>
        -- nobody else is left
        have hno : v ∉ os.erase w := by rw [OrdSet.mem_def, hnil]; exact List.not_mem_nil
        simp only [contains, decide_eq_true_eq] at hv
        by_contra hne
        exact hno (OrdSet.mem_erase.mpr ⟨hv, hne⟩)
      · cases h
      · cases h

theorem remove_kept (h : (e.remove w).1 = false) :
    (e.remove w).2.childHash = e.childHash ∧
      ∀ v, (e.remove w).2.contains v = true ↔ e.contains v = true ∧ v ≠ w := by
  cases e with
  | single c o =>
    simp only [remove, decide_eq_false_iff_not] at h
    refine ⟨rfl, fun v => ?_⟩
    simp only [remove, contains, decide_eq_true_eq]
    constructor
    · rintro rfl
      exact ⟨rfl, h⟩
    · exact fun hv => hv.1
  | multi c os =>
    by_cases hw : w ∈ os
    · simp only [remove, hw, not_true_eq_false, ↓reduceIte] at h ⊢
      split at h
      · cases h
      · next r hr =>
        refine ⟨rfl, fun v => ?_⟩
        have : v ∈ os.erase w ↔ v = r := by rw [OrdSet.mem_def, hr, List.mem_singleton]
        simp only [contains, decide_eq_true_eq]
        rw [← OrdSet.mem_erase, this, eq_comm]
      · exact ⟨rfl, fun v => by simp [contains]⟩
    · have heq : (multi c os).remove w = (false, multi c os) := by simp [remove, hw]
      rw [heq]
      refine ⟨rfl, fun v => ?_⟩
      simp only [contains, decide_eq_true_eq]
      constructor
      · intro hv
        refine ⟨hv, ?_⟩
        rintro rfl
        exact hw hv
      · exact fun hv => hv.1

theorem remove_kept_owned (h : (e.remove w).1 = false) (hown : ∃ v, e.contains v = true) :
    ∃ v, (e.remove w).2.contains v = true := by
  cases e with
  | single c o => exact ⟨o, by simp [remove, contains]⟩
  | multi c os =>
    by_cases hw : w ∈ os
    · simp only [remove, hw, not_true_eq_false, ↓reduceIte] at h ⊢
      split at h
      · cases h
      · next r _ => exact ⟨r, by simp [contains]⟩
      · next r₁ r₂ rs hr =>
        refine ⟨r₁, ?_⟩
        simp only [contains, decide_eq_true_eq]
        rw [OrdSet.mem_def, hr]
        exact List.mem_cons_self
    · have heq : (multi c os).remove w = (false, multi c os) := by simp [remove, hw]
      rw [heq]
      exact hown

end EdgeOwnersEntry

abbrev EdgeMap := Dict TransitionKey EdgeOwnersEntry

/-- The reverse table of a worker. -/
abbrev WorkerMap := Dict SequenceBlockHash TransitionKey

structure LowerTierIndexer where
  edges : EdgeMap
  workerBlocks : Dict WorkerKey WorkerMap

namespace LowerTierIndexer

def new : LowerTierIndexer := ⟨∅, ∅⟩

/-! ## Mutation -/

/-- The entry of an edge after `w` has joined its owners; `none` on a conflicting child. -/
def joinEdge (edges : EdgeMap) (key : TransitionKey) (child : SequenceBlockHash) (w : WorkerKey) :
    Option EdgeOwnersEntry :=
  match edges.get? key with
  | some edge => edge.insert child w
  | none => some (.single child w)

/-- Insert a chain of blocks as edges. The chain stops at the first block that the worker has under
another edge, or whose edge leads to another block. -/
def storeLoop (w : WorkerKey) (edges : EdgeMap) (workerMap : WorkerMap)
    (parent : Option SequenceBlockHash) : List KvCacheStoredBlockData → EdgeMap × WorkerMap
  | [] => (edges, workerMap)
  | b :: bs =>
    let key : TransitionKey := ⟨parent, b.tokensHash⟩
    if (workerMap.get? b.blockHash).any (fun existing => decide (existing ≠ key)) then
      (edges, workerMap)
    else
      match joinEdge edges key b.blockHash w with
      | none => (edges, workerMap)
      | some edge =>
        storeLoop w (edges.insert key edge) (workerMap.insert b.blockHash key) (some b.blockHash) bs

/-- The reverse table of `w`, empty if it has none. -/
def workerMap (t : LowerTierIndexer) (w : WorkerKey) : WorkerMap := (t.workerBlocks.get? w).getD ∅

def storeBlocks (t : LowerTierIndexer) (w : WorkerKey) (data : KvCacheStoreData) :
    LowerTierIndexer :=
  let (edges, workerMap) := storeLoop w t.edges (t.workerMap w) data.parentHash data.blocks
  ⟨edges, t.workerBlocks.insert w workerMap⟩

/-- Take `w` off the owners of an edge; an edge without owners goes. -/
def removeOwner (edges : EdgeMap) (key : TransitionKey) (w : WorkerKey) : EdgeMap :=
  match edges.get? key with
  | none => edges
  | some edge =>
    if (edge.remove w).1 then edges.erase key else edges.insert key (edge.remove w).2

def removeLoop (w : WorkerKey) (edges : EdgeMap) (workerMap : WorkerMap) :
    List UInt64 → EdgeMap × WorkerMap
  | [] => (edges, workerMap)
  | h :: hs =>
    match workerMap.get? h with
    | none => removeLoop w edges workerMap hs
    | some key => removeLoop w (removeOwner edges key w) (workerMap.erase h) hs

def removeBlocks (t : LowerTierIndexer) (w : WorkerKey) (blockHashes : List UInt64) :
    LowerTierIndexer :=
  match t.workerBlocks.get? w with
  | none => t
  | some workerMap =>
    let (edges, workerMap) := removeLoop w t.edges workerMap blockHashes
    ⟨edges, if workerMap.isEmpty then t.workerBlocks.erase w else t.workerBlocks.insert w workerMap⟩

def clearWorker (t : LowerTierIndexer) (w : WorkerKey) : LowerTierIndexer :=
  match t.workerBlocks.get? w with
  | none => t
  | some workerMap =>
    ⟨workerMap.values.foldl (fun edges key => removeOwner edges key w) t.edges,
      t.workerBlocks.erase w⟩

/-- What an event does to the tier of its worker. -/
def apply (t : LowerTierIndexer) (w : WorkerKey) : KvCacheEventData → LowerTierIndexer
  | .stored data => t.storeBlocks w data
  | .removed blockHashes => t.removeBlocks w blockHashes
  | .cleared => t.clearWorker w

/-! ## Lookup -/

/-- The workers that own an edge. -/
def edgeOwners (t : LowerTierIndexer) (parentHash : Option SequenceBlockHash)
    (localHash : LocalBlockHash) : List WorkerKey :=
  match t.edges.get? ⟨parentHash, localHash⟩ with
  | some edge => edge.collectWorkers
  | none => []

def rootWorkers (t : LowerTierIndexer) (localHash : LocalBlockHash) : List WorkerKey :=
  t.edgeOwners none localHash

def lookupLoop (h : UInt64) : List WorkerMap → Option TransitionKey
  | [] => none
  | m :: ms =>
    match m.get? h with
    | some key => some key
    | none => lookupLoop h ms

/-- The edge of a block in the first reverse table that has it, in the order that `σ` has at the
`i`-th lookup. -/
def lookupBlock (t : LowerTierIndexer) (σ : HashOrder WorkerMap) (i : Nat) (h : UInt64) :
    Option TransitionKey :=
  lookupLoop h (σ.iter i t.workerBlocks.values)

/-! ## The two tables -/

variable {edges edges' : EdgeMap} {W : WorkerKey → WorkerMap} {v w : WorkerKey}
  {key : TransitionKey} {child : SequenceBlockHash}

/-- `w` owns the edge `key`, which leads to `child`. -/
def OwnsEdge (edges : EdgeMap) (w : WorkerKey) (key : TransitionKey) (child : SequenceBlockHash) :
    Prop :=
  ∃ edge, edges.get? key = some edge ∧ edge.childHash = child ∧ edge.contains w = true

/-- Owners and reverse tables agree. -/
def Agree (edges : EdgeMap) (W : WorkerKey → WorkerMap) : Prop :=
  ∀ w key child, OwnsEdge edges w key child ↔ (W w).get? child = some key

/-- Every edge has an owner. -/
def Owned (edges : EdgeMap) : Prop :=
  ∀ key edge, edges.get? key = some edge → ∃ w, edge.contains w = true

theorem agree_new : Agree ∅ (fun _ => ∅) := by
  intro w key child
  simp [OwnsEdge]

theorem OwnsEdge.child_eq {c c' : SequenceBlockHash} (h : OwnsEdge edges v key c)
    (h' : OwnsEdge edges w key c') : c = c' := by
  obtain ⟨edge, hget, rfl, -⟩ := h
  obtain ⟨edge', hget', rfl, -⟩ := h'
  rw [hget] at hget'
  cases hget'
  rfl

/-- **Joining an edge** adds one owner and changes nothing else. -/
theorem ownsEdge_join {edge : EdgeOwnersEntry} (hj : joinEdge edges key child w = some edge)
    {key' : TransitionKey} {c : SequenceBlockHash} :
    OwnsEdge (edges.insert key edge) v key' c ↔
      (v = w ∧ key' = key ∧ c = child) ∨ OwnsEdge edges v key' c := by
  -- the entry of `key` before and after
  have hentry : edge.childHash = child ∧ ∀ u d, (edge.childHash = d ∧ edge.contains u = true) ↔
      (u = w ∧ d = child) ∨ OwnsEdge edges u key d := by
    unfold joinEdge at hj
    unfold OwnsEdge
    cases hget : edges.get? key with
    | none =>
      rw [hget] at hj
      cases hj
      refine ⟨rfl, fun u d => ?_⟩
      simp only [EdgeOwnersEntry.childHash, EdgeOwnersEntry.contains, decide_eq_true_eq,
        reduceCtorEq, false_and, exists_false, or_false]
      rw [and_comm, @eq_comm _ w u, @eq_comm _ child d]
    | some old =>
      rw [hget] at hj
      obtain ⟨hold, hnew, hcont⟩ := EdgeOwnersEntry.insert_eq_some hj
      refine ⟨hnew, fun u d => ?_⟩
      simp only [Option.some.injEq, exists_eq_left', hold, hnew, hcont]
      rw [@eq_comm _ child d]
      tauto
  obtain ⟨hchild, hentry⟩ := hentry
  by_cases hk : key' = key
  · subst hk
    rw [OwnsEdge, Dict.get?_insert_self]
    simp only [Option.some.injEq, exists_eq_left', true_and, hentry]
  · rw [OwnsEdge, Dict.get?_insert_ne _ _ (Ne.symm hk)]
    simp only [hk, false_and, and_false, false_or, OwnsEdge]

/-- **Leaving an edge** removes one owner and changes nothing else. -/
theorem ownsEdge_removeOwner {key' : TransitionKey} {c : SequenceBlockHash} :
    OwnsEdge (removeOwner edges key w) v key' c ↔
      OwnsEdge edges v key' c ∧ ¬ (v = w ∧ key' = key) := by
  unfold removeOwner
  cases hget : edges.get? key with
  | none =>
    refine ⟨fun h => ⟨h, ?_⟩, fun h => h.1⟩
    rintro ⟨-, rfl⟩
    obtain ⟨edge, he, -⟩ := h
    rw [hget] at he
    cases he
  | some edge =>
    simp only
    by_cases hk : key' = key
    · subst hk
      split
      · next hdel =>
        constructor
        · rintro ⟨e, he, -⟩
          rw [Dict.get?_erase_self] at he
          cases he
        · rintro ⟨⟨e, he, -, hv⟩, hne⟩
          rw [hget] at he
          cases he
          exact absurd ⟨EdgeOwnersEntry.remove_deleted hdel hv, rfl⟩ hne
      · next hdel =>
        obtain ⟨hchild, hcont⟩ := EdgeOwnersEntry.remove_kept (Bool.not_eq_true _ ▸ hdel)
        simp only [OwnsEdge, Dict.get?_insert_self, hget, Option.some.injEq, exists_eq_left',
          hchild, hcont, and_true, and_assoc, ne_eq]
    · have hother : ∀ {es : EdgeMap}, es.get? key' = edges.get? key' →
          (OwnsEdge es v key' c ↔ OwnsEdge edges v key' c) := by
        intro es hes
        rw [OwnsEdge, hes, OwnsEdge]
      simp only [hk, and_false, not_false_eq_true, and_true]
      split
      · exact hother (Dict.get?_erase_ne _ (Ne.symm hk))
      · exact hother (Dict.get?_insert_ne _ _ (Ne.symm hk))

theorem Agree.store {edge : EdgeOwnersEntry} (h : Agree edges W)
    (hj : joinEdge edges key child w = some edge)
    (hold : ∀ key', (W w).get? child = some key' → key' = key) :
    Agree (edges.insert key edge) (Function.update W w ((W w).insert child key)) := by
  intro v key' c
  rw [ownsEdge_join hj, h v key' c]
  by_cases hv : v = w
  · subst hv
    rw [Function.update_self, Dict.get?_insert]
    by_cases hc : child = c
    · subst hc
      have := hold key'
      simp only [true_and, and_true, ↓reduceIte, Option.some.injEq]
      rw [@eq_comm _ key' key] at this ⊢
      tauto
    · simp [hc, Ne.symm hc]
  · simp [hv]

theorem Agree.remove (h : Agree edges W) (hget : (W w).get? child = some key) :
    Agree (removeOwner edges key w) (Function.update W w ((W w).erase child)) := by
  intro v key' c
  rw [ownsEdge_removeOwner]
  by_cases hv : v = w
  · subst hv
    rw [Function.update_self, Dict.get?_erase]
    have hown := (h v key child).mpr hget
    by_cases hc : child = c
    · subst hc
      rw [if_pos rfl, h v key' child, hget]
      simp [eq_comm]
    · rw [if_neg hc, ← h v key' c]
      refine ⟨fun h' => h'.1, fun h' => ⟨h', ?_⟩⟩
      rintro ⟨-, rfl⟩
      exact hc (hown.child_eq h')
  · simp [hv, h v key' c]

/-! ### Properties of single edges -/

/-- A property that an entry has from the start and that survives every join and leave. -/
structure KeptByOwners (P : EdgeOwnersEntry → Prop) : Prop where
  single : ∀ c w, P (.single c w)
  insert : ∀ e c w e', P e → e.insert c w = some e' → P e'
  remove : ∀ e w, P e → (e.remove w).1 = false → P (e.remove w).2

/-- Every edge satisfies `P`. -/
def AllEdges (P : EdgeOwnersEntry → Prop) (edges : EdgeMap) : Prop :=
  ∀ key edge, edges.get? key = some edge → P edge

theorem owned_kept : KeptByOwners (fun e => ∃ w, e.contains w = true) where
  single _ w := ⟨w, by simp [EdgeOwnersEntry.contains]⟩
  insert _ _ w _ _ hins := ⟨w, ((EdgeOwnersEntry.insert_eq_some hins).2.2 w).mpr (Or.inl rfl)⟩
  remove _ _ hown hkept := EdgeOwnersEntry.remove_kept_owned hkept hown

namespace KeptByOwners

variable {P : EdgeOwnersEntry → Prop}

theorem join (hP : KeptByOwners P) {edge : EdgeOwnersEntry} (h : AllEdges P edges)
    (hj : joinEdge edges key child w = some edge) : AllEdges P (edges.insert key edge) := by
  intro key' edge' hget
  rw [Dict.get?_insert] at hget
  split at hget
  · cases hget
    unfold joinEdge at hj
    cases hold : edges.get? key with
    | none =>
      rw [hold] at hj
      cases hj
      exact hP.single child w
    | some e =>
      rw [hold] at hj
      exact hP.insert e child w edge (h key e hold) hj
  · exact h key' edge' hget

theorem removeOwner (hP : KeptByOwners P) (h : AllEdges P edges) (key : TransitionKey)
    (w : WorkerKey) : AllEdges P (removeOwner edges key w) := by
  unfold LowerTierIndexer.removeOwner
  cases hedge : edges.get? key with
  | none => exact h
  | some edge =>
    intro key' edge' hget
    simp only at hget
    split at hget
    · exact h key' edge' (Dict.get?_of_erase hget)
    · next hdel =>
      rw [Dict.get?_insert] at hget
      split at hget
      · cases hget
        exact hP.remove edge w (h key edge hedge) (Bool.not_eq_true _ ▸ hdel)
      · exact h key' edge' hget

theorem storeLoop (hP : KeptByOwners P) (bs : List KvCacheStoredBlockData) :
    ∀ {edges : EdgeMap} (m : WorkerMap) (parent : Option SequenceBlockHash), AllEdges P edges →
      AllEdges P (storeLoop w edges m parent bs).1 := by
  induction bs with
  | nil =>
    intro edges m parent h
    exact h
  | cons b bs ih =>
    intro edges m parent h
    rw [LowerTierIndexer.storeLoop]
    split
    · exact h
    · split
      · exact h
      · next edge hj => exact ih _ _ (hP.join h hj)

theorem removeLoop (hP : KeptByOwners P) (hs : List UInt64) :
    ∀ {edges : EdgeMap} (m : WorkerMap), AllEdges P edges →
      AllEdges P (removeLoop w edges m hs).1 := by
  induction hs with
  | nil =>
    intro edges m h
    exact h
  | cons x hs ih =>
    intro edges m h
    rw [LowerTierIndexer.removeLoop]
    split
    · exact ih m h
    · next key _ => exact ih _ (hP.removeOwner h key w)

theorem foldl_removeOwner (hP : KeptByOwners P) (keys : List TransitionKey) (w : WorkerKey) :
    ∀ {edges : EdgeMap}, AllEdges P edges →
      AllEdges P (keys.foldl (fun edges key => LowerTierIndexer.removeOwner edges key w) edges) := by
  induction keys with
  | nil =>
    intro edges h
    exact h
  | cons key keys ih =>
    intro edges h
    exact ih (hP.removeOwner h key w)

end KeptByOwners

/-! ### The loops -/

theorem storeLoop_agree (bs : List KvCacheStoredBlockData) :
    ∀ {edges : EdgeMap} {m : WorkerMap} (parent : Option SequenceBlockHash),
      Agree edges (Function.update W w m) →
      Agree (storeLoop w edges m parent bs).1
        (Function.update W w (storeLoop w edges m parent bs).2) := by
  induction bs with
  | nil =>
    intro edges m parent h
    exact h
  | cons b bs ih =>
    intro edges m parent h
    rw [storeLoop]
    split
    · exact h
    · next hany =>
      split
      · exact h
      · next edge hj =>
        refine ih _ ?_
        have := h.store (w := w) hj ?_
        · simpa using this
        · intro key' hkey'
          rw [Function.update_self] at hkey'
          simpa [hkey'] using hany

theorem removeLoop_agree (hs : List UInt64) :
    ∀ {edges : EdgeMap} {m : WorkerMap}, Agree edges (Function.update W w m) →
      Agree (removeLoop w edges m hs).1 (Function.update W w (removeLoop w edges m hs).2) := by
  induction hs with
  | nil =>
    intro edges m h
    exact h
  | cons x hs ih =>
    intro edges m h
    rw [removeLoop]
    split
    · exact ih h
    · next key hget =>
      refine ih ?_
      have hm : (Function.update W w m w).get? x = some key := by rwa [Function.update_self]
      simpa using h.remove hm

theorem ownsEdge_foldl_removeOwner {keys : List TransitionKey} {key' : TransitionKey}
    {c : SequenceBlockHash} :
    OwnsEdge (keys.foldl (fun edges key => removeOwner edges key w) edges) v key' c ↔
      OwnsEdge edges v key' c ∧ ¬ (v = w ∧ key' ∈ keys) := by
  induction keys generalizing edges with
  | nil => simp
  | cons key keys ih =>
    rw [List.foldl_cons, ih, ownsEdge_removeOwner, List.mem_cons]
    tauto

theorem removeLoop_get? (hs : List UInt64) (c : SequenceBlockHash) :
    ∀ (edges : EdgeMap) (m : WorkerMap),
      (removeLoop w edges m hs).2.get? c = if c ∈ hs then none else m.get? c := by
  induction hs with
  | nil => intro edges m; simp [removeLoop]
  | cons x hs ih =>
    intro edges m
    rw [removeLoop]
    cases hm : m.get? x with
    | none =>
      simp only [ih, List.mem_cons]
      by_cases hmem : c ∈ hs <;> by_cases heq : c = x <;> simp [hmem, heq, hm]
    | some key =>
      simp only [ih, Dict.get?_erase, List.mem_cons]
      by_cases hmem : c ∈ hs <;> by_cases heq : c = x <;> simp [hmem, heq, Ne.symm]

/-! ## Whole operations -/

/-- The two tables of an index agree, and no edge is without an owner. -/
structure Consistent (t : LowerTierIndexer) : Prop where
  agree : Agree t.edges t.workerMap
  owned : Owned t.edges

theorem workerMap_insert (es : EdgeMap) (t : LowerTierIndexer) (w : WorkerKey) (m : WorkerMap) :
    (mk es (t.workerBlocks.insert w m)).workerMap = Function.update t.workerMap w m := by
  funext v
  by_cases hv : v = w
  · subst hv
    simp [workerMap]
  · rw [Function.update_of_ne hv, workerMap, workerMap, Dict.get?_insert_ne _ _ (Ne.symm hv)]

theorem workerMap_erase (es : EdgeMap) (t : LowerTierIndexer) (w : WorkerKey) :
    (mk es (t.workerBlocks.erase w)).workerMap = Function.update t.workerMap w ∅ := by
  funext v
  by_cases hv : v = w
  · subst hv
    simp [workerMap]
  · rw [Function.update_of_ne hv, workerMap, workerMap, Dict.get?_erase_ne _ (Ne.symm hv)]

variable {t : LowerTierIndexer}

theorem consistent_new : Consistent new :=
  ⟨agree_new, fun key edge h => by simp [new] at h⟩

theorem Consistent.update_self (h : Consistent t) (w : WorkerKey) :
    Agree t.edges (Function.update t.workerMap w (t.workerMap w)) := by
  rw [Function.update_eq_self]
  exact h.agree

theorem Consistent.storeBlocks (h : Consistent t) (w : WorkerKey) (data : KvCacheStoreData) :
    Consistent (t.storeBlocks w data) := by
  refine ⟨?_, owned_kept.storeLoop data.blocks _ data.parentHash h.owned⟩
  rw [LowerTierIndexer.storeBlocks, workerMap_insert]
  exact storeLoop_agree data.blocks data.parentHash (h.update_self w)

/-- Removal is the loop over the reverse table; a worker without one has nothing to remove. -/
theorem removeBlocks_eq (t : LowerTierIndexer) (w : WorkerKey) (hs : List UInt64) :
    (t.removeBlocks w hs).edges = (removeLoop w t.edges (t.workerMap w) hs).1 ∧
      (t.removeBlocks w hs).workerMap =
        Function.update t.workerMap w (removeLoop w t.edges (t.workerMap w) hs).2 := by
  have hempty : ∀ (es : EdgeMap) (hs : List UInt64), removeLoop w es ∅ hs = (es, ∅) := by
    intro es hs
    induction hs with
    | nil => rfl
    | cons x hs ih => rw [removeLoop, Dict.get?_empty]; exact ih
  unfold removeBlocks
  cases hw : t.workerBlocks.get? w with
  | none =>
    have hm : t.workerMap w = ∅ := by simp [workerMap, hw]
    refine ⟨by rw [hm, hempty], ?_⟩
    rw [hm, hempty]
    simp only
    rw [← hm, Function.update_eq_self]
  | some m =>
    have hm : t.workerMap w = m := by simp [workerMap, hw]
    rw [hm]
    refine ⟨rfl, ?_⟩
    simp only
    split
    · next hnone => rw [workerMap_erase, Dict.eq_empty_of_isEmpty hnone]
    · rw [workerMap_insert]

theorem Consistent.removeBlocks (h : Consistent t) (w : WorkerKey) (hs : List UInt64) :
    Consistent (t.removeBlocks w hs) := by
  obtain ⟨hedges, hmap⟩ := removeBlocks_eq t w hs
  refine ⟨?_, ?_⟩
  · rw [hedges, hmap]
    exact removeLoop_agree hs (h.update_self w)
  · rw [hedges]
    exact owned_kept.removeLoop hs _ h.owned

theorem workerMap_clearWorker (t : LowerTierIndexer) (w : WorkerKey) :
    (t.clearWorker w).workerMap = Function.update t.workerMap w ∅ := by
  unfold LowerTierIndexer.clearWorker
  cases hw : t.workerBlocks.get? w with
  | none =>
    have hm : t.workerMap w = ∅ := by simp [workerMap, hw]
    simp only
    rw [← hm, Function.update_eq_self]
  | some m => exact workerMap_erase ..

theorem Consistent.clearWorker (h : Consistent t) (w : WorkerKey) :
    Consistent (t.clearWorker w) := by
  unfold LowerTierIndexer.clearWorker
  cases hw : t.workerBlocks.get? w with
  | none => exact h
  | some m =>
    have hm : t.workerMap w = m := by simp [workerMap, hw]
    refine ⟨?_, ?_⟩
    · rw [workerMap_erase]
      intro v key' c
      rw [ownsEdge_foldl_removeOwner, h.agree v key' c]
      by_cases hv : v = w
      · subst hv
        rw [Function.update_self, Dict.get?_empty, hm, Dict.mem_values_iff]
        simp only [true_and, reduceCtorEq, iff_false, not_and, not_not]
        exact fun hget => ⟨c, hget⟩
      · simp [hv]
    · exact owned_kept.foldl_removeOwner m.values w h.owned

theorem Consistent.apply (h : Consistent t) (w : WorkerKey) (event : KvCacheEventData) :
    Consistent (t.apply w event) := by
  cases event with
  | stored data => exact h.storeBlocks w data
  | removed hs => exact h.removeBlocks w hs
  | cleared => exact h.clearWorker w

theorem workerMap_apply_ne (t : LowerTierIndexer) (event : KvCacheEventData) {v w : WorkerKey}
    (hv : v ≠ w) : (t.apply w event).workerMap v = t.workerMap v := by
  cases event with
  | stored data =>
    rw [apply, storeBlocks, workerMap_insert, Function.update_of_ne hv]
  | removed hs =>
    rw [apply, (removeBlocks_eq t w hs).2, Function.update_of_ne hv]
  | cleared =>
    rw [apply, workerMap_clearWorker, Function.update_of_ne hv]

/-- `w` owns an edge to the block `h`. -/
def Owns (t : LowerTierIndexer) (w : WorkerKey) (h : SequenceBlockHash) : Prop :=
  ∃ key, OwnsEdge t.edges w key h

theorem Consistent.owns_iff (h : Consistent t) {c : SequenceBlockHash} :
    t.Owns w c ↔ ∃ key, (t.workerMap w).get? c = some key := by
  simp only [Owns, h.agree w _ c]

/-- **What a removal leaves** to the worker: the blocks it did not name. -/
theorem Consistent.owns_removeBlocks (h : Consistent t) (hs : List UInt64)
    {c : SequenceBlockHash} : (t.removeBlocks w hs).Owns w c ↔ t.Owns w c ∧ c ∉ hs := by
  rw [(h.removeBlocks w hs).owns_iff, h.owns_iff, (removeBlocks_eq t w hs).2,
    Function.update_self]
  simp only [removeLoop_get?]
  by_cases hmem : c ∈ hs <;> simp [hmem]

end LowerTierIndexer

end PyMotor.Conductor
