import PyMotor.Conductor.RadixTree

/-!
# The heap of the radix tree is closed

Whatever the events, every node that a child map or a lookup table mentions has been allocated, and
the part of the heap that has not been allocated yet is blank. Each elementary update keeps this;
the stronger invariants of the tree extend it.
-/

namespace PyMotor.Conductor.ConcurrentRadixTree

variable {t : ConcurrentRadixTree} {L : WorkerKey → WorkerLookup}

/-- All references point into the allocated part of the heap. -/
structure Closed (t : ConcurrentRadixTree) (L : WorkerKey → WorkerLookup) : Prop where
  root_lt : root < t.next
  fresh : ∀ n, t.next ≤ n → t.nodes n = Block.new
  child_lt : ∀ n k c, (t.nodes n).children.get? k = some c → c < t.next
  lookup_lt : ∀ w h n, (L w).get? h = some n → n < t.next

/-! ## What an update does to a node -/

@[simp] theorem insertWorker_children (n m : NodeId) (w : WorkerKey) :
    ((t.insertWorker n w).nodes m).children = (t.nodes m).children := by
  simp only [insertWorker, modify_nodes]
  split <;> rfl

@[simp] theorem insertWorker_next (n : NodeId) (w : WorkerKey) :
    (t.insertWorker n w).next = t.next := rfl

theorem mem_insertWorker_workers {n m : NodeId} {w v : WorkerKey} :
    v ∈ ((t.insertWorker n w).nodes m).workers ↔ (m = n ∧ v = w) ∨ v ∈ (t.nodes m).workers := by
  simp only [insertWorker, modify_nodes]
  by_cases h : m = n <;> simp [h]

@[simp] theorem link_next (p : NodeId) (k : LocalBlockHash) (c : NodeId) :
    (t.link p k c).next = t.next := rfl

@[simp] theorem link_workers (p : NodeId) (k : LocalBlockHash) (c m : NodeId) :
    ((t.link p k c).nodes m).workers = (t.nodes m).workers := by
  simp only [link, modify_nodes]
  split <;> rfl

theorem link_children (p : NodeId) (k : LocalBlockHash) (c m : NodeId) :
    ((t.link p k c).nodes m).children =
      if m = p then (t.nodes m).children.insert k c else (t.nodes m).children := by
  simp only [link, modify_nodes]
  split <;> rfl

theorem link_children_get? {p c m x : NodeId} {k k' : LocalBlockHash}
    (h : ((t.link p k c).nodes m).children.get? k' = some x) :
    (t.nodes m).children.get? k' = some x ∨ (m = p ∧ k' = k ∧ x = c) := by
  rw [link_children] at h
  split at h
  · next hm =>
    rw [Dict.get?_insert] at h
    split at h
    · next hk => exact Or.inr ⟨hm, hk.symm, by cases h; rfl⟩
    · exact Or.inl h
  · exact Or.inl h

@[simp] theorem alloc_next (h : SequenceBlockHash) : (t.alloc h).next = t.next + 1 := rfl

theorem alloc_nodes (h : SequenceBlockHash) (m : NodeId) :
    (t.alloc h).nodes m = if m = t.next then Block.withHash h else t.nodes m := by
  simp only [alloc]
  by_cases hm : m = t.next
  · subst hm; simp
  · simp [hm]

@[simp] theorem dropWorker_next (n : NodeId) (w : WorkerKey) : (t.dropWorker n w).next = t.next :=
  rfl

theorem mem_dropWorker_workers {n m : NodeId} {w v : WorkerKey} :
    v ∈ ((t.dropWorker n w).nodes m).workers ↔ v ∈ (t.nodes m).workers ∧ ¬ (m = n ∧ v = w) := by
  simp only [dropWorker, modify_nodes]
  by_cases h : m = n <;> simp [h]

theorem dropWorker_children_sub {n m c : NodeId} {w : WorkerKey} {k : LocalBlockHash}
    (h : ((t.dropWorker n w).nodes m).children.get? k = some c) :
    (t.nodes m).children.get? k = some c := by
  simp only [dropWorker, modify_nodes] at h
  split at h
  · exact Block.dropWorker_children_sub h
  · exact h

@[simp] theorem pruneChildren_next (n : NodeId) : (t.pruneChildren n).next = t.next := rfl

@[simp] theorem pruneChildren_workers (n m : NodeId) :
    ((t.pruneChildren n).nodes m).workers = (t.nodes m).workers := by
  simp only [pruneChildren, modify_nodes]
  split <;> rfl

theorem pruneChildren_children_sub {n m c : NodeId} {k : LocalBlockHash}
    (h : ((t.pruneChildren n).nodes m).children.get? k = some c) :
    (t.nodes m).children.get? k = some c := by
  simp only [pruneChildren, modify_nodes] at h
  split at h
  · rw [Dict.get?_filter] at h
    exact (Option.filter_eq_some_iff.mp h).1
  · exact h

/-! ## What a whole operation leaves alone -/

/-- `t'` has no other nodes and no other child links than `t`, and blank nodes stayed blank. -/
structure Shrinks (t t' : ConcurrentRadixTree) : Prop where
  next : t'.next = t.next
  child : ∀ n k c, (t'.nodes n).children.get? k = some c → (t.nodes n).children.get? k = some c
  blank : ∀ n, t.nodes n = Block.new → t'.nodes n = Block.new

theorem Shrinks.refl (t : ConcurrentRadixTree) : Shrinks t t :=
  ⟨rfl, fun _ _ _ h => h, fun _ h => h⟩

theorem Shrinks.trans {t₁ t₂ t₃ : ConcurrentRadixTree} (h₁ : Shrinks t₁ t₂) (h₂ : Shrinks t₂ t₃) :
    Shrinks t₁ t₃ :=
  ⟨h₂.next.trans h₁.next, fun n k c h => h₁.child n k c (h₂.child n k c h),
    fun n h => h₂.blank n (h₁.blank n h)⟩

theorem shrinks_dropWorker (t : ConcurrentRadixTree) (n : NodeId) (w : WorkerKey) :
    Shrinks t (t.dropWorker n w) where
  next := rfl
  child _ _ _ h := dropWorker_children_sub h
  blank m hm := by
    rw [dropWorker, modify_nodes, hm]
    split <;> rfl

theorem shrinks_pruneChildren (t : ConcurrentRadixTree) (n : NodeId) :
    Shrinks t (t.pruneChildren n) where
  next := rfl
  child _ _ _ h := pruneChildren_children_sub h
  blank m hm := by
    rw [pruneChildren, modify_nodes, hm]
    split <;> rfl

theorem shrinks_applyRemove (w : WorkerKey) (hs : List UInt64) :
    ∀ (t : ConcurrentRadixTree) (l : WorkerLookup), Shrinks t (t.applyRemove w l hs).1 := by
  induction hs with
  | nil => intro t l; exact Shrinks.refl t
  | cons h hs ih =>
    intro t l
    rw [applyRemove]
    split
    · next n _ => exact (shrinks_dropWorker t n w).trans (ih _ _)
    · exact ih _ _

theorem applyRemove_lookup (w : WorkerKey) (hs : List UInt64) (h : SequenceBlockHash) :
    ∀ (t : ConcurrentRadixTree) (l : WorkerLookup),
      (t.applyRemove w l hs).2.get? h = if h ∈ hs then none else l.get? h := by
  induction hs with
  | nil => intro t l; simp [applyRemove]
  | cons h' hs ih =>
    intro t l
    rw [applyRemove]
    cases hl : l.get? h' with
    | some n =>
      simp only [ih, Dict.get?_erase, List.mem_cons]
      by_cases hmem : h ∈ hs <;> by_cases heq : h = h' <;> simp [hmem, heq, Ne.symm]
    | none =>
      simp only [ih, List.mem_cons]
      by_cases hmem : h ∈ hs <;> by_cases heq : h = h' <;> simp [hmem, heq, hl]

theorem shrinks_removeWorker (t : ConcurrentRadixTree) (w : WorkerKey) (l : WorkerLookup) :
    Shrinks t (t.removeWorker w l) := by
  unfold removeWorker
  generalize l.values = ns
  induction ns generalizing t with
  | nil => exact Shrinks.refl t
  | cons n ns ih => exact (shrinks_dropWorker t n w).trans (ih _)

theorem sweepLoop_frame {σ : HashOrder NodeId} {fuel i : Nat} {stack : List NodeId}
    {t t' : ConcurrentRadixTree} {p p' : Nat} (h : sweepLoop σ fuel i stack t p = some (t', p')) :
    Shrinks t t' ∧ ∀ n, (t'.nodes n).workers = (t.nodes n).workers := by
  induction fuel generalizing i stack t p with
  | zero =>
    cases stack with
    | nil =>
      simp only [sweepLoop, Option.some.injEq, Prod.mk.injEq] at h
      obtain ⟨rfl, -⟩ := h
      exact ⟨Shrinks.refl t, fun _ => rfl⟩
    | cons n stack => simp [sweepLoop] at h
  | succ fuel ih =>
    cases stack with
    | nil =>
      simp only [sweepLoop, Option.some.injEq, Prod.mk.injEq] at h
      obtain ⟨rfl, -⟩ := h
      exact ⟨Shrinks.refl t, fun _ => rfl⟩
    | cons n stack =>
      simp only [sweepLoop] at h
      obtain ⟨hsh, hw⟩ := ih h
      refine ⟨(shrinks_pruneChildren t n).trans hsh, fun m => ?_⟩
      rw [hw m, pruneChildren_workers]

theorem closed_new : Closed new (fun _ => ∅) where
  root_lt := Nat.one_pos
  fresh _ _ := rfl
  child_lt n k c h := by simp [new, Block.new] at h
  lookup_lt w h n hn := by simp at hn

namespace Closed

theorem parent_lt (hC : Closed t L) {n c : NodeId} {k : LocalBlockHash}
    (h : (t.nodes n).children.get? k = some c) : n < t.next := by
  by_contra hn
  rw [hC.fresh n (Nat.le_of_not_lt hn)] at h
  simp [Block.new] at h

theorem insertWorker (hC : Closed t L) {n : NodeId} (w : WorkerKey) (hn : n < t.next) :
    Closed (t.insertWorker n w) L where
  root_lt := hC.root_lt
  fresh m hm := by
    rw [insertWorker_next] at hm
    have hne : m ≠ n := Nat.ne_of_gt (Nat.lt_of_lt_of_le hn hm)
    rw [ConcurrentRadixTree.insertWorker, modify_nodes, if_neg hne, hC.fresh m hm]
  child_lt m k c h := hC.child_lt m k c (by simpa using h)
  lookup_lt := hC.lookup_lt

theorem link (hC : Closed t L) {p c : NodeId} (k : LocalBlockHash) (hp : p < t.next)
    (hc : c < t.next) : Closed (t.link p k c) L where
  root_lt := hC.root_lt
  fresh m hm := by
    rw [link_next] at hm
    have hne : m ≠ p := Nat.ne_of_gt (Nat.lt_of_lt_of_le hp hm)
    rw [ConcurrentRadixTree.link, modify_nodes, if_neg hne, hC.fresh m hm]
  child_lt m k' x h := by
    rcases link_children_get? h with h | ⟨-, -, rfl⟩
    · exact hC.child_lt m k' x h
    · exact hc
  lookup_lt := hC.lookup_lt

theorem alloc (hC : Closed t L) (h : SequenceBlockHash) : Closed (t.alloc h) L where
  root_lt := Nat.lt_succ_of_lt hC.root_lt
  fresh m hm := by
    rw [alloc_next] at hm
    rw [alloc_nodes, if_neg (Nat.ne_of_gt hm), hC.fresh m (Nat.le_of_succ_le hm)]
  child_lt m k c hc := by
    rw [alloc_nodes] at hc
    split at hc
    · simp [Block.withHash] at hc
    · exact Nat.lt_succ_of_lt (hC.child_lt m k c hc)
  lookup_lt w h n hn := Nat.lt_succ_of_lt (hC.lookup_lt w h n hn)

theorem insertLookup (hC : Closed t L) {w : WorkerKey} {h : SequenceBlockHash} {n : NodeId}
    (hn : n < t.next) : Closed t (Function.update L w ((L w).insert h n)) where
  root_lt := hC.root_lt
  fresh := hC.fresh
  child_lt := hC.child_lt
  lookup_lt v h' m hm := by
    by_cases hv : v = w
    · subst hv
      rw [Function.update_self, Dict.get?_insert] at hm
      split at hm
      · cases hm; exact hn
      · exact hC.lookup_lt v h' m hm
    · rw [Function.update_of_ne hv] at hm
      exact hC.lookup_lt v h' m hm

theorem shrink (hC : Closed t L) {t' : ConcurrentRadixTree} {L' : WorkerKey → WorkerLookup}
    (hsh : Shrinks t t') (hL : ∀ w h n, (L' w).get? h = some n → (L w).get? h = some n) :
    Closed t' L' where
  root_lt := by rw [hsh.next]; exact hC.root_lt
  fresh n hn := by
    rw [hsh.next] at hn
    exact hsh.blank n (hC.fresh n hn)
  child_lt n k c h := by rw [hsh.next]; exact hC.child_lt n k c (hsh.child n k c h)
  lookup_lt w h n hn := by rw [hsh.next]; exact hC.lookup_lt w h n (hL w h n hn)

end Closed

end PyMotor.Conductor.ConcurrentRadixTree
