import PyMotor.Conductor.RadixTree.Closed
import PyMotor.Conductor.RadixTree.Walk

/-!
# What an operation of one worker does to the matches of another

A removal clears whole child maps and a sweep cuts links, yet neither touches a match of a worker it is
not about. A link is followed on behalf of `v` only from the root or from a node that carries `v` to a
node that carries `v`, and no such link is ever cut (`SameFor`): a node that gives up its children has no
worker left, and a pruned node never had one.

A store only adds links and workers (`Grows`), so it can make matches longer and never shorter.
-/

namespace PyMotor.Conductor

namespace ConcurrentRadixTree

open Function (update update_self update_of_ne)

variable {t t' t₁ t₂ t₃ : ConcurrentRadixTree} {L : WorkerKey → WorkerLookup} {v w : WorkerKey}

/-! ## Two trees that look the same to a worker -/

/-- The node that a walk of `v` goes to from `n`. -/
def nextFor (t : ConcurrentRadixTree) (v : WorkerKey) (n : NodeId) (k : LocalBlockHash) :
    Option NodeId :=
  ((t.nodes n).children.get? k).filter (fun c => decide (v ∈ (t.nodes c).workers))

theorem nextFor_eq_some {n c : NodeId} {k : LocalBlockHash} :
    t.nextFor v n k = some c ↔
      (t.nodes n).children.get? k = some c ∧ v ∈ (t.nodes c).workers := by
  simp [nextFor, Option.filter_eq_some_iff]

theorem workerWalk_cons (cur : NodeId) (depth : Nat) (k : LocalBlockHash)
    (q : List LocalBlockHash) :
    t.workerWalk v cur depth (k :: q) =
      match t.nextFor v cur k with
      | some c => t.workerWalk v c (depth + 1) q
      | none => ⟨depth, (t.nodes cur).blockHash⟩ := by
  rw [workerWalk, nextFor]
  cases (t.nodes cur).children.get? k with
  | none => rfl
  | some c => by_cases hv : v ∈ (t.nodes c).workers <;> simp [Option.filter, hv]

theorem findMatchesDetailed_cons_get? (k : LocalBlockHash) (q : List LocalBlockHash) :
    (t.findMatchesDetailed (k :: q)).get? v =
      (t.nextFor v root k).map (fun c => t.workerWalk v c 1 q) := by
  rw [findMatchesDetailed_get?, nextFor]
  cases (t.nodes root).children.get? k with
  | none => rfl
  | some c => by_cases hv : v ∈ (t.nodes c).workers <;> simp [Option.filter, hv]

/-- The walks of `v` find the same nodes in `t'` as in `t`. -/
structure SameFor (v : WorkerKey) (t t' : ConcurrentRadixTree) : Prop where
  hash : ∀ n, (t'.nodes n).blockHash = (t.nodes n).blockHash
  member : ∀ n, v ∈ (t'.nodes n).workers ↔ v ∈ (t.nodes n).workers
  child : ∀ n k c, n = root ∨ v ∈ (t.nodes n).workers → v ∈ (t.nodes c).workers →
    ((t'.nodes n).children.get? k = some c ↔ (t.nodes n).children.get? k = some c)

theorem SameFor.refl (v : WorkerKey) (t : ConcurrentRadixTree) : SameFor v t t :=
  ⟨fun _ => rfl, fun _ => Iff.rfl, fun _ _ _ _ _ => Iff.rfl⟩

theorem SameFor.trans (h₁ : SameFor v t₁ t₂) (h₂ : SameFor v t₂ t₃) : SameFor v t₁ t₃ where
  hash n := (h₂.hash n).trans (h₁.hash n)
  member n := (h₂.member n).trans (h₁.member n)
  child n k c hn hc := by
    have hn₂ : n = root ∨ v ∈ (t₂.nodes n).workers := hn.imp_right (h₁.member n).mpr
    exact (h₂.child n k c hn₂ ((h₁.member c).mpr hc)).trans (h₁.child n k c hn hc)

theorem SameFor.nextFor_eq (h : SameFor v t t') {n : NodeId}
    (hn : n = root ∨ v ∈ (t.nodes n).workers) (k : LocalBlockHash) :
    t'.nextFor v n k = t.nextFor v n k := by
  apply Option.ext
  intro c
  rw [nextFor_eq_some, nextFor_eq_some, h.member c]
  constructor
  · rintro ⟨hc, hv⟩
    exact ⟨(h.child n k c hn hv).mp hc, hv⟩
  · rintro ⟨hc, hv⟩
    exact ⟨(h.child n k c hn hv).mpr hc, hv⟩

theorem SameFor.workerWalk_eq (h : SameFor v t t') (q : List LocalBlockHash) :
    ∀ (cur : NodeId) (depth : Nat), v ∈ (t.nodes cur).workers →
      t'.workerWalk v cur depth q = t.workerWalk v cur depth q := by
  induction q with
  | nil =>
    intro cur depth _
    rw [workerWalk, workerWalk, h.hash cur]
  | cons k q ih =>
    intro cur depth hcur
    rw [workerWalk_cons, workerWalk_cons, h.nextFor_eq (Or.inr hcur) k, h.hash cur]
    cases hc : t.nextFor v cur k with
    | none => rfl
    | some c => exact ih c (depth + 1) (nextFor_eq_some.mp hc).2

/-- **The matches of `v` are the same**, in depth, in breakpoint and in absence. -/
theorem SameFor.matches_eq (h : SameFor v t t') (q : List LocalBlockHash) :
    (t'.findMatchesDetailed q).get? v = (t.findMatchesDetailed q).get? v := by
  cases q with
  | nil => rfl
  | cons k q =>
    rw [findMatchesDetailed_cons_get?, findMatchesDetailed_cons_get?,
      h.nextFor_eq (Or.inl rfl) k]
    cases hc : t.nextFor v root k with
    | none => rfl
    | some c => exact congrArg some (h.workerWalk_eq q c 1 (nextFor_eq_some.mp hc).2)

/-! ## Removals and sweeps -/

/-- A node other than the root gives up its children only when nobody is left, so `v` was not going
through it. -/
theorem sameFor_dropWorker (t : ConcurrentRadixTree) {n : NodeId} (hn : n ≠ root) (hv : v ≠ w) :
    SameFor v t (t.dropWorker n w) where
  hash m := by
    simp only [dropWorker, modify_nodes]
    split
    · exact Block.dropWorker_blockHash _ w
    · rfl
  member m := by simp [mem_dropWorker_workers, hv]
  child m k c hm _ := by
    simp only [dropWorker, modify_nodes]
    split
    · next heq =>
      have hvm : v ∈ (t.nodes m).workers := hm.resolve_left (heq ▸ hn)
      have hleft : ((t.nodes m).workers.erase w).isEmpty = false := by
        rw [Bool.eq_false_iff]
        intro hempty
        exact OrdSet.isEmpty_iff.mp hempty v (OrdSet.mem_erase.mpr ⟨hvm, hv⟩)
      simp [Block.dropWorker, hleft]
    · rfl

theorem sameFor_applyRemove (hv : v ≠ w) (hs : List UInt64) :
    ∀ (t : ConcurrentRadixTree) (l : WorkerLookup), (∀ h n, l.get? h = some n → n ≠ root) →
      SameFor v t (t.applyRemove w l hs).1 := by
  induction hs with
  | nil =>
    intro t l _
    exact SameFor.refl v t
  | cons h hs ih =>
    intro t l hl
    rw [applyRemove]
    cases hn : l.get? h with
    | none => exact ih t l hl
    | some n =>
      refine (sameFor_dropWorker t (hl h n hn) hv).trans (ih _ _ ?_)
      intro h' m hm
      exact hl h' m (Dict.get?_of_erase hm)

theorem sameFor_removeWorker (hv : v ≠ w) (t : ConcurrentRadixTree) (l : WorkerLookup)
    (hl : ∀ h n, l.get? h = some n → n ≠ root) : SameFor v t (t.removeWorker w l) := by
  have hvals : ∀ n ∈ l.values, n ≠ root := by
    intro n hn
    obtain ⟨h, hh⟩ := Dict.mem_values_iff.mp hn
    exact hl h n hh
  unfold removeWorker
  generalize l.values = ns at hvals
  induction ns generalizing t with
  | nil => exact SameFor.refl v t
  | cons n ns ih =>
    rw [List.forall_mem_cons] at hvals
    exact (sameFor_dropWorker t hvals.1 hv).trans (ih _ hvals.2)

theorem sameFor_pruneChildren (v : WorkerKey) (t : ConcurrentRadixTree) (n : NodeId) :
    SameFor v t (t.pruneChildren n) where
  hash m := by
    simp only [pruneChildren, modify_nodes]
    split <;> rfl
  member m := by rw [pruneChildren_workers]
  child m k c _ hc := by
    have hnot : (t.nodes c).workers.isEmpty = false := by
      rw [Bool.eq_false_iff]
      exact fun hempty => OrdSet.isEmpty_iff.mp hempty v hc
    simp only [pruneChildren, modify_nodes]
    split
    · rw [Dict.get?_filter, Option.filter_eq_some_iff]
      simp [hnot]
    · rfl

/-- The tree after so many visits of a sweep, be it at its end or not. -/
def sweepVisits (σ : HashOrder NodeId) : Nat → Nat → List NodeId → ConcurrentRadixTree →
    ConcurrentRadixTree
  | _, _, [], t => t
  | 0, _, _ :: _, t => t
  | visits + 1, i, n :: stack, t =>
    sweepVisits σ visits (i + 1)
      (σ.iter i ((t.pruneChildren n).nodes n).children.values ++ stack) (t.pruneChildren n)

theorem sweepLoop_eq_visits {σ : HashOrder NodeId} {fuel i p p' : Nat} {stack : List NodeId}
    (h : sweepLoop σ fuel i stack t p = some (t', p')) : t' = sweepVisits σ fuel i stack t := by
  induction fuel generalizing i stack t p with
  | zero =>
    cases stack with
    | nil =>
      simp only [sweepLoop, Option.some.injEq, Prod.mk.injEq] at h
      exact h.1.symm
    | cons n stack => cases h
  | succ fuel ih =>
    cases stack with
    | nil =>
      simp only [sweepLoop, Option.some.injEq, Prod.mk.injEq] at h
      exact h.1.symm
    | cons n stack => exact ih h

theorem sameFor_sweepVisits (v : WorkerKey) (σ : HashOrder NodeId) (visits : Nat) :
    ∀ (i : Nat) (stack : List NodeId) (t : ConcurrentRadixTree),
      SameFor v t (sweepVisits σ visits i stack t) := by
  induction visits with
  | zero =>
    intro i stack t
    cases stack <;> exact SameFor.refl v t
  | succ visits ih =>
    intro i stack t
    cases stack with
    | nil => exact SameFor.refl v t
    | cons n stack => exact (sameFor_pruneChildren v t n).trans (ih _ _ _)

/-! ## Stores -/

/-- Every link and every worker of `t` is in `t'` as well. -/
structure Grows (t t' : ConcurrentRadixTree) : Prop where
  next : t.next ≤ t'.next
  child : ∀ n k c, (t.nodes n).children.get? k = some c → (t'.nodes n).children.get? k = some c
  member : ∀ n v, v ∈ (t.nodes n).workers → v ∈ (t'.nodes n).workers

theorem Grows.refl (t : ConcurrentRadixTree) : Grows t t :=
  ⟨Nat.le_refl _, fun _ _ _ h => h, fun _ _ h => h⟩

theorem Grows.trans (h₁ : Grows t₁ t₂) (h₂ : Grows t₂ t₃) : Grows t₁ t₃ where
  next := Nat.le_trans h₁.next h₂.next
  child n k c h := h₂.child n k c (h₁.child n k c h)
  member n v h := h₂.member n v (h₁.member n v h)

theorem grows_insertWorker (t : ConcurrentRadixTree) (n : NodeId) (w : WorkerKey) :
    Grows t (t.insertWorker n w) where
  next := Nat.le_refl _
  child m k c h := by rwa [insertWorker_children]
  member m v h := mem_insertWorker_workers.mpr (Or.inr h)

/-- A link is written only where there is none. -/
theorem grows_link {p c : NodeId} {k : LocalBlockHash}
    (hmiss : (t.nodes p).children.get? k = none) : Grows t (t.link p k c) where
  next := Nat.le_refl _
  child m k' x h := by
    rw [link_children]
    split
    · next hm =>
      subst hm
      rw [Dict.get?_insert_ne]
      · exact h
      · rintro rfl
        rw [hmiss] at h
        cases h
    · exact h
  member m v h := by rwa [link_workers]

theorem Closed.grows_alloc (hC : Closed t L) (h : SequenceBlockHash) : Grows t (t.alloc h) where
  next := Nat.le_succ _
  child n k c hc := by
    rw [alloc_nodes, if_neg (Nat.ne_of_lt (hC.parent_lt hc))]
    exact hc
  member n v hv := by
    have hn : n ≠ t.next := by
      rintro rfl
      rw [hC.fresh t.next (Nat.le_refl _)] at hv
      simp [Block.new] at hv
    rwa [alloc_nodes, if_neg hn]

theorem Grows.nodeAt (h : Grows t t') {q : List LocalBlockHash} :
    ∀ {cur n : NodeId}, t.nodeAt cur q = some n → t'.nodeAt cur q = some n := by
  induction q with
  | nil => exact fun hn => hn
  | cons k q ih =>
    intro cur n hn
    rw [ConcurrentRadixTree.nodeAt] at hn ⊢
    cases hc : (t.nodes cur).children.get? k with
    | none => rw [hc] at hn; cases hn
    | some c =>
      rw [hc] at hn
      rw [h.child cur k c hc]
      exact ih hn

theorem Grows.carriedTo (h : Grows t t') {cur : NodeId} {q : List LocalBlockHash} {d : Nat}
    (hd : t.CarriedTo v cur q d) : t'.CarriedTo v cur q d := by
  refine ⟨hd.1, fun i hi hid => ?_⟩
  obtain ⟨n, hn, hv⟩ := hd.2 i hi hid
  exact ⟨n, h.nodeAt hn, h.member n v hv⟩

/-- **No match gets shorter.** -/
theorem Grows.matches_le (h : Grows t t') {q : List LocalBlockHash} {m : PrefixMatch}
    (hm : (t.findMatchesDetailed q).get? v = some m) :
    ∃ m', (t'.findMatchesDetailed q).get? v = some m' ∧ m.depth ≤ m'.depth := by
  obtain ⟨item, hq, first, hfirst, hv⟩ := findMatchesDetailed_isSome.mp ⟨m, hm⟩
  obtain ⟨m', hm'⟩ := findMatchesDetailed_isSome.mpr
    ⟨item, hq, first, h.child _ _ _ hfirst, h.member first v hv⟩
  refine ⟨m', hm', (findMatchesDetailed_greatest hm').2 ?_⟩
  exact h.carriedTo (findMatchesDetailed_greatest hm).1

/-! ## The root is out of reach of a removal -/

/-- Neither a child map nor a lookup table names the root. -/
structure Rooted (t : ConcurrentRadixTree) (L : WorkerKey → WorkerLookup) : Prop
    extends Closed t L where
  child_ne : ∀ n k c, (t.nodes n).children.get? k = some c → c ≠ root
  lookup_ne : ∀ w h n, (L w).get? h = some n → n ≠ root

theorem rooted_new : Rooted new (fun _ => ∅) where
  toClosed := closed_new
  child_ne n k c h := by simp [new, Block.new] at h
  lookup_ne w h n hn := by simp at hn

namespace Rooted

theorem shrink (hR : Rooted t L) {L' : WorkerKey → WorkerLookup} (hsh : Shrinks t t')
    (hL : ∀ w h n, (L' w).get? h = some n → (L w).get? h = some n) : Rooted t' L' where
  toClosed := hR.toClosed.shrink hsh hL
  child_ne n k c h := hR.child_ne n k c (hsh.child n k c h)
  lookup_ne w h n hn := hR.lookup_ne w h n (hL w h n hn)

theorem insertWorker (hR : Rooted t L) {n : NodeId} (w : WorkerKey) (hn : n < t.next) :
    Rooted (t.insertWorker n w) L where
  toClosed := hR.toClosed.insertWorker w hn
  child_ne m k c h := hR.child_ne m k c (by simpa using h)
  lookup_ne := hR.lookup_ne

theorem link (hR : Rooted t L) {p c : NodeId} (k : LocalBlockHash) (hp : p < t.next)
    (hc : c < t.next) (hne : c ≠ root) : Rooted (t.link p k c) L where
  toClosed := hR.toClosed.link k hp hc
  child_ne m k' x h := by
    rcases link_children_get? h with h | ⟨-, -, rfl⟩
    · exact hR.child_ne m k' x h
    · exact hne
  lookup_ne := hR.lookup_ne

theorem alloc (hR : Rooted t L) (h : SequenceBlockHash) : Rooted (t.alloc h) L where
  toClosed := hR.toClosed.alloc h
  child_ne n k c hc := by
    rw [alloc_nodes] at hc
    split at hc
    · simp [Block.withHash] at hc
    · exact hR.child_ne n k c hc
  lookup_ne := hR.lookup_ne

theorem record {l : WorkerLookup} (hR : Rooted t (update L w l)) {h : SequenceBlockHash}
    {n : NodeId} (hn : n < t.next) (hne : n ≠ root) : Rooted t (update L w (l.insert h n)) where
  toClosed := by simpa using hR.toClosed.insertLookup (w := w) (h := h) hn
  child_ne := hR.child_ne
  lookup_ne v h' m hm := by
    by_cases hv : v = w
    · subst hv
      rw [update_self, Dict.get?_insert] at hm
      split at hm
      · cases hm; exact hne
      · exact hR.lookup_ne v h' m (by rwa [update_self])
    · rw [update_of_ne hv] at hm
      exact hR.lookup_ne v h' m (by rwa [update_of_ne hv])

end Rooted

/-- **One block of a store.** Whatever node it is stored at, that node is the child of `cur` under
the token hash, and nothing that was there is lost. -/
theorem resolveChild_grows {l : WorkerLookup} (hR : Rooted t (update L w l)) {cur : NodeId}
    (hcur : cur < t.next) (b : KvCacheStoredBlockData) :
    ∃ c t₁, t.resolveChild l cur b = (c, t₁) ∧ Grows t t₁ ∧
      (t₁.nodes cur).children.get? b.tokensHash = some c ∧ Rooted t₁ (update L w l) := by
  have linked : ∀ (t : ConcurrentRadixTree) (c : NodeId),
      ((t.link cur b.tokensHash c).nodes cur).children.get? b.tokensHash = some c := by
    intro t c
    rw [link_children, if_pos rfl, Dict.get?_insert_self]
  cases hex : (t.nodes cur).children.get? b.tokensHash with
  | some x =>
    exact ⟨x, t, by simp [resolveChild, hex], Grows.refl t, hex, hR⟩
  | none =>
    cases hlk : l.get? b.blockHash with
    | some x =>
      have hlk' : (update L w l w).get? b.blockHash = some x := by rwa [update_self]
      exact ⟨x, t.link cur b.tokensHash x, by simp [resolveChild, hex, hlk], grows_link hex,
        linked t x, hR.link _ hcur (hR.lookup_lt w _ x hlk') (hR.lookup_ne w _ x hlk')⟩
    | none =>
      have hmiss : ((t.alloc b.blockHash).nodes cur).children.get? b.tokensHash = none := by
        rw [alloc_nodes, if_neg (Nat.ne_of_lt hcur), hex]
      refine ⟨t.next, _, by simp [resolveChild, hex, hlk],
        (hR.grows_alloc b.blockHash).trans (grows_link hmiss), linked _ t.next, ?_⟩
      exact (hR.alloc b.blockHash).link _ (Nat.lt_succ_of_lt hcur) (Nat.lt_succ_self _)
        (Nat.ne_of_gt hR.root_lt)

theorem insertDeferred_grows (hR : Rooted t L) {cur : NodeId} (hcur : cur < t.next)
    (needs : Bool) (w : WorkerKey) :
    Grows t (if needs then t.insertWorker cur w else t) ∧
      Rooted (if needs then t.insertWorker cur w else t) L ∧
      (if needs then t.insertWorker cur w else t).next = t.next ∧
      (needs = true → w ∈ ((if needs then t.insertWorker cur w else t).nodes cur).workers) := by
  cases needs with
  | false =>
    refine ⟨Grows.refl t, hR, rfl, ?_⟩
    intro h
    cases h
  | true =>
    refine ⟨grows_insertWorker t cur w, hR.insertWorker w hcur, rfl, fun _ => ?_⟩
    exact mem_insertWorker_workers.mpr (Or.inl ⟨rfl, rfl⟩)

/-- **The store loop**, successful or not, loses nothing; when it succeeds, the path of its token
hashes carries the worker from `cur` on. -/
theorem storeLoop_grows (bs : List KvCacheStoredBlockData) :
    ∀ (needs : Bool) {t : ConcurrentRadixTree} {l : WorkerLookup} {cur : NodeId},
      Rooted t (update L w l) → cur < t.next →
      ∃ r t' l', t.storeLoop w l cur needs bs = (r, t', l') ∧ Grows t t' ∧
        Rooted t' (update L w l') ∧
        (r = .ok () → (needs = true → w ∈ (t'.nodes cur).workers) ∧
          t'.CarriedTo w cur (bs.map (·.tokensHash)) bs.length) := by
  induction bs with
  | nil =>
    intro needs t l cur hR hcur
    obtain ⟨hgrow, hR', -, hw⟩ := insertDeferred_grows hR hcur needs w
    exact ⟨_, _, _, rfl, hgrow, hR', fun _ => ⟨hw, carriedTo_zero⟩⟩
  | cons b bs ih =>
    intro needs t l cur hR hcur
    obtain ⟨hgrow₁, hR₁, hnext₁, hw₁⟩ := insertDeferred_grows hR hcur needs w
    rw [storeLoop]
    generalize (if needs then t.insertWorker cur w else t) = t₁ at *
    obtain ⟨c, t₂, hres, hgrow₂, hlink, hR₂⟩ := resolveChild_grows hR₁ (by rwa [hnext₁]) b
    simp only [hres]
    by_cases hself : c = cur
    · refine ⟨.error .invalidBlockSequence, t₂, l, by simp [hself], hgrow₁.trans hgrow₂, hR₂, ?_⟩
      intro h
      cases h
    · have hc := hR₂.child_lt cur _ c hlink
      obtain ⟨r, t', l', heq, hgrow', hR', hok⟩ :=
        ih true (hR₂.record (h := b.blockHash) hc (hR₂.child_ne cur _ c hlink)) hc
      refine ⟨r, t', l', by simp [hself, heq], (hgrow₁.trans hgrow₂).trans hgrow', hR', ?_⟩
      intro hr
      obtain ⟨hwc, hcarried⟩ := hok hr
      refine ⟨fun hneeds => hgrow'.member cur w (hgrow₂.member cur w (hw₁ hneeds)), ?_⟩
      exact carriedTo_cons (hgrow'.child cur _ c hlink) (hwc rfl) hcarried

end ConcurrentRadixTree

/-! ## Runs -/

namespace HbmIndex

open ConcurrentRadixTree

open Function (update update_self update_of_ne)

variable {s s' : HbmIndex} {ops : List HbmOp} {op : HbmOp} {w : WorkerKey}

theorem storeStart_lt (hC : Closed s.tree s.lookup) {data : KvCacheStoreData} {cur : NodeId}
    (h : s.storeStart w data = some cur) : cur < s.tree.next := by
  unfold storeStart at h
  split at h
  · cases h
    exact hC.root_lt
  · exact hC.lookup_lt w _ cur h

theorem store_loop (hR : Rooted s.tree s.lookup) {data : KvCacheStoreData} {cur : NodeId}
    (h : s.storeStart w data = some cur) :
    Grows s.tree (s.store w data).2.tree ∧
      Rooted (s.store w data).2.tree (s.store w data).2.lookup ∧
      ((s.store w data).1 = .ok () →
        (s.store w data).2.tree.CarriedTo w cur (data.blocks.map (·.tokensHash))
          data.blocks.length) := by
  have hR₀ : Rooted s.tree (update s.lookup w (s.lookup w)) := by rwa [Function.update_eq_self]
  obtain ⟨r, t', l', heq, hgrow, hR', hok⟩ :=
    storeLoop_grows data.blocks false hR₀ (storeStart_lt hR.toClosed h)
  have hstore : s.store w data = (r, ⟨t', s.lookups.insert w l'⟩) := by
    unfold storeStart at h
    unfold store applyStore
    split at h
    · next hparent =>
      cases h
      simp [hparent, heq]
    · next p hparent => simp [hparent, h, heq]
  rw [hstore]
  refine ⟨hgrow, ?_, fun hr => (hok hr).2⟩
  rw [lookup_insert_eq]
  exact hR'

theorem store_no_parent {data : KvCacheStoreData} (h : s.storeStart w data = none) :
    (s.store w data).1 = .error .parentBlockNotFound ∧ (s.store w data).2.tree = s.tree ∧
      (s.store w data).2.lookup = s.lookup := by
  have hstore : s.store w data =
      (.error .parentBlockNotFound, ⟨s.tree, s.lookups.insert w (s.lookup w)⟩) := by
    unfold storeStart at h
    unfold store applyStore
    split at h
    · cases h
    · next p hparent => simp [hparent, h]
  rw [hstore, lookup_insert_eq, Function.update_eq_self]
  exact ⟨rfl, rfl, rfl⟩

theorem store_grows (hR : Rooted s.tree s.lookup) (w : WorkerKey) (data : KvCacheStoreData) :
    Grows s.tree (s.store w data).2.tree := by
  cases h : s.storeStart w data with
  | some cur => exact (store_loop hR h).1
  | none =>
    rw [(store_no_parent h).2.1]
    exact Grows.refl s.tree

theorem exec_rooted (hR : Rooted s.tree s.lookup) (he : s.exec op = some s') :
    Rooted s'.tree s'.lookup := by
  cases op with
  | store w data =>
    cases he
    cases h : s.storeStart w data with
    | some cur => exact (store_loop hR h).2.1
    | none =>
      obtain ⟨-, htree, hlookup⟩ := store_no_parent h
      rw [htree, hlookup]
      exact hR
  | remove w hs =>
    cases he
    refine hR.shrink (shrinks_applyRemove w hs s.tree (s.lookup w)) ?_
    intro v h n hn
    rw [remove, lookup_insert_eq] at hn
    by_cases hv : v = w
    · subst hv
      rw [update_self, applyRemove_lookup] at hn
      split at hn
      · cases hn
      · exact hn
    · rwa [update_of_ne hv] at hn
  | clear w =>
    cases he
    rw [clear_tree, lookup_clear]
    refine hR.shrink (shrinks_removeWorker s.tree w (s.lookup w)) ?_
    intro v h n hn
    by_cases hv : v = w
    · subst hv
      simp at hn
    · rwa [update_of_ne hv] at hn
  | sweep σ fuel =>
    simp only [exec, Option.map_eq_some_iff] at he
    obtain ⟨⟨t', k⟩, hsweep, rfl⟩ := he
    exact hR.shrink (sweepLoop_frame hsweep).1 (fun _ _ _ h => h)

theorem rooted_of_run (hrun : Run exec Free new ops s) : Rooted s.tree s.lookup :=
  hrun.invariant_state (I := fun s => Rooted s.tree s.lookup) rooted_new
    (fun hR _ he => exec_rooted hR he)

/-- **The frame of the mutations.** In every reachable state, removals of one worker and sweeps
leave every match of every other worker as it was (a sweep after each of its visits), and a store,
failed or not, makes no match of any worker shorter. -/
theorem mutations_frame (hrun : Run exec Free new ops s) (w : WorkerKey) :
    (∀ v, v ≠ w → ∀ q,
      (∀ hs, ((s.remove w hs).tree.findMatchesDetailed q).get? v =
        (s.tree.findMatchesDetailed q).get? v) ∧
      ((s.clear w).tree.findMatchesDetailed q).get? v = (s.tree.findMatchesDetailed q).get? v) ∧
    (∀ σ v q,
      (∀ visits, ((sweepVisits σ visits 0 [root] s.tree).findMatchesDetailed q).get? v =
        (s.tree.findMatchesDetailed q).get? v) ∧
      ∀ fuel t' pruned, sweepStaleNodes σ fuel s.tree = some (t', pruned) →
        (t'.findMatchesDetailed q).get? v = (s.tree.findMatchesDetailed q).get? v) ∧
    ∀ data v q m, (s.tree.findMatchesDetailed q).get? v = some m →
      ∃ m', ((s.store w data).2.tree.findMatchesDetailed q).get? v = some m' ∧
        m.depth ≤ m'.depth := by
  have hR := rooted_of_run hrun
  refine ⟨fun v hv q => ⟨fun hs => ?_, ?_⟩, fun σ v q => ⟨fun visits => ?_, ?_⟩, ?_⟩
  · exact (sameFor_applyRemove hv hs s.tree _ (hR.lookup_ne w)).matches_eq q
  · rw [clear_tree]
    exact (sameFor_removeWorker hv s.tree _ (hR.lookup_ne w)).matches_eq q
  · exact (sameFor_sweepVisits v σ visits 0 [root] s.tree).matches_eq q
  · intro fuel t' pruned h
    rw [sweepLoop_eq_visits h]
    exact (sameFor_sweepVisits v σ fuel 0 [root] s.tree).matches_eq q
  · intro data v q m hm
    exact (store_grows hR w data).matches_le hm

/-- Two workers on one path, the second of which gives up its first block. -/
theorem mutations_frame_shared_path :
    ∃ s, Run exec Free new
        [.store ⟨"a", "a", 0, .npu⟩ ⟨none, [⟨101, 1⟩, ⟨102, 2⟩]⟩,
          .store ⟨"b", "b", 0, .npu⟩ ⟨none, [⟨101, 1⟩, ⟨102, 2⟩]⟩] s ∧
      ∀ q, ((s.remove ⟨"b", "b", 0, .npu⟩ [101]).tree.findMatchesDetailed q).get?
          ⟨"a", "a", 0, .npu⟩ =
        (s.tree.findMatchesDetailed q).get? ⟨"a", "a", 0, .npu⟩ := by
  have hquery : (runList exec Free new
      [.store ⟨"a", "a", 0, .npu⟩ ⟨none, [⟨101, 1⟩, ⟨102, 2⟩]⟩,
        .store ⟨"b", "b", 0, .npu⟩ ⟨none, [⟨101, 1⟩, ⟨102, 2⟩]⟩]).map
      (fun s => (s.tree.findMatchesDetailed [1, 2]).get? ⟨"a", "a", 0, .npu⟩) =
        some (some ⟨2, some 102⟩) := by decide
  obtain ⟨s, hs, -⟩ := Option.map_eq_some_iff.mp hquery
  refine ⟨s, runList_run hs, fun q => ?_⟩
  exact ((mutations_frame (runList_run hs) ⟨"b", "b", 0, .npu⟩).1 _ (by decide) q).1 [101]

end HbmIndex

end PyMotor.Conductor
