import PyMotor.Conductor.RadixTree.Closed
import PyMotor.Lib.Graph

/-!
# When the child relation stays acyclic

The depth-first loop of `sweep_stale_nodes` keeps no record of the nodes it has seen, so it ends
only if no node is its own descendant. Links are written by the store loop alone, and a link to a
fresh node closes no cycle. A link to a node that the worker's table names may: the table is keyed
by the sequence hashes that the events claim, and the loop checks no more than that the node is not
the one it stands at, and this after the link was written.

`NoBackLink` is the condition on the tree before a store under which its links close no cycle. Every
run of such steps keeps the whole heap acyclic, so that the sweep ends whatever the order in which it
meets the children.
-/

namespace PyMotor.Conductor

namespace ConcurrentRadixTree

open Function (update update_self update_of_ne)
open Relation (ReflTransGen TransGen)

variable {t : ConcurrentRadixTree} {L : WorkerKey → WorkerLookup} {w : WorkerKey}

/-- `b` is a child of `a`. -/
def Child (t : ConcurrentRadixTree) (a b : NodeId) : Prop :=
  ∃ k, (t.nodes a).children.get? k = some b

/-- No node reachable from the root is its own descendant. -/
def ReachableAcyclic (t : ConcurrentRadixTree) : Prop :=
  ∀ n, ReflTransGen t.Child root n → ¬ TransGen t.Child n n

/-! ## The condition -/

/-- Follow the blocks of a store through the tree as it is before the store. `cur` is the node
reached (`none` for a node this store creates), `visited` are the nodes passed so far and `named` the
hashes of the blocks before. Wherever the child is missing, the block must not repeat a hash of the
event, and if the table names a node for it, none of the visited nodes is below that node. -/
def NoBackLink (t : ConcurrentRadixTree) (lookup : WorkerLookup) (cur : Option NodeId)
    (visited : List NodeId) (named : List SequenceBlockHash) :
    List KvCacheStoredBlockData → Prop
  | [] => True
  | b :: bs =>
    match cur.bind (fun c => (t.nodes c).children.get? b.tokensHash) with
    | some x => t.NoBackLink lookup (some x) (x :: visited) (b.blockHash :: named) bs
    | none =>
      b.blockHash ∉ named ∧
        match lookup.get? b.blockHash with
        | some x => (∀ v ∈ visited, ¬ ReflTransGen t.Child x v) ∧
            t.NoBackLink lookup (some x) (x :: visited) (b.blockHash :: named) bs
        | none => t.NoBackLink lookup none visited (b.blockHash :: named) bs

/-! ## Links -/

theorem child_insertWorker {n a b : NodeId} :
    (t.insertWorker n w).Child a b ↔ t.Child a b := by
  simp [Child]

theorem Shrinks.child_sub {t' : ConcurrentRadixTree} (h : Shrinks t t') (a b : NodeId) :
    t'.Child a b → t.Child a b := by
  rintro ⟨k, hk⟩
  exact ⟨k, h.child a k b hk⟩

/-- A chain of links out of an allocated node stays among the allocated ones. -/
theorem Closed.reach_lt (hC : Closed t L) {a b : NodeId} (ha : a < t.next)
    (h : ReflTransGen t.Child a b) : b < t.next := by
  cases h with
  | refl => exact ha
  | tail _ hcb =>
    obtain ⟨k, hk⟩ := hcb
    exact hC.child_lt _ k b hk

theorem Acyclic.insertWorker (hA : Acyclic t.Child) (n : NodeId) (w : WorkerKey) :
    Acyclic (t.insertWorker n w).Child :=
  hA.mono fun _ _ h => child_insertWorker.mp h

theorem Acyclic.link (hA : Acyclic t.Child) {p c : NodeId} {k : LocalBlockHash}
    (hback : ¬ ReflTransGen t.Child c p) : Acyclic (t.link p k c).Child := by
  refine hA.insert_edge ?_ hback
  rintro a b ⟨k', hk'⟩
  rcases link_children_get? hk' with h | ⟨rfl, -, rfl⟩
  · exact Or.inl ⟨k', h⟩
  · exact Or.inr ⟨rfl, rfl⟩

theorem child_link_self (p : NodeId) (k : LocalBlockHash) (c : NodeId) :
    (t.link p k c).Child p c :=
  ⟨k, by rw [link_children, if_pos rfl, Dict.get?_insert_self]⟩

/-- Writing a link that was missing deletes none. -/
theorem child_link_of_missing {p c a b : NodeId} {k : LocalBlockHash}
    (hmiss : (t.nodes p).children.get? k = none) (h : t.Child a b) : (t.link p k c).Child a b := by
  obtain ⟨k', hk'⟩ := h
  refine ⟨k', ?_⟩
  rw [link_children]
  split
  · next ha =>
    subst ha
    rw [Dict.get?_insert_ne]
    · exact hk'
    · rintro rfl
      rw [hmiss] at hk'
      cases hk'
  · exact hk'

theorem child_alloc {h : SequenceBlockHash} {a b : NodeId} (hc : (t.alloc h).Child a b) :
    a ≠ t.next ∧ t.Child a b := by
  obtain ⟨k, hk⟩ := hc
  rw [alloc_nodes] at hk
  split at hk
  · simp [Block.withHash] at hk
  · next ha => exact ⟨ha, k, hk⟩

theorem Acyclic.alloc (hA : Acyclic t.Child) (h : SequenceBlockHash) :
    Acyclic (t.alloc h).Child :=
  hA.mono fun _ _ hc => (child_alloc hc).2

theorem not_reach_of_alloc {h : SequenceBlockHash} {a : NodeId} (ha : a ≠ t.next) :
    ¬ ReflTransGen (t.alloc h).Child t.next a := by
  intro hr
  rcases hr.cases_head with rfl | ⟨c, hc, -⟩
  · exact ha rfl
  · exact (child_alloc hc).1 rfl

/-! ## Stores -/

/-- What the store loop is at, with respect to the tree `t₀` and the table `l₀` before the store:
`visited` are the old nodes it passed, all of them above `cur`; every old node that it has not left
behind has its old children, and hashes it has not named are bound as before. -/
structure LinkLoop (t₀ : ConcurrentRadixTree) (l₀ : WorkerLookup) (t : ConcurrentRadixTree)
    (l : WorkerLookup) (cur : NodeId) (pos : Option NodeId) (visited : List NodeId)
    (named : List SequenceBlockHash) : Prop where
  cur_lt : cur < t.next
  next_le : t₀.next ≤ t.next
  children : ∀ n, n < t₀.next → (n ∉ visited ∨ n = cur) →
    (t.nodes n).children = (t₀.nodes n).children
  table : ∀ h, h ∉ named → l.get? h = l₀.get? h
  above : ∀ n ∈ visited, ReflTransGen t.Child n cur
  pos : (pos = some cur ∧ cur < t₀.next ∧ cur ∈ visited) ∨
    (pos = none ∧ t₀.next ≤ cur ∧ (t.nodes cur).children = ∅)

namespace LinkLoop

variable {t₀ : ConcurrentRadixTree} {l₀ l : WorkerLookup} {cur : NodeId} {pos : Option NodeId}
  {visited : List NodeId} {named : List SequenceBlockHash}

theorem insertWorker (hS : LinkLoop t₀ l₀ t l cur pos visited named) (n : NodeId) (w : WorkerKey) :
    LinkLoop t₀ l₀ (t.insertWorker n w) l cur pos visited named where
  cur_lt := hS.cur_lt
  next_le := hS.next_le
  children m hm hv := by rw [insertWorker_children]; exact hS.children m hm hv
  table := hS.table
  above m hm := ReflTransGen.mono (fun _ _ h => child_insertWorker.mpr h) _ _ (hS.above m hm)
  pos := by rw [insertWorker_children]; exact hS.pos

/-- A node that reaches `cur` now, reached a visited node before the store or was created by it. -/
theorem reach_cur (hS : LinkLoop t₀ l₀ t l cur pos visited named)
    (hC₀ : Closed t₀ (update L w l₀)) {x : NodeId} (hx : x < t₀.next)
    (h : ReflTransGen t.Child x cur) : ∃ v ∈ visited, ReflTransGen t₀.Child x v := by
  have hcur : cur ∈ visited ∨ t₀.next ≤ cur := by
    rcases hS.pos with ⟨-, -, hv⟩ | ⟨-, hge, -⟩
    · exact Or.inl hv
    · exact Or.inr hge
  obtain ⟨d, hd, hxd⟩ := reflTransGen_until (r := t₀.Child)
    (D := fun n => n ∈ visited ∨ t₀.next ≤ n) (fun a b ha hab => by
      obtain ⟨k, hk⟩ := hab
      rw [not_or] at ha
      rw [hS.children a (Nat.lt_of_not_le ha.2) (Or.inl ha.1)] at hk
      exact ⟨k, hk⟩) h hcur
  rcases hd with hd | hd
  · exact ⟨d, hd, hxd⟩
  · exact absurd (hC₀.reach_lt hx hxd) (Nat.not_lt_of_le hd)

/-- Advance the loop by one block, to a child `c` of `cur` in an acyclic tree. -/
theorem advance {t₁ : ConcurrentRadixTree} {c : NodeId}
    (hS : LinkLoop t₀ l₀ t l cur pos visited named) (h : SequenceBlockHash)
    (hA : Acyclic t₁.Child) (hc : c < t₁.next) (hk : t₁.Child cur c) (hnext : t.next ≤ t₁.next)
    (hsub : ∀ a b, t.Child a b → t₁.Child a b)
    (hch : ∀ n, n ≠ cur → n < t.next → (t₁.nodes n).children = (t.nodes n).children) :
    (c < t₀.next →
      LinkLoop t₀ l₀ t₁ (l.insert h c) c (some c) (c :: visited) (h :: named)) ∧
    (t₀.next ≤ c → (t₁.nodes c).children = ∅ →
      LinkLoop t₀ l₀ t₁ (l.insert h c) c none visited (h :: named)) := by
  have habove : ∀ n ∈ visited, ReflTransGen t₁.Child n c := fun n hn =>
    (ReflTransGen.mono hsub _ _ (hS.above n hn)).tail hk
  -- `c` is below every visited node, so it is none of them
  have hfresh : c ∉ visited := fun hv =>
    hA cur (TransGen.head' hk (ReflTransGen.mono hsub _ _ (hS.above c hv)))
  have htable : ∀ h', h' ∉ h :: named → (l.insert h c).get? h' = l₀.get? h' := by
    intro h' hh'
    rw [List.mem_cons, not_or] at hh'
    rw [Dict.get?_insert_ne _ _ (Ne.symm hh'.1)]
    exact hS.table h' hh'.2
  have hcur : ∀ n, n < t₀.next → n ∉ visited → n ≠ cur := by
    rintro n hn hv rfl
    rcases hS.pos with ⟨-, -, hmem⟩ | ⟨-, hge, -⟩
    · exact hv hmem
    · exact absurd hn (Nat.not_lt_of_le hge)
  have hold : ∀ n, n < t₀.next → n ∉ visited → (t₁.nodes n).children = (t₀.nodes n).children := by
    intro n hn hv
    rw [hch n (hcur n hn hv) (Nat.lt_of_lt_of_le hn hS.next_le)]
    exact hS.children n hn (Or.inl hv)
  refine ⟨fun hlt => ?_, fun hge hempty => ?_⟩
  · refine ⟨hc, Nat.le_trans hS.next_le hnext, ?_, htable, ?_, Or.inl ⟨rfl, hlt, by simp⟩⟩
    · rintro n hn (hv | rfl)
      · rw [List.mem_cons, not_or] at hv
        exact hold n hn hv.2
      · exact hold n hn hfresh
    · intro n hn
      rcases List.mem_cons.mp hn with rfl | hn
      · exact .refl
      · exact habove n hn
  · refine ⟨hc, Nat.le_trans hS.next_le hnext, ?_, htable, habove, Or.inr ⟨rfl, hge, hempty⟩⟩
    rintro n hn (hv | rfl)
    · exact hold n hn hv
    · exact absurd hn (Nat.not_lt_of_le hge)

end LinkLoop

section Stores

variable {t₀ : ConcurrentRadixTree} {l₀ l : WorkerLookup} {cur : NodeId} {pos : Option NodeId}
  {visited : List NodeId} {named : List SequenceBlockHash} {b : KvCacheStoredBlockData}
  {bs : List KvCacheStoredBlockData}

theorem Closed.record (hC : Closed t (update L w l)) {h : SequenceBlockHash} {c : NodeId}
    (hc : c < t.next) : Closed t (update L w (l.insert h c)) := by
  have := hC.insertLookup (w := w) (h := h) hc
  simpa using this

/-- **One block of a store** whose link closes no cycle. -/
theorem resolveChild_links (hC₀ : Closed t₀ (update L w l₀)) (hC : Closed t (update L w l))
    (hA : Acyclic t.Child) (hS : LinkLoop t₀ l₀ t l cur pos visited named)
    (hok : t₀.NoBackLink l₀ pos visited named (b :: bs)) :
    ∃ c t₁ pos₁ visited₁, t.resolveChild l cur b = (c, t₁) ∧ t₁.Child cur c ∧
      Closed t₁ (update L w (l.insert b.blockHash c)) ∧ Acyclic t₁.Child ∧
      LinkLoop t₀ l₀ t₁ (l.insert b.blockHash c) c pos₁ visited₁ (b.blockHash :: named) ∧
      t₀.NoBackLink l₀ pos₁ visited₁ (b.blockHash :: named) bs := by
  cases hex : (t.nodes cur).children.get? b.tokensHash with
  | some x =>
    -- only an old node has children, and they are the old ones
    obtain ⟨rfl, hlt, hx⟩ : pos = some cur ∧ cur < t₀.next ∧
        (t₀.nodes cur).children.get? b.tokensHash = some x := by
      rcases hS.pos with ⟨hp, hlt, -⟩ | ⟨-, -, hempty⟩
      · rw [hS.children cur hlt (Or.inr rfl)] at hex
        exact ⟨hp, hlt, hex⟩
      · rw [hempty] at hex
        cases hex
    simp only [NoBackLink, Option.bind_some, hx] at hok
    have hxt := hC.child_lt cur _ x hex
    refine ⟨x, t, some x, x :: visited, by simp [resolveChild, hex], ⟨_, hex⟩, hC.record hxt, hA,
      ?_, hok⟩
    exact (hS.advance b.blockHash hA hxt ⟨_, hex⟩ (Nat.le_refl _) (fun _ _ h => h)
      (fun _ _ _ => rfl)).1 (hC₀.child_lt cur _ x hx)
  | none =>
    have hnone : pos.bind (fun c => (t₀.nodes c).children.get? b.tokensHash) = none := by
      rcases hS.pos with ⟨rfl, hlt, -⟩ | ⟨rfl, -, -⟩
      · rw [Option.bind_some, ← hS.children cur hlt (Or.inr rfl)]
        exact hex
      · rfl
    simp only [NoBackLink, hnone] at hok
    obtain ⟨hnamed, hok⟩ := hok
    have htable := hS.table b.blockHash hnamed
    cases hlk : l.get? b.blockHash with
    | some x =>
      rw [← htable, hlk] at hok
      obtain ⟨hback, hok⟩ := hok
      have hx : x < t₀.next := by
        refine hC₀.lookup_lt w b.blockHash x ?_
        rw [update_self, ← htable]
        exact hlk
      have hxt := Nat.lt_of_lt_of_le hx hS.next_le
      have hA₁ : Acyclic (t.link cur b.tokensHash x).Child := by
        refine Acyclic.link hA fun hr => ?_
        obtain ⟨v, hv, hxv⟩ := hS.reach_cur hC₀ hx hr
        exact hback v hv hxv
      refine ⟨x, t.link cur b.tokensHash x, some x, x :: visited,
        by simp [resolveChild, hex, hlk], child_link_self .., (hC.link _ hS.cur_lt hxt).record hxt,
        hA₁, ?_, hok⟩
      refine (hS.advance b.blockHash hA₁ hxt (child_link_self ..) (Nat.le_refl _) ?_ ?_).1 hx
      · exact fun _ _ h => child_link_of_missing hex h
      · intro n hn _
        rw [link_children, if_neg hn]
    | none =>
      rw [← htable, hlk] at hok
      have hcur : cur ≠ t.next := Nat.ne_of_lt hS.cur_lt
      have hA₁ : Acyclic ((t.alloc b.blockHash).link cur b.tokensHash t.next).Child :=
        Acyclic.link (Acyclic.alloc hA _) (not_reach_of_alloc hcur)
      have hC₁ := (hC.alloc b.blockHash).link b.tokensHash (Nat.lt_succ_of_lt hS.cur_lt)
        (Nat.lt_succ_self t.next)
      have hsame : ∀ n, n < t.next →
          ((t.alloc b.blockHash).nodes n).children = (t.nodes n).children := by
        intro n hn
        rw [alloc_nodes, if_neg (Nat.ne_of_lt hn)]
      refine ⟨t.next, _, none, visited, by simp [resolveChild, hex, hlk], child_link_self ..,
        hC₁.record (Nat.lt_succ_self t.next), hA₁, ?_, hok⟩
      refine (hS.advance b.blockHash hA₁ (Nat.lt_succ_self t.next) (child_link_self ..)
        (Nat.le_succ t.next) ?_ ?_).2 hS.next_le ?_
      · rintro a c ⟨k, hk⟩
        refine child_link_of_missing ?_ ⟨k, ?_⟩
        · rw [hsame cur hS.cur_lt]
          exact hex
        · rw [hsame a (hC.parent_lt hk)]
          exact hk
      · intro n hn hlt
        rw [link_children, if_neg hn, hsame n hlt]
      · rw [link_children, if_neg hcur.symm, alloc_nodes, if_pos rfl]
        rfl

/-- **The store loop closes no cycle**, whether it succeeds or fails. -/
theorem storeLoop_acyclic (hC₀ : Closed t₀ (update L w l₀)) :
    ∀ (bs : List KvCacheStoredBlockData) (needs : Bool) {t : ConcurrentRadixTree}
      {l : WorkerLookup} {cur : NodeId} {pos : Option NodeId} {visited : List NodeId}
      {named : List SequenceBlockHash}, Closed t (update L w l) → Acyclic t.Child →
      LinkLoop t₀ l₀ t l cur pos visited named → t₀.NoBackLink l₀ pos visited named bs →
      Closed (t.storeLoop w l cur needs bs).2.1
        (update L w (t.storeLoop w l cur needs bs).2.2) ∧
      Acyclic (t.storeLoop w l cur needs bs).2.1.Child := by
  intro bs
  -- the insertion of the worker into `cur`, deferred from the previous iteration
  have insert : ∀ (needs : Bool) {t : ConcurrentRadixTree} {l : WorkerLookup} {cur : NodeId}
      {pos : Option NodeId} {visited : List NodeId} {named : List SequenceBlockHash},
      Closed t (update L w l) → Acyclic t.Child → LinkLoop t₀ l₀ t l cur pos visited named →
      ∃ t₁, (if needs then t.insertWorker cur w else t) = t₁ ∧ Closed t₁ (update L w l) ∧
        Acyclic t₁.Child ∧ LinkLoop t₀ l₀ t₁ l cur pos visited named := by
    intro needs t l cur pos visited named hC hA hS
    cases needs with
    | false => exact ⟨t, rfl, hC, hA, hS⟩
    | true =>
      exact ⟨_, rfl, hC.insertWorker w hS.cur_lt, Acyclic.insertWorker hA cur w,
        hS.insertWorker cur w⟩
  induction bs with
  | nil =>
    intro needs t l cur pos visited named hC hA hS _
    obtain ⟨t₁, ht₁, hC₁, hA₁, -⟩ := insert needs hC hA hS
    rw [storeLoop, ht₁]
    exact ⟨hC₁, hA₁⟩
  | cons b bs ih =>
    intro needs t l cur pos visited named hC hA hS hok
    obtain ⟨t₁, ht₁, hC₁, hA₁, hS₁⟩ := insert needs hC hA hS
    obtain ⟨c, t₂, pos₂, visited₂, hres, hlink, hC₂, hA₂, hS₂, hok₂⟩ :=
      resolveChild_links hC₀ hC₁ hA₁ hS₁ hok
    rw [storeLoop, ht₁]
    simp only [hres]
    split
    · next hself =>
      subst hself
      exact absurd (.single hlink) (hA₂ c)
    · exact ih true hC₂ hA₂ hS₂ hok₂

end Stores

/-! ## The sweep ends -/

section Sweep

variable {σ : HashOrder NodeId} {t₀ : ConcurrentRadixTree}

/-- From every tree with no more links than `t₀`, the sweep gets through the nodes `ns` on top of
its stack and everything below them. -/
def SweptThrough (σ : HashOrder NodeId) (t₀ : ConcurrentRadixTree) (ns : List NodeId) : Prop :=
  ∀ i stack t p, Shrinks t₀ t → ∃ visits i' t' p', Shrinks t₀ t' ∧
    ∀ fuel, sweepLoop σ (fuel + visits) i (ns ++ stack) t p = sweepLoop σ fuel i' stack t' p'

theorem sweptThrough_of_forall {ns : List NodeId} (h : ∀ n ∈ ns, SweptThrough σ t₀ [n]) :
    SweptThrough σ t₀ ns := by
  induction ns with
  | nil =>
    intro i stack t p hsh
    exact ⟨0, i, t, p, hsh, fun _ => rfl⟩
  | cons n ns ih =>
    intro i stack t p hsh
    obtain ⟨v₁, i₁, t₁, p₁, hsh₁, h₁⟩ := h n (by simp) i (ns ++ stack) t p hsh
    obtain ⟨v₂, i₂, t₂, p₂, hsh₂, h₂⟩ :=
      ih (fun m hm => h m (List.mem_cons_of_mem n hm)) i₁ stack t₁ p₁ hsh₁
    refine ⟨v₂ + v₁, i₂, t₂, p₂, hsh₂, fun fuel => ?_⟩
    rw [← Nat.add_assoc, List.cons_append]
    exact (h₁ (fuel + v₂)).trans (h₂ fuel)

/-- The visits below a node are those below its children, and one more. -/
theorem sweptThrough_node (hwf : WellFounded (fun b a => t₀.Child a b)) (n : NodeId) :
    SweptThrough σ t₀ [n] := by
  induction n using hwf.induction with
  | _ n ih =>
    intro i stack t p hsh
    have hsh' := hsh.trans (shrinks_pruneChildren t n)
    have hbelow : SweptThrough σ t₀ (σ.iter i ((t.pruneChildren n).nodes n).children.values) := by
      refine sweptThrough_of_forall fun c hc => ih c ?_
      obtain ⟨k, hk⟩ := Dict.mem_values_iff.mp (σ.mem_iter.mp hc)
      exact ⟨k, hsh'.child n k c hk⟩
    obtain ⟨v, i', t', p', hsh₁, h₁⟩ := hbelow (i + 1) stack (t.pruneChildren n)
      (p + ((t.nodes n).children.size - ((t.pruneChildren n).nodes n).children.size)) hsh'
    exact ⟨v + 1, i', t', p', hsh₁, h₁⟩

/-- **The sweep of an acyclic tree ends**, whatever the order in which it meets the children. -/
theorem sweepStaleNodes_ends (hC : Closed t L) (hA : Acyclic t.Child) (σ : HashOrder NodeId) :
    ∃ fuel r, t.sweepStaleNodes σ fuel = some r := by
  have hwf : WellFounded (fun b a => t.Child a b) := hA.wellFounded fun a b ⟨k, hk⟩ =>
    ⟨hC.parent_lt hk, hC.child_lt a k b hk⟩
  obtain ⟨v, i', t', p', -, h⟩ := sweptThrough_node (σ := σ) hwf root 0 [] t 0 (Shrinks.refl t)
  refine ⟨0 + v, (t', p'), ?_⟩
  rw [sweepStaleNodes]
  exact (h 0).trans (by simp [sweepLoop])

/-- While the stack holds a node of a set `S` in which every node has a child, the sweep goes on: a
child that itself has a child is not pruned. -/
theorem sweepLoop_diverges {S : NodeId → Prop} {fuel i p : Nat} {stack : List NodeId}
    {t : ConcurrentRadixTree} (hS : ∀ a, S a → ∃ b, S b ∧ t.Child a b)
    (hstack : ∃ a ∈ stack, S a) : sweepLoop σ fuel i stack t p = none := by
  induction fuel generalizing i p stack t with
  | zero =>
    obtain ⟨a, ha, -⟩ := hstack
    cases stack with
    | nil => cases ha
    | cons n stack => rfl
  | succ fuel ih =>
    cases stack with
    | nil =>
      obtain ⟨a, ha, -⟩ := hstack
      cases ha
    | cons n stack =>
      have hkeep : ∀ a, S a → ∃ b, S b ∧ (t.pruneChildren n).Child a b := by
        intro a ha
        obtain ⟨b, hb, k, hk⟩ := hS a ha
        obtain ⟨c, -, k', hk'⟩ := hS b hb
        refine ⟨b, hb, k, ?_⟩
        have hlive : (t.nodes b).children.isEmpty = false := by
          rw [← Bool.not_eq_true, Dict.isEmpty_iff]
          intro hnone
          rw [hnone k'] at hk'
          cases hk'
        rw [pruneChildren, modify_nodes]
        split
        · rw [Dict.get?_filter, hk]
          simp [hlive]
        · exact hk
      rw [sweepLoop]
      refine ih hkeep ?_
      obtain ⟨a, ha, haS⟩ := hstack
      rcases List.mem_cons.mp ha with rfl | ha
      · obtain ⟨b, hb, hab⟩ := hkeep a haS
        refine ⟨b, List.mem_append_left _ (σ.mem_iter.mpr ?_), hb⟩
        exact Dict.mem_values_iff.mpr hab
      · exact ⟨a, List.mem_append_right _ ha, haS⟩

/-- **A sweep that can reach a cycle never ends.** -/
theorem sweepStaleNodes_diverges (h : ¬ t.ReachableAcyclic) (σ : HashOrder NodeId) (fuel : Nat) :
    t.sweepStaleNodes σ fuel = none := by
  unfold ReachableAcyclic at h
  push Not at h
  obtain ⟨n, hroot, hcycle⟩ := h
  refine sweepLoop_diverges (S := fun a => TransGen t.Child a n) ?_
    ⟨root, by simp, TransGen.trans_right hroot hcycle⟩
  intro a ha
  obtain ⟨b, hab, hbn⟩ := TransGen.head'_iff.mp ha
  exact ⟨b, TransGen.trans_right hbn hcycle, hab⟩

end Sweep

end ConcurrentRadixTree

/-! ## Runs -/

namespace HbmIndex

open ConcurrentRadixTree
open Function (update update_self)
open Relation (ReflTransGen TransGen)

variable {s s' : HbmIndex} {ops : List HbmOp}

/-- No store links a node above one it has passed. -/
def LinksForward (s : HbmIndex) : HbmOp → Prop
  | .store w data => ∀ cur, s.storeStart w data = some cur →
      s.tree.NoBackLink (s.lookup w) (some cur) [cur] [] data.blocks
  | _ => True

theorem exec_acyclic {op : HbmOp} (hinv : Closed s.tree s.lookup ∧ Acyclic s.tree.Child)
    (hfwd : s.LinksForward op) (he : s.exec op = some s') :
    Closed s'.tree s'.lookup ∧ Acyclic s'.tree.Child := by
  obtain ⟨hC, hA⟩ := hinv
  -- the operations that only delete
  have shrink : ∀ {t' : ConcurrentRadixTree} {L' : WorkerKey → WorkerLookup}, Shrinks s.tree t' →
      (∀ w h n, (L' w).get? h = some n → (s.lookup w).get? h = some n) →
      Closed t' L' ∧ Acyclic t'.Child := fun hsh hL => ⟨hC.shrink hsh hL, hA.mono hsh.child_sub⟩
  cases op with
  | store w data =>
    cases he
    rw [store_eq]
    have hC₀ : Closed s.tree (update s.lookup w (s.lookup w)) := by
      rwa [Function.update_eq_self]
    cases hstart : s.storeStart w data with
    | none =>
      rw [lookup_insert_eq]
      exact ⟨hC₀, hA⟩
    | some cur =>
      have hlt : cur < s.tree.next := by
        unfold storeStart at hstart
        cases hpar : data.parentHash with
        | none =>
          simp only [hpar] at hstart
          cases hstart
          exact hC.root_lt
        | some h =>
          simp only [hpar] at hstart
          exact hC.lookup_lt w h cur hstart
      rw [lookup_insert_eq]
      refine storeLoop_acyclic hC₀ data.blocks false hC₀ hA ?_ (hfwd cur hstart)
      refine ⟨hlt, Nat.le_refl _, fun _ _ _ => rfl, fun _ _ => rfl, ?_,
        Or.inl ⟨rfl, hlt, by simp⟩⟩
      intro n hn
      rw [List.mem_singleton.mp hn]
  | remove w hs =>
    cases he
    rw [remove, lookup_insert_eq]
    refine shrink (shrinks_applyRemove w hs _ _) ?_
    intro v h n hn
    by_cases hv : v = w
    · subst hv
      rw [update_self, applyRemove_lookup] at hn
      split at hn
      · cases hn
      · exact hn
    · rwa [Function.update_of_ne hv] at hn
  | clear w =>
    cases he
    rw [lookup_clear, clear_tree]
    refine shrink (shrinks_removeWorker _ w _) ?_
    intro v h n hn
    by_cases hv : v = w
    · subst hv
      simp at hn
    · rwa [Function.update_of_ne hv] at hn
  | sweep σ fuel =>
    simp only [exec, Option.map_eq_some_iff] at he
    obtain ⟨⟨t', k⟩, hsweep, rfl⟩ := he
    exact shrink (sweepLoop_frame hsweep).1 (fun _ _ _ h => h)

/-- **The HBM graph stays acyclic** along every run whose stores link forward, and so every sweep
ends. -/
theorem reachable_acyclic_and_sweep_ends (hrun : Run exec LinksForward new ops s) :
    s.tree.ReachableAcyclic ∧ ∀ σ, ∃ fuel r, s.tree.sweepStaleNodes σ fuel = some r := by
  obtain ⟨hC, hA⟩ : Closed s.tree s.lookup ∧ Acyclic s.tree.Child := by
    refine hrun.invariant_state (I := fun s => Closed s.tree s.lookup ∧ Acyclic s.tree.Child) ?_
      exec_acyclic
    refine ⟨closed_new, fun n hn => ?_⟩
    obtain ⟨c, ⟨k, hk⟩, -⟩ := TransGen.head'_iff.mp hn
    simp [new, ConcurrentRadixTree.new, Block.new] at hk
  exact ⟨fun n _ => hA n, fun σ => sweepStaleNodes_ends hC hA σ⟩

/-! ## A cycle -/

section Cycle

def loopWorker : WorkerKey := ⟨"a", "a", 0, .npu⟩

/-- Block 100, below it block 200, and below that block 100 again under another token hash. -/
def cyclicRun : List HbmOp :=
  [.store loopWorker ⟨none, [⟨100, 1⟩]⟩, .store loopWorker ⟨some 100, [⟨200, 2⟩]⟩,
   .store loopWorker ⟨some 200, [⟨100, 3⟩]⟩]

/-- **A cycle below the root.** The third store links node 2 back to node 1, and the sweep that
follows never ends. -/
theorem cyclicRun_sweep_never_ends :
    ∃ s, Run exec Free new cyclicRun s ∧ ¬ s.tree.ReachableAcyclic ∧
      ∀ σ fuel, s.tree.sweepStaleNodes σ fuel = none := by
  have hlinks : (runList exec Free new cyclicRun).map (fun s =>
      ((s.tree.nodes 0).children.get? 1, (s.tree.nodes 1).children.get? 2,
        (s.tree.nodes 2).children.get? 3)) = some (some 1, some 2, some 1) := by decide
  obtain ⟨s, hs, hl⟩ := Option.map_eq_some_iff.mp hlinks
  simp only [Prod.mk.injEq] at hl
  obtain ⟨h01, h12, h21⟩ := hl
  have hcyclic : ¬ s.tree.ReachableAcyclic := fun h =>
    h 1 (.single ⟨1, h01⟩) (.tail (.single ⟨2, h12⟩) ⟨3, h21⟩)
  exact ⟨s, runList_run hs, hcyclic, sweepStaleNodes_diverges hcyclic⟩

/-- Two blocks are stored, the first is removed, and storing both again links the second node, which
the table still names, below the first. -/
def relinkRun : List HbmOp :=
  [.store loopWorker ⟨none, [⟨101, 1⟩, ⟨102, 2⟩]⟩, .remove loopWorker [101],
   .store loopWorker ⟨none, [⟨101, 1⟩, ⟨102, 2⟩]⟩]

theorem reachable_acyclic_and_sweep_ends_relink :
    ∃ s, Run exec LinksForward new relinkRun s ∧ s.tree.ReachableAcyclic ∧
      ∀ σ, ∃ fuel r, s.tree.sweepStaleNodes σ fuel = some r := by
  let s₁ := (new.store loopWorker ⟨none, [⟨101, 1⟩, ⟨102, 2⟩]⟩).2
  let s₂ := s₁.remove loopWorker [101]
  have h₁ : new.LinksForward (.store loopWorker ⟨none, [⟨101, 1⟩, ⟨102, 2⟩]⟩) := by
    rintro cur ⟨⟩
    show (101 : UInt64) ∉ [] ∧ (102 : UInt64) ∉ [101] ∧ True
    decide
  have h₃ : s₂.LinksForward (.store loopWorker ⟨none, [⟨101, 1⟩, ⟨102, 2⟩]⟩) := by
    rintro cur ⟨⟩
    show (102 : UInt64) ∉ [101] ∧ (∀ v ∈ [1, 0], ¬ ReflTransGen s₂.tree.Child 2 v) ∧ True
    refine ⟨by decide, ?_, trivial⟩
    intro v hv hr
    -- node 2 is a leaf
    rcases hr.cases_head with rfl | ⟨c, ⟨k, hk⟩, -⟩
    · exact absurd hv (by decide)
    · cases hk
  have r₁ : Run exec LinksForward new (relinkRun.take 1) s₁ := Run.nil.snoc h₁ rfl
  have r₂ : Run exec LinksForward new (relinkRun.take 2) s₂ := r₁.snoc trivial rfl
  have hrun : Run exec LinksForward new relinkRun _ := r₂.snoc h₃ rfl
  exact ⟨_, hrun, reachable_acyclic_and_sweep_ends hrun⟩

end Cycle

end HbmIndex

end PyMotor.Conductor
