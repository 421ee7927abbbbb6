import Mathlib.Data.Set.Function
import PyMotor.Conductor.RadixTree.Closed
import PyMotor.Conductor.RadixTree.Walk

/-!
# When the HBM index reports no phantom

Under such a chained hash a node of the tree stands for one path, a worker that is in the worker set of a
node should hold the block of that path, and a query should report no block that the worker has removed.

The invariant behind this (`Paths`) is that whoever is in the worker set of a node finds that very
node in its lookup table: this is the entry a later `Removed` or `Cleared` goes by. The store loop
breaks it in one place. It takes an existing child before it looks into the worker's table, and then
overwrites the table entry; if the table pointed to another node for the same hash, the worker stays
behind in that node, and `phantomRun` brings it back to light. `NoRebind` says that this
does not happen, and under it no run reports a phantom.
-/

namespace PyMotor.Conductor

variable {H : List LocalBlockHash → SequenceBlockHash} {P : Set (List LocalBlockHash)}

/-! ## Chained hashes -/

/-- The blocks extend the path `p` one token hash at a time, each under the hash of its full path.
`P` collects the paths that occur. -/
inductive Chained (H : List LocalBlockHash → SequenceBlockHash) (P : Set (List LocalBlockHash)) :
    List LocalBlockHash → List KvCacheStoredBlockData → Prop where
  | nil {p} : Chained H P p []
  | cons {p k bs} : p ++ [k] ∈ P → Chained H P (p ++ [k]) bs →
      Chained H P p (⟨H (p ++ [k]), k⟩ :: bs)

/-- A `Stored` event is consistent with `H`: its parent hash is the hash of the path its blocks
extend, or absent at the root. -/
def ChainConsistent (H : List LocalBlockHash → SequenceBlockHash) (P : Set (List LocalBlockHash)) :
    HbmOp → Prop
  | .store _ data => ∃ p, (match data.parentHash with
      | none => p = []
      | some h => p ≠ [] ∧ p ∈ P ∧ h = H p) ∧ Chained H P p data.blocks
  | _ => True

/-! ## The specification -/

/-- Whether the latest operation of `w` on the block `h` stored it. -/
def lastStored (w : WorkerKey) (h : SequenceBlockHash) (ops : List HbmOp) : Bool :=
  ops.foldl (fun held op =>
    match op with
    | .store v data => if v = w ∧ h ∈ data.blocks.map (·.blockHash) then true else held
    | .remove v hs => if v = w ∧ h ∈ hs then false else held
    | .clear v => if v = w then false else held
    | .sweep _ _ => held) false

/-- Every block of every reported prefix was stored last, and not removed since. -/
def NoPhantomMatch (H : List LocalBlockHash → SequenceBlockHash) (ops : List HbmOp)
    (s : HbmIndex) : Prop :=
  ∀ q w m, (s.tree.findMatchesDetailed q).get? w = some m →
    ∀ i, 0 < i → i ≤ m.depth → lastStored w (H (q.take i)) ops = true

/-! ## The condition -/

namespace ConcurrentRadixTree

/-- Follow the blocks of a store through the tree as it is before the store: along an existing
child, else to the worker's own node, else to a node yet to be created. Wherever an existing child
is taken, the worker's table must not name another node for that block. -/
def NoRebind (t : ConcurrentRadixTree) (lookup : WorkerLookup) (cur : Option NodeId) :
    List KvCacheStoredBlockData → Prop
  | [] => True
  | b :: bs =>
    match cur.bind (fun c => (t.nodes c).children.get? b.tokensHash) with
    | some x =>
      (lookup.get? b.blockHash = none ∨ lookup.get? b.blockHash = some x) ∧
        t.NoRebind lookup (some x) bs
    | none => t.NoRebind lookup (lookup.get? b.blockHash) bs

instance decNoRebind (t : ConcurrentRadixTree) (lookup : WorkerLookup) :
    (cur : Option NodeId) → (bs : List KvCacheStoredBlockData) →
      Decidable (t.NoRebind lookup cur bs)
  | _, [] => inferInstanceAs (Decidable True)
  | cur, b :: bs =>
    match h : cur.bind (fun c => (t.nodes c).children.get? b.tokensHash) with
    | some x =>
      have := decNoRebind t lookup (some x) bs
      decidable_of_iff ((lookup.get? b.blockHash = none ∨ lookup.get? b.blockHash = some x) ∧
        t.NoRebind lookup (some x) bs) (by simp only [NoRebind, h])
    | none =>
      have := decNoRebind t lookup (lookup.get? b.blockHash) bs
      decidable_of_iff (t.NoRebind lookup (lookup.get? b.blockHash) bs) (by simp only [NoRebind, h])

end ConcurrentRadixTree

namespace HbmIndex

/-- No store takes a node in place of the one the worker's table names. -/
def KeepsBindings (s : HbmIndex) : HbmOp → Prop
  | .store w data =>
    s.storeStart w data = none ∨
      s.tree.NoRebind (s.lookup w) (s.storeStart w data) data.blocks
  | _ => True

instance (s : HbmIndex) : (op : HbmOp) → Decidable (s.KeepsBindings op)
  | .store w data => inferInstanceAs (Decidable (s.storeStart w data = none ∨
      s.tree.NoRebind (s.lookup w) (s.storeStart w data) data.blocks))
  | .remove _ _ => inferInstanceAs (Decidable True)
  | .clear _ => inferInstanceAs (Decidable True)
  | .sweep _ _ => inferInstanceAs (Decidable True)

end HbmIndex

/-! ## The invariant -/

namespace ConcurrentRadixTree

open Function (update update_self update_of_ne)

variable {path : NodeId → List LocalBlockHash} {t : ConcurrentRadixTree}
  {L : WorkerKey → WorkerLookup} {w : WorkerKey}

/-- Every node stands for one path, and whoever is in its worker set finds it in its table. -/
structure Paths (H : List LocalBlockHash → SequenceBlockHash) (P : Set (List LocalBlockHash))
    (path : NodeId → List LocalBlockHash) (t : ConcurrentRadixTree)
    (L : WorkerKey → WorkerLookup) : Prop extends Closed t L where
  path_root : path root = []
  path_mem : ∀ n, n < t.next → n ≠ root → path n ∈ P
  path_child : ∀ n k c, (t.nodes n).children.get? k = some c → path c = path n ++ [k]
  path_lookup : ∀ w h n, (L w).get? h = some n → n ≠ root ∧ H (path n) = h
  own : ∀ n w, w ∈ (t.nodes n).workers → (L w).get? (H (path n)) = some n

theorem paths_new : Paths H P (fun _ => []) new (fun _ => ∅) where
  toClosed := closed_new
  path_root := rfl
  path_mem n hn hr := absurd (Nat.lt_one_iff.mp hn) hr
  path_child n k c h := by simp [new, Block.new] at h
  path_lookup w h n hn := by simp at hn
  own n w hw := by simp [new, Block.new] at hw

namespace Paths

theorem insertWorker (hI : Paths H P path t L) {n : NodeId}
    (hn : (L w).get? (H (path n)) = some n) : Paths H P path (t.insertWorker n w) L where
  toClosed := hI.toClosed.insertWorker w (hI.lookup_lt w _ n hn)
  path_root := hI.path_root
  path_mem := hI.path_mem
  path_child m k c h := hI.path_child m k c (by simpa using h)
  path_lookup := hI.path_lookup
  own m v hv := by
    rcases mem_insertWorker_workers.mp hv with ⟨rfl, rfl⟩ | hv
    · exact hn
    · exact hI.own m v hv

theorem link (hI : Paths H P path t L) {p c : NodeId} {k : LocalBlockHash} (hp : p < t.next)
    (hc : c < t.next) (hpath : path c = path p ++ [k]) : Paths H P path (t.link p k c) L where
  toClosed := hI.toClosed.link k hp hc
  path_root := hI.path_root
  path_mem := hI.path_mem
  path_child m k' x h := by
    rcases link_children_get? h with h | ⟨rfl, rfl, rfl⟩
    · exact hI.path_child m k' x h
    · exact hpath
  path_lookup := hI.path_lookup
  own m v hv := hI.own m v (by simpa using hv)

theorem alloc (hI : Paths H P path t L) {p : List LocalBlockHash} (hp : p ∈ P) :
    Paths H P (update path t.next p) (t.alloc (H p)) L where
  toClosed := hI.toClosed.alloc _
  path_root := by
    rw [update_of_ne (Nat.ne_of_lt hI.root_lt)]
    exact hI.path_root
  path_mem n hn hr := by
    by_cases h : n = t.next
    · subst h; rw [update_self]; exact hp
    · rw [update_of_ne h]
      exact hI.path_mem n (Nat.lt_of_le_of_ne (Nat.le_of_lt_succ hn) h) hr
  path_child n k c h := by
    rw [alloc_nodes] at h
    split at h
    · simp [Block.withHash] at h
    · next hn =>
      rw [update_of_ne hn, update_of_ne (Nat.ne_of_lt (hI.child_lt n k c h))]
      exact hI.path_child n k c h
  path_lookup v h n hn := by
    rw [update_of_ne (Nat.ne_of_lt (hI.lookup_lt v h n hn))]
    exact hI.path_lookup v h n hn
  own n v hv := by
    rw [alloc_nodes] at hv
    split at hv
    · simp [Block.withHash] at hv
    · next hn =>
      rw [update_of_ne hn]
      exact hI.own n v hv

/-- Recording a node in a table keeps the invariant, provided the table named no other node for
that hash. -/
theorem insertLookup (hI : Paths H P path t L) {h : SequenceBlockHash} {c : NodeId}
    (hc : c < t.next) (hr : c ≠ root) (hh : H (path c) = h)
    (hold : (L w).get? h = none ∨ (L w).get? h = some c) :
    Paths H P path t (update L w ((L w).insert h c)) where
  toClosed := hI.toClosed.insertLookup hc
  path_root := hI.path_root
  path_mem := hI.path_mem
  path_child := hI.path_child
  path_lookup v h' n hn := by
    by_cases hv : v = w
    · subst hv
      rw [update_self, Dict.get?_insert] at hn
      split at hn
      · next heq => cases hn; exact ⟨hr, hh.trans heq⟩
      · exact hI.path_lookup v h' n hn
    · rw [update_of_ne hv] at hn
      exact hI.path_lookup v h' n hn
  own n v hv := by
    have hown := hI.own n v hv
    by_cases hvw : v = w
    · subst hvw
      rw [update_self, Dict.get?_insert]
      split
      · next heq =>
        -- the table already named `n` for this hash, so `n` is `c`
        rw [← heq] at hown
        rcases hold with h' | h' <;> rw [h'] at hown <;> cases hown
        rfl
      · exact hown
    · rw [update_of_ne hvw]
      exact hown

/-- Fewer links, and a table that forgets only blocks whose node gave up the worker. -/
theorem shrink (hI : Paths H P path t L) {t' : ConcurrentRadixTree} {L' : WorkerKey → WorkerLookup}
    (hsh : Shrinks t t') (hL : ∀ w h n, (L' w).get? h = some n → (L w).get? h = some n)
    (hown : ∀ n w, w ∈ (t'.nodes n).workers →
      w ∈ (t.nodes n).workers ∧ (L' w).get? (H (path n)) = (L w).get? (H (path n))) :
    Paths H P path t' L' where
  toClosed := hI.toClosed.shrink hsh hL
  path_root := hI.path_root
  path_mem n hn := hI.path_mem n (by rwa [hsh.next] at hn)
  path_child n k c h := hI.path_child n k c (hsh.child n k c h)
  path_lookup v h n hn := hI.path_lookup v h n (hL v h n hn)
  own n v hv := by
    obtain ⟨hv, heq⟩ := hown n v hv
    rw [heq]
    exact hI.own n v hv

theorem path_eq (hI : Paths H P path t L) (hinj : Set.InjOn H P) {n : NodeId}
    {p : List LocalBlockHash} (hn : n < t.next) (hr : n ≠ root) (hp : p ∈ P)
    (h : H (path n) = H p) : path n = p :=
  hinj (hI.path_mem n hn hr) hp h

/-- A path of child links spells the path of its last node. -/
theorem path_nodeAt (hI : Paths H P path t L) {q : List LocalBlockHash} :
    ∀ {cur n : NodeId}, t.nodeAt cur q = some n → path n = path cur ++ q := by
  induction q with
  | nil =>
    intro cur n h
    cases h
    simp
  | cons k q ih =>
    intro cur n h
    rw [nodeAt] at h
    split at h
    · cases h
    · next c hc => rw [ih h, hI.path_child cur k c hc, List.append_assoc]; rfl

end Paths

/-! ## Stores -/

/-- What the store loop is at: the node `cur` of path `p`, in a heap whose nodes from `p` on, and a
table whose entries beyond `p`, are still those before the store (`t₀`, `l₀`). `pos` is `cur` as
`NoRebind` sees it: a node created by this store is unknown there, and still childless. -/
structure StoreLoop (H : List LocalBlockHash → SequenceBlockHash) (P : Set (List LocalBlockHash))
    (t₀ : ConcurrentRadixTree) (l₀ : WorkerLookup) (path : NodeId → List LocalBlockHash)
    (t : ConcurrentRadixTree) (l : WorkerLookup) (p : List LocalBlockHash) (cur : NodeId)
    (pos : Option NodeId) : Prop where
  cur_lt : cur < t.next
  path_cur : path cur = p
  next_le : t₀.next ≤ t.next
  children : ∀ n, n < t₀.next → p.length ≤ (path n).length →
    (t.nodes n).children = (t₀.nodes n).children
  table : ∀ q ∈ P, p.length < q.length → l.get? (H q) = l₀.get? (H q)
  pos : (pos = some cur ∧ cur < t₀.next) ∨ (pos = none ∧ (t.nodes cur).children = ∅)

/-- Advance the loop by one block, to a node `c` that the heap already knows. -/
theorem StoreLoop.advance {t₀ t₁ : ConcurrentRadixTree} {l₀ l : WorkerLookup}
    {path path₁ : NodeId → List LocalBlockHash} {p : List LocalBlockHash} {k : LocalBlockHash}
    {cur c : NodeId} {pos pos₁ : Option NodeId} (hS : StoreLoop H P t₀ l₀ path t l p cur pos)
    (hinj : Set.InjOn H P) (hk : p ++ [k] ∈ P) (hc : c < t₁.next) (hpath : path₁ c = p ++ [k])
    (hnext : t₀.next ≤ t₁.next) (hold : ∀ n, n < t₀.next → path₁ n = path n)
    (hch : ∀ n, n ≠ cur → n < t₀.next → (t₁.nodes n).children = (t.nodes n).children)
    (hpos : (pos₁ = some c ∧ c < t₀.next) ∨ (pos₁ = none ∧ (t₁.nodes c).children = ∅)) :
    StoreLoop H P t₀ l₀ path₁ t₁ (l.insert (H (p ++ [k])) c) (p ++ [k]) c pos₁ where
  cur_lt := hc
  path_cur := hpath
  next_le := hnext
  children n hn hlen := by
    rw [hold n hn, List.length_append, List.length_singleton] at hlen
    have hne : n ≠ cur := by
      rintro rfl
      rw [hS.path_cur] at hlen
      omega
    rw [hch n hne hn]
    exact hS.children n hn (by omega)
  table q hq hlen := by
    rw [List.length_append, List.length_singleton] at hlen
    have hne : H (p ++ [k]) ≠ H q := by
      intro heq
      have := congrArg List.length (hinj hk hq heq)
      simp at this
      omega
    rw [Dict.get?_insert_ne _ _ hne]
    exact hS.table q hq (by omega)
  pos := hpos

theorem StoreLoop.insertWorker {t₀ : ConcurrentRadixTree} {l₀ l : WorkerLookup}
    {p : List LocalBlockHash} {cur : NodeId} {pos : Option NodeId}
    (hS : StoreLoop H P t₀ l₀ path t l p cur pos) (n : NodeId) (w : WorkerKey) :
    StoreLoop H P t₀ l₀ path (t.insertWorker n w) l p cur pos where
  cur_lt := hS.cur_lt
  path_cur := hS.path_cur
  next_le := hS.next_le
  children m hm hlen := by rw [insertWorker_children]; exact hS.children m hm hlen
  table := hS.table
  pos := by rw [insertWorker_children]; exact hS.pos

/-- What `NoRebind` says at a block depends on the child of `cur` in the current heap. -/
theorem StoreLoop.noRebind {t₀ : ConcurrentRadixTree} {l₀ l : WorkerLookup}
    {p : List LocalBlockHash} {cur : NodeId} {pos : Option NodeId} {k : LocalBlockHash}
    {bs : List KvCacheStoredBlockData} (hS : StoreLoop H P t₀ l₀ path t l p cur pos)
    (hC₀ : Closed t₀ (update L w l₀)) (hk : p ++ [k] ∈ P)
    (h : t₀.NoRebind l₀ pos (⟨H (p ++ [k]), k⟩ :: bs)) :
    match (t.nodes cur).children.get? k with
    | some x => (l.get? (H (p ++ [k])) = none ∨ l.get? (H (p ++ [k])) = some x) ∧ x < t₀.next ∧
        t₀.NoRebind l₀ (some x) bs
    | none => t₀.NoRebind l₀ (l.get? (H (p ++ [k]))) bs := by
  rw [hS.table _ hk (by simp)]
  rcases hS.pos with ⟨rfl, hlt⟩ | ⟨rfl, hnone⟩
  · rw [hS.children cur hlt (by rw [hS.path_cur])]
    simp only [NoRebind, Option.bind_some] at h
    cases hx : (t₀.nodes cur).children.get? k with
    | none => simpa only [hx] using h
    | some x =>
      simp only [hx] at h
      exact ⟨h.1, hC₀.child_lt cur k x hx, h.2⟩
  · rw [hnone]
    simpa only [NoRebind, Option.bind_none, Dict.get?_empty] using h

/-- **One block of a store.** The node it is stored at has the extended path, the table comes to
name that node, and the loop goes on from there. -/
theorem resolveChild_paths {t₀ : ConcurrentRadixTree} {l₀ l : WorkerLookup}
    {p : List LocalBlockHash} {cur : NodeId} {pos : Option NodeId} {k : LocalBlockHash}
    {bs : List KvCacheStoredBlockData} (hinj : Set.InjOn H P) (hC₀ : Closed t₀ (update L w l₀))
    (hI : Paths H P path t (update L w l)) (hS : StoreLoop H P t₀ l₀ path t l p cur pos)
    (hk : p ++ [k] ∈ P) (hreb : t₀.NoRebind l₀ pos (⟨H (p ++ [k]), k⟩ :: bs)) :
    ∃ path' c t' pos', t.resolveChild l cur ⟨H (p ++ [k]), k⟩ = (c, t') ∧ c ≠ cur ∧
      Paths H P path' t' (update L w (l.insert (H (p ++ [k])) c)) ∧
      StoreLoop H P t₀ l₀ path' t' (l.insert (H (p ++ [k])) c) (p ++ [k]) c pos' ∧
      t₀.NoRebind l₀ pos' bs := by
  have hreb := hS.noRebind hC₀ hk hreb
  -- a node of the extended path is neither `cur` nor the root
  have hne : ∀ {path' : NodeId → List LocalBlockHash} {c n : NodeId},
      path' c = p ++ [k] → path' n = p ∨ path' n = [] → c ≠ n := by
    intro path' c n hc hn hcn
    rw [hcn] at hc
    rcases hn with hn | hn <;> rw [hn] at hc <;> simp at hc
  -- the table takes the node over
  have record : ∀ {path' : NodeId → List LocalBlockHash} {t' : ConcurrentRadixTree} {c : NodeId},
      Paths H P path' t' (update L w l) → c < t'.next → path' c = p ++ [k] →
      (l.get? (H (p ++ [k])) = none ∨ l.get? (H (p ++ [k])) = some c) →
      Paths H P path' t' (update L w (l.insert (H (p ++ [k])) c)) := by
    intro path' t' c hI' hc hpath hold
    have := hI'.insertLookup (w := w) (h := H (p ++ [k])) hc
      (hne hpath (Or.inr hI'.path_root)) (by rw [hpath]) (by rwa [update_self])
    simpa using this
  cases hex : (t.nodes cur).children.get? k with
  | some x =>
    rw [hex] at hreb
    obtain ⟨hold, hx₀, hreb⟩ := hreb
    have hx := hI.child_lt cur k x hex
    have hpx : path x = p ++ [k] := by rw [hI.path_child cur k x hex, hS.path_cur]
    refine ⟨path, x, t, some x, by simp [resolveChild, hex], hne hpx (Or.inl hS.path_cur),
      record hI hx hpx hold, ?_, hreb⟩
    exact hS.advance hinj hk hx hpx hS.next_le (fun _ _ => rfl) (fun _ _ _ => rfl)
      (Or.inl ⟨rfl, hx₀⟩)
  | none =>
    rw [hex] at hreb
    cases hlk : l.get? (H (p ++ [k])) with
    | some n =>
      rw [hlk] at hreb
      have hlk' : (update L w l w).get? (H (p ++ [k])) = some n := by rwa [update_self]
      have hn := hI.lookup_lt w _ n hlk'
      obtain ⟨hnr, hHn⟩ := hI.path_lookup w _ n hlk'
      have hpn : path n = p ++ [k] := hI.path_eq hinj hn hnr hk hHn
      have hn₀ : n < t₀.next := by
        refine hC₀.lookup_lt w (H (p ++ [k])) n ?_
        rwa [update_self, ← hS.table _ hk (by simp)]
      have hI' := hI.link hS.cur_lt hn (k := k) (by rw [hpn, hS.path_cur])
      refine ⟨path, n, t.link cur k n, some n, by simp [resolveChild, hex, hlk],
        hne hpn (Or.inl hS.path_cur), record hI' hn hpn (Or.inr hlk), ?_, hreb⟩
      refine hS.advance hinj hk hn hpn hS.next_le (fun _ _ => rfl) ?_ (Or.inl ⟨rfl, hn₀⟩)
      intro m hm _
      rw [link_children, if_neg hm]
    | none =>
      rw [hlk] at hreb
      have hcur : cur ≠ t.next := Nat.ne_of_lt hS.cur_lt
      have hpn : update path t.next (p ++ [k]) t.next = p ++ [k] := update_self ..
      have hpcur : update path t.next (p ++ [k]) cur = p := by
        rw [update_of_ne hcur, hS.path_cur]
      have hold : ∀ n, n < t₀.next → n ≠ t.next := fun n hn =>
        Nat.ne_of_lt (Nat.lt_of_lt_of_le hn hS.next_le)
      have hI' := (hI.alloc hk).link (k := k) (Nat.lt_succ_of_lt hS.cur_lt)
        (Nat.lt_succ_self t.next) (by rw [hpn, hpcur])
      refine ⟨update path t.next (p ++ [k]), t.next, _, none,
        by simp [resolveChild, hex, hlk], hcur.symm,
        record hI' (Nat.lt_succ_self t.next) hpn (Or.inl hlk), ?_, hreb⟩
      refine hS.advance hinj hk (Nat.lt_succ_self t.next) hpn
        (Nat.le_succ_of_le hS.next_le) ?_ ?_ (Or.inr ⟨rfl, ?_⟩)
      · intro n hn
        rw [update_of_ne (hold n hn)]
      · intro n hn hn₀
        rw [link_children, if_neg hn, alloc_nodes, if_neg (hold n hn₀)]
      · rw [link_children, if_neg hcur.symm, alloc_nodes, if_pos rfl]
        rfl

/-- **The store loop keeps the invariant** as long as it rebinds nothing; it then does not fail,
and the table comes to name only blocks of the event. -/
theorem storeLoop_paths {t₀ : ConcurrentRadixTree} {l₀ : WorkerLookup} (hinj : Set.InjOn H P)
    (hC₀ : Closed t₀ (update L w l₀)) {bs : List KvCacheStoredBlockData} :
    ∀ (needs : Bool) {t : ConcurrentRadixTree} {l : WorkerLookup}
      {path : NodeId → List LocalBlockHash} {p : List LocalBlockHash} {cur : NodeId}
      {pos : Option NodeId}, Paths H P path t (update L w l) → StoreLoop H P t₀ l₀ path t l p cur pos →
      Chained H P p bs → t₀.NoRebind l₀ pos bs →
      (needs = true → l.get? (H p) = some cur) →
      ∃ path' t' l', t.storeLoop w l cur needs bs = (.ok (), t', l') ∧
        Paths H P path' t' (update L w l') ∧
        ∀ h n, l'.get? h = some n → h ∈ bs.map (·.blockHash) ∨ ∃ m, l.get? h = some m := by
  induction bs with
  | nil =>
    intro needs t l path p cur pos hI hS _ _ hneeds
    refine ⟨path, _, l, rfl, ?_, fun h n hn => Or.inr ⟨n, hn⟩⟩
    cases needs with
    | false => exact hI
    | true =>
      refine hI.insertWorker ?_
      rw [update_self, hS.path_cur]
      exact hneeds rfl
  | cons b bs ih =>
    intro needs t l path p cur pos hI hS hchain hreb hneeds
    obtain _ | ⟨hk, hchain⟩ := hchain
    rename_i k
    -- the insertion of the worker into `cur`, deferred from the previous iteration
    obtain ⟨t₁, ht₁, hI₁, hS₁⟩ : ∃ t₁, (if needs then t.insertWorker cur w else t) = t₁ ∧
        Paths H P path t₁ (update L w l) ∧ StoreLoop H P t₀ l₀ path t₁ l p cur pos := by
      cases needs with
      | false => exact ⟨t, rfl, hI, hS⟩
      | true =>
        refine ⟨_, rfl, hI.insertWorker ?_, hS.insertWorker cur w⟩
        rw [update_self, hS.path_cur]
        exact hneeds rfl
    obtain ⟨path₂, c, t₂, pos₂, hres, hc, hI₂, hS₂, hreb₂⟩ :=
      resolveChild_paths hinj hC₀ hI₁ hS₁ hk hreb
    obtain ⟨path', t', l', heq, hI', hl'⟩ :=
      ih true hI₂ hS₂ hchain hreb₂ (fun _ => by simp)
    refine ⟨path', t', l', ?_, hI', ?_⟩
    · rw [storeLoop, ht₁]
      simp only [hres, hc, ↓reduceIte]
      exact heq
    · intro h n hn
      rcases hl' h n hn with hmem | ⟨m, hm⟩
      · exact Or.inl (List.mem_cons_of_mem _ hmem)
      · rw [Dict.get?_insert] at hm
        split at hm
        · next he => exact Or.inl (by simp [he])
        · exact Or.inr ⟨m, hm⟩

/-! ## Removals -/

theorem applyRemove_paths (hs : List UInt64) :
    ∀ {t : ConcurrentRadixTree} {l : WorkerLookup}, Paths H P path t (update L w l) →
      Paths H P path (t.applyRemove w l hs).1 (update L w (t.applyRemove w l hs).2) := by
  induction hs with
  | nil =>
    intro t l hI
    exact hI
  | cons h hs ih =>
    intro t l hI
    rw [applyRemove]
    cases hl : l.get? h with
    | none => exact ih hI
    | some m =>
      refine ih (hI.shrink (shrinks_dropWorker t m w) ?_ ?_)
      · intro v h' n hn
        by_cases hv : v = w
        · subst hv
          rw [update_self, Dict.get?_erase] at hn
          rw [update_self]
          split at hn
          · cases hn
          · exact hn
        · rw [update_of_ne hv] at hn ⊢
          exact hn
      · intro n v hv'
        obtain ⟨hv, hnot⟩ := mem_dropWorker_workers.mp hv'
        clear hv'
        refine ⟨hv, ?_⟩
        by_cases hvw : v = w
        · subst hvw
          -- the only node that the table named under `h` was `m`
          have hown := hI.own n v hv
          rw [update_self] at hown
          rw [update_self, update_self, Dict.get?_erase_ne]
          rintro rfl
          rw [hl] at hown
          exact hnot ⟨by cases hown; rfl, rfl⟩
        · rw [update_of_ne hvw, update_of_ne hvw]

theorem mem_removeWorker_workers {l : WorkerLookup} {n : NodeId} {w v : WorkerKey} :
    v ∈ ((t.removeWorker w l).nodes n).workers ↔
      v ∈ (t.nodes n).workers ∧ ¬ (n ∈ l.values ∧ v = w) := by
  unfold removeWorker
  generalize l.values = ns
  induction ns generalizing t with
  | nil => simp
  | cons m ns ih =>
    rw [List.foldl_cons, ih, mem_dropWorker_workers, List.mem_cons]
    tauto

theorem removeWorker_paths {l : WorkerLookup} (hI : Paths H P path t (update L w l)) :
    Paths H P path (t.removeWorker w l) (update L w ∅) := by
  refine hI.shrink (shrinks_removeWorker t w l) ?_ ?_
  · intro v h n hn
    by_cases hv : v = w
    · subst hv
      simp at hn
    · rw [update_of_ne hv] at hn ⊢
      exact hn
  · intro n v hv'
    obtain ⟨hv, hnot⟩ := mem_removeWorker_workers.mp hv'
    clear hv'
    refine ⟨hv, ?_⟩
    by_cases hvw : v = w
    · subst hvw
      have hown := hI.own n v hv
      rw [update_self] at hown
      exact absurd ⟨Dict.mem_values_iff.mpr ⟨_, hown⟩, rfl⟩ hnot
    · rw [update_of_ne hvw, update_of_ne hvw]

end ConcurrentRadixTree

/-! ## Runs -/

open ConcurrentRadixTree in
/-- The invariant of a run: the nodes have paths, and a table names only blocks that were stored
last. -/
def PathsAndHistory (H : List LocalBlockHash → SequenceBlockHash) (P : Set (List LocalBlockHash))
    (ops : List HbmOp) (s : HbmIndex) : Prop :=
  (∃ path, Paths H P path s.tree s.lookup) ∧
    ∀ w h n, (s.lookup w).get? h = some n → lastStored w h ops = true

theorem lastStored_snoc (w : WorkerKey) (h : SequenceBlockHash) (ops : List HbmOp) (op : HbmOp) :
    lastStored w h (ops ++ [op]) =
      match op with
      | .store v data =>
        if v = w ∧ h ∈ data.blocks.map (·.blockHash) then true else lastStored w h ops
      | .remove v hs => if v = w ∧ h ∈ hs then false else lastStored w h ops
      | .clear v => if v = w then false else lastStored w h ops
      | .sweep _ _ => lastStored w h ops := by
  simp only [lastStored, List.foldl_append, List.foldl_cons, List.foldl_nil]

namespace HbmIndex

open Function (update update_self update_of_ne)

variable {s : HbmIndex} {ops : List HbmOp} {w : WorkerKey}

theorem store_pathsAndHistory (hinj : Set.InjOn H P) {data : KvCacheStoreData}
    (hinv : PathsAndHistory H P ops s) (hcons : ChainConsistent H P (.store w data))
    (hkeep : s.KeepsBindings (.store w data)) :
    PathsAndHistory H P (ops ++ [.store w data]) (s.store w data).2 := by
  obtain ⟨⟨path, hI⟩, hhist⟩ := hinv
  obtain ⟨p, hparent, hchain⟩ := hcons
  have hI₀ : ConcurrentRadixTree.Paths H P path s.tree (update s.lookup w (s.lookup w)) := by
    rwa [Function.update_eq_self]
  -- a table entry of a worker is either as before, or about a block of this event
  have history : ∀ l' : WorkerLookup, (∀ h n, l'.get? h = some n →
      h ∈ data.blocks.map (·.blockHash) ∨ ∃ m, (s.lookup w).get? h = some m) →
      ∀ v h n, (update s.lookup w l' v).get? h = some n →
        lastStored v h (ops ++ [.store w data]) = true := by
    intro l' hl' v h n hn
    rw [lastStored_snoc]
    by_cases hv : w = v
    · subst hv
      rw [update_self] at hn
      rcases hl' h n hn with hmem | ⟨m, hm⟩
      · simp [hmem]
      · simp [hhist w h m hm]
    · rw [update_of_ne (Ne.symm hv)] at hn
      simp [hv, hhist v h n hn]
  rw [store_eq]
  cases hstart : s.storeStart w data with
  | none =>
    refine ⟨⟨path, ?_⟩, ?_⟩
    · rwa [lookup_insert_eq]
    · rw [lookup_insert_eq]
      exact history (s.lookup w) (fun h n hn => Or.inr ⟨n, hn⟩)
  | some cur =>
    -- the start node stands for the path that the parent hash names
    obtain ⟨hlt, hp⟩ : cur < s.tree.next ∧ path cur = p := by
      unfold storeStart at hstart
      cases hpar : data.parentHash with
      | none =>
        simp only [hpar] at hparent hstart
        cases hstart
        exact ⟨hI.root_lt, by rw [hI.path_root, hparent]⟩
      | some h =>
        simp only [hpar] at hparent hstart
        obtain ⟨-, hpP, rfl⟩ := hparent
        have hlt := hI.lookup_lt w _ cur hstart
        obtain ⟨hr, hH⟩ := hI.path_lookup w _ cur hstart
        exact ⟨hlt, hI.path_eq hinj hlt hr hpP hH⟩
    have hreb : s.tree.NoRebind (s.lookup w) (some cur) data.blocks := by
      rcases hkeep with h | h
      · rw [hstart] at h
        cases h
      · rwa [hstart] at h
    obtain ⟨path', t', l', heq, hI', hl'⟩ :=
      ConcurrentRadixTree.storeLoop_paths hinj hI₀.toClosed false hI₀ (p := p)
        ⟨hlt, hp, Nat.le_refl _, fun _ _ _ => rfl, fun _ _ _ => rfl, Or.inl ⟨rfl, hlt⟩⟩
        hchain hreb (fun h => by cases h)
    simp only [heq]
    refine ⟨⟨path', ?_⟩, ?_⟩
    · rwa [lookup_insert_eq]
    · rw [lookup_insert_eq]
      exact history l' hl'

theorem remove_pathsAndHistory (hs : List UInt64) (hinv : PathsAndHistory H P ops s) :
    PathsAndHistory H P (ops ++ [.remove w hs]) (s.remove w hs) := by
  obtain ⟨⟨path, hI⟩, hhist⟩ := hinv
  have hI₀ : ConcurrentRadixTree.Paths H P path s.tree (update s.lookup w (s.lookup w)) := by
    rwa [Function.update_eq_self]
  refine ⟨⟨path, ?_⟩, ?_⟩
  · rw [remove, lookup_insert_eq]
    exact ConcurrentRadixTree.applyRemove_paths hs hI₀
  · intro v h n hn
    rw [remove, lookup_insert_eq] at hn
    rw [lastStored_snoc]
    by_cases hv : w = v
    · subst hv
      rw [update_self, ConcurrentRadixTree.applyRemove_lookup] at hn
      split at hn
      · cases hn
      · next hmem => simp [hmem, hhist w h n hn]
    · rw [update_of_ne (Ne.symm hv)] at hn
      simp [hv, hhist v h n hn]

theorem clear_pathsAndHistory (hinv : PathsAndHistory H P ops s) :
    PathsAndHistory H P (ops ++ [.clear w]) (s.clear w) := by
  obtain ⟨⟨path, hI⟩, hhist⟩ := hinv
  refine ⟨⟨path, ?_⟩, ?_⟩
  · rw [lookup_clear, clear_tree]
    refine ConcurrentRadixTree.removeWorker_paths ?_
    rwa [Function.update_eq_self]
  · intro v h n hn
    rw [lookup_clear] at hn
    rw [lastStored_snoc]
    by_cases hv : w = v
    · subst hv
      simp at hn
    · rw [update_of_ne (Ne.symm hv)] at hn
      simp [hv, hhist v h n hn]

/-- **The invariant is kept by every step that rebinds nothing.** -/
theorem exec_pathsAndHistory (hinj : Set.InjOn H P) {op : HbmOp} {s' : HbmIndex}
    (hinv : PathsAndHistory H P ops s) (hcons : ChainConsistent H P op)
    (hkeep : s.KeepsBindings op) (he : s.exec op = some s') :
    PathsAndHistory H P (ops ++ [op]) s' := by
  cases op with
  | store w data =>
    cases he
    exact store_pathsAndHistory hinj hinv hcons hkeep
  | remove w hs =>
    cases he
    exact remove_pathsAndHistory hs hinv
  | clear w =>
    cases he
    exact clear_pathsAndHistory hinv
  | sweep σ fuel =>
    simp only [exec, Option.map_eq_some_iff] at he
    obtain ⟨⟨t', k⟩, hsweep, rfl⟩ := he
    obtain ⟨hsh, hw⟩ := ConcurrentRadixTree.sweepLoop_frame hsweep
    obtain ⟨⟨path, hI⟩, hhist⟩ := hinv
    refine ⟨⟨path, hI.shrink hsh (fun _ _ _ h => h) ?_⟩, ?_⟩
    · intro n v hv
      rw [hw n] at hv
      exact ⟨hv, rfl⟩
    · intro v h n hn
      rw [lastStored_snoc]
      exact hhist v h n hn

/-- **No phantom match.** Under a chained hash that is injective on the paths that occur, no run
whose stores rebind nothing reports a block that its worker does not hold. -/
theorem no_phantom_match (hinj : Set.InjOn H P) (hcons : ∀ op ∈ ops, ChainConsistent H P op)
    (hrun : Run exec KeepsBindings new ops s) : NoPhantomMatch H ops s := by
  have hinv : (∀ op ∈ ops, ChainConsistent H P op) → PathsAndHistory H P ops s := by
    refine hrun.invariant (I := fun ops s =>
      (∀ op ∈ ops, ChainConsistent H P op) → PathsAndHistory H P ops s) ?_ ?_
    · intro _
      exact ⟨⟨_, ConcurrentRadixTree.paths_new⟩, fun w h n hn => by simp at hn⟩
    · intro ops s op s' ih hkeep he hcons
      exact exec_pathsAndHistory hinj (ih fun o ho => hcons o (List.mem_append_left _ ho))
        (hcons op (by simp)) hkeep he
  obtain ⟨⟨path, hI⟩, hhist⟩ := hinv hcons
  intro q w m hm i hi him
  obtain ⟨-, -, hnodes⟩ := ConcurrentRadixTree.findMatchesDetailed_nodes hm
  obtain ⟨n, hn, hw, -⟩ := hnodes i hi him
  have hpath : path n = q.take i := by
    rw [hI.path_nodeAt hn, hI.path_root, List.nil_append]
  have hown := hI.own n w hw
  rw [hpath] at hown
  exact hhist w _ n hown

/-! ## The phantom -/

section Phantom

/-- A chained hash for the two paths of the runs below. -/
def sampleHash (p : List LocalBlockHash) : SequenceBlockHash :=
  if p = [1] then 101 else if p = [1, 2] then 102 else 0

def samplePaths : Set (List LocalBlockHash) := {[1], [1, 2]}

def sampleWorker (id : String) : WorkerKey := ⟨id, id, 0, .npu⟩

/-- Blocks 1 and 2 in one event, or block 1 alone. -/
def storeBoth : KvCacheStoreData := ⟨none, [⟨101, 1⟩, ⟨102, 2⟩]⟩

def storeFirst : KvCacheStoreData := ⟨none, [⟨101, 1⟩]⟩

theorem sampleHash_injOn : Set.InjOn sampleHash samplePaths := by
  rintro p (rfl | rfl) q (rfl | rfl) h
  · rfl
  · exact absurd h (by decide)
  · exact absurd h (by decide)
  · rfl

theorem storeBoth_consistent (w : WorkerKey) :
    ChainConsistent sampleHash samplePaths (.store w storeBoth) :=
  ⟨[], rfl, .cons (p := []) (k := 1) (Or.inl rfl)
    (.cons (p := [1]) (k := 2) (Or.inr rfl) .nil)⟩

theorem storeFirst_consistent (w : WorkerKey) :
    ChainConsistent sampleHash samplePaths (.store w storeFirst) :=
  ⟨[], rfl, .cons (p := []) (k := 1) (Or.inl rfl) .nil⟩

/-- Two nodes come to stand for the path `[1, 2]`: `b` keeps the first one alive, `c` creates the
second. The second store of `a` moves its table entry from the first to the second without leaving
the worker set of the first, and `b` links the first one back in. -/
def phantomRun : List HbmOp :=
  [.store (sampleWorker "a") storeBoth, .store (sampleWorker "b") storeBoth,
   .remove (sampleWorker "a") [101], .remove (sampleWorker "b") [101],
   .store (sampleWorker "c") storeBoth, .store (sampleWorker "a") storeBoth,
   .remove (sampleWorker "a") [102, 101], .remove (sampleWorker "c") [101],
   .store (sampleWorker "b") storeBoth, .store (sampleWorker "a") storeFirst]

/-- **A phantom match**: at the end of `phantomRun` worker `a` is reported for block 2, which it
removed and never stored again. -/
theorem phantomRun_reports_removed_block :
    Set.InjOn sampleHash samplePaths ∧
    (∀ op ∈ phantomRun, ChainConsistent sampleHash samplePaths op) ∧
    ∃ s, Run exec Free new phantomRun s ∧ ¬ NoPhantomMatch sampleHash phantomRun s := by
  refine ⟨sampleHash_injOn, ?_, ?_⟩
  · intro op hop
    simp only [phantomRun, List.mem_cons, List.not_mem_nil, or_false] at hop
    rcases hop with rfl | rfl | rfl | rfl | rfl | rfl | rfl | rfl | rfl | rfl
    all_goals first
      | exact storeBoth_consistent _
      | exact storeFirst_consistent _
      | trivial
  · have hquery : (runList exec Free new phantomRun).map
        (fun s => (s.tree.findMatchesDetailed [1, 2]).get? (sampleWorker "a")) =
          some (some ⟨2, some 102⟩) := by decide
    obtain ⟨s, hs, hm⟩ := Option.map_eq_some_iff.mp hquery
    refine ⟨s, runList_run hs, fun h => ?_⟩
    have hlast := h [1, 2] (sampleWorker "a") _ hm 2 (by decide) (by decide)
    exact absurd hlast (by decide)

/-- Both workers store the two blocks, `a` gives up block 2 and stores it again. -/
theorem no_phantom_match_shared_path :
    ∃ s, Run exec KeepsBindings new [.store (sampleWorker "a") storeBoth,
      .store (sampleWorker "b") storeBoth, .remove (sampleWorker "a") [102],
      .store (sampleWorker "a") storeBoth] s ∧
      NoPhantomMatch sampleHash [.store (sampleWorker "a") storeBoth,
        .store (sampleWorker "b") storeBoth, .remove (sampleWorker "a") [102],
        .store (sampleWorker "a") storeBoth] s := by
  have hquery : (runList exec KeepsBindings new [.store (sampleWorker "a") storeBoth,
      .store (sampleWorker "b") storeBoth, .remove (sampleWorker "a") [102],
      .store (sampleWorker "a") storeBoth]).map
      (fun s => (s.tree.findMatchesDetailed [1, 2]).get? (sampleWorker "a")) =
        some (some ⟨2, some 102⟩) := by decide
  obtain ⟨s, hs, -⟩ := Option.map_eq_some_iff.mp hquery
  refine ⟨s, runList_run hs, no_phantom_match sampleHash_injOn ?_ (runList_run hs)⟩
  intro op hop
  simp only [List.mem_cons, List.not_mem_nil, or_false] at hop
  rcases hop with rfl | rfl | rfl | rfl
  · exact storeBoth_consistent _
  · exact storeBoth_consistent _
  · trivial
  · exact storeBoth_consistent _

end Phantom

end HbmIndex

end PyMotor.Conductor
