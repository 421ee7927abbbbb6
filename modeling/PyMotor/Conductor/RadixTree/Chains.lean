import PyMotor.Conductor.RadixTree.Frame

/-!
# What a store leaves in the tree

A store that succeeds has written a path: the blocks of the event lie one below the other, every one
of them carries the worker, and a query along their token hashes finds them all, below the parent's
path if there is a parent (`stored_chain_found`). It does not matter which nodes were reused on the
way, since a store overwrites no link.

A store that fails is not undone. What it leaves is the successful store of the blocks before the
one it failed at (`failed_store_leaves_prefix`).
-/

namespace PyMotor.Conductor

namespace ConcurrentRadixTree

open Function (update update_self update_of_ne)

variable {t : ConcurrentRadixTree} {L : WorkerKey → WorkerLookup} {w : WorkerKey}

/-! ## Paths -/

theorem carriedTo_append {q₁ : List LocalBlockHash} (q₂ : List LocalBlockHash) :
    ∀ {cur n : NodeId}, t.CarriedTo w cur q₁ q₁.length → t.nodeAt cur q₁ = some n →
      t.CarriedTo w n q₂ q₂.length → t.CarriedTo w cur (q₁ ++ q₂) (q₁ ++ q₂).length := by
  induction q₁ with
  | nil =>
    intro cur n _ hn h₂
    cases hn
    exact h₂
  | cons k q₁ ih =>
    intro cur n h₁ hn h₂
    obtain ⟨c, hc, hw, hrest⟩ := carriedTo_succ h₁
    rw [nodeAt, hc] at hn
    exact carriedTo_cons hc hw (ih hrest hn h₂)

theorem matches_of_carriedTo {q : List LocalBlockHash} (hq : q ≠ [])
    (h : t.CarriedTo w root q q.length) :
    ∃ m, (t.findMatchesDetailed q).get? w = some m ∧ m.depth = q.length := by
  cases q with
  | nil => exact absurd rfl hq
  | cons k q =>
    obtain ⟨c, hc, hw, -⟩ := carriedTo_succ h
    obtain ⟨m, hm⟩ : ∃ m, (t.findMatchesDetailed (k :: q)).get? w = some m :=
      findMatchesDetailed_isSome.mpr ⟨k, rfl, c, hc, hw⟩
    have hgreat := findMatchesDetailed_greatest hm
    exact ⟨m, hm, Nat.le_antisymm hgreat.1.1 (hgreat.2 h)⟩

/-! ## Where a store fails -/

/-- The node at which a successful store ends: the one its table names for the last block, or the one it
started from. -/
def endNode (start : NodeId) (lookup : WorkerLookup) (blocks : List KvCacheStoredBlockData) : Option NodeId :=
  match blocks.getLast? with
  | some b => lookup.get? b.blockHash
  | none => some start

/-- `t'` is `t`, or `t` with a new link from `n` to itself under `k`. -/
def ApartFromSelfLink (n : Option NodeId) (k : LocalBlockHash) (t t' : ConcurrentRadixTree) : Prop :=
  t' = t ∨ ∃ p, n = some p ∧ (t.nodes p).children.get? k = none ∧ t' = t.link p k p

theorem endNode_cons {l l' : WorkerLookup} {start c : NodeId} {b : KvCacheStoredBlockData}
    {bs : List KvCacheStoredBlockData} (h : bs = [] → l' = l.insert b.blockHash c) :
    endNode start l' (b :: bs) = endNode c l' bs := by
  unfold endNode
  rw [List.getLast?_cons]
  cases hlast : bs.getLast? with
  | none =>
    rw [h (List.getLast?_eq_none_iff.mp hlast)]
    exact Dict.get?_insert_self ..
  | some b' => rfl

/-- A link from a node to itself is all that the block leaves at which a store fails. -/
theorem resolveChild_self {l : WorkerLookup} {cur : NodeId} (hcur : cur < t.next)
    {b : KvCacheStoredBlockData} {t' : ConcurrentRadixTree}
    (h : t.resolveChild l cur b = (cur, t')) : ApartFromSelfLink (some cur) b.tokensHash t t' := by
  unfold resolveChild at h
  split at h
  · exact Or.inl (Prod.mk.inj h).2.symm
  · next hnone =>
    split at h
    · obtain ⟨rfl, rfl⟩ := Prod.mk.inj h
      exact Or.inr ⟨_, rfl, hnone, rfl⟩
    · obtain ⟨heq, -⟩ := Prod.mk.inj h
      exact absurd heq (Nat.ne_of_gt hcur)

/-- **The store loop at its error**: the blocks before the offending one were stored. -/
theorem storeLoop_error (bs : List KvCacheStoredBlockData) :
    ∀ (needs : Bool) {t : ConcurrentRadixTree} {l : WorkerLookup} {cur : NodeId},
      Rooted t (update L w l) → cur < t.next →
      ∀ {e : KvConductorError} {t' : ConcurrentRadixTree} {l' : WorkerLookup},
        t.storeLoop w l cur needs bs = (.error e, t', l') →
        e = .invalidBlockSequence ∧ ∃ pre b post t₁, bs = pre ++ b :: post ∧
          t.storeLoop w l cur needs pre = (.ok (), t₁, l') ∧
          ApartFromSelfLink (endNode cur l' pre) b.tokensHash t₁ t' := by
  induction bs with
  | nil =>
    intro needs t l cur _ _ e t' l' h
    cases h
  | cons b bs ih =>
    intro needs t l cur hR hcur e t' l' h
    obtain ⟨-, hR₁, hnext₁, -⟩ := insertDeferred_grows hR hcur needs w
    have hcur₁ : cur < (if needs then t.insertWorker cur w else t).next := by rwa [hnext₁]
    obtain ⟨c, t₂, hres, -, hlink, hR₂⟩ := resolveChild_grows hR₁ hcur₁ b
    rw [storeLoop] at h
    simp only [hres] at h
    by_cases hself : c = cur
    · subst hself
      simp only [↓reduceIte, Prod.mk.injEq, Except.error.injEq] at h
      obtain ⟨rfl, rfl, rfl⟩ := h
      exact ⟨rfl, [], b, bs, _, rfl, rfl, resolveChild_self hcur₁ hres⟩
    · simp only [hself, ↓reduceIte] at h
      have hc := hR₂.child_lt cur _ c hlink
      obtain ⟨he, pre, b', post, t₁, rfl, hpre, hapart⟩ :=
        ih true (hR₂.record (h := b.blockHash) hc (hR₂.child_ne cur _ c hlink)) hc h
      refine ⟨he, b :: pre, b', post, t₁, rfl, ?_, ?_⟩
      · rw [storeLoop]
        simp only [hres, hself, ↓reduceIte]
        exact hpre
      · rw [endNode_cons (c := c) (l := l)]
        · exact hapart
        · rintro rfl
          exact ((Prod.mk.inj (Prod.mk.inj hpre).2).2).symm

end ConcurrentRadixTree

/-! ## Stores in a run -/

namespace HbmIndex

open ConcurrentRadixTree

open Function (update update_self update_of_ne)

variable {s : HbmIndex} {ops : List HbmOp} {w : WorkerKey}

/-- **Stored chains are found.** After a successful store the worker matches all its blocks, below
the path of the parent if there is one. An event without a parent and without blocks stores nothing,
and the empty query reports nobody. -/
theorem stored_chain_found (hrun : Run exec Free new ops s) {data : KvCacheStoreData}
    (hok : (s.store w data).1 = .ok ()) :
    (data.parentHash = none → data.blocks ≠ [] →
      ∃ m, ((s.store w data).2.tree.findMatchesDetailed (data.blocks.map (·.tokensHash))).get? w =
        some m ∧ m.depth = data.blocks.length) ∧
    ∀ p q n, data.parentHash = some p → (s.lookup w).get? p = some n →
      s.tree.nodeAt root q = some n → s.tree.CarriedTo w root q q.length →
      ∃ m, ((s.store w data).2.tree.findMatchesDetailed
          (q ++ data.blocks.map (·.tokensHash))).get? w = some m ∧
        m.depth = q.length + data.blocks.length := by
  have hR := rooted_of_run hrun
  constructor
  · intro hparent hblocks
    have hstart : s.storeStart w data = some root := by simp [storeStart, hparent]
    have hcarried := (store_loop hR hstart).2.2 hok
    have hne : data.blocks.map (·.tokensHash) ≠ [] := by simpa using hblocks
    simpa using matches_of_carriedTo hne (by simpa using hcarried)
  · intro p q n hparent hlookup hn hq
    have hstart : s.storeStart w data = some n := by simp [storeStart, hparent, hlookup]
    obtain ⟨hgrow, -, hcarried⟩ := store_loop hR hstart
    -- the table does not name the root, so the parent's path is not empty
    have hne : q ≠ [] := by
      rintro rfl
      cases hn
      exact hR.lookup_ne w p root hlookup rfl
    have hall := carriedTo_append (data.blocks.map (·.tokensHash)) (hgrow.carriedTo hq)
      (hgrow.nodeAt hn) (by simpa using hcarried hok)
    simpa using matches_of_carriedTo (by simp [hne]) hall

def chainWorker (id : String) : WorkerKey := ⟨id, id, 0, .npu⟩

/-- A second worker stores a block below a block that it got from the first. -/
theorem stored_chain_found_below_parent :
    ∃ s, Run exec Free new
        [.store (chainWorker "a") ⟨none, [⟨101, 1⟩, ⟨102, 2⟩]⟩,
          .store (chainWorker "b") ⟨none, [⟨101, 1⟩]⟩] s ∧
      ∃ m, ((s.store (chainWorker "b") ⟨some 101, [⟨102, 2⟩]⟩).2.tree.findMatchesDetailed
        [1, 2]).get? (chainWorker "b") = some m ∧ m.depth = 2 := by
  have hstep : (runList exec Free new
      [.store (chainWorker "a") ⟨none, [⟨101, 1⟩, ⟨102, 2⟩]⟩,
        .store (chainWorker "b") ⟨none, [⟨101, 1⟩]⟩]).map (fun s =>
        ((s.store (chainWorker "b") ⟨some 101, [⟨102, 2⟩]⟩).1.isOk,
          (s.lookup (chainWorker "b")).get? 101, s.tree.nodeAt root [1],
          decide (chainWorker "b" ∈ (s.tree.nodes 1).workers))) =
      some (true, some 1, some 1, true) := by decide
  obtain ⟨s, hs, h⟩ := Option.map_eq_some_iff.mp hstep
  simp only [Prod.mk.injEq, decide_eq_true_eq] at h
  obtain ⟨hok, hlookup, hnode, hw⟩ := h
  have hcarried : s.tree.CarriedTo (chainWorker "b") root [1] 1 := by
    refine ⟨Nat.le_refl _, fun i hi hi1 => ⟨1, ?_, hw⟩⟩
    obtain rfl : i = 1 := Nat.le_antisymm hi1 hi
    exact hnode
  have hok' : (s.store (chainWorker "b") ⟨some 101, [⟨102, 2⟩]⟩).1 = .ok () := by
    cases hr : (s.store (chainWorker "b") ⟨some 101, [⟨102, 2⟩]⟩).1 with
    | ok => rfl
    | error e => rw [hr] at hok; cases hok
  exact ⟨s, runList_run hs,
    (stored_chain_found (runList_run hs) hok').2 101 [1] 1 rfl hlookup hnode hcarried⟩

/-- **An empty chain is not found**: the store returns `Ok`, the empty query reports nobody. -/
theorem empty_chain_reports_nobody :
    (new.store (chainWorker "a") ⟨none, []⟩).1 = .ok () ∧
      ¬ ∃ m, ((new.store (chainWorker "a") ⟨none, []⟩).2.tree.findMatchesDetailed []).get?
        (chainWorker "a") = some m ∧ m.depth = 0 := by
  refine ⟨rfl, ?_⟩
  rintro ⟨m, hm, -⟩
  cases hm

/-- **A failed store is the store of the blocks before the error.** A missing parent changes
nothing. At an invalid block tree and lookup table are those of a successful store of the blocks
before it, except that the node this store ended at may have a link to itself under the token hash of
the block, where it had none. -/
theorem failed_store_leaves_prefix (hrun : Run exec Free new ops s) {data : KvCacheStoreData}
    {e : KvConductorError} {t' : ConcurrentRadixTree} {l' : WorkerLookup}
    (h : s.tree.applyStore w (s.lookup w) data = (.error e, t', l')) :
    (e = .parentBlockNotFound ∧ t' = s.tree ∧ l' = s.lookup w) ∨
    (e = .invalidBlockSequence ∧ ∃ start pre b post t₁, s.storeStart w data = some start ∧
      data.blocks = pre ++ b :: post ∧
      s.tree.applyStore w (s.lookup w) { data with blocks := pre } = (.ok (), t₁, l') ∧
      ApartFromSelfLink (endNode start l' pre) b.tokensHash t₁ t') := by
  have hR := rooted_of_run hrun
  have hR₀ : Rooted s.tree (update s.lookup w (s.lookup w)) := by rwa [Function.update_eq_self]
  unfold applyStore at h
  split at h
  · next p hp =>
    split at h
    · next cur hcur =>
      obtain ⟨he, pre, b, post, t₁, hbs, hpre, hapart⟩ :=
        storeLoop_error _ false hR₀ (hR.lookup_lt w p cur hcur) h
      exact Or.inr ⟨he, cur, pre, b, post, t₁, by simp [storeStart, hp, hcur], hbs,
        by simpa [applyStore, hp, hcur], hapart⟩
    · simp only [Prod.mk.injEq, Except.error.injEq] at h
      obtain ⟨rfl, rfl, rfl⟩ := h
      exact Or.inl ⟨rfl, rfl, rfl⟩
  · next hp =>
    obtain ⟨he, pre, b, post, t₁, hbs, hpre, hapart⟩ :=
      storeLoop_error _ false hR₀ hR.root_lt h
    exact Or.inr ⟨he, root, pre, b, post, t₁, by simp [storeStart, hp], hbs, by simpa [applyStore, hp], hapart⟩

/-- A chain that names the same block twice, first under token hash 1 and then under 2. -/
def twiceInChain : KvCacheStoreData := ⟨none, [⟨101, 1⟩, ⟨101, 2⟩]⟩

/-- **A failed store that changes the tree**: its first block stays linked, registered and held. -/
theorem twiceInChain_fails_and_stays :
    ∃ e t' l', new.tree.applyStore (chainWorker "a") ∅ twiceInChain = (.error e, t', l') ∧
      (new.tree.nodes root).children.get? 1 = none ∧ (t'.nodes root).children.get? 1 = some 1 ∧
      chainWorker "a" ∉ (new.tree.nodes 1).workers ∧ chainWorker "a" ∈ (t'.nodes 1).workers ∧
      l'.get? 101 = some 1 :=
  ⟨_, _, _, rfl, rfl, rfl, by decide, by decide, rfl⟩

/-- What it leaves is the store of the first block. -/
theorem twiceInChain_leaves_first_block :
    ∃ e t' l', new.tree.applyStore (chainWorker "a") ∅ twiceInChain = (.error e, t', l') ∧
      ((e = .parentBlockNotFound ∧ t' = new.tree ∧ l' = ∅) ∨
      (e = .invalidBlockSequence ∧ ∃ start pre b post t₁, new.storeStart (chainWorker "a") twiceInChain = some start ∧
        twiceInChain.blocks = pre ++ b :: post ∧
        new.tree.applyStore (chainWorker "a") ∅ { twiceInChain with blocks := pre } = (.ok (), t₁, l') ∧
        ApartFromSelfLink (endNode start l' pre) b.tokensHash t₁ t')) :=
  ⟨_, _, _, rfl, failed_store_leaves_prefix (w := chainWorker "a") .nil rfl⟩

end HbmIndex

end PyMotor.Conductor
