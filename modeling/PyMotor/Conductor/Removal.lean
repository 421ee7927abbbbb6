import PyMotor.Conductor.Events
import PyMotor.Conductor.RadixTree.Acyclic

/-!
# When a removal takes effect

A removal first goes through the matching caches, and what it finds there it does not pass on to the
index (`evict_pending_blocks`): a block in `offload` "never entered a tier". That is not so. A block
that a pool confirmed and an engine offloads again is in `offload` and in the tier, and a block that
is still in HBM while its offload is unconfirmed is in `offload` and in the tree; in both cases the
removal is lost, and the worker keeps a block it no longer has.

The exact condition is `RemovalReaches`: what the worker owns must be named more often than the
caches absorb. For HBM there is more to ask, since a node may list the worker without being the one
that its table names.
-/

namespace PyMotor.Conductor

open Relation (ReflTransGen)

/-! ## What a removal does to the nodes -/

namespace ConcurrentRadixTree

variable {t : ConcurrentRadixTree} {w : WorkerKey} {l : WorkerLookup} {P : UInt64 → Prop}

/-- The table names `n` under one of the hashes `P`. -/
def Named (l : WorkerLookup) (P : UInt64 → Prop) (n : NodeId) : Prop :=
  ∃ h, P h ∧ l.get? h = some n

/-- The links that are left when `w` gives up the nodes that its table names under `P`: a node that
it alone holds gives up its children. -/
def KeptChild (t : ConcurrentRadixTree) (l : WorkerLookup) (w : WorkerKey) (P : UInt64 → Prop)
    (a b : NodeId) : Prop :=
  t.Child a b ∧ ¬ (Named l P a ∧ ∀ v ∈ (t.nodes a).workers, v = w)

/-- A block keeps its children if somebody else holds it. -/
theorem dropWorker_children_get? {b : Block} {k : LocalBlockHash} {c : NodeId} :
    (b.dropWorker w).children.get? k = some c ↔
      b.children.get? k = some c ∧ ¬ ∀ v ∈ b.workers, v = w := by
  have hempty : (b.workers.erase w).isEmpty = true ↔ ∀ v ∈ b.workers, v = w := by
    rw [OrdSet.isEmpty_iff]
    simp only [OrdSet.mem_erase, not_and, ne_eq, not_not]
  unfold Block.dropWorker
  split
  · next h =>
    rw [Dict.get?_empty]
    exact ⟨fun hc => (by cases hc), fun hc => absurd (hempty.mp h) hc.2⟩
  · next h => exact ⟨fun hc => ⟨hc, mt hempty.mpr h⟩, fun hc => hc.1⟩

/-- **What is left of a node** after a removal. -/
theorem applyRemove_nodes (hs : List UInt64) (n : NodeId) :
    ∀ (t : ConcurrentRadixTree) (l : WorkerLookup),
      ((t.applyRemove w l hs).1.nodes n).blockHash = (t.nodes n).blockHash ∧
      (∀ v, v ∈ ((t.applyRemove w l hs).1.nodes n).workers ↔
        v ∈ (t.nodes n).workers ∧ ¬ (v = w ∧ Named l (· ∈ hs) n)) ∧
      ∀ k c, ((t.applyRemove w l hs).1.nodes n).children.get? k = some c ↔
        (t.nodes n).children.get? k = some c ∧
          ¬ (Named l (· ∈ hs) n ∧ ∀ v ∈ (t.nodes n).workers, v = w) := by
  induction hs with
  | nil =>
    intro t l
    simp [applyRemove, Named]
  | cons h hs ih =>
    intro t l
    rw [applyRemove]
    cases hl : l.get? h with
    | none =>
      -- a hash that the table does not know names no node
      have hnamed : Named l (· ∈ h :: hs) n ↔ Named l (· ∈ hs) n := by
        constructor
        · rintro ⟨x, hx, hxn⟩
          rcases List.mem_cons.mp hx with rfl | hx
          · rw [hl] at hxn
            cases hxn
          · exact ⟨x, hx, hxn⟩
        · rintro ⟨x, hx, hxn⟩
          exact ⟨x, List.mem_cons_of_mem h hx, hxn⟩
      rw [hnamed]
      exact ih t l
    | some m =>
      have hnamed : Named l (· ∈ h :: hs) n ↔ n = m ∨ Named (l.erase h) (· ∈ hs) n := by
        constructor
        · rintro ⟨x, hx, hxn⟩
          by_cases hxh : h = x
          · subst hxh
            rw [hl] at hxn
            exact Or.inl (Option.some.inj hxn).symm
          · refine Or.inr ⟨x, (List.mem_cons.mp hx).resolve_left (Ne.symm hxh), ?_⟩
            rwa [Dict.get?_erase_ne _ hxh]
        · rintro (rfl | ⟨x, hx, hxn⟩)
          · exact ⟨h, by simp, hl⟩
          · exact ⟨x, List.mem_cons_of_mem h hx, Dict.get?_of_erase hxn⟩
      obtain ⟨hb, hw, hc⟩ := ih (t.dropWorker m w) (l.erase h)
      refine ⟨?_, fun v => ?_, fun k c => ?_⟩
      · rw [hb, dropWorker, modify_nodes]
        split
        · exact Block.dropWorker_blockHash _ w
        · rfl
      · rw [hw v, mem_dropWorker_workers, hnamed]
        tauto
      · rw [hc k c, hnamed]
        have hlone : (∀ v ∈ ((t.dropWorker m w).nodes n).workers, v = w) ↔
            ∀ v ∈ (t.nodes n).workers, v = w := by
          simp only [mem_dropWorker_workers]
          constructor
          · intro hall v hv
            by_contra hne
            exact hne (hall v ⟨hv, fun h => hne h.2⟩)
          · intro hall v hv
            exact hall v hv.1
        rw [hlone, dropWorker, modify_nodes]
        by_cases hn : n = m
        · rw [if_pos hn, dropWorker_children_get?]
          tauto
        · rw [if_neg hn]
          tauto

theorem applyRemove_child (hs : List UInt64) (a b : NodeId) :
    (t.applyRemove w l hs).1.Child a b ↔ t.KeptChild l w (· ∈ hs) a b := by
  obtain ⟨-, -, hc⟩ := applyRemove_nodes (w := w) hs a t l
  simp only [Child, KeptChild, hc, exists_and_right]

end ConcurrentRadixTree

/-! ## Ownership -/

namespace HbmIndex

open ConcurrentRadixTree (root Named KeptChild)

variable {s : HbmIndex} {w : WorkerKey} {bh : UInt64}

/-- The worker's table has the block, or a node of the tree that carries it lists the worker. -/
def Owns (s : HbmIndex) (w : WorkerKey) (bh : UInt64) : Prop :=
  (∃ n, (s.lookup w).get? bh = some n) ∨
    ∃ n, ReflTransGen s.tree.Child root n ∧ (s.tree.nodes n).blockHash = some bh ∧
      w ∈ (s.tree.nodes n).workers

/-- **What a removal leaves** to the worker in HBM. -/
theorem owns_remove (hs : List UInt64) :
    (s.remove w hs).Owns w bh ↔
      (∃ n, (s.lookup w).get? bh = some n ∧ bh ∉ hs) ∨
      ∃ n, ReflTransGen (s.tree.KeptChild (s.lookup w) w (· ∈ hs)) root n ∧
        (s.tree.nodes n).blockHash = some bh ∧ w ∈ (s.tree.nodes n).workers ∧
        ¬ Named (s.lookup w) (· ∈ hs) n := by
  have hchild : (s.remove w hs).tree.Child = s.tree.KeptChild (s.lookup w) w (· ∈ hs) := by
    funext a b
    exact propext (ConcurrentRadixTree.applyRemove_child hs a b)
  have hlookup : (s.remove w hs).lookup w = (s.tree.applyRemove w (s.lookup w) hs).2 := by
    rw [remove, lookup_insert_eq, Function.update_self]
  unfold Owns
  rw [hchild, hlookup]
  refine or_congr ?_ (exists_congr fun n => and_congr_right fun _ => ?_)
  · simp only [ConcurrentRadixTree.applyRemove_lookup]
    by_cases hmem : bh ∈ hs <;> simp [hmem]
  · obtain ⟨hb, hw, -⟩ :=
      ConcurrentRadixTree.applyRemove_nodes (w := w) hs n s.tree (s.lookup w)
    show ((s.tree.applyRemove w (s.lookup w) hs).1.nodes n).blockHash = some bh ∧
      w ∈ ((s.tree.applyRemove w (s.lookup w) hs).1.nodes n).workers ↔ _
    rw [hb, hw w]
    simp only [true_and]

theorem owns_remove_nil : (s.remove w []).Owns w bh ↔ s.Owns w bh := by
  have hlookup : (s.remove w []).lookup = s.lookup := by
    rw [remove, lookup_insert_eq]
    exact Function.update_eq_self w s.lookup
  unfold Owns
  rw [hlookup]
  rfl

end HbmIndex

namespace IndexerEntry

open ConcurrentRadixTree (root Named KeptChild)

variable {e : IndexerEntry} {w : WorkerKey} {hashes : List UInt64} {bh : UInt64}

/-- The worker owns the block in the index of its medium. -/
def Owns (e : IndexerEntry) (w : WorkerKey) (bh : UInt64) : Prop :=
  match w.medium with
  | .npu | .unknown => e.hbm.Owns w bh
  | .cpu => e.cpuTiers.Owns w bh
  | .disk => e.diskTiers.Owns w bh

/-- The caches let the removal of this hash through to the index. -/
def PassesCaches (e : IndexerEntry) (w : WorkerKey) (hashes : List UInt64) (bh : UInt64) : Prop :=
  e.offloadPool.absorbed w bh < hashes.count bh

/-- Everything the worker owns of the hashes passes the caches. In HBM every node that carries one of
them, lists the worker and stays in the tree must moreover be one that the table names under a hash
that passes. -/
def RemovalReaches (e : IndexerEntry) (w : WorkerKey) (hashes : List UInt64) : Prop :=
  match w.medium with
  | .npu | .unknown => ∀ bh ∈ hashes,
      (∀ n, (e.hbm.lookup w).get? bh = some n → e.PassesCaches w hashes bh) ∧
      ∀ n, ReflTransGen (e.hbm.tree.KeptChild (e.hbm.lookup w) w (e.PassesCaches w hashes)) root n →
        (e.hbm.tree.nodes n).blockHash = some bh → w ∈ (e.hbm.tree.nodes n).workers →
        Named (e.hbm.lookup w) (e.PassesCaches w hashes) n
  | .cpu => ∀ bh ∈ hashes, e.cpuTiers.Owns w bh → e.PassesCaches w hashes bh
  | .disk => ∀ bh ∈ hashes, e.diskTiers.Owns w bh → e.PassesCaches w hashes bh

/-- The hashes that the event hands on to the index. -/
def treeHashes (e : IndexerEntry) (w : WorkerKey) (hashes : List UInt64) : List UInt64 :=
  (e.offloadPool.evictPendingBlocks w hashes).1

theorem mem_treeHashes : bh ∈ e.treeHashes w hashes ↔ e.PassesCaches w hashes bh :=
  OffloadPoolState.mem_evictPendingBlocks hashes bh e.offloadPool

theorem removeFrom_eq :
    (e.removeFrom hashes w).2 =
      if (e.treeHashes w hashes).isEmpty then
        { e with offloadPool := (e.offloadPool.evictPendingBlocks w hashes).2 }
      else
        ({ e with offloadPool := (e.offloadPool.evictPendingBlocks w hashes).2 }.applyEvent w
          (.removed (e.treeHashes w hashes))).2 := by
  unfold removeFrom treeHashes
  simp only
  split <;> rfl

theorem owns_removeFrom (hcons : e.TiersConsistent) :
    (e.removeFrom hashes w).2.Owns w bh ↔
      match w.medium with
      | .npu | .unknown => (e.hbm.remove w (e.treeHashes w hashes)).Owns w bh
      | .cpu => e.cpuTiers.Owns w bh ∧ bh ∉ e.treeHashes w hashes
      | .disk => e.diskTiers.Owns w bh ∧ bh ∉ e.treeHashes w hashes := by
  rw [removeFrom_eq]
  split
  · next hempty =>
    have hnil : e.treeHashes w hashes = [] := List.isEmpty_iff.mp hempty
    unfold Owns
    rw [hnil]
    cases w.medium with
    | npu => exact HbmIndex.owns_remove_nil.symm
    | unknown => exact HbmIndex.owns_remove_nil.symm
    | cpu => simp
    | disk => simp
  · unfold Owns
    cases hm : w.medium with
    | npu => simp only [applyEvent, hm]
    | unknown => simp only [applyEvent, hm]
    | cpu =>
      simp only [applyEvent, hm]
      exact hcons.1.owns_removeBlocks _
    | disk =>
      simp only [applyEvent, hm]
      exact hcons.2.owns_removeBlocks _

/-- **When a removal takes effect**: in every reachable state and for every list of hashes, the
worker owns none of them afterwards exactly if `RemovalReaches` holds before. -/
theorem removeFrom_releases_iff {ops : List EntryOp} (hrun : Run exec Free new ops e)
    (w : WorkerKey) (hashes : List UInt64) :
    (∀ bh ∈ hashes, ¬ (e.removeFrom hashes w).2.Owns w bh) ↔ e.RemovalReaches w hashes := by
  have hcons := run_tiersConsistent hrun
  have hpasses : (· ∈ e.treeHashes w hashes) = e.PassesCaches w hashes := by
    funext bh
    exact propext mem_treeHashes
  have hhbm : (∀ bh ∈ hashes, ¬ (e.hbm.remove w (e.treeHashes w hashes)).Owns w bh) ↔
      ∀ bh ∈ hashes,
        (∀ n, (e.hbm.lookup w).get? bh = some n → e.PassesCaches w hashes bh) ∧
        ∀ n, ReflTransGen (e.hbm.tree.KeptChild (e.hbm.lookup w) w (e.PassesCaches w hashes))
          root n → (e.hbm.tree.nodes n).blockHash = some bh → w ∈ (e.hbm.tree.nodes n).workers →
          Named (e.hbm.lookup w) (e.PassesCaches w hashes) n := by
    refine forall₂_congr fun bh _ => ?_
    rw [HbmIndex.owns_remove, hpasses, not_or]
    refine and_congr ?_ ?_
    · simp only [not_exists, not_and, not_not, mem_treeHashes]
    · simp only [not_exists, not_and, not_not]
  simp only [owns_removeFrom hcons]
  unfold RemovalReaches
  cases w.medium with
  | npu => exact hhbm
  | unknown => exact hhbm
  | cpu => simp only [not_and, not_not, mem_treeHashes]
  | disk => simp only [not_and, not_not, mem_treeHashes]

/-! ## A lost removal -/

section LostRemoval

def poolWorker : WorkerKey := ⟨"a", "a", 0, .cpu⟩

/-- An offload and its confirmation by the pool. -/
def confirmedRun : List EntryOp :=
  [.offload 0 .insertion [(7, 70, none)], .pool 1 .insertion [7] poolWorker]

/-- **A removal that is lost.** The engine offloads block 7 once more after the pool confirmed it,
and the removal that follows finds it in `offload` and stops there. -/
theorem reoffloaded_block_survives_removal :
    ∃ e, Run exec Free new (confirmedRun ++ [.offload 2 .insertion [(7, 70, none)]]) e ∧
      ¬ ∀ bh ∈ [7], ¬ (e.removeFrom [7] poolWorker).2.Owns poolWorker bh := by
  have hedge : (runList exec Free new
      (confirmedRun ++ [.offload 2 .insertion [(7, 70, none)]])).map (fun e =>
        ((e.removeFrom [7] poolWorker).2.cpuTiers.edges.get? ⟨none, 70⟩).map
          (fun edge => (edge.childHash, edge.contains poolWorker))) = some (some (7, true)) := by
    decide
  obtain ⟨e, he, hown⟩ := Option.map_eq_some_iff.mp hedge
  obtain ⟨edge, hget, hpair⟩ := Option.map_eq_some_iff.mp hown
  rw [Prod.mk.injEq] at hpair
  refine ⟨e, runList_run he, fun h => ?_⟩
  exact h 7 (by simp) ⟨⟨none, 70⟩, edge, hget, hpair.1, hpair.2⟩

/-- Without the second offload the removal takes effect. -/
theorem removeFrom_releases_confirmed_block :
    ∃ e, Run exec Free new confirmedRun e ∧ e.RemovalReaches poolWorker [7] ∧
      ∀ bh ∈ [7], ¬ (e.removeFrom [7] poolWorker).2.Owns poolWorker bh := by
  have hpass : (runList exec Free new confirmedRun).map
      (fun e => e.offloadPool.absorbed poolWorker 7) = some 0 := by decide
  obtain ⟨e, he, habs⟩ := Option.map_eq_some_iff.mp hpass
  have hreach : e.RemovalReaches poolWorker [7] := by
    intro bh hbh _
    rw [List.mem_singleton.mp hbh, PassesCaches, habs]
    decide
  exact ⟨e, runList_run he, hreach,
    (removeFrom_releases_iff (runList_run he) poolWorker [7]).mpr hreach⟩

end LostRemoval

end IndexerEntry

end PyMotor.Conductor
