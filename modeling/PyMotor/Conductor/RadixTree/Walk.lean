import Mathlib.Order.Bounds.Basic
import PyMotor.Conductor.RadixTree

/-!
# What a query of the radix tree returns

`find_matches_detailed` advances all workers at once: it keeps a shrinking set of active workers,
records the ones that drop out and stops early when none is left. Read worker by worker it is a
plain walk (`workerWalk`), and the walk of a worker visits nodes that all carry it (`nodeAt`). It is
also the longest such walk: what is reported does not depend on how the traversal is organised
(`findMatchesDetailed_iff_longest`).
-/

namespace PyMotor.Conductor.ConcurrentRadixTree

variable {t : ConcurrentRadixTree} {w : WorkerKey}

/-- The walk of a single worker, from a node that it holds. -/
def workerWalk (t : ConcurrentRadixTree) (w : WorkerKey) (cur : NodeId) (depth : Nat) :
    List LocalBlockHash → PrefixMatch
  | [] => ⟨depth, (t.nodes cur).blockHash⟩
  | item :: rest =>
    match (t.nodes cur).children.get? item with
    | none => ⟨depth, (t.nodes cur).blockHash⟩
    | some block =>
      if w ∈ (t.nodes block).workers then t.workerWalk w block (depth + 1) rest
      else ⟨depth, (t.nodes cur).blockHash⟩

/-- The node at the end of a path of child links. -/
def nodeAt (t : ConcurrentRadixTree) (cur : NodeId) : List LocalBlockHash → Option NodeId
  | [] => some cur
  | k :: ks =>
    match (t.nodes cur).children.get? k with
    | none => none
    | some c => t.nodeAt c ks

/-- **The active set, worker by worker**: an active worker ends with its own walk, for every other
worker the result is what it was. -/
theorem matchLoop_get? (active : OrdSet WorkerKey) (cur : NodeId) (depth : Nat)
    (results : Dict WorkerKey PrefixMatch) (q : List LocalBlockHash) (w : WorkerKey) :
    (t.matchLoop active cur depth results q).get? w =
      if w ∈ active then some (t.workerWalk w cur depth q) else results.get? w := by
  induction q generalizing active cur depth results with
  | nil => simp [matchLoop, workerWalk, Dict.get?_insertAll]
  | cons item rest ih =>
    rw [matchLoop, workerWalk]
    cases hc : (t.nodes cur).children.get? item with
    | none => simp [Dict.get?_insertAll]
    | some block =>
      simp only
      split
      · next hone =>
        -- one active worker: the list of the set is that worker
        obtain ⟨v, hv⟩ := List.length_eq_one_iff.mp hone
        have hmem : w ∈ active ↔ w = v := by rw [OrdSet.mem_def, hv, List.mem_singleton]
        simp only [hv]
        by_cases hin : v ∈ (t.nodes block).workers
        · rw [if_pos hin, ih]
          by_cases hwv : w = v
          · subst hwv; simp [hmem, hin]
          · simp [hmem, hwv]
        · rw [if_neg hin, Dict.get?_insert]
          by_cases hwv : w = v
          · subst hwv; simp [hmem, hin]
          · simp [hmem, hwv, Ne.symm hwv]
      · split
        · next hempty =>
          have hno : ¬ (w ∈ active ∧ w ∈ (t.nodes block).workers) := by
            have := OrdSet.isEmpty_iff.mp hempty w
            simpa using this
          rw [Dict.get?_insertAll]
          by_cases hact : w ∈ active
          · have hin : w ∉ (t.nodes block).workers := fun h => hno ⟨hact, h⟩
            simp [hact, hin]
          · simp [hact]
        · rw [ih, Dict.get?_insertAll]
          by_cases hact : w ∈ active <;> by_cases hin : w ∈ (t.nodes block).workers <;>
            simp [hact, hin]

/-- **A query, worker by worker.** -/
theorem findMatchesDetailed_get? (item : LocalBlockHash) (rest : List LocalBlockHash)
    (w : WorkerKey) :
    (t.findMatchesDetailed (item :: rest)).get? w =
      match (t.nodes root).children.get? item with
      | none => none
      | some first =>
        if w ∈ (t.nodes first).workers then some (t.workerWalk w first 1 rest) else none := by
  rw [findMatchesDetailed]
  cases hc : (t.nodes root).children.get? item with
  | none => rfl
  | some first =>
    simp only
    split
    · next hempty =>
      have := OrdSet.isEmpty_iff.mp hempty w
      simp [this]
    · rw [matchLoop_get?]
      simp

/-! ## The nodes of a walk -/

theorem workerWalk_nodes (q : List LocalBlockHash) :
    ∀ (cur : NodeId) (depth : Nat), w ∈ (t.nodes cur).workers →
      ∃ j ≤ q.length, (t.workerWalk w cur depth q).depth = depth + j ∧
        ∀ i ≤ j, ∃ n, t.nodeAt cur (q.take i) = some n ∧ w ∈ (t.nodes n).workers ∧
          (i = j → (t.workerWalk w cur depth q).lastSeqHash = (t.nodes n).blockHash) := by
  have stop : ∀ (q : List LocalBlockHash) (cur : NodeId) (depth : Nat),
      w ∈ (t.nodes cur).workers →
      t.workerWalk w cur depth q = ⟨depth, (t.nodes cur).blockHash⟩ →
      ∃ j ≤ q.length, (t.workerWalk w cur depth q).depth = depth + j ∧
        ∀ i ≤ j, ∃ n, t.nodeAt cur (q.take i) = some n ∧ w ∈ (t.nodes n).workers ∧
          (i = j → (t.workerWalk w cur depth q).lastSeqHash = (t.nodes n).blockHash) := by
    intro q cur depth hw heq
    refine ⟨0, Nat.zero_le _, by rw [heq]; rfl, ?_⟩
    intro i hi
    obtain rfl : i = 0 := Nat.le_zero.mp hi
    refine ⟨cur, by simp [nodeAt], hw, ?_⟩
    intro _
    rw [heq]
  induction q with
  | nil =>
    intro cur depth hw
    exact stop [] cur depth hw rfl
  | cons item rest ih =>
    intro cur depth hw
    cases hc : (t.nodes cur).children.get? item with
    | none =>
      refine stop _ cur depth hw ?_
      simp [workerWalk, hc]
    | some block =>
      by_cases hin : w ∈ (t.nodes block).workers
      · have hstep : t.workerWalk w cur depth (item :: rest)
            = t.workerWalk w block (depth + 1) rest := by
          simp [workerWalk, hc, hin]
        obtain ⟨j, hj, hdepth, hnodes⟩ := ih block (depth + 1) hin
        rw [hstep]
        refine ⟨j + 1, by simpa using hj, by omega, ?_⟩
        intro i hi
        cases i with
        | zero => exact ⟨cur, by simp [nodeAt], hw, by omega⟩
        | succ i =>
          obtain ⟨n, hn, hwn, hlast⟩ := hnodes i (by omega)
          refine ⟨n, by simp [nodeAt, hc, hn], hwn, ?_⟩
          intro hij
          exact hlast (by omega)
      · refine stop _ cur depth hw ?_
        simp [workerWalk, hc, hin]

/-- **A reported match is a path of nodes that carry the worker**: `depth` of them, all along the
query, the last one naming the breakpoint. -/
theorem findMatchesDetailed_nodes {q : List LocalBlockHash} {m : PrefixMatch}
    (h : (t.findMatchesDetailed q).get? w = some m) :
    0 < m.depth ∧ m.depth ≤ q.length ∧
      ∀ i, 0 < i → i ≤ m.depth → ∃ n, t.nodeAt root (q.take i) = some n ∧
        w ∈ (t.nodes n).workers ∧ (i = m.depth → m.lastSeqHash = (t.nodes n).blockHash) := by
  cases q with
  | nil => simp [findMatchesDetailed] at h
  | cons item rest =>
    rw [findMatchesDetailed_get?] at h
    split at h
    · cases h
    · next first hfirst =>
      split at h
      · next hw =>
        cases h
        obtain ⟨j, hj, hdepth, hnodes⟩ := workerWalk_nodes rest first 1 hw
        rw [hdepth]
        refine ⟨by omega, by simp only [List.length_cons]; omega, ?_⟩
        intro i hi hij
        obtain ⟨i, rfl⟩ : ∃ k, i = k + 1 := ⟨i - 1, by omega⟩
        obtain ⟨n, hn, hwn, hlast⟩ := hnodes i (by omega)
        refine ⟨n, by simp [nodeAt, hfirst, hn], hwn, ?_⟩
        intro he
        exact hlast (by omega)
      · cases h

/-! ## The longest prefix -/

/-- Along the first `d` blocks of the query there are nodes, and each of them carries the worker. -/
def CarriedTo (t : ConcurrentRadixTree) (w : WorkerKey) (cur : NodeId) (q : List LocalBlockHash)
    (d : Nat) : Prop :=
  d ≤ q.length ∧
    ∀ i, 0 < i → i ≤ d → ∃ n, t.nodeAt cur (q.take i) = some n ∧ w ∈ (t.nodes n).workers

/-- The first step of a carried path is a child that carries the worker, and the rest goes on from
there. -/
theorem carriedTo_succ {cur : NodeId} {item : LocalBlockHash} {rest : List LocalBlockHash}
    {d : Nat} (h : t.CarriedTo w cur (item :: rest) (d + 1)) :
    ∃ c, (t.nodes cur).children.get? item = some c ∧ w ∈ (t.nodes c).workers ∧
      t.CarriedTo w c rest d := by
  obtain ⟨hlen, hpath⟩ := h
  obtain ⟨n, hn, hw⟩ := hpath 1 Nat.one_pos (Nat.le_add_left 1 d)
  cases hc : (t.nodes cur).children.get? item with
  | none => simp [nodeAt, hc] at hn
  | some c =>
    have hcn : c = n := by simpa [nodeAt, hc] using hn
    refine ⟨c, rfl, by rwa [hcn], by simpa using hlen, ?_⟩
    intro i hi hid
    obtain ⟨m, hm, hwm⟩ := hpath (i + 1) (Nat.succ_pos i) (Nat.succ_le_succ hid)
    refine ⟨m, ?_, hwm⟩
    simpa [nodeAt, hc] using hm

theorem carriedTo_zero {cur : NodeId} {q : List LocalBlockHash} : t.CarriedTo w cur q 0 := by
  refine ⟨Nat.zero_le _, fun i hi hi0 => ?_⟩
  omega

theorem carriedTo_cons {cur c : NodeId} {item : LocalBlockHash} {rest : List LocalBlockHash}
    {d : Nat} (hc : (t.nodes cur).children.get? item = some c) (hw : w ∈ (t.nodes c).workers)
    (h : t.CarriedTo w c rest d) : t.CarriedTo w cur (item :: rest) (d + 1) := by
  refine ⟨Nat.succ_le_succ h.1, fun i hi hid => ?_⟩
  obtain ⟨i, rfl⟩ : ∃ k, i = k + 1 := ⟨i - 1, by omega⟩
  rw [List.take_succ_cons, nodeAt, hc]
  cases i with
  | zero => exact ⟨c, rfl, hw⟩
  | succ i => exact h.2 (i + 1) (Nat.succ_pos i) (Nat.le_of_succ_le_succ hid)

/-- The walk does not stop while the worker is carried on. -/
theorem workerWalk_maximal (q : List LocalBlockHash) :
    ∀ (cur : NodeId) (depth j : Nat), t.CarriedTo w cur q j →
      depth + j ≤ (t.workerWalk w cur depth q).depth := by
  -- the walk only ever goes down
  have grows : ∀ (q : List LocalBlockHash) (cur : NodeId) (depth : Nat),
      depth ≤ (t.workerWalk w cur depth q).depth := by
    intro q
    induction q with
    | nil =>
      intro cur depth
      exact Nat.le_refl _
    | cons item rest ih =>
      intro cur depth
      rw [workerWalk]
      split
      · exact Nat.le_refl _
      · split
        · exact Nat.le_trans (Nat.le_succ depth) (ih _ _)
        · exact Nat.le_refl _
  induction q with
  | nil =>
    intro cur depth j h
    obtain rfl : j = 0 := Nat.le_zero.mp h.1
    exact grows [] cur depth
  | cons item rest ih =>
    intro cur depth j h
    cases j with
    | zero => exact grows _ cur depth
    | succ j =>
      obtain ⟨c, hc, hw, hrest⟩ := carriedTo_succ h
      have hstep : t.workerWalk w cur depth (item :: rest)
          = t.workerWalk w c (depth + 1) rest := by
        simp [workerWalk, hc, hw]
      rw [hstep]
      have := ih c (depth + 1) j hrest
      omega

theorem findMatchesDetailed_isSome {q : List LocalBlockHash} :
    (∃ m, (t.findMatchesDetailed q).get? w = some m) ↔
      ∃ item ∈ q.head?, ∃ first, (t.nodes root).children.get? item = some first ∧
        w ∈ (t.nodes first).workers := by
  cases q with
  | nil => simp [findMatchesDetailed]
  | cons item rest =>
    rw [findMatchesDetailed_get?]
    cases hc : (t.nodes root).children.get? item with
    | none => simp [hc]
    | some first => by_cases hw : w ∈ (t.nodes first).workers <;> simp [hc, hw]

/-- A reported depth is the greatest that the worker is carried to. -/
theorem findMatchesDetailed_greatest {q : List LocalBlockHash} {m : PrefixMatch}
    (h : (t.findMatchesDetailed q).get? w = some m) :
    IsGreatest {d | t.CarriedTo w root q d} m.depth := by
  obtain ⟨-, hlen, hnodes⟩ := findMatchesDetailed_nodes h
  refine ⟨⟨hlen, ?_⟩, ?_⟩
  · intro i hi him
    obtain ⟨n, hn, hw, -⟩ := hnodes i hi him
    exact ⟨n, hn, hw⟩
  · intro d hd
    cases d with
    | zero => exact Nat.zero_le _
    | succ d =>
      cases q with
      | nil => exact absurd hd.1 (Nat.not_succ_le_zero d)
      | cons item rest =>
        obtain ⟨c, hc, hw, hrest⟩ := carriedTo_succ hd
        rw [findMatchesDetailed_get?, hc] at h
        simp only [hw, ↓reduceIte, Option.some.injEq] at h
        have := workerWalk_maximal rest c 1 d hrest
        rw [h] at this
        omega

theorem findMatchesDetailed_eq_some_iff {q : List LocalBlockHash} {m : PrefixMatch} :
    (t.findMatchesDetailed q).get? w = some m ↔
      0 < m.depth ∧ IsGreatest {d | t.CarriedTo w root q d} m.depth ∧
        ∃ n, t.nodeAt root (q.take m.depth) = some n ∧ m.lastSeqHash = (t.nodes n).blockHash := by
  constructor
  · intro h
    obtain ⟨hpos, -, hnodes⟩ := findMatchesDetailed_nodes h
    obtain ⟨n, hn, -, hlast⟩ := hnodes m.depth hpos (Nat.le_refl _)
    exact ⟨hpos, findMatchesDetailed_greatest h, n, hn, hlast rfl⟩
  · rintro ⟨hpos, hgreat, n, hn, hlast⟩
    -- the worker is reported, and what is reported has the same depth and the same node
    obtain ⟨m', hm'⟩ : ∃ m', (t.findMatchesDetailed q).get? w = some m' := by
      rw [findMatchesDetailed_isSome]
      cases q with
      | nil => exact absurd hgreat.1.1 (Nat.not_le.mpr hpos)
      | cons item rest =>
        obtain ⟨d, hd⟩ := Nat.exists_eq_succ_of_ne_zero (Nat.pos_iff_ne_zero.mp hpos)
        have hcarried := hgreat.1
        rw [hd] at hcarried
        obtain ⟨c, hc, hw, -⟩ := carriedTo_succ hcarried
        exact ⟨item, rfl, c, hc, hw⟩
    have hdepth : m'.depth = m.depth := (findMatchesDetailed_greatest hm').unique hgreat
    obtain ⟨hpos', -, hnodes⟩ := findMatchesDetailed_nodes hm'
    obtain ⟨n', hn', -, hlast'⟩ := hnodes m'.depth hpos' (Nat.le_refl _)
    have hlast'' := hlast' rfl
    rw [hdepth, hn] at hn'
    cases hn'
    obtain ⟨depth', last'⟩ := m'
    obtain ⟨depth, last⟩ := m
    simp only at hdepth hlast hlast''
    rw [hm', hdepth, hlast, hlast'']

/-- **`find_matches_detailed` is the walk of every single worker.** A worker is reported if the node
of the first block carries it; its depth is then the greatest to which nodes along the query carry
it, and the breakpoint is the hash of the last of these nodes. -/
theorem findMatchesDetailed_iff_longest (t : ConcurrentRadixTree) (q : List LocalBlockHash)
    (w : WorkerKey) :
    ((∃ m, (t.findMatchesDetailed q).get? w = some m) ↔
      ∃ item ∈ q.head?, ∃ first, (t.nodes root).children.get? item = some first ∧
        w ∈ (t.nodes first).workers) ∧
    ∀ m, (t.findMatchesDetailed q).get? w = some m ↔
      0 < m.depth ∧ IsGreatest {d | t.CarriedTo w root q d} m.depth ∧
        ∃ n, t.nodeAt root (q.take m.depth) = some n ∧ m.lastSeqHash = (t.nodes n).blockHash :=
  ⟨findMatchesDetailed_isSome, fun _ => findMatchesDetailed_eq_some_iff⟩

end PyMotor.Conductor.ConcurrentRadixTree
