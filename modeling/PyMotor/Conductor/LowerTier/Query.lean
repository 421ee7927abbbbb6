import PyMotor.Conductor.LowerTier

/-!
# Walks in the lower tiers

A query of a tier is a set of walks. Each starts at a continuation point (a position in the query and
the sequence hash of the block before it, or the root) and crosses one edge per block as long as the
worker owns it. Of the walks of one worker the one with the farthest end counts.
-/

namespace PyMotor.Conductor

/-- Where a walk resumes. -/
structure LowerTierContinuation where
  startPos : Nat
  lastMatchedHash : Option SequenceBlockHash
  deriving DecidableEq, Repr

/-- What a walk found. -/
structure ContiguousHit where
  count : Nat
  startPos : Nat
  lastMatchedHash : Option SequenceBlockHash
  deriving DecidableEq, Repr

/-- The position after the last block. -/
def ContiguousHit.endPos (h : ContiguousHit) : Nat := h.startPos + h.count

namespace LowerTierIndexer

variable {t : LowerTierIndexer} {w : WorkerKey} {q : List LocalBlockHash}

/-- Cross edges while the worker owns them: how many, and the block reached. -/
def walkLoop (t : LowerTierIndexer) (w : WorkerKey) (cur : Option SequenceBlockHash) :
    List LocalBlockHash → Nat × Option SequenceBlockHash
  | [] => (0, cur)
  | x :: xs =>
    match t.edges.get? ⟨cur, x⟩ with
    | none => (0, cur)
    | some edge =>
      if edge.contains w then
        let (n, last) := t.walkLoop w (some edge.childHash) xs
        (n + 1, last)
      else (0, cur)

def walk (t : LowerTierIndexer) (q : List LocalBlockHash) (w : WorkerKey)
    (c : LowerTierContinuation) : ContiguousHit :=
  let (count, last) := t.walkLoop w c.lastMatchedHash (q.drop c.startPos)
  ⟨count, c.startPos, if 0 < count then last else none⟩

/-- The hit with the farther end; the later one, if they end at the same position. -/
def farther (best : Option ContiguousHit) (hit : ContiguousHit) : Option ContiguousHit :=
  match best with
  | some b => if hit.endPos ≥ b.endPos then some hit else some b
  | none => some hit

def bestHit (t : LowerTierIndexer) (q : List LocalBlockHash) (w : WorkerKey)
    (conts : List LowerTierContinuation) : Option ContiguousHit :=
  conts.foldl (fun best c => farther best (t.walk q w c)) none

def queryContiguousHits (t : LowerTierIndexer) (q : List LocalBlockHash)
    (continuations : Dict WorkerKey (List LowerTierContinuation)) : Dict WorkerKey ContiguousHit :=
  continuations.filterMap (fun w conts => t.bestHit q w conts)

/-! ## The edges of a walk -/

/-- `w` owns the edges along `xs`, which lead from the block `cur` to the block `last`. -/
inductive OwnsPath (t : LowerTierIndexer) (w : WorkerKey) :
    Option SequenceBlockHash → List LocalBlockHash → Option SequenceBlockHash → Prop where
  | nil (cur : Option SequenceBlockHash) : OwnsPath t w cur [] cur
  | cons {cur last : Option SequenceBlockHash} {x : LocalBlockHash} {child : SequenceBlockHash}
      {xs : List LocalBlockHash} : OwnsEdge t.edges w ⟨cur, x⟩ child →
      OwnsPath t w (some child) xs last → OwnsPath t w cur (x :: xs) last

theorem mem_edgeOwners {parent : Option SequenceBlockHash} {x : LocalBlockHash} :
    w ∈ t.edgeOwners parent x ↔ ∃ child, OwnsEdge t.edges w ⟨parent, x⟩ child := by
  unfold edgeOwners OwnsEdge
  cases t.edges.get? ⟨parent, x⟩ with
  | none => simp
  | some edge => simp [EdgeOwnersEntry.mem_collectWorkers]

theorem OwnsPath.split {cur last : Option SequenceBlockHash} {xs : List LocalBlockHash}
    (h : t.OwnsPath w cur xs last) : ∀ i x, xs[i]? = some x →
      ∃ mid child, t.OwnsPath w cur (xs.take i) mid ∧ OwnsEdge t.edges w ⟨mid, x⟩ child := by
  induction h with
  | nil cur =>
    intro i x hx
    simp at hx
  | cons hedge _ ih =>
    intro i x hx
    cases i with
    | zero =>
      cases hx
      exact ⟨_, _, .nil _, hedge⟩
    | succ i =>
      obtain ⟨mid, child, hpath, hnext⟩ := ih i x hx
      exact ⟨mid, child, .cons hedge hpath, hnext⟩

theorem ownsPath_walkLoop (xs : List LocalBlockHash) :
    ∀ cur, t.OwnsPath w cur (xs.take (t.walkLoop w cur xs).1) (t.walkLoop w cur xs).2 := by
  induction xs with
  | nil => intro cur; exact .nil cur
  | cons x xs ih =>
    intro cur
    rw [walkLoop]
    cases hedge : t.edges.get? ⟨cur, x⟩ with
    | none => exact .nil cur
    | some edge =>
      simp only
      split
      · next hown => exact .cons ⟨edge, hedge, rfl, hown⟩ (ih _)
      · exact .nil cur

/-- The walk goes at least as far as any path of its worker, and along the longest one. -/
theorem OwnsPath.le_walkLoop {cur last : Option SequenceBlockHash} {ys : List LocalBlockHash}
    (h : t.OwnsPath w cur ys last) : ∀ xs, ys <+: xs →
      ys.length ≤ (t.walkLoop w cur xs).1 ∧
        (ys.length = (t.walkLoop w cur xs).1 → last = (t.walkLoop w cur xs).2) := by
  induction h with
  | nil cur =>
    intro xs _
    refine ⟨Nat.zero_le _, fun hlen => ?_⟩
    cases xs with
    | nil => rfl
    | cons x xs =>
      rw [walkLoop] at hlen ⊢
      cases hedge : t.edges.get? ⟨cur, x⟩ with
      | none => rfl
      | some edge =>
        simp only [hedge] at hlen ⊢
        split at hlen
        · simp at hlen
        · next hown => rw [if_neg hown]
  | cons hedge _ ih =>
    intro xs hpre
    obtain ⟨rest, rfl⟩ := hpre
    obtain ⟨edge, hget, rfl, hown⟩ := hedge
    have hih := ih _ (List.prefix_append _ rest)
    simpa [walkLoop, hget, hown] using hih

theorem walkLoop_le (xs : List LocalBlockHash) : ∀ cur, (t.walkLoop w cur xs).1 ≤ xs.length := by
  induction xs with
  | nil => intro cur; exact Nat.le_refl _
  | cons x xs ih =>
    intro cur
    rw [walkLoop]
    cases t.edges.get? ⟨cur, x⟩ with
    | none => exact Nat.zero_le _
    | some edge =>
      simp only
      split
      · exact Nat.succ_le_succ (ih _)
      · exact Nat.zero_le _

theorem walk_count_pos {c : LowerTierContinuation} {x : LocalBlockHash}
    (hx : q[c.startPos]? = some x) (hw : w ∈ t.edgeOwners c.lastMatchedHash x) :
    0 < (t.walk q w c).count := by
  have hdrop : q.drop c.startPos = x :: q.drop (c.startPos + 1) := by
    obtain ⟨hlt, rfl⟩ := List.getElem?_eq_some_iff.mp hx
    exact List.drop_eq_getElem_cons hlt
  unfold edgeOwners at hw
  split at hw
  · next edge hedge =>
    simp [walk, hdrop, walkLoop, hedge, EdgeOwnersEntry.mem_collectWorkers.mp hw]
  · cases hw

/-- `w` owns the edges of the blocks `p` to `n - 1` of the query, in a row from the block `parent`. -/
def Crosses (t : LowerTierIndexer) (w : WorkerKey) (q : List LocalBlockHash) (p : Nat)
    (parent : Option SequenceBlockHash) (n : Nat) (last : Option SequenceBlockHash) : Prop :=
  p < n ∧ n ≤ q.length ∧ t.OwnsPath w parent ((q.drop p).take (n - p)) last

section crosses

variable {p n : Nat} {parent last : Option SequenceBlockHash}

theorem Crosses.edge (h : t.Crosses w q p parent n last) {i : Nat} (hp : p ≤ i) (hi : i < n) :
    ∃ x mid child, q[i]? = some x ∧ t.OwnsPath w parent ((q.drop p).take (i - p)) mid ∧
      OwnsEdge t.edges w ⟨mid, x⟩ child := by
  obtain ⟨-, hlen, hpath⟩ := h
  have hx : q[i]? = some q[i] := List.getElem?_eq_getElem (by omega)
  have hat : ((q.drop p).take (n - p))[i - p]? = some q[i] := by
    rw [List.getElem?_take_of_lt (by omega), List.getElem?_drop, Nat.add_sub_cancel' hp, hx]
  obtain ⟨mid, child, hmid, hedge⟩ := hpath.split (i - p) _ hat
  rw [List.take_take, Nat.min_eq_left (by omega)] at hmid
  exact ⟨_, mid, child, hx, hmid, hedge⟩

theorem walk_crosses (hpos : 0 < (t.walk q w ⟨p, parent⟩).count) :
    ∃ h, (t.walk q w ⟨p, parent⟩).lastMatchedHash = some h ∧
      t.Crosses w q p parent (t.walk q w ⟨p, parent⟩).endPos (some h) := by
  have hpath := ownsPath_walkLoop (t := t) (w := w) (q.drop p) parent
  have hle := walkLoop_le (t := t) (w := w) (q.drop p) parent
  rw [List.length_drop] at hle
  simp only [ContiguousHit.endPos, walk] at hpos ⊢
  rw [if_pos hpos]
  -- a path with an edge in it does not end at the root
  have hsome : ∀ {cur last : Option SequenceBlockHash} {xs : List LocalBlockHash},
      t.OwnsPath w cur xs last → 0 < xs.length ∨ (∃ h, cur = some h) → ∃ h, last = some h := by
    intro cur last xs hp
    induction hp with
    | nil cur => exact fun h => h.resolve_left (Nat.lt_irrefl 0)
    | cons _ _ ih => exact fun _ => ih (Or.inr ⟨_, rfl⟩)
  obtain ⟨h, hh⟩ := hsome hpath (Or.inl (by rw [List.length_take, List.length_drop]; omega))
  refine ⟨h, hh, by omega, by omega, ?_⟩
  rw [Nat.add_sub_cancel_left, ← hh]
  exact hpath

theorem Crosses.le_walk (h : t.Crosses w q p parent n last) :
    n ≤ (t.walk q w ⟨p, parent⟩).endPos ∧
      (n = (t.walk q w ⟨p, parent⟩).endPos → last = (t.walk q w ⟨p, parent⟩).lastMatchedHash) := by
  obtain ⟨hp, hlen, hpath⟩ := h
  have hwalk := hpath.le_walkLoop (q.drop p) (List.take_prefix ..)
  rw [List.length_take, List.length_drop, Nat.min_eq_left (by omega)] at hwalk
  simp only [ContiguousHit.endPos, walk]
  refine ⟨by omega, fun heq => ?_⟩
  rw [if_pos (by omega)]
  exact hwalk.2 (by omega)

end crosses

/-! ## The farthest walk -/

theorem foldl_farther (conts : List LowerTierContinuation) :
    ∀ b : ContiguousHit,
      ∃ h, conts.foldl (fun best c => farther best (t.walk q w c)) (some b) = some h ∧
        b.endPos ≤ h.endPos ∧ (∀ c ∈ conts, (t.walk q w c).endPos ≤ h.endPos) ∧
        ((h = b ∧ ∀ c ∈ conts, (t.walk q w c).endPos < b.endPos) ∨
          ∃ c ∈ conts, h = t.walk q w c) := by
  induction conts with
  | nil =>
    intro b
    exact ⟨b, rfl, Nat.le_refl _, by simp, Or.inl ⟨rfl, by simp⟩⟩
  | cons c conts ih =>
    intro b
    rw [List.foldl_cons, farther]
    split
    · next hge =>
      obtain ⟨h, heq, hb, hall, hfrom⟩ := ih (t.walk q w c)
      refine ⟨h, heq, Nat.le_trans hge hb, fun c' hc' => ?_, Or.inr ?_⟩
      · rcases List.mem_cons.mp hc' with rfl | hc'
        · exact hb
        · exact hall c' hc'
      · rcases hfrom with ⟨rfl, -⟩ | ⟨c', hc', rfl⟩
        · exact ⟨c, List.mem_cons_self, rfl⟩
        · exact ⟨c', List.mem_cons_of_mem c hc', rfl⟩
    · next hlt =>
      obtain ⟨h, heq, hb, hall, hfrom⟩ := ih b
      refine ⟨h, heq, hb, fun c' hc' => ?_, ?_⟩
      · rcases List.mem_cons.mp hc' with rfl | hc'
        · omega
        · exact hall c' hc'
      · rcases hfrom with ⟨rfl, hless⟩ | ⟨c', hc', rfl⟩
        · refine Or.inl ⟨rfl, fun c' hc' => ?_⟩
          rcases List.mem_cons.mp hc' with rfl | hc'
          · exact Nat.lt_of_not_le hlt
          · exact hless c' hc'
        · exact Or.inr ⟨c', List.mem_cons_of_mem c hc', rfl⟩

/-- **The best hit** is the walk of a candidate that ends farthest. -/
theorem bestHit_eq {c₀ : LowerTierContinuation} {conts : List LowerTierContinuation}
    (hc₀ : c₀ ∈ conts) :
    ∃ c ∈ conts, t.bestHit q w conts = some (t.walk q w c) ∧
      ∀ c' ∈ conts, (t.walk q w c').endPos ≤ (t.walk q w c).endPos := by
  cases conts with
  | nil => cases hc₀
  | cons c conts =>
    obtain ⟨h, heq, hb, hall, hfrom⟩ := foldl_farther (t := t) (q := q) (w := w) conts
      (t.walk q w c)
    have hall' : ∀ c' ∈ c :: conts, (t.walk q w c').endPos ≤ h.endPos := by
      intro c' hc'
      rcases List.mem_cons.mp hc' with rfl | hc'
      · exact hb
      · exact hall c' hc'
    have hbest : t.bestHit q w (c :: conts) = some h := heq
    rcases hfrom with ⟨rfl, -⟩ | ⟨c', hc', rfl⟩
    · exact ⟨c, List.mem_cons_self, hbest, hall'⟩
    · exact ⟨c', List.mem_cons_of_mem c hc', hbest, hall'⟩

/-- Of candidates that end at the same position the later ones win. -/
theorem bestHit_append {c₀ : LowerTierContinuation} {early late : List LowerTierContinuation}
    (hc₀ : c₀ ∈ late)
    (hle : ∀ c ∈ early, (t.walk q w c).endPos ≤ (t.walk q w c₀).endPos) :
    ∃ c ∈ late, t.bestHit q w (early ++ late) = some (t.walk q w c) := by
  cases early with
  | nil =>
    obtain ⟨c, hc, heq, -⟩ := bestHit_eq (t := t) (q := q) (w := w) hc₀
    exact ⟨c, hc, heq⟩
  | cons e early =>
    obtain ⟨c, hc, heq, -⟩ := bestHit_eq (t := t) (q := q) (w := w)
      (List.mem_cons_self (a := e) (l := early))
    obtain ⟨h, hfold, -, -, hfrom⟩ := foldl_farther (t := t) (q := q) (w := w) late
      (t.walk q w c)
    have hbest : t.bestHit q w (e :: early ++ late) = some h := by
      rw [bestHit] at heq
      rw [bestHit, List.foldl_append, heq]
      exact hfold
    rcases hfrom with ⟨-, hless⟩ | ⟨c', hc', rfl⟩
    · exact absurd (hless c₀ hc₀) (Nat.not_lt.mpr (hle c hc))
    · exact ⟨c', hc', hbest⟩

end LowerTierIndexer

end PyMotor.Conductor
