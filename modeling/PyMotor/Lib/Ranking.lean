import Mathlib.Data.List.Sort

/-!
# Rankings

A program that wants the best few of its candidates sorts them by a key and takes the first; one that
wants only the best keeps it while it scans. The sort is stable and the scan replaces only what is
worse, so of equals the earliest comes first. An element is among the first few of the sorted list if few
come before it (`take_rank`), where of equals the earlier ones count.
-/

namespace PyMotor.Ranking

variable {α β : Type} [LinearOrder β]

/-! ## Sorting by a key -/

section Rank

variable {key : α → β} {l t : List α} {a b : α}

def rank (key : α → β) (l : List α) : List α :=
  l.insertionSort fun a b => key a ≤ key b

theorem rank_perm (key : α → β) (l : List α) : (rank key l).Perm l :=
  List.perm_insertionSort _ l

@[simp] theorem mem_rank : a ∈ rank key l ↔ a ∈ l :=
  (rank_perm key l).mem_iff

@[simp] theorem rank_eq_nil : rank key l = [] ↔ l = [] := by
  constructor
  · intro h
    exact (h ▸ (rank_perm key l).symm).eq_nil
  · rintro rfl
    rfl

theorem rank_pairwise (key : α → β) (l : List α) :
    (rank key l).Pairwise fun a b => key a ≤ key b := by
  have htotal : Std.Total fun a b : α => key a ≤ key b := ⟨fun a b => le_total (key a) (key b)⟩
  have htrans : IsTrans α fun a b => key a ≤ key b := ⟨fun _ _ _ => le_trans⟩
  exact List.pairwise_insertionSort _ l

theorem rank_first (h : rank key l = a :: t) : a ∈ l ∧ ∀ b ∈ l, key a ≤ key b := by
  have hsorted := rank_pairwise key l
  rw [h, List.pairwise_cons] at hsorted
  have hmem : ∀ b, b ∈ l ↔ b ∈ a :: t := by
    intro b
    rw [← h, mem_rank]
  refine ⟨(hmem a).mpr List.mem_cons_self, fun b hb => ?_⟩
  rcases List.mem_cons.mp ((hmem b).mp hb) with rfl | hb
  · exact le_refl _
  · exact hsorted.1 b hb

/-- Some of the first of a list are the first of some. -/
theorem exists_rank_cons (key : α → β) (hne : l ≠ []) : ∃ a t, rank key l = a :: t := by
  cases h : rank key l with
  | nil => exact absurd (rank_eq_nil.mp h) hne
  | cons a t => exact ⟨a, t, rfl⟩

end Rank

/-! ## The first few -/

section First

variable {r : α → α → Prop} [DecidableRel r] {l : List α} {a : α} {k : ℕ}

/-- In a list that is in order, an element is among the first if few come before it. -/
theorem take_eq_filter (hirrefl : ∀ a, ¬r a a) (hasymm : ∀ a b, r a b → ¬r b a) (h : l.Pairwise r) :
    ∀ k, l.take k = l.filter fun a => decide (l.countP (r · a) < k) := by
  induction l with
  | nil => simp
  | cons a l ih =>
    intro k
    obtain ⟨ha, hl⟩ := List.pairwise_cons.mp h
    have hnone : (a :: l).countP (r · a) = 0 := by
      rw [List.countP_eq_zero]
      intro b hb
      rcases List.mem_cons.mp hb with rfl | hb
      · simpa using hirrefl b
      · simpa using hasymm a b (ha b hb)
    have hone : ∀ b ∈ l, (a :: l).countP (r · b) = l.countP (r · b) + 1 := fun b hb => by
      rw [List.countP_cons_of_pos (by simpa using ha b hb)]
    rw [List.filter_cons, hnone]
    cases k with
    | zero => simp
    | succ k =>
      rw [List.take_succ_cons, ih hl, if_pos (by simp)]
      congr 1
      exact List.filter_congr fun b hb => by simp only [hone b hb, Nat.add_lt_add_iff_right]

end First

section Stable

variable {key : α → β} {r : α → α → Prop} {l : List α} {a b : α} {k : ℕ}

/-- What a ranking puts first: the lesser key, and of equal keys what was first in the list. -/
def Before (key : α → β) (r : α → α → Prop) (a b : α) : Prop := key a < key b ∨ key a = key b ∧ r a b

instance [DecidableRel r] : DecidableRel (Before key r) := fun a b =>
  inferInstanceAs (Decidable (key a < key b ∨ key a = key b ∧ r a b))

theorem Before.le (h : Before key r a b) : key a ≤ key b :=
  h.elim le_of_lt fun h => h.1.le

theorem Before.of_le (hle : key a ≤ key b) (h : r a b) : Before key r a b :=
  hle.lt_or_eq.imp_right fun heq => ⟨heq, h⟩

theorem Before.irrefl (hirrefl : ∀ a, ¬r a a) (a : α) : ¬Before key r a a :=
  fun h => h.elim (lt_irrefl _) fun h => hirrefl a h.2

theorem Before.asymm (hasymm : ∀ a b, r a b → ¬r b a) (a b : α) (h : Before key r a b) :
    ¬Before key r b a := by
  rintro (hlt | ⟨heq, hba⟩)
  · exact absurd hlt h.le.not_gt
  · rcases h with hlt | ⟨-, hab⟩
    · exact absurd heq hlt.ne'
    · exact hasymm a b hab hba

theorem pairwise_orderedInsert (h : l.Pairwise (Before key r)) (ha : ∀ b ∈ l, r a b) :
    (l.orderedInsert (fun a b => key a ≤ key b) a).Pairwise (Before key r) := by
  induction l with
  | nil => simp
  | cons b l ih =>
    obtain ⟨hb, hl⟩ := List.pairwise_cons.mp h
    rw [List.orderedInsert_cons]
    split
    · next hle =>
      refine List.pairwise_cons.mpr ⟨fun c hc => ?_, h⟩
      refine Before.of_le ?_ (ha c hc)
      rcases List.mem_cons.mp hc with rfl | hc
      · exact hle
      · exact hle.trans (hb c hc).le
    · next hlt =>
      refine List.pairwise_cons.mpr ⟨fun c hc => ?_, ih hl fun c hc => ha c (List.mem_cons_of_mem _ hc)⟩
      rcases (List.mem_orderedInsert _).mp hc with rfl | hc
      · exact Or.inl (not_le.mp hlt)
      · exact hb c hc

/-- **The ranking is stable.** -/
theorem rank_pairwise_before (h : l.Pairwise r) : (rank key l).Pairwise (Before key r) := by
  induction l with
  | nil => exact List.Pairwise.nil
  | cons a l ih =>
    obtain ⟨ha, hl⟩ := List.pairwise_cons.mp h
    exact pairwise_orderedInsert (ih hl) fun b hb => ha b (mem_rank.mp hb)

theorem rank_map {α' : Type} (f : α' → α) (l : List α') : rank key (l.map f) = (rank (key ∘ f) l).map f :=
  (List.map_insertionSort _ _ f l fun _ _ _ _ => Iff.rfl).symm

variable [DecidableRel r]

/-- **The first of a ranking** are those that few come before. -/
theorem take_rank (hirrefl : ∀ a, ¬r a a) (hasymm : ∀ a b, r a b → ¬r b a) (h : l.Pairwise r) (k : ℕ) :
    (rank key l).take k = (rank key l).filter fun a => decide (l.countP (Before key r · a) < k) := by
  rw [take_eq_filter (Before.irrefl hirrefl) (Before.asymm hasymm) (rank_pairwise_before h)]
  exact List.filter_congr fun a _ => by rw [(rank_perm key l).countP_eq]

end Stable
/-! ## Keeping the best -/

section Scan

variable (better : α → α → Prop) [DecidableRel better] {l : List α} {a : α}

def keepBest (best : Option α) (c : α) : Option α :=
  match best with
  | none => some c
  | some b => if better c b then some c else some b

def scanBest (l : List α) : Option α := l.foldl (keepBest better) none

variable {better}

/-- What the scan has kept is one of what it has seen, and none of these scores less. -/
theorem foldl_keepBest (score : α → β) (hle : ∀ a b, better a b → score a ≤ score b)
    (hlt : ∀ a b, score a < score b → better a b) (l : List α) :
    ∀ {best : Option α}, l.foldl (keepBest better) best = some a →
      (a ∈ l ∨ best = some a) ∧ (∀ b ∈ l, score a ≤ score b) ∧
        ∀ b, best = some b → score a ≤ score b := by
  induction l with
  | nil =>
    intro best h
    refine ⟨Or.inr h, by simp, ?_⟩
    rintro b rfl
    cases h
    exact le_refl _
  | cons c l ih =>
    intro best h
    obtain ⟨hfrom, hleast, hkept⟩ := ih h
    cases best with
    | none =>
      have hc := hkept c rfl
      refine ⟨Or.inl ?_, ?_, by simp⟩
      · rcases hfrom with hmem | heq
        · exact List.mem_cons_of_mem _ hmem
        · cases heq
          exact List.mem_cons_self
      · intro b hb
        rcases List.mem_cons.mp hb with rfl | hb
        · exact hc
        · exact hleast b hb
    | some d =>
      simp only [keepBest] at hfrom hkept
      split at hfrom
      -- `c` takes the place of `d`
      · next hbetter =>
        rw [if_pos hbetter] at hkept
        have hc := hkept c rfl
        refine ⟨Or.inl ?_, ?_, ?_⟩
        · rcases hfrom with hmem | heq
          · exact List.mem_cons_of_mem _ hmem
          · cases heq
            exact List.mem_cons_self
        · intro b hb
          rcases List.mem_cons.mp hb with rfl | hb
          · exact hc
          · exact hleast b hb
        · rintro b ⟨⟩
          exact le_trans hc (hle c d hbetter)
      -- `d` stays, so `c` does not score less
      · next hbetter =>
        rw [if_neg hbetter] at hkept
        have hd := hkept d rfl
        have hcd : score d ≤ score c := not_lt.mp fun h => hbetter (hlt c d h)
        refine ⟨hfrom.imp_left (List.mem_cons_of_mem _), ?_, ?_⟩
        · intro b hb
          rcases List.mem_cons.mp hb with rfl | hb
          · exact le_trans hd hcd
          · exact hleast b hb
        · rintro b ⟨⟩
          exact hd

/-- The scan finds a least one, whichever way it breaks ties. -/
theorem scanBest_spec (score : α → β) (hle : ∀ a b, better a b → score a ≤ score b)
    (hlt : ∀ a b, score a < score b → better a b) (h : scanBest better l = some a) :
    a ∈ l ∧ ∀ b ∈ l, score a ≤ score b := by
  obtain ⟨hfrom, hleast, -⟩ := foldl_keepBest score hle hlt l h
  exact ⟨hfrom.resolve_right (by simp), hleast⟩

theorem foldl_keepBest_some (l : List α) :
    ∀ {best : Option α}, best.isSome = true → (l.foldl (keepBest better) best).isSome = true := by
  induction l with
  | nil => exact id
  | cons c l ih =>
    intro best hbest
    apply ih
    cases best with
    | none => rfl
    | some b =>
      simp only [keepBest]
      split <;> rfl

theorem scanBest_eq_none : scanBest better l = none ↔ l = [] := by
  constructor
  · intro h
    cases l with
    | nil => rfl
    | cons c l =>
      have hsome : (scanBest better (c :: l)).isSome = true := foldl_keepBest_some l rfl
      rw [h] at hsome
      cases hsome
  · rintro rfl
    rfl

end Scan

end PyMotor.Ranking
