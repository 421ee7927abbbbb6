import Mathlib.Data.Set.Lattice
import Mathlib.Order.Interval.Set.LinearOrder

/-!
# Spans between marks

A list of marks in ascending order cuts a line into spans: span `i` runs from mark `i` up to mark
`i + 1`, which is not part of it. Consecutive spans make up the interval between their outer marks
(`iUnion_span`).
-/

namespace PyMotor

variable {α : Type*} [LinearOrder α] {marks : List α} {i m n : ℕ} {a b : α}

/-- From mark `i` up to the next one; nothing if there are not as many marks. -/
def span (marks : List α) (i : ℕ) : Set α :=
  {x | ∃ a b, marks[i]? = some a ∧ marks[i + 1]? = some b ∧ a ≤ x ∧ x < b}

theorem span_eq (ha : marks[i]? = some a) (hb : marks[i + 1]? = some b) :
    span marks i = Set.Ico a b := by
  ext x
  constructor
  · rintro ⟨a', b', ha', hb', hx⟩
    rw [ha] at ha'
    rw [hb] at hb'
    cases ha'
    cases hb'
    exact hx
  · exact fun hx => ⟨a, b, ha, hb, hx⟩

theorem getElem?_le_of_le (h : marks.Pairwise (· ≤ ·)) (ha : marks[m]? = some a)
    (hb : marks[n]? = some b) (hmn : m ≤ n) : a ≤ b := by
  obtain ⟨hm, rfl⟩ := List.getElem?_eq_some_iff.mp ha
  obtain ⟨hn, rfl⟩ := List.getElem?_eq_some_iff.mp hb
  rcases Nat.lt_or_eq_of_le hmn with hlt | rfl
  · exact List.pairwise_iff_getElem.mp h m n hm hn hlt
  · exact le_refl _

/-- Consecutive spans are the interval from the first mark to the last one. -/
theorem iUnion_span (h : marks.Pairwise (· ≤ ·)) (hmn : m ≤ n) (ha : marks[m]? = some a)
    (hb : marks[n]? = some b) : ⋃ i ∈ Set.Ico m n, span marks i = Set.Ico a b := by
  induction n, hmn using Nat.le_induction generalizing b with
  | base =>
    rw [ha] at hb
    cases hb
    simp
  | succ n hmn ih =>
    -- the mark in between
    have hn : n < marks.length := by
      have := (List.getElem?_eq_some_iff.mp hb).1
      omega
    have hc : marks[n]? = some marks[n] := List.getElem?_eq_getElem hn
    have hac := getElem?_le_of_le h ha hc hmn
    have hcb := getElem?_le_of_le h hc hb (Nat.le_succ n)
    rw [← Set.Ico_union_Ico_eq_Ico hac hcb, ← ih hc, ← span_eq hc hb]
    ext x
    simp only [Set.mem_iUnion, Set.mem_Ico, Set.mem_union, exists_prop]
    constructor
    · rintro ⟨i, ⟨hmi, hi⟩, hx⟩
      rcases Nat.lt_succ_iff_lt_or_eq.mp hi with hlt | rfl
      · exact Or.inl ⟨i, ⟨hmi, hlt⟩, hx⟩
      · exact Or.inr hx
    · rintro (⟨i, ⟨hmi, hi⟩, hx⟩ | hx)
      · exact ⟨i, ⟨hmi, Nat.lt_succ_of_lt hi⟩, hx⟩
      · exact ⟨n, ⟨hmn, Nat.lt_succ_self n⟩, hx⟩

end PyMotor
