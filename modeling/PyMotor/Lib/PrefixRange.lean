import Mathlib.Data.List.Lex
import Mathlib.Order.Cover

/-!
# Ranges of words

In lexicographic order the words that begin with a word lie side by side: they are those from the word itself up
to the one whose last letter is replaced by the next (`mem_range_iff_isPrefix`). A store whose keys are in order
finds and deletes all keys with a common beginning in this way.

Of two words that begin a third, one begins the other. When both consist of parts that are closed by a
separator, the parts are the same (`append_cons_isPrefix_iff`).
-/

namespace PyMotor

variable {A : Type*} [LinearOrder A] {a b : A}

/-- **The words that begin with `p ++ [a]`** are those in the range up to `p ++ [b]`, where `b` follows `a`. -/
theorem mem_range_iff_isPrefix (hab : a ⋖ b) (p k : List A) :
    ¬k < p ++ [a] ∧ k < p ++ [b] ↔ p ++ [a] <+: k := by
  induction p generalizing k with
  | nil =>
    cases k with
    | nil => simp
    | cons x k =>
      simp only [List.nil_append, List.cons_lt_cons_iff, List.not_lt_nil, and_false, or_false, not_lt,
        List.cons_prefix_cons, List.nil_prefix, and_true]
      constructor
      · rintro ⟨hlow, hhigh⟩
        exact hlow.eq_or_lt.resolve_right fun hlt => hab.2 hlt hhigh
      · rintro rfl
        exact ⟨le_refl _, hab.1⟩
  | cons y p ih =>
    cases k with
    | nil => simp
    | cons x k =>
      simp only [List.cons_append, List.cons_lt_cons_iff, List.cons_prefix_cons, ← ih k]
      constructor
      · rintro ⟨hlow, hlt | ⟨rfl, hhigh⟩⟩
        · exact absurd (Or.inl hlt) hlow
        · exact ⟨rfl, fun hlt => hlow (Or.inr ⟨rfl, hlt⟩), hhigh⟩
      · rintro ⟨rfl, hlow, hhigh⟩
        refine ⟨?_, Or.inr ⟨rfl, hhigh⟩⟩
        rintro (hlt | ⟨-, hlt⟩)
        · exact lt_irrefl _ hlt
        · exact hlow hlt

theorem append_cons_isPrefix_iff {A : Type*} {sep : A} {p q x y : List A} (hp : sep ∉ p) (hq : sep ∉ q) :
    p ++ sep :: x <+: q ++ sep :: y ↔ p = q ∧ x <+: y := by
  induction p generalizing q with
  | nil =>
    cases q with
    | nil => simp
    | cons b q =>
      have hb : sep ≠ b := fun h => hq (h ▸ List.mem_cons_self)
      simp [hb]
  | cons a p ih =>
    cases q with
    | nil =>
      have ha : a ≠ sep := fun h => hp (h ▸ List.mem_cons_self)
      simp [ha]
    | cons b q =>
      simp only [List.cons_append, List.cons_prefix_cons, List.cons.injEq,
        ih (fun h => hp (List.mem_cons_of_mem _ h)) (fun h => hq (List.mem_cons_of_mem _ h)), and_assoc]

end PyMotor
