import Mathlib.Data.List.Basic

/-!
# Patterns in text

A pattern is read from a position of a text and says how many characters it takes there. The character
before the position is known to it, for the boundaries of words. `sub` replaces every match of a pattern
from left to right, and does not look for matches in what was matched already.
-/

namespace PyMotor

/-- Two texts with a separator are split alike at the first one. -/
theorem append_cons_inj {c : Char} {p q s t : List Char} (hp : c ∉ p) (hq : c ∉ q)
    (h : p ++ c :: s = q ++ c :: t) : p = q ∧ s = t := by
  induction p generalizing q with
  | nil =>
    cases q with
    | nil => exact ⟨rfl, (List.cons.inj h).2⟩
    | cons d q => exact absurd (List.cons.inj h).1 (List.ne_of_not_mem_cons hq)
  | cons d p ih =>
    cases q with
    | nil => exact absurd (List.cons.inj h).1.symm (List.ne_of_not_mem_cons hp)
    | cons e q =>
      obtain ⟨rfl, htail⟩ := List.cons.inj h
      obtain ⟨rfl, hs⟩ :=
        ih (List.not_mem_of_not_mem_cons hp) (List.not_mem_of_not_mem_cons hq) htail
      exact ⟨rfl, hs⟩

/-- Two texts with a separator are split alike at the last one. -/
theorem append_cons_inj_last {c : Char} {p q s t : List Char} (hs : c ∉ s) (ht : c ∉ t)
    (h : p ++ c :: s = q ++ c :: t) : p = q ∧ s = t := by
  have hreverse : s.reverse ++ c :: p.reverse = t.reverse ++ c :: q.reverse := by
    simpa using congrArg List.reverse h
  obtain ⟨hst, hpq⟩ := append_cons_inj (by simpa using hs) (by simpa using ht) hreverse
  exact ⟨List.reverse_injective hpq, List.reverse_injective hst⟩

/-- An end of a text that has no separator is behind the separators. -/
theorem suffix_of_append_cons {c : Char} {t p s : List Char} (ht : c ∉ t) (h : t <:+ p ++ c :: s) :
    t <:+ s := by
  induction p with
  | nil =>
    rcases List.suffix_cons_iff.mp h with rfl | h
    · exact absurd List.mem_cons_self ht
    · exact h
  | cons d p ih =>
    rcases List.suffix_cons_iff.mp h with rfl | h
    · exact absurd (by simp) ht
    · exact ih h

/-- A text that is found up to a separator ends at one. -/
theorem suffix_of_infix {c : Char} {t p s : List Char} (hp : c ∉ p) (hs : c ∉ s)
    (h : t ++ [c] <:+: p ++ c :: s) : t <:+ p := by
  obtain ⟨a, b, h⟩ := h
  rw [List.append_assoc, List.append_assoc, List.singleton_append, ← List.append_assoc] at h
  -- the separator stands once in the text
  have hcount : (a ++ t ++ c :: b).count c = 1 := by
    rw [h, List.count_append, List.count_cons_self, List.count_eq_zero_of_not_mem hp,
      List.count_eq_zero_of_not_mem hs]
  have hat : c ∉ a ++ t := by
    intro hmem
    rw [List.count_append, List.count_cons_self] at hcount
    have := List.count_pos_iff.mpr hmem
    omega
  exact ⟨a, (append_cons_inj hat hp h).1⟩

theorem prefix_of_append_cons {c : Char} {t p s : List Char} (ht : c ∉ t) (h : t <+: p ++ c :: s) :
    t <+: p := by
  induction p generalizing t with
  | nil =>
    cases t with
    | nil => exact List.prefix_refl _
    | cons d t =>
      obtain ⟨rfl, -⟩ := List.cons_prefix_cons.mp h
      exact absurd List.mem_cons_self ht
  | cons e p ih =>
    cases t with
    | nil => exact List.nil_prefix
    | cons d t =>
      rw [List.cons_append, List.cons_prefix_cons] at h
      obtain ⟨rfl, h⟩ := h
      exact List.cons_prefix_cons.mpr ⟨rfl, ih (List.not_mem_of_not_mem_cons ht) h⟩

theorem infix_of_append_cons {c : Char} {t p s : List Char} (ht : c ∉ t) (h : t <:+: p ++ c :: s) :
    t <:+: p ∨ t <:+: s := by
  induction p with
  | nil =>
    rcases List.infix_cons_iff.mp h with hpre | hin
    · exact Or.inl (prefix_of_append_cons ht (p := []) hpre).isInfix
    · exact Or.inr hin
  | cons d p ih =>
    rcases List.infix_cons_iff.mp h with hpre | hin
    · exact Or.inl (prefix_of_append_cons ht (p := d :: p) hpre).isInfix
    · exact (ih hin).imp_left fun hin => hin.trans (List.suffix_cons d p).isInfix

/-- A character that the text does not end with is not part of where it is found. -/
theorem infix_of_concat {c d : Char} {t p : List Char} (hne : c ≠ d) (h : t ++ [c] <:+: p ++ [d]) :
    t ++ [c] <:+: p := by
  rcases List.infix_concat_iff.mp h with hs | hin
  · obtain ⟨a, ha⟩ := hs
    rw [← List.append_assoc] at ha
    exact absurd (List.cons.inj (List.append_inj' ha rfl).2).1 hne
  · exact hin

/-- How many characters are taken, if the pattern matches. -/
abbrev Pattern := Option Char → List Char → Option ℕ

namespace Pattern

/-- `skip` characters of the last match are passed over first. -/
def subFrom (m : Pattern) (repl : List Char) : Option Char → ℕ → List Char → List Char
  | _, _, [] => []
  | _, skip + 1, c :: s => subFrom m repl (some c) skip s
  | prev, 0, c :: s =>
    match m prev (c :: s) with
    -- a pattern that takes nothing is no match here
    | none | some 0 => c :: subFrom m repl (some c) 0 s
    | some (k + 1) => repl ++ subFrom m repl (some c) k s

/-- `re.sub(m, repl, s)` -/
def sub (m : Pattern) (repl s : List Char) : List Char := subFrom m repl none 0 s

/-- The character before what follows `p`. -/
def after (prev : Option Char) (p : List Char) : Option Char := p.getLast?.or prev

@[simp] theorem after_nil (prev : Option Char) : after prev [] = prev := rfl

theorem after_cons (prev : Option Char) (c : Char) (p : List Char) :
    after prev (c :: p) = after (some c) p := by
  unfold after
  rw [List.getLast?_cons]
  cases p.getLast? <;> rfl

@[simp] theorem after_concat (prev : Option Char) (p : List Char) (c : Char) :
    after prev (p ++ [c]) = some c := by
  rw [after, List.getLast?_concat, Option.some_or]

variable {m : Pattern} {repl : List Char}

theorem subFrom_skip (prev : Option Char) (p s : List Char) :
    subFrom m repl prev p.length (p ++ s) = subFrom m repl (after prev p) 0 s := by
  induction p generalizing prev with
  | nil => rfl
  | cons c p ih => rw [List.length_cons, List.cons_append, subFrom, ih, after_cons]

theorem subFrom_match {prev : Option Char} {q s : List Char} (hq : q ≠ [])
    (hm : m prev (q ++ s) = some q.length) :
    subFrom m repl prev 0 (q ++ s) = repl ++ subFrom m repl (after prev q) 0 s := by
  cases q with
  | nil => exact absurd rfl hq
  | cons c q =>
    rw [List.length_cons] at hm
    rw [List.cons_append] at hm ⊢
    rw [subFrom, hm, after_cons]
    exact congrArg (repl ++ ·) (subFrom_skip (some c) q s)

/-- What no match begins in stays. -/
theorem subFrom_append {prev : Option Char} {p s : List Char}
    (hm : ∀ a c b, p = a ++ c :: b → m (after prev a) (c :: b ++ s) = none) :
    subFrom m repl prev 0 (p ++ s) = p ++ subFrom m repl (after prev p) 0 s := by
  induction p generalizing prev with
  | nil => rfl
  | cons c p ih =>
    have hhead : m prev (c :: (p ++ s)) = none := hm [] c p rfl
    have htail : ∀ a c' b, p = a ++ c' :: b → m (after (some c) a) (c' :: b ++ s) = none := by
      intro a c' b hp
      rw [← after_cons prev]
      exact hm (c :: a) c' b (congrArg (c :: ·) hp)
    rw [List.cons_append, subFrom, hhead, ih htail, after_cons]
    rfl

theorem sub_eq_self {s : List Char} (hm : ∀ a c b, s = a ++ c :: b → m (after none a) (c :: b) = none) :
    sub m repl s = s := by
  have hnone : ∀ a c b, s = a ++ c :: b → m (after none a) (c :: b ++ []) = none := by
    intro a c b hs
    rw [List.append_nil]
    exact hm a c b hs
  have h : subFrom m repl none 0 (s ++ []) = s ++ subFrom m repl (after none s) 0 [] :=
    subFrom_append hnone
  rw [List.append_nil] at h
  rw [sub, h]
  exact List.append_nil s

end Pattern

end PyMotor
