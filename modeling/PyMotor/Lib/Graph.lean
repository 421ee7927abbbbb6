import Mathlib.Data.Fintype.Order

/-!
# Acyclic relations

A directed graph is its edge relation. What is needed of cycles here: that deleting edges makes
none, that an edge `a → b` makes one only if `b` already reaches `a`, and that a finite graph
without cycles is well founded, so that a traversal of it ends.
-/

namespace PyMotor

variable {α : Type} {r r' : α → α → Prop}

/-- No vertex is its own descendant. -/
def Acyclic (r : α → α → Prop) : Prop := ∀ a, ¬ Relation.TransGen r a a

theorem Acyclic.mono (h : Acyclic r) (hsub : ∀ a b, r' a b → r a b) : Acyclic r' :=
  fun a hc => h a (Relation.TransGen.mono hsub _ _ hc)

/-- A chain over `r` and the one further edge `x → y` either stays in `r`, or it reaches `x` before
and leaves from `y` after the first resp. the last use of the edge. -/
theorem transGen_insert_edge {x y : α} (hr : ∀ a b, r' a b → r a b ∨ (a = x ∧ b = y)) {a b : α}
    (h : Relation.TransGen r' a b) :
    Relation.TransGen r a b ∨ (Relation.ReflTransGen r a x ∧ Relation.ReflTransGen r y b) := by
  induction h with
  | single hab =>
    rcases hr _ _ hab with h | ⟨rfl, rfl⟩
    · exact Or.inl (.single h)
    · exact Or.inr ⟨.refl, .refl⟩
  | tail _ hbc ih =>
    rcases hr _ _ hbc with hbc | ⟨rfl, rfl⟩
    · rcases ih with ih | ⟨hax, hyb⟩
      · exact Or.inl (ih.tail hbc)
      · exact Or.inr ⟨hax, hyb.tail hbc⟩
    · rcases ih with ih | ⟨hax, _⟩
      · exact Or.inr ⟨ih.to_reflTransGen, .refl⟩
      · exact Or.inr ⟨hax, .refl⟩

/-- **Inserting an edge** `x → y` keeps a graph acyclic unless `y` reached `x` before. -/
theorem Acyclic.insert_edge {x y : α} (h : Acyclic r)
    (hr : ∀ a b, r' a b → r a b ∨ (a = x ∧ b = y)) (hback : ¬ Relation.ReflTransGen r y x) :
    Acyclic r' := by
  intro a hc
  rcases transGen_insert_edge hr hc with hc | ⟨hax, hya⟩
  · exact h a hc
  · exact hback (hya.trans hax)

/-- A chain that starts outside `D` and whose vertices outside `D` take only `r`-edges, reaches `D`
by `r`-edges if it reaches `D` at all. -/
theorem reflTransGen_until {D : α → Prop} (hr : ∀ a b, ¬ D a → r' a b → r a b) {a b : α}
    (h : Relation.ReflTransGen r' a b) (hb : D b) : ∃ d, D d ∧ Relation.ReflTransGen r a d := by
  induction h using Relation.ReflTransGen.head_induction_on with
  | refl => exact ⟨b, hb, .refl⟩
  | @head a c hac _ ih =>
    by_cases ha : D a
    · exact ⟨a, ha, .refl⟩
    · obtain ⟨d, hd, hcd⟩ := ih
      exact ⟨d, hd, .head (hr a c ha hac) hcd⟩

/-- **A finite acyclic graph is well founded** downwards along its edges. -/
theorem Acyclic.wellFounded {r : Nat → Nat → Prop} {n : Nat} (h : Acyclic r)
    (hn : ∀ a b, r a b → a < n ∧ b < n) : WellFounded (fun b a => r a b) := by
  let R : Fin n → Fin n → Prop := fun b a => Relation.TransGen r a.val b.val
  have hirr : Std.Irrefl R := ⟨fun a hc => h a.val hc⟩
  have htr : IsTrans (Fin n) R := ⟨fun _ _ _ hab hbc => hbc.trans hab⟩
  have hwf : WellFounded R := Finite.wellFounded_of_trans_of_irrefl R
  have hacc : ∀ i : Fin n, Acc (fun b a => r a b) i.val := by
    intro i
    induction i using hwf.induction with
    | _ i ih =>
      refine Acc.intro _ fun b hb => ?_
      exact ih ⟨b, (hn _ _ hb).2⟩ (.single hb)
  refine ⟨fun a => Acc.intro a fun b hb => ?_⟩
  exact hacc ⟨b, (hn _ _ hb).2⟩

end PyMotor
