import Mathlib.Logic.Basic

/-!
# Sequence locks

A writer publishes its content under a sequence number: odd while it is at work, even when it is
done. It never takes a number back, and it touches the content in place only under an odd number. A
reader that sees the same even number before and after has then seen one content throughout, however
many steps the reading took (`Since`).
-/

namespace PyMotor.Seqlock

variable {C : Type}

/-- What is published: the number and the content. -/
structure View (C : Type) where
  seq : Nat
  content : C

/-- What a writer may do: publish a larger number, with any content, or change the content under an
odd one. -/
inductive Moves : View C → View C → Prop where
  | stay (v : View C) : Moves v v
  | publish {v v' : View C} : v.seq < v'.seq → Moves v v'
  | inPlace {v v' : View C} : v.seq % 2 = 1 → v'.seq = v.seq → Moves v v'

/-- `seen` was published, and `now` is what has become of it: the number has not decreased, and if it
is the same even number, so is the content. -/
structure Since (seen now : View C) : Prop where
  le : seen.seq ≤ now.seq
  same : seen.seq % 2 = 0 → seen.seq = now.seq → seen.content = now.content

namespace Since

variable {seen now now' : View C}

theorem refl (v : View C) : Since v v := ⟨Nat.le_refl _, fun _ _ => rfl⟩

/-- **Whatever the writer does, an old view stays an old view.** -/
theorem move (h : Since seen now) (hm : Moves now now') : Since seen now' := by
  cases hm with
  | stay => exact h
  | publish hlt =>
    refine ⟨by have := h.le; omega, fun _ heq => ?_⟩
    have := h.le
    omega
  | inPlace hodd heq =>
    refine ⟨by have := h.le; omega, fun heven hsame => ?_⟩
    omega

end Since

end PyMotor.Seqlock
