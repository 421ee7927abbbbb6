import PyMotor.Lib.Run

/-!
# At every moment of a run

A property may have to hold after every step of a run, and not just at its end. When in each state that a run
has reached the next step keeps the property exactly if the step is one of the good ones, then the property
holds at every moment of a run exactly if all steps of the run are good (`Run.always_iff`).
-/

namespace PyMotor

universe u v

variable {S : Type u} {L : Type v}

/-- After every step of the run that takes `ls`, the property holds. -/
def Always (exec : S → L → Option S) (s₀ : S) (P : List L → S → Prop) (ls : List L) : Prop :=
  ∀ pre s, pre <+: ls → Run exec Free s₀ pre s → P pre s

/-- All steps of the run that takes `ls` are good. -/
def EachStep (exec : S → L → Option S) (s₀ : S) (Ok : List L → S → L → Prop) (ls : List L) : Prop :=
  ∀ pre l s, pre ++ [l] <+: ls → Run exec Free s₀ pre s → Ok pre s l

namespace Run

variable {exec : S → L → Option S} {s₀ s s' : S} {ls : List L} {P : List L → S → Prop}
  {Ok : List L → S → L → Prop}

theorem free {G : S → L → Prop} (h : Run exec G s₀ ls s) : Run exec Free s₀ ls s := by
  induction h with
  | nil => exact .nil
  | snoc _ _ hexec ih => exact ih.snoc trivial hexec

theorem guarded {G : S → L → Prop} (h : Run exec Free s₀ ls s) (hG : ∀ l ∈ ls, ∀ s, G s l) :
    Run exec G s₀ ls s := by
  induction h with
  | nil => exact .nil
  | snoc _ _ hexec ih =>
    refine (ih fun l hl => hG l (List.mem_append_left _ hl)).snoc (hG _ ?_ _) hexec
    exact List.mem_append_right _ (List.mem_singleton_self _)

theorem eq_of_nil {G : S → L → Prop} (h : Run exec G s₀ [] s) : s = s₀ := by
  generalize hls : [] = ls at h
  cases h with
  | nil => rfl
  | snoc _ _ _ => exact absurd hls.symm (List.append_ne_nil_of_right_ne_nil _ (List.cons_ne_nil _ _))

theorem unique {G : S → L → Prop} (h : Run exec G s₀ ls s) (h' : Run exec G s₀ ls s') : s' = s := by
  induction h generalizing s' with
  | nil => exact h'.eq_of_nil
  | snoc _ _ hexec ih =>
    obtain ⟨t, ht, -, hexec'⟩ := h'.of_snoc
    cases ih ht
    rw [hexec] at hexec'
    exact (Option.some.inj hexec').symm

theorem always_nil : Always exec s₀ P [] ↔ P [] s₀ := by
  constructor
  · intro h
    exact h [] s₀ (List.prefix_refl _) .nil
  · intro h pre s hpre hrun
    cases List.prefix_nil.mp hpre
    rw [hrun.eq_of_nil]
    exact h

theorem always_snoc {l : L} (hrun : Run exec Free s₀ (ls ++ [l]) s') :
    Always exec s₀ P (ls ++ [l]) ↔ Always exec s₀ P ls ∧ P (ls ++ [l]) s' := by
  constructor
  · intro h
    exact ⟨fun pre s hpre => h pre s (hpre.trans (List.prefix_append _ _)),
      h _ _ (List.prefix_refl _) hrun⟩
  · rintro ⟨hbefore, hlast⟩ pre s hpre hs
    rcases List.prefix_concat_iff.mp hpre with rfl | hpre
    · rw [hrun.unique hs]
      exact hlast
    · exact hbefore pre s hpre hs

theorem eachStep_nil : EachStep exec s₀ Ok [] := by
  intro pre l s hpre _
  exact absurd (List.prefix_nil.mp hpre)
    (List.append_ne_nil_of_right_ne_nil _ (List.cons_ne_nil _ _))

theorem eachStep_snoc {l : L} (hrun : Run exec Free s₀ ls s) :
    EachStep exec s₀ Ok (ls ++ [l]) ↔ EachStep exec s₀ Ok ls ∧ Ok ls s l := by
  constructor
  · intro h
    exact ⟨fun pre l' s hpre => h pre l' s (hpre.trans (List.prefix_append _ _)),
      h ls l s (List.prefix_refl _) hrun⟩
  · rintro ⟨hbefore, hlast⟩ pre l' s' hpre hs
    rcases List.prefix_concat_iff.mp hpre with heq | hpre
    · obtain ⟨rfl, hl⟩ := List.append_inj' heq rfl
      cases hl
      rw [hrun.unique hs]
      exact hlast
    · exact hbefore pre l' s' hpre hs

theorem eachStep_congr {Ok' : List L → S → L → Prop} (hrun : Run exec Free s₀ ls s)
    (hstep : ∀ {ls s l s'}, Run exec Free s₀ ls s → exec s l = some s' → (Ok ls s l ↔ Ok' ls s l)) :
    EachStep exec s₀ Ok ls ↔ EachStep exec s₀ Ok' ls := by
  induction hrun with
  | nil => exact iff_of_true eachStep_nil eachStep_nil
  | snoc hbefore _ hexec ih =>
    rw [eachStep_snoc hbefore, eachStep_snoc hbefore, ih, hstep hbefore hexec]

/-- A condition that every step meets wherever a run passes. -/
theorem eachStep_of_step (hrun : Run exec Free s₀ ls s)
    (hstep : ∀ {ls s l s'}, Run exec Free s₀ ls s → exec s l = some s' → Ok ls s l) :
    EachStep exec s₀ Ok ls := by
  induction hrun with
  | nil => exact eachStep_nil
  | snoc hbefore _ hexec ih => exact (eachStep_snoc hbefore).mpr ⟨ih, hstep hbefore hexec⟩

theorem eachStep {G : S → L → Prop} (hrun : Run exec G s₀ ls s) :
    EachStep exec s₀ (fun _ s l => G s l) ls := by
  induction hrun with
  | nil => exact eachStep_nil
  | snoc hbefore hG hexec ih => exact (eachStep_snoc hbefore.free).mpr ⟨ih, hG⟩

/-- What good steps keep holds at every moment of a run whose steps are good. -/
theorem always_of_eachStep {G : S → L → Prop} (hrun : Run exec G s₀ ls s) (hok : EachStep exec s₀ Ok ls)
    (hinit : P [] s₀)
    (hstep : ∀ {ls s l s'}, Run exec G s₀ ls s → G s l → P ls s → Ok ls s l → exec s l = some s' →
      P (ls ++ [l]) s') :
    Always exec s₀ P ls := by
  induction hrun with
  | nil => exact always_nil.mpr hinit
  | snoc hbefore hG hexec ih =>
    obtain ⟨hok, hlast⟩ := (eachStep_snoc hbefore.free).mp hok
    have halways := ih hok
    refine (always_snoc (hbefore.free.snoc trivial hexec)).mpr ⟨halways, ?_⟩
    exact hstep hbefore hG (halways _ _ (List.prefix_refl _) hbefore.free) hlast hexec

/-- A property that only good steps keep makes all steps good. -/
theorem eachStep_of_always {G : S → L → Prop} (hrun : Run exec G s₀ ls s) (halways : Always exec s₀ P ls)
    (hstep : ∀ {ls s l s'}, Run exec G s₀ ls s → G s l → P ls s → exec s l = some s' → P (ls ++ [l]) s' →
      Ok ls s l) :
    EachStep exec s₀ Ok ls := by
  induction hrun with
  | nil => exact eachStep_nil
  | snoc hbefore hG hexec ih =>
    obtain ⟨halways, hlast⟩ := (always_snoc (hbefore.free.snoc trivial hexec)).mp halways
    refine (eachStep_snoc hbefore.free).mpr ⟨ih halways, ?_⟩
    exact hstep hbefore hG (halways _ _ (List.prefix_refl _) hbefore.free) hexec hlast

/-- **The rule for a property of every moment**: it holds throughout a run exactly if every step is good,
when from each state that the run reaches with the property the good steps are those that keep it. -/
theorem always_iff (hrun : Run exec Free s₀ ls s) (hinit : P [] s₀)
    (hstep : ∀ {ls s l s'}, Run exec Free s₀ ls s → P ls s → exec s l = some s' →
      (P (ls ++ [l]) s' ↔ Ok ls s l)) :
    Always exec s₀ P ls ↔ EachStep exec s₀ Ok ls := by
  constructor
  · intro halways
    exact hrun.eachStep_of_always halways fun hr _ hP he hP' => (hstep hr hP he).mp hP'
  · intro hok
    exact hrun.always_of_eachStep hok hinit fun hr _ hP hl he => (hstep hr hP he).mpr hl

end Run

theorem runList_exists {exec : S → L → Option S} {G : S → L → Prop} [∀ s l, Decidable (G s l)]
    {A : Type} {f : S → A} {s₀ : S} {ls : List L} {a : A}
    (h : (runList exec G s₀ ls).map f = some a) : ∃ s, Run exec G s₀ ls s ∧ f s = a := by
  obtain ⟨s, hs, hf⟩ := Option.map_eq_some_iff.mp h
  exact ⟨s, runList_run hs, hf⟩

end PyMotor
