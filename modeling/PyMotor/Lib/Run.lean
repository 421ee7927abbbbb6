import Mathlib.Logic.Basic

/-!
# Runs of a transition system

A system is a function `exec : S → L → Option S`: the label says which party moves and resolves
every choice left open (who is scheduled, which message is lost, in what order a map is iterated),
`none` says that the move is not enabled. A `Run` collects the labels taken so far, newest last, so
an invariant may speak about the history as well as about the state.

The guard `G` restricts the moves: a run of `exec` under `G` takes every step from a state that
satisfies `G` for it. `Free` is the guard that forbids nothing.
-/

namespace PyMotor

universe u v

variable {S : Type u} {L : Type v}

/-- The runs of `exec` from `s₀` all of whose steps meet the guard `G`. -/
inductive Run (exec : S → L → Option S) (G : S → L → Prop) (s₀ : S) : List L → S → Prop where
  | nil : Run exec G s₀ [] s₀
  | snoc {ls s l s'} : Run exec G s₀ ls s → G s l → exec s l = some s' →
      Run exec G s₀ (ls ++ [l]) s'

/-- No restriction on the steps. -/
def Free (_ : S) (_ : L) : Prop := True

instance (s : S) (l : L) : Decidable (Free s l) := inferInstanceAs (Decidable True)

namespace Run

variable {exec : S → L → Option S} {G : S → L → Prop} {s₀ s : S} {ls : List L}

/-- **The invariant rule**: what holds initially and is kept by every guarded step, holds at the
end of every guarded run. The invariant may mention the labels taken so far. -/
theorem invariant {I : List L → S → Prop} (h : Run exec G s₀ ls s) (init : I [] s₀)
    (step : ∀ {ls s l s'}, I ls s → G s l → exec s l = some s' → I (ls ++ [l]) s') : I ls s := by
  induction h with
  | nil => exact init
  | snoc _ hG he ih => exact step ih hG he

/-- The rule for an invariant of the state alone. -/
theorem invariant_state {I : S → Prop} (h : Run exec G s₀ ls s) (init : I s₀)
    (step : ∀ {s l s'}, I s → G s l → exec s l = some s' → I s') : I s :=
  h.invariant (I := fun _ s => I s) init (fun hi hG he => step hi hG he)

theorem of_snoc {l : L} {s' : S} (h : Run exec G s₀ (ls ++ [l]) s') :
    ∃ s, Run exec G s₀ ls s ∧ G s l ∧ exec s l = some s' := by
  generalize hls : ls ++ [l] = ls' at h
  cases h with
  | nil => exact absurd hls (List.append_ne_nil_of_right_ne_nil _ (List.cons_ne_nil _ _))
  | snoc h hG he =>
    obtain ⟨rfl, hl⟩ := List.append_inj' hls rfl
    cases hl
    exact ⟨_, h, hG, he⟩

theorem trans {ls' : List L} {s' : S} (h : Run exec G s₀ ls s) (h' : Run exec G s ls' s') :
    Run exec G s₀ (ls ++ ls') s' := by
  induction h' with
  | nil => simpa using h
  | snoc _ hG he ih =>
    rw [← List.append_assoc]
    exact ih.snoc hG he

end Run

/-! ## Runs computed -/

section Compute

variable (exec : S → L → Option S) (G : S → L → Prop) [∀ s l, Decidable (G s l)]

/-- Take the labels one after the other; `none` as soon as a step breaks the guard or is not
enabled. -/
def runList : S → List L → Option S
  | s, [] => some s
  | s, l :: ls => if G s l then (exec s l).bind (fun s' => runList s' ls) else none

variable {exec G}

theorem runList_run_from {s₀ : S} {pre : List L} {s s' : S} {ls : List L}
    (hpre : Run exec G s₀ pre s) (h : runList exec G s ls = some s') :
    Run exec G s₀ (pre ++ ls) s' := by
  induction ls generalizing pre s with
  | nil =>
    cases h
    simpa using hpre
  | cons l ls ih =>
    simp only [runList] at h
    split at h
    · next hG =>
      obtain ⟨s₁, hs₁, h⟩ := Option.bind_eq_some_iff.mp h
      have := ih (hpre.snoc hG hs₁) h
      simpa using this
    · cases h

theorem runList_append (s : S) (ls ls' : List L) :
    runList exec G s (ls ++ ls') = (runList exec G s ls).bind (fun s' => runList exec G s' ls') := by
  induction ls generalizing s with
  | nil => rfl
  | cons l ls ih =>
    simp only [List.cons_append, runList]
    split
    · rw [Option.bind_assoc]
      exact congrArg _ (funext ih)
    · rfl

theorem runList_run {s₀ s : S} {ls : List L} (h : runList exec G s₀ ls = some s) :
    Run exec G s₀ ls s := by
  simpa using runList_run_from Run.nil h

theorem runList_runs {A B : Type} {f : S → A} {g : S → B} {s₀ : S} {ls ls' : List L} {a : A} {b : B}
    (h : (runList exec G s₀ ls).map f = some a) (h' : (runList exec G s₀ (ls ++ ls')).map g = some b) :
    ∃ s s', Run exec G s₀ ls s ∧ Run exec G s ls' s' ∧ f s = a ∧ g s' = b := by
  obtain ⟨s, hs, hf⟩ := Option.map_eq_some_iff.mp h
  rw [runList_append, hs, Option.bind_some] at h'
  obtain ⟨s', hs', hg⟩ := Option.map_eq_some_iff.mp h'
  exact ⟨s, s', runList_run hs, runList_run hs', hf, hg⟩

end Compute

/-! ## Steps that do not meet -/

section Local

variable {A : Type*} {step : S → L → Option S} {I : S → Prop} (read : L → S → A)
  (own : L → A → A → Prop)

/-- What every step of a list keeps, all of them keep. -/
theorem foldlM_invariant {ls : List L}
    (hkeep : ∀ l ∈ ls, ∀ {s s'}, I s → step s l = some s' → I s') :
    ∀ {s s'}, I s → ls.foldlM step s = some s' → I s' := by
  induction ls with
  | nil =>
    intro s s' hI h
    cases h
    exact hI
  | cons l ls ih =>
    intro s s' hI h
    rw [List.foldlM_cons] at h
    obtain ⟨s₁, hs₁, h⟩ := Option.bind_eq_some_iff.mp h
    exact ih (fun l hl => hkeep l (List.mem_cons_of_mem _ hl)) (hkeep l List.mem_cons_self hI hs₁) h

theorem foldlM_frame {ls : List L} {a : L} (hkeep : ∀ l ∈ ls, ∀ {s s'}, I s → step s l = some s' → I s')
    (hframe : ∀ l ∈ ls, ∀ {s s'}, I s → step s l = some s' → read a s' = read a s) {s s' : S}
    (hI : I s) (h : ls.foldlM step s = some s') : read a s' = read a s := by
  refine (foldlM_invariant (I := fun t => I t ∧ read a t = read a s) ?_ ⟨hI, rfl⟩ h).2
  intro l hl t t' ht he
  exact ⟨hkeep l hl ht.1 he, (hframe l hl ht.1 he).trans ht.2⟩

/-- **Steps each of which works on a part of its own**: after all of them every part is as its own step
has left it. -/
theorem foldlM_local {ls : List L} (hnodup : ls.Nodup)
    (hkeep : ∀ l ∈ ls, ∀ {s s'}, I s → step s l = some s' → I s')
    (hown : ∀ l ∈ ls, ∀ {s s'}, I s → step s l = some s' → own l (read l s) (read l s'))
    (hother : ∀ l ∈ ls, ∀ a ∈ ls, a ≠ l → ∀ {s s'}, I s → step s l = some s' → read a s' = read a s) :
    ∀ {s s'}, I s → ls.foldlM step s = some s' → ∀ l ∈ ls, own l (read l s) (read l s') := by
  induction ls with
  | nil =>
    intro _ _ _ _ l hl
    cases hl
  | cons l₀ ls ih =>
    intro s s' hI h l hl
    rw [List.foldlM_cons] at h
    obtain ⟨s₁, hs₁, hrest⟩ := Option.bind_eq_some_iff.mp h
    obtain ⟨hnew, hnodup⟩ := List.nodup_cons.mp hnodup
    have hI₁ := hkeep l₀ List.mem_cons_self hI hs₁
    rcases List.mem_cons.mp hl with rfl | hl'
    · -- the later steps leave its part alone
      rw [foldlM_frame read (fun l' hl' => hkeep l' (List.mem_cons_of_mem _ hl'))
        (fun l' hl' => hother l' (List.mem_cons_of_mem _ hl') l List.mem_cons_self
          fun heq => hnew (heq ▸ hl')) hI₁ hrest]
      exact hown l List.mem_cons_self hI hs₁
    · have hne : l ≠ l₀ := fun heq => hnew (heq ▸ hl')
      rw [← hother l₀ List.mem_cons_self l hl hne hI hs₁]
      exact ih hnodup (fun a ha => hkeep a (List.mem_cons_of_mem _ ha))
        (fun a ha => hown a (List.mem_cons_of_mem _ ha))
        (fun a ha b hb => hother a (List.mem_cons_of_mem _ ha) b (List.mem_cons_of_mem _ hb))
        hI₁ hrest l hl'

end Local

end PyMotor
