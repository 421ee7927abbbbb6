import Mathlib.Data.List.Infix

/-!
# Frames of a stream

A stream is cut into frames where a property of the bytes read so far first holds: a delimiter is
complete, a record has its length. A reader that gets the stream in chunks cuts what it can, keeps the
rest and waits for more. `feed_eq` says that the chunks do not matter, `framed_iff` what the frames are.

What makes this work is in the structure `Cutter`: whether a frame is cut is decided by the frame alone,
not by what follows it.
-/

namespace PyMotor.Framing

variable {α : Type} {P : List α → Prop}

/-- `P` holds of the list, and did not hold before its end. -/
structure First (P : List α → Prop) (f : List α) : Prop where
  holds : P f
  before : ∀ p, p <+: f → p ≠ f → ¬ P p

theorem First.eq {f g r r' : List α} (hf : First P f) (hg : First P g) (h : f ++ r = g ++ r') :
    f = g ∧ r = r' := by
  have hfg : f = g := by
    rcases List.prefix_or_prefix_of_prefix (List.prefix_append f r) (h ▸ List.prefix_append g r') with
      hle | hle
    · by_contra hne
      exact hg.before f hle hne hf.holds
    · by_contra hne
      exact hf.before g hle (Ne.symm hne) hg.holds
  subst hfg
  exact ⟨rfl, List.append_cancel_left h⟩

theorem first_take_iff {s : List α} {n : ℕ} (hn : n ≤ s.length) :
    First P (s.take n) ↔ P (s.take n) ∧ ∀ m < n, ¬ P (s.take m) := by
  constructor
  · rintro ⟨hholds, hbefore⟩
    refine ⟨hholds, fun m hm => hbefore _ (List.take_prefix_take_left hm.le) fun heq => ?_⟩
    have hlength := congrArg List.length heq
    rw [List.length_take, List.length_take] at hlength
    omega
  · rintro ⟨hholds, hbefore⟩
    refine ⟨hholds, fun p hp hne => ?_⟩
    have hle := hp.length_le
    rw [List.length_take, Nat.min_eq_left hn] at hle
    have heq : p = s.take p.length := List.prefix_iff_eq_take.mp (hp.trans (List.take_prefix n s))
    rw [heq]
    refine hbefore _ (lt_of_le_of_ne hle fun h => hne ?_)
    rw [heq, h]

/-- The frames of a stream: only the last may be unfinished, and none goes on after it is finished. -/
structure Framed (P : List α → Prop) (frames : List (List α)) (stream : List α) : Prop where
  flatten : frames.flatten = stream
  ne_nil : ∀ f ∈ frames, f ≠ []
  finished : ∀ f ∈ frames.dropLast, P f
  before : ∀ f ∈ frames, ∀ p, p <+: f → p ≠ f → ¬ P p

namespace Framed

variable {f g s : List α} {fs gs : List (List α)}

theorem first (h : Framed P (f :: fs) s) (hne : fs ≠ []) : First P f where
  holds := h.finished f (by rw [List.dropLast_cons_of_ne_nil hne]; exact List.mem_cons_self)
  before := h.before f List.mem_cons_self

theorem tail (h : Framed P (f :: fs) s) : Framed P fs fs.flatten where
  flatten := rfl
  ne_nil f hf := h.ne_nil f (List.mem_cons_of_mem _ hf)
  finished f hf := by
    refine h.finished f ?_
    cases fs with
    | nil => simp at hf
    | cons g fs =>
      rw [List.dropLast_cons_of_ne_nil (List.cons_ne_nil _ _)]
      exact List.mem_cons_of_mem _ hf
  before f hf := h.before f (List.mem_cons_of_mem _ hf)

theorem flatten_ne_nil (h : Framed P (f :: fs) s) : s ≠ [] := by
  rw [← h.flatten, List.flatten_cons]
  intro hnil
  exact h.ne_nil f List.mem_cons_self (List.append_eq_nil_iff.mp hnil).1

theorem eq_nil_of_only (h : Framed P [f] s) (h' : Framed P (g :: gs) s) : gs = [] := by
  by_contra hne
  have hfs : f = s := by simpa using h.flatten
  have hgs : g ++ gs.flatten = s := by simpa using h'.flatten
  obtain ⟨g', gs', rfl⟩ := List.exists_cons_of_ne_nil hne
  refine h.before f List.mem_cons_self g ?_ ?_ (h'.first hne).holds
  · rw [hfs]
    exact ⟨_, hgs⟩
  · intro heq
    rw [heq, hfs] at hgs
    exact h'.tail.flatten_ne_nil (List.append_right_eq_self.mp hgs)

/-- A stream has its frames in one way only. -/
theorem unique (h : Framed P fs s) (h' : Framed P gs s) : fs = gs := by
  induction fs generalizing gs s with
  | nil =>
    cases gs with
    | nil => rfl
    | cons g gs => exact absurd h.flatten.symm h'.flatten_ne_nil
  | cons f fs ih =>
    cases gs with
    | nil => exact absurd h'.flatten.symm h.flatten_ne_nil
    | cons g gs =>
      have heq : f ++ fs.flatten = g ++ gs.flatten := h.flatten.trans h'.flatten.symm
      cases fs with
      | nil =>
        obtain rfl := h.eq_nil_of_only h'
        simp only [List.flatten_nil, List.append_nil] at heq
        rw [heq]
      | cons f' fs =>
        have hne : gs ≠ [] := by
          rintro rfl
          cases h'.eq_nil_of_only h
        obtain ⟨rfl, hrest⟩ := (h.first (List.cons_ne_nil _ _)).eq (h'.first hne) heq
        have htail := h'.tail
        rw [← hrest] at htail
        rw [ih h.tail htail]

end Framed

/-- How a program cuts the first frame off. -/
structure Cutter (P : List α → Prop) where
  cut : List α → Option (List α × List α)
  cut_eq_some : ∀ {s f r}, cut s = some (f, r) ↔ First P f ∧ f ++ r = s
  not_nil : ¬ P []

namespace Cutter

variable (c : Cutter P) {s t f r pending : List α}

theorem length_lt (h : c.cut s = some (f, r)) : r.length < s.length := by
  obtain ⟨hfirst, rfl⟩ := c.cut_eq_some.mp h
  have hne : f ≠ [] := by
    rintro rfl
    exact c.not_nil hfirst.holds
  have hpos := List.length_pos_iff.mpr hne
  rw [List.length_append]
  omega

/-- What was cut stays cut when more arrives. -/
theorem cut_append (h : c.cut s = some (f, r)) (t : List α) : c.cut (s ++ t) = some (f, r ++ t) := by
  obtain ⟨hfirst, rfl⟩ := c.cut_eq_some.mp h
  exact c.cut_eq_some.mpr ⟨hfirst, (List.append_assoc f r t).symm⟩

/-- If nothing is cut, no prefix is finished: among the finished ones there would be a shortest. -/
theorem not_of_prefix (h : c.cut s = none) {p : List α} (hp : p <+: s) : ¬ P p := by
  intro hholds
  induction hn : p.length using Nat.strongRecOn generalizing p with
  | _ n ih =>
    obtain ⟨r, hr⟩ := hp
    by_cases hfirst : First P p
    · rw [c.cut_eq_some.mpr ⟨hfirst, hr⟩] at h
      cases h
    · have hshorter : ∃ q, q <+: p ∧ q ≠ p ∧ P q := by
        by_contra hnone
        push Not at hnone
        exact hfirst ⟨hholds, hnone⟩
      obtain ⟨q, hq, hne, hqholds⟩ := hshorter
      have hlt : q.length < p.length :=
        lt_of_le_of_ne hq.length_le fun heq => hne (hq.eq_of_length heq)
      exact ih q.length (hn ▸ hlt) (hq.trans ⟨r, hr⟩) hqholds rfl

/-- Cut while there is something to cut: the frames, and what is left. -/
def drain (s : List α) : List (List α) × List α :=
  match _h : c.cut s with
  | none => ([], s)
  | some (f, r) => (f :: (drain r).1, (drain r).2)
termination_by s.length
decreasing_by all_goals exact c.length_lt _h

theorem drain_of_none (h : c.cut s = none) : c.drain s = ([], s) := by
  rw [drain]
  split
  · rfl
  · next heq =>
    rw [h] at heq
    cases heq

theorem drain_of_some (h : c.cut s = some (f, r)) :
    c.drain s = (f :: (c.drain r).1, (c.drain r).2) := by
  rw [drain]
  split
  · next heq =>
    rw [h] at heq
    cases heq
  · next heq =>
    rw [h] at heq
    cases heq
    rfl

/-- The induction that `drain` recurses by: the list is exhausted, or its first frame is cut. -/
theorem drain_induction {motive : List α → Prop} (rest : ∀ s, c.cut s = none → motive s)
    (step : ∀ s f r, c.cut s = some (f, r) → motive r → motive s) (s : List α) : motive s := by
  induction hn : s.length using Nat.strongRecOn generalizing s with
  | _ n ih =>
    cases hcut : c.cut s with
    | none => exact rest s hcut
    | some p => exact step s p.1 p.2 hcut (ih p.2.length (hn ▸ c.length_lt hcut) p.2 rfl)

theorem cut_drain (s : List α) : c.cut (c.drain s).2 = none := by
  induction s using c.drain_induction with
  | rest s h =>
    rw [c.drain_of_none h]
    exact h
  | step s f r h ih =>
    rw [c.drain_of_some h]
    exact ih

theorem drain_append (s t : List α) : c.drain (s ++ t) =
    ((c.drain s).1 ++ (c.drain ((c.drain s).2 ++ t)).1, (c.drain ((c.drain s).2 ++ t)).2) := by
  induction s using c.drain_induction with
  | rest s h =>
    rw [c.drain_of_none h]
    rfl
  | step s f r h ih =>
    rw [c.drain_of_some h, c.drain_of_some (c.cut_append h t), ih]
    rfl

/-! ## Chunks -/

/-- The chunks arrive one after the other. -/
def feed (pending : List α) : List (List α) → List (List α) × List α
  | [] => ([], pending)
  | chunk :: chunks =>
    let cut := c.drain (pending ++ chunk)
    let later := feed cut.2 chunks
    (cut.1 ++ later.1, later.2)

/-- **The chunks do not matter.** -/
theorem feed_eq (h : c.cut pending = none) (chunks : List (List α)) :
    c.feed pending chunks = c.drain (pending ++ chunks.flatten) := by
  induction chunks generalizing pending with
  | nil => rw [feed, List.flatten_nil, List.append_nil, c.drain_of_none h]
  | cons chunk chunks ih =>
    rw [feed, ih (c.cut_drain _), List.flatten_cons, ← List.append_assoc,
      c.drain_append (pending ++ chunk)]

/-- What is left at the end of the stream is the last frame. -/
def close (cut : List (List α) × List α) : List (List α) :=
  if cut.2.isEmpty then cut.1 else cut.1 ++ [cut.2]

theorem close_cons (fs : List (List α)) : close (f :: fs, r) = f :: close (fs, r) := by
  unfold close
  split <;> rfl

/-! ## The frames -/

theorem framed_drain (s : List α) : Framed P (close (c.drain s)) s := by
  induction s using c.drain_induction with
  | rest s h =>
    rw [c.drain_of_none h, close]
    cases s with
    | nil => exact ⟨rfl, by simp, by simp, by simp⟩
    | cons a s =>
      refine ⟨by simp, by simp, by simp, ?_⟩
      intro f hf p hp hne
      obtain rfl : f = a :: s := by simpa using hf
      exact c.not_of_prefix h hp
  | step s f r h ih =>
    obtain ⟨hfirst, rfl⟩ := c.cut_eq_some.mp h
    rw [c.drain_of_some h, close_cons]
    refine ⟨by rw [List.flatten_cons, ih.flatten], ?_, ?_, ?_⟩
    · intro g hg
      rcases List.mem_cons.mp hg with rfl | hg
      · rintro rfl
        exact c.not_nil hfirst.holds
      · exact ih.ne_nil g hg
    · intro g hg
      cases hclose : close (c.drain r) with
      | nil => simp [hclose] at hg
      | cons g' gs =>
        rw [hclose, List.dropLast_cons_of_ne_nil (List.cons_ne_nil _ _), List.mem_cons] at hg
        rcases hg with rfl | hg
        · exact hfirst.holds
        · exact ih.finished g (hclose ▸ hg)
    · intro g hg
      rcases List.mem_cons.mp hg with rfl | hg
      · exact hfirst.before
      · exact ih.before g hg

/-- **The frames of a reader** are the frames of the stream. -/
theorem framed_iff {frames : List (List α)} : close (c.drain s) = frames ↔ Framed P frames s := by
  constructor
  · rintro rfl
    exact c.framed_drain s
  · exact fun h => (c.framed_drain s).unique h

end Cutter

end PyMotor.Framing
