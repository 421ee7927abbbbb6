import Mathlib.Data.List.Chain
import Mathlib.Tactic.Linarith
import Mathlib.Tactic.Ring
import PyMotor.Coordinator.MetricsCollector

/-!
# The rate of a counter

Every reading of an inherited counter gives an effective value, which goes on over restarts of the
engine, and the rate at which it grew since the reading before (`metric_computer.py`,
`_compute_effective_and_rate`). A restart shows in the instance id, or in a value that is less than nine
tenths of the last one. A smaller drop is not taken for a restart, and the effective value drops with it:
readings continue one another exactly if there is no such drop (`readings_continue_iff`).
-/

namespace PyMotor.Coordinator

/-- What is read of a counter: the sum of its samples, the instance that answered, `time.monotonic()`. -/
structure Observation where
  rawCounter : ℚ
  insId : InstanceId
  now : ℚ
  deriving DecidableEq

/-- What is known of a counter, with the time of the last reading. -/
structure RateState extends DpState where
  lastTs : ℚ
  deriving DecidableEq

/-- An observation, and the effective value and the rate that are returned for it. -/
structure Reading where
  observation : Observation
  effective : ℚ
  rate : ℚ
  deriving DecidableEq

def computeEffectiveAndRate (state : Option RateState) (o : Observation) : RateState × Reading :=
  match state with
  | none => (⟨computeEffective none o.rawCounter o.insId, o.now⟩, ⟨o, o.rawCounter, 0⟩)
  | some state =>
    let dp := computeEffective (some state.toDpState) o.rawCounter o.insId
    let dt := o.now - state.lastTs
    let tps := if 0 < dt then (dp.lastEffective - state.lastEffective) / dt else 0
    (⟨dp, o.now⟩, ⟨o, dp.lastEffective, max tps 0⟩)

/-- The calls in turn, each with its key. -/
def readings : Dict DpKey RateState → List (DpKey × Observation) → List (DpKey × Reading)
  | _, [] => []
  | dpState, (key, o) :: calls =>
    let r := computeEffectiveAndRate (dpState.get? key) o
    (key, r.2) :: readings (dpState.insert key r.1) calls

/-- What belongs to one key. -/
def ofKey {A : Type} (key : DpKey) (calls : List (DpKey × A)) : List A :=
  calls.filterMap fun p => if p.1 = key then some p.2 else none

/-! ## What is expected of the readings -/

/-- The engine was restarted between two observations: another instance answers, or the value has
dropped. -/
def Restarted (o o' : Observation) : Prop :=
  o'.insId ≠ o.insId ∨ o'.rawCounter < o.rawCounter

instance (o o' : Observation) : Decidable (Restarted o o') :=
  inferInstanceAs (Decidable (_ ∨ _))

/-- How much was counted between two observations; after a restart the engine counts from zero. -/
def growth (o o' : Observation) : ℚ :=
  if Restarted o o' then o'.rawCounter else o'.rawCounter - o.rawCounter

/-- The second reading goes on from the first. -/
structure Continues (r r' : Reading) : Prop where
  not_less : r.effective ≤ r'.effective
  grows : r'.effective - r.effective = growth r.observation r'.observation
  /-- Two readings of one round are taken at the same time: the rate is zero then, as `x / 0` is. -/
  rate_eq : r'.rate =
    (r'.effective - r.effective) / (r'.observation.now - r.observation.now)

/-- A value that drops under the same instance drops by more than a tenth. -/
def DropsFar (o o' : Observation) : Prop :=
  o'.insId = o.insId → o'.rawCounter < o.rawCounter → o'.rawCounter < o.rawCounter * (9 / 10)

/-- Counters are not negative, and `time.monotonic()` does not go back. -/
structure Observed (os : List Observation) : Prop where
  raw_nonneg : ∀ o ∈ os, 0 ≤ o.rawCounter
  clock : os.IsChain fun o o' => o.now ≤ o'.now

/-! ## One key -/

/-- The readings of one counter. -/
def track : Option RateState → List Observation → List Reading
  | _, [] => []
  | state, o :: os =>
    let r := computeEffectiveAndRate state o
    r.2 :: track (some r.1) os

theorem ofKey_readings (key : DpKey) (calls : List (DpKey × Observation)) :
    ∀ dpState : Dict DpKey RateState,
      ofKey key (readings dpState calls) = track (dpState.get? key) (ofKey key calls) := by
  induction calls with
  | nil => exact fun _ => rfl
  | cons call calls ih =>
    intro dpState
    obtain ⟨key', o⟩ := call
    by_cases hkey : key' = key
    · subst hkey
      have hrest := ih (dpState.insert key' (computeEffectiveAndRate (dpState.get? key') o).1)
      rw [Dict.get?_insert_self] at hrest
      simpa [ofKey, readings, track] using hrest
    · have hrest := ih (dpState.insert key' (computeEffectiveAndRate (dpState.get? key') o).1)
      rw [Dict.get?_insert_ne _ _ hkey] at hrest
      simpa [ofKey, readings, hkey] using hrest

/-- The state remembers the last reading, and the baseline is what its effective value adds. -/
structure Remembers (state : RateState) (r : Reading) : Prop where
  lastRaw : state.lastRaw = r.observation.rawCounter
  lastInsId : state.lastInsId = r.observation.insId
  lastTs : state.lastTs = r.observation.now
  lastEffective : state.lastEffective = r.effective
  baseline : r.effective = r.observation.rawCounter + state.baseline

theorem computeEffective_remembers (state : Option RateState) (o : Observation) :
    Remembers (computeEffectiveAndRate state o).1 (computeEffectiveAndRate state o).2 := by
  cases state with
  | none => exact ⟨rfl, rfl, rfl, rfl, (add_zero _).symm⟩
  | some state =>
    refine ⟨rfl, ?_, rfl, rfl, rfl⟩
    unfold computeEffectiveAndRate computeEffective
    simp only
    split
    · rfl
    · next hkept =>
      simp only [DpState.restarted, Bool.or_eq_true, decide_eq_true_eq, not_or, not_not] at hkept
      exact hkept.1.symm

/-- The effective value after the next reading: a restart that is seen starts from the last one. -/
theorem Remembers.effective {state : RateState} {r : Reading} (h : Remembers state r)
    (o : Observation) :
    (computeEffectiveAndRate (some state) o).2.effective =
      if o.insId ≠ r.observation.insId ∨
          o.rawCounter < r.observation.rawCounter * (9 / 10) then r.effective + o.rawCounter
      else r.effective + (o.rawCounter - r.observation.rawCounter) := by
  unfold computeEffectiveAndRate computeEffective DpState.restarted
  simp only [h.lastInsId, h.lastRaw, Bool.or_eq_true, decide_eq_true_eq]
  split
  · rw [h.lastEffective, add_comm]
  · rw [h.baseline]
    ring

theorem Remembers.rate {state : RateState} {r : Reading} (h : Remembers state r) (o : Observation) :
    (computeEffectiveAndRate (some state) o).2.rate =
      max (if 0 < o.now - r.observation.now then
        ((computeEffectiveAndRate (some state) o).2.effective - r.effective) /
          (o.now - r.observation.now) else 0) 0 := by
  rw [← h.lastTs, ← h.lastEffective]
  rfl

theorem Remembers.continues_iff {state : RateState} {r : Reading} (h : Remembers state r)
    {o : Observation} (hraw : 0 ≤ o.rawCounter) (hclock : r.observation.now ≤ o.now) :
    Continues r (computeEffectiveAndRate (some state) o).2 ↔ DropsFar r.observation o := by
  have heffective := h.effective o
  have hobservation : (computeEffectiveAndRate (some state) o).2.observation = o := rfl
  constructor
  · -- a drop that is not seen makes the effective value drop
    intro hcontinues hid hdrop
    by_contra hnear
    rw [if_neg (not_or.mpr ⟨not_not.mpr hid, hnear⟩)] at heffective
    have := hcontinues.not_less
    linarith
  · intro hfar
    have hseen : (o.insId ≠ r.observation.insId ∨
        o.rawCounter < r.observation.rawCounter * (9 / 10)) ↔ Restarted r.observation o := by
      constructor
      · rintro (hid | hdrop)
        · exact Or.inl hid
        · exact Or.inr (by linarith)
      · rintro (hid | hdrop)
        · exact Or.inl hid
        · by_cases hid : o.insId = r.observation.insId
          · exact Or.inr (hfar hid hdrop)
          · exact Or.inl hid
    rw [if_congr hseen rfl rfl] at heffective
    have hgrows : (computeEffectiveAndRate (some state) o).2.effective - r.effective =
        growth r.observation o := by
      rw [heffective, growth]
      split <;> ring
    have hgrowth : 0 ≤ growth r.observation o := by
      unfold growth
      split
      · exact hraw
      · next hkept => exact sub_nonneg.mpr (not_lt.mp (not_or.mp hkept).2)
    refine ⟨by linarith, hgrows, ?_⟩
    rw [h.rate o, hobservation, hgrows]
    split
    · next hdt => exact max_eq_left (div_nonneg hgrowth hdt.le)
    · next hdt =>
      have hsame : o.now - r.observation.now = 0 := le_antisymm (not_lt.mp hdt) (by linarith)
      rw [hsame, div_zero, max_self]

theorem track_continues_iff {os : List Observation} (hobserved : Observed os)
    (state : Option RateState) :
    (track state os).IsChain Continues ↔ os.IsChain DropsFar := by
  induction os generalizing state with
  | nil => simp [track]
  | cons o os ih =>
    cases os with
    | nil => simp [track]
    | cons o' os =>
      obtain ⟨hclock, htail⟩ := List.isChain_cons_cons.mp hobserved.clock
      have hrest : Observed (o' :: os) :=
        ⟨fun p hp => hobserved.raw_nonneg p (List.mem_cons_of_mem _ hp), htail⟩
      have hobservation : (computeEffectiveAndRate state o).2.observation = o := by
        cases state <;> rfl
      have hfirst := (computeEffective_remembers state o).continues_iff
        (hobserved.raw_nonneg o' (List.mem_cons_of_mem _ List.mem_cons_self))
        (by rw [hobservation]; exact hclock)
      rw [hobservation] at hfirst
      have hlast := ih hrest (some (computeEffectiveAndRate state o).1)
      simp only [track] at hlast ⊢
      rw [List.isChain_cons_cons, List.isChain_cons_cons, hfirst, hlast]

/-- **The readings of a counter continue one another** exactly if every drop of its value under the same
instance takes it below nine tenths of what it was. -/
theorem readings_continue_iff (key : DpKey) (calls : List (DpKey × Observation))
    (hobserved : Observed (ofKey key calls)) :
    (ofKey key (readings ∅ calls)).IsChain Continues ↔ (ofKey key calls).IsChain DropsFar := by
  rw [ofKey_readings, track_continues_iff hobserved _]

/-- An engine that is restarted, and one that takes its place. -/
theorem restartedTwice_continues :
    (ofKey ("prefill", 0, "vllm:prompt_tokens_total") (readings ∅
      [(("prefill", 0, "vllm:prompt_tokens_total"), ⟨100, 1, 0⟩),
        (("prefill", 0, "vllm:prompt_tokens_total"), ⟨20, 1, 10⟩),
        (("prefill", 0, "vllm:prompt_tokens_total"), ⟨20, 2, 15⟩)])).IsChain Continues := by
  have hkey : ofKey ("prefill", 0, "vllm:prompt_tokens_total")
      [(("prefill", 0, "vllm:prompt_tokens_total"), (⟨100, 1, 0⟩ : Observation)),
        (("prefill", 0, "vllm:prompt_tokens_total"), ⟨20, 1, 10⟩),
        (("prefill", 0, "vllm:prompt_tokens_total"), ⟨20, 2, 15⟩)] =
      [⟨100, 1, 0⟩, ⟨20, 1, 10⟩, ⟨20, 2, 15⟩] := rfl
  refine (readings_continue_iff _ _ ?_).mpr ?_
  · rw [hkey]
    exact ⟨by simp, by norm_num⟩
  · rw [hkey]
    simp [DropsFar]
    norm_num

/-- The value is five percent less under the same instance: the effective value drops from 100 to 95. -/
theorem smallDrop_drops :
    let key : DpKey := ("prefill", 0, "vllm:prompt_tokens_total")
    let calls : List (DpKey × Observation) := [(key, ⟨100, 1, 0⟩), (key, ⟨95, 1, 10⟩)]
    Observed (ofKey key calls) ∧
      (ofKey key (readings ∅ calls)).map Reading.effective = [100, 95] ∧
      ¬(ofKey key (readings ∅ calls)).IsChain Continues := by
  intro key calls
  have hkey : ofKey key calls = [⟨100, 1, 0⟩, ⟨95, 1, 10⟩] := rfl
  have hobserved : Observed (ofKey key calls) := by
    rw [hkey]
    exact ⟨by simp, by simp⟩
  have heffective : (ofKey key (readings ∅ calls)).map Reading.effective = [100, 95] := by decide +kernel
  refine ⟨hobserved, heffective, fun hchain => ?_⟩
  rw [ofKey_readings, track_continues_iff hobserved, hkey, List.isChain_pair] at hchain
  have := hchain rfl (by norm_num)
  norm_num at this

end PyMotor.Coordinator
