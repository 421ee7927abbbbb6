import PyMotor.Coordinator.RateLimiter

/-!
# The congestion alarm

The limiter is to raise an alarm when at least 85 percent of its requests are in use, and to clear it when
less than 75 percent are. What it compares with the thresholds are the tokens that are left, not those in
use: an idle limiter raises the alarm, and a busy one clears it. So the alarm describes the load only while
the load stays between the extremes, where neither happens (`alarms_follow_load_iff`). Limits of zero and
one request are the exception, since both thresholds are zero for them.
-/

namespace PyMotor.Coordinator

inductive LimiterCall where
  | isAllowed (now later timestamp : ℚ)
  | updateConfig (maxRequests windowSize : Option ℤ) (now : ℚ)
  deriving DecidableEq

/-- The events alternate, and the first one clears the alarm if it is `sent` and raises it if not. -/
def Alternate : Bool → List CongestionEvent → Prop
  | _, [] => True
  | sent, e :: es => e.isRaised = !sent ∧ Alternate (!sent) es

namespace SimpleRateLimiter

def exec (l : SimpleRateLimiter) : LimiterCall → Option CongestionEvent × SimpleRateLimiter
  | .isAllowed now later timestamp => (l.isAllowed now later timestamp).2
  | .updateConfig maxRequests windowSize now => (none, l.updateConfig maxRequests windowSize now)

/-- The limiter after a list of calls. -/
def execAll (l : SimpleRateLimiter) (calls : List LimiterCall) : SimpleRateLimiter :=
  calls.foldl (fun l c => (l.exec c).2) l

/-- What a list of calls reports. -/
def events : SimpleRateLimiter → List LimiterCall → List CongestionEvent
  | _, [] => []
  | l, c :: cs => (l.exec c).1.toList ++ events (l.exec c).2 cs

variable {l : SimpleRateLimiter}

/-! ## The events -/

theorem updateConfig_congestionAlarmSent (maxRequests windowSize : Option ℤ) (now : ℚ) :
    (l.updateConfig maxRequests windowSize now).congestionAlarmSent = l.congestionAlarmSent := by
  unfold updateConfig
  split
  · rfl
  · split
    · split <;> rfl
    · rfl

theorem isAllowed_cases (l : SimpleRateLimiter) (now later timestamp : ℚ) :
    (l.congestionAlarmSent = false ∧ l.triggerThreshold ≤ l.availableAfter now later ∧
      (l.isAllowed now later timestamp).2 =
        (some (.raised (l.availableAfter now later) l.maxRequests), l.consume now true)) ∨
    (l.congestionAlarmSent = true ∧ l.availableAfter now later < l.clearThreshold ∧
      (l.isAllowed now later timestamp).2 =
        (some (.cleared (l.availableAfter now later) l.maxRequests), l.consume now false)) ∨
    ((l.congestionAlarmSent = false → l.availableAfter now later < l.triggerThreshold) ∧
      (l.congestionAlarmSent = true → l.clearThreshold ≤ l.availableAfter now later) ∧
      (l.isAllowed now later timestamp).2 = (none, l.consume now l.congestionAlarmSent)) := by
  unfold isAllowed
  simp only
  split
  · next hraise =>
    rw [Bool.and_eq_true, Bool.not_eq_true', decide_eq_true_eq] at hraise
    exact Or.inl ⟨hraise.1, hraise.2, rfl⟩
  · next hraise =>
    rw [Bool.and_eq_true, Bool.not_eq_true', decide_eq_true_eq] at hraise
    split
    · next hclear =>
      rw [Bool.and_eq_true, decide_eq_true_eq] at hclear
      exact Or.inr (Or.inl ⟨hclear.1, hclear.2, rfl⟩)
    · next hclear =>
      rw [Bool.and_eq_true, decide_eq_true_eq] at hclear
      exact Or.inr (Or.inr ⟨fun hsent => not_le.mp fun hle => hraise ⟨hsent, hle⟩,
        fun hsent => not_lt.mp fun hlt => hclear ⟨hsent, hlt⟩, rfl⟩)

theorem alternate_events (calls : List LimiterCall) :
    ∀ l : SimpleRateLimiter, Alternate l.congestionAlarmSent (l.events calls) := by
  induction calls with
  | nil => exact fun _ => trivial
  | cons c calls ih =>
    intro l
    cases c with
    | isAllowed now later timestamp =>
      show Alternate _ ((l.isAllowed now later timestamp).2.1.toList ++
        (l.isAllowed now later timestamp).2.2.events calls)
      rcases l.isAllowed_cases now later timestamp with ⟨hsent, -, hresult⟩ |
        ⟨hsent, -, hresult⟩ | ⟨-, -, hresult⟩
      · rw [hresult, hsent]
        exact ⟨rfl, ih (l.consume now true)⟩
      · rw [hresult, hsent]
        exact ⟨rfl, ih (l.consume now false)⟩
      · rw [hresult]
        exact ih (l.consume now l.congestionAlarmSent)
    | updateConfig maxRequests windowSize now =>
      show Alternate _ ((l.updateConfig maxRequests windowSize now).events calls)
      rw [← updateConfig_congestionAlarmSent maxRequests windowSize now]
      exact ih _

/-! ## The load -/

theorem truncate_percent {m : ℤ} (hm : 0 ≤ m) (p : ℕ) :
    truncate (m * ((p : ℚ) / 100)) = m * p / 100 := by
  have hm' : (0 : ℚ) ≤ m := mod_cast hm
  have hp : (0 : ℚ) ≤ (p : ℚ) / 100 := div_nonneg (Nat.cast_nonneg p) (by norm_num)
  rw [truncate, if_pos (mul_nonneg hm' hp), Int.floor_eq_iff]
  have hlow : 100 * (m * p / 100) ≤ m * p := by omega
  have hhigh : m * p < 100 * (m * p / 100) + 100 := by omega
  have hlow' : (100 : ℚ) * ((m * p / 100 : ℤ) : ℚ) ≤ m * p := mod_cast hlow
  have hhigh' : (m : ℚ) * p < 100 * ((m * p / 100 : ℤ) : ℚ) + 100 := mod_cast hhigh
  constructor <;> linarith

theorem triggerThreshold_eq (l : SimpleRateLimiter) : l.triggerThreshold = l.maxRequests * 85 / 100 :=
  truncate_percent l.maxRequests_nonneg 85

theorem clearThreshold_eq (l : SimpleRateLimiter) : l.clearThreshold = l.maxRequests * 75 / 100 :=
  truncate_percent l.maxRequests_nonneg 75

/-- What is expected of a call, with `used` requests in use after it. -/
structure Describes (l : SimpleRateLimiter) (used : ℤ)
    (result : Option CongestionEvent × SimpleRateLimiter) : Prop where
  raised : ∀ e, result.1 = some e → e.isRaised = true → 85 * l.maxRequests ≤ 100 * used
  cleared : ∀ e, result.1 = some e → e.isRaised = false → 100 * used < 75 * l.maxRequests
  sent : 85 * l.maxRequests ≤ 100 * used → result.2.congestionAlarmSent = true
  notSent : 100 * used < 75 * l.maxRequests → result.2.congestionAlarmSent = false

def FollowsLoad (l : SimpleRateLimiter) (now later timestamp : ℚ) : Prop :=
  l.Describes (l.maxRequests - (l.isAllowed now later timestamp).1.available)
    (l.isAllowed now later timestamp).2

/-- The load is not where the alarm should be raised, nor where it is raised; if it is raised already, not
where it should stay, nor where it stays. A limit of at most one request is used up. -/
def BetweenExtremes (l : SimpleRateLimiter) (available : ℤ) : Prop :=
  if l.maxRequests ≤ 1 then available = 0
  else if l.congestionAlarmSent then
    25 * l.maxRequests < 100 * available ∧ available < l.clearThreshold
  else 15 * l.maxRequests < 100 * available ∧ available < l.triggerThreshold

theorem isAllowed_available (l : SimpleRateLimiter) (now later timestamp : ℚ) :
    (l.isAllowed now later timestamp).1.available = l.availableAfter now later := by
  unfold isAllowed
  simp only
  split
  · rfl
  · split <;> rfl

section Describes

variable {l' : SimpleRateLimiter} {used available maxRequests : ℤ}

theorem describes_raised_iff (hsent : l'.congestionAlarmSent = true) :
    l.Describes used (some (.raised available maxRequests), l') ↔ 85 * l.maxRequests ≤ 100 * used := by
  constructor
  · exact fun h => h.raised _ rfl rfl
  · intro hmore
    have hmax := l.maxRequests_nonneg
    refine ⟨fun _ _ _ => hmore, fun e he hcleared => ?_, fun _ => hsent, fun hless => by omega⟩
    cases he
    cases hcleared

theorem describes_cleared_iff (hsent : l'.congestionAlarmSent = false) :
    l.Describes used (some (.cleared available maxRequests), l') ↔ 100 * used < 75 * l.maxRequests := by
  constructor
  · exact fun h => h.cleared _ rfl rfl
  · intro hless
    have hmax := l.maxRequests_nonneg
    refine ⟨fun e he hraised => ?_, fun _ _ _ => hless, fun hmore => by omega, fun _ => hsent⟩
    cases he
    cases hraised

/-- Without an event, the flag has to be right as it is. -/
theorem describes_quiet_iff : l.Describes used (none, l') ↔
    if l'.congestionAlarmSent then 75 * l.maxRequests ≤ 100 * used
    else 100 * used < 85 * l.maxRequests := by
  constructor
  · intro h
    split
    · next hsent =>
      refine not_lt.mp fun hless => ?_
      rw [h.notSent hless] at hsent
      cases hsent
    · next hsent => exact not_le.mp fun hmore => hsent (h.sent hmore)
  · intro h
    refine ⟨fun _ he => (nomatch he), fun _ he => (nomatch he), fun hmore => ?_, fun hless => ?_⟩
    · split at h
      · next hsent => exact hsent
      · exact absurd hmore (not_le.mpr h)
    · split at h
      · exact absurd hless (not_lt.mpr h)
      · next hsent => exact Bool.eq_false_of_not_eq_true hsent

end Describes

theorem followsLoad_iff (l : SimpleRateLimiter) (now later timestamp : ℚ) :
    l.FollowsLoad now later timestamp ↔ l.BetweenExtremes (l.availableAfter now later) := by
  have hmax := l.maxRequests_nonneg
  have htrigger := l.triggerThreshold_eq
  have hclear := l.clearThreshold_eq
  unfold FollowsLoad BetweenExtremes
  rw [isAllowed_available]
  -- what is left over is compared by the rounded thresholds
  rcases l.isAllowed_cases now later timestamp with ⟨hsent, hreached, hresult⟩ |
    ⟨hsent, hbelow, hresult⟩ | ⟨hquiet, hkept, hresult⟩
  · rw [hresult, hsent, if_neg Bool.false_ne_true, describes_raised_iff rfl]
    split <;> omega
  · rw [hresult, hsent, if_pos rfl, describes_cleared_iff rfl]
    split <;> omega
  · have hflag : (l.consume now l.congestionAlarmSent).congestionAlarmSent =
        l.congestionAlarmSent := rfl
    rw [hresult, describes_quiet_iff, hflag]
    cases hsent : l.congestionAlarmSent with
    | false =>
      have hbelow := hquiet hsent
      rw [if_neg Bool.false_ne_true, if_neg Bool.false_ne_true]
      split <;> omega
    | true =>
      have habove := hkept hsent
      rw [if_pos rfl, if_pos rfl]
      split <;> omega

/-- **The alarm follows the load** in a run, and its events alternate, exactly if in every call the load is
between the extremes. -/
theorem alarms_follow_load_iff (maxRequests windowSize : ℤ) (start : ℚ) (hmax : 0 ≤ maxRequests)
    (hwindow : 0 < windowSize) (calls : List LimiterCall) :
    (Alternate false ((SimpleRateLimiter.new maxRequests windowSize start hmax hwindow).events calls) ∧
      ∀ pre now later timestamp post, calls = pre ++ .isAllowed now later timestamp :: post →
        ((SimpleRateLimiter.new maxRequests windowSize start hmax hwindow).execAll pre).FollowsLoad
          now later timestamp) ↔
    ∀ pre now later timestamp post, calls = pre ++ .isAllowed now later timestamp :: post →
      ((SimpleRateLimiter.new maxRequests windowSize start hmax hwindow).execAll pre).BetweenExtremes
        (((SimpleRateLimiter.new maxRequests windowSize start hmax hwindow).execAll
          pre).availableAfter now later) := by
  constructor
  · intro h pre now later timestamp post hsplit
    exact (followsLoad_iff _ now later timestamp).mp (h.2 pre now later timestamp post hsplit)
  · intro h
    refine ⟨alternate_events calls (.new maxRequests windowSize start hmax hwindow),
      fun pre now later timestamp post hsplit => ?_⟩
    exact (followsLoad_iff _ now later timestamp).mpr (h pre now later timestamp post hsplit)

/-- A limit of one request: the first request uses it up and raises the alarm. -/
theorem oneRequest_alarms :
    Alternate false ((SimpleRateLimiter.new 1 60 0 (by decide) (by decide)).events
      [.isAllowed 0 0 0]) := by
  refine ((alarms_follow_load_iff 1 60 0 (by decide) (by decide) [.isAllowed 0 0 0]).mpr ?_).1
  intro pre now later timestamp post hsplit
  match pre, hsplit with
  | [], hsplit =>
    cases hsplit
    show SimpleRateLimiter.availableAfter _ 0 0 = 0
    decide +kernel
  | _ :: pre, hsplit =>
    have := (List.cons.inj hsplit).2
    exact absurd this.symm (List.append_ne_nil_of_right_ne_nil _ (List.cons_ne_nil _ _))

/-- The first of a hundred requests raises the alarm, with 99 left. -/
theorem firstRequest_raises :
    (SimpleRateLimiter.new 100 60 0 (by decide) (by decide)).events [.isAllowed 0 0 0] =
        [.raised 99 100] ∧
      ¬(SimpleRateLimiter.new 100 60 0 (by decide) (by decide)).FollowsLoad 0 0 0 := by
  refine ⟨by decide +kernel, ?_⟩
  rw [followsLoad_iff]
  intro hbetween
  have havailable : SimpleRateLimiter.availableAfter
      (SimpleRateLimiter.new 100 60 0 (by decide) (by decide)) 0 0 = 99 := by decide +kernel
  have htrigger := triggerThreshold_eq (SimpleRateLimiter.new 100 60 0 (by decide) (by decide))
  rw [havailable] at hbetween
  have := hbetween.2
  rw [htrigger] at this
  exact absurd this (by decide)

end SimpleRateLimiter

end PyMotor.Coordinator
