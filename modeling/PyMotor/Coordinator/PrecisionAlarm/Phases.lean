import PyMotor.Coordinator.PrecisionAlarm

/-!
# The phases of a precision alarm

The eight tables of the scheduler say less than they could: what they hold for a group is always one
of four phases. The group is watched, an alarm is being raised, it is active, or it is being cleared.
A `Phase` is that, with the count and the token that belong to it. The methods of the scheduler are
then three short functions of phases (`recordPrecisionResult_view`, `finishPrecisionAction_view`),
and what the alarms promise is read off these and off the history of the calls.
-/

namespace PyMotor.Coordinator

/-! ## What a history says about a group -/

namespace PrecisionEvent

/-- The group that a call is about. -/
def group : PrecisionEvent → PdGroup
  | .recorded call _ => call.key
  | .finished call _ => call.key
  | .dismissed key => key

/-- The finish of a raise that was accepted and successful. -/
def raises : PrecisionEvent → Bool
  | .finished call accepted =>
    accepted && call.success && decide (call.actionType ≠ "clear") && !call.autoRecoveryCleared
  | _ => false

/-- An accepted and successful clear, an auto-recovery, or a dismissal. -/
def lowers : PrecisionEvent → Bool
  | .finished call accepted =>
    if call.actionType = "clear" then accepted && call.success
    else accepted && call.autoRecoveryCleared
  | .dismissed _ => true
  | .recorded _ _ => false

/-- The token was accepted, and not only because of an auto-recovery. -/
def accepts (token : String) : PrecisionEvent → Bool
  | .finished call accepted =>
    accepted && !call.autoRecoveryCleared && decide (call.actionToken = token)
  | _ => false

end PrecisionEvent

/-- The length of the streak after one more call. Valid results prolong or break it, an accepted
finish and a dismissal end it. -/
def streakStep (hasIssue : Bool) (key : PdGroup) (n : ℕ) (e : PrecisionEvent) : ℕ :=
  if e.group ≠ key then n
  else
    match e with
    | .recorded call _ =>
      if !call.checkValid then n else if call.hasIssue = hasIssue then n + 1 else 0
    | .finished _ accepted => if accepted then 0 else n
    | .dismissed _ => 0

/-- How many results of this kind came in a row, since the last opposite result, accepted finish or
dismissal. -/
def streak (hasIssue : Bool) (key : PdGroup) (history : List PrecisionEvent) : ℕ :=
  history.foldl (streakStep hasIssue key) 0

/-- An alarm was raised, and nothing lowered it since. -/
def Raised (key : PdGroup) (history : List PrecisionEvent) : Prop :=
  ∃ pre e post, history = pre ++ e :: post ∧ e.group = key ∧ e.raises = true ∧
    ∀ e' ∈ post, e'.group = key → e'.lowers = false

/-- How often a token was accepted. -/
def acceptances (token : String) (history : List PrecisionEvent) : ℕ :=
  history.countP (PrecisionEvent.accepts token)

/-- After `pre`, a call hands out a token only if the streak has reached the threshold of the call. -/
def IssuedAtThreshold (pre : List PrecisionEvent) : PrecisionEvent → Prop
  | .recorded call result =>
    result.actionToken ≠ none →
      (result.thresholdHit = true ∧ result.clearThresholdHit = false ∧
        call.threshold ≤ streak true call.key (pre ++ [.recorded call result])) ∨
      (result.thresholdHit = false ∧ result.clearThresholdHit = true ∧
        call.clearThreshold ≤ streak false call.key (pre ++ [.recorded call result]))
  | _ => True

theorem streak_snoc (hasIssue : Bool) (key : PdGroup) (history : List PrecisionEvent)
    (e : PrecisionEvent) :
    streak hasIssue key (history ++ [e]) = streakStep hasIssue key (streak hasIssue key history) e := by
  simp [streak]

theorem acceptances_snoc (token : String) (history : List PrecisionEvent) (e : PrecisionEvent) :
    acceptances token (history ++ [e]) =
      acceptances token history + if e.accepts token then 1 else 0 := by
  simp [acceptances, List.countP_append, List.countP_singleton]

theorem Raised.snoc {key : PdGroup} {history : List PrecisionEvent} {e : PrecisionEvent}
    (h : Raised key history) (he : e.group = key → e.lowers = false) : Raised key (history ++ [e]) := by
  obtain ⟨pre, r, post, rfl, hgroup, hraises, hpost⟩ := h
  refine ⟨pre, r, post ++ [e], by simp, hgroup, hraises, ?_⟩
  intro e' he' hkey
  rcases List.mem_append.mp he' with hold | hnew
  · exact hpost e' hold hkey
  · rw [List.mem_singleton.mp hnew] at hkey ⊢
    exact he hkey

theorem Raised.now {key : PdGroup} {e : PrecisionEvent} (history : List PrecisionEvent)
    (hgroup : e.group = key) (h : e.raises = true) : Raised key (history ++ [e]) :=
  ⟨history, e, [], rfl, hgroup, h, by simp⟩

/-! ## Phases -/

inductive Phase where
  | watching (issues : ℕ)
  | raising (token : String) (issues : ℕ)
  | active (normals : ℕ)
  | clearing (token : String) (normals : ℕ)

namespace Phase

def token : Phase → Option String
  | .raising token _ => some token
  | .clearing token _ => some token
  | _ => none

def alarmed : Phase → Bool
  | .active _ => true
  | .clearing _ _ => true
  | _ => false

def record (call : RecordCall) (uuid : String) : Phase → Option String × Phase
  | .watching n =>
    if !call.checkValid then (none, .watching n)
    else if !call.hasIssue then (none, .watching 0)
    else if call.threshold ≤ n + 1 then (some uuid, .raising uuid (n + 1))
    else (none, .watching (n + 1))
  | .active n =>
    if !call.checkValid then (none, .active n)
    else if call.hasIssue then (none, .active 0)
    else if call.clearThreshold ≤ n + 1 then (some uuid, .clearing uuid (n + 1))
    else (none, .active (n + 1))
  | phase => (none, phase)

def finish (call : FinishCall) (phase : Phase) : Bool × Phase :=
  if call.actionType = "clear" then
    match phase with
    | .clearing token _ =>
      if token = call.actionToken then (true, if call.success then .watching 0 else .active 0)
      else (false, phase)
    | _ => (false, phase)
  else if call.autoRecoveryCleared then (true, .watching 0)
  else
    match phase with
    | .raising token _ =>
      if token = call.actionToken then (true, if call.success then .active 0 else .watching 0)
      else (false, phase)
    | _ => (false, phase)

end Phase

/-! ## The tables hold phases -/

/-- What the tables say about a group. -/
structure GroupView where
  streak : ℕ
  raiseProbing : Bool
  raiseToken : Option String
  clearProbing : Bool
  clearToken : Option String
  alarmActive : Bool
  normalStreak : ℕ

def PrecisionTables.view (s : PrecisionTables) (key : PdGroup) : GroupView where
  streak := s.streakCount key
  raiseProbing := s.isRaiseProbing key
  raiseToken := s.raiseTokens.get? key
  clearProbing := s.isClearProbing key
  clearToken := s.clearTokens.get? key
  alarmActive := s.isAlarmActive key
  normalStreak := s.normalStreakCount key

def Phase.view : Phase → GroupView
  | .watching n => ⟨n, false, none, false, none, false, 0⟩
  | .raising token n => ⟨n, true, some token, false, none, false, 0⟩
  | .active n => ⟨0, false, none, false, none, true, n⟩
  | .clearing token n => ⟨0, false, none, true, some token, true, n⟩

namespace PrecisionTables

variable {s : PrecisionTables} {key : PdGroup} {phase : Phase}

theorem clearPrecisionGroupState_view (s : PrecisionTables) (key : PdGroup) :
    (s.clearPrecisionGroupState key).view key = (Phase.watching 0).view := by
  simp [view, clearPrecisionGroupState, Phase.view, streakCount, isRaiseProbing, isClearProbing,
    isAlarmActive, normalStreakCount]

theorem clearPrecisionGroupState_view_ne {other : PdGroup} (h : key ≠ other) :
    (s.clearPrecisionGroupState key).view other = s.view other := by
  simp [view, clearPrecisionGroupState, streakCount, isRaiseProbing, isClearProbing,
    isAlarmActive, normalStreakCount, Dict.get?_erase_ne _ h]

theorem isProbing_eq (h : s.view key = phase.view) :
    (s.isRaiseProbing key || s.isClearProbing key) = phase.token.isSome := by
  have hraise : s.isRaiseProbing key = phase.view.raiseProbing := congrArg GroupView.raiseProbing h
  have hclear : s.isClearProbing key = phase.view.clearProbing := congrArg GroupView.clearProbing h
  rw [hraise, hclear]
  cases phase <;> rfl

theorem isAlarmActive_eq (h : s.view key = phase.view) : s.isAlarmActive key = phase.alarmed := by
  have hactive : s.isAlarmActive key = phase.view.alarmActive := congrArg GroupView.alarmActive h
  rw [hactive]
  cases phase <;> rfl

theorem recordInactive_view {n : ℕ} (call : RecordCall) (uuid : String)
    (h : s.view call.key = (Phase.watching n).view) (hvalid : call.checkValid = true) :
    let r := s.recordInactive call.key call.hasIssue call.threshold uuid
    r.1.actionToken = ((Phase.watching n).record call uuid).1 ∧
      r.2.view call.key = ((Phase.watching n).record call uuid).2.view := by
  simp only [view, Phase.view, GroupView.mk.injEq] at h
  obtain ⟨hstreak, hraise, hrtoken, hclear, hctoken, hactive, hnormal⟩ := h
  simp only [streakCount, isRaiseProbing, isClearProbing, isAlarmActive, normalStreakCount] at *
  cases hissue : call.hasIssue with
  | false =>
    simp [recordInactive, Phase.record, Phase.view, view, PrecisionResult.noAction, streakCount,
      isRaiseProbing, isClearProbing, isAlarmActive, normalStreakCount, *]
  | true =>
    by_cases hhit : call.threshold ≤ (n : ℤ) + 1
    · simp [recordInactive, Phase.record, Phase.view, view, streakCount, isRaiseProbing,
        isClearProbing, isAlarmActive, normalStreakCount, *]
    · simp [recordInactive, Phase.record, Phase.view, view, PrecisionResult.noAction, streakCount,
        isRaiseProbing, isClearProbing, isAlarmActive, normalStreakCount, *]

theorem recordActive_view {n : ℕ} (call : RecordCall) (uuid : String)
    (h : s.view call.key = (Phase.active n).view) (hvalid : call.checkValid = true) :
    let r := s.recordActive call.key call.hasIssue call.clearThreshold uuid
    r.1.actionToken = ((Phase.active n).record call uuid).1 ∧
      r.2.view call.key = ((Phase.active n).record call uuid).2.view := by
  simp only [view, Phase.view, GroupView.mk.injEq] at h
  obtain ⟨hstreak, hraise, hrtoken, hclear, hctoken, hactive, hnormal⟩ := h
  simp only [streakCount, isRaiseProbing, isClearProbing, isAlarmActive, normalStreakCount] at *
  cases hissue : call.hasIssue with
  | true =>
    simp [recordActive, Phase.record, Phase.view, view, PrecisionResult.noAction, streakCount,
      isRaiseProbing, isClearProbing, isAlarmActive, normalStreakCount, *]
  | false =>
    by_cases hhit : call.clearThreshold ≤ (n : ℤ) + 1
    · simp [recordActive, Phase.record, Phase.view, view, streakCount, isRaiseProbing,
        isClearProbing, isAlarmActive, normalStreakCount, *]
    · simp [recordActive, Phase.record, Phase.view, view, PrecisionResult.noAction, streakCount,
        isRaiseProbing, isClearProbing, isAlarmActive, normalStreakCount, *]

/-- **A result moves the group on as it moves its phase**, and hands out the token of the phase. -/
theorem recordPrecisionResult_view (call : RecordCall) (uuid : String)
    (h : s.view call.key = phase.view) :
    let r := s.recordPrecisionResult call.key call.hasIssue call.threshold call.clearThreshold
      call.checkValid uuid
    r.1.actionToken = (phase.record call uuid).1 ∧
      r.2.view call.key = (phase.record call uuid).2.view := by
  simp only [recordPrecisionResult, isProbing_eq h, isAlarmActive_eq h]
  cases hvalid : call.checkValid with
  | false =>
    cases phase <;>
      simpa [Phase.token, Phase.record, PrecisionResult.noAction, hvalid] using h
  | true =>
    cases phase with
    | watching n => exact recordInactive_view call uuid h hvalid
    | active n => exact recordActive_view call uuid h hvalid
    | raising token n => exact ⟨rfl, h⟩
    | clearing token n => exact ⟨rfl, h⟩

/-- A token is handed out for a reason that the result names. -/
theorem recordPrecisionResult_issued (call : RecordCall) (uuid : String)
    (h : s.view call.key = phase.view)
    (hissued : (s.recordPrecisionResult call.key call.hasIssue call.threshold call.clearThreshold
      call.checkValid uuid).1.actionToken ≠ none) :
    let r := (s.recordPrecisionResult call.key call.hasIssue call.threshold call.clearThreshold
      call.checkValid uuid).1
    call.checkValid = true ∧
      ((r.thresholdHit = true ∧ r.clearThresholdHit = false ∧ call.hasIssue = true ∧
          ∃ n, phase = .watching n ∧ call.threshold ≤ n + 1) ∨
        (r.thresholdHit = false ∧ r.clearThresholdHit = true ∧ call.hasIssue = false ∧
          ∃ n, phase = .active n ∧ call.clearThreshold ≤ n + 1)) := by
  simp only [recordPrecisionResult, isProbing_eq h, isAlarmActive_eq h] at hissued ⊢
  cases hvalid : call.checkValid with
  | false => cases phase <;> simp [Phase.token, PrecisionResult.noAction, hvalid] at hissued
  | true =>
    cases phase with
    | watching n =>
      have hcount : s.streakCount call.key = n := congrArg GroupView.streak h
      simp only [hvalid, Phase.token, Phase.alarmed, recordInactive, hcount] at hissued ⊢
      cases hissue : call.hasIssue with
      | false => simp [hissue, PrecisionResult.noAction] at hissued
      | true =>
        by_cases hhit : call.threshold ≤ (n : ℤ) + 1
        · simp [hhit]
        · simp [hissue, hhit, PrecisionResult.noAction] at hissued
    | active n =>
      have hcount : s.normalStreakCount call.key = n := congrArg GroupView.normalStreak h
      simp only [hvalid, Phase.token, Phase.alarmed, recordActive, hcount] at hissued ⊢
      cases hissue : call.hasIssue with
      | true => simp [hissue, PrecisionResult.noAction] at hissued
      | false =>
        by_cases hhit : call.clearThreshold ≤ (n : ℤ) + 1
        · simp [hhit]
        · simp [hissue, hhit, PrecisionResult.noAction] at hissued
    | raising token n => exact absurd rfl hissued
    | clearing token n => exact absurd rfl hissued

theorem recordPrecisionResult_view_ne {other : PdGroup} (hne : key ≠ other)
    (hasIssue : Bool) (threshold clearThreshold : ℤ) (checkValid : Bool) (uuid : String) :
    (s.recordPrecisionResult key hasIssue threshold clearThreshold checkValid uuid).2.view other =
      s.view other := by
  simp only [recordPrecisionResult, recordActive, recordInactive]
  split_ifs <;>
    simp [view, streakCount, isRaiseProbing, isClearProbing, isAlarmActive, normalStreakCount,
      Dict.get?_insert_ne _ _ hne]

/-- A pending token is one that was drawn, so it is not empty. -/
theorem tokenMatches_some {expected actionToken : String} (h : expected ≠ "") :
    tokenMatches (some expected) actionToken = decide (expected = actionToken) := by
  simp [tokenMatches, h]

theorem finishClear_view (call : FinishCall) (h : s.view call.key = phase.view)
    (htoken : ∀ token, phase.token = some token → token ≠ "") (htype : call.actionType = "clear") :
    let r := s.finishClear call.key call.actionToken call.success
    r.1 = (phase.finish call).1 ∧ r.2.view call.key = (phase.finish call).2.view := by
  have hexpected : s.clearTokens.get? call.key = phase.view.clearToken :=
    congrArg GroupView.clearToken h
  simp only [finishClear, hexpected]
  cases phase with
  | clearing token n =>
    simp only [Phase.view, tokenMatches_some (htoken token rfl), Phase.finish, htype, if_true]
    by_cases heq : token = call.actionToken
    · cases hsuccess : call.success with
      | true => simpa [heq, Phase.view] using clearPrecisionGroupState_view _ call.key
      | false =>
        simp only [view, Phase.view, GroupView.mk.injEq, isRaiseProbing, streakCount,
          isAlarmActive] at h
        simp [heq, view, h, streakCount, isRaiseProbing, isClearProbing, isAlarmActive,
          normalStreakCount]
    · simpa [heq, Phase.view] using h
  | watching n => simpa [htype, Phase.view, Phase.finish, tokenMatches] using h
  | raising token n => simpa [htype, Phase.view, Phase.finish, tokenMatches] using h
  | active n => simpa [htype, Phase.view, Phase.finish, tokenMatches] using h

theorem finishRaise_view (call : FinishCall) (h : s.view call.key = phase.view)
    (htoken : ∀ token, phase.token = some token → token ≠ "") (htype : call.actionType ≠ "clear")
    (hauto : call.autoRecoveryCleared = false) :
    let r := s.finishRaise call.key call.actionToken call.success call.alarmMoi
    r.1 = (phase.finish call).1 ∧ r.2.view call.key = (phase.finish call).2.view := by
  have hexpected : s.raiseTokens.get? call.key = phase.view.raiseToken :=
    congrArg GroupView.raiseToken h
  simp only [finishRaise, hexpected]
  cases phase with
  | raising token n =>
    simp only [Phase.view, tokenMatches_some (htoken token rfl), Phase.finish, htype, hauto,
      if_false]
    by_cases heq : token = call.actionToken
    · simp only [view, Phase.view, GroupView.mk.injEq, isClearProbing, isAlarmActive] at h
      cases hsuccess : call.success <;>
        simp [heq, view, h, streakCount, isRaiseProbing, isClearProbing, isAlarmActive,
          normalStreakCount]
    · simpa [heq, Phase.view] using h
  | watching n => simpa [htype, hauto, Phase.view, Phase.finish, tokenMatches] using h
  | clearing token n => simpa [htype, hauto, Phase.view, Phase.finish, tokenMatches] using h
  | active n => simpa [htype, hauto, Phase.view, Phase.finish, tokenMatches] using h

/-- **A finish moves the group on as it moves its phase**, and is accepted if the phase accepts it. -/
theorem finishPrecisionAction_view (call : FinishCall) (h : s.view call.key = phase.view)
    (htoken : ∀ token, phase.token = some token → token ≠ "") :
    let r := s.finishPrecisionAction call.key call.actionToken call.actionType call.success
      call.alarmMoi call.autoRecoveryCleared
    r.1 = (phase.finish call).1 ∧ r.2.view call.key = (phase.finish call).2.view := by
  simp only [finishPrecisionAction]
  by_cases htype : call.actionType = "clear"
  · simpa only [htype, if_true] using finishClear_view call h htoken htype
  · cases hauto : call.autoRecoveryCleared with
    | true =>
      -- whatever the phase, the group is forgotten
      simp only [htype, Phase.finish, hauto, if_true, if_false, true_and]
      exact clearPrecisionGroupState_view s call.key
    | false => simpa [htype, hauto] using finishRaise_view call h htoken htype hauto

theorem finishPrecisionAction_view_ne {other : PdGroup} (hne : key ≠ other)
    (actionToken actionType : String) (success : Bool) (alarmMoi : Option String)
    (autoRecoveryCleared : Bool) :
    (s.finishPrecisionAction key actionToken actionType success alarmMoi
      autoRecoveryCleared).2.view other = s.view other := by
  simp only [finishPrecisionAction, finishClear, finishRaise]
  split_ifs <;>
    simp [view, clearPrecisionGroupState, streakCount, isRaiseProbing, isClearProbing,
      isAlarmActive, normalStreakCount, Dict.get?_insert_ne _ _ hne, Dict.get?_erase_ne _ hne]

theorem finishPrecisionAction_alarmMoi_ne {other : PdGroup} (hne : key ≠ other)
    (actionToken actionType : String) (success : Bool) (alarmMoi : Option String)
    (autoRecoveryCleared : Bool) :
    (s.finishPrecisionAction key actionToken actionType success alarmMoi
      autoRecoveryCleared).2.alarmMoi.get? other = s.alarmMoi.get? other := by
  simp only [finishPrecisionAction, finishClear, finishRaise]
  split_ifs <;>
    simp [clearPrecisionGroupState, Dict.get?_insert_ne _ _ hne, Dict.get?_erase_ne _ hne]

end PrecisionTables

end PyMotor.Coordinator
