import Mathlib.Data.Int.Notation
import PyMotor.Lib.Dict
import PyMotor.Lib.Run

/-!
# Precision alarms

Workers sample the output of a PD group (a prefill and a decode instance) and report to the scheduler
whether it had a precision issue. The scheduler counts
(`coordinator/scheduler/scheduler.py`, `record_precision_result`): enough issues in a row, and the
worker that reported the last one is handed a token and asked to raise an alarm; with the alarm
active, enough normal results in a row, and it is asked to clear it. The worker tells how it went with
the token (`finish_precision_action`). Somebody else may dismiss the alarm in between.

Every method takes the lock of the group, and none awaits while it holds it. So a call is one step,
and any interleaving of the workers is some order of their calls.
-/

namespace PyMotor.Coordinator

/-- A prefill instance, if there is one, and a decode instance. -/
abbrev PdGroup := Option Int × Int

/-- `uuid.uuid4()`: the strings it returns are not empty, and never twice the same. -/
structure TokenSource where
  draw : ℕ → String
  draw_injective : Function.Injective draw
  draw_ne_empty : ∀ n, draw n ≠ ""

/-- The tables of the scheduler that the alarms use. -/
structure PrecisionTables where
  streakCounts : Dict PdGroup ℕ
  raiseProbing : Dict PdGroup Bool
  raiseTokens : Dict PdGroup String
  clearProbing : Dict PdGroup Bool
  clearTokens : Dict PdGroup String
  alarmActive : Dict PdGroup Bool
  alarmMoi : Dict PdGroup String
  normalStreakCounts : Dict PdGroup ℕ

structure PrecisionResult where
  skip : Bool
  thresholdHit : Bool
  clearThresholdHit : Bool
  consecutive : ℕ
  actionToken : Option String
  alarmMoi : Option String
  deriving DecidableEq, Repr

namespace PrecisionResult

/-- Nothing to do for the worker. -/
def noAction (skip : Bool) (consecutive : ℕ) : PrecisionResult :=
  ⟨skip, false, false, consecutive, none, none⟩

end PrecisionResult

namespace PrecisionTables

def new : PrecisionTables := ⟨∅, ∅, ∅, ∅, ∅, ∅, ∅, ∅⟩

variable (s : PrecisionTables) (key : PdGroup)

/-! ## Reading the tables -/

def streakCount : ℕ := (s.streakCounts.get? key).getD 0

def normalStreakCount : ℕ := (s.normalStreakCounts.get? key).getD 0

def isRaiseProbing : Bool := (s.raiseProbing.get? key).getD false

def isClearProbing : Bool := (s.clearProbing.get? key).getD false

def isAlarmActive : Bool := (s.alarmActive.get? key).getD false

/-- What a skipped or invalid result reports as the count. -/
def consecutive : ℕ :=
  if s.isAlarmActive key then s.normalStreakCount key else s.streakCount key

/-! ## The methods -/

def clearPrecisionGroupState : PrecisionTables where
  streakCounts := s.streakCounts.erase key
  raiseProbing := s.raiseProbing.erase key
  raiseTokens := s.raiseTokens.erase key
  clearProbing := s.clearProbing.erase key
  clearTokens := s.clearTokens.erase key
  alarmActive := s.alarmActive.erase key
  alarmMoi := s.alarmMoi.erase key
  normalStreakCounts := s.normalStreakCounts.erase key

def dismissPrecisionAlarmState : Bool × PrecisionTables :=
  (true, s.clearPrecisionGroupState key)

/-- A valid result while the alarm is active: normal results are counted. -/
def recordActive (hasIssue : Bool) (clearThreshold : ℤ) (uuid : String) :
    PrecisionResult × PrecisionTables :=
  if hasIssue then
    (.noAction false 0, { s with normalStreakCounts := s.normalStreakCounts.insert key 0 })
  else
    let count := s.normalStreakCount key + 1
    let s' := { s with normalStreakCounts := s.normalStreakCounts.insert key count }
    if clearThreshold ≤ count then
      (⟨false, false, true, count, some uuid, some ((s.alarmMoi.get? key).getD "")⟩,
        { s' with
          clearProbing := s.clearProbing.insert key true
          clearTokens := s.clearTokens.insert key uuid })
    else (.noAction false count, s')

/-- A valid result while no alarm is active: issues are counted. -/
def recordInactive (hasIssue : Bool) (threshold : ℤ) (uuid : String) :
    PrecisionResult × PrecisionTables :=
  if hasIssue then
    let count := s.streakCount key + 1
    let s' := { s with streakCounts := s.streakCounts.insert key count }
    if threshold ≤ count then
      (⟨false, true, false, count, some uuid, none⟩,
        { s' with
          raiseProbing := s.raiseProbing.insert key true
          raiseTokens := s.raiseTokens.insert key uuid })
    else (.noAction false count, s')
  else (.noAction false 0, { s with streakCounts := s.streakCounts.insert key 0 })

/-- `uuid` is the next string that `uuid.uuid4()` returns. -/
def recordPrecisionResult (hasIssue : Bool) (threshold clearThreshold : ℤ) (checkValid : Bool)
    (uuid : String) : PrecisionResult × PrecisionTables :=
  if s.isRaiseProbing key || s.isClearProbing key then (.noAction true (s.consecutive key), s)
  else if !checkValid then (.noAction false (s.consecutive key), s)
  else if s.isAlarmActive key then s.recordActive key hasIssue clearThreshold uuid
  else s.recordInactive key hasIssue threshold uuid

/-- `not expected or expected != action_token`, negated. -/
def tokenMatches (expected : Option String) (actionToken : String) : Bool :=
  match expected with
  | none => false
  | some expected => decide (expected ≠ "") && decide (expected = actionToken)

def finishClear (actionToken : String) (success : Bool) : Bool × PrecisionTables :=
  if tokenMatches (s.clearTokens.get? key) actionToken then
    let s' := { s with
      clearProbing := s.clearProbing.insert key false
      clearTokens := s.clearTokens.erase key }
    if success then (true, s'.clearPrecisionGroupState key)
    else (true, { s' with normalStreakCounts := s.normalStreakCounts.insert key 0 })
  else (false, s)

def finishRaise (actionToken : String) (success : Bool) (alarmMoi : Option String) :
    Bool × PrecisionTables :=
  if tokenMatches (s.raiseTokens.get? key) actionToken then
    let s' := { s with
      raiseProbing := s.raiseProbing.insert key false
      raiseTokens := s.raiseTokens.erase key
      streakCounts := s.streakCounts.insert key 0
      normalStreakCounts := s.normalStreakCounts.insert key 0 }
    if !success then (true, s')
    else
      let moi := alarmMoi.getD ""
      (true, { s' with
        alarmActive := s.alarmActive.insert key true
        alarmMoi := if moi = "" then s.alarmMoi else s.alarmMoi.insert key moi })
  else (false, s)

/-- Any action type other than `"clear"` is a raise. Whether the call was accepted. -/
def finishPrecisionAction (actionToken actionType : String) (success : Bool)
    (alarmMoi : Option String) (autoRecoveryCleared : Bool) : Bool × PrecisionTables :=
  if actionType = "clear" then s.finishClear key actionToken success
  else if autoRecoveryCleared then (true, s.clearPrecisionGroupState key)
  else s.finishRaise key actionToken success alarmMoi

end PrecisionTables

/-! ## Calls -/

/-- The arguments of `record_precision_result`. -/
structure RecordCall where
  key : PdGroup
  hasIssue : Bool
  threshold : ℤ
  clearThreshold : ℤ
  checkValid : Bool
  deriving DecidableEq, Repr

/-- The arguments of `finish_precision_action`. -/
structure FinishCall where
  key : PdGroup
  actionToken : String
  actionType : String
  success : Bool
  alarmMoi : Option String
  autoRecoveryCleared : Bool
  deriving DecidableEq, Repr

inductive PrecisionCall where
  | record (call : RecordCall)
  | finish (call : FinishCall)
  | dismiss (key : PdGroup)
  deriving DecidableEq, Repr

/-- A call and what it returned. -/
inductive PrecisionEvent where
  | recorded (call : RecordCall) (result : PrecisionResult)
  | finished (call : FinishCall) (accepted : Bool)
  | dismissed (key : PdGroup)
  deriving DecidableEq, Repr

/-- The tables, how many tokens were drawn, and what has happened, newest last. -/
structure PrecisionRun where
  tables : PrecisionTables
  drawn : ℕ
  history : List PrecisionEvent

namespace PrecisionRun

def start : PrecisionRun := ⟨.new, 0, []⟩

def exec (uuid4 : TokenSource) (s : PrecisionRun) : PrecisionCall → Option PrecisionRun
  | .record call =>
    let (result, tables) := s.tables.recordPrecisionResult call.key call.hasIssue call.threshold
      call.clearThreshold call.checkValid (uuid4.draw s.drawn)
    some {
      tables := tables
      drawn := if result.actionToken.isSome then s.drawn + 1 else s.drawn
      history := s.history ++ [.recorded call result] }
  | .finish call =>
    let (accepted, tables) := s.tables.finishPrecisionAction call.key call.actionToken
      call.actionType call.success call.alarmMoi call.autoRecoveryCleared
    some { s with tables := tables, history := s.history ++ [.finished call accepted] }
  | .dismiss key =>
    let (_, tables) := s.tables.dismissPrecisionAlarmState key
    some { s with tables := tables, history := s.history ++ [.dismissed key] }

end PrecisionRun

end PyMotor.Coordinator
