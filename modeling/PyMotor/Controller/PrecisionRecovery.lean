import Mathlib
import PyMotor.Controller.AlarmStore
import PyMotor.Coordinator.PrecisionAlarm.Safety

/-!
# Precision alarms on their way

The scheduler of the coordinator decides when the alarm of a PD group is raised and cleared, and hands a
token to the worker that is to do it (`Coordinator/PrecisionAlarm`). The worker reports the alarm to the
controller (`coordinator/fault_tolerance/precision/reporter.py`, `alarm/precision_alarm.py`) and then
tells the scheduler how it went. The controller puts the alarm into its store, or recovers the group at
once: it stops the instances, raises and clears the alarm, and has the coordinator forget the group
(`controller/core/recovery_service.py`).

A step here is what one of them does with one message. Messages get lost, before they are handled or after. A request
to forget a group may arrive late, also after its sender has given up.
-/

namespace PyMotor.Controller

open Coordinator
open Router.PrecisionSample (intOfString)

/-- What does not change while the program runs. -/
structure PrecisionConfig where
  uuid4 : TokenSource
  podIp : String
  northPlatform : String
  enableObservabilityApi : Bool

/-! ## Records -/

def buildPrecisionMoi (podIp : String) (key : PdGroup) : String :=
  let base := "service name=Coordinator, service ip=" ++ podIp
  match key.1 with
  | some p => base ++ ", pId=" ++ Int.repr p ++ ", instanceId=" ++ Int.repr key.2
  | none => base ++ ", instanceId=" ++ Int.repr key.2

def precisionIssueAlarm (podIp : String) (key : PdGroup) (alarmMoi : Option String) : AlarmRecord where
  alarmId := precisionIssueAlarmId
  category := .alarm
  cleared := false
  moi := alarmMoi.getD (buildPrecisionMoi podIp key)
  instanceId := Int.repr key.2
  pInstanceId := (key.1.map Int.repr).getD ""

namespace AlarmRecord

def clear (r : AlarmRecord) : AlarmRecord := { r with cleared := true, category := .clear }

def isPrecisionRaiseAlarm (r : AlarmRecord) : Bool :=
  decide (r.alarmId = precisionIssueAlarmId) && decide (r.category = .alarm) && !r.cleared

/-- The group of a record, if its texts are numbers. -/
def group (r : AlarmRecord) : Option PdGroup := do
  let d ← if r.instanceId = "" then some 0 else intOfString r.instanceId
  let p ← if r.pInstanceId = "" then some none else (intOfString r.pInstanceId).map some
  return (p, d)

end AlarmRecord

/-! ## Workers -/

inductive ActionKind where
  | raise
  | clear (alarmMoi : Option String)
  deriving DecidableEq, Repr

structure AlarmReportOutcome where
  success : Bool
  moi : String
  autoRecoveryCleared : Bool
  deriving DecidableEq, Repr

/-- The task of a worker; it has an outcome once it has reported. -/
structure PrecisionAction where
  key : PdGroup
  actionToken : Option String
  kind : ActionKind
  outcome : Option AlarmReportOutcome
  deriving DecidableEq, Repr

/-- What a worker does with the answer of the scheduler (`handle`). -/
def launch (key : PdGroup) (streak : PrecisionResult) : Option PrecisionAction :=
  if streak.skip then none
  else if streak.clearThresholdHit then some ⟨key, streak.actionToken, .clear streak.alarmMoi, none⟩
  else if streak.thresholdHit then some ⟨key, streak.actionToken, .raise, none⟩
  else none

namespace PrecisionAction

/-- What is reported, if anything is. -/
def payload (podIp : String) (a : PrecisionAction) : Option AlarmRecord :=
  match a.kind with
  | .raise => some (precisionIssueAlarm podIp a.key none)
  | .clear alarmMoi =>
    if alarmMoi.getD "" = "" then none else some (precisionIssueAlarm podIp a.key alarmMoi).clear

/-- `_run_action`, after the report. -/
def finishCall (a : PrecisionAction) (outcome : AlarmReportOutcome) (actionToken : String) : FinishCall :=
  match a.kind with
  | .raise => ⟨a.key, actionToken, "raise", outcome.success, some outcome.moi, outcome.autoRecoveryCleared⟩
  | .clear _ => ⟨a.key, actionToken, "clear", outcome.success, none, outcome.autoRecoveryCleared⟩

end PrecisionAction

/-! ## Controller -/

structure PrecisionLoop where
  run : PrecisionRun
  store : AlarmStore
  /-- The tasks that have not told the scheduler yet. -/
  actions : List PrecisionAction
  /-- The groups that the coordinator is asked to forget. -/
  dismissals : List PdGroup

/-- The instances of a group were stopped, and the coordinator could be asked. -/
structure GroupRecovery where
  terminated : Bool
  notified : Bool
  deriving DecidableEq, Repr

/-- What becomes of a report. -/
inductive Delivery where
  | lost
  /-- The coordinator is a standby, which reports nothing. -/
  | standby
  | handled (precisionAutoRecoveryEnabled : Bool) (recovery : GroupRecovery) (answered : Bool)
  deriving DecidableEq, Repr

inductive LoopStep where
  /-- A worker has checked a sample. -/
  | record (call : RecordCall) (answered : Bool)
  | report (i : ℕ) (delivery : Delivery)
  | finish (i : ℕ) (arrives : Bool)
  /-- The coordinator is asked to forget a group. -/
  | dismiss (i : ℕ) (arrives : Bool)
  /-- An operator has a group recovered. -/
  | terminateInstance (key : PdGroup) (recovery : GroupRecovery)
  /-- Other alarms and events. -/
  | addAlarms (records : List AlarmRecord)
  | getAlarms (sourceId : Option String)
  deriving DecidableEq, Repr

namespace PrecisionLoop

variable (c : PrecisionConfig)

def new : PrecisionLoop := ⟨.start, .new c.northPlatform, [], []⟩

variable (s : PrecisionLoop)

/-- A call of the scheduler. -/
def call (call : PrecisionCall) : PrecisionLoop := { s with run := (s.run.exec c.uuid4 call).getD s.run }

/-- `_normalize_p_id` and `_normalize_d_id` -/
def normalize (key : PdGroup) : PdGroup := (key.1.filter fun p => decide (0 < p), max key.2 0)

/-- `terminate_pd_group`: there is something to stop, and it stops. -/
def terminatePdGroup (key : PdGroup) (recovery : GroupRecovery) : Bool :=
  (decide (0 < key.2) || key.1.isSome) && recovery.terminated

def notifyPrecisionAlarmCleared (key : PdGroup) (recovery : GroupRecovery) : PrecisionLoop :=
  if recovery.notified then { s with dismissals := s.dismissals ++ [key] } else s

/-- Whether the alarm was cleared. -/
def completePrecisionPdGroupRecovery (key : PdGroup) (raiseRecord : Option AlarmRecord) (recovery : GroupRecovery) :
    Bool × PrecisionLoop :=
  let key := normalize key
  if terminatePdGroup key recovery then
    match raiseRecord.or (s.store.findActivePrecisionAlarm key.1 key.2) with
    | none => (false, s.notifyPrecisionAlarmCleared key recovery)
    | some r =>
      let store := if c.enableObservabilityApi then s.store.addAlarms [r, r.clear] else s.store
      (true, { s with store := store }.notifyPrecisionAlarmCleared key recovery)
  else (false, s)

/-- `_add_alarm`: the group is recovered, or the record goes into the store. -/
def addAlarm (r : AlarmRecord) (precisionAutoRecoveryEnabled : Bool) (recovery : GroupRecovery) :
    Bool × PrecisionLoop :=
  let (cleared, s) :=
    match r.group with
    | some key =>
      if r.isPrecisionRaiseAlarm && precisionAutoRecoveryEnabled then
        s.completePrecisionPdGroupRecovery c key (some r) recovery
      else (false, s)
    | none => (false, s)
  if cleared then (true, s)
  else if c.enableObservabilityApi then (false, { s with store := s.store.addAlarm r })
  else (false, s)

/-- `report_alarms` -/
def reportAlarms (r : AlarmRecord) : Delivery → AlarmReportOutcome × PrecisionLoop
  | .lost => (⟨false, r.moi, false⟩, s)
  | .standby => (⟨true, r.moi, false⟩, s)
  | .handled precisionAutoRecoveryEnabled recovery answered =>
    let (cleared, s) := s.addAlarm c r precisionAutoRecoveryEnabled recovery
    (if answered then ⟨true, r.moi, cleared⟩ else ⟨false, r.moi, false⟩, s)

/-- A clear without the name of the alarm fails, and nothing is sent. -/
def report (a : PrecisionAction) (delivery : Delivery) : AlarmReportOutcome × PrecisionLoop :=
  match a.payload c.podIp with
  | none => (⟨false, "", false⟩, s)
  | some r => s.reportAlarms c r delivery

def exec : LoopStep → Option PrecisionLoop
  | .record call answered =>
    let result := (s.run.tables.recordPrecisionResult call.key call.hasIssue call.threshold
      call.clearThreshold call.checkValid (c.uuid4.draw s.run.drawn)).1
    some { s.call c (.record call) with
      actions := s.actions ++ if answered then (launch call.key result).toList else [] }
  | .report i delivery =>
    match s.actions[i]? with
    | some a =>
      if a.outcome.isNone then
        let (outcome, s) := s.report c a delivery
        some { s with actions := s.actions.set i { a with outcome := some outcome } }
      else none
    | none => none
  | .finish i arrives =>
    match s.actions[i]? with
    | some a =>
      a.outcome.map fun outcome =>
        let s := { s with actions := s.actions.eraseIdx i }
        match a.actionToken with
        | some actionToken =>
          if arrives then s.call c (.finish (a.finishCall outcome actionToken)) else s
        | none => s
    | none => none
  | .dismiss i arrives =>
    s.dismissals[i]?.map fun key =>
      let s := { s with dismissals := s.dismissals.eraseIdx i }
      if arrives then s.call c (.dismiss key) else s
  | .terminateInstance key recovery => some (s.completePrecisionPdGroupRecovery c key none recovery).2
  | .addAlarms records =>
    if records.all fun r => !r.isPrecision then some { s with store := s.store.addAlarms records } else none
  | .getAlarms sourceId => some { s with store := (s.store.getAlarms sourceId).2 }

/-! ## What a step does -/

variable {c s} {s' : PrecisionLoop} {i : ℕ} {arrives : Bool}

theorem exec_report {delivery : Delivery} (h : s.exec c (.report i delivery) = some s') :
    ∃ a, s.actions[i]? = some a ∧ a.outcome = none ∧ s' = { (s.report c a delivery).2 with
      actions := (s.report c a delivery).2.actions.set i { a with outcome := some (s.report c a delivery).1 } } := by
  simp only [exec] at h
  cases hget : s.actions[i]? with
  | none => simp [hget] at h
  | some a =>
    simp only [hget] at h
    split at h
    · next hnew => exact ⟨a, rfl, Option.isNone_iff_eq_none.mp hnew, (Option.some.inj h).symm⟩
    · cases h

theorem exec_finish (h : s.exec c (.finish i arrives) = some s') :
    ∃ a outcome, s.actions[i]? = some a ∧ a.outcome = some outcome ∧
      (s' = { s with actions := s.actions.eraseIdx i } ∨ ∃ actionToken, a.actionToken = some actionToken ∧
        s' = ({ s with actions := s.actions.eraseIdx i } : PrecisionLoop).call c
          (.finish (a.finishCall outcome actionToken))) := by
  simp only [exec] at h
  cases hget : s.actions[i]? with
  | none => simp [hget] at h
  | some a =>
    simp only [hget, Option.map_eq_some_iff] at h
    obtain ⟨outcome, houtcome, rfl⟩ := h
    refine ⟨a, outcome, rfl, houtcome, ?_⟩
    split
    · next actionToken htoken =>
      split
      · exact Or.inr ⟨actionToken, htoken, rfl⟩
      · exact Or.inl rfl
    · exact Or.inl rfl

theorem exec_dismiss (h : s.exec c (.dismiss i arrives) = some s') :
    ∃ key, s.dismissals[i]? = some key ∧ (s' = { s with dismissals := s.dismissals.eraseIdx i } ∨
      s' = ({ s with dismissals := s.dismissals.eraseIdx i } : PrecisionLoop).call c (.dismiss key)) := by
  simp only [exec, Option.map_eq_some_iff] at h
  obtain ⟨key, hget, rfl⟩ := h
  refine ⟨key, hget, ?_⟩
  split
  · exact Or.inr rfl
  · exact Or.inl rfl

theorem exec_addAlarms {records : List AlarmRecord} (h : s.exec c (.addAlarms records) = some s') :
    records.all (fun r => !r.isPrecision) = true ∧ s' = { s with store := s.store.addAlarms records } := by
  simp only [exec] at h
  split at h
  · next hother => exact ⟨hother, (Option.some.inj h).symm⟩
  · cases h

end PrecisionLoop

end PyMotor.Controller
