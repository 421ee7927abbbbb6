import Mathlib.Algebra.Order.Ring.Rat
import PyMotor.Lib.Dict

/-!
# Faults of the engines

A node manager polls the fault tolerance status of its endpoints and forwards what is not healthy to the
controller (`node_manager/core/fault_reporter.py`, `FaultReporter`). An endpoint lists the engines behind it,
each with a status; for each endpoint one status is remembered, so that a fault is not reported again. An
endpoint that cannot be reached several times in a row is reported dead.

A `Move` polls one endpoint; a round polls one after the other, with one time and one configuration. The move
says what the poll found and which of the deliveries to the controller work, in the order in which they are
made.
-/

namespace PyMotor.NodeManager

/-! ## What a poll finds -/

/-- An entry of the payload. It has no status if it has none that is a text. -/
structure EngineEntry where
  id : ℤ
  status : Option String
  faultInfo : Option String
  deriving DecidableEq, Repr

inductive PollResult where
  | failed
  /-- The payload lists no engines that could be read. -/
  | malformed
  | engines (entries : List EngineEntry)
  deriving DecidableEq, Repr

def engineStatusHealthy : String := "healthy"

def engineStatusDead : String := "dead"

def engineStatusUnhealthy : String := "unhealthy"

/-- What the controller is told. -/
def engineStatusNameToInt (status : String) : Option ℕ :=
  if status = engineStatusHealthy then some 0
  else if status = engineStatusDead then some 1
  else if status = engineStatusUnhealthy then some 2
  else none

/-! ## Deliveries -/

structure FaultData where
  exceptionType : String
  exceptionMessage : String
  engineId : ℤ
  engineStatus : ℕ
  podIp : String
  deriving DecidableEq, Repr

structure Delivery where
  fault : FaultData
  succeeded : Bool
  deriving DecidableEq, Repr

/-- What a poll works on: the statuses remembered, what becomes of the deliveries to come, and those made. -/
structure Sending where
  knownStatuses : Dict ℤ String
  answers : List Bool
  deliveries : List Delivery

namespace Sending

variable (x : Sending)

def remember (epId : ℤ) (status : String) : Sending :=
  { x with knownStatuses := x.knownStatuses.insert epId status }

/-- Deliver a fault, and remember its status if that worked. -/
def sendFault (fault : FaultData) (epId : ℤ) (status : String) : Sending :=
  let sent : Sending := { x with
    answers := x.answers.tail
    deliveries := x.deliveries ++ [⟨fault, x.answers.headD false⟩] }
  if x.answers.headD false then sent.remember epId status else sent

/-- The type and the message of a fault that an engine lists. -/
def exceptionOf (status faultInfo : String) : String × String :=
  if status = "unhealthy" ∧ faultInfo ≠ "" then (faultInfo, "Engine unhealthy: " ++ faultInfo)
  else if status = engineStatusDead then ("EngineDeadError", "Engine process died")
  else ("EngineUnhealthyError", "Engine unhealthy")

/-- `None` when the entry cannot be read. -/
def processEngineStatus (podIp : String) (epId : ℤ) (engine : EngineEntry) : Option Sending :=
  match engine.status with
  | none => none
  | some status =>
    if status = engineStatusHealthy then some (x.remember epId status)
    else if x.knownStatuses.get? epId = some status then some x
    else
      match engineStatusNameToInt status with
      | none => some x
      | some engineStatus =>
        let exception := exceptionOf status (engine.faultInfo.getD "")
        some (x.sendFault ⟨exception.1, exception.2, epId, engineStatus, podIp⟩ epId status)

/-- The entries in the order of the payload, up to one that cannot be read. -/
def processEngines (podIp : String) (epId : ℤ) : List EngineEntry → Sending → Sending
  | [], x => x
  | engine :: engines, x =>
    match x.processEngineStatus podIp epId engine with
    | none => x
    | some x => processEngines podIp epId engines x

/-- `_STARTUP_GRACE_SEC` -/
def startupGraceSec : ℚ := 300

def reportUnreachableDead (podIp : String) (epId : ℤ) (failures : ℕ) (firstPoll clock : ℚ) : Sending :=
  if x.knownStatuses.get? epId = some engineStatusDead then x
  else if clock - firstPoll < startupGraceSec then x
  else x.sendFault ⟨"EngineDeadError",
    "Engine unreachable after " ++ toString failures ++ " consecutive polls", epId, 1, podIp⟩ epId
    engineStatusDead

end Sending

/-! ## The loop -/

structure FtConfig where
  podIp : String
  maxPollFailures : ℤ
  deriving DecidableEq, Repr

/-- The poll of one endpoint. `now` is when the round began, `clock` when the poll came back. -/
structure PollMove where
  config : FtConfig
  now : ℚ
  endpointId : ℤ
  result : PollResult
  clock : ℚ
  answers : List Bool
  deriving DecidableEq, Repr

/-- A poll and what was delivered after it. -/
structure Poll where
  endpointId : ℤ
  result : PollResult
  deliveries : List Delivery
  deriving DecidableEq, Repr

structure FaultReporter where
  knownStatuses : Dict ℤ String
  consecutiveFailures : Dict ℤ ℕ
  firstPollTime : Dict ℤ ℚ
  /-- The polls so far, newest first. -/
  polls : List Poll

namespace FaultReporter

def new : FaultReporter := ⟨∅, ∅, ∅, []⟩

variable (s : FaultReporter)

/-- `setdefault` -/
def firstPoll (epId : ℤ) (now : ℚ) : ℚ := (s.firstPollTime.get? epId).getD now

/-- How often in a row the endpoint was not reached, with this poll. -/
def failures (m : PollMove) : ℕ :=
  match m.result with
  | .failed => (s.consecutiveFailures.get? m.endpointId).getD 0 + 1
  | _ => 0

/-- What the poll makes of the statuses remembered, and what it delivers. -/
def sending (m : PollMove) : Sending :=
  let x : Sending := ⟨s.knownStatuses, m.answers, []⟩
  match m.result with
  | .failed =>
    if m.config.maxPollFailures ≤ s.failures m then
      x.reportUnreachableDead m.config.podIp m.endpointId (s.failures m)
        (s.firstPoll m.endpointId m.now) m.clock
    else x
  | .malformed => x
  | .engines entries => x.processEngines m.config.podIp m.endpointId entries

/-- `_poll_engine` for one endpoint of a round. -/
def pollEngine (m : PollMove) : FaultReporter where
  knownStatuses := (s.sending m).knownStatuses
  consecutiveFailures := s.consecutiveFailures.insert m.endpointId (s.failures m)
  firstPollTime := s.firstPollTime.insert m.endpointId (s.firstPoll m.endpointId m.now)
  polls := ⟨m.endpointId, m.result, (s.sending m).deliveries⟩ :: s.polls

def exec (m : PollMove) : Option FaultReporter := some (s.pollEngine m)

end FaultReporter

end PyMotor.NodeManager
