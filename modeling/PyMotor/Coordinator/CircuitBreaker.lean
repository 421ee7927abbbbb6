import PyMotor.Coordinator.Membership

/-!
# Circuit breakers

The scheduler counts the failures that workers report for an instance. At the third in a row its circuit
opens and the instance is not scheduled any more (`coordinator/domain/circuit_breaker.py`). A recovery
task waits, probes the instance, and closes the circuit or waits again, twice as long
(`coordinator/scheduler/runtime/scheduler_server.py`).

The scheduler is an event loop: what happens between two awaits is one step. A task that is cancelled
finds out when it goes on.
-/

namespace PyMotor.Coordinator

/-! ## The state of the circuits -/

inductive CircuitState where
  | open
  | closed
  deriving DecidableEq, Repr

structure CircuitBreakerState where
  state : CircuitState
  tripCount : ℕ
  failureCount : ℕ
  /-- In seconds. -/
  currentTimeout : ℕ
  deriving DecidableEq, Repr

namespace CircuitBreakerState

def new : CircuitBreakerState := ⟨.closed, 0, 0, 0⟩

def isOpen (st : CircuitBreakerState) : Bool := decide (st.state = .open)

def tripState (st : CircuitBreakerState) (timeout : ℕ) : CircuitBreakerState :=
  { st with state := .open, currentTimeout := timeout }

/-- Closed, with all counts at zero. -/
def reset (st : CircuitBreakerState) : CircuitBreakerState :=
  { st with state := .closed, tripCount := 0, failureCount := 0, currentTimeout := 0 }

end CircuitBreakerState

def cbBaseTimeout : ℕ := 30

def cbMaxTimeout : ℕ := 300

/-- `OverflowError: int too large to convert to float`. -/
inductive OverflowError where
  | tooLarge
  deriving DecidableEq, Repr

/-- A power of two as a floating-point number. The largest exponent is 1023. -/
def powerAsFloat (exponent : ℕ) : Except OverflowError ℕ :=
  if exponent < 1024 then .ok (2 ^ exponent) else .error .tooLarge

/-- `min(_CB_BASE_TIMEOUT * 2 ** (trip_count - 1), _CB_MAX_TIMEOUT)`. Where the product is infinite as
a floating-point number, the minimum is the same. -/
def backoff (tripCount : ℕ) : Except OverflowError ℕ :=
  (powerAsFloat (tripCount - 1)).map fun power => min (cbBaseTimeout * power) cbMaxTimeout

structure CircuitBreakerManager where
  pool : Dict InstanceId CircuitBreakerState

namespace CircuitBreakerManager

def new : CircuitBreakerManager := ⟨∅⟩

def isOpen (m : CircuitBreakerManager) (id : InstanceId) : Bool :=
  match m.pool.get? id with
  | none => false
  | some st => st.isOpen

def getOrCreate (m : CircuitBreakerManager) (id : InstanceId) : CircuitBreakerState :=
  (m.pool.get? id).getD .new

/-- The timeout if the circuit trips. What was counted stays counted if the timeout cannot be
computed. -/
def processFailure (m : CircuitBreakerManager) (id : InstanceId) :
    Except OverflowError (Option ℕ) × CircuitBreakerManager :=
  let st := m.getOrCreate id
  if st.isOpen then (.ok none, ⟨m.pool.insert id st⟩)
  else
    let st := { st with failureCount := st.failureCount + 1 }
    if st.failureCount < 3 then (.ok none, ⟨m.pool.insert id st⟩)
    else
      let st := { st with tripCount := st.tripCount + 1 }
      match backoff st.tripCount with
      | .error err => (.error err, ⟨m.pool.insert id st⟩)
      | .ok timeout => (.ok (some timeout), ⟨m.pool.insert id (st.tripState timeout)⟩)

/-- Whether the success closed an open circuit. -/
def processSuccess (m : CircuitBreakerManager) (id : InstanceId) : Bool × CircuitBreakerManager :=
  match m.pool.get? id with
  | none => (false, m)
  | some st => (st.isOpen, ⟨m.pool.insert id st.reset⟩)

/-- The next timeout, unless the circuit is not open. -/
def processProbeFailure (m : CircuitBreakerManager) (id : InstanceId) :
    Except OverflowError (Option ℕ) × CircuitBreakerManager :=
  match m.pool.get? id with
  | none => (.ok none, m)
  | some st =>
    if st.isOpen then
      let st := { st with tripCount := st.tripCount + 1 }
      match backoff st.tripCount with
      | .error err => (.error err, ⟨m.pool.insert id st⟩)
      | .ok timeout => (.ok (some timeout), ⟨m.pool.insert id { st with currentTimeout := timeout }⟩)
    else (.ok none, m)

def autoRecover (m : CircuitBreakerManager) (id : InstanceId) : Bool × CircuitBreakerManager :=
  match m.pool.get? id with
  | none => (false, m)
  | some st => if st.isOpen then (true, ⟨m.pool.insert id st.reset⟩) else (false, m)

def clearInstance (m : CircuitBreakerManager) (id : InstanceId) : CircuitBreakerManager :=
  ⟨m.pool.erase id⟩

def clearAll (_ : CircuitBreakerManager) : CircuitBreakerManager := ⟨∅⟩

def getOpenInstanceIds (m : CircuitBreakerManager) : List InstanceId :=
  (m.pool.filter fun _ st => st.isOpen).keys

end CircuitBreakerManager

/-! ## Recovery tasks -/

/-- Where `_auto_recover` awaits. -/
inductive RecoveryStage where
  /-- The timeout. -/
  | sleeping
  /-- The answers of the endpoints. -/
  | probing
  /-- The publication that the circuit of an instance that is not available was cleared. -/
  | dropping
  /-- The publication that the circuit recovered. -/
  | closing
  | done
  deriving DecidableEq, Repr

structure RecoveryTask where
  instanceId : InstanceId
  timeout : ℕ
  stage : RecoveryStage
  cancelRequested : Bool
  deriving DecidableEq, Repr

namespace RecoveryTask

/-- Cancelling a task that is done does nothing. -/
def cancel (task : RecoveryTask) : RecoveryTask :=
  if task.stage = .done then task else { task with cancelRequested := true }

def finish (task : RecoveryTask) : RecoveryTask := { task with stage := .done }

/-- The task goes on by itself when what it awaits is there. -/
def live (task : RecoveryTask) : Bool := decide (task.stage ≠ .done) && !task.cancelRequested

end RecoveryTask

/-! ## The scheduler -/

inductive Publication where
  | instances (changed : InstanceChanged)
  | circuit (id : InstanceId) (state : CircuitState)

inductive CircuitReport where
  | failure
  | success
  deriving DecidableEq, Repr

/-- Bookkeeping: what happened to the circuits. -/
inductive CircuitEvent where
  | failed (id : InstanceId)
  | succeeded (id : InstanceId)
  | tripped (id : InstanceId)
  | probeFailed (id : InstanceId)
  | recovered (id : InstanceId)
  | cleared (id : InstanceId)
  | clearedAll
  deriving DecidableEq, Repr

structure BreakerServer where
  server : SchedulerServer
  cbManager : CircuitBreakerManager
  recoveryTimers : Dict InstanceId ℕ
  /-- All recovery tasks ever created, in the order of their creation. -/
  tasks : List RecoveryTask
  /-- The instances whose circuits a `SET` cleared; a task of its own tells the workers. -/
  closedToPublish : List InstanceId
  /-- What was published and not yet taken off the channel. -/
  channel : List Publication
  history : List CircuitEvent
  /-- Whether a method of the manager raised. -/
  raised : Bool

namespace BreakerServer

def start : BreakerServer := ⟨.start, .new, ∅, [], [], [], [], false⟩

def record (s : BreakerServer) (events : List CircuitEvent) : BreakerServer :=
  { s with history := s.history ++ events }

def publishCircuitBreaker (s : BreakerServer) (id : InstanceId) (state : CircuitState) : BreakerServer :=
  { s with channel := s.channel ++ [.circuit id state] }

/-- The task that is registered for an instance is cancelled. -/
def cancelTimer (s : BreakerServer) (id : InstanceId) : List RecoveryTask :=
  match s.recoveryTimers.get? id with
  | none => s.tasks
  | some i => s.tasks.modify i RecoveryTask.cancel

def scheduleRecovery (s : BreakerServer) (id : InstanceId) (timeout : ℕ) : BreakerServer :=
  { s with
    tasks := s.cancelTimer id ++ [⟨id, timeout, .sleeping, false⟩]
    recoveryTimers := s.recoveryTimers.insert id s.tasks.length }

def cancelRecovery (s : BreakerServer) (id : InstanceId) : BreakerServer :=
  { s with tasks := s.cancelTimer id, recoveryTimers := s.recoveryTimers.erase id }

def finishTask (s : BreakerServer) (i : ℕ) : BreakerServer :=
  { s with tasks := s.tasks.modify i RecoveryTask.finish }

def moveTask (s : BreakerServer) (i : ℕ) (stage : RecoveryStage) : BreakerServer :=
  { s with tasks := s.tasks.modify i fun task => { task with stage := stage } }

/-! ### Reports -/

def reportFailure (s : BreakerServer) (id : InstanceId) : BreakerServer :=
  match s.cbManager.processFailure id with
  | (.error _, m) => { s with cbManager := m, raised := true }.record [.failed id]
  | (.ok none, m) => { s with cbManager := m }.record [.failed id]
  | (.ok (some timeout), m) =>
    (({ s with cbManager := m }.record [.failed id, .tripped id]).scheduleRecovery id
      timeout).publishCircuitBreaker id .open

def reportSuccess (s : BreakerServer) (id : InstanceId) : BreakerServer :=
  match s.cbManager.processSuccess id with
  | (false, m) => { s with cbManager := m }.record [.succeeded id]
  | (true, m) =>
    (({ s with cbManager := m }.record [.succeeded id]).cancelRecovery id).publishCircuitBreaker id
      .closed

def handleCircuitBreakerReport (s : BreakerServer) (id : InstanceId) : CircuitReport → BreakerServer
  | .failure => s.reportFailure id
  | .success => s.reportSuccess id

/-! ### Refresh events -/

def clearCircuit (s : BreakerServer) (id : InstanceId) : BreakerServer :=
  ({ s with cbManager := s.cbManager.clearInstance id }.record [.cleared id]).cancelRecovery id

/-- A `SET` clears all circuits and cancels all timers. -/
def clearCircuits (s : BreakerServer) : BreakerServer :=
  { s with
    closedToPublish := s.closedToPublish ++ s.cbManager.getOpenInstanceIds
    cbManager := s.cbManager.clearAll
    tasks := s.recoveryTimers.values.foldl (fun tasks i => tasks.modify i RecoveryTask.cancel) s.tasks
    recoveryTimers := ∅ }.record [.clearedAll]

def resetCircuits (s : BreakerServer) (eventType : EventType) (instances : List Instance) :
    BreakerServer :=
  match eventType with
  | .set => s.clearCircuits
  | .del => instances.foldl (fun s inst => s.clearCircuit inst.id) s
  | .add => s
  | .pause => s
  | .resume => s

/-- A refresh that raises leaves the circuits alone. Otherwise they are reset before anything is
published. -/
def handleRefreshInstances (s : BreakerServer) (σ : HashOrder InstanceId) (eventType : EventType)
    (instances : List Instance) : BreakerServer :=
  match s.server.instanceManager.refreshInstances σ eventType instances with
  | (.error _, m) => { s with server := ⟨m, s.server.instanceVersion⟩ }
  | (.ok _, _) =>
    let (server, changed) := s.server.handleRefreshInstances σ eventType instances
    let s := { s with server := server }.resetCircuits eventType instances
    { s with channel := s.channel ++ changed.toList.map .instances }

/-! ### Recovery -/

/-- The probe failed. A task that schedules its successor cancels itself, and returns. -/
def probeFailed (s : BreakerServer) (i : ℕ) (id : InstanceId) : BreakerServer :=
  match s.cbManager.processProbeFailure id with
  | (.error _, m) => ({ s with cbManager := m, raised := true }.record [.probeFailed id]).finishTask i
  | (.ok none, m) => { s with cbManager := m }.finishTask i
  | (.ok (some timeout), m) =>
    (({ s with cbManager := m }.record [.probeFailed id]).scheduleRecovery id timeout).finishTask i

/-- A task removes only its own entry. -/
def closeTask (s : BreakerServer) (i : ℕ) (id : InstanceId) : BreakerServer :=
  let timers :=
    if s.recoveryTimers.get? id = some i then s.recoveryTimers.erase id else s.recoveryTimers
  { s with recoveryTimers := timers }.finishTask i

def probeSucceeded (s : BreakerServer) (i : ℕ) (id : InstanceId) : BreakerServer :=
  match s.cbManager.autoRecover id with
  | (true, m) =>
    (({ s with cbManager := m }.record [.recovered id]).publishCircuitBreaker id .closed).moveTask i
      .closing
  | (false, m) => { s with cbManager := m }.closeTask i id

def isAvailable (s : BreakerServer) (id : InstanceId) : Bool :=
  (s.server.instanceManager.getAvailableInstances none).contains id

/-- `_probe_instance` up to its first await. An instance that is not available is not probed, and
without endpoints the probe fails at once. -/
def probeInstance (s : BreakerServer) (i : ℕ) (id : InstanceId) (hasEndpoints : Bool) : BreakerServer :=
  if !s.isAvailable id then
    (({ s with cbManager := s.cbManager.clearInstance id }.record [.cleared id]).publishCircuitBreaker
      id .closed).moveTask i .dropping
  else if !hasEndpoints then s.probeFailed i id
  else s.moveTask i .probing

/-- The task goes on after the publication it awaited. -/
def resumeTask (s : BreakerServer) (i : ℕ) (task : RecoveryTask) : Option BreakerServer :=
  match task.stage with
  | .dropping => some (s.probeFailed i task.instanceId)
  | .closing => some (s.closeTask i task.instanceId)
  | _ => none

/-- The `CancelledError` is raised where the task awaits. -/
def cancelTask (s : BreakerServer) (i : ℕ) (task : RecoveryTask) : Option BreakerServer :=
  match task.stage with
  | .closing => some (s.closeTask i task.instanceId)
  | .done => none
  | _ => some (s.finishTask i)

end BreakerServer

/-! ## Steps -/

inductive BreakerStep where
  | refresh (σ : HashOrder InstanceId) (eventType : EventType) (instances : List Instance)
  | report (id : InstanceId) (event : CircuitReport)
  /-- A load is written for an endpoint that has no slot in the segment. -/
  | snapshot
  /-- A timeout is over; whether the instance has endpoints to probe is left open. -/
  | fire (i : ℕ) (hasEndpoints : Bool)
  /-- The endpoints have answered. -/
  | probed (i : ℕ) (healthy : Bool)
  | resume (i : ℕ)
  | cancelled (i : ℕ)
  /-- A task that a `SET` created tells the workers. -/
  | publishClosed (i : ℕ)

namespace BreakerServer

def exec (s : BreakerServer) : BreakerStep → Option BreakerServer
  | .refresh σ eventType instances => some (s.handleRefreshInstances σ eventType instances)
  | .report id event => some (s.handleCircuitBreakerReport id event)
  | .snapshot => some { s with server := s.server.writeSnapshot }
  | .fire i hasEndpoints =>
    s.tasks[i]?.bind fun task =>
      if task.live ∧ task.stage = .sleeping then
        some (s.probeInstance i task.instanceId hasEndpoints)
      else none
  | .probed i healthy =>
    s.tasks[i]?.bind fun task =>
      if task.live ∧ task.stage = .probing then
        some (if healthy then s.probeSucceeded i task.instanceId else s.probeFailed i task.instanceId)
      else none
  | .resume i =>
    s.tasks[i]?.bind fun task => if task.live then s.resumeTask i task else none
  | .cancelled i =>
    s.tasks[i]?.bind fun task => if task.cancelRequested then s.cancelTask i task else none
  | .publishClosed i =>
    s.closedToPublish[i]?.map fun id =>
      { s with closedToPublish := s.closedToPublish.eraseIdx i }.publishCircuitBreaker id .closed

end BreakerServer

end PyMotor.Coordinator
