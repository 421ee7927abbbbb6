import Mathlib.Algebra.Order.Ring.Rat
import PyMotor.NodeManager.HeartbeatManager

/-!
# The engine processes of a node

`ProcessSupervisor` (`node_manager/core/services/native_engine/supervisor.py`) starts the engine processes of a
node, asks for their state, stops them and finds out which have died. Its methods take the lock for moments only;
a probe, a signal and the wait for a process go on without it, so calls of several threads interleave. A
`SupervisorOp` is what a call does in one go: a critical section, or one signal, probe or wait outside of it.

A `RuntimeProcess` is a Python object: a call that has got hold of it works on it even after the table has
forgotten it. Objects have an identity (`ProcId`), the table leads from an endpoint to one of them.

A process is the launcher of a process group. Workers that outlive it, the texts of the log and what
`SafeHTTPSClient` does are left out; the outcome of a probe is part of the operation, and so is whether the system
lets a signal through.
-/

namespace PyMotor.NodeManager

structure ProbeSpec where
  path : String
  timeoutSeconds : ℚ
  startupTimeoutSeconds : ℚ
  maxAttempts : ℕ
  processOnly : Bool
  deriving DecidableEq

abbrev ProcId := ℕ
abbrev EndpointId := ℕ

/-- A record and the process that belongs to it. The type `C` is that of commands, which are only compared. -/
structure RuntimeProcess (C : Type) where
  endpointId : EndpointId
  command : C
  probe : ProbeSpec
  startedAt : ℚ
  state : RuntimeState
  readyAt : Option ℚ
  /-- `poll()` gives a code. -/
  exited : Bool
  /-- SIGTERM was sent, and SIGKILL. -/
  terminated : Bool
  killed : Bool
  /-- SIGKILL could not be sent. -/
  killFailed : Bool

/-- An error is swallowed, whether the group is gone or the system refuses. -/
def RuntimeProcess.terminateGroup {C : Type} (runtime : RuntimeProcess C) (sent : Bool) : RuntimeProcess C :=
  { runtime with state := .stopping, terminated := runtime.terminated || sent }

def RuntimeProcess.killGroup {C : Type} (runtime : RuntimeProcess C) (sent : Bool) : RuntimeProcess C :=
  if sent then { runtime with killed := true } else { runtime with killFailed := true }

/-- How one attempt of a probe ends. -/
inductive ProbeAnswer where
  | ok
  | timeout
  | failed
  deriving DecidableEq, Repr

/-- The attempts of a probe: after a timeout there is another one, up to `max_attempts`. `none` if these are not
the answers of one probe. -/
def probe : ℕ → List ProbeAnswer → Option Bool
  | _ + 1, [.ok] => some true
  | _ + 1, [.failed] => some false
  | 1, [.timeout] => some false
  | n + 2, .timeout :: rest => probe (n + 1) rest
  | _, _ => none

/-- Where a call is. -/
inductive SupervisorCall where
  /-- `state` has left the first critical section. -/
  | probing (endpoint : EndpointId) (proc : ProcId)
  /-- `_commit_state` is next, or `_current_state`. -/
  | committing (endpoint : EndpointId) (proc : ProcId) (state : RuntimeState) (ready : Bool)
  | reading (endpoint : EndpointId) (proc : ProcId)
  | answered (state : RuntimeState)
  /-- `_stop_runtimes` goes through its processes twice: the first time it sends SIGTERM, the second time it waits. -/
  | signalling (rest procs : List ProcId)
  | waiting (rest procs : List ProcId)
  | removing (procs : List ProcId)
  /-- The groups of processes found dead are killed, after the critical section of `dead_pids`. -/
  | killing (rest dead : List ProcId)
  /-- A call of `dead_pids`, `stop` or `stop_all` has returned these. -/
  | returned (procs : List ProcId)
  deriving DecidableEq

structure ProcessSupervisor (C : Type) where
  /-- All records there are, those forgotten too. -/
  runtimes : Dict ProcId (RuntimeProcess C)
  /-- `_processes` -/
  processes : Dict EndpointId ProcId
  calls : Dict ℕ SupervisorCall
  /-- What `dead_pids` has given, oldest first. -/
  reported : List ProcId
  /-- The processes that a call of `stop` or `stop_all` has got hold of. -/
  asked : List ProcId
  /-- The dead processes that a start has found in their place. -/
  replaced : List ProcId

inductive SupervisorOp (C : Type) where
  | start (endpoint : EndpointId) (command : C) (probe : ProbeSpec) (proc : ProcId) (now : ℚ) (exitsAtOnce : Bool)
  | state (call : ℕ) (endpoint : EndpointId)
  | inspect (call : ℕ) (answers : List ProbeAnswer) (now : ℚ)
  | commit (call : ℕ) (now : ℚ)
  | read (call : ℕ)
  | deadPids (call : ℕ)
  | killGroup (call : ℕ) (sent : Bool)
  | stop (call : ℕ) (endpoint : EndpointId)
  | stopAll (call : ℕ)
  | terminateGroup (call : ℕ) (sent : Bool)
  /-- The wait is over: the process has exited and has left workers or not, or the time is up. -/
  | wait (call : ℕ) (timedOut groupExists sent : Bool)
  | removeStopped (call : ℕ)
  /-- A process ends. -/
  | exit (proc : ProcId)

namespace ProcessSupervisor

variable {C : Type}

def new : ProcessSupervisor C := ⟨∅, ∅, ∅, [], [], []⟩

variable (s : ProcessSupervisor C)

def setRuntime (proc : ProcId) (runtime : RuntimeProcess C) : ProcessSupervisor C :=
  { s with runtimes := s.runtimes.insert proc runtime }

/-- Change a record, if there is one. -/
def update (proc : ProcId) (f : RuntimeProcess C → RuntimeProcess C) : ProcessSupervisor C :=
  match s.runtimes.get? proc with
  | some runtime => s.setRuntime proc (f runtime)
  | none => s

def setCall (call : ℕ) (c : SupervisorCall) : ProcessSupervisor C := { s with calls := s.calls.insert call c }

/-- `self._processes.get(endpoint_id)` -/
def lookup (endpoint : EndpointId) : Option (ProcId × RuntimeProcess C) :=
  (s.processes.get? endpoint).bind fun proc => (s.runtimes.get? proc).map fun runtime => (proc, runtime)

def forget (endpoint : EndpointId) : ProcessSupervisor C := { s with processes := s.processes.erase endpoint }

/-! ## Starting -/

def launch (endpoint : EndpointId) (command : C) (probe : ProbeSpec) (proc : ProcId) (now : ℚ)
    (exitsAtOnce : Bool) : ProcessSupervisor C :=
  if exitsAtOnce then s
  else
    { s.setRuntime proc ⟨endpoint, command, probe, now, .starting, none, false, false, false, false⟩ with
      processes := s.processes.insert endpoint proc }

/-- Nothing happens while the endpoint has a living process, whether the call then returns `False` or raises. -/
def start (endpoint : EndpointId) (command : C) (probe : ProbeSpec) (proc : ProcId) (now : ℚ)
    (exitsAtOnce : Bool) : ProcessSupervisor C :=
  match s.lookup endpoint with
  | none => s.launch endpoint command probe proc now exitsAtOnce
  | some (old, runtime) =>
    if runtime.exited then
      ({ s.forget endpoint with replaced := old :: s.replaced } : ProcessSupervisor C).launch endpoint command probe
        proc now exitsAtOnce
    else s

/-! ## Asking for the state -/

def beginState (call : ℕ) (endpoint : EndpointId) : ProcessSupervisor C :=
  match s.lookup endpoint with
  | none => s.setCall call (.answered .stopped)
  | some (proc, runtime) =>
    if runtime.state = .stopping then s.setCall call (.answered .stopping)
    else s.setCall call (.probing endpoint proc)

/-- What `state` goes on with, from what it sees without the lock. -/
def inspected (endpoint : EndpointId) (proc : ProcId) (runtime : RuntimeProcess C) (answers : List ProbeAnswer)
    (now : ℚ) : Option SupervisorCall :=
  if runtime.exited then some (.committing endpoint proc .stopped false)
  else if runtime.probe.processOnly then some (.committing endpoint proc .running false)
  else (NodeManager.probe runtime.probe.maxAttempts answers).map fun succeeded =>
    if succeeded then .committing endpoint proc .ready true
    else if runtime.state = .starting ∧ now - runtime.startedAt < runtime.probe.startupTimeoutSeconds then
      .reading endpoint proc
    else .committing endpoint proc .unhealthy false

/-- A record that the table has no longer is stopped, and one that is being stopped stays so. -/
def commitState (call : ℕ) (endpoint : EndpointId) (proc : ProcId) (runtime : RuntimeProcess C)
    (state : RuntimeState) (ready : Bool) (now : ℚ) : ProcessSupervisor C :=
  if s.processes.get? endpoint ≠ some proc then s.setCall call (.answered .stopped)
  else if runtime.state = .stopping then s.setCall call (.answered .stopping)
  else
    (s.setRuntime proc
      { runtime with
        state := state
        readyAt := if ready then runtime.readyAt.or (some now) else runtime.readyAt }).setCall call (.answered state)

def currentState (call : ℕ) (endpoint : EndpointId) (proc : ProcId) (runtime : RuntimeProcess C) :
    ProcessSupervisor C :=
  s.setCall call (.answered (if s.processes.get? endpoint = some proc then runtime.state else .stopped))

/-! ## Finding the dead -/

/-- One turn of the loop of `dead_pids`. -/
def reap (entry : EndpointId × ProcId) : ProcessSupervisor C :=
  match s.runtimes.get? entry.2 with
  | none => s
  | some runtime =>
    if runtime.state = .stopping ∨ runtime.exited = false then s
    else
      { (s.setRuntime entry.2 { runtime with state := .stopped }).forget entry.1 with
        reported := s.reported ++ [entry.2] }

def deadPids (call : ℕ) : ProcessSupervisor C :=
  let t := s.processes.entries.foldl reap s
  let dead := t.reported.drop s.reported.length
  t.setCall call (.killing dead dead)

/-! ## Stopping -/

/-- `runtime.state = RuntimeState.STOPPING`, under the lock. -/
def ask (proc : ProcId) : ProcessSupervisor C :=
  { s.update proc fun runtime => { runtime with state := .stopping } with asked := proc :: s.asked }

def beginStop (call : ℕ) (endpoint : EndpointId) : ProcessSupervisor C :=
  match s.processes.get? endpoint with
  | none => s.setCall call (.returned [])
  | some proc => (s.ask proc).setCall call (.signalling [proc] [proc])

def beginStopAll (call : ℕ) : ProcessSupervisor C :=
  (s.processes.values.foldl ask s).setCall call (.signalling s.processes.values s.processes.values)

/-- The state is set once more, and now without the lock. -/
def terminateGroup (call : ℕ) (proc : ProcId) (rest procs : List ProcId) (sent : Bool) : ProcessSupervisor C :=
  (s.update proc (·.terminateGroup sent)).setCall call (.signalling rest procs)

/-- After the wait the group is killed, unless it is gone. -/
def waited (call : ℕ) (proc : ProcId) (rest procs : List ProcId) (timedOut groupExists sent : Bool) :
    ProcessSupervisor C :=
  (if timedOut || groupExists then s.update proc (·.killGroup sent) else s).setCall call (.waiting rest procs)

/-- One turn of the loop of `_remove_stopped`. -/
def removeOne (proc : ProcId) : ProcessSupervisor C :=
  match s.runtimes.get? proc with
  | none => s
  | some runtime =>
    if s.processes.get? runtime.endpointId = some proc then
      (s.setRuntime proc { runtime with state := .stopped }).forget runtime.endpointId
    else s

def removeStopped (call : ℕ) (procs : List ProcId) : ProcessSupervisor C :=
  (procs.foldl removeOne s).setCall call (.returned procs)

/-- A call of its own is a new one. -/
def fresh (call : ℕ) (t : ProcessSupervisor C) : Option (ProcessSupervisor C) :=
  if (s.calls.get? call).isNone then some t else none

def exec : SupervisorOp C → Option (ProcessSupervisor C)
  | .start endpoint command probe proc now exitsAtOnce =>
    if (s.runtimes.get? proc).isNone then some (s.start endpoint command probe proc now exitsAtOnce) else none
  | .state call endpoint => s.fresh call (s.beginState call endpoint)
  | .inspect call answers now =>
    match s.calls.get? call with
    | some (.probing endpoint proc) => do
      let runtime ← s.runtimes.get? proc
      (inspected endpoint proc runtime answers now).map (s.setCall call)
    | _ => none
  | .commit call now =>
    match s.calls.get? call with
    | some (.committing endpoint proc state ready) =>
      (s.runtimes.get? proc).map fun runtime => s.commitState call endpoint proc runtime state ready now
    | _ => none
  | .read call =>
    match s.calls.get? call with
    | some (.reading endpoint proc) =>
      (s.runtimes.get? proc).map fun runtime => s.currentState call endpoint proc runtime
    | _ => none
  | .deadPids call => s.fresh call (s.deadPids call)
  | .killGroup call sent =>
    match s.calls.get? call with
    | some (.killing (proc :: rest) dead) =>
      some ((s.update proc (·.killGroup sent)).setCall call (.killing rest dead))
    | some (.killing [] dead) => some (s.setCall call (.returned dead))
    | _ => none
  | .stop call endpoint => s.fresh call (s.beginStop call endpoint)
  | .stopAll call => s.fresh call (s.beginStopAll call)
  | .terminateGroup call sent =>
    match s.calls.get? call with
    | some (.signalling (proc :: rest) procs) => some (s.terminateGroup call proc rest procs sent)
    | some (.signalling [] procs) => some (s.setCall call (.waiting procs procs))
    | _ => none
  | .wait call timedOut groupExists sent =>
    match s.calls.get? call with
    | some (.waiting (proc :: rest) procs) => do
      let runtime ← s.runtimes.get? proc
      if timedOut || runtime.exited then some (s.waited call proc rest procs timedOut groupExists sent)
      else none
    | some (.waiting [] procs) => some (s.setCall call (.removing procs))
    | _ => none
  | .removeStopped call =>
    match s.calls.get? call with
    | some (.removing procs) => some (s.removeStopped call procs)
    | _ => none
  | .exit proc =>
    (s.runtimes.get? proc).map fun runtime => s.setRuntime proc { runtime with exited := true }

end ProcessSupervisor

end PyMotor.NodeManager
