import PyMotor.Controller.Instance
import PyMotor.Lib.Run

/-!
# The instance manager of the controller

The controller follows the status of every instance (`controller/core/instance_manager.py`): a heartbeat
or its absence is turned into a condition, a table says where the condition leads, and the handler of
the new status updates the instance and notifies the observers. An instance that was separated by
force does not become active before it is recovered.

Every operation returns the manager it leaves behind and the notifications it made, in order.
-/

namespace PyMotor.Controller

open Coordinator (InstanceId EndpointId)

inductive InsConditionEvent where
  | instanceInit
  | instanceHeartbeatTimeout
  | instanceNormal
  | instanceAbnormal
  | instancePaused
  | instanceResumed
  deriving DecidableEq, Repr

inductive ObserverEvent where
  | instanceInitial
  | instanceReady
  | instanceSeparated
  | instanceRemoved
  | instancePaused
  | instanceResumed
  deriving DecidableEq, Repr

structure Notification where
  ins : Instance
  event : ObserverEvent

structure InstanceManager where
  instances : Dict InstanceId Instance
  forcedSeparatedInstances : OrdSet InstanceId

/-- Where a condition leads from a status. -/
def transitions : InsStatus → InsConditionEvent → Option InsStatus
  | .initial, .instanceInit => some .initial
  | .initial, .instanceNormal => some .active
  | .initial, .instanceAbnormal => some .inactive
  | .initial, .instanceHeartbeatTimeout => some .deleted
  | .active, .instanceNormal => some .active
  | .active, .instanceHeartbeatTimeout => some .inactive
  | .active, .instanceAbnormal => some .inactive
  | .inactive, .instanceAbnormal => some .inactive
  | .inactive, .instanceNormal => some .active
  | .inactive, .instanceInit => some .initial
  | .inactive, .instanceHeartbeatTimeout => some .deleted
  | .active, .instancePaused => some .paused
  | .inactive, .instancePaused => some .paused
  | .initial, .instancePaused => some .paused
  | .paused, .instancePaused => some .paused
  | .paused, .instanceResumed => some .active
  | .paused, .instanceNormal => some .active
  | .paused, .instanceHeartbeatTimeout => some .deleted
  | .paused, .instanceAbnormal => some .inactive
  | _, _ => none

namespace Instance

/-- The condition that the statuses of the endpoints amount to. -/
def conditionEvent (i : Instance) : InsConditionEvent :=
  if i.isAllEndpointsPaused then .instancePaused
  else if i.isAllEndpointsReady then .instanceNormal
  else if i.isHaveOneEndpointAbnormal then .instanceAbnormal
  else if i.isAnyEndpointPaused then .instancePaused
  else .instanceInit

/-- A first heartbeat of every pod, all of whose endpoints are in their initial status. -/
def refreshHeartbeats (i : Instance) : Instance :=
  i.endpoints.entries.foldl
    (fun i pod => (i.updateHeartbeat pod.1
      (pod.2.values.foldl (fun status ep => status.insert ep.id .initial) ∅)).2) i

/-! ## The handlers -/

def handleInitial (fromState : InsStatus) (event : InsConditionEvent) (i : Instance) :
    Instance × List ObserverEvent :=
  if fromState = .inactive ∧ event = .instanceInit then (i.updateInstanceStatus .initial, [])
  else (i, [])

def handleActive (fromState : InsStatus) (event : InsConditionEvent) (i : Instance) :
    Instance × List ObserverEvent :=
  if fromState = .active then (i, [])
  else
    match event with
    | .instanceNormal => (i.updateInstanceStatus .active, [.instanceReady])
    | .instanceResumed => (i.updateInstanceStatus .active, [.instanceResumed])
    | _ => (i, [])

/-- When heartbeats are missing, the node managers are asked first; `abnormal` is their answer. -/
def handleInactive (fromState : InsStatus) (event : InsConditionEvent) (abnormal : Bool)
    (i : Instance) : Instance × List ObserverEvent :=
  if fromState = .inactive then (i, [])
  else
    match event with
    | .instanceAbnormal => (i.updateInstanceStatus .inactive, [.instanceSeparated])
    | .instanceHeartbeatTimeout =>
      if abnormal then (i.updateInstanceStatus .inactive, [.instanceSeparated]) else (i, [])
    | _ => (i, [])

def handlePaused (fromState : InsStatus) (event : InsConditionEvent) (i : Instance) :
    Instance × List ObserverEvent :=
  if event = .instancePaused ∧ fromState ≠ .paused then
    (i.updateInstanceStatus .paused, [.instancePaused])
  else (i, [])

def handleDeleted (fromState : InsStatus) (event : InsConditionEvent) (i : Instance) :
    Instance × List ObserverEvent :=
  if fromState = .deleted then (i, [])
  else
    match event with
    | .instanceHeartbeatTimeout => (i.updateInstanceStatus .deleted, [.instanceRemoved])
    | .instanceAbnormal => (i.updateInstanceStatus .deleted, [.instanceRemoved])
    | _ => (i, [])

def states (toState fromState : InsStatus) (event : InsConditionEvent) (abnormal : Bool)
    (i : Instance) : Instance × List ObserverEvent :=
  match toState with
  | .initial => i.handleInitial fromState event
  | .active => i.handleActive fromState event
  | .inactive => i.handleInactive fromState event abnormal
  | .paused => i.handlePaused fromState event
  | .deleted => i.handleDeleted fromState event

end Instance

namespace InstanceManager

def new : InstanceManager := ⟨∅, ∅⟩

/-- An instance that is already there is not added again. -/
def addInstance (m : InstanceManager) (ins : Instance) : InstanceManager × List Notification :=
  if m.instances.contains ins.id then (m, [])
  else
    let ins := ins.refreshHeartbeats
    ({ m with instances := m.instances.insert ins.id ins }, [⟨ins, .instanceInitial⟩])

def delInstance (m : InstanceManager) (id : InstanceId) : InstanceManager :=
  { instances := m.instances.erase id
    forcedSeparatedInstances := m.forcedSeparatedInstances.erase id }

/-- An instance was changed in place; the deleted one is dropped. -/
def store (m : InstanceManager) (i : Instance) : InstanceManager :=
  if i.status = .deleted then m.delInstance i.id
  else { m with instances := m.instances.insert i.id i }

/-- One step of the state machine, on the condition that the endpoints show or on the given one. The
flag says whether there was a transition in the table. -/
def handleStateTransition (m : InstanceManager) (i : Instance)
    (eventOverride : Option InsConditionEvent) (abnormal : Bool) :
    Bool × InstanceManager × List Notification :=
  let event := eventOverride.getD i.conditionEvent
  match transitions i.status event with
  | none => (false, m, [])
  | some toState =>
    if i.id ∈ m.forcedSeparatedInstances ∧ toState = .active then (true, m, [])
    else
      let (i, events) := i.states toState i.status event abnormal
      (true, m.store i, events.map fun event => ⟨i, event⟩)

inductive HeartbeatResult where
  | success
  | reRegister
  | handlerError
  | keyError (id : EndpointId)
  deriving DecidableEq, Repr

def handleHeartbeat (m : InstanceManager) (id : InstanceId) (ip : String)
    (status : Dict EndpointId EndpointStatus) :
    HeartbeatResult × InstanceManager × List Notification :=
  match m.instances.get? id with
  | none => (.reRegister, m, [])
  | some i =>
    let (outcome, i) := i.updateHeartbeat ip status
    let m := { m with instances := m.instances.insert id i }
    match outcome with
    | .rejected => (.handlerError, m, [])
    | .keyError id => (.keyError id, m, [])
    | .updated =>
      let (found, m, notifications) := m.handleStateTransition i none false
      (if found then .success else .handlerError, m, notifications)

/-- The management loop finds that endpoints of an instance have been silent for too long. -/
def handleHeartbeatTimeout (m : InstanceManager) (id : InstanceId) (abnormal : Bool) :
    InstanceManager × List Notification :=
  match m.instances.get? id with
  | none => (m, [])
  | some i =>
    if i.status = .deleted then (m, [])
    else (m.handleStateTransition i (some .instanceHeartbeatTimeout) abnormal).2

def separateInstance (m : InstanceManager) (id : InstanceId) :
    InstanceManager × List Notification :=
  match m.instances.get? id with
  | none => (m, [])
  | some i =>
    let m := { m with forcedSeparatedInstances := m.forcedSeparatedInstances.insert id }
    if i.status = .active then
      let i := i.updateInstanceStatus .inactive
      ({ m with instances := m.instances.insert id i }, [⟨i, .instanceSeparated⟩])
    else (m, [])

def isInstanceSeparated (m : InstanceManager) (id : InstanceId) : Bool :=
  m.instances.contains id && decide (id ∈ m.forcedSeparatedInstances)

/-- Whether or not a newer instance of the job has taken its place, an instance is no longer held
back; it becomes active with its next heartbeat. -/
def recoverInstance (m : InstanceManager) (id : InstanceId) : InstanceManager :=
  match m.instances.get? id with
  | none => m
  | some _ => { m with forcedSeparatedInstances := m.forcedSeparatedInstances.erase id }

end InstanceManager

end PyMotor.Controller
