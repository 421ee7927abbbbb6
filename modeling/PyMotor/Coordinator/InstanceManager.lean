import Mathlib.Data.Finset.Insert
import PyMotor.Coordinator.Instance
import PyMotor.Lib.Run

/-!
# The instance manager

The coordinator keeps every instance it knows in one of three pools: available, unavailable or
paused. The available ones are filed a second time under their role, and their endpoints are indexed
by id (`coordinator/domain/instance_manager.py`). Refresh events move instances between the pools.

A role that is not a known one raises a `ValueError` in the middle of an event, and what was done up
to there stays done; so every operation returns its outcome together with the manager it leaves
behind. Registrations with the KV conductor, which follow the events, are not part of the manager.
-/

namespace PyMotor.Coordinator

inductive PyError where
  | valueError (role : String)
  | keyError (id : InstanceId)
  deriving DecidableEq, Repr

inductive EventType where
  | add
  | del
  | set
  | pause
  | resume
  deriving DecidableEq, Repr

inductive UpdateInstanceMode where
  | available
  | unavailable
  deriving DecidableEq, Repr

structure InstanceManager where
  availablePool : Dict InstanceId Instance
  unavailablePool : Dict InstanceId Instance
  pausedPool : Dict InstanceId Instance
  rolePools : PDRole → Dict InstanceId Instance
  /-- Where in its instance the endpoint with an id is: the pod and the key. -/
  endpointIdCache : Dict InstanceId (Dict EndpointId (String × EndpointId))

namespace Instance

/-- All loads are zero when an instance is added. -/
def resetWorkload (i : Instance) : Instance :=
  { i with
    endpoints := i.endpoints.mapVal fun _ pod => pod.mapVal fun _ ep => { ep with workload := .zero }
    gatheredWorkload := .zero }

def endpointCache (i : Instance) : Dict EndpointId (String × EndpointId) :=
  (i.endpoints.entries.flatMap fun pod => pod.2.entries.map fun p => (p.2.id, pod.1, p.1)).foldl
    (fun cache p => cache.insert p.1 p.2) ∅

/-- The endpoints without their runtime state. -/
def endpointSignature (i : Instance) : Finset (String × EndpointId × String × String × String) :=
  (i.endpoints.entries.flatMap fun pod => pod.2.values.map fun ep =>
    (pod.1, ep.id, ep.ip, ep.businessPort, ep.mgmtPort)).toFinset

/-- Whether a `SET` replaces `existing` by `new`: they differ in more than their runtime state. -/
def needsUpdate (existing new : Instance) : Bool :=
  decide (existing.jobName ≠ new.jobName ∨ existing.modelName ≠ new.modelName ∨
    existing.engineType ≠ new.engineType ∨
    existing.dispatchCapabilities ≠ new.dispatchCapabilities ∨ existing.role ≠ new.role ∨
    existing.parallelConfig ≠ new.parallelConfig ∨
    existing.enableMultiEndpoints ≠ new.enableMultiEndpoints ∨
    existing.nodeManagers ≠ new.nodeManagers ∨
    existing.endpointSignature ≠ new.endpointSignature)

end Instance

namespace InstanceManager

def new : InstanceManager := ⟨∅, ∅, ∅, fun _ => ∅, ∅⟩

/-- Do the same with every instance, until one raises; whether any of them modified the pools. -/
def forInstances (f : InstanceManager → Instance → Except PyError Bool × InstanceManager)
    (m : InstanceManager) : List Instance → Except PyError Bool × InstanceManager
  | [] => (.ok false, m)
  | inst :: instances =>
    match f m inst with
    | (.error err, m) => (.error err, m)
    | (.ok modified, m) =>
      let (r, m) := forInstances f m instances
      (r.map (modified || ·), m)

/-! ## The available pool -/

def addInstanceToAvailablePool (m : InstanceManager) (inst : Instance) :
    Except PyError Bool × InstanceManager :=
  match PDRole.ofString inst.role with
  | none => (.error (.valueError inst.role), m)
  | some role =>
    if (m.rolePools role).contains inst.id then (.ok false, m)
    else
      (.ok true, { m with
        rolePools := Function.update m.rolePools role ((m.rolePools role).insert inst.id inst)
        availablePool := m.availablePool.insert inst.id inst
        endpointIdCache := m.endpointIdCache.insert inst.id inst.endpointCache })

def deleteInstanceFromAvailablePool (m : InstanceManager) (id : InstanceId) :
    Except PyError Bool × InstanceManager :=
  match m.availablePool.get? id with
  | none => (.ok false, m)
  | some inst =>
    match PDRole.ofString inst.role with
    | none => (.error (.valueError inst.role), m)
    | some role =>
      if (m.rolePools role).contains id then
        (.ok true, { m with
          rolePools := Function.update m.rolePools role ((m.rolePools role).erase id)
          availablePool := m.availablePool.erase id
          endpointIdCache := m.endpointIdCache.erase id })
      else (.error (.keyError id), m)

/-! ## Events -/

def findInstanceByJobName (m : InstanceManager) (jobName : String) : Option Instance :=
  (m.availablePool.values ++ m.unavailablePool.values ++ m.pausedPool.values).find?
    fun inst => decide (inst.jobName = jobName)

/-- Remove an instance from the first pool that has it. -/
def removeInstanceFromAllPools (m : InstanceManager) (id : InstanceId) :
    Except PyError Bool × InstanceManager :=
  if m.availablePool.contains id then m.deleteInstanceFromAvailablePool id
  else if m.unavailablePool.contains id then
    (.ok true, { m with unavailablePool := m.unavailablePool.erase id })
  else if m.pausedPool.contains id then
    (.ok true, { m with pausedPool := m.pausedPool.erase id })
  else (.ok false, m)

/-- A job has one instance: an older one under another id is removed. -/
def removeStaleInstance (m : InstanceManager) (inst : Instance) :
    Except PyError Bool × InstanceManager :=
  match m.findInstanceByJobName inst.jobName with
  | none => (.ok false, m)
  | some existing =>
    if existing.id = inst.id then (.ok false, m) else m.removeInstanceFromAllPools existing.id

def addInstance (m : InstanceManager) (inst : Instance) : Except PyError Bool × InstanceManager :=
  if m.unavailablePool.contains inst.id then (.ok false, m)
  else
    match m.removeStaleInstance inst with
    | (.error err, m) => (.error err, m)
    | (.ok _, m) => m.addInstanceToAvailablePool inst.resetWorkload

def deleteInstance (m : InstanceManager) (inst : Instance) : Except PyError Bool × InstanceManager :=
  if m.unavailablePool.contains inst.id then
    (.ok true, { m with unavailablePool := m.unavailablePool.erase inst.id })
  else if m.pausedPool.contains inst.id then
    (.ok true, { m with pausedPool := m.pausedPool.erase inst.id })
  else m.deleteInstanceFromAvailablePool inst.id

/-- The paused instance is the one of the event. -/
def pauseInstance (m : InstanceManager) (inst : Instance) : Except PyError Bool × InstanceManager :=
  if m.pausedPool.contains inst.id then (.ok false, m)
  else if !m.availablePool.contains inst.id then (.ok false, m)
  else
    match m.deleteInstanceFromAvailablePool inst.id with
    | (.ok true, m) => (.ok true, { m with pausedPool := m.pausedPool.insert inst.id inst })
    | (r, m) => (r, m)

def resumeInstance (m : InstanceManager) (inst : Instance) : Except PyError Bool × InstanceManager :=
  if !m.pausedPool.contains inst.id then (.ok false, m)
  else { m with pausedPool := m.pausedPool.erase inst.id }.addInstanceToAvailablePool inst

def addInstances (m : InstanceManager) (instances : List Instance) :
    Except PyError Bool × InstanceManager :=
  m.forInstances addInstance instances

def deleteInstances (m : InstanceManager) (instances : List Instance) :
    Except PyError Bool × InstanceManager :=
  m.forInstances deleteInstance instances

/-- The instance with an id, in whichever pool. -/
def findInstance (m : InstanceManager) (id : InstanceId) : Option Instance :=
  ((m.availablePool.get? id).or (m.unavailablePool.get? id)).or (m.pausedPool.get? id)

/-- Whether a `SET` has to exchange the instance that the manager has under an id. -/
def toRefresh (m : InstanceManager) (newById : Dict InstanceId Instance) (id : InstanceId) : Bool :=
  match m.findInstance id, newById.get? id with
  | some existing, some new => !m.availablePool.contains id || existing.needsUpdate new
  | _, _ => false

/-- The instances of a `SET` by their ids; the last one counts. -/
def newInstById (instances : List Instance) : Dict InstanceId Instance :=
  instances.foldl (fun d inst => d.insert inst.id inst) ∅

def currentIds (m : InstanceManager) : List InstanceId :=
  (m.availablePool.keys ++ m.unavailablePool.keys ++ m.pausedPool.keys).dedup

/-- What a `SET` adds and removes. The sets of ids are iterated in the orders `σ`. -/
def computeSetDiff (m : InstanceManager) (σ : HashOrder InstanceId) (instances : List Instance) :
    List Instance × List Instance :=
  let newById := newInstById instances
  let toRemoveIds := m.currentIds.filter fun id =>
    !newById.contains id || m.toRefresh newById id
  let toAddIds := newById.keys.filter fun id =>
    decide (id ∉ m.currentIds) || m.toRefresh newById id
  ((σ.iter 0 toAddIds).filterMap newById.get?, (σ.iter 1 toRemoveIds).filterMap m.findInstance)

def setInstances (m : InstanceManager) (σ : HashOrder InstanceId) (instances : List Instance) :
    Except PyError Bool × InstanceManager :=
  let (toAdd, toRemove) := m.computeSetDiff σ instances
  if toRemove.isEmpty && toAdd.isEmpty then (.ok false, m)
  else
    match m.deleteInstances toRemove with
    | (.error err, m) => (.error err, m)
    | (.ok _, m) =>
      let (r, m) := m.addInstances toAdd
      (r.map fun _ => true, m)

def refreshInstances (m : InstanceManager) (σ : HashOrder InstanceId) (eventType : EventType)
    (instances : List Instance) : Except PyError Bool × InstanceManager :=
  match eventType with
  | .add => m.addInstances instances
  | .del => m.deleteInstances instances
  | .set => m.setInstances σ instances
  | .pause => m.forInstances pauseInstance instances
  | .resume => m.forInstances resumeInstance instances

/-! ## Reads -/

/-- The available instances of a role, or of all of them. -/
def getAvailableInstances (m : InstanceManager) : Option PDRole → Dict InstanceId Instance
  | none =>
    (PDRole.all.flatMap fun role => (m.rolePools role).entries).foldl
      (fun merged p => merged.insert p.1 p.2) ∅
  | some role => m.rolePools role

/-! ## State updates -/

def deleteUnavailableInstance (m : InstanceManager) (id : InstanceId) : InstanceManager :=
  if m.unavailablePool.contains id then { m with unavailablePool := m.unavailablePool.erase id }
  else m

def updateInstanceState (m : InstanceManager) (id : InstanceId) :
    UpdateInstanceMode → Except PyError Bool × InstanceManager
  | .available =>
    match m.unavailablePool.get? id with
    | none => (.ok false, m)
    | some inst =>
      { m with unavailablePool := m.unavailablePool.erase id }.addInstanceToAvailablePool inst
  | .unavailable =>
    match m.availablePool.get? id with
    | none => (.ok false, m)
    | some inst =>
      match m.deleteInstanceFromAvailablePool id with
      | (.ok true, m) => (.ok true, { m with unavailablePool := m.unavailablePool.insert id inst })
      | (r, m) => (r, m)

end InstanceManager

/-! ## Steps -/

inductive ManagerOp where
  | refresh (σ : HashOrder InstanceId) (eventType : EventType) (instances : List Instance)
  | updateState (id : InstanceId) (mode : UpdateInstanceMode)
  | deleteUnavailable (id : InstanceId)

/-- An operation counts whether it returned or raised. -/
def InstanceManager.exec (m : InstanceManager) : ManagerOp → Option InstanceManager
  | .refresh σ eventType instances => some (m.refreshInstances σ eventType instances).2
  | .updateState id mode => some (m.updateInstanceState id mode).2
  | .deleteUnavailable id => some (m.deleteUnavailableInstance id)

end PyMotor.Coordinator
