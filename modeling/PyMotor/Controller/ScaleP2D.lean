import Mathlib.Data.List.Sort
import Mathlib.Data.Prod.Lex
import PyMotor.Controller.FaultManager

/-!
# Scaling prefill down for decode

When nodes of a decode instance fail, the fault manager submits a recovery for it
(`fault_tolerance/strategy/scale_p2d.py`, `strategy/strategy.py`). The recovery waits until the instance
is isolated and counts its faulty nodes. It then selects prefill instances with enough nodes and stops
their node managers one after the other; the nodes are free as soon as their heartbeats stay away.

Any number of recoveries run at the same time, in any order of their steps and of those of the fault
manager and the instance manager.
-/

namespace PyMotor.Controller

open Coordinator (InstanceId NodeManagerInfo)

namespace FaultManager

/-- The highest level among the faults of each node of an instance. -/
def getNodeFaultLevels (fm : FaultManager) (id : InstanceId) : Dict String FaultLevel :=
  if fm.instances.contains id then
    fm.nodes.filterMap fun _ node =>
      if id ∈ node.instanceIds then
        some (((node.hardwareFaultInfos.values ++ node.softwareFaultInfos.values).map
          FaultInfo.faultLevel).foldl max .healthy)
      else none
  else ∅

end FaultManager

namespace InstanceManager

def getInstancesByRole (m : InstanceManager) (role : String) : List Instance :=
  m.instances.values.filter fun i => decide (i.role = role)

/-- The instance of the job that joined last. -/
def getInstanceByJobName (m : InstanceManager) (jobName : String) : Option Instance :=
  (m.instances.values.filter fun i => decide (i.jobName = jobName)).getLast?

end InstanceManager

/-- Only instances in one of these states can be reached. -/
def Instance.isOperational (i : Instance) : Bool :=
  decide (i.status = .initial ∨ i.status = .active)

inductive RecoveryState where
  | init
  | checking
  | selecting
  | killing
  | success
  | failed
  deriving DecidableEq, Repr

structure RecoveryContext where
  dInstanceId : InstanceId
  dInstanceJobName : String
  dInstance : Option Instance
  numNodePerInstanceP : ℕ
  numNodePerInstanceD : ℕ
  numRequiredNode : ℕ
  selectedPInstances : List Instance
  currentState : RecoveryState
  lastError : Option String

namespace RecoveryContext

def new (d : Instance) : RecoveryContext where
  dInstanceId := d.id
  dInstanceJobName := d.jobName
  dInstance := none
  numNodePerInstanceP := 1
  numNodePerInstanceD := 1
  numRequiredNode := 1
  selectedPInstances := []
  currentState := .init
  lastError := none

def withError (c : RecoveryContext) (error : String) : RecoveryContext :=
  { c with lastError := some error }

/-! ## The faulty nodes -/

/-- Nodes that the fault manager does not know of count as faulty. -/
def getFaultyNodeCount (s : FaultDomain) (d : Instance) : ℕ :=
  if d.nodeManagers.isEmpty then 0
  else
    let levels := (s.faults.getNodeFaultLevels d.id).values
    if levels.isEmpty then d.nodeManagers.length
    else (levels.filter fun level => decide (.l3 ≤ level)).length

def getDInstance (c : RecoveryContext) (s : FaultDomain) : Bool × RecoveryContext :=
  match s.manager.instances.get? c.dInstanceId with
  | none =>
    (false, c.withError
      ("D instance " ++ toString c.dInstanceId ++ " not found in InstanceManager"))
  | some d =>
    (true, { c with
      dInstance := some d
      numNodePerInstanceD := d.nodeManagers.length
      numRequiredNode := getFaultyNodeCount s d })

/-- One look at the status; `none` says that the recovery looks again later. -/
def checkDInstanceStatus (c : RecoveryContext) (s : FaultDomain) (timeout : Int)
    (stopped timedOut : Bool) : Option Bool × RecoveryContext :=
  let d := s.manager.getInstanceByJobName c.dInstanceJobName
  if timedOut then
    match d with
    | none =>
      (some false, c.withError
        ("D instance not found for job_name " ++ c.dInstanceJobName ++ " after wait"))
    | some d =>
      if d.isOperational then
        (some false, c.withError
          ("D instance " ++ c.dInstanceJobName ++ " did not become INACTIVE within " ++
            toString timeout ++ "s"))
      else (some true, c)
  else if stopped then
    (some false, c.withError "Strategy stopped during D instance status check")
  else
    match d with
    | none =>
      (some false, c.withError
        ("D instance not found for job_name " ++ c.dInstanceJobName ++ " during status check"))
    | some d => (if d.isOperational then some false else none, c)

def refreshFaultyNodeCountBeforeKill (c : RecoveryContext) (s : FaultDomain) :
    Bool × RecoveryContext :=
  match s.manager.getInstanceByJobName c.dInstanceJobName with
  | none =>
    (false, c.withError
      ("D instance not found for job_name " ++ c.dInstanceJobName ++ " before Prefill selection"))
  | some d =>
    let c := { c with
      dInstance := some d
      dInstanceId := d.id
      numNodePerInstanceD := d.nodeManagers.length
      numRequiredNode := getFaultyNodeCount s d }
    if c.numRequiredNode = 0 then
      (false, c.withError "No faulty Decode nodes remain, ScaleP2D preemption not needed")
    else (true, c)

/-! ## The selection -/

/-- Instances that are starting go first, then those with lower ids. -/
def selectionKey (i : Instance) : ℕ ×ₗ Int :=
  toLex (if i.status = .initial then 0 else 1, i.id)

/-- As many instances as the nodes of the first one make necessary; `none` is the division by zero. -/
def selectInstancesAlgorithm (c : RecoveryContext) (available : List Instance) :
    Option (List Instance) :=
  if c.numNodePerInstanceP = 0 then none
  else
    let required := c.numRequiredNode / c.numNodePerInstanceP
    let required :=
      if c.numRequiredNode % c.numNodePerInstanceP ≠ 0 then required + 1 else required
    some ((available.insertionSort fun a b => selectionKey a ≤ selectionKey b).take required)

def selectPInstancesToKill (c : RecoveryContext) (s : FaultDomain) : Bool × RecoveryContext :=
  match (s.manager.getInstancesByRole "prefill").filter Instance.isOperational with
  | [] => (false, c.withError "No operational Prefill instances (INITIAL/ACTIVE) available")
  | first :: others =>
    let c := { c with numNodePerInstanceP := first.nodeManagers.length }
    -- one instance is kept in reserve
    if c.numNodePerInstanceP * others.length < c.numRequiredNode then
      (false, c.withError "Not enough available prefill nodes to satisfy the requirement.")
    else
      match c.selectInstancesAlgorithm (first :: others) with
      | none =>
        (false, c.withError
          "Failed to select P instances: integer division or modulo by zero")
      | some [] => (false, c.withError "Failed to select suitable P instances")
      | some selected => (true, { c with selectedPInstances := selected })

end RecoveryContext

/-! ## A recovery -/

/-- What a recovery does next. -/
inductive RecoveryPhase where
  | submitted
  | gettingDInstance
  | checkingStatus
  | refreshingCount
  | selecting
  /-- The node managers that are still to be stopped, with their instances. -/
  | killing (pending : List (InstanceId × NodeManagerInfo))
  | finished
  deriving DecidableEq

structure Recovery where
  instanceId : InstanceId
  /-- Whether the strategy was told to stop. -/
  event : Bool
  context : Option RecoveryContext
  phase : RecoveryPhase

namespace Recovery

def stop (rec : Recovery) : Recovery := { rec with event := true }

/-- The flow of the recovery comes to its end. -/
def finish (rec : Recovery) (c : RecoveryContext) (success : Bool) : Recovery :=
  { rec with
    context := some { c with currentState := if success then .success else .failed }
    phase := .finished }

/-- On to the next step of the flow, or out of it. -/
def proceed (rec : Recovery) (step : Bool × RecoveryContext) (state : RecoveryState)
    (phase : RecoveryPhase) : Recovery :=
  if step.1 then { rec with context := some { step.2 with currentState := state }, phase := phase }
  else rec.finish step.2 false

def execute (rec : Recovery) (s : FaultDomain) : Recovery :=
  match s.manager.instances.get? rec.instanceId with
  | none => { rec with phase := .finished }
  | some d => { rec with context := some (.new d), phase := .gettingDInstance }

def checkDInstanceStatus (rec : Recovery) (c : RecoveryContext) (s : FaultDomain) (timeout : Int)
    (timedOut : Bool) : Recovery :=
  match c.checkDInstanceStatus s timeout rec.event timedOut with
  | (none, c) => { rec with context := some c }
  | (some ready, c) => rec.proceed (ready, c) .checking .refreshingCount

def selectPInstancesToKill (rec : Recovery) (c : RecoveryContext) (s : FaultDomain) : Recovery :=
  let step := c.selectPInstancesToKill s
  rec.proceed step .killing (.killing (step.2.selectedPInstances.flatMap fun p =>
    p.nodeManagers.map fun nodeMgr => (p.id, nodeMgr)))

/-- The next node manager is asked to stop; the first one that does not ends the recovery. -/
def killAndReleasePInstances (rec : Recovery) (c : RecoveryContext)
    (pending : List (InstanceId × NodeManagerInfo)) (response : Bool) : Recovery :=
  match pending with
  | [] => rec.finish c true
  | (id, nodeMgr) :: pending =>
    if response then { rec with phase := .killing pending }
    else
      rec.finish (c.withError
        ("Failed to stop P instance " ++ toString id ++ " (pod_ip=" ++ nodeMgr.podIp ++ ")")) false

end Recovery

/-! ## All recoveries -/

structure ScaleP2D where
  domain : FaultDomain
  /-- Every recovery that was ever submitted. -/
  recoveries : Dict ℕ Recovery

inductive ScaleP2DOp where
  /-- A step of the managers. -/
  | domain (op : FaultOp)
  | submit (id : InstanceId) (r : ℕ)
  | stop (r : ℕ)
  | execute (r : ℕ)
  | getDInstance (r : ℕ)
  | checkDInstanceStatus (r : ℕ) (timedOut : Bool)
  | refreshFaultyNodeCount (r : ℕ)
  | selectPInstances (r : ℕ)
  | killAndRelease (r : ℕ) (response : Bool)

namespace ScaleP2D

/-- No recovery runs yet. The managers have what they have restored, every instance under its id. -/
def start (faults : FaultManager) (instances : List Instance) (forced : OrdSet InstanceId) :
    ScaleP2D where
  domain :=
    ⟨faults, ⟨instances.foldl (fun table i => table.insert i.id i) ∅, forced⟩⟩
  recoveries := ∅

/-- The strategy of a level above three, where it is switched on. -/
def level4Strategy (s : FaultDomain) (id : InstanceId) : Option Strategy :=
  match s.manager.instances.get? id with
  | none => none
  | some i => if i.role = "decode" then some .scaleP2D else none

/-- Whether a turn of the strategy center starts a recovery for the instance. -/
def startsRecovery (s : FaultDomain) (id : InstanceId) (md : InstanceMetadata) : Bool :=
  decide (.l4 ≤ md.faultLevel) && decide (level4Strategy s id = some .scaleP2D) &&
    (md.strategy.isNone || decide (md.strategyFaultLevel < md.faultLevel))

/-- The strategy that the instance has run before is told to stop. -/
def submit (s : ScaleP2D) (id : InstanceId) (r : ℕ) : ScaleP2D where
  domain := s.domain.processInstanceStrategy id (some .scaleP2D) false
  recoveries := (s.recoveries.mapVal fun _ rec => if rec.instanceId = id then rec.stop else rec).insert
    r ⟨id, false, none, .submitted⟩

def setRecovery (s : ScaleP2D) (r : ℕ) (rec : Recovery) : ScaleP2D :=
  { s with recoveries := s.recoveries.insert r rec }

/-- A turn of the strategy center that starts a recovery is `submit`, and no other step does. The
waiting time is that of the configuration. -/
def exec (timeout : Int) (s : ScaleP2D) : ScaleP2DOp → Option ScaleP2D
  | .domain (.processStrategy _ (some .scaleP2D) _) => none
  | .domain op => (s.domain.exec op).map fun domain => { s with domain := domain }
  | .submit id r =>
    match s.recoveries.get? r, s.domain.faults.instances.get? id with
    | none, some md => if startsRecovery s.domain id md then some (s.submit id r) else none
    | _, _ => none
  | .stop r => (s.recoveries.get? r).map fun rec => s.setRecovery r rec.stop
  | .execute r =>
    match s.recoveries.get? r with
    | some ⟨id, event, c, .submitted⟩ =>
      some (s.setRecovery r ((⟨id, event, c, .submitted⟩ : Recovery).execute s.domain))
    | _ => none
  | .getDInstance r =>
    match s.recoveries.get? r with
    | some ⟨id, event, some c, .gettingDInstance⟩ =>
      some (s.setRecovery r ((⟨id, event, some c, .gettingDInstance⟩ : Recovery).proceed
        (c.getDInstance s.domain) .checking .checkingStatus))
    | _ => none
  | .checkDInstanceStatus r timedOut =>
    match s.recoveries.get? r with
    | some ⟨id, event, some c, .checkingStatus⟩ =>
      some (s.setRecovery r ((⟨id, event, some c, .checkingStatus⟩ : Recovery).checkDInstanceStatus c
        s.domain timeout timedOut))
    | _ => none
  | .refreshFaultyNodeCount r =>
    match s.recoveries.get? r with
    | some ⟨id, event, some c, .refreshingCount⟩ =>
      some (s.setRecovery r ((⟨id, event, some c, .refreshingCount⟩ : Recovery).proceed
        (c.refreshFaultyNodeCountBeforeKill s.domain) .selecting .selecting))
    | _ => none
  | .selectPInstances r =>
    match s.recoveries.get? r with
    | some ⟨id, event, some c, .selecting⟩ =>
      some (s.setRecovery r ((⟨id, event, some c, .selecting⟩ : Recovery).selectPInstancesToKill c
        s.domain))
    | _ => none
  | .killAndRelease r response =>
    match s.recoveries.get? r with
    | some ⟨id, event, some c, .killing pending⟩ =>
      some (s.setRecovery r ((⟨id, event, some c, .killing pending⟩ :
        Recovery).killAndReleasePInstances c pending response))
    | _ => none

end ScaleP2D

end PyMotor.Controller
