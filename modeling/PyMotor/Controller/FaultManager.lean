import Mathlib.Order.MinMax
import PyMotor.Controller.InstanceManager

/-!
# The fault manager

The controller records faults per physical node: those of the hardware as they are listed for the node,
those of the software as the pods report them (`controller/fault_tolerance/fault_manager.py`,
`mixin/resource_manager.py`). A node may serve several instances, and an instance may run on several
nodes. For every instance the manager caches the level of its worst fault, and isolates the instance
through the instance manager when that level is above two.

Steps are taken one after the other. Separating an active instance notifies the fault manager while it
is still refreshing that instance; the nested refresh is the last one, since the instance is not active
any more.
-/

namespace PyMotor.Controller

open Coordinator (InstanceId EndpointId)

inductive FaultLevel where
  | healthy
  | l1
  | l2
  | l3
  | l4
  | l5
  | l6
  deriving DecidableEq, Repr

namespace FaultLevel

def value : FaultLevel → ℕ
  | healthy => 0
  | l1 => 1
  | l2 => 2
  | l3 => 3
  | l4 => 4
  | l5 => 5
  | l6 => 6

instance : LinearOrder FaultLevel :=
  LinearOrder.lift' value fun a b h => by cases a <;> cases b <;> first | rfl | cases h

theorem healthy_le (level : FaultLevel) : healthy ≤ level := Nat.zero_le _

end FaultLevel

inductive FaultCategory where
  | hardware
  | software
  deriving DecidableEq, Repr

inductive HardwareFaultType where
  | cardUnhealthy
  | cardNetworkUnhealthy
  | nodeUnhealthy
  deriving DecidableEq, Repr

inductive OriginFaultLevel where
  | notHandleFault
  | subHealthFault
  | restartRequest
  | restartBusiness
  | freeRestartNpu
  | restartNpu
  | separateNpu
  | preSeparateNpu
  | manuallySeparateNpu
  deriving DecidableEq, Repr

inductive NodeStatus where
  | ready
  | notReady
  deriving DecidableEq, Repr

structure FaultInfo where
  faultCategory : FaultCategory
  faultLevel : FaultLevel
  faultCode : Int
  faultType : Option HardwareFaultType
  npuName : String
  originFaultLevel : Option OriginFaultLevel
  deriving DecidableEq, Repr

namespace SpecialFaultCode

def nodeReboot : Int := 0x0000001

end SpecialFaultCode

structure NodeMetadata where
  nodeName : String
  instanceIds : OrdSet InstanceId
  instancePodIps : Dict InstanceId String
  instanceJobNames : Dict InstanceId String
  nodeStatus : NodeStatus
  /-- By fault code. -/
  hardwareFaultInfos : Dict Int FaultInfo
  /-- By fault code. -/
  softwareFaultInfos : Dict Int FaultInfo

inductive Strategy where
  | tokenReinference
  | scaleP2D
  deriving DecidableEq, Repr

structure InstanceMetadata where
  faultLevel : FaultLevel
  faultCode : Int
  strategy : Option Strategy
  strategyFaultLevel : FaultLevel

structure FaultManager where
  nodes : Dict String NodeMetadata
  instances : Dict InstanceId InstanceMetadata

/-- The fault manager together with the instance manager that it acts on. -/
structure FaultDomain where
  faults : FaultManager
  manager : InstanceManager

/-! ## The worst fault -/

/-- The worse of two faults; the first one wins a tie. -/
def worse (best : Option FaultInfo) (f : FaultInfo) : Option FaultInfo :=
  match best with
  | none => some f
  | some b => if b.faultLevel < f.faultLevel then some f else some b

/-- The first of the faults with the highest level. -/
def highestFault (faults : List FaultInfo) : Option FaultInfo := faults.foldl worse none

/-- Hardware goes first. -/
def targetFault (hardware software : List FaultInfo) : Option FaultInfo :=
  match highestFault hardware, highestFault software with
  | some hw, some sw => if sw.faultLevel ≤ hw.faultLevel then some hw else some sw
  | some hw, none => some hw
  | none, sw => sw

namespace NodeMetadata

/-- A fault that calls for a separation counts unless all instances have left the node. -/
def affectsInstance (node : NodeMetadata) (f : FaultInfo) : Bool :=
  decide (f.originFaultLevel ≠ some .preSeparateNpu) || decide (f.faultLevel ≠ .l6) ||
    !node.instanceIds.isEmpty

def hasFaults (node : NodeMetadata) : Bool :=
  !node.hardwareFaultInfos.isEmpty || !node.softwareFaultInfos.isEmpty

end NodeMetadata

namespace FaultManager

def new : FaultManager := ⟨∅, ∅⟩

/-- The nodes of an instance that have faults. -/
def instanceNodes (fm : FaultManager) (id : InstanceId) : List NodeMetadata :=
  fm.nodes.values.filter fun node => decide (id ∈ node.instanceIds) && node.hasFaults

def target (fm : FaultManager) (id : InstanceId) : Option FaultInfo :=
  targetFault
    ((fm.instanceNodes id).flatMap fun node => node.hardwareFaultInfos.values.filter node.affectsInstance)
    ((fm.instanceNodes id).flatMap fun node => node.softwareFaultInfos.values)

def setInstance (fm : FaultManager) (id : InstanceId) (md : InstanceMetadata) : FaultManager :=
  { fm with instances := fm.instances.insert id md }

def setNode (fm : FaultManager) (name : String) (node : NodeMetadata) : FaultManager :=
  { fm with nodes := fm.nodes.insert name node }

/-- The instance's part in what is known of the node. -/
def ensureNodeMetadata (fm : FaultManager) (name podIp : String) (id : InstanceId) (jobName : String) :
    FaultManager :=
  match fm.nodes.get? name with
  | some node =>
    fm.setNode name { node with
      instanceIds := node.instanceIds.insert id
      instancePodIps := node.instancePodIps.insert id podIp
      instanceJobNames := node.instanceJobNames.insert id jobName }
  | none =>
    fm.setNode name
      { nodeName := name
        instanceIds := (∅ : OrdSet InstanceId).insert id
        instancePodIps := (∅ : Dict InstanceId String).insert id podIp
        instanceJobNames := (∅ : Dict InstanceId String).insert id jobName
        nodeStatus := .ready
        hardwareFaultInfos := ∅
        softwareFaultInfos := ∅ }

def ensureNodes (fm : FaultManager) (podToNodeName : Dict String String) (id : InstanceId)
    (jobName : String) : FaultManager :=
  podToNodeName.entries.foldl (fun fm pod => fm.ensureNodeMetadata pod.2 pod.1 id jobName) fm

/-- The node belongs to the new instance from now on. -/
def takeOver (fm : FaultManager) (name : String) (node : NodeMetadata) (id : InstanceId)
    (jobName : String) : FaultManager :=
  fm.setNode name { node with
    instanceIds := (∅ : OrdSet InstanceId).insert id
    instanceJobNames := (∅ : Dict InstanceId String).insert id jobName
    softwareFaultInfos := ∅ }

/-- Pair nodes that come from another job with nodes of the own job that are waiting, and exchange
their owners. The flag is false if a node has no owner, which raises. -/
def swapNodeOwnership (σ : HashOrder InstanceId) (id : InstanceId) (jobName : String) :
    FaultManager → List String → List String → Bool × FaultManager
  | fm, [], _ => (true, fm)
  | fm, foreign :: foreigns, orphans =>
    match fm.nodes.get? foreign with
    | none => (false, fm)
    | some node =>
      match (σ.iter 0 node.instanceIds.elems).head?, orphans with
      | none, _ => (false, fm)
      | some _, [] =>
        swapNodeOwnership σ id jobName (fm.takeOver foreign node id jobName) foreigns []
      | some oldInst, orphan :: orphans =>
        let fm := fm.takeOver foreign node id jobName
        match fm.nodes.get? orphan with
        | none => (false, fm)
        | some waiting =>
          match waiting.instancePodIps.values.head? with
          | none => (false, fm)
          | some podIp =>
            let fm := fm.setNode orphan { waiting with
              instanceIds := (∅ : OrdSet InstanceId).insert oldInst
              instanceJobNames := (∅ : Dict InstanceId String).insert oldInst
                ((node.instanceJobNames.get? oldInst).getD "")
              instancePodIps := (∅ : Dict InstanceId String).insert oldInst podIp
              softwareFaultInfos := ∅ }
            swapNodeOwnership σ id jobName fm foreigns orphans

/-- No instance that is still followed is on the node. -/
def isDeserted (fm : FaultManager) (node : NodeMetadata) : Bool :=
  node.instanceIds.elems.all fun id => !fm.instances.contains id

/-- Nodes of the new instance that a removed instance of another job has left. -/
def foreignNodes (fm : FaultManager) (nodeNames : List String) (jobName : String) : List String :=
  (nodeNames.foldl (fun names name => names.insert name ()) (∅ : Dict String Unit)).keys.filter fun name =>
    (fm.nodes.get? name).any fun node => fm.isDeserted node &&
      node.instanceJobNames.values.any fun other => decide (other ≠ "" ∧ other ≠ jobName)

/-- Nodes that a removed instance of the same job has left, and that the new one does not use. -/
def orphanedNodes (fm : FaultManager) (nodeNames : List String) (jobName : String) : List String :=
  (fm.nodes.entries.filter fun p => decide (p.1 ∉ nodeNames) && fm.isDeserted p.2 &&
    decide (jobName ∈ p.2.instanceJobNames.values)).map Prod.fst

def addNewInstanceWithNodes (fm : FaultManager) (σ : HashOrder InstanceId) (ins : Instance)
    (podToNodeName : Dict String String) : FaultManager :=
  let fm := fm.setInstance ins.id ⟨.healthy, 0, none, .healthy⟩
  let foreign := fm.foreignNodes podToNodeName.values ins.jobName
  let orphaned := fm.orphanedNodes podToNodeName.values ins.jobName
  let (ok, fm) := fm.swapNodeOwnership σ ins.id ins.jobName foreign orphaned
  if ok then fm.ensureNodes podToNodeName ins.id ins.jobName else fm

/-- The instance leaves nodes that none of its pods is on; a node without instances is forgotten. -/
def syncExistingInstanceNodes (fm : FaultManager) (ins : Instance)
    (podToNodeName : Dict String String) : FaultManager :=
  let nodes := fm.nodes.filterMap fun name node =>
    if ins.id ∈ node.instanceIds ∧ name ∉ podToNodeName.values then
      let ids := node.instanceIds.erase ins.id
      if ids.isEmpty then none
      else some { node with
        instanceIds := ids
        instancePodIps := node.instancePodIps.erase ins.id
        instanceJobNames := node.instanceJobNames.erase ins.id }
    else some node
  ({ fm with nodes := nodes }).ensureNodes podToNodeName ins.id ins.jobName

/-- Where the pods of an instance run; `nodeOf` is the answer of Kubernetes. -/
def buildNodeNameMapping (ins : Instance) (nodeOf : String → Option String) : Dict String String :=
  ins.nodeManagers.foldl
    (fun pods nm =>
      match nodeOf nm.podIp with
      | none => pods
      | some name => pods.insert nm.podIp name) ∅

def syncInstanceNodes (fm : FaultManager) (σ : HashOrder InstanceId) (ins : Instance)
    (nodeOf : String → Option String) : FaultManager :=
  let podToNodeName := buildNodeNameMapping ins nodeOf
  if fm.instances.contains ins.id then fm.syncExistingInstanceNodes ins podToNodeName
  else fm.addNewInstanceWithNodes σ ins podToNodeName

def clearSoftwareFaults (fm : FaultManager) (id : InstanceId) : FaultManager :=
  { fm with
    nodes := fm.nodes.mapVal fun _ node =>
      if id ∈ node.instanceIds then { node with softwareFaultInfos := ∅ } else node }

end FaultManager

namespace FaultDomain

def new : FaultDomain := ⟨.new, .new⟩

/-! ## Refreshing an instance -/

/-- Some instance on the node is followed and is starting or active. -/
def nodeHasActiveInstances (s : FaultDomain) (node : NodeMetadata) : Bool :=
  node.instanceIds.elems.any fun id => s.faults.instances.contains id &&
    (s.manager.instances.get? id).any fun i => decide (i.status = .initial ∨ i.status = .active)

/-- As long as there is business on the node, its chips are not to be separated. -/
def preSeparateLevel (s : FaultDomain) (node : NodeMetadata) : FaultLevel :=
  if s.nodeHasActiveInstances node then .l2 else .l6

def reevaluate (s : FaultDomain) (node : NodeMetadata) : NodeMetadata :=
  { node with
    hardwareFaultInfos := node.hardwareFaultInfos.mapVal fun _ f =>
      if f.originFaultLevel = some .preSeparateNpu then { f with faultLevel := s.preSeparateLevel node }
      else f }

def reevaluateNodes (s : FaultDomain) (id : InstanceId) : FaultDomain :=
  { s with
    faults := { s.faults with
      nodes := s.faults.nodes.mapVal fun _ node =>
        if id ∈ node.instanceIds then s.reevaluate node else node } }

/-- The level follows the worst fault, and the isolation follows the level. The flag says whether
the instance was active and is separated now, so that the fault manager is notified. -/
def applyTarget (s : FaultDomain) (id : InstanceId) (md : InstanceMetadata) : Bool × FaultDomain :=
  match s.faults.target id with
  | none =>
    if md.faultLevel = .healthy then (false, s)
    else
      (false, ⟨s.faults.setInstance id { md with faultLevel := .healthy, faultCode := 0 },
        s.manager.recoverInstance id⟩)
  | some f =>
    let faults := s.faults.setInstance id { md with faultLevel := f.faultLevel, faultCode := f.faultCode }
    if .l2 < f.faultLevel then
      let (manager, notifications) := s.manager.separateInstance id
      (!notifications.isEmpty, ⟨faults, manager⟩)
    else if s.manager.isInstanceSeparated id then (false, ⟨faults, s.manager.recoverInstance id⟩)
    else (false, ⟨faults, s.manager⟩)

def refreshOnce (s : FaultDomain) (id : InstanceId) : Bool × FaultDomain :=
  match s.faults.instances.get? id with
  | none => (false, s)
  | some md => (s.reevaluateNodes id).applyTarget id md

def refreshInstanceFaultLevel (s : FaultDomain) (id : InstanceId) : FaultDomain :=
  match s.refreshOnce id with
  | (true, s) => (s.refreshOnce id).2
  | (false, s) => s

def refreshAll (s : FaultDomain) (ids : List InstanceId) : FaultDomain :=
  ids.foldl refreshInstanceFaultLevel s

/-! ## Faults -/

/-- The names of the chips that share a fault. -/
def joinNpuNames (names : List String) (single : String) : String :=
  if names.length ≤ 1 then single
  else if names.length ≤ 4 then ", ".intercalate names
  else ", ".intercalate (names.take 3) ++ ", ... (" ++ toString names.length ++ " total)"

/-- The faults of one code are stored as one, the worst of them. -/
def storedFault (infos : List FaultInfo) (preSeparateLevel : FaultLevel) : Option FaultInfo :=
  (highestFault infos).map fun info =>
    { info with
      faultCategory := .hardware
      faultLevel :=
        if info.originFaultLevel = some .preSeparateNpu then preSeparateLevel else info.faultLevel
      npuName := joinNpuNames ((infos.map (·.npuName)).filter (· ≠ "")) info.npuName }

/-- The faults of a list, by their codes. -/
def groupFaults (infos : List FaultInfo) : Dict Int (List FaultInfo) :=
  infos.foldl (fun grouped f => grouped.insert f.faultCode ((grouped.get? f.faultCode).getD [] ++ [f])) ∅

/-- A node's hardware faults are replaced; that the node is down is not among those listed. -/
def replaceHardwareFaults (node : NodeMetadata) (infos : List FaultInfo)
    (preSeparateLevel : FaultLevel) : NodeMetadata :=
  let listed := (groupFaults infos).filterMap fun _ infos => storedFault infos preSeparateLevel
  { node with
    hardwareFaultInfos :=
      match node.hardwareFaultInfos.get? SpecialFaultCode.nodeReboot with
      | none => listed
      | some reboot => listed.insert SpecialFaultCode.nodeReboot reboot }

def handleFaultInfoUpdate (s : FaultDomain) (σ : HashOrder InstanceId) (nodeName : String)
    (infos : List FaultInfo) : FaultDomain :=
  match s.faults.nodes.get? nodeName with
  | none => s
  | some node =>
    let s := { s with
      faults := s.faults.setNode nodeName (replaceHardwareFaults node infos (s.preSeparateLevel node)) }
    s.refreshAll ((σ.iter 0 node.instanceIds.elems).filter fun id => s.faults.instances.contains id)

def nodeRebootFault : FaultInfo where
  faultCategory := .hardware
  faultLevel := .l6
  faultCode := SpecialFaultCode.nodeReboot
  faultType := some .nodeUnhealthy
  npuName := ""
  originFaultLevel := none

def withStatus (node : NodeMetadata) (status : NodeStatus) : NodeMetadata :=
  let node' := { node with nodeStatus := status }
  if node.nodeStatus = status then node'
  else
    match status with
    | .notReady => { node' with
        hardwareFaultInfos := node.hardwareFaultInfos.insert SpecialFaultCode.nodeReboot nodeRebootFault }
    | .ready => { node' with
        hardwareFaultInfos := node.hardwareFaultInfos.erase SpecialFaultCode.nodeReboot }

def handleNodeStatusUpdate (s : FaultDomain) (σ : HashOrder InstanceId) (nodeName : String)
    (status : NodeStatus) : FaultDomain :=
  match s.faults.nodes.get? nodeName with
  | none => s
  | some node =>
    let s := { s with faults := s.faults.setNode nodeName (withStatus node status) }
    s.refreshAll (σ.iter 0 node.instanceIds.elems)

/-- The first node that has a pod with the address. -/
def nodeOfPod (s : FaultDomain) (podIp : String) : Option (String × NodeMetadata) :=
  s.faults.nodes.entries.find? fun p => decide (podIp ≠ "" ∧ podIp ∈ p.2.instancePodIps.values)

/-- Only the instances of the pod are refreshed. -/
def reportSoftwareFault (s : FaultDomain) (f : FaultInfo) (podIp : String) : FaultDomain :=
  if f.faultCategory ≠ .software then s
  else
    match s.nodeOfPod podIp with
    | none => s
    | some (name, node) =>
      let s := { s with
        faults := s.faults.setNode name
          { node with softwareFaultInfos := node.softwareFaultInfos.insert f.faultCode f } }
      s.refreshAll ((node.instancePodIps.entries.filter fun p => decide (p.2 = podIp)).map Prod.fst)

/-! ## Strategies -/

/-- The strategy that an instance runs. A new one starts if there is none or the level has risen. -/
def switchStrategy (md : InstanceMetadata) (newStrategy : Option Strategy) : InstanceMetadata :=
  match newStrategy with
  | none => md
  | some cls =>
    if md.faultLevel = .healthy then md
    else if md.strategy.isNone ∨ md.strategyFaultLevel < md.faultLevel then
      { md with strategy := some cls, strategyFaultLevel := md.faultLevel }
    else md

/-- One turn of the strategy center for an instance. Which strategy its level calls for, and whether
the one it runs has finished, is left open. -/
def processInstanceStrategy (s : FaultDomain) (id : InstanceId) (newStrategy : Option Strategy)
    (finished : Bool) : FaultDomain :=
  match s.faults.instances.get? id with
  | none => s
  | some md =>
    let md := switchStrategy md newStrategy
    if md.strategy.isSome ∧ finished then
      let faults := s.faults.setInstance id { md with strategy := none, strategyFaultLevel := .healthy }
      { s with faults := faults.clearSoftwareFaults id }.refreshInstanceFaultLevel id
    else { s with faults := s.faults.setInstance id md }

/-! ## Notifications -/

def update (s : FaultDomain) (σ : HashOrder InstanceId) (nodeOf : String → Option String)
    (n : Notification) : FaultDomain :=
  match n.event with
  | .instanceInitial =>
    if s.faults.instances.contains n.ins.id then s
    else { s with faults := s.faults.syncInstanceNodes σ n.ins nodeOf }
  | .instanceSeparated => s.refreshInstanceFaultLevel n.ins.id
  | .instanceRemoved =>
    { s with faults := { s.faults with instances := s.faults.instances.erase n.ins.id } }
  | _ => s

/-- The instance manager has taken a step, and the fault manager is notified. -/
def notify (s : FaultDomain) (σ : HashOrder InstanceId) (nodeOf : String → Option String)
    (step : InstanceManager × List Notification) : FaultDomain :=
  step.2.foldl (fun s n => s.update σ nodeOf n) { s with manager := step.1 }

end FaultDomain

/-! ## Steps -/

inductive FaultOp where
  | addInstance (σ : HashOrder InstanceId) (ins : Instance) (nodeOf : String → Option String)
  | heartbeat (id : InstanceId) (ip : String) (status : Dict EndpointId EndpointStatus)
  | heartbeatTimeout (id : InstanceId) (abnormal : Bool)
  | faultInfoUpdate (σ : HashOrder InstanceId) (nodeName : String) (infos : List FaultInfo)
  | nodeStatusUpdate (σ : HashOrder InstanceId) (nodeName : String) (status : NodeStatus)
  | reportSoftwareFault (f : FaultInfo) (podIp : String)
  | processStrategy (id : InstanceId) (newStrategy : Option Strategy) (finished : Bool)

namespace FaultDomain

def exec (s : FaultDomain) : FaultOp → Option FaultDomain
  | .addInstance σ ins nodeOf => some (s.notify σ nodeOf (s.manager.addInstance ins))
  | .heartbeat id ip status =>
    some (s.notify .insertion (fun _ => none) (s.manager.handleHeartbeat id ip status).2)
  | .heartbeatTimeout id abnormal =>
    some (s.notify .insertion (fun _ => none) (s.manager.handleHeartbeatTimeout id abnormal))
  | .faultInfoUpdate σ nodeName infos => some (s.handleFaultInfoUpdate σ nodeName infos)
  | .nodeStatusUpdate σ nodeName status => some (s.handleNodeStatusUpdate σ nodeName status)
  | .reportSoftwareFault f podIp => some (s.reportSoftwareFault f podIp)
  | .processStrategy id newStrategy finished => some (s.processInstanceStrategy id newStrategy finished)

end FaultDomain

end PyMotor.Controller
