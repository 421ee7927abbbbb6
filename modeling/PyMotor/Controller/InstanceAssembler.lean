import Mathlib.Algebra.Order.Ring.Nat
import PyMotor.Controller.InstanceManager

/-!
# The instance assembler

The pods of a job register one by one with the controller, until the instance they form is complete and
is handed over to the instance manager (`controller/core/instance_assembler.py`). A new job gets its id
from a counter. After a restart of the controller the pods of a running job register again, and bring
the id that the job was given before.

Assembler and manager persist their data separately, each at its own times. Of a rank table only the
devices are modelled.
-/

namespace PyMotor.Controller

open Coordinator (InstanceId EndpointId DeviceInfo NodeManagerInfo ParallelConfig)

inductive RegisterStatus where
  | notRegistered
  | assembling
  | assembled
  deriving DecidableEq, Repr

structure RegisterMsg where
  jobName : String
  modelName : String
  engineType : Option String
  dispatchCapabilities : List String
  role : String
  podIp : String
  businessPort : List String
  mgmtPort : List String
  bootstrapPort : Option ℕ
  nmPort : String
  parallelConfig : ParallelConfig
  enableMultiEndpoints : Bool
  deviceNum : ℕ
  /-- The devices of each server. -/
  ranktable : Option (List (List DeviceInfo))
  nnodes : Int
  isMaster : Bool

structure ReregisterMsg where
  jobName : String
  modelName : String
  engineType : Option String
  dispatchCapabilities : List String
  instanceId : InstanceId
  role : String
  podIp : String
  nmPort : String
  parallelConfig : ParallelConfig
  enableMultiEndpoints : Bool
  deviceNum : ℕ
  endpoints : List Endpoint
  nnodes : Int
  nodeRank : Int

structure AssembleInstanceMetadata where
  ins : Instance
  registerStatus : RegisterStatus
  startCommandSendTimes : ℕ
  isReregister : Bool
  nnodes : Int
  snapshotDpMasterIp : Option String
  /-- The manager took over this very object, so that both change together. -/
  shared : Bool

/-! ## Pods of an instance -/

namespace Instance

def hasNodeMgr (i : Instance) (podIp : String) : Bool :=
  i.nodeManagers.any fun nm => decide (nm.podIp = podIp)

def addNodeMgr (i : Instance) (nm : NodeManagerInfo) : Instance :=
  if nm ∈ i.nodeManagers then i else { i with nodeManagers := i.nodeManagers ++ [nm] }

def delNodeMgr (i : Instance) (podIp port : String) : Instance :=
  { i with
    nodeManagers := i.nodeManagers.eraseP fun nm => decide (nm.podIp = podIp ∧ nm.port = port) }

def addEndpoints (i : Instance) (podIp : String) (endpoints : Dict EndpointId Endpoint) : Instance :=
  { i with endpoints := i.endpoints.insert podIp endpoints }

def delEndpoints (i : Instance) (podIp : String) : Instance :=
  { i with endpoints := i.endpoints.erase podIp }

def getEndpointsNum (i : Instance) : ℕ :=
  (i.endpoints.values.map Dict.size).sum

def getExpectedEndpointCount (i : Instance) : Int :=
  match i.parallelConfig with
  | none => 0
  | some config =>
    if i.enableMultiEndpoints then config.dpSize
    else
      match i.nodeManagers with
      | [] => 0
      | nm :: _ =>
        if nm.deviceNum ≤ 0 then 0 else (config.worldSize + nm.deviceNum - 1).fdiv nm.deviceNum

def isEndpointsEnough (i : Instance) : Bool :=
  match i.parallelConfig with
  | none => false
  | some config =>
    if i.enableMultiEndpoints then decide ((i.getEndpointsNum : Int) = config.dpSize)
    else decide (0 < i.getExpectedEndpointCount ∧
      (i.nodeManagers.length : Int) = i.getExpectedEndpointCount)

/-- The pods whose node managers do not answer are dropped. -/
def filterAbnormalEndpoints (i : Instance) (alive : NodeManagerInfo → Bool) : Instance :=
  i.nodeManagers.foldl
    (fun i nm => if alive nm then i else (i.delEndpoints nm.podIp).delNodeMgr nm.podIp nm.port) i

/-- The endpoints of the nodes that are not the first of their group. -/
def markHeadless (i : Instance) (nnodes : Int) : Instance :=
  i.nodeManagers.zipIdx.foldl
    (fun i (nm, rank) =>
      if (rank : Int) % nnodes = 0 then i
      else
        match i.endpoints.get? nm.podIp with
        | none => i
        | some pod => i.addEndpoints nm.podIp (pod.mapVal fun _ ep => { ep with headless := true })) i

end Instance

/-! ## Endpoints of a new pod -/

def newEndpoint (id : EndpointId) (ip businessPort mgmtPort : String) (bootstrapPort : Option ℕ)
    (deviceInfos : List DeviceInfo) : Endpoint where
  id := id
  ip := ip
  businessPort := businessPort
  mgmtPort := mgmtPort
  bootstrapPort := bootstrapPort
  deviceInfos := deviceInfos
  workload := .zero
  status := .initial
  headless := false

namespace RegisterMsg

/-- A rank table without servers is an `IndexError`. -/
def buildDeviceInfos (msg : RegisterMsg) (startIdx devicesPerEndpoint : Int) (idOffset : ℕ) :
    Option (List DeviceInfo) :=
  match msg.ranktable with
  | some servers => servers.head?
  | none =>
    let devices := (List.range devicesPerEndpoint.toNat).map fun j => startIdx + j
    some ((devices.filter fun device : Int => decide (device < msg.deviceNum)).map fun device =>
      ⟨none, toString device, toString (idOffset * devicesPerEndpoint + device), none⟩)

/-- A missing port is an `IndexError`. -/
def buildSingleEndpoint (msg : RegisterMsg) (idOffset : ℕ) : Option (Dict EndpointId Endpoint) :=
  match msg.buildDeviceInfos 0 msg.parallelConfig.localWorldSize idOffset, msg.businessPort,
      msg.mgmtPort with
  | some deviceInfos, port :: _, mgmtPort :: _ =>
    some ((∅ : Dict EndpointId Endpoint).insert 0
      (newEndpoint idOffset msg.podIp port mgmtPort msg.bootstrapPort deviceInfos))
  | _, _, _ => none

/-- The ports for which there are devices. -/
def actualPorts (msg : RegisterMsg) : List String :=
  let devicesPerEndpoint := msg.parallelConfig.localWorldSize
  if msg.businessPort.length * devicesPerEndpoint > msg.deviceNum then
    msg.businessPort.take (msg.deviceNum / devicesPerEndpoint.toNat)
  else msg.businessPort

def buildMultiEndpoints (msg : RegisterMsg) (idOffset : ℕ) : Option (Dict EndpointId Endpoint) :=
  -- the loop ends at the first endpoint without devices
  let ports := msg.actualPorts.zipIdx.takeWhile fun (_, i) =>
    decide (msg.parallelConfig.localWorldSize * (i + 1) ≤ msg.deviceNum)
  ports.foldlM
    (fun endpoints (port, i) =>
      (msg.buildDeviceInfos (msg.parallelConfig.localWorldSize * i) msg.parallelConfig.localWorldSize
          idOffset).bind fun deviceInfos =>
        (msg.mgmtPort[i]?).map fun mgmtPort =>
          endpoints.insert i
            (newEndpoint (idOffset + i) msg.podIp port mgmtPort msg.bootstrapPort deviceInfos)) ∅

def buildEndpoints (msg : RegisterMsg) (idOffset : ℕ) : Option (Dict EndpointId Endpoint) :=
  if msg.enableMultiEndpoints then msg.buildMultiEndpoints idOffset
  else msg.buildSingleEndpoint idOffset

def nodeMgr (msg : RegisterMsg) : NodeManagerInfo := ⟨msg.podIp, msg.nmPort, msg.deviceNum⟩

def newMetadata (msg : RegisterMsg) (id : InstanceId) : AssembleInstanceMetadata where
  ins :=
    { jobName := msg.jobName, modelName := msg.modelName, engineType := msg.engineType
      dispatchCapabilities := msg.dispatchCapabilities, id := id, role := msg.role, status := .initial
      parallelConfig := some msg.parallelConfig, enableMultiEndpoints := msg.enableMultiEndpoints
      nodeManagers := [], endpoints := ∅, gatheredWorkload := .zero }
  registerStatus := .notRegistered
  startCommandSendTimes := 0
  isReregister := false
  nnodes := msg.nnodes
  snapshotDpMasterIp := none
  shared := false

end RegisterMsg

namespace ReregisterMsg

def nodeMgr (msg : ReregisterMsg) : NodeManagerInfo := ⟨msg.podIp, msg.nmPort, msg.deviceNum⟩

def newMetadata (msg : ReregisterMsg) : AssembleInstanceMetadata where
  ins :=
    { jobName := msg.jobName, modelName := msg.modelName, engineType := msg.engineType
      dispatchCapabilities := msg.dispatchCapabilities, id := msg.instanceId, role := msg.role
      status := .initial, parallelConfig := some msg.parallelConfig
      enableMultiEndpoints := msg.enableMultiEndpoints, nodeManagers := [], endpoints := ∅
      gatheredWorkload := .zero }
  registerStatus := .notRegistered
  startCommandSendTimes := 0
  isReregister := true
  nnodes := msg.nnodes
  snapshotDpMasterIp := none
  shared := false

/-- The endpoints as the pod has them; those of another node than the first are headless. -/
def podEndpoints (msg : ReregisterMsg) : Dict EndpointId Endpoint :=
  msg.endpoints.foldl
    (fun endpoints ep =>
      endpoints.insert ep.id (if msg.nodeRank ≠ 0 then { ep with headless := true } else ep)) ∅

end ReregisterMsg

namespace AssembleInstanceMetadata

/-- Whether all pods are there. A job across nodes counts its nodes, any other its endpoints. -/
def isReady (md : AssembleInstanceMetadata) : Bool :=
  if 1 < md.nnodes then
    decide ((if md.ins.enableMultiEndpoints then
        (md.ins.parallelConfig.map (·.dpSize)).getD 1 * md.nnodes
      else md.ins.getExpectedEndpointCount) ≤ (md.ins.nodeManagers.length : Int))
  else md.ins.isEndpointsEnough

/-- Dead pods are dropped first, and with them a master that was among them. -/
def filtered (md : AssembleInstanceMetadata) (alive : NodeManagerInfo → Bool) :
    AssembleInstanceMetadata :=
  let ins := md.ins.filterAbnormalEndpoints alive
  { md with
    ins := ins
    snapshotDpMasterIp := md.snapshotDpMasterIp.filter ins.hasNodeMgr }

/-- The complete instance as it is handed over. -/
def completed (md : AssembleInstanceMetadata) : AssembleInstanceMetadata :=
  { md with
    ins := if 1 < md.nnodes ∧ md.isReregister = false then md.ins.markHeadless md.nnodes else md.ins
    registerStatus := .assembled }

end AssembleInstanceMetadata

/-! ## Assembler and manager -/

structure InstanceAssembler where
  insIdCnt : InstanceId
  instances : Dict String AssembleInstanceMetadata

def InstanceAssembler.new : InstanceAssembler := ⟨1, ∅⟩

structure ControllerState where
  assembler : InstanceAssembler
  manager : InstanceManager
  /-- What the assembler has persisted last. -/
  assemblerData : Option InstanceAssembler
  /-- What the manager has persisted last. -/
  managerData : Option (Dict InstanceId Instance)
  /-- The ids that jobs were ever given, by this run of the controller or an earlier one. -/
  given : List (String × InstanceId)
  /-- Those that earlier runs gave. -/
  earlier : List (String × InstanceId)

inductive RegisterResult where
  | accepted
  | rejected
  | indexError
  deriving DecidableEq, Repr

namespace InstanceManager

def hasActiveInstanceByJobName (m : InstanceManager) (jobName : String) : Bool :=
  m.instances.values.any fun i => decide (i.jobName = jobName ∧ i.status = .active)

end InstanceManager

namespace ControllerState

/-- A controller that starts without data; earlier ones have given ids to jobs. -/
def new (given : List (String × InstanceId)) : ControllerState :=
  ⟨.new, .new, none, none, given, given⟩

def evalRegisterStatus (s : ControllerState) (jobName : String) : RegisterStatus :=
  if s.manager.hasActiveInstanceByJobName jobName then .assembled
  else if s.assembler.instances.contains jobName then .assembling
  else .notRegistered

def setMetadata (s : ControllerState) (jobName : String) (md : AssembleInstanceMetadata) :
    ControllerState :=
  { s with assembler := { s.assembler with instances := s.assembler.instances.insert jobName md } }

def dropMetadata (s : ControllerState) (jobName : String) : ControllerState :=
  { s with assembler := { s.assembler with instances := s.assembler.instances.erase jobName } }

/-- Change the instance of an entry. If it has been handed over, the manager sees the change. -/
def amend (s : ControllerState) (jobName : String) (f : Instance → Instance) : ControllerState :=
  match s.assembler.instances.get? jobName with
  | none => s
  | some md =>
    let s := s.setMetadata jobName { md with ins := f md.ins }
    if md.shared then
      match s.manager.instances.get? md.ins.id with
      | none => s
      | some i =>
        { s with
          manager := { s.manager with instances := s.manager.instances.insert md.ins.id (f i) } }
    else s

/-- The pod says that it is the master. Another master that is still there keeps its place. -/
def recordMaster (s : ControllerState) (msg : RegisterMsg) (md : AssembleInstanceMetadata) :
    ControllerState :=
  if msg.isMaster then
    if md.snapshotDpMasterIp.any fun ip => decide (ip ≠ msg.podIp) && md.ins.hasNodeMgr ip then s
    else s.setMetadata msg.jobName { md with snapshotDpMasterIp := some msg.podIp }
  else s

/-- The pod joins the entry of its job. -/
def joinRegister (s : ControllerState) (msg : RegisterMsg) (md : AssembleInstanceMetadata) :
    RegisterResult × ControllerState :=
  if md.ins.hasNodeMgr msg.podIp then (.accepted, s)
  else
    let s := (s.recordMaster msg md).amend msg.jobName (·.addNodeMgr msg.nodeMgr)
    match msg.buildEndpoints md.ins.getEndpointsNum with
    | none => (.indexError, s)
    | some endpoints => (.accepted, s.amend msg.jobName (·.addEndpoints msg.podIp endpoints))

/-- A job that is not known yet gets the next id. -/
def openEntry (s : ControllerState) (msg : RegisterMsg) : ControllerState :=
  { s with
    assembler :=
      ⟨s.assembler.insIdCnt + 1,
        s.assembler.instances.insert msg.jobName (msg.newMetadata s.assembler.insIdCnt)⟩
    given := s.given ++ [(msg.jobName, s.assembler.insIdCnt)] }

def register (s : ControllerState) (msg : RegisterMsg) : RegisterResult × ControllerState :=
  match s.evalRegisterStatus msg.jobName with
  | .assembled => (.rejected, s)
  | .notRegistered => (s.openEntry msg).joinRegister msg (msg.newMetadata s.assembler.insIdCnt)
  | .assembling =>
    match s.assembler.instances.get? msg.jobName with
    | none => (.rejected, s)
    | some md => if md.isReregister then (.rejected, s) else s.joinRegister msg md

/-- The counter goes beyond the id of the message, and the pod joins the entry of its job. -/
def joinReregister (s : ControllerState) (msg : ReregisterMsg) : ControllerState :=
  let s := { s with
    assembler := { s.assembler with insIdCnt := max s.assembler.insIdCnt (msg.instanceId + 1) } }
  (s.amend msg.jobName (·.addNodeMgr msg.nodeMgr)).amend msg.jobName
    (·.addEndpoints msg.podIp msg.podEndpoints)

def reregister (s : ControllerState) (msg : ReregisterMsg) : RegisterResult × ControllerState :=
  match s.evalRegisterStatus msg.jobName with
  | .assembled => (.rejected, s)
  | .notRegistered => (.accepted, (s.setMetadata msg.jobName msg.newMetadata).joinReregister msg)
  | .assembling =>
    match s.assembler.instances.get? msg.jobName with
    | none => (.rejected, s)
    | some md => if md.isReregister then (.accepted, s.joinReregister msg) else (.rejected, s)

/-- The complete instance goes to the manager. One that registered again is finished with that; a new
one stays until its start command is sent. -/
def handOver (s : ControllerState) (jobName : String) (md : AssembleInstanceMetadata) :
    ControllerState :=
  let accepted := !s.manager.instances.contains md.ins.id
  let s := { s with manager := (s.manager.addInstance md.ins).1 }
  if md.isReregister then s.dropMetadata jobName
  else s.setMetadata jobName { md with shared := accepted }

/-- One turn of the assembler's loop for an entry that is not assembled yet. -/
def assembleInstance (s : ControllerState) (jobName : String) (md : AssembleInstanceMetadata)
    (alive : NodeManagerInfo → Bool) (timedOut : Bool) : ControllerState :=
  let md := md.filtered alive
  if md.isReady then s.handOver jobName md.completed
  else if timedOut then s.dropMetadata jobName
  else s.setMetadata jobName md

/-- The start command of an assembled entry was sent, or failed once more. -/
def sendStartCommand (s : ControllerState) (jobName : String) (md : AssembleInstanceMetadata)
    (success : Bool) (maxRetryTimes : ℕ) : ControllerState :=
  if success then s.dropMetadata jobName
  else if md.startCommandSendTimes + 1 < maxRetryTimes then
    s.setMetadata jobName { md with startCommandSendTimes := md.startCommandSendTimes + 1 }
  else s.dropMetadata jobName

/-- Every restored entry waits for pods that register again. -/
def restoredAssembler (s : ControllerState) (restore : Bool) : InstanceAssembler :=
  match restore, s.assemblerData with
  | true, some data =>
    { data with
      instances := data.instances.mapVal fun _ md => { md with isReregister := true, shared := false } }
  | _, _ => .new

def restoredManager (s : ControllerState) (restore : Bool) : InstanceManager :=
  match restore, s.managerData with
  | true, some data => ⟨data, ∅⟩
  | _, _ => .new

end ControllerState

/-! ## Steps -/

inductive ControllerOp where
  | register (msg : RegisterMsg)
  | reregister (msg : ReregisterMsg)
  | assemble (jobName : String) (alive : NodeManagerInfo → Bool) (timedOut : Bool)
  | sendStartCommand (jobName : String) (success : Bool) (maxRetryTimes : ℕ)
  | heartbeat (id : InstanceId) (ip : String) (status : Dict EndpointId EndpointStatus)
  | persistAssembler
  | persistManager
  /-- Each of the two finds its persisted data, or starts without. -/
  | restart (assemblerRestores managerRestores : Bool)

namespace ControllerState

/-- A pod registers again with an id that its job was given. -/
def exec (s : ControllerState) : ControllerOp → Option ControllerState
  | .register msg => some (s.register msg).2
  | .reregister msg =>
    if (msg.jobName, msg.instanceId) ∈ s.given then some (s.reregister msg).2 else none
  | .assemble jobName alive timedOut =>
    match s.assembler.instances.get? jobName with
    | none => none
    | some md =>
      if md.registerStatus = .assembled then none
      else some (s.assembleInstance jobName md alive timedOut)
  | .sendStartCommand jobName success maxRetryTimes =>
    match s.assembler.instances.get? jobName with
    | none => none
    | some md =>
      if md.registerStatus = .assembled then some (s.sendStartCommand jobName md success maxRetryTimes)
      else none
  | .heartbeat id ip status => some { s with manager := (s.manager.handleHeartbeat id ip status).2.1 }
  | .persistAssembler => some { s with assemblerData := some s.assembler }
  | .persistManager => some { s with managerData := some s.manager.instances }
  | .restart assemblerRestores managerRestores =>
    some { s with
      assembler := s.restoredAssembler assemblerRestores
      manager := s.restoredManager managerRestores
      earlier := s.given }

end ControllerState

end PyMotor.Controller
