import PyMotor.Controller.InstanceAssembler

/-!
# The threads of the assembler

Register calls, the assembler's loop and the sender of start commands work on the same entries at the
same time. The lock of the assembler covers the table of entries and the counter only, that of an entry
its status and its master; the pods of an instance are looked at and changed in between, one access at a
time. So every thread has a place in its function, and a step goes on to the next access that the others
can see (`controller/core/instance_assembler.py`).

A thread holds on to the entry that it took from the table, whether it is still there or not. An entry
has the id of its instance, which no other one gets. Persisting, calls of `reregister` and restarts are
not part of this.
-/

namespace PyMotor.Controller

open Coordinator (InstanceId EndpointId NodeManagerInfo)

/-! ## Register calls -/

/-- How far a call has come. -/
inductive CallPhase where
  /-- It took the entry of its job from the table, or put a new one there. -/
  | entered
  /-- It found that the pod has no node manager yet. -/
  | isNew
  | recorded
  | added
  | built (endpoints : Dict EndpointId Endpoint)

structure RegisterCall where
  msg : RegisterMsg
  phase : CallPhase

namespace RegisterCall

/-- The call goes on to add the pod. -/
def joins (c : RegisterCall) : Bool :=
  match c.phase with
  | .entered => false
  | _ => true

/-- The node manager is there, its endpoints are not. -/
def arrives (c : RegisterCall) : Bool :=
  match c.phase with
  | .added => true
  | .built _ => true
  | _ => false

end RegisterCall

/-! ## Passes of the assembler -/

/-- How far `_assemble_instance` has come. -/
inductive PassPhase where
  | idle
  | taken
  /-- Node managers of a copy of the list are still to be asked. -/
  | filtering (todo : List NodeManagerInfo)
  /-- The endpoints of a dead pod are gone, its node manager is not. -/
  | dropping (nm : NodeManagerInfo) (todo : List NodeManagerInfo)
  | checking
  | comparing (expectedNodes : Int)
  | ready
  /-- Node managers of a copy of the list are still to be looked at, with their ranks. -/
  | marking (todo : List (NodeManagerInfo × ℕ))
  | waiting

/-! ## Rounds of start commands -/

/-- What a node manager is told, and which one. Rank tables and the peers for loading weights are left
out. -/
structure StartCmdMsg where
  nodeMgr : NodeManagerInfo
  jobName : String
  role : String
  instanceId : InstanceId
  endpoints : List Endpoint
  masterDpIp : String
  nodeRank : Int

/-- How far `_send_start_command` has come. -/
inductive RoundPhase where
  | idle
  | taken
  | chosen (snapshotDpMasterIp : Option String)
  /-- The commands sent so far, to node managers of a copy of the list. -/
  | sending (masterDpIp : String) (nodeManagers : List NodeManagerInfo)
      (todo : List (NodeManagerInfo × ℕ)) (sent : List StartCmdMsg) (isSucceed : Bool)

/-- The master of a restored snapshot, else the first pod. An empty address does not count. -/
def chooseMaster (snapshotDpMasterIp : Option String) (nodeManagers : List NodeManagerInfo) :
    Option String :=
  ((snapshotDpMasterIp.filter fun ip => decide (ip ≠ "")).or
    (nodeManagers.head?.map (·.podIp))).filter fun ip => decide (ip ≠ "")

/-! ## Entries -/

namespace AssembleInstanceMetadata

/-- The pod says that it is the master. Another master that is still there keeps its place. -/
def recordMaster (md : AssembleInstanceMetadata) (msg : RegisterMsg) : AssembleInstanceMetadata :=
  if msg.isMaster ∧ ¬(md.snapshotDpMasterIp.any fun ip =>
      decide (ip ≠ "" ∧ ip ≠ msg.podIp) && md.ins.hasNodeMgr ip) then
    { md with snapshotDpMasterIp := some msg.podIp }
  else md

/-- A master that was filtered out does not stay one. -/
def dropLostMaster (md : AssembleInstanceMetadata) : AssembleInstanceMetadata :=
  if md.snapshotDpMasterIp.any fun ip => decide (ip ≠ "") && !md.ins.hasNodeMgr ip then
    { md with snapshotDpMasterIp := none }
  else md

/-- The number of nodes of a job across nodes. -/
def expectedNodes (md : AssembleInstanceMetadata) : Int :=
  if md.ins.enableMultiEndpoints then (md.ins.parallelConfig.map (·.dpSize)).getD 1 * md.nnodes
  else md.ins.getExpectedEndpointCount

def nodeRank (md : AssembleInstanceMetadata) (rank : ℕ) : Int :=
  if 1 < md.nnodes then (rank : Int) % md.nnodes else rank

/-- The command that a pod gets. -/
def commandFor (md : AssembleInstanceMetadata) (masterDpIp : String) (p : NodeManagerInfo × ℕ) :
    StartCmdMsg where
  nodeMgr := p.1
  jobName := md.ins.jobName
  role := md.ins.role
  instanceId := md.ins.id
  endpoints := ((md.ins.endpoints.get? p.1.podIp).getD ∅).values
  masterDpIp := masterDpIp
  nodeRank := md.nodeRank p.2

end AssembleInstanceMetadata

/-- The endpoints of a node that is not the first of its group. -/
def Instance.markPod (i : Instance) (nnodes : Int) (p : NodeManagerInfo × ℕ) : Instance :=
  if (p.2 : Int) % nnodes = 0 then i
  else
    match i.endpoints.get? p.1.podIp with
    | none => i
    | some pod => i.addEndpoints p.1.podIp (pod.mapVal fun _ ep => { ep with headless := true })

/-- An entry, and the threads that work on it. -/
structure Assembly where
  md : AssembleInstanceMetadata
  calls : Dict ℕ RegisterCall
  pass : PassPhase
  round : RoundPhase
  /-- The node managers with which the instance was found ready. -/
  counted : List NodeManagerInfo
  /-- The commands of each round that is over. -/
  rounds : List (List StartCmdMsg)

namespace Assembly

/-- The entry that a register call opens. -/
def opened (n : ℕ) (msg : RegisterMsg) (id : InstanceId) : Assembly :=
  ⟨msg.newMetadata id, (∅ : Dict ℕ RegisterCall).insert n ⟨msg, .entered⟩, .idle, .idle, [], []⟩

def amend (a : Assembly) (f : Instance → Instance) : Assembly :=
  { a with md := { a.md with ins := f a.md.ins } }

/-! ### A register call goes on -/

def enter (a : Assembly) (n : ℕ) (msg : RegisterMsg) (phase : CallPhase) : Assembly :=
  { a with calls := a.calls.insert n ⟨msg, phase⟩ }

def endCall (a : Assembly) (n : ℕ) : Assembly := { a with calls := a.calls.erase n }

/-- The rest of `register`. A call whose endpoints cannot be built ends with an `IndexError`. -/
def proceed (a : Assembly) (n : ℕ) : Option Assembly :=
  match a.calls.get? n with
  | none => none
  | some ⟨msg, .entered⟩ =>
    some (if a.md.ins.hasNodeMgr msg.podIp then a.endCall n else a.enter n msg .isNew)
  | some ⟨msg, .isNew⟩ => some { a.enter n msg .recorded with md := a.md.recordMaster msg }
  | some ⟨msg, .recorded⟩ => some ((a.enter n msg .added).amend (·.addNodeMgr msg.nodeMgr))
  | some ⟨msg, .added⟩ =>
    some (match msg.buildEndpoints a.md.ins.getEndpointsNum with
      | none => a.endCall n
      | some endpoints => a.enter n msg (.built endpoints))
  | some ⟨msg, .built endpoints⟩ => some ((a.endCall n).amend (·.addEndpoints msg.podIp endpoints))

/-! ### A pass goes on -/

/-- The next step of the pass finds that all pods are there. -/
def findsReady (a : Assembly) : Bool :=
  match a.pass with
  | .checking => decide (a.md.nnodes ≤ 1) && a.md.ins.isEndpointsEnough
  | .comparing expectedNodes => decide (expectedNodes ≤ (a.md.ins.nodeManagers.length : Int))
  | _ => false

def evaluated (a : Assembly) : Assembly :=
  if a.findsReady then { a with pass := .ready, counted := a.md.ins.nodeManagers }
  else { a with pass := .waiting }

/-- The status and the manager change under the lock of the entry. `add_instance` does nothing if it
has the id already. -/
def handOver (a : Assembly) (accepted : Bool) : Assembly :=
  let a := { a with md := { a.md with registerStatus := .assembled }, pass := .idle }
  if accepted then a.amend Instance.refreshHeartbeats else a

/-- One step of `_assemble_instance`; `alive` is the answer of the node manager that is asked. -/
def passStep (a : Assembly) (alive accepted : Bool) : Assembly :=
  match a.pass with
  | .idle => a
  | .taken => { a with pass := .filtering a.md.ins.nodeManagers }
  | .filtering (nm :: todo) =>
    if alive then { a with pass := .filtering todo }
    else { a.amend (·.delEndpoints nm.podIp) with pass := .dropping nm todo }
  | .dropping nm todo => { a.amend (·.delNodeMgr nm.podIp nm.port) with pass := .filtering todo }
  | .filtering [] => { a with md := a.md.dropLostMaster, pass := .checking }
  | .checking =>
    if 1 < a.md.nnodes then { a with pass := .comparing a.md.expectedNodes } else a.evaluated
  | .comparing _ => a.evaluated
  | .ready =>
    if 1 < a.md.nnodes ∧ a.md.isReregister = false then
      { a with pass := .marking a.md.ins.nodeManagers.zipIdx }
    else a.handOver accepted
  | .marking (p :: todo) => { a.amend (·.markPod a.md.nnodes p) with pass := .marking todo }
  | .marking [] => a.handOver accepted
  | .waiting => { a with pass := .idle }

/-- The next step of the pass hands the instance over. -/
def handsOver (a : Assembly) : Bool :=
  match a.pass with
  | .ready => !decide (1 < a.md.nnodes ∧ a.md.isReregister = false)
  | .marking [] => true
  | _ => false

/-- The next step of the pass takes the entry out of the table. -/
def pops (a : Assembly) (timedOut : Bool) : Bool :=
  match a.pass with
  | .waiting => timedOut
  | _ => a.handsOver && a.md.isReregister

/-! ### A round goes on -/

/-- One step of `_send_start_command` before its end; `ok` is the answer to a command. -/
def roundStep (a : Assembly) (ok : Bool) : Assembly :=
  match a.round with
  | .taken => { a with round := .chosen a.md.snapshotDpMasterIp }
  | .chosen snapshotDpMasterIp =>
    match chooseMaster snapshotDpMasterIp a.md.ins.nodeManagers with
    | none => a
    | some masterDpIp =>
      { a with
        round := .sending masterDpIp a.md.ins.nodeManagers a.md.ins.nodeManagers.zipIdx [] true }
  | .sending masterDpIp nodeManagers (p :: todo) sent isSucceed =>
    -- a pod without endpoints is skipped
    if (a.md.commandFor masterDpIp p).endpoints.isEmpty then
      { a with round := .sending masterDpIp nodeManagers todo sent isSucceed }
    else
      { a with
        round := .sending masterDpIp nodeManagers todo (sent ++ [a.md.commandFor masterDpIp p])
          (ok && isSucceed) }
  | _ => a

/-- What `_send_start_command` has sent and returns, if it is at its end. -/
def roundResult (a : Assembly) : Option (List StartCmdMsg × Bool) :=
  match a.round with
  | .chosen snapshotDpMasterIp =>
    match chooseMaster snapshotDpMasterIp a.md.ins.nodeManagers with
    | none => some ([], false)
    | some _ => none
  | .sending _ nodeManagers [] sent isSucceed =>
    some (sent, !sent.isEmpty && !decide (1 < a.md.nnodes ∧ sent.length < nodeManagers.length) &&
      isSucceed)
  | _ => none

/-- Whether the sender is done with the entry. -/
def isFinal (a : Assembly) (success : Bool) (maxRetryTimes : ℕ) : Bool :=
  success || decide (maxRetryTimes ≤ a.md.startCommandSendTimes + 1)

def finishRound (a : Assembly) (sent : List StartCmdMsg) (success : Bool) (maxRetryTimes : ℕ) :
    Assembly :=
  { a with
    md := if a.isFinal success maxRetryTimes then a.md
      else { a.md with startCommandSendTimes := a.md.startCommandSendTimes + 1 }
    round := .idle
    rounds := a.rounds ++ [sent] }

end Assembly

/-! ## All threads -/

structure AssemblerThreads where
  insIdCnt : InstanceId
  instances : Dict String InstanceId
  /-- All entries there ever were. -/
  entries : Dict InstanceId Assembly
  /-- Whose pass, and whose round, is going on. -/
  assembling : Option InstanceId
  starting : Option InstanceId
  /-- The instances that the manager has, and those of them that are active by their heartbeats. -/
  managed : List InstanceId
  active : List InstanceId

inductive AssemblerOp where
  | register (n : ℕ) (msg : RegisterMsg)
  | proceed (id : InstanceId) (n : ℕ)
  | takeForAssembly (jobName : String)
  | assemble (alive timedOut : Bool)
  | takeForStart (jobName : String)
  | start (ok : Bool) (maxRetryTimes : ℕ)
  | observe (active : List InstanceId)

namespace AssemblerThreads

def new : AssemblerThreads := ⟨1, ∅, ∅, none, none, [], []⟩

def hasActiveInstanceByJobName (s : AssemblerThreads) (jobName : String) : Bool :=
  s.managed.any fun id => decide (id ∈ s.active) &&
    (s.entries.get? id).any fun a => decide (a.md.ins.jobName = jobName)

/-- What `register` does under the lock of the assembler. -/
def register (s : AssemblerThreads) (n : ℕ) (msg : RegisterMsg) : Option AssemblerThreads :=
  if s.hasActiveInstanceByJobName msg.jobName then some s
  else
    match s.instances.get? msg.jobName with
    | none => some { s with
        insIdCnt := s.insIdCnt + 1
        instances := s.instances.insert msg.jobName s.insIdCnt
        entries := s.entries.insert s.insIdCnt (Assembly.opened n msg s.insIdCnt) }
    | some id => (s.entries.get? id).bind fun a =>
      if a.md.isReregister then some s
      else if a.calls.contains n then none
      else some { s with entries := s.entries.insert id (a.enter n msg .entered) }

/-- The entry of the job, if the thread has none at the moment. -/
def take (s : AssemblerThreads) (busy : Option InstanceId) (jobName : String) :
    Option (InstanceId × Assembly) :=
  match busy with
  | some _ => none
  | none => (s.instances.get? jobName).bind fun id => (s.entries.get? id).map (id, ·)

def exec (s : AssemblerThreads) : AssemblerOp → Option AssemblerThreads
  | .register n msg => s.register n msg
  | .proceed id n => (s.entries.get? id).bind fun a => (a.proceed n).map fun a =>
    { s with entries := s.entries.insert id a }
  | .takeForAssembly jobName => (s.take s.assembling jobName).bind fun (id, a) =>
    if a.md.registerStatus = .assembled then none
    else some { s with assembling := some id, entries := s.entries.insert id { a with pass := .taken } }
  | .assemble alive timedOut => s.assembling.bind fun id => (s.entries.get? id).map fun a =>
    let a' := a.passStep alive (!decide (id ∈ s.managed))
    { s with
      instances := if a.pops timedOut then s.instances.erase a.md.ins.jobName else s.instances
      entries := s.entries.insert id a'
      assembling := match a'.pass with
        | .idle => none
        | _ => some id
      managed := if a.handsOver ∧ id ∉ s.managed then s.managed ++ [id] else s.managed }
  | .takeForStart jobName => (s.take s.starting jobName).bind fun (id, a) =>
    if a.md.registerStatus = .assembled then
      some { s with starting := some id, entries := s.entries.insert id { a with round := .taken } }
    else none
  | .start ok maxRetryTimes => s.starting.bind fun id => (s.entries.get? id).map fun a =>
    match a.roundResult with
    | none => { s with entries := s.entries.insert id (a.roundStep ok) }
    | some (sent, success) => { s with
        instances := if a.isFinal success maxRetryTimes then s.instances.erase a.md.ins.jobName
          else s.instances
        entries := s.entries.insert id (a.finishRound sent success maxRetryTimes)
        starting := none }
  | .observe active => some { s with active := active }

end AssemblerThreads

end PyMotor.Controller
