import Mathlib.Data.Int.Notation
import PyMotor.Lib.Dict
import PyMotor.Lib.Run

/-!
# Heartbeats of a node manager

A node manager probes the engines of its endpoints, keeps a status for each and reports them to the
controller (`node_manager/core/heartbeat_manager.py`, `HeartbeatManager`). A start command says which
endpoints it manages. Before a pod is stopped its endpoints are paused, so that no more requests reach them.

A round of probing works on a copy of the list, but the copy holds the same `Endpoint` objects: it reads a
status, probes, and writes the status, all without the lock. So objects are kept apart from the lists that
refer to them, and a `Move` is one read, one write, or one section under the lock.
-/

namespace PyMotor.NodeManager

inductive EndpointStatus where
  | initial
  | normal
  | abnormal
  | paused
  | wait2start
  deriving DecidableEq, Repr

inductive RuntimeState where
  | starting
  | running
  | ready
  | unhealthy
  | stopping
  | stopped
  deriving DecidableEq, Repr

structure Endpoint where
  id : ℤ
  ip : String
  status : EndpointStatus
  deriving DecidableEq, Repr

/-- What tells an endpoint from others. -/
def Endpoint.key (e : Endpoint) : ℤ × String := (e.id, e.ip)

def Endpoint.setStatus (e : Endpoint) (status : EndpointStatus) : Endpoint := { e with status := status }

/-- An `Endpoint` object, by the order of creation. -/
abbrev EndpointRef := ℕ

structure StartCmdMsg where
  jobName : String
  role : String
  instanceId : ℤ
  endpoints : List Endpoint
  deriving DecidableEq, Repr

/-! ## The status after a probe -/

/-- The status that a probe finds; none while the engine loads or stops. -/
def detectedStatus : RuntimeState → Option EndpointStatus
  | .running => some .wait2start
  | .ready => some .normal
  | .unhealthy => some .abnormal
  | .stopped => some .abnormal
  | .starting => none
  | .stopping => none

/-- The status that a round writes. A probe that raises counts as unhealthy; `restored` says that the
container was restored from a snapshot. -/
def statusAfter (original : EndpointStatus) (probe : Option RuntimeState) (restored : Bool)
    (podIp ip : String) : EndpointStatus :=
  if restored && decide (ip ≠ podIp) then original
  else
    match detectedStatus (probe.getD .unhealthy) with
    | none => original
    | some detected => if original = .paused then original else detected

/-- A probe never pauses an endpoint, and never ends the pause of one that it has read as paused. -/
theorem statusAfter_paused_iff (original : EndpointStatus) (probe : Option RuntimeState)
    (restored : Bool) (podIp ip : String) :
    statusAfter original probe restored podIp ip = .paused ↔ original = .paused := by
  unfold statusAfter
  split
  · rfl
  · split
    · rfl
    · next detected hdetected =>
      split
      · rfl
      · next hopen =>
        refine iff_of_false (fun hpaused => ?_) hopen
        rw [hpaused] at hdetected
        cases hstate : probe.getD RuntimeState.unhealthy <;> rw [hstate] at hdetected <;>
          cases hdetected

/-! ## The manager and its rounds -/

/-- A round of `_refresh_native_engine_status`. -/
structure RefreshRound where
  generationAtStart : ℕ
  /-- Those of the copy that are still to be visited. -/
  pending : List EndpointRef
  updatedEndpoints : List EndpointRef
  /-- The status read from the first one pending, once it was read. -/
  originalStatus : Option EndpointStatus
  deriving DecidableEq, Repr

abbrev RoundId := ℕ

structure HeartbeatManager where
  jobName : String
  role : String
  instanceId : ℤ
  endpoints : List EndpointRef
  endpointsGeneration : ℕ
  /-- All `Endpoint` objects that were created. -/
  objects : List Endpoint
  rounds : Dict RoundId RefreshRound

inductive HeartbeatMove where
  | updateEndpoint (msg : StartCmdMsg)
  | pauseAllEndpoints
  | resumeAllEndpoints
  | startRound (r : RoundId)
  | readStatus (r : RoundId)
  | writeStatus (r : RoundId) (probe : Option RuntimeState) (restored : Bool) (podIp : String)
  | finishRound (r : RoundId)

namespace HeartbeatManager

def new : HeartbeatManager := ⟨"", "prefill", -1, [], 0, [], ∅⟩

variable (s : HeartbeatManager)

/-- Change the status of some objects. -/
def mapStatus (refs : List EndpointRef) (f : EndpointStatus → EndpointStatus) : HeartbeatManager :=
  { s with objects := s.objects.mapIdx fun ref e =>
      if ref ∈ refs then e.setStatus (f e.status) else e }

/-- The objects of a start command are new ones. -/
def updateEndpoint (msg : StartCmdMsg) : HeartbeatManager :=
  { s with
    jobName := msg.jobName
    role := msg.role
    instanceId := msg.instanceId
    endpoints := List.range' s.objects.length msg.endpoints.length
    endpointsGeneration := s.endpointsGeneration + 1
    objects := s.objects ++ msg.endpoints }

def pauseAllEndpoints : HeartbeatManager := s.mapStatus s.endpoints fun _ => .paused

def resumeAllEndpoints : HeartbeatManager :=
  s.mapStatus s.endpoints fun status => if status = .paused then .normal else status

/-- The endpoints that are managed. -/
def managed : List Endpoint := s.endpoints.filterMap fun ref => s.objects[ref]?

def setRound (r : RoundId) (round : RefreshRound) : HeartbeatManager :=
  { s with rounds := s.rounds.insert r round }

/-- A round that finds nothing to probe is over at once. -/
def startRound (r : RoundId) : Option HeartbeatManager :=
  if s.rounds.contains r then none
  else if s.endpoints = [] then some s
  else some (s.setRound r ⟨s.endpointsGeneration, s.endpoints, [], none⟩)

def readStatus (r : RoundId) : Option HeartbeatManager := do
  let round ← s.rounds.get? r
  match round.pending, round.originalStatus with
  | ref :: _, none =>
    let item ← s.objects[ref]?
    some (s.setRound r { round with originalStatus := some item.status })
  | _, _ => none

def writeStatus (r : RoundId) (probe : Option RuntimeState) (restored : Bool) (podIp : String) :
    Option HeartbeatManager := do
  let round ← s.rounds.get? r
  match round.pending, round.originalStatus with
  | ref :: rest, some original =>
    let item ← s.objects[ref]?
    let status := statusAfter original probe restored podIp item.ip
    some ((s.mapStatus [ref] fun _ => status).setRound r { round with
      pending := rest
      updatedEndpoints := round.updatedEndpoints ++ [ref]
      originalStatus := none })
  | _, _ => none

/-- A round that a start command has overtaken leaves the list alone. -/
def finishRound (r : RoundId) : Option HeartbeatManager := do
  let round ← s.rounds.get? r
  match round.pending with
  | [] =>
    let ended := { s with rounds := s.rounds.erase r }
    if round.generationAtStart ≠ s.endpointsGeneration then some ended
    else some { ended with endpoints := round.updatedEndpoints }
  | _ => none

def exec : HeartbeatMove → Option HeartbeatManager
  | .updateEndpoint msg => some (s.updateEndpoint msg)
  | .pauseAllEndpoints => some s.pauseAllEndpoints
  | .resumeAllEndpoints => some s.resumeAllEndpoints
  | .startRound r => s.startRound r
  | .readStatus r => s.readStatus r
  | .writeStatus r probe restored podIp => s.writeStatus r probe restored podIp
  | .finishRound r => s.finishRound r

/-- The readiness probe. -/
def checkAllEndpointsNormal : Bool :=
  !s.managed.isEmpty && s.managed.all fun e => decide (e.status = .normal)

/-- The statuses that a heartbeat reports, by the id of the endpoint. -/
def endpointStatusList : Dict ℤ EndpointStatus :=
  s.managed.foldl (fun statuses e => statuses.insert e.id e.status) ∅

end HeartbeatManager

/-! ## What the moves do to the objects -/

namespace HeartbeatManager

variable {s s' : HeartbeatManager}

theorem getElem?_mapStatus (refs : List EndpointRef) (f : EndpointStatus → EndpointStatus)
    (ref : EndpointRef) :
    (s.mapStatus refs f).objects[ref]? =
      s.objects[ref]?.map fun e => if ref ∈ refs then e.setStatus (f e.status) else e := by
  unfold mapStatus
  rw [List.getElem?_mapIdx]

theorem mem_managed {e : Endpoint} :
    e ∈ s.managed ↔ ∃ ref ∈ s.endpoints, s.objects[ref]? = some e := by
  unfold managed
  exact List.mem_filterMap

theorem managed_mapStatus_key (refs : List EndpointRef) (f : EndpointStatus → EndpointStatus) :
    (s.mapStatus refs f).managed.map Endpoint.key = s.managed.map Endpoint.key := by
  unfold managed
  rw [List.map_filterMap, List.map_filterMap]
  congr 1
  funext ref
  rw [getElem?_mapStatus, Option.map_map]
  congr 1
  funext e
  show (if ref ∈ refs then e.setStatus (f e.status) else e).key = e.key
  split
  · rfl
  · rfl

theorem filterMap_range' {α : Type} (xs ys : List α) :
    (List.range' xs.length ys.length).filterMap (fun i => (xs ++ ys)[i]?) = ys := by
  induction ys generalizing xs with
  | nil => rfl
  | cons y ys ih =>
    have hrest := ih (xs ++ [y])
    rw [List.length_append, List.append_assoc] at hrest
    rw [List.length_cons, List.range'_succ, List.filterMap_cons_some (b := y)]
    · exact congrArg (y :: ·) hrest
    · rw [List.getElem?_append_right (Nat.le_refl _), Nat.sub_self]
      rfl

theorem managed_updateEndpoint (s : HeartbeatManager) (msg : StartCmdMsg) :
    (s.updateEndpoint msg).managed = msg.endpoints :=
  filterMap_range' s.objects msg.endpoints

theorem status_pauseAllEndpoints (s : HeartbeatManager) :
    ∀ e ∈ s.pauseAllEndpoints.managed, e.status = .paused := by
  intro e he
  obtain ⟨ref, href, hobject⟩ := mem_managed.mp he
  rw [show s.pauseAllEndpoints.objects[ref]? = _ from getElem?_mapStatus _ _ _] at hobject
  obtain ⟨e', -, rfl⟩ := Option.map_eq_some_iff.mp hobject
  rw [if_pos (show ref ∈ s.endpoints from href)]
  rfl

end HeartbeatManager

end PyMotor.NodeManager
