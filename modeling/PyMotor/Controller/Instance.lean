import PyMotor.Coordinator.Instance

/-!
# Instances on the side of the controller

The controller knows more about an instance than the coordinator: the status of the instance and, from
the heartbeats, that of every endpoint (`common/resources/instance.py`,
`common/resources/endpoint.py`). The times of the heartbeats are left out; that an endpoint has been
silent for too long is a step of its own.
-/

namespace PyMotor.Controller

open Coordinator (InstanceId EndpointId NodeManagerInfo ParallelConfig Workload)

inductive EndpointStatus where
  | initial
  | normal
  | abnormal
  | paused
  | wait2start
  deriving DecidableEq, Repr

inductive InsStatus where
  | initial
  | inactive
  | active
  | paused
  | deleted
  deriving DecidableEq, Repr

structure Endpoint extends Coordinator.Endpoint where
  status : EndpointStatus
  deriving DecidableEq

structure Instance where
  jobName : String
  modelName : String
  engineType : Option String
  dispatchCapabilities : List String
  id : InstanceId
  role : String
  status : InsStatus
  parallelConfig : Option ParallelConfig
  enableMultiEndpoints : Bool
  nodeManagers : List NodeManagerInfo
  /-- By pod address, then by key. -/
  endpoints : Dict String (Dict EndpointId Endpoint)
  gatheredWorkload : Workload

namespace Instance

/-- The endpoints of all pods, headless ones included. -/
def allEndpoints (i : Instance) : List Endpoint :=
  i.endpoints.values.flatMap Dict.values

def isAllEndpointsPaused (i : Instance) : Bool :=
  !i.endpoints.isEmpty && i.allEndpoints.all fun ep => decide (ep.status = .paused)

/-- A headless worker has no readiness to report: that it waits to start is enough. -/
def isAllEndpointsReady (i : Instance) : Bool :=
  (i.allEndpoints.all fun ep =>
    if ep.headless then decide (ep.status = .normal ∨ ep.status = .wait2start)
    else decide (ep.status = .normal)) &&
  i.allEndpoints.any fun ep => !ep.headless

def isHaveOneEndpointAbnormal (i : Instance) : Bool :=
  i.allEndpoints.any fun ep => decide (ep.status = .abnormal)

def isAnyEndpointPaused (i : Instance) : Bool :=
  i.allEndpoints.any fun ep => decide (ep.status = .paused)

inductive HeartbeatUpdate where
  | updated
  /-- Another pod, or another number of endpoints. -/
  | rejected
  /-- The message has no status for an endpoint; those before it are updated. -/
  | keyError (id : EndpointId)
  deriving DecidableEq, Repr

/-- The endpoints of a pod take over the statuses of a heartbeat, up to the first one that the
message does not mention. -/
def takeStatuses (pod : Dict EndpointId Endpoint) (status : Dict EndpointId EndpointStatus) :
    Dict EndpointId Endpoint :=
  let answered := (pod.entries.takeWhile fun p => status.contains p.2.id).map Prod.fst
  pod.mapVal fun k ep =>
    if k ∈ answered then { ep with status := (status.get? ep.id).getD ep.status } else ep

def updateHeartbeat (i : Instance) (ip : String) (status : Dict EndpointId EndpointStatus) :
    HeartbeatUpdate × Instance :=
  match i.endpoints.get? ip with
  | none => (.rejected, i)
  | some pod =>
    if pod.size ≠ status.size then (.rejected, i)
    else
      (match pod.values.find? fun ep => !status.contains ep.id with
        | none => .updated
        | some ep => .keyError ep.id,
        { i with endpoints := i.endpoints.insert ip (takeStatuses pod status) })

def updateInstanceStatus (i : Instance) (status : InsStatus) : Instance :=
  { i with status := status }

/-- The copy that is sent to the coordinator, as far as the coordinator reads it. -/
def toInstance (i : Instance) : Coordinator.Instance where
  jobName := i.jobName
  modelName := i.modelName
  engineType := i.engineType
  dispatchCapabilities := i.dispatchCapabilities
  id := i.id
  role := i.role
  parallelConfig := i.parallelConfig
  enableMultiEndpoints := i.enableMultiEndpoints
  nodeManagers := i.nodeManagers
  endpoints := i.endpoints.mapVal fun _ pod => pod.mapVal fun _ ep => ep.toEndpoint
  gatheredWorkload := i.gatheredWorkload

/-! ## What stays -/

@[simp] theorem toInstance_updateInstanceStatus (i : Instance) (status : InsStatus) :
    (i.updateInstanceStatus status).toInstance = i.toInstance := rfl

@[simp] theorem updateInstanceStatus_jobName (i : Instance) (status : InsStatus) :
    (i.updateInstanceStatus status).jobName = i.jobName := rfl

@[simp] theorem updateInstanceStatus_id (i : Instance) (status : InsStatus) :
    (i.updateInstanceStatus status).id = i.id := rfl

@[simp] theorem updateInstanceStatus_role (i : Instance) (status : InsStatus) :
    (i.updateInstanceStatus status).role = i.role := rfl

@[simp] theorem updateInstanceStatus_status (i : Instance) (status : InsStatus) :
    (i.updateInstanceStatus status).status = status := rfl

theorem toEndpoint_takeStatuses (pod : Dict EndpointId Endpoint)
    (status : Dict EndpointId EndpointStatus) :
    (takeStatuses pod status).mapVal (fun _ ep => ep.toEndpoint) =
      pod.mapVal fun _ ep => ep.toEndpoint := by
  simp only [takeStatuses, Dict.mapVal, List.map_map, Dict.mk.injEq]
  apply List.map_congr_left
  intro p _
  simp only [Function.comp]
  split <;> rfl

theorem toInstance_updateHeartbeat (i : Instance) (ip : String)
    (status : Dict EndpointId EndpointStatus) :
    (i.updateHeartbeat ip status).2.toInstance = i.toInstance := by
  unfold updateHeartbeat
  split
  · rfl
  · next pod hpod =>
    split
    · rfl
    · simp only [toInstance, Coordinator.Instance.mk.injEq, true_and, and_true]
      exact Dict.mapVal_insert_of_eq hpod (toEndpoint_takeStatuses pod status)

theorem updateHeartbeat_status (i : Instance) (ip : String)
    (status : Dict EndpointId EndpointStatus) : (i.updateHeartbeat ip status).2.status = i.status := by
  unfold updateHeartbeat
  split
  · rfl
  · split <;> rfl

end Instance

end PyMotor.Controller
