import Mathlib.Data.Rat.Defs
import PyMotor.Lib.Dict

/-!
# Instances

The resources that the coordinator schedules on (`common/resources/instance.py`,
`common/resources/endpoint.py`): an instance is a group of endpoints, filed by the pod they run in.
Loads are floating-point numbers in the program and rationals here.
-/

namespace PyMotor.Coordinator

inductive PDRole where
  | encode
  | prefill
  | decode
  | union
  deriving DecidableEq, Repr

/-- The role that a string stands for; `"both"` is a historical name. Any other string is a
`ValueError`. -/
def PDRole.ofString (s : String) : Option PDRole :=
  if s = "encode" then some .encode
  else if s = "prefill" then some .prefill
  else if s = "decode" then some .decode
  else if s = "union" ∨ s = "both" then some .union
  else none

/-- The order in which the program goes through the roles. -/
def PDRole.all : List PDRole := [.encode, .prefill, .decode, .union]

theorem PDRole.mem_all (role : PDRole) : role ∈ PDRole.all := by
  cases role <;> decide

abbrev InstanceId := Int

abbrev EndpointId := Int

structure Workload where
  activeTokens : ℚ
  deriving DecidableEq

namespace Workload

def zero : Workload := ⟨0⟩

end Workload

structure DeviceInfo where
  deviceIp : Option String
  deviceId : String
  rankId : String
  superDeviceId : Option String
  deriving DecidableEq, Repr

structure Endpoint where
  id : EndpointId
  ip : String
  businessPort : String
  mgmtPort : String
  /-- Where a native prefill worker and its decode worker meet. -/
  bootstrapPort : Option ℕ
  deviceInfos : List DeviceInfo
  workload : Workload
  /-- A worker without a service of its own. -/
  headless : Bool
  deriving DecidableEq

structure NodeManagerInfo where
  podIp : String
  port : String
  deviceNum : Int
  deriving DecidableEq, Repr

structure ParallelConfig where
  dpSize : Int
  pcpSize : Int
  tpSize : Int
  epSize : Int
  ppSize : Int
  worldSize : Int
  localWorldSize : Int
  deriving DecidableEq, Repr

structure Instance where
  jobName : String
  modelName : String
  engineType : Option String
  dispatchCapabilities : List String
  id : InstanceId
  role : String
  parallelConfig : Option ParallelConfig
  enableMultiEndpoints : Bool
  nodeManagers : List NodeManagerInfo
  /-- By pod address, then by key. -/
  endpoints : Dict String (Dict EndpointId Endpoint)
  gatheredWorkload : Workload

namespace Instance

/-- All endpoints, pod by pod. -/
def allEndpoints (i : Instance) : List Endpoint :=
  i.endpoints.values.flatMap Dict.values

/-- Whether requests are routed to an endpoint. Without several endpoints, the service of the instance
is the one with the id zero. -/
def isRoutable (i : Instance) (ep : Endpoint) : Bool :=
  !ep.headless && (i.enableMultiEndpoints || decide (ep.id = 0))

def getAllEndpoints (i : Instance) : List Endpoint := i.allEndpoints.filter i.isRoutable

/-- No two endpoints have one id, not even in different pods. -/
def DistinctEndpoints (i : Instance) : Prop := (i.allEndpoints.map (·.id)).Nodup

instance (i : Instance) : Decidable i.DistinctEndpoints :=
  inferInstanceAs (Decidable (List.Nodup _))

end Instance

end PyMotor.Coordinator
