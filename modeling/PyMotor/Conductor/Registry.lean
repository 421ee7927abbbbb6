import PyMotor.Conductor.Events
import PyMotor.Conductor.Wire

/-!
# The worker registry

Workers announce themselves with `register` and leave with `unregister` (`registry.rs`,
`backend.rs`). The registry keeps the endpoints of every instance and DP rank, one subscription per
endpoint, the index of every model and tenant, and the table from node addresses to the DPs on the
node, through which the events of a pool find their workers.

A request is handled to its end before the next one. The background threads that a registration
starts (the subscriber loops and the replay of old events) are not part of the registry.
-/

namespace PyMotor.Conductor

/-! ## Backends -/

/-- Equality up to the case of ASCII letters. -/
def eqIgnoreAsciiCase (s s' : String) : Bool :=
  decide (s.toList.map Char.toLower = s'.toList.map Char.toLower)

inductive StoreBackend where
  | mooncake
  | memcache
  | yuanRong
  | unknown
  deriving DecidableEq, Repr

namespace StoreBackend

def parse (s : String) : StoreBackend :=
  if eqIgnoreAsciiCase s "Mooncake" then .mooncake
  else if eqIgnoreAsciiCase s "Memcache" then .memcache
  else if eqIgnoreAsciiCase s "YuanRong" then .yuanRong
  else .unknown

/-- Whether the addresses of HBM endpoints are indexed. -/
def indexHbmIp : StoreBackend → Bool
  | .mooncake | .memcache => true
  | .yuanRong | .unknown => false

/-- Whether a registration by the legacy endpoint alone subscribes to a pool. -/
def isPoolAutoAttach : StoreBackend → Bool
  | .mooncake | .memcache => true
  | .yuanRong | .unknown => false

def matchMode : StoreBackend → MatchMode
  | .mooncake | .memcache => .ipOnly
  | .yuanRong | .unknown => .none

end StoreBackend

/-! ## Addresses -/

/-- The host of a ZMQ endpoint: `tcp://10.0.0.1:5557`, or `tcp://[::1]:5557` for IPv6. -/
def extractIpFromEndpoint (endpoint : String) : Option String :=
  match stripPrefix "tcp://".toList endpoint.toList with
  | none => none
  | some withoutPrefix =>
    match stripPrefix ['['] withoutPrefix with
    | some rest =>
      if ']' ∈ rest then some (String.ofList (rest.takeWhile (· ≠ ']'))) else none
    | none =>
      -- everything before the last colon
      if ':' ∈ withoutPrefix then
        some (String.ofList (withoutPrefix.reverse.dropWhile (· ≠ ':')).tail.reverse)
      else none

/-- The host under which an entry of an endpoint map is indexed. -/
def hbmHost (p : String × String) : Option String :=
  if StorageMedium.isHbmKey p.1 then extractIpFromEndpoint p.2 else none

/-- The hosts of the HBM endpoints, in the order of the map. -/
def hbmHosts (mediumEndpoints : List (String × String)) : List String :=
  mediumEndpoints.filterMap hbmHost

def pushDp (dp : DpKey) (index : HbmIpIndex) (ip : String) : HbmIpIndex :=
  index.insert ip ((index.get? ip).getD [] ++ [dp])

def addHbmIpIndexEntries (index : HbmIpIndex) (mediumEndpoints : List (String × String))
    (dp : DpKey) : HbmIpIndex :=
  (hbmHosts mediumEndpoints).foldl (pushDp dp) index

/-- An address without DPs is dropped from the table. -/
def dropDp (dp : DpKey) (index : HbmIpIndex) (ip : String) : HbmIpIndex :=
  match index.get? ip with
  | none => index
  | some dps =>
    let dps := dps.filter (fun dp' => decide (dp' ≠ dp))
    if dps.isEmpty then index.erase ip else index.insert ip dps

def removeHbmIpIndexEntries (index : HbmIpIndex) (mediumEndpoints : List (String × String))
    (dp : DpKey) : HbmIpIndex :=
  (hbmHosts mediumEndpoints).foldl (dropDp dp) index

/-! ## The registry -/

structure RegisterRequest where
  instanceId : InstanceId
  mediumEndpoints : Dict String String
  endpoint : Option String
  engineType : String
  modelname : String
  blockSize : UInt32
  dpRank : DpRank
  storeBackend : String
  replayEndpoint : Option String
  tenantId : String

structure UnregisterRequest where
  instanceId : InstanceId
  dpRank : DpRank

def RegisterRequest.dp (req : RegisterRequest) : DpKey := (req.instanceId, req.dpRank)

def UnregisterRequest.dp (req : UnregisterRequest) : DpKey := (req.instanceId, req.dpRank)

structure EndpointInfo where
  mediumEndpoints : Dict String String
  engineType : String
  dpRank : DpRank
  replayEndpoint : Option String

structure WorkerEntry where
  modelName : String
  tenantId : String
  blockSize : UInt32
  storeBackend : String
  endpoints : Dict DpRank EndpointInfo

/-- What a subscriber is started with. -/
structure Subscription where
  modelName : String
  tenantId : String
  blockSize : UInt32
  backendId : String
  dpRank : DpRank
  defaultMedia : List StorageMedium
  matchMode : MatchMode
  /-- Whether it reads the table of addresses. -/
  readsIpIndex : Bool

structure WorkerRegistry where
  instances : Dict InstanceId WorkerEntry
  /-- One index per model and tenant. -/
  indexer : Dict (String × String) IndexerEntry
  zmqSubscribers : Dict (InstanceId × DpRank × String) Subscription
  hbmIpIndex : HbmIpIndex

/-- The orders in which a request meets the entries of its hash maps. -/
structure RegistryOrder where
  endpoints : HashOrder (String × String)
  media : HashOrder (String × List StorageMedium)

/-- The order of insertion. -/
def RegistryOrder.insertion : RegistryOrder := ⟨.insertion, .insertion⟩

namespace WorkerRegistry

def new : WorkerRegistry := ⟨∅, ∅, ∅, ∅⟩

/-- The media of every endpoint. -/
def groupMedia (mediumEndpoints : List (String × String)) : Dict String (List StorageMedium) :=
  mediumEndpoints.foldl (fun map p =>
    map.insert p.2 ((map.get? p.2).getD [] ++ [StorageMedium.parse p.1])) ∅

/-- The endpoints of a request with their media: the map per medium, else the legacy endpoint, which
stands for all media, else none (events arrive over HTTP only). -/
def resolveEndpointMedia (σ : RegistryOrder) (req : RegisterRequest) :
    Except KvConductorError (Dict String (List StorageMedium)) :=
  if !req.mediumEndpoints.isEmpty then
    .ok (groupMedia (σ.endpoints.iter 0 req.mediumEndpoints.entries))
  else
    match req.endpoint with
    | some ep =>
      if ep.isEmpty then
        .error (.internal
          "endpoint is empty; either medium_endpoints or a valid endpoint is required")
      else .ok (Dict.insert ∅ ep [.npu, .cpu, .disk])
    | none => .ok ∅

/-- The endpoint map as it is stored: one key per medium. -/
def normalizedMediums (endpointMedia : List (String × List StorageMedium)) : Dict String String :=
  (endpointMedia.flatMap (fun p => p.2.map (fun m => (m, p.1)))).foldl
    (fun map p => map.insert (String.ofList (p.1.asStr.toList.map Char.toLower)) p.2) ∅

/-- The stored endpoints of a DP. -/
def endpointInfo (r : WorkerRegistry) (dp : DpKey) : Option EndpointInfo :=
  (r.instances.get? dp.1).bind (·.endpoints.get? dp.2)

def stopSubscribers (r : WorkerRegistry) (dp : DpKey) : WorkerRegistry :=
  let others := r.zmqSubscribers.filter (fun key _ => !decide (key.1 = dp.1 ∧ key.2.1 = dp.2))
  { r with zmqSubscribers := others }

def getOrCreateIndexer (r : WorkerRegistry) (modelName tenantId : String) : WorkerRegistry :=
  match r.indexer.get? (modelName, tenantId) with
  | some _ => r
  | none => { r with indexer := r.indexer.insert (modelName, tenantId) .new }

def removeFromIndexer (r : WorkerRegistry) (modelName tenantId : String) (dp : DpKey) :
    WorkerRegistry :=
  match r.indexer.get? (modelName, tenantId) with
  | none => r
  | some ie =>
    { r with indexer := r.indexer.insert (modelName, tenantId) (ie.removeWorkerAllMedia dp.1 dp.2) }

def index (r : WorkerRegistry) (mediumEndpoints : List (String × String)) (dp : DpKey) :
    WorkerRegistry :=
  { r with hbmIpIndex := addHbmIpIndexEntries r.hbmIpIndex mediumEndpoints dp }

def unindex (r : WorkerRegistry) (mediumEndpoints : List (String × String)) (dp : DpKey) :
    WorkerRegistry :=
  { r with hbmIpIndex := removeHbmIpIndexEntries r.hbmIpIndex mediumEndpoints dp }

/-- The first part of a re-registration: stop the subscribers, and if the backend changed also drop
the data and the addresses of the old registration. -/
def dropOldRegistration (r : WorkerRegistry) (σ : RegistryOrder) (req : RegisterRequest) :
    WorkerRegistry :=
  match r.instances.get? req.instanceId with
  | none => r
  | some entry =>
    match entry.endpoints.get? req.dpRank with
    | none => r
    | some info =>
      let r := r.stopSubscribers req.dp
      if !eqIgnoreAsciiCase entry.storeBackend req.storeBackend then
        let r := r.removeFromIndexer req.modelname req.tenantId req.dp
        r.unindex (σ.endpoints.iter 1 info.mediumEndpoints.entries) req.dp
      else r

/-- Whether the request subscribes to a pool. -/
def isPool (req : RegisterRequest) : Bool :=
  (StoreBackend.parse req.storeBackend).isPoolAutoAttach && req.mediumEndpoints.isEmpty &&
    req.endpoint.isSome

def subscription (req : RegisterRequest) (defaultMedia : List StorageMedium) : Subscription where
  modelName := req.modelname
  tenantId := req.tenantId
  blockSize := req.blockSize
  backendId := req.instanceId
  dpRank := req.dpRank
  defaultMedia := defaultMedia
  matchMode := if isPool req then (StoreBackend.parse req.storeBackend).matchMode else .none
  readsIpIndex := isPool req

/-- Enter the DP with its normalized endpoints; the backend of the request becomes the backend of
the whole instance. -/
def storeEndpoints (r : WorkerRegistry) (req : RegisterRequest) (mediums : Dict String String) :
    WorkerRegistry :=
  let entry := (r.instances.get? req.instanceId).getD
    ⟨req.modelname, req.tenantId, req.blockSize, req.storeBackend, ∅⟩
  let info : EndpointInfo := ⟨mediums, req.engineType, req.dpRank, req.replayEndpoint⟩
  let entry := { entry with
    storeBackend := req.storeBackend
    endpoints := entry.endpoints.insert req.dpRank info }
  { r with instances := r.instances.insert req.instanceId entry }

/-- One subscriber per endpoint. -/
def startSubscribers (r : WorkerRegistry) (req : RegisterRequest)
    (endpointMedia : List (String × List StorageMedium)) : WorkerRegistry :=
  let subs := endpointMedia.foldl (fun subs p =>
    subs.insert (req.instanceId, req.dpRank, p.1) (subscription req p.2)) r.zmqSubscribers
  { r with zmqSubscribers := subs }

def register (r : WorkerRegistry) (σ : RegistryOrder) (req : RegisterRequest) :
    Except KvConductorError Unit × WorkerRegistry :=
  match resolveEndpointMedia σ req with
  | .error err => (.error err, r)
  | .ok endpointMedia =>
    let r := r.dropOldRegistration σ req
    let r := if (StoreBackend.parse req.storeBackend).indexHbmIp && !isPool req then
        r.index (σ.endpoints.iter 2 req.mediumEndpoints.entries) req.dp
      else r
    let endpoints := σ.media.iter 0 endpointMedia.entries
    let r := r.getOrCreateIndexer req.modelname req.tenantId
    let r := r.storeEndpoints req (normalizedMediums endpoints)
    (.ok (), r.startSubscribers req endpoints)

/-- Drop the index of a model and tenant once it holds no worker and no cached block. -/
def removeIfEmpty (r : WorkerRegistry) (modelName tenantId : String) : WorkerRegistry :=
  match r.indexer.get? (modelName, tenantId) with
  | none => r
  | some ie =>
    if ie.hbm.lookups.isEmpty && ie.cpuTiers.workerBlocks.isEmpty &&
        ie.diskTiers.workerBlocks.isEmpty &&
        decide (ie.offloadPool.offload.size + ie.offloadPool.pendingPool.size +
          ie.offloadPool.content.size = 0) then
      { r with indexer := r.indexer.erase (modelName, tenantId) }
    else r

/-- The first part of an unregistration: clean up the addresses of the stored endpoints. -/
def unindexStored (r : WorkerRegistry) (σ : RegistryOrder) (dp : DpKey) : WorkerRegistry :=
  match r.endpointInfo dp with
  | none => r
  | some info => r.unindex (σ.endpoints.iter 0 info.mediumEndpoints.entries) dp

/-- Its last part: the DP leaves the instance, and the last DP takes the instance with it. The data
is dropped from the index of the registered model and tenant. -/
def removeEndpoints (r : WorkerRegistry) (req : UnregisterRequest) :
    Except KvConductorError Unit × WorkerRegistry :=
  match r.instances.get? req.instanceId with
  | none => (.error (.instanceNotFound req.instanceId), r)
  | some entry =>
    let endpoints := entry.endpoints.erase req.dpRank
    let entry' := { entry with endpoints := endpoints }
    let r := { r with instances := r.instances.insert req.instanceId entry' }
    let r := r.removeFromIndexer entry.modelName entry.tenantId req.dp
    if endpoints.isEmpty then
      (.ok (), { r with instances := r.instances.erase req.instanceId }.removeIfEmpty
        entry.modelName entry.tenantId)
    else (.ok (), r)

def unregister (r : WorkerRegistry) (σ : RegistryOrder) (req : UnregisterRequest) :
    Except KvConductorError Unit × WorkerRegistry :=
  ((r.unindexStored σ req.dp).stopSubscribers req.dp).removeEndpoints req

end WorkerRegistry

/-! ## Requests -/

inductive RegistryOp where
  | register (σ : RegistryOrder) (req : RegisterRequest)
  | unregister (σ : RegistryOrder) (req : UnregisterRequest)

/-- A request counts whether it returned `Ok` or `Err`. -/
def WorkerRegistry.exec (r : WorkerRegistry) : RegistryOp → Option WorkerRegistry
  | .register σ req => some (r.register σ req).2
  | .unregister σ req => some (r.unregister σ req).2

end PyMotor.Conductor
