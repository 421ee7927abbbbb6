import PyMotor.Lib.Dict

/-!
# Protocol types of the KV conductor

The identities, hashes and event payloads that the index structures share (`protocols.rs`,
`error.rs`). The two hash newtypes wrap a `u64` and add nothing to it, so they are abbreviations
here; which of the two is meant is still visible in every signature.
-/

namespace PyMotor.Conductor

/-- XXH3 hash of a block's token content: the key of the radix tree. -/
abbrev LocalBlockHash := UInt64

/-- Engine-provided rolling sequence hash, which covers the parent context as well. -/
abbrev SequenceBlockHash := UInt64

abbrev InstanceId := String

abbrev DpRank := UInt32

/-- One data-parallel rank of an instance. -/
abbrev DpKey := InstanceId × DpRank

/-! ## Storage media -/

inductive StorageMedium where
  | npu
  | cpu
  | disk
  | unknown
  deriving DecidableEq, Repr

namespace StorageMedium

def parse (s : String) : StorageMedium :=
  if s ∈ ["npu", "NPU", "gpu", "GPU", "xpu", "XPU", "hbm", "HBM", "device", "DEVICE"] then .npu
  else if s ∈ ["cpu", "CPU", "cpu_pinned", "CPU_PINNED", "host", "HOST", "memory", "MEMORY"] then
    .cpu
  else if s ∈ ["disk", "DISK", "ssd", "SSD", "nvme", "NVME", "nof_ssd", "dfs", "DFS"] then .disk
  else .unknown

def asStr : StorageMedium → String
  | .npu => "NPU"
  | .cpu => "CPU"
  | .disk => "DISK"
  | .unknown => "UNKNOWN"

/-- Whether `s` names the device-HBM tier. -/
def isHbmKey (s : String) : Bool := decide (parse s = .npu)

end StorageMedium

/-- Composite identity used in the worker sets of every tier. -/
structure WorkerKey where
  instanceId : InstanceId
  backendId : String
  dpRank : DpRank
  medium : StorageMedium
  deriving DecidableEq, Repr

/-- The registered DPs per node address, for pool events that name an address only. -/
abbrev HbmIpIndex := Dict String (List DpKey)

/-! ## Events -/

/-- One stored block: the engine's sequence hash and the content hash. -/
structure KvCacheStoredBlockData where
  blockHash : UInt64
  tokensHash : UInt64
  deriving DecidableEq, Repr

structure KvCacheStoreData where
  parentHash : Option UInt64
  blocks : List KvCacheStoredBlockData
  deriving DecidableEq, Repr

/-- The canonical event payload applied to an index. -/
inductive KvCacheEventData where
  | stored (data : KvCacheStoreData)
  | removed (blockHashes : List UInt64)
  | cleared
  deriving DecidableEq, Repr

inductive KvConductorError where
  | instanceNotFound (instanceId : String)
  | noIndexer (modelName tenantId : String)
  | noWorkers (modelName tenantId : String)
  | invalidBlockSequence
  | parentBlockNotFound
  | internal (message : String)
  deriving DecidableEq, Repr

end PyMotor.Conductor
