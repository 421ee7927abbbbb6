import Mathlib.Data.List.DropRight
import Mathlib.Data.List.Rotate
import Mathlib.Data.Prod.Lex
import Mathlib.Data.Rat.Floor
import PyMotor.Coordinator.InstanceCache
import PyMotor.Coordinator.InstanceManager.Workload
import PyMotor.Lib.Ranking

/-!
# Placing a request

A worker proposes an endpoint for a request, by the copy of the instances that it has, and the
scheduler commits to one (`coordinator/scheduler`). The policies are round robin, the least load, and
the affinity to what is cached of the prompt; the worker applies them to its copy
(`runtime/scheduler_client.py`), and the scheduler applies its own rules to its own pools
(`runtime/scheduler_server.py`). If the loads that the worker has seen are the current ones, the
scheduler takes what is proposed: that is the fast path.

Scores and loads are rationals, as loads are. The answers of the KV conductor and the token ids of the
prompt come with the request. The refresh of the worker's copy, a pinned instance and the publication of
the new load are left out.
-/

namespace PyMotor.Coordinator

open Ranking (rank scanBest)

/-! ## Configuration -/

/-- Also the policy by which a worker says it has chosen. -/
inductive SchedulerType where
  | loadBalance
  | roundRobin
  | kvCacheAffinity
  deriving DecidableEq, Repr

inductive KvAffinityMode where
  | unified
  | loadGated
  deriving DecidableEq, Repr

structure KvAffinityConfig where
  mode : KvAffinityMode
  loadWeight : ℚ
  overlapCredit : ℚ
  prefillLoadScale : ℚ
  loadGateTopn : Int
  wNpu : ℚ
  wCpu : ℚ
  wDisk : ℚ

structure SchedulerConfig where
  schedulerType : SchedulerType
  endpointInstanceScoreWeight : ℚ
  kvAffinity : KvAffinityConfig
  /-- The block size of the conductor. -/
  blockSize : Int

namespace SchedulerConfig

/-- Worker and scheduler both take a negative weight for zero. -/
def instanceScoreWeight (cfg : SchedulerConfig) : ℚ := max 0 cfg.endpointInstanceScoreWeight

def loadWeight (cfg : SchedulerConfig) : ℚ := max 0 cfg.kvAffinity.loadWeight

def overlapCredit (cfg : SchedulerConfig) : ℚ := max 0 cfg.kvAffinity.overlapCredit

def prefillLoadScale (cfg : SchedulerConfig) : ℚ := max 0 cfg.kvAffinity.prefillLoadScale

end SchedulerConfig

/-- The number of alternates that a worker proposes. -/
def affinityCandidateTopk : ℕ := 3

/-- The roles that are placed by affinity. -/
def kvaSelectRoles : List PDRole := [.prefill, .union]

def Workload.calculateWorkloadScore (w : Workload) : ℚ := w.activeTokens

structure EndpointCandidate where
  inst : Instance
  endpoint : Endpoint
  score : ℚ

/-! ## Load balance -/

namespace LoadBalancePolicy

/-- The load of the endpoint, and some of the mean load of its instance. -/
def calculateEndpointScore (inst : Instance) (ep : Endpoint) (instanceScoreWeight : ℚ) : ℚ :=
  let endpointScore := ep.workload.calculateWorkloadScore
  if instanceScoreWeight ≤ 0 then endpointScore
  else
    let endpointCount := max 1 inst.getAllEndpoints.length
    endpointScore +
      instanceScoreWeight * (inst.gatheredWorkload.calculateWorkloadScore / endpointCount)

/-- Every endpoint of an instance that is not blocked, in the order of the instances. -/
def scoreEndpoints (instances : List Instance) (instanceScoreWeight : ℚ)
    (isBlocked : InstanceId → Bool) : List EndpointCandidate :=
  instances.flatMap fun inst =>
    if isBlocked inst.id then []
    else inst.getAllEndpoints.map fun ep =>
      ⟨inst, ep, calculateEndpointScore inst ep instanceScoreWeight⟩

/-- Where the traversal starts only matters for ties. -/
def selectEndpointCandidatesFromList (instances : List Instance) (topK : ℕ)
    (instanceScoreWeight : ℚ) (startIndex : ℕ) (isBlocked : InstanceId → Bool) :
    List EndpointCandidate :=
  (rank (·.score) (scoreEndpoints (instances.rotate startIndex) instanceScoreWeight isBlocked)).take
    topK

def selectEndpointFromInstance (inst : Instance) : Option Endpoint :=
  scanBest (fun a b : Endpoint =>
    a.workload.calculateWorkloadScore < b.workload.calculateWorkloadScore) inst.getAllEndpoints

end LoadBalancePolicy

/-! ## Round robin -/

namespace RoundRobinPolicy

/-- The instance at the counter, and the next counter. -/
def selectInstanceFromList (instances : List Instance) (counter : ℕ) : Option Instance × ℕ :=
  if instances.isEmpty then (none, counter)
  else (instances[counter % instances.length]?, counter + 1)

/-- The endpoint at the counter of the instance, which advances. -/
def selectEndpointFromInstance (inst : Instance) (counters : Dict InstanceId ℕ)
    (isBlocked : InstanceId → Bool) : Option Endpoint × Dict InstanceId ℕ :=
  let endpoints := inst.getAllEndpoints.filter fun _ => !isBlocked inst.id
  if endpoints.isEmpty then (none, counters)
  else
    let counter := (counters.get? inst.id).getD 0
    let idx := counter % endpoints.length
    (endpoints[idx]?, counters.insert inst.id ((counter + 1) % endpoints.length))

end RoundRobinPolicy

/-! ## Affinity -/

/-- What the conductor reports for an endpoint: a number of tokens, or blocks by medium. -/
inductive MatchedRaw where
  | tokens (n : Int)
  | entry (npuBlocks cpuBlocks diskBlocks : Option Int) (matchedTokens : Option Int)
  deriving DecidableEq, Repr

/-- What it reports for an instance, by the id of the endpoint. -/
abbrev DpMap := Dict String MatchedRaw

/-- What it reports for the tenant, by the key of the instance. -/
abbrev Tenant := Dict String DpMap

def conductorInstanceId (inst : Instance) : String :=
  if inst.role = "union" then "vllm-union-" ++ toString inst.id else "vllm-prefill-" ++ toString inst.id

/-- `round`: halves go to the even neighbour. -/
def roundHalfEven (q : ℚ) : Int :=
  let below := q.floor
  if q - below < 1 / 2 then below
  else if 1 / 2 < q - below then below + 1
  else if below % 2 = 0 then below
  else below + 1

/-- An endpoint as the affinity ranks it. -/
structure LoadCandidate where
  loadCost : ℚ
  matchedTokens : Int
  prefillCost : ℚ
  inst : Instance
  endpoint : Endpoint

structure AffinityRecord where
  matchedTokens : Int
  loadCost : ℚ
  prefillCost : Option ℚ
  deriving DecidableEq

abbrev AffinityDebug := Dict (InstanceId × EndpointId) AffinityRecord

namespace KvCacheAffinityPolicy

/-- The endpoints that the load gate keeps if it is not configured. -/
def defaultLoadGateTopn : ℕ := 2

def conductorBlockSize (cfg : SchedulerConfig) : Int := if 0 < cfg.blockSize then cfg.blockSize else 0

/-- The blocks weighted by their medium, if there are any and a block has a size. -/
def weightedMatchedTokens (cfg : SchedulerConfig) : MatchedRaw → Int
  | .tokens n => n
  | .entry npu cpu disk matchedTokens =>
    if (npu.isSome || cpu.isSome || disk.isSome) && decide (0 < conductorBlockSize cfg) then
      roundHalfEven (((npu.getD 0 : Int) * max 0 cfg.kvAffinity.wNpu +
        (cpu.getD 0 : Int) * max 0 cfg.kvAffinity.wCpu +
        (disk.getD 0 : Int) * max 0 cfg.kvAffinity.wDisk) * conductorBlockSize cfg)
    else matchedTokens.getD 0

/-- The match of an endpoint is at most the prompt. -/
def matchedTokens (cfg : SchedulerConfig) (dpMap : DpMap) (isl : ℕ) (id : EndpointId) : Int :=
  if 0 < isl then
    min (weightedMatchedTokens cfg ((dpMap.get? (toString id)).getD (.tokens 0))) isl
  else 0

/-- The tokens of the prompt that are not cached. -/
def prefillCost (cfg : SchedulerConfig) (dpMap : DpMap) (isl : ℕ) (id : EndpointId) : ℚ :=
  max 0 (isl - cfg.overlapCredit * matchedTokens cfg dpMap isl id)

/-- The endpoints of the instances that the conductor reports. -/
def collectLoadCandidates (cfg : SchedulerConfig) (instances : List Instance) (tenant : Tenant)
    (isl : ℕ) : List LoadCandidate :=
  instances.flatMap fun inst =>
    match tenant.get? (conductorInstanceId inst) with
    | none => []
    | some dpMap => inst.getAllEndpoints.map fun ep =>
      { loadCost := ep.workload.calculateWorkloadScore
        matchedTokens := matchedTokens cfg dpMap isl ep.id
        prefillCost := prefillCost cfg dpMap isl ep.id
        inst := inst
        endpoint := ep }

/-- The costs by instance and endpoint; of two endpoints with one id, the later. -/
def stashAffinityDebug (raw : List LoadCandidate) (withPrefill : Bool) : AffinityDebug :=
  raw.foldl (fun debug c => debug.insert (c.inst.id, c.endpoint.id)
    ⟨c.matchedTokens, c.loadCost, if withPrefill then some c.prefillCost else none⟩) ∅

def unifiedScore (cfg : SchedulerConfig) (c : LoadCandidate) : ℚ :=
  cfg.prefillLoadScale * c.prefillCost + cfg.loadWeight * c.loadCost

/-- By what is left to prefill and the load. -/
def selectWithLoad (cfg : SchedulerConfig) (raw : List LoadCandidate) (topK : ℕ) :
    List EndpointCandidate × AffinityDebug :=
  let candidates := raw.map fun c => EndpointCandidate.mk c.inst c.endpoint (unifiedScore cfg c)
  ((rank (·.score) candidates).take (max 1 topK), stashAffinityDebug raw true)

/-- The least loaded, by the longest match. -/
def gateByLoad (cfg : SchedulerConfig) (raw : List LoadCandidate) : List LoadCandidate :=
  let topn := if 0 < cfg.kvAffinity.loadGateTopn then cfg.kvAffinity.loadGateTopn.toNat
    else defaultLoadGateTopn
  rank (fun c => toLex (-c.matchedTokens, c.loadCost)) ((rank (·.loadCost) raw).take topn)

def selectLoadGated (cfg : SchedulerConfig) (raw : List LoadCandidate) (topK : ℕ) :
    List EndpointCandidate × AffinityDebug :=
  (((gateByLoad cfg raw).take (max 1 topK)).map fun c => ⟨c.inst, c.endpoint, c.loadCost⟩,
    stashAffinityDebug raw false)

/-- A tenant of which nothing is cached. -/
def noMatches (instances : List Instance) : Tenant :=
  instances.foldl (fun tenant inst => tenant.insert (conductorInstanceId inst) ∅) ∅

/-- A prompt of less than a block matches nothing, and the conductor is not asked. -/
def queryTenant (cfg : SchedulerConfig) (instances : List Instance) (tokenIds : List ℕ)
    (answer : Option Tenant) : Option Tenant :=
  if 0 < conductorBlockSize cfg ∧ (tokenIds.length : Int) < conductorBlockSize cfg then
    some (noMatches instances)
  else answer

def rankByAffinity (cfg : SchedulerConfig) (raw : List LoadCandidate) (topK : ℕ) :
    List EndpointCandidate × AffinityDebug :=
  match cfg.kvAffinity.mode with
  | .loadGated => selectLoadGated cfg raw topK
  | .unified => selectWithLoad cfg raw topK

/-- `none` if the conductor reports no endpoint. -/
def selectEndpointCandidatesFromList (cfg : SchedulerConfig) (instances : List Instance)
    (tokenIds : List ℕ) (answer : Option Tenant) (topK : ℕ) :
    Option (List EndpointCandidate × AffinityDebug) :=
  (queryTenant cfg instances tokenIds answer).bind fun tenant =>
    let raw := collectLoadCandidates cfg instances tenant tokenIds.length
    if raw.isEmpty then none else some (rankByAffinity cfg raw topK)

end KvCacheAffinityPolicy

/-! ## The worker -/

/-- `strip` and `lower`; the names of engines are ASCII. -/
def normalizeEngineType (s : String) : String :=
  String.ofList (((s.toList.dropWhile isSpace).rdropWhile isSpace).map Char.toLower)

/-- An instance without an engine type is compared as `str(None)`. -/
def Instance.engineTypeText (inst : Instance) : String :=
  normalizeEngineType (inst.engineType.getD "None")

/-- What is required of an instance; an empty string requires nothing. -/
def requiredEngine (required : Option String) : Option String :=
  let normalized := normalizeEngineType (required.getD "")
  if normalized = "" then none else some normalized

def filterInstancesByEngineType (instances : List Instance) (required : Option String) :
    List Instance :=
  match requiredEngine required with
  | none => instances
  | some engine => instances.filter fun inst => decide (inst.engineTypeText = engine)

/-- A request to be placed, with what the conductor answers to its first and second query. -/
structure RequestInfo where
  role : PDRole
  requiredEngineType : Option String
  tokenIds : List ℕ
  /-- The load that the request is worth where affinity does not decide. -/
  demand : ℚ
  conductor : ℕ → Option Tenant

/-- What a worker has found. -/
structure Proposal where
  candidates : List EndpointCandidate
  candidatePolicy : SchedulerType
  affinityDebug : Option AffinityDebug

structure AllocationClient where
  config : SchedulerConfig
  clientIndex : ℕ
  /-- Zero counts as one. -/
  clientCount : ℕ
  cache : InstanceCache
  instanceRrCounters : PDRole → ℕ
  endpointRrCounters : Dict InstanceId ℕ
  cbBlockedInstances : Finset InstanceId

namespace AllocationClient

variable (c : AllocationClient)

def isInstanceBlocked (id : InstanceId) : Bool := decide (id ∈ c.cbBlockedInstances)

/-- Every worker starts its traversals elsewhere. -/
def startIndex (n : ℕ) : ℕ := n * c.clientIndex / max 1 c.clientCount

def selectEndpointCandidatesByLoadBalance (instances : List Instance) (topK : ℕ) :
    List EndpointCandidate :=
  LoadBalancePolicy.selectEndpointCandidatesFromList instances (max 1 topK)
    c.config.instanceScoreWeight (c.startIndex instances.length) c.isInstanceBlocked

/-- An endpoint of an instance; by load, blocked instances are not left out. -/
def selectEndpointForInstance (inst : Instance) : Option Endpoint × AllocationClient :=
  match inst.getAllEndpoints with
  | [] => (none, c)
  | first :: _ =>
    match c.config.schedulerType with
    | .roundRobin =>
      let (endpoint, counters) :=
        RoundRobinPolicy.selectEndpointFromInstance inst c.endpointRrCounters c.isInstanceBlocked
      (endpoint, { c with endpointRrCounters := counters })
    | _ => (some ((LoadBalancePolicy.selectEndpointFromInstance inst).getD first), c)

def setInstanceRrCounter (role : PDRole) (counter : ℕ) : AllocationClient :=
  { c with instanceRrCounters := Function.update c.instanceRrCounters role counter }

/-- The next instance in turn. The counter advances whether or not it has an endpoint. -/
def selectRoundRobin (instances : List Instance) (role : PDRole) : Proposal × AllocationClient :=
  let startOffset := c.startIndex instances.length
  let (selected, nextCounter) :=
    RoundRobinPolicy.selectInstanceFromList instances (c.instanceRrCounters role + startOffset)
  let c := c.setInstanceRrCounter role (nextCounter - startOffset)
  match selected with
  | none => (⟨[], .roundRobin, none⟩, c)
  | some inst =>
    match c.selectEndpointForInstance inst with
    | (none, c) => (⟨[], .roundRobin, none⟩, c)
    | (some endpoint, c) => (⟨[⟨inst, endpoint, 0⟩], .roundRobin, none⟩, c)

/-- By load, and in turn if no endpoint is left. -/
def selectByLoad (instances : List Instance) (role : PDRole) (topK : ℕ) :
    Proposal × AllocationClient :=
  let candidates := c.selectEndpointCandidatesByLoadBalance instances topK
  if candidates.isEmpty then c.selectRoundRobin instances role
  else (⟨candidates, .loadBalance, none⟩, c)

def selectEndpointCandidatesFromListWithPolicy (instances : List Instance) (req : RequestInfo)
    (attempt topK : ℕ) : Proposal × AllocationClient :=
  if instances.isEmpty then (⟨[], c.config.schedulerType, none⟩, c)
  else
    match c.config.schedulerType with
    | .roundRobin => c.selectRoundRobin instances req.role
    | .loadBalance => c.selectByLoad instances req.role topK
    | .kvCacheAffinity =>
      if req.role ∈ kvaSelectRoles then
        match KvCacheAffinityPolicy.selectEndpointCandidatesFromList c.config instances req.tokenIds
            (req.conductor attempt) (max 1 topK) with
        | some (ranked, debug) => (⟨ranked, .kvCacheAffinity, some debug⟩, c)
        | none => c.selectByLoad instances req.role topK
      else c.selectByLoad instances req.role topK

/-- From the cached instances, and if these give nothing, from the available ones. -/
def selectEndpointCandidatesWithPolicy (available : List Instance) (req : RequestInfo) (topK : ℕ) :
    Proposal × AllocationClient :=
  let cached := filterInstancesByEngineType (c.cache.instanceCache req.role) req.requiredEngineType
  let (proposal, c) := c.selectEndpointCandidatesFromListWithPolicy cached req 0 topK
  if proposal.candidates.isEmpty then
    let instances := sortById available
    let c := { c with cache := c.cache.replaceAll req.role instances }
    if instances.isEmpty then (⟨[], c.config.schedulerType, none⟩, c)
    else
      c.selectEndpointCandidatesFromListWithPolicy
        (filterInstancesByEngineType instances req.requiredEngineType) req 1 topK
  else (proposal, c)

end AllocationClient

/-! ## What is sent -/

structure CandidateEndpoint where
  instanceId : InstanceId
  endpointId : EndpointId
  matchedTokens : Option Int
  prefillCost : Option ℚ
  deriving DecidableEq

structure AllocateOnlyRequest where
  instanceId : InstanceId
  endpointId : EndpointId
  candidates : List CandidateEndpoint
  role : PDRole
  workloadActiveTokens : ℚ
  /-- `none` for a policy that the scheduler does not know. -/
  candidatePolicy : Option SchedulerType
  requiredEngineType : Option String
  isl : Option ℕ
  prefillLoadScale : Option ℚ
  loadWeight : Option ℚ

namespace AllocationClient

variable (c : AllocationClient)

/-- Only by affinity with a load gate, alternates are proposed. -/
def requestTopK (role : PDRole) : ℕ :=
  if role ∈ kvaSelectRoles ∧ c.config.schedulerType = .kvCacheAffinity ∧
      c.config.kvAffinity.mode ≠ .unified then affinityCandidateTopk
  else 1

/-- The unified mode leaves the choice among all endpoints to the scheduler. -/
def globalAffinity (proposal : Proposal) : Bool :=
  decide (proposal.candidatePolicy = .kvCacheAffinity) &&
    (proposal.affinityDebug.getD ∅).values.any (·.prefillCost.isSome)

/-- Every endpoint with its prefill cost, of the instances that the worker has. -/
def scoredEndpoints (allowed : List InstanceId) (debug : AffinityDebug) : List CandidateEndpoint :=
  debug.entries.filterMap fun p =>
    if p.2.prefillCost.isSome && allowed.contains p.1.1 then
      some (CandidateEndpoint.mk p.1.1 p.1.2 (some p.2.matchedTokens) p.2.prefillCost)
    else none

/-- The alternates, with what is matched. -/
def rankedEndpoints (candidates : List EndpointCandidate) (debug : AffinityDebug) :
    List CandidateEndpoint :=
  candidates.map fun e => CandidateEndpoint.mk e.inst.id e.endpoint.id
    ((debug.get? (e.inst.id, e.endpoint.id)).map (·.matchedTokens)) none

def candidateEndpoints (req : RequestInfo) (proposal : Proposal) : List CandidateEndpoint :=
  if globalAffinity proposal then
    scoredEndpoints
      ((filterInstancesByEngineType (c.cache.instanceCache req.role) req.requiredEngineType).map (·.id))
      (proposal.affinityDebug.getD ∅)
  else if proposal.candidatePolicy = .kvCacheAffinity then
    rankedEndpoints proposal.candidates (proposal.affinityDebug.getD ∅)
  else rankedEndpoints proposal.candidates ∅

def allocateOnlyRequest (req : RequestInfo) (proposal : Proposal) (first : EndpointCandidate) :
    AllocateOnlyRequest where
  instanceId := first.inst.id
  endpointId := first.endpoint.id
  candidates := c.candidateEndpoints req proposal
  role := req.role
  workloadActiveTokens := if c.config.schedulerType = .roundRobin then 0 else req.demand
  candidatePolicy := some proposal.candidatePolicy
  requiredEngineType := requiredEngine req.requiredEngineType
  isl := if req.tokenIds.isEmpty then none else some req.tokenIds.length
  prefillLoadScale := if globalAffinity proposal then some c.config.prefillLoadScale else none
  loadWeight := if globalAffinity proposal then some c.config.loadWeight else none

/-- What the worker asks the scheduler for; `none` if it has found nothing. -/
def propose (available : List Instance) (req : RequestInfo) :
    Option AllocateOnlyRequest × AllocationClient :=
  let (proposal, c) := c.selectEndpointCandidatesWithPolicy available req (c.requestTopK req.role)
  (proposal.candidates.head?.map (c.allocateOnlyRequest req proposal), c)

end AllocationClient

/-! ## The scheduler -/

structure AllocationServer where
  config : SchedulerConfig
  manager : InstanceManager
  openCircuits : Finset InstanceId

namespace AllocationServer

variable (s : AllocationServer)

def isInstanceCircuitOpen (id : InstanceId) : Bool := decide (id ∈ s.openCircuits)

/-- An engine is compared with what is required, which is normalized once more. -/
def matchesEngineType (inst : Instance) (required : Option String) : Bool :=
  match requiredEngine required with
  | none => true
  | some engine => decide (inst.engineTypeText = engine)

/-- The first endpoint with an id, headless ones included. -/
def findAvailableInstanceEndpoint (id : InstanceId) (endpointId : EndpointId) :
    Option (Instance × Endpoint) :=
  PDRole.all.findSome? fun role =>
    ((s.manager.rolePools role).get? id).bind fun inst =>
      (inst.allEndpoints.find? fun ep => decide (ep.id = endpointId)).map (inst, ·)

/-- A proposed endpoint and its load score, if it can be taken. -/
def selectValidCandidate (candidate : InstanceId × EndpointId) (role : PDRole)
    (required : Option String) : Option EndpointCandidate :=
  if s.isInstanceCircuitOpen candidate.1 then none
  else
    (s.findAvailableInstanceEndpoint candidate.1 candidate.2).bind fun found =>
      if matchesEngineType found.1 required = true ∧
          (PDRole.ofString found.1.role).getD .union = role then
        some ⟨found.1, found.2, LoadBalancePolicy.calculateEndpointScore found.1 found.2
          s.config.instanceScoreWeight⟩
      else none

def shouldScanGlobalLoadBalance : Option SchedulerType → Bool
  | some .loadBalance => true
  | some _ => false
  | none => decide (s.config.schedulerType = .loadBalance)

/-- The least loaded endpoint of all. -/
def selectGlobalLoadBalanceCandidate (role : PDRole) (required : Option String) :
    Option EndpointCandidate :=
  let instances := (s.manager.rolePools role).values.filter fun inst =>
    matchesEngineType inst required
  (LoadBalancePolicy.selectEndpointCandidatesFromList instances 1 s.config.instanceScoreWeight 0
    s.isInstanceCircuitOpen).head?

/-- The proposed endpoints that can be taken, by what is left to prefill and the load. -/
def scoreAffinity (affinityCandidates : List (InstanceId × EndpointId × ℚ)) (role : PDRole)
    (prefillLoadScale loadWeight : ℚ) (required : Option String) : List (EndpointCandidate × ℚ) :=
  affinityCandidates.filterMap fun a =>
    (s.selectValidCandidate (a.1, a.2.1) role required).map fun e =>
      (⟨e.inst, e.endpoint, prefillLoadScale * a.2.2 + loadWeight * e.score⟩, a.2.2)

/-- Of equal scores, less to prefill is better. -/
def BetterAffinity (a b : EndpointCandidate × ℚ) : Prop :=
  a.1.score < b.1.score ∨ a.1.score = b.1.score ∧ a.2 < b.2

instance : DecidableRel BetterAffinity := fun a b =>
  inferInstanceAs (Decidable (a.1.score < b.1.score ∨ a.1.score = b.1.score ∧ a.2 < b.2))

def selectAffinityGlobal (affinityCandidates : List (InstanceId × EndpointId × ℚ)) (role : PDRole)
    (prefillLoadScale loadWeight : Option ℚ) (required : Option String) : Option EndpointCandidate :=
  (scanBest BetterAffinity (s.scoreAffinity affinityCandidates role (prefillLoadScale.getD 1)
    (loadWeight.getD 1) required)).map (·.1)

def selectLowestLoadAmongCandidates (candidates : List (InstanceId × EndpointId)) (role : PDRole)
    (required : Option String) : Option EndpointCandidate :=
  scanBest (fun a b : EndpointCandidate => a.score < b.score)
    (candidates.filterMap fun a => s.selectValidCandidate a role required)

end AllocationServer

namespace AllocateOnlyRequest

variable (r : AllocateOnlyRequest)

/-- The candidates with a prefill cost. -/
def affinityCandidates : List (InstanceId × EndpointId × ℚ) :=
  r.candidates.filterMap fun e => e.prefillCost.map fun cost => (e.instanceId, e.endpointId, cost)

/-- The candidates, or the proposed endpoint alone. -/
def allocateCandidates : List (InstanceId × EndpointId) :=
  if r.candidates.isEmpty then [(r.instanceId, r.endpointId)]
  else r.candidates.map fun e => (e.instanceId, e.endpointId)

def matchedTokensMap : Dict (InstanceId × EndpointId) Int :=
  r.candidates.foldl (fun matched e =>
    match e.matchedTokens with
    | none => matched
    | some n => matched.insert (e.instanceId, e.endpointId) n) ∅

end AllocateOnlyRequest

/-- The tokens of the prompt that are not cached. -/
def calculateCommittedWorkload (isl : ℕ) (matchedTokens : Int) : Workload :=
  ⟨isl - min (max 0 matchedTokens) (isl : Int)⟩

/-- What a request is committed to weigh on an endpoint. -/
def AllocateOnlyRequest.committedWorkload (r : AllocateOnlyRequest) (e : EndpointCandidate) : Workload :=
  match r.isl with
  | some isl =>
    if r.candidatePolicy = some .kvCacheAffinity ∧ r.role ∈ kvaSelectRoles then
      calculateCommittedWorkload isl ((r.matchedTokensMap.get? (e.inst.id, e.endpoint.id)).getD 0)
    else ⟨r.workloadActiveTokens⟩
  | none => ⟨r.workloadActiveTokens⟩

namespace AllocationServer

variable (s : AllocationServer)

/-- The worker's choice, if it saw the current loads. -/
def selectFastPath (r : AllocateOnlyRequest) : Option EndpointCandidate :=
  s.selectValidCandidate (r.instanceId, r.endpointId) r.role r.requiredEngineType

/-- By affinity, among what is proposed. -/
def selectAmongProposed (r : AllocateOnlyRequest) : Option EndpointCandidate :=
  if r.candidatePolicy = some .kvCacheAffinity then
    if !r.affinityCandidates.isEmpty then
      s.selectAffinityGlobal r.affinityCandidates r.role r.prefillLoadScale r.loadWeight
        r.requiredEngineType
    else if 1 < r.allocateCandidates.length then
      s.selectLowestLoadAmongCandidates r.allocateCandidates r.role r.requiredEngineType
    else none
  else none

def selectAuthoritativeAllocateCandidate (r : AllocateOnlyRequest) : Option EndpointCandidate :=
  let scanned :=
    if s.shouldScanGlobalLoadBalance r.candidatePolicy then
      s.selectGlobalLoadBalanceCandidate r.role r.requiredEngineType
    else none
  (scanned.or (s.selectAmongProposed r)).or (s.selectFastPath r)

/-- Round robin keeps no loads. -/
def updateWorkloadSync (e : EndpointCandidate) (workload : Workload) : Bool × AllocationServer :=
  if s.config.schedulerType = .roundRobin then (true, s)
  else
    let (result, manager) := s.manager.updateInstanceWorkloadSync e.inst.id e.endpoint.id workload
    let s := { s with manager := manager }
    match result with
    | .ok (some _) => (true, s)
    | _ => (false, s)

def handleAllocateOnly (fastPath : Bool) (r : AllocateOnlyRequest) :
    Option (InstanceId × EndpointId × Workload) × AllocationServer :=
  let selected :=
    if fastPath then (s.selectFastPath r).or (s.selectAuthoritativeAllocateCandidate r)
    else s.selectAuthoritativeAllocateCandidate r
  match selected with
  | none => (none, s)
  | some e =>
    let workload := r.committedWorkload e
    let (success, s) := s.updateWorkloadSync e workload
    (if success then some (e.inst.id, e.endpoint.id, workload) else none, s)

end AllocationServer

/-- A request goes from the worker to the scheduler. Whether the worker has seen the current loads is
for the sequence numbers to say. -/
def selectAndAllocate (c : AllocationClient) (s : AllocationServer) (fastPath : Bool) (req : RequestInfo) :
    Option (InstanceId × EndpointId × Workload) × AllocationClient × AllocationServer :=
  let (request, c) := c.propose (s.manager.rolePools req.role).values req
  match request with
  | none => (none, c, s)
  | some r =>
    let (allocated, s) := s.handleAllocateOnly fastPath r
    (allocated, c, s)

end PyMotor.Coordinator
