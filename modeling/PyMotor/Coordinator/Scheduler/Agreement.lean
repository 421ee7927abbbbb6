import PyMotor.Coordinator.Scheduler.Selection

/-!
# The fast path and the slow path

If the worker has seen the current loads, the scheduler takes the endpoint that it proposes. Otherwise
it looks at all endpoints, or at all that the worker reports, and takes one of the least score. By load
the two agree. By affinity they weigh loads differently: the worker adds the load of the endpoint to what
is left to prefill, the scheduler also some of the mean load of the instance.

`RanksAlike` is when this makes no difference. An endpoint is proposed by its id, so the ids must tell
the endpoints of an instance apart, as `NamesEndpoints` says.
-/

namespace PyMotor.Coordinator

open Ranking (rank scanBest)

/-- By load, or by affinity and load together. -/
def SchedulerConfig.WeighsLoads (cfg : SchedulerConfig) : Prop :=
  cfg.schedulerType = .loadBalance ∨
    cfg.schedulerType = .kvCacheAffinity ∧ cfg.kvAffinity.mode = .unified

/-- No endpoint comes before a routable one and has its id. -/
def Instance.NamesEndpoints (inst : Instance) : Prop :=
  inst.allEndpoints.Pairwise fun a b => inst.isRoutable b = true → a.id ≠ b.id

theorem Instance.NamesEndpoints.find?_eq {inst : Instance} (h : inst.NamesEndpoints) {ep : Endpoint}
    (hep : ep ∈ inst.getAllEndpoints) :
    inst.allEndpoints.find? (fun e => decide (e.id = ep.id)) = some ep := by
  obtain ⟨hmem, hroutable⟩ := List.mem_filter.mp hep
  obtain ⟨before, after, hsplit⟩ := List.append_of_mem hmem
  unfold Instance.NamesEndpoints at h
  rw [hsplit] at h ⊢
  have hbefore : ∀ e ∈ before, e.id ≠ ep.id := fun e he =>
    (List.pairwise_append.mp h).2.2 e he ep List.mem_cons_self hroutable
  rw [List.find?_append, List.find?_eq_none.mpr fun e he => by simpa using hbefore e he]
  simp

namespace AllocationServer

variable {s : AllocationServer} {c : AllocationClient} {req : RequestInfo} {r : AllocateOnlyRequest}
  {e : EndpointCandidate} {inst : Instance}

/-- The score by which the scheduler compares endpoints for a request. -/
def authoritativeScore (s : AllocationServer) (r : AllocateOnlyRequest) (e : EndpointCandidate) : ℚ :=
  let load := LoadBalancePolicy.calculateEndpointScore e.inst e.endpoint s.config.instanceScoreWeight
  match r.affinityCandidates.find? fun a =>
      decide (a.1 = e.inst.id ∧ a.2.1 = e.endpoint.id) with
  | some a => r.prefillLoadScale.getD 1 * a.2.2 + r.loadWeight.getD 1 * load
  | none => load

/-- What is taken on the fast path is not worse than what would have been chosen. -/
def FastPathAgrees (s : AllocationServer) (r : AllocateOnlyRequest) : Prop :=
  ∀ e, s.selectFastPath r = some e → ∃ e', s.selectAuthoritativeAllocateCandidate r = some e' ∧
    s.authoritativeScore r e = s.authoritativeScore r e'

/-- A request may go to the instance: its circuit is closed, and it has an endpoint. -/
structure Eligible (s : AllocationServer) (role : PDRole) (required : Option String) (inst : Instance) :
    Prop where
  listed : inst ∈ s.instancesFor role required
  closed : inst.id ∉ s.openCircuits
  endpoints : inst.getAllEndpoints ≠ []

/-- What the worker minimizes, where it weighs affinity and load. -/
def workerCost (s : AllocationServer) (prefillCost : ℚ) (ep : Endpoint) : ℚ :=
  s.config.prefillLoadScale * prefillCost + s.config.loadWeight * ep.workload.calculateWorkloadScore

/-- What the scheduler minimizes. -/
def serverCost (s : AllocationServer) (prefillCost : ℚ) (inst : Instance) (ep : Endpoint) : ℚ :=
  s.config.prefillLoadScale * prefillCost + s.config.loadWeight *
    LoadBalancePolicy.calculateEndpointScore inst ep s.config.instanceScoreWeight

/-- What the worker prefers, the scheduler does not think worse. -/
def RanksAlike (s : AllocationServer) (role : PDRole) (required : Option String) (tenant : Tenant)
    (isl : ℕ) : Prop :=
  ∀ inst ep inst' ep', s.Eligible role required inst → s.Eligible role required inst' →
    ep ∈ inst.getAllEndpoints → ep' ∈ inst'.getAllEndpoints →
    s.workerCost (KvCacheAffinityPolicy.tenantCost s.config tenant isl inst ep.id) ep ≤
      s.workerCost (KvCacheAffinityPolicy.tenantCost s.config tenant isl inst' ep'.id) ep' →
    s.serverCost (KvCacheAffinityPolicy.tenantCost s.config tenant isl inst ep.id) inst ep ≤
      s.serverCost (KvCacheAffinityPolicy.tenantCost s.config tenant isl inst' ep'.id) inst' ep'

/-! ## What is proposed is what is taken -/

theorem authoritativeScore_of_nil (h : r.affinityCandidates = []) : s.authoritativeScore r e =
    LoadBalancePolicy.calculateEndpointScore e.inst e.endpoint s.config.instanceScoreWeight := by
  unfold authoritativeScore
  rw [h]
  rfl

theorem selectValidCandidate_of_named (hfiled : s.manager.Filed) {role : PDRole}
    {required : Option String} (hnamed : ∀ inst, s.Eligible role required inst → inst.NamesEndpoints)
    {ep : Endpoint} (hinst : inst ∈ s.instancesFor role required) (hep : ep ∈ inst.getAllEndpoints) :
    s.selectValidCandidate (inst.id, ep.id) role required =
      if inst.id ∈ s.openCircuits then none
      else some ⟨inst, ep, LoadBalancePolicy.calculateEndpointScore inst ep
        s.config.instanceScoreWeight⟩ := by
  split
  · next hopen =>
    unfold selectValidCandidate isInstanceCircuitOpen
    rw [decide_eq_true hopen]
    rfl
  · next hopen =>
    have heligible : s.Eligible role required inst := ⟨hinst, hopen, List.ne_nil_of_mem hep⟩
    rw [selectValidCandidate_eq_some hfiled]
    exact ⟨hopen, inst, hinst, rfl, ep, (hnamed inst heligible).find?_eq hep, rfl⟩

theorem selectAuthoritative_byLoad {role : PDRole} {required : Option String}
    (he : e ∈ s.takeable role required) (hrole : r.role = role) (hengine : r.requiredEngineType = required)
    (hpolicy : r.candidatePolicy = some .loadBalance) :
    ∃ e' ∈ s.takeable role required, (∀ e'' ∈ s.takeable role required, e'.score ≤ e''.score) ∧
      s.selectAuthoritativeAllocateCandidate r = some e' := by
  obtain ⟨e', he'⟩ := selectGlobalLoadBalanceCandidate_isSome he
  obtain ⟨hmem', hleast'⟩ := selectGlobalLoadBalanceCandidate_eq_some he'
  refine ⟨e', hmem', hleast', ?_⟩
  unfold selectAuthoritativeAllocateCandidate
  simp only [hpolicy, hrole, hengine, shouldScanGlobalLoadBalance, if_true, he', Option.some_or]

/-- By load, the first of the worker is a least one for the scheduler too. -/
theorem fastPathAgrees_byLoad (hfiled : s.manager.Filed) {role : PDRole} {required : Option String}
    (hnamed : ∀ inst, s.Eligible role required inst → inst.NamesEndpoints)
    {first : EndpointCandidate} (hfirst : first ∈ s.takeable role required)
    (hleast : ∀ e ∈ s.takeable role required, first.score ≤ e.score)
    (hrole : r.role = role) (hengine : r.requiredEngineType = required)
    (hpolicy : r.candidatePolicy = some .loadBalance) (haffinity : r.affinityCandidates = [])
    (hinst : r.instanceId = first.inst.id) (hendpoint : r.endpointId = first.endpoint.id) :
    s.FastPathAgrees r := by
  intro e he
  obtain ⟨hlisted, hopen, hep, hscore⟩ := mem_takeable.mp hfirst
  unfold selectFastPath at he
  rw [hinst, hendpoint, hrole, hengine, selectValidCandidate_of_named hfiled hnamed hlisted hep,
    if_neg hopen] at he
  cases he
  obtain ⟨e', hmem', hleast', hslow⟩ := selectAuthoritative_byLoad hfirst hrole hengine hpolicy
  refine ⟨e', hslow, ?_⟩
  rw [authoritativeScore_of_nil haffinity, authoritativeScore_of_nil haffinity, ← hscore,
    ← (mem_takeable.mp hmem').2.2.2]
  exact le_antisymm (hleast e' hmem') (hleast' first hfirst)

/-! ### By affinity -/

section Affinity

variable {tenant : Tenant} {isl : ℕ} {x y : LoadCandidate} {ranked : List EndpointCandidate}
  {first : EndpointCandidate}

/-- What the worker has scored: the endpoints of the instances that the conductor reports. -/
def scored (s : AllocationServer) (req : RequestInfo) (tenant : Tenant) (isl : ℕ) : List LoadCandidate :=
  KvCacheAffinityPolicy.collectLoadCandidates s.config (s.cachedFor req) tenant isl

theorem inst_mem_of_scored (hx : x ∈ s.scored req tenant isl) :
    x.inst ∈ s.instancesFor req.role (requiredEngine req.requiredEngineType) :=
  (s.cachedFor_perm req).mem_iff.mp (KvCacheAffinityPolicy.mem_collectLoadCandidates hx).1

theorem prefillCost_eq_of_ids (hfiled : s.manager.Filed) (hx : x ∈ s.scored req tenant isl)
    (hy : y ∈ s.scored req tenant isl) (hinst : x.inst.id = y.inst.id)
    (hendpoint : x.endpoint.id = y.endpoint.id) : x.prefillCost = y.prefillCost := by
  obtain ⟨-, -, -, -, hcostx⟩ := KvCacheAffinityPolicy.mem_collectLoadCandidates hx
  obtain ⟨-, -, -, -, hcosty⟩ := KvCacheAffinityPolicy.mem_collectLoadCandidates hy
  rw [hcostx, hcosty, hendpoint,
    inst_eq_of_id hfiled (inst_mem_of_scored hx) (inst_mem_of_scored hy) hinst]

/-- The request that a worker sends in the unified mode. -/
def unifiedRequest (s : AllocationServer) (c : AllocationClient) (req : RequestInfo) (tenant : Tenant)
    (isl : ℕ) (ranked : List EndpointCandidate) (first : EndpointCandidate) : AllocateOnlyRequest :=
  c.allocateOnlyRequest req ⟨ranked, .kvCacheAffinity,
    some (KvCacheAffinityPolicy.stashAffinityDebug (s.scored req tenant isl) true)⟩ first

theorem selectFastPath_unifiedRequest (c : AllocationClient) (req : RequestInfo) (tenant : Tenant)
    (isl : ℕ) (ranked : List EndpointCandidate) (first : EndpointCandidate) :
    s.selectFastPath (s.unifiedRequest c req tenant isl ranked first) =
      s.selectValidCandidate (first.inst.id, first.endpoint.id) req.role
        (requiredEngine req.requiredEngineType) := by
  rw [selectFastPath, unifiedRequest, AllocationClient.requiredEngineType_allocateOnlyRequest]
  rfl

theorem unifiedRequest_weights (hagrees : c.Agrees s req.role) (hx : x ∈ s.scored req tenant isl)
    (ranked : List EndpointCandidate) (first : EndpointCandidate) :
    (s.unifiedRequest c req tenant isl ranked first).prefillLoadScale = some s.config.prefillLoadScale ∧
      (s.unifiedRequest c req tenant isl ranked first).loadWeight = some s.config.loadWeight := by
  unfold unifiedRequest AllocationClient.allocateOnlyRequest
  simp only [AllocationClient.globalAffinity_unified (List.ne_nil_of_mem hx), if_true, hagrees.config,
    and_self]

theorem exists_sent (hagrees : c.Agrees s req.role) (hx : x ∈ s.scored req tenant isl)
    (ranked : List EndpointCandidate) (first : EndpointCandidate) :
    ∃ cost, (x.inst.id, x.endpoint.id, cost) ∈
      (s.unifiedRequest c req tenant isl ranked first).affinityCandidates :=
  AllocationClient.exists_affinityCandidate_unified hagrees hx
    (KvCacheAffinityPolicy.mem_collectLoadCandidates hx).1

theorem scored_of_sent {a : InstanceId × EndpointId × ℚ} (hne : s.scored req tenant isl ≠ [])
    (ha : a ∈ (s.unifiedRequest c req tenant isl ranked first).affinityCandidates) :
    ∃ y ∈ s.scored req tenant isl, a = (y.inst.id, y.endpoint.id, y.prefillCost) :=
  AllocationClient.mem_affinityCandidates_unified hne ha

/-- Of what was scored, the scheduler compares its own costs. -/
theorem authoritativeScore_of_scored (hfiled : s.manager.Filed) (hagrees : c.Agrees s req.role)
    (hx : x ∈ s.scored req tenant isl) (hinst : e.inst = x.inst) (hendpoint : e.endpoint = x.endpoint) :
    s.authoritativeScore (s.unifiedRequest c req tenant isl ranked first) e =
      s.serverCost x.prefillCost x.inst x.endpoint := by
  obtain ⟨cost, hcost⟩ := exists_sent hagrees hx ranked first
  obtain ⟨hscale, hweight⟩ := unifiedRequest_weights hagrees hx ranked first
  unfold authoritativeScore
  rw [hscale, hweight, hinst, hendpoint]
  cases hfind : (s.unifiedRequest c req tenant isl ranked first).affinityCandidates.find? fun a =>
      decide (a.1 = x.inst.id ∧ a.2.1 = x.endpoint.id) with
  | none =>
    have hnone := List.find?_eq_none.mp hfind _ hcost
    simp at hnone
  | some a =>
    have hids := List.find?_some hfind
    obtain ⟨y, hy, rfl⟩ := scored_of_sent (List.ne_nil_of_mem hx) (List.mem_of_find?_eq_some hfind)
    obtain ⟨hid, heid⟩ := of_decide_eq_true hids
    simp only [Option.getD_some]
    rw [prefillCost_eq_of_ids hfiled hy hx hid heid]
    rfl

theorem eligible_of_scored (hx : x ∈ s.scored req tenant isl) (hopen : x.inst.id ∉ s.openCircuits) :
    s.Eligible req.role (requiredEngine req.requiredEngineType) x.inst :=
  ⟨inst_mem_of_scored hx, hopen,
    List.ne_nil_of_mem (KvCacheAffinityPolicy.mem_collectLoadCandidates hx).2.2.1⟩

theorem selectValidCandidate_of_scored (hfiled : s.manager.Filed)
    (hnamed : ∀ inst, s.Eligible req.role (requiredEngine req.requiredEngineType) inst →
      inst.NamesEndpoints) (hx : x ∈ s.scored req tenant isl) :
    s.selectValidCandidate (x.inst.id, x.endpoint.id) req.role
        (requiredEngine req.requiredEngineType) =
      if x.inst.id ∈ s.openCircuits then none
      else some ⟨x.inst, x.endpoint, LoadBalancePolicy.calculateEndpointScore x.inst x.endpoint
        s.config.instanceScoreWeight⟩ :=
  selectValidCandidate_of_named hfiled hnamed (inst_mem_of_scored hx)
    (KvCacheAffinityPolicy.mem_collectLoadCandidates hx).2.2.1

theorem mem_scoreAffinity (hfiled : s.manager.Filed)
    (hnamed : ∀ inst, s.Eligible req.role (requiredEngine req.requiredEngineType) inst →
      inst.NamesEndpoints) (hagrees : c.Agrees s req.role) (hne : s.scored req tenant isl ≠ [])
    {p : EndpointCandidate × ℚ} :
    p ∈ s.scoreAffinity (s.unifiedRequest c req tenant isl ranked first).affinityCandidates req.role
        s.config.prefillLoadScale s.config.loadWeight (requiredEngine req.requiredEngineType) ↔
      ∃ y ∈ s.scored req tenant isl, y.inst.id ∉ s.openCircuits ∧
        p = (⟨y.inst, y.endpoint, s.serverCost y.prefillCost y.inst y.endpoint⟩, y.prefillCost) := by
  unfold scoreAffinity
  rw [List.mem_filterMap]
  constructor
  · rintro ⟨a, ha, hp⟩
    obtain ⟨y, hy, rfl⟩ := scored_of_sent hne ha
    obtain ⟨e, he, rfl⟩ := Option.map_eq_some_iff.mp hp
    rw [selectValidCandidate_of_scored hfiled hnamed hy] at he
    split at he
    · cases he
    · next hopen =>
      cases he
      exact ⟨y, hy, hopen, rfl⟩
  · rintro ⟨y, hy, hopen, rfl⟩
    obtain ⟨cost, hcost⟩ := exists_sent hagrees hy ranked first
    obtain ⟨z, hz, heq⟩ := scored_of_sent hne hcost
    simp only [Prod.mk.injEq] at heq
    obtain ⟨hid, heid, rfl⟩ := heq
    refine ⟨_, hcost, ?_⟩
    simp only
    rw [selectValidCandidate_of_scored hfiled hnamed hy, if_neg hopen,
      prefillCost_eq_of_ids hfiled hz hy hid.symm heid.symm]
    rfl

theorem selectAuthoritative_unified (hagrees : c.Agrees s req.role) (hx : x ∈ s.scored req tenant isl)
    {p : EndpointCandidate × ℚ}
    (hbest : scanBest BetterAffinity
      (s.scoreAffinity (s.unifiedRequest c req tenant isl ranked first).affinityCandidates req.role
        s.config.prefillLoadScale s.config.loadWeight (requiredEngine req.requiredEngineType)) =
      some p) :
    s.selectAuthoritativeAllocateCandidate (s.unifiedRequest c req tenant isl ranked first) =
      some p.1 := by
  obtain ⟨cost, hcost⟩ := exists_sent hagrees hx ranked first
  obtain ⟨hscale, hweight⟩ := unifiedRequest_weights hagrees hx ranked first
  have hpolicy : (s.unifiedRequest c req tenant isl ranked first).candidatePolicy =
      some .kvCacheAffinity := rfl
  have hrole : (s.unifiedRequest c req tenant isl ranked first).role = req.role := rfl
  have hengine : (s.unifiedRequest c req tenant isl ranked first).requiredEngineType =
      requiredEngine req.requiredEngineType :=
    AllocationClient.requiredEngineType_allocateOnlyRequest _ _ _ _
  generalize s.unifiedRequest c req tenant isl ranked first = r at *
  have hnonempty : r.affinityCandidates.isEmpty = false := by
    rw [List.isEmpty_eq_false_iff]
    exact List.ne_nil_of_mem hcost
  unfold selectAuthoritativeAllocateCandidate selectAmongProposed selectAffinityGlobal
  simp only [hpolicy, hrole, hengine, hscale, hweight, hnonempty, shouldScanGlobalLoadBalance,
    Option.getD_some, Bool.not_false, if_true, hbest, Option.map_some, Bool.false_eq_true, if_false,
    Option.none_or, Option.some_or]

theorem selectAuthoritative_of_scored (hfiled : s.manager.Filed)
    (hnamed : ∀ inst, s.Eligible req.role (requiredEngine req.requiredEngineType) inst →
      inst.NamesEndpoints) (hagrees : c.Agrees s req.role)
    (hx : x ∈ s.scored req tenant isl) (hopen : x.inst.id ∉ s.openCircuits)
    (ranked : List EndpointCandidate) (first : EndpointCandidate) :
    ∃ y ∈ s.scored req tenant isl, y.inst.id ∉ s.openCircuits ∧
      s.selectAuthoritativeAllocateCandidate (s.unifiedRequest c req tenant isl ranked first) =
        some ⟨y.inst, y.endpoint, s.serverCost y.prefillCost y.inst y.endpoint⟩ ∧
      ∀ z ∈ s.scored req tenant isl, z.inst.id ∉ s.openCircuits →
        s.serverCost y.prefillCost y.inst y.endpoint ≤ s.serverCost z.prefillCost z.inst z.endpoint := by
  have hmem : ∀ {p}, p ∈ s.scoreAffinity
      (s.unifiedRequest c req tenant isl ranked first).affinityCandidates req.role
        s.config.prefillLoadScale s.config.loadWeight (requiredEngine req.requiredEngineType) ↔ _ :=
    mem_scoreAffinity hfiled hnamed hagrees (List.ne_nil_of_mem hx)
  cases hbest : scanBest BetterAffinity (s.scoreAffinity
      (s.unifiedRequest c req tenant isl ranked first).affinityCandidates req.role
        s.config.prefillLoadScale s.config.loadWeight (requiredEngine req.requiredEngineType)) with
  | none =>
    have hin := hmem.mpr ⟨x, hx, hopen, rfl⟩
    rw [Ranking.scanBest_eq_none.mp hbest] at hin
    cases hin
  | some p =>
    obtain ⟨hp, hleast⟩ := Ranking.scanBest_spec
      (fun p : EndpointCandidate × ℚ => p.1.score) (fun a b h => h.elim le_of_lt fun h => h.1.le) (fun a b h => Or.inl h) hbest
    obtain ⟨y, hy, hopeny, rfl⟩ := hmem.mp hp
    exact ⟨y, hy, hopeny, selectAuthoritative_unified hagrees hx hbest,
      fun z hz hopenz => hleast _ (hmem.mpr ⟨z, hz, hopenz, rfl⟩)⟩

/-- By affinity, what the worker prefers is a least one for the scheduler if both weigh alike. -/
theorem fastPathAgrees_byAffinity (hfiled : s.manager.Filed)
    (hnamed : ∀ inst, s.Eligible req.role (requiredEngine req.requiredEngineType) inst →
      inst.NamesEndpoints) (hagrees : c.Agrees s req.role)
    (halike : s.RanksAlike req.role (requiredEngine req.requiredEngineType) tenant isl)
    (hx : x ∈ s.scored req tenant isl)
    (hleast : ∀ y ∈ s.scored req tenant isl, KvCacheAffinityPolicy.unifiedScore s.config x ≤
      KvCacheAffinityPolicy.unifiedScore s.config y)
    (hinst : first.inst = x.inst) (hendpoint : first.endpoint = x.endpoint) :
    s.FastPathAgrees (s.unifiedRequest c req tenant isl ranked first) := by
  intro e he
  have hfast : s.selectFastPath (s.unifiedRequest c req tenant isl ranked first) =
      s.selectValidCandidate (x.inst.id, x.endpoint.id) req.role
        (requiredEngine req.requiredEngineType) := by
    rw [selectFastPath_unifiedRequest, hinst, hendpoint]
  rw [hfast, selectValidCandidate_of_scored hfiled hnamed hx] at he
  split at he
  · cases he
  · next hopen =>
    cases he
    obtain ⟨y, hy, hopeny, hslow, hbest⟩ :=
      selectAuthoritative_of_scored hfiled hnamed hagrees hx hopen ranked first
    refine ⟨_, hslow, ?_⟩
    rw [authoritativeScore_of_scored hfiled hagrees hx rfl rfl,
      authoritativeScore_of_scored hfiled hagrees hy rfl rfl]
    obtain ⟨-, -, hepx, hloadx, hcostx⟩ := KvCacheAffinityPolicy.mem_collectLoadCandidates hx
    obtain ⟨-, -, hepy, hloady, hcosty⟩ := KvCacheAffinityPolicy.mem_collectLoadCandidates hy
    have hworker := hleast y hy
    unfold KvCacheAffinityPolicy.unifiedScore at hworker
    rw [hloadx, hloady, hcostx, hcosty] at hworker
    refine le_antisymm ?_ (hbest x hx hopen)
    rw [hcostx, hcosty]
    exact halike x.inst x.endpoint y.inst y.endpoint (eligible_of_scored hx hopen)
      (eligible_of_scored hy hopeny) hepx hepy hworker

end Affinity

/-! ### In turn -/

theorem fastPathAgrees_of_open (hopen : r.instanceId ∈ s.openCircuits) : s.FastPathAgrees r := by
  intro e he
  unfold selectFastPath selectValidCandidate isInstanceCircuitOpen at he
  rw [decide_eq_true hopen] at he
  cases he

/-- **The fast path and the slow path agree** on what a worker proposes by load, and by affinity if
both weigh alike. -/
theorem fastPathAgrees_of_propose (hfiled : s.manager.Filed)
    (hpolicy : s.config.WeighsLoads)
    (hnamed : ∀ inst, s.Eligible req.role (requiredEngine req.requiredEngineType) inst →
      inst.NamesEndpoints)
    (halike : s.config.schedulerType = .kvCacheAffinity → req.role ∈ kvaSelectRoles → ∀ tenant,
      s.RanksAlike req.role (requiredEngine req.requiredEngineType) tenant req.tokenIds.length)
    (hagrees : c.Agrees s req.role)
    (h : (c.propose (s.manager.rolePools req.role).values req).1 = some r) :
    s.FastPathAgrees r := by
  obtain ⟨c', attempt, hagrees', first, t, hfirst, c'', hagrees'', rfl⟩ :=
    AllocationClient.exists_of_propose hagrees h
  have hne : s.cachedFor req ≠ [] := by
    intro hnil
    rw [hnil] at hfirst
    cases hfirst
  rcases AllocationClient.selectFromList_cases (c := c') hne req attempt (c.requestTopK req.role) with
    ⟨hst, -⟩ | ⟨ranked, debug, hranking, heq⟩ | ⟨-, -, heq⟩
  -- in turn, which the policy excludes
  · rw [hagrees'.config] at hst
    rcases hpolicy with hlb | ⟨hkv, -⟩
    · rw [hlb] at hst
      cases hst
    · rw [hkv] at hst
      cases hst
  -- by affinity: the mode is the unified one, so all scored endpoints are sent
  · rw [heq] at hfirst ⊢
    unfold AllocationClient.affinityRanking at hranking
    rw [hagrees'.config] at hranking
    split at hranking
    · next hkva =>
      have hmode : s.config.kvAffinity.mode = .unified := by
        rcases hpolicy with hlb | ⟨-, hmode⟩
        · rw [hlb] at hkva
          cases hkva.1
        · exact hmode
      obtain ⟨tenant, -, hraw, hrank⟩ :=
        KvCacheAffinityPolicy.selectEndpointCandidatesFromList_eq_some.mp hranking
      rw [KvCacheAffinityPolicy.rankByAffinity_unified hmode, Prod.mk.injEq] at hrank
      obtain ⟨hranked, hdebug⟩ := hrank
      rw [← hranked] at hfirst
      obtain ⟨x, hx, hinst, hendpoint, hleast⟩ := KvCacheAffinityPolicy.selectWithLoad_first hfirst
      have hunified : s.FastPathAgrees
          (s.unifiedRequest c'' req tenant req.tokenIds.length ranked first) :=
        fastPathAgrees_byAffinity hfiled hnamed hagrees'' (halike hkva.1 hkva.2 tenant) hx hleast
          hinst hendpoint
      unfold unifiedRequest scored at hunified
      rwa [hdebug] at hunified
    · cases hranking
  -- by load
  · rcases AllocationClient.selectByLoad_cases (c := c') (s.cachedFor req) req.role
        (c.requestTopK req.role) with ⟨e, t', hload, heq'⟩ | ⟨hload, heq'⟩
    · rw [heq, heq'] at hfirst ⊢
      cases hfirst
      obtain ⟨hmem, hleast⟩ := AllocationClient.selectByLoadBalance_first hagrees' hload
      have haffinity : (c''.allocateOnlyRequest req ⟨first :: t, .loadBalance, none⟩ first).affinityCandidates =
          [] :=
        AllocationClient.affinityCandidates_of_not_global
          (AllocationClient.globalAffinity_of_policy (fun h => by cases h))
      exact fastPathAgrees_byLoad hfiled hnamed hmem hleast rfl
        (AllocationClient.requiredEngineType_allocateOnlyRequest _ _ _ _) rfl haffinity rfl rfl
    · -- only a blocked instance is left to be proposed
      rw [heq, heq'] at hfirst ⊢
      obtain ⟨inst, hturn⟩ := AllocationClient.exists_turn (c := c') hne req.role
      obtain ⟨c₁, hview, hproposal, -⟩ := AllocationClient.selectRoundRobin_eq hturn
      rw [hproposal] at hfirst ⊢
      obtain ⟨endpoint, hendpoint, hcons⟩ : ∃ endpoint,
          (c₁.selectEndpointForInstance inst).1 = some endpoint ∧ first = ⟨inst, endpoint, 0⟩ := by
        cases hsel : (c₁.selectEndpointForInstance inst).1 with
        | none =>
          rw [hsel] at hfirst
          cases hfirst
        | some endpoint =>
          rw [hsel] at hfirst
          cases hfirst
          exact ⟨endpoint, rfl, rfl⟩
      subst hcons
      have hlisted : inst ∈ s.instancesFor req.role (requiredEngine req.requiredEngineType) :=
        (s.cachedFor_perm req).mem_iff.mp (List.mem_of_getElem? hturn)
      apply fastPathAgrees_of_open
      by_contra hopen
      have htake : (⟨inst, endpoint, LoadBalancePolicy.calculateEndpointScore inst endpoint
          s.config.instanceScoreWeight⟩ : EndpointCandidate) ∈
          s.takeable req.role (requiredEngine req.requiredEngineType) :=
        mem_takeable.mpr ⟨hlisted, hopen,
          (AllocationClient.selectEndpointForInstance_eq_some hendpoint).1, rfl⟩
      exact AllocationClient.selectByLoadBalance_ne_nil hagrees' _ htake hload

end AllocationServer

end PyMotor.Coordinator
