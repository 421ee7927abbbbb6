import PyMotor.Coordinator.Scheduler.Agreement
import PyMotor.Coordinator.Scheduler.Charging

/-!
# What is answered

A worker proposes endpoints of instances that the request may go to, blocked or not, and the scheduler
refuses the blocked ones. So whatever is answered is healthy (`healthy_of_answer`), and a healthy instance
is found exactly if something is answered when there is one (`findsHealthy_iff_answers`).
-/

namespace PyMotor.Coordinator

namespace AllocationServer

variable {s : AllocationServer} {c : AllocationClient} {req : RequestInfo} {r : AllocateOnlyRequest}
  {e : EndpointCandidate} {inst : Instance} {role : PDRole} {required : Option String}
  {id : InstanceId} {endpointId : EndpointId} {fastPath : Bool}

/-! ## What is to be found -/

/-- There is an instance that the request may go to. -/
def HasEligible (s : AllocationServer) (req : RequestInfo) : Prop :=
  ∃ inst, s.Eligible req.role (requiredEngine req.requiredEngineType) inst

/-- The answer is an endpoint of an instance that the request may go to. -/
def Serves (s : AllocationServer) (req : RequestInfo)
    (answer : Option (InstanceId × EndpointId × Workload)) : Prop :=
  ∃ inst, s.Eligible req.role (requiredEngine req.requiredEngineType) inst ∧
    ∃ ep ∈ inst.getAllEndpoints, ∃ workload, answer = some (inst.id, ep.id, workload)

structure FindsHealthy (s : AllocationServer) (req : RequestInfo)
    (answer : Option (InstanceId × EndpointId × Workload)) : Prop where
  found : s.HasEligible req → s.Serves req answer
  closed : ∀ id endpointId workload, answer = some (id, endpointId, workload) → id ∉ s.openCircuits

/-! ## What the scheduler accepts -/

/-- An endpoint of an instance that the request may go to, if its circuit is closed. -/
def Listed (s : AllocationServer) (role : PDRole) (required : Option String)
    (candidate : InstanceId × EndpointId) : Prop :=
  ∃ inst ∈ s.instancesFor role required, inst.id = candidate.1 ∧
    ∃ ep ∈ inst.getAllEndpoints, ep.id = candidate.2

theorem listed_of_mem {ep : Endpoint} (hinst : inst ∈ s.instancesFor role required)
    (hep : ep ∈ inst.getAllEndpoints) : s.Listed role required (inst.id, ep.id) :=
  ⟨inst, hinst, rfl, ep, hep, rfl⟩

theorem selectValidCandidate_isSome_iff (hfiled : s.manager.Filed) {candidate : InstanceId × EndpointId}
    (h : s.Listed role required candidate) :
    (∃ e, s.selectValidCandidate candidate role required = some e) ↔ candidate.1 ∉ s.openCircuits := by
  obtain ⟨inst, hinst, hid, ep, hep, heid⟩ := h
  constructor
  · rintro ⟨e, he⟩
    exact ((selectValidCandidate_eq_some hfiled).mp he).1
  · intro hclosed
    have hfound : (inst.allEndpoints.find? fun ep => decide (ep.id = candidate.2)).isSome = true := by
      rw [List.find?_isSome]
      exact ⟨ep, List.mem_of_mem_filter hep, decide_eq_true heid⟩
    obtain ⟨ep', hep'⟩ := Option.isSome_iff_exists.mp hfound
    exact ⟨_, (selectValidCandidate_eq_some hfiled).mpr ⟨hclosed, inst, hinst, hid, ep', hep', rfl⟩⟩

/-- The instance may get a request, and one of its endpoints has the id of this one. -/
def Healthy (s : AllocationServer) (role : PDRole) (required : Option String) (e : EndpointCandidate) :
    Prop :=
  s.Eligible role required e.inst ∧ ∃ ep ∈ e.inst.getAllEndpoints, ep.id = e.endpoint.id

theorem healthy_of_valid (hfiled : s.manager.Filed) {candidate : InstanceId × EndpointId}
    (hlisted : s.Listed role required candidate)
    (h : s.selectValidCandidate candidate role required = some e) : s.Healthy role required e := by
  obtain ⟨inst, hinst, hid, ep, hep, heid⟩ := hlisted
  obtain ⟨hclosed, inst', hinst', hid', ep', hfind, rfl⟩ := (selectValidCandidate_eq_some hfiled).mp h
  obtain rfl := inst_eq_of_id hfiled hinst hinst' (hid.trans hid'.symm)
  have heid' := List.find?_some hfind
  exact ⟨⟨hinst, hid ▸ hclosed, List.ne_nil_of_mem hep⟩, ep, hep,
    heid.trans (of_decide_eq_true heid').symm⟩

theorem healthy_of_takeable (h : e ∈ s.takeable role required) : s.Healthy role required e := by
  obtain ⟨hinst, hclosed, hep, -⟩ := mem_takeable.mp h
  exact ⟨⟨hinst, hclosed, List.ne_nil_of_mem hep⟩, e.endpoint, hep, rfl⟩

/-- A request names listed endpoints only. -/
structure NamesListed (s : AllocationServer) (r : AllocateOnlyRequest) : Prop where
  first : s.Listed r.role r.requiredEngineType (r.instanceId, r.endpointId)
  candidates : ∀ a ∈ r.candidates, s.Listed r.role r.requiredEngineType (a.instanceId, a.endpointId)

theorem healthy_of_selectCandidate (hfiled : s.manager.Filed) (hlisted : s.NamesListed r)
    (h : s.selectCandidate fastPath r = some e) : s.Healthy r.role r.requiredEngineType e := by
  rcases selectCandidate_cases h with ⟨-, hscan⟩ | ⟨candidate, hnamed, e₀, hvalid, hinst, hendpoint⟩
  · exact healthy_of_takeable (selectGlobalLoadBalanceCandidate_eq_some hscan).1
  · have hcandidate : s.Listed r.role r.requiredEngineType candidate := by
      rcases List.mem_cons.mp hnamed with rfl | hnamed
      · exact hlisted.first
      · obtain ⟨a, ha, rfl⟩ := List.mem_map.mp hnamed
        exact hlisted.candidates a ha
    have hhealthy := healthy_of_valid hfiled hcandidate hvalid
    rwa [Healthy, hinst, hendpoint] at hhealthy

theorem exists_selectCandidate (h : (∃ e, s.selectFastPath r = some e) ∨
    ∃ e, s.selectAmongProposed r = some e) : ∃ e, s.selectCandidate fastPath r = some e := by
  rw [← Option.isSome_iff_exists]
  simp only [← Option.isSome_iff_exists] at h
  unfold selectCandidate selectAuthoritativeAllocateCandidate
  rcases h with h | h <;> split <;> simp [h]

theorem exists_selectCandidate_of_first (hfiled : s.manager.Filed) (hlisted : s.NamesListed r)
    (hclosed : r.instanceId ∉ s.openCircuits) : ∃ e, s.selectCandidate fastPath r = some e :=
  exists_selectCandidate (Or.inl ((selectValidCandidate_isSome_iff hfiled hlisted.first).mpr hclosed))

theorem exists_selectAffinityGlobal {cands : List (InstanceId × EndpointId × ℚ)}
    {a : InstanceId × EndpointId × ℚ} (ha : a ∈ cands)
    (he : s.selectValidCandidate (a.1, a.2.1) role required = some e) (scale weight : Option ℚ) :
    ∃ e', s.selectAffinityGlobal cands role scale weight required = some e' := by
  have hscored : s.scoreAffinity cands role (scale.getD 1) (weight.getD 1) required ≠ [] := by
    have hmem : ((⟨e.inst, e.endpoint, scale.getD 1 * a.2.2 + weight.getD 1 * e.score⟩ :
        EndpointCandidate), a.2.2) ∈
          s.scoreAffinity cands role (scale.getD 1) (weight.getD 1) required :=
      List.mem_filterMap.mpr ⟨a, ha, by rw [he]; rfl⟩
    exact List.ne_nil_of_mem hmem
  rw [← Option.isSome_iff_exists, selectAffinityGlobal, Option.isSome_map, Option.isSome_iff_ne_none,
    ne_eq, Ranking.scanBest_eq_none]
  exact hscored

theorem exists_selectLowestLoad {cands : List (InstanceId × EndpointId)}
    {a : InstanceId × EndpointId} (ha : a ∈ cands)
    (he : s.selectValidCandidate a role required = some e) :
    ∃ e', s.selectLowestLoadAmongCandidates cands role required = some e' := by
  rw [← Option.isSome_iff_exists, Option.isSome_iff_ne_none, ne_eq, selectLowestLoadAmongCandidates,
    Ranking.scanBest_eq_none]
  exact List.ne_nil_of_mem (List.mem_filterMap.mpr ⟨a, ha, he⟩)

/-- By affinity, a request is accepted if an endpoint that it names has a closed circuit. The endpoints have
costs, all or none. -/
theorem exists_selectCandidate_byAffinity (hfiled : s.manager.Filed) (hlisted : s.NamesListed r)
    (hpolicy : r.candidatePolicy = some .kvCacheAffinity)
    (hfirst : ∃ a ∈ r.candidates, (a.instanceId, a.endpointId) = (r.instanceId, r.endpointId))
    (hcosts : r.affinityCandidates = [] ∨ ∀ a ∈ r.candidates, a.prefillCost.isSome = true) :
    (∃ e, s.selectCandidate fastPath r = some e) ↔
      ∃ a ∈ r.candidates, a.instanceId ∉ s.openCircuits := by
  constructor
  · rintro ⟨e, he⟩
    rcases selectCandidate_cases he with ⟨hscan, -⟩ | ⟨candidate, hnamed, e₀, hselected, -⟩
    · rw [hpolicy] at hscan
      cases hscan
    · have hclosed := ((selectValidCandidate_eq_some hfiled).mp hselected).1
      obtain ⟨a, ha, rfl⟩ : ∃ a ∈ r.candidates, (a.instanceId, a.endpointId) = candidate := by
        rcases List.mem_cons.mp hnamed with rfl | hnamed
        · exact hfirst
        · exact List.mem_map.mp hnamed
      exact ⟨a, ha, hclosed⟩
  · rintro ⟨a, ha, hclosed⟩
    obtain ⟨e, he⟩ :=
      (selectValidCandidate_isSome_iff hfiled (hlisted.candidates a ha)).mpr hclosed
    by_cases hcost : r.affinityCandidates = []
    · have hcandidates : r.allocateCandidates = r.candidates.map fun a => (a.instanceId, a.endpointId) := by
        have hnonempty : r.candidates.isEmpty = false := by
          rw [List.isEmpty_eq_false_iff]
          exact List.ne_nil_of_mem ha
        rw [AllocateOnlyRequest.allocateCandidates, hnonempty, if_neg Bool.false_ne_true]
      by_cases hseveral : 1 < r.allocateCandidates.length
      · have hmem : (a.instanceId, a.endpointId) ∈ r.allocateCandidates :=
          hcandidates ▸ List.mem_map_of_mem ha
        obtain ⟨e', he'⟩ := exists_selectLowestLoad hmem he
        refine exists_selectCandidate (Or.inr ⟨e', ?_⟩)
        simp only [selectAmongProposed, hpolicy, hcost, List.isEmpty_nil, Bool.not_true,
          Bool.false_eq_true, if_false, if_true, if_pos hseveral, he']
      · -- only one is named, and it is the first
        obtain ⟨a', ha', hids⟩ := hfirst
        rw [hcandidates, List.length_map] at hseveral
        obtain ⟨b, hb⟩ := List.length_eq_one_iff.mp
          (le_antisymm (not_lt.mp hseveral) (List.length_pos_of_mem ha))
        rw [hb, List.mem_singleton] at ha ha'
        refine exists_selectCandidate_of_first hfiled hlisted ?_
        rwa [← (Prod.mk.inj hids).1, ha', ← ha]
    · obtain ⟨cost, hprefill⟩ := Option.isSome_iff_exists.mp ((hcosts.resolve_left hcost) a ha)
      have hmem : (a.instanceId, a.endpointId, cost) ∈ r.affinityCandidates :=
        List.mem_filterMap.mpr ⟨a, ha, by rw [hprefill]; rfl⟩
      have hnonempty : r.affinityCandidates.isEmpty = false := List.isEmpty_eq_false_iff.mpr hcost
      obtain ⟨e', he'⟩ := exists_selectAffinityGlobal hmem he r.prefillLoadScale r.loadWeight
      refine exists_selectCandidate (Or.inr ⟨e', ?_⟩)
      simp only [selectAmongProposed, hpolicy, hnonempty, Bool.not_false, if_true, he']

/-! ## The answer -/

theorem updateWorkloadSync_of_isFiled {w : Roster} (hpools : s.manager.Represents w) (he : s.IsFiled e)
    (workload : Workload) : (s.updateWorkloadSync e workload).1 = true := by
  obtain ⟨role, hget, hep⟩ := he
  obtain ⟨result, hresult⟩ := hpools.updateInstanceWorkloadSync_isSome (hpools.get?_rolePools.mp hget).1
    hep workload
  unfold updateWorkloadSync
  split
  · rfl
  · simp only [hresult]

theorem selectAndAllocate_eq {w : Roster} (hpools : s.manager.Represents w) (c : AllocationClient)
    (fastPath : Bool) (req : RequestInfo) :
    (selectAndAllocate c s fastPath req).1 =
      (c.propose (s.manager.rolePools req.role).values req).1.bind fun r =>
        (s.selectCandidate fastPath r).map fun e =>
          (e.inst.id, e.endpoint.id, r.committedWorkload e) := by
  unfold selectAndAllocate
  simp only
  cases hpropose : (c.propose (s.manager.rolePools req.role).values req).1 with
  | none => rfl
  | some r =>
    simp only [Option.bind_some]
    cases hselected : s.selectCandidate fastPath r with
    | none =>
      unfold selectCandidate at hselected
      simp only [handleAllocateOnly, hselected, Option.map_none]
    | some e =>
      have hfiled := isFiled_of_selectCandidate hpools.isFiled hselected
      unfold selectCandidate at hselected
      simp only [handleAllocateOnly, hselected, updateWorkloadSync_of_isFiled hpools hfiled, if_true,
        Option.map_some]

/-! ## What the worker proposes -/

/-- A proposal is of listed endpoints, and so are the endpoints with costs. -/
structure ProposesListed (s : AllocationServer) (role : PDRole) (required : Option String)
    (proposal : Proposal) : Prop where
  candidates : ∀ e ∈ proposal.candidates,
    e.inst ∈ s.instancesFor role required ∧ e.endpoint ∈ e.inst.getAllEndpoints
  costs : ∀ k record, (proposal.affinityDebug.getD ∅).get? k = some record → s.Listed role required k

theorem mem_cachedFor : inst ∈ s.cachedFor req ↔
    inst ∈ s.instancesFor req.role (requiredEngine req.requiredEngineType) :=
  (s.cachedFor_perm req).mem_iff

theorem proposesListed_nil (policy : SchedulerType) :
    s.ProposesListed role required ⟨[], policy, none⟩ where
  candidates := by simp
  costs k record h := by cases h

theorem proposesListed_selectRoundRobin (c : AllocationClient) (hne : s.cachedFor req ≠ []) :
    s.ProposesListed req.role (requiredEngine req.requiredEngineType)
      (c.selectRoundRobin (s.cachedFor req) req.role).1 := by
  obtain ⟨inst, hturn⟩ := AllocationClient.exists_turn (c := c) hne req.role
  obtain ⟨c', -, hproposal, -⟩ := AllocationClient.selectRoundRobin_eq hturn
  rw [hproposal]
  refine ⟨fun e he => ?_, fun k record h => by cases h⟩
  obtain ⟨endpoint, hendpoint, rfl⟩ := Option.map_eq_some_iff.mp (Option.mem_toList.mp he)
  exact ⟨mem_cachedFor.mp (List.mem_of_getElem? hturn),
    (AllocationClient.selectEndpointForInstance_eq_some hendpoint).1⟩

theorem proposesListed_selectByLoad (c : AllocationClient) (hne : s.cachedFor req ≠ []) (topK : ℕ) :
    s.ProposesListed req.role (requiredEngine req.requiredEngineType)
      (c.selectByLoad (s.cachedFor req) req.role topK).1 := by
  rcases AllocationClient.selectByLoad_cases (c := c) (s.cachedFor req) req.role topK with
    ⟨e, t, hload, heq⟩ | ⟨-, heq⟩
  · rw [heq]
    refine ⟨fun e' he' => ?_, fun k record h => by cases h⟩
    have hmem : e' ∈ c.selectEndpointCandidatesByLoadBalance (s.cachedFor req) topK := hload ▸ he'
    have hranked := Ranking.mem_rank.mp (List.mem_of_mem_take hmem)
    obtain ⟨hinst, -, hep, -⟩ := LoadBalancePolicy.mem_scoreEndpoints.mp hranked
    exact ⟨mem_cachedFor.mp (List.mem_rotate.mp hinst), hep⟩
  · rw [heq]
    exact proposesListed_selectRoundRobin c hne

theorem mem_of_mem_rankByAffinity {cfg : SchedulerConfig} {raw : List LoadCandidate} {topK : ℕ}
    (h : e ∈ (KvCacheAffinityPolicy.rankByAffinity cfg raw topK).1) :
    ∃ x ∈ raw, e.inst = x.inst ∧ e.endpoint = x.endpoint := by
  unfold KvCacheAffinityPolicy.rankByAffinity at h
  split at h
  · obtain ⟨x, hx, rfl⟩ := List.mem_map.mp h
    have hgate := Ranking.mem_rank.mp (List.mem_of_mem_take hx)
    exact ⟨x, Ranking.mem_rank.mp (List.mem_of_mem_take hgate), rfl, rfl⟩
  · obtain ⟨x, hx, rfl⟩ := List.mem_map.mp (Ranking.mem_rank.mp (List.mem_of_mem_take h))
    exact ⟨x, hx, rfl, rfl⟩

theorem of_get?_rankByAffinity {cfg : SchedulerConfig} {raw : List LoadCandidate} {topK : ℕ}
    {k : InstanceId × EndpointId} {record : AffinityRecord}
    (h : (KvCacheAffinityPolicy.rankByAffinity cfg raw topK).2.get? k = some record) :
    ∃ x ∈ raw, (x.inst.id, x.endpoint.id) = k := by
  cases hmode : cfg.kvAffinity.mode with
  | unified =>
    rw [KvCacheAffinityPolicy.rankByAffinity_unified hmode] at h
    obtain ⟨x, hx, hk, -⟩ := KvCacheAffinityPolicy.of_get?_stash h
    exact ⟨x, hx, hk⟩
  | loadGated =>
    rw [KvCacheAffinityPolicy.rankByAffinity_loadGated hmode] at h
    obtain ⟨x, hx, hk, -⟩ := KvCacheAffinityPolicy.of_get?_stash h
    exact ⟨x, hx, hk⟩

theorem proposesListed_rankByAffinity {tenant : Tenant} {isl topK : ℕ} {ranked : List EndpointCandidate}
    {debug : AffinityDebug}
    (h : KvCacheAffinityPolicy.rankByAffinity s.config (s.scored req tenant isl) topK = (ranked, debug)) :
    s.ProposesListed req.role (requiredEngine req.requiredEngineType)
      ⟨ranked, .kvCacheAffinity, some debug⟩ := by
  have hlisted : ∀ x ∈ s.scored req tenant isl,
      x.inst ∈ s.instancesFor req.role (requiredEngine req.requiredEngineType) ∧
        x.endpoint ∈ x.inst.getAllEndpoints :=
    fun x hx => ⟨inst_mem_of_scored hx, (KvCacheAffinityPolicy.mem_collectLoadCandidates hx).2.2.1⟩
  constructor
  · intro e he
    have hmem : e ∈ (KvCacheAffinityPolicy.rankByAffinity s.config (s.scored req tenant isl) topK).1 := by
      rw [h]
      exact he
    obtain ⟨x, hx, hinst, hendpoint⟩ := mem_of_mem_rankByAffinity hmem
    rw [hinst, hendpoint]
    exact hlisted x hx
  · intro k record hget
    have hget' : (KvCacheAffinityPolicy.rankByAffinity s.config (s.scored req tenant isl) topK).2.get? k =
        some record := by
      rw [h]
      exact hget
    obtain ⟨x, hx, rfl⟩ := of_get?_rankByAffinity hget'
    exact listed_of_mem (hlisted x hx).1 (hlisted x hx).2

theorem proposesListed_selectFromList (hagrees : c.Agrees s req.role) (attempt topK : ℕ) :
    s.ProposesListed req.role (requiredEngine req.requiredEngineType)
      (c.selectEndpointCandidatesFromListWithPolicy (s.cachedFor req) req attempt topK).1 := by
  by_cases hne : s.cachedFor req = []
  · rw [hne]
    exact proposesListed_nil _
  rcases AllocationClient.selectFromList_cases (c := c) hne req attempt topK with
    ⟨-, heq⟩ | ⟨ranked, debug, hranking, heq⟩ | ⟨-, -, heq⟩
  · rw [heq]
    exact proposesListed_selectRoundRobin c hne
  · rw [heq]
    unfold AllocationClient.affinityRanking at hranking
    split at hranking
    · obtain ⟨tenant, -, -, hrank⟩ :=
        KvCacheAffinityPolicy.selectEndpointCandidatesFromList_eq_some.mp hranking
      rw [hagrees.config] at hrank
      exact proposesListed_rankByAffinity hrank
    · cases hranking
  · rw [heq]
    exact proposesListed_selectByLoad c hne topK

theorem namesListed_allocateOnlyRequest {proposal : Proposal} (c : AllocationClient)
    (hlisted : s.ProposesListed req.role (requiredEngine req.requiredEngineType) proposal)
    (he : e ∈ proposal.candidates) : s.NamesListed (c.allocateOnlyRequest req proposal e) := by
  have hengine := AllocationClient.requiredEngineType_allocateOnlyRequest c req proposal e
  have hranked (debug : AffinityDebug) : ∀ a ∈ AllocationClient.rankedEndpoints proposal.candidates debug,
      s.Listed req.role (requiredEngine req.requiredEngineType) (a.instanceId, a.endpointId) := by
    intro a ha
    obtain ⟨e', he', rfl⟩ := List.mem_map.mp ha
    obtain ⟨hinst, hep⟩ := hlisted.candidates e' he'
    exact listed_of_mem hinst hep
  constructor
  · rw [hengine]
    obtain ⟨hinst, hep⟩ := hlisted.candidates e he
    exact listed_of_mem hinst hep
  · rw [hengine]
    change ∀ a ∈ c.candidateEndpoints req proposal,
      s.Listed req.role (requiredEngine req.requiredEngineType) (a.instanceId, a.endpointId)
    unfold AllocationClient.candidateEndpoints
    split
    · intro a ha
      obtain ⟨p, hp, hentry⟩ := List.mem_filterMap.mp ha
      split at hentry
      · cases hentry
        exact hlisted.costs p.1 p.2 (Dict.mem_entries_iff.mp hp)
      · cases hentry
    · split
      · exact hranked _
      · exact hranked _

theorem namesListed_of_propose (hagrees : c.Agrees s req.role)
    (h : (c.propose (s.manager.rolePools req.role).values req).1 = some r) :
    s.NamesListed r ∧ r.role = req.role ∧ r.requiredEngineType = requiredEngine req.requiredEngineType := by
  obtain ⟨c', attempt, hagrees', first, t, hfirst, c'', -, rfl⟩ :=
    AllocationClient.exists_of_propose hagrees h
  have hlisted : s.ProposesListed req.role (requiredEngine req.requiredEngineType) _ :=
    proposesListed_selectFromList hagrees' attempt (c.requestTopK req.role)
  generalize (c'.selectEndpointCandidatesFromListWithPolicy (s.cachedFor req) req attempt
    (c.requestTopK req.role)).1 = proposal at hfirst hlisted ⊢
  have hmem : first ∈ proposal.candidates := by
    rw [hfirst]
    exact List.mem_cons_self
  exact ⟨namesListed_allocateOnlyRequest c'' hlisted hmem, rfl,
    AllocationClient.requiredEngineType_allocateOnlyRequest c'' req proposal first⟩

/-! ## An answer is healthy -/

variable {w : Roster}

/-- Every answer is an endpoint of an instance that the request may go to. -/
theorem healthy_of_answer (hpools : s.manager.Represents w) (hagrees : c.Agrees s req.role)
    {workload : Workload}
    (h : (selectAndAllocate c s fastPath req).1 = some (id, endpointId, workload)) :
    ∃ inst, s.Eligible req.role (requiredEngine req.requiredEngineType) inst ∧ inst.id = id ∧
      ∃ ep ∈ inst.getAllEndpoints, ep.id = endpointId := by
  rw [selectAndAllocate_eq hpools, Option.bind_eq_some_iff] at h
  obtain ⟨r, hr, h⟩ := h
  obtain ⟨e, hselected, heq⟩ := Option.map_eq_some_iff.mp h
  cases heq
  obtain ⟨hlisted, hrole, hengine⟩ := namesListed_of_propose hagrees hr
  have hhealthy := healthy_of_selectCandidate hpools.isFiled hlisted hselected
  rw [hrole, hengine] at hhealthy
  exact ⟨e.inst, hhealthy.1, rfl, hhealthy.2⟩

/-- Something is proposed, and something is selected for it. -/
def Answers (s : AllocationServer) (c : AllocationClient) (fastPath : Bool) (req : RequestInfo) : Prop :=
  ∃ r, (c.propose (s.manager.rolePools req.role).values req).1 = some r ∧
    ∃ e, s.selectCandidate fastPath r = some e

theorem findsHealthy_iff_answers (hpools : s.manager.Represents w) (hagrees : c.Agrees s req.role) :
    s.FindsHealthy req (selectAndAllocate c s fastPath req).1 ↔
      (s.HasEligible req → s.Answers c fastPath req) := by
  constructor
  · intro h heligible
    obtain ⟨inst, -, ep, -, workload, hanswer⟩ := h.found heligible
    rw [selectAndAllocate_eq hpools, Option.bind_eq_some_iff] at hanswer
    obtain ⟨r, hr, hanswer⟩ := hanswer
    obtain ⟨e, he, -⟩ := Option.map_eq_some_iff.mp hanswer
    exact ⟨r, hr, e, he⟩
  · intro h
    constructor
    · intro heligible
      obtain ⟨r, hr, e, he⟩ := h heligible
      have hanswer : (selectAndAllocate c s fastPath req).1 =
          some (e.inst.id, e.endpoint.id, r.committedWorkload e) := by
        rw [selectAndAllocate_eq hpools, hr, Option.bind_some, he, Option.map_some]
      obtain ⟨inst, hinst, hid, ep, hep, heid⟩ := healthy_of_answer hpools hagrees hanswer
      exact ⟨inst, hinst, ep, hep, _, by rw [hanswer, hid, heid]⟩
    · intro id endpointId workload hanswer
      obtain ⟨inst, hinst, rfl, -⟩ := healthy_of_answer hpools hagrees hanswer
      exact hinst.closed

end AllocationServer

end PyMotor.Coordinator
