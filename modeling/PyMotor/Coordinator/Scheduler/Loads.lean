import PyMotor.Coordinator.InstanceManager.Ledger
import PyMotor.Coordinator.Scheduler.Agreement

/-!
# Loads

What holds whatever the loads are is said by `withLoads`: the same instances with other loads. The load
of an instance is the sum of the loads of its endpoints, which is what every update keeps up.
-/

namespace PyMotor.Coordinator

/-- The load of every endpoint, by its instance, pod and key. -/
abbrev Loads := InstanceId → String → EndpointId → ℚ≥0

def Endpoint.withLoad (ep : Endpoint) (load : ℚ≥0) : Endpoint := { ep with workload := ⟨load⟩ }

namespace Instance

variable {inst : Instance} {loads : String → EndpointId → ℚ≥0} {ep : Endpoint} {weight : ℚ}

/-- The endpoints get their loads, and the instance their sum. -/
def withLoads (inst : Instance) (loads : String → EndpointId → ℚ≥0) : Instance :=
  let inst := { inst with
    endpoints := inst.endpoints.mapVal fun pod eps => eps.mapVal fun key ep =>
      ep.withLoad (loads pod key) }
  { inst with gatheredWorkload := ⟨inst.totalLoad⟩ }

theorem places_withLoads (inst : Instance) (loads : String → EndpointId → ℚ≥0) :
    (inst.withLoads loads).places =
      inst.places.map fun p => (p.1, p.2.withLoad (loads p.1.1 p.1.2)) := by
  unfold places withLoads Dict.mapVal
  simp only [List.flatMap_map, List.map_flatMap, List.map_map, Function.comp_def]

theorem allEndpoints_withLoads (inst : Instance) (loads : String → EndpointId → ℚ≥0) :
    (inst.withLoads loads).allEndpoints =
      inst.places.map fun p => p.2.withLoad (loads p.1.1 p.1.2) := by
  rw [allEndpoints_eq_places, places_withLoads, List.map_map]
  rfl

theorem mem_getAllEndpoints_withLoads : ep ∈ (inst.withLoads loads).getAllEndpoints ↔
    ∃ p ∈ inst.places, inst.isRoutable p.2 = true ∧ ep = p.2.withLoad (loads p.1.1 p.1.2) := by
  unfold getAllEndpoints
  rw [List.mem_filter, allEndpoints_withLoads, List.mem_map]
  constructor
  · rintro ⟨⟨p, hp, rfl⟩, hroutable⟩
    exact ⟨p, hp, hroutable, rfl⟩
  · rintro ⟨p, hp, hroutable, rfl⟩
    exact ⟨⟨p, hp, rfl⟩, hroutable⟩

theorem length_getAllEndpoints_withLoads :
    (inst.withLoads loads).getAllEndpoints.length = inst.getAllEndpoints.length := by
  unfold getAllEndpoints
  rw [allEndpoints_withLoads, allEndpoints_eq_places, List.filter_map, List.filter_map, List.length_map,
    List.length_map]
  rfl

theorem length_allEndpoints_withLoads :
    (inst.withLoads loads).allEndpoints.length = inst.allEndpoints.length := by
  rw [allEndpoints_withLoads, allEndpoints_eq_places, List.length_map, List.length_map]

theorem namesEndpoints_withLoads : (inst.withLoads loads).NamesEndpoints ↔ inst.NamesEndpoints := by
  unfold NamesEndpoints
  rw [allEndpoints_withLoads, allEndpoints_eq_places, List.pairwise_map, List.pairwise_map]
  exact Iff.rfl

theorem totalLoad_withLoads : (inst.withLoads loads).totalLoad =
    (inst.places.map fun p => (loads p.1.1 p.1.2 : ℚ)).sum := by
  unfold totalLoad
  rw [allEndpoints_withLoads, List.map_map]
  rfl

theorem gathered_withLoads : (inst.withLoads loads).gatheredWorkload.activeTokens =
    (inst.places.map fun p => (loads p.1.1 p.1.2 : ℚ)).sum :=
  totalLoad_withLoads

theorem le_gathered {p : (String × EndpointId) × Endpoint} (h : p ∈ inst.places) :
    (loads p.1.1 p.1.2 : ℚ) ≤ (inst.withLoads loads).gatheredWorkload.activeTokens := by
  rw [gathered_withLoads]
  refine List.single_le_sum ?_ _ (List.mem_map_of_mem h)
  intro x hx
  obtain ⟨q, -, rfl⟩ := List.mem_map.mp hx
  exact NNRat.coe_nonneg _

theorem gathered_le {m : ℚ} (h : ∀ p ∈ inst.places, (loads p.1.1 p.1.2 : ℚ) ≤ m) :
    (inst.withLoads loads).gatheredWorkload.activeTokens ≤ inst.places.length * m := by
  rw [gathered_withLoads]
  have hsum := List.sum_le_card_nsmul (inst.places.map fun p => (loads p.1.1 p.1.2 : ℚ)) m
    (List.forall_mem_map.mpr h)
  rwa [List.length_map, nsmul_eq_mul] at hsum

end Instance

/-! ## The loads of a scheduler -/

namespace InstanceManager

def withLoads (m : InstanceManager) (loads : Loads) : InstanceManager :=
  { m with
    availablePool := m.availablePool.mapVal fun id inst => inst.withLoads (loads id)
    rolePools := fun role => (m.rolePools role).mapVal fun id inst => inst.withLoads (loads id) }

theorem Filed.withLoads {m : InstanceManager} (h : m.Filed) (loads : Loads) : (m.withLoads loads).Filed := by
  have hpool : ∀ {role id inst}, ((m.withLoads loads).rolePools role).get? id = some inst →
      ∃ inst', (m.rolePools role).get? id = some inst' ∧ inst'.withLoads (loads id) = inst := by
    intro role id inst hget
    rw [InstanceManager.withLoads, Dict.get?_mapVal] at hget
    exact Option.map_eq_some_iff.mp hget
  refine ⟨fun role id inst hget => ?_, fun role id inst hget => ?_,
    fun role role' id inst inst' hget hget' => ?_⟩
  · obtain ⟨inst', hinst', rfl⟩ := hpool hget
    exact h.keyed role id inst' hinst'
  · obtain ⟨inst', hinst', rfl⟩ := hpool hget
    exact h.known role id inst' hinst'
  · obtain ⟨old, hold, -⟩ := hpool hget
    obtain ⟨old', hold', -⟩ := hpool hget'
    exact h.disjoint role role' id old old' hold hold'

end InstanceManager

namespace AllocationServer

variable {s : AllocationServer} {loads : Loads} {role : PDRole} {required : Option String}
  {inst : Instance}

def withLoads (s : AllocationServer) (loads : Loads) : AllocationServer :=
  { s with manager := s.manager.withLoads loads }

theorem matchesEngineType_withLoads (inst : Instance) (load : String → EndpointId → ℚ≥0) :
    matchesEngineType (inst.withLoads load) required = matchesEngineType inst required := by
  have htext : (inst.withLoads load).engineTypeText = inst.engineTypeText := by
    simp only [Instance.engineTypeText, Instance.withLoads]
  unfold matchesEngineType
  rw [htext]

theorem mem_instancesFor_withLoads (hfiled : s.manager.Filed) :
    inst ∈ (s.withLoads loads).instancesFor role required ↔
      ∃ inst' ∈ s.instancesFor role required, inst = inst'.withLoads (loads inst'.id) := by
  rw [mem_instancesFor (hfiled.withLoads loads)]
  simp only [mem_instancesFor hfiled]
  rw [withLoads, InstanceManager.withLoads, Dict.get?_mapVal, Option.map_eq_some_iff]
  constructor
  · rintro ⟨⟨inst', hget, heq⟩, hengine⟩
    have hid : inst'.id = inst.id := hfiled.keyed role inst.id inst' hget
    rw [← heq, matchesEngineType_withLoads] at hengine
    exact ⟨inst', ⟨by rw [hid]; exact hget, hengine⟩, by rw [hid, heq]⟩
  · rintro ⟨inst', ⟨hget, hengine⟩, rfl⟩
    exact ⟨⟨inst', hget, rfl⟩, (matchesEngineType_withLoads _ _).trans hengine⟩

theorem eligible_withLoads (hfiled : s.manager.Filed) :
    (s.withLoads loads).Eligible role required inst ↔
      ∃ inst', s.Eligible role required inst' ∧ inst = inst'.withLoads (loads inst'.id) := by
  have hendpoints : ∀ inst' : Instance, (inst'.withLoads (loads inst'.id)).getAllEndpoints ≠ [] ↔
      inst'.getAllEndpoints ≠ [] := by
    intro inst'
    rw [← List.length_pos_iff, ← List.length_pos_iff, Instance.length_getAllEndpoints_withLoads]
  constructor
  · rintro ⟨hlisted, hclosed, hne⟩
    obtain ⟨inst', hlisted', rfl⟩ := (mem_instancesFor_withLoads hfiled).mp hlisted
    exact ⟨inst', ⟨hlisted', hclosed, (hendpoints inst').mp hne⟩, rfl⟩
  · rintro ⟨inst', ⟨hlisted, hclosed, hne⟩, rfl⟩
    exact ⟨(mem_instancesFor_withLoads hfiled).mpr ⟨inst', hlisted, rfl⟩, hclosed,
      (hendpoints inst').mpr hne⟩

end AllocationServer

theorem SchedulerConfig.instanceScoreWeight_nonneg (cfg : SchedulerConfig) : 0 ≤ cfg.instanceScoreWeight :=
  le_max_left _ _

theorem SchedulerConfig.loadWeight_nonneg (cfg : SchedulerConfig) : 0 ≤ cfg.loadWeight :=
  le_max_left _ _

theorem SchedulerConfig.overlapCredit_nonneg (cfg : SchedulerConfig) : 0 ≤ cfg.overlapCredit :=
  le_max_left _ _

theorem SchedulerConfig.prefillLoadScale_nonneg (cfg : SchedulerConfig) : 0 ≤ cfg.prefillLoadScale :=
  le_max_left _ _

/-! ## When the loads weigh alike -/

namespace AllocationServer

variable {s : AllocationServer} {loads : Loads} {role : PDRole} {required : Option String}
  {inst inst' : Instance} {ep : Endpoint}

theorem calculateEndpointScore_eq (inst : Instance) (ep : Endpoint) (cfg : SchedulerConfig) :
    LoadBalancePolicy.calculateEndpointScore inst ep cfg.instanceScoreWeight =
      ep.workload.activeTokens + cfg.instanceScoreWeight *
        (inst.gatheredWorkload.activeTokens / (max 1 inst.getAllEndpoints.length : ℕ)) := by
  unfold LoadBalancePolicy.calculateEndpointScore Workload.calculateWorkloadScore
  simp only
  split
  · next h =>
    rw [le_antisymm h cfg.instanceScoreWeight_nonneg, zero_mul, add_zero]
  · push_cast
    rfl

/-- Worker and scheduler order the endpoints alike, whatever the loads: the scheduler ranks by load, or
does not count it or the load of the instance, or there is one instance, or there is one endpoint in
each and nothing else to compare. -/
def WeighsAlike (s : AllocationServer) (role : PDRole) (required : Option String) : Prop :=
  s.config.schedulerType = .loadBalance ∨ role ∉ kvaSelectRoles ∨ s.config.loadWeight = 0 ∨
    s.config.instanceScoreWeight = 0 ∨
    (∀ inst inst', s.Eligible role required inst → s.Eligible role required inst' → inst = inst') ∨
    ((∀ inst, s.Eligible role required inst → inst.allEndpoints.length = 1) ∧
      (s.config.prefillLoadScale = 0 ∨ s.config.overlapCredit = 0))

theorem gathered_of_single (hlength : inst.allEndpoints.length = 1) {loads : String → EndpointId → ℚ≥0}
    (hep : ep ∈ (inst.withLoads loads).getAllEndpoints) :
    (inst.withLoads loads).gatheredWorkload.activeTokens = ep.workload.activeTokens ∧
      (inst.withLoads loads).getAllEndpoints.length = 1 := by
  have hall : (inst.withLoads loads).allEndpoints.length = 1 := by
    rw [Instance.length_allEndpoints_withLoads, hlength]
  obtain ⟨only, honly⟩ := List.length_eq_one_iff.mp hall
  have hmem := (List.mem_filter.mp hep).1
  rw [honly, List.mem_singleton] at hmem
  subst hmem
  refine ⟨?_, ?_⟩
  · have htotal : (inst.withLoads loads).gatheredWorkload.activeTokens =
        (inst.withLoads loads).totalLoad := rfl
    rw [htotal, Instance.totalLoad, honly, List.map_singleton, List.sum_singleton]
  · have hle : (inst.withLoads loads).getAllEndpoints.length ≤ 1 := by
      rw [← hall]
      exact List.length_filter_le _ _
    exact le_antisymm hle (List.length_pos_of_mem hep)

theorem serverCost_eq (s : AllocationServer) (cost : ℚ) (inst : Instance) (ep : Endpoint) :
    s.serverCost cost inst ep = s.workerCost cost ep + s.config.loadWeight *
      (s.config.instanceScoreWeight *
        (inst.gatheredWorkload.activeTokens / (max 1 inst.getAllEndpoints.length : ℕ))) := by
  unfold serverCost workerCost Workload.calculateWorkloadScore
  rw [calculateEndpointScore_eq]
  ring

/-- **What weighs alike ranks alike.** -/
theorem ranksAlike_of_weighsAlike (hfiled : s.manager.Filed) (h : s.WeighsAlike role required)
    (hst : s.config.schedulerType = .kvCacheAffinity) (hrole : role ∈ kvaSelectRoles) (loads : Loads)
    (tenant : Tenant) (isl : ℕ) : (s.withLoads loads).RanksAlike role required tenant isl := by
  intro inst ep inst' ep' he he' hep hep' hworker
  obtain ⟨old, hold, rfl⟩ := (eligible_withLoads hfiled).mp he
  obtain ⟨old', hold', rfl⟩ := (eligible_withLoads hfiled).mp he'
  rw [serverCost_eq, serverCost_eq]
  have hcfg : (s.withLoads loads).config = s.config := rfl
  rw [hcfg]
  rcases h with hlb | hnot | hload | hweight | hone | ⟨hsingle, hcost⟩
  · rw [hst] at hlb
    cases hlb
  · exact absurd hrole hnot
  · rw [hload, zero_mul, zero_mul, add_zero, add_zero]
    exact hworker
  · rw [hweight, zero_mul, zero_mul, mul_zero, add_zero, add_zero]
    exact hworker
  · rw [hone old old' hold hold'] at hworker ⊢
    exact add_le_add_left hworker _
  · -- the cost of a prompt is the same everywhere
    obtain ⟨hgathered, hlength⟩ := gathered_of_single (hsingle old hold) hep
    obtain ⟨hgathered', hlength'⟩ := gathered_of_single (hsingle old' hold') hep'
    have hprefill : s.config.prefillLoadScale * KvCacheAffinityPolicy.tenantCost s.config tenant isl
        (old.withLoads (loads old.id)) ep.id = s.config.prefillLoadScale *
          KvCacheAffinityPolicy.tenantCost s.config tenant isl (old'.withLoads (loads old'.id)) ep'.id := by
      rcases hcost with hscale | hcredit
      · rw [hscale, zero_mul, zero_mul]
      · unfold KvCacheAffinityPolicy.tenantCost KvCacheAffinityPolicy.prefillCost
        rw [hcredit, zero_mul, zero_mul]
    unfold workerCost Workload.calculateWorkloadScore at hworker ⊢
    rw [hcfg, hprefill] at hworker
    rw [hcfg, hprefill, hgathered, hgathered', hlength, hlength']
    have hload := le_of_add_le_add_left hworker
    have hshare : s.config.loadWeight * (s.config.instanceScoreWeight *
        (ep.workload.activeTokens / ((max 1 1 : ℕ) : ℚ))) ≤ s.config.loadWeight *
          (s.config.instanceScoreWeight * (ep'.workload.activeTokens / ((max 1 1 : ℕ) : ℚ))) := by
      have h := mul_le_mul_of_nonneg_left hload s.config.instanceScoreWeight_nonneg
      simp only [max_self, Nat.cast_one, div_one]
      linarith
    exact add_le_add hworker hshare

/-! ## Agreement -/

/-- Whatever the loads and the request, a worker that has seen the loads proposes what the scheduler
would not think worse. -/
def PathsAgree (s : AllocationServer) (role : PDRole) (required : Option String) : Prop :=
  ∀ (loads : Loads) (c : AllocationClient) (req : RequestInfo) (r : AllocateOnlyRequest),
    req.role = role → req.requiredEngineType = required → c.Agrees (s.withLoads loads) role →
    (c.propose ((s.withLoads loads).manager.rolePools role).values req).1 = some r →
    (s.withLoads loads).FastPathAgrees r

theorem pathsAgree_of_weighsAlike (hfiled : s.manager.Filed) (hpolicy : s.config.WeighsLoads)
    (hnamed : ∀ inst, s.Eligible role (requiredEngine required) inst → inst.NamesEndpoints)
    (halike : s.WeighsAlike role (requiredEngine required)) : s.PathsAgree role required := by
  rintro loads c req r rfl rfl hagrees hpropose
  refine fastPathAgrees_of_propose (hfiled.withLoads loads) hpolicy ?_ ?_ hagrees hpropose
  · intro inst he
    obtain ⟨old, hold, rfl⟩ := (eligible_withLoads hfiled).mp he
    exact Instance.namesEndpoints_withLoads.mpr (hnamed old hold)
  · intro hst hrole tenant
    exact ranksAlike_of_weighsAlike hfiled halike hst hrole loads tenant _

end AllocationServer

end PyMotor.Coordinator
