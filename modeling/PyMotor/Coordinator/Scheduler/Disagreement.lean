import Mathlib
import PyMotor.Coordinator.Scheduler.Loads

/-!
# Where the two paths part

The conditions of `pathsAgree_of_weighsAlike` are needed. Each of them fails by loads that `favour` one
endpoint: it bears something else than the rest of its instance, and this something else than the other
instances. What the worker then prefers is proposed by `exists_proposed_byLoad` and
`exists_proposed_byAffinity`, and the scheduler thinks it worse.
-/

namespace PyMotor.Coordinator

namespace AllocationServer

variable {s : AllocationServer} {role : PDRole} {required : Option String}

/-- A worker that has seen what the scheduler has. -/
def workerOf (s : AllocationServer) : AllocationClient where
  config := s.config
  clientIndex := 0
  clientCount := 1
  cache :=
    { instanceCache := fun role => sortById (s.manager.rolePools role).values
      instanceMap := s.manager.rolePools }
  instanceRrCounters := fun _ => 0
  endpointRrCounters := ∅
  cbBlockedInstances := s.openCircuits

theorem workerOf_agrees (s : AllocationServer) (role : PDRole) : s.workerOf.Agrees s role := ⟨rfl, rfl, rfl⟩

/-- A prompt of a block at least, about which the conductor is asked. -/
def longPrompt (s : AllocationServer) (role : PDRole) (required : Option String)
    (answer : Option Tenant) : RequestInfo where
  role := role
  requiredEngineType := required
  tokenIds := List.replicate (max 1 s.config.blockSize.toNat) 0
  demand := 0
  conductor := fun _ => answer

theorem queryTenant_longPrompt (instances : List Instance) (answer : Option Tenant) (attempt : ℕ) :
    KvCacheAffinityPolicy.queryTenant s.config instances (s.longPrompt role required answer).tokenIds
      ((s.longPrompt role required answer).conductor attempt) = answer := by
  unfold KvCacheAffinityPolicy.queryTenant KvCacheAffinityPolicy.conductorBlockSize longPrompt
  rw [List.length_replicate, if_neg]
  rintro ⟨hpos, hlt⟩
  split at hlt
  · omega
  · omega

/-! ## What is proposed -/

/-- If the conductor does not answer, an endpoint of the least load is proposed. -/
theorem exists_proposed_byLoad (hpolicy : s.config.WeighsLoads) {e : EndpointCandidate}
    (he : e ∈ s.takeable role (requiredEngine required)) :
    ∃ first r, (s.workerOf.propose (s.manager.rolePools role).values
        (s.longPrompt role required none)).1 = some r ∧
      first ∈ s.takeable role (requiredEngine required) ∧
      (∀ e' ∈ s.takeable role (requiredEngine required), first.score ≤ e'.score) ∧
      r.instanceId = first.inst.id ∧ r.endpointId = first.endpoint.id ∧ r.role = role ∧
      r.requiredEngineType = requiredEngine required ∧ r.candidatePolicy = some .loadBalance ∧
      r.affinityCandidates = [] := by
  have hagrees : s.workerOf.Agrees s (s.longPrompt role required none).role := s.workerOf_agrees role
  have hne : s.cachedFor (s.longPrompt role required none) ≠ [] :=
    List.ne_nil_of_mem ((s.cachedFor_perm _).mem_iff.mpr (mem_takeable.mp he).1)
  rcases AllocationClient.selectFromList_cases (c := s.workerOf) hne (s.longPrompt role required none) 0
    (s.workerOf.requestTopK role) with ⟨hst, -⟩ | ⟨ranked, debug, hranking, -⟩ | ⟨-, -, heq⟩
  · have hst' : s.config.schedulerType = .roundRobin := hst
    rcases hpolicy with hlb | ⟨hkv, -⟩
    · rw [hlb] at hst'
      cases hst'
    · rw [hkv] at hst'
      cases hst'
  · -- there is no tenant to rank by
    unfold AllocationClient.affinityRanking at hranking
    split at hranking
    · obtain ⟨tenant, hquery, -⟩ :=
        KvCacheAffinityPolicy.selectEndpointCandidatesFromList_eq_some.mp hranking
      have hnone : s.workerOf.config = s.config := rfl
      rw [hnone, queryTenant_longPrompt] at hquery
      cases hquery
    · cases hranking
  · rcases AllocationClient.selectByLoad_cases (c := s.workerOf)
        (s.cachedFor (s.longPrompt role required none)) role (s.workerOf.requestTopK role) with
      ⟨first, t, hload, heq'⟩ | ⟨hload, -⟩
    · obtain ⟨hmem, hleast⟩ := AllocationClient.selectByLoadBalance_first hagrees hload
      have hpropose := AllocationClient.propose_of_first hagrees (heq.trans heq') rfl
      have haffinity : (s.workerOf.allocateOnlyRequest (s.longPrompt role required none)
          ⟨first :: t, .loadBalance, none⟩ first).affinityCandidates = [] :=
        AllocationClient.affinityCandidates_of_not_global
          (AllocationClient.globalAffinity_of_policy (fun h => by cases h))
      have hrequired := AllocationClient.requiredEngineType_allocateOnlyRequest s.workerOf
        (s.longPrompt role required none) ⟨first :: t, .loadBalance, none⟩ first
      exact ⟨first, _, congrArg Prod.fst hpropose, hmem, hleast, rfl, rfl, rfl, hrequired, rfl, haffinity⟩
    · exact absurd hload (AllocationClient.selectByLoadBalance_ne_nil hagrees _ he)

/-- The number of tokens of the prompt. -/
def longIsl (s : AllocationServer) : ℕ := max 1 s.config.blockSize.toNat

/-- If the conductor answers, an endpoint of the least cost is proposed. -/
theorem exists_proposed_byAffinity (hst : s.config.schedulerType = .kvCacheAffinity)
    (hmode : s.config.kvAffinity.mode = .unified) (hrole : role ∈ kvaSelectRoles) {tenant : Tenant}
    {x : LoadCandidate}
    (hx : x ∈ s.scored (s.longPrompt role required (some tenant)) tenant s.longIsl) :
    ∃ x ∈ s.scored (s.longPrompt role required (some tenant)) tenant s.longIsl,
      (∀ y ∈ s.scored (s.longPrompt role required (some tenant)) tenant s.longIsl,
        KvCacheAffinityPolicy.unifiedScore s.config x ≤ KvCacheAffinityPolicy.unifiedScore s.config y) ∧
      ∃ ranked first, first.inst = x.inst ∧ first.endpoint = x.endpoint ∧
        (s.workerOf.propose (s.manager.rolePools role).values
          (s.longPrompt role required (some tenant))).1 =
            some (s.unifiedRequest s.workerOf (s.longPrompt role required (some tenant)) tenant
              s.longIsl ranked first) := by
  have hagrees : s.workerOf.Agrees s (s.longPrompt role required (some tenant)).role :=
    s.workerOf_agrees role
  have hlength : (s.longPrompt role required (some tenant)).tokenIds.length = s.longIsl :=
    List.length_replicate
  have hne : s.cachedFor (s.longPrompt role required (some tenant)) ≠ [] :=
    List.ne_nil_of_mem (KvCacheAffinityPolicy.mem_collectLoadCandidates hx).1
  have hranking : s.workerOf.affinityRanking (s.cachedFor (s.longPrompt role required (some tenant)))
      (s.longPrompt role required (some tenant)) 0 (s.workerOf.requestTopK role) =
        some (KvCacheAffinityPolicy.rankByAffinity s.config
          (s.scored (s.longPrompt role required (some tenant)) tenant s.longIsl)
          (max 1 (s.workerOf.requestTopK role))) := by
    unfold AllocationClient.affinityRanking
    have hpolicy : s.workerOf.config.schedulerType = .kvCacheAffinity ∧
        (s.longPrompt role required (some tenant)).role ∈ kvaSelectRoles := ⟨hst, hrole⟩
    rw [if_pos hpolicy, KvCacheAffinityPolicy.selectEndpointCandidatesFromList_eq_some]
    exact ⟨tenant, queryTenant_longPrompt _ _ 0, by rw [hlength]; exact List.ne_nil_of_mem hx,
      by rw [hlength]; rfl⟩
  rw [KvCacheAffinityPolicy.rankByAffinity_unified hmode] at hranking
  rcases AllocationClient.selectFromList_cases (c := s.workerOf) hne
    (s.longPrompt role required (some tenant)) 0 (s.workerOf.requestTopK role) with
    ⟨hrr, -⟩ | ⟨ranked, debug, hranking', heq⟩ | ⟨-, hnone, -⟩
  · have hrr' : s.config.schedulerType = .roundRobin := hrr
    rw [hst] at hrr'
    cases hrr'
  · rw [hranking, Option.some.injEq, Prod.mk.injEq] at hranking'
    obtain ⟨rfl, rfl⟩ := hranking'
    obtain ⟨first, t, hfirst⟩ := KvCacheAffinityPolicy.exists_selectWithLoad_cons s.config
      (List.ne_nil_of_mem hx) (max 1 (s.workerOf.requestTopK role))
    obtain ⟨y, hy, hinst, hendpoint, hleast⟩ := KvCacheAffinityPolicy.selectWithLoad_first hfirst
    have hpropose := AllocationClient.propose_of_first hagrees heq hfirst
    exact ⟨y, hy, hleast, _, first, hinst, hendpoint, congrArg Prod.fst hpropose⟩
  · rw [hranking] at hnone
    cases hnone

end AllocationServer

/-! ## Tenants -/

theorem conductorInstanceId_injective {inst inst' : Instance}
    (h : conductorInstanceId inst = conductorInstanceId inst') : inst.id = inst'.id := by
  have htoString : ∀ a b : Int, toString a = toString b → a = b := fun a b h => Int.repr_inj.mp h
  have hkinds : ∀ x y : String, "vllm-union-" ++ x ≠ "vllm-prefill-" ++ y := by
    intro x y heq
    have hlist := congrArg String.toList heq
    rw [String.toList_append, String.toList_append] at hlist
    have hchar := congrArg (fun l : List Char => l[5]?) hlist
    rw [List.getElem?_append_left (by decide), List.getElem?_append_left (by decide)] at hchar
    revert hchar
    decide
  unfold conductorInstanceId at h
  split at h
  · split at h
    · exact htoString _ _ (String.append_right_inj _ |>.mp h)
    · exact absurd h (hkinds _ _)
  · split at h
    · exact absurd h.symm (hkinds _ _)
    · exact htoString _ _ (String.append_right_inj _ |>.mp h)

namespace KvCacheAffinityPolicy

variable {cfg : SchedulerConfig} {instances : List Instance} {inst : Instance} {isl : ℕ}
  {id : EndpointId}

theorem prefillCost_empty : prefillCost cfg ∅ isl id = isl := by
  have hmatched : matchedTokens cfg ∅ isl id = 0 := by
    unfold matchedTokens
    split
    · exact min_eq_left (Int.natCast_nonneg isl)
    · rfl
  unfold prefillCost
  rw [hmatched, Int.cast_zero, mul_zero, sub_zero]
  exact max_eq_right (Nat.cast_nonneg isl)

theorem getD_noMatches (key : String) : ((noMatches instances).get? key).getD ∅ = ∅ := by
  cases h : (noMatches instances).get? key with
  | none => rfl
  | some dpMap =>
    rcases Dict.of_get?_foldl_insert instances ∅ h with hempty | ⟨inst, -, -, rfl⟩
    · cases hempty
    · rfl

theorem contains_noMatches (h : inst ∈ instances) :
    (noMatches instances).contains (conductorInstanceId inst) = true := by
  unfold noMatches
  rw [Dict.contains_foldl_insert]
  exact Or.inr (List.mem_map_of_mem h)

theorem tenantCost_noMatches : tenantCost cfg (noMatches instances) isl inst id = isl := by
  unfold tenantCost
  rw [getD_noMatches, prefillCost_empty]

/-- The prompt is cached on one endpoint. -/
def oneMatch (instances : List Instance) (inst : Instance) (id : EndpointId) (isl : ℕ) : Tenant :=
  (noMatches instances).insert (conductorInstanceId inst)
    ((∅ : DpMap).insert (toString id) (.tokens isl))

theorem contains_oneMatch {inst' : Instance} (h : inst' ∈ instances) :
    (oneMatch instances inst id isl).contains (conductorInstanceId inst') = true := by
  unfold oneMatch
  exact Dict.contains_insert.mpr (Or.inr (contains_noMatches h))

theorem tenantCost_oneMatch (hisl : 0 < isl) :
    tenantCost cfg (oneMatch instances inst id isl) isl inst id =
      max 0 (isl - cfg.overlapCredit * isl) := by
  unfold tenantCost oneMatch prefillCost matchedTokens
  rw [Dict.get?_insert_self, Option.getD_some, Dict.get?_insert_self, Option.getD_some, if_pos hisl]
  unfold weightedMatchedTokens
  rw [min_self, Int.cast_natCast]

theorem tenantCost_oneMatch_of_ne {inst' : Instance} {id' : EndpointId} (hne : inst'.id ≠ inst.id) :
    tenantCost cfg (oneMatch instances inst id isl) isl inst' id' = isl := by
  have hkey : conductorInstanceId inst' ≠ conductorInstanceId inst :=
    fun h => hne (conductorInstanceId_injective h)
  unfold tenantCost oneMatch
  rw [Dict.get?_insert_ne _ _ hkey.symm, getD_noMatches, prefillCost_empty]

theorem tenantCost_nonneg (cfg : SchedulerConfig) (tenant : Tenant) (isl : ℕ) (inst : Instance)
    (id : EndpointId) : 0 ≤ tenantCost cfg tenant isl inst id :=
  le_max_left _ _

end KvCacheAffinityPolicy

/-! ## Loads that favour one endpoint -/

/-- An endpoint bears `x`, the rest of its instance `y`, and the others bear `z`. -/
def favour (id : InstanceId) (k : String × EndpointId) (x y z : ℚ≥0) : Loads := fun id' pod key =>
  if id' = id then (if (pod, key) = k then x else y) else z

theorem favour_self (id : InstanceId) (k : String × EndpointId) (x y z : ℚ≥0) :
    favour id k x y z id k.1 k.2 = x := by
  simp [favour]

theorem favour_rest {id : InstanceId} {k k' : String × EndpointId} (x y z : ℚ≥0) (h : k' ≠ k) :
    favour id k x y z id k'.1 k'.2 = y := by
  simp [favour, h]

theorem favour_other {id id' : InstanceId} {k k' : String × EndpointId} (x y z : ℚ≥0) (h : id' ≠ id) :
    favour id k x y z id' k'.1 k'.2 = z := by
  simp [favour, h]

namespace AllocationServer

variable {s : AllocationServer} {role : PDRole} {required : Option String} {inst inst' : Instance}
  {loads : Loads} {tenant : Tenant} {p p' : (String × EndpointId) × Endpoint}

/-- What the mean load of an instance adds to the scores of its endpoints. -/
def pressure (s : AllocationServer) (loads : Loads) (inst : Instance) : ℚ :=
  s.config.instanceScoreWeight * ((inst.withLoads (loads inst.id)).gatheredWorkload.activeTokens /
    (max 1 inst.getAllEndpoints.length : ℕ))

theorem one_le_count (inst : Instance) : (1 : ℚ) ≤ (max 1 inst.getAllEndpoints.length : ℕ) :=
  Nat.one_le_cast.mpr (Nat.le_max_left 1 _)

theorem pressure_le {m : ℚ} (hm : 0 ≤ m)
    (h : ∀ p ∈ inst.places, (loads inst.id p.1.1 p.1.2 : ℚ) ≤ m) :
    s.pressure loads inst ≤ s.config.instanceScoreWeight * (inst.places.length * m) := by
  have hsum := Instance.gathered_le h
  have htotal : 0 ≤ (inst.places.length : ℚ) * m := mul_nonneg (Nat.cast_nonneg _) hm
  refine mul_le_mul_of_nonneg_left ?_ s.config.instanceScoreWeight_nonneg
  rw [div_le_iff₀ (lt_of_lt_of_le one_pos (one_le_count inst))]
  exact hsum.trans (le_mul_of_one_le_right htotal (one_le_count inst))

theorem le_pressure (s : AllocationServer) (loads : Loads) (h : p ∈ inst.places) :
    s.config.instanceScoreWeight * ((loads inst.id p.1.1 p.1.2 : ℚ) /
      (max 1 inst.getAllEndpoints.length : ℕ)) ≤ s.pressure loads inst := by
  refine mul_le_mul_of_nonneg_left ?_ s.config.instanceScoreWeight_nonneg
  exact div_le_div_of_nonneg_right (Instance.le_gathered h) (Nat.cast_nonneg _)

theorem score_withLoads (s : AllocationServer) (loads : Loads) (inst : Instance)
    (p : (String × EndpointId) × Endpoint) : LoadBalancePolicy.calculateEndpointScore (inst.withLoads (loads inst.id))
    (p.2.withLoad (loads inst.id p.1.1 p.1.2)) (s.withLoads loads).config.instanceScoreWeight =
      loads inst.id p.1.1 p.1.2 + s.pressure loads inst := by
  rw [calculateEndpointScore_eq, Instance.length_getAllEndpoints_withLoads]
  rfl

theorem place_eq_of_key (hp : p ∈ inst.places) (hp' : p' ∈ inst.places) (h : p.1 = p'.1) : p = p' :=
  List.inj_on_of_nodup_map inst.nodup_places hp hp' h

theorem getElem_key_ne {i j : ℕ} (hi : i < inst.places.length) (hj : j < inst.places.length) (hne : i ≠ j) :
    inst.places[i].1 ≠ inst.places[j].1 := by
  intro heq
  have hplace := place_eq_of_key (List.getElem_mem hi) (List.getElem_mem hj) heq
  exact hne ((List.Nodup.of_map _ inst.nodup_places).getElem_inj_iff.mp hplace)

theorem exists_other_place (hp : p ∈ inst.places) (hseveral : inst.allEndpoints.length ≠ 1) :
    ∃ p' ∈ inst.places, p'.1 ≠ p.1 := by
  by_contra hall
  push Not at hall
  apply hseveral
  rw [Instance.allEndpoints_eq_places, List.length_map]
  have hsub : inst.places.length ≤ 1 := by
    by_contra hlt
    have h0 := hall _ (List.getElem_mem (show 0 < inst.places.length by omega))
    have h1 := hall _ (List.getElem_mem (show 1 < inst.places.length by omega))
    exact getElem_key_ne (by omega) (by omega) Nat.zero_ne_one (h0.trans h1.symm)
  exact le_antisymm hsub (List.length_pos_of_mem hp)

/-- Who looks for the id of an endpoint that an earlier one has does not find the later one. -/
theorem exists_found_earlier (loads : Loads) {i j : ℕ} (hi : i < inst.places.length)
    (hj : j < inst.places.length) (hij : i < j) (hid : inst.places[i].2.id = inst.places[j].2.id) :
    ∃ k, ∃ hk : k < inst.places.length, k ≠ j ∧
      (inst.withLoads (loads inst.id)).allEndpoints.find?
        (fun ep => decide (ep.id = inst.places[j].2.id)) =
          some (inst.places[k].2.withLoad (loads inst.id inst.places[k].1.1 inst.places[k].1.2)) := by
  rw [Instance.allEndpoints_withLoads, List.find?_map]
  cases hplace : inst.places.find? ((fun ep : Endpoint => decide (ep.id = inst.places[j].2.id)) ∘
      fun p => p.2.withLoad (loads inst.id p.1.1 p.1.2)) with
  | none =>
    have hnone := List.find?_eq_none.mp hplace _ (List.getElem_mem hi)
    exact absurd (decide_eq_true hid) hnone
  | some q =>
    obtain ⟨-, k, hk, hq, hbefore⟩ := List.find?_eq_some_iff_getElem.mp hplace
    have hkj : k ≠ j := by
      rintro rfl
      have h := hbefore i hij
      rw [Function.comp_apply, Bool.not_eq_true', decide_eq_false_iff_not] at h
      exact h hid
    exact ⟨k, hk, hkj, by rw [Option.map_some, ← hq]⟩

/-- The mean load of an instance that is not the favoured one. -/
theorem pressure_favour_other (s : AllocationServer) {id : InstanceId} (k : String × EndpointId)
    (x y z : ℚ≥0) (hid : inst.id ≠ id) :
    s.pressure (favour id k x y z) inst ≤ s.config.instanceScoreWeight * (inst.places.length * z) := by
  refine pressure_le (NNRat.coe_nonneg z) fun q _ => ?_
  rw [favour_other _ _ _ hid]

theorem mem_takeable_withLoads (hfiled : s.manager.Filed) {e : EndpointCandidate} :
    e ∈ (s.withLoads loads).takeable role required ↔
      ∃ inst ∈ s.instancesFor role required, inst.id ∉ s.openCircuits ∧
        ∃ p ∈ inst.places, inst.isRoutable p.2 = true ∧
          e = ⟨inst.withLoads (loads inst.id), p.2.withLoad (loads inst.id p.1.1 p.1.2),
            loads inst.id p.1.1 p.1.2 + s.pressure loads inst⟩ := by
  rw [mem_takeable, mem_instancesFor_withLoads hfiled]
  constructor
  · rintro ⟨⟨inst, hinst, heq⟩, hopen, hep, hscore⟩
    rw [heq] at hep hopen hscore
    obtain ⟨p, hp, hroutable, hpe⟩ := Instance.mem_getAllEndpoints_withLoads.mp hep
    rw [hpe, score_withLoads] at hscore
    refine ⟨inst, hinst, hopen, p, hp, hroutable, ?_⟩
    rw [← heq, ← hpe, ← hscore]
  · rintro ⟨inst, hinst, hopen, p, hp, hroutable, rfl⟩
    exact ⟨⟨inst, hinst, rfl⟩, hopen,
      Instance.mem_getAllEndpoints_withLoads.mpr ⟨p, hp, hroutable, rfl⟩, (score_withLoads s loads inst p).symm⟩

/-! ### Endpoints with one id -/

/-- If an endpoint has the id of a later one, then the later one is proposed when it bears the least, and
the earlier one is taken. -/
theorem namesEndpoints_of_pathsAgree (hfiled : s.manager.Filed) (hpolicy : s.config.WeighsLoads)
    (h : s.PathsAgree role required) (he : s.Eligible role (requiredEngine required) inst) :
    inst.NamesEndpoints := by
  by_contra hnamed
  unfold Instance.NamesEndpoints at hnamed
  rw [Instance.allEndpoints_eq_places, List.pairwise_map, List.pairwise_iff_getElem] at hnamed
  push Not at hnamed
  obtain ⟨i, j, hi, hj, hij, hroutable, hid⟩ := hnamed
  -- the others bear more than the pressure of this one
  have hmax : 0 ≤ s.config.instanceScoreWeight * (inst.places.length * 1) + 1 :=
    add_nonneg (mul_nonneg s.config.instanceScoreWeight_nonneg
      (mul_nonneg (Nat.cast_nonneg _) zero_le_one)) zero_le_one
  obtain ⟨loads, hloads⟩ : ∃ loads, loads = favour inst.id inst.places[j].1 0 1
      (s.config.instanceScoreWeight * (inst.places.length * 1) + 1).toNNRat := ⟨_, rfl⟩
  have hself : loads inst.id inst.places[j].1.1 inst.places[j].1.2 = 0 := by rw [hloads, favour_self]
  have hrest : ∀ k : String × EndpointId, k ≠ inst.places[j].1 → loads inst.id k.1 k.2 = 1 := by
    intro k hk
    rw [hloads, favour_rest _ _ _ hk]
  have hpressure : s.pressure loads inst ≤
      s.config.instanceScoreWeight * (inst.places.length * 1) := by
    refine pressure_le zero_le_one fun p hp => ?_
    by_cases hk : p.1 = inst.places[j].1
    · rw [hk, hself]
      exact zero_le_one
    · rw [hrest p.1 hk]
      exact le_of_eq NNRat.coe_one
  have htake : (⟨inst.withLoads (loads inst.id), inst.places[j].2.withLoad 0,
      s.pressure loads inst⟩ : EndpointCandidate) ∈
        (s.withLoads loads).takeable role (requiredEngine required) := by
    refine (mem_takeable_withLoads hfiled).mpr
      ⟨inst, he.listed, he.closed, _, List.getElem_mem hj, hroutable, ?_⟩
    rw [hself, NNRat.coe_zero, zero_add]
  obtain ⟨first, r, hpropose, hfirst, hleast, hinst, hendpoint, hrole, hengine, hcandidate,
    haffinity⟩ := exists_proposed_byLoad (s := s.withLoads loads) hpolicy htake
  have hless := hleast _ htake
  obtain ⟨inst', hlisted', hopen', p, hp, -, rfl⟩ := (mem_takeable_withLoads hfiled).mp hfirst
  -- the endpoint that bears nothing is proposed
  have hsame : inst'.id = inst.id := by
    by_contra hne
    have hother : (loads inst'.id p.1.1 p.1.2 : ℚ) =
        s.config.instanceScoreWeight * (inst.places.length * 1) + 1 := by
      rw [hloads, favour_other _ _ _ hne, Rat.coe_toNNRat _ hmax]
    have hpos : 0 ≤ s.pressure loads inst' := by
      have h := le_pressure s loads hp
      exact le_trans (mul_nonneg s.config.instanceScoreWeight_nonneg
        (div_nonneg (NNRat.coe_nonneg _) (Nat.cast_nonneg _))) h
    simp only [hother] at hless
    linarith
  obtain rfl := inst_eq_of_id hfiled hlisted' he.listed hsame
  have hpj : p.1 = inst'.places[j].1 := by
    by_contra hne
    simp only [hrest p.1 hne, NNRat.coe_one] at hless
    linarith
  obtain rfl := place_eq_of_key hp (List.getElem_mem hj) hpj
  -- the scheduler looks for its id and finds an earlier one
  obtain ⟨k, hk, hkj, hfind⟩ := exists_found_earlier loads hi hj hij hid
  have hk1 := hrest _ (getElem_key_ne hk hj hkj)
  rw [hk1] at hfind
  have hfast : (s.withLoads loads).selectFastPath r =
      some ⟨inst'.withLoads (loads inst'.id), inst'.places[k].2.withLoad 1,
        1 + s.pressure loads inst'⟩ := by
    unfold selectFastPath
    rw [hinst, hendpoint, hrole, hengine, selectValidCandidate_eq_some (hfiled.withLoads loads)]
    refine ⟨hopen', _, (mem_instancesFor_withLoads hfiled).mpr ⟨_, hlisted', rfl⟩, rfl, _, hfind, ?_⟩
    have hscore := score_withLoads s loads inst' inst'.places[k]
    rw [hk1, NNRat.coe_one] at hscore
    rw [← hscore]
  obtain ⟨e', he', hscores⟩ := h loads _ _ r rfl rfl ((s.withLoads loads).workerOf_agrees role) hpropose
    _ hfast
  obtain ⟨e'', hmem, hleast', hslow⟩ := selectAuthoritative_byLoad htake hrole hengine hcandidate
  rw [hslow, Option.some.injEq] at he'
  subst he'
  rw [authoritativeScore_of_nil haffinity, authoritativeScore_of_nil haffinity,
    ← (mem_takeable.mp hmem).2.2.2] at hscores
  have hle := hleast' _ htake
  have hearlier := score_withLoads s loads inst' inst'.places[k]
  rw [hk1, NNRat.coe_one] at hearlier
  simp only [hearlier] at hscores
  simp only at hle
  linarith

/-! ### Endpoints that are weighed differently -/

section Affinity

/-- What an endpoint costs the worker. -/
def placeCost (s : AllocationServer) (tenant : Tenant) (loads : Loads) (inst : Instance)
    (p : (String × EndpointId) × Endpoint) : ℚ :=
  s.config.prefillLoadScale *
      KvCacheAffinityPolicy.tenantCost s.config tenant s.longIsl inst p.2.id +
    s.config.loadWeight * loads inst.id p.1.1 p.1.2

theorem workerCost_withLoads : (s.withLoads loads).workerCost (KvCacheAffinityPolicy.tenantCost s.config
    tenant s.longIsl (inst.withLoads (loads inst.id)) (p.2.withLoad (loads inst.id p.1.1 p.1.2)).id)
      (p.2.withLoad (loads inst.id p.1.1 p.1.2)) = s.placeCost tenant loads inst p := rfl

theorem serverCost_withLoads : (s.withLoads loads).serverCost (KvCacheAffinityPolicy.tenantCost s.config
    tenant s.longIsl (inst.withLoads (loads inst.id)) (p.2.withLoad (loads inst.id p.1.1 p.1.2)).id)
      (inst.withLoads (loads inst.id)) (p.2.withLoad (loads inst.id p.1.1 p.1.2)) =
        s.placeCost tenant loads inst p + s.config.loadWeight * s.pressure loads inst := by
  rw [serverCost_eq, workerCost_withLoads, Instance.length_getAllEndpoints_withLoads]
  rfl

/-- If the two paths agree, what the worker prefers costs the scheduler the least. -/
theorem exists_preferred (hfiled : s.manager.Filed) (hst : s.config.schedulerType = .kvCacheAffinity)
    (hmode : s.config.kvAffinity.mode = .unified) (hrole : role ∈ kvaSelectRoles)
    (h : s.PathsAgree role required)
    (hnamed : ∀ inst, s.Eligible role (requiredEngine required) inst → inst.NamesEndpoints)
    (loads : Loads) (hreported : ∀ inst ∈ s.instancesFor role (requiredEngine required),
      tenant.contains (conductorInstanceId inst) = true)
    (he : s.Eligible role (requiredEngine required) inst) :
    ∃ best ∈ s.instancesFor role (requiredEngine required), ∃ p ∈ best.places,
      (∀ inst ∈ s.instancesFor role (requiredEngine required), ∀ q ∈ inst.places,
        inst.isRoutable q.2 = true → s.placeCost tenant loads best p ≤ s.placeCost tenant loads inst q) ∧
      (best.id ∉ s.openCircuits → ∀ inst, s.Eligible role (requiredEngine required) inst →
        ∀ q ∈ inst.places, inst.isRoutable q.2 = true →
          s.placeCost tenant loads best p + s.config.loadWeight * s.pressure loads best ≤
            s.placeCost tenant loads inst q + s.config.loadWeight * s.pressure loads inst) := by
  obtain ⟨req, hreq⟩ : ∃ req, req = s.longPrompt role required (some tenant) := ⟨_, rfl⟩
  have hfiled' := hfiled.withLoads loads
  have hagrees := (s.withLoads loads).workerOf_agrees role
  -- every endpoint is scored
  have hscored : ∀ inst ∈ s.instancesFor role (requiredEngine required), ∀ q ∈ inst.places,
      inst.isRoutable q.2 = true → ∃ x ∈ (s.withLoads loads).scored req tenant s.longIsl,
        x.inst = inst.withLoads (loads inst.id) ∧
          x.endpoint = q.2.withLoad (loads inst.id q.1.1 q.1.2) := by
    intro inst hinst q hq hroutable
    refine KvCacheAffinityPolicy.exists_mem_collectLoadCandidates ?_ (hreported inst hinst)
      (Instance.mem_getAllEndpoints_withLoads.mpr ⟨q, hq, hroutable, rfl⟩)
    rw [hreq]
    exact (cachedFor_perm _ _).mem_iff.mpr ((mem_instancesFor_withLoads hfiled).mpr ⟨inst, hinst, rfl⟩)
  have hcost : ∀ x ∈ (s.withLoads loads).scored req tenant s.longIsl,
      KvCacheAffinityPolicy.unifiedScore (s.withLoads loads).config x =
        (s.withLoads loads).workerCost (KvCacheAffinityPolicy.tenantCost s.config tenant s.longIsl
          x.inst x.endpoint.id) x.endpoint := by
    intro x hx
    obtain ⟨-, -, -, hload, hprefill⟩ := KvCacheAffinityPolicy.mem_collectLoadCandidates hx
    unfold KvCacheAffinityPolicy.unifiedScore
    rw [hload, hprefill]
    rfl
  obtain ⟨ep, hep⟩ := List.exists_mem_of_ne_nil _ he.endpoints
  obtain ⟨q₀, hq₀, rfl⟩ := List.mem_map.mp
    (inst.allEndpoints_eq_places ▸ (List.mem_filter.mp hep).1)
  obtain ⟨x₀, hx₀, -⟩ := hscored inst he.listed q₀ hq₀ (List.mem_filter.mp hep).2
  rw [hreq] at hx₀
  obtain ⟨x, hx, hleast, ranked, first, hinst, hendpoint, hpropose⟩ :=
    exists_proposed_byAffinity (s := s.withLoads loads) hst hmode hrole hx₀
  have hlongPrompt : (s.withLoads loads).longPrompt role required (some tenant) = req := hreq.symm
  rw [hlongPrompt] at hx hleast hpropose
  have hlongIsl : (s.withLoads loads).longIsl = s.longIsl := rfl
  rw [hlongIsl] at hx hleast hpropose
  have hroleReq : req.role = role := by rw [hreq]; rfl
  have hengineReq : req.requiredEngineType = required := by rw [hreq]; rfl
  have hlisted := inst_mem_of_scored hx
  rw [hroleReq, hengineReq] at hlisted
  obtain ⟨best, hbest, hxinst⟩ := (mem_instancesFor_withLoads hfiled).mp hlisted
  have hxep := (KvCacheAffinityPolicy.mem_collectLoadCandidates hx).2.2.1
  rw [hxinst] at hxep
  obtain ⟨p, hp, hroutable, hxendpoint⟩ := Instance.mem_getAllEndpoints_withLoads.mp hxep
  refine ⟨best, hbest, p, hp, ?_, ?_⟩
  · intro inst hinst q hq hqroutable
    obtain ⟨y, hy, hyinst, hyendpoint⟩ := hscored inst hinst q hq hqroutable
    have hle := hleast y hy
    rwa [hcost x hx, hcost y hy, hxinst, hxendpoint, hyinst, hyendpoint, workerCost_withLoads,
      workerCost_withLoads] at hle
  · intro hopen inst' he' q hq hqroutable
    have hopenx : x.inst.id ∉ (s.withLoads loads).openCircuits := by rw [hxinst]; exact hopen
    have hnamed' : ∀ inst, (s.withLoads loads).Eligible req.role (requiredEngine req.requiredEngineType)
        inst → inst.NamesEndpoints := by
      intro inst he
      rw [hroleReq, hengineReq] at he
      obtain ⟨old, hold, rfl⟩ := (eligible_withLoads hfiled).mp he
      exact Instance.namesEndpoints_withLoads.mpr (hnamed old hold)
    have hagreesReq : (s.withLoads loads).workerOf.Agrees (s.withLoads loads) req.role := by
      rw [hroleReq]; exact hagrees
    have hfast : (s.withLoads loads).selectFastPath ((s.withLoads loads).unifiedRequest
        (s.withLoads loads).workerOf req tenant s.longIsl ranked first) =
          some ⟨x.inst, x.endpoint, LoadBalancePolicy.calculateEndpointScore x.inst x.endpoint
            (s.withLoads loads).config.instanceScoreWeight⟩ := by
      have hvalid := selectValidCandidate_of_scored hfiled' hnamed' hx
      rw [if_neg hopenx] at hvalid
      rw [selectFastPath_unifiedRequest, hinst, hendpoint]
      exact hvalid
    obtain ⟨e', he'slow, hscores⟩ := h loads _ req _ hroleReq hengineReq hagrees hpropose _ hfast
    obtain ⟨y, hy, hopeny, hslow, hbestServer⟩ :=
      selectAuthoritative_of_scored hfiled' hnamed' hagreesReq hx hopenx ranked first
    rw [hslow, Option.some.injEq] at he'slow
    subst he'slow
    rw [authoritativeScore_of_scored hfiled' hagreesReq hx rfl rfl,
      authoritativeScore_of_scored hfiled' hagreesReq hy rfl rfl] at hscores
    obtain ⟨z, hz, hzinst, hzendpoint⟩ := hscored inst' he'.listed q hq hqroutable
    have hopenz : z.inst.id ∉ (s.withLoads loads).openCircuits := by rw [hzinst]; exact he'.closed
    have hle := hbestServer z hz hopenz
    obtain ⟨-, -, -, -, hprefillx⟩ := KvCacheAffinityPolicy.mem_collectLoadCandidates hx
    obtain ⟨-, -, -, -, hprefillz⟩ := KvCacheAffinityPolicy.mem_collectLoadCandidates hz
    rw [← hscores, hprefillx, hprefillz, hxinst, hxendpoint, hzinst, hzendpoint] at hle
    exact le_of_eq_of_le serverCost_withLoads.symm (le_of_le_of_eq hle serverCost_withLoads)

theorem exists_routable_place (he : s.Eligible role required inst) :
    ∃ q ∈ inst.places, inst.isRoutable q.2 = true := by
  obtain ⟨ep, hep⟩ := List.exists_mem_of_ne_nil _ he.endpoints
  obtain ⟨hmem, hroutable⟩ := List.mem_filter.mp hep
  rw [Instance.allEndpoints_eq_places] at hmem
  obtain ⟨q, hq, rfl⟩ := List.mem_map.mp hmem
  exact ⟨q, hq, hroutable⟩

/-- If an instance has a loaded endpoint besides an idle one, the worker prefers the idle one, and the
scheduler another instance. -/
theorem eq_of_several (hfiled : s.manager.Filed) (hst : s.config.schedulerType = .kvCacheAffinity)
    (hmode : s.config.kvAffinity.mode = .unified) (hrole : role ∈ kvaSelectRoles)
    (h : s.PathsAgree role required)
    (hnamed : ∀ inst, s.Eligible role (requiredEngine required) inst → inst.NamesEndpoints)
    (hload : 0 < s.config.loadWeight) (hweight : 0 < s.config.instanceScoreWeight)
    (he : s.Eligible role (requiredEngine required) inst) (hseveral : inst.allEndpoints.length ≠ 1)
    (he' : s.Eligible role (requiredEngine required) inst') : inst = inst' := by
  by_contra hne
  have hid : inst'.id ≠ inst.id := fun hid =>
    hne (inst_eq_of_id hfiled he.listed he'.listed hid.symm)
  obtain ⟨a, ha, hroutable⟩ := exists_routable_place he
  obtain ⟨b, hb, hroutable'⟩ := exists_routable_place he'
  obtain ⟨a', ha', hother⟩ := exists_other_place ha hseveral
  -- the load of the other endpoint
  obtain ⟨n, hn⟩ : ∃ n : ℚ, n = (max 1 inst.getAllEndpoints.length : ℕ) := ⟨_, rfl⟩
  have hnpos : 0 < n := by
    rw [hn]
    exact lt_of_lt_of_le one_pos (one_le_count inst)
  obtain ⟨y, hy⟩ : ∃ y : ℚ, y = n * (1 + s.config.instanceScoreWeight * (inst'.places.length * 1)) /
      s.config.instanceScoreWeight + n := ⟨_, rfl⟩
  have hypos : 0 < y := by
    rw [hy]
    positivity
  obtain ⟨loads, hloads⟩ : ∃ loads, loads = favour inst.id a.1 0 y.toNNRat 1 := ⟨_, rfl⟩
  obtain ⟨tenant, htenant⟩ : ∃ tenant, tenant = KvCacheAffinityPolicy.noMatches
      (s.instancesFor role (requiredEngine required)) := ⟨_, rfl⟩
  have hcost : ∀ i q, s.placeCost tenant loads i q =
      s.config.prefillLoadScale * s.longIsl + s.config.loadWeight * loads i.id q.1.1 q.1.2 := by
    intro i q
    rw [placeCost, htenant, KvCacheAffinityPolicy.tenantCost_noMatches]
  obtain ⟨best, hbest, p, hp, hworker, hserver⟩ := exists_preferred hfiled hst hmode hrole h hnamed loads
    (fun i hi => htenant ▸ KvCacheAffinityPolicy.contains_noMatches hi) he
  -- the worker prefers the idle endpoint
  have hless := hworker inst he.listed a ha hroutable
  rw [hcost, hcost] at hless
  have ha0 : loads inst.id a.1.1 a.1.2 = 0 := by rw [hloads, favour_self]
  rw [ha0, NNRat.coe_zero, mul_zero, add_zero] at hless
  have hidle : (loads best.id p.1.1 p.1.2 : ℚ) ≤ 0 := by
    by_contra hpos
    have hpos := mul_pos hload (not_le.mp hpos)
    linarith
  have hsame : best.id = inst.id := by
    by_contra hne
    rw [hloads, favour_other _ _ _ hne, NNRat.coe_one] at hidle
    linarith
  obtain rfl := inst_eq_of_id hfiled hbest he.listed hsame
  -- the scheduler prefers another instance
  have hleast := hserver he.closed inst' he' b hb hroutable'
  rw [hcost, hcost] at hleast
  have hb1 : loads inst'.id b.1.1 b.1.2 = 1 := by rw [hloads, favour_other _ _ _ hid]
  have hpressure' := s.pressure_favour_other a.1 0 y.toNNRat 1 hid
  rw [← hloads, NNRat.coe_one] at hpressure'
  have hpressure := le_pressure s loads ha'
  have hay : (loads best.id a'.1.1 a'.1.2 : ℚ) = y := by
    rw [hloads, favour_rest _ _ _ hother, Rat.coe_toNNRat _ hypos.le]
  rw [hay, ← hn] at hpressure
  have hshare : s.config.instanceScoreWeight * (y / n) =
      1 + s.config.instanceScoreWeight * (inst'.places.length * 1) + s.config.instanceScoreWeight := by
    rw [hy]
    field_simp
  rw [hb1, NNRat.coe_one] at hleast
  have hnonneg : 0 ≤ s.config.loadWeight * (loads best.id p.1.1 p.1.2 : ℚ) :=
    mul_nonneg hload.le (NNRat.coe_nonneg _)
  have hgap : 1 + s.pressure loads inst' < s.pressure loads best := by linarith
  have hscaled := mul_lt_mul_of_pos_left hgap hload
  linarith

/-- If the prompt is cached on one endpoint that bears a little, the worker prefers it, and the
scheduler an idle instance. -/
theorem eq_of_cached (hfiled : s.manager.Filed) (hst : s.config.schedulerType = .kvCacheAffinity)
    (hmode : s.config.kvAffinity.mode = .unified) (hrole : role ∈ kvaSelectRoles)
    (h : s.PathsAgree role required)
    (hnamed : ∀ inst, s.Eligible role (requiredEngine required) inst → inst.NamesEndpoints)
    (hload : 0 < s.config.loadWeight) (hweight : 0 < s.config.instanceScoreWeight)
    (hscale : 0 < s.config.prefillLoadScale) (hcredit : 0 < s.config.overlapCredit)
    (he : s.Eligible role (requiredEngine required) inst)
    (he' : s.Eligible role (requiredEngine required) inst') : inst = inst' := by
  by_contra hne
  have hid : inst'.id ≠ inst.id := fun hid =>
    hne (inst_eq_of_id hfiled he.listed he'.listed hid.symm)
  obtain ⟨b, hb, hroutable⟩ := exists_routable_place he
  obtain ⟨a, ha, hroutable'⟩ := exists_routable_place he'
  have hisl : 0 < s.longIsl := Nat.lt_of_lt_of_le Nat.one_pos (Nat.le_max_left 1 _)
  have hislq : (0 : ℚ) < s.longIsl := Nat.cast_pos.mpr hisl
  obtain ⟨left, hleft⟩ : ∃ left : ℚ, left = max 0 (s.longIsl - s.config.overlapCredit * s.longIsl) :=
    ⟨_, rfl⟩
  have hsaved : left < s.longIsl := by
    rw [hleft]
    refine max_lt hislq ?_
    have := mul_pos hcredit hislq
    linarith
  have hleftpos : 0 ≤ left := by
    rw [hleft]
    exact le_max_left _ _
  obtain ⟨n, hn⟩ : ∃ n : ℚ, n = (max 1 inst.getAllEndpoints.length : ℕ) := ⟨_, rfl⟩
  have hnpos : 0 < n := by
    rw [hn]
    exact lt_of_lt_of_le one_pos (one_le_count inst)
  -- what is saved, and the load that outweighs it for the scheduler only
  obtain ⟨share, hshare⟩ : ∃ share : ℚ, share = s.config.instanceScoreWeight / n := ⟨_, rfl⟩
  have hsharepos : 0 < share := by
    rw [hshare]
    positivity
  obtain ⟨d, hd⟩ : ∃ d : ℚ, d = s.config.prefillLoadScale * (s.longIsl - left) /
      (s.config.loadWeight * (1 + share / 2)) := ⟨_, rfl⟩
  have hdpos : 0 < d := by
    rw [hd]
    have := sub_pos.mpr hsaved
    positivity
  have hbalance : s.config.loadWeight * d * (1 + share / 2) =
      s.config.prefillLoadScale * (s.longIsl - left) := by
    rw [hd]
    field_simp
  obtain ⟨y, hy⟩ : ∃ y : ℚ, y = s.config.prefillLoadScale * s.longIsl / s.config.loadWeight + 1 :=
    ⟨_, rfl⟩
  have hypos : 0 < y := by
    rw [hy]
    positivity
  have hyload : s.config.loadWeight * y =
      s.config.prefillLoadScale * s.longIsl + s.config.loadWeight := by
    rw [hy]
    field_simp
  obtain ⟨loads, hloads⟩ : ∃ loads, loads = favour inst.id b.1 d.toNNRat y.toNNRat 0 := ⟨_, rfl⟩
  obtain ⟨tenant, htenant⟩ : ∃ tenant, tenant = KvCacheAffinityPolicy.oneMatch
      (s.instancesFor role (requiredEngine required)) inst b.2.id s.longIsl := ⟨_, rfl⟩
  have hbd : (loads inst.id b.1.1 b.1.2 : ℚ) = d := by
    rw [hloads, favour_self, Rat.coe_toNNRat _ hdpos.le]
  have hcostb : s.placeCost tenant loads inst b =
      s.config.prefillLoadScale * left + s.config.loadWeight * d := by
    rw [placeCost, hbd, htenant, KvCacheAffinityPolicy.tenantCost_oneMatch hisl, ← hleft]
  have hcost : ∀ i q, i.id ≠ inst.id → s.placeCost tenant loads i q =
      s.config.prefillLoadScale * s.longIsl := by
    intro i q hi
    rw [placeCost, htenant, KvCacheAffinityPolicy.tenantCost_oneMatch_of_ne hi, hloads,
      favour_other _ _ _ hi, NNRat.coe_zero, mul_zero, add_zero]
  obtain ⟨best, hbest, p, hp, hworker, hserver⟩ := exists_preferred hfiled hst hmode hrole h hnamed loads
    (fun i hi => htenant ▸ KvCacheAffinityPolicy.contains_oneMatch hi) he
  have hpart : 0 < s.config.loadWeight * d * share := by positivity
  -- the worker prefers the endpoint that has the prompt
  have hless := hworker inst he.listed b hb hroutable
  rw [hcostb] at hless
  have hcheap : s.config.prefillLoadScale * left + s.config.loadWeight * d <
      s.config.prefillLoadScale * s.longIsl := by linarith
  have hsame : best.id = inst.id := by
    by_contra hne
    rw [hcost best p hne] at hless
    linarith
  obtain rfl := inst_eq_of_id hfiled hbest he.listed hsame
  have hpb : p.1 = b.1 := by
    by_contra hne
    have hprefill := mul_nonneg hscale.le (KvCacheAffinityPolicy.tenantCost_nonneg s.config tenant s.longIsl
      best p.2.id)
    rw [placeCost, hloads, favour_rest _ _ _ hne, Rat.coe_toNNRat _ hypos.le, hyload] at hless
    linarith
  obtain rfl := place_eq_of_key hp hb hpb
  -- the scheduler prefers the idle instance
  have hleast := hserver he.closed inst' he' a ha hroutable'
  rw [hcostb, hcost inst' a hid] at hleast
  have hpressure' := s.pressure_favour_other p.1 d.toNNRat y.toNNRat 0 hid
  rw [← hloads, NNRat.coe_zero, mul_zero, mul_zero] at hpressure'
  have hpressure := le_pressure s loads hp
  rw [hbd, ← hn] at hpressure
  have hsharing : s.config.instanceScoreWeight * (d / n) = share * d := by
    rw [hshare]
    ring
  rw [hsharing] at hpressure
  have hidle := mul_le_mul_of_nonneg_left hpressure' hload.le
  have hborne := mul_le_mul_of_nonneg_left hpressure hload.le
  linarith

/-- **The conditions are needed.** -/
theorem weighsAlike_of_pathsAgree (hfiled : s.manager.Filed) (hpolicy : s.config.WeighsLoads)
    (h : s.PathsAgree role required) : s.WeighsAlike role (requiredEngine required) := by
  have hnamed : ∀ inst, s.Eligible role (requiredEngine required) inst → inst.NamesEndpoints :=
    fun inst he => namesEndpoints_of_pathsAgree hfiled hpolicy h he
  rcases hpolicy with hlb | ⟨hst, hmode⟩
  · exact Or.inl hlb
  by_cases hrole : role ∈ kvaSelectRoles
  · refine Or.inr (Or.inr ?_)
    rcases s.config.loadWeight_nonneg.eq_or_lt with hload | hload
    · exact Or.inl hload.symm
    rcases s.config.instanceScoreWeight_nonneg.eq_or_lt with hweight | hweight
    · exact Or.inr (Or.inl hweight.symm)
    refine Or.inr (Or.inr ?_)
    by_cases hone : ∀ inst inst', s.Eligible role (requiredEngine required) inst →
        s.Eligible role (requiredEngine required) inst' → inst = inst'
    · exact Or.inl hone
    push Not at hone
    obtain ⟨inst, inst', he, he', hne⟩ := hone
    refine Or.inr ⟨fun i hi => ?_, ?_⟩
    · by_contra hseveral
      have heq : ∀ i', s.Eligible role (requiredEngine required) i' → i = i' := fun i' hi' =>
        eq_of_several hfiled hst hmode hrole h hnamed hload hweight hi hseveral hi'
      exact hne ((heq inst he).symm.trans (heq inst' he'))
    · rcases s.config.prefillLoadScale_nonneg.eq_or_lt with hscale | hscale
      · exact Or.inl hscale.symm
      rcases s.config.overlapCredit_nonneg.eq_or_lt with hcredit | hcredit
      · exact Or.inr hcredit.symm
      exact absurd (eq_of_cached hfiled hst hmode hrole h hnamed hload hweight hscale hcredit he he') hne
  · exact Or.inr (Or.inl hrole)

/-- **Fast and slow path agree** for all loads and requests exactly if ids tell endpoints apart and both
weigh alike. -/
theorem fast_path_agrees_iff (hfiled : s.manager.Filed) (hpolicy : s.config.WeighsLoads) :
    s.PathsAgree role required ↔
      (∀ inst, s.Eligible role (requiredEngine required) inst → inst.NamesEndpoints) ∧
        s.WeighsAlike role (requiredEngine required) := by
  constructor
  · intro h
    exact ⟨fun inst he => namesEndpoints_of_pathsAgree hfiled hpolicy h he,
      weighsAlike_of_pathsAgree hfiled hpolicy h⟩
  · rintro ⟨hnamed, halike⟩
    exact pathsAgree_of_weighsAlike hfiled hpolicy hnamed halike

end Affinity

end AllocationServer

/-! ## An uneven instance -/

/-- An instance of two endpoints. -/
def twoEndpoints (id : InstanceId) (jobName role : String) : Instance :=
  { InstanceManager.oneEndpoint id jobName role with
    endpoints := (∅ : Dict String _).insert "10.0.0.1"
      (((∅ : Dict EndpointId Endpoint).insert 0 ⟨0, "10.0.0.1", "8000", "8001", none, [], .zero, false⟩).insert 1
        ⟨1, "10.0.0.1", "8002", "8003", none, [], .zero, false⟩) }

/-- The configuration by default, with affinity. -/
def defaultAffinity : SchedulerConfig where
  schedulerType := .kvCacheAffinity
  endpointInstanceScoreWeight := 1 / 20
  kvAffinity :=
    { mode := .unified, loadWeight := 1, overlapCredit := 1, prefillLoadScale := 1, loadGateTopn := 0
      wNpu := 1, wCpu := 1, wDisk := 0 }
  blockSize := 128

/-- Two instances for prefill, the one of two endpoints. -/
def unevenServer : AllocationServer where
  config := defaultAffinity
  manager := (InstanceManager.new.refreshInstances .insertion .add
    [twoEndpoints 1 "p" "prefill", InstanceManager.oneEndpoint 2 "q" "prefill"]).2
  openCircuits := ∅

/-- One endpoint is idle, the other of its instance bears a hundred tokens. -/
def unevenLoads : Loads := favour 1 ("10.0.0.1", 0) 0 100 1

/-- A prompt of three tokens. -/
def shortPrompt : RequestInfo where
  role := .prefill
  requiredEngineType := none
  tokenIds := [1, 2, 3]
  demand := 3
  conductor := fun _ => none

/-- The idle endpoint is taken, at 5.5, where the other instance would have cost 4.05. -/
theorem unevenServer_commits_to_worse : ∃ (s : AllocationServer) (c : AllocationClient) (r : AllocateOnlyRequest)
    (e e' : EndpointCandidate), s = unevenServer.withLoads unevenLoads ∧ c.Agrees s .prefill ∧
      (c.propose (s.manager.rolePools .prefill).values shortPrompt).1 = some r ∧
      s.selectFastPath r = some e ∧ s.selectAuthoritativeAllocateCandidate r = some e' ∧
      s.authoritativeScore r e = 11 / 2 ∧ s.authoritativeScore r e' = 81 / 20 := by
  obtain ⟨s, hs⟩ : ∃ s, s = unevenServer.withLoads unevenLoads := ⟨_, rfl⟩
  have hpaths : (s.workerOf.propose (s.manager.rolePools .prefill).values shortPrompt).1.bind (fun r =>
      (s.selectFastPath r).bind fun e => (s.selectAuthoritativeAllocateCandidate r).map fun e' =>
        (s.authoritativeScore r e, s.authoritativeScore r e')) = some (11 / 2, 81 / 20) := by
    rw [hs]
    decide +kernel
  obtain ⟨r, hr, hpaths⟩ := Option.bind_eq_some_iff.mp hpaths
  obtain ⟨e, he, hpaths⟩ := Option.bind_eq_some_iff.mp hpaths
  obtain ⟨e', he', hscores⟩ := Option.map_eq_some_iff.mp hpaths
  exact ⟨s, s.workerOf, r, e, e', hs, s.workerOf_agrees .prefill, hr, he, he',
    congrArg Prod.fst hscores, congrArg Prod.snd hscores⟩

theorem unevenServer_filed : unevenServer.manager.Filed := by
  have hkeep : InstanceManager.new.KeepsPools (.refresh .insertion .add
      [twoEndpoints 1 "p" "prefill", InstanceManager.oneEndpoint 2 "q" "prefill"]) := by decide
  obtain ⟨w, h⟩ := InstanceManager.exec_represents ⟨_, InstanceManager.represents_new⟩ hkeep rfl
  exact h.isFiled

theorem unevenServer_agrees_iff : unevenServer.PathsAgree .prefill none ↔
    (∀ inst, unevenServer.Eligible .prefill (requiredEngine none) inst → inst.NamesEndpoints) ∧
      unevenServer.WeighsAlike .prefill (requiredEngine none) :=
  AllocationServer.fast_path_agrees_iff unevenServer_filed (Or.inr ⟨rfl, rfl⟩)

end PyMotor.Coordinator
