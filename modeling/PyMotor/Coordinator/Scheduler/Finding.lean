import PyMotor.Coordinator.Scheduler.Answers
import PyMotor.Coordinator.Scheduler.Disagreement

/-!
# Finding a healthy instance

An instance whose circuit is open is left out, but every policy does so at a stage of its own. By load,
only the endpoints of other instances are scored, so a healthy instance is found if there is one. In
turn, an instance is taken and given up if it is blocked, and a worker has two turns. By affinity, the
endpoints that the conductor reports are ranked whether or not they are blocked, and of those that are
proposed the scheduler refuses the blocked ones.

`healthy_found_iff` says when a healthy instance is found: always by load, and otherwise if one of the
two turns, one of the reported endpoints or one of those that the load gate lets through is healthy.
-/

namespace PyMotor.Coordinator

open Ranking (rank Before)

namespace AllocationServer

variable {s : AllocationServer} {c : AllocationClient} {req : RequestInfo} {r : AllocateOnlyRequest}
  {e : EndpointCandidate} {inst : Instance} {fastPath : Bool}

/-! ## What a policy gets to -/

/-- The endpoints that the conductor reports to the first query. -/
def reported (s : AllocationServer) (req : RequestInfo) : List LoadCandidate :=
  match KvCacheAffinityPolicy.queryTenant s.config (s.cachedFor req) req.tokenIds (req.conductor 0) with
  | none => []
  | some tenant => s.scored req tenant req.tokenIds.length

/-- The number of endpoints that the load gate keeps. -/
def gateSize (cfg : SchedulerConfig) : ℕ :=
  if 0 < cfg.kvAffinity.loadGateTopn then cfg.kvAffinity.loadGateTopn.toNat
  else KvCacheAffinityPolicy.defaultLoadGateTopn

/-- Of two endpoints with their places in a list: the less loaded one, or the earlier. -/
def LessLoaded : LoadCandidate × ℕ → LoadCandidate × ℕ → Prop :=
  Before (fun p => p.1.loadCost) fun p q => p.2 < q.2

instance : DecidableRel LessLoaded :=
  inferInstanceAs (DecidableRel (Before (fun p : LoadCandidate × ℕ => p.1.loadCost) fun p q => p.2 < q.2))

/-- The one with the longer match, or the less loaded one. -/
def MatchesMore : LoadCandidate × ℕ → LoadCandidate × ℕ → Prop :=
  Before (fun p => toLex (-p.1.matchedTokens, p.1.loadCost)) LessLoaded

instance : DecidableRel MatchesMore :=
  inferInstanceAs (DecidableRel (Before (fun p : LoadCandidate × ℕ =>
    toLex (-p.1.matchedTokens, p.1.loadCost)) LessLoaded))

/-- Few are less loaded. -/
def PassesGate (cfg : SchedulerConfig) (raw : List LoadCandidate) (p : LoadCandidate × ℕ) : Prop :=
  raw.zipIdx.countP (LessLoaded · p) < gateSize cfg

instance (cfg : SchedulerConfig) (raw : List LoadCandidate) : DecidablePred (PassesGate cfg raw) :=
  fun _ => inferInstanceAs (Decidable (_ < _))

/-- The endpoint passes the gate, and of those that do, few have a longer match. -/
def WithinGate (cfg : SchedulerConfig) (raw : List LoadCandidate) (p : LoadCandidate × ℕ) : Prop :=
  PassesGate cfg raw p ∧
    raw.zipIdx.countP (fun q => MatchesMore q p ∧ PassesGate cfg raw q) < affinityCandidateTopk

instance (cfg : SchedulerConfig) (raw : List LoadCandidate) : DecidablePred (WithinGate cfg raw) :=
  fun _ => inferInstanceAs (Decidable (_ ∧ _))

/-- The policy gets to a healthy instance. -/
def Reaches (s : AllocationServer) (c : AllocationClient) (req : RequestInfo) : Prop :=
  match s.config.schedulerType with
  | .loadBalance => True
  | .roundRobin => ∃ k < 2, ∃ inst,
      (s.cachedFor req)[(c.instanceRrCounters req.role + c.startIndex (s.cachedFor req).length + k) %
        (s.cachedFor req).length]? = some inst ∧
      s.Eligible req.role (requiredEngine req.requiredEngineType) inst
  | .kvCacheAffinity => req.role ∈ kvaSelectRoles → s.reported req ≠ [] →
      ∃ p ∈ (s.reported req).zipIdx, p.1.inst.id ∉ s.openCircuits ∧
        (s.config.kvAffinity.mode = .loadGated → WithinGate s.config (s.reported req) p)

theorem HasEligible.cachedFor_ne_nil (h : s.HasEligible req) : s.cachedFor req ≠ [] := by
  obtain ⟨inst, hinst⟩ := h
  exact List.ne_nil_of_mem (mem_cachedFor.mpr hinst.listed)

/-! ## In turn -/

theorem exists_selectEndpoint_inTurn (hagrees : c.Agrees s req.role)
    (hpolicy : s.config.schedulerType = .roundRobin) (hinst : inst ∈ s.cachedFor req) :
    (∃ endpoint, (c.selectEndpointForInstance inst).1 = some endpoint) ↔
      s.Eligible req.role (requiredEngine req.requiredEngineType) inst := by
  have hblocked : c.isInstanceBlocked inst.id = false ↔ inst.id ∉ s.openCircuits := by
    rw [AllocationClient.isInstanceBlocked, hagrees.blocked, decide_eq_false_iff_not]
  constructor
  · rintro ⟨endpoint, hendpoint⟩
    obtain ⟨hep, hopen⟩ := AllocationClient.selectEndpointForInstance_eq_some hendpoint
    exact ⟨mem_cachedFor.mp hinst, hblocked.mp (hopen (hagrees.config ▸ hpolicy)), List.ne_nil_of_mem hep⟩
  · intro heligible
    exact AllocationClient.selectEndpointForInstance_isSome heligible.endpoints
      (hblocked.mpr heligible.closed)

theorem selectFromList_inTurn (hpolicy : c.config.schedulerType = .roundRobin) (hne : s.cachedFor req ≠ [])
    (attempt topK : ℕ) :
    c.selectEndpointCandidatesFromListWithPolicy (s.cachedFor req) req attempt topK =
      c.selectRoundRobin (s.cachedFor req) req.role := by
  rcases AllocationClient.selectFromList_cases (c := c) hne req attempt topK with
    ⟨-, heq⟩ | ⟨ranked, debug, hranking, -⟩ | ⟨hother, -⟩
  · exact heq
  · simp [AllocationClient.affinityRanking, hpolicy] at hranking
  · exact absurd hpolicy hother

theorem candidates_of_turn (hagrees : c.Agrees s req.role)
    (hpolicy : s.config.schedulerType = .roundRobin)
    (hturn : c.turn (s.cachedFor req) req.role = some inst) :
    (s.Eligible req.role (requiredEngine req.requiredEngineType) inst →
      ∃ endpoint, (c.selectRoundRobin (s.cachedFor req) req.role).1.candidates = [⟨inst, endpoint, 0⟩]) ∧
    (¬s.Eligible req.role (requiredEngine req.requiredEngineType) inst →
      (c.selectRoundRobin (s.cachedFor req) req.role).1.candidates = []) := by
  obtain ⟨c', hview, hproposal, -⟩ := AllocationClient.selectRoundRobin_eq hturn
  have hgiven := exists_selectEndpoint_inTurn (hview.agrees hagrees) hpolicy (List.mem_of_getElem? hturn)
  rw [hproposal]
  constructor
  · intro heligible
    obtain ⟨endpoint, hendpoint⟩ := hgiven.mpr heligible
    exact ⟨endpoint, by simp only [hendpoint, Option.map_some, Option.toList_some]⟩
  · intro hnot
    cases hendpoint : (c'.selectEndpointForInstance inst).1 with
    | none => rfl
    | some endpoint => exact absurd (hgiven.mp ⟨endpoint, hendpoint⟩) hnot

theorem answers_of_first (hfiled : s.manager.Filed) (hagrees : c.Agrees s req.role)
    (hr : (c.propose (s.manager.rolePools req.role).values req).1 = some r)
    (hclosed : r.instanceId ∉ s.openCircuits) : s.Answers c fastPath req :=
  ⟨r, hr, exists_selectCandidate_of_first hfiled (namesListed_of_propose hagrees hr).1 hclosed⟩

theorem answers_iff_of_propose (hr : (c.propose (s.manager.rolePools req.role).values req).1 = some r) :
    s.Answers c fastPath req ↔ ∃ e, s.selectCandidate fastPath r = some e := by
  unfold Answers
  rw [hr]
  simp only [Option.some.injEq, exists_eq_left']

theorem propose_of_second (hagrees : c.Agrees s req.role)
    (hfirst : (c.selectEndpointCandidatesFromListWithPolicy (s.cachedFor req) req 0
      (c.requestTopK req.role)).1.candidates = []) :
    ∃ c' : AllocationClient, c'.Agrees s req.role ∧ c'.instanceRrCounters =
        (c.selectEndpointCandidatesFromListWithPolicy (s.cachedFor req) req 0
          (c.requestTopK req.role)).2.instanceRrCounters ∧
      c'.clientIndex = c.clientIndex ∧ c'.clientCount = c.clientCount ∧
      (c.propose (s.manager.rolePools req.role).values req).1 =
        (c'.selectEndpointCandidatesFromListWithPolicy (s.cachedFor req) req 1
          (c.requestTopK req.role)).1.candidates.head?.map
          ((c'.selectEndpointCandidatesFromListWithPolicy (s.cachedFor req) req 1
            (c.requestTopK req.role)).2.allocateOnlyRequest req
              (c'.selectEndpointCandidatesFromListWithPolicy (s.cachedFor req) req 1
                (c.requestTopK req.role)).1) := by
  have hview := AllocationClient.selectFromList_sameView (c := c) (s.cachedFor req) req 0
    (c.requestTopK req.role)
  have hagrees' := (hview.agrees hagrees).refreshed
  rw [AllocationClient.propose_eq hagrees]
  simp only [hfirst, List.isEmpty_nil, if_true]
  generalize c.selectEndpointCandidatesFromListWithPolicy (s.cachedFor req) req 0 (c.requestTopK req.role) =
    first at hview hagrees' ⊢
  exact ⟨_, hagrees', rfl, hview.clientIndex, hview.clientCount, rfl⟩

/-- **In turn, a healthy instance is found if it is one of two.** -/
theorem answers_inTurn_iff (hfiled : s.manager.Filed) (hagrees : c.Agrees s req.role)
    (hpolicy : s.config.schedulerType = .roundRobin) (hne : s.cachedFor req ≠ []) :
    s.Answers c fastPath req ↔ ∃ k < 2, ∃ inst,
      (s.cachedFor req)[(c.instanceRrCounters req.role + c.startIndex (s.cachedFor req).length + k) %
        (s.cachedFor req).length]? = some inst ∧
      s.Eligible req.role (requiredEngine req.requiredEngineType) inst := by
  have hpolicy' : c.config.schedulerType = .roundRobin := hagrees.config ▸ hpolicy
  obtain ⟨inst₀, hturn₀⟩ := AllocationClient.exists_turn (c := c) hne req.role
  obtain ⟨-, -, -, hcounter⟩ := AllocationClient.selectRoundRobin_eq hturn₀
  obtain ⟨hgives₀, hnothing₀⟩ := candidates_of_turn hagrees hpolicy hturn₀
  have hfirst := selectFromList_inTurn hpolicy' hne 0 (c.requestTopK req.role)
  by_cases heligible₀ : s.Eligible req.role (requiredEngine req.requiredEngineType) inst₀
  · obtain ⟨endpoint, hcandidates⟩ := hgives₀ heligible₀
    rw [← hfirst] at hcandidates
    have hpropose := AllocationClient.propose_of_first hagrees (Prod.mk.eta).symm hcandidates
    exact iff_of_true
      (answers_of_first hfiled hagrees (congrArg Prod.fst hpropose) heligible₀.closed)
      ⟨0, Nat.two_pos, inst₀, hturn₀, heligible₀⟩
  · have hempty := hnothing₀ heligible₀
    rw [← hfirst] at hempty
    obtain ⟨c', hagrees', hcounters, hindex, hcount, hpropose⟩ := propose_of_second hagrees hempty
    have hsecond := selectFromList_inTurn (hagrees'.config ▸ hpolicy) hne 1 (c.requestTopK req.role)
    obtain ⟨inst₁, hturn₁⟩ := AllocationClient.exists_turn (c := c') hne req.role
    obtain ⟨hgives₁, hnothing₁⟩ := candidates_of_turn hagrees' hpolicy hturn₁
    have hplace : (s.cachedFor req)[(c.instanceRrCounters req.role +
        c.startIndex (s.cachedFor req).length + 1) % (s.cachedFor req).length]? = some inst₁ := by
      rw [← hturn₁, AllocationClient.turn, hcounters, hfirst, hcounter, AllocationClient.startIndex,
        AllocationClient.startIndex, hindex, hcount, Nat.add_right_comm]
    by_cases heligible₁ : s.Eligible req.role (requiredEngine req.requiredEngineType) inst₁
    · obtain ⟨endpoint, hcandidates⟩ := hgives₁ heligible₁
      rw [hsecond, hcandidates, List.head?_cons, Option.map_some] at hpropose
      exact iff_of_true (answers_of_first hfiled hagrees hpropose heligible₁.closed)
        ⟨1, Nat.one_lt_two, inst₁, hplace, heligible₁⟩
    · have hempty' := hnothing₁ heligible₁
      rw [hsecond, hempty', List.head?_nil, Option.map_none] at hpropose
      refine iff_of_false ?_ ?_
      · rintro ⟨r, hr, -⟩
        rw [hpropose] at hr
        cases hr
      · rintro ⟨k, hk, inst, hinst, heligible⟩
        rcases Nat.lt_succ_iff_lt_or_eq.mp hk with hk | rfl
        · obtain rfl := Nat.lt_one_iff.mp hk
          have hsame : some inst = some inst₀ := hinst.symm.trans hturn₀
          cases hsame
          exact heligible₀ heligible
        · rw [hplace] at hinst
          cases hinst
          exact heligible₁ heligible

/-! ## By load -/

theorem answers_byLoad (hfiled : s.manager.Filed) (hagrees : c.Agrees s req.role)
    (hselect : c.selectEndpointCandidatesFromListWithPolicy (s.cachedFor req) req 0
      (c.requestTopK req.role) = c.selectByLoad (s.cachedFor req) req.role (c.requestTopK req.role))
    (heligible : s.HasEligible req) : s.Answers c fastPath req := by
  obtain ⟨inst, hinst⟩ := heligible
  obtain ⟨ep, hep⟩ := List.exists_mem_of_ne_nil _ hinst.endpoints
  have htake : (⟨inst, ep, LoadBalancePolicy.calculateEndpointScore inst ep
      s.config.instanceScoreWeight⟩ : EndpointCandidate) ∈
      s.takeable req.role (requiredEngine req.requiredEngineType) :=
    mem_takeable.mpr ⟨hinst.listed, hinst.closed, hep, rfl⟩
  rcases AllocationClient.selectByLoad_cases (c := c) (s.cachedFor req) req.role
      (c.requestTopK req.role) with ⟨first, t, hload, heq⟩ | ⟨hload, -⟩
  · obtain ⟨hfirst, -⟩ := AllocationClient.selectByLoadBalance_first hagrees hload
    have hpropose := AllocationClient.propose_of_first hagrees (hselect.trans heq) rfl
    have hclosed : (c.allocateOnlyRequest req ⟨first :: t, .loadBalance, none⟩ first).instanceId ∉
        s.openCircuits := (mem_takeable.mp hfirst).2.1
    refine answers_of_first hfiled hagrees ?_ hclosed
    rw [hpropose]
  · exact absurd hload (AllocationClient.selectByLoadBalance_ne_nil hagrees _ htake)

/-! ## By affinity -/

theorem mem_reported {x : LoadCandidate} (h : x ∈ s.reported req) :
    x.inst ∈ s.cachedFor req ∧ x.endpoint ∈ x.inst.getAllEndpoints := by
  unfold reported at h
  split at h
  · cases h
  · obtain ⟨hinst, -, hep, -⟩ := KvCacheAffinityPolicy.mem_collectLoadCandidates h
    exact ⟨hinst, hep⟩

theorem affinityRanking_eq (hagrees : c.Agrees s req.role)
    (hpolicy : s.config.schedulerType = .kvCacheAffinity) (hrole : req.role ∈ kvaSelectRoles) (topK : ℕ) :
    c.affinityRanking (s.cachedFor req) req 0 topK =
      if s.reported req = [] then none
      else some (KvCacheAffinityPolicy.rankByAffinity s.config (s.reported req) (max 1 topK)) := by
  unfold AllocationClient.affinityRanking KvCacheAffinityPolicy.selectEndpointCandidatesFromList
    reported scored
  rw [hagrees.config, if_pos ⟨hpolicy, hrole⟩]
  cases KvCacheAffinityPolicy.queryTenant s.config (s.cachedFor req) req.tokenIds (req.conductor 0) with
  | none => rfl
  | some tenant => simp only [Option.bind_some, List.isEmpty_iff]

theorem propose_byAffinity (hagrees : c.Agrees s req.role)
    (hpolicy : s.config.schedulerType = .kvCacheAffinity) (hrole : req.role ∈ kvaSelectRoles)
    (hreported : s.reported req ≠ []) {ranked : List EndpointCandidate} {debug : AffinityDebug}
    {first : EndpointCandidate} {t : List EndpointCandidate}
    (hranking : KvCacheAffinityPolicy.rankByAffinity s.config (s.reported req)
      (max 1 (c.requestTopK req.role)) = (ranked, debug)) (hfirst : ranked = first :: t) :
    (c.propose (s.manager.rolePools req.role).values req).1 =
      some (c.allocateOnlyRequest req ⟨ranked, .kvCacheAffinity, some debug⟩ first) := by
  have hne : s.cachedFor req ≠ [] := by
    obtain ⟨x, hx⟩ := List.exists_mem_of_ne_nil _ hreported
    exact List.ne_nil_of_mem (mem_reported hx).1
  have hranking' := affinityRanking_eq hagrees hpolicy hrole (c.requestTopK req.role)
  rw [if_neg hreported, hranking] at hranking'
  rcases AllocationClient.selectFromList_cases (c := c) hne req 0 (c.requestTopK req.role) with
    ⟨hturns, -⟩ | ⟨ranked', debug', hsome, heq⟩ | ⟨-, hnone, -⟩
  · rw [hagrees.config, hpolicy] at hturns
    cases hturns
  · rw [hranking'] at hsome
    cases hsome
    rw [AllocationClient.propose_of_first hagrees heq hfirst]
  · rw [hranking'] at hnone
    cases hnone

theorem named_unified (hagrees : c.Agrees s req.role) {raw : List LoadCandidate} (hraw : raw ≠ [])
    (hinst : ∀ x ∈ raw, x.inst ∈ s.cachedFor req) {ranked : List EndpointCandidate}
    {first : EndpointCandidate}
    (hr : r = c.allocateOnlyRequest req ⟨ranked, .kvCacheAffinity,
      some (KvCacheAffinityPolicy.stashAffinityDebug raw true)⟩ first) :
    (∀ x ∈ raw, ∃ a ∈ r.candidates, (a.instanceId, a.endpointId) = (x.inst.id, x.endpoint.id)) ∧
      (∀ a ∈ r.candidates, a.prefillCost.isSome = true) ∧
      ∀ a ∈ r.candidates, ∃ x ∈ raw, x.inst.id = a.instanceId := by
  have hcosts : ∀ a ∈ r.candidates, a.prefillCost.isSome = true := by
    have hcandidates : r.candidates = c.candidateEndpoints req ⟨ranked, .kvCacheAffinity,
        some (KvCacheAffinityPolicy.stashAffinityDebug raw true)⟩ := by rw [hr]; rfl
    intro a ha
    rw [hcandidates, AllocationClient.candidateEndpoints,
      if_pos (AllocationClient.globalAffinity_unified hraw)] at ha
    obtain ⟨p, -, hentry⟩ := List.mem_filterMap.mp ha
    split at hentry
    · next hcost =>
      cases hentry
      exact (Bool.and_eq_true_iff.mp hcost).1
    · cases hentry
  refine ⟨fun x hx => ?_, hcosts, fun a ha => ?_⟩
  · obtain ⟨cost, hcost⟩ : ∃ cost, (x.inst.id, x.endpoint.id, cost) ∈ r.affinityCandidates := by
      rw [hr]
      exact AllocationClient.exists_affinityCandidate_unified hagrees hx (hinst x hx)
    obtain ⟨a, ha, hids⟩ := List.mem_filterMap.mp hcost
    obtain ⟨cost', -, heq⟩ := Option.map_eq_some_iff.mp hids
    simp only [Prod.mk.injEq] at heq
    exact ⟨a, ha, Prod.ext heq.1 heq.2.1⟩
  · obtain ⟨cost, hcost⟩ := Option.isSome_iff_exists.mp (hcosts a ha)
    have hsent : (a.instanceId, a.endpointId, cost) ∈ r.affinityCandidates :=
      List.mem_filterMap.mpr ⟨a, ha, by rw [hcost]; rfl⟩
    rw [hr] at hsent
    obtain ⟨x, hx, heq⟩ := AllocationClient.mem_affinityCandidates_unified hraw hsent
    exact ⟨x, hx, (congrArg Prod.fst heq).symm⟩

/-- **In the unified mode, a healthy instance is found if one is reported.** -/
theorem answers_unified_iff (hfiled : s.manager.Filed) (hagrees : c.Agrees s req.role)
    (hpolicy : s.config.schedulerType = .kvCacheAffinity) (hrole : req.role ∈ kvaSelectRoles)
    (hmode : s.config.kvAffinity.mode = .unified) (hreported : s.reported req ≠ []) :
    s.Answers c fastPath req ↔ ∃ x ∈ s.reported req, x.inst.id ∉ s.openCircuits := by
  obtain ⟨first, t, hfirst⟩ := KvCacheAffinityPolicy.exists_selectWithLoad_cons s.config hreported
    (max 1 (c.requestTopK req.role))
  obtain ⟨x₀, hx₀, hinst₀, hendpoint₀, -⟩ := KvCacheAffinityPolicy.selectWithLoad_first hfirst
  have hpropose := propose_byAffinity hagrees hpolicy hrole hreported
    (KvCacheAffinityPolicy.rankByAffinity_unified hmode _) hfirst
  obtain ⟨r, hr⟩ : ∃ r, r = c.allocateOnlyRequest req ⟨(KvCacheAffinityPolicy.selectWithLoad s.config
      (s.reported req) (max 1 (c.requestTopK req.role))).1, .kvCacheAffinity,
    some (KvCacheAffinityPolicy.stashAffinityDebug (s.reported req) true)⟩ first := ⟨_, rfl⟩
  rw [← hr] at hpropose
  obtain ⟨hsent, hcosts, hscored⟩ := named_unified hagrees hreported (fun x hx => (mem_reported hx).1) hr
  have hids : (r.instanceId, r.endpointId) = (x₀.inst.id, x₀.endpoint.id) := by
    rw [hr, ← hinst₀, ← hendpoint₀]
    rfl
  have hselected : (∃ e, s.selectCandidate fastPath r = some e) ↔
      ∃ a ∈ r.candidates, a.instanceId ∉ s.openCircuits :=
    exists_selectCandidate_byAffinity hfiled (namesListed_of_propose hagrees hpropose).1 (by rw [hr]; rfl)
      (hids ▸ hsent x₀ hx₀) (Or.inr hcosts)
  rw [answers_iff_of_propose hpropose, hselected]
  constructor
  · rintro ⟨a, ha, hclosed⟩
    obtain ⟨x, hx, hid⟩ := hscored a ha
    exact ⟨x, hx, hid ▸ hclosed⟩
  · rintro ⟨x, hx, hclosed⟩
    obtain ⟨a, ha, hids⟩ := hsent x hx
    exact ⟨a, ha, (Prod.mk.inj hids).1 ▸ hclosed⟩

theorem gateSize_pos (cfg : SchedulerConfig) : 0 < gateSize cfg := by
  unfold gateSize
  split
  · omega
  · exact Nat.two_pos

theorem exists_proposed_loadGated (cfg : SchedulerConfig) {raw : List LoadCandidate} (hraw : raw ≠ []) :
    ∃ first t, (KvCacheAffinityPolicy.selectLoadGated cfg raw affinityCandidateTopk).1 = first :: t := by
  have hrank : rank (·.loadCost) raw ≠ [] := fun h => hraw (Ranking.rank_eq_nil.mp h)
  have hgate : KvCacheAffinityPolicy.gateByLoad cfg raw ≠ [] := by
    unfold KvCacheAffinityPolicy.gateByLoad
    rw [ne_eq, Ranking.rank_eq_nil, List.take_eq_nil_iff, not_or]
    exact ⟨(gateSize_pos cfg).ne', hrank⟩
  obtain ⟨x, t, hx⟩ := List.exists_cons_of_ne_nil hgate
  unfold KvCacheAffinityPolicy.selectLoadGated
  rw [hx]
  exact ⟨_, _, rfl⟩

theorem named_loadGated {raw : List LoadCandidate} {ranked : List EndpointCandidate}
    {first : EndpointCandidate}
    (hr : r = c.allocateOnlyRequest req ⟨ranked, .kvCacheAffinity,
      some (KvCacheAffinityPolicy.stashAffinityDebug raw false)⟩ first) :
    r.affinityCandidates = [] ∧
      r.candidates.map (fun a => (a.instanceId, a.endpointId)) =
        ranked.map fun e => (e.inst.id, e.endpoint.id) := by
  constructor
  · rw [hr]
    exact AllocationClient.affinityCandidates_of_not_global AllocationClient.globalAffinity_loadGated
  · have hcandidates : r.candidates = c.candidateEndpoints req ⟨ranked, .kvCacheAffinity,
        some (KvCacheAffinityPolicy.stashAffinityDebug raw false)⟩ := by rw [hr]; rfl
    rw [hcandidates, AllocationClient.candidateEndpoints, AllocationClient.globalAffinity_loadGated,
      if_neg Bool.false_ne_true, if_pos rfl, AllocationClient.rankedEndpoints, List.map_map]
    rfl

/-- **With a load gate, a healthy instance is found if it is one of those that are proposed.** -/
theorem answers_loadGated_iff (hfiled : s.manager.Filed) (hagrees : c.Agrees s req.role)
    (hpolicy : s.config.schedulerType = .kvCacheAffinity) (hrole : req.role ∈ kvaSelectRoles)
    (hmode : s.config.kvAffinity.mode = .loadGated) (hreported : s.reported req ≠ []) :
    s.Answers c fastPath req ↔
      ∃ x ∈ (KvCacheAffinityPolicy.gateByLoad s.config (s.reported req)).take affinityCandidateTopk,
        x.inst.id ∉ s.openCircuits := by
  have htop : max 1 (c.requestTopK req.role) = affinityCandidateTopk := by
    unfold AllocationClient.requestTopK
    rw [hagrees.config, if_pos ⟨hrole, hpolicy, by rw [hmode]; decide⟩]
    rfl
  obtain ⟨first, t, hfirst⟩ := exists_proposed_loadGated s.config hreported
  have hpropose := propose_byAffinity hagrees hpolicy hrole hreported
    (by rw [htop]; exact KvCacheAffinityPolicy.rankByAffinity_loadGated hmode _) hfirst
  obtain ⟨r, hr⟩ : ∃ r, r = c.allocateOnlyRequest req ⟨(KvCacheAffinityPolicy.selectLoadGated s.config
      (s.reported req) affinityCandidateTopk).1, .kvCacheAffinity,
    some (KvCacheAffinityPolicy.stashAffinityDebug (s.reported req) false)⟩ first := ⟨_, rfl⟩
  rw [← hr] at hpropose
  obtain ⟨hcosts, hnamed⟩ := named_loadGated hr
  have hids : ∀ k, (∃ a ∈ r.candidates, (a.instanceId, a.endpointId) = k) ↔
      ∃ x ∈ (KvCacheAffinityPolicy.gateByLoad s.config (s.reported req)).take affinityCandidateTopk,
        (x.inst.id, x.endpoint.id) = k := by
    intro k
    rw [← List.mem_map, hnamed, KvCacheAffinityPolicy.selectLoadGated, List.map_map, List.mem_map]
    rfl
  have hnamesFirst : ∃ a ∈ r.candidates, (a.instanceId, a.endpointId) = (r.instanceId, r.endpointId) := by
    rw [← List.mem_map, hnamed, hfirst, hr]
    exact List.mem_cons_self
  have hselected : (∃ e, s.selectCandidate fastPath r = some e) ↔
      ∃ a ∈ r.candidates, a.instanceId ∉ s.openCircuits :=
    exists_selectCandidate_byAffinity hfiled (namesListed_of_propose hagrees hpropose).1 (by rw [hr]; rfl)
      hnamesFirst (Or.inl hcosts)
  rw [answers_iff_of_propose hpropose, hselected]
  constructor
  · rintro ⟨a, ha, hclosed⟩
    obtain ⟨x, hx, heq⟩ := (hids _).mp ⟨a, ha, rfl⟩
    exact ⟨x, hx, (Prod.mk.inj heq).1 ▸ hclosed⟩
  · rintro ⟨x, hx, hclosed⟩
    obtain ⟨a, ha, heq⟩ := (hids _).mpr ⟨x, hx, rfl⟩
    exact ⟨a, ha, (Prod.mk.inj heq).1 ▸ hclosed⟩

/-! ### The load gate -/

theorem pairwise_zipIdx {α : Type} (l : List α) : l.zipIdx.Pairwise fun p q => p.2 < q.2 := by
  rw [← List.pairwise_map (f := Prod.snd) (R := (· < ·)), List.zipIdx_map_snd]
  exact List.pairwise_lt_range'

theorem gateByLoad_eq (cfg : SchedulerConfig) (raw : List LoadCandidate) :
    KvCacheAffinityPolicy.gateByLoad cfg raw =
      (rank (fun p => toLex (-p.1.matchedTokens, p.1.loadCost))
        ((rank (fun p => p.1.loadCost) raw.zipIdx).take (gateSize cfg))).map Prod.fst := by
  have hraw : raw = raw.zipIdx.map Prod.fst := (List.zipIdx_map_fst 0 raw).symm
  have hloads : rank (·.loadCost) raw = (rank (fun p => p.1.loadCost) raw.zipIdx).map Prod.fst := by
    conv_lhs => rw [hraw]
    exact Ranking.rank_map Prod.fst raw.zipIdx
  unfold KvCacheAffinityPolicy.gateByLoad
  simp only
  rw [hloads, ← List.map_take, Ranking.rank_map]
  rfl

theorem take_rank_gate (cfg : SchedulerConfig) (raw : List LoadCandidate) :
    (rank (fun p => p.1.loadCost) raw.zipIdx).take (gateSize cfg) =
      (rank (fun p => p.1.loadCost) raw.zipIdx).filter fun p => decide (PassesGate cfg raw p) :=
  Ranking.take_rank (r := fun p q : LoadCandidate × ℕ => p.2 < q.2) (fun _ => lt_irrefl _)
    (fun _ _ => lt_asymm) (pairwise_zipIdx raw) (gateSize cfg)

/-- **The endpoints that a load gate lets through first** are those that few come before. -/
theorem mem_gateByLoad_iff (cfg : SchedulerConfig) (raw : List LoadCandidate) (x : LoadCandidate) :
    x ∈ (KvCacheAffinityPolicy.gateByLoad cfg raw).take affinityCandidateTopk ↔
      ∃ p ∈ raw.zipIdx, p.1 = x ∧ WithinGate cfg raw p := by
  have hirrefl : ∀ p : LoadCandidate × ℕ, ¬LessLoaded p p := by
    unfold LessLoaded
    refine Before.irrefl ?_
    exact fun _ => lt_irrefl _
  have hasymm : ∀ p q : LoadCandidate × ℕ, LessLoaded p q → ¬LessLoaded q p := by
    unfold LessLoaded
    refine Before.asymm ?_
    exact fun _ _ => lt_asymm
  have hordered : ((rank (fun p => p.1.loadCost) raw.zipIdx).filter fun p =>
      decide (PassesGate cfg raw p)).Pairwise LessLoaded :=
    (Ranking.rank_pairwise_before (pairwise_zipIdx raw)).filter _
  have hcount (p : LoadCandidate × ℕ) : ((rank (fun p => p.1.loadCost) raw.zipIdx).filter fun p =>
      decide (PassesGate cfg raw p)).countP (MatchesMore · p) =
        raw.zipIdx.countP fun q => MatchesMore q p ∧ PassesGate cfg raw q := by
    rw [List.countP_filter, (Ranking.rank_perm _ raw.zipIdx).countP_eq]
    simp only [Bool.decide_and]
  rw [gateByLoad_eq, take_rank_gate, ← List.map_take, List.mem_map]
  rw [Ranking.take_rank hirrefl hasymm hordered affinityCandidateTopk]
  simp only [List.mem_filter, Ranking.mem_rank, decide_eq_true_eq]
  constructor
  · rintro ⟨p, ⟨⟨hp, hpasses⟩, hbefore⟩, rfl⟩
    exact ⟨p, hp, rfl, hpasses, hcount p ▸ hbefore⟩
  · rintro ⟨p, hp, rfl, hpasses, hbefore⟩
    exact ⟨p, ⟨⟨hp, hpasses⟩, (hcount p).symm ▸ hbefore⟩, rfl⟩

theorem answers_byAffinity_iff (hfiled : s.manager.Filed) (hagrees : c.Agrees s req.role)
    (hpolicy : s.config.schedulerType = .kvCacheAffinity) (hrole : req.role ∈ kvaSelectRoles)
    (hreported : s.reported req ≠ []) :
    s.Answers c fastPath req ↔ ∃ p ∈ (s.reported req).zipIdx, p.1.inst.id ∉ s.openCircuits ∧
      (s.config.kvAffinity.mode = .loadGated → WithinGate s.config (s.reported req) p) := by
  cases hmode : s.config.kvAffinity.mode with
  | unified =>
    rw [answers_unified_iff hfiled hagrees hpolicy hrole hmode hreported]
    constructor
    · rintro ⟨x, hx, hclosed⟩
      obtain ⟨i, hi⟩ := List.getElem?_of_mem hx
      exact ⟨(x, i), List.mem_zipIdx_iff_getElem?.mpr hi, hclosed, fun h => by cases h⟩
    · rintro ⟨p, hp, hclosed, -⟩
      exact ⟨p.1, List.mem_of_getElem? (List.mem_zipIdx_iff_getElem?.mp hp), hclosed⟩
  | loadGated =>
    rw [answers_loadGated_iff hfiled hagrees hpolicy hrole hmode hreported]
    constructor
    · rintro ⟨x, hx, hclosed⟩
      obtain ⟨p, hp, rfl, hwithin⟩ := (mem_gateByLoad_iff _ _ x).mp hx
      exact ⟨p, hp, hclosed, fun _ => hwithin⟩
    · rintro ⟨p, hp, hclosed, hwithin⟩
      exact ⟨p.1, (mem_gateByLoad_iff _ _ p.1).mpr ⟨p, hp, rfl, hwithin rfl⟩, hclosed⟩

/-! ## When a healthy instance is found -/

/-- If neither turns nor the affinity decide, a healthy instance is found if there is one. -/
theorem answers_of_no_ranking (hfiled : s.manager.Filed) (hagrees : c.Agrees s req.role)
    (hturns : s.config.schedulerType ≠ .roundRobin)
    (hnone : c.affinityRanking (s.cachedFor req) req 0 (c.requestTopK req.role) = none)
    (heligible : s.HasEligible req) : s.Answers c fastPath req := by
  rcases AllocationClient.selectFromList_cases (c := c) heligible.cachedFor_ne_nil req 0
      (c.requestTopK req.role) with ⟨hturns', -⟩ | ⟨ranked, debug, hsome, -⟩ | ⟨-, -, hselect⟩
  · exact absurd (hagrees.config ▸ hturns') hturns
  · rw [hnone] at hsome
    cases hsome
  · exact answers_byLoad hfiled hagrees hselect heligible

/-- If there is a healthy instance, it is found exactly if the policy gets to one. -/
theorem answers_iff_reaches (hfiled : s.manager.Filed) (hagrees : c.Agrees s req.role)
    (heligible : s.HasEligible req) : s.Answers c fastPath req ↔ s.Reaches c req := by
  unfold Reaches
  cases hpolicy : s.config.schedulerType with
  | roundRobin => exact answers_inTurn_iff hfiled hagrees hpolicy heligible.cachedFor_ne_nil
  | loadBalance =>
    have hnone : c.affinityRanking (s.cachedFor req) req 0 (c.requestTopK req.role) = none := by
      rw [AllocationClient.affinityRanking, hagrees.config, hpolicy, if_neg fun h => by cases h.1]
    exact iff_of_true
      (answers_of_no_ranking hfiled hagrees (by rw [hpolicy]; decide) hnone heligible) trivial
  | kvCacheAffinity =>
    have hturns : s.config.schedulerType ≠ .roundRobin := by
      rw [hpolicy]
      decide
    by_cases hrole : req.role ∈ kvaSelectRoles
    · by_cases hreported : s.reported req = []
      · have hnone := affinityRanking_eq hagrees hpolicy hrole (c.requestTopK req.role)
        rw [if_pos hreported] at hnone
        exact iff_of_true (answers_of_no_ranking hfiled hagrees hturns hnone heligible)
          fun _ hne => absurd hreported hne
      · rw [answers_byAffinity_iff hfiled hagrees hpolicy hrole hreported]
        exact ⟨fun h _ _ => h, fun h => h hrole hreported⟩
    · have hnone : c.affinityRanking (s.cachedFor req) req 0 (c.requestTopK req.role) = none := by
        rw [AllocationClient.affinityRanking, if_neg fun h => hrole h.2]
      exact iff_of_true (answers_of_no_ranking hfiled hagrees hturns hnone heligible)
        fun h => absurd h hrole

end AllocationServer

/-! ## Runs of the scheduler -/

namespace LedgerServer

/-- An `ADD` announces fresh instances. -/
def KeepsPools (s : LedgerServer) : LedgerServerStep → Prop
  | .refresh σ eventType instances => s.manager.KeepsPools (.refresh σ eventType instances)
  | _ => True

instance (s : LedgerServer) : ∀ step, Decidable (s.KeepsPools step)
  | .refresh σ eventType instances =>
    inferInstanceAs (Decidable (s.manager.KeepsPools (.refresh σ eventType instances)))
  | .allocate _ _ => isTrue trivial
  | .update _ _ _ _ => isTrue trivial
  | .circuits _ => isTrue trivial

variable {s s' : LedgerServer}

section Manager

variable {P : InstanceManager → Prop}

theorem manager_writeAgain
    (hread : ∀ m id endpointId, P m → P (m.getEndpointWorkloadSync id endpointId).2)
    (h : P s.manager) (id : InstanceId) (endpointId : EndpointId) :
    P (s.writeAgain id endpointId).manager := by
  have hread := hread s.manager id endpointId h
  unfold writeAgain
  split
  · next heq =>
    rw [heq] at hread
    exact hread
  · next heq =>
    rw [heq] at hread
    exact hread

theorem manager_writeWorkloadEntry
    (hread : ∀ m id endpointId, P m → P (m.getEndpointWorkloadSync id endpointId).2)
    (h : P s.manager) (id : InstanceId) (endpointId : EndpointId) (result : Option (PDRole × Workload)) :
    P (s.writeWorkloadEntry id endpointId result).manager := by
  cases result with
  | none => exact manager_writeAgain hread h id endpointId
  | some result => exact h

theorem manager_updateWorkload
    (hupdate : ∀ m id endpointId change, P m → P (m.updateInstanceWorkloadSync id endpointId change).2)
    (h : P s.manager) (id : InstanceId) (endpointId : EndpointId) (change : Workload) :
    P (s.updateWorkload id endpointId change).2.2.manager := by
  have hupdate := hupdate s.manager id endpointId change h
  unfold LedgerServer.updateWorkload
  split
  · exact h
  · split
    · next heq =>
      rw [heq] at hupdate
      exact hupdate
    · next heq =>
      rw [heq] at hupdate
      exact hupdate

/-- **What a step does to the instance manager**: it refreshes, updates and reads it. -/
theorem exec_manager {step : LedgerServerStep}
    (hread : ∀ m id endpointId, P m → P (m.getEndpointWorkloadSync id endpointId).2)
    (hupdate : ∀ m id endpointId change, P m → P (m.updateInstanceWorkloadSync id endpointId change).2)
    (hrefresh : ∀ σ eventType instances, step = .refresh σ eventType instances →
      P (s.manager.refreshInstances σ eventType instances).2)
    (h : P s.manager) (he : s.exec step = some s') : P s'.manager := by
  cases step with
  | refresh σ eventType instances =>
    cases he
    have hrefresh := hrefresh σ eventType instances rfl
    unfold LedgerServer.handleRefreshInstances
    split
    · next heq =>
      rw [heq] at hrefresh
      exact hrefresh
    · next heq =>
      rw [heq] at hrefresh
      exact hrefresh
  | allocate fastPath r =>
    cases he
    unfold LedgerServer.handleAllocateOnly
    split
    · exact h
    · next e _ =>
      have hupdated := manager_updateWorkload hupdate h e.inst.id e.endpoint.id (r.committedWorkload e)
      simp only
      split
      · next heq =>
        rw [heq] at hupdated
        exact manager_writeWorkloadEntry hread hupdated _ _ _
      · next heq =>
        rw [heq] at hupdated
        exact hupdated
  | update operationId id endpointId change =>
    cases he
    have hupdated := manager_updateWorkload hupdate h id endpointId change
    unfold LedgerServer.handleUpdateWorkload
    split
    · exact manager_writeAgain hread h id endpointId
    · split
      · next heq =>
        rw [heq] at hupdated
        exact manager_writeWorkloadEntry hread (by rw [remember_manager]; exact hupdated) _ _ _
      · next heq =>
        rw [heq] at hupdated
        exact hupdated
  | circuits openCircuits =>
    cases he
    exact h

end Manager

/-- **The pools represent a roster** in every run that adds fresh instances only. -/
theorem represents_of_run {config : SchedulerConfig} {maxEntries : ℕ} {steps : List LedgerServerStep}
    (hrun : Run exec KeepsPools (start config maxEntries) steps s) : ∃ w, s.manager.Represents w := by
  refine hrun.invariant_state (I := fun s => ∃ w, s.manager.Represents w)
    ⟨_, InstanceManager.represents_new⟩ fun {s step s'} h hkeep he => ?_
  refine exec_manager (P := fun m => ∃ w, m.Represents w) ?_ ?_ ?_ h he
  · rintro m id endpointId ⟨w, hw⟩
    rw [hw.getEndpointWorkloadSync]
    exact ⟨w, hw⟩
  · rintro m id endpointId change ⟨w, hw⟩
    exact hw.updateInstanceWorkloadSync id endpointId change
  · rintro σ eventType instances rfl
    exact InstanceManager.exec_represents h hkeep rfl

/-- **A healthy instance is found** exactly if there is none or the policy gets to one, for every worker
that agrees with the scheduler, in every run of the scheduler that adds fresh instances only. -/
theorem healthy_found_iff {config : SchedulerConfig} {maxEntries : ℕ} {steps : List LedgerServerStep}
    {c : AllocationClient} {req : RequestInfo}
    (hrun : Run exec KeepsPools (start config maxEntries) steps s)
    (hagrees : c.Agrees s.toAllocationServer req.role) (fastPath : Bool) :
    s.FindsHealthy req (selectAndAllocate c s.toAllocationServer fastPath req).1 ↔
      (s.HasEligible req → s.Reaches c req) := by
  obtain ⟨w, hpools⟩ := represents_of_run hrun
  rw [AllocationServer.findsHealthy_iff_answers hpools hagrees]
  exact imp_congr_right fun heligible =>
    AllocationServer.answers_iff_reaches hpools.isFiled hagrees heligible

/-! ## Two circuits open -/

open InstanceManager (oneEndpoint)

/-- Three instances, some of which are blocked. -/
def threeInstances (openCircuits : Finset InstanceId) : List LedgerServerStep :=
  [.refresh .insertion .add
    [oneEndpoint 1 "p" "prefill", oneEndpoint 2 "q" "prefill", oneEndpoint 3 "r" "prefill"],
   .circuits openCircuits]

def inTurn : SchedulerConfig := { balancedLoads with schedulerType := .roundRobin }

/-- The configuration by default, with a load gate. -/
def loadGate : SchedulerConfig :=
  { defaultAffinity with kvAffinity := { defaultAffinity.kvAffinity with mode := .loadGated } }

/-- A prompt of a block, of which the first two instances are reported. -/
def firstTwoReported : RequestInfo where
  role := .prefill
  requiredEngineType := none
  tokenIds := List.replicate 128 0
  demand := 128
  conductor := fun _ => some (((∅ : Tenant).insert "vllm-prefill-1" ∅).insert "vllm-prefill-2" ∅)

def isHealthy (s : AllocationServer) (inst : Instance) : Bool :=
  decide (inst.id ∉ s.openCircuits) && !inst.getAllEndpoints.isEmpty

theorem eligible_of_isHealthy {s : AllocationServer} {req : RequestInfo} {inst : Instance}
    (h : isHealthy s inst = true) (hinst : inst ∈ s.cachedFor req) :
    s.Eligible req.role (requiredEngine req.requiredEngineType) inst := by
  obtain ⟨hclosed, hendpoints⟩ := Bool.and_eq_true_iff.mp h
  refine ⟨AllocationServer.mem_cachedFor.mp hinst, of_decide_eq_true hclosed, fun hnil => ?_⟩
  rw [hnil] at hendpoints
  cases hendpoints

/-- Whether there is a healthy instance, and what is found on either path. -/
def thirdFound (config : SchedulerConfig) (req : RequestInfo) : Option (Bool × Bool × Bool) :=
  (runList exec KeepsPools (start config 16) (threeInstances {1, 2})).map fun s =>
    ((s.cachedFor req).any (isHealthy s.toAllocationServer),
      (selectAndAllocate s.workerOf s.toAllocationServer true req).1.isSome,
      (selectAndAllocate s.workerOf s.toAllocationServer false req).1.isSome)

/-- There is a healthy instance, and it is not found on either path. -/
def Misses (config : SchedulerConfig) (req : RequestInfo) : Prop :=
  ∃ s c, Run exec KeepsPools (start config 16) (threeInstances {1, 2}) s ∧
    c.Agrees s.toAllocationServer req.role ∧ s.HasEligible req ∧
    ∀ fastPath, (selectAndAllocate c s.toAllocationServer fastPath req).1 = none ∧
      ¬s.FindsHealthy req (selectAndAllocate c s.toAllocationServer fastPath req).1

theorem misses_of_thirdFound {config : SchedulerConfig} {req : RequestInfo}
    (h : thirdFound config req = some (true, false, false)) : Misses config req := by
  obtain ⟨s, hs, hfacts⟩ := Option.map_eq_some_iff.mp h
  simp only [Prod.mk.injEq, List.any_eq_true] at hfacts
  obtain ⟨⟨inst, hinst, hhealthy⟩, hfast, hslow⟩ := hfacts
  have heligible : s.HasEligible req := ⟨inst, eligible_of_isHealthy hhealthy hinst⟩
  refine ⟨s, s.workerOf, runList_run hs, s.workerOf_agrees _, heligible, fun fastPath => ?_⟩
  have hnone : (selectAndAllocate s.workerOf s.toAllocationServer fastPath req).1 = none := by
    apply Option.not_isSome_iff_eq_none.mp
    cases fastPath with
    | false => exact Bool.eq_false_iff.mp hslow
    | true => exact Bool.eq_false_iff.mp hfast
  refine ⟨hnone, fun h => ?_⟩
  obtain ⟨_, _, _, _, _, hanswer⟩ := h.found heligible
  rw [hnone] at hanswer
  cases hanswer

/-- The third instance is not found if the first two are blocked: in turn, with a load gate, and in the
unified mode if only they are reported. -/
theorem third_not_found :
    Misses inTurn shortPrompt ∧ Misses loadGate shortPrompt ∧ Misses defaultAffinity firstTwoReported :=
  ⟨misses_of_thirdFound (by decide +kernel), misses_of_thirdFound (by decide +kernel),
    misses_of_thirdFound (by decide +kernel)⟩

/-- In turn, the second instance is found if the first is blocked. -/
theorem second_found : ∃ s, Run exec KeepsPools (start inTurn 16) (threeInstances {1}) s ∧
    s.FindsHealthy shortPrompt (selectAndAllocate s.workerOf s.toAllocationServer true shortPrompt).1 := by
  have hfacts : (runList exec KeepsPools (start inTurn 16) (threeInstances {1})).map (fun s =>
      (s.config.schedulerType, (s.cachedFor shortPrompt)[(s.workerOf.instanceRrCounters shortPrompt.role +
        s.workerOf.startIndex (s.cachedFor shortPrompt).length + 1) %
          (s.cachedFor shortPrompt).length]?.any (isHealthy s.toAllocationServer))) =
        some (.roundRobin, true) := by
    decide +kernel
  obtain ⟨s, hs, hfacts⟩ := Option.map_eq_some_iff.mp hfacts
  obtain ⟨hpolicy, hturn⟩ := Prod.mk.inj hfacts
  obtain ⟨inst, hinst, hhealthy⟩ := (Option.any_eq_true _ _).mp hturn
  refine ⟨s, runList_run hs,
    (healthy_found_iff (runList_run hs) (s.workerOf_agrees _) true).mpr fun _ => ?_⟩
  unfold AllocationServer.Reaches
  rw [hpolicy]
  exact ⟨1, Nat.one_lt_two, inst, hinst, eligible_of_isHealthy hhealthy (List.mem_of_getElem? hinst)⟩

end LedgerServer

end PyMotor.Coordinator
