import PyMotor.Coordinator.Scheduler

/-!
# What the selections give

One lemma for each selection of `Coordinator/Scheduler`: which endpoints it goes through, which of
them comes first, and when it finds none. The instances of a role are the same for the worker and the
scheduler, up to their order.
-/

namespace PyMotor.Coordinator

open Ranking (rank scanBest)

/-! ## Engines -/

theorem toLower_toNat (c : Char) :
    c.toLower = c ∨ (65 ≤ c.toNat ∧ c.toNat ≤ 90 ∧ c.toLower.toNat = c.toNat + 32) := by
  unfold Char.toLower
  split
  · next h =>
    obtain ⟨hA, hZ⟩ := h
    have hA' : 65 ≤ c.toNat := UInt32.le_iff_toNat_le.mp hA
    have hZ' : c.toNat ≤ 90 := UInt32.le_iff_toNat_le.mp hZ
    refine Or.inr ⟨hA', hZ', ?_⟩
    have hval : c.val.toNat = c.toNat := rfl
    simp only [Char.toNat, UInt32.toNat_add]
    have h32 : ('a'.val - 'A'.val).toNat = 32 := by decide
    rw [h32]
    omega
  · exact Or.inl rfl

theorem not_isSpace_of_letter {c : Char} (h : 65 ≤ c.toNat ∧ c.toNat ≤ 122) : isSpace c = false := by
  unfold isSpace
  rw [Bool.or_eq_false_iff, decide_eq_false_iff_not, decide_eq_false_iff_not]
  simp only [List.mem_cons, List.not_mem_nil, or_false]
  omega

theorem isSpace_toLower (c : Char) : isSpace c.toLower = isSpace c := by
  rcases toLower_toNat c with heq | ⟨hA, hZ, hlower⟩
  · rw [heq]
  · rw [not_isSpace_of_letter (c := c) (by omega), not_isSpace_of_letter (by omega)]

theorem toLower_toLower (c : Char) : c.toLower.toLower = c.toLower := by
  rcases toLower_toNat c with heq | ⟨hA, hZ, hlower⟩
  · rw [heq, heq]
  · rcases toLower_toNat c.toLower with heq | ⟨hA', hZ', -⟩
    · exact heq
    · omega

theorem dropWhile_map_toLower (l : List Char) :
    (l.map Char.toLower).dropWhile isSpace = (l.dropWhile isSpace).map Char.toLower := by
  rw [List.dropWhile_map]
  congr 1
  exact congrArg (l.dropWhile ·) (funext isSpace_toLower)

theorem rdropWhile_map_toLower (l : List Char) :
    (l.map Char.toLower).rdropWhile isSpace = (l.rdropWhile isSpace).map Char.toLower := by
  rw [List.rdropWhile, ← List.map_reverse, dropWhile_map_toLower, ← List.map_reverse]
  rfl

theorem dropWhile_rdropWhile {l : List Char} (h : l.dropWhile isSpace = l) :
    (l.rdropWhile isSpace).dropWhile isSpace = l.rdropWhile isSpace := by
  rw [List.dropWhile_eq_self_iff] at h ⊢
  intro hne
  have hinit : l.rdropWhile isSpace <+: l := List.rdropWhile_prefix isSpace l
  have hl : 0 < l.length := Nat.lt_of_lt_of_le hne hinit.length_le
  rw [hinit.getElem hne]
  exact h hl

theorem normalizeEngineType_idem (s : String) :
    normalizeEngineType (normalizeEngineType s) = normalizeEngineType s := by
  unfold normalizeEngineType
  rw [String.toList_ofList, dropWhile_map_toLower,
    dropWhile_rdropWhile (List.dropWhile_idempotent _ _), rdropWhile_map_toLower,
    List.rdropWhile_idempotent, List.map_map]
  exact congrArg String.ofList (List.map_congr_left fun c _ => toLower_toLower c)

theorem requiredEngine_idem (required : Option String) :
    requiredEngine (requiredEngine required) = requiredEngine required := by
  unfold requiredEngine
  simp only
  split
  · next h => rfl
  · next h =>
    rw [Option.getD_some, normalizeEngineType_idem, if_neg h]

theorem filterInstancesByEngineType_eq (instances : List Instance) (required : Option String) :
    filterInstancesByEngineType instances required =
      instances.filter fun inst => AllocationServer.matchesEngineType inst (requiredEngine required) := by
  unfold filterInstancesByEngineType AllocationServer.matchesEngineType
  rw [requiredEngine_idem]
  cases requiredEngine required with
  | none => simp
  | some engine => rfl

/-! ## Pools -/

namespace InstanceManager

/-- An instance is in the pool of its own role and under its own id, and nowhere else. -/
structure Filed (m : InstanceManager) : Prop where
  keyed : ∀ role id inst, (m.rolePools role).get? id = some inst → inst.id = id
  known : ∀ role id inst, (m.rolePools role).get? id = some inst →
    PDRole.ofString inst.role = some role
  disjoint : ∀ role role' id inst inst', (m.rolePools role).get? id = some inst →
    (m.rolePools role').get? id = some inst' → role = role'

variable {m : InstanceManager} {w : Roster} {role : PDRole} {id : InstanceId} {inst : Instance}

theorem Represents.isFiled (h : Represents m w) : m.Filed where
  keyed role id inst hget := (h.fits id _ (h.get?_rolePools.mp hget).1).keyed
  known role id inst hget := (h.get?_rolePools.mp hget).2
  disjoint role role' id inst inst' hget hget' := by
    obtain ⟨hw, hrole⟩ := h.get?_rolePools.mp hget
    obtain ⟨hw', hrole'⟩ := h.get?_rolePools.mp hget'
    rw [hw] at hw'
    cases hw'
    rw [hrole] at hrole'
    exact Option.some.inj hrole'

end InstanceManager

namespace AllocationServer

variable {s : AllocationServer} {role : PDRole} {required : Option String} {inst : Instance}
  {ep : Endpoint} {id : InstanceId} {endpointId : EndpointId}

/-- The instances that a request may go to, in the order of the pool. -/
def instancesFor (s : AllocationServer) (role : PDRole) (required : Option String) : List Instance :=
  (s.manager.rolePools role).values.filter fun inst => matchesEngineType inst required

theorem mem_instancesFor (hfiled : s.manager.Filed) : inst ∈ s.instancesFor role required ↔
    (s.manager.rolePools role).get? inst.id = some inst ∧ matchesEngineType inst required = true := by
  unfold instancesFor
  rw [List.mem_filter, Dict.mem_values_iff]
  refine and_congr_left fun _ => ⟨?_, fun h => ⟨_, h⟩⟩
  rintro ⟨id, hget⟩
  rwa [hfiled.keyed role id inst hget]

/-- The instances that a worker chooses from. -/
def cachedFor (s : AllocationServer) (req : RequestInfo) : List Instance :=
  filterInstancesByEngineType (sortById (s.manager.rolePools req.role).values) req.requiredEngineType

theorem cachedFor_perm (s : AllocationServer) (req : RequestInfo) :
    (s.cachedFor req).Perm (s.instancesFor req.role (requiredEngine req.requiredEngineType)) := by
  unfold cachedFor
  rw [filterInstancesByEngineType_eq]
  exact (List.perm_insertionSort _ _).filter _

theorem ofString_of_mem_instancesFor (hfiled : s.manager.Filed)
    (h : inst ∈ s.instancesFor role required) : PDRole.ofString inst.role = some role :=
  hfiled.known role _ inst ((mem_instancesFor hfiled).mp h).1

theorem inst_eq_of_id (hfiled : s.manager.Filed) {inst' : Instance}
    (h : inst ∈ s.instancesFor role required) (h' : inst' ∈ s.instancesFor role required)
    (hid : inst.id = inst'.id) : inst = inst' := by
  have hget := ((mem_instancesFor hfiled).mp h).1
  rw [hid, ((mem_instancesFor hfiled).mp h').1] at hget
  exact (Option.some.inj hget).symm

/-! ## A single endpoint -/

theorem findSome?_all {α : Type} {f : PDRole → Option α} {a : α} (role : PDRole) (h : f role = some a)
    (hothers : ∀ role', role' ≠ role → f role' = none) : PDRole.all.findSome? f = some a := by
  have hnone : ∀ role', f role' = if role' = role then some a else none := by
    intro role'
    by_cases heq : role' = role
    · rw [if_pos heq, heq, h]
    · rw [if_neg heq, hothers role' heq]
  rw [funext hnone]
  cases role <;> rfl

/-- The pools of the other roles do not have the instance. -/
theorem findAvailableInstanceEndpoint_eq (hfiled : s.manager.Filed)
    (hget : (s.manager.rolePools role).get? id = some inst) :
    s.findAvailableInstanceEndpoint id endpointId =
      (inst.allEndpoints.find? fun ep => decide (ep.id = endpointId)).map (inst, ·) := by
  have hothers : ∀ role', role' ≠ role → (s.manager.rolePools role').get? id = none := by
    intro role' hne
    cases hget' : (s.manager.rolePools role').get? id with
    | none => rfl
    | some inst' => exact absurd (hfiled.disjoint role' role id inst' inst hget' hget) hne
  unfold findAvailableInstanceEndpoint
  cases hfind : inst.allEndpoints.find? fun ep => decide (ep.id = endpointId) with
  | none =>
    rw [Option.map_none, List.findSome?_eq_none_iff]
    intro role' _
    by_cases heq : role' = role
    · rw [heq, hget, Option.bind_some, hfind, Option.map_none]
    · rw [hothers role' heq, Option.bind_none]
  | some ep =>
    rw [Option.map_some]
    refine findSome?_all role ?_ ?_
    · rw [hget, Option.bind_some, hfind, Option.map_some]
    · intro role' hne
      rw [hothers role' hne, Option.bind_none]

theorem selectValidCandidate_eq_some (hfiled : s.manager.Filed) {e : EndpointCandidate} :
    s.selectValidCandidate (id, endpointId) role required = some e ↔
      id ∉ s.openCircuits ∧ ∃ inst ∈ s.instancesFor role required, inst.id = id ∧
        ∃ ep, inst.allEndpoints.find? (fun ep => decide (ep.id = endpointId)) = some ep ∧
          e = ⟨inst, ep, LoadBalancePolicy.calculateEndpointScore inst ep
            s.config.instanceScoreWeight⟩ := by
  unfold selectValidCandidate isInstanceCircuitOpen
  by_cases hopen : id ∈ s.openCircuits
  · simp [hopen]
  · simp only [hopen, decide_false, Bool.false_eq_true, if_false, not_false_eq_true, true_and,
      Option.bind_eq_some_iff, Option.ite_none_right_eq_some, Option.some.injEq]
    constructor
    · rintro ⟨⟨inst, ep⟩, hfind, ⟨hengine, hrole⟩, rfl⟩
      obtain ⟨role', hmem, hbind⟩ := List.exists_of_findSome?_eq_some hfind
      obtain ⟨inst', hget, hep⟩ := Option.bind_eq_some_iff.mp hbind
      obtain ⟨ep', hep, heq⟩ := Option.map_eq_some_iff.mp hep
      cases heq
      rw [hfiled.known role' id inst hget, Option.getD_some] at hrole
      subst hrole
      obtain rfl : inst.id = id := hfiled.keyed role' id inst hget
      exact ⟨inst, (mem_instancesFor hfiled).mpr ⟨hget, hengine⟩, rfl, ep, hep, rfl⟩
    · rintro ⟨inst, hinst, rfl, ep, hep, rfl⟩
      obtain ⟨hget, hengine⟩ := (mem_instancesFor hfiled).mp hinst
      refine ⟨(inst, ep), ?_, ⟨hengine, ?_⟩, rfl⟩
      · rw [findAvailableInstanceEndpoint_eq hfiled hget, hep, Option.map_some]
      · rw [ofString_of_mem_instancesFor hfiled hinst, Option.getD_some]

end AllocationServer

/-! ## By load -/

namespace LoadBalancePolicy

variable {instances : List Instance} {topK startIndex : ℕ} {weight : ℚ}
  {isBlocked : InstanceId → Bool} {e : EndpointCandidate} {t : List EndpointCandidate}

theorem mem_scoreEndpoints : e ∈ scoreEndpoints instances weight isBlocked ↔
    e.inst ∈ instances ∧ isBlocked e.inst.id = false ∧ e.endpoint ∈ e.inst.getAllEndpoints ∧
      e.score = calculateEndpointScore e.inst e.endpoint weight := by
  unfold scoreEndpoints
  rw [List.mem_flatMap]
  constructor
  · rintro ⟨inst, hinst, h⟩
    split at h
    · cases h
    · next hopen =>
      obtain ⟨ep, hep, rfl⟩ := List.mem_map.mp h
      exact ⟨hinst, Bool.eq_false_iff.mpr hopen, hep, rfl⟩
  · rintro ⟨hinst, hopen, hep, hscore⟩
    refine ⟨e.inst, hinst, ?_⟩
    rw [hopen, if_neg (by decide), List.mem_map]
    exact ⟨e.endpoint, hep, by rw [← hscore]⟩

theorem mem_scoreEndpoints_rotate (n : ℕ) : e ∈ scoreEndpoints (instances.rotate n) weight isBlocked ↔
    e ∈ scoreEndpoints instances weight isBlocked := by
  rw [mem_scoreEndpoints, mem_scoreEndpoints, List.mem_rotate]

/-- Where the traversal starts does not matter for what is the least score. -/
theorem selectEndpointCandidatesFromList_first
    (h : selectEndpointCandidatesFromList instances topK weight startIndex isBlocked = e :: t) :
    e ∈ scoreEndpoints instances weight isBlocked ∧
      ∀ e' ∈ scoreEndpoints instances weight isBlocked, e.score ≤ e'.score := by
  obtain ⟨t', hrank⟩ : ∃ t', rank (·.score)
      (scoreEndpoints (instances.rotate startIndex) weight isBlocked) = e :: t' := by
    unfold selectEndpointCandidatesFromList at h
    cases hrank : rank (·.score) (scoreEndpoints (instances.rotate startIndex) weight isBlocked) with
    | nil =>
      rw [hrank, List.take_nil] at h
      cases h
    | cons a t' =>
      rw [hrank] at h
      cases topK with
      | zero => cases h
      | succ k =>
        cases h
        exact ⟨t', rfl⟩
  obtain ⟨hmem, hleast⟩ := Ranking.rank_first hrank
  exact ⟨(mem_scoreEndpoints_rotate _).mp hmem,
    fun e' he' => hleast e' ((mem_scoreEndpoints_rotate _).mpr he')⟩

theorem selectEndpointCandidatesFromList_ne_nil (htop : 0 < topK)
    (h : e ∈ scoreEndpoints instances weight isBlocked) :
    ∃ e t, selectEndpointCandidatesFromList instances topK weight startIndex isBlocked = e :: t := by
  have hmem := (mem_scoreEndpoints_rotate startIndex).mpr h
  obtain ⟨a, t, hrank⟩ := Ranking.exists_rank_cons EndpointCandidate.score (List.ne_nil_of_mem hmem)
  obtain ⟨k, rfl⟩ := Nat.exists_eq_add_one.mpr htop
  exact ⟨a, t.take k, by rw [selectEndpointCandidatesFromList, hrank, List.take_succ_cons]⟩

end LoadBalancePolicy

namespace AllocationServer

variable {s : AllocationServer} {role : PDRole} {required : Option String} {e : EndpointCandidate}

/-- The endpoints that may be taken, with their scores. -/
def takeable (s : AllocationServer) (role : PDRole) (required : Option String) :
    List EndpointCandidate :=
  LoadBalancePolicy.scoreEndpoints (s.instancesFor role required) s.config.instanceScoreWeight
    s.isInstanceCircuitOpen

theorem mem_takeable : e ∈ s.takeable role required ↔
    e.inst ∈ s.instancesFor role required ∧ e.inst.id ∉ s.openCircuits ∧
      e.endpoint ∈ e.inst.getAllEndpoints ∧
      e.score = LoadBalancePolicy.calculateEndpointScore e.inst e.endpoint
        s.config.instanceScoreWeight := by
  unfold takeable
  rw [LoadBalancePolicy.mem_scoreEndpoints, isInstanceCircuitOpen, decide_eq_false_iff_not]

theorem selectGlobalLoadBalanceCandidate_eq_some
    (h : s.selectGlobalLoadBalanceCandidate role required = some e) :
    e ∈ s.takeable role required ∧ ∀ e' ∈ s.takeable role required, e.score ≤ e'.score := by
  obtain ⟨t, ht⟩ := List.head?_eq_some_iff.mp h
  exact LoadBalancePolicy.selectEndpointCandidatesFromList_first ht

theorem selectGlobalLoadBalanceCandidate_isSome (h : e ∈ s.takeable role required) :
    ∃ e', s.selectGlobalLoadBalanceCandidate role required = some e' := by
  have hfirst : ∃ e' t, LoadBalancePolicy.selectEndpointCandidatesFromList
      (s.instancesFor role required) 1 s.config.instanceScoreWeight 0 s.isInstanceCircuitOpen =
        e' :: t :=
    LoadBalancePolicy.selectEndpointCandidatesFromList_ne_nil Nat.one_pos h
  obtain ⟨e', t, ht⟩ := hfirst
  exact ⟨e', List.head?_eq_some_iff.mpr ⟨t, ht⟩⟩

end AllocationServer

/-! ## The worker -/

namespace AllocationClient

variable {c c' : AllocationClient} {s : AllocationServer} {instances : List Instance} {role : PDRole}
  {req : RequestInfo} {attempt topK : ℕ} {inst : Instance}

/-- The worker has the instances of a role, the block set and the configuration of the scheduler. -/
structure Agrees (c : AllocationClient) (s : AllocationServer) (role : PDRole) : Prop where
  config : c.config = s.config
  cache : c.cache.instanceCache role = sortById (s.manager.rolePools role).values
  blocked : c.cbBlockedInstances = s.openCircuits

/-- Only the counters differ. -/
structure SameView (c c' : AllocationClient) : Prop where
  config : c'.config = c.config
  clientIndex : c'.clientIndex = c.clientIndex
  clientCount : c'.clientCount = c.clientCount
  cache : c'.cache = c.cache
  blocked : c'.cbBlockedInstances = c.cbBlockedInstances

theorem SameView.refl (c : AllocationClient) : SameView c c := ⟨rfl, rfl, rfl, rfl, rfl⟩

theorem SameView.trans {c'' : AllocationClient} (h : SameView c c') (h' : SameView c' c'') :
    SameView c c'' :=
  ⟨h'.config.trans h.config, h'.clientIndex.trans h.clientIndex, h'.clientCount.trans h.clientCount,
    h'.cache.trans h.cache, h'.blocked.trans h.blocked⟩

theorem SameView.agrees (h : SameView c c') (hagrees : c.Agrees s role) : c'.Agrees s role :=
  ⟨h.config.trans hagrees.config, by rw [h.cache, hagrees.cache], h.blocked.trans hagrees.blocked⟩

theorem selectEndpointForInstance_sameView (inst : Instance) :
    SameView c (c.selectEndpointForInstance inst).2 := by
  unfold selectEndpointForInstance
  split
  · exact SameView.refl c
  · split
    · exact ⟨rfl, rfl, rfl, rfl, rfl⟩
    · exact SameView.refl c

theorem selectRoundRobin_sameView (instances : List Instance) (role : PDRole) :
    SameView c (c.selectRoundRobin instances role).2 := by
  have hcounter : ∀ n, SameView c (c.setInstanceRrCounter role n) := fun _ => ⟨rfl, rfl, rfl, rfl, rfl⟩
  have hchosen : ∀ n inst endpoint c', (c.setInstanceRrCounter role n).selectEndpointForInstance inst =
      (endpoint, c') → SameView c c' := by
    intro n inst endpoint c' heq
    have h := (hcounter n).trans (selectEndpointForInstance_sameView inst)
    rwa [heq] at h
  unfold selectRoundRobin
  simp only
  split
  · exact hcounter _
  · split
    · next heq => exact hchosen _ _ _ _ heq
    · next heq => exact hchosen _ _ _ _ heq

theorem selectByLoad_sameView (instances : List Instance) (role : PDRole) (topK : ℕ) :
    SameView c (c.selectByLoad instances role topK).2 := by
  unfold selectByLoad
  simp only
  split
  · exact selectRoundRobin_sameView instances role
  · exact SameView.refl c

theorem selectFromList_sameView (instances : List Instance) (req : RequestInfo)
    (attempt topK : ℕ) :
    SameView c (c.selectEndpointCandidatesFromListWithPolicy instances req attempt topK).2 := by
  unfold selectEndpointCandidatesFromListWithPolicy
  split
  · exact SameView.refl c
  · split
    · exact selectRoundRobin_sameView instances req.role
    · exact selectByLoad_sameView instances req.role topK
    · split
      · split
        · exact SameView.refl c
        · exact selectByLoad_sameView instances req.role topK
      · exact selectByLoad_sameView instances req.role topK

/-- The instance whose turn it is. -/
def turn (c : AllocationClient) (instances : List Instance) (role : PDRole) : Option Instance :=
  instances[(c.instanceRrCounters role + c.startIndex instances.length) % instances.length]?

theorem selectEndpointForInstance_eq_some {endpoint : Endpoint}
    (h : (c.selectEndpointForInstance inst).1 = some endpoint) :
    endpoint ∈ inst.getAllEndpoints ∧
      (c.config.schedulerType = .roundRobin → c.isInstanceBlocked inst.id = false) := by
  unfold selectEndpointForInstance at h
  cases heps : inst.getAllEndpoints with
  | nil => simp [heps] at h
  | cons first rest =>
    simp only [heps] at h
    split at h
    · next hst =>
      unfold RoundRobinPolicy.selectEndpointFromInstance at h
      simp only at h
      split at h
      · cases h
      · have hmem := List.mem_of_getElem? h
        obtain ⟨hmem, hopen⟩ := List.mem_filter.mp hmem
        rw [heps] at hmem
        exact ⟨hmem, fun _ => by simpa using hopen⟩
    · next hst =>
      refine ⟨?_, fun h => absurd h hst⟩
      cases h
      cases hbest : LoadBalancePolicy.selectEndpointFromInstance inst with
      | none => exact List.mem_cons_self
      | some ep =>
        rw [Option.getD_some, ← heps]
        exact (Ranking.scanBest_spec (fun ep : Endpoint =>
          ep.workload.calculateWorkloadScore) (fun _ _ => le_of_lt) (fun _ _ => id) hbest).1

theorem selectEndpointForInstance_isSome (hne : inst.getAllEndpoints ≠ [])
    (hopen : c.isInstanceBlocked inst.id = false) :
    ∃ endpoint, (c.selectEndpointForInstance inst).1 = some endpoint := by
  unfold selectEndpointForInstance
  cases heps : inst.getAllEndpoints with
  | nil => exact absurd heps hne
  | cons first rest =>
    simp only
    split
    · have hfilter : inst.getAllEndpoints.filter (fun _ => !c.isInstanceBlocked inst.id) =
          first :: rest := by
        rw [heps, hopen]
        exact List.filter_eq_self.mpr fun _ _ => rfl
      unfold RoundRobinPolicy.selectEndpointFromInstance
      simp only [hfilter, List.isEmpty_cons, Bool.false_eq_true, if_false]
      exact ⟨_, List.getElem?_eq_getElem (Nat.mod_lt _ (List.length_pos_of_mem List.mem_cons_self))⟩
    · exact ⟨_, rfl⟩

theorem setInstanceRrCounter_self (role : PDRole) (n : ℕ) :
    (c.setInstanceRrCounter role n).instanceRrCounters role = n :=
  Function.update_self ..

theorem selectEndpointForInstance_counters (inst : Instance) :
    (c.selectEndpointForInstance inst).2.instanceRrCounters = c.instanceRrCounters := by
  unfold selectEndpointForInstance
  split
  · rfl
  · split <;> rfl

theorem exists_turn (hne : instances ≠ []) (role : PDRole) : ∃ inst, c.turn instances role = some inst :=
  ⟨_, List.getElem?_eq_getElem (Nat.mod_lt _ (List.length_pos_iff.mpr hne))⟩

theorem selectRoundRobin_eq (hturn : c.turn instances role = some inst) :
    ∃ c', SameView c c' ∧
      (c.selectRoundRobin instances role).1 = ⟨((c'.selectEndpointForInstance inst).1.map
        fun endpoint => EndpointCandidate.mk inst endpoint 0).toList, .roundRobin, none⟩ ∧
      (c.selectRoundRobin instances role).2.instanceRrCounters role =
        c.instanceRrCounters role + 1 := by
  have hempty : instances.isEmpty = false := by
    cases instances with
    | nil => cases hturn
    | cons inst instances => rfl
  have hnext : c.instanceRrCounters role + c.startIndex instances.length + 1 -
      c.startIndex instances.length = c.instanceRrCounters role + 1 := by omega
  refine ⟨c.setInstanceRrCounter role (c.instanceRrCounters role + 1), ⟨rfl, rfl, rfl, rfl, rfl⟩, ?_⟩
  have hkept := selectEndpointForInstance_counters
    (c := c.setInstanceRrCounter role (c.instanceRrCounters role + 1)) inst
  unfold turn at hturn
  unfold selectRoundRobin RoundRobinPolicy.selectInstanceFromList
  simp only [hempty, Bool.false_eq_true, if_false, hturn, hnext]
  generalize (c.setInstanceRrCounter role (c.instanceRrCounters role + 1)).selectEndpointForInstance inst =
    r at hkept
  obtain ⟨endpoint, c'⟩ := r
  simp only at hkept
  cases endpoint with
  | none => exact ⟨rfl, by rw [hkept, setInstanceRrCounter_self]⟩
  | some endpoint => exact ⟨rfl, by rw [hkept, setInstanceRrCounter_self]⟩

theorem selectByLoad_cases (instances : List Instance) (role : PDRole) (topK : ℕ) :
    (∃ e t, c.selectEndpointCandidatesByLoadBalance instances topK = e :: t ∧
      c.selectByLoad instances role topK = (⟨e :: t, .loadBalance, none⟩, c)) ∨
    (c.selectEndpointCandidatesByLoadBalance instances topK = [] ∧
      c.selectByLoad instances role topK = c.selectRoundRobin instances role) := by
  unfold selectByLoad
  simp only
  cases c.selectEndpointCandidatesByLoadBalance instances topK with
  | nil => exact Or.inr ⟨rfl, rfl⟩
  | cons e t => exact Or.inl ⟨e, t, rfl, rfl⟩

/-- What the affinity gives, if it is to decide. -/
def affinityRanking (c : AllocationClient) (instances : List Instance) (req : RequestInfo)
    (attempt topK : ℕ) : Option (List EndpointCandidate × AffinityDebug) :=
  if c.config.schedulerType = .kvCacheAffinity ∧ req.role ∈ kvaSelectRoles then
    KvCacheAffinityPolicy.selectEndpointCandidatesFromList c.config instances req.tokenIds
      (req.conductor attempt) (max 1 topK)
  else none

theorem selectFromList_cases (hne : instances ≠ []) (req : RequestInfo) (attempt topK : ℕ) :
    (c.config.schedulerType = .roundRobin ∧
      c.selectEndpointCandidatesFromListWithPolicy instances req attempt topK =
        c.selectRoundRobin instances req.role) ∨
    (∃ ranked debug, c.affinityRanking instances req attempt topK = some (ranked, debug) ∧
      c.selectEndpointCandidatesFromListWithPolicy instances req attempt topK =
        (⟨ranked, .kvCacheAffinity, some debug⟩, c)) ∨
    (c.config.schedulerType ≠ .roundRobin ∧ c.affinityRanking instances req attempt topK = none ∧
      c.selectEndpointCandidatesFromListWithPolicy instances req attempt topK =
        c.selectByLoad instances req.role topK) := by
  have hempty : instances.isEmpty = false := by
    cases instances with
    | nil => exact absurd rfl hne
    | cons inst instances => rfl
  unfold selectEndpointCandidatesFromListWithPolicy affinityRanking
  rw [hempty, if_neg Bool.false_ne_true]
  cases hst : c.config.schedulerType with
  | roundRobin => exact Or.inl ⟨by simp, rfl⟩
  | loadBalance => exact Or.inr (Or.inr ⟨by decide, by simp, rfl⟩)
  | kvCacheAffinity =>
    refine Or.inr ?_
    by_cases hrole : req.role ∈ kvaSelectRoles
    · simp only [hrole, and_self, if_true]
      cases KvCacheAffinityPolicy.selectEndpointCandidatesFromList c.config instances req.tokenIds
          (req.conductor attempt) (max 1 topK) with
      | none => exact Or.inr ⟨by decide, rfl, rfl⟩
      | some r => exact Or.inl ⟨r.1, r.2, rfl, rfl⟩
    · simp only [hrole, and_false, if_false]
      exact Or.inr ⟨by decide, trivial, trivial⟩

/-- The answer of the scheduler is cached. -/
def refreshed (c : AllocationClient) (role : PDRole) (instances : List Instance) : AllocationClient :=
  { c with cache := c.cache.replaceAll role instances }

theorem Agrees.refreshed (h : c.Agrees s role) :
    (c.refreshed role (sortById (s.manager.rolePools role).values)).Agrees s role :=
  ⟨h.config, by simp [AllocationClient.refreshed, InstanceCache.replaceAll], h.blocked⟩

theorem propose_eq (hagrees : c.Agrees s req.role) :
    c.propose (s.manager.rolePools req.role).values req =
      (let first := c.selectEndpointCandidatesFromListWithPolicy (s.cachedFor req) req 0
        (c.requestTopK req.role)
      let second := (first.2.refreshed req.role
        (sortById (s.manager.rolePools req.role).values)).selectEndpointCandidatesFromListWithPolicy
          (s.cachedFor req) req 1 (c.requestTopK req.role)
      let found := if first.1.candidates.isEmpty then second else first
      (found.1.candidates.head?.map (found.2.allocateOnlyRequest req found.1), found.2)) := by
  unfold propose selectEndpointCandidatesWithPolicy AllocationServer.cachedFor
  rw [hagrees.cache]
  simp only
  generalize c.selectEndpointCandidatesFromListWithPolicy _ req 0 _ = first
  obtain ⟨proposal, c'⟩ := first
  cases hfound : proposal.candidates.isEmpty with
  | false => simp only [Bool.false_eq_true, if_false]
  | true =>
    simp only [if_true]
    cases hempty : (sortById (s.manager.rolePools req.role).values).isEmpty with
    | false => simp only [Bool.false_eq_true, if_false, refreshed]
    | true =>
      rw [List.isEmpty_iff.mp hempty, filterInstancesByEngineType_eq]
      rfl

theorem propose_of_first (hagrees : c.Agrees s req.role) {first : EndpointCandidate}
    {t : List EndpointCandidate} {proposal : Proposal}
    (h : c.selectEndpointCandidatesFromListWithPolicy (s.cachedFor req) req 0 (c.requestTopK req.role) =
      (proposal, c')) (hfirst : proposal.candidates = first :: t) :
    c.propose (s.manager.rolePools req.role).values req =
      (some (c'.allocateOnlyRequest req proposal first), c') := by
  rw [propose_eq hagrees]
  simp only [h, hfirst, List.isEmpty_cons, Bool.false_eq_true, if_false, List.head?_cons,
    Option.map_some]

theorem exists_of_propose {r : AllocateOnlyRequest} (hagrees : c.Agrees s req.role)
    (h : (c.propose (s.manager.rolePools req.role).values req).1 = some r) :
    ∃ (c' : AllocationClient) (attempt : ℕ), c'.Agrees s req.role ∧ ∃ first t,
      (c'.selectEndpointCandidatesFromListWithPolicy (s.cachedFor req) req attempt
        (c.requestTopK req.role)).1.candidates = first :: t ∧
      ∃ c'' : AllocationClient, c''.Agrees s req.role ∧ r = c''.allocateOnlyRequest req
        (c'.selectEndpointCandidatesFromListWithPolicy (s.cachedFor req) req attempt
          (c.requestTopK req.role)).1 first := by
  rw [propose_eq hagrees] at h
  simp only at h
  split at h
  · obtain ⟨first, hfirst, rfl⟩ := Option.map_eq_some_iff.mp h
    obtain ⟨t, ht⟩ := List.head?_eq_some_iff.mp hfirst
    have hagrees' := ((selectFromList_sameView (c := c) (s.cachedFor req) req 0
      (c.requestTopK req.role)).agrees hagrees).refreshed
    refine ⟨_, 1, hagrees', first, t, ht, _, ?_, rfl⟩
    exact (selectFromList_sameView (s.cachedFor req) req 1 _).agrees hagrees'
  · obtain ⟨first, hfirst, rfl⟩ := Option.map_eq_some_iff.mp h
    obtain ⟨t, ht⟩ := List.head?_eq_some_iff.mp hfirst
    refine ⟨c, 0, hagrees, first, t, ht, _, ?_, rfl⟩
    exact (selectFromList_sameView (s.cachedFor req) req 0 _).agrees hagrees

theorem selectByLoadBalance_eq (hagrees : c.Agrees s req.role) (topK : ℕ) :
    ∃ startIndex, c.selectEndpointCandidatesByLoadBalance (s.cachedFor req) topK =
      LoadBalancePolicy.selectEndpointCandidatesFromList (s.cachedFor req) (max 1 topK)
        s.config.instanceScoreWeight startIndex s.isInstanceCircuitOpen := by
  refine ⟨c.startIndex (s.cachedFor req).length, ?_⟩
  have hblocked : c.isInstanceBlocked = s.isInstanceCircuitOpen := by
    funext id
    rw [isInstanceBlocked, AllocationServer.isInstanceCircuitOpen, hagrees.blocked]
  rw [selectEndpointCandidatesByLoadBalance, hblocked, hagrees.config]

theorem mem_scoreEndpoints_cachedFor {e : EndpointCandidate} :
    e ∈ LoadBalancePolicy.scoreEndpoints (s.cachedFor req) s.config.instanceScoreWeight
      s.isInstanceCircuitOpen ↔ e ∈ s.takeable req.role (requiredEngine req.requiredEngineType) := by
  rw [LoadBalancePolicy.mem_scoreEndpoints, AllocationServer.mem_takeable,
    (s.cachedFor_perm req).mem_iff, AllocationServer.isInstanceCircuitOpen, decide_eq_false_iff_not]

theorem selectByLoadBalance_first (hagrees : c.Agrees s req.role) {topK : ℕ} {e : EndpointCandidate}
    {t : List EndpointCandidate}
    (h : c.selectEndpointCandidatesByLoadBalance (s.cachedFor req) topK = e :: t) :
    e ∈ s.takeable req.role (requiredEngine req.requiredEngineType) ∧
      ∀ e' ∈ s.takeable req.role (requiredEngine req.requiredEngineType), e.score ≤ e'.score := by
  obtain ⟨startIndex, heq⟩ := selectByLoadBalance_eq hagrees topK
  rw [heq] at h
  obtain ⟨hmem, hleast⟩ := LoadBalancePolicy.selectEndpointCandidatesFromList_first h
  exact ⟨mem_scoreEndpoints_cachedFor.mp hmem,
    fun e' he' => hleast e' (mem_scoreEndpoints_cachedFor.mpr he')⟩

theorem selectByLoadBalance_ne_nil (hagrees : c.Agrees s req.role) (topK : ℕ) {e : EndpointCandidate}
    (he : e ∈ s.takeable req.role (requiredEngine req.requiredEngineType)) :
    c.selectEndpointCandidatesByLoadBalance (s.cachedFor req) topK ≠ [] := by
  obtain ⟨startIndex, heq⟩ := selectByLoadBalance_eq hagrees topK
  have htop : 0 < max 1 topK := Nat.lt_of_lt_of_le Nat.one_pos (Nat.le_max_left 1 topK)
  have hfirst : ∃ e t, LoadBalancePolicy.selectEndpointCandidatesFromList (s.cachedFor req)
      (max 1 topK) s.config.instanceScoreWeight startIndex s.isInstanceCircuitOpen = e :: t :=
    LoadBalancePolicy.selectEndpointCandidatesFromList_ne_nil htop
      (mem_scoreEndpoints_cachedFor.mpr he)
  obtain ⟨e', t, ht⟩ := hfirst
  rw [heq, ht]
  exact List.cons_ne_nil _ _

end AllocationClient

/-! ## By affinity -/

namespace KvCacheAffinityPolicy

variable {cfg : SchedulerConfig} {instances : List Instance} {tenant : Tenant} {isl : ℕ}
  {raw : List LoadCandidate} {x : LoadCandidate}

/-- What is left to prefill on an endpoint of an instance. -/
def tenantCost (cfg : SchedulerConfig) (tenant : Tenant) (isl : ℕ) (inst : Instance)
    (id : EndpointId) : ℚ :=
  prefillCost cfg ((tenant.get? (conductorInstanceId inst)).getD ∅) isl id

theorem mem_collectLoadCandidates : x ∈ collectLoadCandidates cfg instances tenant isl →
    x.inst ∈ instances ∧ tenant.contains (conductorInstanceId x.inst) = true ∧
      x.endpoint ∈ x.inst.getAllEndpoints ∧
      x.loadCost = x.endpoint.workload.calculateWorkloadScore ∧
      x.prefillCost = tenantCost cfg tenant isl x.inst x.endpoint.id := by
  unfold collectLoadCandidates
  rw [List.mem_flatMap]
  rintro ⟨inst, hinst, h⟩
  split at h
  · cases h
  · next dpMap hget =>
    obtain ⟨ep, hep, rfl⟩ := List.mem_map.mp h
    refine ⟨hinst, Dict.contains_of_some hget, hep, rfl, ?_⟩
    rw [tenantCost, hget, Option.getD_some]

theorem exists_mem_collectLoadCandidates {inst : Instance} {ep : Endpoint} (hinst : inst ∈ instances)
    (hreported : tenant.contains (conductorInstanceId inst) = true)
    (hep : ep ∈ inst.getAllEndpoints) :
    ∃ x ∈ collectLoadCandidates cfg instances tenant isl, x.inst = inst ∧ x.endpoint = ep := by
  obtain ⟨dpMap, hget⟩ := Dict.contains_iff.mp hreported
  have hmem : LoadCandidate.mk ep.workload.calculateWorkloadScore (matchedTokens cfg dpMap isl ep.id)
      (prefillCost cfg dpMap isl ep.id) inst ep ∈ collectLoadCandidates cfg instances tenant isl := by
    refine List.mem_flatMap.mpr ⟨inst, hinst, ?_⟩
    rw [hget]
    exact List.mem_map.mpr ⟨ep, hep, rfl⟩
  exact ⟨_, hmem, rfl, rfl⟩

theorem of_get?_stash {withPrefill : Bool} {k : InstanceId × EndpointId} {record : AffinityRecord}
    (h : (stashAffinityDebug raw withPrefill).get? k = some record) :
    ∃ x ∈ raw, (x.inst.id, x.endpoint.id) = k ∧
      record.prefillCost = if withPrefill then some x.prefillCost else none := by
  rcases Dict.of_get?_foldl_insert raw ∅ h with hempty | ⟨x, hx, hk, rfl⟩
  · cases hempty
  · exact ⟨x, hx, hk, rfl⟩

theorem contains_stash {withPrefill : Bool} (h : x ∈ raw) :
    (stashAffinityDebug raw withPrefill).contains (x.inst.id, x.endpoint.id) = true := by
  unfold stashAffinityDebug
  rw [Dict.contains_foldl_insert]
  exact Or.inr (List.mem_map_of_mem (f := fun c : LoadCandidate => (c.inst.id, c.endpoint.id)) h)

theorem selectEndpointCandidatesFromList_eq_some {tokenIds : List ℕ} {answer : Option Tenant} {topK : ℕ}
    {r : List EndpointCandidate × AffinityDebug} :
    selectEndpointCandidatesFromList cfg instances tokenIds answer topK = some r ↔
      ∃ tenant, queryTenant cfg instances tokenIds answer = some tenant ∧
        collectLoadCandidates cfg instances tenant tokenIds.length ≠ [] ∧
        rankByAffinity cfg (collectLoadCandidates cfg instances tenant tokenIds.length) topK = r := by
  unfold selectEndpointCandidatesFromList
  rw [Option.bind_eq_some_iff]
  refine exists_congr fun tenant => and_congr_right fun _ => ?_
  simp only [Option.ite_none_left_eq_some, List.isEmpty_iff, Option.some.injEq, ne_eq]

theorem rankByAffinity_unified (h : cfg.kvAffinity.mode = .unified) (topK : ℕ) :
    rankByAffinity cfg raw topK = ((selectWithLoad cfg raw topK).1, stashAffinityDebug raw true) := by
  unfold rankByAffinity
  rw [h]
  rfl

theorem rankByAffinity_loadGated (h : cfg.kvAffinity.mode = .loadGated) (topK : ℕ) :
    rankByAffinity cfg raw topK = ((selectLoadGated cfg raw topK).1, stashAffinityDebug raw false) := by
  unfold rankByAffinity
  rw [h]
  rfl

theorem selectWithLoad_first {topK : ℕ} {first : EndpointCandidate} {t : List EndpointCandidate}
    (h : (selectWithLoad cfg raw topK).1 = first :: t) :
    ∃ x ∈ raw, first.inst = x.inst ∧ first.endpoint = x.endpoint ∧
      ∀ y ∈ raw, unifiedScore cfg x ≤ unifiedScore cfg y := by
  unfold selectWithLoad at h
  simp only at h
  obtain ⟨k, hk⟩ : ∃ k, max 1 topK = k + 1 :=
    Nat.exists_eq_add_one.mpr (Nat.lt_of_lt_of_le Nat.one_pos (Nat.le_max_left 1 topK))
  cases hrank : rank (·.score)
      (raw.map fun c => EndpointCandidate.mk c.inst c.endpoint (unifiedScore cfg c)) with
  | nil =>
    rw [hrank, List.take_nil] at h
    cases h
  | cons a t' =>
    rw [hrank, hk] at h
    cases h
    obtain ⟨hmem, hleast⟩ := Ranking.rank_first hrank
    obtain ⟨x, hx, rfl⟩ := List.mem_map.mp hmem
    exact ⟨x, hx, rfl, rfl, fun y hy => hleast _ (List.mem_map_of_mem hy)⟩

theorem exists_selectWithLoad_cons (cfg : SchedulerConfig) (hne : raw ≠ []) (topK : ℕ) :
    ∃ first t, (selectWithLoad cfg raw topK).1 = first :: t := by
  obtain ⟨k, hk⟩ : ∃ k, max 1 topK = k + 1 :=
    Nat.exists_eq_add_one.mpr (Nat.lt_of_lt_of_le Nat.one_pos (Nat.le_max_left 1 topK))
  have hcandidates : raw.map (fun c => EndpointCandidate.mk c.inst c.endpoint (unifiedScore cfg c)) ≠ [] :=
    fun h => hne (List.map_eq_nil_iff.mp h)
  obtain ⟨a, t, hrank⟩ := Ranking.exists_rank_cons EndpointCandidate.score hcandidates
  refine ⟨a, t.take k, ?_⟩
  unfold selectWithLoad
  simp only [hrank, hk, List.take_succ_cons]

end KvCacheAffinityPolicy

namespace AllocationClient

variable {c : AllocationClient} {s : AllocationServer} {req : RequestInfo} {raw : List LoadCandidate}
  {ranked : List EndpointCandidate} {first : EndpointCandidate} {x : LoadCandidate}

/-! ## What is sent -/

/-- Stated for itself: to compare two requests, Lean would normalize the names of their engines. -/
theorem requiredEngineType_allocateOnlyRequest (c : AllocationClient) (req : RequestInfo)
    (proposal : Proposal) (first : EndpointCandidate) :
    (c.allocateOnlyRequest req proposal first).requiredEngineType =
      requiredEngine req.requiredEngineType := by
  simp only [allocateOnlyRequest]

theorem affinityCandidates_rankedEndpoints {candidates : List EndpointCandidate} {debug : AffinityDebug} :
    (rankedEndpoints candidates debug).filterMap (fun e : CandidateEndpoint =>
      e.prefillCost.map fun cost => (e.instanceId, e.endpointId, cost)) = [] := by
  rw [List.filterMap_eq_nil_iff]
  intro e he
  obtain ⟨a, -, rfl⟩ := List.mem_map.mp he
  rfl

theorem affinityCandidates_of_not_global {proposal : Proposal} (h : globalAffinity proposal = false) :
    (c.allocateOnlyRequest req proposal first).affinityCandidates = [] := by
  unfold AllocateOnlyRequest.affinityCandidates allocateOnlyRequest candidateEndpoints
  simp only [h, Bool.false_eq_true, if_false]
  split <;> exact affinityCandidates_rankedEndpoints

theorem globalAffinity_of_policy {proposal : Proposal} (h : proposal.candidatePolicy ≠ .kvCacheAffinity) :
    globalAffinity proposal = false := by
  simp [globalAffinity, h]

theorem globalAffinity_unified (hraw : raw ≠ []) : globalAffinity ⟨ranked, .kvCacheAffinity,
    some (KvCacheAffinityPolicy.stashAffinityDebug raw true)⟩ = true := by
  obtain ⟨x, hx⟩ := List.exists_mem_of_ne_nil raw hraw
  have hcontains : (KvCacheAffinityPolicy.stashAffinityDebug raw true).contains
      (x.inst.id, x.endpoint.id) = true := KvCacheAffinityPolicy.contains_stash hx
  obtain ⟨record, hget⟩ := Dict.contains_iff.mp hcontains
  obtain ⟨y, -, -, hcost⟩ := KvCacheAffinityPolicy.of_get?_stash hget
  unfold globalAffinity
  rw [Option.getD_some, decide_eq_true rfl, Bool.true_and, List.any_eq_true]
  exact ⟨record, Dict.mem_values_iff.mpr ⟨_, hget⟩, by rw [hcost]; rfl⟩

theorem globalAffinity_loadGated : globalAffinity ⟨ranked, .kvCacheAffinity,
    some (KvCacheAffinityPolicy.stashAffinityDebug raw false)⟩ = false := by
  unfold globalAffinity
  rw [Option.getD_some, decide_eq_true rfl, Bool.true_and, List.any_eq_false]
  intro record hrecord
  obtain ⟨k, hget⟩ := Dict.mem_values_iff.mp hrecord
  obtain ⟨y, -, -, hcost⟩ := KvCacheAffinityPolicy.of_get?_stash hget
  simp [hcost]

theorem mem_affinityCandidates_unified (hraw : raw ≠ [])
    {a : InstanceId × EndpointId × ℚ}
    (ha : a ∈ (c.allocateOnlyRequest req ⟨ranked, .kvCacheAffinity,
      some (KvCacheAffinityPolicy.stashAffinityDebug raw true)⟩ first).affinityCandidates) :
    ∃ x ∈ raw, a = (x.inst.id, x.endpoint.id, x.prefillCost) := by
  unfold AllocateOnlyRequest.affinityCandidates allocateOnlyRequest candidateEndpoints at ha
  simp only [globalAffinity_unified hraw, if_true, Option.getD_some] at ha
  obtain ⟨e, he, hcost⟩ := List.mem_filterMap.mp ha
  obtain ⟨p, hp, hentry⟩ := List.mem_filterMap.mp he
  obtain ⟨x, hx, hk, hprefill⟩ := KvCacheAffinityPolicy.of_get?_stash (Dict.mem_entries_iff.mp hp)
  split at hentry
  · cases hentry
    rw [hprefill] at hcost
    cases hcost
    exact ⟨x, hx, by rw [← hk]⟩
  · cases hentry

theorem exists_affinityCandidate_unified (hagrees : c.Agrees s req.role)
    (hx : x ∈ raw) (hinst : x.inst ∈ s.cachedFor req) :
    ∃ cost, (x.inst.id, x.endpoint.id, cost) ∈
      (c.allocateOnlyRequest req ⟨ranked, .kvCacheAffinity,
        some (KvCacheAffinityPolicy.stashAffinityDebug raw true)⟩ first).affinityCandidates := by
  have hcontains : (KvCacheAffinityPolicy.stashAffinityDebug raw true).contains
      (x.inst.id, x.endpoint.id) = true := KvCacheAffinityPolicy.contains_stash hx
  obtain ⟨record, hget⟩ := Dict.contains_iff.mp hcontains
  obtain ⟨y, -, hk, hprefill⟩ := KvCacheAffinityPolicy.of_get?_stash hget
  have hallowed : ((filterInstancesByEngineType (c.cache.instanceCache req.role)
      req.requiredEngineType).map (·.id)).contains x.inst.id = true := by
    rw [hagrees.cache, List.contains_iff_mem]
    exact List.mem_map_of_mem hinst
  refine ⟨y.prefillCost, ?_⟩
  unfold AllocateOnlyRequest.affinityCandidates allocateOnlyRequest candidateEndpoints
  simp only [globalAffinity_unified (List.ne_nil_of_mem hx), if_true, Option.getD_some]
  refine List.mem_filterMap.mpr ⟨⟨x.inst.id, x.endpoint.id, some record.matchedTokens,
    record.prefillCost⟩, List.mem_filterMap.mpr ⟨_, Dict.mem_entries_iff.mpr hget, ?_⟩, ?_⟩
  · simp only [hallowed, hprefill, if_true, Option.isSome_some, Bool.and_self]
  · rw [hprefill]
    rfl

end AllocationClient

end PyMotor.Coordinator
