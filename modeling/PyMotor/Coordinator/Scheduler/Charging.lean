import PyMotor.Coordinator.InstanceManager.Charges
import PyMotor.Coordinator.Scheduler.Selection
import PyMotor.Coordinator.WorkloadShm.RoleSequences

/-!
# Who is charged

The scheduler answers a request with an endpoint, charges the load of the request to it and publishes
its new load (`runtime/scheduler_server.py`); when the request is done, the worker gives the load back.
The endpoint that is answered is found by going through the pods, the one that is charged by the index of
the instance manager, and the slot that is written by the map of the writer. All three go by the ids of
the instance and the endpoint, and the first takes the first match where the others have the last one.

`charged_as_returned` says that the three are one, in every run in which the ids lead to one endpoint.
-/

namespace PyMotor.Coordinator

/-! ## The server -/

structure LedgerServer extends AllocationServer where
  writer : Writer
  /-- The updates that were committed, the oldest first. -/
  committedOperations : List String
  /-- Bookkeeping: the rows of the last snapshot, slot by slot. -/
  rows : List WorkloadShmEntry

/-- The instance and the endpoint of an answer, and the load that was charged. -/
structure Allocated where
  inst : Instance
  endpoint : Endpoint
  committedWorkload : Workload

/-- The candidate that a request gets. -/
def AllocationServer.selectCandidate (s : AllocationServer) (fastPath : Bool)
    (r : AllocateOnlyRequest) : Option EndpointCandidate :=
  if fastPath then (s.selectFastPath r).or (s.selectAuthoritativeAllocateCandidate r)
  else s.selectAuthoritativeAllocateCandidate r

namespace LedgerServer

def maxCommittedOperations : ℕ := 100000

variable (s : LedgerServer)

def snapshotRows : List WorkloadShmEntry :=
  (Writer.collectEntriesAndSlotMap s.manager.available s.writer.maxEntries).1

def writeSnapshot : LedgerServer :=
  { s with
    writer := s.writer.writeSnapshot s.manager.available
    rows := s.snapshotRows }

/-- The load of an endpoint is written to its slot; without a slot, a snapshot is written. -/
def writeEntry (id : InstanceId) (endpointId : EndpointId) (result : Option (PDRole × Workload)) :
    LedgerServer :=
  { s with
    writer := s.writer.writeSingleEntry id endpointId (result.map (·.1)) (result.map (·.2))
      s.manager.available
    rows := if s.writer.slotMap.contains (id, endpointId) then s.rows else s.snapshotRows }

/-- What the policy does: whether it succeeded, and the new load if it keeps loads. -/
def updateWorkload (id : InstanceId) (endpointId : EndpointId) (change : Workload) :
    Bool × Option (PDRole × Workload) × LedgerServer :=
  if s.config.schedulerType = .roundRobin then (true, none, s)
  else
    match s.manager.updateInstanceWorkloadSync id endpointId change with
    | (.ok (some result), m) => (true, some result, { s with manager := m })
    | (_, m) => (false, none, { s with manager := m })

/-- The load is read again. -/
def writeAgain (id : InstanceId) (endpointId : EndpointId) : LedgerServer :=
  match s.manager.getEndpointWorkloadSync id endpointId with
  | (.ok result, m) => { s with manager := m }.writeEntry id endpointId result
  | (.error _, m) => { s with manager := m }

/-- A policy without loads says nothing about the new one. -/
def writeWorkloadEntry (id : InstanceId) (endpointId : EndpointId)
    (result : Option (PDRole × Workload)) : LedgerServer :=
  match result with
  | some result => s.writeEntry id endpointId (some result)
  | none => s.writeAgain id endpointId

def handleAllocateOnly (fastPath : Bool) (r : AllocateOnlyRequest) :
    Option Allocated × LedgerServer :=
  match s.selectCandidate fastPath r with
  | none => (none, s)
  | some e =>
    let workload := r.committedWorkload e
    match s.updateWorkload e.inst.id e.endpoint.id workload with
    | (true, result, s) =>
      (some ⟨e.inst, e.endpoint, workload⟩, s.writeWorkloadEntry e.inst.id e.endpoint.id result)
    | (false, _, s) => (none, s)

/-- A committed operation is remembered, and at the limit the oldest one is forgotten. -/
def rememberCommittedOperation (operationId : Option String) : LedgerServer :=
  match operationId with
  | none => s
  | some operationId =>
    if operationId ∈ s.committedOperations then s
    else
      let operations := s.committedOperations ++ [operationId]
      { s with
        committedOperations :=
          if maxCommittedOperations < operations.length then operations.tail else operations }

/-- An operation that was committed before only publishes the load again. -/
def handleUpdateWorkload (operationId : Option String) (id : InstanceId) (endpointId : EndpointId)
    (change : Workload) : Bool × LedgerServer :=
  if operationId.any (· ∈ s.committedOperations) then (true, s.writeAgain id endpointId)
  else
    match s.updateWorkload id endpointId change with
    | (true, result, s) =>
      (true, (s.rememberCommittedOperation operationId).writeWorkloadEntry id endpointId result)
    | (false, _, s) => (false, s)

def handleRefreshInstances (σ : HashOrder InstanceId) (eventType : EventType)
    (instances : List Instance) : LedgerServer :=
  match s.manager.refreshInstances σ eventType instances with
  | (.ok true, m) => { s with manager := m }.writeSnapshot
  | (_, m) => { s with manager := m }

/-- There are no instances at first. -/
def start (config : SchedulerConfig) (maxEntries : ℕ) : LedgerServer :=
  writeSnapshot ⟨⟨config, .new, ∅⟩, .new maxEntries, [], []⟩

end LedgerServer

inductive LedgerServerStep where
  | refresh (σ : HashOrder InstanceId) (eventType : EventType) (instances : List Instance)
  | allocate (fastPath : Bool) (r : AllocateOnlyRequest)
  | update (operationId : Option String) (id : InstanceId) (endpointId : EndpointId)
      (change : Workload)
  /-- Circuits open and close. -/
  | circuits (openCircuits : Finset InstanceId)

namespace LedgerServer

/-- A step counts whatever its answer is. -/
def exec (s : LedgerServer) : LedgerServerStep → Option LedgerServer
  | .refresh σ eventType instances => some (s.handleRefreshInstances σ eventType instances)
  | .allocate fastPath r => some (s.handleAllocateOnly fastPath r).2
  | .update operationId id endpointId change =>
    some (s.handleUpdateWorkload operationId id endpointId change).2
  | .circuits openCircuits => some { s with openCircuits := openCircuits }

/-! ## What an answer means -/

/-- What a policy charges of the load of a request. -/
def charge (s : LedgerServer) (workload : Workload) : Workload :=
  if s.config.schedulerType = .roundRobin then .zero else workload

/-- The endpoint of an answer is the one that is charged. -/
structure ChargedAsReturned (s : LedgerServer) (a : Allocated) (s' : LedgerServer) : Prop where
  /-- The endpoint is one of an available instance. -/
  returned : s.manager.availablePool.get? a.inst.id = some a.inst ∧
    a.endpoint ∈ a.inst.allEndpoints
  /-- Its load is charged, and no other. -/
  charged : ∀ place, a.inst.endpointAt place = some a.endpoint → ∀ id' place',
    s'.manager.ledgerAt id' place' =
      if id' = a.inst.id ∧ place' = place then
        some (a.endpoint.workload.add (s.charge a.committedWorkload))
      else s.manager.ledgerAt id' place'
  /-- Its load is written, under its ids and for the role of its instance. -/
  published : ∀ place, a.inst.endpointAt place = some a.endpoint → ∃ role,
    PDRole.ofString a.inst.role = some role ∧
      s'.writer = s.writer.writeSingleEntry a.inst.id a.endpoint.id (some role)
        (s'.manager.ledgerAt a.inst.id place) s'.manager.available
  /-- No slot but its own has its ids. -/
  slot : ∀ k entry, s'.rows[k]? = some entry → entry.instanceId = a.inst.id →
    entry.endpointId = a.endpoint.id → s'.writer.slotMap.get? (a.inst.id, a.endpoint.id) = some k
  /-- If the load is given back, all loads are as they were. -/
  restored : ∀ operationId, (∀ o ∈ operationId, o ∉ s'.committedOperations) →
    ∃ s'', s'.handleUpdateWorkload operationId a.inst.id a.endpoint.id
        ⟨-a.committedWorkload.activeTokens⟩ = (true, s'') ∧
      ∀ id' place', s''.manager.ledgerAt id' place' = s.manager.ledgerAt id' place'

/-- If the load of an answer is given back later, it is taken off the endpoint of these ids, and off no
other; what was released in between is not made up for. -/
def ReleasesReturned (a : Allocated) (t : LedgerServer) : Prop :=
  ∀ inst place ep, t.manager.availablePool.get? a.inst.id = some inst →
    inst.endpointAt place = some ep → ep.id = a.endpoint.id →
    ∀ operationId, (∀ o ∈ operationId, o ∉ t.committedOperations) →
      ∃ t', t.handleUpdateWorkload operationId a.inst.id a.endpoint.id
          ⟨-a.committedWorkload.activeTokens⟩ = (true, t') ∧
        ∀ id' place', t'.manager.ledgerAt id' place' =
          if id' = a.inst.id ∧ place' = place then
            some (ep.workload.add (t.charge ⟨-a.committedWorkload.activeTokens⟩)).clampFloor
          else t.manager.ledgerAt id' place'

/-! ## Ids that lead to one endpoint -/

/-- The ids of the endpoints are distinct, and no load is negative. -/
structure Chargeable (inst : Instance) : Prop where
  distinct : inst.DistinctEndpoints
  nonneg : ∀ ep ∈ inst.allEndpoints, 0 ≤ ep.workload.activeTokens

instance (inst : Instance) : Decidable (Chargeable inst) :=
  decidable_of_iff (inst.DistinctEndpoints ∧ ∀ ep ∈ inst.allEndpoints, 0 ≤ ep.workload.activeTokens)
    ⟨fun h => ⟨h.1, h.2⟩, fun h => ⟨h.1, h.2⟩⟩

/-- What is announced has distinct ids and no negative loads, and an `ADD` announces fresh instances. -/
def AnnouncesDistinct (s : LedgerServer) : LedgerServerStep → Prop
  | .refresh σ eventType instances =>
    s.manager.KeepsPools (.refresh σ eventType instances) ∧ ∀ inst ∈ instances, Chargeable inst
  | _ => True

instance (s : LedgerServer) : ∀ step, Decidable (s.AnnouncesDistinct step)
  | .refresh _ _ _ => inferInstanceAs (Decidable (_ ∧ _))
  | .allocate _ _ => isTrue trivial
  | .update _ _ _ _ => isTrue trivial
  | .circuits _ => isTrue trivial

theorem Chargeable.resetWorkload {inst : Instance} (h : Chargeable inst) :
    Chargeable inst.resetWorkload := by
  refine ⟨?_, inst.balanced_resetWorkload.nonneg⟩
  have hids : inst.resetWorkload.allEndpoints.map (·.id) = inst.allEndpoints.map (·.id) := by
    have hall : inst.resetWorkload.allEndpoints =
        inst.allEndpoints.map fun ep => { ep with workload := .zero } :=
      inst.allEndpoints_mapVal _
    rw [hall, List.map_map]
    rfl
  rw [Instance.DistinctEndpoints, hids]
  exact h.distinct

theorem Chargeable.changeWorkload {inst : Instance} {place : String × EndpointId} {ep : Endpoint}
    (change : Workload) (h : Chargeable inst) (hat : inst.endpointAt place = some ep) :
    Chargeable (inst.changeWorkload place ep change) :=
  ⟨h.distinct.changeWorkload hat change, Instance.nonneg_changeWorkload h.nonneg hat change⟩

/-- The pools are views of one roster of such instances. -/
structure SoundPools (m : InstanceManager) : Prop where
  represents : ∃ w, m.Represents w
  chargeable : m.EveryInstance Chargeable

/-- The ids of instance and endpoint in a row. -/
def label (entry : WorkloadShmEntry) : InstanceId × EndpointId := (entry.instanceId, entry.endpointId)

def slotsOf (rows : List WorkloadShmEntry) : Dict (InstanceId × EndpointId) ℕ :=
  rows.zipIdx.foldl (fun map p => map.insert (label p.1) p.2) ∅

structure Sound (s : LedgerServer) : Prop where
  pools : SoundPools s.manager
  slots : s.writer.slotMap = slotsOf s.rows
  labels : (s.rows.map label).Nodup

variable {s : LedgerServer}

theorem SoundPools.nodup_rows {m : InstanceManager} (h : SoundPools m) (maxEntries : ℕ) :
    ((Writer.collectEntriesAndSlotMap m.available maxEntries).1.map label).Nodup := by
  obtain ⟨w, hw⟩ := h.represents
  have hfiled := hw.isFiled
  have hmem : ∀ role inst, inst ∈ m.available role → (m.rolePools role).get? inst.id = some inst := by
    intro role inst hinst
    obtain ⟨id, hget⟩ := Dict.mem_values_iff.mp hinst
    rwa [hfiled.keyed role id inst hget]
  have hroles : ([PDRole.encode, .prefill, .decode, .union] : List PDRole).Nodup := by decide
  unfold Writer.collectEntriesAndSlotMap
  simp only
  refine List.Nodup.sublist ((List.take_sublist _ _).map label) ?_
  simp only [List.map_flatMap, List.map_map]
  refine List.nodup_flatMap.mpr ⟨fun role _ => List.nodup_flatMap.mpr ⟨fun inst hinst => ?_, ?_⟩, ?_⟩
  · -- the endpoints of one instance
    have hdistinct := (h.chargeable.filed role _ inst (hmem role inst hinst)).distinct
    rw [Instance.DistinctEndpoints] at hdistinct
    have hmap := hdistinct.map (f := fun e => (inst.id, e)) fun _ _ heq => (Prod.mk.inj heq).2
    rwa [List.map_map] at hmap
  · -- the instances of one role
    have hids : ((m.rolePools role).values.map (·.id)).Nodup :=
      InstanceCache.Keyed.nodup_ids (hfiled.keyed role)
    refine (List.pairwise_map.mp hids).imp fun hne => ?_
    refine List.disjoint_left.mpr ?_
    simp only [List.mem_map]
    rintro _ ⟨_, -, rfl⟩ ⟨_, -, heq⟩
    exact hne (Prod.mk.inj heq).1.symm
  · -- different roles
    refine hroles.imp fun {role role'} hne => ?_
    refine List.disjoint_left.mpr ?_
    simp only [List.mem_flatMap, List.mem_map]
    rintro _ ⟨inst, hinst, _, -, rfl⟩ ⟨inst', hinst', _, -, heq⟩
    have hget := hmem role inst hinst
    have hget' := hmem role' inst' hinst'
    have hid : inst'.id = inst.id := (Prod.mk.inj heq).1
    rw [hid] at hget'
    exact hne (hfiled.disjoint role role' inst.id inst inst' hget hget')

theorem Sound.writeSnapshot (h : SoundPools s.manager) : Sound s.writeSnapshot where
  pools := h
  slots := rfl
  labels := h.nodup_rows _

theorem Sound.writeEntry (h : Sound s) (id : InstanceId) (endpointId : EndpointId)
    (result : Option (PDRole × Workload)) : Sound (s.writeEntry id endpointId result) := by
  unfold LedgerServer.writeEntry Writer.writeSingleEntry
  cases hslot : s.writer.slotMap.get? (id, endpointId) with
  | none =>
    have hcontains : s.writer.slotMap.contains (id, endpointId) = false := by
      rw [Dict.contains, hslot]
      rfl
    rw [hcontains, if_neg Bool.false_ne_true]
    exact Sound.writeSnapshot h.pools
  | some slot =>
    rw [Dict.contains_of_some hslot, if_pos rfl]
    cases result with
    | none => exact ⟨h.pools, h.slots, h.labels⟩
    | some result => exact ⟨h.pools, h.slots, h.labels⟩

theorem Sound.setManager (h : Sound s) {m : InstanceManager} (hm : SoundPools m) :
    Sound { s with manager := m } :=
  ⟨hm, h.slots, h.labels⟩

theorem SoundPools.update {m : InstanceManager} (h : SoundPools m) (id : InstanceId)
    (endpointId : EndpointId) (change : Workload) :
    SoundPools (m.updateInstanceWorkloadSync id endpointId change).2 where
  represents := by
    obtain ⟨w, hw⟩ := h.represents
    exact hw.updateInstanceWorkloadSync id endpointId change
  chargeable := InstanceManager.EveryInstance.updateInstanceWorkloadSync
    (fun change hinst hat => hinst.changeWorkload change hat) h.chargeable id endpointId change

theorem Sound.updateWorkload (h : Sound s) (id : InstanceId) (endpointId : EndpointId)
    (change : Workload) : Sound (s.updateWorkload id endpointId change).2.2 := by
  have hpools := h.pools.update id endpointId change
  unfold LedgerServer.updateWorkload
  split
  · exact h
  · split
    · next heq =>
      rw [heq] at hpools
      exact h.setManager hpools
    · next heq =>
      rw [heq] at hpools
      exact h.setManager hpools

theorem writeAgain_cases (h : Sound s) (id : InstanceId) (endpointId : EndpointId) :
    s.writeAgain id endpointId = s ∨
      ∃ result, s.manager.getEndpointWorkloadSync id endpointId = (.ok result, s.manager) ∧
        s.writeAgain id endpointId = s.writeEntry id endpointId result := by
  obtain ⟨w, hw⟩ := h.pools.represents
  have hsame := hw.getEndpointWorkloadSync id endpointId
  unfold writeAgain
  cases hget : s.manager.getEndpointWorkloadSync id endpointId with
  | mk r m =>
    rw [hget] at hsame
    subst hsame
    cases r with
    | error err => exact Or.inl rfl
    | ok result => exact Or.inr ⟨result, rfl, rfl⟩

theorem Sound.writeAgain (h : Sound s) (id : InstanceId) (endpointId : EndpointId) :
    Sound (s.writeAgain id endpointId) := by
  rcases writeAgain_cases h id endpointId with hsame | ⟨result, -, hwrite⟩
  · rw [hsame]
    exact h
  · rw [hwrite]
    exact h.writeEntry id endpointId result

theorem Sound.writeWorkloadEntry (h : Sound s) (id : InstanceId) (endpointId : EndpointId)
    (result : Option (PDRole × Workload)) : Sound (s.writeWorkloadEntry id endpointId result) := by
  cases result with
  | none => exact h.writeAgain id endpointId
  | some result => exact h.writeEntry id endpointId (some result)

theorem Sound.handleAllocateOnly (h : Sound s) (fastPath : Bool) (r : AllocateOnlyRequest) :
    Sound (s.handleAllocateOnly fastPath r).2 := by
  unfold LedgerServer.handleAllocateOnly
  split
  · exact h
  · next e _ =>
    have hupdate := h.updateWorkload e.inst.id e.endpoint.id (r.committedWorkload e)
    simp only
    split
    · next heq =>
      rw [heq] at hupdate
      exact hupdate.writeWorkloadEntry _ _ _
    · next heq =>
      rw [heq] at hupdate
      exact hupdate

theorem Sound.remember (h : Sound s) (operationId : Option String) :
    Sound (s.rememberCommittedOperation operationId) := by
  unfold rememberCommittedOperation
  split
  · exact h
  · split
    · exact h
    · exact ⟨h.pools, h.slots, h.labels⟩

theorem Sound.handleUpdateWorkload (h : Sound s) (operationId : Option String) (id : InstanceId)
    (endpointId : EndpointId) (change : Workload) :
    Sound (s.handleUpdateWorkload operationId id endpointId change).2 := by
  have hupdate := h.updateWorkload id endpointId change
  unfold LedgerServer.handleUpdateWorkload
  split
  · exact h.writeAgain id endpointId
  · split
    · next heq =>
      rw [heq] at hupdate
      exact (hupdate.remember operationId).writeWorkloadEntry _ _ _
    · next heq =>
      rw [heq] at hupdate
      exact hupdate

theorem Sound.handleRefreshInstances (h : Sound s) {σ : HashOrder InstanceId} {eventType : EventType}
    {instances : List Instance} (hkeep : s.manager.KeepsPools (.refresh σ eventType instances))
    (hinstances : ∀ inst ∈ instances, Chargeable inst) :
    Sound (s.handleRefreshInstances σ eventType instances) := by
  have hpools : SoundPools (s.manager.refreshInstances σ eventType instances).2 := by
    refine ⟨InstanceManager.exec_represents h.pools.represents hkeep rfl, ?_⟩
    have hexec : s.manager.exec (.refresh σ eventType instances) =
        some (s.manager.refreshInstances σ eventType instances).2 := rfl
    refine h.pools.chargeable.exec (fun σ' eventType' instances' heq inst hinst => ?_) hexec
    cases heq
    exact ⟨hinstances inst hinst, (hinstances inst hinst).resetWorkload⟩
  unfold LedgerServer.handleRefreshInstances
  split
  · next heq =>
    rw [heq] at hpools
    exact Sound.writeSnapshot (s := { s with manager := _ }) hpools
  · next heq =>
    rw [heq] at hpools
    exact h.setManager hpools

theorem soundPools_new : SoundPools .new :=
  ⟨⟨_, InstanceManager.represents_new⟩, InstanceManager.everyInstance_new⟩

theorem sound_start (config : SchedulerConfig) (maxEntries : ℕ) : Sound (start config maxEntries) :=
  Sound.writeSnapshot soundPools_new

/-- **Every step** keeps the pools and the slots sound. -/
theorem Sound.exec {s' : LedgerServer} {step : LedgerServerStep} (h : Sound s)
    (hannounces : s.AnnouncesDistinct step) (he : s.exec step = some s') : Sound s' := by
  cases step with
  | refresh σ eventType instances =>
    cases he
    exact h.handleRefreshInstances hannounces.1 hannounces.2
  | allocate fastPath r =>
    cases he
    exact h.handleAllocateOnly fastPath r
  | update operationId id endpointId change =>
    cases he
    exact h.handleUpdateWorkload operationId id endpointId change
  | circuits openCircuits =>
    cases he
    exact ⟨h.pools, h.slots, h.labels⟩

end LedgerServer

/-! ## The endpoint of an answer -/

namespace AllocationServer

variable {s : AllocationServer} {e : EndpointCandidate} {r : AllocateOnlyRequest}

/-- A candidate is an endpoint of an instance that is filed under some role. -/
def IsFiled (s : AllocationServer) (e : EndpointCandidate) : Prop :=
  ∃ role, (s.manager.rolePools role).get? e.inst.id = some e.inst ∧ e.endpoint ∈ e.inst.allEndpoints

theorem isFiled_of_valid (hfiled : s.manager.Filed) {candidate : InstanceId × EndpointId}
    {role : PDRole} {required : Option String}
    (h : s.selectValidCandidate candidate role required = some e) : s.IsFiled e := by
  obtain ⟨-, inst, hinst, -, ep, hep, rfl⟩ := (selectValidCandidate_eq_some hfiled).mp h
  exact ⟨role, ((mem_instancesFor hfiled).mp hinst).1, List.mem_of_find?_eq_some hep⟩

theorem isFiled_of_scan (hfiled : s.manager.Filed) {role : PDRole} {required : Option String}
    (h : s.selectGlobalLoadBalanceCandidate role required = some e) : s.IsFiled e := by
  obtain ⟨hinst, -, hep, -⟩ := mem_takeable.mp (selectGlobalLoadBalanceCandidate_eq_some h).1
  exact ⟨role, ((mem_instancesFor hfiled).mp hinst).1, List.mem_of_mem_filter hep⟩

/-- The endpoint is one that the request names. -/
def IsNamed (s : AllocationServer) (r : AllocateOnlyRequest) (e : EndpointCandidate) : Prop :=
  ∃ candidate ∈ (r.instanceId, r.endpointId) :: r.candidates.map fun a => (a.instanceId, a.endpointId),
    ∃ e₀, s.selectValidCandidate candidate r.role r.requiredEngineType = some e₀ ∧
      e₀.inst = e.inst ∧ e₀.endpoint = e.endpoint

theorem isNamed_of_fastPath (h : s.selectFastPath r = some e) : s.IsNamed r e :=
  ⟨_, List.mem_cons_self, e, h, rfl, rfl⟩

theorem isNamed_of_affinity
    (h : s.selectAffinityGlobal r.affinityCandidates r.role r.prefillLoadScale r.loadWeight
      r.requiredEngineType = some e) : s.IsNamed r e := by
  obtain ⟨p, hp, rfl⟩ := Option.map_eq_some_iff.mp h
  have hmem := (Ranking.scanBest_spec (fun p : EndpointCandidate × ℚ => p.1.score)
    (fun a b hab => hab.elim le_of_lt fun h => le_of_eq h.1) (fun a b hab => Or.inl hab) hp).1
  obtain ⟨a, hsent, ha⟩ := List.mem_filterMap.mp hmem
  obtain ⟨e, he, rfl⟩ := Option.map_eq_some_iff.mp ha
  obtain ⟨candidate, hcandidate, hcost⟩ := List.mem_filterMap.mp hsent
  obtain ⟨cost, -, rfl⟩ := Option.map_eq_some_iff.mp hcost
  exact ⟨_, List.mem_cons_of_mem _ (List.mem_map_of_mem hcandidate), e, he, rfl, rfl⟩

theorem isNamed_of_lowestLoad
    (h : s.selectLowestLoadAmongCandidates r.allocateCandidates r.role r.requiredEngineType = some e) :
    s.IsNamed r e := by
  have hmem := (Ranking.scanBest_spec EndpointCandidate.score (fun a b hab => le_of_lt hab)
    (fun a b hab => hab) h).1
  obtain ⟨a, hnamed, ha⟩ := List.mem_filterMap.mp hmem
  refine ⟨a, ?_, e, ha, rfl, rfl⟩
  unfold AllocateOnlyRequest.allocateCandidates at hnamed
  split at hnamed
  · exact List.mem_cons.mpr (Or.inl (List.mem_singleton.mp hnamed))
  · exact List.mem_cons_of_mem _ hnamed

/-- What is selected was named, or is found by the scan of all endpoints. -/
theorem selectCandidate_cases {fastPath : Bool} (h : s.selectCandidate fastPath r = some e) :
    (s.shouldScanGlobalLoadBalance r.candidatePolicy = true ∧
      s.selectGlobalLoadBalanceCandidate r.role r.requiredEngineType = some e) ∨ s.IsNamed r e := by
  have hauthoritative (h : s.selectAuthoritativeAllocateCandidate r = some e) :
      (s.shouldScanGlobalLoadBalance r.candidatePolicy = true ∧
        s.selectGlobalLoadBalanceCandidate r.role r.requiredEngineType = some e) ∨ s.IsNamed r e := by
    simp only [selectAuthoritativeAllocateCandidate, Option.or_eq_some_iff] at h
    rcases h with (hscan | ⟨-, hproposed⟩) | ⟨-, hfast⟩
    · split at hscan
      · next hshould => exact Or.inl ⟨hshould, hscan⟩
      · cases hscan
    · right
      unfold selectAmongProposed at hproposed
      split at hproposed
      · split at hproposed
        · exact isNamed_of_affinity hproposed
        · split at hproposed
          · exact isNamed_of_lowestLoad hproposed
          · cases hproposed
      · cases hproposed
    · exact Or.inr (isNamed_of_fastPath hfast)
  unfold selectCandidate at h
  split at h
  · rcases Option.or_eq_some_iff.mp h with hfast | ⟨-, h⟩
    · exact Or.inr (isNamed_of_fastPath hfast)
    · exact hauthoritative h
  · exact hauthoritative h

theorem isFiled_of_selectCandidate (hfiled : s.manager.Filed) {fastPath : Bool}
    (h : s.selectCandidate fastPath r = some e) : s.IsFiled e := by
  rcases selectCandidate_cases h with ⟨-, hscan⟩ | ⟨candidate, -, e₀, hvalid, hinst, hendpoint⟩
  · exact isFiled_of_scan hfiled hscan
  · have hvalid := isFiled_of_valid hfiled hvalid
    rwa [IsFiled, hinst, hendpoint] at hvalid

end AllocationServer

theorem AllocateOnlyRequest.committedWorkload_nonneg {r : AllocateOnlyRequest}
    (h : 0 ≤ r.workloadActiveTokens) (e : EndpointCandidate) :
    0 ≤ (r.committedWorkload e).activeTokens := by
  unfold AllocateOnlyRequest.committedWorkload
  split
  · next isl _ =>
    split
    · simp only [calculateCommittedWorkload]
      generalize ((r.matchedTokensMap.get? (e.inst.id, e.endpoint.id)).getD 0) = matched
      have hle : min (max 0 matched) (isl : Int) ≤ (isl : Int) := min_le_right _ _
      have hcast : ((min (max 0 matched) (isl : Int) : Int) : ℚ) ≤ ((isl : Int) : ℚ) :=
        Int.cast_le.mpr hle
      rw [Int.cast_natCast] at hcast
      linarith
    · exact h
  · exact h

namespace LedgerServer

variable {s : LedgerServer} {inst : Instance} {id : InstanceId} {place : String × EndpointId}
  {ep : Endpoint}

theorem add_zero_clampFloor {workload : Workload} (h : 0 ≤ workload.activeTokens) :
    (workload.add .zero).clampFloor = workload := by
  have hadd : workload.add .zero = workload := by
    cases workload
    simp [Workload.add, Workload.zero]
  rw [hadd, Instance.clampFloor_of_nonneg h]

/-- **The update of an endpoint of an available instance** is about its load. -/
theorem Sound.updateWorkload_eq (h : Sound s) (hget : s.manager.availablePool.get? id = some inst)
    (hat : inst.endpointAt place = some ep) (change : Workload) :
    ∃ role result m inst', PDRole.ofString inst.role = some role ∧
      s.updateWorkload id ep.id change = (true, result, { s with manager := m }) ∧
      (result = none ∨ result = some (role, (ep.workload.add (s.charge change)).clampFloor)) ∧
      SoundPools m ∧ m.availablePool.get? id = some inst' ∧ inst'.role = inst.role ∧
      inst'.endpointAt place =
        some { ep with workload := (ep.workload.add (s.charge change)).clampFloor } ∧
      ∀ id' place', m.ledgerAt id' place' =
        if id' = id ∧ place' = place then some (ep.workload.add (s.charge change)).clampFloor
        else s.manager.ledgerAt id' place' := by
  obtain ⟨w, hw⟩ := h.pools.represents
  have hchargeable := h.pools.chargeable.available id inst hget
  have hload := hchargeable.nonneg ep (Instance.mem_allEndpoints_iff.mpr ⟨place, hat⟩)
  have hplaced := hw.get?_availablePool.mp hget
  obtain ⟨role, hrole⟩ := (hw.fits id _ hplaced).known rfl
  by_cases hrobin : s.config.schedulerType = .roundRobin
  · rw [charge, if_pos hrobin, add_zero_clampFloor hload]
    refine ⟨role, none, s.manager, inst, hrole, ?_, Or.inl rfl, h.pools, hget, rfl, hat, ?_⟩
    · rw [LedgerServer.updateWorkload, if_pos hrobin]
    · intro id' place'
      split
      · next heq =>
        obtain ⟨rfl, rfl⟩ := heq
        simp [InstanceManager.ledgerAt, hget, hat]
      · rfl
  · rw [charge, if_neg hrobin]
    have hupdate := hw.updateInstanceWorkloadSync_eq hplaced hchargeable.distinct hat hrole change
    have hpools := h.pools.update id ep.id change
    rw [hupdate] at hpools
    refine ⟨role, _, _, inst.changeWorkload place ep change, hrole, ?_, Or.inr rfl, hpools, ?_,
      InstanceManager.changeWorkload_role inst place ep, ?_, ?_⟩
    · rw [LedgerServer.updateWorkload, if_neg hrobin, hupdate]
    · exact Dict.get?_insert_self _ _ _
    · rw [Instance.endpointAt_changeWorkload hchargeable.nonneg hat, if_pos rfl]
    · exact InstanceManager.ledgerAt_changeWorkload hget hchargeable.nonneg hat change

theorem Sound.writeWorkloadEntry_eq (h : Sound s) (hget : s.manager.availablePool.get? id = some inst)
    (hat : inst.endpointAt place = some ep) {role : PDRole}
    (hrole : PDRole.ofString inst.role = some role) {result : Option (PDRole × Workload)}
    (hresult : result = none ∨ result = some (role, ep.workload)) :
    s.writeWorkloadEntry id ep.id result = s.writeEntry id ep.id (some (role, ep.workload)) := by
  obtain ⟨w, hw⟩ := h.pools.represents
  have hplaced := hw.get?_availablePool.mp hget
  have hread := hw.getEndpointWorkloadSync_eq hplaced (h.pools.chargeable.available id inst hget).distinct
    hat hrole
  rcases hresult with rfl | rfl
  · rw [LedgerServer.writeWorkloadEntry, LedgerServer.writeAgain, hread]
  · rfl

theorem Sound.slot_of_row (h : Sound s) {k : ℕ} {entry : WorkloadShmEntry}
    (hrow : s.rows[k]? = some entry) : s.writer.slotMap.get? (label entry) = some k := by
  rw [h.slots, slotsOf]
  refine Dict.get?_foldl_insert (f := fun p : WorkloadShmEntry × ℕ => label p.1) (g := fun p => p.2) _
    ?_ _ (Or.inr ⟨(entry, k), List.mem_zipIdx_iff_getElem?.mpr hrow, rfl⟩)
  rintro ⟨entry', k'⟩ hmem hlabel
  have hrow' := List.mem_zipIdx_iff_getElem?.mp hmem
  have hlt : k' < (s.rows.map label).length := by
    rw [List.length_map]
    exact (List.getElem?_eq_some_iff.mp hrow').1
  apply (List.getElem?_inj hlt h.labels).mp
  rw [List.getElem?_map, List.getElem?_map, hrow, hrow', Option.map_some, Option.map_some]
  exact congrArg some hlabel

theorem handleUpdateWorkload_eq {operationId : Option String} {endpointId : EndpointId}
    {change : Workload} {result : Option (PDRole × Workload)} {m : InstanceManager}
    (hfresh : ∀ o ∈ operationId, o ∉ s.committedOperations)
    (hupdate : s.updateWorkload id endpointId change = (true, result, { s with manager := m })) :
    s.handleUpdateWorkload operationId id endpointId change = (true,
      (({ s with manager := m } : LedgerServer).rememberCommittedOperation
        operationId).writeWorkloadEntry id endpointId result) := by
  have hany : (operationId.any (· ∈ s.committedOperations)) = false := by
    cases operationId with
    | none => rfl
    | some o => simpa using hfresh o rfl
  rw [handleUpdateWorkload, hany, if_neg Bool.false_ne_true, hupdate]

theorem writeWorkloadEntry_manager (h : Sound s) (endpointId : EndpointId)
    (result : Option (PDRole × Workload)) :
    (s.writeWorkloadEntry id endpointId result).manager = s.manager := by
  cases result with
  | some result => rfl
  | none =>
    rcases writeAgain_cases h id endpointId with hsame | ⟨result, -, hwrite⟩
    · rw [LedgerServer.writeWorkloadEntry, hsame]
    · rw [LedgerServer.writeWorkloadEntry, hwrite]
      rfl

theorem remember_manager (s : LedgerServer) (operationId : Option String) :
    (s.rememberCommittedOperation operationId).manager = s.manager := by
  unfold rememberCommittedOperation
  split
  · rfl
  · split <;> rfl

theorem charge_nonneg (s : LedgerServer) {workload : Workload} (h : 0 ≤ workload.activeTokens) :
    0 ≤ (s.charge workload).activeTokens := by
  unfold charge
  split
  · exact le_refl _
  · exact h

theorem add_charge_neg (s : LedgerServer) (old workload : Workload) :
    (old.add (s.charge workload)).add (s.charge ⟨-workload.activeTokens⟩) = old := by
  unfold charge
  cases old
  split <;> simp [Workload.add, Workload.zero]

variable {fastPath : Bool} {r : AllocateOnlyRequest} {a : Allocated} {s' : LedgerServer}

theorem Sound.returned (h : Sound s) (hdemand : 0 ≤ r.workloadActiveTokens)
    (ha : s.handleAllocateOnly fastPath r = (some a, s')) :
    s.manager.availablePool.get? a.inst.id = some a.inst ∧ a.endpoint ∈ a.inst.allEndpoints ∧
      0 ≤ a.committedWorkload.activeTokens := by
  obtain ⟨w, hw⟩ := h.pools.represents
  unfold LedgerServer.handleAllocateOnly at ha
  split at ha
  · cases ha
  · next e hselected =>
    obtain ⟨role, hget, hep⟩ := AllocationServer.isFiled_of_selectCandidate hw.isFiled hselected
    have havailable := hw.get?_availablePool.mpr (hw.get?_rolePools.mp hget).1
    simp only at ha
    split at ha
    · cases ha
      exact ⟨havailable, hep, AllocateOnlyRequest.committedWorkload_nonneg hdemand e⟩
    · cases ha

/-- **What an answer does**: the load of its endpoint is charged and written. -/
theorem Sound.answer_eq (h : Sound s) (hdemand : 0 ≤ r.workloadActiveTokens)
    (ha : s.handleAllocateOnly fastPath r = (some a, s')) {place : String × EndpointId}
    (hat : a.inst.endpointAt place = some a.endpoint) :
    ∃ role m inst', PDRole.ofString a.inst.role = some role ∧
      s' = ({ s with manager := m } : LedgerServer).writeEntry a.inst.id a.endpoint.id
        (some (role, a.endpoint.workload.add (s.charge a.committedWorkload))) ∧
      m.availablePool.get? a.inst.id = some inst' ∧
      inst'.endpointAt place = some { a.endpoint with
        workload := a.endpoint.workload.add (s.charge a.committedWorkload) } ∧
      ∀ id' place', m.ledgerAt id' place' =
        if id' = a.inst.id ∧ place' = place then
          some (a.endpoint.workload.add (s.charge a.committedWorkload))
        else s.manager.ledgerAt id' place' := by
  obtain ⟨hget, hep, hcommitted⟩ := h.returned hdemand ha
  have hload := (h.pools.chargeable.available _ _ hget).nonneg a.endpoint hep
  have hclamp : (a.endpoint.workload.add (s.charge a.committedWorkload)).clampFloor =
      a.endpoint.workload.add (s.charge a.committedWorkload) :=
    Instance.clampFloor_of_nonneg (add_nonneg hload (s.charge_nonneg hcommitted))
  obtain ⟨role, result, m, inst', hrole, hupdate, hresult, hpools, hget', hrole', hat', hledger⟩ :=
    h.updateWorkload_eq hget hat a.committedWorkload
  rw [hclamp] at hresult hat' hledger
  refine ⟨role, m, inst', hrole, ?_, hget', hat', hledger⟩
  have hwrite := (h.setManager hpools).writeWorkloadEntry_eq hget' hat' (hrole'.symm ▸ hrole) hresult
  unfold LedgerServer.handleAllocateOnly at ha
  split at ha
  · cases ha
  · simp only at ha
    split at ha
    · next heq =>
      cases ha
      rw [hupdate] at heq
      cases heq
      exact hwrite
    · cases ha

theorem Sound.releasesReturned (h : Sound s) (a : Allocated) : ReleasesReturned a s := by
  intro inst place ep hget hat hid operationId hfresh
  rw [← hid]
  obtain ⟨-, result, m, -, -, hupdate, -, hpools, -, -, -, hledger⟩ :=
    h.updateWorkload_eq hget hat ⟨-a.committedWorkload.activeTokens⟩
  refine ⟨_, handleUpdateWorkload_eq hfresh hupdate, fun id' place' => ?_⟩
  rw [writeWorkloadEntry_manager ((h.setManager hpools).remember operationId), remember_manager]
  exact hledger id' place'

theorem Sound.chargedAsReturned (h : Sound s) (hdemand : 0 ≤ r.workloadActiveTokens)
    (ha : s.handleAllocateOnly fastPath r = (some a, s')) : ChargedAsReturned s a s' := by
  have hsound' := h.handleAllocateOnly fastPath r
  rw [ha] at hsound'
  obtain ⟨hget, hep, hcommitted⟩ := h.returned hdemand ha
  have hload := (h.pools.chargeable.available _ _ hget).nonneg a.endpoint hep
  constructor
  · exact ⟨hget, hep⟩
  · intro place hat
    obtain ⟨role, m, inst', -, rfl, -, -, hledger⟩ := h.answer_eq hdemand ha hat
    exact hledger
  · intro place hat
    obtain ⟨role, m, inst', hrole, rfl, -, -, hledger⟩ := h.answer_eq hdemand ha hat
    have hself := hledger a.inst.id place
    rw [if_pos ⟨rfl, rfl⟩] at hself
    refine ⟨role, hrole, ?_⟩
    have hmanager : (({ s with manager := m } : LedgerServer).writeEntry a.inst.id a.endpoint.id
        (some (role, a.endpoint.workload.add (s.charge a.committedWorkload)))).manager = m := rfl
    rw [hmanager, hself]
    rfl
  · intro k entry hrow hid hendpoint
    have hslot := hsound'.slot_of_row hrow
    rwa [label, hid, hendpoint] at hslot
  · intro operationId hfresh
    obtain ⟨place, hat⟩ := Instance.mem_allEndpoints_iff.mp hep
    obtain ⟨role, m, inst', -, rfl, hget', hat', hledger⟩ := h.answer_eq hdemand ha hat
    obtain ⟨s'', hupdate, hledger'⟩ := hsound'.releasesReturned a _ place _ hget' hat' rfl operationId hfresh
    refine ⟨s'', hupdate, fun id' place' => ?_⟩
    refine (hledger' id' place').trans ?_
    split
    · next heq =>
      obtain ⟨rfl, rfl⟩ := heq
      have hback : (((a.endpoint.workload.add (s.charge a.committedWorkload)).add
          (s.charge ⟨-a.committedWorkload.activeTokens⟩)).clampFloor) = a.endpoint.workload := by
        rw [add_charge_neg, Instance.clampFloor_of_nonneg hload]
      simp only [InstanceManager.ledgerAt, hget, Option.bind_some, hat, Option.map_some]
      exact congrArg some hback
    · next hne => exact (hledger id' place').trans (if_neg hne)

/-- **The endpoint that is charged is the one that is returned**, in every run whose events announce
distinct ids and in which an `ADD` announces fresh instances: its load is charged and written, in the
only slot with its ids; an update that gives the load back at once restores it, and one that comes later
is still about this endpoint. -/
theorem charged_as_returned {config : SchedulerConfig} {maxEntries : ℕ}
    {steps steps' : List LedgerServerStep} {t : LedgerServer}
    (hrun : Run exec AnnouncesDistinct (start config maxEntries) steps s)
    (hdemand : 0 ≤ r.workloadActiveTokens) (ha : s.handleAllocateOnly fastPath r = (some a, s'))
    (hlater : Run exec AnnouncesDistinct s' steps' t) :
    ChargedAsReturned s a s' ∧ ReleasesReturned a t := by
  have hsound := hrun.invariant_state (sound_start config maxEntries)
    fun h hannounces he => h.exec hannounces he
  have hsound' := hsound.handleAllocateOnly fastPath r
  rw [ha] at hsound'
  have hsound'' := hlater.invariant_state hsound' fun h hannounces he => h.exec hannounces he
  exact ⟨hsound.chargedAsReturned hdemand ha, hsound''.releasesReturned a⟩

/-- Loads are balanced. -/
def balancedLoads : SchedulerConfig where
  schedulerType := .loadBalance
  endpointInstanceScoreWeight := 1 / 20
  kvAffinity :=
    { mode := .unified, loadWeight := 1, overlapCredit := 1, prefillLoadScale := 1, loadGateTopn := 0
      wNpu := 1, wCpu := 1, wDisk := 0 }
  blockSize := 128

/-- A request of five tokens. -/
def fiveTokens : AllocateOnlyRequest where
  instanceId := 1
  endpointId := 0
  candidates := []
  role := .prefill
  workloadActiveTokens := 5
  candidatePolicy := some .loadBalance
  requiredEngineType := none
  isl := none
  prefillLoadScale := none
  loadWeight := none

open InstanceManager (oneEndpoint twoPods)

/-- An instance of two pods whose endpoints have one id. -/
def equalPods : Instance :=
  { oneEndpoint 1 "p" "prefill" with
    endpoints := (oneEndpoint 1 "p" "prefill").endpoints.insert "10.0.0.2"
      ((∅ : Dict EndpointId Endpoint).insert 0 ⟨0, "10.0.0.2", "8000", "8001", none, [], .zero, false⟩) }

/-- Whether the first pod is returned, and the load of the second one before and after. -/
def secondPod : Option (Bool × Option Workload × Option Workload) :=
  (runList exec Free (start balancedLoads 16) [.refresh .insertion .add [equalPods]]).bind fun s =>
    (s.handleAllocateOnly false fiveTokens).1.map fun a =>
      (decide (a.inst.endpointAt ("10.0.0.1", 0) = some a.endpoint),
        s.manager.ledgerAt 1 ("10.0.0.2", 0),
        (s.handleAllocateOnly false fiveTokens).2.manager.ledgerAt 1 ("10.0.0.2", 0))

/-- The first pod is returned, and the second one is charged. -/
theorem equalPods_charged :
    secondPod = some (true, some ⟨0⟩, some ⟨5⟩) ∧
      ∃ s a s', Run exec Free (start balancedLoads 16) [.refresh .insertion .add [equalPods]] s ∧
        s.handleAllocateOnly false fiveTokens = (some a, s') ∧ ¬ChargedAsReturned s a s' := by
  have hsecond : secondPod = some (true, some ⟨0⟩, some ⟨5⟩) := by decide +kernel
  refine ⟨hsecond, ?_⟩
  obtain ⟨s, hs, hsecond⟩ := Option.bind_eq_some_iff.mp hsecond
  obtain ⟨a, ha, hsecond⟩ := Option.map_eq_some_iff.mp hsecond
  simp only [Prod.mk.injEq, decide_eq_true_eq] at hsecond
  obtain ⟨hat, hbefore, hafter⟩ := hsecond
  refine ⟨s, a, _, runList_run hs, Prod.ext ha rfl, fun h => ?_⟩
  have hkept := h.charged _ hat 1 ("10.0.0.2", 0)
  rw [if_neg fun heq => absurd heq.2 (by decide), hbefore, hafter] at hkept
  exact absurd hkept (by decide)

theorem twoPods_charged : ∃ s a s',
    Run exec AnnouncesDistinct (start balancedLoads 16) [.refresh .insertion .add [twoPods]] s ∧
      s.handleAllocateOnly false fiveTokens = (some a, s') ∧ ChargedAsReturned s a s' ∧
      ReleasesReturned a s' := by
  have hsome : ((runList exec AnnouncesDistinct (start balancedLoads 16)
      [.refresh .insertion .add [twoPods]]).bind fun s =>
        (s.handleAllocateOnly false fiveTokens).1).isSome := by decide +kernel
  obtain ⟨a, ha⟩ := Option.isSome_iff_exists.mp hsome
  obtain ⟨s, hs, ha⟩ := Option.bind_eq_some_iff.mp ha
  exact ⟨s, a, _, runList_run hs, Prod.ext ha rfl,
    charged_as_returned (runList_run hs) (by decide) (Prod.ext ha rfl) .nil⟩

end LedgerServer

end PyMotor.Coordinator
