import Mathlib
import PyMotor.Coordinator.Scheduler.Charging
import PyMotor.Lib.Scan

/-!
# Every load is given back once

A worker that is given an endpoint for an attempt of a request has its load charged there, and gives the
load back when the attempt is over (`router/strategies/unified_pd.py`). The message that gives it back is
sent again until it is answered, so it may arrive any number of times, also long after the first time. It
carries an operation id, made of the request, the attempt and the endpoint, and the scheduler remembers the
operations that it has committed, up to a limit (`runtime/scheduler_server.py`).

`loads_accounted` says what that comes to: in every run, whatever is lost, repeated or overtaken, the load of
an endpoint is the one that its instance was announced with, and on top of it the loads of the grants that are
not given back yet, each of them once.
-/

namespace PyMotor.Coordinator

deriving instance DecidableEq for Instance

/-- What a worker is given for an attempt of a request. -/
structure Grant where
  reqId : String
  attemptSeq : ℕ
  instanceId : InstanceId
  endpointId : EndpointId
  workload : Workload
  deriving DecidableEq

namespace Grant

/-- The id of the operation that gives the load back; the action is the release of tokens. -/
def operationId (g : Grant) : String :=
  g.reqId ++ ":a" ++ Nat.repr g.attemptSeq ++ ":" ++ Int.repr g.instanceId ++ ":" ++
    Int.repr g.endpointId ++ ":Release_Tokens"

/-- A grant for the same attempt, on the same endpoint. -/
def SameKey (g h : Grant) : Prop :=
  g.reqId = h.reqId ∧ g.attemptSeq = h.attemptSeq ∧ g.instanceId = h.instanceId ∧
    g.endpointId = h.endpointId

instance (g h : Grant) : Decidable (g.SameKey h) := inferInstanceAs (Decidable (_ ∧ _))

theorem colon_notMem_nat (n : ℕ) : ':' ∉ (Nat.repr n).toList := by
  intro h
  have hdigit := Nat.isDigit_of_mem_toDigits (b := 10) (n := n) (by decide) (by decide)
    (by simpa using h)
  exact absurd hdigit (by decide)

theorem colon_notMem_int (n : ℤ) : ':' ∉ (Int.repr n).toList := by
  rw [Int.repr_eq_if]
  split
  · exact colon_notMem_nat _
  · rw [String.toList_append]
    intro h
    rcases List.mem_append.mp h with h | h
    · exact absurd h (by decide)
    · exact colon_notMem_nat _ h

theorem operationId_toList (g : Grant) : g.operationId.toList =
    (((g.reqId.toList ++ ':' :: 'a' :: (Nat.repr g.attemptSeq).toList) ++
      ':' :: (Int.repr g.instanceId).toList) ++ ':' :: (Int.repr g.endpointId).toList) ++
      ':' :: "Release_Tokens".toList := by
  simp [operationId]

/-- **An operation id tells the attempt and the endpoint**: whatever the request is called, the text is
read from its end. -/
theorem sameKey_of_operationId {g h : Grant} (heq : g.operationId = h.operationId) : g.SameKey h := by
  have htext := congrArg String.toList heq
  rw [operationId_toList, operationId_toList] at htext
  obtain ⟨htext, -⟩ := append_cons_inj_last (by decide) (by decide) htext
  obtain ⟨htext, hendpoint⟩ := append_cons_inj_last (colon_notMem_int _) (colon_notMem_int _) htext
  obtain ⟨htext, hinst⟩ := append_cons_inj_last (colon_notMem_int _) (colon_notMem_int _) htext
  have hseq : ∀ n, ':' ∉ 'a' :: (Nat.repr n).toList := fun n hmem =>
    colon_notMem_nat n (List.mem_of_ne_of_mem (by decide) hmem)
  obtain ⟨hreq, hattempt⟩ := append_cons_inj_last (hseq _) (hseq _) htext
  refine ⟨String.toList_injective hreq, ?_, ?_, ?_⟩
  · exact Nat.repr_injective (String.toList_injective (List.cons.inj hattempt).2)
  · exact Int.repr_injective (String.toList_injective hinst)
  · exact Int.repr_injective (String.toList_injective hendpoint)

end Grant

/-! ## What an operation does to the endpoints -/

namespace LedgerServer

variable {s : LedgerServer} {id : InstanceId} {endpointId : EndpointId} {place : String × EndpointId}
  {ep : Endpoint} {o : String}

/-- The two states differ in loads and in what is written, if at all. -/
structure SameRecord (s s' : LedgerServer) : Prop where
  config : s'.config = s.config
  committed : s'.committedOperations = s.committedOperations

theorem SameRecord.trans {s'' s' : LedgerServer} (h : SameRecord s s') (h' : SameRecord s' s'') :
    SameRecord s s'' :=
  ⟨h'.config.trans h.config, h'.committed.trans h.committed⟩

theorem charge_of_config {s s' : LedgerServer} (h : s'.config = s.config) : s'.charge = s.charge := by
  funext workload
  rw [charge, charge, h]

theorem charge_neg (s : LedgerServer) (workload : Workload) :
    (s.charge ⟨-workload.activeTokens⟩).activeTokens = -(s.charge workload).activeTokens := by
  unfold charge
  split
  · exact neg_zero.symm
  · rfl

theorem sameRecord_writeAgain (s : LedgerServer) (id : InstanceId) (endpointId : EndpointId) :
    SameRecord s (s.writeAgain id endpointId) := by
  unfold writeAgain
  split <;> exact ⟨rfl, rfl⟩

theorem sameRecord_writeWorkloadEntry (s : LedgerServer) (id : InstanceId) (endpointId : EndpointId)
    (result : Option (PDRole × Workload)) : SameRecord s (s.writeWorkloadEntry id endpointId result) := by
  cases result with
  | none => exact sameRecord_writeAgain s id endpointId
  | some result => exact ⟨rfl, rfl⟩

theorem sameRecord_updateWorkload (s : LedgerServer) (id : InstanceId) (endpointId : EndpointId)
    (change : Workload) : SameRecord s (s.updateWorkload id endpointId change).2.2 := by
  unfold updateWorkload
  split
  · exact ⟨rfl, rfl⟩
  · split <;> exact ⟨rfl, rfl⟩

theorem sameRecord_handleAllocateOnly (s : LedgerServer) (fastPath : Bool) (r : AllocateOnlyRequest) :
    SameRecord s (s.handleAllocateOnly fastPath r).2 := by
  unfold handleAllocateOnly
  split
  · exact ⟨rfl, rfl⟩
  · next e _ =>
    have hupdate := sameRecord_updateWorkload s e.inst.id e.endpoint.id (r.committedWorkload e)
    simp only
    split
    · next heq =>
      rw [heq] at hupdate
      exact hupdate.trans (sameRecord_writeWorkloadEntry _ _ _ _)
    · next heq =>
      rw [heq] at hupdate
      exact hupdate

theorem sameRecord_handleRefreshInstances (s : LedgerServer) (σ : HashOrder InstanceId)
    (eventType : EventType) (instances : List Instance) :
    SameRecord s (s.handleRefreshInstances σ eventType instances) := by
  unfold handleRefreshInstances
  split <;> exact ⟨rfl, rfl⟩

theorem Sound.updateWorkload_endpointOf (h : Sound s) (hep : s.manager.endpointOf id place = some ep)
    (change : Workload) :
    ∃ result m, s.updateWorkload id ep.id change = (true, result, { s with manager := m }) ∧
      SoundPools m ∧ ∀ id' place', m.endpointOf id' place' =
        if id' = id ∧ place' = place then
          some { ep with workload := (ep.workload.add (s.charge change)).clampFloor }
        else s.manager.endpointOf id' place' := by
  obtain ⟨inst, hget, hat⟩ := InstanceManager.endpointOf_eq_some.mp hep
  obtain ⟨w, hw⟩ := h.pools.represents
  have hchargeable := h.pools.chargeable.available id inst hget
  have hplaced := hw.get?_availablePool.mp hget
  obtain ⟨role, hrole⟩ := (hw.fits id _ hplaced).known rfl
  by_cases hrobin : s.config.schedulerType = .roundRobin
  · refine ⟨none, s.manager, by rw [LedgerServer.updateWorkload, if_pos hrobin], h.pools, ?_⟩
    intro id' place'
    split
    · next heq =>
      obtain ⟨rfl, rfl⟩ := heq
      have hload := hchargeable.nonneg ep (Instance.mem_allEndpoints_iff.mpr ⟨_, hat⟩)
      rw [hep, charge, if_pos hrobin, add_zero_clampFloor hload]
    · rfl
  · have hupdate := hw.updateInstanceWorkloadSync_eq hplaced hchargeable.distinct hat hrole change
    have hpools := h.pools.update id ep.id change
    rw [hupdate] at hpools
    refine ⟨_, _, by rw [LedgerServer.updateWorkload, if_neg hrobin, hupdate], hpools, ?_⟩
    rw [charge, if_neg hrobin]
    exact InstanceManager.endpointOf_changeWorkload hget hchargeable.nonneg hat change

theorem updateWorkload_of_absent (endpointId : EndpointId)
    (habsent : s.manager.availablePool.get? id = none) (change : Workload) :
    ∃ success, s.updateWorkload id endpointId change = (success, none, s) := by
  unfold updateWorkload
  split
  · exact ⟨true, rfl⟩
  · refine ⟨false, ?_⟩
    have hsync : s.manager.updateInstanceWorkloadSync id endpointId change = (.ok none, s.manager) := by
      rw [InstanceManager.updateInstanceWorkloadSync, habsent]
    rw [hsync]

theorem Sound.update_again (h : Sound s) (id : InstanceId) (endpointId : EndpointId) (ho : o ∈ s.committedOperations) (change : Workload) :
    ∃ s', s.handleUpdateWorkload (some o) id endpointId change = (true, s') ∧
      s'.manager = s.manager ∧ SameRecord s s' := by
  have hany : ((some o).any (· ∈ s.committedOperations)) = true := by simpa using ho
  refine ⟨s.writeAgain id endpointId, by rw [LedgerServer.handleUpdateWorkload, hany, if_pos rfl], ?_,
    sameRecord_writeAgain s id endpointId⟩
  exact writeWorkloadEntry_manager h endpointId none

theorem Sound.update_present (h : Sound s) (ho : o ∉ s.committedOperations)
    (hep : s.manager.endpointOf id place = some ep) (change : Workload) :
    ∃ s', s.handleUpdateWorkload (some o) id ep.id change = (true, s') ∧
      SameRecord (s.rememberCommittedOperation (some o)) s' ∧
      ∀ id' place', s'.manager.endpointOf id' place' =
        if id' = id ∧ place' = place then
          some { ep with workload := (ep.workload.add (s.charge change)).clampFloor }
        else s.manager.endpointOf id' place' := by
  obtain ⟨result, m, hupdate, hpools, hendpoints⟩ := h.updateWorkload_endpointOf hep change
  have hfresh : ∀ o' ∈ some o, o' ∉ s.committedOperations := fun o' ho' =>
    (Option.mem_some_iff.mp ho') ▸ ho
  refine ⟨_, handleUpdateWorkload_eq hfresh hupdate, ?_, fun id' place' => ?_⟩
  · refine SameRecord.trans ?_ (sameRecord_writeWorkloadEntry _ _ _ _)
    simp only [rememberCommittedOperation]
    split <;> exact ⟨rfl, rfl⟩
  · rw [writeWorkloadEntry_manager ((h.setManager hpools).remember _), remember_manager]
    exact hendpoints id' place'

theorem Sound.update_absent (h : Sound s) (endpointId : EndpointId) (ho : o ∉ s.committedOperations)
    (habsent : s.manager.availablePool.get? id = none) (change : Workload) :
    ∃ success s', s.handleUpdateWorkload (some o) id endpointId change = (success, s') ∧
      s'.manager = s.manager ∧
      SameRecord (if success then s.rememberCommittedOperation (some o) else s) s' := by
  have hany : ((some o).any (· ∈ s.committedOperations)) = false := by simpa using ho
  obtain ⟨success, hupdate⟩ := updateWorkload_of_absent endpointId habsent change
  unfold LedgerServer.handleUpdateWorkload
  rw [hany, if_neg Bool.false_ne_true, hupdate]
  cases success with
  | false => exact ⟨false, s, rfl, rfl, ⟨rfl, rfl⟩⟩
  | true =>
    refine ⟨true, _, rfl, ?_, sameRecord_writeWorkloadEntry _ _ _ _⟩
    rw [writeWorkloadEntry_manager (h.remember _), remember_manager]

theorem remember_config (s : LedgerServer) (operationId : Option String) :
    (s.rememberCommittedOperation operationId).config = s.config := by
  unfold rememberCommittedOperation
  split
  · rfl
  · split <;> rfl

theorem Sound.unanswered (h : Sound s) {fastPath : Bool} {r : AllocateOnlyRequest}
    (hnone : (s.handleAllocateOnly fastPath r).1 = none) :
    (s.handleAllocateOnly fastPath r).2.manager = s.manager := by
  obtain ⟨w, hw⟩ := h.pools.represents
  unfold LedgerServer.handleAllocateOnly at hnone ⊢
  split
  · rfl
  · next e hselected =>
    -- what is selected is there, and its update goes through
    obtain ⟨role, hget, hmem⟩ := AllocationServer.isFiled_of_selectCandidate hw.isFiled hselected
    have havailable := hw.get?_availablePool.mpr (hw.get?_rolePools.mp hget).1
    obtain ⟨place, hat⟩ := Instance.mem_allEndpoints_iff.mp hmem
    obtain ⟨result, m, hupdate, -, -⟩ := h.updateWorkload_endpointOf
      (InstanceManager.endpointOf_eq_some.mpr ⟨_, havailable, hat⟩) (r.committedWorkload e)
    rw [hselected] at hnone
    simp only [hupdate] at hnone
    cases hnone

theorem Sound.answered (h : Sound s) {fastPath : Bool} {r : AllocateOnlyRequest} {a : Allocated}
    {s' : LedgerServer} (hdemand : 0 ≤ r.workloadActiveTokens)
    (ha : s.handleAllocateOnly fastPath r = (some a, s')) :
    ∃ place, s.manager.endpointOf a.inst.id place = some a.endpoint ∧ ∀ id' place',
      s'.manager.endpointOf id' place' = if id' = a.inst.id ∧ place' = place then
        some { a.endpoint with
          workload := (a.endpoint.workload.add (s.charge a.committedWorkload)).clampFloor }
        else s.manager.endpointOf id' place' := by
  obtain ⟨hget, hmem, -⟩ := h.returned hdemand ha
  obtain ⟨place, hat⟩ := Instance.mem_allEndpoints_iff.mp hmem
  have hep : s.manager.endpointOf a.inst.id place = some a.endpoint :=
    InstanceManager.endpointOf_eq_some.mpr ⟨_, hget, hat⟩
  obtain ⟨result, m, hupdate, hpools, hendpoints⟩ := h.updateWorkload_endpointOf hep a.committedWorkload
  refine ⟨place, hep, fun id' place' => ?_⟩
  unfold LedgerServer.handleAllocateOnly at ha
  split at ha
  · cases ha
  · simp only at ha
    split at ha
    · next heq =>
      cases ha
      rw [hupdate] at heq
      cases heq
      rw [writeWorkloadEntry_manager (h.setManager hpools)]
      exact hendpoints id' place'
    · cases ha

end LedgerServer

/-! ## The scheduler and what it was asked -/

structure LoadAccounts where
  server : LedgerServer
  /-- All grants, the newest first. -/
  issued : List Grant
  /-- The grants whose instance has been kept since, object and loads. -/
  granted : List Grant
  /-- The grants that were given back, the last one first. -/
  applied : List Grant
  /-- The load of an endpoint at the time from which on its instance has been kept. -/
  base : InstanceId → String × EndpointId → Option Workload

inductive AccountsStep where
  | refresh (σ : HashOrder InstanceId) (eventType : EventType) (instances : List Instance)
  /-- A request of a worker, for an attempt. -/
  | allocate (reqId : String) (attemptSeq : ℕ) (fastPath : Bool) (r : AllocateOnlyRequest)
  /-- The message that gives a grant back arrives, for the first time or again. -/
  | release (g : Grant)
  | circuits (openCircuits : Finset InstanceId)

namespace LoadAccounts

variable (s : LoadAccounts)

def start (config : SchedulerConfig) (maxEntries : ℕ) : LoadAccounts :=
  ⟨LedgerServer.start config maxEntries, [], [], [], fun _ _ => none⟩

/-- The scheduler has the instance as it had it before. -/
def Keeps (server : LedgerServer) (id : InstanceId) : Prop :=
  server.manager.availablePool.get? id = s.server.manager.availablePool.get? id

instance (server : LedgerServer) (id : InstanceId) : Decidable (s.Keeps server id) :=
  inferInstanceAs (Decidable (_ = _))

/-- What is known of an instance that is announced anew starts from its loads. -/
def refresh (server : LedgerServer) : LoadAccounts :=
  { s with
    server := server
    granted := s.granted.filter fun g => s.Keeps server g.instanceId
    base := fun id => if s.Keeps server id then s.base id else server.manager.ledgerAt id }

def grantOf (reqId : String) (attemptSeq : ℕ) (a : Allocated) : Grant :=
  ⟨reqId, attemptSeq, a.inst.id, a.endpoint.id, a.committedWorkload⟩

def allocate (reqId : String) (attemptSeq : ℕ) (fastPath : Bool) (r : AllocateOnlyRequest) : LoadAccounts :=
  match s.server.handleAllocateOnly fastPath r with
  | (none, server) => { s with server := server }
  | (some a, server) =>
    let g := grantOf reqId attemptSeq a
    { s with server := server, issued := g :: s.issued, granted := g :: s.granted }

def release (g : Grant) : LoadAccounts :=
  let (success, server) := s.server.handleUpdateWorkload (some g.operationId) g.instanceId g.endpointId
    ⟨-g.workload.activeTokens⟩
  { s with
    server := server
    applied := if success ∧ g ∉ s.applied then g :: s.applied else s.applied }

def exec : AccountsStep → Option LoadAccounts
  | .refresh σ eventType instances =>
    some (s.refresh (s.server.handleRefreshInstances σ eventType instances))
  | .allocate reqId attemptSeq fastPath r => some (s.allocate reqId attemptSeq fastPath r)
  | .release g => some (s.release g)
  | .circuits openCircuits =>
    some { s with server := { s.server with openCircuits := openCircuits } }

/-- The grants that are not given back. -/
def outstanding : Finset Grant := s.granted.toFinset \ s.applied.toFinset

/-- What is charged to an endpoint for grants that are not given back. -/
def owed (id : InstanceId) (endpointId : EndpointId) : ℚ :=
  ∑ g ∈ s.outstanding with g.instanceId = id ∧ g.endpointId = endpointId,
    (s.server.charge g.workload).activeTokens

/-- What workers and the controller do. No endpoint is given twice for one attempt; a grant is given back
again only as long as the scheduler remembers it, and for the first time while its instance is kept, or when it
is away. -/
def Proper : AccountsStep → Prop
  | .refresh σ eventType instances => s.server.AnnouncesDistinct (.refresh σ eventType instances)
  | .allocate reqId attemptSeq fastPath r =>
    0 ≤ r.workloadActiveTokens ∧ ∀ a ∈ (s.server.handleAllocateOnly fastPath r).1, ∀ g ∈ s.issued,
      ¬g.SameKey (grantOf reqId attemptSeq a)
  | .release g =>
    g ∈ s.issued ∧ if g ∈ s.applied then g ∈ s.applied.take LedgerServer.maxCommittedOperations
      else g ∈ s.granted ∨ s.server.manager.availablePool.get? g.instanceId = none
  | .circuits _ => True

instance : ∀ step, Decidable (s.Proper step)
  | .refresh σ eventType instances =>
    inferInstanceAs (Decidable (s.server.AnnouncesDistinct (.refresh σ eventType instances)))
  | .allocate _ _ _ _ => inferInstanceAs (Decidable (_ ∧ _))
  | .release _ => inferInstanceAs (Decidable (_ ∧ _))
  | .circuits _ => isTrue trivial

/-! ## Balanced books -/

variable {s}

/-- The books agree with the loads. -/
structure Balanced (s : LoadAccounts) : Prop where
  sound : LedgerServer.Sound s.server
  committed : s.server.committedOperations =
    ((s.applied.take LedgerServer.maxCommittedOperations).map Grant.operationId).reverse
  granted_issued : ∀ g ∈ s.granted, g ∈ s.issued
  applied_issued : ∀ g ∈ s.applied, g ∈ s.issued
  distinct : ∀ g ∈ s.issued, ∀ h ∈ s.issued, g.SameKey h → g = h
  charged : ∀ g ∈ s.issued, 0 ≤ g.workload.activeTokens
  located : ∀ g ∈ s.granted, ∃ place ep,
    s.server.manager.endpointOf g.instanceId place = some ep ∧ ep.id = g.endpointId
  loads : ∀ id place ep, s.server.manager.endpointOf id place = some ep →
    ∃ b, s.base id place = some b ∧ 0 ≤ b.activeTokens ∧
      ep.workload.activeTokens = b.activeTokens + s.owed id ep.id

theorem Balanced.granted_nonneg (h : Balanced s) : ∀ g ∈ s.granted, 0 ≤ g.workload.activeTokens :=
  fun g hg => h.charged g (h.granted_issued g hg)

theorem mem_outstanding {g : Grant} : g ∈ s.outstanding ↔ g ∈ s.granted ∧ g ∉ s.applied := by
  simp [outstanding]

theorem owed_of_insert (s s' : LoadAccounts) (g : Grant) (hconfig : s'.server.config = s.server.config)
    (hnew : g ∉ s.outstanding) (hout : s'.outstanding = insert g s.outstanding) (id : InstanceId)
    (endpointId : EndpointId) : s'.owed id endpointId =
      (if g.instanceId = id ∧ g.endpointId = endpointId then
        (s.server.charge g.workload).activeTokens else 0) + s.owed id endpointId := by
  have hcharge := LedgerServer.charge_of_config hconfig
  unfold owed
  rw [hout, hcharge, Finset.filter_insert]
  split
  · apply Finset.sum_insert
    exact fun hmem => hnew (Finset.mem_filter.mp hmem).1
  · rw [zero_add]

theorem owed_of_outstanding (s s' : LoadAccounts) (hconfig : s'.server.config = s.server.config)
    {id : InstanceId} {endpointId : EndpointId}
    (hout : ∀ g, g.instanceId = id → (g ∈ s'.outstanding ↔ g ∈ s.outstanding)) :
    s'.owed id endpointId = s.owed id endpointId := by
  have hcharge := LedgerServer.charge_of_config hconfig
  unfold owed
  rw [hcharge]
  apply Finset.sum_congr
  · ext g
    simp only [Finset.mem_filter]
    grind
  · exact fun _ _ => rfl

theorem owed_nonneg (h : ∀ g ∈ s.granted, 0 ≤ g.workload.activeTokens) (id : InstanceId)
    (endpointId : EndpointId) : 0 ≤ s.owed id endpointId := by
  apply Finset.sum_nonneg
  intro g hg
  have hgranted := (mem_outstanding.mp (Finset.mem_filter.mp hg).1).1
  exact s.server.charge_nonneg (h g hgranted)

theorem Balanced.eq_of_operationId (h : Balanced s) {g g' : Grant} (hg : g ∈ s.issued)
    (hg' : g' ∈ s.issued) (heq : g.operationId = g'.operationId) : g = g' :=
  h.distinct g hg g' hg' (Grant.sameKey_of_operationId heq)

theorem Balanced.mem_committed (h : Balanced s) {g : Grant} (hg : g ∈ s.issued) :
    g.operationId ∈ s.server.committedOperations ↔
      g ∈ s.applied.take LedgerServer.maxCommittedOperations := by
  rw [h.committed, List.mem_reverse, List.mem_map]
  constructor
  · rintro ⟨g', hmem, heq⟩
    have hg' := h.applied_issued g' (List.mem_of_mem_take hmem)
    rwa [← h.eq_of_operationId hg' hg heq]
  · exact fun hmem => ⟨g, hmem, rfl⟩

theorem Balanced.committed_remember (h : Balanced s) {g : Grant}
    (hnew : g.operationId ∉ s.server.committedOperations) :
    (s.server.rememberCommittedOperation (some g.operationId)).committedOperations =
      (((g :: s.applied).take LedgerServer.maxCommittedOperations).map Grant.operationId).reverse := by
  have hmax : LedgerServer.maxCommittedOperations = (LedgerServer.maxCommittedOperations - 1) + 1 := rfl
  generalize LedgerServer.maxCommittedOperations - 1 = n at hmax
  have hcommitted := h.committed
  rw [hmax] at hcommitted
  simp only [LedgerServer.rememberCommittedOperation, if_neg hnew]
  rw [hmax, List.take_succ_cons, List.map_cons, List.reverse_cons]
  split
  · next hlimit =>
    -- the oldest operation is the last one that is kept
    rw [List.length_append, List.length_singleton] at hlimit
    have hfull : n < s.applied.length := by
      have hlength := congrArg List.length hcommitted
      rw [List.length_reverse, List.length_map, List.length_take] at hlength
      omega
    rw [hcommitted, List.take_add_one, List.getElem?_eq_getElem hfull]
    simp only [Option.toList_some, List.map_append, List.map_cons, List.map_nil, List.reverse_append,
      List.reverse_singleton, List.cons_append, List.nil_append, List.tail_cons]
  · next hlimit =>
    rw [List.length_append, List.length_singleton] at hlimit
    have hshort : s.applied.length ≤ n := by
      have hlength := congrArg List.length hcommitted
      rw [List.length_reverse, List.length_map, List.length_take] at hlength
      omega
    rw [hcommitted, List.take_of_length_le hshort, List.take_of_length_le (by omega)]

theorem balanced_start (config : SchedulerConfig) (maxEntries : ℕ) :
    Balanced (start config maxEntries) where
  sound := LedgerServer.sound_start config maxEntries
  committed := rfl
  granted_issued := fun _ hg => absurd hg List.not_mem_nil
  applied_issued := fun _ hg => absurd hg List.not_mem_nil
  distinct := fun _ hg => absurd hg List.not_mem_nil
  charged := fun _ hg => absurd hg List.not_mem_nil
  located := fun _ hg => absurd hg List.not_mem_nil
  loads := fun _ _ _ hep => by cases hep

theorem Balanced.refresh (h : Balanced s) {σ : HashOrder InstanceId} {eventType : EventType}
    {instances : List Instance}
    (hannounces : s.server.AnnouncesDistinct (.refresh σ eventType instances)) :
    Balanced (s.refresh (s.server.handleRefreshInstances σ eventType instances)) := by
  have hsound := h.sound.exec hannounces rfl
  have hrecord := LedgerServer.sameRecord_handleRefreshInstances s.server σ eventType instances
  generalize s.server.handleRefreshInstances σ eventType instances = server at hsound hrecord ⊢
  have hgranted : ∀ g, g ∈ (s.refresh server).granted ↔ g ∈ s.granted ∧ s.Keeps server g.instanceId := by
    intro g
    simp [LoadAccounts.refresh]
  constructor
  · exact hsound
  · show server.committedOperations = _
    rw [hrecord.committed]
    exact h.committed
  · exact fun g hg => h.granted_issued g ((hgranted g).mp hg).1
  · exact h.applied_issued
  · exact h.distinct
  · exact h.charged
  · intro g hg
    obtain ⟨hg, hkeeps⟩ := (hgranted g).mp hg
    obtain ⟨place, ep, hep, hid⟩ := h.located g hg
    refine ⟨place, ep, ?_, hid⟩
    show server.manager.endpointOf g.instanceId place = some ep
    rwa [InstanceManager.endpointOf, hkeeps]
  · intro id place ep hep
    replace hep : server.manager.endpointOf id place = some ep := hep
    by_cases hkeeps : s.Keeps server id
    · have hbefore : s.server.manager.endpointOf id place = some ep := by
        rwa [InstanceManager.endpointOf, hkeeps] at hep
      obtain ⟨b, hb, hnonneg, hload⟩ := h.loads id place ep hbefore
      refine ⟨b, ?_, hnonneg, ?_⟩
      · show (if s.Keeps server id then s.base id else server.manager.ledgerAt id) place = some b
        rwa [if_pos hkeeps]
      · rw [hload, owed_of_outstanding s (s.refresh server) hrecord.config]
        intro g hid
        rw [mem_outstanding, mem_outstanding, hgranted, hid]
        exact and_congr_left fun _ => and_iff_left hkeeps
    · obtain ⟨inst, hget, hat⟩ := InstanceManager.endpointOf_eq_some.mp hep
      have hnonneg := (hsound.pools.chargeable.available id inst hget).nonneg ep
        (Instance.mem_allEndpoints_iff.mpr ⟨place, hat⟩)
      refine ⟨ep.workload, ?_, hnonneg, ?_⟩
      · show (if s.Keeps server id then s.base id else server.manager.ledgerAt id) place = _
        rw [if_neg hkeeps, InstanceManager.ledgerAt, hget, Option.bind_some, hat, Option.map_some]
      · -- nothing is outstanding there
        have hnone : (s.refresh server).owed id ep.id = 0 := by
          apply Finset.sum_eq_zero
          intro g hg
          obtain ⟨hg, hid, -⟩ := Finset.mem_filter.mp hg
          exact absurd (hid ▸ ((hgranted g).mp (mem_outstanding.mp hg).1).2) hkeeps
        rw [hnone, add_zero]

theorem Balanced.setServer (h : Balanced s) {server : LedgerServer} (hsound : LedgerServer.Sound server)
    (hmanager : server.manager = s.server.manager) (hrecord : LedgerServer.SameRecord s.server server) :
    Balanced { s with server := server } where
  sound := hsound
  committed := hrecord.committed.trans h.committed
  granted_issued := h.granted_issued
  applied_issued := h.applied_issued
  distinct := h.distinct
  charged := h.charged
  located := by
    intro g hg
    show ∃ place ep, server.manager.endpointOf g.instanceId place = some ep ∧ ep.id = g.endpointId
    rw [hmanager]
    exact h.located g hg
  loads := by
    intro id place ep hep
    replace hep : server.manager.endpointOf id place = some ep := hep
    rw [hmanager] at hep
    obtain ⟨b, hb, hnonneg, hload⟩ := h.loads id place ep hep
    refine ⟨b, hb, hnonneg, ?_⟩
    rw [hload, owed_of_outstanding s { s with server := server } hrecord.config fun _ _ => Iff.rfl]

theorem Balanced.place_unique (h : Balanced s) {id : InstanceId} {place place' : String × EndpointId}
    {ep ep' : Endpoint} (hep : s.server.manager.endpointOf id place = some ep)
    (hep' : s.server.manager.endpointOf id place' = some ep') (hid : ep.id = ep'.id) : place = place' := by
  obtain ⟨inst, hget, hat⟩ := InstanceManager.endpointOf_eq_some.mp hep
  obtain ⟨inst', hget', hat'⟩ := InstanceManager.endpointOf_eq_some.mp hep'
  cases Option.some.inj (hget.symm.trans hget')
  have hdistinct := (h.sound.pools.chargeable.available id inst hget).distinct
  have hcache := hdistinct.get?_endpointCache hat
  rw [hid, hdistinct.get?_endpointCache hat'] at hcache
  exact (Option.some.inj hcache).symm

/-- A grant is charged to its endpoint, which has what the others have left. -/
theorem Balanced.allocate (h : Balanced s) {reqId : String} {attemptSeq : ℕ} {fastPath : Bool}
    {r : AllocateOnlyRequest} (hproper : s.Proper (.allocate reqId attemptSeq fastPath r)) :
    Balanced (s.allocate reqId attemptSeq fastPath r) := by
  obtain ⟨hdemand, hfresh⟩ := hproper
  have hsound := h.sound.handleAllocateOnly fastPath r
  have hrecord := LedgerServer.sameRecord_handleAllocateOnly s.server fastPath r
  unfold LoadAccounts.allocate
  cases hanswer : s.server.handleAllocateOnly fastPath r with
  | mk answer server =>
    rw [hanswer] at hsound hrecord hfresh
    cases answer with
    | none =>
      have hmanager := h.sound.unanswered (congrArg Prod.fst hanswer)
      rw [hanswer] at hmanager
      exact h.setServer hsound hmanager hrecord
    | some a =>
      obtain ⟨-, -, hcommitted⟩ := h.sound.returned hdemand hanswer
      obtain ⟨place, hep, hendpoints⟩ := h.sound.answered hdemand hanswer
      replace hfresh := hfresh a rfl
      have hnew : grantOf reqId attemptSeq a ∉ s.issued := fun hmem =>
        hfresh _ hmem ⟨rfl, rfl, rfl, rfl⟩
      -- the grant is outstanding at once, and what is owed grows by it
      have howed := owed_of_insert s { s with
          server := server
          issued := grantOf reqId attemptSeq a :: s.issued
          granted := grantOf reqId attemptSeq a :: s.granted }
        (grantOf reqId attemptSeq a) hrecord.config (fun hmem => hnew (h.granted_issued _ (mem_outstanding.mp hmem).1)) <| by
          ext g
          have happlied := fun hmem => hnew (h.applied_issued _ hmem)
          simp only [Finset.mem_insert, mem_outstanding, List.mem_cons]
          grind
      constructor
      · exact hsound
      · exact hrecord.committed.trans h.committed
      · intro g hg
        rcases List.mem_cons.mp hg with rfl | hg
        · exact List.mem_cons_self
        · exact List.mem_cons_of_mem _ (h.granted_issued g hg)
      · exact fun g hg => List.mem_cons_of_mem _ (h.applied_issued g hg)
      -- the guard keeps the new grant apart from all that were issued
      · intro g hg g' hg' hsame
        rcases List.mem_cons.mp hg with rfl | hg <;> rcases List.mem_cons.mp hg' with rfl | hg'
        · rfl
        · obtain ⟨hreq, hseq, hinst, hendpoint⟩ := hsame
          exact absurd ⟨hreq.symm, hseq.symm, hinst.symm, hendpoint.symm⟩ (hfresh g' hg')
        · exact absurd hsame (hfresh g hg)
        · exact h.distinct g hg g' hg' hsame
      · intro g hg
        rcases List.mem_cons.mp hg with rfl | hg
        · exact hcommitted
        · exact h.charged g hg
      · intro g hg
        show ∃ place ep, server.manager.endpointOf g.instanceId place = some ep ∧ ep.id = g.endpointId
        rcases List.mem_cons.mp hg with rfl | hg
        · exact ⟨place, _, (hendpoints _ _).trans (if_pos ⟨rfl, rfl⟩), rfl⟩
        · obtain ⟨place', ep', hep', hid⟩ := h.located g hg
          by_cases hsame : g.instanceId = a.inst.id ∧ place' = place
          · refine ⟨place', _, (hendpoints _ _).trans (if_pos hsame), ?_⟩
            rw [hsame.1, hsame.2, hep] at hep'
            cases hep'
            exact hid
          · exact ⟨place', ep', ((hendpoints _ _).trans (if_neg hsame)).trans hep', hid⟩
      -- only the load of the endpoint that answered has changed
      · intro id place' ep hat
        replace hat : server.manager.endpointOf id place' = some ep := hat
        rw [hendpoints] at hat
        split at hat
        · next hsame =>
          obtain ⟨rfl, rfl⟩ := hsame
          cases hat
          obtain ⟨b, hb, hnonneg, hload⟩ := h.loads _ _ _ hep
          refine ⟨b, hb, hnonneg, ?_⟩
          have hsum : 0 ≤ (a.endpoint.workload.add (s.server.charge a.committedWorkload)).activeTokens :=
            add_nonneg (hload ▸ add_nonneg hnonneg (owed_nonneg h.granted_nonneg _ _))
              (s.server.charge_nonneg hcommitted)
          rw [howed, if_pos ⟨rfl, rfl⟩, Instance.clampFloor_of_nonneg hsum]
          show a.endpoint.workload.activeTokens + (s.server.charge a.committedWorkload).activeTokens =
            b.activeTokens + ((s.server.charge a.committedWorkload).activeTokens + _)
          rw [hload]
          ring
        · next hsame =>
          obtain ⟨b, hb, hnonneg, hload⟩ := h.loads _ _ _ hat
          refine ⟨b, hb, hnonneg, ?_⟩
          rw [howed, if_neg, zero_add]
          · exact hload
          · rintro ⟨rfl, hid⟩
            exact hsame ⟨rfl, h.place_unique hat hep hid.symm⟩

theorem release_eq {g : Grant} {success : Bool} {server : LedgerServer}
    (hupdate : s.server.handleUpdateWorkload (some g.operationId) g.instanceId g.endpointId
      ⟨-g.workload.activeTokens⟩ = (success, server)) :
    s.release g = { s with
      server := server
      applied := if success ∧ g ∉ s.applied then g :: s.applied else s.applied } := by
  rw [release, hupdate]

theorem Balanced.release_again (h : Balanced s) {g : Grant} (hg : g ∈ s.applied)
    (hkept : g ∈ s.applied.take LedgerServer.maxCommittedOperations) : Balanced (s.release g) := by
  have hcommitted := (h.mem_committed (h.applied_issued g hg)).mpr hkept
  obtain ⟨server, hupdate, hmanager, hrecord⟩ := h.sound.update_again g.instanceId g.endpointId hcommitted ⟨-g.workload.activeTokens⟩
  have hsound := h.sound.handleUpdateWorkload (some g.operationId) g.instanceId g.endpointId
    ⟨-g.workload.activeTokens⟩
  rw [hupdate] at hsound
  rw [release_eq hupdate, if_neg fun hnew => hnew.2 hg]
  exact h.setServer hsound hmanager hrecord

theorem Balanced.release_present (h : Balanced s) {g : Grant} (hgranted : g ∈ s.granted)
    (hnew : g ∉ s.applied) (hcommitted : g.operationId ∉ s.server.committedOperations) :
    Balanced (s.release g) := by
  obtain ⟨place, ep, hep, hid⟩ := h.located g hgranted
  obtain ⟨server, hupdate, hrecord, hendpoints⟩ := h.sound.update_present hcommitted hep
    ⟨-g.workload.activeTokens⟩
  rw [hid] at hupdate
  have hsound := h.sound.handleUpdateWorkload (some g.operationId) g.instanceId g.endpointId
    ⟨-g.workload.activeTokens⟩
  rw [hupdate] at hsound
  rw [release_eq hupdate, if_pos ⟨rfl, hnew⟩]
  have hconfig : server.config = s.server.config := by
    rw [hrecord.config, LedgerServer.remember_config]
  have howed := fun id endpointId => owed_of_insert { s with
      server := server
      applied := g :: s.applied } s g hconfig.symm
    (fun hmem => (mem_outstanding.mp hmem).2 List.mem_cons_self) (by
      ext g'
      simp only [Finset.mem_insert, mem_outstanding, List.mem_cons]
      grind) id endpointId
  constructor
  · exact hsound
  · exact hrecord.committed.trans (h.committed_remember hcommitted)
  · exact h.granted_issued
  · intro g' hg'
    rcases List.mem_cons.mp hg' with rfl | hg'
    · exact h.granted_issued _ hgranted
    · exact h.applied_issued g' hg'
  · exact h.distinct
  · exact h.charged
  · intro g' hg'
    show ∃ place ep, server.manager.endpointOf g'.instanceId place = some ep ∧ ep.id = g'.endpointId
    obtain ⟨place', ep', hep', hid'⟩ := h.located g' hg'
    by_cases hsame : g'.instanceId = g.instanceId ∧ place' = place
    · refine ⟨place', _, (hendpoints _ _).trans (if_pos hsame), ?_⟩
      rw [hsame.1, hsame.2, hep] at hep'
      cases hep'
      exact hid'
    · exact ⟨place', ep', ((hendpoints _ _).trans (if_neg hsame)).trans hep', hid'⟩
  · intro id place' ep' hat
    replace hat : server.manager.endpointOf id place' = some ep' := hat
    rw [hendpoints] at hat
    split at hat
    · next hsame =>
      obtain ⟨rfl, rfl⟩ := hsame
      cases hat
      obtain ⟨b, hb, hnonneg, hload⟩ := h.loads _ _ _ hep
      refine ⟨b, hb, hnonneg, ?_⟩
      have hothers := owed_nonneg (s := { s with server := server, applied := g :: s.applied })
        h.granted_nonneg g.instanceId ep.id
      have hcharge : (s.server.charge ⟨-g.workload.activeTokens⟩).activeTokens =
          -(server.charge g.workload).activeTokens := by
        rw [LedgerServer.charge_of_config hconfig, LedgerServer.charge_neg]
      rw [howed, if_pos ⟨rfl, hid.symm⟩] at hload
      have hleft : (ep.workload.add (s.server.charge ⟨-g.workload.activeTokens⟩)).activeTokens =
          b.activeTokens + owed { s with server := server, applied := g :: s.applied } g.instanceId
            ep.id := by
        show ep.workload.activeTokens + (s.server.charge ⟨-g.workload.activeTokens⟩).activeTokens = _
        rw [hload, hcharge]
        ring
      -- what the others have left is not negative, so nothing is cut off
      rw [Instance.clampFloor_of_nonneg (hleft ▸ add_nonneg hnonneg hothers)]
      exact hleft
    · next hsame =>
      obtain ⟨b, hb, hnonneg, hload⟩ := h.loads _ _ _ hat
      refine ⟨b, hb, hnonneg, ?_⟩
      rw [hload, howed, if_neg, zero_add]
      rintro ⟨rfl, hid'⟩
      exact hsame ⟨rfl, h.place_unique hat hep (hid'.symm.trans hid.symm)⟩

theorem Balanced.release_absent (h : Balanced s) {g : Grant} (hissued : g ∈ s.issued)
    (hnew : g ∉ s.applied) (habsent : s.server.manager.availablePool.get? g.instanceId = none)
    (hcommitted : g.operationId ∉ s.server.committedOperations) : Balanced (s.release g) := by
  obtain ⟨success, server, hupdate, hmanager, hrecord⟩ := h.sound.update_absent
    g.endpointId hcommitted habsent ⟨-g.workload.activeTokens⟩
  have hsound := h.sound.handleUpdateWorkload (some g.operationId) g.instanceId g.endpointId
    ⟨-g.workload.activeTokens⟩
  rw [hupdate] at hsound
  rw [release_eq hupdate]
  cases success with
  | false =>
    rw [if_neg fun hdone => Bool.false_ne_true hdone.1]
    exact h.setServer hsound hmanager hrecord
  | true =>
    rw [if_pos ⟨rfl, hnew⟩]
    have hconfig : server.config = s.server.config := by
      rw [hrecord.config, if_pos rfl, LedgerServer.remember_config]
    have hungranted : g ∉ s.granted := by
      intro hgranted
      obtain ⟨place, ep, hep, -⟩ := h.located g hgranted
      rw [InstanceManager.endpointOf, habsent] at hep
      cases hep
    constructor
    · exact hsound
    · exact hrecord.committed.trans (h.committed_remember hcommitted)
    · exact h.granted_issued
    · intro g' hg'
      rcases List.mem_cons.mp hg' with rfl | hg'
      · exact hissued
      · exact h.applied_issued g' hg'
    · exact h.distinct
    · exact h.charged
    · intro g' hg'
      show ∃ place ep, server.manager.endpointOf g'.instanceId place = some ep ∧ ep.id = g'.endpointId
      rw [hmanager]
      exact h.located g' hg'
    · intro id place ep hep
      replace hep : server.manager.endpointOf id place = some ep := hep
      rw [hmanager] at hep
      obtain ⟨b, hb, hnonneg, hload⟩ := h.loads id place ep hep
      refine ⟨b, hb, hnonneg, ?_⟩
      rw [hload, owed_of_outstanding s { s with server := server, applied := g :: s.applied } hconfig]
      intro g' _
      simp only [mem_outstanding, List.mem_cons]
      grind

theorem Balanced.exec (h : Balanced s) {step : AccountsStep} {s' : LoadAccounts} (hproper : s.Proper step)
    (he : s.exec step = some s') : Balanced s' := by
  cases step with
  | refresh σ eventType instances =>
    cases he
    exact h.refresh hproper
  | allocate reqId attemptSeq fastPath r =>
    cases he
    exact h.allocate hproper
  | release g =>
    cases he
    obtain ⟨hissued, hproper⟩ := hproper
    split at hproper
    · next happlied => exact h.release_again happlied hproper
    · next hnew =>
      have hcommitted : g.operationId ∉ s.server.committedOperations := fun hmem =>
        hnew (List.mem_of_mem_take ((h.mem_committed hissued).mp hmem))
      rcases hproper with hgranted | habsent
      · exact h.release_present hgranted hnew hcommitted
      · exact h.release_absent hissued hnew habsent hcommitted
  | circuits openCircuits =>
    cases he
    exact h.setServer ⟨h.sound.pools, h.sound.slots, h.sound.labels⟩ rfl ⟨rfl, rfl⟩

/-- **Every load is given back once**: the load of an endpoint is the one that its instance came with, and
what is outstanding, however often and in whatever order the messages that give it back arrive. -/
theorem loads_accounted {config : SchedulerConfig} {maxEntries : ℕ} {steps : List AccountsStep}
    (hrun : Run exec Proper (start config maxEntries) steps s) {id : InstanceId}
    {place : String × EndpointId} {ep : Endpoint}
    (hep : s.server.manager.endpointOf id place = some ep) :
    ∃ b, s.base id place = some b ∧ 0 ≤ b.activeTokens ∧
      ep.workload.activeTokens = b.activeTokens + s.owed id ep.id := by
  have hbalanced := hrun.invariant_state (balanced_start config maxEntries)
    fun h hproper he => h.exec hproper he
  exact hbalanced.loads id place ep hep

open InstanceManager (twoPods)

open LedgerServer (balancedLoads fiveTokens)

/-- Two requests, of which the first is given back twice. -/
def repeatedRelease : List AccountsStep :=
  [.refresh .insertion .add [twoPods], .allocate "r" 1 false fiveTokens,
    .allocate "q" 1 true fiveTokens, .release ⟨"r", 1, 1, 0, ⟨5⟩⟩, .release ⟨"r", 1, 1, 0, ⟨5⟩⟩]

theorem repeatedRelease_accounted : ∃ s ep, Run exec Proper (start balancedLoads 16) repeatedRelease s ∧
    s.server.manager.endpointOf 1 ("10.0.0.1", 0) = some ep ∧ ep.workload = ⟨5⟩ ∧ ∃ b,
      s.base 1 ("10.0.0.1", 0) = some b ∧ 0 ≤ b.activeTokens ∧
        ep.workload.activeTokens = b.activeTokens + s.owed 1 ep.id := by
  have hload : (runList exec Proper (start balancedLoads 16) repeatedRelease).bind (fun s =>
      (s.server.manager.endpointOf 1 ("10.0.0.1", 0)).map (·.workload)) = some ⟨5⟩ := by decide +kernel
  obtain ⟨s, hs, hload⟩ := Option.bind_eq_some_iff.mp hload
  obtain ⟨ep, hep, hload⟩ := Option.map_eq_some_iff.mp hload
  exact ⟨s, ep, runList_run hs, hep, hload, loads_accounted (runList_run hs) hep⟩

end LoadAccounts

end PyMotor.Coordinator
