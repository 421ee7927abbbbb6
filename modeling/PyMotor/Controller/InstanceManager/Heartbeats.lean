import PyMotor.Controller.InstanceManager.Changes

/-!
# What a heartbeat makes of an instance

A heartbeat updates the endpoints of one pod; what all endpoints then amount to is looked up in the table
of the manager. `heartbeats_followed_iff` says that in every run the heartbeats are accepted, and leave an
instance active if and only if it is ready, except for one case that the table does not have: endpoints
of an instance that is active or paused start again, and none is abnormal or paused.
-/

namespace PyMotor.Controller

open Coordinator (InstanceId EndpointId)

namespace Instance

/-- One status for every endpoint of the pod. -/
def WellFormedHeartbeat (i : Instance) (ip : String) (status : Dict EndpointId EndpointStatus) : Prop :=
  ∃ pod, i.endpoints.get? ip = some pod ∧ pod.size = status.size ∧
    ∀ ep ∈ pod.values, status.contains ep.id = true

/-- Endpoints of an instance that is active or paused start again, and none is abnormal or paused. -/
def StartsAgain (i : Instance) (ip : String) (status : Dict EndpointId EndpointStatus) : Prop :=
  (i.status = .active ∨ i.status = .paused) ∧
    (i.updateHeartbeat ip status).2.isAllEndpointsPaused = false ∧
    (i.updateHeartbeat ip status).2.isAllEndpointsReady = false ∧
    (i.updateHeartbeat ip status).2.isHaveOneEndpointAbnormal = false ∧
    (i.updateHeartbeat ip status).2.isAnyEndpointPaused = false

variable {i : Instance}

theorem updateHeartbeat_of_wellFormed {ip : String} {status : Dict EndpointId EndpointStatus}
    (h : i.WellFormedHeartbeat ip status) : (i.updateHeartbeat ip status).1 = .updated := by
  obtain ⟨pod, hpod, hsize, hall⟩ := h
  have hfind : (pod.values.find? fun ep => !status.contains ep.id) = none := by
    rw [List.find?_eq_none]
    intro ep hep
    rw [hall ep hep]
    decide
  unfold updateHeartbeat
  rw [hpod]
  simp only [hsize, ne_eq, not_true_eq_false, ↓reduceIte, hfind]

/-! ## Conditions -/

/-- An instance with an endpoint that is ready is not one whose endpoints are all paused. -/
theorem not_isAllEndpointsPaused_of_ready (h : i.isAllEndpointsReady = true) :
    i.isAllEndpointsPaused = false := by
  unfold isAllEndpointsReady at h
  rw [Bool.and_eq_true, List.all_eq_true, List.any_eq_true] at h
  obtain ⟨hready, ep, hep, hroutable⟩ := h
  have hnormal := hready ep hep
  rw [Bool.not_eq_true'] at hroutable
  rw [hroutable, if_neg Bool.false_ne_true, decide_eq_true_eq] at hnormal
  unfold isAllEndpointsPaused
  rw [Bool.and_eq_false_iff]
  right
  rw [List.all_eq_false]
  exact ⟨ep, hep, by simp [hnormal]⟩

theorem conditionEvent_eq_normal_iff :
    i.conditionEvent = .instanceNormal ↔ i.isAllEndpointsReady = true := by
  unfold conditionEvent
  constructor
  · intro h
    by_contra hready
    rw [if_neg hready] at h
    repeat' split at h
    all_goals cases h
  · intro hready
    rw [not_isAllEndpointsPaused_of_ready hready, if_neg Bool.false_ne_true, if_pos hready]

theorem conditionEvent_eq_init_iff : i.conditionEvent = .instanceInit ↔
    i.isAllEndpointsPaused = false ∧ i.isAllEndpointsReady = false ∧
      i.isHaveOneEndpointAbnormal = false ∧ i.isAnyEndpointPaused = false := by
  unfold conditionEvent
  cases i.isAllEndpointsPaused <;> cases i.isAllEndpointsReady <;>
    cases i.isHaveOneEndpointAbnormal <;> cases i.isAnyEndpointPaused <;> decide

theorem conditionEvent_ne_timeout (i : Instance) : i.conditionEvent ≠ .instanceHeartbeatTimeout := by
  unfold conditionEvent
  repeat' split
  all_goals decide

end Instance

/-! ## The table -/

section Table

variable {status toState : InsStatus} {event : InsConditionEvent}

theorem transitions_eq_none_iff (hlive : status ≠ .deleted)
    (htimeout : event ≠ .instanceHeartbeatTimeout) (hresumed : event ≠ .instanceResumed) :
    transitions status event = none ↔
      (status = .active ∨ status = .paused) ∧ event = .instanceInit := by
  cases status <;> cases event <;> simp_all [transitions]

theorem toState_eq_active_iff (hresumed : event ≠ .instanceResumed)
    (htable : transitions status event = some toState) :
    toState = .active ↔ event = .instanceNormal := by
  cases status <;> cases event <;> simp_all [transitions] <;> subst htable <;> decide

end Table

namespace Instance

variable {i : Instance} {toState fromState : InsStatus} {event : InsConditionEvent} {abnormal : Bool}

/-- A handler changes the status to its own, or not at all. -/
theorem states_cases (toState fromState : InsStatus) (event : InsConditionEvent) (abnormal : Bool)
    (i : Instance) : (i.states toState fromState event abnormal).1 = i ∨
      (i.states toState fromState event abnormal).1 = i.updateInstanceStatus toState := by
  unfold states handleInitial handleActive handleInactive handlePaused handleDeleted
  cases toState <;> simp only <;> (repeat' split) <;> simp

theorem states_eq (htimeout : event ≠ .instanceHeartbeatTimeout) (hresumed : event ≠ .instanceResumed)
    (htable : transitions i.status event = some toState) :
    (i.states toState i.status event abnormal).1.status = toState := by
  cases hstatus : i.status <;> cases event <;> simp only [transitions, hstatus] at htable <;>
    cases htable <;>
    simp_all [states, handleInitial, handleActive, handleInactive, handlePaused]

end Instance

namespace InstanceManager

variable {m : InstanceManager} {i : Instance} {id : InstanceId}

/-! ## Steps -/

/-- Every instance is kept under its id, only instances that are there are separated, and no separated
instance is active. -/
structure Held (m : InstanceManager) : Prop where
  keyed : ∀ k i, m.instances.get? k = some i → i.id = k
  known : ∀ k ∈ m.forcedSeparatedInstances, m.instances.contains k = true
  inactive : ∀ k i, m.instances.get? k = some i → k ∈ m.forcedSeparatedInstances → i.status ≠ .active

theorem held_new : Held new where
  keyed _ _ h := by cases h
  known _ h := by cases h
  inactive _ _ h := by cases h

theorem Held.insert (h : Held m) (hid : i.id = id)
    (hinactive : id ∈ m.forcedSeparatedInstances → i.status ≠ .active) :
    Held { m with instances := m.instances.insert id i } where
  keyed k j hj := by
    rw [Dict.get?_insert] at hj
    split at hj
    · next heq =>
      cases hj
      exact hid.trans heq
    · exact h.keyed k j hj
  known k hk := by
    rw [Dict.contains_insert]
    exact Or.inr (h.known k hk)
  inactive k j hj hk := by
    rw [Dict.get?_insert] at hj
    split at hj
    · next heq =>
      cases hj
      exact hinactive (heq ▸ hk)
    · exact h.inactive k j hj hk

theorem Held.delInstance (h : Held m) (id : InstanceId) : Held (m.delInstance id) where
  keyed k j hj := by
    simp only [InstanceManager.delInstance] at hj
    exact h.keyed k j (Dict.get?_of_erase hj)
  known k hk := by
    simp only [InstanceManager.delInstance, OrdSet.mem_erase] at hk
    obtain ⟨i, hi⟩ := Dict.contains_iff.mp (h.known k hk.1)
    refine Dict.contains_iff.mpr ⟨i, ?_⟩
    simp only [InstanceManager.delInstance]
    rw [Dict.get?_erase_ne _ (Ne.symm hk.2)]
    exact hi
  inactive k j hj hk := by
    simp only [InstanceManager.delInstance, Dict.get?_erase, OrdSet.mem_erase] at hj hk
    split at hj
    · cases hj
    · exact h.inactive k j hj hk.1

theorem Held.store (h : Held m) (hinactive : i.id ∈ m.forcedSeparatedInstances → i.status ≠ .active) :
    Held (m.store i) := by
  unfold InstanceManager.store
  split
  · exact h.delInstance i.id
  · exact h.insert rfl hinactive

theorem Held.handleStateTransition (h : Held m) (hi : m.instances.get? i.id = some i)
    (eventOverride : Option InsConditionEvent) (abnormal : Bool) :
    Held (m.handleStateTransition i eventOverride abnormal).2.1 := by
  unfold InstanceManager.handleStateTransition
  simp only
  split
  · exact h
  · next toState _ =>
    split
    · exact h
    · next hblocked =>
      refine h.store fun hforced => ?_
      rw [states_id] at hforced
      rcases Instance.states_cases toState i.status (eventOverride.getD i.conditionEvent) abnormal i with
        hsame | hchanged
      · rw [hsame]
        exact h.inactive _ _ hi hforced
      · rw [hchanged]
        exact fun hactive => hblocked ⟨hforced, hactive⟩

theorem Held.addInstance (h : Held m) (ins : Instance) : Held (m.addInstance ins).1 := by
  unfold InstanceManager.addInstance
  split
  · exact h
  · next hnew =>
    have hid : ins.refreshHeartbeats.id = ins.id :=
      Instance.toInstance_id ins.refreshHeartbeats_keeps.1
    refine h.insert rfl fun hforced => absurd (h.known _ hforced) ?_
    rwa [hid]

theorem Held.handleHeartbeat (h : Held m) (id : InstanceId) (ip : String)
    (status : Dict EndpointId EndpointStatus) : Held (m.handleHeartbeat id ip status).2.1 := by
  unfold InstanceManager.handleHeartbeat
  split
  · exact h
  · next i hi =>
    have hstatus := i.updateHeartbeat_status ip status
    have hid := (Instance.toInstance_id (i.toInstance_updateHeartbeat ip status)).trans (h.keyed id i hi)
    generalize i.updateHeartbeat ip status = up at hstatus hid
    obtain ⟨outcome, i₁⟩ := up
    have h₁ : Held { m with instances := m.instances.insert id i₁ } :=
      h.insert hid fun hforced => hstatus.symm ▸ h.inactive id i hi hforced
    cases outcome with
    | rejected => exact h₁
    | keyError _ => exact h₁
    | updated =>
      subst hid
      exact h₁.handleStateTransition (Dict.get?_insert_self _ _ _) none false

theorem Held.handleHeartbeatTimeout (h : Held m) (id : InstanceId) (abnormal : Bool) :
    Held (m.handleHeartbeatTimeout id abnormal).1 := by
  unfold InstanceManager.handleHeartbeatTimeout
  split
  · exact h
  · next i hi =>
    split
    · exact h
    · obtain rfl := h.keyed id i hi
      exact h.handleStateTransition hi _ _

theorem Held.force (h : Held m) (hi : m.instances.get? id = some i) (hactive : i.status ≠ .active) :
    Held { m with forcedSeparatedInstances := m.forcedSeparatedInstances.insert id } where
  keyed := h.keyed
  known k hk := by
    rcases OrdSet.mem_insert.mp hk with rfl | hk
    · exact Dict.contains_of_some hi
    · exact h.known k hk
  inactive k j hj hk := by
    rcases OrdSet.mem_insert.mp hk with rfl | hk
    · rw [hi] at hj
      cases hj
      exact hactive
    · exact h.inactive k j hj hk

theorem Held.separateInstance (h : Held m) (id : InstanceId) : Held (m.separateInstance id).1 := by
  unfold InstanceManager.separateInstance
  split
  · exact h
  · next i hi =>
    simp only
    split
    · have hid : (i.updateInstanceStatus .inactive).id = id := h.keyed id i hi
      have hinactive : (i.updateInstanceStatus .inactive).status ≠ .active := InsStatus.noConfusion
      exact (h.insert hid fun _ => hinactive).force (Dict.get?_insert_self _ _ _) hinactive
    · next hactive => exact h.force hi hactive

theorem Held.recoverInstance (h : Held m) (id : InstanceId) : Held (m.recoverInstance id) := by
  unfold InstanceManager.recoverInstance
  split
  · exact h
  · exact
      { keyed := h.keyed
        known := fun k hk => h.known k (OrdSet.mem_erase.mp hk).1
        inactive := fun k i hi hk => h.inactive k i hi (OrdSet.mem_erase.mp hk).1 }

/-! ## Heartbeats -/

/-- **A heartbeat is followed**: it is accepted, and then its instance, unless it is separated, is active
if and only if it is ready. -/
structure Followed (m : InstanceManager) (id : InstanceId) (ip : String)
    (status : Dict EndpointId EndpointStatus) : Prop where
  accepted : (m.handleHeartbeat id ip status).1 = .success
  active : ∀ i, (m.handleHeartbeat id ip status).2.1.instances.get? id = some i →
    id ∉ (m.handleHeartbeat id ip status).2.1.forcedSeparatedInstances →
      (i.status = .active ↔ i.isAllEndpointsReady = true)

theorem handleHeartbeat_eq (hi : m.instances.get? id = some i) {ip : String}
    {status : Dict EndpointId EndpointStatus} (hwf : i.WellFormedHeartbeat ip status) {i₁ : Instance}
    (hupdate : (i.updateHeartbeat ip status).2 = i₁) {m₁ : InstanceManager}
    (hstored : { m with instances := m.instances.insert id i₁ } = m₁) :
    m.handleHeartbeat id ip status =
      (if (m₁.handleStateTransition i₁ none false).1 then .success else .handlerError,
        (m₁.handleStateTransition i₁ none false).2) := by
  have hpair : i.updateHeartbeat ip status = (.updated, i₁) :=
    Prod.ext (Instance.updateHeartbeat_of_wellFormed hwf) hupdate
  unfold handleHeartbeat
  rw [hi]
  simp only [hpair, hstored]

theorem status_handleStateTransition (m : InstanceManager) {toState : InsStatus}
    (htable : transitions i.status i.conditionEvent = some toState) :
    (m.handleStateTransition i none false).1 = true ∧
      ∀ j, (m.handleStateTransition i none false).2.1.instances.get? i.id = some j →
        i.id ∉ (m.handleStateTransition i none false).2.1.forcedSeparatedInstances →
          (j.status = .active ↔ j.isAllEndpointsReady = true) := by
  have hactive : toState = .active ↔ i.isAllEndpointsReady = true :=
    (toState_eq_active_iff i.conditionEvent_ne_resumed htable).trans Instance.conditionEvent_eq_normal_iff
  have hstates : (i.states toState i.status i.conditionEvent false).1.status = toState :=
    Instance.states_eq i.conditionEvent_ne_timeout i.conditionEvent_ne_resumed htable
  have hready : (i.states toState i.status i.conditionEvent false).1.isAllEndpointsReady =
      i.isAllEndpointsReady := by
    rcases Instance.states_cases toState i.status i.conditionEvent false i with hsame | hchanged
    · rw [hsame]
    · rw [hchanged]
      rfl
  unfold handleStateTransition
  simp only [Option.getD_none, htable]
  split
  · next hblocked => exact ⟨rfl, fun j _ hforced => absurd hblocked.1 hforced⟩
  · refine ⟨rfl, fun j hj _ => ?_⟩
    rw [get?_store, states_id, if_pos rfl, Instance.kept] at hj
    split at hj
    · cases hj
    · cases hj
      rw [hstates, hready, hactive]

/-- **A heartbeat of a live instance** is followed if and only if its endpoints do not start again while
it is in service. -/
theorem Held.followed_iff (h : Held m) (hi : m.instances.get? id = some i) (hlive : i.status ≠ .deleted)
    {ip : String} {status : Dict EndpointId EndpointStatus} (hwf : i.WellFormedHeartbeat ip status) :
    m.Followed id ip status ↔ ¬i.StartsAgain ip status := by
  have hstatus := i.updateHeartbeat_status ip status
  obtain rfl := (Instance.toInstance_id (i.toInstance_updateHeartbeat ip status)).trans (h.keyed id i hi)
  unfold Instance.StartsAgain
  obtain ⟨i₁, hupdate⟩ : ∃ i₁, (i.updateHeartbeat ip status).2 = i₁ := ⟨_, rfl⟩
  obtain ⟨m₁, hstored⟩ : ∃ m₁, { m with instances := m.instances.insert i₁.id i₁ } = m₁ := ⟨_, rfl⟩
  rw [hupdate] at hi hstatus ⊢
  have heq := handleHeartbeat_eq hi hwf hupdate hstored
  have hnone := transitions_eq_none_iff (hstatus ▸ hlive) i₁.conditionEvent_ne_timeout
    i₁.conditionEvent_ne_resumed
  rw [← hstatus, ← Instance.conditionEvent_eq_init_iff, ← hnone]
  cases htable : transitions i₁.status i₁.conditionEvent with
  | none =>
    refine iff_of_false (fun hfollowed => ?_) (not_not_intro rfl)
    have haccepted := hfollowed.accepted
    rw [heq] at haccepted
    unfold InstanceManager.handleStateTransition at haccepted
    simp [htable] at haccepted
  | some toState =>
    refine iff_of_true ?_ (Option.some_ne_none toState)
    obtain ⟨hfound, hactive⟩ := status_handleStateTransition m₁ htable
    constructor
    · rw [heq, hfound]
      rfl
    · rw [heq]
      exact hactive

/-! ## Runs -/

end InstanceManager

inductive HealthOp where
  | add (ins : Instance)
  | heartbeat (id : InstanceId) (ip : String) (status : Dict EndpointId EndpointStatus)
  | timeout (id : InstanceId) (abnormal : Bool)
  | separate (id : InstanceId)
  | recover (id : InstanceId)

namespace InstanceManager

variable {m : InstanceManager}

def execHealth (m : InstanceManager) : HealthOp → InstanceManager
  | .add ins => (m.addInstance ins).1
  | .heartbeat id ip status => (m.handleHeartbeat id ip status).2.1
  | .timeout id abnormal => (m.handleHeartbeatTimeout id abnormal).1
  | .separate id => (m.separateInstance id).1
  | .recover id => m.recoverInstance id

def runHealth (ops : List HealthOp) : InstanceManager := ops.foldl execHealth new

theorem Held.execHealth (h : Held m) (op : HealthOp) : Held (m.execHealth op) := by
  cases op with
  | add ins => exact h.addInstance ins
  | heartbeat id ip status => exact h.handleHeartbeat id ip status
  | timeout id abnormal => exact h.handleHeartbeatTimeout id abnormal
  | separate id => exact h.separateInstance id
  | recover id => exact h.recoverInstance id

theorem held_runHealth (ops : List HealthOp) : Held (runHealth ops) := by
  unfold runHealth
  exact List.foldlRecOn ops _ held_new fun m h op _ => Held.execHealth h op

/-- A well-formed heartbeat of a live instance is followed. -/
def Follows (m : InstanceManager) : HealthOp → Prop
  | .heartbeat id ip status => ∀ i, m.instances.get? id = some i → i.status ≠ .deleted →
    i.WellFormedHeartbeat ip status → m.Followed id ip status
  | _ => True

/-- The endpoints do not start again while their instance is in service. -/
def Covers (m : InstanceManager) : HealthOp → Prop
  | .heartbeat id ip status => ∀ i, m.instances.get? id = some i → i.status ≠ .deleted →
    i.WellFormedHeartbeat ip status → ¬i.StartsAgain ip status
  | _ => True

theorem Held.follows_iff (h : Held m) (op : HealthOp) : m.Follows op ↔ m.Covers op := by
  cases op with
  | heartbeat id ip status =>
    exact forall_congr' fun i => forall_congr' fun hi => forall_congr' fun hlive =>
      forall_congr' fun hwf => h.followed_iff hi hlive hwf
  | add _ => exact Iff.rfl
  | timeout _ _ => exact Iff.rfl
  | separate _ => exact Iff.rfl
  | recover _ => exact Iff.rfl

/-- **In every run** of additions, heartbeats, silences, separations and recoveries, all well-formed
heartbeats of live instances are followed, and no separated instance is ever active, if and only if no
endpoints start again while their instance is in service. -/
theorem heartbeats_followed_iff (ops : List HealthOp) :
    ((∀ before op, before ++ [op] <+: ops → (runHealth before).Follows op) ∧
      ∀ before, before <+: ops → ∀ id i, (runHealth before).instances.get? id = some i →
        id ∈ (runHealth before).forcedSeparatedInstances → i.status ≠ .active) ↔
      ∀ before op, before ++ [op] <+: ops → (runHealth before).Covers op := by
  have hinactive : ∀ before, before <+: ops → ∀ id i, (runHealth before).instances.get? id = some i →
      id ∈ (runHealth before).forcedSeparatedInstances → i.status ≠ .active :=
    fun before _ id i => (held_runHealth before).inactive id i
  rw [and_iff_left hinactive]
  exact forall_congr' fun before => forall_congr' fun op => forall_congr' fun _ =>
    (held_runHealth before).follows_iff op

/-- An instance of one pod with one endpoint. -/
def onePodInstance (status : InsStatus) (endpointStatus : EndpointStatus) : Instance where
  jobName := "p"
  modelName := "model"
  engineType := none
  dispatchCapabilities := []
  id := 1
  role := "prefill"
  status := status
  parallelConfig := none
  enableMultiEndpoints := true
  nodeManagers := []
  endpoints := (∅ : Dict String _).insert "10.0.0.1" ((∅ : Dict EndpointId Endpoint).insert 0
    { id := 0, ip := "10.0.0.1", businessPort := "8000", mgmtPort := "8001", bootstrapPort := none,
      deviceInfos := [], workload := .zero, status := endpointStatus, headless := false })
  gatheredWorkload := .zero

def oneStatus (status : EndpointStatus) : Dict EndpointId EndpointStatus :=
  (∅ : Dict EndpointId EndpointStatus).insert 0 status

/-- The instance becomes ready, and then its engine starts again. -/
def restartRun : List HealthOp :=
  [.add (onePodInstance .initial .initial), .heartbeat 1 "10.0.0.1" (oneStatus .normal),
    .heartbeat 1 "10.0.0.1" (oneStatus .initial)]

/-- The second heartbeat is refused, and the instance stays active without being ready. -/
theorem restartRun_refused :
    ((runHealth (restartRun.take 2)).handleHeartbeat 1 "10.0.0.1" (oneStatus .initial)).1 =
        .handlerError ∧
      ((runHealth restartRun).instances.get? 1).map (fun i => (i.status, i.isAllEndpointsReady)) =
        some (.active, false) ∧
      ¬∀ before op, before ++ [op] <+: restartRun → (runHealth before).Follows op := by
  have hrefused : ((runHealth (restartRun.take 2)).handleHeartbeat 1 "10.0.0.1"
      (oneStatus .initial)).1 = .handlerError := by decide
  refine ⟨hrefused, by decide, fun hfollows => ?_⟩
  have hready : (runHealth (restartRun.take 2)).instances.get? 1 =
      some (onePodInstance .active .normal) := rfl
  have haccepted := (hfollows (restartRun.take 2) _ List.prefix_rfl _ hready (by decide)
    ⟨_, rfl, rfl, by decide⟩).accepted
  rw [hrefused] at haccepted
  cases haccepted

end InstanceManager

end PyMotor.Controller
