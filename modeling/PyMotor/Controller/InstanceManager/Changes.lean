import PyMotor.Controller.InstanceManager

/-!
# What a step does to an instance

Heartbeats, missing heartbeats, separations and recoveries change one instance at a time, and what the
observers are told depends on that instance alone. `Change` lists all that can happen to it; in each
case what is sent of the instance stays the same.
-/

namespace PyMotor.Controller

open Coordinator (InstanceId EndpointId)

/-- What becomes of the instance `i`, and what the observers are told. -/
inductive Change (i : Instance) : Option Instance → List Notification → Prop where
  | quiet {i'} : i'.toInstance = i.toInstance → (i'.status = .active ↔ i.status = .active) →
      Change i (some i') []
  | ready {i'} : i'.toInstance = i.toInstance → i.status ≠ .active → i'.status = .active →
      Change i (some i') [⟨i', .instanceReady⟩]
  | separated {i'} : i'.toInstance = i.toInstance → i'.status = .inactive →
      Change i (some i') [⟨i', .instanceSeparated⟩]
  | paused {i'} : i'.toInstance = i.toInstance → i'.status = .paused →
      Change i (some i') [⟨i', .instancePaused⟩]
  | removed {i'} : i'.toInstance = i.toInstance → i.status ≠ .active →
      Change i none [⟨i', .instanceRemoved⟩]

theorem Change.refl (i : Instance) : Change i (some i) [] := .quiet rfl Iff.rfl

namespace Instance

variable {i : Instance}

theorem toInstance_id {i i' : Instance} (h : i'.toInstance = i.toInstance) : i'.id = i.id :=
  congrArg Coordinator.Instance.id h

theorem toInstance_jobName {i i' : Instance} (h : i'.toInstance = i.toInstance) :
    i'.jobName = i.jobName :=
  congrArg Coordinator.Instance.jobName h

theorem refreshHeartbeats_keeps (i : Instance) :
    i.refreshHeartbeats.toInstance = i.toInstance ∧ i.refreshHeartbeats.status = i.status := by
  unfold refreshHeartbeats
  apply List.foldlRecOn i.endpoints.entries _
    (motive := fun j : Instance => j.toInstance = i.toInstance ∧ j.status = i.status)
  · exact ⟨rfl, rfl⟩
  · intro j hj pod _
    rw [toInstance_updateHeartbeat, updateHeartbeat_status]
    exact hj

/-- The instance that `store` leaves behind. -/
def kept (i : Instance) : Option Instance :=
  if i.status = .deleted then none else some i

/-- **Every entry of the table** is a change of this kind. That a pause has ended is never found out by
a heartbeat, so the resumption is left out. -/
theorem change_states {event : InsConditionEvent} {toState : InsStatus} (abnormal : Bool)
    (htable : transitions i.status event = some toState) (hevent : event ≠ .instanceResumed) :
    Change i (i.states toState i.status event abnormal).1.kept
      ((i.states toState i.status event abnormal).2.map
        fun e => ⟨(i.states toState i.status event abnormal).1, e⟩) := by
  cases hstatus : i.status <;> cases event <;> simp only [transitions, hstatus] at htable <;>
    cases htable
  -- initial
  · simpa [states, handleInitial, kept, hstatus] using
      Change.refl i
  · exact Change.removed rfl (by rw [hstatus]; decide)
  · exact Change.ready rfl (by rw [hstatus]; decide) rfl
  · exact Change.separated rfl rfl
  · exact Change.paused rfl rfl
  -- inactive
  · refine Change.quiet rfl ?_
    simp [states, handleInitial, hstatus]
  · exact Change.removed rfl (by rw [hstatus]; decide)
  · exact Change.ready rfl (by rw [hstatus]; decide) rfl
  · simpa [states, handleInactive, kept, hstatus] using
      Change.refl i
  · exact Change.paused rfl rfl
  -- active
  · cases abnormal with
    | true => exact Change.separated rfl rfl
    | false =>
      simpa [states, handleInactive, kept, hstatus] using
        Change.refl i
  · simpa [states, handleActive, kept, hstatus] using
      Change.refl i
  · exact Change.separated rfl rfl
  · exact Change.paused rfl rfl
  -- paused
  · exact Change.removed rfl (by rw [hstatus]; decide)
  · exact Change.ready rfl (by rw [hstatus]; decide) rfl
  · exact Change.separated rfl rfl
  · simpa [states, handlePaused, kept, hstatus] using
      Change.refl i
  · exact absurd rfl hevent

theorem conditionEvent_ne_resumed (i : Instance) : i.conditionEvent ≠ .instanceResumed := by
  unfold conditionEvent
  split
  · decide
  · split
    · decide
    · split
      · decide
      · split <;> decide

end Instance

theorem Change.before {i i₁ : Instance} {r : Option Instance} {ns : List Notification}
    (hsent : i₁.toInstance = i.toInstance) (hstatus : i₁.status = i.status) (h : Change i₁ r ns) :
    Change i r ns := by
  cases h with
  | quiet hsent' hactive => exact .quiet (hsent'.trans hsent) (hstatus ▸ hactive)
  | ready hsent' hold hnew => exact .ready (hsent'.trans hsent) (hstatus ▸ hold) hnew
  | separated hsent' hnew => exact .separated (hsent'.trans hsent) hnew
  | paused hsent' hnew => exact .paused (hsent'.trans hsent) hnew
  | removed hsent' hold => exact .removed (hsent'.trans hsent) (hstatus ▸ hold)

theorem Change.sent {i i' : Instance} {ns : List Notification} (h : Change i (some i') ns) :
    i'.toInstance = i.toInstance := by
  cases h <;> assumption

namespace InstanceManager

variable {m m' : InstanceManager} {i : Instance} {id : InstanceId}

/-- At most the instance `id` changes. -/
inductive Changes (m : InstanceManager) (id : InstanceId) (m' : InstanceManager)
    (ns : List Notification) : Prop where
  | same : m'.instances = m.instances → ns = [] → Changes m id m' ns
  | one {i : Instance} {r : Option Instance} : m.instances.get? id = some i → Change i r ns →
      (∀ k, m'.instances.get? k = if k = id then r else m.instances.get? k) → Changes m id m' ns

theorem Changes.keyed {ns : List Notification} (h : m.Changes id m' ns)
    (hkeyed : ∀ k i, m.instances.get? k = some i → i.id = k) :
    ∀ k i, m'.instances.get? k = some i → i.id = k := by
  cases h with
  | same hsame _ =>
    rw [hsame]
    exact hkeyed
  | one hi hchange hk =>
    intro k i' hi'
    rw [hk] at hi'
    split at hi'
    · next heq =>
      subst heq
      subst hi'
      rw [← hkeyed _ _ hi]
      exact Instance.toInstance_id hchange.sent
    · exact hkeyed k i' hi'

theorem get?_store (m : InstanceManager) (i : Instance) (k : InstanceId) :
    (m.store i).instances.get? k = if k = i.id then i.kept else m.instances.get? k := by
  unfold store Instance.kept
  split
  · simp [delInstance, Dict.get?_erase, eq_comm]
  · simp [Dict.get?_insert, eq_comm]

theorem states_id (toState fromState : InsStatus) (event : InsConditionEvent) (abnormal : Bool)
    (i : Instance) : (i.states toState fromState event abnormal).1.id = i.id := by
  unfold Instance.states Instance.handleInitial Instance.handleActive Instance.handleInactive
    Instance.handlePaused Instance.handleDeleted
  cases toState <;> simp only <;> (repeat' split) <;> rfl

/-- A step of the state machine that starts from the instance as the manager has it. -/
theorem changes_handleStateTransition (eventOverride : Option InsConditionEvent) (abnormal : Bool)
    (hi : m.instances.get? id = some i) (hid : i.id = id)
    (hevent : eventOverride.getD i.conditionEvent ≠ .instanceResumed) :
    m.Changes id (m.handleStateTransition i eventOverride abnormal).2.1
      (m.handleStateTransition i eventOverride abnormal).2.2 := by
  unfold handleStateTransition
  simp only
  split
  · exact .same rfl rfl
  · next toState htable =>
    split
    · exact .same rfl rfl
    · refine .one hi (Instance.change_states abnormal htable hevent) fun k => ?_
      rw [get?_store, states_id, hid]

theorem Changes.after_update {i₁ : Instance} {ns : List Notification}
    (hi : m.instances.get? id = some i) (hsent : i₁.toInstance = i.toInstance)
    (hstatus : i₁.status = i.status)
    (h : Changes { m with instances := m.instances.insert id i₁ } id m' ns) : m.Changes id m' ns := by
  have hget : ∀ k, (m.instances.insert id i₁).get? k =
      if k = id then some i₁ else m.instances.get? k := by
    intro k
    rw [Dict.get?_insert]
    simp only [eq_comm]
  cases h with
  | same hsame hns =>
    rw [hns]
    refine .one hi (.quiet hsent (by rw [hstatus])) fun k => ?_
    rw [hsame, hget]
  | one hi₁ hchange hk =>
    rw [hget, if_pos rfl] at hi₁
    cases hi₁
    refine .one hi (hchange.before hsent hstatus) fun k => ?_
    rw [hk, hget]
    by_cases hid : k = id
    · rw [if_pos hid, if_pos hid]
    · rw [if_neg hid, if_neg hid, if_neg hid]

theorem changes_handleHeartbeat (id : InstanceId) (ip : String)
    (status : Dict EndpointId EndpointStatus)
    (hkeyed : ∀ i, m.instances.get? id = some i → i.id = id) :
    m.Changes id (m.handleHeartbeat id ip status).2.1 (m.handleHeartbeat id ip status).2.2 := by
  unfold handleHeartbeat
  split
  · exact .same rfl rfl
  · next i hi =>
    have hsent := i.toInstance_updateHeartbeat ip status
    have hstatus := i.updateHeartbeat_status ip status
    have hid := (Instance.toInstance_id hsent).trans (hkeyed i hi)
    generalize i.updateHeartbeat ip status = up at hsent hstatus hid
    obtain ⟨outcome, i₁⟩ := up
    apply Changes.after_update hi hsent hstatus
    cases outcome with
    | rejected => exact .same rfl rfl
    | keyError _ => exact .same rfl rfl
    | updated =>
      exact changes_handleStateTransition none false (Dict.get?_insert_self _ _ _) hid
        i₁.conditionEvent_ne_resumed

theorem changes_handleHeartbeatTimeout (id : InstanceId) (abnormal : Bool)
    (hkeyed : ∀ i, m.instances.get? id = some i → i.id = id) :
    m.Changes id (m.handleHeartbeatTimeout id abnormal).1 (m.handleHeartbeatTimeout id abnormal).2 := by
  unfold handleHeartbeatTimeout
  split
  · exact .same rfl rfl
  · next i hi =>
    split
    · exact .same rfl rfl
    · apply changes_handleStateTransition _ _ hi (hkeyed i hi)
      exact InsConditionEvent.noConfusion

theorem changes_separateInstance (m : InstanceManager) (id : InstanceId) :
    m.Changes id (m.separateInstance id).1 (m.separateInstance id).2 := by
  unfold separateInstance
  split
  · exact .same rfl rfl
  · next i hi =>
    simp only
    split
    · refine .one hi (.separated rfl rfl) fun k => ?_
      simp only [Dict.get?_insert, eq_comm]
    · exact .same rfl rfl

theorem recoverInstance_instances (m : InstanceManager) (id : InstanceId) :
    (m.recoverInstance id).instances = m.instances := by
  unfold recoverInstance
  split <;> rfl

theorem keyed_addInstance {m : InstanceManager} (ins : Instance)
    (hkeyed : ∀ k i, m.instances.get? k = some i → i.id = k) :
    ∀ k i, (m.addInstance ins).1.instances.get? k = some i → i.id = k := by
  unfold addInstance
  split
  · exact hkeyed
  · intro k i hi
    simp only [Dict.get?_insert] at hi
    split at hi
    · next heq =>
      cases hi
      exact heq
    · exact hkeyed k i hi

end InstanceManager

end PyMotor.Controller
