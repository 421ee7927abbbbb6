import PyMotor.Controller.EventPusher
import PyMotor.Controller.InstanceAssembler.Ids

/-!
# The table of the event pusher

The pusher files the instances it has announced by job name, the manager its instances by id, and a job
may have several: an old instance lingers until its heartbeats have been missing for long enough, while
the pods of the job form a new one. As long as one instance of a job is active, the table and the
manager agree only if no other instance of the job is heard of: a late heartbeat that takes it to
another status is announced under the name of the job, whichever instance it came from.

`LeavesJobAlone` says just that of a heartbeat. Under it the table holds the active instances, one for
each job (`table_is_active`). Without it two instances of a job become active, and the table loses the
newer one (`lateHeartbeat_replaces_entry`).
-/

namespace PyMotor.Controller

open Coordinator (InstanceId EndpointId)

/-! ## Controller and pusher -/

/-- The assembler and the manager, and the pusher that observes the manager. -/
structure ObservedController where
  state : ControllerState
  pusher : EventPusher

inductive ObservedOp where
  | register (msg : RegisterMsg)
  | reregister (msg : ReregisterMsg)
  | assemble (jobName : String) (alive : Coordinator.NodeManagerInfo → Bool) (timedOut : Bool)
  | sendStartCommand (jobName : String) (success : Bool) (maxRetryTimes : ℕ)
  | heartbeat (id : InstanceId) (ip : String) (status : Dict EndpointId EndpointStatus)
  /-- `abnormal` is the answer of the node managers. -/
  | heartbeatTimeout (id : InstanceId) (abnormal : Bool)
  | separateInstance (id : InstanceId)
  | recoverInstance (id : InstanceId)

namespace ObservedController

def new (given : List (String × InstanceId)) : ObservedController := ⟨.new given, .new⟩

/-- The assembler's part. That an instance is new to the manager is of no interest to the pusher. -/
def assembling (s : ObservedController) (op : ControllerOp) : Option ObservedController :=
  (s.state.exec op).map fun state => { s with state := state }

/-- The pusher learns what the manager notifies. -/
def notify (s : ObservedController) (step : InstanceManager × List Notification) :
    ObservedController :=
  ⟨{ s.state with manager := step.1 }, step.2.foldl EventPusher.update s.pusher⟩

def exec (s : ObservedController) : ObservedOp → Option ObservedController
  | .register msg => s.assembling (.register msg)
  | .reregister msg => s.assembling (.reregister msg)
  | .assemble jobName alive timedOut => s.assembling (.assemble jobName alive timedOut)
  | .sendStartCommand jobName success maxRetryTimes =>
    s.assembling (.sendStartCommand jobName success maxRetryTimes)
  | .heartbeat id ip status => some (s.notify (s.state.manager.handleHeartbeat id ip status).2)
  | .heartbeatTimeout id abnormal =>
    some (s.notify (s.state.manager.handleHeartbeatTimeout id abnormal))
  | .separateInstance id => some (s.notify (s.state.manager.separateInstance id))
  | .recoverInstance id => some (s.notify (s.state.manager.recoverInstance id, []))

end ObservedController

/-! ## The condition -/

namespace InstanceManager

/-- No instance but `id` is active under the name of the job. -/
def NoOtherActive (m : InstanceManager) (jobName : String) (id : InstanceId) : Prop :=
  ∀ p ∈ m.instances.entries, p.2.jobName = jobName → p.2.status = .active → p.1 = id

instance (m : InstanceManager) (jobName : String) (id : InstanceId) :
    Decidable (m.NoOtherActive jobName id) :=
  inferInstanceAs (Decidable (∀ p ∈ _, _ → _ → _))

/-- The heartbeat takes the instance nowhere but to its initial status, or no other instance of its job
is active. -/
def LeavesJobAlone (m : InstanceManager) (id : InstanceId) (ip : String)
    (status : Dict EndpointId EndpointStatus) : Prop :=
  ∀ i ∈ m.instances.get? id, (i.updateHeartbeat ip status).1 = .updated →
    ∀ toState ∈ transitions i.status (i.updateHeartbeat ip status).2.conditionEvent,
      toState = i.status ∨ toState = .initial ∨
        (id ∈ m.forcedSeparatedInstances ∧ toState = .active) ∨ m.NoOtherActive i.jobName id

instance (m : InstanceManager) (id : InstanceId) (ip : String)
    (status : Dict EndpointId EndpointStatus) : Decidable (m.LeavesJobAlone id ip status) :=
  inferInstanceAs (Decidable (∀ i ∈ _, _ → ∀ toState ∈ _, _))

end InstanceManager

/-! ## Active instances -/

namespace InstanceManager

/-- The job of an active instance. -/
def activeJob (m : InstanceManager) (id : InstanceId) : Option String :=
  (m.instances.get? id).bind fun i => if i.status = .active then some i.jobName else none

variable {m m' : InstanceManager} {id : InstanceId} {jobName : String} {i : Instance}

theorem activeJob_eq_some :
    m.activeJob id = some jobName ↔
      ∃ i, m.instances.get? id = some i ∧ i.jobName = jobName ∧ i.status = .active := by
  simp only [activeJob, Option.bind_eq_some_iff, Option.ite_none_right_eq_some, Option.some.injEq,
    and_comm]

theorem noOtherActive_iff :
    m.NoOtherActive jobName id ↔ ∀ k, m.activeJob k = some jobName → k = id := by
  unfold NoOtherActive
  constructor
  · intro h k hk
    obtain ⟨i, hi, hname, hactive⟩ := activeJob_eq_some.mp hk
    exact h (k, i) (Dict.mem_entries_iff.mpr hi) hname hactive
  · rintro h ⟨k, i⟩ hi hname hactive
    exact h k (activeJob_eq_some.mpr ⟨i, Dict.mem_entries_iff.mp hi, hname, hactive⟩)

/-- The table files every active instance under its job, and nothing else. -/
def Tracks (m : InstanceManager) (p : EventPusher) : Prop :=
  ∀ jobName id, (p.instances.get? jobName).map (·.id) = some id ↔ m.activeJob id = some jobName

theorem Tracks.noOtherActive {p : EventPusher} (h : m.Tracks p) (hactive : m.activeJob id = some jobName) :
    m.NoOtherActive jobName id := by
  rw [noOtherActive_iff]
  intro k hk
  have hid := (h jobName id).mpr hactive
  rw [(h jobName k).mpr hk] at hid
  exact Option.some.inj hid

end InstanceManager

/-! ## One step of the manager -/

namespace InstanceManager

variable {m m' : InstanceManager} {p : EventPusher} {id : InstanceId} {i : Instance}
  {ns : List Notification}

theorem activeJob_of (hi : m.instances.get? id = some i) :
    m.activeJob id = if i.status = .active then some i.jobName else none := by
  rw [activeJob, hi, Option.bind_some]

theorem activeJob_changed {r : Option Instance}
    (hk : ∀ k, m'.instances.get? k = if k = id then r else m.instances.get? k) (k : InstanceId) :
    m'.activeJob k =
      if k = id then r.bind (fun i => if i.status = .active then some i.jobName else none)
      else m.activeJob k := by
  rw [activeJob, hk]
  split <;> rfl

theorem Tracks.enter (h : m.Tracks p) (ins : Coordinator.Instance) (hid : ins.id = id)
    (hinactive : m.activeJob id = none) (halone : m.NoOtherActive ins.jobName id)
    (hactive : ∀ k, m'.activeJob k = if k = id then some ins.jobName else m.activeJob k) :
    m'.Tracks (p.enter ins) := by
  intro jobName k
  rw [noOtherActive_iff] at halone
  rw [hactive]
  simp only [EventPusher.enter, Dict.get?_insert]
  by_cases hname : ins.jobName = jobName
  · subst hname
    simp only [↓reduceIte, Option.map_some, Option.some.injEq, hid]
    constructor
    · rintro rfl
      simp
    · intro hk
      split at hk
      · next heq => exact heq.symm
      · exact (halone k hk).symm
  · rw [if_neg hname, h jobName k]
    by_cases hk : k = id
    · subst hk
      simp [hinactive, hname]
    · rw [if_neg hk]

theorem Tracks.leave (h : m.Tracks p) (ins : Coordinator.Instance)
    (halone : m.NoOtherActive ins.jobName id) {p' : EventPusher}
    (hp' : ∀ jobName, p'.instances.get? jobName =
      if ins.jobName = jobName then none else p.instances.get? jobName)
    (hother : ∀ jobName, m.activeJob id = some jobName → ins.jobName = jobName)
    (hactive : ∀ k, m'.activeJob k = if k = id then none else m.activeJob k) : m'.Tracks p' := by
  intro jobName k
  rw [noOtherActive_iff] at halone
  rw [hactive, hp']
  by_cases hname : ins.jobName = jobName
  · subst hname
    simp only [↓reduceIte, Option.map_none, reduceCtorEq, false_iff]
    intro hk
    split at hk
    · cases hk
    · next hne => exact hne (halone k hk)
  · rw [if_neg hname, h jobName k]
    by_cases hk : k = id
    · subst hk
      simp only [↓reduceIte, reduceCtorEq, iff_false]
      exact fun hjob => hname (hother jobName hjob)
    · rw [if_neg hk]

theorem withdraw_instances (p : EventPusher) (eventType : Coordinator.EventType)
    (ins : Coordinator.Instance) (jobName : String) :
    (p.withdraw eventType ins).instances.get? jobName =
      if ins.jobName = jobName then none else p.instances.get? jobName := by
  unfold EventPusher.withdraw
  split
  · exact Dict.get?_erase p.instances ins.jobName jobName
  · next habsent =>
    split
    · next hname =>
      subst hname
      simpa [Dict.contains] using habsent
    · rfl

/-- **A change and its announcement.** The table goes along with the manager, unless the instance was
not active and changed beside an active one. -/
theorem Tracks.changes (h : m.Tracks p) (hkeyed : ∀ i, m.instances.get? id = some i → i.id = id)
    (hc : m.Changes id m' ns)
    (hsafe : ∀ i, m.instances.get? id = some i → i.status ≠ .active →
      (∀ n ∈ ns, n.event = .instanceRemoved) ∨ m.NoOtherActive i.jobName id) :
    m'.Tracks (ns.foldl EventPusher.update p) := by
  cases hc with
  | same hsame hns =>
    subst hns
    intro jobName k
    rw [activeJob, hsame]
    exact h jobName k
  | @one i r hi hchange hk =>
    have hactive := activeJob_changed hk
    have hnow := activeJob_of hi
    have halone : ∀ n ∈ ns, n.event ≠ .instanceRemoved → m.NoOtherActive i.jobName id := by
      intro n hn hne
      by_cases hstatus : i.status = .active
      · exact h.noOtherActive (by rw [hnow, if_pos hstatus])
      · rcases hsafe i hi hstatus with hremoved | halone
        · exact absurd (hremoved n hn) hne
        · exact halone
    have hname_of : ∀ {i' : Instance}, i'.toInstance = i.toInstance →
        ∀ jobName, m.activeJob id = some jobName → i'.toInstance.jobName = jobName := by
      intro i' hsent jobName hjob
      rw [hnow] at hjob
      split at hjob
      · rw [hsent]
        exact Option.some.inj hjob
      · cases hjob
    -- a separation and a pause withdraw the job alike
    have hwithdraw : ∀ (eventType : Coordinator.EventType) {i' : Instance},
        i'.toInstance = i.toInstance → m.NoOtherActive i.jobName id →
        (∀ k, m'.activeJob k = if k = id then none else m.activeJob k) →
        m'.Tracks (p.withdraw eventType i'.toInstance) := by
      intro eventType i' hsent halone hleft
      refine h.leave i'.toInstance ?_ (withdraw_instances p eventType _) (hname_of hsent) hleft
      show m.NoOtherActive i'.jobName id
      rw [Instance.toInstance_jobName hsent]
      exact halone
    cases hchange with
    | quiet hsent hstatus =>
      intro jobName k
      rw [hactive, List.foldl_nil, h jobName k]
      split
      · next heq =>
        subst heq
        rw [hnow, Option.bind_some, Instance.toInstance_jobName hsent]
        simp only [hstatus]
      · rfl
    | @ready i' hsent hold hnew =>
      have hname := Instance.toInstance_jobName hsent
      refine h.enter i'.toInstance
        ((Instance.toInstance_id hsent).trans (hkeyed i hi)) (by rw [hnow, if_neg hold]) ?_ ?_
      · show m.NoOtherActive i'.jobName id
        rw [hname]
        exact halone _ (List.mem_singleton_self _) (by simp)
      · intro k
        rw [hactive, Option.bind_some, if_pos hnew]
        rfl
    | @separated i' hsent hnew =>
      exact hwithdraw .del hsent (halone _ (List.mem_singleton_self _) (by simp)) fun k => by
        rw [hactive, Option.bind_some, hnew]
        simp
    | @paused i' hsent hnew =>
      exact hwithdraw .pause hsent (halone _ (List.mem_singleton_self _) (by simp)) fun k => by
        rw [hactive, Option.bind_some, hnew]
        simp
    | @removed i' hsent hold =>
      intro jobName k
      rw [hactive]
      show (p.instances.get? jobName).map (·.id) = some k ↔ _
      rw [h jobName k]
      split
      · next heq =>
        subst heq
        rw [hnow, if_neg hold, Option.bind_none]
      · rfl

end InstanceManager

/-! ## What is announced -/

namespace Instance

theorem states_quiet {i : Instance} {toState : InsStatus} (event : InsConditionEvent)
    (abnormal : Bool) (h : toState = i.status ∨ toState = .initial) :
    (i.states toState i.status event abnormal).2 = [] := by
  rcases h with rfl | rfl
  · cases hstatus : i.status <;> simp [states, handleInitial, handleActive, handleInactive,
      handlePaused, handleDeleted]
  · simp only [states, handleInitial]
    split <;> rfl

theorem states_timeout {i : Instance} {toState : InsStatus} (abnormal : Bool)
    (hstatus : i.status ≠ .active)
    (htable : transitions i.status .instanceHeartbeatTimeout = some toState) :
    ∀ event ∈ (i.states toState i.status .instanceHeartbeatTimeout abnormal).2,
      event = .instanceRemoved := by
  cases hfrom : i.status <;> simp only [transitions, hfrom] at htable <;> cases htable
  · simp [states, handleDeleted]
  · simp [states, handleDeleted]
  · exact absurd hfrom hstatus
  · simp [states, handleDeleted]

end Instance

namespace InstanceManager

variable {m : InstanceManager} {p : EventPusher} {id : InstanceId}

theorem Tracks.heartbeat (h : m.Tracks p) (ip : String) (status : Dict EndpointId EndpointStatus)
    (hkeyed : ∀ i, m.instances.get? id = some i → i.id = id)
    (hguard : m.LeavesJobAlone id ip status) :
    (m.handleHeartbeat id ip status).2.1.Tracks
      ((m.handleHeartbeat id ip status).2.2.foldl EventPusher.update p) := by
  refine h.changes hkeyed (changes_handleHeartbeat id ip status hkeyed) ?_
  intro i hi _
  by_cases halone : m.NoOtherActive i.jobName id
  · exact Or.inr halone
  · refine Or.inl ?_
    -- then the heartbeat leads nowhere
    have hgoes : (i.updateHeartbeat ip status).1 = .updated →
        ∀ toState ∈ transitions i.status (i.updateHeartbeat ip status).2.conditionEvent,
          toState = i.status ∨ toState = .initial ∨
            (id ∈ m.forcedSeparatedInstances ∧ toState = .active) := by
      intro hupdated toState htable
      have := hguard i hi hupdated toState htable
      tauto
    have hid := (Instance.toInstance_id (i.toInstance_updateHeartbeat ip status)).trans (hkeyed i hi)
    have hstatus := i.updateHeartbeat_status ip status
    suffices hnone : (m.handleHeartbeat id ip status).2.2 = [] by
      rw [hnone]
      intro n hn
      cases hn
    unfold handleHeartbeat
    simp only [hi]
    generalize i.updateHeartbeat ip status = up at hgoes hid hstatus
    obtain ⟨outcome, i₁⟩ := up
    cases outcome with
    | rejected => rfl
    | keyError _ => rfl
    | updated =>
      simp only [handleStateTransition, Option.getD_none]
      split
      · rfl
      · next toState htable =>
        split
        · rfl
        · next hforced =>
          rw [hid] at hforced
          simp only at hstatus
          have hwhere := hgoes rfl toState (by rw [← hstatus]; exact htable)
          simp only [List.map_eq_nil_iff]
          refine Instance.states_quiet _ _ ?_
          rw [hstatus]
          tauto

theorem Tracks.heartbeatTimeout (h : m.Tracks p) (abnormal : Bool)
    (hkeyed : ∀ i, m.instances.get? id = some i → i.id = id) :
    (m.handleHeartbeatTimeout id abnormal).1.Tracks
      ((m.handleHeartbeatTimeout id abnormal).2.foldl EventPusher.update p) := by
  refine h.changes hkeyed (changes_handleHeartbeatTimeout id abnormal hkeyed) ?_
  intro i hi hstatus
  refine Or.inl ?_
  unfold handleHeartbeatTimeout
  simp only [hi]
  split
  · simp
  · simp only [handleStateTransition, Option.getD_some]
    split
    · simp
    · next toState htable =>
      split
      · simp
      · intro n hn
        obtain ⟨event, hevent, rfl⟩ := List.mem_map.mp hn
        exact Instance.states_timeout abnormal hstatus htable event hevent

theorem Tracks.separate (h : m.Tracks p)
    (hkeyed : ∀ i, m.instances.get? id = some i → i.id = id) :
    (m.separateInstance id).1.Tracks ((m.separateInstance id).2.foldl EventPusher.update p) := by
  refine h.changes hkeyed (changes_separateInstance m id) ?_
  intro i hi hstatus
  refine Or.inl ?_
  unfold separateInstance
  simp only [hi, if_neg hstatus]
  intro n hn
  cases hn

end InstanceManager

/-! ## The assembler -/

namespace Instance

/-- Neither the name nor the status of an instance changes. -/
def KeepsActive (f : Instance → Instance) : Prop :=
  ∀ i, (f i).id = i.id ∧ (f i).jobName = i.jobName ∧ (f i).status = i.status

theorem keepsActive_addNodeMgr (nm : Coordinator.NodeManagerInfo) : KeepsActive (·.addNodeMgr nm) := by
  intro i
  simp only [addNodeMgr]
  split <;> exact ⟨rfl, rfl, rfl⟩

theorem keepsActive_addEndpoints (podIp : String) (endpoints : Dict EndpointId Endpoint) :
    KeepsActive (·.addEndpoints podIp endpoints) :=
  fun _ => ⟨rfl, rfl, rfl⟩

theorem status_filterAbnormalEndpoints (alive : Coordinator.NodeManagerInfo → Bool) (i : Instance) :
    (i.filterAbnormalEndpoints alive).status = i.status := by
  apply List.foldlRecOn i.nodeManagers _ (motive := fun j : Instance => j.status = i.status)
  · rfl
  · intro j hj nm _
    split
    · exact hj
    · exact hj

theorem status_markHeadless (nnodes : Int) (i : Instance) :
    (i.markHeadless nnodes).status = i.status := by
  apply List.foldlRecOn i.nodeManagers.zipIdx _ (motive := fun j : Instance => j.status = i.status)
  · rfl
  · intro j hj nm _
    simp only
    split
    · exact hj
    · split
      · exact hj
      · exact hj

end Instance

namespace ControllerState

variable {s s' s₁ : ControllerState} {jobName : String} {md : AssembleInstanceMetadata}

/-- What the table needs of assembler and manager: the manager files its instances by id, and the
entries of the assembler are in their initial status. -/
structure Filing (s : ControllerState) : Prop where
  keyed : ∀ k i, s.manager.instances.get? k = some i → i.id = k
  initial : ∀ job md, s.assembler.instances.get? job = some md → md.ins.status = .initial

/-- A step that makes no instance active or inactive. -/
structure Prepares (s s' : ControllerState) : Prop where
  active : ∀ id, s'.manager.activeJob id = s.manager.activeJob id
  filing : s.Filing → s'.Filing

theorem Prepares.refl (s : ControllerState) : Prepares s s := ⟨fun _ => rfl, fun h => h⟩

theorem Prepares.trans (h₁ : Prepares s s₁) (h₂ : Prepares s₁ s') : Prepares s s' :=
  ⟨fun id => (h₂.active id).trans (h₁.active id), fun h => h₂.filing (h₁.filing h)⟩

theorem Prepares.setMetadata (s : ControllerState) (jobName : String)
    (hmd : s.Filing → md.ins.status = .initial) : Prepares s (s.setMetadata jobName md) where
  active _ := rfl
  filing h := by
    refine ⟨h.keyed, fun job md' hmd' => ?_⟩
    simp only [ControllerState.setMetadata, Dict.get?_insert] at hmd'
    split at hmd'
    · cases hmd'
      exact hmd h
    · exact h.initial job md' hmd'

theorem Prepares.dropMetadata (s : ControllerState) (jobName : String) :
    Prepares s (s.dropMetadata jobName) where
  active _ := rfl
  filing h := by
    refine ⟨h.keyed, fun job md' hmd' => ?_⟩
    simp only [ControllerState.dropMetadata] at hmd'
    exact h.initial job md' (Dict.get?_of_erase hmd')

/-- An entry and, if it has been handed over, the instance of the manager. -/
theorem Prepares.amend {f : Instance → Instance} (hf : Instance.KeepsActive f) (s : ControllerState)
    (jobName : String) : Prepares s (s.amend jobName f) := by
  unfold ControllerState.amend
  split
  · exact refl s
  · next md hmd =>
    have hset : Prepares s (s.setMetadata jobName { md with ins := f md.ins }) := by
      refine setMetadata s jobName fun h => ?_
      rw [(hf md.ins).2.2]
      exact h.initial jobName md hmd
    simp only
    split
    · split
      · exact hset
      · next i hi =>
        refine hset.trans ⟨fun id => ?_, fun h => ⟨fun k j hj => ?_, h.initial⟩⟩
        · simp only [InstanceManager.activeJob, Dict.get?_insert]
          split
          · next heq =>
            rw [← heq, hi, Option.bind_some, Option.bind_some, (hf i).2.2, (hf i).2.1]
          · rfl
        · simp only [Dict.get?_insert] at hj
          split at hj
          · next heq =>
            cases hj
            rw [(hf i).1, ← heq]
            exact h.keyed _ i hi
          · exact h.keyed k j hj
    · exact hset

theorem Prepares.openEntry (s : ControllerState) (msg : RegisterMsg) :
    Prepares s (s.openEntry msg) where
  active _ := rfl
  filing h := by
    refine ⟨h.keyed, fun job md' hmd' => ?_⟩
    simp only [ControllerState.openEntry, Dict.get?_insert] at hmd'
    split at hmd'
    · cases hmd'
      rfl
    · exact h.initial job md' hmd'

theorem Prepares.recordMaster {msg : RegisterMsg}
    (hmd : s.assembler.instances.get? msg.jobName = some md) :
    Prepares s (s.recordMaster msg md) := by
  unfold ControllerState.recordMaster
  split
  · split
    · exact refl s
    · exact setMetadata s msg.jobName fun h => h.initial msg.jobName md hmd
  · exact refl s

theorem Prepares.joinRegister {msg : RegisterMsg}
    (hmd : s.assembler.instances.get? msg.jobName = some md) :
    Prepares s (s.joinRegister msg md).2 := by
  unfold ControllerState.joinRegister
  split
  · exact refl s
  · have hjoin := (recordMaster hmd).trans
      (amend (Instance.keepsActive_addNodeMgr msg.nodeMgr) _ msg.jobName)
    simp only
    split
    · exact hjoin
    · exact hjoin.trans (amend (Instance.keepsActive_addEndpoints _ _) _ _)

theorem Prepares.register (s : ControllerState) (msg : RegisterMsg) :
    Prepares s (s.register msg).2 := by
  unfold ControllerState.register
  split
  · exact refl s
  · exact (openEntry s msg).trans (joinRegister (Dict.get?_insert_self _ _ _))
  · split
    · exact refl s
    · next md hmd =>
      split
      · exact refl s
      · exact joinRegister hmd

theorem Prepares.joinReregister (s : ControllerState) (msg : ReregisterMsg) :
    Prepares s (s.joinReregister msg) := by
  unfold ControllerState.joinReregister
  refine trans ?_ ((amend (Instance.keepsActive_addNodeMgr _) _ _).trans
    (amend (Instance.keepsActive_addEndpoints _ _) _ _))
  exact ⟨fun _ => rfl, fun h => ⟨h.keyed, h.initial⟩⟩

theorem Prepares.reregister (s : ControllerState) (msg : ReregisterMsg) :
    Prepares s (s.reregister msg).2 := by
  unfold ControllerState.reregister
  split
  · exact refl s
  · exact (setMetadata s msg.jobName fun _ => rfl).trans (joinReregister _ msg)
  · split
    · exact refl s
    · split
      · exact joinReregister s msg
      · exact refl s

theorem Prepares.handOver (s : ControllerState) (jobName : String)
    (hmd : md.ins.status = .initial) : Prepares s (s.handOver jobName md) := by
  have hadd : Prepares s { s with manager := (s.manager.addInstance md.ins).1 } := by
    refine ⟨fun id => ?_, fun h => ⟨InstanceManager.keyed_addInstance md.ins h.keyed, h.initial⟩⟩
    unfold InstanceManager.addInstance
    split
    · rfl
    · next habsent =>
      obtain ⟨hsent, hstatus⟩ := md.ins.refreshHeartbeats_keeps
      simp only [InstanceManager.activeJob, Dict.get?_insert]
      split
      · next heq =>
        have hnone : s.manager.instances.get? id = none := by
          rw [← heq, Instance.toInstance_id hsent]
          simpa [Dict.contains] using habsent
        rw [hnone, Option.bind_some, hstatus, hmd]
        rfl
      · rfl
  unfold ControllerState.handOver
  simp only
  split
  · exact hadd.trans (dropMetadata _ jobName)
  · exact hadd.trans (setMetadata _ jobName fun _ => hmd)

theorem Prepares.assembleInstance (hmd : md.ins.status = .initial)
    (alive : Coordinator.NodeManagerInfo → Bool) (timedOut : Bool) :
    Prepares s (s.assembleInstance jobName md alive timedOut) := by
  have hfiltered : (md.filtered alive).ins.status = .initial := by
    rw [← hmd]
    exact Instance.status_filterAbnormalEndpoints alive md.ins
  unfold ControllerState.assembleInstance
  simp only
  split
  · refine handOver s jobName ?_
    simp only [AssembleInstanceMetadata.completed]
    split
    · rw [Instance.status_markHeadless, hfiltered]
    · exact hfiltered
  · split
    · exact dropMetadata s jobName
    · exact setMetadata s jobName fun _ => hfiltered

theorem Prepares.sendStartCommand (hmd : md.ins.status = .initial) (success : Bool)
    (maxRetryTimes : ℕ) : Prepares s (s.sendStartCommand jobName md success maxRetryTimes) := by
  unfold ControllerState.sendStartCommand
  split
  · exact dropMetadata s jobName
  · split
    · exact setMetadata s jobName fun _ => hmd
    · exact dropMetadata s jobName

end ControllerState

/-! ## Runs -/

namespace ObservedController

variable {s s' : ObservedController} {given : List (String × InstanceId)} {ops : List ObservedOp}

/-- No heartbeat disturbs a job of which another instance is active. -/
def LeavesJobsAlone (s : ObservedController) : ObservedOp → Prop
  | .heartbeat id ip status => s.state.manager.LeavesJobAlone id ip status
  | _ => True

instance (s : ObservedController) : (op : ObservedOp) → Decidable (s.LeavesJobsAlone op)
  | .heartbeat id ip status =>
    inferInstanceAs (Decidable (s.state.manager.LeavesJobAlone id ip status))
  | .register _ => isTrue trivial
  | .reregister _ => isTrue trivial
  | .assemble _ _ _ => isTrue trivial
  | .sendStartCommand _ _ _ => isTrue trivial
  | .heartbeatTimeout _ _ => isTrue trivial
  | .separateInstance _ => isTrue trivial
  | .recoverInstance _ => isTrue trivial

/-- The table agrees with the manager, whose instances are filed properly. -/
def Inv (s : ObservedController) : Prop := s.state.Filing ∧ s.state.manager.Tracks s.pusher

theorem Inv.assembling {op : ControllerOp} (h : s.Inv) (he : s.assembling op = some s')
    (hprepares : ∀ state, s.state.exec op = some state →
      s.state.Filing → ControllerState.Prepares s.state state) : s'.Inv := by
  obtain ⟨state, hstate, rfl⟩ := Option.map_eq_some_iff.mp he
  have hp := hprepares state hstate h.1
  refine ⟨hp.filing h.1, fun jobName id => ?_⟩
  rw [hp.active id]
  exact h.2 jobName id

theorem Inv.notify {step : InstanceManager × List Notification} (h : s.Inv) (id : InstanceId)
    (hchanges : s.state.manager.Changes id step.1 step.2)
    (htracks : step.1.Tracks (step.2.foldl EventPusher.update s.pusher)) : (s.notify step).Inv :=
  ⟨⟨hchanges.keyed h.1.keyed, h.1.initial⟩, htracks⟩

/-- **Every step** keeps the table in agreement with the manager. -/
theorem exec_inv {op : ObservedOp} (h : s.Inv) (hguard : s.LeavesJobsAlone op)
    (he : s.exec op = some s') : s'.Inv := by
  have hkeyed := h.1.keyed
  cases op with
  | register msg =>
    refine h.assembling he fun state hstate _ => ?_
    cases hstate
    exact ControllerState.Prepares.register s.state msg
  | reregister msg =>
    refine h.assembling he fun state hstate _ => ?_
    simp only [ControllerState.exec, Option.ite_none_right_eq_some, Option.some.injEq] at hstate
    obtain ⟨-, rfl⟩ := hstate
    exact ControllerState.Prepares.reregister s.state msg
  | assemble jobName alive timedOut =>
    refine h.assembling he fun state hstate hfiling => ?_
    simp only [ControllerState.exec] at hstate
    split at hstate
    · cases hstate
    · next md hmd =>
      split at hstate
      · cases hstate
      · cases hstate
        exact ControllerState.Prepares.assembleInstance (hfiling.initial jobName md hmd) alive
          timedOut
  | sendStartCommand jobName success maxRetryTimes =>
    refine h.assembling he fun state hstate hfiling => ?_
    simp only [ControllerState.exec] at hstate
    split at hstate
    · cases hstate
    · next md hmd =>
      split at hstate
      · cases hstate
        exact ControllerState.Prepares.sendStartCommand (hfiling.initial jobName md hmd) success
          maxRetryTimes
      · cases hstate
  | heartbeat id ip status =>
    cases he
    exact h.notify id (InstanceManager.changes_handleHeartbeat id ip status (hkeyed id))
      (h.2.heartbeat ip status (hkeyed id) hguard)
  | heartbeatTimeout id abnormal =>
    cases he
    exact h.notify id (InstanceManager.changes_handleHeartbeatTimeout id abnormal (hkeyed id))
      (h.2.heartbeatTimeout abnormal (hkeyed id))
  | separateInstance id =>
    cases he
    exact h.notify id (InstanceManager.changes_separateInstance s.state.manager id)
      (h.2.separate (hkeyed id))
  | recoverInstance id =>
    cases he
    have hsame := s.state.manager.recoverInstance_instances id
    exact h.notify id (.same hsame rfl)
      (h.2.changes (hkeyed id) (.same hsame rfl) fun _ _ _ => Or.inl (by simp))

theorem inv_new (given : List (String × InstanceId)) : (new given).Inv := by
  refine ⟨⟨fun k i h => ?_, fun job md h => ?_⟩, fun jobName id => ?_⟩
  · cases h
  · cases h
  · simp [new, ControllerState.new, EventPusher.new, InstanceManager.new,
      InstanceManager.activeJob]

/-- **The pusher's table is the set of active instances**, in every run in which no heartbeat disturbs a
job of which another instance is active: the table files an instance under a job exactly if it is an
active instance of the job, what a `SET` lists are the active instances, and no job has two. -/
theorem table_is_active (hrun : Run exec LeavesJobsAlone (new given) ops s) :
    (∀ jobName id, (∃ ins, s.pusher.instances.get? jobName = some ins ∧ ins.id = id) ↔
      ∃ i, s.state.manager.instances.get? id = some i ∧ i.jobName = jobName ∧ i.status = .active) ∧
    (∀ id, id ∈ s.pusher.instances.values.map (·.id) ↔
      ∃ i, s.state.manager.instances.get? id = some i ∧ i.status = .active) ∧
    ∀ id id' i i', s.state.manager.instances.get? id = some i →
      s.state.manager.instances.get? id' = some i' → i.status = .active → i'.status = .active →
      i.jobName = i'.jobName → id = id' := by
  have hinv : s.Inv := hrun.invariant_state (inv_new given) exec_inv
  have htable : ∀ jobName id,
      (∃ ins, s.pusher.instances.get? jobName = some ins ∧ ins.id = id) ↔
        ∃ i, s.state.manager.instances.get? id = some i ∧ i.jobName = jobName ∧
          i.status = .active := by
    intro jobName id
    rw [← InstanceManager.activeJob_eq_some, ← hinv.2 jobName id, Option.map_eq_some_iff]
  refine ⟨htable, fun id => ?_, ?_⟩
  · simp only [List.mem_map, Dict.mem_values_iff]
    constructor
    · rintro ⟨ins, ⟨jobName, hins⟩, hid⟩
      obtain ⟨i, hi, -, hactive⟩ := (htable jobName id).mp ⟨ins, hins, hid⟩
      exact ⟨i, hi, hactive⟩
    · rintro ⟨i, hi, hactive⟩
      obtain ⟨ins, hins, hid⟩ := (htable i.jobName id).mpr ⟨i, hi, rfl, hactive⟩
      exact ⟨ins, ⟨i.jobName, hins⟩, hid⟩
  · intro id id' i i' hi hi' hactive hactive' hname
    have hjob : s.state.manager.activeJob id = some i'.jobName := by
      rw [InstanceManager.activeJob_eq_some]
      exact ⟨i, hi, hname, hactive⟩
    have halone := InstanceManager.noOtherActive_iff.mp (hinv.2.noOtherActive hjob)
    exact (halone id' (InstanceManager.activeJob_eq_some.mpr ⟨i', hi', rfl, hactive'⟩)).symm

/-! ## Two generations of a job -/

/-- A job forms an instance, which serves until its heartbeats are missing; then other pods of the
job form another one. -/
def twoGenerations : List ObservedOp :=
  [.register (ControllerState.onePod "job-a" "10.0.0.1"), .assemble "job-a" (fun _ => true) false,
    .sendStartCommand "job-a" true 3,
    .heartbeat 1 "10.0.0.1" ((∅ : Dict EndpointId EndpointStatus).insert 0 .normal),
    .heartbeatTimeout 1 true, .register (ControllerState.onePod "job-a" "10.0.0.2"),
    .assemble "job-a" (fun _ => true) false, .sendStartCommand "job-a" true 3,
    .heartbeat 2 "10.0.0.2" ((∅ : Dict EndpointId EndpointStatus).insert 0 .normal)]

theorem twoGenerations_table : ∃ s, Run exec LeavesJobsAlone (new []) twoGenerations s ∧
    (∃ ins, s.pusher.instances.get? "job-a" = some ins ∧ ins.id = 2) ∧
    ∃ i, s.state.manager.instances.get? 2 = some i ∧ i.jobName = "job-a" ∧ i.status = .active := by
  have h : (runList exec LeavesJobsAlone (new []) twoGenerations).map (fun s =>
      (s.pusher.instances.get? "job-a").map (·.id)) = some (some 2) := by decide
  obtain ⟨s, hs, hid⟩ := Option.map_eq_some_iff.mp h
  obtain ⟨ins, hins, hid⟩ := Option.map_eq_some_iff.mp hid
  exact ⟨s, runList_run hs, ⟨ins, hins, hid⟩,
    ((table_is_active (runList_run hs)).1 "job-a" 2).mp ⟨ins, hins, hid⟩⟩

/-- **A late heartbeat** of the old instance: both are active now, and the table has the old one. Once
that one fails, the table has neither. -/
theorem lateHeartbeat_replaces_entry :
    (∃ s, Run exec Free (new []) (twoGenerations ++
        [.heartbeat 1 "10.0.0.1" ((∅ : Dict EndpointId EndpointStatus).insert 0 .normal)]) s ∧
      s.state.manager.activeJob 1 = some "job-a" ∧ s.state.manager.activeJob 2 = some "job-a" ∧
      s.pusher.instances.values.map (·.id) = [1]) ∧
    ∃ s, Run exec Free (new []) (twoGenerations ++
        [.heartbeat 1 "10.0.0.1" ((∅ : Dict EndpointId EndpointStatus).insert 0 .normal),
          .heartbeat 1 "10.0.0.1" ((∅ : Dict EndpointId EndpointStatus).insert 0 .abnormal)]) s ∧
      s.state.manager.activeJob 2 = some "job-a" ∧ s.pusher.instances.values.map (·.id) = [] := by
  constructor
  · have h : (runList exec Free (new []) (twoGenerations ++
        [.heartbeat 1 "10.0.0.1" ((∅ : Dict EndpointId EndpointStatus).insert 0 .normal)])).map
        (fun s => (s.state.manager.activeJob 1, s.state.manager.activeJob 2,
          s.pusher.instances.values.map (·.id))) = some (some "job-a", some "job-a", [1]) := by decide
    obtain ⟨s, hs, hf⟩ := Option.map_eq_some_iff.mp h
    simp only [Prod.mk.injEq] at hf
    exact ⟨s, runList_run hs, hf.1, hf.2.1, hf.2.2⟩
  · have h : (runList exec Free (new []) (twoGenerations ++
        [.heartbeat 1 "10.0.0.1" ((∅ : Dict EndpointId EndpointStatus).insert 0 .normal),
          .heartbeat 1 "10.0.0.1" ((∅ : Dict EndpointId EndpointStatus).insert 0 .abnormal)])).map
        (fun s => (s.state.manager.activeJob 2, s.pusher.instances.values.map (·.id))) =
          some (some "job-a", []) := by decide
    obtain ⟨s, hs, hf⟩ := Option.map_eq_some_iff.mp h
    simp only [Prod.mk.injEq] at hf
    exact ⟨s, runList_run hs, hf.1, hf.2⟩

end ObservedController

end PyMotor.Controller
