import PyMotor.Controller.InstanceAssembler
import PyMotor.Controller.InstanceManager.Changes

/-!
# Instance ids are unique

Every instance that the assembler or the manager holds has an id that was given to its job. If no id
is given to two jobs, then no two jobs share one, and the manager accepts what the assembler hands over.

Pods that register again bring an id that their job already has. The counter is another matter: it is
raised when they do, and it is persisted, but after a restart without data it starts from one again,
and a new job that is faster than the old ones gets one of their ids. `KeepsIds` asks of the counter that
it is not where an earlier run has been (what this run has given lies below it, `Inv.counted`); and that
neither a late registration nor the data found at a restart offer to the manager an instance that it has.
-/

namespace PyMotor.Controller

open Coordinator (InstanceId EndpointId NodeManagerInfo)

/-! ## What does not touch ids and names -/

/-- The id and the name of an instance stay. -/
def KeepsNames (f : Instance → Instance) : Prop :=
  ∀ i, (f i).id = i.id ∧ (f i).jobName = i.jobName

namespace Instance

theorem keepsNames_addNodeMgr (nm : NodeManagerInfo) : KeepsNames (·.addNodeMgr nm) := by
  intro i
  simp only [addNodeMgr]
  split <;> exact ⟨rfl, rfl⟩

theorem keepsNames_addEndpoints (podIp : String) (endpoints : Dict EndpointId Endpoint) :
    KeepsNames (·.addEndpoints podIp endpoints) :=
  fun _ => ⟨rfl, rfl⟩

theorem keepsNames_filterAbnormalEndpoints (alive : NodeManagerInfo → Bool) :
    KeepsNames (·.filterAbnormalEndpoints alive) := by
  intro i
  apply List.foldlRecOn i.nodeManagers _
    (motive := fun j : Instance => j.id = i.id ∧ j.jobName = i.jobName)
  · exact ⟨rfl, rfl⟩
  · intro j hj nm _
    split
    · exact hj
    · exact hj

theorem keepsNames_markHeadless (nnodes : Int) : KeepsNames (·.markHeadless nnodes) := by
  intro i
  apply List.foldlRecOn i.nodeManagers.zipIdx _
    (motive := fun j : Instance => j.id = i.id ∧ j.jobName = i.jobName)
  · exact ⟨rfl, rfl⟩
  · intro j hj nm _
    simp only
    split
    · exact hj
    · split
      · exact hj
      · exact hj

theorem keepsNames_refreshHeartbeats : KeepsNames refreshHeartbeats := fun i =>
  ⟨toInstance_id i.refreshHeartbeats_keeps.1, toInstance_jobName i.refreshHeartbeats_keeps.1⟩

end Instance

namespace AssembleInstanceMetadata

theorem filtered_names (md : AssembleInstanceMetadata) (alive : NodeManagerInfo → Bool) :
    (md.filtered alive).ins.id = md.ins.id ∧ (md.filtered alive).ins.jobName = md.ins.jobName :=
  Instance.keepsNames_filterAbnormalEndpoints alive md.ins

theorem completed_names (md : AssembleInstanceMetadata) :
    md.completed.ins.id = md.ins.id ∧ md.completed.ins.jobName = md.ins.jobName := by
  simp only [completed]
  split
  · exact Instance.keepsNames_markHeadless md.nnodes md.ins
  · exact ⟨rfl, rfl⟩

end AssembleInstanceMetadata

namespace InstanceManager

/-- The job whose instance has the id. -/
def jobOf (m : InstanceManager) (id : InstanceId) : Option String :=
  (m.instances.get? id).map (·.jobName)

theorem jobOf_eq_none {m : InstanceManager} {id : InstanceId} :
    m.jobOf id = none ↔ m.instances.contains id = false := by
  simp [jobOf, Dict.contains]

theorem transitions_ne_deleted {status : InsStatus} (i : Instance) :
    transitions status i.conditionEvent ≠ some .deleted := by
  have hevent : ∀ event, transitions status event = some .deleted →
      event = .instanceHeartbeatTimeout := by
    intro event
    cases status <;> cases event <;> simp [transitions]
  intro h
  have htimeout := hevent _ h
  unfold Instance.conditionEvent at htimeout
  split at htimeout
  · cases htimeout
  · split at htimeout
    · cases htimeout
    · split at htimeout
      · cases htimeout
      · split at htimeout <;> cases htimeout

theorem states_ne_deleted {i : Instance} {event : InsConditionEvent} {toState : InsStatus}
    (abnormal : Bool) (htable : transitions i.status event = some toState)
    (hdeleted : toState ≠ .deleted) :
    (i.states toState i.status event abnormal).1.status ≠ .deleted := by
  cases hstatus : i.status <;> cases event <;> simp only [transitions, hstatus] at htable <;>
    cases htable <;> first
      | exact absurd rfl hdeleted
      | cases abnormal <;> simp [Instance.states, Instance.handleInitial, Instance.handleActive,
          Instance.handleInactive, Instance.handlePaused, hstatus]

theorem jobOf_handleHeartbeat {m : InstanceManager} (id : InstanceId) (ip : String)
    (status : Dict EndpointId EndpointStatus)
    (hkeyed : ∀ i, m.instances.get? id = some i → i.id = id) (k : InstanceId) :
    (m.handleHeartbeat id ip status).2.1.jobOf k = m.jobOf k := by
  have hstays : m.instances.get? id ≠ none →
      (m.handleHeartbeat id ip status).2.1.instances.get? id ≠ none := by
    intro hsome
    unfold handleHeartbeat
    split
    · exact hsome
    · next i hi =>
      have hid := (Instance.toInstance_id (i.toInstance_updateHeartbeat ip status)).trans (hkeyed i hi)
      generalize i.updateHeartbeat ip status = up at hid
      obtain ⟨outcome, i₁⟩ := up
      have hin : (m.instances.insert id i₁).get? id ≠ none := by simp
      cases outcome with
      | rejected => exact hin
      | keyError _ => exact hin
      | updated =>
        simp only [handleStateTransition]
        split
        · exact hin
        · next toState htable =>
          split
          · exact hin
          · have hkept := states_ne_deleted false htable
              fun h => transitions_ne_deleted i₁ (h ▸ htable)
            rw [get?_store, states_id, if_pos hid.symm, Instance.kept]
            simp only [Option.getD_none] at hkept ⊢
            rw [if_neg hkept]
            simp
  unfold jobOf
  cases changes_handleHeartbeat id ip status hkeyed with
  | same hsame _ => rw [hsame]
  | @one i r hi hchange hk =>
    rw [hk]
    split
    · next heq =>
      subst heq
      rw [hi]
      cases r with
      | none =>
        have hgone := hk k
        rw [if_pos rfl] at hgone
        exact absurd hgone (hstays (by rw [hi]; simp))
      | some i' => simp [Instance.toInstance_jobName hchange.sent]
    · rfl

theorem jobOf_addInstance {m : InstanceManager} {ins : Instance}
    (hfree : m.instances.contains ins.id = false) (k : InstanceId) :
    (m.addInstance ins).1.jobOf k = if k = ins.id then some ins.jobName else m.jobOf k := by
  obtain ⟨hid, hname⟩ := Instance.keepsNames_refreshHeartbeats ins
  unfold addInstance jobOf
  rw [if_neg (by simp [hfree])]
  simp only [Dict.get?_insert, hid, eq_comm]
  split
  · simp [hname]
  · rfl

end InstanceManager

/-! ## The view -/

/-- What ids depend on of an entry. -/
structure EntryView where
  jobName : String
  id : InstanceId
  assembled : Bool

def AssembleInstanceMetadata.view (md : AssembleInstanceMetadata) : EntryView :=
  ⟨md.ins.jobName, md.ins.id, decide (md.registerStatus = .assembled)⟩

theorem AssembleInstanceMetadata.filtered_view (md : AssembleInstanceMetadata)
    (alive : NodeManagerInfo → Bool) : (md.filtered alive).view = md.view := by
  obtain ⟨hid, hname⟩ := md.filtered_names alive
  simp only [view, hid, hname]
  rfl

def InstanceAssembler.entryOf (a : InstanceAssembler) (jobName : String) : Option EntryView :=
  (a.instances.get? jobName).map AssembleInstanceMetadata.view

namespace ControllerState

variable {s s' s₁ : ControllerState} {jobName : String} {md : AssembleInstanceMetadata}

theorem entryOf_setMetadata (s : ControllerState) (jobName : String) (md : AssembleInstanceMetadata)
    (k : String) :
    (s.setMetadata jobName md).assembler.entryOf k =
      if k = jobName then some md.view else s.assembler.entryOf k := by
  simp only [InstanceAssembler.entryOf, setMetadata, Dict.get?_insert, eq_comm]
  split <;> rfl

theorem entryOf_dropMetadata (s : ControllerState) (jobName k : String) :
    (s.dropMetadata jobName).assembler.entryOf k =
      if k = jobName then none else s.assembler.entryOf k := by
  simp only [InstanceAssembler.entryOf, dropMetadata, Dict.get?_erase, eq_comm]
  split <;> rfl

/-- The two states differ in nothing that ids depend on. -/
structure SameNames (s s' : ControllerState) : Prop where
  entry : ∀ job, s'.assembler.entryOf job = s.assembler.entryOf job
  job : ∀ id, s'.manager.jobOf id = s.manager.jobOf id
  keyed : (∀ k i, s.manager.instances.get? k = some i → i.id = k) →
    ∀ k i, s'.manager.instances.get? k = some i → i.id = k
  given : s'.given = s.given
  earlier : s'.earlier = s.earlier
  counter : s.assembler.insIdCnt ≤ s'.assembler.insIdCnt
  assemblerData : s'.assemblerData = s.assemblerData
  managerData : s'.managerData = s.managerData

namespace SameNames

theorem refl (s : ControllerState) : SameNames s s :=
  ⟨fun _ => rfl, fun _ => rfl, fun h => h, rfl, rfl, le_rfl, rfl, rfl⟩

theorem trans (h₁ : SameNames s s₁) (h₂ : SameNames s₁ s') : SameNames s s' where
  entry job := (h₂.entry job).trans (h₁.entry job)
  job id := (h₂.job id).trans (h₁.job id)
  keyed h := h₂.keyed (h₁.keyed h)
  given := h₂.given.trans h₁.given
  earlier := h₂.earlier.trans h₁.earlier
  counter := h₁.counter.trans h₂.counter
  assemblerData := h₂.assemblerData.trans h₁.assemblerData
  managerData := h₂.managerData.trans h₁.managerData

theorem setMetadata (hview : s.assembler.entryOf jobName = some md.view) :
    SameNames s (s.setMetadata jobName md) where
  entry job := by
    rw [entryOf_setMetadata]
    split
    · next heq => rw [heq, hview]
    · rfl
  job _ := rfl
  keyed h := h
  given := rfl
  earlier := rfl
  counter := le_rfl
  assemblerData := rfl
  managerData := rfl

theorem amend {f : Instance → Instance} (hf : KeepsNames f) (s : ControllerState) (jobName : String) :
    SameNames s (s.amend jobName f) := by
  unfold ControllerState.amend
  split
  · exact refl s
  · next md hmd =>
    have hset : SameNames s (s.setMetadata jobName { md with ins := f md.ins }) := by
      apply setMetadata
      simp [InstanceAssembler.entryOf, hmd, AssembleInstanceMetadata.view, (hf md.ins).1,
        (hf md.ins).2]
    simp only
    split
    · split
      · exact hset
      · next i hi =>
        -- the manager has the same object
        refine ⟨hset.entry, fun id => ?_, fun hkeyed k j hj => ?_, rfl, rfl, le_rfl, rfl, rfl⟩
        · simp only [InstanceManager.jobOf, Dict.get?_insert]
          split
          · next heq =>
            rw [← heq, show s.manager.instances.get? md.ins.id = some i from hi]
            simp [(hf i).2]
          · rfl
        · simp only [Dict.get?_insert] at hj
          split at hj
          · next heq =>
            cases hj
            rw [(hf i).1, ← heq]
            exact hkeyed _ i hi
          · exact hkeyed k j hj
    · exact hset

theorem joinReregister (s : ControllerState) (msg : ReregisterMsg) :
    SameNames s (s.joinReregister msg) := by
  unfold ControllerState.joinReregister
  refine trans ?_ ((amend (Instance.keepsNames_addNodeMgr _) _ _).trans
    (amend (Instance.keepsNames_addEndpoints _ _) _ _))
  exact ⟨fun _ => rfl, fun _ => rfl, fun h => h, rfl, rfl, le_max_left _ _, rfl, rfl⟩

theorem recordMaster {msg : RegisterMsg} (hmd : s.assembler.instances.get? msg.jobName = some md) :
    SameNames s (s.recordMaster msg md) := by
  unfold ControllerState.recordMaster
  split
  · split
    · exact refl s
    · apply setMetadata
      simp [InstanceAssembler.entryOf, hmd, AssembleInstanceMetadata.view]
  · exact refl s

theorem joinRegister {msg : RegisterMsg} (hmd : s.assembler.instances.get? msg.jobName = some md) :
    SameNames s (s.joinRegister msg md).2 := by
  unfold ControllerState.joinRegister
  split
  · exact refl s
  · have hjoin := (recordMaster hmd).trans
      (amend (Instance.keepsNames_addNodeMgr msg.nodeMgr) _ msg.jobName)
    simp only
    split
    · exact hjoin
    · exact hjoin.trans (amend (Instance.keepsNames_addEndpoints _ _) _ _)

end SameNames

/-! ## The invariant -/

/-- The ids of `a` were given to the jobs they are filed under. -/
def Filed (given : List (String × InstanceId)) (a : InstanceAssembler) : Prop :=
  ∀ job e, a.entryOf job = some e → e.jobName = job ∧ (job, e.id) ∈ given

def Managed (given : List (String × InstanceId)) (instances : Dict InstanceId Instance) : Prop :=
  ∀ id i, instances.get? id = some i → i.id = id ∧ (i.jobName, id) ∈ given

/-- No id was given to two jobs. -/
def GivenOnce (given : List (String × InstanceId)) : Prop :=
  ∀ job job' id, (job, id) ∈ given → (job', id) ∈ given → job = job'

/-- An assembled entry is in the manager, under its own name, and any other entry is not. -/
def HandsOver (a : InstanceAssembler) (m : InstanceManager) : Prop :=
  ∀ job e, a.entryOf job = some e → m.jobOf e.id = if e.assembled then some job else none

structure Inv (s : ControllerState) : Prop where
  once : GivenOnce s.given
  /-- The counter is beyond all that this run has given. -/
  counted : ∀ p ∈ s.given, p ∈ s.earlier ∨ p.2 < s.assembler.insIdCnt
  filed : Filed s.given s.assembler
  managed : Managed s.given s.manager.instances
  handsOver : HandsOver s.assembler s.manager
  assemblerData : ∀ data, s.assemblerData = some data → Filed s.given data
  managerData : ∀ data, s.managerData = some data → Managed s.given data

theorem Managed.of_jobOf {given : List (String × InstanceId)} {m : InstanceManager} {id : InstanceId}
    {job : String} (h : Managed given m.instances) (hjob : m.jobOf id = some job) : (job, id) ∈ given := by
  obtain ⟨i, hi, rfl⟩ := Option.map_eq_some_iff.mp hjob
  exact (h id i hi).2

theorem Managed.intro {given : List (String × InstanceId)} {m : InstanceManager}
    (hkeyed : ∀ k i, m.instances.get? k = some i → i.id = k)
    (hjob : ∀ id job, m.jobOf id = some job → (job, id) ∈ given) : Managed given m.instances := by
  intro id i hi
  exact ⟨hkeyed id i hi, hjob id i.jobName (by simp [InstanceManager.jobOf, hi])⟩

theorem Filed.mono {given more : List (String × InstanceId)} {a : InstanceAssembler}
    (h : Filed given a) : Filed (given ++ more) a :=
  fun job e he => ⟨(h job e he).1, List.mem_append_left _ (h job e he).2⟩

theorem Managed.mono {given more : List (String × InstanceId)} {instances : Dict InstanceId Instance}
    (h : Managed given instances) : Managed (given ++ more) instances :=
  fun id i hi => ⟨(h id i hi).1, List.mem_append_left _ (h id i hi).2⟩

theorem Inv.same (h : Inv s) (hsame : SameNames s s') : Inv s' where
  once := hsame.given ▸ h.once
  counted p hp := by
    rw [hsame.earlier]
    exact (h.counted p (hsame.given ▸ hp)).imp_right fun hlt => hlt.trans_le hsame.counter
  filed := by
    intro job e he
    rw [hsame.given]
    exact h.filed job e (hsame.entry job ▸ he)
  managed := by
    refine Managed.intro (hsame.keyed fun k i hi => (h.managed k i hi).1) fun id job hjob => ?_
    rw [hsame.given]
    exact h.managed.of_jobOf (hsame.job id ▸ hjob)
  handsOver := by
    intro job e he
    rw [hsame.job]
    exact h.handsOver job e (hsame.entry job ▸ he)
  assemblerData := by
    rw [hsame.assemblerData, hsame.given]
    exact h.assemblerData
  managerData := by
    rw [hsame.managerData, hsame.given]
    exact h.managerData

/-! ## Steps -/

/-- A new entry, with an id that was given to its job and that the manager does not have. -/
theorem Inv.opened {id : InstanceId} {more : List (String × InstanceId)} (h : Inv s)
    (hentry : ∀ k, s'.assembler.entryOf k =
      if k = jobName then some ⟨jobName, id, false⟩ else s.assembler.entryOf k)
    (hmanager : s'.manager = s.manager) (hgiven : s'.given = s.given ++ more)
    (hassemblerData : s'.assemblerData = s.assemblerData) (hmanagerData : s'.managerData = s.managerData)
    (honce : GivenOnce s'.given) (hid : (jobName, id) ∈ s'.given)
    (hcounted : ∀ p ∈ s'.given, p ∈ s'.earlier ∨ p.2 < s'.assembler.insIdCnt)
    (hfree : s.manager.instances.contains id = false) : Inv s' where
  once := honce
  counted := hcounted
  filed := by
    intro job e he
    rw [hentry] at he
    split at he
    · next heq =>
      cases he
      exact ⟨heq.symm, heq ▸ hid⟩
    · rw [hgiven]
      exact h.filed.mono job e he
  managed := by
    rw [hmanager, hgiven]
    exact h.managed.mono
  handsOver := by
    intro job e he
    rw [hmanager]
    rw [hentry] at he
    split at he
    · cases he
      exact InstanceManager.jobOf_eq_none.mpr hfree
    · exact h.handsOver job e he
  assemblerData := by
    rw [hassemblerData, hgiven]
    exact fun data hdata => (h.assemblerData data hdata).mono
  managerData := by
    rw [hmanagerData, hgiven]
    exact fun data hdata => (h.managerData data hdata).mono

theorem Inv.dropMetadata (h : Inv s) (jobName : String) : Inv (s.dropMetadata jobName) where
  once := h.once
  counted := h.counted
  filed := by
    intro job e he
    rw [entryOf_dropMetadata] at he
    split at he
    · cases he
    · exact h.filed job e he
  managed := h.managed
  handsOver := by
    intro job e he
    rw [entryOf_dropMetadata] at he
    split at he
    · cases he
    · exact h.handsOver job e he
  assemblerData := h.assemblerData
  managerData := h.managerData

theorem Inv.handOver {md₀ : AssembleInstanceMetadata} (h : Inv s)
    (hmd₀ : s.assembler.instances.get? jobName = some md₀) (hwaits : md₀.registerStatus ≠ .assembled)
    (hid : md.ins.id = md₀.ins.id) (hname : md.ins.jobName = md₀.ins.jobName)
    (hassembled : md.registerStatus = .assembled) :
    Inv (s.handOver jobName md) ∧ s.manager.instances.contains md₀.ins.id = false ∧
      (s.handOver jobName md).manager.jobOf md₀.ins.id = some jobName := by
  have hentry : s.assembler.entryOf jobName = some md₀.view := by
    simp [InstanceAssembler.entryOf, hmd₀]
  obtain ⟨hjob, hgiven⟩ := h.filed jobName _ hentry
  have hjob' : md.ins.jobName = jobName := hname.trans hjob
  have hfree : s.manager.instances.contains md.ins.id = false := by
    rw [← InstanceManager.jobOf_eq_none, hid]
    simpa [AssembleInstanceMetadata.view, hwaits] using h.handsOver jobName _ hentry
  have hadd := InstanceManager.jobOf_addInstance hfree
  -- the entries of other jobs have other ids
  have hother : ∀ job e, job ≠ jobName → s.assembler.entryOf job = some e →
      (s.manager.addInstance md.ins).1.jobOf e.id = if e.assembled then some job else none := by
    intro job e hne he
    rw [hadd, if_neg ?_]
    · exact h.handsOver job e he
    · intro heq
      have hsame := (h.filed job e he).2
      rw [heq, hid] at hsame
      exact hne (h.once _ _ _ hsame hgiven)
  have hmanaged : Managed s.given (s.manager.addInstance md.ins).1.instances := by
    apply Managed.intro
    · exact InstanceManager.keyed_addInstance md.ins fun k i hi => (h.managed k i hi).1
    · intro k job hk
      rw [hadd] at hk
      split at hk
      · next heq =>
        cases hk
        rw [hjob', heq, hid]
        exact hgiven
      · exact h.managed.of_jobOf hk
  have hin : (s.manager.addInstance md.ins).1.jobOf md₀.ins.id = some jobName := by
    rw [hadd, if_pos hid.symm, hjob']
  unfold ControllerState.handOver
  simp only
  split
  · refine ⟨⟨h.once, h.counted, ?_, hmanaged, ?_, h.assemblerData, h.managerData⟩, hid ▸ hfree, hin⟩
    · intro job e he
      rw [entryOf_dropMetadata] at he
      split at he
      · cases he
      · exact h.filed job e he
    · intro job e he
      rw [entryOf_dropMetadata] at he
      split at he
      · cases he
      · next hne => exact hother job e hne he
  · refine ⟨⟨h.once, h.counted, ?_, hmanaged, ?_, h.assemblerData, h.managerData⟩, hid ▸ hfree, hin⟩
    · intro job e he
      rw [entryOf_setMetadata] at he
      split at he
      · next heq =>
        cases he
        exact ⟨hjob'.trans heq.symm, by
          rw [heq]
          show (jobName, md.ins.id) ∈ s.given
          rw [hid]
          exact hgiven⟩
      · exact h.filed job e he
    · intro job e he
      rw [entryOf_setMetadata] at he
      split at he
      · next heq =>
        cases he
        simp only [AssembleInstanceMetadata.view, hassembled, decide_true, if_true]
        rw [heq, ← hin, hid]
        rfl
      · next hne => exact hother job e hne he

/-! ## Runs -/

/-- The counter is not at an id that an earlier run gave to another job, or whose instance the manager still has;
no job registers again while the manager has its instance; and after a restart the manager has the assembled ones
of the restored entries. -/
def KeepsIds (s : ControllerState) : ControllerOp → Prop
  | .register msg => s.evalRegisterStatus msg.jobName = .notRegistered →
      ∀ p ∈ s.earlier, p.2 = s.assembler.insIdCnt →
        p.1 = msg.jobName ∧ s.manager.instances.contains p.2 = false
  | .reregister msg => s.evalRegisterStatus msg.jobName = .notRegistered →
      s.manager.instances.contains msg.instanceId = false
  | .restart assemblerRestores managerRestores =>
    ∀ md ∈ (s.restoredAssembler assemblerRestores).instances.values,
      (s.restoredManager managerRestores).instances.contains md.ins.id =
        decide (md.registerStatus = .assembled)
  | _ => True

instance (s : ControllerState) : ∀ op, Decidable (s.KeepsIds op)
  | .register _ => inferInstanceAs (Decidable (_ → ∀ p ∈ _, _))
  | .reregister _ => inferInstanceAs (Decidable (_ → _))
  | .restart _ _ => inferInstanceAs (Decidable (∀ md ∈ _, _))
  | .assemble _ _ _ => isTrue trivial
  | .sendStartCommand _ _ _ => isTrue trivial
  | .heartbeat _ _ _ => isTrue trivial
  | .persistAssembler => isTrue trivial
  | .persistManager => isTrue trivial

/-- The job has an instance with the id, in the assembler or in the manager. -/
def Holds (s : ControllerState) (jobName : String) (id : InstanceId) : Prop :=
  (∃ k md, s.assembler.instances.get? k = some md ∧ md.ins.jobName = jobName ∧ md.ins.id = id) ∨
    ∃ k i, s.manager.instances.get? k = some i ∧ i.jobName = jobName ∧ i.id = id

theorem Inv.register {msg : RegisterMsg} (h : Inv s) (hguard : s.KeepsIds (.register msg)) :
    Inv (s.register msg).2 := by
  unfold ControllerState.register
  split
  · exact h
  · next hnew =>
    -- the counter is beyond what this run has given, and an earlier run gave its id to this job at most
    have hfresh : ∀ p ∈ s.given, p.2 = s.assembler.insIdCnt → p ∈ s.earlier := fun p hp heq =>
      (h.counted p hp).resolve_right fun hlt => hlt.ne heq
    have hfree : s.manager.instances.contains s.assembler.insIdCnt = false := by
      rw [← Bool.not_eq_true]
      intro hin
      obtain ⟨i, hi⟩ := Dict.contains_iff.mp hin
      have hmine := hguard hnew _ (hfresh _ (h.managed _ i hi).2 rfl) rfl
      exact Bool.noConfusion (hin.symm.trans hmine.2)
    have hopened : Inv (s.openEntry msg) := by
      have hentry : ∀ k, (s.openEntry msg).assembler.entryOf k =
          if k = msg.jobName then some ⟨msg.jobName, s.assembler.insIdCnt, false⟩
          else s.assembler.entryOf k :=
        entryOf_setMetadata s msg.jobName (msg.newMetadata s.assembler.insIdCnt)
      refine h.opened hentry rfl rfl rfl rfl ?_ ?_ ?_ hfree
      · -- the id is new, or was given to the same job
        intro job job' id hjob hjob'
        simp only [openEntry, List.mem_append, List.mem_singleton, Prod.mk.injEq] at hjob hjob'
        rcases hjob with hjob | ⟨rfl, rfl⟩
        · rcases hjob' with hjob' | ⟨rfl, rfl⟩
          · exact h.once job job' id hjob hjob'
          · exact (hguard hnew _ (hfresh _ hjob rfl) rfl).1
        · rcases hjob' with hjob' | ⟨rfl, -⟩
          · exact (hguard hnew _ (hfresh _ hjob' rfl) rfl).1.symm
          · rfl
      · simp [openEntry]
      · intro p hp
        have hcnt : (s.openEntry msg).assembler.insIdCnt = s.assembler.insIdCnt + 1 := rfl
        rw [hcnt]
        rcases List.mem_append.mp hp with hp | hp
        · exact (h.counted p hp).imp_right fun hlt => Int.lt_add_one_of_le hlt.le
        · rw [List.mem_singleton.mp hp]
          exact Or.inr (by simp)
    exact hopened.same (SameNames.joinRegister (Dict.get?_insert_self _ _ _))
  · split
    · exact h
    · next md hmd =>
      split
      · exact h
      · exact h.same (SameNames.joinRegister hmd)

theorem Inv.reregister {msg : ReregisterMsg} (h : Inv s) (hguard : s.KeepsIds (.reregister msg))
    (hgiven : (msg.jobName, msg.instanceId) ∈ s.given) : Inv (s.reregister msg).2 := by
  unfold ControllerState.reregister
  split
  · exact h
  · next hnew =>
    have hopened : Inv (s.setMetadata msg.jobName msg.newMetadata) := by
      have hentry : ∀ k, (s.setMetadata msg.jobName msg.newMetadata).assembler.entryOf k =
          if k = msg.jobName then some ⟨msg.jobName, msg.instanceId, false⟩
          else s.assembler.entryOf k :=
        entryOf_setMetadata s msg.jobName msg.newMetadata
      exact h.opened hentry rfl (List.append_nil _).symm rfl rfl h.once hgiven h.counted (hguard hnew)
    exact hopened.same (SameNames.joinReregister _ msg)
  · split
    · exact h
    · split
      · exact h.same (SameNames.joinReregister s msg)
      · exact h

theorem filed_restored (h : Inv s) (restore : Bool) : Filed s.given (s.restoredAssembler restore) := by
  unfold restoredAssembler
  split
  · next data hdata =>
    intro job e he
    apply h.assemblerData data hdata job e
    simp only [InstanceAssembler.entryOf, Dict.get?_mapVal, Option.map_map] at he ⊢
    exact he
  · intro job e he
    cases he

theorem managed_restored (h : Inv s) (restore : Bool) :
    Managed s.given (s.restoredManager restore).instances := by
  unfold restoredManager
  split
  · next data hdata => exact h.managerData data hdata
  · intro id i hi
    cases hi

theorem Inv.restart {assemblerRestores managerRestores : Bool} (h : Inv s)
    (hguard : s.KeepsIds (.restart assemblerRestores managerRestores)) :
    Inv { s with
      assembler := s.restoredAssembler assemblerRestores
      manager := s.restoredManager managerRestores
      earlier := s.given } where
  once := h.once
  counted p hp := Or.inl hp
  filed := filed_restored h assemblerRestores
  managed := managed_restored h managerRestores
  handsOver := by
    intro job e he
    obtain ⟨md, hmd, rfl⟩ := Option.map_eq_some_iff.mp he
    have hin := hguard md (Dict.mem_values_iff.mpr ⟨job, hmd⟩)
    by_cases hassembled : md.registerStatus = .assembled
    · simp only [AssembleInstanceMetadata.view, hassembled, decide_true, if_true] at hin ⊢
      obtain ⟨i, hi⟩ := Dict.contains_iff.mp hin
      -- the manager's instance has the same id, so it is of the same job
      have hjob : (s.restoredManager managerRestores).jobOf md.ins.id = some i.jobName := by
        simp [InstanceManager.jobOf, hi]
      rw [hjob, h.once _ _ _ ((managed_restored h managerRestores).of_jobOf hjob)
        (filed_restored h assemblerRestores job _ he).2]
    · simp only [AssembleInstanceMetadata.view, hassembled, decide_false, Bool.false_eq_true,
        if_false] at hin ⊢
      exact InstanceManager.jobOf_eq_none.mpr hin
  assemblerData := h.assemblerData
  managerData := h.managerData

theorem Inv.assembleInstance (h : Inv s) (hmd : s.assembler.instances.get? jobName = some md)
    (hwaits : md.registerStatus ≠ .assembled) (alive : NodeManagerInfo → Bool) (timedOut : Bool) :
    Inv (s.assembleInstance jobName md alive timedOut) := by
  obtain ⟨hid, hname⟩ := md.filtered_names alive
  unfold ControllerState.assembleInstance
  simp only
  split
  · obtain ⟨hid', hname'⟩ := (md.filtered alive).completed_names
    exact (h.handOver hmd hwaits (hid'.trans hid) (hname'.trans hname) rfl).1
  · split
    · exact h.dropMetadata jobName
    · apply h.same (SameNames.setMetadata ?_)
      rw [md.filtered_view]
      simp [InstanceAssembler.entryOf, hmd]

theorem Inv.sendStartCommand (h : Inv s) (hmd : s.assembler.instances.get? jobName = some md)
    (success : Bool) (maxRetryTimes : ℕ) :
    Inv (s.sendStartCommand jobName md success maxRetryTimes) := by
  unfold ControllerState.sendStartCommand
  split
  · exact h.dropMetadata jobName
  · split
    · apply h.same (SameNames.setMetadata ?_)
      simp [InstanceAssembler.entryOf, hmd, AssembleInstanceMetadata.view]
    · exact h.dropMetadata jobName

/-- **Every step** keeps the invariant. -/
theorem exec_inv {op : ControllerOp} (h : Inv s) (hguard : s.KeepsIds op)
    (he : s.exec op = some s') : Inv s' := by
  cases op with
  | register msg =>
    cases he
    exact h.register hguard
  | reregister msg =>
    simp only [exec, Option.ite_none_right_eq_some, Option.some.injEq] at he
    obtain ⟨hgiven, rfl⟩ := he
    exact h.reregister hguard hgiven
  | assemble jobName alive timedOut =>
    simp only [exec] at he
    split at he
    · cases he
    · next md hmd =>
      split at he
      · cases he
      · next hwaits =>
        cases he
        exact h.assembleInstance hmd hwaits alive timedOut
  | sendStartCommand jobName success maxRetryTimes =>
    simp only [exec] at he
    split at he
    · cases he
    · next md hmd =>
      split at he
      · cases he
        exact h.sendStartCommand hmd success maxRetryTimes
      · cases he
  | heartbeat id ip status =>
    cases he
    -- a heartbeat changes the status of one instance and gives nobody an id
    have hkeyed : ∀ k i, s.manager.instances.get? k = some i → i.id = k :=
      fun k i hi => (h.managed k i hi).1
    apply h.same
    exact ⟨fun _ => rfl, InstanceManager.jobOf_handleHeartbeat id ip status (hkeyed id),
      (InstanceManager.changes_handleHeartbeat id ip status (hkeyed id)).keyed, rfl, rfl, le_rfl, rfl, rfl⟩
  | persistAssembler =>
    cases he
    refine ⟨h.once, h.counted, h.filed, h.managed, h.handsOver, ?_, h.managerData⟩
    intro data hdata
    cases hdata
    exact h.filed
  | persistManager =>
    cases he
    refine ⟨h.once, h.counted, h.filed, h.managed, h.handsOver, h.assemblerData, ?_⟩
    intro data hdata
    cases hdata
    exact h.managed
  | restart assemblerRestores managerRestores =>
    cases he
    exact h.restart hguard

theorem inv_new {given : List (String × InstanceId)} (hgiven : GivenOnce given) : Inv (new given) where
  once := hgiven
  counted p hp := Or.inl hp
  filed job e he := by cases he
  managed id i hi := by cases hi
  handsOver job e he := by cases he
  assemblerData data hdata := by cases hdata
  managerData data hdata := by cases hdata

theorem Inv.given_of_holds {id : InstanceId} (h : Inv s) (hholds : s.Holds jobName id) :
    (jobName, id) ∈ s.given := by
  rcases hholds with ⟨k, md, hmd, rfl, rfl⟩ | ⟨k, i, hi, rfl, rfl⟩
  · have hentry : s.assembler.entryOf k = some md.view := by
      simp [InstanceAssembler.entryOf, hmd]
    obtain ⟨hname, hgiven⟩ := h.filed k _ hentry
    rw [show md.ins.jobName = k from hname]
    exact hgiven
  · obtain ⟨hid, hgiven⟩ := h.managed k i hi
    rw [hid]
    exact hgiven

/-- **Ids are unique**: no two jobs hold instances with one id. The manager does not have an instance
that is about to be assembled, and takes it over; and it has every assembled instance that the
assembler drops. -/
theorem instance_ids_unique {given : List (String × InstanceId)} {ops : List ControllerOp}
    (hgiven : GivenOnce given) (hrun : Run exec KeepsIds (new given) ops s) :
    (∀ job job' id, s.Holds job id → s.Holds job' id → job = job') ∧
    (∀ job md alive timedOut s', s.assembler.instances.get? job = some md →
      md.registerStatus ≠ .assembled → (md.filtered alive).isReady = true →
      s.exec (.assemble job alive timedOut) = some s' →
        s.manager.instances.contains md.ins.id = false ∧ s'.manager.jobOf md.ins.id = some job) ∧
    (∀ job md success maxRetryTimes s', s.assembler.instances.get? job = some md →
      md.registerStatus = .assembled →
      s.exec (.sendStartCommand job success maxRetryTimes) = some s' →
        s'.manager.jobOf md.ins.id = some job) := by
  have h : Inv s := hrun.invariant_state (inv_new hgiven) exec_inv
  refine ⟨?_, ?_, ?_⟩
  · intro job job' id hjob hjob'
    exact h.once job job' id (h.given_of_holds hjob) (h.given_of_holds hjob')
  · intro job md alive timedOut s' hmd hwaits hready he
    simp only [exec, hmd, if_neg hwaits, Option.some.injEq] at he
    subst he
    obtain ⟨hid, hname⟩ := md.filtered_names alive
    obtain ⟨hid', hname'⟩ := (md.filtered alive).completed_names
    unfold ControllerState.assembleInstance
    simp only [hready, if_true]
    exact (h.handOver hmd hwaits (hid'.trans hid) (hname'.trans hname) rfl).2
  · intro job md success maxRetryTimes s' hmd hassembled he
    simp only [exec, hmd, if_pos hassembled, Option.some.injEq] at he
    have hentry : s.assembler.entryOf job = some md.view := by
      simp [InstanceAssembler.entryOf, hmd]
    have hin := h.handsOver job _ hentry
    simp only [AssembleInstanceMetadata.view, hassembled, decide_true, if_true] at hin
    have hmanager : s'.manager = s.manager := by
      subst he
      unfold ControllerState.sendStartCommand
      split
      · rfl
      · split <;> rfl
    rw [hmanager]
    exact hin

/-! ## Two runs -/

/-- A job of one pod registers. -/
def onePod (jobName podIp : String) : RegisterMsg where
  jobName := jobName
  modelName := "qwen"
  engineType := some "vllm"
  dispatchCapabilities := []
  role := "union"
  podIp := podIp
  businessPort := ["1025"]
  mgmtPort := ["1026"]
  bootstrapPort := none
  nmPort := "1027"
  parallelConfig := ⟨1, 1, 1, 1, 1, 1, 1⟩
  enableMultiEndpoints := true
  deviceNum := 1
  ranktable := none
  nnodes := 1
  isMaster := false

/-- It registers again. -/
def onePodAgain (jobName podIp : String) (id : InstanceId) : ReregisterMsg where
  jobName := jobName
  modelName := "qwen"
  engineType := some "vllm"
  dispatchCapabilities := []
  instanceId := id
  role := "union"
  podIp := podIp
  nmPort := "1027"
  parallelConfig := ⟨1, 1, 1, 1, 1, 1, 1⟩
  enableMultiEndpoints := true
  deviceNum := 1
  endpoints := [newEndpoint 0 podIp "1025" "1026" none []]
  nnodes := 1
  nodeRank := 0

/-- The job that ran before registers again first, and then a new one registers. -/
def oldJobFirst : List ControllerOp :=
  [.reregister (onePodAgain "job-a" "10.0.0.1" 1), .assemble "job-a" (fun _ => true) false,
    .register (onePod "job-b" "10.0.0.2")]

theorem oldJobFirst_unique : ∃ s s', Run exec KeepsIds (new [("job-a", 1)]) oldJobFirst s ∧
    s.Holds "job-a" 1 ∧ s.Holds "job-b" 2 ∧
    (∀ job job' id, s.Holds job id → s.Holds job' id → job = job') ∧
    s.exec (.assemble "job-b" (fun _ => true) false) = some s' ∧
    s'.manager.jobOf 2 = some "job-b" := by
  have h : (runList exec KeepsIds (new [("job-a", 1)]) oldJobFirst).map (fun s =>
      ((s.manager.instances.get? 1).map (fun i => (i.jobName, i.id)),
        (s.assembler.instances.get? "job-b").map (fun md =>
          (md.ins.jobName, md.ins.id, md.registerStatus, (md.filtered fun _ => true).isReady)))) =
      some (some ("job-a", 1), some ("job-b", 2, .notRegistered, true)) := by rfl
  obtain ⟨s, hs, hf⟩ := Option.map_eq_some_iff.mp h
  simp only [Prod.mk.injEq, Option.map_eq_some_iff] at hf
  obtain ⟨⟨i, hi, hname, hid⟩, md, hmd, hname', hid', hstatus, hready⟩ := hf
  have hwaits : md.registerStatus ≠ .assembled := by
    rw [hstatus]
    decide
  have hunique := instance_ids_unique (by simp [GivenOnce]) (runList_run hs)
  obtain ⟨s', he⟩ : ∃ s', s.exec (.assemble "job-b" (fun _ => true) false) = some s' := by
    simp [exec, hmd, hwaits]
  refine ⟨s, s', runList_run hs, Or.inr ⟨1, i, hi, hname, hid⟩, Or.inl ⟨_, md, hmd, hname', hid'⟩,
    hunique.1, he, ?_⟩
  rw [← hid']
  exact (hunique.2.1 "job-b" md _ _ s' hmd hwaits hready he).2

/-- The controller has restarted without data, and the new job is faster. -/
def newJobFirst : List ControllerOp :=
  [.register (onePod "job-b" "10.0.0.2"), .reregister (onePodAgain "job-a" "10.0.0.1" 1),
    .assemble "job-a" (fun _ => true) false, .assemble "job-b" (fun _ => true) false,
    .sendStartCommand "job-b" true 3]

/-- The two jobs share an id, and the manager rejects one of them without the assembler noticing. -/
theorem new_job_gets_old_id : (∃ s, Run exec Free (new [("job-a", 1)])
    [.register (onePod "job-b" "10.0.0.2"), .reregister (onePodAgain "job-a" "10.0.0.1" 1)] s ∧
      s.Holds "job-a" 1 ∧ s.Holds "job-b" 1) ∧
    ∃ s, Run exec Free (new [("job-a", 1)]) newJobFirst s ∧ s.assembler.instances.isEmpty = true ∧
      s.manager.instances.keys = [1] ∧ s.manager.jobOf 1 = some "job-a" := by
  constructor
  · have h : (runList exec Free (new [("job-a", 1)]) [.register (onePod "job-b" "10.0.0.2"),
        .reregister (onePodAgain "job-a" "10.0.0.1" 1)]).map (fun s =>
        ((s.assembler.instances.get? "job-a").map (fun md => (md.ins.jobName, md.ins.id)),
          (s.assembler.instances.get? "job-b").map (fun md => (md.ins.jobName, md.ins.id)))) =
        some (some ("job-a", 1), some ("job-b", 1)) := by decide
    obtain ⟨s, hs, hf⟩ := Option.map_eq_some_iff.mp h
    simp only [Prod.mk.injEq, Option.map_eq_some_iff] at hf
    obtain ⟨⟨md, hmd, hname, hid⟩, md', hmd', hname', hid'⟩ := hf
    exact ⟨s, runList_run hs, Or.inl ⟨_, md, hmd, hname, hid⟩, Or.inl ⟨_, md', hmd', hname', hid'⟩⟩
  · have h : (runList exec Free (new [("job-a", 1)]) newJobFirst).map (fun s =>
        (s.assembler.instances.isEmpty, s.manager.instances.keys, s.manager.jobOf 1)) =
        some (true, [1], some "job-a") := by decide
    obtain ⟨s, hs, hf⟩ := Option.map_eq_some_iff.mp h
    simp only [Prod.mk.injEq] at hf
    exact ⟨s, runList_run hs, hf.1, hf.2.1, hf.2.2⟩

end ControllerState

end PyMotor.Controller
