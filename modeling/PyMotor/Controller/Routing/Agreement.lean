import PyMotor.Controller.InstanceManager.Changes
import PyMotor.Controller.Routing
import PyMotor.Coordinator.InstanceManager.Refresh

/-!
# Both sides agree on the routable instances

An event on its way decides what the coordinator will think of an instance, whatever it thought before:
an `ADD` makes it available, a `DEL` or a `PAUSE` ends that, and a `SET` decides about all instances at
once. So what the coordinator will think in the end is known at any time, and it is kept equal to what
the controller thinks.

The exception is an `ADD` of a paused instance: it becomes available a second time beside its entry
among the paused ones, and the next `DEL` or `PAUSE` finds only the latter. The controller sends it
whenever a paused instance becomes active again, since it then reports the instance as ready and not
as resumed. `KeepsRoutable` excludes this, and roles that the coordinator does not know.
-/

namespace PyMotor.Controller

open Coordinator (InstanceId PDRole Roster Place)
open Coordinator.InstanceManager (Represents)

/-! ## What is to come -/

/-- The last decision counts. -/
def settle (decisions : List (Option Bool)) (b : Bool) : Bool :=
  decisions.foldl (fun b decision => decision.getD b) b

theorem settle_snoc (decisions : List (Option Bool)) (decision : Option Bool) (b : Bool) :
    settle (decisions ++ [decision]) b = decision.getD (settle decisions b) := by
  simp [settle]

theorem settle_outcome (decisions : List (Option Bool)) (b : Bool) :
    settle decisions (settle decisions b) = settle decisions b := by
  induction decisions generalizing b with
  | nil => rfl
  | cons decision decisions ih =>
    cases decision with
    | none => exact ih b
    | some c => rfl

/-- What an event decides about an instance. A `SET` has yet to be filled in. -/
def Event.decision (e : Event) (id : InstanceId) : Option Bool :=
  match e.eventType, e.instance? with
  | .add, some ins => if ins.id = id then some true else none
  | .del, some ins => if ins.id = id then some false else none
  | .pause, some ins => if ins.id = id then some false else none
  | _, _ => none

def InsEventMsg.decision (msg : InsEventMsg) (id : InstanceId) : Option Bool :=
  match msg.event with
  | .set => some (decide (id ∈ msg.instances.map (·.id)))
  | .add => if id ∈ msg.instances.map (·.id) then some true else none
  | .del => if id ∈ msg.instances.map (·.id) then some false else none
  | .pause => if id ∈ msg.instances.map (·.id) then some false else none
  | .resume => none

namespace Deployment

/-- The decisions about an instance that have not arrived yet. -/
def pending (s : Deployment) (id : InstanceId) : List (Option Bool) :=
  s.inFlight.toList.map (·.decision id) ++ s.pusher.eventQueue.map (·.decision id)

/-- Whether the coordinator will route to the instance when everything has arrived. -/
def willRoute (s : Deployment) (id : InstanceId) : Bool :=
  settle (s.pending id) (s.coordinator.availablePool.contains id)

/-! ## Instances with names of their own -/

/-- The instances that were brought in. -/
def added : List DeploymentOp → List Instance
  | [] => []
  | .addInstance ins :: ops => ins :: added ops
  | _ :: ops => added ops

theorem added_append (ops ops' : List DeploymentOp) : added (ops ++ ops') = added ops ++ added ops' := by
  induction ops with
  | nil => rfl
  | cons op ops ih => cases op <;> simp [added, ih]

/-- Ids and job names are pairwise distinct. -/
structure Distinct (instances : List Instance) : Prop where
  ids : (instances.map (·.id)).Nodup
  jobNames : (instances.map (·.jobName)).Nodup

theorem Distinct.of_append {instances instances' : List Instance}
    (h : Distinct (instances ++ instances')) : Distinct instances where
  ids := by
    have hids := h.ids
    rw [List.map_append] at hids
    exact hids.of_append_left
  jobNames := by
    have hnames := h.jobNames
    rw [List.map_append] at hnames
    exact hnames.of_append_left

/-- It has the id, the job name and the role of an instance that was brought in, and the coordinator
knows the role. -/
structure Known (instances : List Instance) (ins : Coordinator.Instance) : Prop where
  origin : ∃ a ∈ instances, a.id = ins.id ∧ a.jobName = ins.jobName ∧ a.role = ins.role
  role : ∃ role, PDRole.ofString ins.role = some role

section Names

variable {instances : List Instance} {ins ins' : Coordinator.Instance}

theorem Known.mono {more : List Instance} (h : Known instances ins) : Known (instances ++ more) ins where
  origin := by
    obtain ⟨a, ha, heq⟩ := h.origin
    exact ⟨a, List.mem_append_left _ ha, heq⟩
  role := h.role

theorem Known.role_eq (h : Known instances ins) (h' : Known instances ins')
    (hdistinct : Distinct instances) (hid : ins.id = ins'.id) : ins.role = ins'.role := by
  obtain ⟨a, ha, haid, -, harole⟩ := h.origin
  obtain ⟨b, hb, hbid, -, hbrole⟩ := h'.origin
  obtain rfl := List.inj_on_of_nodup_map hdistinct.ids ha hb (by rw [haid, hbid, hid])
  rw [← harole, hbrole]

theorem Known.id_eq (h : Known instances ins) (h' : Known instances ins')
    (hdistinct : Distinct instances) (hname : ins.jobName = ins'.jobName) : ins.id = ins'.id := by
  obtain ⟨a, ha, haid, haname, -⟩ := h.origin
  obtain ⟨b, hb, hbid, hbname, -⟩ := h'.origin
  obtain rfl := List.inj_on_of_nodup_map hdistinct.jobNames ha hb (by rw [haname, hbname, hname])
  rw [← haid, hbid]

end Names

/-! ## The invariant -/

/-- An event in the queue. -/
def Queued (instances : List Instance) (e : Event) : Prop :=
  e.eventType = .set ∨ (e.eventType = .add ∨ e.eventType = .del ∨ e.eventType = .pause) ∧
    ∃ ins, e.instance? = some ins ∧ Known instances ins

/-- A message on its way. -/
def Sent (instances : List Instance) (msg : InsEventMsg) : Prop :=
  (∀ ins ∈ msg.instances, Known instances ins) ∧
    (msg.event = .set ∨ (msg.event = .add ∨ msg.event = .del ∨ msg.event = .pause) ∧
      ∃ ins, msg.instances = [ins])

/-- `ins` is announced for the job: it is what is sent of an active instance. -/
def Announced (m : InstanceManager) (jobName : String) (ins : Coordinator.Instance) : Prop :=
  ∃ id i, m.instances.get? id = some i ∧ i.jobName = jobName ∧ i.status = .active ∧ ins = i.toInstance

/-- The coordinator has only instances that were brought in, and none is unavailable. -/
def Trusts (instances : List Instance) (m : Coordinator.InstanceManager) : Prop :=
  ∃ w : Roster, Represents m w ∧ ∀ id v, w id = some v → v.1 ≠ .unavailable ∧ Known instances v.2

structure Inv (instances : List Instance) (s : Deployment) : Prop where
  keyed : ∀ id i, s.controller.instances.get? id = some i → i.id = id ∧ Known instances i.toInstance
  /-- The pusher's table has the active instances. -/
  table : ∀ job ins, s.pusher.instances.get? job = some ins ↔ Announced s.controller job ins
  queued : ∀ e ∈ s.pusher.eventQueue, Queued instances e
  sent : ∀ msg, s.inFlight = some msg → Sent instances msg
  trusts : Trusts instances s.coordinator
  agreed : ∀ id, s.willRoute id = true ↔ s.Active id

section Changes

variable {instances : List Instance} {s : Deployment} {m' : InstanceManager} {id : InstanceId}
  {i i' : Instance} {r : Option Instance}

theorem exists_changed {m : InstanceManager} (P : Instance → Prop)
    (hk : ∀ k, m'.instances.get? k = if k = id then r else m.instances.get? k) :
    (∃ k j, m'.instances.get? k = some j ∧ P j) ↔
      (∃ j, r = some j ∧ P j) ∨ ∃ k j, k ≠ id ∧ m.instances.get? k = some j ∧ P j := by
  constructor
  · rintro ⟨k, j, hj, hP⟩
    rw [hk] at hj
    split at hj
    · exact Or.inl ⟨j, hj, hP⟩
    · next hne => exact Or.inr ⟨k, j, hne, hj, hP⟩
  · rintro (⟨j, hj, hP⟩ | ⟨k, j, hne, hj, hP⟩)
    · refine ⟨id, j, ?_, hP⟩
      rw [hk, if_pos rfl, hj]
    · refine ⟨k, j, ?_, hP⟩
      rw [hk, if_neg hne, hj]

theorem exists_at {m : InstanceManager} (P : Instance → Prop) (hi : m.instances.get? id = some i) :
    (∃ k j, m.instances.get? k = some j ∧ P j) ↔
      P i ∨ ∃ k j, k ≠ id ∧ m.instances.get? k = some j ∧ P j := by
  have hk : ∀ k, m.instances.get? k = if k = id then some i else m.instances.get? k := by
    intro k
    split
    · next heq => rw [heq, hi]
    · rfl
  rw [exists_changed P hk]
  simp

theorem active_changed (hk : ∀ k, m'.instances.get? k = if k = id then r else s.controller.instances.get? k)
    {s' : Deployment} (hm' : s'.controller = m') (k : InstanceId) :
    s'.Active k ↔ if k = id then ∃ i, r = some i ∧ i.status = .active else s.Active k := by
  unfold Active
  rw [hm', hk]
  split <;> rfl

theorem Inv.same_job (h : Inv instances s) (hdistinct : Distinct instances) {k k' : InstanceId}
    {j j' : Instance} (hj : s.controller.instances.get? k = some j)
    (hj' : s.controller.instances.get? k' = some j') (hname : j.jobName = j'.jobName) : k = k' := by
  obtain ⟨hid, hknown⟩ := h.keyed k j hj
  obtain ⟨hid', hknown'⟩ := h.keyed k' j' hj'
  rw [← hid, ← hid']
  exact hknown.id_eq hknown' hdistinct hname

theorem Inv.id_sent (h : Inv instances s) (hi : s.controller.instances.get? id = some i)
    (hsent : i'.toInstance = i.toInstance) : i'.toInstance.id = id := by
  rw [hsent]
  exact (h.keyed id i hi).1

theorem Inv.keyed_changed (h : Inv instances s) (hi : s.controller.instances.get? id = some i)
    (hsent : ∀ i', r = some i' → i'.toInstance = i.toInstance)
    (hk : ∀ k, m'.instances.get? k = if k = id then r else s.controller.instances.get? k) :
    ∀ k j, m'.instances.get? k = some j → j.id = k ∧ Known instances j.toInstance := by
  intro k j hj
  rw [hk] at hj
  split at hj
  · next heq =>
    obtain ⟨hid, hknown⟩ := h.keyed id i hi
    rw [Instance.toInstance_id (hsent j hj), hsent j hj, heq]
    exact ⟨hid, hknown⟩
  · exact h.keyed k j hj

/-- One more event is queued, and it says what has become of its instance. -/
theorem Inv.agreed_put (h : Inv instances s) {s' : Deployment} (eventType : Coordinator.EventType)
    (ins : Coordinator.Instance) (htype : eventType = .add ∨ eventType = .del ∨ eventType = .pause)
    (hinFlight : s'.inFlight = s.inFlight) (hcoordinator : s'.coordinator = s.coordinator)
    (hqueue : s'.pusher.eventQueue = s.pusher.eventQueue ++ [⟨eventType, some ins⟩])
    (hactive : ∀ k, s'.Active k ↔ if k = ins.id then eventType = .add else s.Active k) :
    ∀ k, s'.willRoute k = true ↔ s'.Active k := by
  intro k
  have hsettle : s'.willRoute k =
      ((⟨eventType, some ins⟩ : Event).decision k).getD (s.willRoute k) := by
    unfold willRoute pending
    rw [hinFlight, hcoordinator, hqueue, List.map_append, ← List.append_assoc]
    exact settle_snoc _ _ _
  rw [hsettle, hactive]
  by_cases heq : ins.id = k
  · rcases htype with rfl | rfl | rfl <;> simp [Event.decision, heq]
  · rcases htype with rfl | rfl | rfl <;> simp [Event.decision, heq, Ne.symm heq, h.agreed]

theorem queued_put {eventType : Coordinator.EventType} {ins : Coordinator.Instance}
    {queue : List Event} (hqueue : ∀ e ∈ queue, Queued instances e)
    (htype : eventType = .add ∨ eventType = .del ∨ eventType = .pause) (hknown : Known instances ins) :
    ∀ e ∈ queue ++ [⟨eventType, some ins⟩], Queued instances e := by
  intro e he
  rcases List.mem_append.mp he with he | he
  · exact hqueue e he
  · rw [List.mem_singleton.mp he]
    exact Or.inr ⟨htype, ins, rfl, hknown⟩

theorem Inv.quiet (h : Inv instances s) (hi : s.controller.instances.get? id = some i)
    (hsent : i'.toInstance = i.toInstance) (hactive : i'.status = .active ↔ i.status = .active)
    (hk : ∀ k, m'.instances.get? k = if k = id then some i' else s.controller.instances.get? k) :
    Inv instances { s with controller := m' } where
  keyed := h.keyed_changed hi (fun j hj => Option.some.inj hj ▸ hsent) hk
  table := by
    intro job ins
    rw [h.table]
    unfold Announced
    rw [exists_changed _ hk, exists_at _ hi]
    simp [Instance.toInstance_jobName hsent, hactive, hsent]
  queued := h.queued
  sent := h.sent
  trusts := h.trusts
  agreed := by
    intro k
    rw [active_changed hk rfl]
    show s.willRoute k = true ↔ _
    rw [h.agreed]
    split
    · next heq =>
      subst heq
      simp [Active, hi, hactive]
    · rfl

theorem Inv.ready (h : Inv instances s) (hdistinct : Distinct instances)
    (hi : s.controller.instances.get? id = some i) (hsent : i'.toInstance = i.toInstance)
    (hold : i.status ≠ .active) (hnew : i'.status = .active)
    (hk : ∀ k, m'.instances.get? k = if k = id then some i' else s.controller.instances.get? k) :
    Inv instances (s.notify (m', [⟨i', .instanceReady⟩])) where
  keyed := h.keyed_changed hi (fun j hj => Option.some.inj hj ▸ hsent) hk
  table := by
    intro job ins
    show (s.pusher.instances.insert i'.jobName i'.toInstance).get? job = some ins ↔ Announced m' job ins
    unfold Announced
    rw [exists_changed _ hk, Dict.get?_insert]
    by_cases hjob : i'.jobName = job
    · -- no other instance has the job
      have hother : ¬ ∃ k j, k ≠ id ∧ s.controller.instances.get? k = some j ∧
          j.jobName = job ∧ j.status = .active ∧ ins = j.toInstance := by
        rintro ⟨k, j, hne, hj, hname, -⟩
        exact hne (h.same_job hdistinct hj hi
          (by rw [hname, ← hjob, Instance.toInstance_jobName hsent]))
      rw [if_pos hjob, or_iff_left hother]
      simp [hjob, hnew, eq_comm]
    · rw [if_neg hjob, h.table]
      unfold Announced
      rw [exists_at _ hi]
      simp [hjob, hold]
  queued := by
    apply queued_put h.queued (Or.inl rfl)
    show Known instances i'.toInstance
    rw [hsent]
    exact (h.keyed id i hi).2
  sent := h.sent
  trusts := h.trusts
  agreed := by
    refine h.agreed_put .add i'.toInstance (Or.inl rfl) ?_ ?_ ?_ ?_
    · rfl
    · rfl
    · rfl
    · intro k
      rw [active_changed hk rfl, h.id_sent hi hsent]
      simp [hnew]

theorem Inv.withdraw (h : Inv instances s) (hdistinct : Distinct instances)
    (hi : s.controller.instances.get? id = some i) (hsent : i'.toInstance = i.toInstance)
    (hnew : i'.status ≠ .active) {eventType : Coordinator.EventType}
    (htype : eventType = .del ∨ eventType = .pause)
    (hk : ∀ k, m'.instances.get? k = if k = id then some i' else s.controller.instances.get? k) :
    Inv instances { s with
      controller := m'
      pusher := s.pusher.withdraw eventType i'.toInstance } := by
  have hname : i'.toInstance.jobName = i.jobName := Instance.toInstance_jobName hsent
  unfold EventPusher.withdraw
  split
  · -- it was announced, so it was active
    refine ⟨h.keyed_changed hi (fun j hj => Option.some.inj hj ▸ hsent) hk, ?_, ?_, h.sent, h.trusts, ?_⟩
    · intro job ins
      show (s.pusher.instances.erase i'.toInstance.jobName).get? job = some ins ↔ Announced m' job ins
      unfold Announced
      rw [exists_changed _ hk, Dict.get?_erase, hname]
      by_cases hjob : i.jobName = job
      · have hother : ¬ ∃ k j, k ≠ id ∧ s.controller.instances.get? k = some j ∧
            j.jobName = job ∧ j.status = .active ∧ ins = j.toInstance := by
          rintro ⟨k, j, hne, hj, hname', -⟩
          exact hne (h.same_job hdistinct hj hi (by rw [hname', ← hjob]))
        rw [if_pos hjob, or_iff_left hother]
        simp [hnew]
      · rw [if_neg hjob, h.table]
        unfold Announced
        rw [exists_at _ hi]
        simp [hjob, hnew]
    · apply queued_put h.queued (Or.inr htype)
      rw [hsent]
      exact (h.keyed id i hi).2
    · refine h.agreed_put eventType i'.toInstance (Or.inr htype) ?_ ?_ ?_ ?_
      · rfl
      · rfl
      · rfl
      · intro k
        rw [active_changed hk rfl, h.id_sent hi hsent]
        rcases htype with rfl | rfl <;> simp [hnew]
  · next hmissing =>
    have hold : i.status ≠ .active := by
      intro hactive
      apply hmissing
      rw [hname]
      exact Dict.contains_iff.mpr ⟨_, (h.table _ _).mpr ⟨id, i, hi, rfl, hactive, rfl⟩⟩
    exact h.quiet hi hsent (by simp [hnew, hold]) hk

theorem Inv.removed (h : Inv instances s) (hi : s.controller.instances.get? id = some i)
    (hsent : i'.toInstance = i.toInstance) (hold : i.status ≠ .active)
    (hk : ∀ k, m'.instances.get? k = if k = id then none else s.controller.instances.get? k) :
    Inv instances (s.notify (m', [⟨i', .instanceRemoved⟩])) where
  keyed := h.keyed_changed hi (fun j hj => by cases hj) hk
  table := by
    intro job ins
    show s.pusher.instances.get? job = some ins ↔ Announced m' job ins
    rw [h.table]
    unfold Announced
    rw [exists_changed _ hk, exists_at _ hi]
    simp [hold]
  queued := by
    apply queued_put h.queued (Or.inr (Or.inl rfl))
    show Known instances i'.toInstance
    rw [hsent]
    exact (h.keyed id i hi).2
  sent := h.sent
  trusts := h.trusts
  agreed := by
    refine h.agreed_put .del i'.toInstance (Or.inr (Or.inl rfl)) ?_ ?_ ?_ ?_
    · rfl
    · rfl
    · rfl
    · intro k
      rw [active_changed hk rfl, h.id_sent hi hsent]
      simp

/-- **One instance changed.** -/
theorem Inv.changes (h : Inv instances s) (hdistinct : Distinct instances)
    {ns : List Notification} (hchanges : s.controller.Changes id m' ns) :
    Inv instances (s.notify (m', ns)) := by
  cases hchanges with
  | same hsame hns =>
    subst hns
    refine ⟨?_, ?_, h.queued, h.sent, h.trusts, ?_⟩
    · intro k j hj
      exact h.keyed k j (hsame ▸ hj)
    · intro job ins
      rw [show Announced (s.notify (m', [])).controller job ins ↔ Announced s.controller job ins by
        unfold Announced
        rw [show (s.notify (m', [])).controller.instances = s.controller.instances from hsame]]
      exact h.table job ins
    · intro k
      rw [show (s.notify (m', [])).Active k ↔ s.Active k by
        unfold Active
        rw [show (s.notify (m', [])).controller.instances = s.controller.instances from hsame]]
      exact h.agreed k
  | one hi hchange hk =>
    cases hchange with
    | quiet hsent hactive => exact h.quiet hi hsent hactive hk
    | ready hsent hold hnew => exact h.ready hdistinct hi hsent hold hnew hk
    | separated hsent hnew => exact h.withdraw hdistinct hi hsent (by rw [hnew]; decide) (Or.inl rfl) hk
    | paused hsent hnew => exact h.withdraw hdistinct hi hsent (by rw [hnew]; decide) (Or.inr rfl) hk
    | removed hsent hold => exact h.removed hi hsent hold hk

/-! ## The other steps -/

theorem Trusts.mono {more : List Instance} {m : Coordinator.InstanceManager} (h : Trusts instances m) :
    Trusts (instances ++ more) m := by
  obtain ⟨w, hw, hall⟩ := h
  exact ⟨w, hw, fun id v hv => ⟨(hall id v hv).1, (hall id v hv).2.mono⟩⟩

theorem Inv.mono {more : List Instance} (h : Inv instances s) : Inv (instances ++ more) s where
  keyed id i hi := ⟨(h.keyed id i hi).1, (h.keyed id i hi).2.mono⟩
  table := h.table
  queued e he := (h.queued e he).imp_right fun ⟨htype, ins, hins, hknown⟩ =>
    ⟨htype, ins, hins, hknown.mono⟩
  sent msg hmsg := ⟨fun ins hins => ((h.sent msg hmsg).1 ins hins).mono, (h.sent msg hmsg).2⟩
  trusts := h.trusts.mono
  agreed := h.agreed

theorem Inv.addInstance {ins : Instance} (h : Inv instances s)
    (hdistinct : Distinct (instances ++ [ins])) (hstatus : ins.status = .initial)
    (hrole : ∃ role, PDRole.ofString ins.role = some role) :
    Inv (instances ++ [ins]) (s.notify (s.controller.addInstance ins)) := by
  have hfree : s.controller.instances.get? ins.id = none := by
    cases hget : s.controller.instances.get? ins.id with
    | none => rfl
    | some i =>
      -- its id would be that of an earlier instance
      obtain ⟨hid, a, ha, haid, -⟩ := (h.keyed _ i hget).imp_right Known.origin
      have hids := hdistinct.ids
      rw [List.map_append, List.nodup_append] at hids
      exact absurd (haid.trans hid) (hids.2.2 _ (List.mem_map_of_mem ha) _ (by simp))
  obtain ⟨hsent, hkept⟩ := ins.refreshHeartbeats_keeps
  obtain ⟨m', hadd, hget⟩ : ∃ m', s.controller.addInstance ins =
      (m', [⟨ins.refreshHeartbeats, .instanceInitial⟩]) ∧ ∀ k, m'.instances.get? k =
        if k = ins.id then some ins.refreshHeartbeats else s.controller.instances.get? k := by
    unfold InstanceManager.addInstance
    rw [if_neg (by simp [Dict.contains, hfree])]
    refine ⟨_, rfl, fun k => ?_⟩
    simp only [Dict.get?_insert, Instance.toInstance_id hsent, eq_comm]
  have hidle : ins.refreshHeartbeats.status ≠ .active := by
    rw [hkept, hstatus]
    decide
  rw [hadd]
  have h : Inv (instances ++ [ins]) s := h.mono
  refine ⟨?_, ?_, h.queued, h.sent, h.trusts, ?_⟩
  · intro k j hj
    rw [show (s.notify (m', [⟨ins.refreshHeartbeats, .instanceInitial⟩])).controller = m' from rfl,
      hget] at hj
    split at hj
    · next heq =>
      cases hj
      refine ⟨(Instance.toInstance_id hsent).trans heq.symm, ?_, ?_⟩
      · rw [hsent]
        exact ⟨ins, by simp, rfl, rfl, rfl⟩
      · rw [hsent]
        exact hrole
    · exact h.keyed k j hj
  · intro job p
    show s.pusher.instances.get? job = some p ↔ Announced m' job p
    rw [h.table]
    unfold Announced
    rw [exists_changed _ hget]
    constructor
    · rintro ⟨k, j, hj, hP⟩
      refine Or.inr ⟨k, j, ?_, hj, hP⟩
      rintro rfl
      rw [hfree] at hj
      cases hj
    · rintro (⟨j, hj, hP⟩ | ⟨k, j, -, hj, hP⟩)
      · cases hj
        exact absurd hP.2.1 hidle
      · exact ⟨k, j, hj, hP⟩
  · intro k
    rw [active_changed hget rfl]
    show s.willRoute k = true ↔ _
    rw [h.agreed]
    split
    · next heq =>
      subst heq
      simp [Active, hfree, hidle]
    · rfl

theorem Inv.pushSet (h : Inv instances s) : Inv instances { s with pusher := s.pusher.pushSet } where
  keyed := h.keyed
  table := h.table
  queued := by
    intro e he
    rcases List.mem_append.mp he with he | he
    · exact h.queued e he
    · rw [List.mem_singleton.mp he]
      exact Or.inl rfl
  sent := h.sent
  trusts := h.trusts
  agreed := by
    intro k
    have hsettle : ({ s with pusher := s.pusher.pushSet } : Deployment).willRoute k = s.willRoute k := by
      unfold willRoute pending
      simp only [EventPusher.pushSet, List.map_append, ← List.append_assoc]
      exact settle_snoc _ _ _
    rw [hsettle]
    exact h.agreed k

theorem Inv.mem_table (h : Inv instances s) (k : InstanceId) :
    k ∈ s.pusher.instances.values.map (·.id) ↔ s.Active k := by
  constructor
  · intro hk
    obtain ⟨ins, hins, rfl⟩ := List.mem_map.mp hk
    obtain ⟨job, hjob⟩ := Dict.mem_values_iff.mp hins
    obtain ⟨id, i, hi, -, hactive, rfl⟩ := (h.table job ins).mp hjob
    have hid : i.toInstance.id = id := (h.keyed id i hi).1
    exact ⟨i, hid ▸ hi, hactive⟩
  · rintro ⟨i, hi, hactive⟩
    refine List.mem_map.mpr ⟨i.toInstance, Dict.mem_values_iff.mpr ⟨i.jobName, ?_⟩, (h.keyed k i hi).1⟩
    exact (h.table _ _).mpr ⟨k, i, hi, rfl, hactive, rfl⟩

/-- The pusher fills in the message. A `SET` says what is the case now, and the events behind it in
the queue do not contradict it. -/
theorem Inv.consume {e : Event} {rest : List Event} (h : Inv instances s)
    (hqueue : s.pusher.eventQueue = e :: rest) (hinFlight : s.inFlight = none) :
    Inv instances { s with
      pusher := { s.pusher with eventQueue := rest }
      inFlight := s.pusher.eventMsg e } := by
  have he : Queued instances e := h.queued e (by rw [hqueue]; exact List.mem_cons_self)
  have hpending : ∀ k, s.pending k = e.decision k :: rest.map (·.decision k) := by
    intro k
    simp [pending, hinFlight, hqueue]
  -- the decisions of the queue, of which `e` is the first
  have hagreed : ∀ k, settle (rest.map (·.decision k))
      ((e.decision k).getD (s.coordinator.availablePool.contains k)) = true ↔ s.Active k := by
    intro k
    rw [← h.agreed k, willRoute, hpending]
    rfl
  refine ⟨h.keyed, h.table, fun e' he' => h.queued e' ?_, ?_, h.trusts, ?_⟩
  · rw [hqueue]
    exact List.mem_cons_of_mem e he'
  · intro msg hmsg
    simp only [EventPusher.eventMsg] at hmsg
    rcases he with hset | ⟨htype, ins, hins, hknown⟩
    · simp only [hset] at hmsg
      split at hmsg
      · cases hmsg
      · cases hmsg
        refine ⟨fun ins hins => ?_, Or.inl rfl⟩
        obtain ⟨job, hjob⟩ := Dict.mem_values_iff.mp hins
        obtain ⟨id, i, hi, -, -, rfl⟩ := (h.table job ins).mp hjob
        exact (h.keyed id i hi).2
    · rcases htype with ht | ht | ht <;> simp only [ht, hins] at hmsg <;> cases hmsg <;>
        simp [Sent, hknown]
  · intro k
    show settle ((s.pusher.eventMsg e).toList.map (·.decision k) ++ rest.map (·.decision k)) _ = true ↔
      s.Active k
    rw [← hagreed k]
    rcases he with hset | ⟨htype, ins, hins, hknown⟩
    · have hnone : e.decision k = none := by simp [Event.decision, hset]
      rw [hnone]
      simp only [EventPusher.eventMsg, hset]
      split
      · rfl
      · -- the decision that is filled in is the outcome
        have houtcome : decide (k ∈ s.pusher.instances.values.map (·.id)) =
            settle (rest.map (·.decision k)) (s.coordinator.availablePool.contains k) := by
          have := hagreed k
          rw [hnone] at this
          rw [Bool.eq_iff_iff, decide_eq_true_eq, h.mem_table, ← this]
          rfl
        show settle (rest.map (·.decision k)) (decide (k ∈ s.pusher.instances.values.map (·.id))) =
          true ↔ _
        rw [houtcome, settle_outcome]
        rfl
    · -- the message decides what the event did
      have hmsg : s.pusher.eventMsg e = some ⟨e.eventType, [ins]⟩ := by
        rcases htype with ht | ht | ht <;> simp [EventPusher.eventMsg, ht, hins]
      have hdecision : (⟨e.eventType, [ins]⟩ : InsEventMsg).decision k = e.decision k := by
        rcases htype with ht | ht | ht <;> simp [InsEventMsg.decision, Event.decision, ht, hins, eq_comm]
      rw [hmsg, ← hdecision]
      rfl

end Changes

/-! ## Deliveries -/

section Delivery

variable {instances : List Instance} {m : Coordinator.InstanceManager}
  {ins : Coordinator.Instance}

open Coordinator.InstanceManager

theorem forInstances_one {f : Coordinator.InstanceManager → Coordinator.Instance →
    Except Coordinator.PyError Bool × Coordinator.InstanceManager} {r : Bool}
    {m' : Coordinator.InstanceManager} (hf : f m ins = (.ok r, m')) :
    (m.forInstances f [ins]).2 = m' := by
  simp only [Coordinator.InstanceManager.forInstances, hf]

theorem contains_of_roster {m' : Coordinator.InstanceManager} {w w' : Roster} (h : Represents m w)
    (h' : Represents m' w') {k : InstanceId} (hw : w' k = w k) :
    m'.availablePool.contains k = m.availablePool.contains k := by
  rw [Bool.eq_iff_iff, h'.mem_available, h.mem_available, hw]

theorem Trusts.add (h : Trusts instances m) (hdistinct : Distinct instances)
    (hknown : Known instances ins) (hpaused : m.pausedPool.contains ins.id = false) :
    Trusts instances (m.addInstances [ins]).2 ∧ ∀ k, (m.addInstances [ins]).2.availablePool.contains k =
      if k = ins.id then true else m.availablePool.contains k := by
  obtain ⟨w, hw, hall⟩ := h
  obtain ⟨role, hrole⟩ := hknown.role
  have hplace : ∀ v, w ins.id = some v → v.1 = .available ∧ v.2.role = ins.role := by
    intro v hv
    obtain ⟨hplace, hv'⟩ := hall _ v hv
    refine ⟨?_, hv'.role_eq hknown hdistinct (hw.fits _ v hv).keyed⟩
    obtain ⟨p, old⟩ := v
    cases p with
    | available => rfl
    | unavailable => exact absurd rfl hplace
    | paused =>
      rw [hw.mem_paused.mpr ⟨old, hv⟩] at hpaused
      cases hpaused
  have hjob : ∀ k v, w k = some v → v.2.jobName = ins.jobName → k = ins.id := by
    intro k v hv hname
    rw [← (hw.fits k v hv).keyed]
    exact (hall k v hv).2.id_eq hknown hdistinct hname
  obtain ⟨r, m', hadd, hm'⟩ := hw.addInstance_own hrole hplace hjob
  rw [show (m.addInstances [ins]).2 = m' from forInstances_one hadd]
  have hwith : ∀ k v, withInstance w ins k = some v → v.1 ≠ .unavailable ∧ Known instances v.2 := by
    intro k v hv
    rcases withInstance_cases hv with hold | ⟨-, hnew⟩
    · exact hall k v hold
    · rw [hnew]
      exact ⟨Place.noConfusion, hknown.origin, hknown.role⟩
  refine ⟨⟨_, hm', hwith⟩, fun k => ?_⟩
  split
  · next heq =>
    subst heq
    have hself : withInstance w ins ins.id ≠ none := withInstance_self_ne_none
    obtain ⟨v, hv⟩ := Option.ne_none_iff_exists'.mp hself
    refine hm'.mem_available.mpr ⟨v.2, ?_⟩
    rw [hv]
    rcases withInstance_cases hv with hold | ⟨-, hnew⟩
    · rw [← (hplace v hold).1]
    · rw [hnew]
  · next hne => exact contains_of_roster hw hm' (withInstance_ne hne)

theorem Trusts.del (h : Trusts instances m) (ins : Coordinator.Instance) :
    Trusts instances (m.deleteInstances [ins]).2 ∧
      ∀ k, (m.deleteInstances [ins]).2.availablePool.contains k =
        if k = ins.id then false else m.availablePool.contains k := by
  obtain ⟨w, hw, hall⟩ := h
  obtain ⟨r, m', hdel, hm'⟩ := hw.deleteInstance ins
  rw [show (m.deleteInstances [ins]).2 = m' from forInstances_one hdel]
  refine ⟨⟨_, hm', fun k v hv => ?_⟩, fun k => ?_⟩
  · by_cases heq : k = ins.id
    · rw [heq, Function.update_self] at hv
      cases hv
    · rw [Function.update_of_ne heq] at hv
      exact hall k v hv
  · split
    · next heq =>
      rw [← Bool.not_eq_true, hm'.mem_available, heq, Function.update_self]
      simp
    · next hne => exact contains_of_roster hw hm' (Function.update_of_ne hne _ _)

theorem Trusts.pause (h : Trusts instances m) (hknown : Known instances ins) :
    Trusts instances (m.forInstances Coordinator.InstanceManager.pauseInstance [ins]).2 ∧
      ∀ k, (m.forInstances Coordinator.InstanceManager.pauseInstance [ins]).2.availablePool.contains k =
        if k = ins.id then false else m.availablePool.contains k := by
  obtain ⟨w, hw, hall⟩ := h
  obtain ⟨r, m', w', hpause, hm', hother, hself⟩ := hw.pauseInstance_own ins
  rw [forInstances_one hpause]
  refine ⟨⟨w', hm', fun k v hv => ?_⟩, fun k => ?_⟩
  · by_cases heq : k = ins.id
    · subst heq
      rcases (hself v hv).2 with hold | hnew
      · exact hall _ v hold
      · rw [hnew]
        exact ⟨Place.noConfusion, hknown⟩
    · exact hall k v (hother k heq ▸ hv)
  · split
    · next heq =>
      rw [← Bool.not_eq_true, hm'.mem_available, heq]
      rintro ⟨old, hold⟩
      exact (hself _ hold).1 rfl
    · next hne => exact contains_of_roster hw hm' (hother k hne)

theorem Trusts.set {announced : List Coordinator.Instance} (h : Trusts instances m)
    (hdistinct : Distinct instances) (σ : HashOrder InstanceId)
    (hknown : ∀ ins ∈ announced, Known instances ins) :
    Trusts instances (m.setInstances σ announced).2 ∧
      ∀ k, (m.setInstances σ announced).2.availablePool.contains k =
        decide (k ∈ announced.map (·.id)) := by
  obtain ⟨w, hw, hall⟩ := h
  have hmem : ∀ {k new}, (newInstById announced).get? k = some new → new.id = k ∧ new ∈ announced := by
    intro k new hnew
    rcases Dict.of_get?_foldl_insert announced ∅ hnew with hempty | ⟨ins, hins, hid, rfl⟩
    · cases hempty
    · exact ⟨hid, hins⟩
  have hnamed : WellNamed (newInstById announced) :=
    { keyed := fun k new hnew => (hmem hnew).1
      known := fun k new hnew => (hknown new (hmem hnew).2).role
      named := by
        intro k k' new new' hnew hnew' hname
        rw [← (hmem hnew).1, ← (hmem hnew').1]
        exact (hknown new (hmem hnew).2).id_eq (hknown new' (hmem hnew').2) hdistinct hname }
  obtain ⟨r, m', hset, hm'⟩ := hw.setInstances_eq σ hnamed
  have hdrawn := DrawnFrom.setRoster (d := newInstById announced) w
  rw [hset]
  refine ⟨⟨_, hm', fun k v hv => ?_⟩, fun k => ?_⟩
  · obtain ⟨hplace, new, hnew, hname, hrole⟩ := hdrawn k v hv
    obtain ⟨hid, hannounced⟩ := hmem hnew
    obtain ⟨a, ha, haid, haname, harole⟩ := (hknown new hannounced).origin
    refine ⟨by rw [hplace]; decide, ⟨a, ha, ?_, haname.trans hname.symm, harole.trans hrole.symm⟩, ?_⟩
    · rw [haid, hid, (hm'.fits k v hv).keyed]
    · rw [hrole]
      exact (hknown new hannounced).role
  · rw [Bool.eq_iff_iff, hm'.mem_available, decide_eq_true_eq]
    constructor
    · rintro ⟨inst, hinst⟩
      obtain ⟨-, new, hnew, -⟩ := hdrawn k _ hinst
      obtain ⟨hid, hannounced⟩ := hmem hnew
      exact List.mem_map.mpr ⟨new, hannounced, hid⟩
    · intro hk
      have hcontains : (newInstById announced).contains k = true :=
        (Dict.contains_foldl_insert announced ∅).mpr (Or.inr hk)
      obtain ⟨new, hnew⟩ := Dict.contains_iff.mp hcontains
      obtain ⟨v, hv⟩ := Option.ne_none_iff_exists'.mp (setRoster_ne_none (w := w) hnew)
      refine ⟨v.2, ?_⟩
      rw [hv, ← (hdrawn k v hv).1]

end Delivery

/-! ## Runs -/

/-- The role of a new instance is known to the coordinator, and no `ADD` arrives while its instance is
among the paused ones. -/
def KeepsRoutable (s : Deployment) : DeploymentOp → Prop
  | .addInstance ins => (PDRole.ofString ins.role).isSome = true
  | .deliver _ => s.inFlight.all (fun msg => decide (msg.event = .add →
      ∀ ins ∈ msg.instances, s.coordinator.pausedPool.contains ins.id = false)) = true
  | _ => True

instance (s : Deployment) : ∀ op, Decidable (s.KeepsRoutable op)
  | .addInstance _ => inferInstanceAs (Decidable (_ = true))
  | .deliver _ => inferInstanceAs (Decidable (_ = true))
  | .heartbeat _ _ _ => isTrue trivial
  | .heartbeatTimeout _ _ => isTrue trivial
  | .separateInstance _ => isTrue trivial
  | .recoverInstance _ => isTrue trivial
  | .pushSet => isTrue trivial
  | .consume => isTrue trivial

section Runs

variable {instances : List Instance} {s s' : Deployment}

theorem Inv.deliver {msg : InsEventMsg} (h : Inv instances s) (hdistinct : Distinct instances)
    (σ : HashOrder InstanceId) (hinFlight : s.inFlight = some msg)
    (hguard : msg.event = .add → ∀ ins ∈ msg.instances,
      s.coordinator.pausedPool.contains ins.id = false) :
    Inv instances { s with
      inFlight := none
      coordinator := (s.coordinator.refreshInstances σ msg.event msg.instances).2 } := by
  obtain ⟨hknown, hkind⟩ := h.sent msg hinFlight
  have heffect : Trusts instances (s.coordinator.refreshInstances σ msg.event msg.instances).2 ∧
      ∀ k, (s.coordinator.refreshInstances σ msg.event msg.instances).2.availablePool.contains k =
        (msg.decision k).getD (s.coordinator.availablePool.contains k) := by
    rcases hkind with hset | ⟨htype, ins, hins⟩
    · obtain ⟨htrusts, havailable⟩ := h.trusts.set hdistinct σ hknown
      simp only [InsEventMsg.decision, hset]
      exact ⟨htrusts, havailable⟩
    · have hknown' : Known instances ins := hknown ins (by simp [hins])
      have hone : ∀ k (b : Bool), ((if k ∈ msg.instances.map (·.id) then some b else none).getD
          (s.coordinator.availablePool.contains k)) =
            if k = ins.id then b else s.coordinator.availablePool.contains k := by
        intro k b
        simp only [hins, List.map_cons, List.map_nil, List.mem_singleton]
        split <;> rfl
      rcases htype with ht | ht | ht <;> simp only [InsEventMsg.decision, ht, hone] <;> rw [hins]
      · exact h.trusts.add hdistinct hknown' (hguard ht ins (by simp [hins]))
      · exact h.trusts.del ins
      · exact h.trusts.pause hknown'
  refine ⟨h.keyed, h.table, h.queued, ?_, heffect.1, fun k => ?_⟩
  · intro msg' hmsg'
    cases hmsg'
  · refine Iff.trans ?_ (h.agreed k)
    simp only [willRoute, pending, hinFlight, heffect.2]
    rfl

/-- **Every step** keeps the invariant. -/
theorem exec_inv {op : DeploymentOp} (hdistinct : Distinct (instances ++ added [op]))
    (h : Inv instances s) (hguard : s.KeepsRoutable op) (he : s.exec op = some s') :
    Inv (instances ++ added [op]) s' := by
  have hold := hdistinct.of_append
  have hkeyed : ∀ id i, s.controller.instances.get? id = some i → i.id = id :=
    fun id i hi => (h.keyed id i hi).1
  cases op with
  | addInstance ins =>
    simp only [exec, Option.ite_none_right_eq_some, Option.some.injEq] at he
    obtain ⟨hstatus, rfl⟩ := he
    exact h.addInstance hdistinct hstatus (Option.isSome_iff_exists.mp hguard)
  | heartbeat id ip status =>
    cases he
    exact (h.changes hold (s.controller.changes_handleHeartbeat id ip status (hkeyed id))).mono
  | heartbeatTimeout id abnormal =>
    cases he
    exact (h.changes hold (s.controller.changes_handleHeartbeatTimeout id abnormal (hkeyed id))).mono
  | separateInstance id =>
    cases he
    exact (h.changes hold (s.controller.changes_separateInstance id)).mono
  | recoverInstance id =>
    cases he
    have hsame : s.controller.Changes id (s.controller.recoverInstance id) [] :=
      .same (s.controller.recoverInstance_instances id) rfl
    exact (h.changes hold hsame).mono
  | pushSet =>
    cases he
    exact h.pushSet.mono
  | consume =>
    simp only [exec] at he
    split at he
    · next e rest hinFlight hqueue =>
      cases he
      exact (h.consume hqueue hinFlight).mono
    · cases he
  | deliver σ =>
    simp only [exec] at he
    split at he
    · cases he
    · next msg hinFlight =>
      cases he
      simp only [KeepsRoutable, hinFlight, Option.all_some, decide_eq_true_eq] at hguard
      exact (h.deliver hold σ hinFlight hguard).mono

theorem inv_new : Inv [] new where
  keyed id i hi := by cases hi
  table job ins := by simp [Announced, new, InstanceManager.new, EventPusher.new]
  queued e he := by cases he
  sent msg hmsg := by cases hmsg
  trusts := ⟨_, Coordinator.InstanceManager.represents_new, fun id v hv => by cases hv⟩
  agreed id := by
    simp [Active, new, InstanceManager.new, willRoute, pending, EventPusher.new, settle,
      Coordinator.InstanceManager.new, Dict.contains]

/-- **Both sides agree**: when nothing is on its way, the coordinator routes to exactly the instances
that the controller holds active. -/
theorem routable_iff_active {ops : List DeploymentOp} (hrun : Run exec KeepsRoutable new ops s)
    (hdistinct : Distinct (added ops)) (hidle : s.Idle) (id : InstanceId) :
    s.Routable id ↔ s.Active id := by
  have hinv : Distinct (added ops) → Inv (added ops) s := by
    refine hrun.invariant (I := fun ops s => Distinct (added ops) → Inv (added ops) s)
      (fun _ => inv_new) ?_
    intro ops s op s' ih hguard he hdistinct
    rw [added_append] at hdistinct ⊢
    exact exec_inv hdistinct (ih hdistinct.of_append) hguard he
  rw [← (hinv hdistinct).agreed id]
  simp [willRoute, pending, hidle.1, hidle.2, settle, Routable]

end Runs

/-! ## Two runs -/

/-- A hybrid instance of one endpoint. -/
def hybridInstance (id : InstanceId) (jobName ip : String) : Instance where
  jobName := jobName
  modelName := "qwen"
  engineType := some "vllm"
  dispatchCapabilities := []
  id := id
  role := "union"
  status := .initial
  parallelConfig := none
  enableMultiEndpoints := true
  nodeManagers := []
  endpoints := (∅ : Dict String (Dict Coordinator.EndpointId Endpoint)).insert ip
    ((∅ : Dict Coordinator.EndpointId Endpoint).insert 0
      { id := 0, ip := ip, businessPort := "1025", mgmtPort := "1026", bootstrapPort := none,
        deviceInfos := [], workload := .zero, status := .initial, headless := false })
  gatheredWorkload := .zero

/-- A heartbeat of that instance, and its consequences for the coordinator. -/
def report (id : InstanceId) (ip : String) (status : EndpointStatus) : List DeploymentOp :=
  [.heartbeat id ip ((∅ : Dict Coordinator.EndpointId EndpointStatus).insert 0 status), .consume,
    .deliver .insertion]

/-- One instance is paused and then lost, while another one keeps serving. -/
def pausedThenLost : List DeploymentOp :=
  [.addInstance (hybridInstance 1 "job-a" "10.0.0.1"), .addInstance (hybridInstance 2 "job-b" "10.0.0.2")] ++
    report 1 "10.0.0.1" .normal ++ report 2 "10.0.0.2" .normal ++ report 1 "10.0.0.1" .paused ++
    [.heartbeatTimeout 1 true, .pushSet, .consume, .deliver .insertion, .consume, .deliver .insertion]

theorem pausedThenLost_agrees : ∃ s, Run exec KeepsRoutable new pausedThenLost s ∧
    s.Idle ∧ ¬ s.Routable 1 ∧ s.Routable 2 ∧ ∀ id, s.Routable id ↔ s.Active id := by
  have h : (runList exec KeepsRoutable new pausedThenLost).map (fun s =>
      (s.pusher.eventQueue.isEmpty, s.inFlight.isNone, s.coordinator.availablePool.contains 1,
        s.coordinator.availablePool.contains 2)) = some (true, true, false, true) := by decide
  obtain ⟨s, hs, hf⟩ := Option.map_eq_some_iff.mp h
  simp only [Prod.mk.injEq, List.isEmpty_iff, Option.isNone_iff_eq_none] at hf
  obtain ⟨hqueue, hinFlight, hone, htwo⟩ := hf
  refine ⟨s, runList_run hs, ⟨hqueue, hinFlight⟩, by simp [Routable, hone], htwo, ?_⟩
  exact routable_iff_active (runList_run hs) ⟨by decide, by decide⟩ ⟨hqueue, hinFlight⟩

/-- One instance is paused, is normal again, and then fails. -/
def pausedThenAbnormal : List DeploymentOp :=
  [.addInstance (hybridInstance 1 "job-a" "10.0.0.1")] ++ report 1 "10.0.0.1" .normal ++
    report 1 "10.0.0.1" .paused ++ report 1 "10.0.0.1" .normal ++ report 1 "10.0.0.1" .abnormal

/-- The `DEL` removes the entry among the paused instances and leaves the other: the coordinator
routes to an instance that is not active, and nothing is on its way. -/
theorem abnormal_instance_stays_routable : ∃ s, Run exec Free new pausedThenAbnormal s ∧
    Distinct (added pausedThenAbnormal) ∧ s.Idle ∧ s.Routable 1 ∧ ¬ s.Active 1 := by
  have h : (runList exec Free new pausedThenAbnormal).map (fun s =>
      (s.pusher.eventQueue.isEmpty, s.inFlight.isNone, s.coordinator.availablePool.contains 1,
        (s.controller.instances.get? 1).map (·.status))) =
          some (true, true, true, some .inactive) := by decide
  obtain ⟨s, hs, hf⟩ := Option.map_eq_some_iff.mp h
  simp only [Prod.mk.injEq, List.isEmpty_iff, Option.isNone_iff_eq_none] at hf
  obtain ⟨hqueue, hinFlight, hone, hstatus⟩ := hf
  refine ⟨s, runList_run hs, ⟨by decide, by decide⟩, ⟨hqueue, hinFlight⟩, hone, ?_⟩
  rintro ⟨i, hi, hactive⟩
  simp [hi, hactive] at hstatus

end Deployment

end PyMotor.Controller
