import PyMotor.Coordinator.Membership

/-!
# What the events do to the membership

Membership is which id is available under which role. The scheduler announces a change of it by
counting up its version, and an addition or removal by a patch. Both hold if the event does what it
says: `Announces` excludes an addition that also removes an older instance of the same job, one that
meets a paused instance or the pool of another role, and an unknown role, which raises after other
instances of the event have been moved.
-/

namespace PyMotor.Coordinator

/-- The change that a publication asks a worker to make. -/
def InstanceDelta.patch (delta : InstanceDelta) : SetPatch (PDRole × InstanceId) :=
  match delta.event with
  | .add => .sequence (delta.instances.map InstanceCache.addPatch)
  | .del => .sequence (delta.instances.map InstanceCache.removePatch)

namespace InstanceManager

variable {m m' : InstanceManager} {w : Roster} {inst : Instance} {id : InstanceId}
  {instances : List Instance}

/-- The available ids, each with its role. -/
def members (m : InstanceManager) : Set (PDRole × InstanceId) :=
  {k | (m.rolePools k.1).contains k.2 = true}

theorem Represents.mem_members (h : Represents m w) {k : PDRole × InstanceId} :
    k ∈ m.members ↔ ∃ inst, w k.2 = some (.available, inst) ∧ PDRole.ofString inst.role = some k.1 := by
  show (m.rolePools k.1).contains k.2 = true ↔ _
  rw [(h.filed k.1).contains_iff]
  simp only [bind_filedUnder_eq_some]

/-! ## Answers -/

theorem roleOfAnswer_of_ofString {s : String} {role : PDRole} (h : PDRole.ofString s = some role) :
    SchedulerClient.roleOfAnswer s = some role := by
  unfold PDRole.ofString at h
  unfold SchedulerClient.roleOfAnswer
  grind

theorem Represents.keyed_rolePools (h : Represents m w) (role : PDRole) :
    InstanceCache.Keyed (m.rolePools role) := by
  intro id inst hget
  exact (h.fits id _ (h.get?_rolePools.mp hget).1).keyed

theorem Represents.get?_merged (h : Represents m w) :
    (m.getAvailableInstances none).get? id = some inst ↔ w id = some (.available, inst) := by
  have hentry : ∀ p ∈ PDRole.all.flatMap fun role => (m.rolePools role).entries,
      w p.1 = some (.available, p.2) := by
    intro p hp
    obtain ⟨role, -, hp⟩ := List.mem_flatMap.mp hp
    exact (h.get?_rolePools.mp (Dict.mem_entries_iff.mp hp)).1
  constructor
  · intro hget
    rcases Dict.of_get?_foldl_insert _ ∅ hget with hempty | ⟨p, hp, rfl, rfl⟩
    · cases hempty
    · exact hentry p hp
  · intro hw
    apply Dict.get?_foldl_insert
    · intro p hp hid
      have hp := hentry p hp
      rw [hid, hw] at hp
      cases hp
      rfl
    · obtain ⟨role, hrole⟩ := (h.fits id _ hw).known rfl
      refine Or.inr ⟨(id, inst), List.mem_flatMap.mpr ⟨role, role.mem_all, ?_⟩, rfl⟩
      exact Dict.mem_entries_iff.mpr (h.get?_rolePools.mpr ⟨hw, hrole⟩)

/-- **An answer** has, for every role it is about, the ids that are available under it. -/
theorem Represents.mem_sharedOut (h : Represents m w) {asked : Option PDRole} {role : PDRole}
    (hrole : role ∈ SchedulerClient.answeredRoles asked) :
    id ∈ (SchedulerClient.sharedOut asked (m.getAvailableInstances asked).values role).map (·.id) ↔
      (role, id) ∈ m.members := by
  cases asked with
  | some asked =>
    obtain rfl := List.mem_singleton.mp hrole
    simp only [SchedulerClient.sharedOut]
    rw [mem_ids_sortById, (InstanceCache.keyed_newInstById _).mem_values,
      InstanceCache.contains_newInstById]
    exact (h.keyed_rolePools role).mem_values
  | none =>
    have hkeyed : InstanceCache.Keyed (m.getAvailableInstances none) := by
      intro id inst hget
      exact (h.fits id _ (h.get?_merged.mp hget)).keyed
    simp only [SchedulerClient.sharedOut]
    rw [mem_ids_sortById, h.mem_members, List.mem_map]
    constructor
    · intro ⟨inst, hinst, hid⟩
      rw [List.mem_filter, decide_eq_true_eq] at hinst
      obtain ⟨id', hget⟩ := Dict.mem_values_iff.mp hinst.1
      rw [hkeyed.get?_newInstById] at hget
      rw [hkeyed id' inst hget] at hid
      subst hid
      have hw := h.get?_merged.mp hget
      obtain ⟨role', hrole'⟩ := (h.fits id' _ hw).known rfl
      rw [roleOfAnswer_of_ofString hrole', Option.some.injEq] at hinst
      exact ⟨inst, hw, hinst.2 ▸ hrole'⟩
    · intro ⟨inst, hw, hofString⟩
      refine ⟨inst, ?_, (h.fits id _ hw).keyed⟩
      rw [List.mem_filter, decide_eq_true_eq]
      refine ⟨Dict.mem_values_iff.mpr ⟨id, ?_⟩, roleOfAnswer_of_ofString hofString⟩
      rw [hkeyed.get?_newInstById]
      exact h.get?_merged.mpr hw

/-! ## Events -/

/-- The addition does nothing but file the instance under its role, if it is not there. -/
structure TakesUp (m : InstanceManager) (inst : Instance) : Prop where
  known : (PDRole.ofString inst.role).isSome = true
  present : m.unavailablePool.contains inst.id = false
  fresh : m.AddsFresh inst
  single : ∀ existing ∈ m.findInstanceByJobName inst.jobName, existing.id = inst.id

instance (m : InstanceManager) (inst : Instance) : Decidable (m.TakesUp inst) :=
  decidable_of_iff
    ((PDRole.ofString inst.role).isSome = true ∧ m.unavailablePool.contains inst.id = false ∧
      m.AddsFresh inst ∧ ∀ existing ∈ m.findInstanceByJobName inst.jobName, existing.id = inst.id)
    ⟨fun ⟨h₁, h₂, h₃, h₄⟩ => ⟨h₁, h₂, h₃, h₄⟩, fun ⟨h₁, h₂, h₃, h₄⟩ => ⟨h₁, h₂, h₃, h₄⟩⟩

/-- The event does to the membership what it says. -/
def Announces (m : InstanceManager) (instances : List Instance) : EventType → Prop
  | .add => Along InstanceManager.addInstance TakesUp m instances
  | .del => True
  | .set => ∀ inst ∈ instances, (PDRole.ofString inst.role).isSome = true
  | .pause => True
  | .resume => ∀ inst ∈ instances, (PDRole.ofString inst.role).isSome = true

instance (m : InstanceManager) (instances : List Instance) :
    ∀ eventType, Decidable (m.Announces instances eventType)
  | .add => inferInstanceAs (Decidable (Along InstanceManager.addInstance TakesUp m instances))
  | .del => isTrue trivial
  | .set =>
    inferInstanceAs (Decidable (∀ inst ∈ instances, (PDRole.ofString inst.role).isSome = true))
  | .pause => isTrue trivial
  | .resume =>
    inferInstanceAs (Decidable (∀ inst ∈ instances, (PDRole.ofString inst.role).isSome = true))

theorem Along.imp {f : InstanceManager → Instance → Except PyError Bool × InstanceManager}
    {G G' : InstanceManager → Instance → Prop} (himp : ∀ {m inst}, G m inst → G' m inst) :
    ∀ {instances m}, Along f G m instances → Along f G' m instances
  | [], _, _ => trivial
  | _ :: _, _, h => ⟨himp h.1, Along.imp himp h.2⟩

theorem keepsPools_of_announces {σ : HashOrder InstanceId} {eventType : EventType}
    (h : m.Announces instances eventType) : m.KeepsPools (.refresh σ eventType instances) := by
  cases eventType with
  | add => exact Along.imp TakesUp.fresh h
  | _ => trivial

theorem TakesUp.addInstance_eq (h : m.TakesUp inst) :
    m.addInstance inst = m.addInstanceToAvailablePool inst.resetWorkload := by
  have hstale : m.removeStaleInstance inst = (.ok false, m) := by
    unfold removeStaleInstance
    split
    · rfl
    · next existing hfind => exact if_pos (h.single existing hfind)
  unfold addInstance
  rw [h.present, hstale]
  rfl

/-- An available id that is taken up is available under the role it is announced with. -/
theorem TakesUp.role_eq (h : m.TakesUp inst) (hm : Represents m w) {role : PDRole}
    (hrole : PDRole.ofString inst.role = some role) {k : PDRole × InstanceId} (hk : k ∈ m.members)
    (hid : k.2 = inst.id) : k.1 = role := by
  obtain ⟨old, hw, hold⟩ := hm.mem_members.mp hk
  rw [hid] at hw
  have hget := hm.get?_availablePool.mpr hw
  rcases h.fresh with hun | hunknown | ⟨-, hsame⟩
  · rw [h.present] at hun
    cases hun
  · rw [hrole] at hunknown
    cases hunknown
  · rw [hget] at hsame
    have hsame : PDRole.ofString old.role = PDRole.ofString inst.role := of_decide_eq_true hsame
    rw [hold, hrole] at hsame
    exact Option.some.inj hsame

/-- **One addition** makes the change that is published for it. -/
theorem TakesUp.addInstance_members (h : m.TakesUp inst) (hm : Represents m w) :
    (m.addInstance inst).2.members = (InstanceCache.addPatch inst).apply m.members := by
  obtain ⟨role, hrole⟩ := Option.isSome_iff_exists.mp h.known
  rw [h.addInstance_eq]
  unfold addInstanceToAvailablePool
  rw [show inst.resetWorkload.role = inst.role from rfl, hrole]
  simp only
  have hpatch : ∀ k, k ∈ (InstanceCache.addPatch inst).apply m.members ↔
      (k.2 = inst.id ∧ k.1 = role) ∨ (k.2 ≠ inst.id ∧ k ∈ m.members) := by
    intro k
    rw [InstanceCache.addPatch, SetPatch.mem_overwrite]
    simp [PDRole.ofLooseString_of_ofString hrole, eq_comm]
  split
  · next hin =>
    ext k
    rw [hpatch]
    constructor
    · intro hk
      by_cases hid : k.2 = inst.id
      · exact Or.inl ⟨hid, h.role_eq hm hrole hk hid⟩
      · exact Or.inr ⟨hid, hk⟩
    · intro hk
      rcases hk with ⟨hid, heq⟩ | ⟨-, hk⟩
      · show (m.rolePools k.1).contains k.2 = true
        rw [hid, heq]
        exact hin
      · exact hk
  · ext k
    rw [hpatch]
    show (Function.update m.rolePools role _ k.1).contains k.2 = true ↔ _
    by_cases heq : k.1 = role
    · rw [heq, Function.update_self, Dict.contains_insert]
      show k.2 = inst.id ∨ (m.rolePools role).contains k.2 = true ↔ _
      have hk : k ∈ m.members ↔ (m.rolePools role).contains k.2 = true := by
        rw [← heq]
        rfl
      rw [hk]
      grind
    · rw [Function.update_of_ne heq]
      show k ∈ m.members ↔ _
      constructor
      · intro hk
        exact Or.inr ⟨fun hid => heq (h.role_eq hm hrole hk hid), hk⟩
      · intro hk
        rcases hk with ⟨-, hk⟩ | ⟨-, hk⟩
        · exact absurd hk heq
        · exact hk

/-! ### What raises -/

theorem addToAvailable_returns (hknown : (PDRole.ofString inst.role).isSome = true) :
    ∃ r, (m.addInstanceToAvailablePool inst).1 = .ok r := by
  obtain ⟨role, hrole⟩ := Option.isSome_iff_exists.mp hknown
  unfold addInstanceToAvailablePool
  rw [hrole]
  simp only
  split
  · exact ⟨false, rfl⟩
  · exact ⟨true, rfl⟩

theorem Represents.addInstance_returns (h : Represents m w)
    (hknown : (PDRole.ofString inst.role).isSome = true) : ∃ r, (m.addInstance inst).1 = .ok r := by
  obtain ⟨r, m₁, w₁, hstale, -⟩ := h.removeStaleInstance inst
  unfold InstanceManager.addInstance
  rw [hstale]
  split
  · exact ⟨false, rfl⟩
  · exact addToAvailable_returns hknown

theorem Represents.pauseInstance_returns (h : Represents m w) (inst : Instance) :
    ∃ r, (m.pauseInstance inst).1 = .ok r := by
  unfold InstanceManager.pauseInstance
  split
  · exact ⟨false, rfl⟩
  · split
    · exact ⟨false, rfl⟩
    · next hin =>
      obtain ⟨old, hw⟩ := h.mem_available.mp (by simpa using hin)
      obtain ⟨m₁, hdel, -⟩ := h.deleteAvailable hw
      rw [hdel]
      exact ⟨true, rfl⟩

theorem resumeInstance_returns (hknown : (PDRole.ofString inst.role).isSome = true) :
    ∃ r, (m.resumeInstance inst).1 = .ok r := by
  unfold InstanceManager.resumeInstance
  split
  · exact ⟨false, rfl⟩
  · exact addToAvailable_returns hknown

/-! ### What changes in silence -/

theorem addToAvailable_honest (h : m.addInstanceToAvailablePool inst = (.ok false, m')) :
    m'.rolePools = m.rolePools := by
  unfold addInstanceToAvailablePool at h
  split at h
  · cases h
  · split at h
    · cases h
      rfl
    · cases h

theorem deleteFromAvailable_honest (h : m.deleteInstanceFromAvailablePool id = (.ok false, m')) :
    m' = m := by
  unfold deleteInstanceFromAvailablePool at h
  split at h
  · cases h
    rfl
  · split at h
    · cases h
    · split at h <;> cases h

theorem deleteInstance_honest (h : m.deleteInstance inst = (.ok false, m')) : m' = m := by
  unfold deleteInstance at h
  split at h
  · cases h
  · split at h
    · cases h
    · exact deleteFromAvailable_honest h

theorem pauseInstance_honest (h : m.pauseInstance inst = (.ok false, m')) : m' = m := by
  unfold pauseInstance at h
  split at h
  · cases h
    rfl
  · split at h
    · cases h
      rfl
    · split at h
      · cases h
      · next hdel =>
        rw [h] at hdel
        exact deleteFromAvailable_honest hdel

theorem resumeInstance_honest (h : m.resumeInstance inst = (.ok false, m')) :
    m'.rolePools = m.rolePools := by
  unfold resumeInstance at h
  split at h
  · cases h
    rfl
  · show m'.rolePools = { m with pausedPool := m.pausedPool.erase inst.id }.rolePools
    exact addToAvailable_honest h

theorem setInstances_honest {σ : HashOrder InstanceId}
    (h : m.setInstances σ instances = (.ok false, m')) : m' = m := by
  unfold setInstances at h
  simp only at h
  split at h
  · cases h
    rfl
  · split at h
    · cases h
    · next m₁ _ =>
      rw [Prod.mk.injEq] at h
      cases hadd : (m₁.addInstances (m.computeSetDiff σ instances).1).1 with
      | error err =>
        rw [hadd] at h
        cases h.1
      | ok r =>
        rw [hadd] at h
        cases h.1

section Loop

variable {f : InstanceManager → Instance → Except PyError Bool × InstanceManager}
  {G : InstanceManager → Instance → Prop}

theorem forInstances_cons {r : Bool} (h : f m inst = (.ok r, m')) :
    m.forInstances f (inst :: instances) =
      ((m'.forInstances f instances).1.map (r || ·), (m'.forInstances f instances).2) := by
  rw [forInstances, h]

theorem forInstances_returns
    (hkeep : ∀ {m w inst}, Represents m w → G m inst →
      ∃ r m' w', f m inst = (r, m') ∧ Represents m' w')
    (hreturns : ∀ {m w inst}, Represents m w → G m inst → ∃ r, (f m inst).1 = .ok r)
    (instances : List Instance) :
    ∀ {m w}, Represents m w → Along f G m instances →
      ∃ r, (m.forInstances f instances).1 = .ok r := by
  induction instances with
  | nil => exact fun _ _ => ⟨false, rfl⟩
  | cons inst instances ih =>
    intro m w h halong
    obtain ⟨x, m₁, w₁, hstep, h₁⟩ := hkeep h halong.1
    obtain ⟨r, hr⟩ := hreturns h halong.1
    have hrest := halong.2
    rw [hstep] at hr hrest
    subst hr
    obtain ⟨r', hr'⟩ := ih h₁ hrest
    refine ⟨r || r', ?_⟩
    rw [forInstances_cons hstep, hr']
    rfl

theorem forInstances_honest
    (hf : ∀ {m m' inst}, G m inst → f m inst = (.ok false, m') → m'.rolePools = m.rolePools)
    (instances : List Instance) :
    ∀ {m m'}, Along f G m instances → m.forInstances f instances = (.ok false, m') →
      m'.rolePools = m.rolePools := by
  induction instances with
  | nil =>
    intro m m' _ h
    cases h
    rfl
  | cons inst instances ih =>
    intro m m' halong h
    cases hstep : f m inst with
    | mk r m₁ =>
      have hrest := halong.2
      rw [hstep] at hrest
      cases r with
      | error err =>
        rw [forInstances, hstep] at h
        cases h
      | ok r =>
        rw [forInstances_cons hstep] at h
        cases hloop : m₁.forInstances f instances with
        | mk r' m₂ =>
          rw [hloop, Prod.mk.injEq] at h
          obtain ⟨hr, rfl⟩ := h
          cases r' with
          | error err => cases hr
          | ok r' =>
            have hor : (r || r') = false := Except.ok.inj hr
            rw [Bool.or_eq_false_iff] at hor
            rw [hor.1] at hstep
            rw [hor.2] at hloop
            exact (ih hrest hloop).trans (hf halong.1 hstep)

theorem Along.and_mem {P : Instance → Prop} :
    ∀ {instances m}, Along f G m instances → (∀ inst ∈ instances, P inst) →
      Along f (fun m inst => G m inst ∧ P inst) m instances
  | [], _, _, _ => trivial
  | inst :: _, _, h, hP =>
    ⟨⟨h.1, hP inst List.mem_cons_self⟩,
      Along.and_mem h.2 fun inst' hmem => hP inst' (List.mem_cons_of_mem inst hmem)⟩

end Loop

/-! ### What the scheduler announces -/

section Announced

variable {σ : HashOrder InstanceId} {eventType : EventType}

theorem mem_of_mem_computeSetDiff (h : inst ∈ (m.computeSetDiff σ instances).1) :
    inst ∈ instances := by
  obtain ⟨id, -, hget⟩ := List.mem_filterMap.mp h
  rcases Dict.of_get?_foldl_insert instances ∅ hget with hempty | ⟨inst', hmem, -, rfl⟩
  · cases hempty
  · exact hmem

theorem Represents.setInstances_returns (h : Represents m w)
    (hknown : ∀ inst ∈ instances, (PDRole.ofString inst.role).isSome = true) :
    ∃ r, (m.setInstances σ instances).1 = .ok r := by
  obtain ⟨r, m₁, w₁, hdel, h₁, halong⟩ := h.setDiff_along σ instances
  unfold InstanceManager.setInstances
  simp only
  split
  · exact ⟨false, rfl⟩
  · rw [hdel]
    simp only
    obtain ⟨r', hr'⟩ := forInstances_returns (fun hm hG => hm.addInstance_keeps hG.1)
      (fun hm hG => hm.addInstance_returns hG.2) _ h₁
      (halong.and_mem fun inst hinst => hknown inst (mem_of_mem_computeSetDiff hinst))
    refine ⟨true, ?_⟩
    rw [InstanceManager.addInstances, hr']
    rfl

/-- **An event does not raise.** -/
theorem Represents.refreshInstances_returns (h : Represents m w)
    (ha : m.Announces instances eventType) :
    ∃ r, (m.refreshInstances σ eventType instances).1 = .ok r := by
  cases eventType with
  | add =>
    exact forInstances_returns (fun hm hG => hm.addInstance_keeps hG.fresh)
      (fun hm hG => hm.addInstance_returns hG.known) instances h ha
  | del =>
    obtain ⟨r, m', hdel, -⟩ := Represents.deleteInstances instances h
    exact ⟨r, congrArg Prod.fst hdel⟩
  | set => exact h.setInstances_returns ha
  | pause =>
    exact forInstances_returns (fun hm _ => hm.pauseInstance _)
      (fun hm _ => hm.pauseInstance_returns _) instances h (along_true instances m)
  | resume =>
    exact forInstances_returns (fun hm _ => hm.resumeInstance _)
      (fun _ hG => resumeInstance_returns hG.2) instances h ((along_true instances m).and_mem ha)

/-- **An event that reports no change** leaves the membership as it is. -/
theorem refreshInstances_honest (ha : m.Announces instances eventType)
    (h : m.refreshInstances σ eventType instances = (.ok false, m')) :
    m'.rolePools = m.rolePools := by
  cases eventType with
  | add =>
    refine forInstances_honest (fun hG hstep => ?_) instances ha h
    rw [TakesUp.addInstance_eq hG] at hstep
    exact addToAvailable_honest hstep
  | del =>
    refine forInstances_honest (fun _ hstep => ?_) instances (along_true instances m) h
    rw [deleteInstance_honest hstep]
  | set => rw [setInstances_honest h]
  | pause =>
    refine forInstances_honest (fun _ hstep => ?_) instances (along_true instances m) h
    rw [pauseInstance_honest hstep]
  | resume =>
    exact forInstances_honest (fun _ hstep => resumeInstance_honest hstep) instances
      (along_true instances m) h

theorem addInstances_members (instances : List Instance) :
    ∀ {m w}, Represents m w → Along InstanceManager.addInstance TakesUp m instances →
      (m.addInstances instances).2.members =
        (SetPatch.sequence (instances.map InstanceCache.addPatch)).apply m.members := by
  induction instances with
  | nil => exact fun _ _ => rfl
  | cons inst instances ih =>
    intro m w h halong
    obtain ⟨x, m₁, w₁, hstep, h₁⟩ := h.addInstance_keeps halong.1.fresh
    obtain ⟨r, hr⟩ := h.addInstance_returns halong.1.known
    have hfirst := halong.1.addInstance_members h
    have hrest := halong.2
    rw [hstep] at hr hfirst hrest
    subst hr
    rw [addInstances, forInstances_cons hstep]
    show (m₁.addInstances instances).2.members = _
    rw [ih h₁ hrest, hfirst]
    rfl

theorem mem_removePatches {M : Set (PDRole × InstanceId)} {k : PDRole × InstanceId}
    (instances : List Instance) :
    k ∈ (SetPatch.sequence (instances.map InstanceCache.removePatch)).apply M ↔
      k ∈ M ∧ k.2 ∉ instances.map (·.id) := by
  induction instances generalizing M with
  | nil => simp
  | cons inst instances ih =>
    rw [List.map_cons, SetPatch.sequence_cons, ih, InstanceCache.removePatch, SetPatch.mem_overwrite]
    simp only [List.map_cons, List.mem_cons]
    grind

/-- **An addition or removal** makes the change that is published for it. -/
theorem Represents.refreshInstances_members (h : Represents m w)
    (ha : m.Announces instances eventType) {delta : InstanceDelta}
    (hdelta : SchedulerServer.buildInstanceDelta eventType instances = some delta) :
    (m.refreshInstances σ eventType instances).2.members = delta.patch.apply m.members := by
  unfold SchedulerServer.buildInstanceDelta at hdelta
  split at hdelta
  · cases hdelta
  · cases eventType with
    | add =>
      cases hdelta
      exact addInstances_members instances h ha
    | del =>
      cases hdelta
      obtain ⟨r, m', hdel, hm'⟩ := Represents.deleteInstances instances h
      show (m.deleteInstances instances).2.members = _
      rw [hdel]
      ext k
      rw [InstanceDelta.patch, mem_removePatches, hm'.mem_members, h.mem_members]
      by_cases hmem : k.2 ∈ instances.map (·.id)
      · simp [hmem]
      · simp [hmem]
    | set => cases hdelta
    | pause => cases hdelta
    | resume => cases hdelta

end Announced

end InstanceManager

end PyMotor.Coordinator
