import PyMotor.Coordinator.InstanceCache.Representation

/-!
# Steps of the instance cache

A worker replaces a role, adds, removes, and stores full answers, in any order. An addition and a
removal go through all roles before they insert anything, and keep the cache faithful
(`SchedulerInstanceCache.Faithful`). The replacement of one role does not look at the others, and a
full answer is four such replacements.

`faithful_along_iff` says exactly which steps keep the cache faithful.
-/

namespace PyMotor.Coordinator

/-! ## Sorted lists -/

namespace InstanceCache

variable {c : InstanceCache}

theorem Sorted.setRole (h : c.Sorted) (role : PDRole) (roleMap : Dict InstanceId Instance) :
    (c.setRole role roleMap).Sorted := by
  intro role'
  unfold InstanceCache.setRole
  by_cases hrole : role' = role
  · subst hrole
    simp
  · simpa [hrole] using h role'

theorem Sorted.drop (h : c.Sorted) (id : InstanceId) : (c.drop id).Sorted := by
  unfold InstanceCache.drop
  induction PDRole.all generalizing c with
  | nil => exact h
  | cons role roles ih =>
    rw [List.foldl_cons]
    apply ih
    unfold dropFromRole
    split
    · exact h.setRole role _
    · exact h

theorem Sorted.upsert (h : c.Sorted) (inst : Instance) (role : PDRole) : (c.upsert inst role).Sorted :=
  (h.drop inst.id).setRole role _

theorem Sorted.replaceAll_iff (h : c.Sorted) {role : PDRole} {instances : List Instance} :
    (c.replaceAll role instances).Sorted ↔ (instances.map (·.id)).Pairwise (· < ·) := by
  rw [← SchedulerInstanceCache.eq_sortById_newInstById_iff]
  constructor
  · intro h'
    simpa [InstanceCache.replaceAll] using h' role
  · intro heq role'
    by_cases hrole : role' = role
    · subst hrole
      simpa [InstanceCache.replaceAll] using heq
    · simpa [InstanceCache.replaceAll, hrole] using h role'

end InstanceCache

/-! ## Steps -/

namespace SchedulerInstanceCache

inductive Step where
  | replaceAll (role : PDRole) (instances : List Instance)
  | applyAdd (instances : List Instance)
  | applyRemove (instances : List Instance)
  | storeFullAnswer (answer : List Instance)

/-- An addition that is refused changes nothing. -/
def exec (c : SchedulerInstanceCache) : Step → SchedulerInstanceCache
  | .replaceAll role instances => c.replaceAll role instances
  | .applyAdd instances => (c.applyAdd instances).getD c
  | .applyRemove instances => c.applyRemove instances
  | .storeFullAnswer answer => c.storeFullAnswer answer

/-- The steps that keep a cache faithful. -/
def Meets (c : SchedulerInstanceCache) : Step → Prop
  -- the ids ascend, as at the call sites, and no other role has one of them
  | .replaceAll role instances =>
    (instances.map (·.id)).Pairwise (· < ·) ∧ ∀ inst ∈ instances, inst.DistinctEndpoints ∧
      ∀ role', role' ≠ role → inst.id ∉ (c.instanceCache role').map (·.id)
  | .applyAdd instances =>
    (∀ inst ∈ instances, (PDRole.ofLooseString inst.role).isSome) →
      ∀ inst ∈ (InstanceManager.newInstById instances).values, inst.DistinctEndpoints
  | .applyRemove _ => True
  -- nothing with endpoints moves to an earlier role
  | .storeFullAnswer answer =>
    ∀ role, ∀ inst ∈ SchedulerClient.sharedOut none answer role, inst.DistinctEndpoints ∧
      (inst.allEndpoints = [] ∨ ∀ role', role.position < role'.position →
        inst.id ∉ (c.instanceCache role').map (·.id))

variable {c : SchedulerInstanceCache}

/-! ## Replacements -/

theorem not_mem_ids_iff (hkeyed : c.Keyed) (hsorted : c.Sorted) {role : PDRole} {id : InstanceId} :
    id ∉ (c.instanceCache role).map (·.id) ↔ (c.slot id).cached role = none := by
  rw [mem_ids_instanceCache_iff hkeyed hsorted, Option.not_isSome_iff_eq_none]

theorem Faithful.replaceAll_iff (hwf : c.toInstanceCache.WF) (h : c.Faithful) {role : PDRole}
    {instances : List Instance} :
    (c.replaceAll role instances).Faithful ↔ Meets c (.replaceAll role instances) := by
  have hkeyed' : (c.applyRoleUnderLock role instances).Keyed := (hwf.replaceAll role instances).keyed
  obtain ⟨hsorted, hslot⟩ := (faithful_iff hwf.keyed).mp h
  have hsorted' : (c.applyRoleUnderLock role instances).Sorted ↔
      (instances.map (·.id)).Pairwise (· < ·) := hsorted.replaceAll_iff
  rw [replaceAll, faithful_iff hkeyed', hsorted', Meets]
  refine and_congr_right fun hpairwise => ?_
  have hnd : (instances.map (·.id)).Nodup := hpairwise.imp fun hlt => ne_of_lt hlt
  constructor
  · intro hslot' inst hinst
    have hfaithful := hslot' inst.id
    rw [slot_applyRoleUnderLock c role hnd, (InstanceManager.get?_newInstById_iff hnd).mpr ⟨hinst, rfl⟩,
      (hslot inst.id).replace_some_iff] at hfaithful
    refine ⟨hfaithful.1, fun role' hne => ?_⟩
    rw [not_mem_ids_iff hwf.keyed hsorted]
    exact hfaithful.2 role' hne
  · intro hgood id
    rw [slot_applyRoleUnderLock c role hnd]
    cases hget : (InstanceManager.newInstById instances).get? id with
    | none => exact (hslot id).replace_none role
    | some inst =>
      obtain ⟨hinst, rfl⟩ := (InstanceManager.get?_newInstById_iff hnd).mp hget
      obtain ⟨hdistinct, hothers⟩ := hgood inst hinst
      rw [(hslot inst.id).replace_some_iff]
      refine ⟨hdistinct, fun role' hne => ?_⟩
      rw [← not_mem_ids_iff hwf.keyed hsorted]
      exact hothers role' hne

/-! ## Full answers -/

theorem mem_sharedOut_iff {answer : List Instance} {role : PDRole} {inst : Instance} :
    inst ∈ SchedulerClient.sharedOut none answer role ↔
      (InstanceManager.newInstById answer).get? inst.id = some inst ∧
        SchedulerClient.roleOfAnswer inst.role = some role := by
  rw [SchedulerClient.sharedOut, sortById, (List.perm_insertionSort _ _).mem_iff, List.mem_filter,
    Dict.mem_values_iff, decide_eq_true_iff]
  refine and_congr_left fun _ => ?_
  constructor
  · rintro ⟨id, hget⟩
    rwa [← InstanceManager.newInstById_keyed hget] at hget
  · exact fun hget => ⟨inst.id, hget⟩

theorem pairwise_sharedOut (answer : List Instance) (role : PDRole) :
    ((SchedulerClient.sharedOut none answer role).map (·.id)).Pairwise (· < ·) := by
  have hids : ((SchedulerClient.sharedOut none answer role).map (·.id)).Nodup := by
    rw [SchedulerClient.sharedOut, sortById, ((List.perm_insertionSort _ _).map _).nodup_iff]
    exact (InstanceCache.keyed_newInstById answer).nodup_ids.sublist
      (List.filter_sublist.map _)
  have hle : ((SchedulerClient.sharedOut none answer role).map (·.id)).Pairwise (· ≤ ·) := by
    rw [List.pairwise_map]
    exact pairwise_sortById _
  exact hle.imp₂ (fun _ _ hle hne => lt_of_le_of_ne hle hne) hids

/-- The instance that an answer lists under a role, by its id. -/
def listedBy (answer : List Instance) (id : InstanceId) (role : PDRole) : Option Instance :=
  (InstanceManager.newInstById (SchedulerClient.sharedOut none answer role)).get? id

theorem listedBy_eq_some_iff {answer : List Instance} {id : InstanceId} {role : PDRole}
    {inst : Instance} :
    listedBy answer id role = some inst ↔
      inst ∈ SchedulerClient.sharedOut none answer role ∧ inst.id = id :=
  InstanceManager.get?_newInstById_iff ((pairwise_sharedOut answer role).imp fun hlt => ne_of_lt hlt)

/-- An answer lists an id under one role. -/
theorem listedBy_exclusive (answer : List Instance) (id : InstanceId) (role role' : PDRole)
    (h : (listedBy answer id role).isSome) (h' : (listedBy answer id role').isSome) : role' = role := by
  obtain ⟨inst, hinst⟩ := Option.isSome_iff_exists.mp h
  obtain ⟨inst', hinst'⟩ := Option.isSome_iff_exists.mp h'
  obtain ⟨hmem, hid⟩ := listedBy_eq_some_iff.mp hinst
  obtain ⟨hmem', hid'⟩ := listedBy_eq_some_iff.mp hinst'
  obtain ⟨hget, hrole⟩ := mem_sharedOut_iff.mp hmem
  obtain ⟨hget', hrole'⟩ := mem_sharedOut_iff.mp hmem'
  rw [hid] at hget
  rw [hid', hget] at hget'
  obtain rfl := Option.some.inj hget'
  rw [hrole] at hrole'
  exact (Option.some.inj hrole').symm

theorem slot_storeFullAnswer (c : SchedulerInstanceCache) (answer : List Instance) (id : InstanceId) :
    (c.storeFullAnswer answer).slot id = (c.slot id).refresh (listedBy answer id) := by
  unfold storeFullAnswer Slot.refresh
  induction PDRole.all generalizing c with
  | nil => rfl
  | cons role roles ih =>
    rw [List.foldl_cons, ih, List.foldl_cons, replaceAll, slot_applyRoleUnderLock]
    · rfl
    · exact (pairwise_sharedOut answer role).imp fun hlt => ne_of_lt hlt

theorem wf_storeFullAnswer (hwf : c.toInstanceCache.WF) (answer : List Instance) :
    (c.storeFullAnswer answer).toInstanceCache.WF := by
  unfold storeFullAnswer
  induction PDRole.all generalizing c with
  | nil => exact hwf
  | cons role roles ih =>
    rw [List.foldl_cons]
    exact ih (hwf.replaceAll role _)

theorem sorted_storeFullAnswer (h : c.Sorted) (answer : List Instance) :
    (c.storeFullAnswer answer).Sorted := by
  unfold storeFullAnswer
  induction PDRole.all generalizing c with
  | nil => exact h
  | cons role roles ih =>
    rw [List.foldl_cons]
    exact ih (h.replaceAll_iff.mpr (pairwise_sharedOut answer role))

theorem Faithful.storeFullAnswer_iff (hwf : c.toInstanceCache.WF) (h : c.Faithful)
    {answer : List Instance} :
    (c.storeFullAnswer answer).Faithful ↔ Meets c (.storeFullAnswer answer) := by
  obtain ⟨hsorted, hslot⟩ := (faithful_iff hwf.keyed).mp h
  have hrefresh : ∀ id, ((c.storeFullAnswer answer).slot id).Faithful ↔
      ∀ role inst, listedBy answer id role = some inst →
        inst.DistinctEndpoints ∧ (inst.allEndpoints = [] ∨
          ∀ role', role.position < role'.position → (c.slot id).cached role' = none) := by
    intro id
    rw [slot_storeFullAnswer]
    exact (hslot id).refresh_iff (listedBy_exclusive answer id)
  rw [faithful_iff (wf_storeFullAnswer hwf answer).keyed,
    and_iff_right (sorted_storeFullAnswer hsorted answer)]
  simp only [Meets, not_mem_ids_iff hwf.keyed hsorted, hrefresh]
  constructor
  · intro hgood role inst hinst
    exact hgood inst.id role inst (listedBy_eq_some_iff.mpr ⟨hinst, rfl⟩)
  · intro hgood id role inst hlisted
    obtain ⟨hinst, rfl⟩ := listedBy_eq_some_iff.mp hlisted
    exact hgood role inst hinst

/-! ## Additions and removals -/

theorem slot_applyAdd {c' : SchedulerInstanceCache} {instances : List Instance}
    (ha : c.applyAdd instances = some c') (id : InstanceId) :
    ((InstanceManager.newInstById instances).get? id = none → c'.slot id = c.slot id) ∧
      ∀ inst, (InstanceManager.newInstById instances).get? id = some inst →
        ∃ role, c'.slot id = Slot.empty.replace role (some inst) := by
  obtain ⟨resolved, hresolved, rfl⟩ := Option.map_eq_some_iff.mp ha
  clear ha
  induction instances generalizing c resolved with
  | nil =>
    cases hresolved
    exact ⟨fun _ => rfl, fun _ h => (nomatch h)⟩
  | cons inst instances ih =>
    rw [List.mapM_cons] at hresolved
    obtain ⟨p, hp, hresolved⟩ := Option.bind_eq_some_iff.mp hresolved
    obtain ⟨rest, hrest, hresolved⟩ := Option.bind_eq_some_iff.mp hresolved
    obtain ⟨role, hrole, rfl⟩ := Option.map_eq_some_iff.mp hp
    cases hresolved
    obtain ⟨hnone, hsome⟩ := ih (c := c.upsert inst role) rest hrest
    rw [List.foldl_cons, get?_newInstById_cons]
    cases hget : (InstanceManager.newInstById instances).get? id with
    | some later => exact ⟨fun h => (nomatch h), fun inst' h => hsome inst' (hget.trans h)⟩
    | none =>
      rw [hnone hget, slot_upsert, Option.none_or]
      by_cases hid : inst.id = id
      · rw [if_pos hid, if_pos hid.symm]
        refine ⟨fun h => (nomatch h), fun inst' h => ⟨role, ?_⟩⟩
        rw [Option.some.inj h]
      · rw [if_neg hid, if_neg (Ne.symm hid)]
        exact ⟨fun _ => rfl, fun _ h => (nomatch h)⟩

theorem sorted_applyAdd {c' : SchedulerInstanceCache} {instances : List Instance}
    (ha : c.applyAdd instances = some c') (h : c.Sorted) : c'.Sorted := by
  obtain ⟨resolved, -, rfl⟩ := Option.map_eq_some_iff.mp ha
  clear ha
  induction resolved generalizing c with
  | nil => exact h
  | cons p resolved ih =>
    rw [List.foldl_cons]
    exact ih (h.upsert p.1 p.2)

theorem applyAdd_toInstanceCache (instances : List Instance) :
    (c.applyAdd instances).map (·.toInstanceCache) = c.toInstanceCache.applyAdd instances := by
  unfold applyAdd InstanceCache.applyAdd
  rw [Option.map_map]
  congr 1
  funext resolved
  rw [Function.comp_apply]
  induction resolved generalizing c with
  | nil => rfl
  | cons p resolved ih =>
    rw [List.foldl_cons, ih]
    rfl

theorem applyAdd_eq_none_iff {instances : List Instance} :
    c.applyAdd instances = none ↔
      ¬ ∀ inst ∈ instances, (PDRole.ofLooseString inst.role).isSome := by
  rw [applyAdd, Option.map_eq_none_iff]
  induction instances with
  | nil => simp
  | cons inst instances ih =>
    rw [List.mapM_cons, List.forall_mem_cons]
    cases hrole : PDRole.ofLooseString inst.role with
    | none => simp
    | some role =>
      rw [Option.map_some, Option.bind_eq_bind, Option.bind_some, Option.isSome_some,
        and_iff_right rfl, ← ih]
      cases instances.mapM fun inst => (PDRole.ofLooseString inst.role).map (inst, ·) with
      | none => simp
      | some rest => simp

theorem Faithful.applyAdd_iff (hwf : c.toInstanceCache.WF) (h : c.Faithful)
    {instances : List Instance} :
    ((c.applyAdd instances).getD c).Faithful ↔ Meets c (.applyAdd instances) := by
  obtain ⟨hsorted, hslot⟩ := (faithful_iff hwf.keyed).mp h
  rw [Meets]
  cases ha : c.applyAdd instances with
  | none =>
    rw [applyAdd_eq_none_iff] at ha
    exact ⟨fun _ hroles => absurd hroles ha, fun _ => h⟩
  | some c' =>
    have hroles : ∀ inst ∈ instances, (PDRole.ofLooseString inst.role).isSome := by
      by_contra hnot
      rw [applyAdd_eq_none_iff.mpr hnot] at ha
      cases ha
    have hwf' : c'.toInstanceCache.WF := by
      have hview := applyAdd_toInstanceCache (c := c) instances
      rw [ha] at hview
      exact (hwf.applyAdd hview.symm).1
    rw [Option.getD_some, faithful_iff hwf'.keyed, and_iff_right (sorted_applyAdd ha hsorted),
      forall_prop_of_true hroles]
    constructor
    · intro hslot' inst hinst
      obtain ⟨id, hget⟩ := Dict.mem_values_iff.mp hinst
      obtain ⟨role, hrole⟩ := (slot_applyAdd ha id).2 inst hget
      have hfaithful := hslot' id
      rwa [hrole, Slot.faithful_fill_iff] at hfaithful
    · intro hgood id
      cases hget : (InstanceManager.newInstById instances).get? id with
      | none =>
        rw [(slot_applyAdd ha id).1 hget]
        exact hslot id
      | some inst =>
        obtain ⟨role, hrole⟩ := (slot_applyAdd ha id).2 inst hget
        rw [hrole, Slot.faithful_fill_iff]
        exact hgood inst (Dict.mem_values_iff.mpr ⟨id, hget⟩)

theorem Faithful.drop (hwf : c.toInstanceCache.WF) (h : c.Faithful) (id : InstanceId) :
    (c.drop id).Faithful := by
  obtain ⟨hsorted, hslot⟩ := (faithful_iff hwf.keyed).mp h
  refine (faithful_iff (c := c.drop id) (hwf.drop id).1.keyed).mpr ⟨hsorted.drop id, fun id' => ?_⟩
  rw [slot_drop]
  split
  · exact Slot.faithful_empty
  · exact hslot id'

theorem Faithful.applyRemove (hwf : c.toInstanceCache.WF) (h : c.Faithful)
    (instances : List Instance) :
    (c.applyRemove instances).toInstanceCache.WF ∧ (c.applyRemove instances).Faithful := by
  unfold SchedulerInstanceCache.applyRemove
  induction instances generalizing c with
  | nil => exact ⟨hwf, h⟩
  | cons inst instances ih =>
    rw [List.foldl_cons]
    exact ih (hwf.drop inst.id).1 (h.drop hwf inst.id)

/-! ## Runs -/

theorem wf_exec (hwf : c.toInstanceCache.WF) (step : Step) : (c.exec step).toInstanceCache.WF := by
  cases step with
  | replaceAll role instances => exact hwf.replaceAll role instances
  | applyAdd instances =>
    have hview := applyAdd_toInstanceCache (c := c) instances
    rw [exec]
    cases ha : c.applyAdd instances with
    | none => exact hwf
    | some c' =>
      rw [ha] at hview
      exact (hwf.applyAdd hview.symm).1
  | applyRemove instances =>
    rw [exec, applyRemove]
    induction instances generalizing c with
    | nil => exact hwf
    | cons inst instances ih => exact ih (hwf.drop inst.id).1
  | storeFullAnswer answer => exact wf_storeFullAnswer hwf answer

/-- **A step** keeps a cache faithful if and only if it meets the condition. -/
theorem Faithful.exec_iff (hwf : c.toInstanceCache.WF) (h : c.Faithful) (step : Step) :
    (c.exec step).Faithful ↔ Meets c step := by
  cases step with
  | replaceAll role instances => exact h.replaceAll_iff hwf
  | applyAdd instances => exact h.applyAdd_iff hwf
  | applyRemove instances => exact iff_of_true (h.applyRemove hwf instances).2 trivial
  | storeFullAnswer answer => exact h.storeFullAnswer_iff hwf

/-- The cache after several steps. -/
def run (steps : List Step) : SchedulerInstanceCache := steps.foldl exec new

theorem run_concat (steps : List Step) (step : Step) :
    run (steps ++ [step]) = (run steps).exec step := by
  rw [run, List.foldl_append]
  rfl

theorem wf_run (steps : List Step) : (run steps).toInstanceCache.WF := by
  induction steps using List.reverseRecOn with
  | nil => exact InstanceCache.new_wf
  | append_singleton steps step ih =>
    rw [run_concat]
    exact wf_exec ih step

theorem faithful_new : new.Faithful :=
  (faithful_iff (c := new) InstanceCache.new_wf.keyed).mpr ⟨fun _ => rfl, fun _ => Slot.faithful_empty⟩

/-- **A run** keeps the cache faithful throughout if and only if each of its steps meets the
condition. -/
theorem faithful_along_iff (steps : List Step) :
    (∀ before, before <+: steps → (run before).Faithful) ↔
      ∀ before step, before ++ [step] <+: steps → Meets (run before) step := by
  constructor
  · intro h before step hbefore
    have hfaithful := h before ((List.prefix_append before [step]).trans hbefore)
    rw [← hfaithful.exec_iff (wf_run before), ← run_concat]
    exact h (before ++ [step]) hbefore
  · intro h before
    induction before using List.reverseRecOn with
    | nil => exact fun _ => faithful_new
    | append_singleton before step ih =>
      intro hbefore
      have hfaithful := ih ((List.prefix_append before [step]).trans hbefore)
      rw [run_concat, hfaithful.exec_iff (wf_run before)]
      exact h before step hbefore

/-- An instance with one endpoint, under a role. -/
def movedInstance (role : String) : Instance :=
  ⟨"job", "model", none, [], 7, role, none, false, [],
    (∅ : Dict String (Dict EndpointId Endpoint)).insert "pod"
      ((∅ : Dict EndpointId Endpoint).insert 0 ⟨0, "10.0.0.7", "1025", "1026", none, [], .zero, false⟩), .zero⟩

/-- The instance decodes, and prefills later. -/
def movedRun : List Step :=
  [.storeFullAnswer [movedInstance "decode"], .storeFullAnswer [movedInstance "prefill"]]

/-- The moved instance is cached under its new role, and a patch of its endpoint is skipped. -/
theorem movedRun_loses_endpoint :
    (run movedRun).instanceCache .prefill = [movedInstance "prefill"] ∧
      (run movedRun).patchTarget 7 0 .prefill = none ∧ ¬(run movedRun).Faithful := by
  have hcached : (run movedRun).instanceCache .prefill = [movedInstance "prefill"] := rfl
  have htarget : (run movedRun).patchTarget 7 0 .prefill = none := by decide
  refine ⟨hcached, htarget, fun h => ?_⟩
  have hreached := h.reached .prefill (movedInstance "prefill")
    ⟨0, "10.0.0.7", "1025", "1026", none, [], .zero, false⟩ (by rw [hcached]; exact List.mem_singleton_self _)
    (by decide)
  exact absurd (htarget.symm.trans hreached) (by simp)

end SchedulerInstanceCache

end PyMotor.Coordinator
