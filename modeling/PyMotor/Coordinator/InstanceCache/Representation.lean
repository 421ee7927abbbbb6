import PyMotor.Coordinator.InstanceCache.EndpointMap

/-!
# What the instance cache represents

`SchedulerInstanceCache.Faithful` says that the lists, the maps and the endpoint map of a worker have
the same instances. Most operations keep it. A full answer replaces the roles one after the other, and
each replacement deletes the entries of the instances that the role had: those of an instance that
moved to an earlier role are inserted first and deleted afterwards (`Slot.Faithful.refresh_iff`).

`faithful_iff` reduces a faithful cache to faithful slots.
-/

namespace PyMotor.Coordinator

/-- The place of a role in the order of `PDRole.all`. -/
def PDRole.position : PDRole → Nat
  | .encode => 0
  | .prefill => 1
  | .decode => 2
  | .union => 3

/-! ## Faithful slots -/

namespace Slot

/-- Under one id, one role has the instance, and the entries are its endpoints. -/
structure Faithful (s : Slot) : Prop where
  exclusive : ∀ role role', (s.cached role).isSome → (s.cached role').isSome → role' = role
  distinct : ∀ role inst, s.cached role = some inst → inst.DistinctEndpoints
  indexed : ∀ e ep, s.entries e = some ep ↔
    ∃ role inst, s.cached role = some inst ∧ ep ∈ inst.allEndpoints ∧ ep.id = e

variable {s : Slot} {role : PDRole} {inst : Instance}

theorem faithful_empty : empty.Faithful where
  exclusive _ _ h := by cases h
  distinct _ _ h := by cases h
  indexed e ep := by simp [empty]

theorem Faithful.entries_eq_none (h : s.Faithful) (hcached : ∀ role, s.cached role = none)
    (e : EndpointId) : s.entries e = none := by
  rw [Option.eq_none_iff_forall_ne_some]
  intro ep hep
  obtain ⟨role, inst, hinst, -⟩ := (h.indexed e ep).mp hep
  rw [hcached role] at hinst
  cases hinst

theorem faithful_iff_of_single (hcached : s.cached role = some inst)
    (hothers : ∀ role', role' ≠ role → s.cached role' = none)
    (hentries : ∀ e, s.entries e = inst.endpointIndex.get? e) :
    s.Faithful ↔ inst.DistinctEndpoints := by
  have hrole : ∀ role' inst', s.cached role' = some inst' → role' = role ∧ inst' = inst := by
    intro role' inst' h
    by_cases heq : role' = role
    · rw [heq, hcached] at h
      exact ⟨heq, (Option.some.inj h).symm⟩
    · rw [hothers role' heq] at h
      cases h
  refine ⟨fun h => h.distinct role inst hcached, fun hdistinct => ⟨?_, ?_, ?_⟩⟩
  · intro role₁ role₂ h₁ h₂
    obtain ⟨inst₁, h₁⟩ := Option.isSome_iff_exists.mp h₁
    obtain ⟨inst₂, h₂⟩ := Option.isSome_iff_exists.mp h₂
    rw [(hrole _ _ h₁).1, (hrole _ _ h₂).1]
  · intro role' inst' h
    rw [(hrole _ _ h).2]
    exact hdistinct
  · intro e ep
    rw [hentries, hdistinct.get?_endpointIndex]
    constructor
    · exact fun h => ⟨role, inst, hcached, h⟩
    · rintro ⟨role', inst', h, hep⟩
      rwa [(hrole _ _ h).2] at hep

theorem faithful_fill_iff : (empty.replace role (some inst)).Faithful ↔ inst.DistinctEndpoints := by
  have hself : (empty.replace role (some inst)).cached role = some inst := by simp [replace]
  apply faithful_iff_of_single hself
  · intro role' hne
    simp [replace, empty, hne]
  · intro e
    simp [replace, empty, entriesOf]

theorem Faithful.replace_none (h : s.Faithful) (role : PDRole) : (s.replace role none).Faithful := by
  cases hcached : s.cached role with
  | none =>
    -- nothing changes
    have hsame : s.replace role none = s := by
      ext1
      · simp [replace, ← hcached]
      · simp [replace, hcached, entriesOf]
    rwa [hsame]
  | some inst =>
    -- the slot becomes empty
    have hempty : s.replace role none = empty := by
      ext1
      · funext role'
        by_cases heq : role' = role
        · simp [replace, heq, empty]
        · have hnone : s.cached role' = none := by
            rw [← Option.not_isSome_iff_eq_none]
            exact fun hsome => heq (h.exclusive role role' (by simp [hcached]) hsome)
          simp [replace, heq, empty, hnone]
      · simp [replace, hcached, entriesOf, empty]
    rw [hempty]
    exact faithful_empty

theorem Faithful.replace_some_iff (h : s.Faithful) :
    (s.replace role (some inst)).Faithful ↔
      inst.DistinctEndpoints ∧ ∀ role', role' ≠ role → s.cached role' = none := by
  have hself : (s.replace role (some inst)).cached role = some inst := by simp [replace]
  have hothers : ∀ role', role' ≠ role → (s.replace role (some inst)).cached role' = s.cached role' :=
    fun role' hne => by simp [replace, hne]
  constructor
  · intro h'
    refine ⟨h'.distinct role inst hself, fun role' hne => ?_⟩
    rw [← Option.not_isSome_iff_eq_none, ← hothers role' hne]
    exact fun hsome => hne (h'.exclusive role role' (by simp [hself]) hsome)
  · rintro ⟨hdistinct, hnone⟩
    refine (faithful_iff_of_single hself (fun role' hne => ?_) fun e => ?_).mpr hdistinct
    · rw [hothers role' hne, hnone role' hne]
    · -- what the slot had is deleted with the instance that the role had
      have hrest : (if (s.cached role).isSome then none else s.entries e) = none := by
        split
        · rfl
        · next hrole =>
          refine h.entries_eq_none (fun role' => ?_) e
          by_cases heq : role' = role
          · rwa [heq, ← Option.not_isSome_iff_eq_none]
          · exact hnone role' heq
      simp only [replace, hrest, entriesOf, Option.bind_some, Option.or_none]

/-! ### Four roles in turn -/

variable {listed : PDRole → Option Instance}

theorem cached_refresh (s : Slot) (listed : PDRole → Option Instance) :
    (s.refresh listed).cached = listed := by
  funext role
  cases role <;> simp [refresh, PDRole.all, replace]

theorem Faithful.refresh_none (h : s.Faithful) (hlisted : ∀ role, listed role = none) :
    (s.refresh listed).Faithful := by
  unfold refresh
  induction PDRole.all generalizing s with
  | nil => exact h
  | cons role roles ih =>
    rw [List.foldl_cons, hlisted role]
    exact ih (h.replace_none role)

theorem entries_refresh (s : Slot) (listed : PDRole → Option Instance) (e : EndpointId) :
    (s.refresh listed).entries e =
      (entriesOf (listed .union) e).or (if (s.cached .union).isSome then none else
        (entriesOf (listed .decode) e).or (if (s.cached .decode).isSome then none else
          (entriesOf (listed .prefill) e).or (if (s.cached .prefill).isSome then none else
            (entriesOf (listed .encode) e).or
              (if (s.cached .encode).isSome then none else s.entries e)))) := by
  simp [refresh, PDRole.all, replace]

/-- What an earlier role inserts is deleted when a later role had the instance. -/
theorem entries_refresh_of_later {later : PDRole} (hothers : ∀ role', role' ≠ role → listed role' = none)
    (hlater : role.position < later.position) (hcached : (s.cached later).isSome) (e : EndpointId) :
    (s.refresh listed).entries e = none := by
  rw [entries_refresh]
  have hlisted : ∀ role', role.position < role'.position → listed role' = none := by
    intro role' hlt
    apply hothers
    rintro rfl
    exact lt_irrefl _ hlt
  cases role <;> cases later <;>
    simp_all [PDRole.position, entriesOf]

theorem Faithful.entries_refresh_of_not_later (h : s.Faithful) (hself : listed role = some inst)
    (hothers : ∀ role', role' ≠ role → listed role' = none)
    (hlater : ∀ role', role.position < role'.position → s.cached role' = none) (e : EndpointId) :
    (s.refresh listed).entries e = inst.endpointIndex.get? e := by
  rw [entries_refresh]
  by_cases hcached : ∃ role', (s.cached role').isSome
  · obtain ⟨role', hrole'⟩ := hcached
    cases role <;> cases role' <;>
      simp_all [PDRole.position, entriesOf]
  · have hnone : ∀ role', s.cached role' = none := fun role' =>
      Option.not_isSome_iff_eq_none.mp fun hsome => hcached ⟨role', hsome⟩
    have hentries := h.entries_eq_none hnone e
    cases role <;> simp [hself, hothers, hnone, hentries, entriesOf]

/-- **Four roles in turn** keep a slot faithful if and only if the instance that is listed, if any, was
under no later role, or has no endpoints to lose. -/
theorem Faithful.refresh_iff (h : s.Faithful)
    (hlisted : ∀ role role', (listed role).isSome → (listed role').isSome → role' = role) :
    (s.refresh listed).Faithful ↔ ∀ role inst, listed role = some inst →
      inst.DistinctEndpoints ∧ (inst.allEndpoints = [] ∨
        ∀ role', role.position < role'.position → s.cached role' = none) := by
  constructor
  · intro h' role inst hself
    have hcached : (s.refresh listed).cached role = some inst := by rw [cached_refresh, hself]
    refine ⟨h'.distinct role inst hcached, ?_⟩
    by_contra hcontra
    rw [not_or] at hcontra
    obtain ⟨hendpoints, hlater⟩ := hcontra
    obtain ⟨ep, hep⟩ := List.exists_mem_of_ne_nil _ hendpoints
    push Not at hlater
    obtain ⟨later, hlt, hsome⟩ := hlater
    have hothers : ∀ role', role' ≠ role → listed role' = none := fun role' hne =>
      Option.not_isSome_iff_eq_none.mp fun hsome => hne (hlisted role role' (by simp [hself]) hsome)
    have hentry := (h'.indexed ep.id ep).mpr ⟨role, inst, hcached, hep, rfl⟩
    rw [entries_refresh_of_later hothers hlt (Option.isSome_iff_ne_none.mpr hsome)] at hentry
    cases hentry
  · intro hgood
    by_cases hany : ∃ role inst, listed role = some inst
    · obtain ⟨role, inst, hself⟩ := hany
      obtain ⟨hdistinct, hlater⟩ := hgood role inst hself
      have hothers : ∀ role', role' ≠ role → listed role' = none := fun role' hne =>
        Option.not_isSome_iff_eq_none.mp fun hsome =>
          hne (hlisted role role' (by simp [hself]) hsome)
      have hcached : (s.refresh listed).cached role = some inst := by rw [cached_refresh, hself]
      refine (faithful_iff_of_single hcached ?_ fun e => ?_).mpr hdistinct
      · intro role' hne
        rw [cached_refresh, hothers role' hne]
      · by_cases hnone : ∀ role', role.position < role'.position → s.cached role' = none
        · exact h.entries_refresh_of_not_later hself hothers hnone e
        · have hendpoints := hlater.resolve_right hnone
          push Not at hnone
          obtain ⟨later, hlt, hsome⟩ := hnone
          rw [entries_refresh_of_later hothers hlt (Option.isSome_iff_ne_none.mpr hsome),
            Instance.endpointIndex, hendpoints]
          rfl
    · apply h.refresh_none
      intro role
      rw [Option.eq_none_iff_forall_ne_some]
      exact fun inst hinst => hany ⟨role, inst, hinst⟩

end Slot

/-! ## Faithful caches -/

def InstanceCache.Sorted (c : InstanceCache) : Prop :=
  ∀ role, c.instanceCache role = sortById (c.instanceMap role).values

namespace SchedulerInstanceCache

/-- The endpoints of the cached instances, by the ids of instance and endpoint. -/
def cachedEndpoints (c : SchedulerInstanceCache) : List ((InstanceId × EndpointId) × Endpoint) :=
  PDRole.all.flatMap fun role => (c.instanceCache role).flatMap fun inst =>
    inst.allEndpoints.map fun ep => ((inst.id, ep.id), ep)

structure Faithful (c : SchedulerInstanceCache) : Prop where
  /-- A cached id is in the list of exactly one role. -/
  oneRole : ∀ role id, id ∈ (c.instanceCache role).map (·.id) →
    ∃! role', id ∈ (c.instanceCache role').map (·.id)
  sorted : ∀ role, c.instanceCache role = sortById (c.instanceMap role).values
  /-- The endpoint map has one entry for every endpoint of a cached instance, and no others. -/
  indexed : c.endpointMap.entries.Perm c.cachedEndpoints
  /-- A patch finds every cached endpoint. -/
  reached : ∀ role inst ep, inst ∈ c.instanceCache role → ep ∈ inst.allEndpoints →
    c.patchTarget inst.id ep.id role = some (inst, ep)

def Keyed (c : SchedulerInstanceCache) : Prop := ∀ role, InstanceCache.Keyed (c.instanceMap role)

variable {c : SchedulerInstanceCache}

theorem mem_instanceCache_iff (hkeyed : c.Keyed) (hsorted : c.Sorted) {role : PDRole}
    {inst : Instance} :
    inst ∈ c.instanceCache role ↔ (c.slot inst.id).cached role = some inst := by
  rw [hsorted role, sortById, (List.perm_insertionSort _ _).mem_iff, Dict.mem_values_iff]
  constructor
  · rintro ⟨id, hget⟩
    rwa [← hkeyed role id inst hget] at hget
  · exact fun hget => ⟨inst.id, hget⟩

theorem mem_ids_instanceCache_iff (hkeyed : c.Keyed) (hsorted : c.Sorted) {role : PDRole}
    {id : InstanceId} :
    id ∈ (c.instanceCache role).map (·.id) ↔ ((c.slot id).cached role).isSome := by
  rw [hsorted role, mem_ids_sortById, (hkeyed role).mem_values]
  rfl

theorem mem_cachedEndpoints_iff (hkeyed : c.Keyed) (hsorted : c.Sorted) {id : InstanceId}
    {e : EndpointId} {ep : Endpoint} :
    ((id, e), ep) ∈ c.cachedEndpoints ↔ ∃ role inst,
      (c.slot id).cached role = some inst ∧ ep ∈ inst.allEndpoints ∧ ep.id = e := by
  simp only [cachedEndpoints, List.mem_flatMap, List.mem_map, Prod.mk.injEq]
  constructor
  · rintro ⟨role, -, inst, hinst, ep', hep, ⟨rfl, rfl⟩, rfl⟩
    exact ⟨role, inst, (mem_instanceCache_iff hkeyed hsorted).mp hinst, hep, rfl⟩
  · rintro ⟨role, inst, hget, hep, rfl⟩
    obtain rfl : inst.id = id := hkeyed role id inst hget
    exact ⟨role, role.mem_all, inst, (mem_instanceCache_iff hkeyed hsorted).mpr hget, ep, hep,
      ⟨rfl, rfl⟩, rfl⟩

theorem nodup_keys_cachedEndpoints_iff (hkeyed : c.Keyed) (hsorted : c.Sorted)
    (hexclusive : ∀ id role role', ((c.slot id).cached role).isSome →
      ((c.slot id).cached role').isSome → role' = role) :
    (c.cachedEndpoints.map Prod.fst).Nodup ↔
      ∀ id role inst, (c.slot id).cached role = some inst → inst.DistinctEndpoints := by
  have hkeys : c.cachedEndpoints.map Prod.fst = PDRole.all.flatMap fun role =>
      (c.instanceCache role).flatMap fun inst => inst.allEndpoints.map fun ep => (inst.id, ep.id) := by
    simp [cachedEndpoints, List.map_flatMap, Function.comp_def]
  have hids : ∀ role, ((c.instanceCache role).map (·.id)).Nodup := by
    intro role
    rw [hsorted role, sortById, ((List.perm_insertionSort _ _).map _).nodup_iff]
    exact (hkeyed role).nodup_ids
  rw [hkeys]
  constructor
  · intro hnd id role inst hget
    obtain rfl : inst.id = id := hkeyed role id inst hget
    have hrole := (List.nodup_flatMap.mp hnd).1 role role.mem_all
    have hinst := (List.nodup_flatMap.mp hrole).1 inst
      ((mem_instanceCache_iff hkeyed hsorted).mpr hget)
    rw [Instance.DistinctEndpoints]
    refine List.Nodup.of_map (fun e => (inst.id, e)) ?_
    rwa [List.map_map]
  · intro hdistinct
    refine List.nodup_flatMap.mpr ⟨fun role _ => List.nodup_flatMap.mpr ⟨fun inst hinst => ?_, ?_⟩, ?_⟩
    · -- the endpoints of one instance
      have h := hdistinct _ _ _ ((mem_instanceCache_iff hkeyed hsorted).mp hinst)
      rw [Instance.DistinctEndpoints] at h
      have hmap := h.map (f := fun e => (inst.id, e)) fun _ _ heq => (Prod.mk.inj heq).2
      rwa [List.map_map] at hmap
    · -- the instances of one role
      refine (List.pairwise_map.mp (hids role)).imp fun hne => ?_
      refine List.disjoint_left.mpr ?_
      simp only [List.mem_map]
      rintro _ ⟨_, -, rfl⟩ ⟨_, -, heq⟩
      exact hne (Prod.mk.inj heq).1.symm
    · -- different roles
      have hroles : PDRole.all.Nodup := by decide
      refine hroles.imp fun {role role'} hne => ?_
      refine List.disjoint_left.mpr ?_
      simp only [List.mem_flatMap, List.mem_map]
      rintro _ ⟨inst, hinst, _, -, rfl⟩ ⟨inst', hinst', _, -, heq⟩
      have hsome := (mem_ids_instanceCache_iff hkeyed hsorted).mp (List.mem_map_of_mem hinst)
      have hsome' := (mem_ids_instanceCache_iff hkeyed hsorted).mp (List.mem_map_of_mem hinst')
      rw [(Prod.mk.inj heq).1] at hsome'
      exact hne (hexclusive _ _ _ hsome' hsome)

/-- **A cache is faithful** if and only if its lists are sorted and its slots are faithful. -/
theorem faithful_iff (hkeyed : c.Keyed) :
    c.Faithful ↔ c.Sorted ∧ ∀ id, (c.slot id).Faithful := by
  constructor
  · intro h
    have hexclusive : ∀ id role role', ((c.slot id).cached role).isSome →
        ((c.slot id).cached role').isSome → role' = role := by
      intro id role role' hrole hrole'
      rw [← mem_ids_instanceCache_iff hkeyed h.sorted] at hrole hrole'
      exact (h.oneRole role id hrole).unique hrole' hrole
    obtain ⟨hnd, hget⟩ := Dict.entries_perm_iff.mp h.indexed
    rw [nodup_keys_cachedEndpoints_iff hkeyed h.sorted hexclusive] at hnd
    refine ⟨h.sorted, fun id => ⟨hexclusive id, hnd id, fun e ep => ?_⟩⟩
    exact (hget (id, e) ep).trans (mem_cachedEndpoints_iff hkeyed h.sorted)
  · rintro ⟨hsorted, hslot⟩
    have hexclusive := fun id => (hslot id).exclusive
    constructor
    · intro role id hid
      rw [mem_ids_instanceCache_iff hkeyed hsorted] at hid
      refine ⟨role, (mem_ids_instanceCache_iff hkeyed hsorted).mpr hid, fun role' hid' => ?_⟩
      exact hexclusive id role role' hid ((mem_ids_instanceCache_iff hkeyed hsorted).mp hid')
    · exact hsorted
    · refine Dict.entries_perm_iff.mpr ⟨?_, ?_⟩
      · rw [nodup_keys_cachedEndpoints_iff hkeyed hsorted hexclusive]
        exact fun id => (hslot id).distinct
      · rintro ⟨id, e⟩ ep
        rw [mem_cachedEndpoints_iff hkeyed hsorted]
        exact (hslot id).indexed e ep
    · intro role inst ep hinst hep
      have hget : (c.instanceMap role).get? inst.id = some inst :=
        (mem_instanceCache_iff hkeyed hsorted).mp hinst
      have hentry : c.endpointMap.get? (inst.id, ep.id) = some ep :=
        ((hslot inst.id).indexed ep.id ep).mpr ⟨role, inst, hget, hep, rfl⟩
      simp [patchTarget, hget, hentry]

/-! ### Lists in order -/

theorem pairwise_sortById (instances : List Instance) :
    (sortById instances).Pairwise fun a b => a.id ≤ b.id :=
  List.pairwise_insertionSort (r := fun a b : Instance => a.id ≤ b.id) instances

theorem eq_sortById_newInstById_iff {instances : List Instance} :
    instances = sortById (InstanceManager.newInstById instances).values ↔
      (instances.map (·.id)).Pairwise (· < ·) := by
  constructor
  · intro h
    have hids : (instances.map (·.id)).Nodup := by
      rw [h, sortById, ((List.perm_insertionSort _ _).map _).nodup_iff]
      exact (InstanceCache.keyed_newInstById instances).nodup_ids
    have hle : (instances.map (·.id)).Pairwise (· ≤ ·) := by
      rw [List.pairwise_map, h]
      exact pairwise_sortById _
    exact hle.imp₂ (fun _ _ hle hne => lt_of_le_of_ne hle hne) hids
  · intro h
    have hnd : (instances.map (·.id)).Nodup := h.imp fun hlt => ne_of_lt hlt
    have hvalues : (InstanceManager.newInstById instances).values = instances := by
      have hempty : (∅ : Dict InstanceId Instance).entries = [] := rfl
      have hentries := Dict.entries_foldl_insert (fun i : Instance => i.id) (fun i => i) instances
        (∅ : Dict InstanceId Instance) hnd
      unfold Dict.values InstanceManager.newInstById
      rw [hentries, hempty]
      simp [Function.comp_def]
    rw [hvalues, sortById, List.Pairwise.insertionSort_eq]
    exact (List.pairwise_map.mp h).imp fun hlt => le_of_lt hlt

end SchedulerInstanceCache

end PyMotor.Coordinator
