import PyMotor.Coordinator.Membership

/-!
# The endpoint map of the instance cache

Besides the instances, the cache of a worker has every endpoint by the id of its instance and its own
id (`_endpoint_map`). The loads that are read from the shared segment are patched in through this map,
so an endpoint that it misses keeps an old load.

A `Slot` is what the cache has under one instance id. Every operation acts on the slots one by one
(`slot_applyRoleUnderLock`, `slot_drop`, `slot_upsert`), and what it does to a slot is easily said.
-/

namespace PyMotor.Coordinator

namespace Instance

/-- The endpoints by their own ids, a later pod over an earlier one. -/
def endpointIndex (i : Instance) : Dict EndpointId Endpoint :=
  i.allEndpoints.foldl (fun d ep => d.insert ep.id ep) ∅

theorem of_get?_endpointIndex {i : Instance} {e : EndpointId} {ep : Endpoint}
    (h : i.endpointIndex.get? e = some ep) : ep ∈ i.allEndpoints ∧ ep.id = e := by
  rcases Dict.of_get?_foldl_insert (f := fun ep : Endpoint => ep.id) (g := fun ep => ep) i.allEndpoints ∅ h with
    hempty | ⟨ep', hmem, hid, rfl⟩
  · cases hempty
  · exact ⟨hmem, hid⟩

theorem DistinctEndpoints.get?_endpointIndex {i : Instance} (h : i.DistinctEndpoints)
    {e : EndpointId} {ep : Endpoint} :
    i.endpointIndex.get? e = some ep ↔ ep ∈ i.allEndpoints ∧ ep.id = e := by
  refine ⟨of_get?_endpointIndex, ?_⟩
  rintro ⟨hmem, rfl⟩
  refine Dict.get?_foldl_insert (f := fun ep : Endpoint => ep.id) (g := fun ep => ep) i.allEndpoints ?_ ∅
    (Or.inr ⟨ep, hmem, rfl⟩)
  intro ep' hmem' hid
  exact List.inj_on_of_nodup_map h hmem' hmem hid

end Instance

structure SchedulerInstanceCache extends InstanceCache where
  endpointMap : Dict (InstanceId × EndpointId) Endpoint

namespace SchedulerInstanceCache

def new : SchedulerInstanceCache := ⟨.new, ∅⟩

def indexEndpoints (endpointMap : Dict (InstanceId × EndpointId) Endpoint) (inst : Instance) :
    Dict (InstanceId × EndpointId) Endpoint :=
  inst.allEndpoints.foldl (fun m ep => m.insert (inst.id, ep.id) ep) endpointMap

/-- The entries of the instances that the role had until now are deleted, wherever these instances
are now. -/
def applyRoleUnderLock (c : SchedulerInstanceCache) (role : PDRole) (instances : List Instance) :
    SchedulerInstanceCache where
  toInstanceCache := c.toInstanceCache.replaceAll role instances
  endpointMap := instances.foldl indexEndpoints
    (c.endpointMap.filter fun k _ => !(c.instanceMap role).contains k.1)

def replaceAll (c : SchedulerInstanceCache) (role : PDRole) (instances : List Instance) :
    SchedulerInstanceCache :=
  c.applyRoleUnderLock role instances

/-- Remove an id from every role, and its endpoints. -/
def drop (c : SchedulerInstanceCache) (id : InstanceId) : SchedulerInstanceCache where
  toInstanceCache := c.toInstanceCache.drop id
  endpointMap := c.endpointMap.filter fun k _ => decide (k.1 ≠ id)

def upsert (c : SchedulerInstanceCache) (inst : Instance) (role : PDRole) : SchedulerInstanceCache where
  toInstanceCache := c.toInstanceCache.upsert inst role
  endpointMap := indexEndpoints (c.drop inst.id).endpointMap inst

/-- `none` if a role is unknown; then nothing changes. -/
def applyAdd (c : SchedulerInstanceCache) (instances : List Instance) :
    Option SchedulerInstanceCache :=
  (instances.mapM fun inst => (PDRole.ofLooseString inst.role).map (inst, ·)).map
    fun resolved => resolved.foldl (fun c p => c.upsert p.1 p.2) c

def applyRemove (c : SchedulerInstanceCache) (instances : List Instance) : SchedulerInstanceCache :=
  instances.foldl (fun c inst => c.drop inst.id) c

/-- A full answer replaces the roles one after the other. -/
def storeFullAnswer (c : SchedulerInstanceCache) (answer : List Instance) : SchedulerInstanceCache :=
  PDRole.all.foldl
    (fun c role => c.replaceAll role (SchedulerClient.sharedOut none answer role)) c

/-- The instance and the endpoint whose loads `patch_workload_from_shm` sets, if it does. -/
def patchTarget (c : SchedulerInstanceCache) (instanceId : InstanceId) (endpointId : EndpointId)
    (role : PDRole) : Option (Instance × Endpoint) :=
  ((c.instanceMap role).get? instanceId).bind fun inst =>
    (c.endpointMap.get? (instanceId, endpointId)).map fun ep => (inst, ep)

end SchedulerInstanceCache

/-! ## Slots -/

/-- What is cached under an instance id: the instance, for each role that has it, and the entries of
the endpoint map. -/
@[ext] structure Slot where
  cached : PDRole → Option Instance
  entries : EndpointId → Option Endpoint

namespace Slot

def empty : Slot := ⟨fun _ => none, fun _ => none⟩

def entriesOf (inst : Option Instance) (e : EndpointId) : Option Endpoint :=
  inst.bind fun inst => inst.endpointIndex.get? e

/-- The role gets an instance, or none, in place of what it had. -/
def replace (s : Slot) (role : PDRole) (inst : Option Instance) : Slot where
  cached := Function.update s.cached role inst
  entries e := (entriesOf inst e).or (if (s.cached role).isSome then none else s.entries e)

/-- The four roles are replaced one after the other. -/
def refresh (s : Slot) (listed : PDRole → Option Instance) : Slot :=
  PDRole.all.foldl (fun s role => s.replace role (listed role)) s

end Slot

namespace SchedulerInstanceCache

variable {c : SchedulerInstanceCache} {role : PDRole} {id : InstanceId}

def slot (c : SchedulerInstanceCache) (id : InstanceId) : Slot where
  cached role := (c.instanceMap role).get? id
  entries e := c.endpointMap.get? (id, e)

theorem get?_indexEndpoints (endpointMap : Dict (InstanceId × EndpointId) Endpoint) (inst : Instance)
    (id : InstanceId) (e : EndpointId) :
    (indexEndpoints endpointMap inst).get? (id, e) =
      if inst.id = id then (inst.endpointIndex.get? e).or (endpointMap.get? (id, e))
      else endpointMap.get? (id, e) := by
  unfold indexEndpoints Instance.endpointIndex
  generalize inst.allEndpoints = endpoints
  induction endpoints generalizing endpointMap with
  | nil => simp
  | cons ep endpoints ih =>
    rw [List.foldl_cons, ih, List.foldl_cons,
      Dict.get?_foldl_insert_or (fun ep : Endpoint => ep.id) (fun ep => ep) e endpoints
        ((∅ : Dict EndpointId Endpoint).insert ep.id ep),
      Option.or_assoc, Dict.get?_insert, Dict.get?_insert]
    by_cases hid : inst.id = id
    · subst hid
      by_cases he : ep.id = e
      · simp [he]
      · simp [he]
    · simp [hid]

theorem get?_newInstById_cons (inst : Instance) (instances : List Instance) (id : InstanceId) :
    (InstanceManager.newInstById (inst :: instances)).get? id =
      ((InstanceManager.newInstById instances).get? id).or
        (if inst.id = id then some inst else none) := by
  rw [InstanceManager.newInstById, List.foldl_cons,
    Dict.get?_foldl_insert_or (fun i : Instance => i.id) (fun i => i), Dict.get?_insert]
  rfl

theorem get?_foldl_indexEndpoints {instances : List Instance} (hnd : (instances.map (·.id)).Nodup)
    (endpointMap : Dict (InstanceId × EndpointId) Endpoint) (id : InstanceId) (e : EndpointId) :
    (instances.foldl indexEndpoints endpointMap).get? (id, e) =
      (Slot.entriesOf ((InstanceManager.newInstById instances).get? id) e).or
        (endpointMap.get? (id, e)) := by
  induction instances generalizing endpointMap with
  | nil => rfl
  | cons inst instances ih =>
    rw [List.map_cons, List.nodup_cons] at hnd
    rw [List.foldl_cons, ih hnd.2, get?_indexEndpoints, get?_newInstById_cons]
    split
    · next hid =>
      subst hid
      have hnone : (InstanceManager.newInstById instances).get? inst.id = none := by
        rw [← Option.not_isSome_iff_eq_none]
        exact fun h => hnd.1 (InstanceCache.contains_newInstById.mp h)
      simp [hnone, Slot.entriesOf]
    · simp

theorem slot_applyRoleUnderLock (c : SchedulerInstanceCache) (role : PDRole)
    {instances : List Instance} (hnd : (instances.map (·.id)).Nodup) (id : InstanceId) :
    (c.applyRoleUnderLock role instances).slot id =
      (c.slot id).replace role ((InstanceManager.newInstById instances).get? id) := by
  ext1
  · funext role'
    simp only [slot, applyRoleUnderLock, InstanceCache.replaceAll, Slot.replace]
    by_cases hrole : role' = role
    · subst hrole
      simp
    · simp [hrole]
  · funext e
    simp only [slot, applyRoleUnderLock, Slot.replace]
    rw [get?_foldl_indexEndpoints hnd, Dict.get?_filter]
    cases hc : (c.instanceMap role).contains id with
    | true =>
      rw [Dict.contains] at hc
      cases c.endpointMap.get? (id, e) <;> simp [hc, Option.filter]
    | false =>
      rw [Dict.contains] at hc
      cases c.endpointMap.get? (id, e) <;> simp [hc, Option.filter]

/-! ### Single ids -/

theorem get?_dropFromRole (c : InstanceCache) (id : InstanceId) (role role' : PDRole)
    (id' : InstanceId) :
    ((c.dropFromRole id role).instanceMap role').get? id' =
      if role' = role ∧ id' = id then none else (c.instanceMap role').get? id' := by
  unfold InstanceCache.dropFromRole InstanceCache.setRole
  split
  · by_cases hrole : role' = role
    · subst hrole
      simp [Dict.get?_erase, eq_comm]
    · simp [hrole]
  · next hnot =>
    split
    · next heq =>
      obtain ⟨rfl, rfl⟩ := heq
      rwa [Dict.contains, Option.not_isSome_iff_eq_none] at hnot
    · rfl

theorem get?_drop (c : InstanceCache) (id : InstanceId) (role : PDRole) (id' : InstanceId) :
    ((c.drop id).instanceMap role).get? id' =
      if id' = id then none else (c.instanceMap role).get? id' := by
  have aux : ∀ (roles : List PDRole) (c : InstanceCache),
      ((roles.foldl (fun c role => c.dropFromRole id role) c).instanceMap role).get? id' =
        if role ∈ roles ∧ id' = id then none else (c.instanceMap role).get? id' := by
    intro roles
    induction roles with
    | nil => simp
    | cons role' roles ih =>
      intro c
      rw [List.foldl_cons, ih, get?_dropFromRole]
      grind
  rw [InstanceCache.drop, aux]
  simp [PDRole.mem_all]

theorem slot_drop (c : SchedulerInstanceCache) (id id' : InstanceId) :
    (c.drop id).slot id' = if id' = id then .empty else c.slot id' := by
  by_cases heq : id' = id
  · subst heq
    rw [if_pos rfl]
    ext1
    · funext role
      exact (get?_drop c.toInstanceCache id' role id').trans (if_pos rfl)
    · funext e
      simp only [slot, drop, Dict.get?_filter]
      cases c.endpointMap.get? (id', e) <;> simp [Option.filter, Slot.empty]
  · rw [if_neg heq]
    ext1
    · funext role
      exact (get?_drop c.toInstanceCache id role id').trans (if_neg heq)
    · funext e
      simp only [slot, drop, Dict.get?_filter]
      cases c.endpointMap.get? (id', e) <;> simp [Option.filter, heq]

theorem slot_upsert (c : SchedulerInstanceCache) (inst : Instance) (role : PDRole)
    (id : InstanceId) :
    (c.upsert inst role).slot id =
      if id = inst.id then Slot.empty.replace role (some inst) else c.slot id := by
  have hdrop := slot_drop c inst.id id
  have hentries : ∀ e, (c.drop inst.id).endpointMap.get? (id, e) =
      (if id = inst.id then Slot.empty else c.slot id).entries e :=
    fun e => congrFun (congrArg Slot.entries hdrop) e
  have hcached : ∀ role, ((c.toInstanceCache.drop inst.id).instanceMap role).get? id =
      (if id = inst.id then Slot.empty else c.slot id).cached role :=
    fun role => congrFun (congrArg Slot.cached hdrop) role
  split at hentries
  · next heq =>
    subst heq
    rw [if_pos rfl]
    rw [if_pos rfl] at hcached
    ext1
    · funext role'
      simp only [slot, upsert, InstanceCache.upsert, InstanceCache.setRole, Slot.replace]
      by_cases hrole : role' = role
      · subst hrole
        simp
      · simpa [hrole] using hcached role'
    · funext e
      simp only [slot, upsert, Slot.replace]
      rw [get?_indexEndpoints, if_pos rfl, hentries]
      rfl
  · next hne =>
    rw [if_neg hne]
    rw [if_neg hne] at hcached
    ext1
    · funext role'
      simp only [slot, upsert, InstanceCache.upsert, InstanceCache.setRole]
      by_cases hrole : role' = role
      · subst hrole
        rw [Function.update_self, Dict.get?_insert_ne _ _ (Ne.symm hne)]
        exact hcached role'
      · rw [Function.update_of_ne hrole]
        exact hcached role'
    · funext e
      simp only [slot, upsert]
      rw [get?_indexEndpoints, if_neg (Ne.symm hne), hentries]
      rfl

end SchedulerInstanceCache

end PyMotor.Coordinator
