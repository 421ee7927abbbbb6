import PyMotor.Coordinator.InstanceManager.Ledger

/-!
# Which load a change is about

A change names an instance and an endpoint by their ids, and the index of endpoints says where in the
instance the endpoint is. If two pods of the instance have an endpoint of one id, the index has the one
of the later pod. If all ids are distinct, the change is about the one endpoint of that id, and no other
load is touched (`Represents.updateInstanceWorkloadSync_eq`, `ledgerAt_changeWorkload`).
-/

namespace PyMotor.Coordinator

namespace Instance

variable {inst : Instance} {place : String × EndpointId} {ep : Endpoint}

/-- The ids of the endpoints, each with its place, as the index is built from them. -/
def labels (inst : Instance) : List (EndpointId × String × EndpointId) :=
  inst.endpoints.entries.flatMap fun pod => pod.2.entries.map fun p => (p.2.id, pod.1, p.1)

theorem labels_eq_places (inst : Instance) : inst.labels = inst.places.map fun p => (p.2.id, p.1) := by
  unfold labels places
  simp only [List.map_flatMap, List.map_map, Function.comp_def]

theorem map_fst_labels (inst : Instance) : inst.labels.map (·.1) = inst.allEndpoints.map (·.id) := by
  rw [labels_eq_places, allEndpoints_eq_places, List.map_map, List.map_map]
  rfl

theorem endpointCache_eq (inst : Instance) :
    inst.endpointCache = inst.labels.foldl (fun cache p => cache.insert p.1 p.2) ∅ := rfl

theorem DistinctEndpoints.get?_endpointCache (h : inst.DistinctEndpoints)
    (hat : inst.endpointAt place = some ep) : inst.endpointCache.get? ep.id = some place := by
  have hlabel : (ep.id, place) ∈ inst.labels := by
    rw [labels_eq_places, List.mem_map]
    exact ⟨(place, ep), mem_places_iff.mpr hat, rfl⟩
  rw [DistinctEndpoints, ← map_fst_labels] at h
  rw [endpointCache_eq]
  refine Dict.get?_foldl_insert (f := fun p : EndpointId × String × EndpointId => p.1) (g := (·.2)) _
    ?_ _ (Or.inr ⟨_, hlabel, rfl⟩)
  intro p hp hid
  have heq : p = (ep.id, place) := List.inj_on_of_nodup_map h hp hlabel hid
  rw [heq]

theorem exists_endpointAt_of_mem (hep : ep ∈ inst.allEndpoints) :
    ∃ place ep', inst.endpointCache.get? ep.id = some place ∧ inst.endpointAt place = some ep' := by
  have hcontains : inst.endpointCache.contains ep.id = true := by
    rw [endpointCache_eq, Dict.contains_foldl_insert, map_fst_labels]
    exact Or.inr (List.mem_map_of_mem hep)
  obtain ⟨place, hplace⟩ := Dict.contains_iff.mp hcontains
  rcases Dict.of_get?_foldl_insert inst.labels ∅ hplace with hempty | ⟨label, hlabel, -, rfl⟩
  · cases hempty
  · rw [labels_eq_places] at hlabel
    obtain ⟨p, hp, rfl⟩ := List.mem_map.mp hlabel
    exact ⟨p.1, p.2, hplace, mem_places_iff.mp hp⟩

theorem labels_setEndpoint {old : Endpoint} (h : inst.endpointAt place = some old) (hid : ep.id = old.id) :
    (inst.setEndpoint place ep).labels = inst.labels := by
  obtain ⟨pod, key⟩ := place
  obtain ⟨eps, heps, hold⟩ := Option.bind_eq_some_iff.mp h
  simp only at heps hold
  simp only [setEndpoint, heps, labels, List.flatMap]
  have hpod : (eps.insert key ep).entries.map (fun p : EndpointId × Endpoint => (p.2.id, pod, p.1)) =
      eps.entries.map fun p => (p.2.id, pod, p.1) :=
    AssocList.map_set_of_eq (by simp [hid]) hold
  have hall : (inst.endpoints.insert pod (eps.insert key ep)).entries.map
      (fun pod : String × Dict EndpointId Endpoint =>
        pod.2.entries.map fun p => (p.2.id, pod.1, p.1)) =
      inst.endpoints.entries.map fun pod => pod.2.entries.map fun p => (p.2.id, pod.1, p.1) :=
    AssocList.map_set_of_eq hpod heps
  rw [hall]

theorem labels_rebuildInstanceWorkload (inst : Instance) :
    inst.rebuildInstanceWorkload.labels = inst.labels := by
  simp [labels, rebuildInstanceWorkload, Dict.mapVal, List.flatMap_map, Function.comp_def]

theorem labels_changeWorkload (h : inst.endpointAt place = some ep) (change : Workload) :
    (inst.changeWorkload place ep change).labels = inst.labels := by
  unfold changeWorkload
  simp only
  split
  · rw [labels_rebuildInstanceWorkload]
    exact labels_setEndpoint h rfl
  · exact labels_setEndpoint h rfl

theorem DistinctEndpoints.changeWorkload (h : inst.DistinctEndpoints)
    (hat : inst.endpointAt place = some ep) (change : Workload) :
    (inst.changeWorkload place ep change).DistinctEndpoints := by
  rw [DistinctEndpoints, ← map_fst_labels, labels_changeWorkload hat, map_fst_labels]
  exact h

theorem endpointAt_rebuildInstanceWorkload (inst : Instance) (place : String × EndpointId) :
    inst.rebuildInstanceWorkload.endpointAt place = (inst.endpointAt place).map fun ep =>
      { ep with workload := ep.workload.clampFloor } := by
  simp only [endpointAt, rebuildInstanceWorkload, Dict.get?_mapVal]
  cases inst.endpoints.get? place.1 with
  | none => rfl
  | some eps => simp

theorem clampFloor_of_nonneg {workload : Workload} (h : 0 ≤ workload.activeTokens) :
    workload.clampFloor = workload := if_neg (not_lt.mpr h)

/-- **A change is about one load**: that of the endpoint at its place. -/
theorem endpointAt_changeWorkload (hloads : ∀ ep ∈ inst.allEndpoints, 0 ≤ ep.workload.activeTokens)
    (hat : inst.endpointAt place = some ep) (change : Workload) (place' : String × EndpointId) :
    (inst.changeWorkload place ep change).endpointAt place' =
      if place' = place then some { ep with workload := (ep.workload.add change).clampFloor }
      else inst.endpointAt place' := by
  unfold changeWorkload
  simp only
  split
  · next hneg =>
    rw [endpointAt_rebuildInstanceWorkload, endpointAt_setEndpoint hat]
    split
    · rw [Workload.clampFloor, if_pos hneg]
      rfl
    · cases hat' : inst.endpointAt place' with
      | none => rfl
      | some ep' =>
        rw [Option.map_some, clampFloor_of_nonneg (hloads ep' (mem_allEndpoints_iff.mpr ⟨_, hat'⟩))]
  · next hnonneg =>
    have hset := endpointAt_setEndpoint hat { ep with workload := ep.workload.add change } place'
    rw [clampFloor_of_nonneg (not_lt.mp hnonneg)]
    exact hset

end Instance

namespace InstanceManager

variable {m : InstanceManager} {w : Roster} {id : InstanceId} {inst : Instance}
  {place : String × EndpointId} {ep : Endpoint}

/-- The endpoint at a place of an available instance. -/
def endpointOf (m : InstanceManager) (id : InstanceId) (place : String × EndpointId) : Option Endpoint :=
  (m.availablePool.get? id).bind (·.endpointAt place)

/-- The load that is kept for the endpoint at a place of an available instance. -/
def ledgerAt (m : InstanceManager) (id : InstanceId) (place : String × EndpointId) : Option Workload :=
  ((m.availablePool.get? id).bind (·.endpointAt place)).map (·.workload)

/-- Another object for an available instance that differs in its loads only. -/
theorem Represents.changeInstance (h : Represents m w) (hw : w id = some (.available, inst))
    {inst' : Instance} (hid : inst'.id = inst.id) (hrole : inst'.role = inst.role)
    (hcache : inst'.endpointCache = inst.endpointCache) :
    Represents (m.changeInstance id inst') (Function.update w id (some (.available, inst'))) := by
  have hfits := h.fits id _ hw
  obtain ⟨role, hknown⟩ := hfits.known rfl
  have hrolePools : (m.changeInstance id inst').rolePools =
      Function.update m.rolePools role ((m.rolePools role).insert id inst') := by
    rw [InstanceManager.changeInstance, hrole, hknown]
  constructor
  · exact h.available.insert id rfl
  · exact h.unavailable.keep (by rw [hw]; rfl) rfl
  · exact h.paused.keep (by rw [hw]; rfl) rfl
  · intro role'
    rw [hrolePools]
    by_cases heq : role' = role
    · subst heq
      rw [Function.update_self]
      refine (h.filed role').insert id ?_
      rw [filedUnder, if_pos ⟨rfl, by rw [hrole, hknown]⟩]
    · rw [Function.update_of_ne heq]
      have hother : ∀ i : Instance, i.role = inst.role → filedUnder role' (.available, i) = none := by
        intro i hi
        rw [filedUnder, if_neg]
        rintro ⟨-, hrole'⟩
        rw [hi, hknown] at hrole'
        exact heq (Option.some.inj hrole').symm
      refine (h.filed role').keep ?_ (hother inst' hrole)
      rw [hw]
      exact hother inst rfl
  · intro id'
    by_cases heq : id' = id
    · subst heq
      rw [Function.update_self]
      have hcached := h.cached id'
      rw [hw] at hcached
      refine hcached.trans ?_
      simp [inPlace, hcache]
    · rw [Function.update_of_ne heq]
      exact h.cached id'
  · intro id' v hv
    by_cases heq : id' = id
    · subst heq
      rw [Function.update_self] at hv
      cases hv
      exact ⟨hid.trans hfits.keyed, fun _ => ⟨role, by rw [hrole, hknown]⟩⟩
    · rw [Function.update_of_ne heq] at hv
      exact h.fits id' v hv

theorem endpointCache_changeWorkload (h : inst.endpointAt place = some ep) (change : Workload) :
    (inst.changeWorkload place ep change).endpointCache = inst.endpointCache := by
  rw [Instance.endpointCache_eq, Instance.labels_changeWorkload h, Instance.endpointCache_eq]

theorem changeWorkload_id (inst : Instance) (place : String × EndpointId) (ep : Endpoint)
    (change : Workload) : (inst.changeWorkload place ep change).id = inst.id := by
  have hset : ∀ ep, (inst.setEndpoint place ep).id = inst.id := by
    intro ep
    unfold Instance.setEndpoint
    split <;> rfl
  unfold Instance.changeWorkload
  simp only
  split
  · exact hset _
  · exact hset _

theorem Represents.endpointPlaces_eq (h : Represents m w) (hw : w id = some (.available, inst)) :
    m.endpointPlaces id inst = (inst.endpointCache, m) := by
  have hcached := h.cached id
  rw [hw] at hcached
  unfold InstanceManager.endpointPlaces
  rw [hcached]
  rfl

theorem Represents.updateInstanceWorkloadSync (h : Represents m w) (id : InstanceId)
    (endpointId : EndpointId) (change : Workload) :
    ∃ w', Represents (m.updateInstanceWorkloadSync id endpointId change).2 w' := by
  unfold InstanceManager.updateInstanceWorkloadSync
  split
  · exact ⟨w, h⟩
  · next inst hget =>
    rw [h.get?_availablePool] at hget
    simp only [h.endpointPlaces_eq hget]
    split
    · exact ⟨w, h⟩
    · split
      · exact ⟨w, h⟩
      · next ep hat =>
        have hchanged := h.changeInstance hget (changeWorkload_id inst _ ep change)
          (changeWorkload_role inst _ ep) (endpointCache_changeWorkload hat change)
        split <;> exact ⟨_, hchanged⟩

/-- **A change is about the endpoint of its id**, if the ids are distinct. -/
theorem Represents.updateInstanceWorkloadSync_eq (h : Represents m w)
    (hw : w id = some (.available, inst)) (hdistinct : inst.DistinctEndpoints)
    (hat : inst.endpointAt place = some ep) {role : PDRole}
    (hrole : PDRole.ofString inst.role = some role) (change : Workload) :
    m.updateInstanceWorkloadSync id ep.id change =
      (.ok (some (role, (ep.workload.add change).clampFloor)),
        m.changeInstance id (inst.changeWorkload place ep change)) := by
  have hget := h.get?_availablePool.mpr hw
  simp only [InstanceManager.updateInstanceWorkloadSync, hget, h.endpointPlaces_eq hw,
    hdistinct.get?_endpointCache hat, hat, roleOrUnion_of_known hrole]

theorem Represents.updateInstanceWorkloadSync_isSome (h : Represents m w)
    (hw : w id = some (.available, inst)) (hep : ep ∈ inst.allEndpoints) (change : Workload) :
    ∃ result, (m.updateInstanceWorkloadSync id ep.id change).1 = .ok (some result) := by
  have hget := h.get?_availablePool.mpr hw
  obtain ⟨role, hrole⟩ := (h.fits id _ hw).known rfl
  obtain ⟨place, ep', hplace, hat⟩ := Instance.exists_endpointAt_of_mem hep
  refine ⟨(role, (ep'.workload.add change).clampFloor), ?_⟩
  simp only [InstanceManager.updateInstanceWorkloadSync, hget, h.endpointPlaces_eq hw, hplace, hat,
    roleOrUnion_of_known hrole]

theorem Represents.getEndpointWorkloadSync_eq (h : Represents m w)
    (hw : w id = some (.available, inst)) (hdistinct : inst.DistinctEndpoints)
    (hat : inst.endpointAt place = some ep) {role : PDRole}
    (hrole : PDRole.ofString inst.role = some role) :
    m.getEndpointWorkloadSync id ep.id = (.ok (some (role, ep.workload)), m) := by
  have hget := h.get?_availablePool.mpr hw
  simp only [InstanceManager.getEndpointWorkloadSync, hget, h.endpointPlaces_eq hw,
    hdistinct.get?_endpointCache hat, Option.bind_some, hat, roleOrUnion_of_known hrole]

theorem Represents.getEndpointWorkloadSync (h : Represents m w) (id : InstanceId)
    (endpointId : EndpointId) : (m.getEndpointWorkloadSync id endpointId).2 = m := by
  unfold InstanceManager.getEndpointWorkloadSync
  split
  · rfl
  · next inst hget =>
    rw [h.get?_availablePool] at hget
    simp only [h.endpointPlaces_eq hget]
    split
    · rfl
    · split <;> rfl

theorem endpointOf_eq_some : m.endpointOf id place = some ep ↔
    ∃ inst, m.availablePool.get? id = some inst ∧ inst.endpointAt place = some ep :=
  Option.bind_eq_some_iff

theorem endpointOf_changeWorkload (hget : m.availablePool.get? id = some inst)
    (hloads : ∀ ep ∈ inst.allEndpoints, 0 ≤ ep.workload.activeTokens)
    (hat : inst.endpointAt place = some ep) (change : Workload) (id' : InstanceId)
    (place' : String × EndpointId) :
    (m.changeInstance id (inst.changeWorkload place ep change)).endpointOf id' place' =
      if id' = id ∧ place' = place then some { ep with workload := (ep.workload.add change).clampFloor }
      else m.endpointOf id' place' := by
  unfold endpointOf InstanceManager.changeInstance
  simp only [Dict.get?_insert]
  by_cases hid : id' = id
  · subst hid
    rw [if_pos rfl, Option.bind_some, Instance.endpointAt_changeWorkload hloads hat, hget,
      Option.bind_some]
    by_cases hplace : place' = place
    · rw [if_pos hplace, if_pos ⟨rfl, hplace⟩]
    · rw [if_neg hplace, if_neg fun h => hplace h.2]
  · rw [if_neg (Ne.symm hid), if_neg fun h => hid h.1]

theorem ledgerAt_changeWorkload (hget : m.availablePool.get? id = some inst)
    (hloads : ∀ ep ∈ inst.allEndpoints, 0 ≤ ep.workload.activeTokens)
    (hat : inst.endpointAt place = some ep) (change : Workload) (id' : InstanceId)
    (place' : String × EndpointId) :
    (m.changeInstance id (inst.changeWorkload place ep change)).ledgerAt id' place' =
      if id' = id ∧ place' = place then some (ep.workload.add change).clampFloor
      else m.ledgerAt id' place' := by
  have hep := endpointOf_changeWorkload hget hloads hat change id' place'
  show (endpointOf _ id' place').map _ = _
  rw [hep]
  split <;> rfl

end InstanceManager

end PyMotor.Coordinator
