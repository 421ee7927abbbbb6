import Mathlib.Tactic.Linarith
import PyMotor.Coordinator.InstanceManager.Pools
import PyMotor.Coordinator.InstanceManager.Workload
import PyMotor.Lib.DictSum

/-!
# The ledger of loads

The load of an instance is meant to be the sum of the loads of its endpoints, none of which is negative.
An update adds the change to both; only if a release exceeds what is there, the sum is made anew.

Instances leave and enter the pools, but what is in a pool was announced by an event, was reset when it
was added, or was in a pool before (`EveryInstance`). So what holds of those instances and survives an
update holds of every instance in the pools.
-/

namespace PyMotor.Coordinator

namespace Instance

/-! ## Places -/

/-- The endpoints, each with its pod and its key. -/
def places (inst : Instance) : List ((String × EndpointId) × Endpoint) :=
  inst.endpoints.entries.flatMap fun pod => pod.2.entries.map fun p => ((pod.1, p.1), p.2)

def totalLoad (inst : Instance) : ℚ := (inst.allEndpoints.map (·.workload.activeTokens)).sum

variable {inst : Instance} {place : String × EndpointId} {ep : Endpoint}

theorem allEndpoints_eq_places (inst : Instance) : inst.allEndpoints = inst.places.map (·.2) := by
  unfold allEndpoints places Dict.values
  rw [List.map_flatMap, List.flatMap_map]
  simp only [List.map_map, Function.comp_def]

theorem nodup_places (inst : Instance) : (inst.places.map (·.1)).Nodup := by
  unfold places
  rw [List.map_flatMap, List.nodup_flatMap]
  refine ⟨fun pod _ => ?_, ?_⟩
  · rw [List.map_map]
    have h := pod.2.nodup
    rw [List.Nodup, List.pairwise_map] at h ⊢
    exact h.imp fun hne heq => hne (Prod.mk.inj heq).2
  · have h := inst.endpoints.nodup
    rw [List.Nodup, List.pairwise_map] at h
    refine h.imp fun hne k hk hk' => hne ?_
    rw [List.mem_map] at hk hk'
    obtain ⟨p, hp, rfl⟩ := hk
    obtain ⟨p', hp', heq⟩ := hk'
    obtain ⟨q, -, rfl⟩ := List.mem_map.mp hp
    obtain ⟨q', -, rfl⟩ := List.mem_map.mp hp'
    exact (Prod.mk.inj heq).1.symm

theorem mem_places_iff : (place, ep) ∈ inst.places ↔ inst.endpointAt place = some ep := by
  obtain ⟨pod, key⟩ := place
  simp only [places, endpointAt, List.mem_flatMap, List.mem_map, Prod.mk.injEq, Prod.exists,
    Option.bind_eq_some_iff]
  constructor
  · rintro ⟨pod', eps, hpod, key', ep', hep, ⟨rfl, rfl⟩, rfl⟩
    exact ⟨eps, Dict.mem_entries_iff.mp hpod, Dict.mem_entries_iff.mp hep⟩
  · rintro ⟨eps, hpod, hep⟩
    exact ⟨pod, eps, Dict.mem_entries_iff.mpr hpod, key, ep, Dict.mem_entries_iff.mpr hep,
      ⟨rfl, rfl⟩, rfl⟩

theorem mem_allEndpoints_iff : ep ∈ inst.allEndpoints ↔ ∃ place, inst.endpointAt place = some ep := by
  rw [allEndpoints_eq_places, List.mem_map]
  constructor
  · rintro ⟨⟨place, ep⟩, hmem, rfl⟩
    exact ⟨place, mem_places_iff.mp hmem⟩
  · rintro ⟨place, h⟩
    exact ⟨(place, ep), mem_places_iff.mpr h, rfl⟩

theorem endpointAt_setEndpoint {old : Endpoint} (h : inst.endpointAt place = some old) (ep : Endpoint)
    (place' : String × EndpointId) :
    (inst.setEndpoint place ep).endpointAt place' =
      if place' = place then some ep else inst.endpointAt place' := by
  obtain ⟨pod, key⟩ := place
  obtain ⟨pod', key'⟩ := place'
  obtain ⟨eps, heps, -⟩ := Option.bind_eq_some_iff.mp h
  simp only at heps
  simp only [setEndpoint, heps, endpointAt, Prod.mk.injEq]
  by_cases hpod : pod' = pod
  · subst hpod
    by_cases hkey : key' = key
    · subst hkey
      simp
    · simp [hkey, heps, Dict.get?_insert_ne _ _ (Ne.symm hkey)]
  · simp [hpod, Dict.get?_insert_ne _ _ (Ne.symm hpod)]

/-! ## Balanced instances -/

/-- No load is negative, and the load of the instance is their sum. -/
structure Balanced (inst : Instance) : Prop where
  nonneg : ∀ ep ∈ inst.allEndpoints, 0 ≤ ep.workload.activeTokens
  gathered : inst.gatheredWorkload.activeTokens = inst.totalLoad

/-- The loads of a pod. -/
def podLoad (eps : Dict EndpointId Endpoint) : ℚ := eps.sumBy fun _ ep => ep.workload.activeTokens

theorem totalLoad_eq_sumBy (inst : Instance) :
    inst.totalLoad = inst.endpoints.sumBy fun _ eps => podLoad eps := by
  unfold totalLoad podLoad Dict.sumBy allEndpoints Dict.values
  induction inst.endpoints.entries with
  | nil => rfl
  | cons pod pods ih =>
    rw [List.map_cons, List.flatMap_cons, List.map_append, List.sum_append, ih, List.map_cons,
      List.sum_cons, List.map_map]
    rfl

theorem totalLoad_setEndpoint {old : Endpoint} (h : inst.endpointAt place = some old) (ep : Endpoint) :
    (inst.setEndpoint place ep).totalLoad =
      inst.totalLoad + (ep.workload.activeTokens - old.workload.activeTokens) := by
  obtain ⟨pod, key⟩ := place
  obtain ⟨eps, heps, hold⟩ := Option.bind_eq_some_iff.mp h
  simp only at heps hold
  rw [totalLoad_eq_sumBy, totalLoad_eq_sumBy]
  simp only [setEndpoint, heps]
  have hpod := Dict.sumBy_of_change eps (eps.insert key ep)
    (fun _ ep => ep.workload.activeTokens) (fun _ ep => ep.workload.activeTokens) key
    fun key' hne => by rw [Dict.part_insert, if_neg (Ne.symm hne)]
  rw [Dict.part_of_some hold, Dict.part_insert, if_pos rfl] at hpod
  have hall := Dict.sumBy_of_change inst.endpoints (inst.endpoints.insert pod (eps.insert key ep))
    (fun _ eps => podLoad eps) (fun _ eps => podLoad eps) pod
    fun pod' hne => by rw [Dict.part_insert, if_neg (Ne.symm hne)]
  rw [Dict.part_of_some heps, Dict.part_insert, if_pos rfl] at hall
  unfold podLoad at hall ⊢
  linarith

theorem allEndpoints_mapVal (inst : Instance) (f : Endpoint → Endpoint) :
    ({ inst with endpoints := inst.endpoints.mapVal fun _ pod => pod.mapVal fun _ ep => f ep } :
      Instance).allEndpoints = inst.allEndpoints.map f := by
  simp [allEndpoints, Dict.values, Dict.mapVal, List.map_flatMap, List.flatMap_map, Function.comp_def]

theorem balanced_resetWorkload (inst : Instance) : inst.resetWorkload.Balanced := by
  have hall : inst.resetWorkload.allEndpoints =
      inst.allEndpoints.map fun ep => { ep with workload := .zero } := allEndpoints_mapVal inst _
  constructor
  · intro ep hep
    rw [hall, List.mem_map] at hep
    obtain ⟨ep, -, rfl⟩ := hep
    exact le_refl _
  · rw [totalLoad, hall, List.map_map]
    have hzero : ∀ eps : List Endpoint, (eps.map ((·.workload.activeTokens) ∘ fun ep : Endpoint =>
        { ep with workload := .zero })).sum = 0 := by
      intro eps
      induction eps with
      | nil => rfl
      | cons ep eps ih =>
        rw [List.map_cons, List.sum_cons, ih, add_zero]
        rfl
    rw [hzero]
    rfl

theorem foldl_load (eps : List Endpoint) (sum : ℚ) :
    eps.foldl (fun sum ep => sum + ep.workload.activeTokens) sum =
      sum + (eps.map (·.workload.activeTokens)).sum := by
  induction eps generalizing sum with
  | nil => simp
  | cons ep eps ih => rw [List.foldl_cons, ih, List.map_cons, List.sum_cons, add_assoc]

theorem balanced_rebuildInstanceWorkload (inst : Instance) :
    inst.rebuildInstanceWorkload.Balanced := by
  have hall : inst.rebuildInstanceWorkload.allEndpoints =
      inst.allEndpoints.map fun ep => { ep with workload := ep.workload.clampFloor } :=
    allEndpoints_mapVal inst _
  constructor
  · intro ep hep
    rw [hall, List.mem_map] at hep
    obtain ⟨ep, -, rfl⟩ := hep
    simp only [Workload.clampFloor]
    split
    · exact le_refl _
    · next hnonneg => exact not_lt.mp hnonneg
  · exact (foldl_load _ 0).trans (zero_add _)

theorem nonneg_changeWorkload (h : ∀ ep ∈ inst.allEndpoints, 0 ≤ ep.workload.activeTokens)
    (hat : inst.endpointAt place = some ep) (change : Workload) :
    ∀ ep' ∈ (inst.changeWorkload place ep change).allEndpoints, 0 ≤ ep'.workload.activeTokens := by
  unfold Instance.changeWorkload
  simp only
  split
  · exact (balanced_rebuildInstanceWorkload _).nonneg
  · next hnonneg =>
    intro ep' hep'
    obtain ⟨place', hat'⟩ := mem_allEndpoints_iff.mp hep'
    have hat' : (inst.setEndpoint place { ep with workload := ep.workload.add change }).endpointAt
        place' = some ep' := hat'
    rw [endpointAt_setEndpoint hat] at hat'
    split at hat'
    · cases hat'
      exact not_lt.mp hnonneg
    · exact h ep' (mem_allEndpoints_iff.mpr ⟨place', hat'⟩)

/-- **A change of a load** leaves an instance balanced, whether or not it exceeds what is there. -/
theorem Balanced.changeWorkload (h : inst.Balanced) (hat : inst.endpointAt place = some ep)
    (change : Workload) : (inst.changeWorkload place ep change).Balanced := by
  have hloads := nonneg_changeWorkload h.nonneg hat change
  unfold Instance.changeWorkload at hloads ⊢
  simp only at hloads ⊢
  split
  · exact balanced_rebuildInstanceWorkload _
  · next hnonneg =>
    constructor
    · rwa [if_neg hnonneg] at hloads
    · have htotal := totalLoad_setEndpoint hat { ep with workload := ep.workload.add change }
      have hgathered := h.gathered
      have hadd : (ep.workload.add change).activeTokens =
          ep.workload.activeTokens + change.activeTokens := rfl
      have hsum : (inst.gatheredWorkload.add change).activeTokens =
          inst.gatheredWorkload.activeTokens + change.activeTokens := rfl
      have hkeep : (inst.setEndpoint place { ep with workload := ep.workload.add change }).totalLoad =
          ({ inst.setEndpoint place { ep with workload := ep.workload.add change } with
            gatheredWorkload := inst.gatheredWorkload.add change } : Instance).totalLoad := rfl
      rw [← hkeep, htotal]
      simp only
      linarith

end Instance

/-! ## All instances -/

namespace InstanceManager

/-- Something holds of the instances of every pool. -/
structure EveryInstance (P : Instance → Prop) (m : InstanceManager) : Prop where
  available : ∀ id inst, m.availablePool.get? id = some inst → P inst
  unavailable : ∀ id inst, m.unavailablePool.get? id = some inst → P inst
  paused : ∀ id inst, m.pausedPool.get? id = some inst → P inst
  filed : ∀ role id inst, (m.rolePools role).get? id = some inst → P inst

variable {P : Instance → Prop} {m : InstanceManager} {inst : Instance} {id : InstanceId}

theorem everyInstance_new : EveryInstance P new where
  available _ _ h := by cases h
  unavailable _ _ h := by cases h
  paused _ _ h := by cases h
  filed _ _ _ h := by cases h

theorem of_get?_insert {d : Dict InstanceId Instance} (hd : ∀ id inst, d.get? id = some inst → P inst)
    (k : InstanceId) (hP : P inst) : ∀ id inst', (d.insert k inst).get? id = some inst' → P inst' := by
  intro id inst' h
  rw [Dict.get?_insert] at h
  split at h
  · cases h
    exact hP
  · exact hd id inst' h

theorem of_get?_erase {d : Dict InstanceId Instance} (hd : ∀ id inst, d.get? id = some inst → P inst)
    (k : InstanceId) : ∀ id inst', (d.erase k).get? id = some inst' → P inst' := by
  intro id inst' h
  exact hd id inst' (Dict.get?_of_erase h)

theorem of_get?_update {pools : PDRole → Dict InstanceId Instance} {role : PDRole}
    {d : Dict InstanceId Instance} (hpools : ∀ role id inst, (pools role).get? id = some inst → P inst)
    (hd : ∀ id inst, d.get? id = some inst → P inst) :
    ∀ role' id inst, (Function.update pools role d role').get? id = some inst → P inst := by
  intro role' id inst h
  by_cases hrole : role' = role
  · subst hrole
    rw [Function.update_self] at h
    exact hd id inst h
  · rw [Function.update_of_ne hrole] at h
    exact hpools role' id inst h

namespace EveryInstance

theorem eraseUnavailable (h : EveryInstance P m) (id : InstanceId) :
    EveryInstance P { m with unavailablePool := m.unavailablePool.erase id } :=
  { h with unavailable := of_get?_erase h.unavailable id }

theorem erasePaused (h : EveryInstance P m) (id : InstanceId) :
    EveryInstance P { m with pausedPool := m.pausedPool.erase id } :=
  { h with paused := of_get?_erase h.paused id }

theorem addInstanceToAvailablePool (h : EveryInstance P m) (hP : P inst) :
    EveryInstance P (m.addInstanceToAvailablePool inst).2 := by
  unfold InstanceManager.addInstanceToAvailablePool
  split
  · exact h
  · next role _ =>
    split
    · exact h
    · exact { h with
        available := of_get?_insert h.available inst.id hP
        filed := of_get?_update h.filed (of_get?_insert (h.filed role) inst.id hP) }

theorem deleteInstanceFromAvailablePool (h : EveryInstance P m) (id : InstanceId) :
    EveryInstance P (m.deleteInstanceFromAvailablePool id).2 := by
  unfold InstanceManager.deleteInstanceFromAvailablePool
  split
  · exact h
  · split
    · exact h
    · next role _ =>
      split
      · exact { h with
          available := of_get?_erase h.available id
          filed := of_get?_update h.filed (of_get?_erase (h.filed role) id) }
      · exact h

theorem removeInstanceFromAllPools (h : EveryInstance P m) (id : InstanceId) :
    EveryInstance P (m.removeInstanceFromAllPools id).2 := by
  unfold InstanceManager.removeInstanceFromAllPools
  split
  · exact h.deleteInstanceFromAvailablePool id
  · split
    · exact h.eraseUnavailable id
    · split
      · exact h.erasePaused id
      · exact h

theorem removeStaleInstance (h : EveryInstance P m) (inst : Instance) :
    EveryInstance P (m.removeStaleInstance inst).2 := by
  unfold InstanceManager.removeStaleInstance
  split
  · exact h
  · split
    · exact h
    · exact h.removeInstanceFromAllPools _

theorem addInstance (h : EveryInstance P m) (hP : P inst.resetWorkload) :
    EveryInstance P (m.addInstance inst).2 := by
  unfold InstanceManager.addInstance
  have hstale := h.removeStaleInstance inst
  split
  · exact h
  · split
    · next heq =>
      rw [heq] at hstale
      exact hstale
    · next heq =>
      rw [heq] at hstale
      exact hstale.addInstanceToAvailablePool hP

theorem deleteInstance (h : EveryInstance P m) (inst : Instance) :
    EveryInstance P (m.deleteInstance inst).2 := by
  unfold InstanceManager.deleteInstance
  split
  · exact h.eraseUnavailable _
  · split
    · exact h.erasePaused _
    · exact h.deleteInstanceFromAvailablePool _

theorem pauseInstance (h : EveryInstance P m) (hP : P inst) :
    EveryInstance P (m.pauseInstance inst).2 := by
  unfold InstanceManager.pauseInstance
  have hdel := h.deleteInstanceFromAvailablePool inst.id
  split
  · exact h
  · split
    · exact h
    · generalize m.deleteInstanceFromAvailablePool inst.id = deleted at hdel ⊢
      obtain ⟨r, m'⟩ := deleted
      split
      · next heq =>
        cases heq
        exact { hdel with paused := of_get?_insert hdel.paused inst.id hP }
      · next heq =>
        cases heq
        exact hdel

theorem resumeInstance (h : EveryInstance P m) (hP : P inst) :
    EveryInstance P (m.resumeInstance inst).2 := by
  unfold InstanceManager.resumeInstance
  split
  · exact h
  · exact (h.erasePaused inst.id).addInstanceToAvailablePool hP

theorem forInstances {f : InstanceManager → Instance → Except PyError Bool × InstanceManager}
    {Q : Instance → Prop}
    (hf : ∀ {m inst}, EveryInstance P m → Q inst → EveryInstance P (f m inst).2)
    {instances : List Instance} (hQ : ∀ inst ∈ instances, Q inst) :
    ∀ {m}, EveryInstance P m → EveryInstance P (m.forInstances f instances).2 := by
  induction instances with
  | nil => exact fun h => h
  | cons inst instances ih =>
    intro m h
    rw [List.forall_mem_cons] at hQ
    have hstep := hf h hQ.1
    rw [InstanceManager.forInstances]
    split
    · next heq =>
      rw [heq] at hstep
      exact hstep
    · next heq =>
      rw [heq] at hstep
      exact ih hQ.2 hstep

theorem mem_of_mem_computeSetDiff {σ : HashOrder InstanceId} {instances : List Instance}
    (h : inst ∈ (m.computeSetDiff σ instances).1) : inst ∈ instances := by
  obtain ⟨id, -, hget⟩ := List.mem_filterMap.mp h
  rcases Dict.of_get?_foldl_insert instances ∅ hget with hempty | ⟨inst', hmem, -, rfl⟩
  · cases hempty
  · exact hmem

theorem setInstances (h : EveryInstance P m) (σ : HashOrder InstanceId) {instances : List Instance}
    (hP : ∀ inst ∈ instances, P inst.resetWorkload) :
    EveryInstance P (m.setInstances σ instances).2 := by
  have hdel : EveryInstance P (m.deleteInstances (m.computeSetDiff σ instances).2).2 :=
    forInstances (Q := fun _ => True) (fun h _ => h.deleteInstance _) (fun _ _ => trivial) h
  unfold InstanceManager.setInstances
  simp only
  split
  · exact h
  · split
    · next heq =>
      rw [heq] at hdel
      exact hdel
    · next heq =>
      rw [heq] at hdel
      exact forInstances (Q := fun inst => P inst.resetWorkload) (fun h hP => h.addInstance hP)
        (fun inst hinst => hP inst (mem_of_mem_computeSetDiff hinst)) hdel

/-- **An operation** keeps what holds of every instance, if it holds of what the operation announces, as
it is and reset. -/
theorem exec {m' : InstanceManager} {op : ManagerOp} (h : EveryInstance P m)
    (hP : ∀ σ eventType instances, op = .refresh σ eventType instances →
      ∀ inst ∈ instances, P inst ∧ P inst.resetWorkload)
    (he : m.exec op = some m') : EveryInstance P m' := by
  cases op with
  | refresh σ eventType instances =>
    have hpaused := fun inst hinst => (hP σ eventType instances rfl inst hinst).1
    have hadded := fun inst hinst => (hP σ eventType instances rfl inst hinst).2
    cases he
    cases eventType with
    | add =>
      exact forInstances (Q := fun inst => P inst.resetWorkload) (fun h hP => h.addInstance hP)
        hadded h
    | del =>
      exact forInstances (Q := fun _ => True) (fun h _ => h.deleteInstance _) (fun _ _ => trivial) h
    | set => exact h.setInstances σ hadded
    | pause => exact forInstances (Q := P) (fun h hP => h.pauseInstance hP) hpaused h
    | resume => exact forInstances (Q := P) (fun h hP => h.resumeInstance hP) hpaused h
  | updateState id mode =>
    cases he
    cases mode with
    | available =>
      simp only [updateInstanceState]
      split
      · exact h
      · next inst hget =>
        exact (h.eraseUnavailable id).addInstanceToAvailablePool (h.unavailable id inst hget)
    | unavailable =>
      have hdel := h.deleteInstanceFromAvailablePool id
      simp only [updateInstanceState]
      split
      · exact h
      · next inst hget =>
        have hinst := h.available id inst hget
        generalize m.deleteInstanceFromAvailablePool id = deleted at hdel ⊢
        obtain ⟨r, m'⟩ := deleted
        split
        · next heq =>
          cases heq
          exact { hdel with unavailable := of_get?_insert hdel.unavailable id hinst }
        · next heq =>
          cases heq
          exact hdel
  | deleteUnavailable id =>
    cases he
    unfold deleteUnavailableInstance
    split
    · exact h.eraseUnavailable id
    · exact h

theorem endpointPlaces (h : EveryInstance P m) (id : InstanceId) (inst : Instance) :
    EveryInstance P (m.endpointPlaces id inst).2 := by
  unfold InstanceManager.endpointPlaces
  split
  · exact h
  · exact ⟨h.available, h.unavailable, h.paused, h.filed⟩

theorem changeInstance (h : EveryInstance P m) (id : InstanceId) (hP : P inst) :
    EveryInstance P (m.changeInstance id inst) := by
  refine ⟨of_get?_insert h.available id hP, h.unavailable, h.paused, fun role' id' inst' hget => ?_⟩
  cases hrole : PDRole.ofString inst.role with
  | none =>
    rw [InstanceManager.changeInstance, hrole] at hget
    exact h.filed role' id' inst' hget
  | some role =>
    rw [InstanceManager.changeInstance, hrole] at hget
    exact of_get?_update h.filed (of_get?_insert (h.filed role) id hP) role' id' inst' hget

/-- **A change of a load** keeps what survives it in one instance. -/
theorem updateInstanceWorkloadSync
    (hP : ∀ {inst place ep} change, P inst → inst.endpointAt place = some ep →
      P (inst.changeWorkload place ep change))
    (h : EveryInstance P m) (id : InstanceId) (endpointId : EndpointId) (change : Workload) :
    EveryInstance P (m.updateInstanceWorkloadSync id endpointId change).2 := by
  unfold InstanceManager.updateInstanceWorkloadSync
  split
  · exact h
  · next inst hget =>
    have hinst := h.available id inst hget
    have hplaces := h.endpointPlaces id inst
    generalize m.endpointPlaces id inst = r at hplaces ⊢
    obtain ⟨places, m'⟩ := r
    simp only
    split
    · exact hplaces
    · split
      · exact hplaces
      · next ep hat =>
        have hchanged := hplaces.changeInstance id (hP change hinst hat)
        split <;> exact hchanged

end EveryInstance

/-! ## Runs -/

/-- What happens to the pools and the loads. -/
inductive LedgerOp where
  | manage (op : ManagerOp)
  | change (id : InstanceId) (endpointId : EndpointId) (change : Workload)

/-- An operation counts whether it returned or raised. -/
def execLedger (m : InstanceManager) : LedgerOp → Option InstanceManager
  | .manage op => m.exec op
  | .change id endpointId change => some (m.updateInstanceWorkloadSync id endpointId change).2

/-- All loads are zero. -/
def CarriesZero (inst : Instance) : Prop :=
  (∀ ep ∈ inst.allEndpoints, ep.workload = .zero) ∧ inst.gatheredWorkload = .zero

instance (inst : Instance) : Decidable (CarriesZero inst) := inferInstanceAs (Decidable (_ ∧ _))

/-- The events carry no loads. -/
def AnnouncesZero (_ : InstanceManager) : LedgerOp → Prop
  | .manage (.refresh _ _ instances) => ∀ inst ∈ instances, CarriesZero inst
  | _ => True

instance (m : InstanceManager) : ∀ op, Decidable (m.AnnouncesZero op)
  | .manage (.refresh _ _ _) => inferInstanceAs (Decidable (∀ _ ∈ _, _))
  | .manage (.updateState _ _) => isTrue trivial
  | .manage (.deleteUnavailable _) => isTrue trivial
  | .change _ _ _ => isTrue trivial

theorem balanced_of_carriesZero (h : CarriesZero inst) : inst.Balanced := by
  obtain ⟨hzero, hgathered⟩ := h
  refine ⟨fun ep hep => by rw [hzero ep hep]; exact le_refl _, ?_⟩
  have hloads : inst.allEndpoints.map (·.workload.activeTokens) = inst.allEndpoints.map fun _ => 0 :=
    List.map_congr_left fun ep hep => by rw [hzero ep hep]; rfl
  rw [hgathered, Instance.totalLoad, hloads]
  simp [Workload.zero]

theorem EveryInstance.execLedger {m' : InstanceManager} {op : LedgerOp}
    (h : EveryInstance Instance.Balanced m) (hzero : m.AnnouncesZero op)
    (he : m.execLedger op = some m') : EveryInstance Instance.Balanced m' := by
  cases op with
  | manage op =>
    refine h.exec (fun σ eventType instances hop inst hinst => ?_) he
    subst hop
    exact ⟨balanced_of_carriesZero (hzero inst hinst), inst.balanced_resetWorkload⟩
  | change id endpointId change =>
    cases he
    exact updateInstanceWorkloadSync (fun change hinst hat => hinst.changeWorkload hat change) h id
      endpointId change

/-- **The ledger is balanced** in every run whose events carry no loads: of every available instance, as
one of the available pool and as one of the pool of a role, no endpoint has a negative load, and the
load of the instance is their sum. -/
theorem ledger_balanced {ops : List LedgerOp} (hrun : Run execLedger AnnouncesZero new ops m) :
    (∀ id inst, m.availablePool.get? id = some inst → inst.Balanced) ∧
      ∀ role id inst, (m.rolePools role).get? id = some inst → inst.Balanced := by
  have h := hrun.invariant_state (I := EveryInstance Instance.Balanced) everyInstance_new
    fun h hzero he => h.execLedger hzero he
  exact ⟨h.available, h.filed⟩

/-- An instance of two endpoints, of which one gets a request and the other has to give back more than
it has. -/
def twoPods : Instance :=
  { oneEndpoint 1 "p" "prefill" with
    endpoints := (oneEndpoint 1 "p" "prefill").endpoints.insert "10.0.0.2"
      ((∅ : Dict EndpointId Endpoint).insert 1 ⟨1, "10.0.0.2", "8000", "8001", none, [], .zero, false⟩) }

def overReleaseRun : List LedgerOp :=
  [.manage (.refresh .insertion .add [twoPods]), .change 1 0 ⟨5⟩, .change 1 1 ⟨3⟩, .change 1 1 ⟨-4⟩,
    .change 2 0 ⟨-1⟩, .manage (.updateState 1 .unavailable), .manage (.updateState 1 .available)]

theorem overReleaseRun_balanced : ∃ m inst, Run execLedger AnnouncesZero new overReleaseRun m ∧
    m.availablePool.get? 1 = some inst ∧ inst.gatheredWorkload = ⟨5⟩ ∧ inst.Balanced := by
  have hload : (runList execLedger AnnouncesZero new overReleaseRun).bind (fun m =>
      (m.availablePool.get? 1).map (·.gatheredWorkload)) = some ⟨5⟩ := by decide +kernel
  obtain ⟨m, hm, hload⟩ := Option.bind_eq_some_iff.mp hload
  obtain ⟨inst, hget, hload⟩ := Option.map_eq_some_iff.mp hload
  exact ⟨m, inst, runList_run hm, hget, hload, (ledger_balanced (runList_run hm)).1 1 inst hget⟩

end InstanceManager

end PyMotor.Coordinator
