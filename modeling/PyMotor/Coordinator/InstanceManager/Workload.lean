import Mathlib.Algebra.Order.Field.Rat
import PyMotor.Coordinator.InstanceManager

/-!
# Loads

A load changes when a request is placed on an endpoint or leaves it
(`coordinator/domain/instance_manager.py`). It never becomes negative: a release of more than there is
leaves zero, and the load of the instance is then added up anew.

The available pool and the pool of the role hold the same object, so a change is seen in both.
-/

namespace PyMotor.Coordinator

namespace Workload

def add (a b : Workload) : Workload := ⟨a.activeTokens + b.activeTokens⟩

def clampFloor (w : Workload) : Workload := if w.activeTokens < 0 then .zero else w

end Workload

namespace Instance

/-- The endpoint at a pod and a key. -/
def endpointAt (i : Instance) (place : String × EndpointId) : Option Endpoint :=
  (i.endpoints.get? place.1).bind (·.get? place.2)

def setEndpoint (i : Instance) (place : String × EndpointId) (ep : Endpoint) : Instance :=
  match i.endpoints.get? place.1 with
  | none => i
  | some pod => { i with endpoints := i.endpoints.insert place.1 (pod.insert place.2 ep) }

/-- The endpoints with their loads floored, and the sum of these. -/
def rebuildInstanceWorkload (i : Instance) : Instance :=
  let i := { i with
    endpoints := i.endpoints.mapVal fun _ pod => pod.mapVal fun _ ep =>
      { ep with workload := ep.workload.clampFloor } }
  { i with
    gatheredWorkload := ⟨i.allEndpoints.foldl (fun sum ep => sum + ep.workload.activeTokens) 0⟩ }

/-- An endpoint's load changes, and with it the load of the instance. -/
def changeWorkload (i : Instance) (place : String × EndpointId) (ep : Endpoint) (change : Workload) :
    Instance :=
  let workload := ep.workload.add change
  if workload.activeTokens < 0 then
    (i.setEndpoint place { ep with workload := .zero }).rebuildInstanceWorkload
  else
    { i.setEndpoint place { ep with workload := workload } with
      gatheredWorkload := i.gatheredWorkload.add change }

/-- The role, for which an empty string stands for a union. -/
def roleOrUnion (i : Instance) : Option PDRole :=
  if i.role = "" then some .union else PDRole.ofString i.role

end Instance

namespace InstanceManager

/-- Where the endpoints of an available instance are. The index is built if it is missing. -/
def endpointPlaces (m : InstanceManager) (id : InstanceId) (inst : Instance) :
    Dict EndpointId (String × EndpointId) × InstanceManager :=
  match m.endpointIdCache.get? id with
  | some places => (places, m)
  | none =>
    (inst.endpointCache, { m with
      endpointIdCache := m.endpointIdCache.insert id inst.endpointCache })

/-- The object of an available instance changes, in all pools that hold it. -/
def changeInstance (m : InstanceManager) (id : InstanceId) (inst : Instance) : InstanceManager :=
  { m with
    availablePool := m.availablePool.insert id inst
    rolePools :=
      match PDRole.ofString inst.role with
      | none => m.rolePools
      | some role => Function.update m.rolePools role ((m.rolePools role).insert id inst) }

/-- The role of the instance and the new load of the endpoint, if there is such an endpoint. -/
def updateInstanceWorkloadSync (m : InstanceManager) (id : InstanceId) (endpointId : EndpointId)
    (change : Workload) : Except PyError (Option (PDRole × Workload)) × InstanceManager :=
  match m.availablePool.get? id with
  | none => (.ok none, m)
  | some inst =>
    let (places, m) := m.endpointPlaces id inst
    match places.get? endpointId with
    | none => (.ok none, m)
    | some place =>
      match inst.endpointAt place with
      | none => (.ok none, m)
      | some ep =>
        let m := m.changeInstance id (inst.changeWorkload place ep change)
        match inst.roleOrUnion with
        | none => (.error (.valueError inst.role), m)
        | some role => (.ok (some (role, (ep.workload.add change).clampFloor)), m)

/-- The role of the instance and the load of the endpoint. -/
def getEndpointWorkloadSync (m : InstanceManager) (id : InstanceId) (endpointId : EndpointId) :
    Except PyError (Option (PDRole × Workload)) × InstanceManager :=
  match m.availablePool.get? id with
  | none => (.ok none, m)
  | some inst =>
    let (places, m) := m.endpointPlaces id inst
    match (places.get? endpointId).bind inst.endpointAt with
    | none => (.ok none, m)
    | some ep =>
      match inst.roleOrUnion with
      | none => (.error (.valueError inst.role), m)
      | some role => (.ok (some (role, ep.workload)), m)

/-! ## What an update leaves as it is -/

variable {m : InstanceManager} {id : InstanceId} {endpointId : EndpointId} {change : Workload}

theorem endpointPlaces_rolePools (inst : Instance) :
    (m.endpointPlaces id inst).2.rolePools = m.rolePools := by
  unfold endpointPlaces
  split <;> rfl

theorem changeWorkload_role (inst : Instance) (place : String × EndpointId) (ep : Endpoint) :
    (inst.changeWorkload place ep change).role = inst.role := by
  have hset : ∀ ep, (inst.setEndpoint place ep).role = inst.role := by
    intro ep
    unfold Instance.setEndpoint
    split <;> rfl
  unfold Instance.changeWorkload
  simp only
  split
  · exact hset _
  · exact hset _

theorem roleOrUnion_of_known {inst : Instance} {role : PDRole}
    (h : PDRole.ofString inst.role = some role) : inst.roleOrUnion = some role := by
  have hne : inst.role ≠ "" := by
    intro hempty
    rw [hempty] at h
    cases h
  rw [Instance.roleOrUnion, if_neg hne, h]

/-- **An update changes the pool of one role**, and it says which. -/
theorem updateInstanceWorkloadSync_rolePools (role : PDRole) :
    (m.updateInstanceWorkloadSync id endpointId change).2.rolePools role = m.rolePools role ∨
      ∃ workload, (m.updateInstanceWorkloadSync id endpointId change).1 =
        .ok (some (role, workload)) := by
  unfold updateInstanceWorkloadSync
  cases m.availablePool.get? id with
  | none => exact Or.inl rfl
  | some inst =>
    have hplaces : (m.endpointPlaces id inst).2.rolePools = m.rolePools :=
      endpointPlaces_rolePools inst
    simp only
    generalize m.endpointPlaces id inst = r at hplaces
    obtain ⟨places, m'⟩ := r
    simp only at hplaces ⊢
    cases places.get? endpointId with
    | none => exact Or.inl (congrFun hplaces role)
    | some place =>
      simp only
      cases inst.endpointAt place with
      | none => exact Or.inl (congrFun hplaces role)
      | some ep =>
        simp only
        cases hrole : PDRole.ofString inst.role with
        | none =>
          refine Or.inl ?_
          have hpools : (m'.changeInstance id (inst.changeWorkload place ep change)).rolePools =
              m'.rolePools := by
            rw [changeInstance, changeWorkload_role, hrole]
          split <;> exact congrFun (hpools.trans hplaces) role
        | some r =>
          rw [roleOrUnion_of_known hrole]
          simp only
          by_cases heq : role = r
          · exact Or.inr ⟨_, by rw [heq]⟩
          · refine Or.inl ?_
            rw [changeInstance, changeWorkload_role, hrole]
            simp only
            rw [Function.update_of_ne heq]
            exact congrFun hplaces role

theorem getEndpointWorkloadSync_rolePools :
    (m.getEndpointWorkloadSync id endpointId).2.rolePools = m.rolePools := by
  unfold getEndpointWorkloadSync
  cases m.availablePool.get? id with
  | none => rfl
  | some inst =>
    have hplaces : (m.endpointPlaces id inst).2.rolePools = m.rolePools :=
      endpointPlaces_rolePools inst
    simp only
    split
    · exact hplaces
    · split <;> exact hplaces

end InstanceManager

end PyMotor.Coordinator
