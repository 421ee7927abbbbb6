import Mathlib.Data.List.Enum
import PyMotor.Controller.InstanceAssembler.Pods
import PyMotor.Controller.InstanceAssembler.Threads

/-!
# Pods that are being added

Until the pods of an entry are counted, each has its endpoints, or a call is about to bring them, or the
pass is about to drop it (`Waits`). What a step of a call or of the pass does to an instance keeps this.
-/

namespace PyMotor.Controller

open Coordinator (EndpointId NodeManagerInfo)

/-! ## Pods with endpoints -/

namespace Instance

/-- The pod has an address and endpoints, all of them headless or none. -/
def HasPod (i : Instance) (nm : NodeManagerInfo) (headless : Bool) : Prop :=
  nm.podIp ≠ "" ∧ ∃ pod, i.endpoints.get? nm.podIp = some pod ∧ pod.values ≠ [] ∧
    ∀ ep ∈ pod.values, ep.headless = headless

/-- All pods have endpoints, headless ones where the pod is not the first of its group. -/
def Grouped (i : Instance) (nnodes : Int) : Prop :=
  ∀ p ∈ i.nodeManagers.zipIdx, i.HasPod p.1 (decide (1 < nnodes ∧ (p.2 : Int) % nnodes ≠ 0))

/-- Only pods with a node manager have endpoints. -/
def Covered (i : Instance) : Prop :=
  ∀ podIp, i.endpoints.contains podIp = true → i.hasNodeMgr podIp = true

variable {i i' : Instance} {nm : NodeManagerInfo} {headless : Bool} {msg : RegisterMsg}

theorem hasNodeMgr_iff {podIp : String} :
    i.hasNodeMgr podIp = true ↔ ∃ nm ∈ i.nodeManagers, nm.podIp = podIp := by
  simp [hasNodeMgr]

theorem headless_buildEndpoints {offset : ℕ} {endpoints : Dict EndpointId Endpoint}
    (h : msg.buildEndpoints offset = some endpoints) : ∀ ep ∈ endpoints.values, ep.headless = false := by
  unfold RegisterMsg.buildEndpoints at h
  split at h
  · refine foldlM_invariant (I := fun endpoints : Dict EndpointId Endpoint =>
      ∀ ep ∈ endpoints.values, ep.headless = false) (fun p _ before after hbefore hstep => ?_) (by simp) h
    obtain ⟨infos, -, hport⟩ := Option.bind_eq_some_iff.mp hstep
    obtain ⟨mgmtPort, -, rfl⟩ := Option.map_eq_some_iff.mp hport
    intro ep hep
    obtain ⟨k, hk⟩ := Dict.mem_values_iff.mp hep
    rw [Dict.get?_insert] at hk
    split at hk
    · cases hk
      rfl
    · exact hbefore ep (Dict.mem_values_iff.mpr ⟨k, hk⟩)
  · unfold RegisterMsg.buildSingleEndpoint at h
    split at h
    · cases h
      intro ep hep
      obtain rfl := List.mem_singleton.mp hep
      rfl
    · cases h

theorem HasPod.of_get? (h : i.HasPod nm headless)
    (hsame : i'.endpoints.get? nm.podIp = i.endpoints.get? nm.podIp) : i'.HasPod nm headless := by
  rw [HasPod, hsame]
  exact h

theorem HasPod.of_toInstance (h : i.HasPod nm headless) (hsame : i'.toInstance = i.toInstance) :
    i'.HasPod nm headless := by
  obtain ⟨haddress, pod, hpod, hne, hheadless⟩ := h
  have hget := congrArg (fun i : Coordinator.Instance => i.endpoints.get? nm.podIp) hsame
  simp only [toInstance, Dict.get?_mapVal, hpod, Option.map_some] at hget
  obtain ⟨pod', hpod', heq⟩ := Option.map_eq_some_iff.mp hget
  have hvalues : pod'.values.map (·.toEndpoint) = pod.values.map (·.toEndpoint) := by
    simpa [Dict.values, Dict.mapVal, Function.comp_def] using congrArg Dict.values heq
  refine ⟨haddress, pod', hpod', ?_, fun ep hep => ?_⟩
  · intro hnil
    rw [hnil, List.map_nil, eq_comm, List.map_eq_nil_iff] at hvalues
    exact hne hvalues
  · have hmem : ep.toEndpoint ∈ pod.values.map (·.toEndpoint) := hvalues ▸ List.mem_map_of_mem hep
    obtain ⟨ep₀, hep₀, hsame⟩ := List.mem_map.mp hmem
    exact (congrArg Coordinator.Endpoint.headless hsame).symm.trans (hheadless ep₀ hep₀)

theorem toInstance_nodeManagers (h : i'.toInstance = i.toInstance) :
    i'.nodeManagers = i.nodeManagers :=
  congrArg Coordinator.Instance.nodeManagers h

theorem Covered.of_toInstance (h : i.Covered) (hsame : i'.toInstance = i.toInstance) : i'.Covered := by
  intro podIp hpod
  have hget := congrArg (fun i : Coordinator.Instance => (i.endpoints.get? podIp).isSome) hsame
  simp only [toInstance, Dict.get?_mapVal, Option.isSome_map] at hget
  rw [hasNodeMgr, toInstance_nodeManagers hsame]
  exact h podIp (hget.symm.trans hpod)

theorem nodeManagers_delNodeMgr (hips : (i.nodeManagers.map (·.podIp)).Nodup) (hnm : nm ∈ i.nodeManagers) :
    (i.delNodeMgr nm.podIp nm.port).nodeManagers =
      i.nodeManagers.filter fun nm' => decide (nm'.podIp ≠ nm.podIp) := by
  simp only [delNodeMgr]
  generalize i.nodeManagers = nms at hips hnm
  induction nms with
  | nil => rfl
  | cons first rest ih =>
    rw [List.map_cons, List.nodup_cons] at hips
    by_cases hfirst : first.podIp = nm.podIp
    · obtain rfl | hrest := List.mem_cons.mp hnm
      · rw [List.eraseP_cons_of_pos (by simp), List.filter_cons_of_neg (by simp), eq_comm,
          List.filter_eq_self]
        intro nm' hnm'
        refine decide_eq_true fun heq => hips.1 ?_
        exact heq ▸ List.mem_map_of_mem hnm'
      · exact absurd (hfirst ▸ List.mem_map_of_mem hrest) hips.1
    · rw [List.eraseP_cons_of_neg (by simp [hfirst]), List.filter_cons_of_pos (by simp [hfirst])]
      refine congrArg _ (ih hips.2 ?_)
      obtain rfl | hrest := List.mem_cons.mp hnm
      · exact absurd rfl hfirst
      · exact hrest

/-- The endpoints of a pod become headless if it is not the first of its group, -/
theorem HasPod.markPod_self {nnodes : Int} {p : NodeManagerInfo × ℕ} (h : i.HasPod p.1 false) :
    (i.markPod nnodes p).HasPod p.1 (decide ((p.2 : Int) % nnodes ≠ 0)) := by
  obtain ⟨haddress, pod, hpod, hne, hheadless⟩ := h
  unfold markPod
  split
  · next hfirst => exact ⟨haddress, pod, hpod, hne, by simpa [hfirst] using hheadless⟩
  · next hother =>
    simp only [hpod, hother, ne_eq, not_false_eq_true, decide_true]
    refine ⟨haddress, _, Dict.get?_insert_self _ _ _, ?_, fun ep hep => ?_⟩
    · simpa [Dict.values, Dict.mapVal] using hne
    · obtain ⟨k, hk⟩ := Dict.mem_values_iff.mp hep
      rw [Dict.get?_mapVal] at hk
      obtain ⟨ep₀, -, rfl⟩ := Option.map_eq_some_iff.mp hk
      rfl

theorem HasPod.markPod_other {nnodes : Int} {p : NodeManagerInfo × ℕ} (h : i.HasPod nm headless)
    (hip : p.1.podIp ≠ nm.podIp) : (i.markPod nnodes p).HasPod nm headless := by
  unfold markPod
  split
  · exact h
  · split
    · exact h
    · exact h.of_get? (Dict.get?_insert_ne _ _ hip)

theorem markPod_nodeManagers {nnodes : Int} {p : NodeManagerInfo × ℕ} :
    (i.markPod nnodes p).nodeManagers = i.nodeManagers := by
  unfold markPod
  split
  · rfl
  · split <;> rfl

theorem Covered.markPod {nnodes : Int} {p : NodeManagerInfo × ℕ} (h : i.Covered) :
    (i.markPod nnodes p).Covered := by
  intro podIp hpod
  rw [hasNodeMgr, markPod_nodeManagers]
  unfold Instance.markPod at hpod
  split at hpod
  · exact h podIp hpod
  · split at hpod
    · exact h podIp hpod
    · next pod hget =>
      obtain rfl | hpod := Dict.contains_insert.mp hpod
      · exact h _ (Dict.contains_of_some hget)
      · exact h podIp hpod

theorem hasNodeMgr_delNodeMgr {podIp : String} (hips : (i.nodeManagers.map (·.podIp)).Nodup)
    (hnm : nm ∈ i.nodeManagers) (hip : podIp ≠ nm.podIp) :
    (i.delNodeMgr nm.podIp nm.port).hasNodeMgr podIp = i.hasNodeMgr podIp := by
  rw [Bool.eq_iff_iff, hasNodeMgr_iff, hasNodeMgr_iff, nodeManagers_delNodeMgr hips hnm]
  refine exists_congr fun nm' => ?_
  rw [List.mem_filter, decide_eq_true_eq, and_assoc]
  exact and_congr_right fun _ => ⟨fun h => h.2, fun heq => ⟨heq ▸ hip, heq⟩⟩

theorem nodeManagers_addNodeMgr (hnew : i.hasNodeMgr msg.podIp = false) :
    (i.addNodeMgr msg.nodeMgr).nodeManagers = i.nodeManagers ++ [msg.nodeMgr] := by
  rw [addNodeMgr_eq hnew]

theorem endpoints_addNodeMgr : (i.addNodeMgr nm).endpoints = i.endpoints := by
  unfold addNodeMgr
  split <;> rfl

theorem hasNodeMgr_addNodeMgr (hnew : i.hasNodeMgr msg.podIp = false) (podIp : String) :
    (i.addNodeMgr msg.nodeMgr).hasNodeMgr podIp =
      (i.hasNodeMgr podIp || decide (msg.podIp = podIp)) := by
  rw [hasNodeMgr, nodeManagers_addNodeMgr hnew, List.any_append]
  simp [hasNodeMgr, RegisterMsg.nodeMgr]

theorem Covered.addNodeMgr (h : i.Covered) (hnew : i.hasNodeMgr msg.podIp = false) :
    (i.addNodeMgr msg.nodeMgr).Covered := by
  intro podIp hpod
  rw [endpoints_addNodeMgr] at hpod
  rw [hasNodeMgr_addNodeMgr hnew, h podIp hpod, Bool.true_or]

theorem Covered.addEndpoints (h : i.Covered) {podIp : String} {endpoints : Dict EndpointId Endpoint}
    (hhas : i.hasNodeMgr podIp = true) : (i.addEndpoints podIp endpoints).Covered := by
  intro podIp' hpod
  obtain rfl | hpod := Dict.contains_insert.mp hpod
  · exact hhas
  · exact h podIp' hpod

theorem Covered.delEndpoints (h : i.Covered) (podIp : String) : (i.delEndpoints podIp).Covered := by
  intro podIp' hpod
  obtain ⟨pod, hget⟩ := Dict.contains_iff.mp hpod
  exact h podIp' (Dict.contains_of_some (Dict.get?_of_erase hget))

theorem Covered.delNodeMgr (h : i.Covered) (hips : (i.nodeManagers.map (·.podIp)).Nodup)
    (hnm : nm ∈ i.nodeManagers) (hnone : i.endpoints.get? nm.podIp = none) :
    (i.delNodeMgr nm.podIp nm.port).Covered := by
  intro podIp hpod
  obtain ⟨pod, hget⟩ := Dict.contains_iff.mp hpod
  refine (hasNodeMgr_delNodeMgr hips hnm ?_).trans (h podIp hpod)
  rintro rfl
  cases hnone.symm.trans hget

end Instance

/-! ## An entry and its threads -/

namespace PassPhase

/-- The pods were counted and found to be complete. -/
def found : PassPhase → Bool
  | .ready => true
  | .marking _ => true
  | _ => false

/-- The node managers of the copy that the pass is not done with. -/
def todo : PassPhase → List NodeManagerInfo
  | .filtering todo => todo
  | .dropping nm todo => nm :: todo
  | _ => []

/-- The pod whose endpoints are gone. -/
def leaving : PassPhase → Option NodeManagerInfo
  | .dropping nm _ => some nm
  | _ => none

theorem mem_todo_of_leaving {pass : PassPhase} {nm : NodeManagerInfo} (h : pass.leaving = some nm) :
    nm ∈ pass.todo := by
  cases pass <;> simp_all [leaving, todo]

end PassPhase

/-- A call that goes on to add its pod finds the node manager where it has put it, and brings endpoints. -/
structure RegisterCall.Fits (c : RegisterCall) (i : Instance) : Prop where
  address : c.msg.podIp ≠ ""
  nodeMgr : i.hasNodeMgr c.msg.podIp = c.arrives
  endpoints : ∀ endpoints, c.phase = .built endpoints →
    endpoints.values ≠ [] ∧ ∀ ep ∈ endpoints.values, ep.headless = false

/-- Before the pods are counted, with the calls that go on to add one: a pod has its endpoints, or they
are to come, or they are gone and it will be. -/
structure Waits (i : Instance) (joiner : ℕ → Option RegisterCall) (pass : PassPhase) : Prop where
  found : pass.found = false
  calls : ∀ n c, joiner n = some c → c.Fits i
  apart : ∀ n n' c c', joiner n = some c → joiner n' = some c' → c.msg.podIp = c'.msg.podIp → n = n'
  pods : ∀ nm ∈ i.nodeManagers, i.HasPod nm false ∨
    (∃ n c, joiner n = some c ∧ c.arrives = true ∧ c.msg.podIp = nm.podIp) ∨ pass.leaving = some nm
  todo : pass.todo.Sublist i.nodeManagers
  leaving : ∀ nm, pass.leaving = some nm → i.endpoints.get? nm.podIp = none ∧
    ∀ n c, joiner n = some c → c.msg.podIp ≠ nm.podIp

/-- The pods up to the one that is marked next are as they should be. -/
def PassPhase.Marks (i : Instance) (nnodes : Int) : PassPhase → Prop
  | .ready => ∀ nm ∈ i.nodeManagers, i.HasPod nm false
  | .marking todo => 1 < nnodes ∧ ∃ done, i.nodeManagers.zipIdx = done ++ todo ∧
      (∀ p ∈ done, i.HasPod p.1 (decide (1 < nnodes ∧ (p.2 : Int) % nnodes ≠ 0))) ∧
      ∀ p ∈ todo, i.HasPod p.1 false
  | _ => False

/-- The commands of the round went to the pods so far. -/
def RoundPhase.Fits (md : AssembleInstanceMetadata) : RoundPhase → Prop
  | .sending masterDpIp nodeManagers todo sent _ => nodeManagers = md.ins.nodeManagers ∧
      ∃ done, md.ins.nodeManagers.zipIdx = done ++ todo ∧ sent = done.map (md.commandFor masterDpIp)
  | _ => True

namespace Waits

variable {i i' : Instance} {joiner : ℕ → Option RegisterCall} {pass pass' : PassPhase}
  {n : ℕ} {c : RegisterCall} {msg : RegisterMsg} {nm : NodeManagerInfo} {todo : List NodeManagerInfo}

theorem of_update {o : Option RegisterCall} {k : ℕ} (h : Function.update joiner n o k = some c) :
    k = n ∧ o = some c ∨ k ≠ n ∧ joiner k = some c := by
  rw [Function.update_apply] at h
  split at h
  · next heq => exact Or.inl ⟨heq, h⟩
  · next hne => exact Or.inr ⟨hne, h⟩

/-- A call goes on, and may add its node manager. -/
theorem enter (h : Waits i joiner pass) (hfits : c.Fits i')
    (hsub : i.nodeManagers.Sublist i'.nodeManagers) (hsame : i'.endpoints = i.endpoints)
    (hnew : ∀ nm ∈ i'.nodeManagers, nm ∈ i.nodeManagers ∨ c.arrives = true ∧ c.msg.podIp = nm.podIp)
    (hhas : ∀ podIp, podIp ≠ c.msg.podIp → i'.hasNodeMgr podIp = i.hasNodeMgr podIp)
    (hother : ∀ k c', joiner k = some c' → c'.msg.podIp = c.msg.podIp → k = n)
    (hleaving : ∀ nm, pass.leaving = some nm → c.msg.podIp ≠ nm.podIp)
    (harrives : ∀ c', joiner n = some c' → c'.arrives = true →
      c.arrives = true ∧ c.msg.podIp = c'.msg.podIp) :
    Waits i' (Function.update joiner n (some c)) pass := by
  refine ⟨h.found, fun k c' hk => ?_, fun k k' c₁ c₂ hk hk' heq => ?_, fun nm hnm => ?_,
    h.todo.trans hsub, fun nm hl => ⟨hsame ▸ (h.leaving nm hl).1, fun k c' hk => ?_⟩⟩
  · obtain ⟨-, heq⟩ | ⟨hne, hold⟩ := of_update hk
    · exact Option.some.inj heq ▸ hfits
    · have hold' := h.calls k c' hold
      exact ⟨hold'.address, (hhas _ fun heq => hne (hother k c' hold heq)).trans hold'.nodeMgr,
        hold'.endpoints⟩
  · obtain ⟨rfl, hc₁⟩ | ⟨-, hold⟩ := of_update hk
    · obtain ⟨rfl, -⟩ | ⟨-, hold'⟩ := of_update hk'
      · rfl
      · exact (hother k' c₂ hold' (Option.some.inj hc₁ ▸ heq.symm)).symm
    · obtain ⟨rfl, hc₂⟩ | ⟨-, hold'⟩ := of_update hk'
      · exact hother k c₁ hold (Option.some.inj hc₂ ▸ heq)
      · exact h.apart k k' c₁ c₂ hold hold' heq
  · obtain hin | harriving := hnew nm hnm
    · obtain hpod | ⟨k, c', hk, hcome, hip⟩ | hl := h.pods nm hin
      · exact Or.inl (hpod.of_get? (by rw [hsame]))
      · by_cases hkn : k = n
        · subst hkn
          obtain ⟨hcome', hip'⟩ := harrives c' hk hcome
          exact Or.inr (Or.inl ⟨k, c, Function.update_self .., hcome', hip'.trans hip⟩)
        · exact Or.inr (Or.inl ⟨k, c', (Function.update_of_ne hkn ..).trans hk, hcome, hip⟩)
      · exact Or.inr (Or.inr hl)
    · exact Or.inr (Or.inl ⟨n, c, Function.update_self .., harriving⟩)
  · obtain ⟨-, heq⟩ | ⟨-, hold⟩ := of_update hk
    · exact Option.some.inj heq ▸ hleaving nm hl
    · exact (h.leaving nm hl).2 k c' hold

theorem begin (h : Waits i joiner pass) (hnone : joiner n = none) (hnew : i.hasNodeMgr msg.podIp = false)
    (haddress : msg.podIp ≠ "") (hapart : ∀ k c, joiner k = some c → c.msg.podIp ≠ msg.podIp) :
    Waits i (Function.update joiner n (some ⟨msg, .isNew⟩)) pass := by
  refine h.enter ⟨haddress, hnew, by simp⟩ (List.Sublist.refl _) rfl (fun _ => Or.inl) (fun _ _ => rfl)
    (fun k c hc heq => absurd heq (hapart k c hc)) (fun nm hl heq => ?_) fun c hc => ?_
  · -- a pod that is being dropped has its node manager
    have hnm := h.todo.subset (PassPhase.mem_todo_of_leaving hl)
    rw [Instance.hasNodeMgr_iff.mpr ⟨nm, hnm, heq.symm⟩] at hnew
    cases hnew
  · cases hnone.symm.trans hc

theorem goOn (h : Waits i joiner pass) {old phase : CallPhase} (hc : joiner n = some ⟨msg, old⟩)
    (harrives : (⟨msg, phase⟩ : RegisterCall).arrives = (⟨msg, old⟩ : RegisterCall).arrives)
    (hbuilt : ∀ endpoints, phase = .built endpoints →
      endpoints.values ≠ [] ∧ ∀ ep ∈ endpoints.values, ep.headless = false) :
    Waits i (Function.update joiner n (some ⟨msg, phase⟩)) pass := by
  have hfits := h.calls n _ hc
  refine h.enter ⟨hfits.address, hfits.nodeMgr.trans harrives.symm, hbuilt⟩ (List.Sublist.refl _) rfl
    (fun _ => Or.inl) (fun _ _ => rfl) (fun k c hk heq => h.apart k n c _ hk hc heq)
    (fun nm hl => (h.leaving nm hl).2 n ⟨msg, old⟩ hc) fun c hk hcome => ?_
  cases hc.symm.trans hk
  exact ⟨harrives.trans hcome, rfl⟩

theorem addNodeMgr (h : Waits i joiner pass) (hc : joiner n = some ⟨msg, .recorded⟩) :
    Waits (i.addNodeMgr msg.nodeMgr) (Function.update joiner n (some ⟨msg, .added⟩)) pass := by
  have hfits := h.calls n _ hc
  have hmgrs := Instance.nodeManagers_addNodeMgr hfits.nodeMgr
  have hhas := Instance.hasNodeMgr_addNodeMgr hfits.nodeMgr
  refine h.enter ⟨hfits.address, by simp [hhas, RegisterCall.arrives], by simp⟩
    (hmgrs ▸ List.sublist_append_left _ _) Instance.endpoints_addNodeMgr (fun nm hnm => ?_)
    (fun podIp hip => by simp [hhas, Ne.symm hip]) (fun k c hk heq => h.apart k n c _ hk hc heq)
    (fun nm hl => (h.leaving nm hl).2 n ⟨msg, .recorded⟩ hc) fun c hk hcome => ?_
  · refine (List.mem_append.mp (hmgrs ▸ hnm)).imp_right fun hlast => ?_
    exact ⟨rfl, congrArg NodeManagerInfo.podIp (List.mem_singleton.mp hlast).symm⟩
  · cases hc.symm.trans hk
    cases hcome

theorem addEndpoints (h : Waits i joiner pass) {endpoints : Dict EndpointId Endpoint}
    (hc : joiner n = some ⟨msg, .built endpoints⟩) :
    Waits (i.addEndpoints msg.podIp endpoints) (Function.update joiner n none) pass := by
  obtain ⟨haddress, -, hbuilt⟩ := h.calls n _ hc
  have hold {k : ℕ} {c : RegisterCall} (hk : Function.update joiner n none k = some c) :
      joiner k = some c := by
    obtain ⟨-, hnone⟩ | ⟨-, hold⟩ := of_update hk
    · cases hnone
    · exact hold
  refine ⟨h.found, fun k c hk => ?_, fun k k' c c' hk hk' => h.apart k k' c c' (hold hk) (hold hk'),
    fun nm hnm => ?_, h.todo, fun nm hl => ⟨?_, fun k c hk => (h.leaving nm hl).2 k c (hold hk)⟩⟩
  · have hfits := h.calls k c (hold hk)
    exact ⟨hfits.address, hfits.nodeMgr, hfits.endpoints⟩
  · by_cases hip : msg.podIp = nm.podIp
    · exact Or.inl ⟨hip ▸ haddress, endpoints, hip ▸ Dict.get?_insert_self _ _ _, hbuilt endpoints rfl⟩
    · refine (h.pods nm hnm).imp (·.of_get? (Dict.get?_insert_ne _ _ hip)) (Or.imp_left ?_)
      rintro ⟨k, c, hk, hcome, hsame⟩
      refine ⟨k, c, (Function.update_of_ne ?_ ..).trans hk, hcome, hsame⟩
      rintro rfl
      cases hc.symm.trans hk
      exact hip hsame
  · exact (Dict.get?_insert_ne _ _ ((h.leaving nm hl).2 n _ hc)).trans (h.leaving nm hl).1

theorem move (h : Waits i joiner pass) (hfound : pass'.found = false) (hold : pass.leaving = none)
    (hnew : pass'.leaving = none) (htodo : pass'.todo.Sublist i.nodeManagers) :
    Waits i joiner pass' := by
  refine ⟨hfound, h.calls, h.apart, fun nm hnm => ?_, htodo, fun nm hl => ?_⟩
  · obtain hpod | harriving | hl := h.pods nm hnm
    · exact Or.inl hpod
    · exact Or.inr (Or.inl harriving)
    · cases hold.symm.trans hl
  · cases hnew.symm.trans hl

theorem delEndpoints (h : Waits i joiner (.filtering (nm :: todo)))
    (hips : (i.nodeManagers.map (·.podIp)).Nodup)
    (hapart : ∀ n c, joiner n = some c → c.msg.podIp ≠ nm.podIp) :
    Waits (i.delEndpoints nm.podIp) joiner (.dropping nm todo) := by
  refine ⟨rfl, fun k c hk => ?_, h.apart, fun nm' hnm' => ?_, h.todo, fun nm' hl => ?_⟩
  · have hfits := h.calls k c hk
    exact ⟨hfits.address, hfits.nodeMgr, hfits.endpoints⟩
  · by_cases hip : nm'.podIp = nm.podIp
    · obtain rfl := List.inj_on_of_nodup_map hips hnm' (h.todo.subset List.mem_cons_self) hip
      exact Or.inr (Or.inr rfl)
    · obtain hpod | harriving | hl := h.pods nm' hnm'
      · exact Or.inl (hpod.of_get? (Dict.get?_erase_ne _ (Ne.symm hip)))
      · exact Or.inr (Or.inl harriving)
      · cases hl
  · cases hl
    exact ⟨Dict.get?_erase_self _ _, hapart⟩

theorem delNodeMgr (h : Waits i joiner (.dropping nm todo))
    (hips : (i.nodeManagers.map (·.podIp)).Nodup) :
    Waits (i.delNodeMgr nm.podIp nm.port) joiner (.filtering todo) := by
  have hnm := h.todo.subset List.mem_cons_self
  have hmgrs := Instance.nodeManagers_delNodeMgr hips hnm
  obtain ⟨-, hapart⟩ := h.leaving nm rfl
  refine ⟨rfl, fun k c hk => ?_, h.apart, fun nm' hnm' => ?_, ?_, fun nm' hl => by cases hl⟩
  · have hfits := h.calls k c hk
    exact ⟨hfits.address, (Instance.hasNodeMgr_delNodeMgr hips hnm (hapart k c hk)).trans hfits.nodeMgr,
      hfits.endpoints⟩
  · obtain ⟨hin, hother⟩ := List.mem_filter.mp (hmgrs ▸ hnm')
    obtain hpod | harriving | hl := h.pods nm' hin
    · exact Or.inl (hpod.of_get? rfl)
    · exact Or.inr (Or.inl harriving)
    · cases hl
      exact absurd rfl (of_decide_eq_true hother)
  · have hdistinct : ((nm :: todo).map (·.podIp)).Nodup := hips.sublist (h.todo.map _)
    rw [List.map_cons, List.nodup_cons] at hdistinct
    have hkept := h.todo.filter fun nm' => decide (nm'.podIp ≠ nm.podIp)
    rw [PassPhase.todo, List.filter_cons_of_neg (by simp), List.filter_eq_self.mpr] at hkept
    · exact hmgrs ▸ hkept
    · exact fun nm' hnm' => decide_eq_true fun heq => hdistinct.1 (heq ▸ List.mem_map_of_mem hnm')

end Waits

/-- The endpoints of the next pod are marked. -/
theorem PassPhase.Marks.step {i : Instance} {nnodes : Int} {p : NodeManagerInfo × ℕ}
    {todo : List (NodeManagerInfo × ℕ)} (h : (PassPhase.marking (p :: todo)).Marks i nnodes)
    (hips : (i.nodeManagers.map (·.podIp)).Nodup) :
    (PassPhase.marking todo).Marks (i.markPod nnodes p) nnodes := by
  obtain ⟨hnodes, done, hsplit, hdone, htodo⟩ := h
  -- the pod is not among those before or after it
  have hdistinct : (((done ++ p :: todo).map Prod.fst).map (·.podIp)).Nodup := by
    rw [← hsplit, List.zipIdx_map_fst]
    exact hips
  rw [List.map_map, List.map_append, List.map_cons, List.nodup_append, List.nodup_cons] at hdistinct
  obtain ⟨-, ⟨hafter, -⟩, hbefore⟩ := hdistinct
  refine ⟨hnodes, done ++ [p], ?_, List.forall_mem_append.mpr ⟨fun q hq => ?_,
    List.forall_mem_singleton.mpr ?_⟩, fun q hq => ?_⟩
  · rw [Instance.markPod_nodeManagers, hsplit, List.append_assoc, List.singleton_append]
  · refine (hdone q hq).markPod_other fun heq => ?_
    exact hbefore _ (List.mem_map_of_mem hq) _ List.mem_cons_self heq.symm
  · have hself : (i.markPod nnodes p).HasPod p.1 (decide ((p.2 : Int) % nnodes ≠ 0)) :=
      (htodo p List.mem_cons_self).markPod_self
    simpa [hnodes] using hself
  · refine (htodo q (List.mem_cons_of_mem _ hq)).markPod_other fun heq => hafter ?_
    exact List.mem_map.mpr ⟨q, hq, heq.symm⟩

end PyMotor.Controller
