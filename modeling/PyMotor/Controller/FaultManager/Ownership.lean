import PyMotor.Controller.FaultManager.Statuses
import PyMotor.Controller.FaultManager.Isolation

/-!
# Who is on a node

Of every node the fault manager keeps three maps: the instances on it, their pods and their jobs. An
instance that is removed stays in them, for the node's faults outlive it. The next instance is added, or
takes the node over if only removed instances of other jobs are left there; then two of the maps are
started afresh, and the third one is not. The maps agree, and a pod is found on the node where it runs,
as long as no node is taken over and addresses and ids are not used again elsewhere
(`ownership_consistent`).

The notifications come one after the other. What Kubernetes has answered last about the pods of an
instance is kept along with the state, for the statements only.
-/

namespace PyMotor.Controller

open Coordinator (InstanceId EndpointId)

/-- The three maps have the same instances. -/
structure NodeMetadata.KeysAgree (node : NodeMetadata) : Prop where
  pods : ∀ id, node.instancePodIps.contains id = true ↔ id ∈ node.instanceIds
  jobs : ∀ id, node.instanceJobNames.contains id = true ↔ id ∈ node.instanceIds

namespace FaultManager

variable {fm : FaultManager} {name k podIp jobName : String} {id j : InstanceId} {node : NodeMetadata}

/-- The instance has a part in what is known of the node. -/
def IsOn (fm : FaultManager) (id : InstanceId) (name : String) : Prop :=
  ∃ node, fm.nodes.get? name = some node ∧ id ∈ node.instanceIds

/-- The pod of the instance on the node. -/
def podOf (fm : FaultManager) (name : String) (id : InstanceId) : Option String :=
  (fm.nodes.get? name).bind fun node => node.instancePodIps.get? id

def AllAgree (fm : FaultManager) : Prop :=
  ∀ name node, fm.nodes.get? name = some node → node.KeysAgree

theorem isOn_iff (h : fm.AllAgree) : fm.IsOn id name ↔ fm.podOf name id ≠ none := by
  rw [IsOn, podOf]
  cases hnode : fm.nodes.get? name with
  | none => simp
  | some node =>
    simp only [Option.some.injEq, exists_eq_left', Option.bind_some]
    rw [← (h name node hnode).pods id, Dict.contains, Option.isSome_iff_ne_none]

/-! ## Pods join nodes -/

theorem podOf_ensureNodeMetadata (fm : FaultManager) (name podIp : String) (id : InstanceId)
    (jobName k : String) (j : InstanceId) :
    (fm.ensureNodeMetadata name podIp id jobName).podOf k j =
      if name = k ∧ id = j then some podIp else fm.podOf k j := by
  rw [podOf, ensureNodeMetadata]
  split
  · next node hnode =>
    rw [setNode, Dict.get?_insert]
    by_cases hk : name = k
    · subst hk
      simp [Dict.get?_insert, podOf, hnode]
    · simp [hk, podOf]
  · next hnone =>
    rw [setNode, Dict.get?_insert]
    by_cases hk : name = k
    · subst hk
      simp [Dict.get?_insert, podOf, hnone]
    · simp [hk, podOf]

theorem AllAgree.ensureNodeMetadata (h : fm.AllAgree) (name podIp : String) (id : InstanceId)
    (jobName : String) : (fm.ensureNodeMetadata name podIp id jobName).AllAgree := by
  have hinsert {V : Type} (d : Dict InstanceId V) (v : V) (ids : OrdSet InstanceId)
      (hd : ∀ j, d.contains j = true ↔ j ∈ ids) (j : InstanceId) :
      (d.insert id v).contains j = true ↔ j ∈ ids.insert id := by
    rw [Dict.contains_insert, OrdSet.mem_insert, hd, eq_comm]
  intro k node hget
  rw [FaultManager.ensureNodeMetadata] at hget
  split at hget
  · next node₀ hnode₀ =>
    rw [setNode, Dict.get?_insert] at hget
    split at hget
    · cases hget
      have hagree := h name node₀ hnode₀
      exact ⟨hinsert _ _ _ hagree.pods, hinsert _ _ _ hagree.jobs⟩
    · exact h k node hget
  · rw [setNode, Dict.get?_insert] at hget
    split at hget
    · cases hget
      have hempty {V : Type} (j : InstanceId) :
          (∅ : Dict InstanceId V).contains j = true ↔ j ∈ (∅ : OrdSet InstanceId) := by
        simp [Dict.contains]
      exact ⟨hinsert _ _ _ hempty, hinsert _ _ _ hempty⟩
    · exact h k node hget

theorem AllAgree.ensureNodes (h : fm.AllAgree) (pods : Dict String String) (id : InstanceId)
    (jobName : String) : (fm.ensureNodes pods id jobName).AllAgree := by
  rw [FaultManager.ensureNodes]
  induction pods.entries generalizing fm with
  | nil => exact h
  | cons pod pods ih =>
    rw [List.foldl_cons]
    exact ih (h.ensureNodeMetadata pod.2 pod.1 id jobName)

/-- Pods on different nodes: each of the nodes gets its pod, and nothing else changes. -/
theorem podOf_ensureNodes (fm : FaultManager) {pods : Dict String String} (id : InstanceId)
    (jobName : String) (hapart : pods.values.Nodup) :
    (∀ k j, j ≠ id → (fm.ensureNodes pods id jobName).podOf k j = fm.podOf k j) ∧
    (∀ podIp k, pods.get? podIp = some k → (fm.ensureNodes pods id jobName).podOf k id = some podIp) ∧
    ∀ k, k ∉ pods.values → (fm.ensureNodes pods id jobName).podOf k id = fm.podOf k id := by
  have haux (l : List (String × String)) : ∀ fm : FaultManager, (l.map Prod.snd).Nodup →
      let fm' := l.foldl (fun fm pod => fm.ensureNodeMetadata pod.2 pod.1 id jobName) fm
      (∀ k j, j ≠ id → fm'.podOf k j = fm.podOf k j) ∧
      (∀ podIp k, (podIp, k) ∈ l → fm'.podOf k id = some podIp) ∧
      ∀ k, k ∉ l.map Prod.snd → fm'.podOf k id = fm.podOf k id := by
    induction l with
    | nil =>
      intro fm _
      exact ⟨fun _ _ _ => rfl, fun _ _ h => by simp at h, fun _ _ => rfl⟩
    | cons pod l ih =>
      intro fm hnd
      rw [List.map_cons, List.nodup_cons] at hnd
      obtain ⟨hothers, hpods, hrest⟩ := ih (fm.ensureNodeMetadata pod.2 pod.1 id jobName) hnd.2
      simp only [List.foldl_cons]
      refine ⟨fun k j hj => ?_, fun podIp k hmem => ?_, fun k hk => ?_⟩
      · rw [hothers k j hj, podOf_ensureNodeMetadata, if_neg fun h => hj h.2.symm]
      · rcases List.mem_cons.mp hmem with rfl | hmem
        · rw [hrest k hnd.1, podOf_ensureNodeMetadata, if_pos ⟨rfl, rfl⟩]
        · exact hpods podIp k hmem
      · rw [List.map_cons, List.mem_cons, not_or] at hk
        rw [hrest k hk.2, podOf_ensureNodeMetadata, if_neg fun h => hk.1 h.1.symm]
  obtain ⟨hothers, hpods, hrest⟩ := haux pods.entries fm hapart
  exact ⟨hothers, fun podIp k hget => hpods podIp k (Dict.mem_entries_iff.mpr hget), hrest⟩

/-! ## An instance leaves nodes -/

/-- The instance leaves the nodes that are not among the given ones. -/
def leave (fm : FaultManager) (id : InstanceId) (names : List String) : FaultManager :=
  { fm with
    nodes := fm.nodes.filterMap fun name node =>
      if id ∈ node.instanceIds ∧ name ∉ names then
        let ids := node.instanceIds.erase id
        if ids.isEmpty then none
        else some { node with
          instanceIds := ids
          instancePodIps := node.instancePodIps.erase id
          instanceJobNames := node.instanceJobNames.erase id }
      else some node }

theorem syncExistingInstanceNodes_eq (fm : FaultManager) (ins : Instance) (pods : Dict String String) :
    fm.syncExistingInstanceNodes ins pods =
      (fm.leave ins.id pods.values).ensureNodes pods ins.id ins.jobName := rfl

theorem AllAgree.leave (h : fm.AllAgree) (id : InstanceId) (names : List String) :
    (fm.leave id names).AllAgree := by
  have herase {V : Type} (d : Dict InstanceId V) (ids : OrdSet InstanceId)
      (hd : ∀ j, d.contains j = true ↔ j ∈ ids) (j : InstanceId) :
      (d.erase id).contains j = true ↔ j ∈ ids.erase id := by
    rw [OrdSet.mem_erase, ← hd j, Dict.contains, Dict.contains, Dict.get?_erase]
    by_cases hj : id = j
    · simp [hj]
    · simp [hj, Ne.symm hj]
  intro k node hget
  simp only [FaultManager.leave, Dict.get?_filterMap] at hget
  obtain ⟨node₀, hnode₀, hleft⟩ := Option.bind_eq_some_iff.mp hget
  have hagree := h k node₀ hnode₀
  split at hleft
  · split at hleft
    · cases hleft
    · cases hleft
      exact ⟨herase _ _ hagree.pods, herase _ _ hagree.jobs⟩
  · cases hleft
    exact hagree

theorem podOf_leave (h : fm.AllAgree) (id : InstanceId) (names : List String) (k : String)
    (j : InstanceId) :
    (fm.leave id names).podOf k j = if id = j ∧ k ∉ names then none else fm.podOf k j := by
  simp only [podOf, leave, Dict.get?_filterMap]
  cases hnode : fm.nodes.get? k with
  | none => simp
  | some node =>
    have hpods := (h k node hnode).pods
    simp only [Option.bind_some]
    by_cases hleaves : id ∈ node.instanceIds ∧ k ∉ names
    · rw [if_pos hleaves]
      simp only [hleaves.2, not_false_eq_true, and_true]
      split
      · next hdeserted =>
        -- nobody else was there
        have hnobody : j ≠ id → node.instancePodIps.get? j = none := by
          intro hj
          have hout : ¬node.instancePodIps.contains j = true := fun hin =>
            OrdSet.isEmpty_iff.mp hdeserted j (OrdSet.mem_erase.mpr ⟨(hpods j).mp hin, hj⟩)
          simpa [Dict.contains] using hout
        by_cases hj : id = j
        · simp [hj]
        · simp [hj, hnobody (Ne.symm hj)]
      · simp [Dict.get?_erase]
    · rw [if_neg hleaves]
      by_cases hout : id = j ∧ k ∉ names
      · have habsent : ¬node.instancePodIps.contains j = true := by
          rw [hpods j, ← hout.1]
          exact fun hin => hleaves ⟨hin, hout.2⟩
        rw [if_pos hout]
        simpa [Dict.contains] using habsent
      · rw [if_neg hout]
        rfl

/-! ## An instance is synchronized -/

/-- What Kubernetes answers about the pods of an instance fits what is known: they run on different
nodes; none of the nodes is left over from other jobs only; the id of a new instance is not left on
other nodes; and no other node has one of the addresses for another instance. -/
structure Clean (fm : FaultManager) (ins : Instance) (pods : Dict String String) : Prop where
  apart : pods.values.Nodup
  own : fm.instances.contains ins.id = false → ∀ name ∈ pods.values, ∀ node,
    fm.nodes.get? name = some node →
      (∃ j ∈ node.instanceIds, j = ins.id ∨ fm.instances.contains j = true) ∨
      ∀ j job, node.instanceJobNames.get? j = some job → job = "" ∨ job = ins.jobName
  fresh : fm.instances.contains ins.id = false → ∀ name, fm.IsOn ins.id name → name ∈ pods.values
  addresses : ∀ podIp name, pods.get? podIp = some name → podIp ≠ "" ∧
    ∀ name' j, name' ≠ name → fm.podOf name' j = some podIp → j = ins.id

/-- `Clean`, by the entries of the maps. -/
def CleanListed (fm : FaultManager) (ins : Instance) (pods : Dict String String) : Prop :=
  pods.values.Nodup ∧
  (fm.instances.contains ins.id = false → ∀ p ∈ fm.nodes.entries, p.1 ∈ pods.values →
    (∃ j ∈ p.2.instanceIds.elems, j = ins.id ∨ fm.instances.contains j = true) ∨
      ∀ e ∈ p.2.instanceJobNames.entries, e.2 = "" ∨ e.2 = ins.jobName) ∧
  (fm.instances.contains ins.id = false → ∀ p ∈ fm.nodes.entries, ins.id ∈ p.2.instanceIds →
    p.1 ∈ pods.values) ∧
  ∀ pod ∈ pods.entries, pod.1 ≠ "" ∧ ∀ p ∈ fm.nodes.entries, p.1 ≠ pod.2 →
    ∀ e ∈ p.2.instancePodIps.entries, e.2 = pod.1 → e.1 = ins.id

theorem cleanListed_iff {ins : Instance} {pods : Dict String String} :
    fm.CleanListed ins pods ↔ fm.Clean ins pods := by
  constructor
  · rintro ⟨hapart, hown, hfresh, haddresses⟩
    refine ⟨hapart, fun hnew name hname node hnode => ?_, fun hnew name hon => ?_,
      fun podIp name hget => ?_⟩
    · exact (hown hnew (name, node) (Dict.mem_entries_iff.mpr hnode) hname).imp_right
        fun hjobs j job hjob => hjobs (j, job) (Dict.mem_entries_iff.mpr hjob)
    · obtain ⟨node, hnode, hin⟩ := hon
      exact hfresh hnew (name, node) (Dict.mem_entries_iff.mpr hnode) hin
    · obtain ⟨hne, honly⟩ := haddresses (podIp, name) (Dict.mem_entries_iff.mpr hget)
      refine ⟨hne, fun name' j hname hpod => ?_⟩
      obtain ⟨node, hnode, hip⟩ := Option.bind_eq_some_iff.mp hpod
      exact honly (name', node) (Dict.mem_entries_iff.mpr hnode) hname (j, podIp)
        (Dict.mem_entries_iff.mpr hip) rfl
  · intro h
    refine ⟨h.apart, fun hnew p hp hname => ?_, fun hnew p hp hin => ?_, fun pod hpod => ?_⟩
    · exact (h.own hnew p.1 hname p.2 (Dict.mem_entries_iff.mp hp)).imp_right
        fun hjobs e he => hjobs e.1 e.2 (Dict.mem_entries_iff.mp he)
    · exact h.fresh hnew p.1 ⟨p.2, Dict.mem_entries_iff.mp hp, hin⟩
    · obtain ⟨hne, honly⟩ := h.addresses pod.1 pod.2 (Dict.mem_entries_iff.mp hpod)
      refine ⟨hne, fun p hp hname e he hip => honly p.1 e.1 hname ?_⟩
      rw [podOf, Dict.mem_entries_iff.mp hp, Option.bind_some, Dict.mem_entries_iff.mp he, hip]

instance (fm : FaultManager) (ins : Instance) (pods : Dict String String) :
    Decidable (fm.CleanListed ins pods) :=
  @instDecidableAnd _ _ inferInstance
    (@instDecidableAnd _ _ inferInstance (@instDecidableAnd _ _ inferInstance inferInstance))

instance (fm : FaultManager) (ins : Instance) (pods : Dict String String) : Decidable (fm.Clean ins pods) :=
  decidable_of_iff _ cleanListed_iff

/-- No node is taken over: each has somebody on it, or was left by the own job. -/
theorem Clean.foreignNodes_eq_nil {ins : Instance} {pods : Dict String String} (h : fm.Clean ins pods)
    (hnew : fm.instances.contains ins.id = false) (md : InstanceMetadata) :
    (fm.setInstance ins.id md).foreignNodes pods.values ins.jobName = [] := by
  refine List.eq_nil_iff_forall_not_mem.mpr fun name hname => ?_
  have hused := (mem_foreignNodes hname).1
  obtain ⟨-, hforeign⟩ := List.mem_filter.mp hname
  cases hnode : fm.nodes.get? name with
  | none =>
    rw [setInstance, hnode] at hforeign
    cases hforeign
  | some node =>
    rw [setInstance, hnode, Option.any_some, Bool.and_eq_true] at hforeign
    rcases h.own hnew name hused node hnode with ⟨j, hj, hstays⟩ | hown
    · have hgone := isDeserted_iff.mp hforeign.1 j hj
      rw [Dict.contains_insert.mpr hstays] at hgone
      cases hgone
    · obtain ⟨job, hjob, hother⟩ := List.any_eq_true.mp hforeign.2
      obtain ⟨j, hj⟩ := Dict.mem_values_iff.mp hjob
      obtain ⟨hne, hne'⟩ := of_decide_eq_true hother
      exact (hown j job hj).elim hne hne'

/-- The instance has its pods where they run, and everyone else stays. -/
structure Synced (fm : FaultManager) (ins : Instance) (pods : Dict String String)
    (fm' : FaultManager) : Prop where
  agree : fm'.AllAgree
  tracked : ∀ j, fm'.instances.contains j = true ↔ j = ins.id ∨ fm.instances.contains j = true
  others : ∀ k j, j ≠ ins.id → fm'.podOf k j = fm.podOf k j
  pods : ∀ podIp k, fm'.podOf k ins.id = some podIp ↔ pods.get? podIp = some k

theorem instances_ensureNodes (fm : FaultManager) (pods : Dict String String) (id : InstanceId)
    (jobName : String) : (fm.ensureNodes pods id jobName).instances = fm.instances := by
  rw [ensureNodes]
  induction pods.entries generalizing fm with
  | nil => rfl
  | cons pod pods ih =>
    rw [List.foldl_cons, ih, ensureNodeMetadata]
    split <;> rfl

/-- Once the instance is nowhere but on the nodes of its pods, each pod is put on its node. -/
theorem Synced.of_ensureNodes {fm₀ : FaultManager} {ins : Instance} {pods : Dict String String}
    (hapart : pods.values.Nodup) (hagree : fm₀.AllAgree)
    (htracked : ∀ j, fm₀.instances.contains j = true ↔ j = ins.id ∨ fm.instances.contains j = true)
    (hothers : ∀ k j, j ≠ ins.id → fm₀.podOf k j = fm.podOf k j)
    (hleft : ∀ k, k ∉ pods.values → fm₀.podOf k ins.id = none) :
    fm.Synced ins pods (fm₀.ensureNodes pods ins.id ins.jobName) := by
  obtain ⟨hothers', hpods, hrest⟩ := fm₀.podOf_ensureNodes ins.id ins.jobName hapart
  refine ⟨hagree.ensureNodes pods ins.id ins.jobName, fun j => ?_, fun k j hj => ?_, fun podIp k => ?_⟩
  · rw [instances_ensureNodes]
    exact htracked j
  · rw [hothers' k j hj, hothers k j hj]
  · constructor
    · intro hpod
      by_cases hk : k ∈ pods.values
      · obtain ⟨podIp', hget⟩ := Dict.mem_values_iff.mp hk
        rw [hpods podIp' k hget] at hpod
        cases hpod
        exact hget
      · rw [hrest k hk, hleft k hk] at hpod
        cases hpod
    · exact hpods podIp k

theorem synced_syncInstanceNodes {ins : Instance} {nodeOf : String → Option String} (h : fm.AllAgree)
    (hclean : fm.Clean ins (buildNodeNameMapping ins nodeOf)) (σ : HashOrder InstanceId) :
    fm.Synced ins (buildNodeNameMapping ins nodeOf) (fm.syncInstanceNodes σ ins nodeOf) := by
  rw [syncInstanceNodes]
  generalize buildNodeNameMapping ins nodeOf = pods at *
  cases htracked : fm.instances.contains ins.id with
  | true =>
    rw [if_pos rfl, syncExistingInstanceNodes_eq]
    refine Synced.of_ensureNodes hclean.apart (h.leave ins.id pods.values) (fun j => ?_)
      (fun k j hj => ?_) fun k hk => ?_
    · constructor
      · exact Or.inr
      · rintro (rfl | hj)
        · exact htracked
        · exact hj
    · rw [podOf_leave h, if_neg fun heq => hj heq.1.symm]
    · rw [podOf_leave h, if_pos ⟨rfl, hk⟩]
  | false =>
    rw [if_neg (by simp), addNewInstanceWithNodes]
    simp only [hclean.foreignNodes_eq_nil htracked, swapNodeOwnership, if_true]
    refine Synced.of_ensureNodes hclean.apart h (fun j => ?_) (fun _ _ _ => rfl) fun k hk => ?_
    · rw [setInstance, Dict.contains_insert]
    · by_contra hpod
      exact hk (hclean.fresh htracked k ((isOn_iff h).mpr hpod))

end FaultManager

/-! ## Notifications -/

/-- The fault manager, and where the pods of each instance were last found. -/
structure OwnershipState where
  domain : FaultDomain
  resolved : Dict InstanceId (Dict String String)

inductive OwnershipOp where
  | instanceInitial (σ : HashOrder InstanceId) (ins : Instance) (nodeOf : String → Option String)
  | instanceRemoved (ins : Instance)
  /-- The fault manager catches up with an instance at its start. -/
  | updateInstance (σ : HashOrder InstanceId) (ins : Instance) (nodeOf : String → Option String)

namespace OwnershipState

variable {st st' : OwnershipState}

def new : OwnershipState := ⟨.new, ∅⟩

def fm (st : OwnershipState) : FaultManager := st.domain.faults

def exec (st : OwnershipState) : OwnershipOp → Option OwnershipState
  | .instanceInitial σ ins nodeOf =>
    some
      { domain := st.domain.update σ nodeOf ⟨ins, .instanceInitial⟩
        resolved :=
          if st.fm.instances.contains ins.id then st.resolved
          else st.resolved.insert ins.id (FaultManager.buildNodeNameMapping ins nodeOf) }
  | .instanceRemoved ins =>
    some { st with domain := st.domain.update .insertion (fun _ => none) ⟨ins, .instanceRemoved⟩ }
  | .updateInstance σ ins nodeOf =>
    some
      { domain := { st.domain with faults := st.fm.syncInstanceNodes σ ins nodeOf }
        resolved := st.resolved.insert ins.id (FaultManager.buildNodeNameMapping ins nodeOf) }

/-- What is resolved fits what is known. -/
def Fits (st : OwnershipState) : OwnershipOp → Prop
  | .instanceInitial _ ins nodeOf => st.fm.instances.contains ins.id = false →
      st.fm.Clean ins (FaultManager.buildNodeNameMapping ins nodeOf)
  | .instanceRemoved _ => True
  | .updateInstance _ ins nodeOf => st.fm.Clean ins (FaultManager.buildNodeNameMapping ins nodeOf)

/-- A fault that the pod reports is stored on the node. -/
def StoresFaultOf (st : OwnershipState) (podIp name : String) : Prop :=
  ∀ f, f.faultCategory = .software → ∃ node,
    (st.domain.reportSoftwareFault f podIp).faults.nodes.get? name = some node ∧
      node.softwareFaultInfos.get? f.faultCode = some f

/-- The maps agree, instances are where their pods run, and so are the faults that the pods report. -/
structure Consistent (st : OwnershipState) : Prop where
  keys : st.fm.AllAgree
  located : ∀ id, st.fm.instances.contains id = true → ∃ pods, st.resolved.get? id = some pods ∧
    ∀ name, st.fm.IsOn id name ↔ name ∈ pods.values
  reported : ∀ id pods, st.fm.instances.contains id = true → st.resolved.get? id = some pods →
    ∀ podIp name, pods.get? podIp = some name → st.StoresFaultOf podIp name

/-- The pods of all tracked instances are listed where they run, and there only. -/
structure Placed (st : OwnershipState) : Prop where
  agree : st.fm.AllAgree
  listed : ∀ id, st.fm.instances.contains id = true → ∃ pods, st.resolved.get? id = some pods ∧
    (∀ podIp name, st.fm.podOf name id = some podIp ↔ pods.get? podIp = some name) ∧
    ∀ podIp name, pods.get? podIp = some name → podIp ≠ "" ∧
      ∀ name' j, st.fm.podOf name' j = some podIp → name' = name

theorem Placed.sync {ins : Instance} {pods : Dict String String} {domain : FaultDomain} (h : st.Placed)
    (hclean : st.fm.Clean ins pods) (hsynced : st.fm.Synced ins pods domain.faults) :
    (⟨domain, st.resolved.insert ins.id pods⟩ : OwnershipState).Placed := by
  refine ⟨hsynced.agree, fun id hid => ?_⟩
  by_cases heq : id = ins.id
  · subst heq
    refine ⟨pods, Dict.get?_insert_self _ _ _, fun podIp name => hsynced.pods podIp name,
      fun podIp name hget => ⟨(hclean.addresses podIp name hget).1, fun name' j hpod => ?_⟩⟩
    by_cases hj : j = ins.id
    · subst hj
      have := (hsynced.pods podIp name').mp hpod
      exact Option.some.inj (this.symm.trans hget)
    · rw [show (⟨domain, st.resolved.insert ins.id pods⟩ : OwnershipState).fm = domain.faults from rfl,
        hsynced.others name' j hj] at hpod
      by_contra hne
      exact hj ((hclean.addresses podIp name hget).2 name' j hne hpod)
  · obtain ⟨pods', hpods', hlisted, honly⟩ :=
      h.listed id (((hsynced.tracked id).mp hid).resolve_left heq)
    refine ⟨pods', (Dict.get?_insert_ne _ _ (Ne.symm heq)).trans hpods', fun podIp name => ?_,
      fun podIp name hget => ⟨(honly podIp name hget).1, fun name' j hpod => ?_⟩⟩
    · rw [← hlisted podIp name]
      exact iff_of_eq (congrArg (· = some podIp) (hsynced.others name id heq))
    · by_cases hj : j = ins.id
      · subst hj
        by_contra hne
        have hnew := (hsynced.pods podIp name').mp hpod
        have hold := (hlisted podIp name).mpr hget
        exact heq ((hclean.addresses podIp name' hnew).2 name id (Ne.symm hne) hold)
      · exact (honly podIp name hget).2 name' j ((hsynced.others name' j hj).symm.trans hpod)

theorem exec_placed {op : OwnershipOp} (h : st.Placed) (hguard : st.Fits op)
    (hexec : st.exec op = some st') : st'.Placed := by
  cases op with
  | instanceInitial σ ins nodeOf =>
    cases hexec
    cases htracked : st.fm.instances.contains ins.id with
    | true =>
      rw [FaultDomain.update]
      simp only [show st.domain.faults.instances.contains ins.id = true from htracked, if_true]
      exact h
    | false =>
      rw [FaultDomain.update]
      simp only [show st.domain.faults.instances.contains ins.id = false from htracked,
        Bool.false_eq_true, if_false]
      have hclean := hguard htracked
      exact h.sync hclean (FaultManager.synced_syncInstanceNodes h.agree hclean σ)
  | instanceRemoved ins =>
    cases hexec
    refine ⟨h.agree, fun id hid => h.listed id ?_⟩
    obtain ⟨md, hmd⟩ := Dict.contains_iff.mp hid
    simp only [fm, FaultDomain.update] at hmd
    exact Dict.contains_iff.mpr ⟨md, Dict.get?_of_erase hmd⟩
  | updateInstance σ ins nodeOf =>
    cases hexec
    exact h.sync hguard (FaultManager.synced_syncInstanceNodes h.agree hguard σ)

/-! ## Faults that pods report -/

theorem softwareFaultInfos_refreshAll {s : FaultDomain} {name : String} {node : NodeMetadata}
    (ids : List InstanceId) (hnode : s.faults.nodes.get? name = some node) :
    ∃ node', (s.refreshAll ids).faults.nodes.get? name = some node' ∧
      node'.softwareFaultInfos = node.softwareFaultInfos := by
  induction ids generalizing s node with
  | nil => exact ⟨node, hnode, rfl⟩
  | cons id ids ih =>
    cases htracked : s.faults.instances.contains id with
    | false =>
      have := ih hnode
      rwa [FaultDomain.refreshAll, List.foldl_cons, FaultDomain.refresh_untracked htracked]
    | true =>
      have hnode₁ := (FaultDomain.refreshes htracked).nodes name
      rw [hnode, Option.map_some] at hnode₁
      obtain ⟨node', hnode', hsame⟩ := ih hnode₁
      refine ⟨node', hnode', hsame.trans ?_⟩
      split <;> rfl

theorem storesFaultOf (podIp name : String) (id : InstanceId) (hne : podIp ≠ "")
    (hpod : st.fm.podOf name id = some podIp)
    (honly : ∀ name' j, st.fm.podOf name' j = some podIp → name' = name) : st.StoresFaultOf podIp name := by
  obtain ⟨node, hnode, hip⟩ := Option.bind_eq_some_iff.mp hpod
  have hlookup : st.domain.nodeOfPod podIp = some (name, node) := by
    cases hfind : st.domain.nodeOfPod podIp with
    | none =>
      have := List.find?_eq_none.mp hfind (name, node) (Dict.mem_entries_iff.mpr hnode)
      simp [hne, Dict.mem_values_iff] at this
      exact absurd hip (this id)
    | some p =>
      obtain ⟨name', node'⟩ := p
      have hnode' : st.fm.nodes.get? name' = some node' :=
        Dict.mem_entries_iff.mp (List.mem_of_find?_eq_some hfind)
      have hlisted := List.find?_some hfind
      simp only [decide_eq_true_eq] at hlisted
      obtain ⟨j, hj⟩ := Dict.mem_values_iff.mp hlisted.2
      obtain rfl := honly name' j (by rw [FaultManager.podOf, hnode', Option.bind_some, hj])
      rw [hnode] at hnode'
      cases hnode'
      rfl
  intro f hf
  rw [FaultDomain.reportSoftwareFault, if_neg (by simp [hf]), hlookup]
  obtain ⟨node', hnode', hsame⟩ := softwareFaultInfos_refreshAll
    ((node.instancePodIps.entries.filter fun p => decide (p.2 = podIp)).map Prod.fst)
    (s := { st.domain with
      faults := st.domain.faults.setNode name
        { node with softwareFaultInfos := node.softwareFaultInfos.insert f.faultCode f } })
    (Dict.get?_insert_self _ _ _)
  refine ⟨node', hnode', ?_⟩
  rw [hsame]
  exact Dict.get?_insert_self _ _ _

/-! ## Runs -/

/-- **Nodes and instances stay consistent**: in every state reached. -/
theorem ownership_consistent {ops : List OwnershipOp} (hrun : Run exec Fits new ops st) :
    st.Consistent := by
  have h : st.Placed := by
    refine hrun.invariant_state ⟨?_, ?_⟩ fun h hguard hexec => exec_placed h hguard hexec
    · intro name node hget
      cases hget
    · intro id hid
      cases hid
  refine ⟨h.agree, fun id hid => ?_, fun id pods hid hpods podIp name hget => ?_⟩
  · obtain ⟨pods, hpods, hlisted, -⟩ := h.listed id hid
    refine ⟨pods, hpods, fun name => ?_⟩
    rw [FaultManager.isOn_iff h.agree, Dict.mem_values_iff, Option.ne_none_iff_exists']
    exact exists_congr fun podIp => hlisted podIp name
  · obtain ⟨pods', hpods', hlisted, honly⟩ := h.listed id hid
    obtain rfl : pods' = pods := Option.some.inj (hpods'.symm.trans hpods)
    obtain ⟨hne, hthere⟩ := honly podIp name hget
    exact storesFaultOf podIp name id hne ((hlisted podIp name).mpr hget) hthere

instance (st : OwnershipState) : ∀ op, Decidable (st.Fits op)
  | .instanceInitial _ _ _ => inferInstanceAs (Decidable (_ → _))
  | .instanceRemoved _ => isTrue trivial
  | .updateInstance _ ins nodeOf =>
    inferInstanceAs (Decidable (st.fm.Clean ins (FaultManager.buildNodeNameMapping ins nodeOf)))

/-- Two instances share a node; one is resolved again and is found on another node, the other one is
removed, and its job comes back to the node it left. -/
def sharesNode : List OwnershipOp :=
  [.instanceInitial .insertion (FaultDomain.instanceOf 1 "job-a" "10.0.0.1") (fun _ => some "node-1"),
    .instanceInitial .insertion (FaultDomain.instanceOf 2 "job-b" "10.0.0.2") (fun _ => some "node-1"),
    .updateInstance .insertion (FaultDomain.instanceOf 1 "job-a" "10.0.0.1") (fun _ => some "node-2"),
    .instanceRemoved (FaultDomain.instanceOf 2 "job-b" "10.0.0.2"),
    .instanceInitial .insertion (FaultDomain.instanceOf 3 "job-b" "10.0.0.3") (fun _ => some "node-1")]

/-- What the pod reports is stored where it was found last. -/
theorem sharesNode_consistent : ∃ st, Run exec Fits new sharesNode st ∧ st.Consistent ∧
    st.StoresFaultOf "10.0.0.1" "node-2" ∧ st.StoresFaultOf "10.0.0.3" "node-1" := by
  have h : (runList exec Fits new sharesNode).map (fun st =>
      (st.fm.instances.keys, st.resolved.get? 1, st.resolved.get? 3)) =
      some ([1, 3], some ((∅ : Dict String String).insert "10.0.0.1" "node-2"),
        some ((∅ : Dict String String).insert "10.0.0.3" "node-1")) := by decide
  obtain ⟨st, hst, hlook⟩ := Option.map_eq_some_iff.mp h
  simp only [Prod.mk.injEq] at hlook
  obtain ⟨hkeys, hfirst, hthird⟩ := hlook
  have htracked (id : InstanceId) (hid : id ∈ st.fm.instances.keys) :
      st.fm.instances.contains id = true :=
    Dict.contains_iff.mpr (Dict.mem_keys_iff.mp hid)
  have hconsistent := ownership_consistent (runList_run hst)
  exact ⟨st, runList_run hst, hconsistent,
    hconsistent.reported 1 _ (htracked 1 (by simp [hkeys])) hfirst _ _ (Dict.get?_insert_self _ _ _),
    hconsistent.reported 3 _ (htracked 3 (by simp [hkeys])) hthird _ _ (Dict.get?_insert_self _ _ _)⟩

/-! ## A node that is taken over -/

/-- The node of an instance that is removed goes to one of another job. -/
def takenOver : List OwnershipOp :=
  [.instanceInitial .insertion (FaultDomain.instanceOf 1 "job-a" "10.0.0.1") (fun _ => some "node-1"),
    .instanceRemoved (FaultDomain.instanceOf 1 "job-a" "10.0.0.1"),
    .instanceInitial .insertion (FaultDomain.instanceOf 2 "job-b" "10.0.0.2") (fun _ => some "node-1")]

/-- The pod of the removed instance stays. -/
theorem takenOver_keepsPod : ∃ st, Run exec Free new takenOver st ∧ ¬st.Consistent := by
  have h : (runList exec Free new takenOver).bind (fun st =>
      (st.fm.nodes.get? "node-1").map fun node =>
        (node.instancePodIps.contains 1, decide (1 ∈ node.instanceIds))) = some (true, false) := by decide
  obtain ⟨st, hst, hlook⟩ := Option.bind_eq_some_iff.mp h
  obtain ⟨node, hnode, hboth⟩ := Option.map_eq_some_iff.mp hlook
  obtain ⟨hpod, hgone⟩ := Prod.mk.inj hboth
  exact ⟨st, runList_run hst, fun hcons =>
    of_decide_eq_false hgone (((hcons.keys "node-1" node hnode).pods 1).mp hpod)⟩

end OwnershipState

end PyMotor.Controller
