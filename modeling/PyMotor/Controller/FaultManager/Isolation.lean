import PyMotor.Controller.FaultManager.Joins

/-!
# Isolation follows the faults

A step keeps the levels of all instances true if it refreshes everyone on the nodes whose faults it
changes. Three steps do not. A new instance is not refreshed when it joins nodes with faults; a software
fault refreshes only the instances of the reporting pod; and a finished strategy clears the software
faults of nodes that other instances are on. `KeepsLevels` excludes these, and listings of a fault whose
level depends on who is on the node for nodes with several instances.
-/

namespace PyMotor.Controller

open Coordinator (InstanceId EndpointId)

/-! ## The instance manager -/

namespace InstanceManager

variable {m m' : InstanceManager} {i : Instance} {id : InstanceId}

/-- Instances that stay are isolated as before, and those that leave are so no longer. -/
def KeepsForced (m m' : InstanceManager) : Prop :=
  ∀ j, j ∈ m'.forcedSeparatedInstances ↔
    j ∈ m.forcedSeparatedInstances ∧ m'.instances.contains j = true

theorem KeepsForced.refl
    (hknown : ∀ j ∈ m.forcedSeparatedInstances, m.instances.contains j = true) : m.KeepsForced m :=
  fun j => ⟨fun hj => ⟨hj, hknown j hj⟩, fun hj => hj.1⟩

theorem keepsForced_store (i : Instance)
    (hknown : ∀ j ∈ m.forcedSeparatedInstances, m.instances.contains j = true) :
    m.KeepsForced (m.store i) := by
  intro j
  rw [Dict.contains_iff]
  simp only [get?_store]
  unfold store Instance.kept
  split
  · next hdeleted =>
    rw [delInstance, OrdSet.mem_erase]
    refine and_congr_right fun hj => ?_
    obtain ⟨v, hv⟩ := Dict.contains_iff.mp (hknown j hj)
    by_cases hid : j = i.id
    · simp [hid]
    · simp [hid, hv]
  · next hstays =>
    refine ⟨fun hj => ⟨hj, ?_⟩, fun hj => hj.1⟩
    obtain ⟨v, hv⟩ := Dict.contains_iff.mp (hknown j hj)
    by_cases hid : j = i.id
    · simp [hid]
    · simp [hid, hv]

theorem keepsForced_handleStateTransition (i : Instance) (eventOverride : Option InsConditionEvent)
    (abnormal : Bool) (hknown : ∀ j ∈ m.forcedSeparatedInstances, m.instances.contains j = true) :
    m.KeepsForced (m.handleStateTransition i eventOverride abnormal).2.1 := by
  unfold handleStateTransition
  simp only
  split
  · exact KeepsForced.refl hknown
  · split
    · exact KeepsForced.refl hknown
    · exact keepsForced_store _ hknown

theorem keepsForced_handleHeartbeat (id : InstanceId) (ip : String)
    (status : Dict EndpointId EndpointStatus)
    (hknown : ∀ j ∈ m.forcedSeparatedInstances, m.instances.contains j = true) :
    m.KeepsForced (m.handleHeartbeat id ip status).2.1 := by
  unfold handleHeartbeat
  split
  · exact KeepsForced.refl hknown
  · next i hi =>
    generalize i.updateHeartbeat ip status = up
    obtain ⟨outcome, i₁⟩ := up
    have hknown₁ : ∀ j ∈ m.forcedSeparatedInstances,
        (m.instances.insert id i₁).contains j = true :=
      fun j hj => Dict.contains_insert.mpr (Or.inr (hknown j hj))
    cases outcome with
    | rejected => exact fun j => ⟨fun hj => ⟨hj, hknown₁ j hj⟩, fun hj => hj.1⟩
    | keyError _ => exact fun j => ⟨fun hj => ⟨hj, hknown₁ j hj⟩, fun hj => hj.1⟩
    | updated =>
      exact keepsForced_handleStateTransition i₁ none false
        (m := { m with instances := m.instances.insert id i₁ }) hknown₁

theorem keepsForced_handleHeartbeatTimeout (id : InstanceId) (abnormal : Bool)
    (hknown : ∀ j ∈ m.forcedSeparatedInstances, m.instances.contains j = true) :
    m.KeepsForced (m.handleHeartbeatTimeout id abnormal).1 := by
  unfold handleHeartbeatTimeout
  split
  · exact KeepsForced.refl hknown
  · split
    · exact KeepsForced.refl hknown
    · exact keepsForced_handleStateTransition _ _ _ hknown

end InstanceManager

namespace FaultDomain

variable {s s' : FaultDomain} {id : InstanceId}

/-- All levels are true, and isolation follows them. -/
structure Follows (s : FaultDomain) : Prop where
  base : s.Base
  levels : s.Levels

/-- Levels of instances that are not followed do not matter. -/
theorem level_of_not_followed (h : s.faults.instances.contains id = false) : s.Level id := by
  intro md hmd
  rw [Dict.contains_iff.mpr ⟨md, hmd⟩] at h
  cases h

/-! ## The instance manager takes a step -/

theorem Base.withManager (h : s.Base) {m : InstanceManager}
    (hcontains : ∀ j, m.instances.contains j = s.manager.instances.contains j)
    (hkeyed : ∀ k i, m.instances.get? k = some i → i.id = k) (hforced : s.manager.KeepsForced m) :
    Base { s with manager := m } where
  isolated := by
    intro j md hmd
    rw [hforced j, hcontains, ← h.followed, Dict.contains_iff.mpr ⟨md, hmd⟩, and_iff_left rfl]
    exact h.isolated j md hmd
  followed := fun j => (h.followed j).trans (hcontains j).symm
  known := fun j hj => ((hforced j).mp hj).2
  keyed := hkeyed
  alone := h.alone

theorem Follows.remove (h : s.Follows) {m : InstanceManager}
    (hget : ∀ k, m.instances.get? k = if k = id then none else s.manager.instances.get? k)
    (hforced : s.manager.KeepsForced m) :
    Follows ⟨{ s.faults with instances := s.faults.instances.erase id }, m⟩ := by
  have hkept : ∀ j md, (s.faults.instances.erase id).get? j = some md →
      j ≠ id ∧ s.faults.instances.get? j = some md := by
    intro j md hmd
    rw [Dict.get?_erase] at hmd
    split at hmd
    · cases hmd
    · next hne => exact ⟨Ne.symm hne, hmd⟩
  have hcontains : ∀ j, (s.faults.instances.erase id).contains j = m.instances.contains j := by
    intro j
    rw [Dict.contains, Dict.contains, Dict.get?_erase, hget]
    by_cases hj : id = j
    · rw [if_pos hj, if_pos hj.symm]
      rfl
    · rw [if_neg hj, if_neg (Ne.symm hj)]
      exact h.base.followed j
  refine ⟨⟨?_, hcontains, fun j hj => ((hforced j).mp hj).2, ?_, ?_⟩, ?_⟩
  · intro j md hmd
    have hin : m.instances.contains j = true := hcontains j ▸ Dict.contains_iff.mpr ⟨md, hmd⟩
    rw [hforced j, hin, and_iff_left rfl]
    exact h.base.isolated j md (hkept j md hmd).2
  · intro k i hi
    rw [hget] at hi
    split at hi
    · cases hi
    · exact h.base.keyed k i hi
  · intro name node hnode hpre i hi j hj hiin hjin
    obtain ⟨mdi, hmdi⟩ := Dict.contains_iff.mp hiin
    obtain ⟨mdj, hmdj⟩ := Dict.contains_iff.mp hjin
    exact h.base.alone name node hnode hpre i hi j hj
      (Dict.contains_iff.mpr ⟨mdi, (hkept i mdi hmdi).2⟩)
      (Dict.contains_iff.mpr ⟨mdj, (hkept j mdj hmdj).2⟩)
  · intro j md hmd
    exact h.levels j md (hkept j md hmd).2

theorem Follows.refresh (hbase : s.Base) (hlevels : s.Levels) (id : InstanceId) :
    (s.refreshInstanceFaultLevel id).Follows := by
  have hrefreshed := hbase.refresh id
  refine ⟨hrefreshed.base, fun j => ?_⟩
  by_cases hj : j = id
  · exact hj ▸ hrefreshed.level
  · exact hrefreshed.others j hj (hlevels j)

/-- **A change of one instance**, and what its notification does here. -/
theorem Follows.changes (h : s.Follows) (σ : HashOrder InstanceId) (nodeOf : String → Option String)
    {m : InstanceManager} {ns : List Notification} (hchanges : s.manager.Changes id m ns)
    (hforced : s.manager.KeepsForced m) : (s.notify σ nodeOf (m, ns)).Follows := by
  cases hchanges with
  | same hsame hns =>
    subst hns
    exact ⟨h.base.withManager (fun j => by rw [hsame]) (hsame ▸ h.base.keyed) hforced, h.levels⟩
  | @one i r hi hchange hget =>
    have hid : i.id = id := h.base.keyed id i hi
    -- unless the instance is removed, the manager has the same instances as before
    have hstays : ∀ i', r = some i' → i'.toInstance = i.toInstance →
        Base { s with manager := m } := by
      rintro i' rfl hsent
      refine h.base.withManager (fun j => ?_) (fun k j hj => ?_) hforced
      · rw [Dict.contains, Dict.contains, hget]
        split
        · next hj => rw [hj, hi]; rfl
        · rfl
      · rw [hget] at hj
        split at hj
        · next hk =>
          cases hj
          rw [hk, Instance.toInstance_id hsent, hid]
        · exact h.base.keyed k j hj
    cases hchange with
    | quiet hsent _ => exact ⟨hstays _ rfl hsent, h.levels⟩
    | ready hsent _ _ => exact ⟨hstays _ rfl hsent, h.levels⟩
    | paused hsent _ => exact ⟨hstays _ rfl hsent, h.levels⟩
    | separated hsent _ => exact Follows.refresh (hstays _ rfl hsent) h.levels _
    | @removed i' hsent _ =>
      have hid' : i'.id = id := (Instance.toInstance_id hsent).trans hid
      show Follows ⟨{ s.faults with instances := s.faults.instances.erase i'.id }, m⟩
      rw [hid']
      exact h.remove hget hforced

/-! ## The faults of a node change -/

theorem Base.setNode (h : s.Base) {name : String} {node node' : NodeMetadata}
    (hnode : s.faults.nodes.get? name = some node) (hids : node'.instanceIds = node.instanceIds)
    (hlone : node'.hasPreSeparation → s.faults.Lone node) :
    Base { s with faults := s.faults.setNode name node' } ∧
      ∀ j, j ∉ node.instanceIds → s.Level j → Level { s with faults := s.faults.setNode name node' } j := by
  refine ⟨⟨h.isolated, h.followed, h.known, h.keyed, ?_⟩, ?_⟩
  · intro k other hother hpre
    rw [FaultManager.get?_setNode] at hother
    split at hother
    · cases hother
      intro i hi j hj
      exact hlone hpre i (hids ▸ hi) j (hids ▸ hj)
    · exact h.alone k other hother hpre
  · intro j hj hlevel
    refine hlevel.congr rfl fun k => ?_
    unfold FaultManager.faultsAt
    rw [FaultManager.get?_setNode]
    split
    · next hk =>
      rw [← hk, hnode]
      simp [hids, hj]
    · rfl

/-- **A change of a node's faults** is made good by refreshing everyone on the node. -/
theorem Follows.setNode (h : s.Follows) {name : String} {node node' : NodeMetadata}
    (hnode : s.faults.nodes.get? name = some node) (hids : node'.instanceIds = node.instanceIds)
    (hlone : node'.hasPreSeparation → s.faults.Lone node) {ids : List InstanceId}
    (hall : ∀ j ∈ node.instanceIds, s.faults.instances.contains j = true → j ∈ ids) :
    (FaultDomain.refreshAll { s with faults := s.faults.setNode name node' } ids).Follows := by
  obtain ⟨hbase, hothers⟩ := h.base.setNode hnode hids hlone
  obtain ⟨hbase', hlevels⟩ := hbase.refreshAll ids
  refine ⟨hbase', fun j => hlevels j ?_⟩
  by_cases hmem : j ∈ node.instanceIds
  · cases hj : s.faults.instances.contains j with
    | true => exact Or.inl (hall j hmem hj)
    | false => exact Or.inr (level_of_not_followed hj)
  · exact Or.inr (hothers j hmem (h.levels j))

theorem mem_groupFaults {infos group : List FaultInfo} {code : Int}
    (h : (groupFaults infos).get? code = some group) : group ⊆ infos := by
  have hall : ∀ code group, (groupFaults infos).get? code = some group → ∀ f ∈ group, f ∈ infos := by
    unfold groupFaults
    apply List.foldlRecOn infos _ (motive := fun d : Dict Int (List FaultInfo) =>
      ∀ code group, d.get? code = some group → ∀ f ∈ group, f ∈ infos)
    · intro code group hget
      cases hget
    · intro d hd f hf code group hget g hg
      rw [Dict.get?_insert] at hget
      split at hget
      · cases hget
        rcases List.mem_append.mp hg with hg | hg
        · cases hold : d.get? f.faultCode with
          | none =>
            rw [hold] at hg
            cases hg
          | some group =>
            rw [hold] at hg
            exact hd _ _ hold g hg
        · exact List.mem_singleton.mp hg ▸ hf
      · exact hd code group hget g hg
  exact fun f hf => hall code group h f hf

theorem hasPreSeparation_replace {node : NodeMetadata} {infos : List FaultInfo} {level : FaultLevel}
    (h : (replaceHardwareFaults node infos level).hasPreSeparation) :
    (∃ f ∈ infos, f.originFaultLevel = some .preSeparateNpu) ∨ node.hasPreSeparation := by
  obtain ⟨f, hf, horigin⟩ := h
  obtain ⟨code, hget⟩ := Dict.mem_values_iff.mp hf
  have hlisted : ((groupFaults infos).filterMap fun _ infos => storedFault infos level).get? code =
      some f → ∃ f ∈ infos, f.originFaultLevel = some .preSeparateNpu := by
    intro hget
    rw [Dict.get?_filterMap] at hget
    obtain ⟨group, hgroup, hstored⟩ := Option.bind_eq_some_iff.mp hget
    obtain ⟨worst, hworst, rfl⟩ := Option.map_eq_some_iff.mp hstored
    exact ⟨worst, mem_groupFaults hgroup (highestFault_eq_some hworst).1, horigin⟩
  unfold replaceHardwareFaults at hget
  simp only at hget
  cases hreboot : node.hardwareFaultInfos.get? SpecialFaultCode.nodeReboot with
  | none =>
    rw [hreboot] at hget
    exact Or.inl (hlisted hget)
  | some reboot =>
    rw [hreboot, Dict.get?_insert] at hget
    split at hget
    · cases hget
      exact Or.inr ⟨f, Dict.mem_values_iff.mpr ⟨_, hreboot⟩, horigin⟩
    · exact Or.inl (hlisted hget)

theorem hasPreSeparation_withStatus {node : NodeMetadata} {status : NodeStatus}
    (h : (withStatus node status).hasPreSeparation) : node.hasPreSeparation := by
  unfold withStatus at h
  simp only at h
  split at h
  · exact h
  · obtain ⟨f, hf, horigin⟩ := h
    obtain ⟨code, hget⟩ := Dict.mem_values_iff.mp hf
    cases status with
    | notReady =>
      rw [Dict.get?_insert] at hget
      split at hget
      · cases hget
        cases horigin
      · exact ⟨f, Dict.mem_values_iff.mpr ⟨code, hget⟩, horigin⟩
    | ready =>
      exact ⟨f, Dict.mem_values_iff.mpr ⟨code, Dict.get?_of_erase hget⟩, horigin⟩

theorem Follows.handleFaultInfoUpdate (h : s.Follows) (σ : HashOrder InstanceId) (nodeName : String)
    (infos : List FaultInfo)
    (hguard : (∃ f ∈ infos, f.originFaultLevel = some .preSeparateNpu) →
      ∀ node, s.faults.nodes.get? nodeName = some node → s.faults.Lone node) :
    (s.handleFaultInfoUpdate σ nodeName infos).Follows := by
  unfold FaultDomain.handleFaultInfoUpdate
  split
  · exact h
  · next node hnode =>
    refine h.setNode hnode ?_ (fun hpre => ?_) fun j hj htracked => ?_
    · rfl
    · rcases hasPreSeparation_replace hpre with hlisted | hold
      · exact hguard hlisted node hnode
      · exact h.base.alone nodeName node hnode hold
    · exact List.mem_filter.mpr ⟨σ.mem_iter.mpr hj, htracked⟩

theorem Follows.handleNodeStatusUpdate (h : s.Follows) (σ : HashOrder InstanceId) (nodeName : String)
    (status : NodeStatus) : (s.handleNodeStatusUpdate σ nodeName status).Follows := by
  unfold FaultDomain.handleNodeStatusUpdate
  split
  · exact h
  · next node hnode =>
    refine h.setNode hnode ?_ (fun hpre => ?_) fun j hj _ => σ.mem_iter.mpr hj
    · unfold withStatus
      simp only
      split
      · rfl
      · cases status <;> rfl
    · exact h.base.alone nodeName node hnode (hasPreSeparation_withStatus hpre)

theorem nodeOfPod_eq_some {podIp name : String} {node : NodeMetadata}
    (h : s.nodeOfPod podIp = some (name, node)) : s.faults.nodes.get? name = some node :=
  Dict.mem_entries_iff.mp (List.mem_of_find?_eq_some h)

theorem Follows.reportSoftwareFault (h : s.Follows) (f : FaultInfo) (podIp : String)
    (hguard : f.faultCategory = .software → ∀ name node, s.nodeOfPod podIp = some (name, node) →
      ∀ j ∈ node.instanceIds, s.faults.instances.contains j = true →
        node.instancePodIps.get? j = some podIp) : (s.reportSoftwareFault f podIp).Follows := by
  unfold FaultDomain.reportSoftwareFault
  split
  · exact h
  · next hcategory =>
    cases hpod : s.nodeOfPod podIp with
    | none => exact h
    | some p =>
      obtain ⟨name, node⟩ := p
      have hnode := nodeOfPod_eq_some hpod
      refine h.setNode hnode ?_ ?_ fun j hj htracked => ?_
      · rfl
      · exact h.base.alone name node hnode
      · have hip := hguard (not_not.mp hcategory) name node hpod j hj htracked
        refine List.mem_map.mpr ⟨(j, podIp), List.mem_filter.mpr ⟨?_, by simp⟩, rfl⟩
        exact Dict.mem_entries_iff.mpr hip

/-! ## Strategies -/

theorem switchStrategy_level (md : InstanceMetadata) (newStrategy : Option Strategy) :
    (switchStrategy md newStrategy).faultLevel = md.faultLevel := by
  unfold switchStrategy
  split
  · rfl
  · split
    · rfl
    · split <;> rfl

theorem Follows.setStrategy (h : s.Follows) {md md' : InstanceMetadata}
    (hmd : s.faults.instances.get? id = some md) (hlevel : md'.faultLevel = md.faultLevel) :
    Follows { s with faults := s.faults.setInstance id md' } := by
  have hget : ∀ j mdj, (s.faults.setInstance id md').instances.get? j = some mdj →
      ∃ mdj', s.faults.instances.get? j = some mdj' ∧ mdj.faultLevel = mdj'.faultLevel := by
    intro j mdj hmdj
    rw [FaultManager.setInstance, Dict.get?_insert] at hmdj
    split at hmdj
    · next hj =>
      cases hmdj
      exact ⟨md, hj ▸ hmd, hlevel⟩
    · exact ⟨mdj, hmdj, rfl⟩
  have hcontains : ∀ j, (s.faults.setInstance id md').instances.contains j =
      s.faults.instances.contains j := by
    intro j
    rw [Bool.eq_iff_iff, FaultManager.setInstance, Dict.contains_insert]
    constructor
    · rintro (rfl | hj)
      · exact Dict.contains_iff.mpr ⟨md, hmd⟩
      · exact hj
    · exact Or.inr
  refine ⟨⟨?_, fun j => (hcontains j).trans (h.base.followed j), h.base.known, h.base.keyed, ?_⟩, ?_⟩
  · intro j mdj hmdj
    obtain ⟨mdj', hmdj', hsame⟩ := hget j mdj hmdj
    rw [hsame]
    exact h.base.isolated j mdj' hmdj'
  · intro name node hnode hpre i hi j hj hiin hjin
    exact h.base.alone name node hnode hpre i hi j hj (hcontains i ▸ hiin) (hcontains j ▸ hjin)
  · intro j mdj hmdj
    obtain ⟨mdj', hmdj', hsame⟩ := hget j mdj hmdj
    rw [hsame]
    exact h.levels j mdj' hmdj'

theorem get?_clearSoftwareFaults (fm : FaultManager) (id : InstanceId) (name : String) :
    (fm.clearSoftwareFaults id).nodes.get? name = (fm.nodes.get? name).map fun node =>
      if id ∈ node.instanceIds then { node with softwareFaultInfos := ∅ } else node :=
  Dict.get?_mapVal _ _ _

/-- The instance's nodes are rid of software faults; no one else may have relied on them. -/
theorem Follows.clear (h : s.Follows)
    (hguard : ∀ name node, s.faults.nodes.get? name = some node → id ∈ node.instanceIds →
      node.softwareFaultInfos = ∅ ∨
        ∀ j ∈ node.instanceIds, s.faults.instances.contains j = true → j = id) :
    (FaultDomain.refreshInstanceFaultLevel
      { s with faults := s.faults.clearSoftwareFaults id } id).Follows := by
  have hbase : Base { s with faults := s.faults.clearSoftwareFaults id } := by
    refine ⟨h.base.isolated, h.base.followed, h.base.known, h.base.keyed, ?_⟩
    intro name node hnode hpre
    rw [get?_clearSoftwareFaults] at hnode
    obtain ⟨node₀, hnode₀, rfl⟩ := Option.map_eq_some_iff.mp hnode
    split at hpre
    · next hid =>
      rw [if_pos hid]
      exact h.base.alone name node₀ hnode₀ hpre
    · next hid =>
      rw [if_neg hid]
      exact h.base.alone name node₀ hnode₀ hpre
  have hrefreshed := hbase.refresh id
  refine ⟨hrefreshed.base, fun j => ?_⟩
  by_cases hj : j = id
  · exact hj ▸ hrefreshed.level
  · apply hrefreshed.others j hj
    cases htracked : s.faults.instances.contains j with
    | false => exact level_of_not_followed htracked
    | true =>
      refine (h.levels j).congr rfl fun name => ?_
      unfold FaultManager.faultsAt
      rw [get?_clearSoftwareFaults]
      cases hnode : s.faults.nodes.get? name with
      | none => rfl
      | some node =>
        simp only [Option.map_some, Option.bind_some]
        split
        · next hid =>
          rcases hguard name node hnode hid with hempty | honly
          · simp only [NodeMetadata.faults, hempty]
          · have hnot : j ∉ node.instanceIds := fun hmem => hj (honly j hmem htracked)
            simp [hnot]
        · rfl

/-! ## A new instance -/

open FaultManager (buildNodeNameMapping)

/-- The nodes that a new instance takes over. -/
def takenOver (s : FaultDomain) (ins : Instance) (nodeOf : String → Option String) : List String :=
  (s.faults.setInstance ins.id ⟨.healthy, 0, none, .healthy⟩).foreignNodes
    (buildNodeNameMapping ins nodeOf).values ins.jobName

/-- The nodes of a new instance have no fault that the instance would have to follow. -/
def JoinsQuietNodes (s : FaultDomain) (ins : Instance) (nodeOf : String → Option String) : Prop :=
  ∀ p ∈ s.faults.nodes.entries,
    p.1 ∈ (buildNodeNameMapping ins nodeOf).values ∨ ins.id ∈ p.2.instanceIds →
      p.2.QuietHardware ∧ (p.1 ∈ s.takenOver ins nodeOf ∨ p.2.QuietSoftware)

instance (s : FaultDomain) (ins : Instance) (nodeOf : String → Option String) :
    Decidable (s.JoinsQuietNodes ins nodeOf) :=
  inferInstanceAs (Decidable (∀ p ∈ s.faults.nodes.entries,
    p.1 ∈ (buildNodeNameMapping ins nodeOf).values ∨ ins.id ∈ p.2.instanceIds →
      p.2.QuietHardware ∧ (p.1 ∈ s.takenOver ins nodeOf ∨ p.2.QuietSoftware)))

theorem Follows.joined (h : s.Follows) (σ : HashOrder InstanceId) (nodeOf : String → Option String)
    {ins : Instance} (hguard : s.JoinsQuietNodes ins nodeOf) :
    (s.faults.setInstance ins.id ⟨.healthy, 0, none, .healthy⟩).Joined ins.id
      (s.faults.addNewInstanceWithNodes σ ins (buildNodeNameMapping ins nodeOf)) := by
  generalize hmd : (⟨.healthy, 0, none, .healthy⟩ : InstanceMetadata) = md
  have hquiet : ∀ name node, s.faults.nodes.get? name = some node →
      name ∈ (buildNodeNameMapping ins nodeOf).values ∨ ins.id ∈ node.instanceIds →
        node.QuietHardware ∧ (name ∈ s.takenOver ins nodeOf ∨ node.QuietSoftware) :=
    fun name node hnode hjoins => hguard (name, node) (Dict.mem_entries_iff.mpr hnode) hjoins
  refine FaultManager.joined_addNewInstanceWithNodes σ ins _ md ?_ ?_ ?_ hmd.symm
  · intro name node hnode hid
    obtain ⟨hhw, htaken | hsw⟩ := hquiet name node hnode (Or.inr hid)
    · -- a node that is taken over has been left by everyone
      have hdeserted := (FaultManager.mem_foreignNodes htaken).2 node hnode
      have hleft := FaultManager.isDeserted_iff.mp hdeserted ins.id hid
      rw [FaultManager.setInstance, Dict.contains_insert.mpr (Or.inl rfl)] at hleft
      cases hleft
    · exact ⟨hhw, hsw⟩
  · intro name node hnode hpre i hi j hj hiin hjin
    by_cases hid : ins.id ∈ node.instanceIds
    · obtain ⟨f, hf, horigin⟩ := hpre
      exact absurd horigin ((hquiet name node hnode (Or.inr hid)).1 f hf).2
    · have hold : ∀ k ∈ node.instanceIds,
          (s.faults.setInstance ins.id md).instances.contains k = true →
            s.faults.instances.contains k = true := by
        intro k hk hkin
        exact (Dict.contains_insert.mp hkin).resolve_left fun heq => hid (heq ▸ hk)
      exact h.base.alone name node hnode hpre i hi j hj (hold i hi hiin) (hold j hj hjin)
  · intro name hname node hnode
    subst hmd
    exact hquiet name node hnode (Or.inl hname)

theorem Follows.addInstance (h : s.Follows) (σ : HashOrder InstanceId)
    (nodeOf : String → Option String) (ins : Instance)
    (hguard : s.manager.instances.contains ins.id = false → s.JoinsQuietNodes ins nodeOf) :
    (s.notify σ nodeOf (s.manager.addInstance ins)).Follows := by
  unfold InstanceManager.addInstance
  split
  · exact h
  · next hnew =>
    have hnewm : s.manager.instances.contains ins.id = false := Bool.not_eq_true _ ▸ hnew
    have hnewf : s.faults.instances.contains ins.id = false := (h.base.followed ins.id).trans hnewm
    have hsent := ins.refreshHeartbeats_keeps.1
    have hid : ins.refreshHeartbeats.id = ins.id := Instance.toInstance_id hsent
    -- the manager files it with fresh heartbeats, which the fault manager does not look at
    have hguard' : s.JoinsQuietNodes ins.refreshHeartbeats nodeOf := by
      unfold JoinsQuietNodes takenOver buildNodeNameMapping
      rw [hid, Instance.toInstance_jobName hsent,
        show ins.refreshHeartbeats.nodeManagers = ins.nodeManagers from
          congrArg Coordinator.Instance.nodeManagers hsent]
      exact hguard hnewm
    have hjoined := h.joined σ nodeOf hguard'
    simp only [notify, List.foldl_cons, List.foldl_nil, update, FaultManager.syncInstanceNodes, hid,
      hnewf, Bool.false_eq_true, if_false]
    rw [hid] at hjoined
    generalize s.faults.addNewInstanceWithNodes σ ins.refreshHeartbeats
      (buildNodeNameMapping ins.refreshHeartbeats nodeOf) = fm at hjoined
    -- everybody else is followed as before
    have hget : ∀ j md, fm.instances.get? j = some md →
        j = ins.id ∧ md = ⟨.healthy, 0, none, .healthy⟩ ∨
          j ≠ ins.id ∧ s.faults.instances.get? j = some md := by
      intro j md hmd
      rw [hjoined.instances, FaultManager.setInstance, Dict.get?_insert] at hmd
      split at hmd
      · next hj => exact Or.inl ⟨hj.symm, (Option.some.inj hmd).symm⟩
      · next hj => exact Or.inr ⟨Ne.symm hj, hmd⟩
    refine ⟨⟨?_, ?_, ?_, ?_, hjoined.alone⟩, ?_⟩
    · intro j md hmd
      rcases hget j md hmd with ⟨rfl, rfl⟩ | ⟨hj, hold⟩
      · have hlow : ¬ FaultLevel.l2 < FaultLevel.healthy := not_lt.mpr (FaultLevel.healthy_le _)
        simp only [hlow, iff_false]
        intro hforced
        rw [h.base.known ins.id hforced] at hnewm
        cases hnewm
      · exact h.base.isolated j md hold
    · intro j
      rw [hjoined.instances, Bool.eq_iff_iff, FaultManager.setInstance, Dict.contains_insert,
        Dict.contains_insert, h.base.followed]
    · intro j hj
      exact Dict.contains_insert.mpr (Or.inr (h.base.known j hj))
    · intro k i hi
      rw [Dict.get?_insert] at hi
      split at hi
      · next hk =>
        cases hi
        exact hid.trans hk
      · exact h.base.keyed k i hi
    · intro j md hmd
      rcases hget j md hmd with ⟨rfl, rfl⟩ | ⟨hj, hold⟩
      · -- nothing on its nodes raises its level
        apply le_antisymm (FaultLevel.healthy_le _)
        rw [FaultManager.levelOf_le_iff]
        intro name faults hfaults f hf
        obtain ⟨node, hnode, hmem, rfl⟩ := FaultManager.faultsAt_eq_some.mp hfaults
        obtain ⟨hhw, hsw⟩ := hjoined.calm name node hnode hmem
        rcases List.mem_append.mp hf with hf | hf
        · exact (hhw f hf).1.le
        · exact (hsw f hf).le
      · have hin : (s.faults.setInstance ins.id ⟨.healthy, 0, none, .healthy⟩).instances.contains j =
            true := Dict.contains_insert.mpr (Or.inr (Dict.contains_iff.mpr ⟨md, hold⟩))
        rw [FaultManager.levelOf_congr (hjoined.others j hj hin)]
        exact h.levels j md hold

/-! ## Every run -/

/-- The instance's strategy has come to its end. -/
def completes (s : FaultDomain) (id : InstanceId) (newStrategy : Option Strategy) (finished : Bool) :
    Bool :=
  (s.faults.instances.get? id).any fun md => (switchStrategy md newStrategy).strategy.isSome && finished

/-- The steps that refresh every instance on the nodes whose faults they change: a new instance joins
quiet nodes, a pod's software fault is reported for all instances on its node, a strategy is completed
for the only instance on nodes with software faults, and faults whose level depends on the instances are
listed for nodes that have one instance at most. -/
def KeepsLevels (s : FaultDomain) : FaultOp → Prop
  | .addInstance _ ins nodeOf =>
    s.manager.instances.contains ins.id = false → s.JoinsQuietNodes ins nodeOf
  | .faultInfoUpdate _ nodeName infos =>
    (∃ f ∈ infos, f.originFaultLevel = some .preSeparateNpu) →
      ∀ node ∈ s.faults.nodes.get? nodeName, s.faults.Lone node
  | .reportSoftwareFault f podIp =>
    f.faultCategory = .software → ∀ p ∈ s.nodeOfPod podIp, ∀ j ∈ p.2.instanceIds.elems,
      s.faults.instances.contains j = true → p.2.instancePodIps.get? j = some podIp
  | .processStrategy id newStrategy finished =>
    s.completes id newStrategy finished = true → ∀ p ∈ s.faults.nodes.entries,
      id ∈ p.2.instanceIds → p.2.softwareFaultInfos = ∅ ∨
        ∀ j ∈ p.2.instanceIds.elems, s.faults.instances.contains j = true → j = id
  | .heartbeat .. | .heartbeatTimeout .. | .nodeStatusUpdate .. => True

instance (s : FaultDomain) : ∀ op, Decidable (s.KeepsLevels op)
  | .addInstance _ ins nodeOf =>
    inferInstanceAs (Decidable (s.manager.instances.contains ins.id = false → s.JoinsQuietNodes ins nodeOf))
  | .faultInfoUpdate _ nodeName infos =>
    inferInstanceAs (Decidable ((∃ f ∈ infos, f.originFaultLevel = some .preSeparateNpu) →
      ∀ node ∈ s.faults.nodes.get? nodeName, s.faults.Lone node))
  | .reportSoftwareFault f podIp =>
    inferInstanceAs (Decidable (f.faultCategory = .software → ∀ p ∈ s.nodeOfPod podIp,
      ∀ j ∈ p.2.instanceIds.elems, s.faults.instances.contains j = true →
        p.2.instancePodIps.get? j = some podIp))
  | .processStrategy id newStrategy finished =>
    inferInstanceAs (Decidable (s.completes id newStrategy finished = true →
      ∀ p ∈ s.faults.nodes.entries, id ∈ p.2.instanceIds → p.2.softwareFaultInfos = ∅ ∨
        ∀ j ∈ p.2.instanceIds.elems, s.faults.instances.contains j = true → j = id))
  | .heartbeat _ _ _ => isTrue trivial
  | .heartbeatTimeout _ _ => isTrue trivial
  | .nodeStatusUpdate _ _ _ => isTrue trivial

theorem Follows.processInstanceStrategy (h : s.Follows) (newStrategy : Option Strategy)
    (finished : Bool) (hguard : s.KeepsLevels (.processStrategy id newStrategy finished)) :
    (s.processInstanceStrategy id newStrategy finished).Follows := by
  unfold FaultDomain.processInstanceStrategy
  cases hmd : s.faults.instances.get? id with
  | none => exact h
  | some md =>
    have hlevel := switchStrategy_level md newStrategy
    simp only
    split
    · next hends =>
      have hset : Follows { s with
          faults := s.faults.setInstance id { switchStrategy md newStrategy with
            strategy := none, strategyFaultLevel := .healthy } } := h.setStrategy hmd hlevel
      refine hset.clear fun name node hnode hid => ?_
      have hcompletes : s.completes id newStrategy finished = true := by
        rw [completes, hmd, Option.any_some, Bool.and_eq_true]
        exact hends
      have hrest := hguard hcompletes (name, node) (Dict.mem_entries_iff.mpr hnode) hid
      refine hrest.imp_right fun honly j hj htracked => ?_
      rcases Dict.contains_insert.mp htracked with hj' | hold
      · exact hj'
      · exact honly j hj hold
    · exact h.setStrategy hmd hlevel

theorem follows_new : new.Follows where
  base := by
    refine ⟨fun _ md hmd => ?_, fun _ => rfl, fun _ hid => ?_, fun _ i hi => ?_, fun _ node hnode => ?_⟩
    · cases hmd
    · cases hid
    · cases hi
    · cases hnode
  levels := fun _ md hmd => by cases hmd

theorem exec_follows {op : FaultOp} (h : s.Follows) (hguard : s.KeepsLevels op)
    (hexec : s.exec op = some s') : s'.Follows := by
  cases op <;> cases hexec
  case addInstance σ ins nodeOf => exact h.addInstance σ nodeOf ins hguard
  case heartbeat id ip status =>
    exact h.changes _ _ (s.manager.changes_handleHeartbeat id ip status (h.base.keyed id))
      (InstanceManager.keepsForced_handleHeartbeat id ip status h.base.known)
  case heartbeatTimeout id abnormal =>
    exact h.changes _ _ (s.manager.changes_handleHeartbeatTimeout id abnormal (h.base.keyed id))
      (InstanceManager.keepsForced_handleHeartbeatTimeout id abnormal h.base.known)
  case faultInfoUpdate σ nodeName infos => exact h.handleFaultInfoUpdate σ nodeName infos hguard
  case nodeStatusUpdate σ nodeName status => exact h.handleNodeStatusUpdate σ nodeName status
  case reportSoftwareFault f podIp =>
    exact h.reportSoftwareFault f podIp fun hcategory name node hpod =>
      hguard hcategory (name, node) hpod
  case processStrategy id newStrategy finished =>
    exact h.processInstanceStrategy newStrategy finished hguard

/-- **Levels follow the faults, and isolation follows the levels.** -/
theorem levels_follow_faults {ops : List FaultOp} (hrun : Run exec KeepsLevels new ops s)
    {md : InstanceMetadata} (hmd : s.faults.instances.get? id = some md) :
    md.faultLevel = s.faults.levelOf id ∧
      (id ∈ s.manager.forcedSeparatedInstances ↔ .l2 < md.faultLevel) := by
  have h : s.Follows := hrun.invariant_state follows_new fun h hguard hexec => exec_follows h hguard hexec
  exact ⟨h.levels id md hmd, h.base.isolated id md hmd⟩

/-! ## Two runs -/


/-- An instance of one pod. -/
def instanceOf (id : InstanceId) (jobName podIp : String) : Instance where
  jobName := jobName
  modelName := "qwen"
  engineType := some "vllm"
  dispatchCapabilities := []
  id := id
  role := "union"
  status := .initial
  parallelConfig := none
  enableMultiEndpoints := true
  nodeManagers := [⟨podIp, "1027", 8⟩]
  endpoints := (∅ : Dict String (Dict EndpointId Endpoint)).insert podIp
    ((∅ : Dict EndpointId Endpoint).insert 0
      { id := 0, ip := podIp, businessPort := "1025", mgmtPort := "1026", bootstrapPort := none,
        deviceInfos := [], workload := .zero, status := .initial, headless := false })
  gatheredWorkload := .zero

def chipFault (level : FaultLevel) : FaultInfo where
  faultCategory := .hardware
  faultLevel := level
  faultCode := 0x80C98000
  faultType := some .cardUnhealthy
  npuName := "Ascend910-0"
  originFaultLevel := some .separateNpu

/-- Two instances are on a node, and one of its chips fails. -/
def sharedNodeFails : List FaultOp :=
  [.addInstance .insertion (instanceOf 1 "job-a" "10.0.0.1") (fun _ => some "node-1"),
    .addInstance .insertion (instanceOf 2 "job-b" "10.0.0.2") (fun _ => some "node-1"),
    .heartbeat 1 "10.0.0.1" ((∅ : Dict EndpointId EndpointStatus).insert 0 .normal),
    .faultInfoUpdate .insertion "node-1" [chipFault .l4]]

theorem sharedNodeFails_isolates : ∃ s, Run exec KeepsLevels new sharedNodeFails s ∧
    ∃ md, s.faults.instances.get? 1 = some md ∧ md.faultLevel = .l4 ∧
      md.faultLevel = s.faults.levelOf 1 ∧
      (1 ∈ s.manager.forcedSeparatedInstances ↔ .l2 < md.faultLevel) := by
  have h : (runList exec KeepsLevels new sharedNodeFails).map (fun s =>
      (s.faults.instances.get? 1).map (·.faultLevel)) = some (some .l4) := by decide
  obtain ⟨s, hs, hf⟩ := Option.map_eq_some_iff.mp h
  obtain ⟨md, hmd, hlevel⟩ := Option.map_eq_some_iff.mp hf
  exact ⟨s, runList_run hs, md, hmd, hlevel, levels_follow_faults (runList_run hs) hmd⟩

/-- An instance whose node has failed is removed, and the job's next one starts on the node. -/
def restartsOnFailedNode : List FaultOp :=
  [.addInstance .insertion (instanceOf 1 "job-a" "10.0.0.1") (fun _ => some "node-1"),
    .faultInfoUpdate .insertion "node-1" [chipFault .l6],
    .heartbeatTimeout 1 true,
    .addInstance .insertion (instanceOf 2 "job-a" "10.0.0.1") (fun _ => some "node-1")]

/-- The new instance counts as healthy and is not isolated, with a fault of the highest level on
its node. -/
theorem restarted_instance_ignores_fault : ∃ s, Run exec Free new restartsOnFailedNode s ∧
    ∃ md, s.faults.instances.get? 2 = some md ∧ md.faultLevel = .healthy ∧
      s.faults.levelOf 2 = .l6 ∧ 2 ∉ s.manager.forcedSeparatedInstances := by
  have h : (runList exec Free new restartsOnFailedNode).map (fun s =>
      ((s.faults.instances.get? 2).map (·.faultLevel), s.faults.levelOf 2,
        decide (2 ∈ s.manager.forcedSeparatedInstances))) =
          some (some .healthy, .l6, false) := by decide
  obtain ⟨s, hs, hf⟩ := Option.map_eq_some_iff.mp h
  simp only [Prod.mk.injEq, decide_eq_false_iff_not] at hf
  obtain ⟨hmd, hworst, hfree⟩ := hf
  obtain ⟨md, hget, hlevel⟩ := Option.map_eq_some_iff.mp hmd
  exact ⟨s, runList_run hs, md, hget, hlevel, hworst, hfree⟩

end FaultDomain

end PyMotor.Controller
