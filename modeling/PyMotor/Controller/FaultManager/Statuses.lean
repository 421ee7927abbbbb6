import PyMotor.Controller.FaultManager.Levels

/-!
# What a refresh does to instances and nodes

A refresh separates its instance if that is active and some fault of its nodes is above level two
(`Severe`); a fault whose level depends on the business of its node does not count, since the instance
itself is business. Every other instance keeps its status. On the nodes of the instance the faults that
depend on the business get the level that it calls for after the refresh (`levelOf_reevaluateNodes`).
-/

namespace PyMotor.Controller

open Coordinator (InstanceId EndpointId)

namespace NodeMetadata

/-- A fault above level two that does not depend on who is on the node. -/
def Severe (node : NodeMetadata) : Prop :=
  (∃ f ∈ node.hardwareFaultInfos.values,
    f.originFaultLevel ≠ some .preSeparateNpu ∧ .l2 < f.faultLevel) ∨
  ∃ f ∈ node.softwareFaultInfos.values, .l2 < f.faultLevel

end NodeMetadata

namespace FaultDomain

variable {s : FaultDomain} {id j : InstanceId} {name : String}

/-- Some node of the instance has a severe fault. -/
def Severe (s : FaultDomain) (id : InstanceId) : Prop :=
  ∃ name node, s.faults.nodes.get? name = some node ∧ id ∈ node.instanceIds ∧ node.Severe

/-- The instance is active, and its faults do not let it stay so. -/
def Falls (s : FaultDomain) (id : InstanceId) : Prop :=
  (∃ i, s.manager.instances.get? id = some i ∧ i.status = .active) ∧ s.Severe id

/-! ## The instance manager -/

/-- The instances after `id` was separated, or after it was not. -/
def Separated (s : FaultDomain) (id : InstanceId) (falls : Prop) (s' : FaultDomain) : Prop :=
  (falls → ∃ i, s.manager.instances.get? id = some i ∧
    s'.manager.instances.get? id = some (i.updateInstanceStatus .inactive)) ∧
  (¬falls → s'.manager.instances.get? id = s.manager.instances.get? id) ∧
  ∀ j, j ≠ id → s'.manager.instances.get? j = s.manager.instances.get? j

theorem applyTarget_spec {md : InstanceMetadata} (hmd : s.faults.instances.get? id = some md) :
    (s.applyTarget id md).2.faults.nodes = s.faults.nodes ∧
    (∀ j, (s.applyTarget id md).2.faults.instances.contains j = s.faults.instances.contains j) ∧
    ((s.applyTarget id md).1 = true ↔
      .l2 < s.faults.levelOf id ∧ ∃ i, s.manager.instances.get? id = some i ∧ i.status = .active) ∧
    s.Separated id ((s.applyTarget id md).1 = true) (s.applyTarget id md).2 := by
  have htracked (md' : InstanceMetadata) (j : InstanceId) :
      (s.faults.setInstance id md').instances.contains j = s.faults.instances.contains j := by
    rw [Bool.eq_iff_iff, FaultManager.setInstance, Dict.contains_insert]
    exact ⟨fun h => h.elim (fun h => h ▸ Dict.contains_iff.mpr ⟨md, hmd⟩) fun h => h, Or.inr⟩
  have hlevel : s.faults.levelOf id = ((s.faults.target id).map (·.faultLevel)).getD .healthy :=
    FaultManager.levelOf_eq_target
  unfold applyTarget
  cases htarget : s.faults.target id with
  | none =>
    rw [htarget] at hlevel
    have hlow : ¬FaultLevel.l2 < s.faults.levelOf id := by
      rw [hlevel]
      exact not_lt.mpr (FaultLevel.healthy_le _)
    simp only
    split
    · exact ⟨rfl, fun _ => rfl, by simp [hlow], by simp [Separated]⟩
    · refine ⟨rfl, htracked _, by simp [hlow], ?_⟩
      simp [Separated, InstanceManager.recoverInstance_instances]
  | some f =>
    rw [htarget] at hlevel
    have hfault : s.faults.levelOf id = f.faultLevel := hlevel
    simp only
    split
    -- above L2 the instance is separated, if the manager has it as active
    · next hhigh =>
      refine ⟨rfl, htracked _, ?_⟩
      unfold InstanceManager.separateInstance
      cases hi : s.manager.instances.get? id with
      | none => simp [Separated, hi]
      | some i =>
        simp only
        split
        · next hactive =>
          refine ⟨by simp [hfault, hhigh, hactive], ?_⟩
          simp only [Separated, hi]
          refine ⟨fun _ => ⟨i, rfl, Dict.get?_insert_self _ _ _⟩, by simp, fun j hj => ?_⟩
          exact Dict.get?_insert_ne _ _ (Ne.symm hj)
        · next hidle => simp [Separated, hi, hidle]
    -- up to L2 the instance is recovered, if it was separated for a fault
    · next hlow =>
      have hlow' : ¬FaultLevel.l2 < s.faults.levelOf id := hfault ▸ hlow
      split
      · refine ⟨rfl, htracked _, by simp [hlow'], ?_⟩
        simp [Separated, InstanceManager.recoverInstance_instances]
      · exact ⟨rfl, htracked _, by simp [hlow'], by simp [Separated]⟩

/-! ## A refresh -/

/-- Whether there is business on a node depends on the instances and on who is there. -/
theorem preSeparateLevel_congr {s s' : FaultDomain} {node node' : NodeMetadata}
    (hids : node'.instanceIds = node.instanceIds)
    (htracked : ∀ j, s'.faults.instances.contains j = s.faults.instances.contains j)
    (hstatus : ∀ j, s'.manager.instances.get? j = s.manager.instances.get? j) :
    s'.preSeparateLevel node' = s.preSeparateLevel node := by
  rw [preSeparateLevel, preSeparateLevel, nodeHasActiveInstances, nodeHasActiveInstances, hids]
  simp only [htracked, hstatus]

/-- An active instance sees its own business on all its nodes. -/
theorem levelOf_reevaluateNodes (htracked : s.faults.instances.contains id = true)
    (hactive : ∃ i, s.manager.instances.get? id = some i ∧ i.status = .active) :
    .l2 < (s.reevaluateNodes id).faults.levelOf id ↔ s.Severe id := by
  have hbusiness (node : NodeMetadata) (hid : id ∈ node.instanceIds) :
      s.preSeparateLevel node = .l2 := by
    obtain ⟨i, hi, hstatus⟩ := hactive
    refine if_pos (List.any_eq_true.mpr ⟨id, hid, ?_⟩)
    simp [htracked, hi, hstatus]
  rw [← not_le, FaultManager.levelOf_le_iff]
  push Not
  simp only [FaultManager.faultsAt_eq_some, get?_reevaluateNodes, Option.map_eq_some_iff]
  constructor
  · rintro ⟨name, _, ⟨_, ⟨node, hnode, rfl⟩, hid, rfl⟩, f, hf, hlevel⟩
    have hid' : id ∈ node.instanceIds := by
      split at hid
      · assumption
      · exact hid
    rw [if_pos hid'] at hf
    refine ⟨name, node, hnode, hid', ?_⟩
    rcases List.mem_append.mp hf with hf | hf
    · obtain ⟨code, hget⟩ := Dict.mem_values_iff.mp hf
      simp only [reevaluate, Dict.get?_mapVal, Option.map_eq_some_iff] at hget
      obtain ⟨f₀, hf₀, rfl⟩ := hget
      split at hlevel
      · rw [hbusiness node hid'] at hlevel
        exact absurd hlevel (lt_irrefl _)
      · next horigin => exact Or.inl ⟨f₀, Dict.mem_values_iff.mpr ⟨code, hf₀⟩, horigin, hlevel⟩
    · exact Or.inr ⟨f, hf, hlevel⟩
  · rintro ⟨name, node, hnode, hid, ⟨f, hf, horigin, hlevel⟩ | ⟨f, hf, hlevel⟩⟩
    · refine ⟨name, _, ⟨_, ⟨node, hnode, rfl⟩, ?_, rfl⟩, f, List.mem_append_left _ ?_, hlevel⟩
      · rw [if_pos hid]
        exact hid
      · rw [if_pos hid]
        obtain ⟨code, hget⟩ := Dict.mem_values_iff.mp hf
        refine Dict.mem_values_iff.mpr ⟨code, ?_⟩
        simp [reevaluate, hget, horigin]
    · refine ⟨name, _, ⟨_, ⟨node, hnode, rfl⟩, ?_, rfl⟩, f, List.mem_append_right _ ?_, hlevel⟩
      · rw [if_pos hid]
        exact hid
      · rw [if_pos hid]
        exact hf

theorem reevaluate_reevaluate (s s' : FaultDomain) (node : NodeMetadata) :
    s'.reevaluate (s.reevaluate node) = s'.reevaluate node := by
  have hlevel : s'.preSeparateLevel (s.reevaluate node) = s'.preSeparateLevel node :=
    preSeparateLevel_congr rfl (fun _ => rfl) fun _ => rfl
  have hvalues : ((s.reevaluate node).hardwareFaultInfos).mapVal (fun _ f =>
        if f.originFaultLevel = some .preSeparateNpu then
          { f with faultLevel := s'.preSeparateLevel node } else f) =
      node.hardwareFaultInfos.mapVal fun _ f =>
        if f.originFaultLevel = some .preSeparateNpu then
          { f with faultLevel := s'.preSeparateLevel node } else f := by
    simp only [reevaluate, Dict.mapVal, List.map_map, Dict.mk.injEq]
    refine List.map_congr_left fun p _ => ?_
    simp only [Function.comp]
    split <;> simp_all
  rw [reevaluate, hlevel, hvalues]
  rfl

theorem reevaluate_congr {s s' : FaultDomain}
    (htracked : ∀ j, s'.faults.instances.contains j = s.faults.instances.contains j)
    (hstatus : ∀ j, s'.manager.instances.get? j = s.manager.instances.get? j) (node : NodeMetadata) :
    s'.reevaluate node = s.reevaluate node := by
  rw [reevaluate, reevaluate, preSeparateLevel_congr rfl htracked hstatus]

/-- What a refresh of an instance that is followed leaves behind. -/
structure Refreshes (s : FaultDomain) (id : InstanceId) (s' : FaultDomain) : Prop where
  nodes : ∀ name, s'.faults.nodes.get? name =
    (s.faults.nodes.get? name).map fun node =>
      if id ∈ node.instanceIds then s'.reevaluate node else node
  tracked : ∀ j, s'.faults.instances.contains j = s.faults.instances.contains j
  separated : s.Separated id (s.Falls id) s'

theorem refreshOnce_spec {md : InstanceMetadata} (hmd : s.faults.instances.get? id = some md) :
    ((s.refreshOnce id).1 = true ↔ s.Falls id) ∧
    (∀ name, (s.refreshOnce id).2.faults.nodes.get? name =
      (s.faults.nodes.get? name).map fun node =>
        if id ∈ node.instanceIds then s.reevaluate node else node) ∧
    (∀ j, (s.refreshOnce id).2.faults.instances.contains j = s.faults.instances.contains j) ∧
    s.Separated id (s.Falls id) (s.refreshOnce id).2 := by
  obtain ⟨hnodes, htracked, hflag, hsep⟩ := applyTarget_spec (s := s.reevaluateNodes id) hmd
  have hfalls : (s.refreshOnce id).1 = true ↔ s.Falls id := by
    rw [refreshOnce, hmd]
    refine hflag.trans (and_comm.trans (and_congr_right fun hactive => ?_))
    exact levelOf_reevaluateNodes (Dict.contains_iff.mpr ⟨md, hmd⟩) hactive
  refine ⟨hfalls, fun name => ?_, fun j => ?_, ?_⟩
  · rw [refreshOnce, hmd]
    simp only
    rw [hnodes, get?_reevaluateNodes]
  · rw [refreshOnce, hmd]
    exact htracked j
  · rw [← hfalls]
    rw [refreshOnce, hmd]
    exact hsep

/-- **A refresh** re-evaluates the nodes of the instance, and separates it if it falls. -/
theorem refreshes (htracked : s.faults.instances.contains id = true) :
    s.Refreshes id (s.refreshInstanceFaultLevel id) := by
  obtain ⟨md, hmd⟩ := Dict.contains_iff.mp htracked
  obtain ⟨hflag, hnodes, hcontains, hsep⟩ := refreshOnce_spec hmd
  unfold refreshInstanceFaultLevel
  generalize s.refreshOnce id = r at hflag hnodes hcontains hsep
  obtain ⟨flag, s₁⟩ := r
  cases flag with
  | false =>
    have hstands : ¬s.Falls id := fun h => absurd (hflag.mpr h) (by simp)
    have hstatus (j : InstanceId) : s₁.manager.instances.get? j = s.manager.instances.get? j := by
      by_cases hj : j = id
      · exact hj ▸ hsep.2.1 hstands
      · exact hsep.2.2 j hj
    refine ⟨fun name => ?_, hcontains, hsep⟩
    rw [hnodes]
    simp only [reevaluate_congr hcontains hstatus]
  | true =>
    have hfalls : s.Falls id := hflag.mp rfl
    obtain ⟨i, -, hinactive⟩ := hsep.1 hfalls
    -- the second time the instance is not active any more
    obtain ⟨md₁, hmd₁⟩ := Dict.contains_iff.mp ((hcontains id).trans htracked)
    obtain ⟨-, hnodes₂, hcontains₂, hsep₂⟩ := refreshOnce_spec hmd₁
    have hstands : ¬s₁.Falls id := by
      rintro ⟨⟨i', hi', hactive⟩, -⟩
      rw [hinactive] at hi'
      cases hi'
      cases hactive
    have hstatus (j : InstanceId) :
        (s₁.refreshOnce id).2.manager.instances.get? j = s₁.manager.instances.get? j := by
      by_cases hj : j = id
      · exact hj ▸ hsep₂.2.1 hstands
      · exact hsep₂.2.2 j hj
    refine ⟨fun name => ?_, fun j => (hcontains₂ j).trans (hcontains j), ?_, ?_, fun j hj => ?_⟩
    · simp only
      rw [hnodes₂, hnodes, Option.map_map]
      refine congrArg (Option.map · _) (funext fun node => ?_)
      simp only [Function.comp, reevaluate_congr hcontains₂ hstatus]
      by_cases hid : id ∈ node.instanceIds
      · rw [if_pos hid, if_pos hid, reevaluate_ids, if_pos hid, reevaluate_reevaluate]
      · rw [if_neg hid, if_neg hid]
    · intro _
      obtain ⟨i, hi, hinactive⟩ := hsep.1 hfalls
      exact ⟨i, hi, (hstatus id).trans hinactive⟩
    · exact fun h => absurd hfalls h
    · exact (hstatus j).trans (hsep.2.2 j hj)

theorem refresh_untracked (h : s.faults.instances.contains id = false) :
    s.refreshInstanceFaultLevel id = s := by
  have hnone : s.faults.instances.get? id = none := by
    cases hget : s.faults.instances.get? id with
    | none => rfl
    | some md => rw [Dict.contains_of_some hget] at h; cases h
  rw [refreshInstanceFaultLevel, refreshOnce, hnone]

theorem severe_reevaluate {node : NodeMetadata} : (s.reevaluate node).Severe ↔ node.Severe := by
  refine or_congr ?_ Iff.rfl
  simp only [Dict.mem_values_iff, reevaluate, Dict.get?_mapVal, Option.map_eq_some_iff]
  constructor
  · rintro ⟨_, ⟨code, f, hf, rfl⟩, horigin, hlevel⟩
    split at horigin
    · next h => exact absurd h horigin
    · next h =>
      rw [if_neg h] at hlevel
      exact ⟨f, ⟨code, hf⟩, h, hlevel⟩
  · rintro ⟨f, ⟨code, hf⟩, horigin, hlevel⟩
    exact ⟨f, ⟨code, f, hf, if_neg horigin⟩, horigin, hlevel⟩

theorem Refreshes.severe {s' : FaultDomain} (h : s.Refreshes id s') : s'.Severe j ↔ s.Severe j := by
  simp only [Severe, h.nodes, Option.map_eq_some_iff]
  constructor
  · rintro ⟨name, _, ⟨node, hnode, rfl⟩, hj, hsevere⟩
    refine ⟨name, node, hnode, ?_⟩
    split at hj
    · next hid =>
      rw [if_pos hid, severe_reevaluate] at hsevere
      exact ⟨hj, hsevere⟩
    · next hid =>
      rw [if_neg hid] at hsevere
      exact ⟨hj, hsevere⟩
  · rintro ⟨name, node, hnode, hj, hsevere⟩
    refine ⟨name, _, ⟨node, hnode, rfl⟩, ?_⟩
    split
    · exact ⟨hj, severe_reevaluate.mpr hsevere⟩
    · exact ⟨hj, hsevere⟩

/-! ## Refreshing many -/

/-- The instance is starting or active. -/
def IsUp (s : FaultDomain) (j : InstanceId) : Prop :=
  ∃ i, s.manager.instances.get? j = some i ∧ (i.status = .initial ∨ i.status = .active)

/-- The instance is starting, or it is active and, if it is one of `ids`, has no severe fault. -/
def StaysUp (s : FaultDomain) (ids : List InstanceId) (j : InstanceId) : Prop :=
  ∃ i, s.manager.instances.get? j = some i ∧
    (i.status = .initial ∨ i.status = .active ∧ (j ∈ ids → ¬s.Severe j))

theorem Refreshes.staysUp {s' : FaultDomain} (h : s.Refreshes id s') (ids : List InstanceId) :
    s'.StaysUp ids j ↔ s.StaysUp (id :: ids) j := by
  unfold StaysUp
  rw [h.severe]
  by_cases hj : j = id
  · subst hj
    by_cases hfalls : s.Falls j
    · obtain ⟨i, hi, hinactive⟩ := h.separated.1 hfalls
      obtain ⟨⟨i', hi', hactive⟩, hsevere⟩ := hfalls
      obtain rfl : i' = i := Option.some.inj (hi'.symm.trans hi)
      rw [hi, hinactive]
      simp [hactive, hsevere]
    · rw [h.separated.2.1 hfalls]
      refine exists_congr fun i => and_congr_right fun hi => or_congr_right
        (and_congr_right fun hactive => ?_)
      have hquiet : ¬s.Severe j := fun hsevere => hfalls ⟨⟨i, hi, hactive⟩, hsevere⟩
      simp [hquiet]
  · rw [h.separated.2.2 j hj]
    simp [hj]

theorem isUp_refreshAll {ids : List InstanceId}
    (htracked : ∀ id ∈ ids, s.faults.instances.contains id = true) :
    ((s.refreshAll ids).IsUp j ↔ s.StaysUp ids j) ∧
      ∀ k, (s.refreshAll ids).faults.instances.contains k = s.faults.instances.contains k := by
  induction ids generalizing s with
  | nil => exact ⟨by simp [IsUp, StaysUp, refreshAll], fun _ => rfl⟩
  | cons id ids ih =>
    obtain ⟨hid, hids⟩ := List.forall_mem_cons.mp htracked
    have h := refreshes hid
    obtain ⟨hup, hcontains⟩ := ih fun k hk => (h.tracked k).trans (hids k hk)
    exact ⟨hup.trans (h.staysUp ids), fun k => (hcontains k).trans (h.tracked k)⟩

/-- A node is re-evaluated with each of its instances, so that in the end its faults are as its
business calls for. -/
theorem node_refreshAll {node : NodeMetadata} {ids : List InstanceId}
    (hnode : s.faults.nodes.get? name = some node)
    (hids : ∀ id ∈ ids, id ∈ node.instanceIds ∧ s.faults.instances.contains id = true) :
    (s.refreshAll ids).faults.nodes.get? name =
      some (if ids = [] then node else (s.refreshAll ids).reevaluate node) := by
  induction ids generalizing s node with
  | nil => exact hnode
  | cons id ids ih =>
    obtain ⟨⟨hid, htracked⟩, hrest⟩ := List.forall_mem_cons.mp hids
    have h := refreshes htracked
    have hnode₁ : (s.refreshInstanceFaultLevel id).faults.nodes.get? name =
        some ((s.refreshInstanceFaultLevel id).reevaluate node) := by
      rw [h.nodes, hnode, Option.map_some, if_pos hid]
    have := ih hnode₁ fun k hk => ⟨(hrest k hk).1, (h.tracked k).trans (hrest k hk).2⟩
    rw [refreshAll, List.foldl_cons] at *
    rw [this, if_neg (List.cons_ne_nil _ _)]
    split
    · next hnil =>
      subst hnil
      rfl
    · exact congrArg some (reevaluate_reevaluate _ _ _)

theorem preSeparateLevel_eq (node : NodeMetadata) : s.preSeparateLevel node = .l2 ↔
    ∃ j ∈ node.instanceIds, s.faults.instances.contains j = true ∧ s.IsUp j := by
  have hany : s.nodeHasActiveInstances node = true ↔
      ∃ j ∈ node.instanceIds, s.faults.instances.contains j = true ∧ s.IsUp j := by
    rw [nodeHasActiveInstances, List.any_eq_true]
    refine exists_congr fun j => and_congr_right fun _ => ?_
    rw [Bool.and_eq_true, Option.any_eq_true]
    simp [IsUp]
  rw [preSeparateLevel, ← hany]
  split <;> simp_all

end FaultDomain

end PyMotor.Controller
