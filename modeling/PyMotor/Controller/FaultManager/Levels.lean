import PyMotor.Controller.FaultManager
import PyMotor.Controller.InstanceManager.Changes

/-!
# Fault levels follow the faults

The level of an instance is cached, and a refresh brings it up to date: afterwards it is the maximum
over the faults of the instance's nodes, and the instance is isolated accordingly. The level of any
other instance stays true, unless the refresh re-evaluates a fault on a node that the two share.
-/

namespace PyMotor.Controller

open Coordinator (InstanceId EndpointId)

/-! ## Maxima -/

namespace FaultLevel

/-- The highest of the levels. -/
def highest (levels : List FaultLevel) : FaultLevel := levels.foldr max healthy

theorem highest_le_iff {levels : List FaultLevel} {bound : FaultLevel} :
    highest levels ≤ bound ↔ ∀ level ∈ levels, level ≤ bound := by
  induction levels with
  | nil => simp [highest, healthy_le]
  | cons level levels ih =>
    rw [highest, List.foldr_cons, max_le_iff, List.forall_mem_cons]
    exact and_congr_right fun _ => ih

theorem highest_mem {levels : List FaultLevel} (hne : levels ≠ []) : highest levels ∈ levels := by
  induction levels with
  | nil => exact absurd rfl hne
  | cons level levels ih =>
    rw [highest, List.foldr_cons]
    obtain rfl | hne := eq_or_ne levels []
    · simp [healthy_le]
    · rcases max_choice level (levels.foldr max healthy) with hmax | hmax <;> rw [hmax]
      · exact List.mem_cons_self
      · exact List.mem_cons_of_mem level (ih hne)

theorem highest_eq_iff {levels : List FaultLevel} {top : FaultLevel} (hne : levels ≠ []) :
    highest levels = top ↔ (∀ level ∈ levels, level ≤ top) ∧ ∃ level ∈ levels, level = top := by
  constructor
  · rintro rfl
    exact ⟨highest_le_iff.mp le_rfl, _, highest_mem hne, rfl⟩
  · rintro ⟨hle, _, hmem, rfl⟩
    exact le_antisymm (highest_le_iff.mpr hle) (highest_le_iff.mp le_rfl _ hmem)

end FaultLevel

theorem highestFault_from (faults : List FaultInfo) (best : Option FaultInfo) :
    (faults.foldl worse best = none ↔ best = none ∧ faults = []) ∧
    ∀ b, faults.foldl worse best = some b →
      (best = some b ∨ b ∈ faults) ∧ (∀ a, best = some a → a.faultLevel ≤ b.faultLevel) ∧
        ∀ f ∈ faults, f.faultLevel ≤ b.faultLevel := by
  induction faults generalizing best with
  | nil =>
    refine ⟨by simp, fun b hb => ⟨Or.inl hb, fun a ha => ?_, by simp⟩⟩
    rw [List.foldl_nil, ha] at hb
    cases hb
    exact le_rfl
  | cons f faults ih =>
    rw [List.foldl_cons]
    -- the next candidate is not below the old one nor below `f`, and is one of the two
    obtain ⟨c, hc, hold, hbest, hf⟩ : ∃ c, worse best f = some c ∧ (best = some c ∨ c = f) ∧
        (∀ a, best = some a → a.faultLevel ≤ c.faultLevel) ∧ f.faultLevel ≤ c.faultLevel := by
      cases best with
      | none => exact ⟨f, rfl, Or.inr rfl, by simp, le_rfl⟩
      | some a =>
        by_cases hlt : a.faultLevel < f.faultLevel
        · refine ⟨f, if_pos hlt, Or.inr rfl, fun a' ha' => ?_, le_rfl⟩
          cases ha'
          exact hlt.le
        · refine ⟨a, if_neg hlt, Or.inl rfl, fun a' ha' => ?_, not_lt.mp hlt⟩
          cases ha'
          exact le_rfl
    obtain ⟨hnone, hsome⟩ := ih (some c)
    rw [hc]
    refine ⟨?_, fun b hb => ?_⟩
    · rw [hnone]
      simp
    · obtain ⟨hmem, hcb, hall⟩ := hsome b hb
      refine ⟨?_, fun a ha => (hbest a ha).trans (hcb c rfl),
        List.forall_mem_cons.mpr ⟨hf.trans (hcb c rfl), hall⟩⟩
      rcases hmem with hmem | hmem
      · cases hmem
        rcases hold with hold | rfl
        · exact Or.inl hold
        · exact Or.inr List.mem_cons_self
      · exact Or.inr (List.mem_cons_of_mem f hmem)

theorem highestFault_eq_none {faults : List FaultInfo} : highestFault faults = none ↔ faults = [] := by
  rw [highestFault, (highestFault_from faults none).1]
  simp

theorem highestFault_eq_some {faults : List FaultInfo} {b : FaultInfo}
    (h : highestFault faults = some b) : b ∈ faults ∧ ∀ f ∈ faults, f.faultLevel ≤ b.faultLevel := by
  obtain ⟨hmem, -, hall⟩ := (highestFault_from faults none).2 b h
  exact ⟨hmem.resolve_left (by simp), hall⟩

theorem targetFault_eq_none {hardware software : List FaultInfo}
    (h : targetFault hardware software = none) : hardware = [] ∧ software = [] := by
  unfold targetFault at h
  split at h
  · split at h <;> cases h
  · cases h
  · next hhw => exact ⟨highestFault_eq_none.mp hhw, highestFault_eq_none.mp h⟩

theorem targetFault_eq_some {hardware software : List FaultInfo} {t : FaultInfo}
    (h : targetFault hardware software = some t) :
    t ∈ hardware ++ software ∧ ∀ f ∈ hardware ++ software, f.faultLevel ≤ t.faultLevel := by
  simp only [List.mem_append]
  unfold targetFault at h
  split at h
  · next hw sw hhw hsw =>
    obtain ⟨hhwmem, hhwall⟩ := highestFault_eq_some hhw
    obtain ⟨hswmem, hswall⟩ := highestFault_eq_some hsw
    split at h
    · next hle =>
      cases h
      exact ⟨Or.inl hhwmem, fun f hf => hf.elim (hhwall f) fun hf => (hswall f hf).trans hle⟩
    · next hlt =>
      cases h
      exact ⟨Or.inr hswmem,
        fun f hf => hf.elim (fun hf => (hhwall f hf).trans (not_le.mp hlt).le) (hswall f)⟩
  · next hw hhw hsw =>
    cases h
    obtain ⟨hhwmem, hhwall⟩ := highestFault_eq_some hhw
    rw [highestFault_eq_none.mp hsw]
    exact ⟨Or.inl hhwmem, fun f hf => hhwall f (hf.resolve_right List.not_mem_nil)⟩
  · next hhw =>
    obtain ⟨hswmem, hswall⟩ := highestFault_eq_some h
    rw [highestFault_eq_none.mp hhw]
    exact ⟨Or.inr hswmem, fun f hf => hswall f (hf.resolve_left List.not_mem_nil)⟩

/-! ## The level of an instance -/

namespace NodeMetadata

/-- All stored faults of a node. -/
def faults (node : NodeMetadata) : List FaultInfo :=
  node.hardwareFaultInfos.values ++ node.softwareFaultInfos.values

end NodeMetadata

namespace FaultManager

variable {fm fm' : FaultManager} {id : InstanceId}

/-- The highest level of all faults stored on the nodes of the instance. -/
def levelOf (fm : FaultManager) (id : InstanceId) : FaultLevel :=
  FaultLevel.highest <| (fm.nodes.values.filter fun node => decide (id ∈ node.instanceIds)).flatMap
    fun node => node.faults.map (·.faultLevel)

/-- The faults of the node `name`, if the instance is there. -/
def faultsAt (fm : FaultManager) (id : InstanceId) (name : String) : Option (List FaultInfo) :=
  (fm.nodes.get? name).bind fun node => if id ∈ node.instanceIds then some node.faults else none

theorem faultsAt_eq_some {name : String} {faults : List FaultInfo} :
    fm.faultsAt id name = some faults ↔
      ∃ node, fm.nodes.get? name = some node ∧ id ∈ node.instanceIds ∧ node.faults = faults := by
  simp [faultsAt, Option.bind_eq_some_iff]

theorem levelOf_le_iff {bound : FaultLevel} : fm.levelOf id ≤ bound ↔
    ∀ name faults, fm.faultsAt id name = some faults → ∀ f ∈ faults, f.faultLevel ≤ bound := by
  rw [levelOf, FaultLevel.highest_le_iff]
  simp only [List.mem_flatMap, List.mem_filter, List.mem_map, decide_eq_true_eq, faultsAt_eq_some,
    Dict.mem_values_iff]
  constructor
  · rintro h name _ ⟨node, hnode, hid, rfl⟩ f hf
    exact h _ ⟨node, ⟨⟨name, hnode⟩, hid⟩, f, hf, rfl⟩
  · rintro h _ ⟨node, ⟨⟨name, hnode⟩, hid⟩, f, hf, rfl⟩
    exact h name _ ⟨node, hnode, hid, rfl⟩ f hf

theorem levelOf_congr (h : ∀ name, fm'.faultsAt id name = fm.faultsAt id name) :
    fm'.levelOf id = fm.levelOf id :=
  eq_of_forall_ge_iff fun bound => by simp only [levelOf_le_iff, h]

/-- The faults that a refresh looks at are all the faults of the instance. -/
theorem mem_targets {f : FaultInfo} :
    f ∈ ((fm.instanceNodes id).flatMap fun node =>
        node.hardwareFaultInfos.values.filter node.affectsInstance) ++
      ((fm.instanceNodes id).flatMap fun node => node.softwareFaultInfos.values) ↔
    ∃ name faults, fm.faultsAt id name = some faults ∧ f ∈ faults := by
  have hnonempty : ∀ node : NodeMetadata, f ∈ node.faults → node.hasFaults = true := by
    intro node hf
    rw [NodeMetadata.hasFaults, Bool.or_eq_true, Bool.not_eq_true', Bool.not_eq_true']
    rcases List.mem_append.mp hf with hf | hf
    · left
      rw [← Bool.not_eq_true]
      intro hempty
      rw [Dict.eq_empty_of_isEmpty hempty] at hf
      cases hf
    · right
      rw [← Bool.not_eq_true]
      intro hempty
      rw [Dict.eq_empty_of_isEmpty hempty] at hf
      cases hf
  -- the instance itself is on the node
  have haffects : ∀ node : NodeMetadata, id ∈ node.instanceIds → node.affectsInstance f = true := by
    intro node hid
    have hempty : node.instanceIds.isEmpty = false := by
      rw [← Bool.not_eq_true, OrdSet.isEmpty_iff]
      exact fun h => h id hid
    simp [NodeMetadata.affectsInstance, hempty]
  simp only [List.mem_append, List.mem_flatMap, List.mem_filter, instanceNodes, Bool.and_eq_true,
    decide_eq_true_eq, faultsAt_eq_some, Dict.mem_values_iff]
  constructor
  · rintro (⟨node, ⟨⟨name, hnode⟩, hid, -⟩, ⟨code, hf⟩, -⟩ | ⟨node, ⟨⟨name, hnode⟩, hid, -⟩, code, hf⟩)
    · exact ⟨name, _, ⟨node, hnode, hid, rfl⟩, List.mem_append_left _ (Dict.mem_values_iff.mpr ⟨code, hf⟩)⟩
    · exact ⟨name, _, ⟨node, hnode, hid, rfl⟩, List.mem_append_right _ (Dict.mem_values_iff.mpr ⟨code, hf⟩)⟩
  · rintro ⟨name, _, ⟨node, hnode, hid, rfl⟩, hf⟩
    have hfaults := hnonempty node hf
    rcases List.mem_append.mp hf with hf | hf
    · exact Or.inl ⟨node, ⟨⟨name, hnode⟩, hid, hfaults⟩, Dict.mem_values_iff.mp hf, haffects node hid⟩
    · exact Or.inr ⟨node, ⟨⟨name, hnode⟩, hid, hfaults⟩, Dict.mem_values_iff.mp hf⟩

/-- **The target** of a refresh is the worst fault. -/
theorem levelOf_eq_target : fm.levelOf id = ((fm.target id).map (·.faultLevel)).getD .healthy := by
  unfold target
  cases htarget : targetFault
      ((fm.instanceNodes id).flatMap fun node =>
        node.hardwareFaultInfos.values.filter node.affectsInstance)
      ((fm.instanceNodes id).flatMap fun node => node.softwareFaultInfos.values) with
  | none =>
    apply le_antisymm _ (FaultLevel.healthy_le _)
    rw [levelOf_le_iff]
    intro name faults hfaults f hf
    obtain ⟨hhw, hsw⟩ := targetFault_eq_none htarget
    have hmem := mem_targets.mpr ⟨name, faults, hfaults, hf⟩
    rw [hhw, hsw] at hmem
    cases hmem
  | some t =>
    obtain ⟨hmem, hall⟩ := targetFault_eq_some htarget
    apply le_antisymm
    · rw [levelOf_le_iff]
      intro name faults hfaults f hf
      exact hall f (mem_targets.mpr ⟨name, faults, hfaults, hf⟩)
    · obtain ⟨name, faults, hfaults, hf⟩ := mem_targets.mp hmem
      exact levelOf_le_iff.mp le_rfl name faults hfaults t hf

end FaultManager

/-! ## What is kept between refreshes -/

namespace NodeMetadata

/-- A fault of the hardware whose level depends on who is on the node. -/
def hasPreSeparation (node : NodeMetadata) : Prop :=
  ∃ f ∈ node.hardwareFaultInfos.values, f.originFaultLevel = some .preSeparateNpu

instance (node : NodeMetadata) : Decidable node.hasPreSeparation :=
  inferInstanceAs (Decidable (∃ f ∈ node.hardwareFaultInfos.values, _))

end NodeMetadata

namespace FaultManager

/-- At most one of the instances that are followed is on the node. -/
def Lone (fm : FaultManager) (node : NodeMetadata) : Prop :=
  ∀ i ∈ node.instanceIds, ∀ j ∈ node.instanceIds,
    fm.instances.contains i = true → fm.instances.contains j = true → i = j

instance (fm : FaultManager) (node : NodeMetadata) : Decidable (fm.Lone node) :=
  inferInstanceAs (Decidable (∀ i ∈ node.instanceIds.elems, ∀ j ∈ node.instanceIds.elems,
    fm.instances.contains i = true → fm.instances.contains j = true → i = j))

end FaultManager

namespace FaultDomain

variable {s : FaultDomain} {id j : InstanceId}

/-- The cached level of the instance is true. -/
def Level (s : FaultDomain) (id : InstanceId) : Prop :=
  ∀ md, s.faults.instances.get? id = some md → md.faultLevel = s.faults.levelOf id

/-- The instance is isolated as its cached level demands. -/
def Isolated (s : FaultDomain) (id : InstanceId) : Prop :=
  ∀ md, s.faults.instances.get? id = some md →
    (id ∈ s.manager.forcedSeparatedInstances ↔ .l2 < md.faultLevel)

/-- What holds of all instances, whether or not their levels are up to date. -/
structure Base (s : FaultDomain) : Prop where
  isolated : ∀ id, s.Isolated id
  followed : ∀ id, s.faults.instances.contains id = s.manager.instances.contains id
  known : ∀ id ∈ s.manager.forcedSeparatedInstances, s.manager.instances.contains id = true
  keyed : ∀ id i, s.manager.instances.get? id = some i → i.id = id
  alone : ∀ name node, s.faults.nodes.get? name = some node → node.hasPreSeparation → s.faults.Lone node

theorem Level.congr {s' : FaultDomain} (h : s.Level id)
    (hmd : s'.faults.instances.get? id = s.faults.instances.get? id)
    (hfaults : ∀ name, s'.faults.faultsAt id name = s.faults.faultsAt id name) : s'.Level id := by
  intro md hget
  rw [FaultManager.levelOf_congr hfaults]
  exact h md (hmd ▸ hget)

/-! ## Re-evaluation -/

theorem reevaluate_ids (s : FaultDomain) (node : NodeMetadata) :
    (s.reevaluate node).instanceIds = node.instanceIds := rfl

theorem hasPreSeparation_reevaluate {node : NodeMetadata}
    (h : (s.reevaluate node).hasPreSeparation) : node.hasPreSeparation := by
  obtain ⟨f, hf, horigin⟩ := h
  obtain ⟨code, hget⟩ := Dict.mem_values_iff.mp hf
  simp only [reevaluate, Dict.get?_mapVal, Option.map_eq_some_iff] at hget
  obtain ⟨f₀, hf₀, rfl⟩ := hget
  refine ⟨f₀, Dict.mem_values_iff.mpr ⟨code, hf₀⟩, ?_⟩
  split at horigin
  · assumption
  · exact horigin

theorem reevaluate_faults {node : NodeMetadata} (h : ¬ node.hasPreSeparation) :
    (s.reevaluate node).faults = node.faults := by
  have hsame : (s.reevaluate node).hardwareFaultInfos.values = node.hardwareFaultInfos.values := by
    simp only [reevaluate, Dict.values, Dict.mapVal, List.map_map]
    apply List.map_congr_left
    intro p hp
    have hne : p.2.originFaultLevel ≠ some .preSeparateNpu :=
      fun horigin => h ⟨p.2, List.mem_map_of_mem hp, horigin⟩
    exact if_neg hne
  rw [NodeMetadata.faults, NodeMetadata.faults, hsame]
  rfl

theorem get?_reevaluateNodes (s : FaultDomain) (id : InstanceId) (name : String) :
    (s.reevaluateNodes id).faults.nodes.get? name =
      (s.faults.nodes.get? name).map fun node =>
        if id ∈ node.instanceIds then s.reevaluate node else node :=
  Dict.get?_mapVal _ _ _

theorem Base.reevaluateNodes (h : s.Base) (id : InstanceId) : (s.reevaluateNodes id).Base where
  isolated := h.isolated
  followed := h.followed
  known := h.known
  keyed := h.keyed
  alone := by
    intro name node hget hpre
    rw [get?_reevaluateNodes, Option.map_eq_some_iff] at hget
    obtain ⟨node₀, hnode₀, rfl⟩ := hget
    split at hpre
    · next hid =>
      rw [if_pos hid]
      exact h.alone name node₀ hnode₀ (hasPreSeparation_reevaluate hpre)
    · next hid =>
      rw [if_neg hid]
      exact h.alone name node₀ hnode₀ hpre

/-- The faults of another instance stay: where the two meet, nothing is re-evaluated. -/
theorem Base.faultsAt_reevaluateNodes (h : s.Base) (hid : s.faults.instances.contains id = true)
    (hj : s.faults.instances.contains j = true) (hne : j ≠ id) (name : String) :
    (s.reevaluateNodes id).faults.faultsAt j name = s.faults.faultsAt j name := by
  unfold FaultManager.faultsAt
  rw [get?_reevaluateNodes]
  cases hnode : s.faults.nodes.get? name with
  | none => rfl
  | some node =>
    simp only [Option.map_some, Option.bind_some]
    split
    · next hidnode =>
      rw [reevaluate_ids]
      split
      · next hjnode =>
        rw [reevaluate_faults]
        intro hpre
        exact hne (h.alone name node hnode hpre j hjnode id hidnode hj hid)
      · rfl
    · rfl

/-! ## Refreshing -/

/-- What a refresh of `id` achieves. -/
structure Refreshed (s : FaultDomain) (id : InstanceId) (s' : FaultDomain) : Prop where
  base : s'.Base
  level : s'.Level id
  others : ∀ j, j ≠ id → s.Level j → s'.Level j
  tracked : ∀ j, s'.faults.instances.contains j = s.faults.instances.contains j

theorem Base.unchanged (h : s.Base) (hlevel : s.Level id) : s.Refreshed id s :=
  ⟨h, hlevel, fun _ _ hj => hj, fun _ => rfl⟩

/-- The instance gets its true level, and is isolated or not as the level demands. -/
theorem Base.retarget (h : s.Base) {md : InstanceMetadata} {m : InstanceManager}
    (hid : s.faults.instances.contains id = true) (hlevel : md.faultLevel = s.faults.levelOf id)
    (hforced : ∀ j, j ∈ m.forcedSeparatedInstances ↔
      if j = id then .l2 < md.faultLevel else j ∈ s.manager.forcedSeparatedInstances)
    (hcontains : ∀ j, m.instances.contains j = s.manager.instances.contains j)
    (hkeyed : ∀ k i, m.instances.get? k = some i → i.id = k) :
    s.Refreshed id ⟨s.faults.setInstance id md, m⟩ := by
  have htracked : ∀ j, (s.faults.setInstance id md).instances.contains j =
      s.faults.instances.contains j := by
    intro j
    rw [Bool.eq_iff_iff, FaultManager.setInstance, Dict.contains_insert]
    constructor
    · rintro (rfl | hj)
      · exact hid
      · exact hj
    · exact Or.inr
  have hget : ∀ j, j ≠ id →
      (s.faults.setInstance id md).instances.get? j = s.faults.instances.get? j :=
    fun j hj => Dict.get?_insert_ne _ _ hj.symm
  -- only `id` has a new record, and only `id` may have been isolated or recovered
  refine ⟨⟨?_, ?_, ?_, hkeyed, ?_⟩, ?_, ?_, htracked⟩
  · intro j md' hmd'
    rw [hforced j]
    by_cases hj : j = id
    · subst hj
      rw [if_pos rfl]
      rw [show (s.faults.setInstance j md).instances.get? j = some md from
        Dict.get?_insert_self _ _ _] at hmd'
      cases hmd'
      exact Iff.rfl
    · rw [if_neg hj]
      exact h.isolated j md' (hget j hj ▸ hmd')
  · intro j
    show (s.faults.setInstance id md).instances.contains j = m.instances.contains j
    rw [htracked, hcontains]
    exact h.followed j
  · intro j hj
    show m.instances.contains j = true
    rw [hcontains]
    rw [hforced j] at hj
    split at hj
    · next heq => rw [← h.followed, heq, hid]
    · exact h.known j hj
  · intro name node hnode hpre i hi j hj hiin hjin
    exact h.alone name node hnode hpre i hi j hj (htracked i ▸ hiin) (htracked j ▸ hjin)
  · intro md' hmd'
    rw [show (s.faults.setInstance id md).instances.get? id = some md from
      Dict.get?_insert_self _ _ _] at hmd'
    cases hmd'
    exact hlevel
  · intro j hj hlevelj
    exact hlevelj.congr (hget j hj) fun _ => rfl

theorem Base.applyTarget (h : s.Base) {md : InstanceMetadata}
    (hmd : s.faults.instances.get? id = some md) : s.Refreshed id (s.applyTarget id md).2 := by
  have hid : s.faults.instances.contains id = true := Dict.contains_iff.mpr ⟨md, hmd⟩
  obtain ⟨i, hi⟩ : ∃ i, s.manager.instances.get? id = some i := by
    rw [← Dict.contains_iff, ← h.followed, hid]
  -- recovering touches the isolation of this instance alone
  have hrecover : ∀ j, j ∈ (s.manager.recoverInstance id).forcedSeparatedInstances ↔
      if j = id then False else j ∈ s.manager.forcedSeparatedInstances := by
    intro j
    rw [InstanceManager.recoverInstance, hi]
    simp only [OrdSet.mem_erase]
    grind
  have hsame := s.manager.recoverInstance_instances id
  have htarget : s.faults.levelOf id = ((s.faults.target id).map (·.faultLevel)).getD .healthy :=
    FaultManager.levelOf_eq_target
  unfold FaultDomain.applyTarget
  cases hfault : s.faults.target id with
  | none =>
    rw [hfault] at htarget
    change s.faults.levelOf id = .healthy at htarget
    simp only
    split
    · next hhealthy =>
      refine h.unchanged fun md' hmd' => ?_
      rw [hmd] at hmd'
      cases hmd'
      rw [hhealthy, htarget]
    · refine h.retarget hid htarget.symm (fun j => ?_) (fun j => by rw [hsame]) (hsame ▸ h.keyed)
      rw [hrecover j]
      have hlow : ¬ FaultLevel.l2 < FaultLevel.healthy := not_lt.mpr (FaultLevel.healthy_le _)
      simp only [hlow]
  | some f =>
    rw [hfault] at htarget
    change s.faults.levelOf id = f.faultLevel at htarget
    simp only
    split
    · next hhigh =>
      refine h.retarget hid htarget.symm (fun j => ?_) (fun j => ?_) ?_
      · rw [InstanceManager.separateInstance, hi]
        simp only
        split <;> simp only [OrdSet.mem_insert] <;> grind
      · rw [InstanceManager.separateInstance, hi, Bool.eq_iff_iff]
        simp only
        split
        · rw [Dict.contains_insert]
          constructor
          · rintro (rfl | hj)
            · exact Dict.contains_iff.mpr ⟨i, hi⟩
            · exact hj
          · exact Or.inr
        · exact Iff.rfl
      · rw [InstanceManager.separateInstance, hi]
        simp only
        split
        · intro k i' hi'
          simp only [Dict.get?_insert] at hi'
          split at hi'
          · next hk =>
            cases hi'
            exact hk ▸ h.keyed id i hi
          · exact h.keyed k i' hi'
        · exact h.keyed
    · next hlow =>
      split
      · refine h.retarget hid htarget.symm (fun j => ?_) (fun j => by rw [hsame]) (hsame ▸ h.keyed)
        rw [hrecover j]
        simp only [hlow]
      · next hfree =>
        refine h.retarget hid htarget.symm (fun j => ?_) (fun _ => rfl) h.keyed
        split
        · next hj =>
          subst hj
          simp only [hlow, iff_false]
          intro hforced
          apply hfree
          rw [InstanceManager.isInstanceSeparated, h.known j hforced, decide_eq_true hforced]
          rfl
        · exact Iff.rfl

theorem Base.refreshOnce (h : s.Base) (id : InstanceId) : s.Refreshed id (s.refreshOnce id).2 := by
  unfold FaultDomain.refreshOnce
  cases hmd : s.faults.instances.get? id with
  | none => exact h.unchanged fun md hget => by rw [hmd] at hget; cases hget
  | some md =>
    have hid : s.faults.instances.contains id = true := Dict.contains_iff.mpr ⟨md, hmd⟩
    have happly := (h.reevaluateNodes id).applyTarget hmd
    refine ⟨happly.base, happly.level, fun j hj hlevel => happly.others j hj ?_, happly.tracked⟩
    intro mdj hmdj
    rw [FaultManager.levelOf_congr
      (h.faultsAt_reevaluateNodes hid (Dict.contains_iff.mpr ⟨mdj, hmdj⟩) hj)]
    exact hlevel mdj hmdj

/-- **A refresh** makes the level of the instance true, and that of no other one false. -/
theorem Base.refresh (h : s.Base) (id : InstanceId) :
    s.Refreshed id (s.refreshInstanceFaultLevel id) := by
  have hfirst := h.refreshOnce id
  unfold refreshInstanceFaultLevel
  generalize s.refreshOnce id = r at hfirst
  obtain ⟨separated, s'⟩ := r
  cases separated with
  | false => exact hfirst
  | true =>
    have hsecond := hfirst.base.refreshOnce id
    exact ⟨hsecond.base, hsecond.level, fun j hj hlevel => hsecond.others j hj (hfirst.others j hj hlevel),
      fun j => (hsecond.tracked j).trans (hfirst.tracked j)⟩

/-- All levels are true. -/
def Levels (s : FaultDomain) : Prop := ∀ id, s.Level id

theorem Base.refreshAll (h : s.Base) (ids : List InstanceId) : (s.refreshAll ids).Base ∧
    ∀ j, (j ∈ ids ∨ s.Level j) → (s.refreshAll ids).Level j := by
  induction ids generalizing s with
  | nil => exact ⟨h, fun j hj => hj.resolve_left List.not_mem_nil⟩
  | cons id ids ih =>
    have hstep := h.refresh id
    obtain ⟨hbase, hlevels⟩ := ih hstep.base
    refine ⟨hbase, fun j hj => hlevels j ?_⟩
    by_cases hjid : j = id
    · exact Or.inr (hjid ▸ hstep.level)
    · rcases hj with hj | hj
      · exact Or.inl (List.mem_of_ne_of_mem hjid hj)
      · exact Or.inr (hstep.others j hjid hj)

end FaultDomain

end PyMotor.Controller
