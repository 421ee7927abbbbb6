import Mathlib.Data.List.Induction
import PyMotor.Controller.FaultManager.Isolation
import PyMotor.Controller.FaultManager.Statuses

/-!
# Faults of one code

The faults listed for a node are grouped by code, and of every group one entry is stored: the first of
those with the highest level. If that entry calls for a separation, its level is then adjusted to the
business of the node. So the choice is made by a level that need not be the one stored, and a severe
entry of the same code can be lost behind it. Which entry leads a group, and what it takes for it to hide
another, is said by the levels that are listed (`Leads`, `Unmasked`); the stored levels are the highest ones
exactly where nothing is hidden (`storedWorst_iff`).
-/

namespace PyMotor.Controller

open Coordinator (InstanceId EndpointId)

/-- The level of an entry, where those that call for a separation have the level `p`. -/
def FaultInfo.effectiveLevel (p : FaultLevel) (f : FaultInfo) : FaultLevel :=
  if f.originFaultLevel = some .preSeparateNpu then p else f.faultLevel

/-- The entries with the code. -/
def entriesOf (infos : List FaultInfo) (code : Int) : List FaultInfo :=
  infos.filter fun f => decide (f.faultCode = code)

/-- The level of such an entry is adjusted to the business of the node. -/
def FaultInfo.PreSeparate (f : FaultInfo) : Prop := f.originFaultLevel = some .preSeparateNpu

theorem FaultInfo.effectiveLevel_pre {f : FaultInfo} (h : f.PreSeparate) (p : FaultLevel) :
    f.effectiveLevel p = p :=
  if_pos h

theorem FaultInfo.effectiveLevel_other {f : FaultInfo} (h : ¬f.PreSeparate) (p : FaultLevel) :
    f.effectiveLevel p = f.faultLevel :=
  if_neg h

/-- The entry is listed with a higher level than all before it, and with no lower one than those after. -/
def Leads (f : FaultInfo) (infos : List FaultInfo) : Prop :=
  ∃ before after, infos = before ++ f :: after ∧ (∀ g ∈ before, g.faultLevel < f.faultLevel) ∧
    ∀ g ∈ after, g.faultLevel ≤ f.faultLevel

/-- That the node is down, if it is among the stored faults. -/
def NodeMetadata.reboot (node : NodeMetadata) : Option FaultInfo :=
  node.hardwareFaultInfos.get? SpecialFaultCode.nodeReboot

theorem entriesOf_snoc (infos : List FaultInfo) (f : FaultInfo) (code : Int) :
    entriesOf (infos ++ [f]) code =
      if f.faultCode = code then entriesOf infos code ++ [f] else entriesOf infos code := by
  by_cases hcode : f.faultCode = code <;> simp [entriesOf, hcode]

namespace FaultDomain

/-! ## What is stored -/

theorem highestFault_snoc (infos : List FaultInfo) (f : FaultInfo) :
    highestFault (infos ++ [f]) = worse (highestFault infos) f := by
  rw [highestFault, List.foldl_append]
  rfl

theorem highestFault_eq_iff {infos : List FaultInfo} {h : FaultInfo} :
    highestFault infos = some h ↔ Leads h infos := by
  induction infos using List.reverseRecOn with
  | nil =>
    refine iff_of_false (by rintro ⟨⟩) ?_
    rintro ⟨before, after, heq, -⟩
    simp at heq
  | append_singleton infos f ih =>
    rw [highestFault_snoc]
    constructor
    · intro hworse
      cases hbest : highestFault infos with
      | none =>
        obtain rfl : f = h := by simpa [hbest, worse] using hworse
        exact ⟨[], [], by simp [highestFault_eq_none.mp hbest], by simp, by simp⟩
      | some b =>
        obtain ⟨-, hall⟩ := highestFault_eq_some hbest
        rw [hbest, worse] at hworse
        split at hworse
        · next hlt =>
          obtain rfl := Option.some.inj hworse
          exact ⟨infos, [], rfl, fun g hg => (hall g hg).trans_lt hlt, by simp⟩
        · next hle =>
          obtain rfl := Option.some.inj hworse
          obtain ⟨before, after, rfl, hbefore, hafter⟩ := ih.mp hbest
          refine ⟨before, after ++ [f], by simp, hbefore, fun g hg => ?_⟩
          rcases List.mem_append.mp hg with hg | hg
          · exact hafter g hg
          · rw [List.mem_singleton.mp hg]
            exact not_lt.mp hle
    · rintro ⟨before, after, heq, hbefore, hafter⟩
      obtain rfl | ⟨after, g, rfl⟩ := after.eq_nil_or_concat
      · -- the last entry leads
        obtain ⟨rfl, hf⟩ := List.append_inj' heq rfl
        obtain rfl := List.singleton_inj.mp hf
        cases hbest : highestFault infos with
        | none => rfl
        | some b => exact if_pos (hbefore b (highestFault_eq_some hbest).1)
      · rw [List.concat_eq_append, ← List.cons_append, ← List.append_assoc] at heq
        obtain ⟨rfl, hf⟩ := List.append_inj' heq rfl
        obtain rfl := List.singleton_inj.mp hf
        rw [List.concat_eq_append] at hafter
        rw [ih.mpr ⟨before, after, rfl, hbefore, fun g hg => hafter g (List.mem_append_left _ hg)⟩]
        exact if_neg (not_lt.mpr (hafter f (by simp)))

theorem get?_groupFaults (infos : List FaultInfo) (code : Int) :
    (groupFaults infos).get? code =
      if entriesOf infos code = [] then none else some (entriesOf infos code) := by
  unfold groupFaults
  induction infos using List.reverseRecOn with
  | nil => rfl
  | append_singleton infos f ih =>
    rw [List.foldl_append, List.foldl_cons, List.foldl_nil, Dict.get?_insert, entriesOf_snoc]
    by_cases hcode : f.faultCode = code
    · have hne : entriesOf infos code ++ [f] ≠ [] := by simp
      rw [if_pos hcode, if_pos hcode, hcode, ih, if_neg hne]
      split
      · next hnil => simp [hnil]
      · rfl
    · rw [if_neg hcode, if_neg hcode, ih]

/-- The first entry of the highest level is stored, with its level adjusted. -/
theorem storedFault_of_highest {infos : List FaultInfo} {h : FaultInfo} (p : FaultLevel)
    (hworst : highestFault infos = some h) :
    ∃ f, storedFault infos p = some f ∧ f.faultLevel = h.effectiveLevel p ∧
      f.originFaultLevel = h.originFaultLevel := by
  rw [storedFault, hworst]
  exact ⟨_, rfl, rfl, rfl⟩

theorem get?_replaceHardwareFaults (node : NodeMetadata) (infos : List FaultInfo) (p : FaultLevel)
    (code : Int) :
    (replaceHardwareFaults node infos p).hardwareFaultInfos.get? code =
      if code = SpecialFaultCode.nodeReboot ∧ node.reboot ≠ none then node.reboot
      else if entriesOf infos code = [] then none else storedFault (entriesOf infos code) p := by
  have hlisted : ((groupFaults infos).filterMap fun _ infos => storedFault infos p).get? code =
      if entriesOf infos code = [] then none else storedFault (entriesOf infos code) p := by
    rw [Dict.get?_filterMap, get?_groupFaults]
    split <;> rfl
  rw [replaceHardwareFaults, ← hlisted, NodeMetadata.reboot]
  simp only
  split
  · next hreboot => simp [hreboot]
  · next reboot hreboot =>
    rw [hreboot, Dict.get?_insert]
    by_cases hcode : SpecialFaultCode.nodeReboot = code
    · rw [if_pos hcode, if_pos ⟨hcode.symm, by simp⟩]
    · rw [if_neg hcode, if_neg fun h => hcode h.1.symm]

variable {s : FaultDomain} {σ : HashOrder InstanceId} {nodeName : String} {infos : List FaultInfo}

/-! ## The business of the node -/

/-- A fault above level two that does not depend on the business of the node: of the software, kept
from before, or as the leading entry of its code. -/
def SevereListed (node : NodeMetadata) (infos : List FaultInfo) : Prop :=
  (∃ f ∈ node.softwareFaultInfos.values, .l2 < f.faultLevel) ∨
  (∃ f, node.reboot = some f ∧ ¬f.PreSeparate ∧ .l2 < f.faultLevel) ∨
  ∃ code f, Leads f (entriesOf infos code) ∧ ¬(code = SpecialFaultCode.nodeReboot ∧ node.reboot ≠ none) ∧
    ¬f.PreSeparate ∧ .l2 < f.faultLevel

/-- Some node of the instance has a severe fault, with the list for `nodeName`. -/
def Strained (s : FaultDomain) (nodeName : String) (infos : List FaultInfo) (id : InstanceId) : Prop :=
  ∃ name node, s.faults.nodes.get? name = some node ∧ id ∈ node.instanceIds ∧
    if name = nodeName then SevereListed node infos else node.Severe

/-- An instance on the node is starting, or is active and not strained by the list. -/
def KeepsBusiness (s : FaultDomain) (nodeName : String) (node : NodeMetadata)
    (infos : List FaultInfo) : Prop :=
  ∃ id ∈ node.instanceIds, s.faults.instances.contains id = true ∧
    ∃ i, s.manager.instances.get? id = some i ∧
      (i.status = .initial ∨ i.status = .active ∧ ¬s.Strained nodeName infos id)

/-- What the entries that call for a separation count as. -/
def CallsFor (s : FaultDomain) (nodeName : String) (node : NodeMetadata) (infos : List FaultInfo)
    (p : FaultLevel) : Prop :=
  s.KeepsBusiness nodeName node infos ∧ p = .l2 ∨ ¬s.KeepsBusiness nodeName node infos ∧ p = .l6

theorem severe_replace (node : NodeMetadata) (infos : List FaultInfo) (p : FaultLevel) :
    (replaceHardwareFaults node infos p).Severe ↔ SevereListed node infos := by
  have hhardware : (∃ f ∈ (replaceHardwareFaults node infos p).hardwareFaultInfos.values,
      f.originFaultLevel ≠ some .preSeparateNpu ∧ .l2 < f.faultLevel) ↔
      (∃ f, node.reboot = some f ∧ ¬f.PreSeparate ∧ .l2 < f.faultLevel) ∨
      ∃ code f, Leads f (entriesOf infos code) ∧
        ¬(code = SpecialFaultCode.nodeReboot ∧ node.reboot ≠ none) ∧ ¬f.PreSeparate ∧
        .l2 < f.faultLevel := by
    simp only [Dict.mem_values_iff, get?_replaceHardwareFaults, ← highestFault_eq_iff]
    constructor
    · rintro ⟨f, ⟨code, hget⟩, horigin, hlevel⟩
      split at hget
      · exact Or.inl ⟨f, hget, horigin, hlevel⟩
      · next hcode =>
        split at hget
        · cases hget
        · obtain ⟨worst, hworst, -⟩ := Option.map_eq_some_iff.mp hget
          obtain ⟨f', hf', hlevel', horigin'⟩ := storedFault_of_highest p hworst
          obtain rfl : f' = f := Option.some.inj (hf'.symm.trans hget)
          rw [horigin'] at horigin
          rw [hlevel', FaultInfo.effectiveLevel, if_neg horigin] at hlevel
          exact Or.inr ⟨code, worst, hworst, hcode, horigin, hlevel⟩
    · rintro (⟨f, hf, horigin, hlevel⟩ | ⟨code, f, hf, hcode, horigin, hlevel⟩)
      · refine ⟨f, ⟨SpecialFaultCode.nodeReboot, ?_⟩, horigin, hlevel⟩
        rw [if_pos ⟨rfl, by simp [hf]⟩, hf]
      · have hne : entriesOf infos code ≠ [] := fun h => by
          rw [h] at hf
          cases hf
        obtain ⟨f', hf', hlevel', horigin'⟩ := storedFault_of_highest p hf
        refine ⟨f', ⟨code, ?_⟩, horigin' ▸ horigin, ?_⟩
        · rw [if_neg hcode, if_neg hne, hf']
        · rw [hlevel', FaultInfo.effectiveLevel_other horigin]
          exact hlevel
  rw [NodeMetadata.Severe, hhardware, SevereListed]
  exact or_comm

/-! ## After the handler -/

/-- The list is stored, and nobody is refreshed yet. -/
def listed (s : FaultDomain) (nodeName : String) (node : NodeMetadata) (infos : List FaultInfo) :
    FaultDomain :=
  { s with
    faults := s.faults.setNode nodeName (replaceHardwareFaults node infos (s.preSeparateLevel node)) }

theorem severe_listed {node : NodeMetadata} (hnode : s.faults.nodes.get? nodeName = some node)
    (id : InstanceId) : (s.listed nodeName node infos).Severe id ↔ s.Strained nodeName infos id := by
  refine exists_congr fun name => ?_
  rw [listed, FaultManager.get?_setNode]
  by_cases hname : nodeName = name
  · subst hname
    simp only [hnode, if_true, Option.some.injEq, exists_eq_left', severe_replace]
    rfl
  · simp [hname, Ne.symm hname]

theorem preSeparateLevel_cases (s : FaultDomain) (node : NodeMetadata) :
    s.preSeparateLevel node = .l2 ∨ s.preSeparateLevel node = .l6 := by
  rw [preSeparateLevel]
  split
  · exact Or.inl rfl
  · exact Or.inr rfl

/-- The handler leaves what it stored, adjusted to the business that is left on the node; and that can
be told from the list. -/
theorem node_handleFaultInfoUpdate (s : FaultDomain) (σ : HashOrder InstanceId) {nodeName : String}
    (infos : List FaultInfo) {node : NodeMetadata} (hnode : s.faults.nodes.get? nodeName = some node) :
    ∃ node', (s.handleFaultInfoUpdate σ nodeName infos).faults.nodes.get? nodeName = some node' ∧
      s.CallsFor nodeName node infos
        ((s.handleFaultInfoUpdate σ nodeName infos).preSeparateLevel node') ∧
      ∀ code, node'.hardwareFaultInfos.get? code =
        ((replaceHardwareFaults node infos (s.preSeparateLevel node)).hardwareFaultInfos.get? code).map
          fun f => if (∃ id ∈ node.instanceIds, s.faults.instances.contains id = true) ∧
              f.originFaultLevel = some .preSeparateNpu then
            { f with faultLevel := (s.handleFaultInfoUpdate σ nodeName infos).preSeparateLevel node' }
          else f := by
  have hhandler : s.handleFaultInfoUpdate σ nodeName infos =
      (s.listed nodeName node infos).refreshAll
        ((σ.iter 0 node.instanceIds.elems).filter fun id => s.faults.instances.contains id) := by
    rw [handleFaultInfoUpdate, hnode]
    rfl
  -- the list is stored first, then the instances on the node are refreshed
  generalize hs₁ : s.listed nodeName node infos = s₁ at hhandler
  generalize hids : (σ.iter 0 node.instanceIds.elems).filter
    (fun id => s.faults.instances.contains id) = ids at hhandler
  rw [hhandler]
  have hmem (id : InstanceId) :
      id ∈ ids ↔ id ∈ node.instanceIds ∧ s.faults.instances.contains id = true := by
    rw [← hids, List.mem_filter]
    exact and_congr_left fun _ => σ.mem_iter
  have hsame (id : InstanceId) :
      s₁.faults.instances.contains id = s.faults.instances.contains id := by
    rw [← hs₁]
    rfl
  have hstored : s₁.faults.nodes.get? nodeName =
      some (replaceHardwareFaults node infos (s.preSeparateLevel node)) := by
    rw [← hs₁]
    exact (FaultManager.get?_setNode ..).trans (if_pos rfl)
  have hserved : ∀ id ∈ ids, id ∈ (replaceHardwareFaults node infos (s.preSeparateLevel node)).instanceIds ∧
      s₁.faults.instances.contains id = true :=
    fun id hid => ⟨((hmem id).mp hid).1, (hsame id).trans ((hmem id).mp hid).2⟩
  have hget := node_refreshAll hstored hserved
  have htracked (id : InstanceId) (hid : id ∈ ids) : s₁.faults.instances.contains id = true :=
    (hsame id).trans ((hmem id).mp hid).2
  refine ⟨_, hget, ?_, fun code => ?_⟩
  · -- the node is served by the same instances as before
    have hbusiness : (s₁.refreshAll ids).preSeparateLevel (if ids = [] then
          replaceHardwareFaults node infos (s.preSeparateLevel node)
        else (s₁.refreshAll ids).reevaluate
          (replaceHardwareFaults node infos (s.preSeparateLevel node))) = .l2 ↔
        s.KeepsBusiness nodeName node infos := by
      have hsameIds : (if ids = [] then replaceHardwareFaults node infos (s.preSeparateLevel node)
          else (s₁.refreshAll ids).reevaluate (replaceHardwareFaults node infos
            (s.preSeparateLevel node))).instanceIds = node.instanceIds := by
        split <;> rfl
      rw [preSeparateLevel_congr hsameIds (fun _ => rfl) (fun _ => rfl), preSeparateLevel_eq]
      refine exists_congr fun id => and_congr_right fun hid => ?_
      rw [(isUp_refreshAll htracked (j := id)).2, hsame]
      refine and_congr_right fun hcontains => (isUp_refreshAll htracked).1.trans ?_
      have hsevere : s₁.Severe id ↔ s.Strained nodeName infos id := by
        rw [← hs₁]
        exact severe_listed hnode id
      have hmanager : s₁.manager = s.manager := by
        rw [← hs₁]
        rfl
      simp only [StaysUp, hsevere, hmanager, (hmem id).mpr ⟨hid, hcontains⟩, true_implies]
    obtain hp | hp := preSeparateLevel_cases (s₁.refreshAll ids) (if ids = [] then
          replaceHardwareFaults node infos (s.preSeparateLevel node)
        else (s₁.refreshAll ids).reevaluate
          (replaceHardwareFaults node infos (s.preSeparateLevel node)))
    · exact Or.inl ⟨hbusiness.mp hp, hp⟩
    · refine Or.inr ⟨fun h => ?_, hp⟩
      rw [hbusiness.mpr h] at hp
      cases hp
  · have hsome : (∃ id ∈ node.instanceIds, s.faults.instances.contains id = true) ↔ ids ≠ [] := by
      constructor
      · rintro ⟨id, hid⟩
        exact List.ne_nil_of_mem ((hmem id).mpr hid)
      · intro hne
        obtain ⟨id, hid⟩ := List.exists_mem_of_ne_nil ids hne
        exact ⟨id, (hmem id).mp hid⟩
    by_cases hnil : ids = []
    · rw [if_pos hnil]
      have hnone : ¬∃ id ∈ node.instanceIds, s.faults.instances.contains id = true :=
        fun h => hsome.mp h hnil
      simp [hnone]
    · simp only [if_neg hnil, hsome.mpr hnil, true_and]
      rw [reevaluate, Dict.get?_mapVal]
      rfl

/-! ## The worst of a code -/

/-- For every code listed, the level stored on the node is the highest of its entries, where those that
call for a separation count as the business of the node demands. -/
def StoredWorst (s : FaultDomain) (nodeName : String) (infos : List FaultInfo) : Prop :=
  ∀ node, s.faults.nodes.get? nodeName = some node → ∀ code, entriesOf infos code ≠ [] →
    (node.hardwareFaultInfos.get? code).map (·.faultLevel) = some
      (FaultLevel.highest ((entriesOf infos code).map (FaultInfo.effectiveLevel (s.preSeparateLevel node))))

/-- Beside entries that call for a separation, and so count as `p`: an entry of another kind leads if one of
those is listed above `p`, and one that calls for a separation leads if all of those are listed below `p`. -/
def Unmasked (p : FaultLevel) (infos : List FaultInfo) : Prop :=
  (∃ f ∈ infos, f.PreSeparate) →
    ((∃ f ∈ infos, ¬f.PreSeparate ∧ p < f.faultLevel) → ∃ f, Leads f infos ∧ ¬f.PreSeparate) ∧
    ((∀ f ∈ infos, ¬f.PreSeparate → f.faultLevel < p) → ∃ f, Leads f infos ∧ f.PreSeparate)

/-- What is kept with the level is at least at the level of all that is listed, and something is listed
with it. -/
def Outweighs (p level : FaultLevel) (infos : List FaultInfo) : Prop :=
  (∀ f ∈ infos, ¬f.PreSeparate → f.faultLevel ≤ level) ∧ ((∃ f ∈ infos, f.PreSeparate) → p ≤ level) ∧
    ((∃ f ∈ infos, ¬f.PreSeparate ∧ f.faultLevel = level) ∨ (∃ f ∈ infos, f.PreSeparate) ∧ p = level)

/-- The level of what is kept from before, if the node is served. -/
def keptLevel (s : FaultDomain) (node : NodeMetadata) (p : FaultLevel) (f : FaultInfo) : FaultLevel :=
  if ∃ id ∈ node.instanceIds.elems, s.faults.instances.contains id = true then f.effectiveLevel p
  else f.faultLevel

/-- No group of entries hides a worse one; and the code that says that the node is down is not listed
while it is, unless as high as what is kept. -/
def NothingMasked (s : FaultDomain) (nodeName : String) (infos : List FaultInfo) : Prop :=
  ∀ node p, s.faults.nodes.get? nodeName = some node → s.CallsFor nodeName node infos p →
    ∀ code, entriesOf infos code ≠ [] →
      match (if code = SpecialFaultCode.nodeReboot then node.reboot else none) with
      | none => Unmasked p (entriesOf infos code)
      | some kept => Outweighs p (s.keptLevel node p kept) (entriesOf infos code)

theorem highest_eq_iff {p level : FaultLevel} {infos : List FaultInfo} (hne : infos ≠ []) :
    level = FaultLevel.highest (infos.map (FaultInfo.effectiveLevel p)) ↔
      (∀ f ∈ infos, f.effectiveLevel p ≤ level) ∧ ∃ f ∈ infos, f.effectiveLevel p = level := by
  rw [eq_comm, FaultLevel.highest_eq_iff (by simpa using hne)]
  simp [List.mem_map]

/-- The leading entry counts for the most exactly if it does not hide another. -/
theorem unmasked_iff {p : FaultLevel} {infos : List FaultInfo} {h : FaultInfo} (hleads : Leads h infos) :
    Unmasked p infos ↔
      h.effectiveLevel p = FaultLevel.highest (infos.map (FaultInfo.effectiveLevel p)) := by
  obtain ⟨hmem, hall⟩ := highestFault_eq_some (highestFault_eq_iff.mpr hleads)
  have honly (f : FaultInfo) (hf : Leads f infos) : f = h :=
    Option.some.inj ((highestFault_eq_iff.mpr hf).symm.trans (highestFault_eq_iff.mpr hleads))
  rw [highest_eq_iff (List.ne_nil_of_mem hmem), and_iff_left ⟨h, hmem, rfl⟩]
  by_cases hpre : h.PreSeparate
  · rw [FaultInfo.effectiveLevel_pre hpre]
    constructor
    · intro hunmasked f hf
      by_cases hfpre : f.PreSeparate
      · exact (FaultInfo.effectiveLevel_pre hfpre p).le
      · rw [FaultInfo.effectiveLevel_other hfpre]
        by_contra hlt
        obtain ⟨g, hg, hgother⟩ := (hunmasked ⟨h, hmem, hpre⟩).1 ⟨f, hf, hfpre, not_le.mp hlt⟩
        exact hgother (honly g hg ▸ hpre)
    · refine fun hle _ => ⟨?_, fun _ => ⟨h, hleads, hpre⟩⟩
      rintro ⟨f, hf, hfother, hlt⟩
      have hfle := hle f hf
      rw [FaultInfo.effectiveLevel_other hfother] at hfle
      exact absurd hlt hfle.not_gt
  · rw [FaultInfo.effectiveLevel_other hpre]
    constructor
    · intro hunmasked f hf
      by_cases hfpre : f.PreSeparate
      · rw [FaultInfo.effectiveLevel_pre hfpre]
        by_contra hlt
        obtain ⟨g, hg, hgpre⟩ := (hunmasked ⟨f, hf, hfpre⟩).2 fun f' hf' _ =>
          (hall f' hf').trans_lt (not_le.mp hlt)
        exact hpre (honly g hg ▸ hgpre)
      · rw [FaultInfo.effectiveLevel_other hfpre]
        exact hall f hf
    · rintro hle ⟨f, hf, hfpre⟩
      refine ⟨fun _ => ⟨h, hleads, hpre⟩, fun hbelow => ?_⟩
      have hfle := hle f hf
      rw [FaultInfo.effectiveLevel_pre hfpre] at hfle
      exact absurd (hbelow h hmem hpre) hfle.not_gt

theorem outweighs_iff {p level : FaultLevel} {infos : List FaultInfo} (hne : infos ≠ []) :
    Outweighs p level infos ↔ level = FaultLevel.highest (infos.map (FaultInfo.effectiveLevel p)) := by
  rw [highest_eq_iff hne, Outweighs, ← and_assoc]
  refine and_congr ⟨fun ⟨hother, hpre⟩ f hf => ?_, fun hall => ⟨fun f hf hfother => ?_, ?_⟩⟩ ?_
  · by_cases hfpre : f.PreSeparate
    · rw [FaultInfo.effectiveLevel_pre hfpre]
      exact hpre ⟨f, hf, hfpre⟩
    · rw [FaultInfo.effectiveLevel_other hfpre]
      exact hother f hf hfpre
  · rw [← FaultInfo.effectiveLevel_other hfother p]
    exact hall f hf
  · rintro ⟨f, hf, hfpre⟩
    rw [← FaultInfo.effectiveLevel_pre hfpre p]
    exact hall f hf
  · constructor
    · rintro (⟨f, hf, hfother, hlevel⟩ | ⟨⟨f, hf, hfpre⟩, hlevel⟩)
      · exact ⟨f, hf, (FaultInfo.effectiveLevel_other hfother p).trans hlevel⟩
      · exact ⟨f, hf, (FaultInfo.effectiveLevel_pre hfpre p).trans hlevel⟩
    · rintro ⟨f, hf, hlevel⟩
      by_cases hfpre : f.PreSeparate
      · exact Or.inr ⟨⟨f, hf, hfpre⟩, (FaultInfo.effectiveLevel_pre hfpre p).symm.trans hlevel⟩
      · exact Or.inl ⟨f, hf, hfpre, (FaultInfo.effectiveLevel_other hfpre p).symm.trans hlevel⟩

theorem callsFor_unique {node : NodeMetadata} {p q : FaultLevel} (hp : s.CallsFor nodeName node infos p)
    (hq : s.CallsFor nodeName node infos q) : p = q := by
  obtain ⟨h, rfl⟩ | ⟨h, rfl⟩ := hp
  · obtain ⟨-, rfl⟩ | ⟨h', -⟩ := hq
    · rfl
    · exact absurd h h'
  · obtain ⟨h', -⟩ | ⟨-, rfl⟩ := hq
    · exact absurd h' h
    · rfl

theorem CallsFor.of_deserted {node : NodeMetadata} {p : FaultLevel}
    (h : s.CallsFor nodeName node infos p)
    (hnobody : ¬∃ id ∈ node.instanceIds, s.faults.instances.contains id = true) : p = .l6 := by
  obtain ⟨⟨id, hid, hcontains, -⟩, -⟩ | ⟨-, hp⟩ := h
  · exact absurd ⟨id, hid, hcontains⟩ hnobody
  · exact hp

theorem preSeparateLevel_of_deserted {node : NodeMetadata}
    (hnobody : ¬∃ id ∈ node.instanceIds, s.faults.instances.contains id = true) :
    s.preSeparateLevel node = .l6 := by
  refine (s.preSeparateLevel_cases node).resolve_left fun h => ?_
  obtain ⟨id, hid, hcontains, -⟩ := preSeparateLevel_eq node |>.mp h
  exact hnobody ⟨id, hid, hcontains⟩

/-- **The stored levels** are the highest ones exactly if no group hides a worse entry. -/
theorem storedWorst_iff (s : FaultDomain) (σ : HashOrder InstanceId) (nodeName : String)
    (infos : List FaultInfo) :
    (s.handleFaultInfoUpdate σ nodeName infos).StoredWorst nodeName infos ↔
      s.NothingMasked nodeName infos := by
  cases hnode : s.faults.nodes.get? nodeName with
  | none =>
    have hsame : s.handleFaultInfoUpdate σ nodeName infos = s := by
      rw [handleFaultInfoUpdate, hnode]
    rw [hsame]
    refine iff_of_true (fun node hget => ?_) fun node p hget => ?_
    · rw [hnode] at hget
      cases hget
    · rw [hnode] at hget
      cases hget
  | some node =>
    obtain ⟨node', hnode', hcalls, hstored⟩ := s.node_handleFaultInfoUpdate σ infos hnode
    generalize s.handleFaultInfoUpdate σ nodeName infos = s' at hnode' hcalls hstored
    -- code by code: the reboot may outlive the list, all else is the entry that is picked
    have hlevel (code : Int) (hne : entriesOf infos code ≠ []) :
        ((node'.hardwareFaultInfos.get? code).map (·.faultLevel) = some (FaultLevel.highest
          ((entriesOf infos code).map (FaultInfo.effectiveLevel (s'.preSeparateLevel node'))))) ↔
        match (if code = SpecialFaultCode.nodeReboot then node.reboot else none) with
        | none => Unmasked (s'.preSeparateLevel node') (entriesOf infos code)
        | some kept => Outweighs (s'.preSeparateLevel node')
            (s.keptLevel node (s'.preSeparateLevel node') kept) (entriesOf infos code) := by
      have hserved : (∃ id ∈ node.instanceIds, s.faults.instances.contains id = true) ↔
          ∃ id ∈ node.instanceIds.elems, s.faults.instances.contains id = true := Iff.rfl
      rw [hstored, get?_replaceHardwareFaults]
      cases hkept : (if code = SpecialFaultCode.nodeReboot then node.reboot else none) with
      | some kept =>
        obtain ⟨hcode, hreboot⟩ : code = SpecialFaultCode.nodeReboot ∧ node.reboot = some kept := by
          split at hkept
          · next hcode => exact ⟨hcode, hkept⟩
          · cases hkept
        rw [if_pos ⟨hcode, by simp [hreboot]⟩, hreboot]
        simp only [outweighs_iff hne, Option.map_some, Option.some.injEq, keptLevel,
          FaultInfo.effectiveLevel, hserved]
        by_cases hids : ∃ id ∈ node.instanceIds.elems, s.faults.instances.contains id = true
        · by_cases horigin : kept.originFaultLevel = some .preSeparateNpu
          · simp only [hids, horigin, true_and, if_true]
          · simp only [hids, horigin, and_false, if_true, if_false]
        · simp only [hids, false_and, if_false]
      | none =>
        have hfree : ¬(code = SpecialFaultCode.nodeReboot ∧ node.reboot ≠ none) := by
          rintro ⟨hcode, hreboot⟩
          rw [if_pos hcode] at hkept
          exact hreboot hkept
        obtain ⟨worst, hworst⟩ : ∃ h, highestFault (entriesOf infos code) = some h :=
          Option.ne_none_iff_exists'.mp fun h => hne (highestFault_eq_none.mp h)
        obtain ⟨f, hf, hlevel, horigin⟩ := storedFault_of_highest (s.preSeparateLevel node) hworst
        rw [if_neg hfree, if_neg hne, hf, unmasked_iff (highestFault_eq_iff.mp hworst)]
        simp only [Option.map_some, Option.some.injEq]
        have hadjusted : (if (∃ id ∈ node.instanceIds, s.faults.instances.contains id = true) ∧
              f.originFaultLevel = some .preSeparateNpu then
            { f with faultLevel := s'.preSeparateLevel node' } else f).faultLevel =
            worst.effectiveLevel (s'.preSeparateLevel node') := by
          rw [horigin]
          by_cases hpre : worst.originFaultLevel = some .preSeparateNpu
          · rw [FaultInfo.effectiveLevel, if_pos hpre]
            split
            · rfl
            -- on a deserted node nothing is adjusted, and both levels are the same
            · next hidle =>
              have hnobody : ¬∃ id ∈ node.instanceIds, s.faults.instances.contains id = true :=
                fun h => hidle ⟨h, hpre⟩
              rw [hlevel, FaultInfo.effectiveLevel, if_pos hpre, hcalls.of_deserted hnobody,
                preSeparateLevel_of_deserted hnobody]
          · rw [FaultInfo.effectiveLevel, if_neg hpre, if_neg fun h => hpre h.2, hlevel,
              FaultInfo.effectiveLevel, if_neg hpre]
        rw [hadjusted]
    constructor
    · intro hworst node₀ p hnode₀ hp code hne
      obtain rfl : node = node₀ := Option.some.inj (hnode.symm.trans hnode₀)
      rw [callsFor_unique hp hcalls]
      exact (hlevel code hne).mp (hworst node' hnode' code hne)
    · intro hmasked node₀ hnode₀ code hne
      obtain rfl : node' = node₀ := Option.some.inj (hnode'.symm.trans hnode₀)
      exact (hlevel code hne).mpr (hmasked node _ hnode hcalls code hne)

/-! ## A severe entry behind a mild one -/

def chipEntry (level : FaultLevel) (origin : OriginFaultLevel) (npuName : String) : FaultInfo where
  faultCategory := .hardware
  faultLevel := level
  faultCode := 0x80C98000
  faultType := some .cardUnhealthy
  npuName := npuName
  originFaultLevel := some origin

/-- Two chips with the same fault code, one of them to be separated. -/
def twoChips : List FaultInfo :=
  [chipEntry .l6 .preSeparateNpu "Ascend910-0", chipEntry .l5 .restartNpu "Ascend910-1"]

/-- A node with an instance that is starting. -/
def servedNode : FaultDomain :=
  new.notify .insertion (fun _ => some "node-1")
    (new.manager.addInstance (instanceOf 1 "job-a" "10.0.0.1"))

/-- The entry of the chip to be separated is chosen for its level six, which becomes a two. -/
theorem twoChips_masked :
    ¬(servedNode.handleFaultInfoUpdate .insertion "node-1" twoChips).StoredWorst "node-1" twoChips := by
  intro h
  have hlevels : ((servedNode.handleFaultInfoUpdate .insertion "node-1" twoChips).faults.nodes.get?
      "node-1").map (fun node => ((node.hardwareFaultInfos.get? 0x80C98000).map (·.faultLevel),
        FaultLevel.highest ((entriesOf twoChips 0x80C98000).map (FaultInfo.effectiveLevel
          ((servedNode.handleFaultInfoUpdate .insertion "node-1" twoChips).preSeparateLevel node))))) =
      some (some .l2, .l5) := by decide
  obtain ⟨node, hnode, hboth⟩ := Option.map_eq_some_iff.mp hlevels
  have hworst := h node hnode 0x80C98000 (by decide)
  obtain ⟨hstored, hhighest⟩ := Prod.mk.inj hboth
  rw [hstored, hhighest] at hworst
  cases hworst

end FaultDomain

end PyMotor.Controller
