import PyMotor.Controller.FaultManager.Levels

/-!
# A new instance and the other ones

When an instance joins its nodes, some of them are taken over from a removed instance, which may get a
node in exchange, and to the others it is added. Nothing of this concerns the instances that are
followed: they keep their nodes, and their nodes keep the faults.
-/

namespace PyMotor.Controller

open Coordinator (InstanceId EndpointId)

namespace NodeMetadata

/-- The hardware raises nobody's level, now or later. -/
def QuietHardware (node : NodeMetadata) : Prop :=
  ∀ f ∈ node.hardwareFaultInfos.values,
    f.faultLevel = .healthy ∧ f.originFaultLevel ≠ some .preSeparateNpu

def QuietSoftware (node : NodeMetadata) : Prop :=
  ∀ f ∈ node.softwareFaultInfos.values, f.faultLevel = .healthy

theorem quietHardware_empty {node : NodeMetadata} (h : node.hardwareFaultInfos = ∅) :
    node.QuietHardware := by
  intro f hf
  rw [h] at hf
  cases hf

theorem quietSoftware_empty {node : NodeMetadata} (h : node.softwareFaultInfos = ∅) :
    node.QuietSoftware := by
  intro f hf
  rw [h] at hf
  cases hf

instance (node : NodeMetadata) : Decidable node.QuietHardware :=
  inferInstanceAs (Decidable (∀ f ∈ node.hardwareFaultInfos.values, _))

instance (node : NodeMetadata) : Decidable node.QuietSoftware :=
  inferInstanceAs (Decidable (∀ f ∈ node.softwareFaultInfos.values, _))

end NodeMetadata

namespace FaultManager

variable {fm fm' fm'' : FaultManager} {id : InstanceId} {name : String} {node node' : NodeMetadata}

/-- On every node of the instance all is quiet. -/
def Calm (fm : FaultManager) (id : InstanceId) : Prop :=
  ∀ name node, fm.nodes.get? name = some node → id ∈ node.instanceIds →
    node.QuietHardware ∧ node.QuietSoftware

def Alone (fm : FaultManager) : Prop :=
  ∀ name node, fm.nodes.get? name = some node → node.hasPreSeparation → fm.Lone node

/-- The nodes have changed, for the instance `id` and for those that are not followed. -/
structure Joined (fm : FaultManager) (id : InstanceId) (fm' : FaultManager) : Prop where
  instances : fm'.instances = fm.instances
  others : ∀ j, j ≠ id → fm.instances.contains j = true →
    ∀ name, fm'.faultsAt j name = fm.faultsAt j name
  calm : fm'.Calm id
  alone : fm'.Alone

theorem Joined.refl (hcalm : fm.Calm id) (halone : fm.Alone) : fm.Joined id fm :=
  ⟨rfl, fun _ _ _ _ => rfl, hcalm, halone⟩

theorem Joined.trans (h : fm.Joined id fm') (h' : fm'.Joined id fm'') : fm.Joined id fm'' where
  instances := h'.instances.trans h.instances
  others := fun j hne hj name => (h'.others j hne (h.instances ▸ hj) name).trans (h.others j hne hj name)
  calm := h'.calm
  alone := h'.alone

theorem get?_setNode (fm : FaultManager) (name : String) (node : NodeMetadata) (k : String) :
    (fm.setNode name node).nodes.get? k = if name = k then some node else fm.nodes.get? k :=
  Dict.get?_insert _ _ _ _

/-- One node changes. What another instance sees there stays; if the instance `id` is there, it is
quiet; and nobody else is there who was not before. -/
theorem joined_setNode (hcalm : fm.Calm id) (halone : fm.Alone)
    (hothers : ∀ j, j ≠ id → fm.instances.contains j = true →
      (if j ∈ node'.instanceIds then some node'.faults else none) = fm.faultsAt j name)
    (hquiet : id ∈ node'.instanceIds → node'.QuietHardware ∧ node'.QuietSoftware)
    (hlone : node'.hasPreSeparation → fm.Lone node') : fm.Joined id (fm.setNode name node') where
  instances := rfl
  others := by
    intro j hne hj k
    rw [faultsAt, get?_setNode]
    split
    · next hk => exact hk ▸ hothers j hne hj
    · rfl
  calm := by
    intro k node hnode hid
    rw [get?_setNode] at hnode
    split at hnode
    · cases hnode
      exact hquiet hid
    · exact hcalm k node hnode hid
  alone := by
    intro k node hnode hpre
    rw [get?_setNode] at hnode
    split at hnode
    · cases hnode
      exact hlone hpre
    · exact halone k node hnode hpre

theorem isDeserted_iff : fm.isDeserted node = true ↔
    ∀ j ∈ node.instanceIds, fm.instances.contains j = false := by
  simp [isDeserted, List.all_eq_true, OrdSet.mem_def]

theorem faultsAt_deserted (hnode : fm.nodes.get? name = some node) (hdeserted : fm.isDeserted node = true)
    {j : InstanceId} (hj : fm.instances.contains j = true) : fm.faultsAt j name = none := by
  have hnot : j ∉ node.instanceIds := by
    intro hmem
    have hfalse := isDeserted_iff.mp hdeserted j hmem
    rw [hj] at hfalse
    cases hfalse
  simp [faultsAt, hnode, hnot]

theorem lone_of_quiet (h : node.QuietHardware) : node.hasPreSeparation → fm.Lone node :=
  fun ⟨f, hf, horigin⟩ => absurd horigin (h f hf).2

theorem joined_handOver (hcalm : fm.Calm id) (halone : fm.Alone)
    (hnode : fm.nodes.get? name = some node) (hdeserted : fm.isDeserted node = true) {owner : InstanceId}
    (hids : node'.instanceIds = (∅ : OrdSet InstanceId).insert owner)
    (howner : owner = id ∧ node'.QuietHardware ∧ node'.QuietSoftware ∨
      owner ≠ id ∧ fm.instances.contains owner = false) :
    fm.Joined id (fm.setNode name node') := by
  have hmem : ∀ j, j ∈ node'.instanceIds ↔ j = owner := by
    intro j
    rw [hids]
    simp
  apply joined_setNode hcalm halone
  · intro j hne hj
    have hnot : j ∉ node'.instanceIds := by
      rw [hmem]
      rintro rfl
      rcases howner with ⟨rfl, -⟩ | ⟨-, hfalse⟩
      · exact hne rfl
      · rw [hj] at hfalse
        cases hfalse
    rw [if_neg hnot, faultsAt_deserted hnode hdeserted hj]
  · intro hid
    rcases howner with ⟨-, hquiet⟩ | ⟨hne, -⟩
    · exact hquiet
    · exact absurd ((hmem id).mp hid).symm hne
  · intro _ i hi j hj _ _
    rw [(hmem i).mp hi, (hmem j).mp hj]

/-- The lists of a swap: distinct nodes that are deserted, the foreign ones without hardware faults. -/
structure Swappable (fm : FaultManager) (foreigns orphans : List String) : Prop where
  nodup : (foreigns ++ orphans).Nodup
  deserted : ∀ name ∈ foreigns ++ orphans, ∀ node, fm.nodes.get? name = some node →
    fm.isDeserted node = true
  quiet : ∀ name ∈ foreigns, ∀ node, fm.nodes.get? name = some node → node.QuietHardware

theorem Swappable.setNode {foreigns orphans foreigns' orphans' : List String}
    (h : fm.Swappable foreigns orphans) (hforeigns : foreigns'.Sublist foreigns)
    (horphans : orphans'.Sublist orphans) (hname : name ∉ foreigns' ++ orphans') :
    (fm.setNode name node').Swappable foreigns' orphans' where
  nodup := h.nodup.sublist (hforeigns.append horphans)
  deserted := by
    intro k hk node hnode
    rw [get?_setNode, if_neg (fun heq : name = k => hname (heq ▸ hk))] at hnode
    exact h.deserted k ((hforeigns.append horphans).subset hk) node hnode
  quiet := by
    intro k hk node hnode
    rw [get?_setNode, if_neg (fun heq : name = k => hname (heq ▸ List.mem_append_left _ hk))] at hnode
    exact h.quiet k (hforeigns.subset hk) node hnode

theorem joined_swapNodeOwnership (σ : HashOrder InstanceId) (jobName : String)
    (hid : fm.instances.contains id = true) {foreigns orphans : List String}
    (hcalm : fm.Calm id) (halone : fm.Alone) (h : fm.Swappable foreigns orphans) :
    fm.Joined id (fm.swapNodeOwnership σ id jobName foreigns orphans).2 := by
  induction foreigns generalizing fm orphans with
  | nil => exact Joined.refl hcalm halone
  | cons foreign foreigns ih =>
    unfold swapNodeOwnership
    cases hnode : fm.nodes.get? foreign with
    | none => exact Joined.refl hcalm halone
    | some node =>
      have hdeserted := h.deserted foreign List.mem_cons_self node hnode
      -- the foreign node is the new instance's from now on
      have htaken : fm.Joined id (fm.takeOver foreign node id jobName) :=
        joined_handOver hcalm halone hnode hdeserted rfl
          (Or.inl ⟨rfl, h.quiet foreign List.mem_cons_self node hnode, NodeMetadata.quietSoftware_empty rfl⟩)
      have hnodup : foreign ∉ foreigns ++ orphans ∧ (foreigns ++ orphans).Nodup :=
        List.nodup_cons.mp h.nodup
      simp only
      cases hold : (σ.iter 0 node.instanceIds.elems).head? with
      | none => exact Joined.refl hcalm halone
      | some oldInst =>
        have hmem : oldInst ∈ node.instanceIds :=
          (σ.mem_iter).mp (List.mem_of_mem_head? hold)
        have hleft := isDeserted_iff.mp hdeserted oldInst hmem
        have hother : oldInst ≠ id := by
          rintro rfl
          rw [hid] at hleft
          cases hleft
        cases orphans with
        | nil =>
          refine htaken.trans (ih (htaken.instances.symm ▸ hid) htaken.calm htaken.alone ?_)
          exact h.setNode (List.sublist_cons_self _ _) (List.Sublist.refl _) hnodup.1
        | cons orphan orphans =>
          have horphan : orphan ∉ foreigns ++ orphans :=
            (List.nodup_cons.mp (List.nodup_middle.mp hnodup.2)).1
          have hswap : (fm.takeOver foreign node id jobName).Swappable foreigns (orphan :: orphans) :=
            h.setNode (List.sublist_cons_self _ _) (List.Sublist.refl _) hnodup.1
          simp only
          cases hwaiting : (fm.takeOver foreign node id jobName).nodes.get? orphan with
          | none => exact htaken
          | some waiting =>
            simp only
            cases waiting.instancePodIps.values.head? with
            | none => exact htaken
            | some podIp =>
              -- the node in exchange goes to an instance that nobody follows
              let given : NodeMetadata := { waiting with
                instanceIds := (∅ : OrdSet InstanceId).insert oldInst
                instanceJobNames := (∅ : Dict InstanceId String).insert oldInst
                  ((node.instanceJobNames.get? oldInst).getD "")
                instancePodIps := (∅ : Dict InstanceId String).insert oldInst podIp
                softwareFaultInfos := ∅ }
              have hids : given.instanceIds = (∅ : OrdSet InstanceId).insert oldInst := rfl
              have hgiven := joined_handOver htaken.calm htaken.alone hwaiting
                (hswap.deserted orphan (by simp) waiting hwaiting) hids
                (Or.inr ⟨hother, hleft⟩)
              have hboth := htaken.trans hgiven
              refine hboth.trans (ih (hboth.instances.symm ▸ hid) hboth.calm hboth.alone ?_)
              exact hswap.setNode (List.Sublist.refl _) (List.sublist_cons_self _ _) horphan

/-- All is quiet on the nodes, but for the software of those that are taken over later. -/
def QuietBut (fm : FaultManager) (names foreigns : List String) : Prop :=
  ∀ name ∈ names, ∀ node, fm.nodes.get? name = some node →
    node.QuietHardware ∧ (name ∈ foreigns ∨ node.QuietSoftware)

theorem QuietBut.setNode {names foreigns : List String} (h : fm.QuietBut names foreigns)
    (hnode : name ∈ names → node'.QuietHardware ∧ node'.QuietSoftware) :
    (fm.setNode name node').QuietBut names (foreigns.filter (· ≠ name)) := by
  intro k hk node hget
  rw [get?_setNode] at hget
  split at hget
  · next heq =>
    cases hget
    obtain ⟨hhw, hsw⟩ := hnode (heq ▸ hk)
    exact ⟨hhw, Or.inr hsw⟩
  · next hne =>
    obtain ⟨hhw, hrest⟩ := h k hk node hget
    refine ⟨hhw, hrest.imp_left fun hk => List.mem_filter.mpr ⟨hk, ?_⟩⟩
    simp [Ne.symm hne]

theorem QuietBut.mono {names foreigns foreigns' : List String} (h : fm.QuietBut names foreigns)
    (hsub : foreigns ⊆ foreigns') : fm.QuietBut names foreigns' := by
  intro k hk node hget
  obtain ⟨hhw, hrest⟩ := h k hk node hget
  exact ⟨hhw, hrest.imp_left fun hk => hsub hk⟩

/-- Once all foreign nodes are taken over, their software is quiet, too. -/
theorem quietBut_swapNodeOwnership (σ : HashOrder InstanceId) (jobName : String) {names : List String}
    {foreigns orphans : List String} (horphans : ∀ name ∈ orphans, name ∉ names)
    (h : fm.QuietBut names foreigns)
    (hok : (fm.swapNodeOwnership σ id jobName foreigns orphans).1 = true) :
    (fm.swapNodeOwnership σ id jobName foreigns orphans).2.QuietBut names [] := by
  induction foreigns generalizing fm orphans with
  | nil => exact h
  | cons foreign foreigns ih =>
    unfold swapNodeOwnership at hok ⊢
    cases hnode : fm.nodes.get? foreign with
    | none =>
      rw [hnode] at hok
      cases hok
    | some node =>
      rw [hnode] at hok
      simp only at hok ⊢
      -- the node that is taken over loses its software faults
      have htaken : (fm.takeOver foreign node id jobName).QuietBut names foreigns := by
        have hstep : (fm.takeOver foreign node id jobName).QuietBut names
            ((foreign :: foreigns).filter (· ≠ foreign)) :=
          h.setNode fun hmem =>
            ⟨(h foreign hmem node hnode).1, NodeMetadata.quietSoftware_empty rfl⟩
        refine hstep.mono fun k hk => ?_
        obtain ⟨hk, hne⟩ := List.mem_filter.mp hk
        exact List.mem_of_ne_of_mem (of_decide_eq_true hne) hk
      cases hold : (σ.iter 0 node.instanceIds.elems).head? with
      | none =>
        rw [hold] at hok
        cases hok
      | some oldInst =>
        rw [hold] at hok
        cases orphans with
        | nil => exact ih horphans htaken hok
        | cons orphan orphans =>
          simp only at hok ⊢
          cases hwaiting : (fm.takeOver foreign node id jobName).nodes.get? orphan with
          | none =>
            rw [hwaiting] at hok
            cases hok
          | some waiting =>
            rw [hwaiting] at hok
            simp only at hok ⊢
            cases hpod : waiting.instancePodIps.values.head? with
            | none =>
              rw [hpod] at hok
              cases hok
            | some podIp =>
              rw [hpod] at hok
              refine ih (fun k hk => horphans k (List.mem_cons_of_mem _ hk)) ?_ hok
              refine (htaken.setNode fun hmem => ?_).mono List.filter_sublist.subset
              exact absurd hmem (horphans orphan List.mem_cons_self)

theorem joined_ensureNodeMetadata (podIp jobName : String) (hcalm : fm.Calm id) (halone : fm.Alone)
    {names : List String} (hquiet : fm.QuietBut names []) (hname : name ∈ names) :
    fm.Joined id (fm.ensureNodeMetadata name podIp id jobName) ∧
      (fm.ensureNodeMetadata name podIp id jobName).QuietBut names [] := by
  unfold ensureNodeMetadata
  cases hnode : fm.nodes.get? name with
  | some node =>
    obtain ⟨hhw, hrest⟩ := hquiet name hname node hnode
    have hsw : node.QuietSoftware := hrest.resolve_left List.not_mem_nil
    refine ⟨joined_setNode hcalm halone ?_ (fun _ => ⟨hhw, hsw⟩) (lone_of_quiet hhw),
      hquiet.setNode fun _ => ⟨hhw, hsw⟩⟩
    intro j hne _
    have hmem : j ∈ node.instanceIds.insert id ↔ j ∈ node.instanceIds := by simp [hne]
    simp only [faultsAt, hnode, Option.bind_some, hmem]
    rfl
  | none =>
    refine ⟨joined_setNode hcalm halone ?_ (fun _ => ?_) ?_, hquiet.setNode fun _ => ?_⟩
    · intro j hne _
      simp [faultsAt, hnode, hne]
    · exact ⟨NodeMetadata.quietHardware_empty rfl, NodeMetadata.quietSoftware_empty rfl⟩
    · exact lone_of_quiet (NodeMetadata.quietHardware_empty rfl)
    · exact ⟨NodeMetadata.quietHardware_empty rfl, NodeMetadata.quietSoftware_empty rfl⟩

theorem joined_ensureNodes (jobName : String) {names : List String} (pods : List (String × String))
    (hnames : ∀ pod ∈ pods, pod.2 ∈ names) (hcalm : fm.Calm id) (halone : fm.Alone)
    (hquiet : fm.QuietBut names []) : fm.Joined id
      (pods.foldl (fun fm pod => fm.ensureNodeMetadata pod.2 pod.1 id jobName) fm) := by
  induction pods generalizing fm with
  | nil => exact Joined.refl hcalm halone
  | cons pod pods ih =>
    obtain ⟨hjoined, hquiet⟩ :=
      joined_ensureNodeMetadata pod.1 jobName hcalm halone hquiet (hnames pod List.mem_cons_self)
    exact hjoined.trans
      (ih (fun p hp => hnames p (List.mem_cons_of_mem _ hp)) hjoined.calm hjoined.alone hquiet)

theorem mem_foreignNodes {names : List String} {jobName : String}
    (h : name ∈ fm.foreignNodes names jobName) : name ∈ names ∧
      ∀ node, fm.nodes.get? name = some node → fm.isDeserted node = true := by
  obtain ⟨hkey, hforeign⟩ := List.mem_filter.mp h
  refine ⟨?_, fun node hnode => ?_⟩
  · have hcontains := Dict.contains_iff.mpr (Dict.mem_keys_iff.mp hkey)
    rw [Dict.contains_foldl_insert] at hcontains
    rcases hcontains with hempty | hmem
    · cases hempty
    · simpa using hmem
  · rw [hnode, Option.any_some, Bool.and_eq_true] at hforeign
    exact hforeign.1

theorem mem_orphanedNodes {names : List String} {jobName : String}
    (h : name ∈ fm.orphanedNodes names jobName) : name ∉ names ∧
      ∀ node, fm.nodes.get? name = some node → fm.isDeserted node = true := by
  obtain ⟨⟨k, node⟩, hmem, rfl⟩ := List.mem_map.mp h
  obtain ⟨hentry, horphan⟩ := List.mem_filter.mp hmem
  simp only [Bool.and_eq_true, decide_eq_true_eq] at horphan
  refine ⟨horphan.1.1, fun node' hnode' => ?_⟩
  rw [Dict.mem_entries_iff.mp hentry] at hnode'
  cases hnode'
  exact horphan.1.2

/-- The nodes that are exchanged, when the new instance is quiet on all its nodes. -/
theorem swappable {names : List String} {jobName : String}
    (hquiet : fm.QuietBut names (fm.foreignNodes names jobName)) :
    fm.Swappable (fm.foreignNodes names jobName) (fm.orphanedNodes names jobName) where
  nodup := by
    refine List.nodup_append.mpr ⟨(Dict.nodup _).filter _, ?_, ?_⟩
    · exact fm.nodes.nodup.sublist (List.filter_sublist.map _)
    · rintro k hforeign _ horphan rfl
      exact (mem_orphanedNodes horphan).1 (mem_foreignNodes hforeign).1
  deserted := by
    intro k hk
    rcases List.mem_append.mp hk with hk | hk
    · exact (mem_foreignNodes hk).2
    · exact (mem_orphanedNodes hk).2
  quiet := fun k hk node hnode => (hquiet k (mem_foreignNodes hk).1 node hnode).1

/-- **A new instance** changes nothing for those that are followed already, and is on quiet nodes. -/
theorem joined_addNewInstanceWithNodes (σ : HashOrder InstanceId) (ins : Instance)
    (pods : Dict String String) (md : InstanceMetadata)
    (hcalm : fm.Calm ins.id) (halone : (fm.setInstance ins.id md).Alone)
    (hquiet : (fm.setInstance ins.id md).QuietBut pods.values
      ((fm.setInstance ins.id md).foreignNodes pods.values ins.jobName))
    (hmd : md = ⟨.healthy, 0, none, .healthy⟩) :
    (fm.setInstance ins.id md).Joined ins.id (fm.addNewInstanceWithNodes σ ins pods) := by
  subst hmd
  unfold addNewInstanceWithNodes
  generalize hfm₁ : fm.setInstance ins.id ⟨.healthy, 0, none, .healthy⟩ = fm₁ at halone hquiet
  have hid : fm₁.instances.contains ins.id = true := by
    rw [← hfm₁]
    exact Dict.contains_insert.mpr (Or.inl rfl)
  have hcalm₁ : fm₁.Calm ins.id := hfm₁ ▸ hcalm
  have hswap := joined_swapNodeOwnership σ ins.jobName hid hcalm₁ halone (swappable hquiet)
  have horphaned : ∀ k ∈ fm₁.orphanedNodes pods.values ins.jobName, k ∉ pods.values :=
    fun k hk => (mem_orphanedNodes hk).1
  have hquiet₂ : (fm₁.swapNodeOwnership σ ins.id ins.jobName _ _).1 = true → _ :=
    quietBut_swapNodeOwnership σ ins.jobName horphaned hquiet
  simp only
  generalize fm₁.swapNodeOwnership σ ins.id ins.jobName (fm₁.foreignNodes pods.values ins.jobName)
    (fm₁.orphanedNodes pods.values ins.jobName) = r at hswap hquiet₂
  obtain ⟨ok, fm₂⟩ := r
  cases ok with
  | false => exact hswap
  | true =>
    refine hswap.trans (joined_ensureNodes ins.jobName pods.entries (fun pod hpod => ?_)
      hswap.calm hswap.alone (hquiet₂ rfl))
    exact List.mem_map_of_mem hpod

end FaultManager

end PyMotor.Controller
