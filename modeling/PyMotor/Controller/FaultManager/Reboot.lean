import PyMotor.Controller.FaultManager.Grouping

/-!
# Nodes that are down

That a node is down is stored as a fault of a code of its own (`nodeRebootFault`) among the hardware
faults. A change of the status stores or removes it; a list of faults replaces all faults but this one.
The fault is stored exactly as long as the node is not ready, and a ready node has no entry under its code
(`reboot_iff_notReady`), unless a list names that code for a node that is ready: the entry is then taken for
the reboot, and stays.
-/

namespace PyMotor.Controller

open Coordinator (InstanceId EndpointId)

namespace NodeMetadata

/-- The reboot is stored if the node is down, and else nothing that could be taken for it. -/
structure Mirrors (node : NodeMetadata) : Prop where
  down : node.nodeStatus = .notReady → node.reboot = some FaultDomain.nodeRebootFault
  up : node.nodeStatus = .ready → node.reboot = none

variable {node node' : NodeMetadata}

theorem Mirrors.congr (h : node.Mirrors) (hstatus : node'.nodeStatus = node.nodeStatus)
    (hhardware : node'.hardwareFaultInfos = node.hardwareFaultInfos) : node'.Mirrors := by
  have hreboot : node'.reboot = node.reboot := by rw [reboot, hhardware, reboot]
  constructor
  · rw [hstatus, hreboot]
    exact h.down
  · rw [hstatus, hreboot]
    exact h.up

theorem mirrors_new (hstatus : node.nodeStatus = .ready) (hhardware : node.hardwareFaultInfos = ∅) :
    node.Mirrors := by
  constructor
  · rw [hstatus]
    intro h
    cases h
  · intro _
    rw [reboot, hhardware]
    rfl

theorem Mirrors.iff (h : node.Mirrors) :
    (∃ f, node.reboot = some f ∧ f.faultLevel = .l6) ↔ node.nodeStatus = .notReady := by
  constructor
  · rintro ⟨f, hf, hlevel⟩
    cases hstatus : node.nodeStatus with
    | ready =>
      rw [h.up hstatus] at hf
      cases hf
    | notReady => rfl
  · intro hstatus
    exact ⟨_, h.down hstatus, rfl⟩

end NodeMetadata

open NodeMetadata (Mirrors)

/-! ## Nodes and their instances -/

namespace FaultManager

/-- All nodes store the reboot as they should. -/
def AllMirror (fm : FaultManager) : Prop :=
  ∀ name node, fm.nodes.get? name = some node → node.Mirrors

variable {fm : FaultManager} {node : NodeMetadata}

theorem AllMirror.setNode (h : fm.AllMirror) (name : String) (hnode : node.Mirrors) :
    (fm.setNode name node).AllMirror := by
  intro k node' hget
  rw [get?_setNode] at hget
  split at hget
  · cases hget
    exact hnode
  · exact h k node' hget

theorem AllMirror.ensureNodeMetadata (h : fm.AllMirror) (name podIp : String) (id : InstanceId)
    (jobName : String) : (fm.ensureNodeMetadata name podIp id jobName).AllMirror := by
  rw [FaultManager.ensureNodeMetadata]
  split
  · next node hnode => exact h.setNode name ((h name node hnode).congr rfl rfl)
  · exact h.setNode name (NodeMetadata.mirrors_new rfl rfl)

theorem AllMirror.ensureNodes (h : fm.AllMirror) (pods : Dict String String) (id : InstanceId)
    (jobName : String) : (fm.ensureNodes pods id jobName).AllMirror := by
  rw [FaultManager.ensureNodes]
  induction pods.entries generalizing fm with
  | nil => exact h
  | cons pod pods ih =>
    rw [List.foldl_cons]
    exact ih (h.ensureNodeMetadata pod.2 pod.1 id jobName)

theorem AllMirror.takeOver (h : fm.AllMirror) (name : String) (hnode : node.Mirrors) (id : InstanceId)
    (jobName : String) : (fm.takeOver name node id jobName).AllMirror :=
  h.setNode name (hnode.congr rfl rfl)

theorem AllMirror.swapNodeOwnership (h : fm.AllMirror) (σ : HashOrder InstanceId) (id : InstanceId)
    (jobName : String) (foreigns orphans : List String) :
    (fm.swapNodeOwnership σ id jobName foreigns orphans).2.AllMirror := by
  induction foreigns generalizing fm orphans with
  | nil => exact h
  | cons foreign foreigns ih =>
    rw [FaultManager.swapNodeOwnership]
    split
    · exact h
    · next node hnode =>
      have htaken := h.takeOver foreign (h foreign node hnode) id jobName
      split
      · exact h
      · exact ih htaken []
      · next oldInst _ orphan orphans _ =>
        simp only
        split
        · exact htaken
        · next waiting hwaiting =>
          split
          · exact htaken
          · refine ih (AllMirror.setNode htaken orphan ?_) orphans
            exact (htaken orphan waiting hwaiting).congr rfl rfl

theorem AllMirror.syncInstanceNodes (h : fm.AllMirror) (σ : HashOrder InstanceId) (ins : Instance)
    (nodeOf : String → Option String) : (fm.syncInstanceNodes σ ins nodeOf).AllMirror := by
  simp only [FaultManager.syncInstanceNodes]
  split
  · refine AllMirror.ensureNodes (fun name node hget => ?_) _ _ _
    rw [Dict.get?_filterMap] at hget
    obtain ⟨node₀, hnode₀, hleft⟩ := Option.bind_eq_some_iff.mp hget
    have hmirrors := h name node₀ hnode₀
    simp only at hleft
    split at hleft
    · split at hleft
      · cases hleft
      · cases hleft
        exact hmirrors.congr rfl rfl
    · cases hleft
      exact hmirrors
  · rw [addNewInstanceWithNodes]
    have hset : (fm.setInstance ins.id ⟨.healthy, 0, none, .healthy⟩).AllMirror := h
    simp only
    split
    · exact (AllMirror.swapNodeOwnership hset σ _ _ _ _).ensureNodes _ _ _
    · exact AllMirror.swapNodeOwnership hset σ _ _ _ _

theorem AllMirror.clearSoftwareFaults (h : fm.AllMirror) (id : InstanceId) :
    (fm.clearSoftwareFaults id).AllMirror := by
  intro name node hget
  rw [FaultDomain.get?_clearSoftwareFaults] at hget
  obtain ⟨node₀, hnode₀, rfl⟩ := Option.map_eq_some_iff.mp hget
  split
  · exact (h name node₀ hnode₀).congr rfl rfl
  · exact h name node₀ hnode₀

end FaultManager

namespace FaultDomain

variable {s s' : FaultDomain} {name : String} {node : NodeMetadata}

/-! ## Refreshing -/

theorem reboot_reevaluate : (s.reevaluate node).reboot = node.reboot.map fun f =>
    if f.originFaultLevel = some .preSeparateNpu then { f with faultLevel := s.preSeparateLevel node }
    else f :=
  Dict.get?_mapVal _ _ _

theorem mirrors_reevaluate (h : node.Mirrors) : (s.reevaluate node).Mirrors := by
  constructor
  · intro hstatus
    rw [reboot_reevaluate, h.down hstatus]
    rfl
  · intro hstatus
    rw [reboot_reevaluate, h.up hstatus]
    rfl

theorem allMirror_refresh (h : s.faults.AllMirror) (id : InstanceId) :
    (s.refreshInstanceFaultLevel id).faults.AllMirror := by
  cases htracked : s.faults.instances.contains id with
  | false =>
    rw [refresh_untracked htracked]
    exact h
  | true =>
    intro name node hget
    rw [(refreshes htracked).nodes] at hget
    obtain ⟨node₀, hnode₀, rfl⟩ := Option.map_eq_some_iff.mp hget
    split
    · exact mirrors_reevaluate (h name node₀ hnode₀)
    · exact h name node₀ hnode₀

theorem allMirror_refreshAll (h : s.faults.AllMirror) (ids : List InstanceId) :
    (s.refreshAll ids).faults.AllMirror := by
  induction ids generalizing s with
  | nil => exact h
  | cons id ids ih => exact ih (allMirror_refresh h id)

/-! ## Faults and status -/

/-- A list for a node that is ready does not name the code of the reboot. -/
def Uncontested (s : FaultDomain) : FaultOp → Prop
  | .faultInfoUpdate _ nodeName infos => ∀ node, s.faults.nodes.get? nodeName = some node →
    node.nodeStatus = .ready → ∀ f ∈ infos, f.faultCode ≠ SpecialFaultCode.nodeReboot
  | _ => True

/-- The reboot outlives the list; otherwise the list decides. -/
theorem mirrors_replace {infos : List FaultInfo} {p : FaultLevel} (h : node.Mirrors)
    (huncontested : node.nodeStatus = .ready → ∀ f ∈ infos, f.faultCode ≠ SpecialFaultCode.nodeReboot) :
    (replaceHardwareFaults node infos p).Mirrors := by
  have hreboot := get?_replaceHardwareFaults node infos p SpecialFaultCode.nodeReboot
  constructor
  · intro hstatus
    have hdown := h.down hstatus
    rw [if_pos ⟨rfl, by simp [hdown]⟩] at hreboot
    exact hreboot.trans hdown
  · intro hstatus
    have hunlisted : entriesOf infos SpecialFaultCode.nodeReboot = [] :=
      List.filter_eq_nil_iff.mpr fun f hf => by simpa using huncontested hstatus f hf
    rw [if_neg fun hand => hand.2 (h.up hstatus), if_pos hunlisted] at hreboot
    exact hreboot

theorem mirrors_withStatus {status : NodeStatus} (h : node.Mirrors) :
    (withStatus node status).Mirrors := by
  unfold withStatus
  simp only
  split
  · next hsame => exact h.congr hsame.symm rfl
  · cases status with
    | notReady => exact ⟨fun _ => Dict.get?_insert_self _ _ _, fun hstatus => (by cases hstatus)⟩
    | ready =>
      refine ⟨fun hstatus => (by cases hstatus), fun _ => ?_⟩
      rw [NodeMetadata.reboot, Dict.get?_erase_self]

/-! ## Runs -/

theorem allMirror_update (h : s.faults.AllMirror) (σ : HashOrder InstanceId)
    (nodeOf : String → Option String) (n : Notification) : (s.update σ nodeOf n).faults.AllMirror := by
  rw [update]
  split
  · split
    · exact h
    · exact h.syncInstanceNodes σ n.ins nodeOf
  · exact allMirror_refresh h n.ins.id
  · exact h
  · exact h

theorem allMirror_notify (h : s.faults.AllMirror) (σ : HashOrder InstanceId)
    (nodeOf : String → Option String) (step : InstanceManager × List Notification) :
    (s.notify σ nodeOf step).faults.AllMirror := by
  rw [notify]
  have hmanager : ({ s with manager := step.1 } : FaultDomain).faults.AllMirror := h
  generalize ({ s with manager := step.1 } : FaultDomain) = s₁ at hmanager
  induction step.2 generalizing s₁ with
  | nil => exact hmanager
  | cons n ns ih =>
    rw [List.foldl_cons]
    exact ih _ (allMirror_update hmanager σ nodeOf n)

theorem exec_mirrors {op : FaultOp} (h : s.faults.AllMirror) (hguard : s.Uncontested op)
    (hexec : s.exec op = some s') : s'.faults.AllMirror := by
  cases op <;> cases hexec
  case addInstance σ ins nodeOf => exact allMirror_notify h σ nodeOf _
  case heartbeat id ip status => exact allMirror_notify h _ _ _
  case heartbeatTimeout id abnormal => exact allMirror_notify h _ _ _
  case faultInfoUpdate σ nodeName infos =>
    rw [handleFaultInfoUpdate]
    split
    · exact h
    · next node hnode =>
      exact allMirror_refreshAll
        (h.setNode nodeName (mirrors_replace (h nodeName node hnode) (hguard node hnode))) _
  case nodeStatusUpdate σ nodeName status =>
    rw [handleNodeStatusUpdate]
    split
    · exact h
    · next node hnode =>
      exact allMirror_refreshAll (h.setNode nodeName (mirrors_withStatus (h nodeName node hnode))) _
  case reportSoftwareFault f podIp =>
    rw [reportSoftwareFault]
    split
    · exact h
    · split
      · exact h
      · next name node hpod =>
        refine allMirror_refreshAll (FaultManager.AllMirror.setNode h name ?_) _
        exact (h name node (nodeOfPod_eq_some hpod)).congr rfl rfl
  case processStrategy id newStrategy finished =>
    rw [processInstanceStrategy]
    split
    · exact h
    · simp only
      split
      · exact allMirror_refresh (FaultManager.AllMirror.clearSoftwareFaults h id) id
      · exact h

/-- **The reboot is stored exactly for nodes that are not ready**, and a ready node has no entry of any
level under its code. -/
theorem reboot_iff_notReady {ops : List FaultOp} (hrun : Run exec Uncontested new ops s)
    (hnode : s.faults.nodes.get? name = some node) :
    ((∃ f, node.hardwareFaultInfos.get? SpecialFaultCode.nodeReboot = some f ∧ f.faultLevel = .l6) ↔
      node.nodeStatus = .notReady) ∧
    (node.nodeStatus = .ready →
      node.hardwareFaultInfos.get? SpecialFaultCode.nodeReboot = none) := by
  have hnew : (new : FaultDomain).faults.AllMirror := by
    intro name node hget
    cases hget
  have h : s.faults.AllMirror := hrun.invariant_state hnew fun h hguard hexec =>
    exec_mirrors h hguard hexec
  exact ⟨(h name node hnode).iff, (h name node hnode).up⟩

/-! ## A listed fault with the code of the reboot -/

/-- A node goes down, and a list arrives that names the code of the reboot beside another; the node comes
up again, and the list is empty. -/
def listedWhileDown : List FaultOp :=
  [.addInstance .insertion (instanceOf 1 "job-a" "10.0.0.1") (fun _ => some "node-1"),
    .faultInfoUpdate .insertion "node-1" [chipFault .l4],
    .nodeStatusUpdate .insertion "node-1" .notReady,
    .faultInfoUpdate .insertion "node-1" [chipFault .l4, { chipFault .l5 with faultCode := 0x1 }],
    .nodeStatusUpdate .insertion "node-1" .ready,
    .faultInfoUpdate .insertion "node-1" []]

theorem listedWhileDown_cleared : ∃ s node, Run exec Uncontested new listedWhileDown s ∧
    s.faults.nodes.get? "node-1" = some node ∧
    node.hardwareFaultInfos.get? SpecialFaultCode.nodeReboot = none := by
  obtain ⟨s, hs, hready⟩ : ∃ s, Run exec Uncontested new listedWhileDown s ∧
      (s.faults.nodes.get? "node-1").map (·.nodeStatus) = some .ready := by
    refine ⟨_, ((((((Run.nil.snoc trivial rfl).snoc ?_ rfl).snoc trivial rfl).snoc ?_ rfl).snoc trivial
      rfl).snoc ?_ rfl), by decide⟩
    · intro node _ _ f hf
      rw [List.mem_singleton.mp hf]
      decide
    · -- the node is down when the code is listed
      intro node hnode hready
      obtain rfl := Option.some.inj (Eq.trans (by rfl) hnode)
      cases hready
    · intro node _ _ f hf
      cases hf
  obtain ⟨node, hnode, hstatus⟩ := Option.map_eq_some_iff.mp hready
  exact ⟨s, node, hs, hnode, (reboot_iff_notReady hs hnode).2 hstatus⟩

/-- A list names the code of the reboot, and the next one is empty. -/
def rebootListed : List FaultOp :=
  [.addInstance .insertion (instanceOf 1 "job-a" "10.0.0.1") (fun _ => some "node-1"),
    .faultInfoUpdate .insertion "node-1" [{ chipFault .l6 with faultCode := 0x1 }],
    .faultInfoUpdate .insertion "node-1" []]

/-- The node is ready all the time, and keeps the entry. -/
theorem rebootListed_sticks : ∃ s node, Run exec Free new rebootListed s ∧
    s.faults.nodes.get? "node-1" = some node ∧ node.nodeStatus = .ready ∧
    ∃ f, node.hardwareFaultInfos.get? SpecialFaultCode.nodeReboot = some f ∧ f.faultLevel = .l6 := by
  have h : (runList exec Free new rebootListed).bind (fun s =>
      (s.faults.nodes.get? "node-1").map fun node =>
        (node.nodeStatus, node.reboot.map (·.faultLevel))) = some (.ready, some .l6) := by decide
  obtain ⟨s, hs, hlook⟩ := Option.bind_eq_some_iff.mp h
  obtain ⟨node, hnode, hboth⟩ := Option.map_eq_some_iff.mp hlook
  obtain ⟨hstatus, hreboot⟩ := Prod.mk.inj hboth
  obtain ⟨f, hf, hlevel⟩ := Option.map_eq_some_iff.mp hreboot
  exact ⟨s, node, runList_run hs, hnode, hstatus, f, hf, hlevel⟩

end FaultDomain

end PyMotor.Controller
