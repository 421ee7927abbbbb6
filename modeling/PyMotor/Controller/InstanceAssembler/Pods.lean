import PyMotor.Controller.InstanceAssembler

/-!
# The pods of an entry

What happens to the pods of a job while its instance is assembled: a pod joins at the end
(`Instance.joined`), the dead ones are dropped (`filterAbnormalEndpoints_eq`), and of a complete instance
across nodes some are marked (`markHeadless_eq`). A step of the controller does one of these to an entry
(`EntryStep`), or hands it over.
-/

namespace PyMotor.Controller

open Coordinator (InstanceId EndpointId DeviceInfo NodeManagerInfo)

namespace Instance

/-! ## Dead pods -/

/-- Some node manager at the address does not answer. -/
def isLost (i : Instance) (alive : NodeManagerInfo → Bool) (podIp : String) : Bool :=
  i.nodeManagers.any fun nm => decide (nm.podIp = podIp) && !alive nm

/-- With distinct addresses a pod is lost if its own node manager does not answer. -/
theorem isLost_eq {i : Instance} {alive : NodeManagerInfo → Bool} {nm : NodeManagerInfo}
    (h : (i.nodeManagers.map (·.podIp)).Nodup) (hnm : nm ∈ i.nodeManagers) :
    i.isLost alive nm.podIp = !alive nm := by
  rw [Bool.eq_iff_iff, isLost, List.any_eq_true]
  constructor
  · rintro ⟨nm', hnm', hdead⟩
    obtain ⟨heq, hdead⟩ := Bool.and_eq_true_iff.mp hdead
    rwa [List.inj_on_of_nodup_map h hnm' hnm (of_decide_eq_true heq)] at hdead
  · exact fun hdead => ⟨nm, hnm, by simp [hdead]⟩

theorem filterAbnormalEndpoints_eq (i : Instance) (alive : NodeManagerInfo → Bool)
    (hips : (i.nodeManagers.map (·.podIp)).Nodup) :
    i.filterAbnormalEndpoints alive =
      { i with
        nodeManagers := i.nodeManagers.filter alive
        endpoints := i.endpoints.filter fun podIp _ => !i.isLost alive podIp } := by
  have haux (asked rest : List NodeManagerInfo) (hsplit : i.nodeManagers = asked ++ rest) :
      rest.foldl (fun i nm => if alive nm then i else (i.delEndpoints nm.podIp).delNodeMgr nm.podIp nm.port)
        { i with
          nodeManagers := asked.filter alive ++ rest
          endpoints := i.endpoints.filter fun podIp _ =>
            !asked.any fun nm => decide (nm.podIp = podIp) && !alive nm } =
        { i with
          nodeManagers := i.nodeManagers.filter alive
          endpoints := i.endpoints.filter fun podIp _ => !i.isLost alive podIp } := by
    induction rest generalizing asked with
    | nil => simp [isLost, hsplit]
    | cons nm rest ih =>
      have hnext := ih (asked ++ [nm]) (by simp [hsplit])
      rw [List.foldl_cons, ← hnext]
      congr 1
      cases halive : alive nm with
      | true => simp [halive]
      | false =>
        -- no node manager that was asked before has the address
        have hfirst : ∀ nm' ∈ asked.filter alive,
            ¬decide (nm'.podIp = nm.podIp ∧ nm'.port = nm.port) = true := by
          intro nm' hmem
          rw [decide_eq_true_eq]
          rintro ⟨heq, -⟩
          rw [hsplit, List.map_append, List.nodup_append] at hips
          exact hips.2.2 _ (List.mem_map_of_mem (List.mem_of_mem_filter hmem)) nm.podIp (by simp) heq
        simp only [Bool.false_eq_true, ↓reduceIte, delNodeMgr, delEndpoints, Dict.erase]
        rw [List.eraseP_append_right _ hfirst, List.eraseP_cons_of_pos (by simp)]
        simp only [List.filter_append, List.filter_cons, halive, Bool.false_eq_true, ↓reduceIte,
          List.filter_nil, List.append_nil, Instance.mk.injEq, true_and, and_true]
        simp only [Dict.filter, List.filter_filter, Dict.mk.injEq]
        refine List.filter_congr fun p _ => ?_
        simp only [List.any_append, List.any_cons, List.any_nil, halive, Bool.not_false,
          Bool.and_true, Bool.or_false, Bool.not_or, decide_not]
        rw [Bool.and_comm]
        congr 2
        exact decide_eq_decide.mpr eq_comm
  have hstart : ({ i with
      nodeManagers := ([] : List NodeManagerInfo).filter alive ++ i.nodeManagers
      endpoints := i.endpoints.filter fun podIp _ =>
        !([] : List NodeManagerInfo).any fun nm => decide (nm.podIp = podIp) && !alive nm } : Instance) =
      i := by
    simp [Dict.filter]
  have := haux [] i.nodeManagers rfl
  rwa [hstart] at this

/-! ## Headless pods -/

/-- The pod is not the first of its group. -/
def isSlave (i : Instance) (nnodes : Int) (podIp : String) : Bool :=
  i.nodeManagers.zipIdx.any fun p => decide (p.1.podIp = podIp ∧ (p.2 : Int) % nnodes ≠ 0)

def headlessPod (pod : Dict EndpointId Endpoint) : Dict EndpointId Endpoint :=
  pod.mapVal fun _ ep => { ep with headless := true }

theorem headlessPod_headlessPod (pod : Dict EndpointId Endpoint) :
    headlessPod (headlessPod pod) = headlessPod pod := by
  simp [headlessPod, Dict.mapVal]

theorem markRound_eq (i : Instance) (nnodes : Int) (nm : NodeManagerInfo) (rank : ℕ) :
    (if (rank : Int) % nnodes = 0 then i
      else
        match i.endpoints.get? nm.podIp with
        | none => i
        | some pod => i.addEndpoints nm.podIp (headlessPod pod)) =
      { i with
        endpoints := i.endpoints.mapVal fun podIp pod =>
          if nm.podIp = podIp ∧ (rank : Int) % nnodes ≠ 0 then headlessPod pod else pod } := by
  split
  · next hmaster => simp [hmaster, Dict.mapVal]
  · next hslave =>
    simp only [ne_eq, hslave, not_false_eq_true, and_true]
    split
    · next hnone =>
      have hsame : i.endpoints.mapVal (fun podIp pod =>
          if nm.podIp = podIp then headlessPod pod else pod) = i.endpoints := by
        refine Dict.mapVal_eq_self fun podIp pod hpod => if_neg ?_
        rintro rfl
        rw [hnone] at hpod
        cases hpod
      rw [hsame]
    · next pod hpod =>
      rw [addEndpoints, Dict.insert_eq_mapVal headlessPod hpod]
      simp only [eq_comm]

theorem markHeadless_eq (i : Instance) (nnodes : Int) :
    i.markHeadless nnodes =
      { i with
        endpoints := i.endpoints.mapVal fun podIp pod =>
          if i.isSlave nnodes podIp then headlessPod pod else pod } := by
  have haux (l : List (NodeManagerInfo × ℕ)) (i : Instance) :
      l.foldl (fun i p =>
        if (p.2 : Int) % nnodes = 0 then i
        else
          match i.endpoints.get? p.1.podIp with
          | none => i
          | some pod => i.addEndpoints p.1.podIp (headlessPod pod)) i =
      { i with
        endpoints := i.endpoints.mapVal fun podIp pod =>
          if l.any fun p => decide (p.1.podIp = podIp ∧ (p.2 : Int) % nnodes ≠ 0) then headlessPod pod
          else pod } := by
    induction l generalizing i with
    | nil => simp [Dict.mapVal]
    | cons p l ih =>
      rw [List.foldl_cons, markRound_eq, ih]
      simp only [Dict.mapVal, List.map_map, Instance.mk.injEq, Dict.mk.injEq, true_and, and_true]
      refine List.map_congr_left fun q _ => ?_
      simp only [Function.comp, List.any_cons, Prod.mk.injEq, true_and]
      by_cases hhere : p.1.podIp = q.1 ∧ (p.2 : Int) % nnodes ≠ 0
      · simp only [decide_eq_true hhere, Bool.true_or, ↓reduceIte, if_pos hhere,
          headlessPod_headlessPod, ite_self]
      · simp only [decide_eq_false hhere, Bool.false_or, if_neg hhere]
  exact haux i.nodeManagers.zipIdx i

/-! ## A pod joins -/

/-- The pod goes to the end; if its endpoints cannot be built, without them. -/
def joined (i : Instance) (msg : RegisterMsg) : Instance :=
  match msg.buildEndpoints i.getEndpointsNum with
  | none => i.addNodeMgr msg.nodeMgr
  | some endpoints => (i.addNodeMgr msg.nodeMgr).addEndpoints msg.podIp endpoints

theorem notMem_of_hasNodeMgr {i : Instance} {podIp : String} (h : i.hasNodeMgr podIp = false) :
    podIp ∉ i.nodeManagers.map (·.podIp) := by
  intro hmem
  obtain ⟨nm, hnm, rfl⟩ := List.mem_map.mp hmem
  have := List.any_eq_false.mp h nm hnm
  simp at this

theorem addNodeMgr_eq {i : Instance} {msg : RegisterMsg} (hnew : i.hasNodeMgr msg.podIp = false) :
    i.addNodeMgr msg.nodeMgr = { i with nodeManagers := i.nodeManagers ++ [msg.nodeMgr] } := by
  rw [addNodeMgr, if_neg]
  intro hmem
  exact notMem_of_hasNodeMgr hnew (List.mem_map.mpr ⟨msg.nodeMgr, hmem, rfl⟩)

theorem nodup_append_nodeMgr {i : Instance} {msg : RegisterMsg}
    (h : (i.nodeManagers.map (·.podIp)).Nodup) (hnew : i.hasNodeMgr msg.podIp = false) :
    ((i.nodeManagers ++ [msg.nodeMgr]).map (·.podIp)).Nodup := by
  rw [List.map_append, List.nodup_append]
  refine ⟨h, by simp, fun a ha b hb => ?_⟩
  have hpod : b = msg.podIp := List.mem_singleton.mp hb
  rintro rfl
  exact notMem_of_hasNodeMgr hnew (hpod ▸ ha)

end Instance

namespace ControllerState

variable {s s' : ControllerState} {jobName k : String} {md md' : AssembleInstanceMetadata}

theorem get?_setMetadata (s : ControllerState) (jobName : String) (md : AssembleInstanceMetadata)
    (k : String) : (s.setMetadata jobName md).assembler.instances.get? k =
      if jobName = k then some md else s.assembler.instances.get? k :=
  Dict.get?_insert _ _ _ _

theorem get?_dropMetadata (s : ControllerState) (jobName k : String) :
    (s.dropMetadata jobName).assembler.instances.get? k =
      if jobName = k then none else s.assembler.instances.get? k := by
  rw [dropMetadata, Dict.get?_erase]

theorem get?_amend (s : ControllerState) (jobName : String) (f : Instance → Instance) (k : String) :
    (s.amend jobName f).assembler.instances.get? k =
      if jobName = k then (s.assembler.instances.get? jobName).map fun md => { md with ins := f md.ins }
      else s.assembler.instances.get? k := by
  unfold amend
  cases hmd : s.assembler.instances.get? jobName with
  | none =>
    by_cases hk : jobName = k
    · rw [if_pos hk, ← hk, hmd, Option.map_none]
    · rw [if_neg hk]
  | some md =>
    have hset := get?_setMetadata s jobName { md with ins := f md.ins } k
    rw [Option.map_some, ← hset]
    simp only
    split
    · split <;> rfl
    · rfl

/-- A pod that is new to the entry joins it, and may become its master. -/
theorem get?_joinRegister {msg : RegisterMsg} (hmd : s.assembler.instances.get? msg.jobName = some md) :
    if md.ins.hasNodeMgr msg.podIp then (s.joinRegister msg md).2 = s
    else ∃ master, (master = md.snapshotDpMasterIp ∨ master = some msg.podIp) ∧
      ∀ k, (s.joinRegister msg md).2.assembler.instances.get? k =
        if msg.jobName = k then some { md with ins := md.ins.joined msg, snapshotDpMasterIp := master }
        else s.assembler.instances.get? k := by
  unfold joinRegister
  split
  · rfl
  · obtain ⟨master, hmaster, hrecorded⟩ : ∃ master,
        (master = md.snapshotDpMasterIp ∨ master = some msg.podIp) ∧
        ∀ k, (s.recordMaster msg md).assembler.instances.get? k =
          if msg.jobName = k then some { md with snapshotDpMasterIp := master }
          else s.assembler.instances.get? k := by
      have hkept : ∀ k, s.assembler.instances.get? k =
          if msg.jobName = k then some { md with snapshotDpMasterIp := md.snapshotDpMasterIp }
          else s.assembler.instances.get? k := by
        intro k
        split
        · next heq => rw [← heq, hmd]
        · rfl
      unfold recordMaster
      split
      · split
        · exact ⟨_, Or.inl rfl, hkept⟩
        · exact ⟨_, Or.inr rfl, get?_setMetadata _ _ _⟩
      · exact ⟨_, Or.inl rfl, hkept⟩
    refine ⟨master, hmaster, fun k => ?_⟩
    simp only [Instance.joined]
    cases msg.buildEndpoints md.ins.getEndpointsNum with
    | none =>
      simp only [get?_amend, hrecorded]
      split <;> simp
    | some endpoints =>
      simp only [get?_amend, hrecorded]
      split <;> simp

/-! ## What a step does to an entry -/

/-- A pod that registers joins the entry of its job, or a new one. -/
def Joins (s : ControllerState) (msg : RegisterMsg) (md : AssembleInstanceMetadata) : Prop :=
  md.ins.hasNodeMgr msg.podIp = false ∧
    (s.assembler.instances.get? msg.jobName = some md ∧ md.isReregister = false ∨
      s.assembler.instances.get? msg.jobName = none ∧ md = msg.newMetadata s.assembler.insIdCnt)

/-- How the entry of the job `k` comes out of a step. -/
inductive EntryStep (s : ControllerState) (k : String) :
    ControllerOp → AssembleInstanceMetadata → Prop
  | kept {op : ControllerOp} {md : AssembleInstanceMetadata}
      (hmd : s.assembler.instances.get? k = some md)
      (hop : ∀ alive timedOut, op ≠ .assemble k alive timedOut) : EntryStep s k op md
  | joined {msg : RegisterMsg} {md : AssembleInstanceMetadata} {master : Option String}
      (hk : msg.jobName = k) (hjoins : s.Joins msg md)
      (hmaster : master = md.snapshotDpMasterIp ∨ master = some msg.podIp) :
      EntryStep s k (.register msg) { md with ins := md.ins.joined msg, snapshotDpMasterIp := master }
  | reregistered {msg : ReregisterMsg} {md : AssembleInstanceMetadata} (hagain : md.isReregister = true) :
      EntryStep s k (.reregister msg) md
  | restored {assemblerRestores managerRestores : Bool} {md : AssembleInstanceMetadata}
      (hagain : md.isReregister = true) : EntryStep s k (.restart assemblerRestores managerRestores) md
  | filtered {md : AssembleInstanceMetadata} {alive : NodeManagerInfo → Bool} {timedOut : Bool}
      (hmd : s.assembler.instances.get? k = some md) (hopen : md.registerStatus ≠ .assembled)
      (hwaits : ¬(md.filtered alive).isReady = true) :
      EntryStep s k (.assemble k alive timedOut) (md.filtered alive)
  | handedOver {md : AssembleInstanceMetadata} {alive : NodeManagerInfo → Bool} {timedOut : Bool}
      (hmd : s.assembler.instances.get? k = some md) (hopen : md.registerStatus ≠ .assembled)
      (hready : (md.filtered alive).isReady = true) :
      EntryStep s k (.assemble k alive timedOut)
        { (md.filtered alive).completed with
          shared := !s.manager.instances.contains (md.filtered alive).completed.ins.id }
  | retried {md : AssembleInstanceMetadata} {success : Bool} {maxRetryTimes : ℕ}
      (hmd : s.assembler.instances.get? k = some md) (hassembled : md.registerStatus = .assembled) :
      EntryStep s k (.sendStartCommand k success maxRetryTimes)
        { md with startCommandSendTimes := md.startCommandSendTimes + 1 }

theorem entry_joinReregister {msg : ReregisterMsg}
    (hagain : ∀ md, s.assembler.instances.get? msg.jobName = some md → md.isReregister = true)
    (hmd : (s.joinReregister msg).assembler.instances.get? k = some md) :
    s.assembler.instances.get? k = some md ∨ md.isReregister = true := by
  simp only [joinReregister, get?_amend] at hmd
  by_cases hk : msg.jobName = k
  · simp only [if_pos hk, ↓reduceIte, Option.map_map] at hmd
    obtain ⟨md₀, hmd₀, rfl⟩ := Option.map_eq_some_iff.mp hmd
    exact Or.inr (hagain md₀ hmd₀)
  · rw [if_neg hk, if_neg hk] at hmd
    exact Or.inl hmd

theorem entry_register {msg : RegisterMsg}
    (hmd : (s.register msg).2.assembler.instances.get? k = some md) :
    s.EntryStep k (.register msg) md := by
  unfold register at hmd
  split at hmd
  · exact .kept hmd (by simp)
  · next hstatus =>
    have hnone : s.assembler.instances.get? msg.jobName = none := by
      unfold evalRegisterStatus at hstatus
      split at hstatus
      · cases hstatus
      · split at hstatus
        · cases hstatus
        · next hcontains => simpa [Dict.contains] using hcontains
    have hnew : (msg.newMetadata s.assembler.insIdCnt).ins.hasNodeMgr msg.podIp = false := rfl
    have hopened (k : String) : (s.openEntry msg).assembler.instances.get? k =
        if msg.jobName = k then some (msg.newMetadata s.assembler.insIdCnt)
        else s.assembler.instances.get? k := Dict.get?_insert _ _ _ _
    have hjoin := get?_joinRegister (s := s.openEntry msg) ((hopened _).trans (if_pos rfl))
    rw [if_neg (by simp [hnew])] at hjoin
    obtain ⟨master, hmaster, hentry⟩ := hjoin
    rw [hentry] at hmd
    split at hmd
    · next hk =>
      cases hmd
      exact .joined hk ⟨hnew, Or.inr ⟨hnone, rfl⟩⟩ hmaster
    · next hk =>
      rw [hopened, if_neg hk] at hmd
      exact .kept hmd (by simp)
  · split at hmd
    · exact .kept hmd (by simp)
    · next md₀ hmd₀ =>
      split at hmd
      · exact .kept hmd (by simp)
      · next hagain =>
        have hjoin := get?_joinRegister hmd₀
        split at hjoin
        · rw [hjoin] at hmd
          exact .kept hmd (by simp)
        · next hnew =>
          obtain ⟨master, hmaster, hentry⟩ := hjoin
          rw [hentry] at hmd
          split at hmd
          · next hk =>
            cases hmd
            rw [Bool.not_eq_true] at hnew hagain
            exact .joined hk ⟨hnew, Or.inl ⟨hmd₀, hagain⟩⟩ hmaster
          · exact .kept hmd (by simp)

theorem of_get?_dropMetadata {jobName : String}
    (hmd : (s.dropMetadata jobName).assembler.instances.get? k = some md) :
    jobName ≠ k ∧ s.assembler.instances.get? k = some md := by
  rw [get?_dropMetadata] at hmd
  split at hmd
  · cases hmd
  · next hk => exact ⟨hk, hmd⟩

theorem of_get?_setMetadata {jobName : String} {md' : AssembleInstanceMetadata}
    (hmd : (s.setMetadata jobName md').assembler.instances.get? k = some md) :
    jobName = k ∧ md' = md ∨ jobName ≠ k ∧ s.assembler.instances.get? k = some md := by
  rw [get?_setMetadata] at hmd
  split at hmd
  · next hk => exact Or.inl ⟨hk, Option.some.inj hmd⟩
  · next hk => exact Or.inr ⟨hk, hmd⟩

theorem entry_reregister {msg : ReregisterMsg}
    (hmd : (s.reregister msg).2.assembler.instances.get? k = some md) :
    s.EntryStep k (.reregister msg) md := by
  unfold reregister at hmd
  split at hmd
  · exact .kept hmd (by simp)
  · obtain hkept | hagain := entry_joinReregister (fun md hget => by
      rw [get?_setMetadata, if_pos rfl] at hget
      cases hget
      rfl) hmd
    · obtain ⟨-, rfl⟩ | ⟨-, hkept⟩ := of_get?_setMetadata hkept
      · exact .reregistered rfl
      · exact .kept hkept (by simp)
    · exact .reregistered hagain
  · split at hmd
    · exact .kept hmd (by simp)
    · next md₀ hmd₀ =>
      split at hmd
      · next hagain₀ =>
        obtain hkept | hagain := entry_joinReregister (fun md hget => by
          rw [hmd₀] at hget
          cases hget
          exact hagain₀) hmd
        · exact .kept hkept (by simp)
        · exact .reregistered hagain
      · exact .kept hmd (by simp)

theorem entry_assembleInstance {jobName : String} {md₀ : AssembleInstanceMetadata}
    {alive : NodeManagerInfo → Bool} {timedOut : Bool}
    (hmd₀ : s.assembler.instances.get? jobName = some md₀) (hopen : md₀.registerStatus ≠ .assembled)
    (hmd : (s.assembleInstance jobName md₀ alive timedOut).assembler.instances.get? k = some md) :
    s.EntryStep k (.assemble jobName alive timedOut) md := by
  have hother (hk : jobName ≠ k ∧ s.assembler.instances.get? k = some md) :
      s.EntryStep k (.assemble jobName alive timedOut) md := .kept hk.2 (by simp [hk.1])
  unfold assembleInstance at hmd
  simp only at hmd
  split at hmd
  · next hready =>
    unfold handOver at hmd
    simp only at hmd
    split at hmd
    · exact hother (of_get?_dropMetadata hmd)
    · obtain ⟨rfl, rfl⟩ | hk := of_get?_setMetadata hmd
      · exact .handedOver hmd₀ hopen hready
      · exact hother hk
  · next hwaits =>
    split at hmd
    · exact hother (of_get?_dropMetadata hmd)
    · obtain ⟨rfl, rfl⟩ | hk := of_get?_setMetadata hmd
      · exact .filtered hmd₀ hopen hwaits
      · exact hother hk

theorem entry_sendStartCommand {jobName : String} {md₀ : AssembleInstanceMetadata} {success : Bool}
    {maxRetryTimes : ℕ} (hmd₀ : s.assembler.instances.get? jobName = some md₀)
    (hassembled : md₀.registerStatus = .assembled)
    (hmd : (s.sendStartCommand jobName md₀ success maxRetryTimes).assembler.instances.get? k = some md) :
    s.EntryStep k (.sendStartCommand jobName success maxRetryTimes) md := by
  unfold sendStartCommand at hmd
  split at hmd
  · exact .kept (of_get?_dropMetadata hmd).2 (by simp)
  · split at hmd
    · obtain ⟨rfl, rfl⟩ | ⟨-, hkept⟩ := of_get?_setMetadata hmd
      · exact .retried hmd₀ hassembled
      · exact .kept hkept (by simp)
    · exact .kept (of_get?_dropMetadata hmd).2 (by simp)

/-- **What a step does to an entry.** -/
theorem exec_entry {op : ControllerOp} (hexec : s.exec op = some s')
    (hmd : s'.assembler.instances.get? k = some md) : s.EntryStep k op md := by
  cases op with
  | register msg =>
    cases hexec
    exact entry_register hmd
  | reregister msg =>
    simp only [exec] at hexec
    split at hexec
    · cases hexec
      exact entry_reregister hmd
    · cases hexec
  | assemble jobName alive timedOut =>
    simp only [exec] at hexec
    split at hexec
    · cases hexec
    · next md₀ hmd₀ =>
      split at hexec
      · cases hexec
      · next hopen =>
        cases hexec
        exact entry_assembleInstance hmd₀ hopen hmd
  | sendStartCommand jobName success maxRetryTimes =>
    simp only [exec] at hexec
    split at hexec
    · cases hexec
    · next md₀ hmd₀ =>
      split at hexec
      · next hassembled =>
        cases hexec
        exact entry_sendStartCommand hmd₀ hassembled hmd
      · cases hexec
  | heartbeat id ip status =>
    cases hexec
    exact .kept hmd (by simp)
  | persistAssembler =>
    cases hexec
    exact .kept hmd (by simp)
  | persistManager =>
    cases hexec
    exact .kept hmd (by simp)
  | restart assemblerRestores managerRestores =>
    cases hexec
    refine .restored ?_
    -- after a restart an entry is one of the persisted ones
    simp only [restoredAssembler] at hmd
    split at hmd
    · rw [Dict.get?_mapVal] at hmd
      obtain ⟨md₀, -, rfl⟩ := Option.map_eq_some_iff.mp hmd
      rfl
    · cases hmd

end ControllerState

end PyMotor.Controller
