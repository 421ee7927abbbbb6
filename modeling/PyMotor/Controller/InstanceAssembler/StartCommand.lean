import PyMotor.Controller.InstanceAssembler.Arrivals
import PyMotor.Controller.InstanceManager.Changes
import PyMotor.Lib.Run

/-!
# Start commands

An instance that was handed over to the manager stays an entry of the assembler until every pod has got
its start command. Until then it is one object for both, and the job still counts as assembling. So a pod
that registers in that time joins an instance that is complete, is numbered and is running already; and
so does one that found no node manager of its own before the pods were counted. As long as there is no
such call, a complete instance stays as it is, and every round of start commands is about the pods that it
was complete with (`handedOver_frozen`).
-/

namespace PyMotor.Controller

open Coordinator (InstanceId NodeManagerInfo)

/-! ## One entry -/

namespace Assembly

variable {a a' : Assembly} {n : ℕ} {msg : RegisterMsg} {phase : CallPhase} {c : RegisterCall}

/-- Some call is adding the pod. -/
def isJoined (a : Assembly) (podIp : String) : Bool :=
  a.calls.values.any fun c => c.joins && decide (c.msg.podIp = podIp)

/-- A pod that is new comes before the pods were counted, with an address and an endpoint at least, and
no other call is adding it. -/
def quietCall (a : Assembly) (n : ℕ) : Bool :=
  match a.calls.get? n with
  | some ⟨msg, .entered⟩ => a.md.ins.hasNodeMgr msg.podIp ||
    decide (a.md.registerStatus ≠ .assembled ∧ msg.podIp ≠ "") && !a.pass.found && !a.isJoined msg.podIp
  | some ⟨msg, .added⟩ =>
    (msg.buildEndpoints a.md.ins.getEndpointsNum).any fun endpoints => !endpoints.values.isEmpty
  | _ => true

/-- No pod is being added when the pods are found to be complete, nor one that is dropped. -/
def quietPass (a : Assembly) (alive : Bool) : Bool :=
  !(a.findsReady && a.calls.values.any (·.joins)) &&
    match a.pass with
    | .filtering (nm :: _) => alive || !a.isJoined nm.podIp
    | _ => true

/-- The call, if it goes on to add its pod. -/
def joiner (a : Assembly) (n : ℕ) : Option RegisterCall := (a.calls.get? n).filter (·.joins)

theorem joiner_of_get? (h : a.calls.get? n = some c) : a.joiner n = if c.joins then some c else none := by
  rw [joiner, h, Option.filter_some]

theorem joiner_enter : (a.enter n msg phase).joiner = Function.update a.joiner n
    (if (⟨msg, phase⟩ : RegisterCall).joins then some ⟨msg, phase⟩ else none) := by
  funext k
  rw [joiner, enter, Dict.get?_insert, Function.update_apply]
  by_cases hk : k = n
  · rw [if_pos hk, if_pos hk.symm, Option.filter_some]
  · rw [if_neg hk, if_neg (Ne.symm hk), joiner]

theorem joiner_endCall : (a.endCall n).joiner = Function.update a.joiner n none := by
  funext k
  rw [joiner, endCall, Dict.get?_erase, Function.update_apply]
  by_cases hk : k = n
  · rw [if_pos hk, if_pos hk.symm, Option.filter_none]
  · rw [if_neg hk, if_neg (Ne.symm hk), joiner]

theorem isJoined_eq_false {podIp : String} :
    a.isJoined podIp = false ↔ ∀ n c, a.joiner n = some c → c.msg.podIp ≠ podIp := by
  rw [isJoined, List.any_eq_false]
  constructor
  · intro h n c hc heq
    obtain ⟨hget, hjoins⟩ := Option.filter_eq_some_iff.mp hc
    exact h c (Dict.mem_values_iff.mpr ⟨n, hget⟩) (by simp [hjoins, heq])
  · intro h c hc hand
    obtain ⟨n, hget⟩ := Dict.mem_values_iff.mp hc
    obtain ⟨hjoins, heq⟩ := Bool.and_eq_true_iff.mp hand
    exact h n c (Option.filter_eq_some_iff.mpr ⟨hget, hjoins⟩) (of_decide_eq_true heq)

theorem joiner_eq_none (h : a.calls.values.any (·.joins) = false) (n : ℕ) : a.joiner n = none := by
  refine Option.eq_none_iff_forall_ne_some.mpr fun c hc => ?_
  obtain ⟨hget, hjoins⟩ := Option.filter_eq_some_iff.mp hc
  exact List.any_eq_false.mp h c (Dict.mem_values_iff.mpr ⟨n, hget⟩) hjoins

/-! ### Its stages -/

structure Counted (a : Assembly) : Prop where
  alone : ∀ n, a.joiner n = none
  marks : a.pass.Marks a.md.ins a.md.nnodes
  counted : a.counted = a.md.ins.nodeManagers

structure HandedOver (a : Assembly) : Prop where
  alone : ∀ n, a.joiner n = none
  pass : a.pass = .idle
  grouped : a.md.ins.Grouped a.md.nnodes
  counted : a.counted = a.md.ins.nodeManagers
  round : a.round.Fits a.md
  rounds : ∀ sent ∈ a.rounds, ∃ masterDpIp,
    sent = a.md.ins.nodeManagers.zipIdx.map (a.md.commandFor masterDpIp)

structure Fits (a : Assembly) : Prop where
  isNew : a.md.isReregister = false
  addresses : (a.md.ins.nodeManagers.map (·.podIp)).Nodup
  covered : a.md.ins.Covered
  before : a.md.registerStatus ≠ .assembled →
    (Waits a.md.ins a.joiner a.pass ∨ a.Counted) ∧ a.round = .idle ∧ a.rounds = []
  after : a.md.registerStatus = .assembled → a.HandedOver

/-- What was handed over stays as it is. -/
def Frozen (a a' : Assembly) : Prop :=
  a.md.registerStatus = .assembled → a'.md.registerStatus = .assembled ∧ a'.md.ins = a.md.ins

theorem Frozen.of_eq (h : a'.md = a.md) : a.Frozen a' := fun hassembled => by
  rw [h]
  exact ⟨hassembled, rfl⟩

/-- Calls that do not add a pod are of no importance. -/
theorem Fits.of_joiner {calls : Dict ℕ RegisterCall} (h : a.Fits)
    (hsame : ({ a with calls := calls } : Assembly).joiner = a.joiner) :
    ({ a with calls := calls } : Assembly).Fits := by
  refine ⟨h.isNew, h.addresses, h.covered, fun hopen => ?_, fun hassembled => ?_⟩
  · obtain ⟨hwaits | hcounted, hunsent⟩ := h.before hopen
    · exact ⟨Or.inl (hsame ▸ hwaits), hunsent⟩
    · exact ⟨Or.inr ⟨hsame ▸ hcounted.alone, hcounted.marks, hcounted.counted⟩, hunsent⟩
  · have hover := h.after hassembled
    exact ⟨hsame ▸ hover.alone, hover.pass, hover.grouped, hover.counted, hover.round, hover.rounds⟩

theorem Fits.waits (h : a.Fits) (hopen : a.md.registerStatus ≠ .assembled)
    (hfound : a.pass.found = false) : Waits a.md.ins a.joiner a.pass := by
  obtain ⟨hwaits | hcounted, -⟩ := h.before hopen
  · exact hwaits
  · have hmarks := hcounted.marks
    cases hpass : a.pass <;> simp_all [PassPhase.Marks, PassPhase.found]

/-- Pods are only added before they are counted. -/
theorem Fits.waits_of_joiner (h : a.Fits) (hc : a.joiner n = some c) :
    a.md.registerStatus ≠ .assembled ∧ Waits a.md.ins a.joiner a.pass := by
  have hopen : a.md.registerStatus ≠ .assembled := fun hassembled => by
    cases ((h.after hassembled).alone n).symm.trans hc
  obtain ⟨hwaits | hcounted, -⟩ := h.before hopen
  · exact ⟨hopen, hwaits⟩
  · cases (hcounted.alone n).symm.trans hc

/-- An entry whose pods were not counted may change. -/
theorem Fits.next (h : a.Fits) (hopen : a.md.registerStatus ≠ .assembled)
    (hstatus : a'.md.registerStatus = a.md.registerStatus)
    (hagain : a'.md.isReregister = a.md.isReregister)
    (haddresses : (a'.md.ins.nodeManagers.map (·.podIp)).Nodup) (hcovered : a'.md.ins.Covered)
    (hround : a'.round = a.round ∧ a'.rounds = a.rounds)
    (hwaits : Waits a'.md.ins a'.joiner a'.pass ∨ a'.Counted) : a'.Fits ∧ a.Frozen a' := by
  obtain ⟨-, hidle, hnone⟩ := h.before hopen
  refine ⟨⟨hagain.trans h.isNew, haddresses, hcovered,
    fun _ => ⟨hwaits, hround.1.trans hidle, hround.2.trans hnone⟩, fun hassembled => ?_⟩,
    fun hassembled => absurd hassembled hopen⟩
  exact absurd (hstatus.symm.trans hassembled) hopen

/-! ### Register calls -/

/-- **A register call goes on.** -/
theorem Fits.proceed (h : a.Fits) (hquiet : a.quietCall n = true) (hstep : a.proceed n = some a') :
    a'.Fits ∧ a.Frozen a' := by
  unfold Assembly.proceed at hstep
  unfold quietCall at hquiet
  split at hstep
  · cases hstep
  · next msg hget =>
    rw [hget] at hquiet
    have hnone : a.joiner n = none := joiner_of_get? hget
    cases hstep
    split
    -- the pod is known: the call ends and leaves nothing
    · refine ⟨h.of_joiner (joiner_endCall.trans ?_), .of_eq rfl⟩
      rw [← hnone, Function.update_eq_self]
    · next hnew =>
      -- a new pod: the guard says that the entry is open and no pass has found the pods complete
      rw [Bool.not_eq_true] at hnew
      simp only [hnew, Bool.false_or, Bool.and_eq_true, decide_eq_true_eq, Bool.not_eq_true'] at hquiet
      obtain ⟨⟨⟨hopen, haddress⟩, hfound⟩, hapart⟩ := hquiet
      refine h.next hopen rfl rfl h.addresses h.covered ⟨rfl, rfl⟩ (Or.inl ?_)
      rw [joiner_enter]
      exact (h.waits hopen hfound).begin hnone hnew haddress (isJoined_eq_false.mp hapart)
  · next msg hget =>
    have hc : a.joiner n = some ⟨msg, .isNew⟩ := joiner_of_get? hget
    obtain ⟨hopen, hwaits⟩ := h.waits_of_joiner hc
    have hnext : Waits a.md.ins (Function.update a.joiner n (some ⟨msg, .recorded⟩)) a.pass :=
      hwaits.goOn hc rfl (by simp)
    cases hstep
    unfold AssembleInstanceMetadata.recordMaster
    split
    all_goals
      refine h.next hopen rfl rfl h.addresses h.covered ⟨rfl, rfl⟩ (Or.inl ?_)
      exact joiner_enter.symm ▸ hnext
  · next msg hget =>
    have hc : a.joiner n = some ⟨msg, .recorded⟩ := joiner_of_get? hget
    obtain ⟨hopen, hwaits⟩ := h.waits_of_joiner hc
    -- the pod is entered, and has no endpoints yet
    have hnew := (hwaits.calls n _ hc).nodeMgr
    have haddresses := Instance.nodup_append_nodeMgr h.addresses hnew
    cases hstep
    refine h.next hopen rfl rfl (Instance.nodeManagers_addNodeMgr hnew ▸ haddresses)
      (h.covered.addNodeMgr hnew) ⟨rfl, rfl⟩ (Or.inl ?_)
    have hjoiner : ((a.enter n msg .added).amend (·.addNodeMgr msg.nodeMgr)).joiner =
        Function.update a.joiner n (some ⟨msg, .added⟩) := joiner_enter
    rw [hjoiner]
    exact hwaits.addNodeMgr hc
  · next msg hget =>
    have hc : a.joiner n = some ⟨msg, .added⟩ := joiner_of_get? hget
    obtain ⟨hopen, hwaits⟩ := h.waits_of_joiner hc
    rw [hget] at hquiet
    obtain ⟨endpoints, hbuild, hne⟩ := (Option.any_eq_true _ _).mp hquiet
    rw [hbuild] at hstep
    cases hstep
    refine h.next hopen rfl rfl h.addresses h.covered ⟨rfl, rfl⟩ (Or.inl ?_)
    rw [joiner_enter]
    refine hwaits.goOn hc rfl fun endpoints' heq => ?_
    cases heq
    exact ⟨by simpa using hne, Instance.headless_buildEndpoints hbuild⟩
  · next msg endpoints hget =>
    have hc : a.joiner n = some ⟨msg, .built endpoints⟩ := joiner_of_get? hget
    obtain ⟨hopen, hwaits⟩ := h.waits_of_joiner hc
    cases hstep
    refine h.next hopen rfl rfl h.addresses (h.covered.addEndpoints (hwaits.calls n _ hc).nodeMgr)
      ⟨rfl, rfl⟩ (Or.inl ?_)
    have hjoiner : ((a.endCall n).amend (·.addEndpoints msg.podIp endpoints)).joiner =
        Function.update a.joiner n none := joiner_endCall
    rw [hjoiner]
    -- with its endpoints the pod is no longer one that is being added
    exact hwaits.addEndpoints hc

theorem proceed_pass (hstep : a.proceed n = some a') : a'.pass = a.pass := by
  unfold Assembly.proceed at hstep
  split at hstep
  · cases hstep
  all_goals cases hstep
  · split <;> rfl
  · rfl
  · rfl
  · split <;> rfl
  · rfl

/-! ### Passes -/

/-- A pass goes on before the pods are counted. When they are all there, and nobody is adding one, each of
them has its endpoints. -/
theorem Fits.passStep_waits (h : a.Fits) (hopen : a.md.registerStatus ≠ .assembled)
    (hwaits : Waits a.md.ins a.joiner a.pass) {alive : Bool} (hquiet : a.quietPass alive = true)
    (accepted : Bool) : (a.passStep alive accepted).Fits ∧ a.Frozen (a.passStep alive accepted) := by
  -- the pass moves, the entry stays
  have hmove {pass : PassPhase} (hleaving : a.pass.leaving = none) (hfound : pass.found = false)
      (hnew : pass.leaving = none) (htodo : pass.todo.Sublist a.md.ins.nodeManagers) :
      ({ a with pass := pass } : Assembly).Fits ∧ a.Frozen { a with pass := pass } :=
    h.next hopen rfl rfl h.addresses h.covered ⟨rfl, rfl⟩ (Or.inl (hwaits.move hfound hleaving hnew htodo))
  -- the pods are counted: the guard says that nobody is adding one
  have hevaluated (hleaving : a.pass.leaving = none) : a.evaluated.Fits ∧ a.Frozen a.evaluated := by
    unfold evaluated
    split
    · next hready =>
      have halone : ∀ n, a.joiner n = none := by
        have := (Bool.and_eq_true_iff.mp hquiet).1
        exact joiner_eq_none (by simpa [hready] using this)
      refine h.next hopen rfl rfl h.addresses h.covered ⟨rfl, rfl⟩ (Or.inr ⟨halone, fun nm hnm => ?_, rfl⟩)
      obtain hpod | ⟨k, c, hk, -⟩ | hl := hwaits.pods nm hnm
      · exact hpod
      · cases (halone k).symm.trans hk
      · cases hleaving.symm.trans hl
    · exact hmove hleaving rfl rfl (List.nil_sublist _)
  unfold Assembly.passStep
  split
  · exact ⟨h, .of_eq rfl⟩
  · next hpass => exact hmove (by rw [hpass]; rfl) rfl rfl (List.Sublist.refl _)
  · next nm todo hpass =>
    rw [hpass] at hwaits
    split
    · exact hmove (by rw [hpass]; rfl) rfl rfl (List.sublist_of_cons_sublist hwaits.todo)
    · next hdead =>
      -- a pod that is dropped is not one that is being added
      have hapart : a.isJoined nm.podIp = false := by
        have := (Bool.and_eq_true_iff.mp hquiet).2
        simpa [hpass, hdead] using this
      exact h.next hopen rfl rfl h.addresses (h.covered.delEndpoints _) ⟨rfl, rfl⟩
        (Or.inl (hwaits.delEndpoints h.addresses (isJoined_eq_false.mp hapart)))
  · next nm todo hpass =>
    rw [hpass] at hwaits
    have hnm := hwaits.todo.subset List.mem_cons_self
    refine h.next hopen rfl rfl ?_ (h.covered.delNodeMgr h.addresses hnm (hwaits.leaving nm rfl).1)
      ⟨rfl, rfl⟩ (Or.inl (hwaits.delNodeMgr h.addresses))
    exact Instance.nodeManagers_delNodeMgr h.addresses hnm ▸
      h.addresses.sublist (List.filter_sublist.map _)
  · next hpass =>
    have hnext : Waits a.md.ins a.joiner .checking :=
      hwaits.move rfl (by rw [hpass]; rfl) rfl (List.nil_sublist _)
    unfold AssembleInstanceMetadata.dropLostMaster
    split <;> exact h.next hopen rfl rfl h.addresses h.covered ⟨rfl, rfl⟩ (Or.inl hnext)
  · next hpass =>
    split
    · exact hmove (by rw [hpass]; rfl) rfl rfl (List.nil_sublist _)
    · exact hevaluated (by rw [hpass]; rfl)
  · next hpass => exact hevaluated (by rw [hpass]; rfl)
  · next hpass => cases hpass ▸ hwaits.found
  · next hpass => cases hpass ▸ hwaits.found
  · next hpass => cases hpass ▸ hwaits.found
  · next hpass => exact hmove (by rw [hpass]; rfl) rfl rfl (List.nil_sublist _)

/-- The manager gets the instance. -/
theorem Counted.handOver (hcounted : a.Counted) (h : a.Fits) (hopen : a.md.registerStatus ≠ .assembled)
    (hgrouped : a.md.ins.Grouped a.md.nnodes) (accepted : Bool) : (a.handOver accepted).Fits := by
  obtain ⟨-, hidle, hnone⟩ := h.before hopen
  have hmd (ins : Instance) (hsame : ins.toInstance = a.md.ins.toInstance) :
      ({ a with md := { a.md with ins := ins, registerStatus := .assembled }, pass := .idle } :
        Assembly).Fits := by
    have hmgrs := Instance.toInstance_nodeManagers hsame
    refine ⟨h.isNew, hmgrs ▸ h.addresses, h.covered.of_toInstance hsame, fun hs => absurd rfl hs, fun _ =>
      ⟨hcounted.alone, rfl, fun p hp => ?_, hcounted.counted.trans hmgrs.symm, ?_, fun sent hsent => ?_⟩⟩
    · exact (hgrouped p (hmgrs ▸ hp)).of_toInstance hsame
    · rw [hidle]
      trivial
    · cases hnone ▸ hsent
  cases accepted with
  | false => exact hmd a.md.ins rfl
  | true => exact hmd _ a.md.ins.refreshHeartbeats_keeps.1

/-- A pass goes on once they are: it marks pods, and hands the instance over. -/
theorem Counted.passStep (hcounted : a.Counted) (h : a.Fits) (hopen : a.md.registerStatus ≠ .assembled)
    (alive accepted : Bool) :
    (a.passStep alive accepted).Fits ∧ a.Frozen (a.passStep alive accepted) := by
  have hmarks := hcounted.marks
  cases hpass : a.pass with
  | ready =>
    rw [hpass] at hmarks
    simp only [Assembly.passStep, hpass, h.isNew, and_true]
    split
    · next hnodes =>
      refine h.next hopen rfl rfl h.addresses h.covered ⟨rfl, rfl⟩
        (Or.inr ⟨hcounted.alone, ?_, hcounted.counted⟩)
      exact ⟨hnodes, [], rfl, by simp, fun p hp => hmarks _ (List.fst_mem_of_mem_zipIdx hp)⟩
    · next hnodes =>
      refine ⟨hcounted.handOver h hopen (fun p hp => ?_) accepted, fun hs => absurd hs hopen⟩
      simp only [hnodes, false_and, decide_false]
      exact hmarks _ (List.fst_mem_of_mem_zipIdx hp)
  | marking todo =>
    rw [hpass] at hmarks
    cases todo with
    | cons p todo =>
      simp only [Assembly.passStep, hpass]
      have hmgrs : (a.md.ins.markPod a.md.nnodes p).nodeManagers = a.md.ins.nodeManagers :=
        Instance.markPod_nodeManagers
      exact h.next hopen rfl rfl (hmgrs ▸ h.addresses) h.covered.markPod ⟨rfl, rfl⟩
        (Or.inr ⟨hcounted.alone, hmarks.step h.addresses, hcounted.counted.trans hmgrs.symm⟩)
    | nil =>
      obtain ⟨-, done, hsplit, hdone, -⟩ := hmarks
      rw [List.append_nil] at hsplit
      simp only [Assembly.passStep, hpass]
      exact ⟨hcounted.handOver h hopen (fun p hp => hdone p (hsplit ▸ hp)) accepted,
        fun hs => absurd hs hopen⟩
  | _ => simp [PassPhase.Marks, hpass] at hmarks

/-- **A pass goes on.** -/
theorem Fits.passStep (h : a.Fits) {alive : Bool} (hquiet : a.quietPass alive = true) (accepted : Bool) :
    (a.passStep alive accepted).Fits ∧ a.Frozen (a.passStep alive accepted) := by
  by_cases hassembled : a.md.registerStatus = .assembled
  · rw [Assembly.passStep, (h.after hassembled).pass]
    exact ⟨h, .of_eq rfl⟩
  · obtain ⟨hwaits | hcounted, -⟩ := h.before hassembled
    · exact h.passStep_waits hassembled hwaits hquiet accepted
    · exact hcounted.passStep h hassembled alive accepted

theorem passStep_handsOver {alive accepted : Bool} (h : a.handsOver = true) :
    (a.passStep alive accepted).md.registerStatus = .assembled := by
  have hstatus : (a.handOver accepted).md.registerStatus = .assembled := by
    cases accepted <;> rfl
  unfold handsOver at h
  unfold Assembly.passStep
  split at h
  · next hpass =>
    have hlast : ¬(1 < a.md.nnodes ∧ a.md.isReregister = false) := by
      rwa [Bool.not_eq_true', decide_eq_false_iff_not] at h
    rw [hpass]
    simp only
    rwa [if_neg hlast]
  · next hpass =>
    rw [hpass]
    exact hstatus
  · cases h

/-! ### Rounds -/

theorem Fits.of_round (h : a.Fits) (hassembled : a.md.registerStatus = .assembled) {round : RoundPhase}
    (hround : round.Fits a.md) :
    ({ a with round := round } : Assembly).Fits ∧ a.Frozen { a with round := round } := by
  have hover := h.after hassembled
  exact ⟨⟨h.isNew, h.addresses, h.covered, fun hopen => absurd hassembled hopen, fun _ =>
    ⟨hover.alone, hover.pass, hover.grouped, hover.counted, hround, hover.rounds⟩⟩, .of_eq rfl⟩

theorem HandedOver.commandFor_endpoints (h : a.HandedOver) {masterDpIp : String}
    {p : NodeManagerInfo × ℕ} (hp : p ∈ a.md.ins.nodeManagers.zipIdx) :
    (a.md.commandFor masterDpIp p).endpoints.isEmpty = false := by
  obtain ⟨-, pod, hpod, hne, -⟩ := h.grouped p hp
  simpa [AssembleInstanceMetadata.commandFor, hpod] using hne

/-- **A round goes on.** -/
theorem Fits.roundStep (h : a.Fits) (ok : Bool) : (a.roundStep ok).Fits ∧ a.Frozen (a.roundStep ok) := by
  by_cases hassembled : a.md.registerStatus = .assembled
  · have hover := h.after hassembled
    have hround := hover.round
    unfold Assembly.roundStep
    split
    · exact h.of_round hassembled trivial
    · split
      · exact ⟨h, .of_eq rfl⟩
      · exact h.of_round hassembled ⟨rfl, [], rfl, rfl⟩
    · next masterDpIp nodeManagers p todo sent isSucceed hphase =>
      rw [hphase] at hround
      obtain ⟨rfl, done, hsplit, rfl⟩ := hround
      have hp : p ∈ a.md.ins.nodeManagers.zipIdx := hsplit ▸ List.mem_append_right _ List.mem_cons_self
      rw [if_neg (by simp [hover.commandFor_endpoints hp])]
      exact h.of_round hassembled ⟨rfl, done ++ [p], by simp [hsplit], by simp⟩
    · exact ⟨h, .of_eq rfl⟩
  · rw [Assembly.roundStep, (h.before hassembled).2.1]
    exact ⟨h, .of_eq rfl⟩

theorem roundStep_pass (ok : Bool) : (a.roundStep ok).pass = a.pass := by
  unfold Assembly.roundStep
  split <;> (try split) <;> rfl

theorem HandedOver.nodeManagers_eq_nil (h : a.HandedOver) {snapshotDpMasterIp : Option String}
    (hnone : chooseMaster snapshotDpMasterIp a.md.ins.nodeManagers = none) :
    a.md.ins.nodeManagers = [] := by
  cases hmgrs : a.md.ins.nodeManagers with
  | nil => rfl
  | cons nm rest =>
    have haddress : nm.podIp ≠ "" := (h.grouped (nm, 0) (by rw [hmgrs]; exact List.mem_cons_self)).1
    rw [chooseMaster, hmgrs] at hnone
    cases hsnapshot : snapshotDpMasterIp.filter fun ip => decide (ip ≠ "") with
    | none =>
      rw [hsnapshot, Option.none_or, List.head?_cons, Option.map_some, Option.filter_some,
        if_pos (decide_eq_true haddress)] at hnone
      cases hnone
    | some ip =>
      obtain ⟨-, hip⟩ := Option.filter_eq_some_iff.mp hsnapshot
      rw [hsnapshot, Option.some_or, Option.filter_some, if_pos hip] at hnone
      cases hnone

theorem HandedOver.roundResult (h : a.HandedOver) {sent : List StartCmdMsg} {success : Bool}
    (hresult : a.roundResult = some (sent, success)) :
    ∃ masterDpIp, sent = a.md.ins.nodeManagers.zipIdx.map (a.md.commandFor masterDpIp) := by
  have hround := h.round
  unfold Assembly.roundResult at hresult
  split at hresult
  · split at hresult
    · next hnone =>
      cases hresult
      exact ⟨"", by rw [h.nodeManagers_eq_nil hnone]; rfl⟩
    · cases hresult
  · next masterDpIp nodeManagers sent' isSucceed hphase =>
    rw [hphase] at hround
    obtain ⟨-, done, hsplit, rfl⟩ := hround
    rw [List.append_nil] at hsplit
    cases hresult
    exact ⟨masterDpIp, by rw [hsplit]⟩
  · cases hresult

/-- **A round is over.** -/
theorem Fits.finishRound (h : a.Fits) {sent : List StartCmdMsg} {success : Bool} (maxRetryTimes : ℕ)
    (hresult : a.roundResult = some (sent, success)) :
    (a.finishRound sent success maxRetryTimes).Fits ∧
      a.Frozen (a.finishRound sent success maxRetryTimes) := by
  by_cases hassembled : a.md.registerStatus = .assembled
  · have hover := h.after hassembled
    have hrounds := List.forall_mem_append.mpr
      ⟨hover.rounds, List.forall_mem_singleton.mpr (hover.roundResult hresult)⟩
    unfold Assembly.finishRound
    split
    all_goals exact ⟨⟨h.isNew, h.addresses, h.covered, fun hopen => absurd hassembled hopen, fun _ =>
      ⟨hover.alone, hover.pass, hover.grouped, hover.counted, trivial, hrounds⟩⟩,
      fun _ => ⟨hassembled, rfl⟩⟩
  · rw [roundResult, (h.before hassembled).2.1] at hresult
    cases hresult

/-- A round goes to the pods that were counted, each with its rank and its endpoints, and the rank zero
to those that are not headless. -/
structure NamesPods (a : Assembly) (sent : List StartCmdMsg) : Prop where
  ranks : sent.map (fun cmd => (cmd.nodeMgr, cmd.nodeRank)) =
    a.counted.zipIdx.map fun p => (p.1, a.md.nodeRank p.2)
  pods : ∀ cmd ∈ sent, ∃ pod, a.md.ins.endpoints.get? cmd.nodeMgr.podIp = some pod ∧
    cmd.endpoints = pod.values ∧
    (1 < a.md.nnodes → (cmd.nodeRank = 0 ↔ ∀ ep ∈ pod.values, ep.headless = false))
  covers : ∀ podIp, a.md.ins.endpoints.contains podIp = true → ∃ cmd ∈ sent, cmd.nodeMgr.podIp = podIp

theorem HandedOver.namesPods (h : a.HandedOver) (hcovered : a.md.ins.Covered) {sent : List StartCmdMsg}
    (hsent : sent ∈ a.rounds) : a.NamesPods sent := by
  obtain ⟨masterDpIp, rfl⟩ := h.rounds sent hsent
  refine ⟨?_, fun cmd hcmd => ?_, fun podIp hpod => ?_⟩
  · rw [h.counted, List.map_map]
    rfl
  · obtain ⟨p, hp, rfl⟩ := List.mem_map.mp hcmd
    obtain ⟨-, pod, hpod, hne, hheadless⟩ := h.grouped p hp
    refine ⟨pod, hpod, by simp [AssembleInstanceMetadata.commandFor, hpod], fun hnodes => ?_⟩
    simp only [AssembleInstanceMetadata.commandFor, AssembleInstanceMetadata.nodeRank, hnodes, if_true]
    constructor
    · intro hmaster ep hep
      rw [hheadless ep hep]
      simp [hmaster]
    · intro hall
      obtain ⟨ep, eps, heps⟩ := List.exists_cons_of_ne_nil hne
      have hep : ep ∈ pod.values := heps ▸ List.mem_cons_self
      have := (hheadless ep hep).symm.trans (hall ep hep)
      simpa [hnodes] using this
  · obtain ⟨nm, hnm, rfl⟩ := Instance.hasNodeMgr_iff.mp (hcovered podIp hpod)
    obtain ⟨rank, hrank, hget⟩ := List.mem_iff_getElem.mp hnm
    exact ⟨_, List.mem_map_of_mem (List.mk_mem_zipIdx_iff_getElem?.mpr
      (List.getElem?_eq_some_iff.mpr ⟨hrank, hget⟩)), rfl⟩

end Assembly

/-! ## All entries -/

namespace AssemblerThreads

variable {s s' : AssemblerThreads} {id : InstanceId} {a a' : Assembly}

/-- No pod is being added to an instance whose pods were counted, none is added by two calls at once or
dropped meanwhile, and each has an address and an endpoint. -/
def Quiet (s : AssemblerThreads) : AssemblerOp → Prop
  | .proceed id n => (s.entries.get? id).all (·.quietCall n) = true
  | .assemble alive _ => (s.assembling.bind s.entries.get?).all (·.quietPass alive) = true
  | _ => True

instance (s : AssemblerThreads) (op : AssemblerOp) : Decidable (s.Quiet op) :=
  match op with
  | .proceed _ _ | .assemble _ _ => inferInstanceAs (Decidable (_ = true))
  | .register _ _ | .takeForAssembly _ | .takeForStart _ | .start _ _ | .observe _ =>
    inferInstanceAs (Decidable True)

structure EntryFits (s : AssemblerThreads) (id : InstanceId) (a : Assembly) : Prop where
  fits : a.Fits
  numbered : id < s.insIdCnt
  pass : s.assembling ≠ some id → a.pass = .idle
  managed : id ∈ s.managed → a.md.registerStatus = .assembled

structure Settled (s : AssemblerThreads) : Prop where
  entries : ∀ id a, s.entries.get? id = some a → s.EntryFits id a
  managed : ∀ id ∈ s.managed, ∃ a, s.entries.get? id = some a

/-- Nothing that was handed over is lost or changes. -/
structure Kept (s s' : AssemblerThreads) : Prop where
  managed : ∀ id ∈ s.managed, id ∈ s'.managed
  entries : ∀ id a, s.entries.get? id = some a → ∃ a', s'.entries.get? id = some a' ∧ a.Frozen a'

theorem Kept.refl (s : AssemblerThreads) : s.Kept s :=
  ⟨fun _ hid => hid, fun _ a ha => ⟨a, ha, fun hassembled => ⟨hassembled, rfl⟩⟩⟩

theorem Kept.trans {s'' : AssemblerThreads} (h : s.Kept s') (h' : s'.Kept s'') : s.Kept s'' := by
  refine ⟨fun id hid => h'.managed id (h.managed id hid), fun id a ha => ?_⟩
  obtain ⟨a', ha', hfrozen⟩ := h.entries id a ha
  obtain ⟨a'', ha'', hfrozen'⟩ := h'.entries id a' ha'
  refine ⟨a'', ha'', fun hassembled => ?_⟩
  obtain ⟨hassembled', hins⟩ := hfrozen hassembled
  obtain ⟨hassembled'', hins'⟩ := hfrozen' hassembled'
  exact ⟨hassembled'', hins'.trans hins⟩

/-- A step changes one entry. -/
theorem Settled.update (h : s.Settled) (hget : s.entries.get? id = some a) (hnext : a'.Fits ∧ a.Frozen a')
    (hentries : s'.entries = s.entries.insert id a') (hcount : s'.insIdCnt = s.insIdCnt)
    (hpass : s'.assembling ≠ some id → a'.pass = .idle)
    (hothers : ∀ id', id' ≠ id → s'.assembling ≠ some id' → s.assembling ≠ some id')
    (hmanaged : ∀ id' ∈ s'.managed, id' ∈ s.managed ∨ id' = id ∧ a'.md.registerStatus = .assembled)
    (hkept : ∀ id' ∈ s.managed, id' ∈ s'.managed) : s'.Settled ∧ s.Kept s' := by
  have hlook (k : InstanceId) : s'.entries.get? k = if id = k then some a' else s.entries.get? k := by
    rw [hentries, Dict.get?_insert]
  have hentry := h.entries id a hget
  refine ⟨⟨fun k b hb => ?_, fun k hk => ?_⟩, hkept, fun k b hb => ?_⟩
  · rw [hlook] at hb
    split at hb
    · next heq =>
      subst heq
      cases hb
      refine ⟨hnext.1, hcount ▸ hentry.numbered, hpass, fun hk => ?_⟩
      obtain hold | ⟨-, hassembled⟩ := hmanaged id hk
      · exact (hnext.2 (hentry.managed hold)).1
      · exact hassembled
    · next hne =>
      have hold := h.entries k b hb
      refine ⟨hold.fits, hcount ▸ hold.numbered, fun hk => hold.pass (hothers k (Ne.symm hne) hk),
        fun hk => ?_⟩
      obtain hk | ⟨rfl, -⟩ := hmanaged k hk
      · exact hold.managed hk
      · exact absurd rfl hne
  · rw [hlook]
    split
    · exact ⟨a', rfl⟩
    · next hne =>
      obtain hk | ⟨rfl, -⟩ := hmanaged k hk
      · exact h.managed k hk
      · exact absurd rfl hne
  · rw [hlook]
    split
    · next heq =>
      subst heq
      cases hget.symm.trans hb
      exact ⟨a', rfl, hnext.2⟩
    · exact ⟨b, hb, fun hassembled => ⟨hassembled, rfl⟩⟩

theorem of_take {busy : Option InstanceId} {jobName : String} (h : s.take busy jobName = some (id, a)) :
    busy = none ∧ s.entries.get? id = some a := by
  unfold take at h
  split at h
  · cases h
  · obtain ⟨id', -, h⟩ := Option.bind_eq_some_iff.mp h
    obtain ⟨a', hget, heq⟩ := Option.map_eq_some_iff.mp h
    cases heq
    exact ⟨rfl, hget⟩

/-- An entry that a register call opens has no pods yet. -/
theorem fits_opened (n : ℕ) (msg : RegisterMsg) (id : InstanceId) : (Assembly.opened n msg id).Fits := by
  have hnone (k : ℕ) : (Assembly.opened n msg id).joiner k = none := by
    rw [Assembly.joiner, Assembly.opened, Dict.get?_insert]
    split <;> rfl
  refine ⟨rfl, List.nodup_nil, fun podIp hpod => (by cases hpod), fun _ => ⟨Or.inl ⟨rfl, fun k c hc => ?_,
    fun k k' c c' hc => ?_, by simp [Assembly.opened, RegisterMsg.newMetadata], List.nil_sublist _,
    fun nm hl => (by cases hl)⟩, rfl, rfl⟩, fun hassembled => (by cases hassembled)⟩
  · cases (hnone k).symm.trans hc
  · cases (hnone k).symm.trans hc

theorem register_settled {n : ℕ} {msg : RegisterMsg} (h : s.Settled) (hexec : s.register n msg = some s') :
    s'.Settled ∧ s.Kept s' := by
  unfold register at hexec
  split at hexec
  · cases hexec
    exact ⟨h, .refl s⟩
  · split at hexec
    · cases hexec
      -- no entry has the id yet
      have hfresh (k : InstanceId) (a : Assembly) (ha : s.entries.get? k = some a) : s.insIdCnt ≠ k :=
        (h.entries k a ha).numbered.ne'
      refine ⟨⟨fun k a ha => ?_, fun k hk => ?_⟩, fun k hk => hk, fun k a ha => ?_⟩
      · rw [Dict.get?_insert] at ha
        split at ha
        · next heq =>
          subst heq
          cases ha
          refine ⟨fits_opened n msg _, Int.lt_succ _, fun _ => rfl, fun hk => ?_⟩
          obtain ⟨b, hb⟩ := h.managed _ hk
          exact absurd rfl (hfresh _ b hb)
        · obtain ⟨hfits, hnumbered, hpass, hmanaged⟩ := h.entries k a ha
          exact ⟨hfits, lt_trans hnumbered (Int.lt_succ _), hpass, hmanaged⟩
      · obtain ⟨b, hb⟩ := h.managed k hk
        exact ⟨b, (Dict.get?_insert_ne _ _ (hfresh k b hb)).trans hb⟩
      · exact ⟨a, (Dict.get?_insert_ne _ _ (hfresh k a ha)).trans ha,
          fun hassembled => ⟨hassembled, rfl⟩⟩
    · next id hid =>
      obtain ⟨a, hget, hexec⟩ := Option.bind_eq_some_iff.mp hexec
      split at hexec
      · cases hexec
        exact ⟨h, .refl s⟩
      · split at hexec
        · cases hexec
        · next hfree =>
          cases hexec
          have hentry := h.entries id a hget
          have hnone : a.joiner n = none := by
            rw [Assembly.joiner, Option.not_isSome_iff_eq_none.mp hfree, Option.filter_none]
          have hjoiner : (a.enter n msg .entered).joiner = a.joiner :=
            Assembly.joiner_enter.trans (hnone ▸ Function.update_eq_self n a.joiner)
          exact h.update hget ⟨hentry.fits.of_joiner hjoiner, .of_eq rfl⟩ rfl rfl hentry.pass
            (fun _ _ hk => hk) (fun _ hk => Or.inl hk) fun _ hk => hk

/-- **One step** of any thread. -/
theorem exec_settled {op : AssemblerOp} (h : s.Settled) (hquiet : s.Quiet op)
    (hexec : s.exec op = some s') : s'.Settled ∧ s.Kept s' := by
  cases op with
  | register n msg => exact register_settled h hexec
  | proceed id n =>
    obtain ⟨a, hget, hexec⟩ := Option.bind_eq_some_iff.mp hexec
    obtain ⟨a', hstep, rfl⟩ := Option.map_eq_some_iff.mp hexec
    have hentry := h.entries id a hget
    simp only [Quiet, hget, Option.all_some] at hquiet
    exact h.update hget (hentry.fits.proceed hquiet hstep) rfl rfl
      (fun hk => (Assembly.proceed_pass hstep).trans (hentry.pass hk)) (fun _ _ hk => hk)
      (fun _ hk => Or.inl hk) fun _ hk => hk
  | takeForAssembly jobName =>
    obtain ⟨⟨id, a⟩, htake, hexec⟩ := Option.bind_eq_some_iff.mp hexec
    obtain ⟨hidle, hget⟩ := of_take htake
    simp only at hexec
    split at hexec
    · cases hexec
    · next hopen =>
      cases hexec
      have hentry := h.entries id a hget
      have hpass := hentry.pass (by simp [hidle])
      have hwaits := hentry.fits.waits hopen (by rw [hpass]; rfl)
      -- the pass has not looked at a pod yet
      have hnext : ({ a with pass := .taken } : Assembly).Fits ∧ a.Frozen { a with pass := .taken } :=
        hentry.fits.next hopen rfl rfl hentry.fits.addresses hentry.fits.covered ⟨rfl, rfl⟩
          (Or.inl (hwaits.move rfl (by rw [hpass]; rfl) rfl (List.nil_sublist _)))
      exact h.update hget hnext rfl rfl (fun hk => absurd rfl hk) (fun _ _ _ => by simp [hidle])
        (fun _ hk => Or.inl hk) fun _ hk => hk
  | assemble alive timedOut =>
    obtain ⟨id, hid, hexec⟩ := Option.bind_eq_some_iff.mp hexec
    obtain ⟨a, hget, rfl⟩ := Option.map_eq_some_iff.mp hexec
    have hentry := h.entries id a hget
    simp only [Quiet, hid, Option.bind_some, hget, Option.all_some] at hquiet
    -- an entry has a pass as long as it is in hand; the manager gets it from a pass only
    refine h.update hget (hentry.fits.passStep hquiet _) rfl rfl (fun hk => ?_) (fun k hne _ => ?_)
      (fun k hk => ?_) fun k hk => ?_
    · simp only at hk
      split at hk
      · next hpass => exact hpass
      · exact absurd rfl hk
    · rw [hid]
      exact fun heq => hne (Option.some.inj heq).symm
    · simp only at hk
      split at hk
      · next hover =>
        obtain hk | hk := List.mem_append.mp hk
        · exact Or.inl hk
        · exact Or.inr ⟨List.mem_singleton.mp hk, Assembly.passStep_handsOver hover.1⟩
      · exact Or.inl hk
    · simp only
      split
      · exact List.mem_append_left _ hk
      · exact hk
  | takeForStart jobName =>
    obtain ⟨⟨id, a⟩, htake, hexec⟩ := Option.bind_eq_some_iff.mp hexec
    obtain ⟨-, hget⟩ := of_take htake
    simp only at hexec
    split at hexec
    · next hassembled =>
      cases hexec
      have hentry := h.entries id a hget
      have hnext : ({ a with round := .taken } : Assembly).Fits ∧ a.Frozen { a with round := .taken } :=
        hentry.fits.of_round hassembled trivial
      exact h.update hget hnext rfl rfl hentry.pass (fun _ _ hk => hk) (fun _ hk => Or.inl hk)
        fun _ hk => hk
    · cases hexec
  | start ok maxRetryTimes =>
    obtain ⟨id, hid, hexec⟩ := Option.bind_eq_some_iff.mp hexec
    obtain ⟨a, hget, hexec⟩ := Option.map_eq_some_iff.mp hexec
    have hentry := h.entries id a hget
    split at hexec
    · subst hexec
      exact h.update hget (hentry.fits.roundStep ok) rfl rfl
        (fun hk => (Assembly.roundStep_pass ok).trans (hentry.pass hk)) (fun _ _ hk => hk)
        (fun _ hk => Or.inl hk) fun _ hk => hk
    -- nobody is left to be asked
    · next sent success hresult =>
      subst hexec
      exact h.update hget (hentry.fits.finishRound maxRetryTimes hresult) rfl rfl hentry.pass
        (fun _ _ hk => hk) (fun _ hk => Or.inl hk) fun _ hk => hk
  | observe active =>
    cases hexec
    exact ⟨⟨fun id a ha => ⟨(h.entries id a ha).fits, (h.entries id a ha).numbered,
      (h.entries id a ha).pass, (h.entries id a ha).managed⟩, h.managed⟩, fun _ hk => hk,
      fun _ a ha => ⟨a, ha, fun hassembled => ⟨hassembled, rfl⟩⟩⟩

/-- **An instance that was handed over is frozen**, and the start commands of every round go to its
pods, as they were counted, with their ranks. -/
theorem handedOver_frozen {ops ops' : List AssemblerOp} (hrun : Run exec Quiet new ops s)
    (hrun' : Run exec Quiet s ops' s') (hid : id ∈ s.managed) :
    ∃ a a', s.entries.get? id = some a ∧ s'.entries.get? id = some a' ∧ id ∈ s'.managed ∧
      a'.md.ins.nodeManagers = a.md.ins.nodeManagers ∧ a'.md.ins.endpoints = a.md.ins.endpoints ∧
      a'.counted = a.md.ins.nodeManagers ∧ ∀ sent ∈ a'.rounds, a'.NamesPods sent := by
  have h : s.Settled := hrun.invariant_state ⟨fun _ _ ha => (by cases ha), fun _ hk => (by cases hk)⟩
    fun h hquiet hexec => (exec_settled h hquiet hexec).1
  obtain ⟨h', hkept⟩ := hrun'.invariant_state (I := fun s' => s'.Settled ∧ s.Kept s') ⟨h, .refl s⟩
    fun hinv hquiet hexec =>
      ⟨(exec_settled hinv.1 hquiet hexec).1, hinv.2.trans (exec_settled hinv.1 hquiet hexec).2⟩
  obtain ⟨a, ha⟩ := h.managed id hid
  obtain ⟨a', ha', hfrozen⟩ := hkept.entries id a ha
  obtain ⟨hassembled, hins⟩ := hfrozen ((h.entries id a ha).managed hid)
  have hfits := (h'.entries id a' ha').fits
  have hover := hfits.after hassembled
  exact ⟨a, a', ha, ha', hkept.managed id hid, by rw [hins], by rw [hins], by rw [hover.counted, hins],
    fun sent hsent => hover.namesPods hfits.covered hsent⟩

/-! ## Two pods, and two more -/

/-- A pod of a job whose two pods work together. -/
def workerRegisters (podIp : String) : RegisterMsg where
  jobName := "job-a"
  modelName := "qwen"
  engineType := some "vllm"
  dispatchCapabilities := []
  role := "union"
  podIp := podIp
  businessPort := ["1025"]
  mgmtPort := ["1026"]
  bootstrapPort := none
  nmPort := "1027"
  parallelConfig := ⟨1, 1, 2, 1, 1, 2, 1⟩
  enableMultiEndpoints := false
  deviceNum := 1
  ranktable := none
  nnodes := 2
  isMaster := false

/-- Two calls at the same time. -/
def podsRegister (n n' : ℕ) (podIp podIp' : String) : List AssemblerOp :=
  [.register n (workerRegisters podIp), .register n' (workerRegisters podIp')] ++
    (List.replicate 5 [.proceed 1 n, .proceed 1 n']).flatten

/-- Two pods register, and a pass hands the instance over. -/
def handsOver : List AssemblerOp :=
  podsRegister 1 2 "10.0.0.1" "10.0.0.2" ++
    .takeForAssembly "job-a" :: List.replicate 10 (.assemble true false)

/-- A round in which the pods answer so. -/
def sendsRound (answers : List Bool) : List AssemblerOp :=
  .takeForStart "job-a" :: ([true, true] ++ answers ++ [true]).map (.start · 3)

/-- The round that fails and the one that does not go to the same two pods. -/
theorem handsOver_commands : ∃ s s', Run exec Quiet new handsOver s ∧
    Run exec Quiet s (sendsRound [true, false] ++ sendsRound [true, true]) s' ∧ 1 ∈ s.managed ∧
    ∃ a', s'.entries.get? 1 = some a' ∧ a'.counted.map (·.podIp) = ["10.0.0.1", "10.0.0.2"] ∧
      a'.rounds.length = 2 ∧ ∀ sent ∈ a'.rounds, a'.NamesPods sent := by
  have h : (runList exec Quiet new handsOver).map (·.managed) = some [1] := by decide
  have h' : (runList exec Quiet new
      (handsOver ++ (sendsRound [true, false] ++ sendsRound [true, true]))).map (fun s =>
        (s.entries.get? 1).map fun a => (a.counted.map (·.podIp), a.rounds.length)) =
      some (some (["10.0.0.1", "10.0.0.2"], 2)) := by decide
  obtain ⟨s, s', hrun, hrun', hmanaged, hlook⟩ := runList_runs h h'
  have hid : 1 ∈ s.managed := by simp [hmanaged]
  obtain ⟨a, a', -, ha', -, -, -, -, hnames⟩ := handedOver_frozen hrun hrun' hid
  rw [ha', Option.map_some, Option.some.injEq, Prod.mk.injEq] at hlook
  exact ⟨s, s', hrun, hrun', hid, a', ha', hlook.1, hlook.2, hnames⟩

/-- Two more pods register before the commands are sent. -/
def latePods : List AssemblerOp :=
  podsRegister 3 4 "10.0.0.3" "10.0.0.4" ++ sendsRound (List.replicate 4 true)

/-- The manager's instance grows by the late pods, and one that is sent another rank than zero is not
headless. -/
theorem latePods_join : ∃ s s', Run exec Free new handsOver s ∧ Run exec Free s latePods s' ∧
    1 ∈ s.managed ∧ (s.entries.get? 1).map (fun a => a.md.ins.nodeManagers.map (·.podIp)) =
      some ["10.0.0.1", "10.0.0.2"] ∧
    ∃ a', s'.entries.get? 1 = some a' ∧ 1 < a'.md.nnodes ∧
      a'.md.ins.nodeManagers.map (·.podIp) = ["10.0.0.1", "10.0.0.2", "10.0.0.3", "10.0.0.4"] ∧
      ∃ sent ∈ a'.rounds, ∃ cmd ∈ sent, cmd.nodeRank ≠ 0 ∧ ∀ ep ∈ cmd.endpoints, ep.headless = false := by
  have h : (runList exec Free new handsOver).map (fun s => (s.managed,
      (s.entries.get? 1).map fun a => a.md.ins.nodeManagers.map (·.podIp))) =
      some ([1], some ["10.0.0.1", "10.0.0.2"]) := by decide
  have h' : (runList exec Free new (handsOver ++ latePods)).map (fun s => (s.entries.get? 1).map fun a =>
      (a.md.nnodes, a.md.ins.nodeManagers.map (·.podIp), a.rounds.any fun sent => sent.any fun cmd =>
        decide (cmd.nodeRank ≠ 0) && cmd.endpoints.all fun ep => !ep.headless)) =
      some (some (2, ["10.0.0.1", "10.0.0.2", "10.0.0.3", "10.0.0.4"], true)) := by decide
  obtain ⟨s, s', hrun, hrun', hbefore, hafter⟩ := runList_runs h h'
  obtain ⟨hmanaged, hmgrs⟩ := Prod.mk.inj hbefore
  obtain ⟨a', ha', hlook⟩ := Option.map_eq_some_iff.mp hafter
  simp only [Prod.mk.injEq, List.any_eq_true, Bool.and_eq_true, decide_eq_true_eq, List.all_eq_true,
    Bool.not_eq_true'] at hlook
  obtain ⟨hnodes, hgrown, sent, hsent, cmd, hcmd, hrank, hheadless⟩ := hlook
  exact ⟨s, s', hrun, hrun', by simp [hmanaged], hmgrs, a', ha', by rw [hnodes]; decide, hgrown, sent, hsent,
    cmd, hcmd, hrank, hheadless⟩

end AssemblerThreads

end PyMotor.Controller
