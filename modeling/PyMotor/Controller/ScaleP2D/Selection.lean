import Mathlib.Data.List.Count
import Mathlib.Algebra.Order.BigOperators.Group.List
import Mathlib.Algebra.Order.Ring.Nat
import Mathlib.Data.List.Pairwise
import PyMotor.Controller.InstanceManager.Changes
import PyMotor.Controller.ScaleP2D

/-!
# What the recoveries select

A selection takes the first instances of a sorted list, as many as the node count of one instance makes
necessary, and there is always one more in the list. That one is left over (`last_not_selected`), and the
others have enough nodes as long as none has fewer than the one that was asked (`le_nodes_take`).

`SparesSelected` says that a selection takes no instance that has too few nodes or that a running recovery
has selected, and that the last one in the order was never selected. Under it every selection frees enough
nodes, takes nothing from another recovery and leaves an instance alone (`selection_spares_prefill`).

For the ids to tell instances apart, every instance must be filed under its own id. The managers keep
that, whatever the fault manager does with the instance manager (`KeptByManager`).
-/

namespace PyMotor.Controller

open Coordinator (InstanceId EndpointId)

/-! ## The instance manager under the fault manager -/

namespace FaultDomain

/-- What no operation of the instance manager destroys. -/
structure KeptByManager (P : InstanceManager → Prop) : Prop where
  addInstance : ∀ {m} ins, P m → P (m.addInstance ins).1
  handleHeartbeat : ∀ {m} id ip status, P m → P (m.handleHeartbeat id ip status).2.1
  handleHeartbeatTimeout : ∀ {m} id abnormal, P m → P (m.handleHeartbeatTimeout id abnormal).1
  separateInstance : ∀ {m} id, P m → P (m.separateInstance id).1
  recoverInstance : ∀ {m} id, P m → P (m.recoverInstance id)

variable {P : InstanceManager → Prop} {s s' : FaultDomain}

theorem KeptByManager.applyTarget (hP : KeptByManager P) (h : P s.manager) (id : InstanceId)
    (md : InstanceMetadata) : P (s.applyTarget id md).2.manager := by
  unfold FaultDomain.applyTarget
  split
  · split
    · exact h
    · exact hP.recoverInstance id h
  · simp only
    split
    · exact hP.separateInstance id h
    · split
      · exact hP.recoverInstance id h
      · exact h

theorem KeptByManager.refreshOnce (hP : KeptByManager P) (h : P s.manager) (id : InstanceId) :
    P (s.refreshOnce id).2.manager := by
  unfold FaultDomain.refreshOnce
  split
  · exact h
  · exact hP.applyTarget (s := s.reevaluateNodes id) h id _

theorem KeptByManager.refresh (hP : KeptByManager P) (h : P s.manager) (id : InstanceId) :
    P (s.refreshInstanceFaultLevel id).manager := by
  unfold refreshInstanceFaultLevel
  have honce := hP.refreshOnce h id
  split
  · next s₁ heq =>
    rw [heq] at honce
    exact hP.refreshOnce honce id
  · next s₁ heq =>
    rw [heq] at honce
    exact honce

theorem KeptByManager.refreshAll (hP : KeptByManager P) (ids : List InstanceId) :
    ∀ {s : FaultDomain}, P s.manager → P (s.refreshAll ids).manager := by
  induction ids with
  | nil => exact fun h => h
  | cons id ids ih => exact fun h => ih (hP.refresh h id)

theorem KeptByManager.update (hP : KeptByManager P) (σ : HashOrder InstanceId)
    (nodeOf : String → Option String) (n : Notification) (h : P s.manager) :
    P (s.update σ nodeOf n).manager := by
  unfold FaultDomain.update
  split
  · split <;> exact h
  · exact hP.refresh h _
  · exact h
  · exact h

theorem KeptByManager.notify (hP : KeptByManager P) (σ : HashOrder InstanceId)
    (nodeOf : String → Option String) (step : InstanceManager × List Notification) (h : P step.1) :
    P (s.notify σ nodeOf step).manager := by
  obtain ⟨m, ns⟩ := step
  unfold FaultDomain.notify
  suffices ∀ t : FaultDomain, P t.manager →
      P (ns.foldl (fun s n => s.update σ nodeOf n) t).manager from this ⟨s.faults, m⟩ h
  clear h
  induction ns with
  | nil => exact fun _ ht => ht
  | cons n ns ih => exact fun t ht => ih (t.update σ nodeOf n) (hP.update σ nodeOf n ht)

/-- The fault manager acts on the instance manager through its operations alone. -/
theorem KeptByManager.exec (hP : KeptByManager P) {op : FaultOp} (h : P s.manager)
    (he : s.exec op = some s') : P s'.manager := by
  cases op <;> cases he
  case addInstance σ ins nodeOf => exact hP.notify σ nodeOf _ (hP.addInstance ins h)
  case heartbeat id ip status => exact hP.notify _ _ _ (hP.handleHeartbeat id ip status h)
  case heartbeatTimeout id abnormal => exact hP.notify _ _ _ (hP.handleHeartbeatTimeout id abnormal h)
  case faultInfoUpdate σ nodeName infos =>
    unfold FaultDomain.handleFaultInfoUpdate
    split
    · exact h
    · exact hP.refreshAll _ h
  case nodeStatusUpdate σ nodeName status =>
    unfold FaultDomain.handleNodeStatusUpdate
    split
    · exact h
    · exact hP.refreshAll _ h
  case reportSoftwareFault f podIp =>
    unfold FaultDomain.reportSoftwareFault
    split
    · exact h
    · split
      · exact h
      · exact hP.refreshAll _ h
  case processStrategy id newStrategy finished =>
    unfold FaultDomain.processInstanceStrategy
    split
    · exact h
    · simp only
      split
      · apply hP.refresh
        exact h
      · exact h

end FaultDomain

namespace InstanceManager

/-- Every instance is filed under its id. -/
def Keyed (m : InstanceManager) : Prop := ∀ id i, m.instances.get? id = some i → i.id = id

theorem keyed_kept : FaultDomain.KeptByManager Keyed where
  addInstance ins h := keyed_addInstance ins h
  handleHeartbeat id ip status h := (changes_handleHeartbeat id ip status (h id)).keyed h
  handleHeartbeatTimeout id abnormal h := (changes_handleHeartbeatTimeout id abnormal (h id)).keyed h
  separateInstance id h := (changes_separateInstance _ id).keyed h
  recoverInstance id h := by
    unfold Keyed
    rw [recoverInstance_instances]
    exact h

theorem Keyed.nodup_ids {m : InstanceManager} (h : m.Keyed) : (m.instances.values.map (·.id)).Nodup := by
  have hkeys : m.instances.values.map (·.id) = m.instances.keys := by
    unfold Dict.values Dict.keys
    rw [List.map_map]
    apply List.map_congr_left
    intro p hp
    exact h p.1 p.2 (Dict.mem_entries_iff.mp hp)
  rw [hkeys]
  exact m.instances.nodup

end InstanceManager

/-! ## The selection -/

namespace RecoveryContext

theorem required_spec {n r : ℕ} (hn : 0 < n) :
    r ≤ n * (if r % n ≠ 0 then r / n + 1 else r / n) ∧
      ∀ m, r ≤ n * m → (if r % n ≠ 0 then r / n + 1 else r / n) ≤ m := by
  have hdiv := Nat.div_add_mod r n
  have hmod := Nat.mod_lt r hn
  split
  · next hrest =>
    rw [Nat.mul_add, Nat.mul_one]
    refine ⟨by omega, fun m hm => ?_⟩
    -- one instance less leaves the rest of the division open
    by_contra hlt
    have : n * m ≤ n * (r / n) := Nat.mul_le_mul_left n (by omega)
    omega
  · next hrest =>
    refine ⟨by omega, fun m hm => ?_⟩
    exact Nat.div_le_of_le_mul hm

/-- The instances that a recovery chooses from. -/
def candidates (s : FaultDomain) : List Instance :=
  (s.manager.getInstancesByRole "prefill").filter Instance.isOperational

/-- As many nodes as the first one in the table has, for each candidate before it, are not enough. -/
def Takes (c : RecoveryContext) (s : FaultDomain) (first i : Instance) : Prop :=
  first.nodeManagers.length * (candidates s).countP (fun j => selectionKey j < selectionKey i) <
    c.numRequiredNode

instance (c : RecoveryContext) (s : FaultDomain) (first i : Instance) : Decidable (c.Takes s first i) :=
  inferInstanceAs (Decidable (_ < _))

theorem mem_candidates {s : FaultDomain} (hkeyed : s.manager.Keyed) {i : Instance}
    (hi : i ∈ candidates s) :
    s.manager.instances.get? i.id = some i ∧ i.role = "prefill" ∧
      (i.status = .initial ∨ i.status = .active) := by
  obtain ⟨hrole, hoperational⟩ := List.mem_filter.mp hi
  obtain ⟨hmem, hrole⟩ := List.mem_filter.mp hrole
  obtain ⟨id, hget⟩ := Dict.mem_values_iff.mp hmem
  exact ⟨hkeyed id i hget ▸ hget, of_decide_eq_true hrole, of_decide_eq_true hoperational⟩

/-- The candidates in the order in which they are taken. -/
def ranked (s : FaultDomain) : List Instance :=
  (candidates s).insertionSort fun a b => selectionKey a ≤ selectionKey b

theorem perm_ranked (s : FaultDomain) : (ranked s).Perm (candidates s) := List.perm_insertionSort _ _

theorem pairwise_ranked (s : FaultDomain) :
    (ranked s).Pairwise fun a b => selectionKey a ≤ selectionKey b := by
  have : IsTrans Instance fun a b => selectionKey a ≤ selectionKey b := ⟨fun _ _ _ => le_trans⟩
  have : Std.Total fun a b : Instance => selectionKey a ≤ selectionKey b :=
    ⟨fun a b => le_total (selectionKey a) (selectionKey b)⟩
  exact List.pairwise_insertionSort _ _

theorem selectPInstancesToKill_spec {c c' : RecoveryContext} {s : FaultDomain}
    (h : c.selectPInstancesToKill s = (true, c')) :
    c'.numRequiredNode = c.numRequiredNode ∧
      ∃ first k, (candidates s).head? = some first ∧ k < (candidates s).length ∧
        c.numRequiredNode ≤ first.nodeManagers.length * k ∧
        (∀ m, c.numRequiredNode ≤ first.nodeManagers.length * m → k ≤ m) ∧
        c'.selectedPInstances = (ranked s).take k := by
  unfold selectPInstancesToKill at h
  split at h
  · cases h
  · next first others hcandidates =>
    have hcandidates : candidates s = first :: others := hcandidates
    simp only at h
    split at h
    · cases h
    · next henough =>
      rw [Nat.not_lt] at henough
      split at h
      · cases h
      · cases h
      · next selected _ hselected =>
        cases h
        unfold selectInstancesAlgorithm at hselected
        simp only at hselected
        split at hselected
        · cases hselected
        · next hzero =>
          obtain ⟨hcover, hleast⟩ := required_spec (r := c.numRequiredNode)
            (Nat.pos_of_ne_zero hzero)
          refine ⟨rfl, first, _, by rw [hcandidates]; rfl, ?_, hcover, hleast, ?_⟩
          · rw [hcandidates, List.length_cons]
            exact Nat.lt_succ_of_le (hleast _ henough)
          · rw [← Option.some.inj hselected, ranked, hcandidates]

theorem takes_of_mem_take {c : RecoveryContext} {s : FaultDomain} {first i : Instance} {k : ℕ}
    (hleast : ∀ m, c.numRequiredNode ≤ first.nodeManagers.length * m → k ≤ m)
    (hi : i ∈ (ranked s).take k) : c.Takes s first i := by
  have hpairwise := pairwise_ranked s
  rw [← List.take_append_drop k (ranked s)] at hpairwise
  have hdrop : ((ranked s).drop k).countP (fun j => selectionKey j < selectionKey i) = 0 :=
    List.countP_eq_zero.mpr fun j hj hlt =>
      absurd (of_decide_eq_true hlt) ((List.pairwise_append.mp hpairwise).2.2 i hi j hj).not_gt
  have htake : ((ranked s).take k).countP (fun j => selectionKey j < selectionKey i) <
      ((ranked s).take k).length := List.countP_lt_length_iff.mpr ⟨i, hi, by simp⟩
  have hbefore : (candidates s).countP (fun j => selectionKey j < selectionKey i) < k := by
    rw [← (perm_ranked s).countP_eq, ← List.take_append_drop k (ranked s), List.countP_append, hdrop]
    exact htake.trans_le (List.length_take_le ..)
  by_contra hnot
  exact absurd (hleast _ (Nat.le_of_not_lt hnot)) (Nat.not_le_of_lt hbefore)

/-- None of those selected has fewer nodes than was reckoned with, so they have enough. -/
theorem le_nodes_take {s : FaultDomain} {n k : ℕ} (hk : k ≤ (candidates s).length)
    (hnodes : ∀ i ∈ (ranked s).take k, n ≤ i.nodeManagers.length) :
    n * k ≤ (((ranked s).take k).map (·.nodeManagers.length)).sum := by
  have hlength : (((ranked s).take k).map (·.nodeManagers.length)).length = k := by
    rw [List.length_map, List.length_take, (perm_ranked s).length_eq, Nat.min_eq_left hk]
  have hle := List.card_nsmul_le_sum (((ranked s).take k).map (·.nodeManagers.length)) n (by
    intro m hm
    obtain ⟨i, hi, rfl⟩ := List.mem_map.mp hm
    exact hnodes i hi)
  rw [hlength, nsmul_eq_mul, Nat.cast_id, Nat.mul_comm] at hle
  exact hle

theorem last_not_selected {s : FaultDomain} {k : ℕ} (hkeyed : s.manager.Keyed)
    (hk : k < (candidates s).length) :
    ∃ last ∈ candidates s, (∀ i ∈ candidates s, selectionKey i ≤ selectionKey last) ∧
      last.id ∉ ((ranked s).take k).map (·.id) := by
  have hlength : k < (ranked s).length := by rwa [(perm_ranked s).length_eq]
  have hne : ranked s ≠ [] := List.ne_nil_of_length_pos (Nat.zero_lt_of_lt hlength)
  have hdrop : (ranked s).getLast hne ∈ (ranked s).drop k := by
    rw [← List.getLast_drop (by simpa using hlength)]
    exact List.getLast_mem _
  refine ⟨(ranked s).getLast hne, (perm_ranked s).mem_iff.mp (List.getLast_mem hne), ?_, ?_⟩
  · intro i hi
    have : Std.Refl fun a b : Instance => selectionKey a ≤ selectionKey b := ⟨fun _ => le_rfl⟩
    exact (pairwise_ranked s).rel_getLast ((perm_ranked s).mem_iff.mpr hi)
  · -- the ids of those taken and those left have nothing in common
    have hids : ((ranked s).map (·.id)).Nodup := by
      rw [((perm_ranked s).map _).nodup_iff]
      exact hkeyed.nodup_ids.sublist ((List.filter_sublist.trans List.filter_sublist).map _)
    rw [← List.take_append_drop k (ranked s), List.map_append] at hids
    intro htaken
    exact List.disjoint_of_nodup_append hids htaken (List.mem_map_of_mem hdrop)

end RecoveryContext

/-! ## Every run -/

namespace Recovery

def isInProgress (rec : Recovery) : Bool := decide (rec.phase ≠ .finished)

def selectedIds (rec : Recovery) : List InstanceId :=
  match rec.context with
  | none => []
  | some c => c.selectedPInstances.map (·.id)

end Recovery

namespace ScaleP2D

open RecoveryContext (candidates ranked selectionKey)

variable {timeout : Int} {s s' : ScaleP2D} {r : ℕ} {faults : FaultManager} {instances : List Instance}
  {forced : OrdSet InstanceId} {ops : List ScaleP2DOp}

/-- What is taken has no fewer nodes than the first one in the table, and no recovery in progress has it. -/
def TakesFree (s : ScaleP2D) (c : RecoveryContext) : Prop :=
  ∀ first ∈ (candidates s.domain).head?, ∀ i ∈ candidates s.domain, c.Takes s.domain first i →
    first.nodeManagers.length ≤ i.nodeManagers.length ∧
    ∀ rec ∈ s.recoveries.values, rec.isInProgress = true → i.id ∉ rec.selectedIds

instance (s : ScaleP2D) (c : RecoveryContext) : Decidable (s.TakesFree c) :=
  inferInstanceAs (Decidable (∀ first ∈ (candidates s.domain).head?, ∀ i ∈ candidates s.domain,
    c.Takes s.domain first i → first.nodeManagers.length ≤ i.nodeManagers.length ∧
      ∀ rec ∈ s.recoveries.values, rec.isInProgress = true → i.id ∉ rec.selectedIds))

/-- A selection that takes what is free, and finds that the last one in the order was never selected. -/
def SparesSelected (s : ScaleP2D) : ScaleP2DOp → Prop
  | .selectPInstances r =>
    (∀ rec ∈ s.recoveries.get? r, ∀ c ∈ rec.context, s.TakesFree c) ∧
    ∀ last ∈ candidates s.domain,
      (∀ i ∈ candidates s.domain, selectionKey i ≤ selectionKey last) →
        ∀ rec ∈ s.recoveries.values, last.id ∉ rec.selectedIds
  | _ => True

instance (s : ScaleP2D) : (op : ScaleP2DOp) → Decidable (s.SparesSelected op)
  | .selectPInstances r =>
    inferInstanceAs (Decidable
      ((∀ rec ∈ s.recoveries.get? r, ∀ c ∈ rec.context, s.TakesFree c) ∧
      ∀ last ∈ candidates s.domain,
        (∀ i ∈ candidates s.domain, selectionKey i ≤ selectionKey last) →
          ∀ rec ∈ s.recoveries.values, last.id ∉ rec.selectedIds))
  | .domain _ => isTrue trivial
  | .submit _ _ => isTrue trivial
  | .stop _ => isTrue trivial
  | .execute _ => isTrue trivial
  | .getDInstance _ => isTrue trivial
  | .checkDInstanceStatus _ _ => isTrue trivial
  | .refreshFaultyNodeCount _ => isTrue trivial
  | .killAndRelease _ _ => isTrue trivial

theorem keyed_start : (start faults instances forced).domain.manager.Keyed := by
  intro id i hi
  rcases Dict.of_get?_foldl_insert instances ∅ hi with hi | ⟨j, _, hid, rfl⟩
  · cases hi
  · exact hid

theorem exec_domain {op : ScaleP2DOp} (he : exec timeout s op = some s') :
    s'.domain = s.domain ∨ ∃ o, s.domain.exec o = some s'.domain := by
  unfold exec at he
  split at he
  · cases he
  · next o _ =>
    obtain ⟨domain, hdomain, rfl⟩ := Option.map_eq_some_iff.mp he
    exact Or.inr ⟨o, hdomain⟩
  · next id r =>
    split at he
    · split at he
      · cases he
        exact Or.inr ⟨.processStrategy id (some .scaleP2D) false, rfl⟩
      · cases he
    · cases he
  · obtain ⟨rec, _, rfl⟩ := Option.map_eq_some_iff.mp he
    exact Or.inl rfl
  all_goals
    split at he
    · cases he
      exact Or.inl rfl
    · cases he

theorem exec_keyed {op : ScaleP2DOp} (h : s.domain.manager.Keyed) (he : exec timeout s op = some s') :
    s'.domain.manager.Keyed := by
  rcases exec_domain he with hsame | ⟨o, ho⟩
  · rw [hsame]
    exact h
  · exact InstanceManager.keyed_kept.exec h ho

theorem selectPInstances_spec {pending : List (InstanceId × Coordinator.NodeManagerInfo)}
    {rec : Recovery} {c : RecoveryContext} (he : exec timeout s (.selectPInstances r) = some s')
    (hrec : s'.recoveries.get? r = some rec) (hc : rec.context = some c)
    (hphase : rec.phase = .killing pending) :
    s'.domain = s.domain ∧ s'.recoveries = s.recoveries.insert r rec ∧
      ∃ rec₀ c₀ first k, s.recoveries.get? r = some rec₀ ∧ rec₀.context = some c₀ ∧
        (candidates s.domain).head? = some first ∧ k < (candidates s.domain).length ∧
        c.numRequiredNode ≤ first.nodeManagers.length * k ∧
        c.selectedPInstances = (ranked s.domain).take k ∧
        ∀ i ∈ (ranked s.domain).take k, c₀.Takes s.domain first i := by
  simp only [exec] at he
  split at he
  · next id event c₀ hbefore =>
    cases he
    unfold setRecovery at hrec
    rw [Dict.get?_insert_self] at hrec
    cases hrec
    refine ⟨rfl, rfl, ?_⟩
    unfold Recovery.selectPInstancesToKill Recovery.proceed at hc hphase
    simp only at hc hphase
    split at hc
    · next hstep =>
      have hselect : c₀.selectPInstancesToKill s.domain =
          (true, (c₀.selectPInstancesToKill s.domain).2) := Prod.ext hstep rfl
      obtain ⟨hrequired, first, k, hfirst, hk, hcover, hleast, hselected⟩ :=
        RecoveryContext.selectPInstancesToKill_spec hselect
      cases hc
      exact ⟨_, c₀, first, k, hbefore, rfl, hfirst, hk, hrequired ▸ hcover, hselected,
        fun _ hi => RecoveryContext.takes_of_mem_take hleast hi⟩
    · next hstep =>
      rw [if_neg hstep] at hphase
      cases hphase
  · cases he

/-- **A selection frees enough nodes and spares the others**: in every run whose selections find what they
take alike and left alone, whatever a recovery selects is an operational prefill instance, belongs to no
other recovery in progress and has the nodes that are required, and one is left that no recovery has ever
selected. -/
theorem selection_spares_prefill {pending : List (InstanceId × Coordinator.NodeManagerInfo)}
    {rec : Recovery} {c : RecoveryContext}
    (h : Run (exec timeout) SparesSelected (start faults instances forced)
      (ops ++ [.selectPInstances r]) s)
    (hrec : s.recoveries.get? r = some rec) (hc : rec.context = some c)
    (hphase : rec.phase = .killing pending) :
    c.numRequiredNode ≤ (c.selectedPInstances.map (·.nodeManagers.length)).sum ∧
    (∀ p ∈ c.selectedPInstances, s.domain.manager.instances.get? p.id = some p ∧ p.role = "prefill" ∧
      (p.status = .initial ∨ p.status = .active) ∧
      ∀ r' rec', r' ≠ r → s.recoveries.get? r' = some rec' → rec'.isInProgress = true →
        p.id ∉ rec'.selectedIds) ∧
    ∃ i, s.domain.manager.instances.get? i.id = some i ∧ i.role = "prefill" ∧
      (i.status = .initial ∨ i.status = .active) ∧
      ∀ r' rec', s.recoveries.get? r' = some rec' → i.id ∉ rec'.selectedIds := by
  obtain ⟨s₁, hrun, hguard, he⟩ := h.of_snoc
  have hkeyed := hrun.invariant_state keyed_start fun hi _ he => exec_keyed hi he
  obtain ⟨halone, hlast⟩ := hguard
  obtain ⟨hdomain, hrecoveries, rec₀, c₀, first, k, hrec₀, hc₀, hfirst, hk, hcover, hselected, htakes⟩ :=
    selectPInstances_spec he hrec hc hphase
  have hothers : ∀ r' rec', r' ≠ r → s.recoveries.get? r' = some rec' → rec' ∈ s₁.recoveries.values := by
    intro r' rec' hne hget
    rw [hrecoveries, Dict.get?_insert_ne _ _ (Ne.symm hne)] at hget
    exact Dict.mem_values_iff.mpr ⟨r', hget⟩
  have htaken : ∀ p ∈ (ranked s₁.domain).take k, p ∈ candidates s₁.domain := fun p hp =>
    (RecoveryContext.perm_ranked s₁.domain).mem_iff.mp (List.mem_of_mem_take hp)
  have hfound : ∀ p ∈ (ranked s₁.domain).take k, first.nodeManagers.length ≤ p.nodeManagers.length ∧
      ∀ rec ∈ s₁.recoveries.values, rec.isInProgress = true → p.id ∉ rec.selectedIds :=
    fun p hp => halone rec₀ hrec₀ c₀ hc₀ first hfirst p (htaken p hp) (htakes p hp)
  rw [hdomain, hselected]
  refine ⟨?_, ?_, ?_⟩
  · -- none of those taken has fewer nodes than the first one, whose nodes were counted
    exact hcover.trans (RecoveryContext.le_nodes_take hk.le fun p hp => (hfound p hp).1)
  · intro p hp
    obtain ⟨hfiled, hrole, hstatus⟩ := RecoveryContext.mem_candidates hkeyed (htaken p hp)
    exact ⟨hfiled, hrole, hstatus,
      fun r' rec' hne hget => (hfound p hp).2 rec' (hothers r' rec' hne hget)⟩
  · obtain ⟨last, hmem, hgreatest, hleft⟩ := RecoveryContext.last_not_selected hkeyed hk
    obtain ⟨hfiled, hrole, hstatus⟩ := RecoveryContext.mem_candidates hkeyed hmem
    refine ⟨last, hfiled, hrole, hstatus, fun r' rec' hget => ?_⟩
    by_cases hr : r' = r
    · subst hr
      rw [hrec] at hget
      cases hget
      rw [← hselected] at hleft
      rw [Recovery.selectedIds, hc]
      exact hleft
    · exact hlast last hmem hgreatest rec' (hothers r' rec' hr hget)

/-! ## Two decode instances fail -/

/-- An instance with a pod at each address. -/
def instanceOn (id : InstanceId) (role jobName : String) (podIps : List String) : Instance where
  jobName := jobName
  modelName := "qwen"
  engineType := some "vllm"
  dispatchCapabilities := []
  id := id
  role := role
  status := .initial
  parallelConfig := none
  enableMultiEndpoints := true
  nodeManagers := podIps.map fun ip => ⟨ip, "1027", 8⟩
  endpoints := podIps.foldl (fun pods ip => pods.insert ip
    ((∅ : Dict EndpointId Endpoint).insert 0
      { id := 0, ip := ip, businessPort := "1025", mgmtPort := "1026", bootstrapPort := none,
        deviceInfos := [], workload := .zero, status := .initial, headless := false })) ∅
  gatheredWorkload := .zero

/-- It is added and becomes active. -/
def joins (id : InstanceId) (role jobName : String) (podIps : List String) : List ScaleP2DOp :=
  .domain (.addInstance .insertion (instanceOn id role jobName podIps) some) ::
    podIps.map fun ip =>
      .domain (.heartbeat id ip ((∅ : Dict EndpointId EndpointStatus).insert 0 .normal))

def chipFails (node : String) : ScaleP2DOp :=
  .domain (.faultInfoUpdate .insertion node
    [{ faultCategory := .hardware, faultLevel := .l4, faultCode := 0x80C98000,
       faultType := some .cardUnhealthy, npuName := "Ascend910-0",
       originFaultLevel := some .freeRestartNpu }])

/-- A recovery up to its selection. -/
def recovers (id : InstanceId) (r : ℕ) : List ScaleP2DOp :=
  [.submit id r, .execute r, .getDInstance r, .checkDInstanceStatus r true, .refreshFaultyNodeCount r]

def oneDecodeFails : List ScaleP2DOp :=
  joins 1 "prefill" "p-1" ["10.0.0.1"] ++ joins 2 "prefill" "p-2" ["10.0.0.2"] ++
    joins 3 "decode" "d-1" ["10.0.0.3"] ++ [chipFails "10.0.0.3"] ++ recovers 3 1

theorem oneDecodeFails_spares_one : ∃ s rec c,
    Run (exec 30) SparesSelected (start .new [] ∅) (oneDecodeFails ++ [.selectPInstances 1]) s ∧
      s.recoveries.get? 1 = some rec ∧ rec.context = some c ∧
      1 ≤ (c.selectedPInstances.map (·.nodeManagers.length)).sum ∧
      ∃ i, s.domain.manager.instances.get? i.id = some i ∧ i.role = "prefill" ∧
        (i.status = .initial ∨ i.status = .active) ∧
        ∀ r' rec', s.recoveries.get? r' = some rec' → i.id ∉ rec'.selectedIds := by
  have h : (runList (exec 30) SparesSelected (start .new [] ∅)
      (oneDecodeFails ++ [.selectPInstances 1])).map (fun s => (s.recoveries.get? 1).map fun rec =>
        (rec.phase, rec.context.map (·.numRequiredNode))) =
      some (some (.killing [(1, ⟨"10.0.0.1", "1027", 8⟩)], some 1)) := by decide
  obtain ⟨s, hs, hf⟩ := Option.map_eq_some_iff.mp h
  obtain ⟨rec, hrec, hf⟩ := Option.map_eq_some_iff.mp hf
  obtain ⟨hphase, hf⟩ := Prod.mk.inj hf
  obtain ⟨c, hc, hrequired⟩ := Option.map_eq_some_iff.mp hf
  have hrun := runList_run hs
  obtain ⟨henough, _, hleft⟩ := selection_spares_prefill hrun hrec hc hphase
  rw [hrequired] at henough
  exact ⟨s, rec, c, hrun, hrec, hc, henough, hleft⟩

/-- What two recoveries have selected, with what they need and have. -/
def selections (s : ScaleP2D) : List (List InstanceId × ℕ × ℕ) :=
  s.recoveries.values.filterMap fun rec => rec.context.map fun c =>
    (rec.selectedIds, c.numRequiredNode, (c.selectedPInstances.map (·.nodeManagers.length)).sum)

/-- The first prefill instance has three nodes, and the one that is taken has one. -/
def unequalNodes : List ScaleP2DOp :=
  joins 1 "prefill" "p-1" ["10.0.0.1", "10.0.0.2", "10.0.0.3"] ++
    [.domain (.addInstance .insertion (instanceOn 2 "prefill" "p-2" ["10.0.0.4"]) some)] ++
    joins 3 "decode" "d-1" ["10.0.0.5", "10.0.0.6"] ++ [chipFails "10.0.0.5", chipFails "10.0.0.6"] ++
    recovers 3 1 ++ [.selectPInstances 1]

def twoDecodesFail : List ScaleP2DOp :=
  joins 3 "decode" "d-1" ["10.0.0.3"] ++ joins 4 "decode" "d-2" ["10.0.0.4"] ++
    [chipFails "10.0.0.3", chipFails "10.0.0.4"]

/-- Both recoveries find the same two prefill instances. -/
def sameVictim : List ScaleP2DOp :=
  joins 1 "prefill" "p-1" ["10.0.0.1"] ++ joins 2 "prefill" "p-2" ["10.0.0.2"] ++ twoDecodesFail ++
    recovers 3 1 ++ recovers 4 2 ++ [.selectPInstances 1, .selectPInstances 2]

/-- The second prefill instance is starting when the first recovery takes it, and active when the second
recovery takes the other one. -/
def nobodyLeft : List ScaleP2DOp :=
  joins 1 "prefill" "p-1" ["10.0.0.1"] ++
    [.domain (.addInstance .insertion (instanceOn 2 "prefill" "p-2" ["10.0.0.2"]) some)] ++
    twoDecodesFail ++ recovers 3 1 ++ [.selectPInstances 1] ++
    [.domain (.heartbeat 2 "10.0.0.2" ((∅ : Dict EndpointId EndpointStatus).insert 0 .normal))] ++
    recovers 4 2 ++ [.selectPInstances 2]

/-- A recovery that needs two nodes selects one; two recoveries in progress select the same instance;
and the only two prefill instances are selected by one recovery each. -/
theorem unequalNodes_sameVictim_nobodyLeft :
    (∃ s, Run (exec 30) Free (start .new [] ∅) unequalNodes s ∧
      s.recoveries.values.map (·.isInProgress) = [true] ∧ s.selections = [([2], 2, 1)]) ∧
    (∃ s, Run (exec 30) Free (start .new [] ∅) sameVictim s ∧
      s.recoveries.values.map (·.isInProgress) = [true, true] ∧
      s.selections = [([1], 1, 1), ([1], 1, 1)]) ∧
    ∃ s, Run (exec 30) Free (start .new [] ∅) nobodyLeft s ∧
      (candidates s.domain).map (·.id) = [1, 2] ∧ s.selections = [([2], 1, 1), ([1], 1, 1)] := by
  refine ⟨?_, ?_, ?_⟩
  · have h : (runList (exec 30) Free (start .new [] ∅) unequalNodes).map (fun s =>
        (s.recoveries.values.map (·.isInProgress), s.selections)) = some ([true], [([2], 2, 1)]) := by
      decide
    obtain ⟨s, hs, hf⟩ := Option.map_eq_some_iff.mp h
    exact ⟨s, runList_run hs, Prod.mk.inj hf⟩
  · have h : (runList (exec 30) Free (start .new [] ∅) sameVictim).map (fun s =>
        (s.recoveries.values.map (·.isInProgress), s.selections)) =
          some ([true, true], [([1], 1, 1), ([1], 1, 1)]) := by decide
    obtain ⟨s, hs, hf⟩ := Option.map_eq_some_iff.mp h
    exact ⟨s, runList_run hs, Prod.mk.inj hf⟩
  · have h : (runList (exec 30) Free (start .new [] ∅) nobodyLeft).map (fun s =>
        ((candidates s.domain).map (·.id), s.selections)) =
          some ([1, 2], [([2], 1, 1), ([1], 1, 1)]) := by decide
    obtain ⟨s, hs, hf⟩ := Option.map_eq_some_iff.mp h
    exact ⟨s, runList_run hs, Prod.mk.inj hf⟩

end ScaleP2D

end PyMotor.Controller
