import PyMotor.Coordinator.MetricsCollector.History

/-!
# Counters that are inherited

The state of a job at a rank has what all engines that had the place have reported (`Accounts`): the
baseline what the earlier ones have, and the last effective value the sum. An instance is cached with the
sum over its job (`Inherits`), and the history has nothing. The view is therefore right as long as each
job has exactly one instance in the cache, which is what `InheritsCounters` asks for.
-/

namespace PyMotor.Coordinator

variable {family label job : String} {id : InstanceId} {ep : EndpointId} {fleet : Fleet}

/-! ## One job at one rank -/

/-- The state of a job, where `value` is what each instance has reported last and `total` the sum over
the instances of the job. -/
structure Accounts (fleet : Fleet) (job : String) (value : InstanceId → ℚ) (total : ℚ)
    (state : Option DpState) : Prop where
  unknown : state = none → total = 0 ∧ ∀ id, fleet.jobName id = job → value id = 0
  known : ∀ st, state = some st → fleet.jobName st.lastInsId = job ∧ st.lastEffective = total ∧
    st.lastRaw = value st.lastInsId ∧ st.baseline = total - value st.lastInsId

namespace Accounts

variable {value value' : InstanceId → ℚ} {total total' : ℚ} {state : Option DpState}

theorem effective (h : Accounts fleet job value total state) :
    (state.map DpState.lastEffective).getD 0 = total := by
  cases hstate : state with
  | none => exact (h.unknown hstate).1.symm
  | some st => exact (h.known st hstate).2.1

/-- An engine reports its counter. Another one has reported last only if this one is new. -/
theorem report (h : Accounts fleet job value total state) (hjob : fleet.jobName id = job)
    (hnonneg : 0 ≤ value id) (hgrow : value id ≤ value' id)
    (hlast : value id = 0 ∨ ∃ st ∈ state, st.lastInsId = id)
    (htotal : total' + value id = total + value' id) :
    Accounts fleet job value' total' (some (computeEffective state (value' id) id)) := by
  refine ⟨fun hnone => absurd hnone (Option.some_ne_none _), fun st hst => ?_⟩
  cases hst
  unfold computeEffective
  cases hstate : state with
  | none =>
    obtain ⟨hzero, hvalues⟩ := h.unknown hstate
    rw [hzero, hvalues id hjob] at htotal
    exact ⟨hjob, by linarith, rfl, by linarith⟩
  | some st =>
    obtain ⟨_, heffective, hraw, hbaseline⟩ := h.known st hstate
    by_cases hsame : st.lastInsId = id
    · -- the engine goes on, and its counter has not dropped
      rw [hsame] at hraw hbaseline
      have hgoes : st.restarted (value' id) id = false := by
        rw [DpState.restarted, hsame, hraw, Bool.or_eq_false_iff, decide_eq_false_iff_not,
          decide_eq_false_iff_not]
        exact ⟨fun hne => hne rfl, by linarith⟩
      simp only [hgoes]
      refine ⟨hsame ▸ hjob, ?_, congrArg value' hsame.symm, ?_⟩
      · show value' id + st.baseline = total'
        linarith
      · show st.baseline = total' - value' st.lastInsId
        rw [hsame]
        linarith
    · have hrestarts : st.restarted (value' id) id = true := by
        rw [DpState.restarted, decide_eq_true (Ne.symm hsame)]
        rfl
      have hzero : value id = 0 := by
        rcases hlast with hzero | ⟨st', hst', hlast⟩
        · exact hzero
        · rw [hstate] at hst'
          cases hst'
          exact absurd hlast hsame
      simp only [hrestarts]
      refine ⟨hjob, ?_, rfl, ?_⟩
      · show value' id + st.lastEffective = total'
        linarith
      · show st.lastEffective = total' - value' id
        linarith

theorem keep (h : Accounts fleet job value total state)
    (hvalues : ∀ id, fleet.jobName id = job → value' id = value id) (htotal : total' = total) :
    Accounts fleet job value' total' state where
  unknown hnone := by
    obtain ⟨hzero, hall⟩ := h.unknown hnone
    exact ⟨htotal.trans hzero, fun id hjob => (hvalues id hjob).trans (hall id hjob)⟩
  known st hst := by
    obtain ⟨hjob, heffective, hraw, hbaseline⟩ := h.known st hst
    rw [htotal, hvalues _ hjob]
    exact ⟨hjob, heffective, hraw, hbaseline⟩

end Accounts

/-! ## All jobs -/

namespace MetricsCollector

variable {s s' : MetricsCollector} {collects : Dict InstanceId Collect}
  {pool : Dict InstanceId String} {round : Round} {c : Corrections} {ins : Collect}

/-- What an engine amounts to. -/
def engineValue (family label : String) (s : MetricsCollector) (ep : EndpointId) (id : InstanceId) : ℚ :=
  valueOf family label (s.observedAt id ep)

/-- What the instances of a job have reported at a rank. -/
def rankTotal (fleet : Fleet) (family label : String) (s : MetricsCollector) (job : String)
    (ep : EndpointId) : ℚ :=
  s.observed.sumBy fun id _ => if fleet.jobName id = job then s.engineValue family label ep id else 0

def jobTotal (fleet : Fleet) (family label : String) (s : MetricsCollector) (job : String) : ℚ :=
  s.observed.sumBy fun id eps => if fleet.jobName id = job then lifeValue family label eps else 0

/-- What holds between the rounds of a family that is inherited. -/
structure Inherits (fleet : Fleet) (family : String) (s : MetricsCollector) : Prop where
  history : ∀ label, s.historyOf family label = 0
  single : ∀ id ep label, label ≠ fleet.label (fleet.jobName id) ep →
    s.engineValue family label ep id = 0
  nonneg : ∀ id ep label, 0 ≤ s.engineValue family label ep id
  accounts : ∀ job ep, Accounts fleet job (s.engineValue family (fleet.label job ep) ep)
    (s.rankTotal fleet family (fleet.label job ep) job ep) (s.dpState.get? (job, ep, family))
  cached : ∀ id ms, s.instanceMetricsCached.get? id = some ms → ∀ label,
    valueOf family label ms = s.jobTotal fleet family label (fleet.jobName id)

theorem Inherits.new (fleet : Fleet) (family : String) : Inherits fleet family MetricsCollector.new where
  history _ := rfl
  single _ _ _ _ := rfl
  nonneg _ _ _ := le_rfl
  accounts _ _ := ⟨fun _ => ⟨rfl, fun _ _ => rfl⟩, fun _ hst => absurd hst (Option.some_ne_none _).symm⟩
  cached _ _ h := by cases h

theorem Inherits.clear (h : Inherits fleet family s) (hfamily : family ∈ inheritedMetricNames)
    (pool : Dict InstanceId String) : Inherits fleet family (s.clearInactiveMetrics pool) where
  history label := by
    rw [historyOf_clearInactiveMetrics, h.history, zero_add]
    apply List.sum_eq_zero
    intro v hv
    obtain ⟨p, _, rfl⟩ := List.mem_map.mp hv
    show (s.instanceMetricsCached.get? p.1).elim 0 (fun ms => valueOf family label (retired ms)) = 0
    cases s.instanceMetricsCached.get? p.1 with
    | none => rfl
    | some ms => exact valueOf_retired_of_inherited hfamily ms
  single := h.single
  nonneg := h.nonneg
  accounts := h.accounts
  cached id ms hms := by
    rw [get?_clearInactiveMetrics] at hms
    split at hms
    · cases hms
    · exact h.cached id ms hms

/-! ### Who succeeds whom -/

/-- What `InheritsCounters` says about the collector after the round. -/
structure Succession (fleet : Fleet) (family : String) (s : MetricsCollector)
    (collects : Dict InstanceId Collect) (s' : MetricsCollector) : Prop where
  job : ∀ id ins, collects.get? id = some ins → ins.jobName = fleet.jobName id ∧ ins.jobName ≠ ""
  continues : ∀ id ins ep ms, collects.get? id = some ins → ins.endpoints.get? ep = some ms →
    ContinuesState family (fleet.label ins.jobName ep) s (ins.jobName, ep, family) id ms
  unique : ∀ id id', s'.instanceMetricsCached.contains id = true →
    s'.instanceMetricsCached.contains id' = true → fleet.jobName id = fleet.jobName id' → id = id'
  holder : ∀ id, s'.observed.contains id = true → ∃ id', s'.instanceMetricsCached.contains id' = true ∧
    fleet.jobName id' = fleet.jobName id
  ranks : ∀ id ins, collects.get? id = some ins → ∀ id' eps, s'.observed.get? id' = some eps →
    fleet.jobName id' = fleet.jobName id → ∀ ep ms, eps.get? ep = some ms →
    ∃ ms, ins.endpoints.get? ep = some ms

theorem mem_cachedAfter {id : InstanceId}
    (hs' : Generated (s.clearInactiveMetrics pool) collects c s') :
    id ∈ s.cachedAfter pool collects ↔ s'.instanceMetricsCached.contains id = true := by
  rw [hs'.contains_iff, cachedAfter, List.mem_append, List.mem_filter, Dict.mem_keys_iff,
    Dict.mem_keys_iff, Dict.contains_iff, Dict.contains_iff, get?_clearInactiveMetrics]
  cases pool.contains id <;> simp [or_comm]

theorem succession (hgrow : EnginesGrow family s collects)
    (hinherits : InheritsCounters fleet family s pool collects)
    (hs' : Generated (s.clearInactiveMetrics pool) collects c s') :
    Succession fleet family (s.clearInactiveMetrics pool) collects s' := by
  obtain ⟨hown, hunique, hholder⟩ := hinherits
  have hunique' : ∀ id id', s'.instanceMetricsCached.contains id = true →
      s'.instanceMetricsCached.contains id' = true → fleet.jobName id = fleet.jobName id' → id = id' :=
    fun id id' h h' => hunique id ((mem_cachedAfter hs').mpr h) id' ((mem_cachedAfter hs').mpr h')
  have hobserved : s'.observed = observe s.observed collects := hs'.observed
  have hcollected : ∀ id ins, collects.get? id = some ins →
      s'.instanceMetricsCached.contains id = true := by
    intro id ins hins
    rw [hs'.contains_iff]
    exact Or.inl (Dict.contains_of_some hins)
  constructor
  case job =>
    intro id ins hins
    obtain ⟨hjob, hnonempty, _⟩ := hown (id, ins) (Dict.mem_entries_iff.mpr hins)
    exact ⟨hjob, hnonempty⟩
  case continues =>
    intro id ins ep ms hins hms
    obtain ⟨_, _, hall⟩ := hown (id, ins) (Dict.mem_entries_iff.mpr hins)
    exact hall (ep, ms) (Dict.mem_entries_iff.mpr hms)
  case unique => exact hunique'
  case holder =>
    intro id hid
    cases hins : collects.get? id with
    | some ins => exact ⟨id, hcollected id ins hins, rfl⟩
    | none =>
      obtain ⟨eps, heps⟩ := Dict.contains_iff.mp hid
      rw [hobserved, get?_observe_of_none hins] at heps
      obtain ⟨id', hid', hjob, _⟩ := hholder (id, eps) (Dict.mem_entries_iff.mpr heps)
      exact ⟨id', (mem_cachedAfter hs').mp hid', hjob⟩
  case ranks =>
    intro id ins hins id' eps heps hjob ep ms hms
    rw [hobserved] at heps
    cases hins' : collects.get? id' with
    | some ins' =>
      -- it is the collected instance itself
      cases hunique' id id' (hcollected id ins hins) (hcollected id' ins' hins') hjob.symm
      obtain ⟨eps', heps', hget⟩ := get?_observe_of_some hgrow hins
      rw [heps'] at heps
      cases heps
      rw [hget] at hms
      exact ⟨ms, hms⟩
    | none =>
      rw [get?_observe_of_none hins'] at heps
      obtain ⟨id'', hid'', hjob', hranks⟩ := hholder (id', eps) (Dict.mem_entries_iff.mpr heps)
      cases hunique' id id'' (hcollected id ins hins) ((mem_cachedAfter hs').mp hid'')
        (hjob.symm.trans hjob'.symm)
      exact Dict.mem_keys_iff.mp (hranks ins hins ep (Dict.mem_keys_iff.mpr ⟨ms, hms⟩))

/-! ### The next view -/

theorem observedAt_generated (hs' : Generated s collects c s') (id : InstanceId) (ep : EndpointId) :
    s'.observedAt id ep = (metricsAt collects id ep).getD (s.observedAt id ep) := by
  unfold observedAt metricsAt
  rw [hs'.observed]
  cases hins : collects.get? id with
  | none =>
    rw [get?_observe_of_none hins]
    rfl
  | some ins =>
    rw [get?_observe, hins]
    show ((Dict.get? _ ep).getD []) = (ins.endpoints.get? ep).getD _
    rw [Dict.get?_foldl_update ins.endpoints (fun ms _ => ms)]
    cases ins.endpoints.get? ep with
    | some ms => rfl
    | none =>
      cases s.observed.get? id with
      | none => rfl
      | some eps => rfl

theorem engineValue_of_none (hs' : Generated s collects c s') (h : metricsAt collects id ep = none)
    (family label : String) : s'.engineValue family label ep id = s.engineValue family label ep id := by
  unfold engineValue
  rw [observedAt_generated hs', h]
  rfl

theorem engineValue_of_some (hs' : Generated s collects c s') {ms : List Metric}
    (h : metricsAt collects id ep = some ms) (family label : String) :
    s'.engineValue family label ep id = valueOf family label ms := by
  unfold engineValue
  rw [observedAt_generated hs', h]
  rfl

theorem metricsAt_eq_some {ms : List Metric} (h : metricsAt collects id ep = some ms) :
    ∃ ins, collects.get? id = some ins ∧ ins.endpoints.get? ep = some ms :=
  Option.bind_eq_some_iff.mp h

theorem EnginesGrow.engineValue_le (hgrow : EnginesGrow family s collects) {ms : List Metric}
    (h : metricsAt collects id ep = some ms) (label : String) :
    s.engineValue family label ep id ≤ valueOf family label ms := by
  obtain ⟨ins, hins, hms⟩ := metricsAt_eq_some h
  exact ((hgrow (id, ins) (Dict.mem_entries_iff.mpr hins)).1 (ep, ms)
    (Dict.mem_entries_iff.mpr hms)).le label

namespace Succession

variable {ms : List Metric}

theorem jobAt_eq (h : Succession fleet family s collects s') (hins : collects.get? id = some ins) :
    jobAt collects id = some (fleet.jobName id) := by
  rw [jobAt, hins, ← (h.job id ins hins).1]
  rfl

theorem jobName_eq (h : Succession fleet family s collects s') (hjob : jobAt collects id = some job) :
    (∃ ins, collects.get? id = some ins) ∧ fleet.jobName id = job := by
  obtain ⟨ins, hins, rfl⟩ := Option.map_eq_some_iff.mp hjob
  exact ⟨⟨ins, hins⟩, (h.job id ins hins).1.symm⟩

theorem continues_of_metricsAt (h : Succession fleet family s collects s')
    (hms : metricsAt collects id ep = some ms) :
    ContinuesState family (fleet.label (fleet.jobName id) ep) s (fleet.jobName id, ep, family) id ms := by
  obtain ⟨ins, hins, hms⟩ := metricsAt_eq_some hms
  have hcontinues := h.continues id ins ep ms hins hms
  rwa [(h.job id ins hins).1] at hcontinues

theorem eq_of_collected (h : Succession fleet family s collects s') (hs' : Generated s collects c s')
    {id id' : InstanceId} {ins ins' : Collect} (hins : collects.get? id = some ins)
    (hins' : collects.get? id' = some ins') (hjob : fleet.jobName id = fleet.jobName id') : id = id' := by
  apply h.unique id id' _ _ hjob
  · exact (hs'.contains_iff id).mpr (Or.inl (Dict.contains_of_some hins))
  · exact (hs'.contains_iff id').mpr (Or.inl (Dict.contains_of_some hins'))

theorem separate (h : Succession fleet family s collects s') (hs' : Generated s collects c s')
    (dpState : Dict DpKey DpState) : Separate family fleet.label ⟨dpState, collects⟩ where
  named id hjob := by
    obtain ⟨ins, hins, hname⟩ := Option.map_eq_some_iff.mp hjob
    exact (h.job id ins hins).2 hname
  apart id id' job hjob hjob' := by
    obtain ⟨⟨ins, hins⟩, hname⟩ := h.jobName_eq hjob
    obtain ⟨⟨ins', hins'⟩, hname'⟩ := h.jobName_eq hjob'
    exact h.eq_of_collected hs' hins hins' (hname.trans hname'.symm)
  single id ep job ms hjob hms := by
    rw [← (h.jobName_eq hjob).2]
    exact (h.continues_of_metricsAt hms).1

end Succession

/-- Of the lives of a job, only that of the collected instance has changed. -/
theorem engineValue_of_ne (hsucc : Succession fleet family s collects s')
    (hs' : Generated s collects c s') (hins : collects.get? id = some ins) {id' : InstanceId}
    (hjob : fleet.jobName id' = fleet.jobName id) (hne : id' ≠ id) (label : String) :
    s'.engineValue family label ep id' = s.engineValue family label ep id' := by
  apply engineValue_of_none hs'
  rw [Option.eq_none_iff_forall_ne_some]
  intro ms hms
  obtain ⟨ins', hins', _⟩ := metricsAt_eq_some hms
  exact hne (hsucc.eq_of_collected hs' hins' hins hjob)

theorem rankPart (s : MetricsCollector) (fleet : Fleet) (family label job : String) (ep : EndpointId)
    (id : InstanceId) : s.observed.part (fun id _ =>
      if fleet.jobName id = job then s.engineValue family label ep id else 0) id =
    if fleet.jobName id = job then s.engineValue family label ep id else 0 := by
  cases heps : s.observed.get? id with
  | some eps => exact Dict.part_of_some heps
  | none =>
    have hzero : s.engineValue family label ep id = 0 := by
      unfold engineValue observedAt
      rw [heps]
      rfl
    rw [Dict.part_of_none heps, hzero, ite_self]

theorem rankTotal_of_change {job : String} {id : InstanceId} (hjob : fleet.jobName id = job)
    (hothers : ∀ id', fleet.jobName id' = job → id' ≠ id →
      s'.engineValue family label ep id' = s.engineValue family label ep id') :
    s'.rankTotal fleet family label job ep + s.engineValue family label ep id =
      s.rankTotal fleet family label job ep + s'.engineValue family label ep id := by
  have hchange := Dict.sumBy_of_change s.observed s'.observed
    (fun id' _ => if fleet.jobName id' = job then s.engineValue family label ep id' else 0)
    (fun id' _ => if fleet.jobName id' = job then s'.engineValue family label ep id' else 0) id
    fun id' hne => by
      rw [rankPart, rankPart]
      split
      · next hjob' => exact hothers id' hjob' hne
      · rfl
  rwa [rankPart, rankPart, if_pos hjob, if_pos hjob] at hchange

/-- **The accounts after a view.** -/
theorem Inherits.accounts_generated (h : Inherits fleet family s)
    (hfamily : family ∈ inheritedMetricNames) (hgrow : EnginesGrow family s collects)
    (hsucc : Succession fleet family s collects s')
    (hc : computePreAggregation ⟨s.dpState, collects⟩ = some c) (hs' : Generated s collects c s')
    (job : String) (ep : EndpointId) :
    Accounts fleet job (s'.engineValue family (fleet.label job ep) ep)
      (s'.rankTotal fleet family (fleet.label job ep) job ep) (s'.dpState.get? (job, ep, family)) := by
  have hcorrected := computePreAggregation_corrected hfamily (hsucc.separate hs' s.dpState) hc
  have haccounts := h.accounts job ep
  rw [hs'.states]
  by_cases hcollected : ∃ id ms, fleet.jobName id = job ∧ metricsAt collects id ep = some ms
  · obtain ⟨id, ms, rfl, hms⟩ := hcollected
    obtain ⟨ins, hins, _⟩ := metricsAt_eq_some hms
    obtain ⟨_, habsent, hlast⟩ := hsucc.continues_of_metricsAt hms
    obtain ⟨ms', _, hcorrects⟩ := hcorrected.own id ep _ ms (hsucc.jobAt_eq hins) hms
    have hvalue := engineValue_of_some hs' hms family (fleet.label (fleet.jobName id) ep)
    have hle := hgrow.engineValue_le hms (fleet.label (fleet.jobName id) ep)
    have hnonneg := h.nonneg id ep (fleet.label (fleet.jobName id) ep)
    have hothers : ∀ id', fleet.jobName id' = fleet.jobName id → id' ≠ id →
        s'.engineValue family (fleet.label (fleet.jobName id) ep) ep id' =
          s.engineValue family (fleet.label (fleet.jobName id) ep) ep id' :=
      fun id' hjob hne => engineValue_of_ne hsucc hs' hins hjob hne _
    -- the total changes by what the collected instance adds
    have htotal := rankTotal_of_change rfl hothers
    by_cases hfam : familyOf family ms = []
    · -- the engine does not report the family, nor has it before
      rw [(hcorrects.absent hfam).1]
      have hzero : s'.engineValue family (fleet.label (fleet.jobName id) ep) ep id =
          s.engineValue family (fleet.label (fleet.jobName id) ep) ep id := by
        rw [valueOf_of_absent hfam] at hle hvalue
        linarith
      apply haccounts.keep
      · intro id' hjob
        by_cases hid : id' = id
        · rw [hid, hzero]
        · exact hothers id' hjob hid
      · linarith
    · rw [(hcorrects.present hfam).1, ← hvalue]
      rw [← hvalue] at hle
      exact haccounts.report rfl hnonneg hle hlast htotal
  · -- the rank is not collected
    have hnone : ∀ id, fleet.jobName id = job → metricsAt collects id ep = none := by
      intro id hjob
      rw [Option.eq_none_iff_forall_ne_some]
      exact fun ms hms => hcollected ⟨id, ms, hjob, hms⟩
    rw [hcorrected.frame job ep fun id hjob => hnone id (hsucc.jobName_eq hjob).2]
    have hvalues : ∀ id, fleet.jobName id = job →
        s'.engineValue family (fleet.label job ep) ep id = s.engineValue family (fleet.label job ep) ep id :=
      fun id hjob => engineValue_of_none hs' (hnone id hjob) _ _
    apply haccounts.keep hvalues
    apply Dict.sumBy_congr
    intro id
    rw [rankPart, rankPart]
    split
    · next hjob => exact hvalues id hjob
    · rfl

theorem rankTotal_eq {state : Option DpState}
    (haccounts : Accounts fleet job (s.engineValue family (fleet.label job ep) ep)
      (s.rankTotal fleet family (fleet.label job ep) job ep) state)
    (hsingle : ∀ id ep label, label ≠ fleet.label (fleet.jobName id) ep →
      s.engineValue family label ep id = 0) (label : String) :
    s.rankTotal fleet family label job ep =
      if label = fleet.label job ep then (state.map DpState.lastEffective).getD 0 else 0 := by
  split
  · next heq => rw [heq, haccounts.effective]
  · next hne =>
    apply List.sum_eq_zero
    intro v hv
    obtain ⟨⟨id, eps⟩, _, rfl⟩ := List.mem_map.mp hv
    show (if fleet.jobName id = job then s.engineValue family label ep id else 0) = 0
    split
    · next hjob =>
      subst hjob
      exact hsingle id ep label hne
    · rfl

theorem Succession.jobTotal_eq (hsucc : Succession fleet family s collects s')
    (hins : collects.get? id = some ins) (label : String) :
    s'.jobTotal fleet family label (fleet.jobName id) = ins.endpoints.sumBy fun ep _ =>
      s'.rankTotal fleet family label (fleet.jobName id) ep := by
  have hranks : ∀ ep ms, ins.endpoints.get? ep = some ms → ep ∈ ins.endpoints.keys.toFinset :=
    fun ep ms hms => List.mem_toFinset.mpr (Dict.mem_keys_iff.mpr ⟨ms, hms⟩)
  have hright : (ins.endpoints.sumBy fun ep _ => s'.rankTotal fleet family label (fleet.jobName id) ep) =
      ∑ ep ∈ ins.endpoints.keys.toFinset, s'.rankTotal fleet family label (fleet.jobName id) ep := by
    rw [Dict.sumBy_eq_sum _ _ hranks]
    apply Finset.sum_congr rfl
    intro ep hep
    obtain ⟨ms, hms⟩ := Dict.mem_keys_iff.mp (List.mem_toFinset.mp hep)
    exact Dict.part_of_some hms
  rw [hright]
  unfold rankTotal jobTotal
  rw [← Dict.sumBy_sum]
  apply Dict.sumBy_congr
  intro id'
  cases heps : s'.observed.get? id' with
  | none => rw [Dict.part_of_none heps, Dict.part_of_none heps]
  | some eps =>
    rw [Dict.part_of_some heps, Dict.part_of_some heps]
    by_cases hjob : fleet.jobName id' = fleet.jobName id
    · have hkeys : ∀ ep ms, eps.get? ep = some ms → ep ∈ ins.endpoints.keys.toFinset := by
        intro ep ms hms
        obtain ⟨ms', hms'⟩ := hsucc.ranks id ins hins id' eps heps hjob ep ms hms
        exact hranks ep ms' hms'
      simp only [if_pos hjob]
      unfold lifeValue
      rw [Dict.sumBy_eq_sum _ _ hkeys]
      apply Finset.sum_congr rfl
      intro ep _
      unfold engineValue observedAt Dict.part
      rw [heps, Option.bind_some]
      cases eps.get? ep <;> rfl
    · simp only [if_neg hjob, Finset.sum_const_zero]

/-- An instance that stays in the cache, of whose job nothing was collected. -/
theorem jobTotal_of_cached (hsucc : Succession fleet family s collects s')
    (hs' : Generated s collects c s') (hnone : collects.get? id = none)
    (hcached : s'.instanceMetricsCached.contains id = true) (label : String) :
    s'.jobTotal fleet family label (fleet.jobName id) =
      s.jobTotal fleet family label (fleet.jobName id) := by
  apply Dict.sumBy_congr
  intro id'
  by_cases hjob : fleet.jobName id' = fleet.jobName id
  · have hnone' : collects.get? id' = none := by
      rw [Option.eq_none_iff_forall_ne_some]
      intro ins' hins'
      have hcached' : s'.instanceMetricsCached.contains id' = true := by
        rw [hs'.contains_iff]
        exact Or.inl (Dict.contains_of_some hins')
      rw [hsucc.unique id' id hcached' hcached hjob, hnone] at hins'
      cases hins'
    unfold Dict.part
    rw [hs'.observed, get?_observe_of_none hnone']
  · have hzero : ∀ s : MetricsCollector, s.observed.part (fun id' eps =>
        if fleet.jobName id' = fleet.jobName id then lifeValue family label eps else 0) id' = 0 := by
      intro s
      unfold Dict.part
      simp only [if_neg hjob]
      cases s.observed.get? id' <;> rfl
    rw [hzero, hzero]

theorem Succession.valueOf_corrected {ms ms' : List Metric} {state' : Option DpState}
    (hsucc : Succession fleet family s collects s') (hms : metricsAt collects id ep = some ms)
    (hcorrects : Corrects family (fleet.label (fleet.jobName id) ep) id ms ms'
      (s.dpState.get? (fleet.jobName id, ep, family)) state') (label : String) :
    valueOf family label ms' = if label = fleet.label (fleet.jobName id) ep then
      (state'.map DpState.lastEffective).getD 0 else 0 := by
  obtain ⟨_, habsent, _⟩ := hsucc.continues_of_metricsAt hms
  by_cases hfam : familyOf family ms = []
  · -- what is not reported was not counted before either
    obtain ⟨hstate, hzero⟩ := hcorrects.absent hfam
    rw [hzero, hstate]
    cases hold : s.dpState.get? (fleet.jobName id, ep, family) with
    | none => exact (ite_self 0).symm
    | some st => rw [Option.map_some, Option.getD_some, habsent hfam st hold, ite_self]
  · obtain ⟨hstate, hpresent⟩ := hcorrects.present hfam
    rw [hpresent, hstate]
    rfl

/-- **A view of a family that is inherited.** -/
theorem Inherits.generated (h : Inherits fleet family s) (hfamily : family ∈ inheritedMetricNames)
    (hgrow : EnginesGrow family s collects) (hsucc : Succession fleet family s collects s')
    (hc : computePreAggregation ⟨s.dpState, collects⟩ = some c) (hs' : Generated s collects c s') :
    Inherits fleet family s' := by
  have hcorrected := computePreAggregation_corrected hfamily (hsucc.separate hs' s.dpState) hc
  have haccounts := h.accounts_generated hfamily hgrow hsucc hc hs'
  -- an engine has no value under the label of another one
  have hsingle : ∀ id ep label, label ≠ fleet.label (fleet.jobName id) ep →
      s'.engineValue family label ep id = 0 := by
    intro id ep label hne
    cases hms : metricsAt collects id ep with
    | none =>
      rw [engineValue_of_none hs' hms]
      exact h.single id ep label hne
    | some ms =>
      rw [engineValue_of_some hs' hms]
      exact (hsucc.continues_of_metricsAt hms).1.valueOf_ne hne
  constructor
  case history =>
    intro label
    unfold historyOf
    rw [hs'.history]
    exact h.history label
  case single => exact hsingle
  case nonneg =>
    intro id ep label
    cases hms : metricsAt collects id ep with
    | none =>
      rw [engineValue_of_none hs' hms]
      exact h.nonneg id ep label
    | some ms =>
      rw [engineValue_of_some hs' hms]
      exact (h.nonneg id ep label).trans (hgrow.engineValue_le hms label)
  case accounts => exact haccounts
  case cached =>
    intro id ms hms label
    cases hins : collects.get? id with
    | none =>
      rw [jobTotal_of_cached hsucc hs' hins (Dict.contains_of_some hms)]
      rw [hs'.others id hins] at hms
      exact h.cached id ms hms label
    | some ins =>
      obtain ⟨ms₁, hms₁, hvalue⟩ := hs'.collected id ins hins
      rw [hms₁] at hms
      cases hms
      rw [hvalue, hsucc.jobTotal_eq hins]
      apply Dict.sumBy_congr
      intro ep
      cases hep : ins.endpoints.get? ep with
      | none => rw [Dict.part_of_none hep, Dict.part_of_none hep]
      | some ms =>
        have hmetrics : metricsAt collects id ep = some ms := by
          rw [metricsAt, hins]
          exact hep
        obtain ⟨ms', hms', hcorrects⟩ := hcorrected.own id ep _ ms (hsucc.jobAt_eq hins) hmetrics
        rw [Dict.part_of_some hep, Dict.part_of_some hep, hms', rankTotal_eq (haccounts _ ep) hsingle,
          hs'.states]
        exact hsucc.valueOf_corrected hmetrics hcorrects label

/-- The view counts every life once, as each has one instance in the cache that stands for its job. -/
theorem Inherits.view (h : Inherits fleet family s')
    (hsucc : Succession fleet family s collects s') (label : String) :
    valueOf family label s'.aggregateMetricsAllInstance = s'.observedTotal family label := by
  have hkeys : ∀ id ms, s'.instanceMetricsCached.get? id = some ms →
      id ∈ s'.instanceMetricsCached.keys.toFinset :=
    fun id ms hms => List.mem_toFinset.mpr (Dict.mem_keys_iff.mpr ⟨ms, hms⟩)
  have hcache : (s'.instanceMetricsCached.sumBy fun _ ms => valueOf family label ms) =
      ∑ id ∈ s'.instanceMetricsCached.keys.toFinset,
        s'.jobTotal fleet family label (fleet.jobName id) := by
    rw [Dict.sumBy_eq_sum _ _ hkeys]
    apply Finset.sum_congr rfl
    intro id hid
    obtain ⟨ms, hms⟩ := Dict.mem_keys_iff.mp (List.mem_toFinset.mp hid)
    rw [Dict.part_of_some hms]
    exact h.cached id ms hms label
  rw [valueOf_aggregateMetricsAllInstance, h.history, add_zero, hcache]
  unfold jobTotal observedTotal
  rw [← Dict.sumBy_sum]
  apply Dict.sumBy_congr
  intro id
  cases heps : s'.observed.get? id with
  | none => rw [Dict.part_of_none heps, Dict.part_of_none heps]
  | some eps =>
    rw [Dict.part_of_some heps, Dict.part_of_some heps]
    obtain ⟨id', hid', hjob⟩ := hsucc.holder id (Dict.contains_of_some heps)
    obtain ⟨ms, hms⟩ := Dict.contains_iff.mp hid'
    rw [Finset.sum_eq_single_of_mem id' (hkeys id' ms hms), if_pos hjob.symm]
    intro id'' hid'' hne
    apply if_neg
    intro hjob''
    obtain ⟨ms'', hms''⟩ := Dict.mem_keys_iff.mp (List.mem_toFinset.mp hid'')
    exact hne (hsucc.unique id'' id' (Dict.contains_of_some hms'') hid'
      (hjob''.symm.trans hjob.symm))

end MetricsCollector

end PyMotor.Coordinator
