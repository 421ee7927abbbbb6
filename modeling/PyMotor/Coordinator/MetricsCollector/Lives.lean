import PyMotor.Coordinator.MetricsCollector.Corrections

/-!
# The lives of engines

An engine lives as long as its instance has its id. What it has reported last is in `observed`, and the
view of the service should add this up over all lives (`observedTotal`). `KeepsCounters` says of a round
that it does nothing the collector loses or repeats a counter by. A round with a view changes the caches
as `exec_cases` and `Generated` say.
-/

namespace PyMotor.Coordinator

variable {family label : String} {id : InstanceId} {ep : EndpointId}

/-- What is known of the instances in advance. An engine reports an inherited counter under one label. -/
structure Fleet where
  jobName : InstanceId → String
  label : String → EndpointId → String

def labelsOf (family : String) (ms : List Metric) : List String :=
  (familyOf family ms).flatMap fun m => m.samples.map Prod.fst

/-- A counter does not decrease. -/
def Grows (family : String) (old new : List Metric) : Prop :=
  ∀ label ∈ labelsOf family old ++ labelsOf family new,
    valueOf family label old ≤ valueOf family label new

instance (family : String) (old new : List Metric) : Decidable (Grows family old new) :=
  inferInstanceAs (Decidable (∀ label ∈ _, _))

theorem valueOf_of_not_mem {ms : List Metric} (h : label ∉ labelsOf family ms) :
    valueOf family label ms = 0 := by
  apply List.sum_eq_zero
  intro v hv
  obtain ⟨m, hm, rfl⟩ := List.mem_map.mp hv
  have hnone : (m.samples.filter fun p => decide (p.1 = label)) = [] := by
    rw [List.filter_eq_nil_iff]
    intro p hp hlabel
    apply h
    rw [← of_decide_eq_true hlabel]
    exact List.mem_flatMap.mpr ⟨m, hm, List.mem_map_of_mem hp⟩
  show ((m.samples.filter fun p => decide (p.1 = label)).map Prod.snd).sum = 0
  rw [hnone]
  rfl

theorem Grows.le {old new : List Metric} (h : Grows family old new) (label : String) :
    valueOf family label old ≤ valueOf family label new := by
  by_cases hmem : label ∈ labelsOf family old ++ labelsOf family new
  · exact h label hmem
  · rw [List.mem_append, not_or] at hmem
    rw [valueOf_of_not_mem hmem.1, valueOf_of_not_mem hmem.2]

/-- What the engines of an instance amount to. -/
def lifeValue (family label : String) (engines : Dict EndpointId (List Metric)) : ℚ :=
  engines.sumBy fun _ ms => valueOf family label ms

namespace MetricsCollector

variable {s s' : MetricsCollector} {collects : Dict InstanceId Collect}
  {pool : Dict InstanceId String} {round : Round} {fleet : Fleet}

/-- What an engine has reported last; nothing, if it has not reported yet. -/
def observedAt (s : MetricsCollector) (id : InstanceId) (ep : EndpointId) : List Metric :=
  ((s.observed.get? id).bind fun eps => eps.get? ep).getD []

/-- **The sum over all lives**, of what each engine has reported last. -/
def observedTotal (s : MetricsCollector) (family label : String) : ℚ :=
  s.observed.sumBy fun _ eps => lifeValue family label eps

/-! ## Rounds that lose nothing -/

/-- An engine's counter does not decrease and starts at zero at least, and an instance keeps its
engines. -/
def EnginesGrow (family : String) (s : MetricsCollector) (collects : Dict InstanceId Collect) : Prop :=
  ∀ p ∈ collects.entries,
    (∀ q ∈ p.2.endpoints.entries, Grows family (s.observedAt p.1 q.1) q.2) ∧
    ∀ eps ∈ s.observed.get? p.1, ∀ ep ∈ eps.keys, ep ∈ p.2.endpoints.keys

instance (family : String) (s : MetricsCollector) (collects : Dict InstanceId Collect) :
    Decidable (EnginesGrow family s collects) :=
  inferInstanceAs (Decidable (∀ p ∈ collects.entries, _ ∧ _))

/-- An instance that was seen before has been in the cache since. -/
def StaysCached (s : MetricsCollector) (pool : Dict InstanceId String)
    (collects : Dict InstanceId Collect) : Prop :=
  ∀ id ∈ collects.keys, s.observed.contains id = true →
    s.instanceMetricsCached.contains id = true ∧ pool.contains id = false

instance (s : MetricsCollector) (pool : Dict InstanceId String) (collects : Dict InstanceId Collect) :
    Decidable (StaysCached s pool collects) :=
  inferInstanceAs (Decidable (∀ id ∈ collects.keys, _ → _))

/-- The instances that are in the cache after a round. -/
def cachedAfter (s : MetricsCollector) (pool : Dict InstanceId String)
    (collects : Dict InstanceId Collect) : List InstanceId :=
  (s.instanceMetricsCached.keys.filter fun id => !pool.contains id) ++ collects.keys

/-- An engine reports a counter that its job has counted before, and it is new or the last one that
reported it. -/
def ContinuesState (family label : String) (s : MetricsCollector) (key : DpKey) (id : InstanceId)
    (ms : List Metric) : Prop :=
  SingleLabel family label ms ∧
    (familyOf family ms = [] → ∀ state ∈ s.dpState.get? key, state.lastEffective = 0) ∧
    (valueOf family label (s.observedAt id key.2.1) = 0 ∨
      ∃ state ∈ s.dpState.get? key, state.lastInsId = id)

instance (family label : String) (s : MetricsCollector) (key : DpKey) (id : InstanceId)
    (ms : List Metric) : Decidable (ContinuesState family label s key id ms) :=
  inferInstanceAs (Decidable (_ ∧ _ ∧ _))

/-- Every job that was ever seen has one instance in the cache, which has all engines of the job if it
was collected. -/
def InheritsCounters (fleet : Fleet) (family : String) (s : MetricsCollector)
    (pool : Dict InstanceId String) (collects : Dict InstanceId Collect) : Prop :=
  (∀ p ∈ collects.entries, p.2.jobName = fleet.jobName p.1 ∧ p.2.jobName ≠ "" ∧
    ∀ q ∈ p.2.endpoints.entries, ContinuesState family (fleet.label p.2.jobName q.1) s
      (p.2.jobName, q.1, family) p.1 q.2) ∧
  (∀ id ∈ s.cachedAfter pool collects, ∀ id' ∈ s.cachedAfter pool collects,
    fleet.jobName id = fleet.jobName id' → id = id') ∧
  ∀ p ∈ s.observed.entries, ∃ id ∈ s.cachedAfter pool collects, fleet.jobName id = fleet.jobName p.1 ∧
    ∀ ins ∈ collects.get? id, ∀ ep ∈ p.2.keys, ep ∈ ins.endpoints.keys

instance (fleet : Fleet) (family : String) (s : MetricsCollector) (pool : Dict InstanceId String)
    (collects : Dict InstanceId Collect) :
    Decidable (InheritsCounters fleet family s pool collects) :=
  inferInstanceAs (Decidable ((∀ p ∈ collects.entries, _ ∧ _ ∧ _) ∧ (∀ id ∈ _, ∀ id' ∈ _, _ → _) ∧
    ∀ p ∈ s.observed.entries, ∃ id ∈ _, _ ∧ _))

/-- A round that loses no counter of the family and counts none twice. -/
def KeepsCounters (fleet : Fleet) (family : String) (s : MetricsCollector) (round : Round) : Prop :=
  ∀ collects ∈ round.collects.bind parseMetrics,
    EnginesGrow family s collects ∧
    (collects.isEmpty = true → s.observed.isEmpty = true) ∧
    if family ∈ inheritedMetricNames then
      InheritsCounters fleet family s round.unavailablePool collects
    else StaysCached s round.unavailablePool collects

instance (fleet : Fleet) (family : String) (s : MetricsCollector) (round : Round) :
    Decidable (KeepsCounters fleet family s round) :=
  inferInstanceAs (Decidable (∀ collects ∈ _, _ ∧ _ ∧ _))

/-! ## What has been observed -/

theorem get?_observe (observed : Dict InstanceId (Dict EndpointId (List Metric)))
    (collects : Dict InstanceId Collect) (id : InstanceId) :
    (observe observed collects).get? id = (collects.get? id).elim (observed.get? id) fun ins =>
      some (ins.endpoints.entries.foldl (fun eps q => eps.insert q.1 q.2)
        ((observed.get? id).getD ∅)) :=
  Dict.get?_foldl_update collects
    (fun (ins : Collect) (eps : Option (Dict EndpointId (List Metric))) =>
      ins.endpoints.entries.foldl (fun (eps : Dict EndpointId (List Metric))
        (q : EndpointId × List Metric) => eps.insert q.1 q.2) (eps.getD ∅)) observed id

theorem get?_observe_of_none {observed : Dict InstanceId (Dict EndpointId (List Metric))}
    (h : collects.get? id = none) : (observe observed collects).get? id = observed.get? id := by
  rw [get?_observe, h]
  rfl

/-- An instance is observed as it was collected, if it has kept its engines. -/
theorem get?_observe_of_some (hgrow : EnginesGrow family s collects) {ins : Collect}
    (h : collects.get? id = some ins) : ∃ eps, (observe s.observed collects).get? id = some eps ∧
      ∀ ep, eps.get? ep = ins.endpoints.get? ep := by
  refine ⟨_, by rw [get?_observe, h]; rfl, fun ep => ?_⟩
  rw [Dict.get?_foldl_update ins.endpoints (fun ms _ => ms)]
  cases hep : ins.endpoints.get? ep with
  | some ms => rfl
  | none =>
    show ((s.observed.get? id).getD ∅).get? ep = none
    cases hobserved : s.observed.get? id with
    | none => rfl
    | some eps =>
      -- an engine that was seen before would have been collected again
      by_contra hsome
      obtain ⟨ms, hms⟩ := Option.ne_none_iff_exists'.mp hsome
      have hkeys := (hgrow (id, ins) (Dict.mem_entries_iff.mpr h)).2 eps hobserved ep
        (Dict.mem_keys_iff.mpr ⟨ms, hms⟩)
      obtain ⟨ms', hms'⟩ := Dict.mem_keys_iff.mp hkeys
      rw [hep] at hms'
      cases hms'

theorem observed_part_of_some (hgrow : EnginesGrow family s collects) {ins : Collect}
    (h : collects.get? id = some ins) (label : String) :
    (observe s.observed collects).part (fun _ eps => lifeValue family label eps) id =
      lifeValue family label ins.endpoints := by
  obtain ⟨eps, heps, hget⟩ := get?_observe_of_some hgrow h
  rw [Dict.part_of_some heps]
  apply Dict.sumBy_congr
  intro ep
  unfold Dict.part
  rw [hget]

/-- **The sum over all lives does not decrease.** -/
theorem observed_sumBy_le (hgrow : EnginesGrow family s collects) (label : String) :
    s.observedTotal family label ≤
      (observe s.observed collects).sumBy fun _ eps => lifeValue family label eps := by
  apply Dict.sumBy_le
  intro id
  cases hins : collects.get? id with
  | none =>
    unfold Dict.part
    rw [get?_observe_of_none hins]
  | some ins =>
    rw [observed_part_of_some hgrow hins]
    have hengines := (hgrow (id, ins) (Dict.mem_entries_iff.mpr hins)).1
    cases hobserved : s.observed.get? id with
    | none =>
      rw [Dict.part_of_none hobserved]
      apply List.sum_nonneg
      intro v hv
      obtain ⟨⟨ep, ms⟩, hmem, rfl⟩ := List.mem_map.mp hv
      have hle := (hengines (ep, ms) hmem).le label
      unfold observedAt at hle
      rw [hobserved] at hle
      exact hle
    | some eps =>
      rw [Dict.part_of_some hobserved]
      apply Dict.sumBy_le
      intro ep
      unfold Dict.part
      cases hms : ins.endpoints.get? ep with
      | some ms =>
        have hle := (hengines (ep, ms) (Dict.mem_entries_iff.mpr hms)).le label
        unfold observedAt at hle
        rw [hobserved, Option.bind_some] at hle
        cases hold : eps.get? ep with
        | none =>
          rw [hold] at hle
          exact hle
        | some old =>
          rw [hold] at hle
          exact hle
      | none =>
        cases hold : eps.get? ep with
        | none => exact le_rfl
        | some old =>
          have hkeys := (hgrow (id, ins) (Dict.mem_entries_iff.mpr hins)).2 eps hobserved ep
            (Dict.mem_keys_iff.mpr ⟨old, hold⟩)
          obtain ⟨ms', hms'⟩ := Dict.mem_keys_iff.mp hkeys
          rw [hms] at hms'
          cases hms'

/-! ## What a round does -/

theorem parseMetrics_spec {collects' : Dict InstanceId Collect}
    (h : parseMetrics collects = some collects') : collects' = collects ∧
      ∀ id ins, collects.get? id = some ins → ins.endpoints.isEmpty = false := by
  unfold parseMetrics at h
  split at h
  · cases h
  · next hfull =>
    refine ⟨(Option.some.inj h).symm, fun id ins hins => ?_⟩
    rw [Bool.not_eq_true, List.any_eq_false] at hfull
    exact Bool.eq_false_iff.mpr (hfull ins (Dict.mem_values_iff.mpr ⟨id, hins⟩))

/-- Two collections of the same engines. -/
structure SameShape (collects collects' : Dict InstanceId Collect) : Prop where
  instances : ∀ id, collects'.get? id = none ↔ collects.get? id = none
  engines : ∀ id ep, metricsAt collects' id ep = none ↔ metricsAt collects id ep = none

theorem computePreAggregation_shape {c c' : Corrections} (h : computePreAggregation c = some c') :
    SameShape c.collects c'.collects := by
  -- any family that is not corrected will do
  have hkeeps : Keeps "" c c' := computePreAggregation_keeps (by decide) h
  constructor
  · intro id
    have hjob := hkeeps.jobs id
    unfold jobAt at hjob
    rw [← Option.map_eq_none_iff, hjob, Option.map_eq_none_iff]
  · intro id ep
    rw [← Option.map_eq_none_iff, hkeeps.families id ep, Option.map_eq_none_iff]

section Aggregated

variable {collects' : Dict InstanceId Collect}

theorem aggregateCollectsByInstance_of_some (h : SameShape collects collects')
    (hfull : ∀ id ins, collects.get? id = some ins → ins.endpoints.isEmpty = false) {ins : Collect}
    (hins : collects.get? id = some ins) :
    ∃ ms, (aggregateCollectsByInstance collects').get? id = some ms ∧
      ∀ family label, valueOf family label ms = ins.endpoints.sumBy fun ep _ =>
        (metricsAt collects' id ep).elim 0 (valueOf family label) := by
  obtain ⟨ins', hins'⟩ : ∃ ins', collects'.get? id = some ins' := by
    rw [← Option.ne_none_iff_exists', Ne, h.instances, hins]
    exact Option.some_ne_none ins
  have hget' : ∀ ep, metricsAt collects' id ep = ins'.endpoints.get? ep := by
    intro ep
    rw [metricsAt, hins']
    rfl
  have hget : ∀ ep, ins'.endpoints.get? ep = none ↔ ins.endpoints.get? ep = none := by
    intro ep
    have hep := h.engines id ep
    rw [hget', metricsAt, hins] at hep
    exact hep
  have hempty : ins'.endpoints.isEmpty = false := by
    rw [Bool.eq_false_iff, Ne, Dict.isEmpty_iff]
    intro hnone
    apply Bool.eq_false_iff.mp (hfull id ins hins)
    rw [Dict.isEmpty_iff]
    exact fun ep => (hget ep).mp (hnone ep)
  refine ⟨aggregateMetrics ins'.endpoints.values, ?_, fun family label => ?_⟩
  · unfold aggregateCollectsByInstance
    rw [Dict.get?_filterMap, hins', Option.bind_some, hempty]
    rfl
  · have hsum : (ins'.endpoints.values.map (valueOf family label)).sum =
        lifeValue family label ins'.endpoints := by
      rw [Dict.values, List.map_map]
      rfl
    rw [valueOf_aggregateMetrics, hsum]
    apply Dict.sumBy_congr
    intro ep
    show (ins'.endpoints.get? ep).elim 0 _ =
      (ins.endpoints.get? ep).elim 0 fun _ => (metricsAt collects' id ep).elim 0 (valueOf family label)
    rw [hget']
    cases hms : ins.endpoints.get? ep with
    | none =>
      rw [(hget ep).mpr hms]
      rfl
    | some ms =>
      cases ins'.endpoints.get? ep <;> rfl

theorem aggregateCollectsByInstance_of_none (h : SameShape collects collects')
    (hnone : collects.get? id = none) : (aggregateCollectsByInstance collects').get? id = none := by
  unfold aggregateCollectsByInstance
  rw [Dict.get?_filterMap, (h.instances id).mpr hnone]
  rfl

theorem aggregateCollectsByInstance_isEmpty (h : SameShape collects collects')
    (hfull : ∀ id ins, collects.get? id = some ins → ins.endpoints.isEmpty = false) :
    (aggregateCollectsByInstance collects').isEmpty = collects.isEmpty := by
  rw [Bool.eq_iff_iff, Dict.isEmpty_iff, Dict.isEmpty_iff]
  constructor
  · intro hall id
    by_contra hsome
    obtain ⟨ins, hins⟩ := Option.ne_none_iff_exists'.mp hsome
    obtain ⟨ms, hms, _⟩ := aggregateCollectsByInstance_of_some h hfull hins
    rw [hall id] at hms
    cases hms
  · exact fun hall id => aggregateCollectsByInstance_of_none h (hall id)

end Aggregated

/-- A view is generated. A collected instance is cached with its corrected metrics, the others stay as
they are. -/
structure Generated (s : MetricsCollector) (collects : Dict InstanceId Collect) (c : Corrections)
    (s' : MetricsCollector) : Prop where
  observed : s'.observed = observe s.observed collects
  states : s'.dpState = c.dpState
  history : s'.inactiveInstanceMetricsAggregate = s.inactiveInstanceMetricsAggregate
  collected : ∀ id ins, collects.get? id = some ins → ∃ ms, s'.instanceMetricsCached.get? id = some ms ∧
    ∀ family label, valueOf family label ms = ins.endpoints.sumBy fun ep _ =>
      (metricsAt c.collects id ep).elim 0 (valueOf family label)
  others : ∀ id, collects.get? id = none →
    s'.instanceMetricsCached.get? id = s.instanceMetricsCached.get? id
  view : collects.isEmpty = false → s'.fullMetrics = s'.aggregateMetricsAllInstance
  noView : collects.isEmpty = true → s'.fullMetrics = []

theorem generateFullMetrics_generated {c : Corrections} {dpState : Dict DpKey DpState}
    (hfull : ∀ id ins, collects.get? id = some ins → ins.endpoints.isEmpty = false)
    (h : computePreAggregation ⟨dpState, collects⟩ = some c) :
    Generated s collects c (generateFullMetrics { s with
      dpState := c.dpState, observed := observe s.observed collects } c.collects) := by
  have hshape : SameShape collects c.collects := computePreAggregation_shape h
  have hisEmpty := aggregateCollectsByInstance_isEmpty hshape hfull
  have hcache : ∀ id, ((aggregateCollectsByInstance c.collects).entries.foldl
      (fun cached (p : InstanceId × List Metric) => cached.insert p.1 p.2)
      s.instanceMetricsCached).get? id = ((aggregateCollectsByInstance c.collects).get? id).elim
        (s.instanceMetricsCached.get? id) some :=
    fun id => Dict.get?_foldl_update (aggregateCollectsByInstance c.collects) (fun ms _ => ms) _ id
  unfold generateFullMetrics
  simp only
  split
  · next hempty =>
    rw [hisEmpty] at hempty
    refine ⟨rfl, rfl, rfl, fun id ins hins => ?_, fun _ _ => rfl, fun hfalse => ?_, fun _ => rfl⟩
    · rw [Dict.isEmpty_iff.mp hempty id] at hins
      cases hins
    · rw [hempty] at hfalse
      cases hfalse
  · next hempty =>
    rw [hisEmpty] at hempty
    refine ⟨rfl, rfl, rfl, fun id ins hins => ?_, fun id hid => ?_, fun _ => rfl,
      fun htrue => absurd htrue hempty⟩
    · obtain ⟨ms, hms, hvalue⟩ := aggregateCollectsByInstance_of_some hshape hfull hins
      refine ⟨ms, ?_, hvalue⟩
      show Dict.get? _ id = some ms
      rw [hcache, hms]
      rfl
    · show Dict.get? _ id = _
      rw [hcache, aggregateCollectsByInstance_of_none hshape hid]
      rfl

/-- **A round** is given up, or a view is generated from what was collected and corrected. -/
theorem exec_cases (h : s.exec round = some s') :
    round.collects.bind parseMetrics = none ∧ s' = s.clearInactiveMetrics round.unavailablePool ∨
    ∃ collects c, round.collects.bind parseMetrics = some collects ∧
      computePreAggregation ⟨s.dpState, collects⟩ = some c ∧
      Generated (s.clearInactiveMetrics round.unavailablePool) collects c s' := by
  unfold exec at h
  cases hcollects : round.collects.bind parseMetrics with
  | none =>
    simp only [hcollects] at h
    exact Or.inl ⟨rfl, (Option.some.inj h).symm⟩
  | some collects =>
    simp only [hcollects] at h
    obtain ⟨c, hc, rfl⟩ := Option.map_eq_some_iff.mp h
    obtain ⟨collects', _, hparse⟩ := Option.bind_eq_some_iff.mp hcollects
    obtain ⟨rfl, hfull⟩ := parseMetrics_spec hparse
    exact Or.inr ⟨collects, c, rfl, hc, generateFullMetrics_generated hfull hc⟩

theorem get?_clearInactiveMetrics (s : MetricsCollector) (pool : Dict InstanceId String)
    (id : InstanceId) : (s.clearInactiveMetrics pool).instanceMetricsCached.get? id =
      if pool.contains id = true then none else s.instanceMetricsCached.get? id := by
  unfold clearInactiveMetrics
  rw [Dict.get?_filter]
  cases s.instanceMetricsCached.get? id <;> cases pool.contains id <;> rfl

end MetricsCollector

end PyMotor.Coordinator
