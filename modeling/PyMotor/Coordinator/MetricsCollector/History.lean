import PyMotor.Coordinator.MetricsCollector.Lives

/-!
# Counters that the history keeps

A counter that is not inherited is cached while its instance is available and is in the history
afterwards. The cache has what the engines of the instance have reported last, and the history has this of
all instances that are not in the cache (`InHistory`), so that nothing is lost when an instance moves from
one to the other.
-/

namespace PyMotor.Coordinator

namespace MetricsCollector

variable {family label : String} {s s' : MetricsCollector} {collects : Dict InstanceId Collect}
  {pool : Dict InstanceId String} {round : Round} {c : Corrections} {id : InstanceId}

structure InHistory (family : String) (s : MetricsCollector) : Prop where
  cached : ∀ id ms, s.instanceMetricsCached.get? id = some ms → ∀ label,
    valueOf family label ms = s.observed.part (fun _ eps => lifeValue family label eps) id
  history : ∀ label, s.historyOf family label = s.observed.sumBy fun id eps =>
    if s.instanceMetricsCached.contains id = true then 0 else lifeValue family label eps

theorem InHistory.new (family : String) : InHistory family MetricsCollector.new where
  cached _ _ h := by cases h
  history _ := rfl

theorem historyPart (s : MetricsCollector) (family label : String) (id : InstanceId) :
    s.observed.part (fun id eps =>
      if s.instanceMetricsCached.contains id = true then 0 else lifeValue family label eps) id =
    if s.instanceMetricsCached.contains id = true then 0
    else s.observed.part (fun _ eps => lifeValue family label eps) id := by
  unfold Dict.part
  cases s.observed.get? id with
  | none => exact (ite_self 0).symm
  | some eps => rfl

theorem InHistory.clear (h : InHistory family s) (hfamily : family ∉ inheritedMetricNames)
    (pool : Dict InstanceId String) : InHistory family (s.clearInactiveMetrics pool) where
  cached id ms hms := by
    rw [get?_clearInactiveMetrics] at hms
    split at hms
    · cases hms
    · exact h.cached id ms hms
  history label := by
    rw [historyOf_clearInactiveMetrics, h.history]
    apply Dict.sumBy_add
    intro id
    show s.observed.part _ id + _ =
      (s.clearInactiveMetrics pool).observed.part _ id
    rw [historyPart, historyPart]
    show _ = if _ then _ else s.observed.part _ id
    have hcontains : (s.clearInactiveMetrics pool).instanceMetricsCached.contains id = true ↔
        pool.contains id = false ∧ s.instanceMetricsCached.contains id = true := by
      unfold Dict.contains
      rw [get?_clearInactiveMetrics]
      unfold Dict.contains
      cases (pool.get? id).isSome <;> simp
    cases hpool : pool.get? id with
    | none =>
      -- the pool does not have it
      have hout : pool.contains id = false := Bool.eq_false_iff.mpr (Dict.not_contains_of_none hpool)
      rw [Dict.part_of_none hpool, add_zero]
      apply if_congr _ rfl rfl
      rw [hcontains, hout]
      exact ⟨fun hcached => ⟨rfl, hcached⟩, And.right⟩
    | some role =>
      have hgone : ¬(s.clearInactiveMetrics pool).instanceMetricsCached.contains id = true := by
        rw [hcontains, Dict.contains_of_some hpool]
        rintro ⟨hfalse, _⟩
        cases hfalse
      rw [Dict.part_of_some hpool, if_neg hgone]
      cases hms : s.instanceMetricsCached.get? id with
      | none =>
        rw [if_neg (Dict.not_contains_of_none hms), Dict.part_of_none hms, add_zero]
      | some ms =>
        rw [if_pos (Dict.contains_of_some hms), Dict.part_of_some hms, zero_add,
          valueOf_retired hfamily]
        exact h.cached id ms hms label

theorem Generated.valueOf_collected (h : Generated s collects c s')
    (hfamily : family ∉ inheritedMetricNames)
    (hc : computePreAggregation ⟨s.dpState, collects⟩ = some c) {ins : Collect}
    (hins : collects.get? id = some ins) : ∃ ms, s'.instanceMetricsCached.get? id = some ms ∧
      ∀ label, valueOf family label ms = lifeValue family label ins.endpoints := by
  obtain ⟨ms, hms, hvalue⟩ := h.collected id ins hins
  refine ⟨ms, hms, fun label => ?_⟩
  rw [hvalue]
  apply Dict.sumBy_congr
  intro ep
  cases hep : ins.endpoints.get? ep with
  | none => rw [Dict.part_of_none hep, Dict.part_of_none hep]
  | some old =>
    rw [Dict.part_of_some hep, Dict.part_of_some hep]
    have hkeeps := (computePreAggregation_keeps hfamily hc).families id ep
    rw [show metricsAt collects id ep = some old by rw [metricsAt, hins]; exact hep,
      Option.map_some] at hkeeps
    obtain ⟨new, hnew, hsame⟩ := Option.map_eq_some_iff.mp hkeeps
    rw [hnew]
    exact valueOf_congr hsame

theorem Generated.contains_iff (h : Generated s collects c s') (id : InstanceId) :
    s'.instanceMetricsCached.contains id = true ↔
      collects.contains id = true ∨ s.instanceMetricsCached.contains id = true := by
  cases hins : collects.get? id with
  | none =>
    unfold Dict.contains
    rw [h.others id hins, hins]
    exact ⟨Or.inr, fun hor => hor.resolve_left Bool.false_ne_true⟩
  | some ins =>
    obtain ⟨ms, hms, _⟩ := h.collected id ins hins
    unfold Dict.contains
    rw [hms, hins]
    exact ⟨fun _ => Or.inl rfl, fun _ => rfl⟩

theorem InHistory.generated (h : InHistory family s) (hfamily : family ∉ inheritedMetricNames)
    (hgrow : EnginesGrow family s collects)
    (hstays : ∀ id, collects.contains id = true → s.observed.contains id = true →
      s.instanceMetricsCached.contains id = true)
    (hc : computePreAggregation ⟨s.dpState, collects⟩ = some c) (hs' : Generated s collects c s') :
    InHistory family s' := by
  constructor
  · intro id ms hms label
    rw [hs'.observed]
    cases hins : collects.get? id with
    | some ins =>
      obtain ⟨ms', hms', hvalue⟩ := hs'.valueOf_collected hfamily hc hins
      rw [hms'] at hms
      cases hms
      rw [observed_part_of_some hgrow hins, hvalue]
    | none =>
      rw [hs'.others id hins] at hms
      rw [h.cached id ms hms]
      unfold Dict.part
      rw [get?_observe_of_none hins]
  · intro label
    have hhistory : s'.historyOf family label = s.historyOf family label := by
      unfold historyOf
      rw [hs'.history]
    rw [hhistory, h.history]
    apply Dict.sumBy_congr
    intro id
    rw [historyPart, historyPart]
    cases hins : collects.get? id with
    | none =>
      apply if_congr
      · rw [hs'.contains_iff]
        exact ⟨Or.inr, fun hor => hor.resolve_left (Dict.not_contains_of_none hins)⟩
      · rfl
      · unfold Dict.part
        rw [hs'.observed, get?_observe_of_none hins]
    | some ins =>
      have hin := Dict.contains_of_some hins
      rw [if_pos ((hs'.contains_iff id).mpr (Or.inl hin)), ite_eq_left_iff]
      -- it has not been seen before, so the history does not have it
      intro hout
      apply Dict.part_of_none
      by_contra hobserved
      obtain ⟨eps, heps⟩ := Option.ne_none_iff_exists'.mp hobserved
      exact hout (hstays id hin (Dict.contains_of_some heps))

theorem InHistory.view (h : InHistory family s) (label : String) :
    valueOf family label s.aggregateMetricsAllInstance = s.observedTotal family label := by
  rw [valueOf_aggregateMetricsAllInstance, h.history]
  apply Dict.sumBy_add
  intro id
  rw [historyPart]
  cases hms : s.instanceMetricsCached.get? id with
  | none =>
    rw [Dict.part_of_none hms, zero_add, if_neg (Dict.not_contains_of_none hms)]
  | some ms =>
    rw [Dict.part_of_some hms, if_pos (Dict.contains_of_some hms), add_zero]
    exact h.cached id ms hms label

end MetricsCollector

end PyMotor.Coordinator
