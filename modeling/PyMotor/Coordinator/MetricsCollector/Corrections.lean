import Mathlib.Tactic.Ring
import PyMotor.Coordinator.MetricsCollector.Values

/-!
# What the corrections change

Every correction works on the metrics of one engine and on one state, that of its job at its rank. As long
as no two instances of a round belong to the same job, the corrections do not meet, so each engine's
counter is corrected from the state before the round (`computeCounterRates_corrected`). Families that are not
inherited keep their values (`computePreAggregation_keeps`).
-/

namespace PyMotor.Coordinator

variable {family label src : String} {id : InstanceId} {ep : EndpointId}

/-- The metrics of an engine. -/
def metricsAt (collects : Dict InstanceId Collect) (id : InstanceId) (ep : EndpointId) :
    Option (List Metric) :=
  (collects.get? id).bind fun ins => ins.endpoints.get? ep

/-- The job of an instance. -/
def jobAt (collects : Dict InstanceId Collect) (id : InstanceId) : Option String :=
  (collects.get? id).map Collect.jobName

theorem mem_engines {collects : Dict InstanceId Collect} :
    (id, ep) ∈ engines collects ↔ ∃ ms, metricsAt collects id ep = some ms := by
  unfold engines metricsAt
  rw [List.mem_flatMap]
  constructor
  · rintro ⟨⟨k, ins⟩, hentry, hmem⟩
    obtain ⟨ep', hep, heq⟩ := List.mem_map.mp hmem
    cases heq
    obtain ⟨ms, hms⟩ := Dict.mem_keys_iff.mp hep
    exact ⟨ms, by rw [Dict.mem_entries_iff.mp hentry]; exact hms⟩
  · rintro ⟨ms, hms⟩
    obtain ⟨ins, hins, hms⟩ := Option.bind_eq_some_iff.mp hms
    exact ⟨(id, ins), Dict.mem_entries_iff.mpr hins,
      List.mem_map.mpr ⟨ep, Dict.mem_keys_iff.mpr ⟨ms, hms⟩, rfl⟩⟩

theorem nodup_engines (collects : Dict InstanceId Collect) : (engines collects).Nodup := by
  unfold engines
  rw [List.nodup_flatMap]
  constructor
  · intro p _
    exact p.2.endpoints.nodup.map fun _ _ heq => (Prod.mk.inj heq).2
  · have hkeys := collects.nodup
    rw [List.Nodup, List.pairwise_map] at hkeys
    refine hkeys.imp fun {p q} hne => ?_
    show List.Disjoint _ _
    rw [List.disjoint_left]
    rintro ⟨i, e⟩ hp hq
    obtain ⟨_, _, heq⟩ := List.mem_map.mp hp
    obtain ⟨_, _, heq'⟩ := List.mem_map.mp hq
    exact hne ((Prod.mk.inj heq).1.trans (Prod.mk.inj heq').1.symm)

/-! ## One family -/

theorem correctMetric_none {state : Option DpState} {ms : List Metric}
    {r : Option DpState × List Metric} (h : correctMetric src state id ms = some r) (hr : r.1 = none) :
    state = none := by
  induction ms generalizing r with
  | nil =>
    cases h
    exact hr
  | cons m ms ih =>
    unfold correctMetric at h
    split at h
    · simp only at h
      split at h
      · cases h
        cases hr
      · split at h
        · cases h
        · cases h
          cases hr
    · obtain ⟨r', hr', rfl⟩ := Option.map_eq_some_iff.mp h
      exact ih hr' hr

theorem correctMetric_keeps {state : Option DpState} {ms : List Metric}
    {r : Option DpState × List Metric} (h : correctMetric src state id ms = some r)
    (hne : family ≠ src) : familyOf family r.2 = familyOf family ms := by
  induction ms generalizing r with
  | nil =>
    cases h
    rfl
  | cons m ms ih =>
    unfold correctMetric at h
    split at h
    · next hname =>
      have hother : m.name ≠ family := fun heq => hne (heq.symm.trans hname)
      simp only at h
      split at h
      · cases h
        rfl
      · split at h
        · cases h
        · cases h
          rw [familyOf_cons_of_ne hother,
            familyOf_cons_of_ne (show (m.shift _).name ≠ family from hother)]
    · obtain ⟨r', hr', rfl⟩ := Option.map_eq_some_iff.mp h
      show familyOf family ([m] ++ r'.2) = familyOf family ([m] ++ ms)
      unfold familyOf at ih ⊢
      rw [List.filter_append, List.filter_append, ih hr']

/-- The family is reported once at most, and under one label. -/
def SingleLabel (family label : String) (ms : List Metric) : Prop :=
  (familyOf family ms).length ≤ 1 ∧ ∀ m ∈ familyOf family ms, ∀ p ∈ m.samples, p.1 = label

instance (family label : String) (ms : List Metric) : Decidable (SingleLabel family label ms) :=
  inferInstanceAs (Decidable (_ ∧ _))

theorem valueAt_of_ne {m : Metric} {label' : String} (h : ∀ p ∈ m.samples, p.1 = label)
    (hne : label' ≠ label) : m.valueAt label' = 0 := by
  have hnone : (m.samples.filter fun p => decide (p.1 = label')) = [] := by
    rw [List.filter_eq_nil_iff]
    intro p hp hlabel
    exact hne ((of_decide_eq_true hlabel).symm.trans (h p hp))
  rw [Metric.valueAt, hnone]
  rfl

theorem valueAt_of_samples {m : Metric} (h : ∀ p ∈ m.samples, p.1 = label) :
    m.valueAt label = m.total := by
  unfold Metric.valueAt Metric.total
  rw [List.filter_eq_self.mpr fun p hp => decide_eq_true (h p hp)]

theorem SingleLabel.valueOf_ne {ms : List Metric} {label' : String} (h : SingleLabel family label ms)
    (hne : label' ≠ label) : valueOf family label' ms = 0 := by
  apply List.sum_eq_zero
  intro v hv
  obtain ⟨m, hm, rfl⟩ := List.mem_map.mp hv
  exact valueAt_of_ne (h.2 m hm) hne

theorem total_shift (m : Metric) (amount : ℚ) :
    (m.shift amount).total = m.total + amount * m.samples.length := by
  unfold Metric.total Metric.shift
  simp only
  induction m.samples with
  | nil => simp
  | cons p ps ih =>
    simp only [List.map_cons, List.sum_cons, List.length_cons, Nat.cast_add, Nat.cast_one] at ih ⊢
    rw [ih]
    ring

/-- **A correction under one label**: the family is missing, or its value becomes the effective one. -/
theorem correctMetric_spec {state : Option DpState} {ms : List Metric}
    {r : Option DpState × List Metric} (hsingle : SingleLabel family label ms)
    (h : correctMetric family state id ms = some r) :
    familyOf family ms = [] ∧ r = (state, ms) ∨
    familyOf family ms ≠ [] ∧
      r.1 = some (computeEffective state (valueOf family label ms) id) ∧
      ∀ label', valueOf family label' r.2 = if label' = label then
        (computeEffective state (valueOf family label ms) id).lastEffective else 0 := by
  induction ms generalizing r with
  | nil =>
    cases h
    exact Or.inl ⟨rfl, rfl⟩
  | cons m ms ih =>
    unfold correctMetric at h
    split at h
    · next hname =>
      -- there is no second family of the name
      have hfamily := familyOf_cons_of_eq hname ms
      have hrest : familyOf family ms = [] := by
        have honce := hsingle.1
        rw [hfamily, List.length_cons] at honce
        exact List.eq_nil_of_length_eq_zero (by omega)
      have hsamples := hsingle.2 m (by rw [hfamily]; exact List.mem_cons_self)
      have hvalue : valueOf family label (m :: ms) = m.total := by
        rw [valueOf_cons_of_eq hname, valueOf_of_absent hrest, add_zero, valueAt_of_samples hsamples]
      refine Or.inr ⟨by rw [hfamily]; exact List.cons_ne_nil _ _, ?_⟩
      rw [hvalue]
      simp only at h
      split at h
      · next hoffset =>
        cases h
        refine ⟨rfl, fun label' => ?_⟩
        split
        · next heq =>
          rw [heq, hvalue]
          linarith
        · next hne => exact hsingle.valueOf_ne hne
      · split at h
        · cases h
        · next hoffset hne =>
          cases h
          refine ⟨rfl, fun label' => ?_⟩
          have hshift : ∀ p ∈ (m.shift (((computeEffective state m.total id).lastEffective -
              m.total) / m.samples.length)).samples, p.1 = label := by
            intro p hp
            obtain ⟨q, hq, rfl⟩ := List.mem_map.mp hp
            exact hsamples q hq
          rw [valueOf_cons_of_eq (show (m.shift _).name = family from hname),
            valueOf_of_absent hrest, add_zero]
          split
          · next heq =>
            have hlength : (m.samples.length : ℚ) ≠ 0 := by
              rw [Nat.cast_ne_zero]
              exact fun hzero => hne (List.length_eq_zero_iff.mp hzero)
            rw [heq, valueAt_of_samples hshift, total_shift, div_mul_cancel₀ _ hlength]
            linarith
          · next hlabel => exact valueAt_of_ne hshift hlabel
    · next hname =>
      obtain ⟨r', hr', rfl⟩ := Option.map_eq_some_iff.mp h
      rw [SingleLabel, familyOf_cons_of_ne hname] at hsingle
      rw [familyOf_cons_of_ne hname, valueOf_cons_of_ne hname]
      rcases ih hsingle hr' with ⟨habsent, rfl⟩ | ⟨hpresent, hstate, hvalue⟩
      · exact Or.inl ⟨habsent, rfl⟩
      · refine Or.inr ⟨hpresent, hstate, fun label' => ?_⟩
        rw [valueOf_cons_of_ne hname]
        exact hvalue label'

/-! ## One engine -/

namespace Corrections

variable {c c' : Corrections} {ins : Collect}

theorem metricsAt_setEndpoint (hins : c.collects.get? id = some ins) (dp : Dict DpKey DpState)
    (ms : List Metric) (id' : InstanceId) (ep' : EndpointId) :
    metricsAt (c.setEndpoint id ins ep dp ms).collects id' ep' =
      if id = id' ∧ ep = ep' then some ms else metricsAt c.collects id' ep' := by
  unfold metricsAt setEndpoint
  simp only
  rw [Dict.get?_insert]
  by_cases hid : id = id'
  · subst hid
    rw [if_pos rfl, hins]
    show (ins.endpoints.insert ep ms).get? ep' = _
    rw [Dict.get?_insert]
    by_cases hep : ep = ep'
    · rw [if_pos hep, if_pos ⟨rfl, hep⟩]
    · rw [if_neg hep, if_neg fun h => hep h.2]
      rfl
  · rw [if_neg hid, if_neg fun h => hid h.1]

theorem jobAt_setEndpoint (hins : c.collects.get? id = some ins) (dp : Dict DpKey DpState)
    (ms : List Metric) (id' : InstanceId) :
    jobAt (c.setEndpoint id ins ep dp ms).collects id' = jobAt c.collects id' := by
  unfold jobAt setEndpoint
  simp only
  rw [Dict.get?_insert]
  split
  · next hid =>
    subst hid
    rw [hins]
    rfl
  · rfl

theorem correctEndpoint_cases (h : c.correctEndpoint src id ep = some c') :
    c' = c ∧ (jobAt c.collects id = some "" ∨ metricsAt c.collects id ep = none) ∨
    ∃ job ms r, jobAt c.collects id = some job ∧ job ≠ "" ∧ metricsAt c.collects id ep = some ms ∧
      correctMetric src (c.dpState.get? (job, ep, src)) id ms = some r ∧
      (∀ id', jobAt c'.collects id' = jobAt c.collects id') ∧
      (∀ id' ep', metricsAt c'.collects id' ep' =
        if id = id' ∧ ep = ep' then some r.2 else metricsAt c.collects id' ep') ∧
      c'.dpState.get? (job, ep, src) = r.1 ∧
      ∀ key, key ≠ (job, ep, src) → c'.dpState.get? key = c.dpState.get? key := by
  unfold correctEndpoint at h
  split at h
  · next hnone =>
    cases h
    exact Or.inl ⟨rfl, Or.inr (by rw [metricsAt, hnone]; rfl)⟩
  · next ins hins =>
    have hjob : jobAt c.collects id = some ins.jobName := by rw [jobAt, hins]; rfl
    split at h
    · next hempty =>
      cases h
      exact Or.inl ⟨rfl, Or.inl (hempty ▸ hjob)⟩
    · next hnonempty =>
      split at h
      · next hep =>
        cases h
        exact Or.inl ⟨rfl, Or.inr (by rw [metricsAt, hins]; exact hep)⟩
      · next ms hms =>
        obtain ⟨r, hr, rfl⟩ := Option.map_eq_some_iff.mp h
        refine Or.inr ⟨ins.jobName, ms, r, hjob, hnonempty, by rw [metricsAt, hins]; exact hms,
          hr, fun id' => jobAt_setEndpoint hins _ _ id', fun id' ep' =>
          metricsAt_setEndpoint hins _ _ id' ep', ?_, ?_⟩
        · unfold setEndpoint
          simp only
          split
          · next hstate =>
            rw [hstate]
            exact correctMetric_none hr hstate
          · next state hstate =>
            rw [hstate]
            exact Dict.get?_insert_self _ _ _
        · intro key hkey
          unfold setEndpoint
          simp only
          split
          · rfl
          · exact Dict.get?_insert_ne _ _ (Ne.symm hkey)

end Corrections

/-! ## All engines -/

section Engines

variable {c c' c'' : Corrections} {lab : String → EndpointId → String}

/-- Corrections that have nothing to do with a family. -/
structure Keeps (family : String) (c c' : Corrections) : Prop where
  jobs : ∀ id, jobAt c'.collects id = jobAt c.collects id
  families : ∀ id ep, (metricsAt c'.collects id ep).map (familyOf family) =
    (metricsAt c.collects id ep).map (familyOf family)
  states : ∀ job ep, c'.dpState.get? (job, ep, family) = c.dpState.get? (job, ep, family)

theorem Keeps.refl (family : String) (c : Corrections) : Keeps family c c :=
  ⟨fun _ => rfl, fun _ _ => rfl, fun _ _ => rfl⟩

theorem Keeps.trans (h : Keeps family c c') (h' : Keeps family c' c'') : Keeps family c c'' where
  jobs id := (h'.jobs id).trans (h.jobs id)
  families id ep := (h'.families id ep).trans (h.families id ep)
  states job ep := (h'.states job ep).trans (h.states job ep)

theorem correctEndpoint_keeps (hne : family ≠ src) (h : c.correctEndpoint src id ep = some c') :
    Keeps family c c' := by
  rcases Corrections.correctEndpoint_cases h with
    ⟨rfl, _⟩ | ⟨job, ms, r, _, _, hms, hr, hjobs, hmetrics, _, hstates⟩
  · exact Keeps.refl family c'
  · refine ⟨hjobs, fun id' ep' => ?_, fun job' ep' => ?_⟩
    · rw [hmetrics]
      split
      · next heq =>
        rw [← heq.1, ← heq.2, hms, Option.map_some, Option.map_some, correctMetric_keeps hr hne]
      · rfl
    · exact hstates _ fun heq => hne (Prod.mk.inj (Prod.mk.inj heq).2).2

theorem computeCounterRates_keeps (hne : family ≠ src) (h : computeCounterRates c src = some c') :
    Keeps family c c' := by
  unfold computeCounterRates at h
  generalize engines c.collects = es at h
  induction es generalizing c with
  | nil =>
    cases h
    exact Keeps.refl family _
  | cons p es ih =>
    rw [List.foldlM_cons] at h
    obtain ⟨c₁, hc₁, h⟩ := Option.bind_eq_some_iff.mp h
    exact (correctEndpoint_keeps hne hc₁).trans (ih h)

/-- **A family that is not inherited is not corrected.** -/
theorem computePreAggregation_keeps (hfamily : family ∉ inheritedMetricNames)
    (h : computePreAggregation c = some c') : Keeps family c c' := by
  unfold computePreAggregation at h
  generalize inheritedMetricNames = names at h hfamily
  induction names generalizing c with
  | nil =>
    cases h
    exact Keeps.refl family _
  | cons name names ih =>
    rw [List.foldlM_cons] at h
    obtain ⟨c₁, hc₁, h⟩ := Option.bind_eq_some_iff.mp h
    rw [List.mem_cons, not_or] at hfamily
    exact (computeCounterRates_keeps hfamily.1 hc₁).trans (ih h hfamily.2)

/-- What the correction of a family makes of the metrics of an engine and the state of its job at its
rank. -/
structure Corrects (family label : String) (id : InstanceId) (ms ms' : List Metric)
    (state state' : Option DpState) : Prop where
  absent : familyOf family ms = [] → state' = state ∧ ∀ label', valueOf family label' ms' = 0
  present : familyOf family ms ≠ [] →
    state' = some (computeEffective state (valueOf family label ms) id) ∧
      ∀ label', valueOf family label' ms' = if label' = label then
        (computeEffective state (valueOf family label ms) id).lastEffective else 0

/-- Every engine's family is corrected, and nothing else happens to the states of the family. -/
structure Corrected (family : String) (lab : String → EndpointId → String) (c c' : Corrections) :
    Prop where
  jobs : ∀ id, jobAt c'.collects id = jobAt c.collects id
  missing : ∀ id ep, metricsAt c.collects id ep = none → metricsAt c'.collects id ep = none
  own : ∀ id ep job ms, jobAt c.collects id = some job → metricsAt c.collects id ep = some ms →
    ∃ ms', metricsAt c'.collects id ep = some ms' ∧
      Corrects family (lab job ep) id ms ms' (c.dpState.get? (job, ep, family))
        (c'.dpState.get? (job, ep, family))
  frame : ∀ job ep, (∀ id, jobAt c.collects id = some job → metricsAt c.collects id ep = none) →
    c'.dpState.get? (job, ep, family) = c.dpState.get? (job, ep, family)

theorem Keeps.corrected (h : Keeps family c c') (h' : Corrected family lab c' c'') :
    Corrected family lab c c'' where
  jobs id := (h'.jobs id).trans (h.jobs id)
  missing id ep hnone := by
    apply h'.missing
    have hfamilies := h.families id ep
    rw [hnone, Option.map_none, Option.map_eq_none_iff] at hfamilies
    exact hfamilies
  own id ep job ms hjob hms := by
    have hfamilies := h.families id ep
    rw [hms, Option.map_some] at hfamilies
    obtain ⟨ms₁, hms₁, hsame⟩ := Option.map_eq_some_iff.mp hfamilies
    obtain ⟨ms', hms', hcorrects⟩ := h'.own id ep job ms₁ ((h.jobs id).trans hjob) hms₁
    refine ⟨ms', hms', ?_⟩
    rw [h.states] at hcorrects
    exact ⟨fun habsent => hcorrects.absent (hsame.trans habsent), fun hpresent => by
      rw [← valueOf_congr hsame]
      exact hcorrects.present fun habsent => hpresent (hsame.symm.trans habsent)⟩
  frame job ep hnone := by
    rw [h'.frame job ep fun id hjob => ?_, h.states]
    have hfamilies := h.families id ep
    rw [hnone id ((h.jobs id).symm.trans hjob), Option.map_none, Option.map_eq_none_iff] at hfamilies
    exact hfamilies

theorem Corrected.keeps (h : Corrected family lab c c') (h' : Keeps family c' c'') :
    Corrected family lab c c'' where
  jobs id := (h'.jobs id).trans (h.jobs id)
  missing id ep hnone := by
    have hfamilies := h'.families id ep
    rw [h.missing id ep hnone, Option.map_none, Option.map_eq_none_iff] at hfamilies
    exact hfamilies
  own id ep job ms hjob hms := by
    obtain ⟨ms', hms', hcorrects⟩ := h.own id ep job ms hjob hms
    have hfamilies := h'.families id ep
    rw [hms', Option.map_some] at hfamilies
    obtain ⟨ms'', hms'', hsame⟩ := Option.map_eq_some_iff.mp hfamilies
    refine ⟨ms'', hms'', ?_⟩
    rw [h'.states]
    refine ⟨fun habsent => ⟨(hcorrects.absent habsent).1, fun label' => ?_⟩, fun hpresent =>
      ⟨(hcorrects.present hpresent).1, fun label' => ?_⟩⟩
    · rw [valueOf_congr hsame]
      exact (hcorrects.absent habsent).2 label'
    · rw [valueOf_congr hsame]
      exact (hcorrects.present hpresent).2 label'
  frame job ep hnone := (h'.states job ep).trans (h.frame job ep hnone)

end Engines

section Inherited

variable {c c' : Corrections} {lab : String → EndpointId → String}

/-- The instances of a round belong to different jobs, and their engines report the family under the label
of their job at their rank. -/
structure Separate (family : String) (lab : String → EndpointId → String) (c : Corrections) : Prop where
  named : ∀ id, jobAt c.collects id ≠ some ""
  apart : ∀ id id' job, jobAt c.collects id = some job → jobAt c.collects id' = some job → id = id'
  single : ∀ id ep job ms, jobAt c.collects id = some job → metricsAt c.collects id ep = some ms →
    SingleLabel family (lab job ep) ms

theorem Separate.keeps (h : Separate family lab c) (h' : Keeps family c c') :
    Separate family lab c' where
  named id := by
    rw [h'.jobs]
    exact h.named id
  apart id id' job hjob hjob' :=
    h.apart id id' job ((h'.jobs id).symm.trans hjob) ((h'.jobs id').symm.trans hjob')
  single id ep job ms hjob hms := by
    have hfamilies := h'.families id ep
    rw [hms, Option.map_some, eq_comm] at hfamilies
    obtain ⟨ms₀, hms₀, hsame⟩ := Option.map_eq_some_iff.mp hfamilies
    have hsingle := h.single id ep job ms₀ ((h'.jobs id).symm.trans hjob) hms₀
    rw [SingleLabel, hsame] at hsingle
    exact hsingle

theorem correctMetric_corrects {ms : List Metric} {state : Option DpState}
    {r : Option DpState × List Metric} (hsingle : SingleLabel family label ms)
    (h : correctMetric family state id ms = some r) : Corrects family label id ms r.2 state r.1 := by
  rcases correctMetric_spec hsingle h with ⟨habsent, rfl⟩ | ⟨hpresent, hstate, hvalue⟩
  · exact ⟨fun _ => ⟨rfl, fun _ => valueOf_of_absent habsent⟩, fun hpresent => absurd habsent hpresent⟩
  · exact ⟨fun habsent => absurd habsent hpresent, fun _ => ⟨hstate, hvalue⟩⟩

/-- What all corrections leave alone. -/
def SameEngines (c c₁ : Corrections) : Prop :=
  (∀ id, jobAt c₁.collects id = jobAt c.collects id) ∧
    ∀ id ep, metricsAt c.collects id ep = none → metricsAt c₁.collects id ep = none

/-- What an engine's correction looks at, and all that it changes. -/
def engineState (family : String) (c : Corrections) (p : InstanceId × EndpointId)
    (c₁ : Corrections) : Option (List Metric) × Option DpState :=
  (metricsAt c₁.collects p.1 p.2, c₁.dpState.get? ((jobAt c.collects p.1).getD "", p.2, family))

theorem SameEngines.step {c₁ c₂ : Corrections} (h : SameEngines c c₁)
    (he : c₁.correctEndpoint family id ep = some c₂) : SameEngines c c₂ := by
  rcases Corrections.correctEndpoint_cases he with
    ⟨rfl, _⟩ | ⟨job, ms, r, _, _, hms, _, hjobs, hmetrics, _, _⟩
  · exact h
  · refine ⟨fun id' => (hjobs id').trans (h.1 id'), fun id' ep' hnone => ?_⟩
    rw [hmetrics]
    split
    · next heq =>
      rw [← heq.1, ← heq.2] at hnone
      rw [h.2 id ep hnone] at hms
      cases hms
    · exact h.2 id' ep' hnone

/-- A correction changes one state of the family at most, that of the engine's own job and rank. -/
theorem SameEngines.frame {c₁ c₂ : Corrections} (h : SameEngines c c₁)
    (he : c₁.correctEndpoint family id ep = some c₂) {job' : String} {ep' : EndpointId}
    (hne : ¬(jobAt c.collects id = some job' ∧ ep = ep')) :
    c₂.dpState.get? (job', ep', family) = c₁.dpState.get? (job', ep', family) := by
  rcases Corrections.correctEndpoint_cases he with
    ⟨rfl, _⟩ | ⟨job, ms, r, hjob, _, _, _, _, _, _, hstates⟩
  · rfl
  · apply hstates
    intro heq
    obtain ⟨rfl, hep⟩ := Prod.mk.inj heq
    exact hne ⟨(h.1 id).symm.trans hjob, (Prod.mk.inj hep).1.symm⟩

theorem engineState_of_jobAt {job : String} (hjob : jobAt c.collects id = some job)
    (c₁ : Corrections) : engineState family c (id, ep) c₁ =
      (metricsAt c₁.collects id ep, c₁.dpState.get? (job, ep, family)) := by
  unfold engineState
  rw [hjob]
  rfl

theorem SameEngines.own {c₁ c₂ : Corrections} (h : SameEngines c c₁)
    (hnamed : jobAt c.collects id ≠ some "") (he : c₁.correctEndpoint family id ep = some c₂)
    {job : String} {ms : List Metric} (hjob : jobAt c.collects id = some job)
    (hms : (engineState family c (id, ep) c₁).1 = some ms) :
    ∃ r, correctMetric family (engineState family c (id, ep) c₁).2 id ms = some r ∧
      engineState family c (id, ep) c₂ = (some r.2, r.1) := by
  rw [engineState_of_jobAt hjob] at hms ⊢
  rw [engineState_of_jobAt hjob]
  rcases Corrections.correctEndpoint_cases he with
    ⟨rfl, hjob' | hms'⟩ | ⟨job', ms', r, hjob', _, hms', hr, _, hmetrics, hstate, _⟩
  · rw [h.1] at hjob'
    exact absurd hjob' hnamed
  · rw [show metricsAt c₂.collects id ep = some ms from hms] at hms'
    cases hms'
  · rw [h.1, hjob] at hjob'
    cases hjob'
    rw [show metricsAt c₁.collects id ep = some ms from hms] at hms'
    cases hms'
    exact ⟨r, hr, by rw [hstate, hmetrics, if_pos ⟨rfl, rfl⟩]⟩

theorem SameEngines.other {c₁ c₂ : Corrections} (h : SameEngines c c₁)
    (he : c₁.correctEndpoint family id ep = some c₂) {id' : InstanceId} {ep' : EndpointId}
    {job' : String} (hjob' : jobAt c.collects id' = some job')
    (hapart : jobAt c.collects id = some job' → id = id') (hne : (id', ep') ≠ (id, ep)) :
    engineState family c (id', ep') c₂ = engineState family c (id', ep') c₁ := by
  have hmetrics : metricsAt c₂.collects id' ep' = metricsAt c₁.collects id' ep' := by
    rcases Corrections.correctEndpoint_cases he with
      ⟨rfl, _⟩ | ⟨_, _, _, _, _, _, _, _, hmetrics, _, _⟩
    · rfl
    · rw [hmetrics, if_neg]
      rintro ⟨rfl, rfl⟩
      exact hne rfl
  rw [engineState_of_jobAt hjob', engineState_of_jobAt hjob', hmetrics, h.frame he]
  rintro ⟨hjob, rfl⟩
  cases hapart hjob
  exact hne rfl

/-- **Each engine is corrected from the state before the round.** -/
theorem computeCounterRates_corrected (hseparate : Separate family lab c)
    (h : computeCounterRates c family = some c') : Corrected family lab c c' := by
  unfold computeCounterRates at h
  have hstart : SameEngines c c := ⟨fun _ => rfl, fun _ _ hnone => hnone⟩
  have hkeep : ∀ p ∈ engines c.collects, ∀ {c₁ c₂ : Corrections}, SameEngines c c₁ →
      c₁.correctEndpoint family p.1 p.2 = some c₂ → SameEngines c c₂ :=
    fun p _ _ _ hI he => hI.step he
  have hjobOf : ∀ p ∈ engines c.collects, ∃ job, jobAt c.collects p.1 = some job := by
    rintro ⟨id, ep⟩ hp
    obtain ⟨ms, hms⟩ := mem_engines.mp hp
    obtain ⟨ins, hins, _⟩ := Option.bind_eq_some_iff.mp hms
    exact ⟨ins.jobName, by rw [jobAt, hins]; rfl⟩
  have hend : SameEngines c c' := foldlM_invariant hkeep hstart h
  -- no correction touches what another one works on
  have hown := foldlM_local (I := SameEngines c) (engineState family c)
    (fun p before after => ∀ job ms, jobAt c.collects p.1 = some job → before.1 = some ms →
      ∃ r, correctMetric family before.2 p.1 ms = some r ∧ after = (some r.2, r.1))
    (nodup_engines c.collects) hkeep
    (fun p _ _ _ hI he job ms hjob hms => hI.own (hseparate.named p.1) he hjob hms)
    (by
      rintro p _ p' hp' hne c₁ c₂ hI he
      obtain ⟨job', hjob'⟩ := hjobOf p' hp'
      exact hI.other he hjob' (fun hjob => hseparate.apart _ _ job' hjob hjob') hne)
    hstart h
  refine ⟨hend.1, hend.2, fun id ep job ms hjob hms => ?_, fun job ep hnone => ?_⟩
  · obtain ⟨r, hr, hafter⟩ := hown (id, ep) (mem_engines.mpr ⟨ms, hms⟩) job ms hjob hms
    rw [engineState_of_jobAt hjob] at hr hafter
    obtain ⟨hmetrics, hstate⟩ := Prod.mk.inj hafter
    refine ⟨r.2, hmetrics, ?_⟩
    rw [hstate]
    exact correctMetric_corrects (hseparate.single id ep job ms hjob hms) hr
  · refine foldlM_frame (a := ((0, ep) : InstanceId × EndpointId)) (I := SameEngines c)
      (fun _ c₁ => c₁.dpState.get? (job, ep, family)) hkeep ?_ hstart h
    rintro ⟨id, ep'⟩ hp c₁ c₂ hI he
    apply hI.frame he
    rintro ⟨hjob, rfl⟩
    obtain ⟨ms, hms⟩ := mem_engines.mp hp
    rw [hnone id hjob] at hms
    cases hms

/-- **A family that is inherited is corrected once.** -/
theorem computePreAggregation_corrected (hfamily : family ∈ inheritedMetricNames)
    (hseparate : Separate family lab c) (h : computePreAggregation c = some c') :
    Corrected family lab c c' := by
  unfold computePreAggregation inheritedMetricNames at h
  rw [List.foldlM_cons] at h
  obtain ⟨c₁, hc₁, h⟩ := Option.bind_eq_some_iff.mp h
  rw [List.foldlM_cons] at h
  obtain ⟨c₂, hc₂, h⟩ := Option.bind_eq_some_iff.mp h
  cases h
  rcases List.mem_cons.mp hfamily with rfl | hfamily
  · exact (computeCounterRates_corrected hseparate hc₁).keeps
      (computeCounterRates_keeps (by decide) hc₂)
  · cases List.mem_singleton.mp hfamily
    have hkeeps : Keeps "vllm:generation_tokens_total" c c₁ :=
      computeCounterRates_keeps (by decide) hc₁
    exact hkeeps.corrected (computeCounterRates_corrected (hseparate.keeps hkeeps) hc₂)

end Inherited

end PyMotor.Coordinator
