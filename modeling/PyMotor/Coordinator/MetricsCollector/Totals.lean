import PyMotor.Coordinator.MetricsCollector.Inherited

/-!
# Every life counts once

The view adds up what all engines have reported last, and does not decrease, in every run of rounds that
lose no counter (`counters_count_every_life`). A counter that is not inherited needs that no instance comes
back that the history has taken over. One that is inherited needs that the instances of a job follow each
other and that the last one is still there.
-/

namespace PyMotor.Coordinator

namespace MetricsCollector

variable {family label : String} {fleet : Fleet} {s s' : MetricsCollector} {round : Round}

/-- What holds between the rounds. -/
structure Counted (fleet : Fleet) (family : String) (s : MetricsCollector) : Prop where
  inHistory : family ∉ inheritedMetricNames → InHistory family s
  inherits : family ∈ inheritedMetricNames → Inherits fleet family s
  view : ∀ label, valueOf family label s.fullMetrics = s.observedTotal family label

theorem Counted.new (fleet : Fleet) (family : String) : Counted fleet family MetricsCollector.new :=
  ⟨fun _ => InHistory.new family, fun _ => Inherits.new fleet family, fun _ => rfl⟩

theorem StaysCached.clear {pool : Dict InstanceId String} {collects : Dict InstanceId Collect}
    (h : StaysCached s pool collects) : ∀ id, collects.contains id = true →
      (s.clearInactiveMetrics pool).observed.contains id = true →
      (s.clearInactiveMetrics pool).instanceMetricsCached.contains id = true := by
  intro id hid hobserved
  obtain ⟨hcached, hpool⟩ := h id (Dict.mem_keys_iff.mpr (Dict.contains_iff.mp hid)) hobserved
  rw [Dict.contains, get?_clearInactiveMetrics, hpool]
  exact hcached

/-- **A round.** -/
theorem Counted.step (h : Counted fleet family s) (hguard : KeepsCounters fleet family s round)
    (he : s.exec round = some s') : Counted fleet family s' := by
  rcases exec_cases he with ⟨_, rfl⟩ | ⟨collects, c, hcollects, hc, hs'⟩
  · -- the last view stays
    exact ⟨fun hfamily => (h.inHistory hfamily).clear hfamily _,
      fun hfamily => (h.inherits hfamily).clear hfamily _, h.view⟩
  · obtain ⟨hgrow, hempty, hplaces⟩ := hguard collects hcollects
    have hgrow' : EnginesGrow family (s.clearInactiveMetrics round.unavailablePool) collects := hgrow
    have hobserved : s'.observed = observe s.observed collects := hs'.observed
    -- without instances there is nothing to count
    have hview : (∀ label, valueOf family label s'.aggregateMetricsAllInstance =
        s'.observedTotal family label) → ∀ label, valueOf family label s'.fullMetrics =
          s'.observedTotal family label := by
      intro hall label
      cases hisEmpty : collects.isEmpty with
      | false => rw [hs'.view hisEmpty, hall]
      | true =>
        rw [hs'.noView hisEmpty, observedTotal, hobserved, Dict.eq_empty_of_isEmpty (hempty hisEmpty),
          Dict.eq_empty_of_isEmpty hisEmpty]
        rfl
    by_cases hfamily : family ∈ inheritedMetricNames
    · rw [if_pos hfamily] at hplaces
      have hsucc := succession hgrow hplaces hs'
      have hinherits := ((h.inherits hfamily).clear hfamily round.unavailablePool).generated hfamily
        hgrow' hsucc hc hs'
      exact ⟨fun hnot => absurd hfamily hnot, fun _ => hinherits,
        hview fun label => hinherits.view hsucc label⟩
    · rw [if_neg hfamily] at hplaces
      have hhistory := ((h.inHistory hfamily).clear hfamily round.unavailablePool).generated hfamily
        hgrow' hplaces.clear hc hs'
      exact ⟨fun _ => hhistory, fun hin => absurd hin hfamily, hview fun label => hhistory.view label⟩

theorem observedTotal_le (hguard : KeepsCounters fleet family s round) (he : s.exec round = some s')
    (label : String) : s.observedTotal family label ≤ s'.observedTotal family label := by
  rcases exec_cases he with ⟨_, rfl⟩ | ⟨collects, c, hcollects, _, hs'⟩
  · exact le_rfl
  · have hle := observed_sumBy_le (hguard collects hcollects).1 label
    rwa [show observe s.observed collects = s'.observed from hs'.observed.symm] at hle

theorem Counted.run {rounds : List Round}
    (h : Run exec (KeepsCounters fleet family) MetricsCollector.new rounds s) : Counted fleet family s :=
  h.invariant_state (Counted.new fleet family) Counted.step

/-- **The counters of the service.** After rounds that lose none, the view has at every label the sum of
what all engines that ever lived have reported last, and the next one has not less. -/
theorem counters_count_every_life {rounds : List Round}
    (h : Run exec (KeepsCounters fleet family) MetricsCollector.new rounds s) (label : String) :
    valueOf family label s.fullMetrics = s.observedTotal family label ∧
      ∀ round s', KeepsCounters fleet family s round → s.exec round = some s' →
        valueOf family label s.fullMetrics ≤ valueOf family label s'.fullMetrics := by
  refine ⟨(Counted.run h).view label, fun round s' hguard he => ?_⟩
  rw [(Counted.run h).view, (Counted.run (h.snoc hguard he)).view]
  exact observedTotal_le hguard he label

/-! ### A steady fleet -/

/-- A round in which no instance that was ever seen is away, and every engine reports the family. -/
structure Steady (fleet : Fleet) (family : String) (s : MetricsCollector) (round : Round) : Prop where
  present : ∀ id, s.observed.contains id = true → round.unavailablePool.contains id = false
  reports : ∀ collects ∈ round.collects.bind parseMetrics, EnginesGrow family s collects ∧
    (collects.isEmpty = true → s.observed.isEmpty = true) ∧
    ∀ p ∈ collects.entries, p.2.jobName = fleet.jobName p.1 ∧ p.2.jobName ≠ "" ∧
      ∀ q ∈ p.2.endpoints.entries, SingleLabel family (fleet.label p.2.jobName q.1) q.2 ∧
        familyOf family q.2 ≠ []

def SeenCached (s : MetricsCollector) : Prop :=
  ∀ id, s.observed.contains id = true → s.instanceMetricsCached.contains id = true

theorem SeenCached.step (hcached : SeenCached s) (hround : Steady fleet family s round)
    (he : s.exec round = some s') : SeenCached s' := by
  intro id hseen
  have hclear (hold : s.observed.contains id = true) :
      (s.clearInactiveMetrics round.unavailablePool).instanceMetricsCached.contains id = true := by
    rw [Dict.contains, get?_clearInactiveMetrics, hround.present id hold]
    exact hcached id hold
  rcases exec_cases he with ⟨_, rfl⟩ | ⟨collects, c, _, _, hs'⟩
  · exact hclear hseen
  · rw [hs'.contains_iff]
    cases hins : collects.get? id with
    | some ins => exact Or.inl (Dict.contains_of_some hins)
    | none =>
      rw [hs'.observed, Dict.contains, get?_observe_of_none hins] at hseen
      exact Or.inr (hclear hseen)

theorem Steady.keepsCounters (hfleet : Function.Injective fleet.jobName)
    (h : Steady fleet family s round) (hs : Counted fleet family s) (hcached : SeenCached s) :
    KeepsCounters fleet family s round := by
  intro collects hcollects
  obtain ⟨hgrow, hempty, hengines⟩ := h.reports collects hcollects
  refine ⟨hgrow, hempty, ?_⟩
  split
  · next hfamily =>
    refine ⟨fun p hp => ?_, fun id _ id' _ hjob => hfleet hjob, fun p hp => ?_⟩
    · obtain ⟨hjob, hname, hall⟩ := hengines p hp
      refine ⟨hjob, hname, fun q hq => ⟨(hall q hq).1, fun hnone => absurd hnone (hall q hq).2, ?_⟩⟩
      -- nobody else was ever at the rank
      have haccounts := (hs.inherits hfamily).accounts p.2.jobName q.1
      cases hstate : s.dpState.get? (p.2.jobName, q.1, family) with
      | none => exact Or.inl ((haccounts.unknown hstate).2 p.1 hjob.symm)
      | some st => exact Or.inr ⟨st, rfl, hfleet ((haccounts.known st hstate).1.trans hjob)⟩
    · have hget := Dict.mem_entries_iff.mp hp
      have hseen := Dict.contains_of_some hget
      refine ⟨p.1, List.mem_append_left _ (List.mem_filter.mpr ⟨?_, ?_⟩), rfl, fun ins hins => ?_⟩
      · exact Dict.mem_keys_iff.mpr (Dict.contains_iff.mp (hcached p.1 hseen))
      · rw [h.present p.1 hseen]
        rfl
      · exact (hgrow (p.1, ins) (Dict.mem_entries_iff.mpr hins)).2 p.2 hget
  · exact fun id _ hseen => ⟨hcached id hseen, h.present id hseen⟩

/-- **A fleet with one instance for each job that stays and reports loses no counter.** -/
theorem steady_keepsCounters (hfleet : Function.Injective fleet.jobName) {rounds : List Round}
    (h : Run exec (Steady fleet family) MetricsCollector.new rounds s)
    (hround : Steady fleet family s round) : KeepsCounters fleet family s round := by
  have hs := h.invariant_state (I := fun s => Counted fleet family s ∧ SeenCached s)
    ⟨Counted.new fleet family, fun id hid => by cases hid⟩ fun hs hround he =>
      ⟨hs.1.step (hround.keepsCounters hfleet hs.1 hs.2) he, hs.2.step hround he⟩
  exact hround.keepsCounters hfleet hs.1 hs.2

/-! ### Replacements and returns -/

/-- An instance with one engine that reports one sample. -/
def reported (jobName family : String) (value : ℚ) : Collect :=
  ⟨jobName, (∅ : Dict EndpointId (List Metric)).insert 0 [⟨family, [(family, value)]⟩]⟩

/-- Its first instance has become unavailable when the second one of the job is there. -/
def replacement (family : String) : List Round :=
  [⟨∅, some ((∅ : Dict InstanceId Collect).insert 1 (reported "job" family 5))⟩,
   ⟨(∅ : Dict InstanceId String).insert 1 "decode",
    some ((∅ : Dict InstanceId Collect).insert 2 (reported "job" family 3))⟩]

theorem replacement_counts_both :
    ∃ s, Run exec (KeepsCounters ⟨fun _ => "job", fun _ _ => "vllm:prompt_tokens_total"⟩
        "vllm:prompt_tokens_total") MetricsCollector.new (replacement "vllm:prompt_tokens_total") s ∧
      s.observedTotal "vllm:prompt_tokens_total" "vllm:prompt_tokens_total" = 8 ∧
      valueOf "vllm:prompt_tokens_total" "vllm:prompt_tokens_total" s.fullMetrics =
        s.observedTotal "vllm:prompt_tokens_total" "vllm:prompt_tokens_total" := by
  have h : (runList exec (KeepsCounters ⟨fun _ => "job", fun _ _ => "vllm:prompt_tokens_total"⟩
      "vllm:prompt_tokens_total") MetricsCollector.new (replacement "vllm:prompt_tokens_total")).map
      (fun s => s.observedTotal "vllm:prompt_tokens_total" "vllm:prompt_tokens_total") = some 8 := by
    decide +kernel
  obtain ⟨s, hs, htotal⟩ := Option.map_eq_some_iff.mp h
  exact ⟨s, runList_run hs, htotal, (counters_count_every_life (runList_run hs) _).1⟩

/-- All that is asked of the engines. -/
def CountersGrow (family : String) (s : MetricsCollector) (round : Round) : Prop :=
  ∀ collects ∈ round.collects.bind parseMetrics, EnginesGrow family s collects

instance (family : String) (s : MetricsCollector) (round : Round) :
    Decidable (CountersGrow family s round) :=
  inferInstanceAs (Decidable (∀ collects ∈ _, _))

/-- The first instance is unavailable for a round and then available again. -/
def comesBack (family : String) : List Round :=
  [⟨∅, some (((∅ : Dict InstanceId Collect).insert 1 (reported "a" family 5)).insert 2
      (reported "b" family 0))⟩,
   ⟨(∅ : Dict InstanceId String).insert 1 "decode",
    some ((∅ : Dict InstanceId Collect).insert 2 (reported "b" family 0))⟩,
   ⟨∅, some (((∅ : Dict InstanceId Collect).insert 1 (reported "a" family 6)).insert 2
      (reported "b" family 0))⟩]

/-- The first instance is deleted, and the second one of its job appears before the next round. -/
def deleted (family : String) : List Round :=
  [⟨∅, some ((∅ : Dict InstanceId Collect).insert 1 (reported "job" family 5))⟩,
   ⟨∅, some ((∅ : Dict InstanceId Collect).insert 2 (reported "job" family 1))⟩]

/-- The history keeps an instance that has come back; no instance takes over an inherited counter; the
cache keeps an instance that was deleted. -/
theorem comesBack_countsTwice_leaves_drops_deleted_countsTwice :
    (∃ s, Run exec (CountersGrow "vllm:request_success_total") MetricsCollector.new
        (comesBack "vllm:request_success_total") s ∧
      valueOf "vllm:request_success_total" "vllm:request_success_total" s.fullMetrics = 11 ∧
      s.observedTotal "vllm:request_success_total" "vllm:request_success_total" = 6) ∧
    (∃ s s', Run exec (CountersGrow "vllm:prompt_tokens_total") MetricsCollector.new
        ((comesBack "vllm:prompt_tokens_total").take 1) s ∧
      Run exec (CountersGrow "vllm:prompt_tokens_total") MetricsCollector.new
        ((comesBack "vllm:prompt_tokens_total").take 2) s' ∧
      valueOf "vllm:prompt_tokens_total" "vllm:prompt_tokens_total" s.fullMetrics = 5 ∧
      valueOf "vllm:prompt_tokens_total" "vllm:prompt_tokens_total" s'.fullMetrics = 0) ∧
    ∃ s, Run exec (CountersGrow "vllm:prompt_tokens_total") MetricsCollector.new
        (deleted "vllm:prompt_tokens_total") s ∧
      valueOf "vllm:prompt_tokens_total" "vllm:prompt_tokens_total" s.fullMetrics = 11 ∧
      s.observedTotal "vllm:prompt_tokens_total" "vllm:prompt_tokens_total" = 6 := by
  refine ⟨?_, ?_, ?_⟩
  · have h : (runList exec (CountersGrow "vllm:request_success_total") MetricsCollector.new
        (comesBack "vllm:request_success_total")).map (fun s =>
          (valueOf "vllm:request_success_total" "vllm:request_success_total" s.fullMetrics,
            s.observedTotal "vllm:request_success_total" "vllm:request_success_total")) =
        some (11, 6) := by
      decide +kernel
    obtain ⟨s, hs, hvalues⟩ := Option.map_eq_some_iff.mp h
    exact ⟨s, runList_run hs, (Prod.mk.inj hvalues).1, (Prod.mk.inj hvalues).2⟩
  · have h : (runList exec (CountersGrow "vllm:prompt_tokens_total") MetricsCollector.new
        ((comesBack "vllm:prompt_tokens_total").take 1)).map (fun s =>
          valueOf "vllm:prompt_tokens_total" "vllm:prompt_tokens_total" s.fullMetrics) = some 5 := by
      decide +kernel
    have h' : (runList exec (CountersGrow "vllm:prompt_tokens_total") MetricsCollector.new
        ((comesBack "vllm:prompt_tokens_total").take 2)).map (fun s =>
          valueOf "vllm:prompt_tokens_total" "vllm:prompt_tokens_total" s.fullMetrics) = some 0 := by
      decide +kernel
    obtain ⟨s, hs, hvalue⟩ := Option.map_eq_some_iff.mp h
    obtain ⟨s', hs', hvalue'⟩ := Option.map_eq_some_iff.mp h'
    exact ⟨s, s', runList_run hs, runList_run hs', hvalue, hvalue'⟩
  · have h : (runList exec (CountersGrow "vllm:prompt_tokens_total") MetricsCollector.new
        (deleted "vllm:prompt_tokens_total")).map (fun s =>
          (valueOf "vllm:prompt_tokens_total" "vllm:prompt_tokens_total" s.fullMetrics,
            s.observedTotal "vllm:prompt_tokens_total" "vllm:prompt_tokens_total")) =
        some (11, 6) := by
      decide +kernel
    obtain ⟨s, hs, hvalues⟩ := Option.map_eq_some_iff.mp h
    exact ⟨s, runList_run hs, (Prod.mk.inj hvalues).1, (Prod.mk.inj hvalues).2⟩

end MetricsCollector

end PyMotor.Coordinator
