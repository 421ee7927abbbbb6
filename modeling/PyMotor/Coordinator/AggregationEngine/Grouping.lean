import Mathlib.Algebra.BigOperators.Ring.List
import Mathlib.Tactic.Linarith
import Mathlib.Tactic.Positivity
import Mathlib.Tactic.Ring
import PyMotor.Coordinator.AggregationEngine

/-!
# Aggregation in two steps

The metrics of the endpoints are aggregated for every instance, and what comes out is aggregated again.
Sums and maxima are what they are for all endpoints at once. A mean is the mean of the means of the
instances, in which the endpoints of a small instance weigh more. It is the mean of all endpoints exactly
if the means of the instances do not go with their sizes (`nested_values_iff`).
-/

namespace PyMotor.Coordinator.SemanticAggregationEngine

variable {table : CharTable} {registry : MetricRegistry} {metricName label : String}
  {all metricList : List TypedMetric} {instances : List (List TypedMetric)}

/-- The aggregated metrics of the instances, aggregated. -/
def nested (table : CharTable) (registry : MetricRegistry) (metricName : String)
    (instances : List (List TypedMetric)) : Option TypedMetric :=
  (instances.mapM (aggregate table registry metricName)).bind (aggregate table registry metricName)

/-- The value of a label. -/
def sampleAt (m : TypedMetric) (label : String) : Option ℚ := AssocList.get? label m.samples

/-- The values that are aggregated for a label. -/
def valuesOf (label : String) (metricList : List TypedMetric) : List ℚ :=
  valuesAt label (samplesOf metricList)

theorem valuesOf_perm (h : metricList.Perm all) : (valuesOf label metricList).Perm (valuesOf label all) :=
  (h.flatMap_right _).filterMap _

theorem valuesOf_eq_flatMap (metricList : List TypedMetric) :
    valuesOf label metricList = metricList.flatMap fun m => valuesAt label m.samples :=
  valuesAt_flatMap label (fun m : TypedMetric => m.samples) metricList

theorem valuesOf_flatten (instances : List (List TypedMetric)) :
    valuesOf label instances.flatten = (instances.map (valuesOf label)).flatten := by
  induction instances with
  | nil => rfl
  | cons g gs ih =>
    rw [List.flatten_cons, List.map_cons, List.flatten_cons, ← ih, valuesOf_eq_flatMap,
      valuesOf_eq_flatMap, valuesOf_eq_flatMap, List.flatMap_append]

/-! ## Reductions -/

instance : Std.Associative ReduceSpec.sum.reduceFn := ⟨fun a b c => add_assoc a b c⟩

instance : Std.Commutative ReduceSpec.sum.reduceFn := ⟨fun a b => add_comm a b⟩

theorem max_reduceFn (a b : ℚ) : ReduceSpec.max.reduceFn a b = max a b := by
  show (if a > b then a else b) = max a b
  split
  · next h => exact (max_eq_left h.le).symm
  · next h => exact (max_eq_right (not_lt.mp h)).symm

instance : Std.Associative ReduceSpec.max.reduceFn where
  assoc a b c := by simp only [max_reduceFn, max_assoc]

instance : Std.Commutative ReduceSpec.max.reduceFn where
  comm a b := by simp only [max_reduceFn, max_comm]

/-- A reduction that begins with a value as it is. -/
structure ReduceSpec.Reduces (spec : ReduceSpec) : Prop where
  step_none : ∀ v, spec.step none v = v
  assoc : Std.Associative spec.reduceFn
  comm : Std.Commutative spec.reduceFn

theorem reduces_sum : ReduceSpec.sum.Reduces := ⟨fun v => zero_add v, inferInstance, inferInstance⟩

theorem reduces_max : ReduceSpec.max.Reduces := ⟨fun _ => rfl, inferInstance, inferInstance⟩

theorem reduces_of_reduceMap {semantic : MetricSemantic} {spec : ReduceSpec}
    (h : reduceMap semantic = some spec) : spec.Reduces := by
  cases semantic <;> cases h
  all_goals first | exact reduces_sum | exact reduces_max

theorem ReduceSpec.Reduces.step_eq {spec : ReduceSpec} (h : spec.Reduces) (r : Option ℚ) (v : ℚ) :
    some (spec.step r v) = r.merge spec.reduceFn (some v) := by
  cases r with
  | none => rw [h.step_none, Option.merge_none_left]
  | some a => rfl

/-- The values of the labels, as they are aggregated. -/
def gathered (spec : ReduceSpec) (metricList : List TypedMetric) : Dict String ℚ :=
  (samplesOf metricList).foldl (gatherStep spec.step) ∅

theorem get?_gathered {spec : ReduceSpec} (hspec : spec.Reduces) (metricList : List TypedMetric) :
    (gathered spec metricList).get? label = reduce spec.reduceFn (valuesOf label metricList) := by
  unfold reduce
  simp only [← hspec.step_eq]
  exact get?_foldl_gatherStep spec.step label (samplesOf metricList) ∅

/-! ## Means -/

/-- What the endpoints of an instance add up to, divided by their number. -/
def meanAt (label : String) (metricList : List TypedMetric) : ℚ :=
  (valuesOf label metricList).sum / metricList.length

theorem meanAt_perm (h : metricList.Perm all) : meanAt label metricList = meanAt label all := by
  rw [meanAt, meanAt, (valuesOf_perm h).sum_eq, h.length_eq]

theorem reduce_sum_eq {l : List ℚ} (hne : l ≠ []) :
    reduce ReduceSpec.sum.reduceFn l = some l.sum := by
  induction l with
  | nil => exact absurd rfl hne
  | cons v l ih =>
    rw [reduce_cons, List.sum_cons]
    cases l with
    | nil => simp
    | cons w l =>
      rw [ih (List.cons_ne_nil w l)]
      rfl

/-- A mean of one metric is its value, whether or not it is divided by one. -/
theorem samples_meanFromReduce (first : TypedMetric) (hne : metricList ≠ []) :
    (meanFromReduce first metricList).samples =
      ((gathered .sum metricList).mapVal fun _ v => v / (metricList.length : ℚ)).entries := by
  simp only [meanFromReduce]
  split
  · rfl
  · next h =>
    have hone : metricList.length = 1 := by
      have hpos := List.length_pos_iff.mpr hne
      omega
    simp [hone, Dict.mapVal, gathered, aggregateReduce]

/-! ## One aggregation

What comes out of `aggregate`, as a function of the label and of the metrics that go in. -/

/-- The value of each label is `value`. -/
def Yields (table : CharTable) (registry : MetricRegistry) (metricName : String)
    (value : String → List TypedMetric → Option ℚ) : Prop :=
  ∀ metricList, ∃ m d, aggregate table registry metricName metricList = some m ∧
    m.samples = Dict.entries d ∧ ∀ label, d.get? label = value label metricList

/-- The semantics whose values are averaged. -/
def IsMean (semantic : MetricSemantic) : Prop :=
  semantic = .resourceUtilizationGauge ∨ semantic = .cacheMetric

theorem yields_reduce {config : MetricSemanticConfig} {spec : ReduceSpec}
    (hconfig : getSemantic registry metricName = some config)
    (hspec : reduceMap config.semantic = some spec) :
    Yields table registry metricName fun label metricList =>
      reduce spec.reduceFn (valuesOf label metricList) := by
  intro metricList
  have hreduces := reduces_of_reduceMap hspec
  cases metricList with
  | nil => exact ⟨_, ∅, rfl, rfl, fun _ => rfl⟩
  | cons first rest =>
    refine ⟨aggregateReduce first (first :: rest) spec, gathered spec (first :: rest), ?_, rfl,
      fun label => get?_gathered hreduces _⟩
    obtain ⟨semantic, quantiles⟩ := config
    unfold aggregate
    rw [hconfig]
    -- the semantics of the map are none of those that are looked at before it
    cases semantic <;> cases hspec <;> rfl

/-- The mean of a label, if there are values. -/
def meanOf (label : String) (metricList : List TypedMetric) : Option ℚ :=
  if valuesOf label metricList = [] then none else some (meanAt label metricList)

theorem meanOf_of_nil (h : valuesOf label metricList = []) : meanOf label metricList = none :=
  if_pos h

theorem meanOf_of_ne (h : valuesOf label metricList ≠ []) :
    meanOf label metricList = some (meanAt label metricList) :=
  if_neg h

theorem yields_mean {config : MetricSemanticConfig}
    (hconfig : getSemantic registry metricName = some config) (hmean : IsMean config.semantic) :
    Yields table registry metricName meanOf := by
  intro metricList
  cases metricList with
  | nil => exact ⟨_, ∅, rfl, rfl, fun _ => rfl⟩
  | cons first rest =>
    refine ⟨meanFromReduce first (first :: rest),
      (gathered .sum (first :: rest)).mapVal fun _ v => v / ((first :: rest).length : ℚ), ?_,
      samples_meanFromReduce first (List.cons_ne_nil first rest), fun label => ?_⟩
    · obtain ⟨semantic, quantiles⟩ := config
      unfold aggregate
      rw [hconfig]
      rcases hmean with rfl | rfl <;> rfl
    · rw [Dict.get?_mapVal, get?_gathered reduces_sum]
      by_cases h : valuesOf label (first :: rest) = []
      · rw [meanOf_of_nil h, h]
        rfl
      · rw [meanOf_of_ne h, reduce_sum_eq h]
        rfl

/-! ## Two aggregations -/

section Nested

variable {value : String → List TypedMetric → Option ℚ}

/-- The values that are aggregated the second time are those of the instances. -/
theorem Yields.parts (h : Yields table registry metricName value) (instances : List (List TypedMetric)) :
    ∃ parts, instances.mapM (aggregate table registry metricName) = some parts ∧
      parts.length = instances.length ∧
      ∀ label, valuesOf label parts = instances.filterMap (value label) := by
  induction instances with
  | nil => exact ⟨[], rfl, rfl, fun _ => rfl⟩
  | cons g gs ih =>
    obtain ⟨parts, hparts, hlen, hvalues⟩ := ih
    obtain ⟨m, d, hm, hd, hval⟩ := h g
    refine ⟨m :: parts, by simp [hm, hparts], by simp [hlen], fun label => ?_⟩
    have hhead : valuesAt label m.samples = (value label g).toList := by
      rw [hd, valuesAt_entries, hval]
    rw [valuesOf_eq_flatMap, List.flatMap_cons, ← valuesOf_eq_flatMap, hhead, hvalues]
    cases hg : value label g with
    | none => rw [List.filterMap_cons_none hg]; rfl
    | some v => rw [List.filterMap_cons_some hg]; rfl

theorem Yields.once (h : Yields table registry metricName value) (metricList : List TypedMetric) :
    ∃ m, aggregate table registry metricName metricList = some m ∧
      ∀ label, sampleAt m label = value label metricList := by
  obtain ⟨m, d, hm, hd, hval⟩ := h metricList
  refine ⟨m, hm, fun label => ?_⟩
  rw [← hval, sampleAt, hd]
  rfl

theorem Yields.twice (h : Yields table registry metricName value) (instances : List (List TypedMetric)) :
    ∃ m parts, nested table registry metricName instances = some m ∧ parts.length = instances.length ∧
      (∀ label, sampleAt m label = value label parts) ∧
      ∀ label, valuesOf label parts = instances.filterMap (value label) := by
  obtain ⟨parts, hparts, hlen, hvalues⟩ := h.parts instances
  obtain ⟨m, hm, hval⟩ := h.once parts
  refine ⟨m, parts, ?_, hlen, hval, hvalues⟩
  rw [nested, hparts]
  exact hm

end Nested

theorem reduce_filterMap_valuesOf {spec : ReduceSpec} (hspec : spec.Reduces)
    (hperm : instances.flatten.Perm all) :
    reduce spec.reduceFn (instances.filterMap fun g => reduce spec.reduceFn (valuesOf label g)) =
      reduce spec.reduceFn (valuesOf label all) := by
  have hassoc := hspec.assoc
  have hcomm := hspec.comm
  calc reduce spec.reduceFn (instances.filterMap fun g => reduce spec.reduceFn (valuesOf label g))
      = reduce spec.reduceFn ((instances.map (valuesOf label)).filterMap (reduce spec.reduceFn)) := by
        rw [List.filterMap_map]
        rfl
    _ = reduce spec.reduceFn (valuesOf label instances.flatten) := by
        rw [reduce_flatten, valuesOf_flatten]
    _ = reduce spec.reduceFn (valuesOf label all) := reduce_perm _ (valuesOf_perm hperm)

/-! ## The mean of means -/

/-- The mean over the instances. -/
def meanOfMeans (label : String) (instances : List (List TypedMetric)) : ℚ :=
  (instances.map (meanAt label)).sum / instances.length

/-- The means of the instances do not go with their sizes: those of large instances and those of small
ones cancel. -/
def Balanced (label : String) (instances : List (List TypedMetric)) : Prop :=
  (instances.map fun g =>
    ((instances.length * g.length : ℚ) - instances.flatten.length) * meanAt label g).sum = 0

/-- The same instances with the same endpoints, in another order. -/
def Reordered (instances instances' : List (List TypedMetric)) : Prop :=
  ∃ gs, instances.Perm gs ∧ List.Forall₂ List.Perm gs instances'

theorem meanOfMeans_reordered {instances' : List (List TypedMetric)} (h : Reordered instances instances') :
    meanOfMeans label instances = meanOfMeans label instances' := by
  obtain ⟨gs, hperm, hall⟩ := h
  have hmap : gs.map (meanAt label) = instances'.map (meanAt label) := by
    induction hall generalizing instances with
    | nil => rfl
    | cons hg _ ih => rw [List.map_cons, List.map_cons, meanAt_perm hg, ih (List.Perm.refl _)]
  rw [meanOfMeans, meanOfMeans, (hperm.map _).sum_eq, hmap, hperm.length_eq, hall.length_eq]

theorem Reordered.flatten_perm {instances' : List (List TypedMetric)} (h : Reordered instances instances') :
    instances'.flatten.Perm instances.flatten := by
  obtain ⟨gs, hperm, hall⟩ := h
  have hflat : gs.flatten.Perm instances'.flatten := by
    clear hperm
    induction hall with
    | nil => exact List.Perm.refl _
    | cons hg _ ih => exact hg.append ih
  exact hflat.symm.trans hperm.symm.flatten

theorem balanced_of_length_eq {size : ℕ} (h : ∀ g ∈ instances, g.length = size) :
    Balanced label instances := by
  have hflat : instances.flatten.length = instances.length * size := by
    rw [List.length_flatten, List.map_congr_left h, List.map_const', List.sum_replicate, nsmul_eq_mul]
    rfl
  unfold Balanced
  apply List.sum_eq_zero
  intro x hx
  obtain ⟨g, hg, rfl⟩ := List.mem_map.mp hx
  rw [h g hg, hflat, Nat.cast_mul, sub_self, zero_mul]

theorem sum_valuesOf_flatten (hne : ∀ g ∈ instances, g ≠ []) :
    (valuesOf label instances.flatten).sum =
      (instances.map fun g => (g.length : ℚ) * meanAt label g).sum := by
  rw [valuesOf_flatten, List.sum_flatten, List.map_map]
  congr 1
  apply List.map_congr_left
  intro g hg
  have hpos : (g.length : ℚ) ≠ 0 := by
    have := List.length_pos_iff.mpr (hne g hg)
    positivity
  show (valuesOf label g).sum = g.length * ((valuesOf label g).sum / g.length)
  rw [mul_div_cancel₀ _ hpos]

theorem meanOfMeans_eq_iff (hne : ∀ g ∈ instances, g ≠ []) (hinstances : instances ≠ []) :
    meanOfMeans label instances = meanAt label instances.flatten ↔ Balanced label instances := by
  have hk : (instances.length : ℚ) ≠ 0 := by
    have := List.length_pos_iff.mpr hinstances
    positivity
  have hn : (instances.flatten.length : ℚ) ≠ 0 := by
    obtain ⟨g, hg⟩ := List.exists_mem_of_ne_nil instances hinstances
    obtain ⟨m, hm⟩ := List.exists_mem_of_ne_nil g (hne g hg)
    have := List.length_pos_of_mem (List.mem_flatten.mpr ⟨g, hg, hm⟩)
    positivity
  have hsum : (instances.map fun g =>
      ((instances.length * g.length : ℚ) - instances.flatten.length) * meanAt label g).sum +
        instances.flatten.length * (instances.map (meanAt label)).sum =
      instances.length * (valuesOf label instances.flatten).sum := by
    rw [sum_valuesOf_flatten hne, ← List.sum_map_mul_left, ← List.sum_map_mul_left,
      ← List.sum_map_add]
    congr 1
    apply List.map_congr_left
    intro g _
    ring
  rw [Balanced, meanOfMeans, meanAt, div_eq_div_iff hk hn]
  constructor
  · intro h
    linarith
  · intro h
    linarith

/-- The sum of what the instances contribute, of which some may have no value. -/
theorem sum_filterMap_meanOf (instances : List (List TypedMetric)) :
    (instances.filterMap (meanOf label)).sum = (instances.map (meanAt label)).sum := by
  induction instances with
  | nil => rfl
  | cons g gs ih =>
    rw [List.map_cons, List.sum_cons, ← ih]
    by_cases h : valuesOf label g = []
    · rw [List.filterMap_cons_none (meanOf_of_nil h), meanAt, h, List.sum_nil, zero_div, zero_add]
    · rw [List.filterMap_cons_some (meanOf_of_ne h), List.sum_cons]

theorem filterMap_meanOf_eq_nil_iff (hperm : instances.flatten.Perm all) :
    instances.filterMap (meanOf label) = [] ↔ valuesOf label all = [] := by
  have hall : valuesOf label all = [] ↔ valuesOf label instances.flatten = [] := by
    rw [← List.length_eq_zero_iff, ← List.length_eq_zero_iff, (valuesOf_perm hperm).length_eq]
  rw [hall, valuesOf_flatten, List.flatten_eq_nil_iff, List.filterMap_eq_nil_iff]
  constructor
  · intro h l hl
    obtain ⟨g, hg, rfl⟩ := List.mem_map.mp hl
    by_contra hne
    cases (meanOf_of_ne hne).symm.trans (h g hg)
  · intro h g hg
    exact meanOf_of_nil (h _ (List.mem_map_of_mem hg))

theorem meanOf_parts {parts : List TypedMetric} (hlen : parts.length = instances.length)
    (hvalues : valuesOf label parts = instances.filterMap (meanOf label))
    (hperm : instances.flatten.Perm all) (hsome : valuesOf label all ≠ []) :
    meanOf label parts = some (meanOfMeans label instances) := by
  have hne : valuesOf label parts ≠ [] := by
    rw [hvalues]
    exact fun h => hsome ((filterMap_meanOf_eq_nil_iff hperm).mp h)
  rw [meanOf_of_ne hne, meanAt, hvalues, sum_filterMap_meanOf, hlen]
  rfl

/-- **Sums and maxima may be taken in two steps, and a mean is then a mean of means.** -/
theorem nested_values_iff (table : CharTable) {config : MetricSemanticConfig}
    (hconfig : getSemantic registry metricName = some config) (hne : ∀ g ∈ instances, g ≠ [])
    (hperm : instances.flatten.Perm all) :
    ((reduceMap config.semantic).isSome = true →
      ∃ flat m, aggregate table registry metricName all = some flat ∧
        nested table registry metricName instances = some m ∧
        ∀ label, sampleAt m label = sampleAt flat label) ∧
    (IsMean config.semantic →
      ∃ flat m, aggregate table registry metricName all = some flat ∧
        nested table registry metricName instances = some m ∧
        (∀ label, valuesOf label all = [] → sampleAt m label = none ∧ sampleAt flat label = none) ∧
        (∀ label, valuesOf label all ≠ [] →
          sampleAt m label = some (meanOfMeans label instances) ∧
          (sampleAt m label = sampleAt flat label ↔ Balanced label instances)) ∧
        ∀ instances', Reordered instances instances' →
          ∃ m', nested table registry metricName instances' = some m' ∧
            ∀ label, sampleAt m' label = sampleAt m label) := by
  constructor
  · intro hsome
    obtain ⟨spec, hspec⟩ := Option.isSome_iff_exists.mp hsome
    have hyields : Yields table registry metricName _ := yields_reduce hconfig hspec
    obtain ⟨flat, hflat, hflatAt⟩ := hyields.once all
    -- the second step reduces what the first one made of each instance
    obtain ⟨m, parts, hm, -, hmAt, hvalues⟩ := hyields.twice instances
    refine ⟨flat, m, hflat, hm, fun label => ?_⟩
    rw [hmAt, hflatAt, hvalues]
    exact reduce_filterMap_valuesOf (reduces_of_reduceMap hspec) hperm
  · intro hmean
    have hyields : Yields table registry metricName _ := yields_mean hconfig hmean
    obtain ⟨flat, hflat, hflatAt⟩ := hyields.once all
    obtain ⟨m, parts, hm, hlen, hmAt, hvalues⟩ := hyields.twice instances
    -- a label that nobody reports has no mean
    have hnone : ∀ label, valuesOf label all = [] → sampleAt m label = none := by
      intro label h
      rw [hmAt]
      exact meanOf_of_nil ((hvalues label).trans ((filterMap_meanOf_eq_nil_iff hperm).mpr h))
    have hsome : ∀ label, valuesOf label all ≠ [] →
        sampleAt m label = some (meanOfMeans label instances) := fun label h =>
      (hmAt label).trans (meanOf_parts hlen (hvalues label) hperm h)
    refine ⟨flat, m, hflat, hm, fun label h => ⟨hnone label h, ?_⟩, fun label h => ⟨hsome label h, ?_⟩, ?_⟩
    · rw [hflatAt]
      exact meanOf_of_nil h
    · have hinstances : instances ≠ [] := by
        rintro rfl
        rw [List.flatten_nil, List.nil_perm] at hperm
        exact h (hperm ▸ rfl)
      rw [hsome label h, hflatAt, meanOf_of_ne h, Option.some.injEq, ← meanAt_perm hperm]
      exact meanOfMeans_eq_iff hne hinstances
    · intro instances' hreordered
      obtain ⟨m', parts', hm', hlen', hmAt', hvalues'⟩ := hyields.twice instances'
      have hperm' : instances'.flatten.Perm all := hreordered.flatten_perm.trans hperm
      refine ⟨m', hm', fun label => ?_⟩
      by_cases h : valuesOf label all = []
      · rw [hnone label h, hmAt']
        exact meanOf_of_nil ((hvalues' label).trans ((filterMap_meanOf_eq_nil_iff hperm').mpr h))
      · rw [hsome label h, hmAt', meanOf_parts hlen' (hvalues' label) hperm' h,
          meanOfMeans_reordered hreordered]

/-- A gauge with one value. -/
def gaugeMetric (name : String) (value : ℚ) : TypedMetric := ⟨⟨name, [(name, value)]⟩, "", .gauge⟩

theorem cacheUsage_nested :
    getSemantic vllmMetricRegistry "vllm:kv_cache_usage_perc" = some ⟨.cacheMetric, none⟩ ∧
    ∃ flat m,
      aggregate .ascii vllmMetricRegistry "vllm:kv_cache_usage_perc"
        [gaugeMetric "vllm:kv_cache_usage_perc" (1 / 2), gaugeMetric "vllm:kv_cache_usage_perc" 1] =
          some flat ∧
      nested .ascii vllmMetricRegistry "vllm:kv_cache_usage_perc"
        [[gaugeMetric "vllm:kv_cache_usage_perc" 1], [gaugeMetric "vllm:kv_cache_usage_perc" (1 / 2)]] =
          some m ∧
      sampleAt m "vllm:kv_cache_usage_perc" = sampleAt flat "vllm:kv_cache_usage_perc" := by
  have hconfig : getSemantic vllmMetricRegistry "vllm:kv_cache_usage_perc" =
      some ⟨.cacheMetric, none⟩ := by decide +kernel
  have hne : ∀ g ∈ [[gaugeMetric "vllm:kv_cache_usage_perc" 1],
      [gaugeMetric "vllm:kv_cache_usage_perc" (1 / 2)]], g ≠ [] := by simp
  obtain ⟨flat, m, hflat, hm, -, hvalues, -⟩ :=
    (nested_values_iff .ascii hconfig hne (List.Perm.swap _ _ [])).2 (Or.inr rfl)
  refine ⟨hconfig, flat, m, hflat, hm, (hvalues _ (by decide)).2.mpr ?_⟩
  have hsize : ∀ g ∈ [[gaugeMetric "vllm:kv_cache_usage_perc" 1],
      [gaugeMetric "vllm:kv_cache_usage_perc" (1 / 2)]], g.length = 1 := by simp
  exact balanced_of_length_eq hsize

/-- A mean over instances of different sizes is another one, and the tokens per second are those of the
endpoint that comes first. -/
theorem mean_and_rate_goByGroup :
    (nested .ascii vllmMetricRegistry "vllm:kv_cache_usage_perc"
        [[gaugeMetric "vllm:kv_cache_usage_perc" 0, gaugeMetric "vllm:kv_cache_usage_perc" 0],
          [gaugeMetric "vllm:kv_cache_usage_perc" (9 / 10)]] =
        some (gaugeMetric "vllm:kv_cache_usage_perc" (9 / 20)) ∧
      aggregate .ascii vllmMetricRegistry "vllm:kv_cache_usage_perc"
        [gaugeMetric "vllm:kv_cache_usage_perc" 0, gaugeMetric "vllm:kv_cache_usage_perc" 0,
          gaugeMetric "vllm:kv_cache_usage_perc" (9 / 10)] =
        some (gaugeMetric "vllm:kv_cache_usage_perc" (3 / 10))) ∧
    (nested .ascii vllmMetricRegistry "motor:generation_tokens_per_second"
        [[gaugeMetric "motor:generation_tokens_per_second" 10],
          [gaugeMetric "motor:generation_tokens_per_second" 20]] =
        some (gaugeMetric "motor:generation_tokens_per_second" 10) ∧
      aggregate .ascii vllmMetricRegistry "motor:generation_tokens_per_second"
        [gaugeMetric "motor:generation_tokens_per_second" 20,
          gaugeMetric "motor:generation_tokens_per_second" 10] =
        some (gaugeMetric "motor:generation_tokens_per_second" 20)) := by
  decide +kernel

end PyMotor.Coordinator.SemanticAggregationEngine
