import PyMotor.Coordinator.AggregationEngine.Histograms

/-!
# When the gauges of histograms are right

Whether the means and quantiles of all label sets are right depends on the names and values of the labels
and on what is counted below zero (`histograms_right_iff`). A name that ends in `le` is enough to lose
them all, if it comes before the bound.
-/

namespace PyMotor.Coordinator.SemanticAggregationEngine

variable {name : String} {sets : List LabelSet} {table : CharTable} {set : LabelSet}
  {fams : List (HistogramFamily name sets)}

/-! ## A bound that is not found

A label before `le` whose name ends in `le` is read in its place. -/

/-- The first such label has a value that is no number. -/
def Misread (table : CharTable) (set : LabelSet) : Prop :=
  ∃ pre l post, set.before = pre ++ l :: post ∧ (∀ l' ∈ pre, ¬leName <:+ l'.1 ∧ ¬leOpen <:+ l'.2) ∧
    leName <:+ l.1 ∧ upperBound table l.2 = none

theorem searchLe_misread (hname : Plain name.toList) (h : set.Written table) {pre post : List Label}
    {l : Label} (hbefore : set.before = pre ++ l :: post)
    (hpre : ∀ l' ∈ pre, ¬leName <:+ l'.1 ∧ ¬leOpen <:+ l'.2) (hl : leName <:+ l.1) (t : List Char) :
    searchLe (bucketText name set t) = some l.2 := by
  have hmem : ∀ l' ∈ pre ++ l :: post, LabelWritten table l' := fun l' hl' => h.before l' (hbefore ▸ hl')
  have hwritten := hmem l (by simp)
  obtain ⟨n, hn⟩ := hl
  have hdquote : dquote ∉ n := fun hmem => hwritten.dquote_notMem (hn ▸ List.mem_append_left _ hmem)
  have hp : dquote ∉ name.toList ++ "_bucket".toList := dquote_notMem_start hname (by decide)
  obtain ⟨rest, hrest⟩ : ∃ rest, bucketText name set t = name.toList ++ "_bucket".toList ++
      lead '\x7b' pre ++ ((if pre = [] then '\x7b' else ',') :: n ++ leOpen ++ dquote :: l.2 ++ dquote :: rest) := by
    refine ⟨lead ',' (post ++ (leName, t) :: set.after) ++ ['\x7d'], ?_⟩
    have hitem : item l = n ++ leOpen ++ dquote :: l.2 ++ [dquote] := by
      rw [item, ← hn]
      simp [leOpen, leName]
    have hassoc : pre ++ l :: post ++ (leName, t) :: set.after =
        pre ++ l :: (post ++ (leName, t) :: set.after) := by simp
    unfold bucketText
    rw [braces_of_ne_nil (by simp), hbefore, hassoc, lead_append, lead, hitem]
    simp
  rw [hrest, searchLe_lead (Or.inl rfl) (fun l' hl' => hmem l' (List.mem_append_left _ hl'))
    (fun l' hl' => (hpre l' hl').1) (fun l' hl' => (hpre l' hl').2) hp]
  split
  · have hhit : searchLe ((name.toList ++ "_bucket".toList ++ '\x7b' :: n) ++ leOpen ++ dquote :: l.2 ++
        dquote :: rest) = some l.2 := by
      refine searchLe_hit ?_ hwritten.plain.1
      rw [List.mem_append, List.mem_cons, not_or, not_or]
      exact ⟨hp, by decide, hdquote⟩
    simpa using hhit
  · refine searchLe_hit ?_ hwritten.plain.1
    rw [List.mem_cons, not_or]
    exact ⟨by decide, hdquote⟩

theorem contains_summed {label : String} {samples : List (String × ℚ)} (h : label ∈ samples.map Prod.fst) :
    label ∈ (summed samples).keys := by
  rw [Dict.mem_keys_iff]
  unfold summed
  rw [get?_foldl_gatherStep, Dict.get?_empty]
  have hne : valuesAt label samples ≠ [] := by
    obtain ⟨p, hp, rfl⟩ := List.mem_map.mp h
    exact List.ne_nil_of_mem (List.mem_filterMap.mpr ⟨p, hp, if_pos rfl⟩)
  obtain ⟨v, vs, hvs⟩ := List.exists_cons_of_ne_nil hne
  rw [hvs, List.foldl_cons]
  clear hvs
  generalize ReduceSpec.sum.step none v = w
  induction vs generalizing w with
  | nil => exact ⟨w, rfl⟩
  | cons u vs ih => exact ih _

theorem mapM_eq_none {A B : Type} {f : A → Option B} {l : List A} {a : A} (ha : a ∈ l) (hf : f a = none) :
    l.mapM f = none := by
  induction l with
  | nil => cases ha
  | cons b l ih =>
    rw [List.mapM_cons]
    rcases List.mem_cons.mp ha with rfl | ha
    · rw [hf]
      rfl
    · rw [ih ha]
      cases f b <;> rfl

/-- **The merge fails** if such a value is no number. -/
theorem aggregate_of_misread (hplain : Plain name.toList) (hset : set ∈ sets) (hwritten : set.Written table)
    (hmisread : Misread table set) (hne : fams ≠ []) {registry : MetricRegistry}
    {config : MetricSemanticConfig} (hconfig : getSemantic registry name = some config)
    (hsemantic : config.semantic = .histogramLatency ∨ config.semantic = .slaMetric) :
    aggregate table registry name (fams.map (·.metric)) = none := by
  obtain ⟨pre, l, post, hbefore, hpre, hl, hupper⟩ := hmisread
  obtain ⟨f, rest, rfl⟩ := List.exists_cons_of_ne_nil hne
  have hmerge : aggregateHistogramMerge table f.metric ((f :: rest).map (·.metric)) = none := by
    have hi : (set, infText) ∈ bucketsIn sets := mem_bucketsIn.mpr ⟨hset, by simp [LabelSet.texts]⟩
    have hline : bucketLabel name (set, infText) ∈
        (bucketSamples (samplesOf ((f :: rest).map (·.metric)))).map Prod.fst := by
      refine List.mem_map.mpr ⟨(bucketLabel name (set, infText), f.counts.cum set infText), ?_, rfl⟩
      refine List.mem_filter.mpr ⟨?_, isBucketLabel_bucketLabel _⟩
      refine List.mem_flatMap.mpr ⟨f.metric, by simp, f.samples_perm.mem_iff.mpr ?_⟩
      rw [List.append_assoc]
      exact List.mem_append_left _ (List.mem_map.mpr ⟨_, hi, rfl⟩)
    have hle : leVal table (bucketLabel name (set, infText)) = none := by
      unfold leVal
      rw [toList_bucketLabel, searchLe_misread hplain hwritten hbefore hpre hl]
      exact hupper
    unfold aggregateHistogramMerge
    rw [foldl_add]
    have hsort : sortByLe table (summed (bucketSamples (samplesOf ((f :: rest).map (·.metric))))).keys =
        none := by
      unfold sortByLe
      rw [mapM_eq_none (contains_summed hline) (by rw [hle]; rfl)]
      rfl
    unfold summed at hsort
    simp only [hsort, Option.map_none]
  rw [← hmerge]
  obtain ⟨semantic, quantiles⟩ := config
  unfold aggregate
  rw [hconfig]
  rcases hsemantic with rfl | rfl <;> rfl

/-! ## All label sets -/

/-- **Means and quantiles are right** exactly if the label of no count looks like the one of a sum and
nothing is counted below zero, as long as the bounds are found. A label that is read as the bound and is
no number makes the aggregation fail. -/
theorem histograms_right_iff (hplain : Plain name.toList) (hwritten : ∀ set ∈ sets, set.Written table)
    (hdistinct : (sets.map LabelSet.labels).Nodup) (hne : fams ≠ []) {registry : MetricRegistry}
    {config : MetricSemanticConfig} (hconfig : getSemantic registry name = some config)
    (hsemantic : config.semantic = .histogramLatency ∨ config.semantic = .slaMetric) :
    ((∀ set ∈ sets, set.Readable ∧ Unmistaken name set) →
      (HistogramsRight table registry fams ↔
        ∀ set ∈ sets, 0 < (merged fams).cum set infText → CountedRight fams set)) ∧
    ((∃ set ∈ sets, Misread table set) →
      aggregate table registry name (fams.map (·.metric)) = none) := by
  constructor
  · intro hread
    have hlegible : Legible table name sets :=
      ⟨hplain, hwritten, fun set hset => (hread set hset).1, hdistinct⟩
    exact histograms_of_legible hlegible (fun set hset => (hread set hset).2) hne hconfig hsemantic
  · rintro ⟨set, hset, hmisread⟩
    exact aggregate_of_misread hplain hset (hwritten set hset) hmisread hne hconfig hsemantic

/-! ## One bucket -/

def e2eLatency : String := "vllm:e2e_request_latency_seconds"

theorem getSemantic_e2eLatency :
    getSemantic vllmMetricRegistry e2eLatency = some ⟨.histogramLatency, some p50p95p99⟩ := by
  decide +kernel

/-- One label set with one finite bound. -/
def oneBucket (before : List Label) (t : List Char) (b : ℚ) : LabelSet := ⟨before, [], [(t, b)]⟩

def oneValueEach : Counts where
  cum _ t := if t = infText then 2 else 1
  sum _ := 3

/-- One value in the first bucket and one above it. -/
def oneBucketFamily (before : List Label) (t : List Char) (b : ℚ) (ht : t ≠ infText) :
    HistogramFamily e2eLatency [oneBucket before t b] where
  metric := ⟨⟨e2eLatency, oneValueEach.bucketLines e2eLatency [oneBucket before t b] ++
    oneValueEach.countLines e2eLatency [oneBucket before t b] ++
    oneValueEach.sumLines e2eLatency [oneBucket before t b]⟩, "", .histogram⟩
  counts := oneValueEach
  name_eq := rfl
  type_eq := rfl
  samples_perm := List.Perm.refl _
  cumulative set hset := by
    obtain rfl := List.mem_singleton.mp hset
    have hone : oneValueEach.cum (oneBucket before t b) t = 1 := if_neg ht
    have hfinite : (oneBucket before t b).finite (oneValueEach.cum (oneBucket before t b)) = [(b, 1)] := by
      show [(b, oneValueEach.cum (oneBucket before t b) t)] = _
      rw [hone]
    have htotal : oneValueEach.cum (oneBucket before t b) infText = 2 := by
      show (if infText = infText then (2 : ℚ) else 1) = 2
      exact if_pos rfl
    rw [hfinite, htotal]
    exact ⟨List.pairwise_singleton _ _, List.pairwise_singleton _ _, by simp, by simp⟩

/-- A label, written out. -/
def label (name value : String) : Label := (name.toList, value.toList)

theorem labelWritten_label {name value : String} (hne : name.toList ≠ []) (hle : name.toList ≠ leName)
    (hword : name.toList.all CharTable.ascii.isWord = true) (hplain : Plain value.toList) :
    LabelWritten .ascii (label name value) :=
  ⟨hne, hle, List.all_eq_true.mp hword, hplain⟩

theorem written_oneBucket {l : Label} {t : List Char} {b : ℚ} (hl : LabelWritten .ascii l) (ht : Plain t)
    (hfloat : pyFloat .ascii t = some (b : WithTop ℚ)) : (oneBucket [l] t b).Written .ascii where
  labels l' hl' := by
    obtain rfl : l' = l := by simpa [oneBucket, LabelSet.labels] using hl'
    exact hl
  plain b' hb' := by
    obtain rfl := List.mem_singleton.mp hb'
    exact ht
  float b' hb' := by
    obtain rfl := List.mem_singleton.mp hb'
    exact hfloat
  sorted := List.pairwise_singleton _ _

theorem readable_oneBucket {l : Label} {t : List Char} {b : ℚ} (hname : ¬leName <:+ l.1)
    (hvalue : ¬leOpen <:+ l.2) : (oneBucket [l] t b).Readable where
  names l' hl' := by
    obtain rfl := List.mem_singleton.mp hl'
    exact hname
  values l' hl' := by
    obtain rfl : l' = l := by simpa [oneBucket, LabelSet.labels] using hl'
    exact hvalue

theorem unmistaken_oneBucket {l : Label} {t : List Char} {b : ℚ} (hname : ¬leName <:+ l.1) :
    Unmistaken e2eLatency (oneBucket [l] t b) := by
  refine Or.inl fun l' hl' => ?_
  obtain rfl : l' = l := by simpa [oneBucket, LabelSet.labels] using hl'
  exact hname

theorem label_model_written : LabelWritten .ascii (label "model" "m") :=
  labelWritten_label (by decide) (by decide) (by decide) (by decide)

theorem label_handle_written : LabelWritten .ascii (label "handle" "x") :=
  labelWritten_label (by decide) (by decide) (by decide) (by decide)

theorem model_written : (oneBucket [label "model" "m"] ['1'] 1).Written .ascii :=
  written_oneBucket label_model_written (by decide) (by decide +kernel)

theorem model_right :
    HistogramsRight .ascii vllmMetricRegistry
      [oneBucketFamily [label "model" "m"] ['1'] 1 (by decide)] := by
  have hwritten : ∀ set ∈ [oneBucket [label "model" "m"] ['1'] 1], set.Written .ascii := by
    simpa using model_written
  have hdistinct : ([oneBucket [label "model" "m"] ['1'] 1].map LabelSet.labels).Nodup :=
    List.nodup_singleton _
  have hright := (histograms_right_iff (by decide) hwritten hdistinct
    (List.cons_ne_nil (oneBucketFamily [label "model" "m"] ['1'] 1 (by decide)) [])
    getSemantic_e2eLatency (Or.inl rfl)).1
  refine (hright ?_).mpr ?_
  · intro set hset
    obtain rfl := List.mem_singleton.mp hset
    exact ⟨readable_oneBucket (by decide) (by decide), unmistaken_oneBucket (by decide)⟩
  · intro set hset _
    obtain rfl := List.mem_singleton.mp hset
    refine ⟨by decide, fun b hb => Or.inl ?_⟩
    obtain rfl := Option.some.inj hb
    exact zero_le_one

/-- A label `handle` stands before the bound, or the first bound is negative. -/
theorem handle_raises_negative_wrong :
    ¬HistogramsRight .ascii vllmMetricRegistry
        [oneBucketFamily [label "handle" "x"] ['1'] 1 (by decide)] ∧
      ¬HistogramsRight .ascii vllmMetricRegistry
        [oneBucketFamily [label "model" "m"] ['-', '1'] (-1) (by decide)] := by
  constructor
  · rintro ⟨metric, hmetric, -⟩
    have hwritten : (oneBucket [label "handle" "x"] ['1'] 1).Written .ascii :=
      written_oneBucket label_handle_written (by decide) (by decide +kernel)
    have hmisread : Misread .ascii (oneBucket [label "handle" "x"] ['1'] 1) :=
      ⟨[], label "handle" "x", [], rfl, by simp, by decide, by decide +kernel⟩
    rw [aggregate_of_misread (by decide) List.mem_cons_self hwritten hmisread (List.cons_ne_nil _ _)
      getSemantic_e2eLatency (Or.inl rfl)] at hmetric
    cases hmetric
  · have hwritten : (oneBucket [label "model" "m"] ['-', '1'] (-1)).Written .ascii :=
      written_oneBucket label_model_written (by decide) (by decide +kernel)
    have hlegible : Legible .ascii e2eLatency [oneBucket [label "model" "m"] ['-', '1'] (-1)] :=
      ⟨by decide, by simpa using hwritten,
        by simpa using readable_oneBucket (by decide) (by decide), List.nodup_singleton _⟩
    rw [histograms_of_legible hlegible (by simpa using unmistaken_oneBucket (by decide))
      (List.cons_ne_nil _ _) getSemantic_e2eLatency (Or.inl rfl)]
    intro hcounted
    obtain ⟨-, hfirst⟩ := hcounted _ List.mem_cons_self (by decide +kernel)
    rcases hfirst _ rfl with hneg | hzero
    · exact absurd hneg (by decide)
    · have hone := hzero _ List.mem_cons_self
      exact absurd hone (by decide +kernel)

end PyMotor.Coordinator.SemanticAggregationEngine
