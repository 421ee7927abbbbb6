import PyMotor.Coordinator.AggregationEngine.Grouping
import PyMotor.Coordinator.AggregationEngine.Labels
import PyMotor.Coordinator.AggregationEngine.Quantiles

/-!
# Histograms that are merged

A family of samples is a histogram if it has, in any order, the lines of its label sets. Families of one
metric are merged line by line (`aggregateHistogramMerge_eq`).
-/

namespace PyMotor.Coordinator.SemanticAggregationEngine

/-! ## Lines -/

def infText : List Char := "+Inf".toList

/-- The bounds of a label set as they are written. -/
def LabelSet.texts (set : LabelSet) : List (List Char) := set.bounds.map Prod.fst ++ [infText]

/-- The buckets of several label sets. -/
def bucketsIn (sets : List LabelSet) : List (LabelSet × List Char) :=
  sets.flatMap fun set => set.texts.map fun t => (set, t)

def bucketLabel (name : String) (i : LabelSet × List Char) : String := String.ofList (bucketText name i.1 i.2)

def suffixLabel (name suffix : String) (set : LabelSet) : String :=
  String.ofList (suffixText name suffix set)

/-- What is counted for the label sets: the number of values up to each bound, and their sum. -/
structure Counts where
  cum : LabelSet → List Char → ℚ
  sum : LabelSet → ℚ

def Counts.bucketLines (counts : Counts) (name : String) (sets : List LabelSet) : List (String × ℚ) :=
  (bucketsIn sets).map fun i => (bucketLabel name i, counts.cum i.1 i.2)

def Counts.countLines (counts : Counts) (name : String) (sets : List LabelSet) : List (String × ℚ) :=
  sets.map fun set => (suffixLabel name "_count" set, counts.cum set infText)

def Counts.sumLines (counts : Counts) (name : String) (sets : List LabelSet) : List (String × ℚ) :=
  sets.map fun set => (suffixLabel name "_sum" set, counts.sum set)

/-- The finite buckets, with the number of values up to each. -/
def LabelSet.finite (set : LabelSet) (cum : List Char → ℚ) : List (ℚ × ℚ) :=
  set.bounds.map fun b => (b.2, cum b.1)

/-- The family of a histogram: its lines in any order, with what they count. -/
structure HistogramFamily (name : String) (sets : List LabelSet) where
  metric : TypedMetric
  counts : Counts
  name_eq : metric.name = name
  type_eq : metric.type = .histogram
  samples_perm : metric.samples.Perm
    (counts.bucketLines name sets ++ counts.countLines name sets ++ counts.sumLines name sets)
  cumulative : ∀ set ∈ sets, Cumulative (set.finite (counts.cum set)) (counts.cum set infText)

variable {name suffix : String} {sets : List LabelSet} {table : CharTable} {set set' : LabelSet}

/-! ## Kinds of lines -/

theorem toList_bucketLabel (i : LabelSet × List Char) :
    (bucketLabel name i).toList = bucketText name i.1 i.2 :=
  String.toList_ofList

theorem toList_suffixLabel : (suffixLabel name suffix set).toList = suffixText name suffix set :=
  String.toList_ofList

theorem braces_cases {ls : List Label} (hls : ∀ l ∈ ls, LabelWritten table l) :
    braces ls = [] ∨ ∃ r, braces ls = '\x7b' :: (r ++ ['\x7d']) ∧ '\x7b' ∉ r ++ ['\x7d'] := by
  by_cases h : ls = []
  · exact Or.inl (by rw [h]; rfl)
  · obtain ⟨d, n, hlead, -, hopen⟩ := lead_open h hls
    refine Or.inr ⟨d :: n, by rw [braces_of_ne_nil h, hlead]; rfl, ?_⟩
    rw [List.mem_append, not_or]
    exact ⟨hopen, by decide⟩

/-- The suffix of a line that has one is what stands before the brace. -/
theorem suffix_of_infix_suffixText {pat : List Char} (hname : Plain name.toList) (h : set.Written table)
    (hsuffix : '\x7b' ∉ suffix.toList) (hin : pat ++ ['\x7b'] <:+: suffixText name suffix set) :
    pat <:+ name.toList ++ suffix.toList := by
  have hstart : '\x7b' ∉ name.toList ++ suffix.toList := by
    rw [List.mem_append, not_or]
    exact ⟨hname.2.1, hsuffix⟩
  unfold suffixText at hin
  rcases braces_cases h.labels with hb | ⟨r, hb, hopen⟩
  · rw [hb, List.append_nil] at hin
    exact absurd (hin.subset (by simp)) hstart
  · rw [hb] at hin
    exact suffix_of_infix hstart hopen hin

theorem isBucketLabel_bucketLabel (i : LabelSet × List Char) : isBucketLabel (bucketLabel name i) = true := by
  unfold isBucketLabel
  rw [toList_bucketLabel, decide_eq_true_eq]
  unfold bucketText
  rw [braces_of_ne_nil (by simp)]
  obtain ⟨c, r, hlead⟩ : ∃ c r, i.1.before ++ (leName, i.2) :: i.1.after = c :: r := by
    cases i.1.before with
    | nil => exact ⟨_, _, rfl⟩
    | cons l ls => exact ⟨_, _, rfl⟩
  rw [hlead, lead]
  exact ⟨name.toList, item c ++ lead ',' r ++ ['\x7d'], by simp⟩

theorem isBucketLabel_suffixLabel (hname : Plain name.toList) (h : set.Written table)
    (hsuffix : suffix = "_count" ∨ suffix = "_sum") :
    isBucketLabel (suffixLabel name suffix set) = false := by
  unfold isBucketLabel
  rw [toList_suffixLabel, decide_eq_false_iff_not]
  intro hin
  have hbucket : "_bucket\x7b".toList = "_bucket".toList ++ ['\x7b'] := by decide
  rw [hbucket] at hin
  have hopen : '\x7b' ∉ suffix.toList := by rcases hsuffix with rfl | rfl <;> decide
  obtain ⟨a, ha⟩ := suffix_of_infix_suffixText hname h hopen hin
  -- the last two characters differ
  have hend := congrArg (fun s => s.reverse.take 2) ha
  rcases hsuffix with rfl | rfl
  · simp at hend
  · simp at hend

theorem isSuffixLabel_self : isSuffixLabel suffix (suffixLabel name suffix set) = true := by
  unfold isSuffixLabel
  rw [toList_suffixLabel, Bool.or_eq_true, decide_eq_true_eq, List.isSuffixOf_iff_suffix]
  unfold suffixText
  by_cases hls : set.labels = []
  · rw [hls]
    exact Or.inr ⟨name.toList, by simp [braces]⟩
  · rw [braces_of_ne_nil hls]
    obtain ⟨l, ls, hlead⟩ := List.exists_cons_of_ne_nil hls
    rw [hlead, lead]
    exact Or.inl ⟨name.toList, item l ++ lead ',' ls ++ ['\x7d'], by simp⟩

theorem isSuffixLabel_count_sum (hname : Plain name.toList) (h : set.Written table) :
    isSuffixLabel "_count" (suffixLabel name "_sum" set) = false := by
  unfold isSuffixLabel
  rw [toList_suffixLabel, Bool.or_eq_false_iff, decide_eq_false_iff_not]
  constructor
  · intro hin
    obtain ⟨a, ha⟩ := suffix_of_infix_suffixText hname h (by decide) hin
    have hend := congrArg (fun s => s.reverse.take 1) ha
    simp at hend
  · rw [Bool.eq_false_iff, ne_eq, List.isSuffixOf_iff_suffix]
    rintro ⟨a, ha⟩
    have hend := congrArg (fun s => s.reverse.take 1) ha
    unfold suffixText at hend
    rcases braces_cases h.labels with hb | ⟨r, hb, -⟩
    · rw [hb] at hend
      simp at hend
    · rw [hb] at hend
      simp at hend

/-! ## Different lines -/

/-- Label sets that are told apart, and whose bounds are found. -/
structure Legible (table : CharTable) (name : String) (sets : List LabelSet) : Prop where
  name_plain : Plain name.toList
  written : ∀ set ∈ sets, set.Written table
  readable : ∀ set ∈ sets, set.Readable
  distinct : (sets.map LabelSet.labels).Nodup

theorem upperBound_infText : upperBound table infText = some ⊤ := if_pos rfl

theorem pyFloat_infText : pyFloat table infText = some ⊤ := rfl

namespace LabelSet.Written

theorem upperBound_eq (h : set.Written table) {b : List Char × ℚ} (hb : b ∈ set.bounds) :
    upperBound table b.1 = some (b.2 : WithTop ℚ) := by
  have hne : b.1 ≠ infText := by
    intro heq
    have hfloat := h.float b hb
    rw [heq, pyFloat_infText, Option.some.injEq] at hfloat
    exact WithTop.top_ne_coe hfloat
  exact (if_neg hne).trans (h.float b hb)

theorem dquote_notMem (h : set.Written table) {t : List Char} (ht : t ∈ set.texts) : dquote ∉ t := by
  rcases List.mem_append.mp ht with ht | ht
  · obtain ⟨b, hb, rfl⟩ := List.mem_map.mp ht
    exact (h.plain b hb).1
  · rw [List.mem_singleton.mp ht]
    decide

theorem texts_nodup (h : set.Written table) : set.texts.Nodup := by
  refine List.nodup_append.mpr ⟨?_, List.nodup_singleton _, ?_⟩
  · refine List.pairwise_map.mpr (h.sorted.imp_of_mem fun {b b'} hb hb' hlt heq => ?_)
    have hfloat := h.float b hb
    rw [heq, h.float b' hb', Option.some.injEq, WithTop.coe_inj] at hfloat
    exact hlt.ne hfloat.symm
  · intro t ht t' ht'
    obtain ⟨b, hb, rfl⟩ := List.mem_map.mp ht
    rw [List.mem_singleton.mp ht']
    intro heq
    have hfloat := h.float b hb
    rw [heq, pyFloat_infText, Option.some.injEq] at hfloat
    exact WithTop.top_ne_coe hfloat

end LabelSet.Written

theorem mem_bucketsIn {i : LabelSet × List Char} : i ∈ bucketsIn sets ↔ i.1 ∈ sets ∧ i.2 ∈ i.1.texts := by
  simp only [bucketsIn, List.mem_flatMap, List.mem_map]
  constructor
  · rintro ⟨set, hset, t, ht, rfl⟩
    exact ⟨hset, ht⟩
  · rintro ⟨hset, ht⟩
    exact ⟨i.1, hset, i.2, ht, rfl⟩

namespace Legible

variable (h : Legible table name sets)

include h

theorem eq_of_braces (hset : set ∈ sets) (hset' : set' ∈ sets)
    (heq : braces set.labels = braces set'.labels) : set = set' :=
  List.inj_on_of_nodup_map h.distinct hset hset'
    (braces_inj (h.written set hset).labels (h.written set' hset').labels heq)

theorem groupKey_bucketLabel {i : LabelSet × List Char} (hi : i ∈ bucketsIn sets) :
    histogramLabelGroupKey table (bucketLabel name i).toList name.toList = braces i.1.labels := by
  obtain ⟨hset, ht⟩ := mem_bucketsIn.mp hi
  have hwritten := h.written i.1 hset
  rw [toList_bucketLabel]
  exact groupKey_bucketText hwritten (h.readable i.1 hset) (hwritten.dquote_notMem ht)

theorem searchLe_bucketLabel {i : LabelSet × List Char} (hi : i ∈ bucketsIn sets) :
    searchLe (bucketLabel name i).toList = some i.2 := by
  obtain ⟨hset, ht⟩ := mem_bucketsIn.mp hi
  have hwritten := h.written i.1 hset
  rw [toList_bucketLabel]
  exact searchLe_bucketText h.name_plain hwritten (h.readable i.1 hset) (hwritten.dquote_notMem ht)

theorem groupKey_suffixLabel (hset : set ∈ sets) (hsuffix : suffix = "_count" ∨ suffix = "_sum") :
    histogramLabelGroupKey table (suffixLabel name suffix set).toList name.toList = braces set.labels := by
  have hmem : suffix ∈ ["_bucket", "_count", "_sum"] := by
    rcases hsuffix with rfl | rfl <;> simp
  rw [toList_suffixLabel]
  exact groupKey_suffixText (h.written set hset) (h.readable set hset) hmem

theorem bucketLabels_nodup : ((bucketsIn sets).map (bucketLabel name)).Nodup := by
  refine List.Nodup.map_on (fun i hi j hj heq => ?_) ?_
  · have hkey := h.groupKey_bucketLabel hi
    have hle := h.searchLe_bucketLabel hi
    rw [heq, h.groupKey_bucketLabel hj] at hkey
    rw [heq, h.searchLe_bucketLabel hj, Option.some.injEq] at hle
    have hset := h.eq_of_braces (mem_bucketsIn.mp hi).1 (mem_bucketsIn.mp hj).1 hkey.symm
    exact Prod.ext hset hle.symm
  · have hnd := h.distinct.of_map
    refine List.nodup_flatMap.mpr ⟨fun set hset => ?_, hnd.imp fun {set set'} hne => ?_⟩
    · exact (h.written set hset).texts_nodup.map fun _ _ heq => (Prod.mk.inj heq).2
    · rintro i hi hi'
      obtain ⟨t, -, rfl⟩ := List.mem_map.mp hi
      obtain ⟨t', -, heq⟩ := List.mem_map.mp hi'
      exact hne (Prod.mk.inj heq).1.symm

theorem suffixLabels_nodup (hsuffix : suffix = "_count" ∨ suffix = "_sum") :
    (sets.map (suffixLabel name suffix)).Nodup := by
  refine List.Nodup.map_on (fun set hset set' hset' heq => ?_) h.distinct.of_map
  have hkey := h.groupKey_suffixLabel hset hsuffix
  rw [heq, h.groupKey_suffixLabel hset' hsuffix] at hkey
  exact h.eq_of_braces hset hset' hkey.symm

end Legible

/-! ## Line by line -/

def bucketSamples (samples : List (String × ℚ)) : List (String × ℚ) :=
  samples.filter fun p => isBucketLabel p.1

def countSamples (samples : List (String × ℚ)) : List (String × ℚ) :=
  samples.filter fun p => !isBucketLabel p.1 && isSuffixLabel "_count" p.1

def sumSamples (samples : List (String × ℚ)) : List (String × ℚ) :=
  samples.filter fun p => !isBucketLabel p.1 && !isSuffixLabel "_count" p.1 && isSuffixLabel "_sum" p.1

def summed (samples : List (String × ℚ)) : Dict String ℚ :=
  samples.foldl (gatherStep ReduceSpec.sum.step) ∅

theorem foldl_add (samples : List (String × ℚ)) (parts : HistogramParts) :
    samples.foldl HistogramParts.add parts =
      ⟨(bucketSamples samples).foldl (gatherStep ReduceSpec.sum.step) parts.buckets,
        (countSamples samples).foldl (gatherStep ReduceSpec.sum.step) parts.counts,
        (sumSamples samples).foldl (gatherStep ReduceSpec.sum.step) parts.sums⟩ := by
  induction samples generalizing parts with
  | nil => rfl
  | cons p samples ih =>
    rw [List.foldl_cons, ih]
    unfold HistogramParts.add bucketSamples countSamples sumSamples
    by_cases hbucket : isBucketLabel p.1 = true
    · simp [hbucket]
    · by_cases hcount : isSuffixLabel "_count" p.1 = true
      · simp [hbucket, hcount]
      · by_cases hsum : isSuffixLabel "_sum" p.1 = true
        · simp [hbucket, hcount, hsum]
        · simp [hbucket, hcount, hsum]

theorem filter_lines {I : Type} {q : String → Bool} {b : Bool} {items : List I} {label : I → String}
    (value : I → ℚ) (hq : ∀ i ∈ items, q (label i) = b) :
    (items.map fun i => (label i, value i)).filter (fun p => q p.1) =
      if b then items.map fun i => (label i, value i) else [] := by
  cases b with
  | true =>
    apply List.filter_eq_self.mpr
    intro p hp
    obtain ⟨i, hi, rfl⟩ := List.mem_map.mp hp
    exact hq i hi
  | false =>
    apply List.filter_eq_nil_iff.mpr
    intro p hp
    obtain ⟨i, hi, rfl⟩ := List.mem_map.mp hp
    rw [hq i hi]
    exact Bool.false_ne_true

namespace HistogramFamily

variable (f : HistogramFamily name sets)

/-- The samples whose labels satisfy `q`, if it tells the kinds of lines apart. -/
theorem filter_samples_perm {q : String → Bool} {inBuckets inCounts inSums : Bool}
    (hbuckets : ∀ i ∈ bucketsIn sets, q (bucketLabel name i) = inBuckets)
    (hcounts : ∀ set ∈ sets, q (suffixLabel name "_count" set) = inCounts)
    (hsums : ∀ set ∈ sets, q (suffixLabel name "_sum" set) = inSums) :
    (f.metric.samples.filter fun p => q p.1).Perm
      ((if inBuckets then f.counts.bucketLines name sets else []) ++
        (if inCounts then f.counts.countLines name sets else []) ++
        (if inSums then f.counts.sumLines name sets else [])) := by
  refine (f.samples_perm.filter _).trans (List.Perm.of_eq ?_)
  rw [List.filter_append, List.filter_append]
  unfold Counts.bucketLines Counts.countLines Counts.sumLines
  rw [filter_lines _ hbuckets, filter_lines _ hcounts, filter_lines _ hsums]

variable (h : Legible table name sets)

include h

theorem bucketSamples_perm : (bucketSamples f.metric.samples).Perm (f.counts.bucketLines name sets) := by
  have hfilter := f.filter_samples_perm (fun i _ => isBucketLabel_bucketLabel i)
    (fun set hset => isBucketLabel_suffixLabel h.name_plain (h.written set hset) (Or.inl rfl))
    (fun set hset => isBucketLabel_suffixLabel h.name_plain (h.written set hset) (Or.inr rfl))
  simpa [bucketSamples] using hfilter

theorem countSamples_perm : (countSamples f.metric.samples).Perm (f.counts.countLines name sets) := by
  let q : String → Bool := fun label => !isBucketLabel label && isSuffixLabel "_count" label
  have hbuckets : ∀ i ∈ bucketsIn sets, q (bucketLabel name i) = false := by
    intro i _
    simp [q, isBucketLabel_bucketLabel i]
  have hcounts : ∀ set ∈ sets, q (suffixLabel name "_count" set) = true := by
    intro set hset
    simp [q, isBucketLabel_suffixLabel h.name_plain (h.written set hset) (Or.inl rfl), isSuffixLabel_self]
  have hsums : ∀ set ∈ sets, q (suffixLabel name "_sum" set) = false := by
    intro set hset
    simp [q, isSuffixLabel_count_sum h.name_plain (h.written set hset)]
  simpa [countSamples, q] using f.filter_samples_perm hbuckets hcounts hsums

theorem sumSamples_perm : (sumSamples f.metric.samples).Perm (f.counts.sumLines name sets) := by
  let q : String → Bool := fun label =>
    !isBucketLabel label && !isSuffixLabel "_count" label && isSuffixLabel "_sum" label
  have hbuckets : ∀ i ∈ bucketsIn sets, q (bucketLabel name i) = false := by
    intro i _
    simp [q, isBucketLabel_bucketLabel i]
  have hcounts : ∀ set ∈ sets, q (suffixLabel name "_count" set) = false := by
    intro set hset
    simp [q, isSuffixLabel_self]
  have hsums : ∀ set ∈ sets, q (suffixLabel name "_sum" set) = true := by
    intro set hset
    simp [q, isBucketLabel_suffixLabel h.name_plain (h.written set hset) (Or.inr rfl),
      isSuffixLabel_count_sum h.name_plain (h.written set hset), isSuffixLabel_self]
  simpa [sumSamples, q] using f.filter_samples_perm hbuckets hcounts hsums

end HistogramFamily

/-! ## All families -/

section Merge

variable (fams : List (HistogramFamily name sets))

/-- What the families count together. -/
def merged : Counts where
  cum set t := (fams.map fun f => f.counts.cum set t).sum
  sum set := (fams.map fun f => f.counts.sum set).sum

theorem summed_flatMap_perm {I : Type} {items : List I} {label : I → String}
    (samples : List (String × ℚ) → List (String × ℚ)) (value : Counts → I → ℚ)
    (hadd : ∀ i, value (merged fams) i = (fams.map fun f => value f.counts i).sum)
    (hne : fams ≠ []) (hnd : (items.map label).Nodup)
    (hsamples : ∀ f ∈ fams, (samples f.metric.samples).Perm (items.map fun i => (label i, value f.counts i))) :
    (summed (fams.flatMap fun f => samples f.metric.samples)).entries.Perm
      (items.map fun i => (label i, value (merged fams) i)) := by
  refine gathered_perm reduces_sum.step_eq hnd hsamples fun i _ => ?_
  rw [reduce_sum_eq (by simpa using hne), hadd]

/-- The parts of the merged histogram. -/
structure PartsMerged (parts : HistogramParts) : Prop where
  buckets : parts.buckets.entries.Perm ((merged fams).bucketLines name sets)
  counts : parts.counts.entries.Perm ((merged fams).countLines name sets)
  sums : parts.sums.entries.Perm ((merged fams).sumLines name sets)

theorem partsMerged (h : Legible table name sets) (hne : fams ≠ []) :
    PartsMerged fams ((samplesOf (fams.map (·.metric))).foldl HistogramParts.add ⟨∅, ∅, ∅⟩) := by
  have hsamples : samplesOf (fams.map (·.metric)) = fams.flatMap fun f => f.metric.samples := by
    unfold samplesOf
    rw [List.flatMap_map]
  rw [hsamples, foldl_add]
  unfold bucketSamples countSamples sumSamples
  rw [List.filter_flatMap, List.filter_flatMap, List.filter_flatMap]
  refine ⟨?_, ?_, ?_⟩
  · exact summed_flatMap_perm fams bucketSamples (fun c (i : LabelSet × List Char) => c.cum i.1 i.2)
      (fun _ => rfl) hne h.bucketLabels_nodup fun f _ => f.bucketSamples_perm h
  · exact summed_flatMap_perm fams countSamples (fun c set => c.cum set infText) (fun _ => rfl) hne
      (h.suffixLabels_nodup (Or.inl rfl)) fun f _ => f.countSamples_perm h
  · exact summed_flatMap_perm fams sumSamples (fun c set => c.sum set) (fun _ => rfl) hne
      (h.suffixLabels_nodup (Or.inr rfl)) fun f _ => f.sumSamples_perm h

/-! ### The order of the bounds -/

theorem mapM_eq_some_map {A B : Type} {f : A → Option B} {g : A → B} {l : List A}
    (hf : ∀ a ∈ l, f a = some (g a)) : l.mapM f = some (l.map g) := by
  induction l with
  | nil => rfl
  | cons a l ih =>
    rw [List.forall_mem_cons] at hf
    rw [List.mapM_cons, hf.1, ih hf.2]
    rfl

theorem leVal_bucketLabel (h : Legible table name sets) {i : LabelSet × List Char}
    (hi : i ∈ bucketsIn sets) : ∃ u, leVal table (bucketLabel name i) = some u := by
  obtain ⟨hset, ht⟩ := mem_bucketsIn.mp hi
  unfold leVal
  rw [h.searchLe_bucketLabel hi]
  rcases List.mem_append.mp ht with ht | ht
  · obtain ⟨b, hb, heq⟩ := List.mem_map.mp ht
    rw [← heq]
    exact ⟨_, (h.written i.1 hset).upperBound_eq hb⟩
  · rw [List.mem_singleton.mp ht]
    exact ⟨_, upperBound_infText⟩

theorem sortByLe_perm {labels : List String} (h : ∀ label ∈ labels, ∃ u, leVal table label = some u) :
    ∃ sorted, sortByLe table labels = some sorted ∧ sorted.Perm labels := by
  have hread : ∀ label ∈ labels, ((leVal table label).map fun le => (le, label)) =
      some ((leVal table label).getD ⊤, label) := by
    intro label hlabel
    obtain ⟨u, hu⟩ := h label hlabel
    rw [hu]
    rfl
  unfold sortByLe
  rw [mapM_eq_some_map hread]
  refine ⟨_, rfl, ((List.perm_insertionSort _ _).map _).trans (List.Perm.of_eq ?_)⟩
  rw [List.map_map]
  exact List.map_id labels

/-! ### The merged family -/

namespace PartsMerged

variable {fams} {parts : HistogramParts} (hp : PartsMerged fams parts) (h : Legible table name sets)

include hp

theorem get?_buckets {i : LabelSet × List Char} (hi : i ∈ bucketsIn sets) :
    parts.buckets.get? (bucketLabel name i) = some ((merged fams).cum i.1 i.2) :=
  Dict.mem_entries_iff.mp (hp.buckets.mem_iff.mpr (List.mem_map.mpr ⟨i, hi, rfl⟩))

theorem get?_counts (hset : set ∈ sets) :
    parts.counts.get? (suffixLabel name "_count" set) = some ((merged fams).cum set infText) :=
  Dict.mem_entries_iff.mp (hp.counts.mem_iff.mpr (List.mem_map.mpr ⟨set, hset, rfl⟩))

theorem get?_sums (hset : set ∈ sets) :
    parts.sums.get? (suffixLabel name "_sum" set) = some ((merged fams).sum set) :=
  Dict.mem_entries_iff.mp (hp.sums.mem_iff.mpr (List.mem_map.mpr ⟨set, hset, rfl⟩))

theorem get?_buckets_eq_none {label : String} (hlabel : isBucketLabel label = false) :
    parts.buckets.get? label = none := by
  rw [Option.eq_none_iff_forall_ne_some]
  intro v hv
  obtain ⟨i, -, heq⟩ := List.mem_map.mp (hp.buckets.mem_iff.mp (Dict.mem_entries_iff.mpr hv))
  rw [← (Prod.mk.inj heq).1, isBucketLabel_bucketLabel] at hlabel
  cases hlabel

theorem get?_counts_eq_none {label : String} (hlabel : isSuffixLabel "_count" label = false) :
    parts.counts.get? label = none := by
  rw [Option.eq_none_iff_forall_ne_some]
  intro v hv
  obtain ⟨set, -, heq⟩ := List.mem_map.mp (hp.counts.mem_iff.mp (Dict.mem_entries_iff.mpr hv))
  rw [← (Prod.mk.inj heq).1, isSuffixLabel_self] at hlabel
  cases hlabel

theorem value_bucketLabel {i : LabelSet × List Char} (hi : i ∈ bucketsIn sets) :
    parts.value (bucketLabel name i) = (merged fams).cum i.1 i.2 := by
  rw [HistogramParts.value, hp.get?_buckets hi]
  rfl

include h

theorem value_countLabel (hset : set ∈ sets) :
    parts.value (suffixLabel name "_count" set) = (merged fams).cum set infText := by
  have hbucket := isBucketLabel_suffixLabel h.name_plain (h.written set hset) (Or.inl rfl)
  rw [HistogramParts.value, hp.get?_buckets_eq_none hbucket, hp.get?_counts hset]
  rfl

theorem value_sumLabel (hset : set ∈ sets) :
    parts.value (suffixLabel name "_sum" set) = (merged fams).sum set := by
  have hbucket := isBucketLabel_suffixLabel h.name_plain (h.written set hset) (Or.inr rfl)
  have hcount := isSuffixLabel_count_sum h.name_plain (h.written set hset)
  rw [HistogramParts.value, hp.get?_buckets_eq_none hbucket, hp.get?_counts_eq_none hcount,
    hp.get?_sums hset]
  rfl

end PartsMerged

theorem map_value_perm {I : Type} {items : List I} {label : I → String} {value : I → ℚ}
    {labels : List String} {get : String → ℚ} (hperm : labels.Perm (items.map label))
    (hget : ∀ i ∈ items, get (label i) = value i) :
    (labels.map fun l => (l, get l)).Perm (items.map fun i => (label i, value i)) := by
  refine (hperm.map _).trans (List.Perm.of_eq ?_)
  rw [List.map_map]
  exact List.map_congr_left fun i hi => Prod.ext rfl (hget i hi)

/-- **Merging** adds up the lines of the families. First come the buckets, then the counts and then the
sums. -/
theorem aggregateHistogramMerge_eq (h : Legible table name sets) (hne : fams ≠ []) (first : TypedMetric) :
    ∃ buckets counts sums,
      aggregateHistogramMerge table first (fams.map (·.metric)) =
        some { first with samples := buckets ++ counts ++ sums } ∧
      buckets.Perm ((merged fams).bucketLines name sets) ∧
      counts.Perm ((merged fams).countLines name sets) ∧
      sums.Perm ((merged fams).sumLines name sets) := by
  have hp := partsMerged fams h hne
  unfold aggregateHistogramMerge
  generalize (samplesOf (fams.map (·.metric))).foldl HistogramParts.add ⟨∅, ∅, ∅⟩ = parts at hp
  have hkeys : parts.buckets.keys.Perm ((bucketsIn sets).map (bucketLabel name)) := by
    have := hp.buckets.map Prod.fst
    rwa [Counts.bucketLines, List.map_map] at this
  have hcounts : parts.counts.keys.Perm (sets.map (suffixLabel name "_count")) := by
    have := hp.counts.map Prod.fst
    rwa [Counts.countLines, List.map_map] at this
  have hsums : parts.sums.keys.Perm (sets.map (suffixLabel name "_sum")) := by
    have := hp.sums.map Prod.fst
    rwa [Counts.sumLines, List.map_map] at this
  have hread : ∀ label ∈ parts.buckets.keys, ∃ u, leVal table label = some u := by
    intro label hlabel
    obtain ⟨i, hi, rfl⟩ := List.mem_map.mp (hkeys.mem_iff.mp hlabel)
    exact leVal_bucketLabel h hi
  obtain ⟨sorted, hsorted, hperm⟩ := sortByLe_perm hread
  refine ⟨sorted.map fun l => (l, parts.value l), parts.counts.keys.map fun l => (l, parts.value l),
    parts.sums.keys.map fun l => (l, parts.value l), ?_, ?_, ?_, ?_⟩
  · simp only [hsorted, Option.map_some, List.map_append]
  · exact map_value_perm (hperm.trans hkeys) fun i hi => hp.value_bucketLabel hi
  · exact map_value_perm hcounts fun set hset => hp.value_countLabel h hset
  · exact map_value_perm hsums fun set hset => hp.value_sumLabel h hset

end Merge

end PyMotor.Coordinator.SemanticAggregationEngine
