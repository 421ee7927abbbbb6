import PyMotor.Coordinator.AggregationEngine.Merging

/-!
# Means and quantiles of merged histograms

Of a merged histogram the mean and the quantiles of every label set are computed, under a key that is the
text of its labels. If the bounds are found, they are right exactly if the label of the count does not
look like the one of the sum, and nothing is counted below zero (`histograms_of_legible`).
-/

namespace PyMotor.Coordinator.SemanticAggregationEngine

variable {name suffix : String} {sets : List LabelSet} {table : CharTable} {set set' : LabelSet}

/-! ## Buckets -/

/-- A count or a sum is not taken for a bucket. -/
def Unmistaken (name : String) (set : LabelSet) : Prop :=
  (∀ l ∈ set.labels, ¬leName <:+ l.1) ∨
    ¬"_bucket".toList <:+: suffixText name "_count" set ∧ ¬"_bucket".toList <:+: suffixText name "_sum" set

def bound (table : CharTable) (t : List Char) : WithTop ℚ := (upperBound table t).getD ⊤

/-- A bucket with the key of its labels. -/
def keyedBucket (table : CharTable) (name : String) (p : String × ℚ) : List Char × Bucket :=
  (histogramLabelGroupKey table p.1.toList name.toList, ((leVal table p.1).getD ⊤, p.2))

theorem infix_bucketText (t : List Char) : "_bucket".toList <:+: bucketText name set t :=
  ⟨name.toList, braces (set.before ++ (leName, t) :: set.after), rfl⟩

theorem parseBucket_bucketLabel (h : Legible table name sets) {i : LabelSet × List Char}
    (hi : i ∈ bucketsIn sets) (groups : Dict (List Char) (List Bucket)) (v : ℚ) :
    parseBucket table name groups (bucketLabel name i, v) =
      some (collect groups (keyedBucket table name (bucketLabel name i, v))) := by
  obtain ⟨u, hu⟩ := leVal_bucketLabel h hi
  have hin : "_bucket".toList <:+: (bucketLabel name i).toList := by
    rw [toList_bucketLabel]
    exact infix_bucketText i.2
  have hupper : upperBound table i.2 = some u := by
    rw [← hu, leVal, h.searchLe_bucketLabel hi]
  unfold parseBucket keyedBucket
  rw [if_pos hin, h.searchLe_bucketLabel hi, hu]
  show (upperBound table i.2).map _ = _
  rw [hupper]
  rfl

theorem parseBucket_suffixLabel (h : Legible table name sets) (hset : set ∈ sets)
    (hunmistaken : Unmistaken name set) (hsuffix : suffix = "_count" ∨ suffix = "_sum")
    (groups : Dict (List Char) (List Bucket)) (v : ℚ) :
    parseBucket table name groups (suffixLabel name suffix set, v) = some groups := by
  unfold parseBucket
  rw [toList_suffixLabel]
  rcases hunmistaken with hnames | ⟨hcount, hsum⟩
  · have hquote : dquote ∉ suffix.toList := by rcases hsuffix with rfl | rfl <;> decide
    rw [searchLe_suffixText h.name_plain (h.written set hset) (h.readable set hset) hquote hnames]
    split <;> rfl
  · have hnot : ¬"_bucket".toList <:+: suffixText name suffix set := by
      rcases hsuffix with rfl | rfl
      · exact hcount
      · exact hsum
    rw [if_neg hnot]

theorem foldlM_eq_some_foldl {A B : Type} {f : B → A → Option B} {g : B → A → B} {l : List A}
    (hf : ∀ a ∈ l, ∀ b, f b a = some (g b a)) (b : B) : l.foldlM f b = some (l.foldl g b) := by
  induction l generalizing b with
  | nil => rfl
  | cons a l ih =>
    rw [List.forall_mem_cons] at hf
    rw [List.foldlM_cons, hf.1, List.foldl_cons]
    exact ih hf.2 (g b a)

theorem foldlM_eq_self {A B : Type} {f : B → A → Option B} {l : List A}
    (hf : ∀ a ∈ l, ∀ b, f b a = some b) (b : B) : l.foldlM f b = some b := by
  induction l generalizing b with
  | nil => rfl
  | cons a l ih =>
    rw [List.forall_mem_cons] at hf
    rw [List.foldlM_cons, hf.1]
    exact ih hf.2 b

variable (fams : List (HistogramFamily name sets))

/-- The samples of the merged family, in their order. -/
structure MergedSamples (samples buckets counts sums : List (String × ℚ)) : Prop where
  samples_eq : samples = buckets ++ counts ++ sums
  buckets_perm : buckets.Perm ((merged fams).bucketLines name sets)
  counts_perm : counts.Perm ((merged fams).countLines name sets)
  sums_perm : sums.Perm ((merged fams).sumLines name sets)

variable {fams} {samples buckets counts sums : List (String × ℚ)}

theorem foldlM_parseBucket (h : Legible table name sets) (hunmistaken : ∀ set ∈ sets, Unmistaken name set)
    (hm : MergedSamples fams samples buckets counts sums) :
    samples.foldlM (parseBucket table name) ∅ =
      some ((buckets.map (keyedBucket table name)).foldl collect ∅) := by
  have hbuckets : ∀ p ∈ buckets, ∀ groups, parseBucket table name groups p =
      some (collect groups (keyedBucket table name p)) := by
    intro p hp groups
    obtain ⟨i, hi, rfl⟩ := List.mem_map.mp (hm.buckets_perm.mem_iff.mp hp)
    exact parseBucket_bucketLabel h hi groups _
  have hrest : ∀ p ∈ counts ++ sums, ∀ groups, parseBucket table name groups p = some groups := by
    intro p hp groups
    rcases List.mem_append.mp hp with hp | hp
    · obtain ⟨set, hset, rfl⟩ := List.mem_map.mp (hm.counts_perm.mem_iff.mp hp)
      exact parseBucket_suffixLabel h hset (hunmistaken set hset) (Or.inl rfl) groups _
    · obtain ⟨set, hset, rfl⟩ := List.mem_map.mp (hm.sums_perm.mem_iff.mp hp)
      exact parseBucket_suffixLabel h hset (hunmistaken set hset) (Or.inr rfl) groups _
  rw [hm.samples_eq, List.append_assoc, List.foldlM_append, foldlM_eq_some_foldl hbuckets]
  show (counts ++ sums).foldlM (parseBucket table name) _ = _
  rw [foldlM_eq_self hrest, List.foldl_map]

/-! ### The buckets of a label set -/

theorem texts_map_bound (h : set.Written table) (cum : List Char → ℚ) :
    (set.texts.map fun t => (bound table t, cum t)) = bucketsOf (set.finite cum) (cum infText) := by
  unfold LabelSet.texts bucketsOf LabelSet.finite
  rw [List.map_append, List.map_map, List.map_map]
  refine congrArg₂ (· ++ ·) ?_ ?_
  · apply List.map_congr_left
    intro b hb
    show ((upperBound table b.1).getD ⊤, cum b.1) = ((b.2 : WithTop ℚ), cum b.1)
    rw [h.upperBound_eq hb, Option.getD_some]
  · show [((upperBound table infText).getD ⊤, cum infText)] = _
    rw [upperBound_infText, Option.getD_some]

theorem flatMap_single {A B : Type} [DecidableEq A] {l : List A} {a : A} (hnd : l.Nodup) (ha : a ∈ l)
    {f : A → List B} (hf : ∀ b ∈ l, b ≠ a → f b = []) : l.flatMap f = f a := by
  induction l with
  | nil => cases ha
  | cons b l ih =>
    rw [List.nodup_cons] at hnd
    rw [List.forall_mem_cons] at hf
    rw [List.flatMap_cons]
    by_cases hb : b = a
    · subst hb
      have hrest : l.flatMap f = [] := by
        rw [List.flatMap_eq_nil_iff]
        intro c hc
        apply hf.2 c hc
        rintro rfl
        exact hnd.1 hc
      rw [hrest, List.append_nil]
    · have hmem := (List.mem_cons.mp ha).resolve_left (Ne.symm hb)
      rw [hf.1 hb, ih hnd.2 hmem hf.2]
      rfl

theorem valuesAt_const {K V I : Type} [DecidableEq K] {k k' : K} {l : List I} {v : I → V} :
    valuesAt k (l.map fun i => (k', v i)) = if k' = k then l.map v else [] := by
  by_cases hk : k' = k
  · subst hk
    rw [if_pos rfl]
    induction l with
    | nil => rfl
    | cons i l ih => rw [List.map_cons, List.map_cons, valuesAt_cons_self, ih]
  · rw [if_neg hk]
    apply valuesAt_eq_nil
    rintro hmem
    rw [List.map_map] at hmem
    obtain ⟨i, -, heq⟩ := List.mem_map.mp hmem
    exact hk heq

theorem valuesAt_bucketsIn (h : Legible table name sets) (hset : set ∈ sets)
    (v : LabelSet × List Char → Bucket) :
    valuesAt (braces set.labels) ((bucketsIn sets).map fun i => (braces i.1.labels, v i)) =
      set.texts.map fun t => v (set, t) := by
  have hsplit : ((bucketsIn sets).map fun i => (braces i.1.labels, v i)) =
      sets.flatMap fun s => s.texts.map fun t => (braces s.labels, v (s, t)) := by
    unfold bucketsIn
    rw [List.map_flatMap]
    refine List.flatMap_congr fun s _ => ?_
    rw [List.map_map]
    rfl
  rw [hsplit, valuesAt_flatMap]
  rw [flatMap_single h.distinct.of_map hset]
  · rw [valuesAt_const, if_pos rfl]
  · intro s hs hne
    rw [valuesAt_const, if_neg]
    exact fun heq => hne (h.eq_of_braces hs hset heq)

theorem keyedBucket_perm (h : Legible table name sets) (hm : MergedSamples fams samples buckets counts sums) :
    (buckets.map (keyedBucket table name)).Perm ((bucketsIn sets).map fun i =>
      (braces i.1.labels, (bound table i.2, (merged fams).cum i.1 i.2))) := by
  refine (hm.buckets_perm.map _).trans (List.Perm.of_eq ?_)
  unfold Counts.bucketLines
  rw [List.map_map]
  apply List.map_congr_left
  intro i hi
  show (histogramLabelGroupKey table (bucketLabel name i).toList name.toList,
    ((leVal table (bucketLabel name i)).getD ⊤, (merged fams).cum i.1 i.2)) = _
  rw [h.groupKey_bucketLabel hi, leVal, h.searchLe_bucketLabel hi]
  rfl

theorem insertionSort_eq {l : List Bucket} {finite : List (ℚ × ℚ)} {total : ℚ}
    (hbounds : finite.Pairwise fun a b => a.1 < b.1) (hperm : l.Perm (bucketsOf finite total)) :
    (l.insertionSort fun a b => a.1 ≤ b.1) = bucketsOf finite total := by
  have hsorted : (bucketsOf finite total).Pairwise fun a b => a.1 < b.1 := by
    refine List.pairwise_append.mpr ⟨?_, List.pairwise_singleton _ _, ?_⟩
    · exact List.pairwise_map.mpr (hbounds.imp fun hlt => WithTop.coe_lt_coe.mpr hlt)
    · intro a ha b hb
      obtain ⟨p, -, rfl⟩ := List.mem_map.mp ha
      rw [List.mem_singleton.mp hb]
      exact WithTop.coe_lt_top p.1
  have htotal : (l.insertionSort fun a b => a.1 ≤ b.1).Pairwise fun a b => a.1 ≤ b.1 :=
    List.pairwise_insertionSort _ _
  refine List.Perm.eq_of_pairwise (fun a b ha hb hab hba => ?_) htotal (hsorted.imp fun hlt => hlt.le)
    ((List.perm_insertionSort _ _).trans hperm)
  -- two buckets with one bound are the same
  have hnd : ((bucketsOf finite total).map Prod.fst).Nodup :=
    List.pairwise_map.mpr (hsorted.imp fun hlt => hlt.ne)
  have hmem : a ∈ bucketsOf finite total :=
    hperm.mem_iff.mp ((List.perm_insertionSort _ _).mem_iff.mp ha)
  exact List.inj_on_of_nodup_map hnd hmem hb (le_antisymm hab hba)

/-- The finite buckets and the total of a label set in the merged family. -/
def mergedBuckets (fams : List (HistogramFamily name sets)) (set : LabelSet) : List Bucket :=
  bucketsOf (set.finite ((merged fams).cum set)) ((merged fams).cum set infText)

theorem finite_pairwise (h : set.Written table) (cum : List Char → ℚ) :
    (set.finite cum).Pairwise fun a b => a.1 < b.1 :=
  List.pairwise_map.mpr h.sorted

theorem mergedBuckets_ne_nil (set : LabelSet) : mergedBuckets fams set ≠ [] := by
  simp [mergedBuckets, bucketsOf]

/-- **The buckets** of every label set are found under its key. -/
theorem parseHistogramBuckets_merged (h : Legible table name sets)
    (hunmistaken : ∀ set ∈ sets, Unmistaken name set) {metric : TypedMetric}
    (hname : metric.name = name) (htype : metric.type = .histogram)
    (hm : MergedSamples fams metric.samples buckets counts sums) :
    ∃ groups, parseHistogramBuckets table metric = some groups ∧
      (∀ set ∈ sets, groups.get? (braces set.labels) = some (mergedBuckets fams set)) ∧
      groups.entries.Perm (sets.map fun set => (braces set.labels, mergedBuckets fams set)) := by
  unfold parseHistogramBuckets
  rw [if_neg (not_not_intro htype), hname, foldlM_parseBucket h hunmistaken hm]
  have hperm := keyedBucket_perm h hm
  generalize buckets.map (keyedBucket table name) = pairs at hperm
  have hvalues : ∀ set ∈ sets, (valuesAt (braces set.labels) pairs).Perm (mergedBuckets fams set) := by
    intro set hset
    have hat := valuesAt_bucketsIn h hset fun i => (bound table i.2, (merged fams).cum i.1 i.2)
    have hbounds := texts_map_bound (h.written set hset) ((merged fams).cum set)
    exact (valuesAt_perm _ hperm).trans (List.Perm.of_eq (hat.trans hbounds))
  refine ⟨_, rfl, ?_⟩
  have hget : ∀ set ∈ sets, ((pairs.foldl collect ∅).mapVal fun _ buckets =>
      buckets.insertionSort fun a b => a.1 ≤ b.1).get? (braces set.labels) =
        some (mergedBuckets fams set) := by
    intro set hset
    have hne : valuesAt (braces set.labels) pairs ≠ [] := by
      intro hnil
      have hlen := (hvalues set hset).length_eq
      rw [hnil] at hlen
      exact mergedBuckets_ne_nil set (List.length_eq_zero_iff.mp hlen.symm)
    rw [Dict.get?_mapVal, get?_foldl_collect, if_neg hne, Option.map_some]
    exact congrArg some (insertionSort_eq (finite_pairwise (h.written set hset) _) (hvalues set hset))
  refine ⟨hget, entries_perm ?_ fun k v => ?_⟩
  · rw [List.map_map]
    exact (h.distinct.of_map).map_on fun s hs s' hs' heq => h.eq_of_braces hs hs' heq
  · constructor
    · intro hv
      -- a key that is there belongs to a label set
      have hkey : ∃ set ∈ sets, braces set.labels = k := by
        rw [Dict.get?_mapVal, get?_foldl_collect] at hv
        by_contra hnot
        have hnil : valuesAt k pairs = [] := by
          apply valuesAt_eq_nil
          intro hmem
          obtain ⟨i, hi, heq⟩ := List.mem_map.mp ((hperm.map Prod.fst).mem_iff.mp hmem)
          obtain ⟨j, hj, rfl⟩ := List.mem_map.mp hi
          exact hnot ⟨j.1, (mem_bucketsIn.mp hj).1, heq⟩
        rw [if_pos hnil] at hv
        cases hv
      obtain ⟨set, hset, rfl⟩ := hkey
      rw [hget set hset, Option.some.injEq] at hv
      exact List.mem_map.mpr ⟨set, hset, by rw [hv]⟩
    · intro hv
      obtain ⟨set, hset, heq⟩ := List.mem_map.mp hv
      obtain ⟨rfl, rfl⟩ := Prod.mk.inj heq
      exact hget set hset

/-! ## Totals -/

/-- Keep the last value of every key. -/
def lastByKey (table : CharTable) (name : String) (d : Dict (List Char) ℚ) (p : String × ℚ) :
    Dict (List Char) ℚ :=
  d.insert (histogramLabelGroupKey table p.1.toList name.toList) p.2

def looksLikeSum (p : String × ℚ) : Bool := decide (sumMark <:+: p.1.toList)

def looksLikeCount (p : String × ℚ) : Bool := decide ("_count".toList <:+: p.1.toList)

theorem foldl_groupTotals (samples : List (String × ℚ)) (totals : GroupTotals) :
    samples.foldl (GroupTotals.add table name) totals =
      ⟨(samples.filter looksLikeSum).foldl (lastByKey table name) totals.sumByGroup,
        (samples.filter fun p => !looksLikeSum p && looksLikeCount p).foldl (lastByKey table name)
          totals.countByGroup⟩ := by
  induction samples generalizing totals with
  | nil => rfl
  | cons p samples ih =>
    rw [List.foldl_cons, ih]
    unfold GroupTotals.add
    by_cases hsum : looksLikeSum p = true
    · have hin : "_sum".toList <:+: p.1.toList := of_decide_eq_true hsum
      rw [if_pos hin, List.filter_cons_of_pos hsum, List.foldl_cons, List.filter_cons_of_neg (by simp [hsum])]
      rfl
    · have hnot : ¬"_sum".toList <:+: p.1.toList := fun hin => hsum (decide_eq_true hin)
      rw [if_neg hnot, List.filter_cons_of_neg hsum]
      by_cases hcount : looksLikeCount p = true
      · have hin : "_count".toList <:+: p.1.toList := of_decide_eq_true hcount
        rw [if_pos hin, List.filter_cons_of_pos (by simp [hsum, hcount]), List.foldl_cons]
        rfl
      · have hnot' : ¬"_count".toList <:+: p.1.toList := fun hin => hcount (decide_eq_true hin)
        rw [if_neg hnot', List.filter_cons_of_neg (by simp [hcount])]

theorem looksLikeSum_sumLabel (v : ℚ) : looksLikeSum (suffixLabel name "_sum" set, v) = true := by
  unfold looksLikeSum
  rw [toList_suffixLabel, decide_eq_true_eq]
  exact ⟨name.toList, braces set.labels, rfl⟩

theorem looksLikeCount_countLabel (v : ℚ) : looksLikeCount (suffixLabel name "_count" set, v) = true := by
  unfold looksLikeCount
  rw [toList_suffixLabel, decide_eq_true_eq]
  exact ⟨name.toList, braces set.labels, rfl⟩

theorem looksLikeSum_countLabel (v : ℚ) :
    looksLikeSum (suffixLabel name "_count" set, v) = true ↔ sumMark <:+: suffixText name "_count" set := by
  unfold looksLikeSum
  rw [toList_suffixLabel, decide_eq_true_eq]

theorem filter_counts (hm : MergedSamples fams samples buckets counts sums) :
    (samples.filter fun p => !looksLikeSum p && looksLikeCount p) =
      (buckets.filter fun p => !looksLikeSum p && looksLikeCount p) ++
        counts.filter fun p => !looksLikeSum p && looksLikeCount p := by
  have hsums : (sums.filter fun p => !looksLikeSum p && looksLikeCount p) = [] := by
    apply List.filter_eq_nil_iff.mpr
    intro p hp
    obtain ⟨set', -, rfl⟩ := List.mem_map.mp (hm.sums_perm.mem_iff.mp hp)
    simp [looksLikeSum_sumLabel]
  rw [hm.samples_eq, List.filter_append, List.filter_append, hsums, List.append_nil]

section Totals

variable (h : Legible table name sets) (hm : MergedSamples fams samples buckets counts sums)
  (hset : set ∈ sets)

include h hm hset

theorem get?_sumByGroup :
    (samples.foldl (GroupTotals.add table name) ⟨∅, ∅⟩).sumByGroup.get? (braces set.labels) =
      some ((merged fams).sum set) := by
  have hsums : sums.filter looksLikeSum = sums := by
    apply List.filter_eq_self.mpr
    intro p hp
    obtain ⟨set', -, rfl⟩ := List.mem_map.mp (hm.sums_perm.mem_iff.mp hp)
    exact looksLikeSum_sumLabel _
  rw [foldl_groupTotals, hm.samples_eq, List.filter_append, hsums]
  show ((_ ++ sums).foldl (lastByKey table name) ∅).get? _ = _
  rw [List.foldl_append]
  refine Dict.get?_foldl_insert sums (fun p hp hkey => ?_) _ (Or.inr ?_)
  · obtain ⟨set', hset', rfl⟩ := List.mem_map.mp (hm.sums_perm.mem_iff.mp hp)
    rw [h.groupKey_suffixLabel hset' (Or.inr rfl)] at hkey
    rw [h.eq_of_braces hset' hset hkey]
  · exact ⟨(suffixLabel name "_sum" set, (merged fams).sum set),
      hm.sums_perm.mem_iff.mpr (List.mem_map.mpr ⟨set, hset, rfl⟩),
      h.groupKey_suffixLabel hset (Or.inr rfl)⟩

theorem get?_countByGroup (hnot : ¬sumMark <:+: suffixText name "_count" set) :
    (samples.foldl (GroupTotals.add table name) ⟨∅, ∅⟩).countByGroup.get? (braces set.labels) =
      some ((merged fams).cum set infText) := by
  rw [foldl_groupTotals, filter_counts hm]
  show ((_ ++ _ : List (String × ℚ)).foldl (lastByKey table name) ∅).get? _ = _
  rw [List.foldl_append]
  refine Dict.get?_foldl_insert _ (fun p hp hkey => ?_) _ (Or.inr ?_)
  · obtain ⟨set', hset', rfl⟩ := List.mem_map.mp (hm.counts_perm.mem_iff.mp (List.mem_filter.mp hp).1)
    rw [h.groupKey_suffixLabel hset' (Or.inl rfl)] at hkey
    rw [h.eq_of_braces hset' hset hkey]
  · refine ⟨(suffixLabel name "_count" set, (merged fams).cum set infText), List.mem_filter.mpr ⟨?_, ?_⟩,
      h.groupKey_suffixLabel hset (Or.inl rfl)⟩
    · exact hm.counts_perm.mem_iff.mpr (List.mem_map.mpr ⟨set, hset, rfl⟩)
    · have hsum := Bool.eq_false_iff.mpr
        fun heq => hnot ((looksLikeSum_countLabel ((merged fams).cum set infText)).mp heq)
      rw [hsum, looksLikeCount_countLabel]
      rfl

/-- A count that looks like a sum is not found, and no bucket takes its place. -/
theorem get?_countByGroup_eq_none (hin : sumMark <:+: suffixText name "_count" set) :
    (samples.foldl (GroupTotals.add table name) ⟨∅, ∅⟩).countByGroup.get? (braces set.labels) = none := by
  rw [foldl_groupTotals, filter_counts hm, Option.eq_none_iff_forall_ne_some]
  intro v hv
  rcases Dict.of_get?_foldl_insert _ _ hv with hempty | ⟨p, hp, hkey, -⟩
  · cases hempty
  · rw [← List.filter_append] at hp
    obtain ⟨hp, hlooks⟩ := List.mem_filter.mp hp
    have hsum : looksLikeSum p = true := by
      rcases List.mem_append.mp hp with hp | hp
      · obtain ⟨i, hi, rfl⟩ := List.mem_map.mp (hm.buckets_perm.mem_iff.mp hp)
        rw [h.groupKey_bucketLabel hi] at hkey
        have hsame := h.eq_of_braces (mem_bucketsIn.mp hi).1 hset hkey
        unfold looksLikeSum
        rw [toList_bucketLabel, decide_eq_true_eq, hsame]
        exact sumMark_bucketText hin i.2
      · obtain ⟨set', hset', rfl⟩ := List.mem_map.mp (hm.counts_perm.mem_iff.mp hp)
        rw [h.groupKey_suffixLabel hset' (Or.inl rfl)] at hkey
        rw [h.eq_of_braces hset' hset hkey]
        exact (looksLikeSum_countLabel _).mpr hin
    rw [hsum] at hlooks
    cases hlooks

end Totals

/-! ## The merged family -/

theorem Cumulative.zero {set : LabelSet} (h : set.Written table) :
    Cumulative (set.finite fun _ => 0) 0 where
  bounds := finite_pairwise h _
  counts := List.pairwise_map.mpr (List.pairwise_of_forall fun _ _ => le_refl 0)
  nonneg p hp := by
    obtain ⟨b, -, rfl⟩ := List.mem_map.mp hp
    exact le_refl 0
  le_total p hp := by
    obtain ⟨b, -, rfl⟩ := List.mem_map.mp hp
    exact le_refl 0

theorem Cumulative.add {set : LabelSet} {cum cum' : List Char → ℚ} {total total' : ℚ}
    (h : Cumulative (set.finite cum) total) (h' : Cumulative (set.finite cum') total') :
    Cumulative (set.finite fun t => cum t + cum' t) (total + total') where
  bounds := by
    have hbounds := h.bounds
    unfold LabelSet.finite at hbounds ⊢
    rw [List.pairwise_map] at hbounds ⊢
    exact hbounds
  counts := List.pairwise_map.mpr (((List.pairwise_map.mp h.counts).and (List.pairwise_map.mp h'.counts)).imp
    fun hle => add_le_add hle.1 hle.2)
  nonneg p hp := by
    obtain ⟨b, hb, rfl⟩ := List.mem_map.mp hp
    exact add_nonneg (h.nonneg _ (List.mem_map_of_mem hb)) (h'.nonneg _ (List.mem_map_of_mem hb))
  le_total p hp := by
    obtain ⟨b, hb, rfl⟩ := List.mem_map.mp hp
    exact add_le_add (h.le_total _ (List.mem_map_of_mem hb)) (h'.le_total _ (List.mem_map_of_mem hb))

theorem cumulative_merged (h : Legible table name sets) (hset : set ∈ sets)
    (fams : List (HistogramFamily name sets)) :
    Cumulative (set.finite ((merged fams).cum set)) ((merged fams).cum set infText) := by
  induction fams with
  | nil => exact Cumulative.zero (h.written set hset)
  | cons f fams ih =>
    have hadd := (f.cumulative set hset).add ih
    simpa [merged] using hadd

/-- Nothing is counted in the first bucket, or its bound is not negative. -/
def FirstCounted (fams : List (HistogramFamily name sets)) (set : LabelSet) : Prop :=
  ∀ b, set.bounds.head? = some b → 0 ≤ b.2 ∨ ∀ f ∈ fams, f.counts.cum set b.1 = 0

theorem firstNotNegative_iff (hset : set ∈ sets) :
    FirstNotNegative (set.finite ((merged fams).cum set)) ↔ FirstCounted fams set := by
  have hzero : ∀ b ∈ set.bounds,
      ((merged fams).cum set b.1 = 0 ↔ ∀ f ∈ fams, f.counts.cum set b.1 = 0) := by
    intro b hb
    have hnonneg : ∀ v ∈ fams.map fun f => f.counts.cum set b.1, (0 : ℚ) ≤ v := by
      intro v hv
      obtain ⟨f, -, rfl⟩ := List.mem_map.mp hv
      exact (f.cumulative set hset).nonneg _ (List.mem_map_of_mem hb)
    show (fams.map fun f => f.counts.cum set b.1).sum = 0 ↔ _
    constructor
    · intro hsum f hf
      exact List.all_zero_of_le_zero_le_of_sum_eq_zero hnonneg hsum (List.mem_map_of_mem hf)
    · intro hall
      apply List.sum_eq_zero
      intro v hv
      obtain ⟨f, hf, rfl⟩ := List.mem_map.mp hv
      exact hall f hf
  unfold FirstNotNegative FirstCounted LabelSet.finite
  rw [List.head?_map]
  cases hhead : set.bounds.head? with
  | none => simp
  | some b =>
    have hb : b ∈ set.bounds := List.mem_of_head? hhead
    simp [hzero b hb]

/-! ## What is computed -/

/-- The mean of the values with the labels. -/
def groupMean (table : CharTable) (metric : TypedMetric) (key : List Char) : Option (WithTop ℚ) :=
  let totals := metric.samples.foldl (GroupTotals.add table metric.name) ⟨∅, ∅⟩
  meanValue ((totals.sumByGroup.get? key).getD 0) ((totals.countByGroup.get? key).getD 0)

/-- A quantile of the values with the labels. -/
def groupQuantile (table : CharTable) (metric : TypedMetric) (key : List Char) (q : ℚ) :
    Option (WithTop ℚ) :=
  ((parseHistogramBuckets table metric).bind fun groups => groups.get? key).bind (histogramQuantile q)

/-- The gauges of one label set. -/
def gaugesWith (name : String) (quantiles : List Quantile) (key : List Char) (mean : Option (WithTop ℚ))
    (quantile : ℚ → Option (WithTop ℚ)) : List Gauge :=
  meanGauge name key mean :: quantiles.map fun p => quantileGauge name key p (quantile p.q)

/-- The families are merged and their means and quantiles are computed, which are right for every label
set that has values. -/
def HistogramsRight (table : CharTable) (registry : MetricRegistry)
    (fams : List (HistogramFamily name sets)) : Prop :=
  ∃ metric, aggregate table registry name (fams.map (·.metric)) = some metric ∧
    (∀ config, ∃ gauges, computeHistogramQuantiles table metric config = some gauges ∧
      gauges.Perm (sets.flatMap fun set =>
        gaugesWith name (config.quantiles.getD p50p95p99) (braces set.labels)
          (groupMean table metric (braces set.labels)) (groupQuantile table metric (braces set.labels)))) ∧
    ∀ set ∈ sets, 0 < (merged fams).cum set infText →
      groupMean table metric (braces set.labels) =
        some (((merged fams).sum set / (merged fams).cum set infText : ℚ) : WithTop ℚ) ∧
      QuantilesRight (groupQuantile table metric (braces set.labels))
        (set.finite ((merged fams).cum set)) ((merged fams).cum set infText)

section Computed

variable (h : Legible table name sets) (hunmistaken : ∀ set ∈ sets, Unmistaken name set)
  {metric : TypedMetric} (hname : metric.name = name) (htype : metric.type = .histogram)
  (hm : MergedSamples fams metric.samples buckets counts sums)

include h hname hm

theorem groupMean_eq_iff (hset : set ∈ sets) (htotal : 0 < (merged fams).cum set infText) :
    groupMean table metric (braces set.labels) =
        some (((merged fams).sum set / (merged fams).cum set infText : ℚ) : WithTop ℚ) ↔
      ¬sumMark <:+: suffixText name "_count" set := by
  unfold groupMean
  rw [hname]
  simp only [get?_sumByGroup h hm hset]
  by_cases hin : sumMark <:+: suffixText name "_count" set
  · -- the mean of no values
    have hnone : meanValue ((merged fams).sum set) 0 = none := if_neg (lt_irrefl 0)
    rw [get?_countByGroup_eq_none h hm hset hin]
    simp [hnone, hin]
  · rw [get?_countByGroup h hm hset hin]
    simp [meanValue, htotal, hin]

include hunmistaken htype

theorem groupQuantile_eq (hset : set ∈ sets) :
    groupQuantile table metric (braces set.labels) = fun q => histogramQuantile q (mergedBuckets fams set) := by
  obtain ⟨groups, hgroups, hget, -⟩ := parseHistogramBuckets_merged h hunmistaken hname htype hm
  funext q
  unfold groupQuantile
  rw [hgroups, Option.bind_some, hget set hset, Option.bind_some]

theorem computeHistogramQuantiles_perm (config : MetricSemanticConfig) :
    ∃ gauges, computeHistogramQuantiles table metric config = some gauges ∧
      gauges.Perm (sets.flatMap fun set =>
        gaugesWith name (config.quantiles.getD p50p95p99) (braces set.labels)
          (groupMean table metric (braces set.labels)) (groupQuantile table metric (braces set.labels))) := by
  obtain ⟨groups, hgroups, hget, hperm⟩ := parseHistogramBuckets_merged h hunmistaken hname htype hm
  unfold computeHistogramQuantiles
  rw [hgroups]
  refine ⟨_, rfl, (hperm.flatMap_right _).trans (List.Perm.of_eq ?_)⟩
  rw [List.flatMap_map]
  refine List.flatMap_congr fun set hset => ?_
  have hquantile := groupQuantile_eq h hunmistaken hname htype hm hset
  unfold gaugesOf gaugesWith
  rw [hquantile, hname]
  unfold groupMean
  rw [hname]

end Computed

/-- The line of the number of values is told from the one of their sum, and nothing is counted below
zero. -/
def CountedRight (fams : List (HistogramFamily name sets)) (set : LabelSet) : Prop :=
  ¬sumMark <:+: suffixText name "_count" set ∧ FirstCounted fams set

theorem histograms_of_legible (h : Legible table name sets) (hunmistaken : ∀ set ∈ sets, Unmistaken name set)
    (hne : fams ≠ []) {registry : MetricRegistry} {config : MetricSemanticConfig}
    (hconfig : getSemantic registry name = some config)
    (hsemantic : config.semantic = .histogramLatency ∨ config.semantic = .slaMetric) :
    HistogramsRight table registry fams ↔
      ∀ set ∈ sets, 0 < (merged fams).cum set infText → CountedRight fams set := by
  obtain ⟨f, rest, rfl⟩ := List.exists_cons_of_ne_nil hne
  obtain ⟨buckets, counts, sums, hmerge, hbuckets, hcounts, hsums⟩ :=
    aggregateHistogramMerge_eq (f :: rest) h hne f.metric
  have haggregate : aggregate table registry name ((f :: rest).map (·.metric)) =
      some { f.metric with samples := buckets ++ counts ++ sums } := by
    rw [← hmerge]
    obtain ⟨semantic, quantiles⟩ := config
    unfold aggregate
    rw [hconfig]
    rcases hsemantic with rfl | rfl <;> rfl
  generalize hmetric : ({ f.metric with samples := buckets ++ counts ++ sums } : TypedMetric) = metric at haggregate
  have hname : metric.name = name := by rw [← hmetric]; exact f.name_eq
  have htype : metric.type = .histogram := by rw [← hmetric]; exact f.type_eq
  have hm : MergedSamples (f :: rest) metric.samples buckets counts sums :=
    ⟨by rw [← hmetric], hbuckets, hcounts, hsums⟩
  have hset : ∀ set ∈ sets, 0 < (merged (f :: rest)).cum set infText →
      ((groupMean table metric (braces set.labels) =
          some (((merged (f :: rest)).sum set / (merged (f :: rest)).cum set infText : ℚ) : WithTop ℚ) ∧
        QuantilesRight (groupQuantile table metric (braces set.labels))
          (set.finite ((merged (f :: rest)).cum set)) ((merged (f :: rest)).cum set infText)) ↔
        CountedRight (f :: rest) set) := by
    intro set hset htotal
    rw [groupMean_eq_iff h hname hm hset htotal, groupQuantile_eq h hunmistaken hname htype hm hset]
    exact and_congr_right' ((quantiles_right_iff (cumulative_merged h hset _) htotal).trans
      (firstNotNegative_iff hset))
  constructor
  · rintro ⟨metric', hmetric', -, hright⟩ set hmem htotal
    rw [haggregate, Option.some.injEq] at hmetric'
    subst hmetric'
    exact (hset set hmem htotal).mp (hright set hmem htotal)
  · intro hall
    exact ⟨metric, haggregate, computeHistogramQuantiles_perm h hunmistaken hname htype hm,
      fun set hmem htotal => (hset set hmem htotal).mpr (hall set hmem htotal)⟩

end PyMotor.Coordinator.SemanticAggregationEngine
