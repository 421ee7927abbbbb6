import Mathlib.Tactic.Linarith
import PyMotor.Coordinator.MetricsCollector
import PyMotor.Lib.DictSum

/-!
# What the aggregation adds up

The value of a list of metrics at a family and a label is the sum of its samples there. Aggregation keeps
values: that of an aggregate is the sum of those of its inputs (`valueOf_aggregateMetrics`).
-/

namespace PyMotor.Coordinator

variable {family label : String}

namespace Metric

def valueAt (m : Metric) (label : String) : ℚ :=
  ((m.samples.filter fun p => decide (p.1 = label)).map Prod.snd).sum

end Metric

def familyOf (family : String) (ms : List Metric) : List Metric :=
  ms.filter fun m => decide (m.name = family)

/-- What the metrics of a list amount to, for one family and one label. -/
def valueOf (family label : String) (ms : List Metric) : ℚ :=
  ((familyOf family ms).map fun m => m.valueAt label).sum

theorem familyOf_cons_of_eq {m : Metric} (h : m.name = family) (ms : List Metric) :
    familyOf family (m :: ms) = m :: familyOf family ms :=
  List.filter_cons_of_pos (decide_eq_true h)

theorem familyOf_cons_of_ne {m : Metric} (h : m.name ≠ family) (ms : List Metric) :
    familyOf family (m :: ms) = familyOf family ms :=
  List.filter_cons_of_neg (by simpa using h)

@[simp] theorem valueOf_nil : valueOf family label [] = 0 := rfl

theorem valueOf_cons_of_eq {m : Metric} (h : m.name = family) (ms : List Metric) :
    valueOf family label (m :: ms) = m.valueAt label + valueOf family label ms := by
  rw [valueOf, familyOf_cons_of_eq h, List.map_cons, List.sum_cons]
  rfl

theorem valueOf_cons_of_ne {m : Metric} (h : m.name ≠ family) (ms : List Metric) :
    valueOf family label (m :: ms) = valueOf family label ms := by
  rw [valueOf, familyOf_cons_of_ne h]
  rfl

theorem valueOf_cons (m : Metric) (ms : List Metric) :
    valueOf family label (m :: ms) =
      (if m.name = family then m.valueAt label else 0) + valueOf family label ms := by
  split
  · next h => exact valueOf_cons_of_eq h ms
  · next h => rw [valueOf_cons_of_ne h, zero_add]

theorem valueOf_append (ms ms' : List Metric) :
    valueOf family label (ms ++ ms') = valueOf family label ms + valueOf family label ms' := by
  simp [valueOf, familyOf]

theorem valueOf_congr {ms ms' : List Metric} (h : familyOf family ms = familyOf family ms') :
    valueOf family label ms = valueOf family label ms' := by
  rw [valueOf, h]
  rfl

theorem valueOf_of_absent {ms : List Metric} (h : familyOf family ms = []) :
    valueOf family label ms = 0 := by
  rw [valueOf, h]
  rfl

theorem valueOf_flatten (lists : List (List Metric)) :
    valueOf family label lists.flatten = (lists.map (valueOf family label)).sum := by
  induction lists with
  | nil => rfl
  | cons ms lists ih => rw [List.flatten_cons, valueOf_append, ih, List.map_cons, List.sum_cons]

theorem sum_map_filter {α : Type} (p : α → Prop) [DecidablePred p] (f : α → ℚ) (l : List α) :
    ((l.filter fun a => decide (p a)).map f).sum = (l.map fun a => if p a then f a else 0).sum := by
  induction l with
  | nil => rfl
  | cons a l ih =>
    by_cases h : p a
    · simp [h, ih]
    · simp [h, ih]

theorem get?_foldl_addSample (ps : List (String × ℚ)) :
    ∀ result : Dict String ℚ, ((ps.foldl addSample result).get? label).getD 0 =
      (result.get? label).getD 0 + ((ps.filter fun p => decide (p.1 = label)).map Prod.snd).sum := by
  induction ps with
  | nil => simp
  | cons p ps ih =>
    intro result
    rw [List.foldl_cons, ih, addSample, Dict.get?_insert]
    by_cases h : p.1 = label
    · subst h
      simp [add_assoc]
    · simp [h]

theorem valueAt_aggregateReduce (name : String) (ms : List Metric) :
    (aggregateReduce name ms).valueAt label = (ms.map fun m => m.valueAt label).sum := by
  have hpart : ∀ d : Dict String ℚ,
      ((d.entries.filter fun p => decide (p.1 = label)).map Prod.snd).sum = (d.get? label).getD 0 := by
    intro d
    rw [sum_map_filter fun p : String × ℚ => p.1 = label]
    show d.sumBy (fun l v => if l = label then v else 0) = _
    rw [d.sumBy_single fun _ v => v]
    unfold Dict.part
    cases d.get? label <;> rfl
  unfold aggregateReduce Metric.valueAt
  rw [hpart, get?_foldl_addSample, Dict.get?_empty, Option.getD_none, zero_add]
  induction ms with
  | nil => rfl
  | cons m ms ih => simp [ih]

theorem get?_foldl_addByName (family : String) (ms : List Metric) :
    ∀ groups : Dict String (List Metric), ((ms.foldl addByName groups).get? family).getD [] =
      (groups.get? family).getD [] ++ ms.filter fun m => decide (m.name = family) := by
  induction ms with
  | nil => simp
  | cons m ms ih =>
    intro groups
    rw [List.foldl_cons, ih, addByName, Dict.get?_insert]
    by_cases h : m.name = family
    · subst h
      simp
    · simp [h]

/-- **Aggregation keeps values.** -/
theorem valueOf_aggregateMetrics (lists : List (List Metric)) :
    valueOf family label (aggregateMetrics lists) = (lists.map (valueOf family label)).sum := by
  have hgroup := get?_foldl_addByName family lists.flatten ∅
  rw [Dict.get?_empty, Option.getD_none, List.nil_append] at hgroup
  rw [← valueOf_flatten]
  unfold aggregateMetrics
  generalize lists.flatten.foldl addByName ∅ = groups at hgroup
  -- of the groups, only the one of the family counts
  have hvalue : valueOf family label (groups.entries.map fun p => aggregateReduce p.1 p.2) =
      groups.part (fun _ ms => (ms.map fun m => m.valueAt label).sum) family := by
    unfold valueOf familyOf
    rw [sum_map_filter fun m : Metric => m.name = family, List.map_map,
      ← groups.sumBy_single fun _ ms => (ms.map fun m => m.valueAt label).sum]
    show _ = (groups.entries.map _).sum
    congr 1
    apply List.map_congr_left
    intro p _
    show (if p.1 = family then (aggregateReduce p.1 p.2).valueAt label else 0) = _
    rw [valueAt_aggregateReduce]
  rw [hvalue]
  unfold valueOf familyOf Dict.part
  rw [← hgroup]
  cases groups.get? family <;> rfl

/-! ## The view -/

namespace MetricsCollector

/-- What the history holds. -/
def historyOf (family label : String) (s : MetricsCollector) : ℚ :=
  s.inactiveInstanceMetricsAggregate.sumBy fun _ ms => valueOf family label ms

theorem valueOf_values_flatten (d : Dict String (List Metric)) :
    valueOf family label d.values.flatten = d.sumBy fun _ ms => valueOf family label ms := by
  rw [valueOf_flatten, Dict.values, List.map_map]
  rfl

theorem valueOf_aggregateMetricsAllInstance (s : MetricsCollector) :
    valueOf family label s.aggregateMetricsAllInstance =
      (s.instanceMetricsCached.sumBy fun _ ms => valueOf family label ms) + s.historyOf family label := by
  unfold aggregateMetricsAllInstance
  rw [valueOf_aggregateMetrics, List.map_append, List.sum_append, List.map_singleton,
    List.sum_singleton, valueOf_values_flatten, Dict.values, List.map_map]
  rfl

theorem valueOf_retired_of_inherited (h : family ∈ inheritedMetricNames) (ms : List Metric) :
    valueOf family label (retired ms) = 0 := by
  induction ms with
  | nil => rfl
  | cons m ms ih =>
    have hzero : m.zero.valueAt label = 0 := by
      unfold Metric.valueAt Metric.zero
      induction m.samples with
      | nil => rfl
      | cons p ps ih => by_cases hp : p.1 = label <;> simp_all
    show valueOf family label ((if m.name ∈ inheritedMetricNames then m.zero else m) :: retired ms) = 0
    rw [valueOf_cons, ih, add_zero]
    split
    · rw [hzero, ite_self]
    · next hin =>
      have hne : m.name ≠ family := fun heq => hin (heq ▸ h)
      rw [if_neg hne]

theorem valueOf_retired (h : family ∉ inheritedMetricNames) (ms : List Metric) :
    valueOf family label (retired ms) = valueOf family label ms := by
  induction ms with
  | nil => rfl
  | cons m ms ih =>
    show valueOf family label ((if m.name ∈ inheritedMetricNames then m.zero else m) :: retired ms) = _
    rw [valueOf_cons, valueOf_cons, ih]
    split
    · next hin =>
      -- a family that is inherited is not the one that is looked at
      have hne : m.name ≠ family := fun heq => h (heq ▸ hin)
      rw [if_neg hne, if_neg (show m.zero.name ≠ family from hne)]
    · rfl

theorem sumBy_foldl_addByRole (family label : String) (cleared : List (String × List Metric)) :
    ∀ groups : Dict String (List (List Metric)),
      ((cleared.foldl addByRole groups).sumBy fun _ lists => (lists.map (valueOf family label)).sum) =
        (groups.sumBy fun _ lists => (lists.map (valueOf family label)).sum) +
          (cleared.map fun p => valueOf family label p.2).sum := by
  induction cleared with
  | nil => simp
  | cons p cleared ih =>
    intro groups
    have hinsert := groups.sumBy_insert (fun _ lists => (lists.map (valueOf family label)).sum) p.1
      ((groups.get? p.1).getD [] ++ [p.2])
    have hpart : groups.part (fun _ lists => (lists.map (valueOf family label)).sum) p.1 =
        (((groups.get? p.1).getD []).map (valueOf family label)).sum := by
      unfold Dict.part
      cases groups.get? p.1 <;> rfl
    rw [hpart, List.map_append, List.sum_append, List.map_singleton, List.sum_singleton] at hinsert
    rw [List.foldl_cons, ih, addByRole, List.map_cons, List.sum_cons]
    linarith

theorem sumBy_foldl_addHistory (groups : List (String × List (List Metric))) :
    ∀ history : Dict String (List Metric),
      ((groups.foldl addHistory history).sumBy fun _ ms => valueOf family label ms) =
        (history.sumBy fun _ ms => valueOf family label ms) +
          (groups.map fun p => (p.2.map (valueOf family label)).sum).sum := by
  induction groups with
  | nil => simp
  | cons p groups ih =>
    intro history
    have hpart : history.part (fun _ ms => valueOf family label ms) p.1 =
        valueOf family label ((history.get? p.1).getD []) := by
      unfold Dict.part
      cases history.get? p.1 <;> rfl
    have hvalue : valueOf family label (aggregateMetrics
        (if (history.get? p.1).getD [] = [] then p.2 else p.2 ++ [(history.get? p.1).getD []])) =
        (p.2.map (valueOf family label)).sum + valueOf family label ((history.get? p.1).getD []) := by
      rw [valueOf_aggregateMetrics]
      split
      · next hempty => rw [hempty, valueOf_nil, add_zero]
      · rw [List.map_append, List.sum_append, List.map_singleton, List.sum_singleton]
    have hinsert := history.sumBy_insert (fun _ ms => valueOf family label ms) p.1 (aggregateMetrics
      (if (history.get? p.1).getD [] = [] then p.2 else p.2 ++ [(history.get? p.1).getD []]))
    rw [hpart, hvalue] at hinsert
    rw [List.foldl_cons, ih, addHistory, List.map_cons, List.sum_cons]
    linarith

theorem historyOf_clearInactiveMetrics (s : MetricsCollector) (pool : Dict InstanceId String) :
    (s.clearInactiveMetrics pool).historyOf family label = s.historyOf family label +
      pool.sumBy fun id _ =>
        s.instanceMetricsCached.part (fun _ ms => valueOf family label (retired ms)) id := by
  unfold clearInactiveMetrics historyOf
  simp only
  rw [sumBy_foldl_addHistory]
  congr 1
  have hgroups := sumBy_foldl_addByRole family label
    (pool.entries.filterMap fun p => (s.instanceMetricsCached.get? p.1).map fun ms => (p.2, retired ms)) ∅
  rw [Dict.sumBy_empty, zero_add] at hgroups
  refine Eq.trans hgroups ?_
  unfold Dict.sumBy
  induction pool.entries with
  | nil => rfl
  | cons p entries ih =>
    rw [List.map_cons, List.sum_cons, ← ih, List.filterMap_cons]
    unfold Dict.part
    cases hget : s.instanceMetricsCached.get? p.1 with
    | none => simp [hget]
    | some ms => simp [hget]

end MetricsCollector

end PyMotor.Coordinator
