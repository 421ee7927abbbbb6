import Mathlib.Algebra.Order.Field.Basic
import Mathlib.Tactic.FieldSimp
import Mathlib.Tactic.Linarith
import Mathlib.Tactic.Ring
import PyMotor.Coordinator.AggregationEngine

/-!
# Quantiles of a histogram

A quantile is looked for in the bucket in which the cumulative count reaches its share of the total, and
interpolated between the bounds of the bucket (`_histogram_quantile`). The first bucket has no lower
bound, and the code begins at zero. That is right as long as no value can be below zero: the quantiles
are in their buckets and in order exactly if the first bound is not negative, or nothing is in the first
bucket (`quantiles_right_iff`).
-/

namespace PyMotor.Coordinator.SemanticAggregationEngine

/-- What a histogram counts: the finite bounds, each with the number of values that are not above it. -/
structure Cumulative (finite : List (ℚ × ℚ)) (total : ℚ) : Prop where
  bounds : finite.Pairwise fun a b => a.1 < b.1
  counts : finite.Pairwise fun a b => a.2 ≤ b.2
  nonneg : ∀ p ∈ finite, 0 ≤ p.2
  le_total : ∀ p ∈ finite, p.2 ≤ total

/-- With the bucket that has everything. -/
def bucketsOf (finite : List (ℚ × ℚ)) (total : ℚ) : List Bucket :=
  finite.map (fun p => ((p.1 : WithTop ℚ), p.2)) ++ [(⊤, total)]

/-- A value is in the bucket in which the count reaches the target. Beyond the finite bounds it is the
largest of them. -/
def LiesAt (finite : List (ℚ × ℚ)) (target v : ℚ) : Prop :=
  (∃ below upper cum rest, finite = below ++ (upper, cum) :: rest ∧ (∀ p ∈ below, p.2 < target) ∧
    target ≤ cum ∧ (∀ p ∈ below, p.1 < v) ∧ v ≤ upper) ∨
  (∀ p ∈ finite, p.2 < target) ∧ ∀ last, finite.getLast? = some last → v = last.1

/-- Quantiles are numbers, each in its bucket, and they are in order. -/
def QuantilesRight (quantile : ℚ → Option (WithTop ℚ)) (finite : List (ℚ × ℚ)) (total : ℚ) : Prop :=
  ∀ q₁ q₂, 0 < q₁ → q₁ ≤ q₂ → q₂ ≤ 1 → ∃ v₁ v₂ : ℚ,
    quantile q₁ = some (v₁ : WithTop ℚ) ∧ quantile q₂ = some (v₂ : WithTop ℚ) ∧ v₁ ≤ v₂ ∧ LiesAt finite (q₁ * total) v₁ ∧ LiesAt finite (q₂ * total) v₂

/-! ## The search -/

/-- What the search comes to, from a bucket on. -/
def interpolate (target : ℚ) : ℚ → ℚ → List (ℚ × ℚ) → ℚ
  | prevBound, _, [] => prevBound
  | prevBound, prevCount, (upper, cum) :: finite =>
    if cum < target then interpolate target upper cum finite
    else prevBound + (target - prevCount) / (cum - prevCount) * (upper - prevBound)

variable {target target' prevBound prevCount total upper cum v : ℚ} {finite : List (ℚ × ℚ)}

theorem quantileFrom_bucketsOf (hprev : prevCount < target) (htotal : target ≤ total) :
    quantileFrom target prevBound prevCount (bucketsOf finite total) =
      some ((interpolate target prevBound prevCount finite : ℚ) : WithTop ℚ) := by
  induction finite generalizing prevBound prevCount with
  | nil => simp [bucketsOf, quantileFrom, interpolate, not_lt.mpr htotal]
  | cons p finite ih =>
    obtain ⟨upper, cum⟩ := p
    by_cases hcum : cum < target
    · have hstep : quantileFrom target (upper : WithTop ℚ) cum (bucketsOf finite total) = _ := ih hcum
      unfold bucketsOf at hstep ⊢
      rw [List.map_cons, List.cons_append, interpolate, if_pos hcum]
      show (if cum < target then _ else _) = _
      rw [if_pos hcum, hstep]
    · have hne : cum ≠ prevCount := by
        rintro rfl
        exact hcum hprev
      unfold bucketsOf
      rw [List.map_cons, List.cons_append, interpolate, if_neg hcum]
      show (if cum < target then _ else if cum = prevCount then _ else _) = _
      rw [if_neg hcum, if_neg hne]

theorem histogramQuantile_bucketsOf {q : ℚ} (hq : 0 < q) (hq1 : q ≤ 1) (htotal : 0 < total) :
    histogramQuantile q (bucketsOf finite total) =
      some ((interpolate (q * total) 0 0 finite : ℚ) : WithTop ℚ) := by
  have hlast : (bucketsOf finite total).getLast? = some (⊤, total) := by
    unfold bucketsOf
    exact List.getLast?_concat
  have hguard : ¬(q < 0 ∨ 1 < q ∨ total ≤ 0) := by
    rintro (h | h | h) <;> linarith
  unfold histogramQuantile
  rw [hlast]
  show (if q < 0 ∨ 1 < q ∨ total ≤ 0 then none else _) = _
  rw [if_neg hguard]
  exact quantileFrom_bucketsOf (mul_pos hq htotal) (by nlinarith)

/-! ## Where the value is -/

theorem fraction_bounds (hprev : prevCount < target) (hcum : target ≤ cum) :
    0 < (target - prevCount) / (cum - prevCount) ∧ (target - prevCount) / (cum - prevCount) ≤ 1 := by
  have hpos : 0 < cum - prevCount := by linarith
  exact ⟨div_pos (by linarith) hpos, (div_le_one hpos).mpr (by linarith)⟩

/-- Between two bounds, the value is above the lower one and not above the upper one. -/
theorem between (hprev : prevCount < target) (hcum : target ≤ cum) (hbound : prevBound < upper) :
    prevBound < prevBound + (target - prevCount) / (cum - prevCount) * (upper - prevBound) ∧
      prevBound + (target - prevCount) / (cum - prevCount) * (upper - prevBound) ≤ upper := by
  obtain ⟨hpos, hone⟩ := fraction_bounds hprev hcum
  have hwidth : 0 < upper - prevBound := by linarith
  constructor
  · have := mul_pos hpos hwidth
    linarith
  · have := mul_le_mul_of_nonneg_right hone hwidth.le
    linarith

theorem LiesAt.cons (hcum : cum < target) (hv : upper < v) (h : LiesAt finite target v)
    (hne : finite ≠ []) : LiesAt ((upper, cum) :: finite) target v := by
  rcases h with ⟨below, u, c, rest, rfl, hbelow, hc, hlt, hle⟩ | ⟨hall, hlast⟩
  · refine Or.inl ⟨(upper, cum) :: below, u, c, rest, rfl, ?_, hc, ?_, hle⟩
    · exact List.forall_mem_cons.mpr ⟨hcum, hbelow⟩
    · exact List.forall_mem_cons.mpr ⟨hv, hlt⟩
  · refine Or.inr ⟨List.forall_mem_cons.mpr ⟨hcum, hall⟩, fun last h => hlast last ?_⟩
    rwa [List.getLast?_cons_of_ne_nil hne] at h

theorem lt_interpolate (hprev : prevCount < target) (hne : finite ≠ [])
    (hbounds : (prevBound :: finite.map Prod.fst).Pairwise (· < ·)) :
    prevBound < interpolate target prevBound prevCount finite := by
  induction finite generalizing prevBound prevCount with
  | nil => exact absurd rfl hne
  | cons p finite ih =>
    obtain ⟨upper, cum⟩ := p
    rw [List.map_cons, List.pairwise_cons] at hbounds
    have hupper : prevBound < upper := hbounds.1 upper List.mem_cons_self
    by_cases hcum : cum < target
    · rw [interpolate, if_pos hcum]
      by_cases hfinite : finite = []
      · rw [hfinite]
        exact hupper
      · exact hupper.trans (ih hcum hfinite hbounds.2)
    · rw [interpolate, if_neg hcum]
      exact (between hprev (not_lt.mp hcum) hupper).1

theorem liesAt_interpolate (hprev : prevCount < target) (hne : finite ≠ [])
    (hbounds : (prevBound :: finite.map Prod.fst).Pairwise (· < ·)) :
    LiesAt finite target (interpolate target prevBound prevCount finite) := by
  induction finite generalizing prevBound prevCount with
  | nil => exact absurd rfl hne
  | cons p finite ih =>
    obtain ⟨upper, cum⟩ := p
    rw [List.map_cons, List.pairwise_cons] at hbounds
    have hupper : prevBound < upper := hbounds.1 upper List.mem_cons_self
    by_cases hcum : cum < target
    · rw [interpolate, if_pos hcum]
      by_cases hfinite : finite = []
      · -- the search ends at the largest bound
        subst hfinite
        exact Or.inr ⟨by simpa using hcum, by simp [interpolate]⟩
      · exact (ih hcum hfinite hbounds.2).cons hcum (lt_interpolate hcum hfinite hbounds.2) hfinite
    · rw [interpolate, if_neg hcum]
      exact Or.inl ⟨[], upper, cum, finite, rfl, by simp, not_lt.mp hcum, by simp,
        (between hprev (not_lt.mp hcum) hupper).2⟩

theorem le_interpolate (hprev : prevCount < target)
    (hbounds : (prevBound :: finite.map Prod.fst).Pairwise (· < ·)) :
    prevBound ≤ interpolate target prevBound prevCount finite := by
  by_cases hne : finite = []
  · rw [hne, interpolate]
  · exact (lt_interpolate hprev hne hbounds).le

theorem interpolate_mono (hprev : prevCount < target) (hle : target ≤ target')
    (hbounds : (prevBound :: finite.map Prod.fst).Pairwise (· < ·)) :
    interpolate target prevBound prevCount finite ≤ interpolate target' prevBound prevCount finite := by
  induction finite generalizing prevBound prevCount with
  | nil => exact le_refl _
  | cons p finite ih =>
    obtain ⟨upper, cum⟩ := p
    rw [List.map_cons, List.pairwise_cons] at hbounds
    have hupper : prevBound < upper := hbounds.1 upper List.mem_cons_self
    rw [interpolate, interpolate]
    by_cases hcum : cum < target
    · rw [if_pos hcum, if_pos (hcum.trans_le hle)]
      exact ih hcum hbounds.2
    · rw [if_neg hcum]
      by_cases hcum' : cum < target'
      · -- the larger target is reached in a later bucket
        rw [if_pos hcum']
        exact (between hprev (not_lt.mp hcum) hupper).2.trans (le_interpolate hcum' hbounds.2)
      · rw [if_neg hcum']
        have hpos : 0 < cum - prevCount := by linarith
        have hfraction : (target - prevCount) / (cum - prevCount) ≤
            (target' - prevCount) / (cum - prevCount) :=
          div_le_div_of_nonneg_right (by linarith) hpos.le
        have := mul_le_mul_of_nonneg_right hfraction (sub_pos.mpr hupper).le
        linarith

/-! ## The first bucket -/

/-- No value of the first bucket is negative. -/
def FirstNotNegative (finite : List (ℚ × ℚ)) : Prop :=
  ∀ first, finite.head? = some first → 0 ≤ first.1 ∨ first.2 = 0

theorem interpolate_first (hcum : ¬cum < target) :
    interpolate target 0 0 ((upper, cum) :: finite) = target / cum * upper := by
  rw [interpolate, if_neg hcum]
  ring

theorem liesAt_interpolate_zero (h : Cumulative finite total) (hfirst : FirstNotNegative finite)
    (htarget : 0 < target) : LiesAt finite target (interpolate target 0 0 finite) := by
  have hbounds := List.pairwise_map.mpr h.bounds
  cases finite with
  | nil => exact Or.inr ⟨by simp, by simp⟩
  | cons p finite =>
    obtain ⟨upper, cum⟩ := p
    by_cases hcum : cum < target
    · rw [interpolate, if_pos hcum]
      by_cases hfinite : finite = []
      · subst hfinite
        exact Or.inr ⟨by simpa using hcum, by simp [interpolate]⟩
      · exact (liesAt_interpolate hcum hfinite hbounds).cons hcum (lt_interpolate hcum hfinite hbounds)
          hfinite
    · rw [interpolate_first hcum]
      have hpos : 0 < cum := htarget.trans_le (not_lt.mp hcum)
      have hupper : 0 ≤ upper := (hfirst _ rfl).resolve_right hpos.ne'
      have hone : target / cum ≤ 1 := (div_le_one hpos).mpr (not_lt.mp hcum)
      have hle := mul_le_mul_of_nonneg_right hone hupper
      exact Or.inl ⟨[], upper, cum, finite, rfl, by simp, not_lt.mp hcum, by simp, by linarith⟩

theorem interpolate_zero_mono (h : Cumulative finite total) (hfirst : FirstNotNegative finite)
    (htarget : 0 < target) (hle : target ≤ target') :
    interpolate target 0 0 finite ≤ interpolate target' 0 0 finite := by
  have hbounds := List.pairwise_map.mpr h.bounds
  cases finite with
  | nil => exact le_refl _
  | cons p finite =>
    obtain ⟨upper, cum⟩ := p
    by_cases hcum : cum < target
    · rw [interpolate, if_pos hcum, interpolate, if_pos (hcum.trans_le hle)]
      exact interpolate_mono hcum hle hbounds
    · have hpos : 0 < cum := htarget.trans_le (not_lt.mp hcum)
      have hupper : 0 ≤ upper := (hfirst _ rfl).resolve_right hpos.ne'
      rw [interpolate_first hcum]
      by_cases hcum' : cum < target'
      · rw [interpolate, if_pos hcum']
        have hone : target / cum ≤ 1 := (div_le_one hpos).mpr (not_lt.mp hcum)
        have hmul := mul_le_mul_of_nonneg_right hone hupper
        exact (by linarith : target / cum * upper ≤ upper).trans (le_interpolate hcum' hbounds)
      · rw [interpolate_first hcum']
        exact mul_le_mul_of_nonneg_right (div_le_div_of_nonneg_right hle hpos.le) hupper

/-- Half of what is in a first bucket below zero is looked for above its bound. -/
theorem not_liesAt_half (hupper : upper < 0) (hcum : 0 < cum) :
    ¬LiesAt ((upper, cum) :: finite) (cum / 2) (cum / 2 / cum * upper) := by
  have hhalf : cum / 2 / cum = 1 / 2 := by
    field_simp
  rw [hhalf]
  rintro (⟨below, u, c, rest, heq, hbelow, -, -, hle⟩ | ⟨hall, -⟩)
  · cases below with
    | nil =>
      obtain ⟨rfl, -⟩ := Prod.mk.inj (List.cons.inj heq).1
      linarith
    | cons p below =>
      obtain ⟨rfl, -⟩ := List.cons.inj heq
      have : cum < cum / 2 := hbelow _ List.mem_cons_self
      linarith
  · have : cum < cum / 2 := hall _ List.mem_cons_self
    linarith

/-- **Quantiles are right exactly if nothing is below zero.** -/
theorem quantiles_right_iff (h : Cumulative finite total) (htotal : 0 < total) :
    QuantilesRight (fun q => histogramQuantile q (bucketsOf finite total)) finite total ↔
      FirstNotNegative finite := by
  constructor
  · rintro hright ⟨upper, cum⟩ hhead
    obtain ⟨rest, rfl⟩ := List.head?_eq_some_iff.mp hhead
    by_contra hnot
    rw [not_or, not_le] at hnot
    obtain ⟨hupper, hcum⟩ := hnot
    have hpos : 0 < cum := lt_of_le_of_ne (h.nonneg _ List.mem_cons_self) (Ne.symm hcum)
    have hle : cum ≤ total := h.le_total _ List.mem_cons_self
    -- the quantile that reaches half of the first bucket
    have hq : 0 < cum / 2 / total := by positivity
    have hq1 : cum / 2 / total ≤ 1 := (div_le_one htotal).mpr (by linarith)
    obtain ⟨v, _, hv, -, -, hlies, -⟩ := hright _ _ hq (le_refl _) hq1
    rw [div_mul_cancel₀ _ htotal.ne'] at hlies
    have hv := (histogramQuantile_bucketsOf hq hq1 htotal).symm.trans hv
    rw [div_mul_cancel₀ _ htotal.ne', interpolate_first (by linarith)] at hv
    obtain rfl : cum / 2 / cum * upper = v := WithTop.coe_injective (Option.some.inj hv)
    exact not_liesAt_half hupper hpos hlies
  · intro hfirst q₁ q₂ hq₁ hle hq₂
    have htarget := mul_pos hq₁ htotal
    have hmul : q₁ * total ≤ q₂ * total := mul_le_mul_of_nonneg_right hle htotal.le
    exact ⟨_, _, histogramQuantile_bucketsOf hq₁ (hle.trans hq₂) htotal,
      histogramQuantile_bucketsOf (hq₁.trans_le hle) hq₂ htotal,
      interpolate_zero_mono h hfirst htarget hmul, liesAt_interpolate_zero h hfirst htarget,
      liesAt_interpolate_zero h hfirst (htarget.trans_le hmul)⟩

end PyMotor.Coordinator.SemanticAggregationEngine
