import Mathlib.Algebra.Order.BigOperators.Group.Finset
import PyMotor.Lib.Dict

/-!
# Sums over a finite map

What the entries of a `Dict` add up to. The sum is one over any finite set that has all keys
(`sumBy_eq_sum`), where a key that is not in the map counts for nothing, so sums over different maps are
compared key by key.
-/

namespace PyMotor

namespace Dict

universe u

variable {K V : Type} {M : Type u} [AddCommMonoid M]

def sumBy (d : Dict K V) (g : K → V → M) : M := (d.entries.map fun p => g p.1 p.2).sum

variable [DecidableEq K] {d : Dict K V} {g : K → V → M}

/-- What one key contributes. -/
def part (d : Dict K V) (g : K → V → M) (k : K) : M := (d.get? k).elim 0 (g k)

theorem part_of_some {k : K} {v : V} (h : d.get? k = some v) : d.part g k = g k v := by
  rw [part, h]
  rfl

theorem part_of_none {k : K} (h : d.get? k = none) : d.part g k = 0 := by
  rw [part, h]
  rfl

theorem part_insert (d : Dict K V) (g : K → V → M) (k k' : K) (v : V) :
    (d.insert k v).part g k' = if k = k' then g k' v else d.part g k' := by
  unfold part
  rw [get?_insert]
  split
  · rfl
  · rfl

/-- **A sum over a map** is one over any finite set of keys that has all of its keys. -/
theorem sumBy_eq_sum (d : Dict K V) (g : K → V → M) {E : Finset K}
    (hE : ∀ k v, d.get? k = some v → k ∈ E) : d.sumBy g = ∑ k ∈ E, d.part g k := by
  have hkeys : d.sumBy g = (d.keys.map (d.part g)).sum := by
    unfold sumBy keys
    rw [List.map_map]
    congr 1
    apply List.map_congr_left
    intro p hp
    exact (part_of_some (mem_entries_iff.mp hp)).symm
  rw [hkeys, ← List.sum_toFinset (d.part g) (show d.keys.Nodup from d.nodup)]
  apply Finset.sum_subset
  · intro k hk
    obtain ⟨v, hv⟩ := mem_keys_iff.mp (List.mem_toFinset.mp hk)
    exact hE k v hv
  · intro k _ hk
    apply part_of_none
    rw [List.mem_toFinset, mem_keys_iff, not_exists] at hk
    exact Option.eq_none_iff_forall_ne_some.mpr hk

/-! ### Several maps

The maps that are compared may have values of different types. -/

section Several

variable {V' V'' : Type} {d : Dict K V} {d' : Dict K V'} {d'' : Dict K V''} {g : K → V → M}
  {g' : K → V' → M} {g'' : K → V'' → M}

/-- A finite set that has the keys of two maps. -/
theorem exists_keys (d : Dict K V) (d' : Dict K V') : ∃ E : Finset K,
    (∀ k v, d.get? k = some v → k ∈ E) ∧ ∀ k v, d'.get? k = some v → k ∈ E := by
  refine ⟨d.keys.toFinset ∪ d'.keys.toFinset, fun k v hv => ?_, fun k v hv => ?_⟩
  · exact Finset.mem_union_left _ (List.mem_toFinset.mpr (mem_keys_iff.mpr ⟨v, hv⟩))
  · exact Finset.mem_union_right _ (List.mem_toFinset.mpr (mem_keys_iff.mpr ⟨v, hv⟩))

theorem sumBy_congr (h : ∀ k, d.part g k = d'.part g' k) : d.sumBy g = d'.sumBy g' := by
  obtain ⟨E, hleft, hright⟩ := exists_keys d d'
  rw [sumBy_eq_sum d g hleft, sumBy_eq_sum d' g' hright]
  exact Finset.sum_congr rfl fun k _ => h k

theorem sumBy_add (h : ∀ k, d.part g k + d'.part g' k = d''.part g'' k) :
    d.sumBy g + d'.sumBy g' = d''.sumBy g'' := by
  obtain ⟨E, hleft, hright⟩ := exists_keys d d'
  obtain ⟨E', hleft', hright'⟩ := exists_keys d'' d''
  rw [sumBy_eq_sum d g fun k v hv => Finset.mem_union_left E' (hleft k v hv),
    sumBy_eq_sum d' g' fun k v hv => Finset.mem_union_left E' (hright k v hv),
    sumBy_eq_sum d'' g'' fun k v hv => Finset.mem_union_right E (hleft' k v hv),
    ← Finset.sum_add_distrib]
  exact Finset.sum_congr rfl fun k _ => h k

theorem sumBy_of_change (d : Dict K V) (d' : Dict K V') (g : K → V → M) (g' : K → V' → M) (k : K)
    (h : ∀ k', k' ≠ k → d'.part g' k' = d.part g k') :
    d'.sumBy g' + d.part g k = d.sumBy g + d'.part g' k := by
  obtain ⟨E, hleft, hright⟩ := exists_keys d d'
  have hk : k ∈ Insert.insert k E := Finset.mem_insert_self k E
  rw [sumBy_eq_sum d g fun k' v hv => Finset.mem_insert_of_mem (hleft k' v hv),
    sumBy_eq_sum d' g' fun k' v hv => Finset.mem_insert_of_mem (hright k' v hv),
    ← Finset.sum_erase_add _ _ hk, ← Finset.sum_erase_add _ _ hk, add_right_comm]
  congr 2
  exact Finset.sum_congr rfl fun k' hk' => h k' (Finset.ne_of_mem_erase hk')

theorem sumBy_le [PartialOrder M] [IsOrderedAddMonoid M] (h : ∀ k, d.part g k ≤ d'.part g' k) :
    d.sumBy g ≤ d'.sumBy g' := by
  obtain ⟨E, hleft, hright⟩ := exists_keys d d'
  rw [sumBy_eq_sum d g hleft, sumBy_eq_sum d' g' hright]
  exact Finset.sum_le_sum fun k _ => h k

omit [DecidableEq K] in
theorem sumBy_sum {E : Type} (d : Dict K V) (f : K → V → E → M) (P : Finset E) :
    (d.sumBy fun k v => ∑ e ∈ P, f k v e) = ∑ e ∈ P, d.sumBy fun k v => f k v e := by
  unfold sumBy
  induction d.entries with
  | nil => exact Finset.sum_const_zero.symm
  | cons p entries ih => simp only [List.map_cons, List.sum_cons, ih, Finset.sum_add_distrib]

end Several

theorem sumBy_single (d : Dict K V) (g : K → V → M) (k : K) :
    d.sumBy (fun k' v => if k' = k then g k' v else 0) = d.part g k := by
  have hE : ∀ k' v, d.get? k' = some v → k' ∈ Insert.insert k d.keys.toFinset := by
    intro k' v hv
    exact Finset.mem_insert_of_mem (List.mem_toFinset.mpr (mem_keys_iff.mpr ⟨v, hv⟩))
  rw [sumBy_eq_sum d _ hE, Finset.sum_eq_single_of_mem k (Finset.mem_insert_self k _)]
  · unfold part
    simp only [if_true]
  · intro k' _ hne
    unfold part
    simp only [if_neg hne]
    cases d.get? k' <;> rfl

/-- What is written takes the place of what was there. -/
theorem sumBy_insert (d : Dict K V) (g : K → V → M) (k : K) (v : V) :
    (d.insert k v).sumBy g + d.part g k = d.sumBy g + g k v := by
  have hchange := sumBy_of_change d (d.insert k v) g g k fun k' hne => by
    rw [part_insert, if_neg (Ne.symm hne)]
  rw [hchange, part_insert, if_pos rfl]

omit [DecidableEq K] in
@[simp] theorem sumBy_empty (g : K → V → M) : (∅ : Dict K V).sumBy g = 0 := rfl

end Dict

end PyMotor
