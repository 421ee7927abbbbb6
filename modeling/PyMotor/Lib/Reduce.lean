import PyMotor.Lib.Dict

/-!
# Reductions

A list of values is reduced by an operation, and a list of labelled values is reduced label by label.
Under an associative operation it does not matter how the list is cut (`reduce_flatten`), and if the
operation is commutative too, the order of the values does not matter either (`reduce_perm`).
-/

namespace PyMotor

variable {K V W : Type}

/-! ## One list -/

section Reduce

variable (op : V → V → V)

/-- What the values come to; there is nothing to say of no values. -/
def reduce (l : List V) : Option V := l.foldl (fun r v => r.merge op (some v)) none

@[simp] theorem reduce_nil : reduce op [] = none := rfl

@[simp] theorem reduce_singleton (v : V) : reduce op [v] = some v := rfl

variable [Std.Associative op]

theorem foldl_merge (r : Option V) (l : List V) :
    l.foldl (fun r v => r.merge op (some v)) r = r.merge op (reduce op l) := by
  unfold reduce
  induction l generalizing r with
  | nil => simp
  | cons v l ih =>
    rw [List.foldl_cons, List.foldl_cons, ih, ih (Option.merge op none (some v)),
      Option.merge_none_left, (Option.associative_merge op).assoc]

theorem reduce_cons (v : V) (l : List V) :
    reduce op (v :: l) = (some v).merge op (reduce op l) :=
  foldl_merge op (some v) l

theorem reduce_append (l l' : List V) :
    reduce op (l ++ l') = (reduce op l).merge op (reduce op l') := by
  unfold reduce
  rw [List.foldl_append]
  exact foldl_merge op _ l'

theorem reduce_flatten (ls : List (List V)) :
    reduce op (ls.filterMap (reduce op)) = reduce op ls.flatten := by
  induction ls with
  | nil => rfl
  | cons l ls ih =>
    rw [List.flatten_cons, reduce_append, ← ih]
    cases h : reduce op l with
    | none => rw [List.filterMap_cons_none h, Option.merge_none_left]
    | some v => rw [List.filterMap_cons_some h, reduce_cons]

theorem reduce_perm [Std.Commutative op] {l l' : List V} (h : l.Perm l') :
    reduce op l = reduce op l' := by
  induction h with
  | nil => rfl
  | cons v _ ih => rw [reduce_cons, reduce_cons, ih]
  | swap v w l =>
    have hassoc := (Option.associative_merge op).assoc
    rw [reduce_cons, reduce_cons, reduce_cons, reduce_cons, ← hassoc, ← hassoc,
      (Option.commutative_merge op).comm (some w)]
  | trans _ _ ih ih' => exact ih.trans ih'

end Reduce

/-! ## Label by label -/

section Gather

variable [DecidableEq K]

/-- The values under one label, in order. -/
def valuesAt (k : K) (l : List (K × V)) : List V :=
  l.filterMap fun p => if p.1 = k then some p.2 else none

@[simp] theorem valuesAt_nil (k : K) : valuesAt k ([] : List (K × V)) = [] := rfl

theorem valuesAt_cons_self (k : K) (v : V) (l : List (K × V)) :
    valuesAt k ((k, v) :: l) = v :: valuesAt k l :=
  List.filterMap_cons_some (if_pos rfl)

theorem valuesAt_cons_ne {k : K} {p : K × V} (h : p.1 ≠ k) (l : List (K × V)) :
    valuesAt k (p :: l) = valuesAt k l :=
  List.filterMap_cons_none (if_neg h)

theorem valuesAt_append (k : K) (l l' : List (K × V)) :
    valuesAt k (l ++ l') = valuesAt k l ++ valuesAt k l' :=
  List.filterMap_append

theorem valuesAt_flatMap {A : Type} (k : K) (f : A → List (K × V)) (as : List A) :
    valuesAt k (as.flatMap f) = as.flatMap fun a => valuesAt k (f a) := by
  induction as with
  | nil => rfl
  | cons a as ih => rw [List.flatMap_cons, List.flatMap_cons, valuesAt_append, ih]

theorem valuesAt_eq_nil {k : K} {l : List (K × V)} (h : k ∉ l.map Prod.fst) : valuesAt k l = [] := by
  rw [valuesAt, List.filterMap_eq_nil_iff]
  intro p hp
  rw [if_neg]
  rintro rfl
  exact h (List.mem_map_of_mem hp)

theorem valuesAt_entries (k : K) (d : Dict K V) : valuesAt k d.entries = (d.get? k).toList := by
  unfold Dict.get?
  have hnd := d.nodup
  generalize d.entries = l at hnd
  induction l with
  | nil => rfl
  | cons p l ih =>
    obtain ⟨k', v⟩ := p
    rw [List.map_cons, List.nodup_cons] at hnd
    by_cases hk : k' = k
    · subst hk
      rw [valuesAt_cons_self, valuesAt_eq_nil hnd.1]
      simp [AssocList.get?]
    · rw [valuesAt_cons_ne hk, ih hnd.2, AssocList.get?, if_neg hk]

theorem valuesAt_perm (k : K) {l l' : List (K × V)} (h : l.Perm l') :
    (valuesAt k l).Perm (valuesAt k l') :=
  h.filterMap _

theorem valuesAt_of_mem {k : K} {v : V} {l : List (K × V)} (hnd : (l.map Prod.fst).Nodup)
    (h : (k, v) ∈ l) : valuesAt k l = [v] := by
  have hget := valuesAt_entries k ⟨l, hnd⟩
  have hmem : Dict.get? ⟨l, hnd⟩ k = some v := Dict.mem_entries_iff.mp h
  rw [hmem] at hget
  exact hget

/-- Take a labelled value into what its label has so far. -/
def gatherStep (f : Option W → V → W) (d : Dict K W) (p : K × V) : Dict K W :=
  d.insert p.1 (f (d.get? p.1) p.2)

/-- What is gathered under a label depends on the values under the label. -/
theorem get?_foldl_gatherStep (f : Option W → V → W) (k : K) (l : List (K × V)) (d : Dict K W) :
    (l.foldl (gatherStep f) d).get? k = (valuesAt k l).foldl (fun r v => some (f r v)) (d.get? k) := by
  induction l generalizing d with
  | nil => rfl
  | cons p l ih =>
    obtain ⟨k', v⟩ := p
    rw [List.foldl_cons, ih, gatherStep, Dict.get?_insert]
    by_cases hk : k' = k
    · subst hk
      rw [valuesAt_cons_self, if_pos rfl, List.foldl_cons]
    · rw [valuesAt_cons_ne hk, if_neg hk]

theorem entries_perm {d : Dict K V} {l : List (K × V)} (hnd : (l.map Prod.fst).Nodup)
    (h : ∀ k v, d.get? k = some v ↔ (k, v) ∈ l) : d.entries.Perm l := by
  apply (List.perm_ext_iff_of_nodup d.nodup.of_map hnd.of_map).mpr
  rintro ⟨k, v⟩
  rw [Dict.mem_entries_iff, h]

/-- Several sources that have one value each for the same labels. -/
theorem gathered_perm {F I : Type} {f : Option V → V → V} {op : V → V → V}
    (hf : ∀ r v, some (f r v) = r.merge op (some v)) {sources : List F} {samples : F → List (K × V)}
    {items : List I} {label : I → K} {value : F → I → V} {total : I → V}
    (hnd : (items.map label).Nodup)
    (hsamples : ∀ x ∈ sources, (samples x).Perm (items.map fun i => (label i, value x i)))
    (htotal : ∀ i ∈ items, reduce op (sources.map fun x => value x i) = some (total i)) :
    ((sources.flatMap samples).foldl (gatherStep f) ∅).entries.Perm
      (items.map fun i => (label i, total i)) := by
  have hkeys : ∀ w : I → V, ((items.map fun i => (label i, w i)).map Prod.fst).Nodup := by
    intro w
    rw [List.map_map]
    exact hnd
  -- what is gathered under a label is the reduction of the values that the sources have there
  have hget : ∀ k, ((sources.flatMap samples).foldl (gatherStep f) ∅).get? k =
      reduce op (sources.flatMap fun x => valuesAt k (samples x)) := by
    intro k
    rw [get?_foldl_gatherStep, valuesAt_flatMap]
    unfold reduce
    simp only [hf]
    rfl
  apply entries_perm (hkeys total)
  intro k v
  rw [hget]
  by_cases hk : ∃ i ∈ items, label i = k
  · obtain ⟨i, hi, rfl⟩ := hk
    have hvalues : (sources.flatMap fun x => valuesAt (label i) (samples x)) =
        sources.map fun x => value x i := by
      rw [List.map_eq_flatMap]
      refine List.flatMap_congr fun x hx => ?_
      have hone : valuesAt (label i) (items.map fun i => (label i, value x i)) = [value x i] :=
        valuesAt_of_mem (hkeys _) (List.mem_map.mpr ⟨i, hi, rfl⟩)
      exact List.perm_singleton.mp (hone ▸ valuesAt_perm _ (hsamples x hx))
    have hat : (label i, total i) ∈ items.map fun i => (label i, total i) :=
      List.mem_map.mpr ⟨i, hi, rfl⟩
    rw [hvalues, htotal i hi, Option.some.injEq]
    constructor
    · rintro rfl
      exact hat
    · intro hmem
      have hsame := valuesAt_of_mem (hkeys total) hat
      rw [valuesAt_of_mem (hkeys total) hmem] at hsame
      exact (List.cons.inj hsame).1.symm
  · have hnone : ∀ w : I → V, k ∉ (items.map fun i => (label i, w i)).map Prod.fst := by
      intro w
      rw [List.map_map]
      rintro hmem
      obtain ⟨i, hi, heq⟩ := List.mem_map.mp hmem
      exact hk ⟨i, hi, heq⟩
    have hvalues : (sources.flatMap fun x => valuesAt k (samples x)) = [] := by
      rw [List.flatMap_eq_nil_iff]
      intro x hx
      have hnil := valuesAt_eq_nil (hnone (value x))
      exact List.perm_nil.mp (hnil ▸ valuesAt_perm _ (hsamples x hx))
    rw [hvalues]
    constructor
    · intro h
      cases h
    · intro hmem
      exact absurd (List.mem_map_of_mem hmem) (hnone total)

/-- Put a value into the list of its label. -/
def collect (d : Dict K (List V)) (p : K × V) : Dict K (List V) :=
  gatherStep (fun r v => r.getD [] ++ [v]) d p

theorem get?_foldl_collect (k : K) (l : List (K × V)) :
    (l.foldl collect (∅ : Dict K (List V))).get? k =
      if valuesAt k l = [] then none else some (valuesAt k l) := by
  have hsome : ∀ (vs ws : List V), ws.foldl (fun r v => some (r.getD [] ++ [v])) (some vs) =
      some (vs ++ ws) := by
    intro vs ws
    induction ws generalizing vs with
    | nil => simp
    | cons w ws ih => rw [List.foldl_cons, Option.getD_some, ih, List.append_assoc]; rfl
  unfold collect
  rw [get?_foldl_gatherStep]
  cases hvalues : valuesAt k l with
  | nil => rfl
  | cons v vs =>
    rw [if_neg (List.cons_ne_nil v vs)]
    exact hsome [v] vs

end Gather

end PyMotor
