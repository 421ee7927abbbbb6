import Mathlib.Data.List.Nodup
import Mathlib.Data.List.Perm.Basic

/-!
# Insertion-ordered dictionaries and sets

The maps and sets of the verified programs are finite and keyed by equality alone. Both are kept
here as lists: a `Dict` remembers its keys in the order of their first insertion (overwriting a key
keeps its place), an `OrdSet` its elements likewise. The absence of duplicates is a field of the
structure, so a dictionary with two values for one key cannot be built.

Where a program iterates a hash map, the order is unspecified. `HashOrder` is that order as a
parameter: it may permute every list it is handed, differently at every step of a loop.
-/

namespace PyMotor

variable {K V W : Type}

/-! ## Association lists -/

namespace AssocList

variable [DecidableEq K]

def get? (k : K) : List (K × V) → Option V
  | [] => none
  | (k', v) :: l => if k' = k then some v else get? k l

/-- Overwrite in place, or append. -/
def set (k : K) (v : V) : List (K × V) → List (K × V)
  | [] => [(k, v)]
  | (k', v') :: l => if k' = k then (k, v) :: l else (k', v') :: set k v l

theorem get?_set (k k' : K) (v : V) (l : List (K × V)) :
    get? k' (set k v l) = if k = k' then some v else get? k' l := by
  induction l with
  | nil => simp [set, get?]
  | cons p l ih =>
    obtain ⟨a, b⟩ := p
    by_cases hak : a = k
    · subst hak
      by_cases hkk : a = k' <;> simp [set, get?, hkk]
    · by_cases hak' : a = k'
      · subst hak'
        simp [set, get?, hak, Ne.symm hak]
      · simp [set, get?, hak, hak', ih]

theorem get?_eq_none {k : K} {l : List (K × V)} (h : k ∉ l.map Prod.fst) : get? k l = none := by
  induction l with
  | nil => rfl
  | cons p l ih =>
    obtain ⟨a, b⟩ := p
    simp only [List.map_cons, List.mem_cons, not_or] at h
    simp [get?, Ne.symm h.1, ih h.2]

theorem get?_filter (q : K → V → Bool) (k : K) {l : List (K × V)}
    (hnd : (l.map Prod.fst).Nodup) :
    get? k (l.filter (fun p => q p.1 p.2)) = (get? k l).filter (q k) := by
  induction l with
  | nil => rfl
  | cons p l ih =>
    obtain ⟨a, b⟩ := p
    simp only [List.map_cons, List.nodup_cons] at hnd
    by_cases hak : a = k
    · subst hak
      -- the key occurs once, so a dropped head entry leaves nothing behind
      have hmiss : get? a (l.filter (fun p => q p.1 p.2)) = none :=
        get?_eq_none fun h => hnd.1 ((List.filter_sublist.map Prod.fst).subset h)
      by_cases hq : q a b = true
      · simp [get?, hq, Option.filter]
      · simp [get?, hq, hmiss, Option.filter]
    · by_cases hq : q a b = true
      · simp [get?, hq, hak, ih hnd.2]
      · simp [get?, hq, hak, ih hnd.2]

theorem get?_filterMap (f : K → V → Option W) (k : K) {l : List (K × V)}
    (hnd : (l.map Prod.fst).Nodup) :
    get? k (l.filterMap (fun p => (f p.1 p.2).map (fun w => (p.1, w)))) =
      (get? k l).bind (f k) := by
  induction l with
  | nil => rfl
  | cons p l ih =>
    obtain ⟨a, b⟩ := p
    simp only [List.map_cons, List.nodup_cons] at hnd
    by_cases hak : a = k
    · subst hak
      cases hf : f a b with
      | some w => simp [get?, hf]
      | none =>
        have hmiss : get? a l = none := get?_eq_none hnd.1
        simp [get?, hf, ih hnd.2, hmiss]
    · cases hf : f a b with
      | some w => simp [get?, hf, hak, ih hnd.2]
      | none => simp [get?, hf, hak, ih hnd.2]

theorem mem_iff_get? {k : K} {v : V} :
    ∀ {l : List (K × V)}, (l.map Prod.fst).Nodup → ((k, v) ∈ l ↔ get? k l = some v) := by
  intro l
  induction l with
  | nil => intro _; simp [get?]
  | cons p l ih =>
    intro hnd
    obtain ⟨a, b⟩ := p
    simp only [List.map_cons, List.nodup_cons] at hnd
    by_cases hak : a = k
    · subst hak
      have hnot : (a, v) ∉ l := fun h => hnd.1 (List.mem_map.mpr ⟨(a, v), h, rfl⟩)
      simp [get?, hnot, eq_comm]
    · simp [get?, hak, Ne.symm hak, ih hnd.2]

theorem map_fst_set (k : K) (v : V) (l : List (K × V)) :
    (set k v l).map Prod.fst =
      if k ∈ l.map Prod.fst then l.map Prod.fst else l.map Prod.fst ++ [k] := by
  induction l with
  | nil => simp [set]
  | cons p l ih =>
    obtain ⟨a, b⟩ := p
    by_cases hak : a = k
    · subst hak; simp [set]
    · by_cases hmem : k ∈ l.map Prod.fst
      · simp only [set, hak, ↓reduceIte, List.map_cons, ih, hmem, List.mem_cons, Ne.symm hak,
          false_or]
      · simp only [set, hak, ↓reduceIte, List.map_cons, ih, hmem, List.mem_cons, Ne.symm hak,
          false_or, List.cons_append]

theorem map_set_of_eq {f : K × V → W} {k : K} {v v' : V} (hf : f (k, v') = f (k, v)) :
    ∀ {l : List (K × V)}, get? k l = some v → (set k v' l).map f = l.map f := by
  intro l
  induction l with
  | nil => intro h; cases h
  | cons p l ih =>
    obtain ⟨a, b⟩ := p
    intro h
    by_cases hak : a = k
    · subst hak
      simp only [get?, ↓reduceIte, Option.some.injEq] at h
      simp [set, h, hf]
    · simp only [get?, if_neg hak] at h
      simp [set, hak, ih h]

theorem set_eq_map (f : V → V) {k : K} {v : V} {l : List (K × V)} (hnd : (l.map Prod.fst).Nodup)
    (h : get? k l = some v) : set k (f v) l = l.map fun p => (p.1, if p.1 = k then f p.2 else p.2) := by
  induction l with
  | nil => cases h
  | cons p l ih =>
    obtain ⟨a, b⟩ := p
    rw [List.map_cons, List.nodup_cons] at hnd
    by_cases hak : a = k
    · subst hak
      simp only [get?, ↓reduceIte, Option.some.injEq] at h
      have hrest : l.map (fun p => (p.1, if p.1 = a then f p.2 else p.2)) = l := by
        refine (List.map_congr_left fun p hp => ?_).trans (List.map_id l)
        have hne : p.1 ≠ a := by
          rintro rfl
          exact hnd.1 (List.mem_map.mpr ⟨p, hp, rfl⟩)
        rw [if_neg hne]
        rfl
      simp [set, h, hrest]
    · simp only [get?, if_neg hak] at h
      simp [set, hak, ih hnd.2 h]

end AssocList

/-! ## Dictionaries -/

/-- A finite map, in the order its keys were first inserted. -/
structure Dict (K V : Type) where
  entries : List (K × V)
  nodup : (entries.map Prod.fst).Nodup

namespace Dict

instance [DecidableEq K] [DecidableEq V] : DecidableEq (Dict K V) := fun a b =>
  decidable_of_iff (a.entries = b.entries) (by cases a; cases b; simp)

def empty : Dict K V := ⟨[], by simp⟩

instance : EmptyCollection (Dict K V) := ⟨empty⟩

instance : Inhabited (Dict K V) := ⟨∅⟩

def keys (d : Dict K V) : List K := d.entries.map Prod.fst

def values (d : Dict K V) : List V := d.entries.map Prod.snd

def isEmpty (d : Dict K V) : Bool := d.entries.isEmpty

def size (d : Dict K V) : Nat := d.entries.length

/-- Keep the entries satisfying `q` (`HashMap::retain`). -/
def filter (d : Dict K V) (q : K → V → Bool) : Dict K V :=
  ⟨d.entries.filter (fun p => q p.1 p.2), (d.nodup.sublist (List.filter_sublist.map _))⟩

/-- Rewrite every value in place. -/
def mapVal (d : Dict K V) (f : K → V → W) : Dict K W :=
  ⟨d.entries.map (fun p => (p.1, f p.1 p.2)), by
    have h : (d.entries.map (fun p => (p.1, f p.1 p.2))).map Prod.fst = d.entries.map Prod.fst := by
      simp [Function.comp_def]
    rw [h]
    exact d.nodup⟩

/-- Rewrite the values that `f` accepts and drop the others. -/
def filterMap (d : Dict K V) (f : K → V → Option W) : Dict K W :=
  ⟨d.entries.filterMap (fun p => (f p.1 p.2).map (fun w => (p.1, w))), by
    refine d.nodup.sublist ?_
    induction d.entries with
    | nil => simp
    | cons p l ih =>
      cases hf : f p.1 p.2 with
      | none => simpa [hf] using ih.cons p.1
      | some w => simpa [hf] using ih.cons_cons p.1⟩

variable [DecidableEq K]

def get? (d : Dict K V) (k : K) : Option V := AssocList.get? k d.entries

def contains (d : Dict K V) (k : K) : Bool := (d.get? k).isSome

def insert (d : Dict K V) (k : K) (v : V) : Dict K V :=
  ⟨AssocList.set k v d.entries, by
    rw [AssocList.map_fst_set]
    split
    · exact d.nodup
    · next h =>
      refine List.nodup_append.mpr ⟨d.nodup, by simp, ?_⟩
      intro a ha b hb
      rw [List.mem_singleton.mp hb]
      rintro rfl
      exact h ha⟩

def erase (d : Dict K V) (k : K) : Dict K V := d.filter (fun k' _ => decide (k' ≠ k))

/-! ### Reading -/

@[simp] theorem get?_empty (k : K) : (∅ : Dict K V).get? k = none := rfl

omit [DecidableEq K] in
@[simp] theorem values_empty : (∅ : Dict K V).values = [] := rfl

theorem get?_insert (d : Dict K V) (k k' : K) (v : V) :
    (d.insert k v).get? k' = if k = k' then some v else d.get? k' :=
  AssocList.get?_set k k' v d.entries

@[simp] theorem get?_insert_self (d : Dict K V) (k : K) (v : V) :
    (d.insert k v).get? k = some v := by
  rw [get?_insert, if_pos rfl]

theorem get?_insert_ne (d : Dict K V) {k k' : K} (v : V) (h : k ≠ k') :
    (d.insert k v).get? k' = d.get? k' := by
  rw [get?_insert, if_neg h]

@[simp] theorem get?_filter (d : Dict K V) (q : K → V → Bool) (k : K) :
    (d.filter q).get? k = (d.get? k).filter (q k) :=
  AssocList.get?_filter q k d.nodup

@[simp] theorem get?_filterMap (d : Dict K V) (f : K → V → Option W) (k : K) :
    (d.filterMap f).get? k = (d.get? k).bind (f k) :=
  AssocList.get?_filterMap f k d.nodup

@[simp] theorem get?_mapVal (d : Dict K V) (f : K → V → W) (k : K) :
    (d.mapVal f).get? k = (d.get? k).map (f k) := by
  have h : (d.mapVal f).get? k = (d.filterMap (fun k v => some (f k v))).get? k := by
    simp only [get?, mapVal, filterMap, Option.map_some, List.filterMap_eq_map']
  rw [h, get?_filterMap]
  cases d.get? k <;> rfl

theorem get?_erase (d : Dict K V) (k k' : K) :
    (d.erase k).get? k' = if k = k' then none else d.get? k' := by
  rw [erase, get?_filter]
  by_cases h : k = k'
  · subst h
    cases d.get? k <;> simp
  · cases d.get? k' <;> simp [h, Ne.symm h]

@[simp] theorem get?_erase_self (d : Dict K V) (k : K) : (d.erase k).get? k = none := by
  rw [get?_erase, if_pos rfl]

theorem get?_erase_ne (d : Dict K V) {k k' : K} (h : k ≠ k') : (d.erase k).get? k' = d.get? k' := by
  rw [get?_erase, if_neg h]

theorem get?_of_erase {d : Dict K V} {k k' : K} {v : V} (h : (d.erase k).get? k' = some v) : d.get? k' = some v := by
  rw [get?_erase] at h
  split at h
  · cases h
  · exact h

theorem mapVal_eq_self {d : Dict K V} {f : K → V → V} (h : ∀ k v, d.get? k = some v → f k v = v) :
    d.mapVal f = d := by
  obtain ⟨l, hnd⟩ := d
  simp only [mapVal, mk.injEq]
  refine (List.map_congr_left fun p hp => ?_).trans (List.map_id l)
  rw [h p.1 p.2 ((AssocList.mem_iff_get? hnd).mp hp)]
  rfl

theorem insert_eq_mapVal {d : Dict K V} {k : K} {v : V} (f : V → V) (h : d.get? k = some v) :
    d.insert k (f v) = d.mapVal fun k' v' => if k' = k then f v' else v' := by
  simp only [mapVal, insert, mk.injEq]
  exact AssocList.set_eq_map f d.nodup h

theorem mapVal_insert_of_eq {d : Dict K V} {f : K → V → W} {k : K} {v v' : V} (h : d.get? k = some v)
    (hf : f k v' = f k v) : (d.insert k v').mapVal f = d.mapVal f := by
  simp only [mapVal, insert, mk.injEq]
  exact AssocList.map_set_of_eq (by rw [hf]) h

theorem mem_entries_iff {d : Dict K V} {k : K} {v : V} : (k, v) ∈ d.entries ↔ d.get? k = some v :=
  AssocList.mem_iff_get? d.nodup

theorem mem_keys_iff {d : Dict K V} {k : K} : k ∈ d.keys ↔ ∃ v, d.get? k = some v := by
  simp only [keys, List.mem_map, Prod.exists, exists_and_right, exists_eq_right, mem_entries_iff]

theorem mem_values_iff {d : Dict K V} {v : V} : v ∈ d.values ↔ ∃ k, d.get? k = some v := by
  simp only [values, List.mem_map, Prod.exists, exists_eq_right, mem_entries_iff]

theorem contains_iff {d : Dict K V} {k : K} : d.contains k = true ↔ ∃ v, d.get? k = some v := by
  simp only [contains, Option.isSome_iff_exists]

theorem contains_of_some {d : Dict K V} {k : K} {v : V} (h : d.get? k = some v) :
    d.contains k = true :=
  contains_iff.mpr ⟨v, h⟩

theorem not_contains_of_none {d : Dict K V} {k : K} (h : d.get? k = none) : ¬d.contains k = true := by
  rw [contains, h]
  exact Bool.false_ne_true

theorem contains_insert {d : Dict K V} {k k' : K} {v : V} :
    (d.insert k v).contains k' = true ↔ k' = k ∨ d.contains k' = true := by
  rw [contains, get?_insert]
  split
  · next h => simp [h]
  · next h => simp [contains, Ne.symm h]

omit [DecidableEq K] in
theorem eq_empty_of_isEmpty {d : Dict K V} (h : d.isEmpty = true) : d = ∅ := by
  cases d with
  | mk entries nodup =>
    obtain rfl : entries = [] := List.isEmpty_iff.mp h
    rfl

/-- After several insertions, a key whose insertions agree has the value they agree on. -/
theorem get?_foldl_insert {α : Type} {f : α → K} {g : α → V} {k : K} {v : V} (l : List α)
    (hall : ∀ a ∈ l, f a = k → g a = v) :
    ∀ d : Dict K V, (d.get? k = some v ∨ ∃ a ∈ l, f a = k) →
      (l.foldl (fun d a => d.insert (f a) (g a)) d).get? k = some v := by
  induction l with
  | nil =>
    intro d h
    rcases h with h | ⟨a, ha, -⟩
    · exact h
    · cases ha
  | cons a l ih =>
    intro d h
    refine ih (fun b hb => hall b (List.mem_cons_of_mem a hb)) _ ?_
    rw [get?_insert]
    split
    · next hk => exact Or.inl (by rw [hall a List.mem_cons_self hk])
    · next hk =>
      rcases h with h | ⟨b, hb, hbk⟩
      · exact Or.inl h
      · rcases List.mem_cons.mp hb with rfl | hb
        · exact absurd hbk hk
        · exact Or.inr ⟨b, hb, hbk⟩

/-- After several insertions, a value was there before or was inserted. -/
theorem of_get?_foldl_insert {α : Type} {f : α → K} {g : α → V} {k : K} {v : V} (l : List α) :
    ∀ d : Dict K V, (l.foldl (fun d a => d.insert (f a) (g a)) d).get? k = some v →
      d.get? k = some v ∨ ∃ a ∈ l, f a = k ∧ g a = v := by
  induction l with
  | nil => exact fun d h => Or.inl h
  | cons a l ih =>
    intro d h
    rcases ih _ h with h | ⟨b, hb, hbk⟩
    · rw [get?_insert] at h
      split at h
      · next hk => exact Or.inr ⟨a, List.mem_cons_self, hk, Option.some.inj h⟩
      · exact Or.inl h
    · exact Or.inr ⟨b, List.mem_cons_of_mem a hb, hbk⟩

/-- Each entry of a map updates what another map has at its key. -/
theorem get?_foldl_update (e : Dict K V) (f : V → Option W → W) (d : Dict K W) (k : K) :
    (e.entries.foldl (fun d p => d.insert p.1 (f p.2 (d.get? p.1))) d).get? k =
      (e.get? k).elim (d.get? k) fun v => some (f v (d.get? k)) := by
  have hnd := e.nodup
  unfold get? at *
  generalize e.entries = l at hnd
  induction l generalizing d with
  | nil => rfl
  | cons p l ih =>
    rw [List.map_cons, List.nodup_cons] at hnd
    have ih := ih (d.insert p.1 (f p.2 (d.get? p.1))) hnd.2
    have hinsert := get?_insert d p.1 k (f p.2 (d.get? p.1))
    unfold get? at ih hinsert
    rw [List.foldl_cons, ih, hinsert]
    by_cases hk : p.1 = k
    · -- no later entry has the key
      subst hk
      rw [AssocList.get?_eq_none hnd.1]
      simp [AssocList.get?]
    · simp [AssocList.get?, hk]

theorem contains_foldl_insert {α : Type} {f : α → K} {g : α → V} {k : K} (l : List α) :
    ∀ d : Dict K V, (l.foldl (fun d a => d.insert (f a) (g a)) d).contains k = true ↔
      d.contains k = true ∨ k ∈ l.map f := by
  induction l with
  | nil => simp
  | cons a l ih =>
    intro d
    rw [List.foldl_cons, ih, contains_insert, List.map_cons, List.mem_cons]
    grind

/-- Several insertions are one look-up in what they insert, and else in what was there. -/
theorem get?_foldl_insert_or {α : Type} (f : α → K) (g : α → V) (k : K) (l : List α) (d : Dict K V) :
    (l.foldl (fun d a => d.insert (f a) (g a)) d).get? k =
      ((l.foldl (fun d a => d.insert (f a) (g a)) (∅ : Dict K V)).get? k).or (d.get? k) := by
  induction l generalizing d with
  | nil => simp
  | cons a l ih =>
    rw [List.foldl_cons, List.foldl_cons, ih (d.insert _ _), ih ((∅ : Dict K V).insert _ _),
      Option.or_assoc, get?_insert, get?_insert]
    split
    · rfl
    · simp

theorem entries_insert_of_notMem {d : Dict K V} {k : K} {v : V} (h : k ∉ d.keys) :
    (d.insert k v).entries = d.entries ++ [(k, v)] := by
  have aux : ∀ l : List (K × V), k ∉ l.map Prod.fst → AssocList.set k v l = l ++ [(k, v)] := by
    intro l
    induction l with
    | nil => exact fun _ => rfl
    | cons p l ih =>
      intro hk
      rw [List.map_cons, List.mem_cons, not_or] at hk
      rw [AssocList.set, if_neg (Ne.symm hk.1), ih hk.2, List.cons_append]
  exact aux d.entries h

theorem entries_foldl_insert {α : Type} (f : α → K) (g : α → V) (l : List α) :
    ∀ d : Dict K V, (d.keys ++ l.map f).Nodup →
      (l.foldl (fun d a => d.insert (f a) (g a)) d).entries =
        d.entries ++ l.map fun a => (f a, g a) := by
  induction l with
  | nil => simp
  | cons a l ih =>
    intro d hnd
    have hnotMem : f a ∉ d.keys := fun hmem =>
      (List.nodup_append.mp hnd).2.2 (f a) hmem (f a) (by simp) rfl
    have hentries := entries_insert_of_notMem (v := g a) hnotMem
    have hkeys : (d.insert (f a) (g a)).keys = d.keys ++ [f a] := by
      rw [keys, hentries, List.map_append]
      rfl
    rw [List.foldl_cons, ih, hentries, List.append_assoc]
    · rfl
    · rw [hkeys, List.append_assoc]
      exact hnd

theorem entries_perm_iff {d : Dict K V} {l : List (K × V)} :
    d.entries.Perm l ↔ (l.map Prod.fst).Nodup ∧ ∀ k v, d.get? k = some v ↔ (k, v) ∈ l := by
  constructor
  · intro h
    refine ⟨(h.map Prod.fst).nodup_iff.mp d.nodup, fun k v => ?_⟩
    rw [← mem_entries_iff, h.mem_iff]
  · rintro ⟨hnd, h⟩
    rw [List.perm_ext_iff_of_nodup d.nodup.of_map hnd.of_map]
    rintro ⟨k, v⟩
    rw [mem_entries_iff, h]

theorem isEmpty_iff {d : Dict K V} : d.isEmpty = true ↔ ∀ k, d.get? k = none := by
  constructor
  · intro h k
    have he : d.entries = [] := List.isEmpty_iff.mp h
    simp [get?, he, AssocList.get?]
  · intro h
    rw [isEmpty, List.isEmpty_iff, List.eq_nil_iff_forall_not_mem]
    rintro ⟨k, v⟩ hmem
    rw [mem_entries_iff, h k] at hmem
    cases hmem

/-! ### Views

Several dictionaries often hold parts of one table. `Views d w f` says that `d` holds what `f` selects
from the table `w`, so that a change of the table tells what to change in each of them. -/

section Views

variable {T : Type} {w : K → Option T} {f : T → Option V} {d : Dict K V} {k : K}

def Views (d : Dict K V) (w : K → Option T) (f : T → Option V) : Prop :=
  ∀ k, d.get? k = (w k).bind f

theorem views_empty (f : T → Option V) : Views (∅ : Dict K V) (fun _ => none) f := fun _ => rfl

theorem Views.erase (h : d.Views w f) (k : K) : (d.erase k).Views (Function.update w k none) f := by
  intro k'
  by_cases hk : k = k'
  · subst hk
    simp
  · rw [get?_erase_ne _ hk, Function.update_of_ne (Ne.symm hk), h k']

theorem Views.insert {t : T} {v : V} (h : d.Views w f) (k : K) (hf : f t = some v) :
    (d.insert k v).Views (Function.update w k (some t)) f := by
  intro k'
  by_cases hk : k = k'
  · subst hk
    simp [hf]
  · rw [get?_insert_ne _ _ hk, Function.update_of_ne (Ne.symm hk), h k']

/-- A change that the view does not select, before or after. -/
theorem Views.keep {x : Option T} (h : d.Views w f) (hold : (w k).bind f = none)
    (hnew : x.bind f = none) : d.Views (Function.update w k x) f := by
  intro k'
  by_cases hk : k = k'
  · subst hk
    rw [Function.update_self, hnew, h, hold]
  · rw [Function.update_of_ne (Ne.symm hk), h k']

theorem Views.contains_iff (h : d.Views w f) : d.contains k = true ↔ ∃ v, (w k).bind f = some v := by
  rw [Dict.contains_iff, h k]

end Views

end Dict

/-! ## Sets -/

/-- A finite set, in the order its elements were inserted. -/
structure OrdSet (K : Type) where
  elems : List K
  nodup : elems.Nodup

namespace OrdSet

instance [DecidableEq K] : DecidableEq (OrdSet K) := fun a b =>
  decidable_of_iff (a.elems = b.elems) (by cases a; cases b; simp)

def empty : OrdSet K := ⟨[], by simp⟩

instance : EmptyCollection (OrdSet K) := ⟨empty⟩

instance : Inhabited (OrdSet K) := ⟨∅⟩

instance : Membership K (OrdSet K) := ⟨fun s a => a ∈ s.elems⟩

instance [DecidableEq K] (a : K) (s : OrdSet K) : Decidable (a ∈ s) :=
  inferInstanceAs (Decidable (a ∈ s.elems))

def isEmpty (s : OrdSet K) : Bool := s.elems.isEmpty

def size (s : OrdSet K) : Nat := s.elems.length

def filter (s : OrdSet K) (q : K → Bool) : OrdSet K :=
  ⟨s.elems.filter q, s.nodup.filter q⟩

theorem mem_def {s : OrdSet K} {a : K} : a ∈ s ↔ a ∈ s.elems := Iff.rfl

@[simp] theorem not_mem_empty (a : K) : a ∉ (∅ : OrdSet K) := List.not_mem_nil

@[simp] theorem mem_filter {s : OrdSet K} {q : K → Bool} {a : K} :
    a ∈ s.filter q ↔ a ∈ s ∧ q a = true := List.mem_filter

theorem isEmpty_iff {s : OrdSet K} : s.isEmpty = true ↔ ∀ a, a ∉ s := by
  rw [isEmpty, List.isEmpty_iff, List.eq_nil_iff_forall_not_mem]
  exact Iff.rfl

variable [DecidableEq K]

def insert (s : OrdSet K) (a : K) : OrdSet K :=
  if h : a ∈ s.elems then s
  else ⟨s.elems ++ [a], List.nodup_append.mpr ⟨s.nodup, by simp, by
    intro b hb c hc
    rw [List.mem_singleton.mp hc]
    rintro rfl
    exact h hb⟩⟩

def erase (s : OrdSet K) (a : K) : OrdSet K := s.filter (fun b => decide (b ≠ a))

@[simp] theorem mem_insert {s : OrdSet K} {a b : K} : b ∈ s.insert a ↔ b = a ∨ b ∈ s := by
  unfold insert
  split
  · next h =>
    constructor
    · exact Or.inr
    · rintro (rfl | hb)
      · exact h
      · exact hb
  · simp only [mem_def, List.mem_append, List.mem_singleton]
    exact Or.comm

@[simp] theorem mem_erase {s : OrdSet K} {a b : K} : b ∈ s.erase a ↔ b ∈ s ∧ b ≠ a := by
  simp [erase]

end OrdSet

/-- Give every element of a set the value `m`. -/
def Dict.insertAll [DecidableEq K] (d : Dict K V) (s : OrdSet K) (m : V) : Dict K V :=
  s.elems.foldl (fun d a => d.insert a m) d

theorem Dict.get?_insertAll [DecidableEq K] (d : Dict K V) (s : OrdSet K) (m : V) (k : K) :
    (d.insertAll s m).get? k = if k ∈ s then some m else d.get? k := by
  have aux : ∀ (l : List K) (d : Dict K V),
      (l.foldl (fun d a => d.insert a m) d).get? k = if k ∈ l then some m else d.get? k := by
    intro l
    induction l with
    | nil => intro d; simp
    | cons a l ih =>
      intro d
      rw [List.foldl_cons, ih, Dict.get?_insert]
      by_cases hkl : k ∈ l
      · simp [hkl]
      · by_cases hak : a = k
        · simp [hak]
        · simp [hkl, hak, Ne.symm hak]
  exact aux s.elems d

/-! ## The iteration order of a hash map -/

/-- An iteration order: what the `n`-th loop over a hash map makes of its entries. -/
structure HashOrder (α : Type) where
  iter : Nat → List α → List α
  perm : ∀ n l, (iter n l).Perm l

namespace HashOrder

variable {α : Type}

/-- The order of insertion, at every step. -/
def insertion : HashOrder α where
  iter _ l := l
  perm _ l := List.Perm.refl l

@[simp] theorem mem_iter (σ : HashOrder α) {n : Nat} {l : List α} {a : α} :
    a ∈ σ.iter n l ↔ a ∈ l :=
  (σ.perm n l).mem_iff

variable [DecidableEq α]

/-- The order that meets the elements of `s` last. -/
def endingWith (s : List α) : HashOrder α where
  iter _ l := if l.Nodup ∧ s.Nodup ∧ s ⊆ l then l.filter (· ∉ s) ++ s else l
  perm _ l := by
    split
    · next h =>
      obtain ⟨hl, hs, hsub⟩ := h
      have hmem : (l.filter (· ∈ s)).Perm s := by
        refine (List.perm_ext_iff_of_nodup (hl.filter _) hs).mpr (fun a => ?_)
        simp only [List.mem_filter, decide_eq_true_eq, and_iff_right_iff_imp]
        exact fun ha => hsub ha
      refine (hmem.symm.append_left _).trans (List.perm_append_comm.trans ?_)
      simpa using List.filter_append_perm (· ∈ s) l
    · exact List.Perm.refl l

theorem endingWith_iter {s l : List α} {n : Nat} (hl : l.Nodup) (hs : s.Nodup) (hsub : s ⊆ l) :
    ∃ init, (endingWith s).iter n l = init ++ s :=
  ⟨_, if_pos ⟨hl, hs, hsub⟩⟩

end HashOrder

end PyMotor
