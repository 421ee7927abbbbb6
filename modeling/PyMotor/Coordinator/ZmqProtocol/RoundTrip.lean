import Mathlib.Data.List.Basic
import Mathlib.Order.MinMax
import PyMotor.Coordinator.ZmqProtocol

/-!
# What arrives is what was sent

The receiver takes every dictionary for a reference whose only key is `__ref__` and whose value is the index of
a frame. The sender leaves such a dictionary as it is when it is part of the data.

So a message arrives as it was sent exactly if nothing in its data looks like a reference to one of its frames
(`message_arrives_iff`). A message without frames of their own always does.
-/

namespace PyMotor.Coordinator

namespace Zmq

/-! ## What looks like a reference -/

def looksLikeRef (n : ℕ) (entries : Entries) : Bool :=
  (refIndex entries).any fun i => 0 ≤ i && decide (i < (n : ℤ))

mutual

/-- Somewhere in the value there is what looks like a reference to one of `n` frames. -/
def hasRef (n : ℕ) : Value → Bool
  | .dict entries => looksLikeRef n entries || hasRefEntries n entries
  | .list elems => hasRefElems n elems
  | _ => false

def hasRefEntries (n : ℕ) : Entries → Bool
  | [] => false
  | (_, v) :: entries => hasRef n v || hasRefEntries n entries

def hasRefElems (n : ℕ) : List Value → Bool
  | [] => false
  | v :: elems => hasRef n v || hasRefElems n elems

end

mutual

/-- How deep the value is nested. -/
def depth : Value → ℕ
  | .dict entries => depthEntries entries + 1
  | .list elems => depthElems elems + 1
  | _ => 1

def depthEntries : Entries → ℕ
  | [] => 0
  | (_, v) :: entries => max (depth v) (depthEntries entries)

def depthElems : List Value → ℕ
  | [] => 0
  | v :: elems => max (depth v) (depthElems elems)

end

theorem mapM_eq_some_iff {α β : Type} {f : α → Option β} {xs : List α} {ys : List β} :
    xs.mapM f = some ys ↔ List.Forall₂ (fun x y => f x = some y) xs ys := by
  induction xs generalizing ys with
  | nil =>
    constructor
    · intro h
      cases h
      exact .nil
    · intro h
      cases h
      rfl
  | cons x xs ih =>
    rw [List.mapM_cons]
    constructor
    · intro h
      obtain ⟨y, hy, h⟩ := Option.bind_eq_some_iff.mp h
      obtain ⟨ys', hys, h⟩ := Option.bind_eq_some_iff.mp h
      cases h
      exact .cons hy (ih.mp hys)
    · intro h
      cases h with
      | cons hy hys =>
        rw [hy, ih.mpr hys]
        rfl

/-- The codec gives back what it was given. -/
structure RoundTrips {Blob : Type} (c : Msgspec Blob) : Prop where
  value : ∀ v blob, c.encode v = some blob → c.decode blob = some v
  request : ∀ r blob, r.data.isDict = true → c.encodeRequest r = some blob → c.decodeRequest blob = some r
  response : ∀ r blob, (∀ data ∈ r.data, data.isDict = true) → c.encodeResponse r = some blob →
    c.decodeResponse blob = some r

/-- A reference is not large. -/
def RefsAreSmall {Blob : Type} (c : Msgspec Blob) (threshold : ℕ) : Prop :=
  ∀ v blob, v.asInt.isSome = true → c.encode (.dict [(zeroCopyRefKey, v)]) = some blob →
    c.size blob ≤ threshold

section

variable {Blob : Type} {c : Msgspec Blob} {threshold : ℕ}

theorem largeBlob_eq_some {v : Value} {blob : Blob} :
    largeBlob c threshold v = some blob ↔ c.encode v = some blob ∧ threshold < c.size blob := by
  simp [largeBlob, Option.filter_eq_some_iff]

/-- The frames of a message are encodings of what is large. -/
def AreLarge (c : Msgspec Blob) (threshold : ℕ) (aux : List Blob) : Prop :=
  ∀ blob ∈ aux, ∃ v : Value, v.isContainer = true ∧ largeBlob c threshold v = some blob

theorem refFrame_eq_none {aux : List Blob} {entries : Entries} :
    refFrame aux entries = none ↔ looksLikeRef aux.length entries = false := by
  unfold refFrame looksLikeRef
  cases refIndex entries with
  | none => simp
  | some i =>
    by_cases hi : 0 ≤ i
    · simp only [Option.bind_some, if_pos hi, Option.any_some, List.getElem?_eq_none_iff,
        decide_eq_true hi, Bool.true_and, decide_eq_false_iff_not]
      omega
    · simp [hi]

/-! ## What a frame is decoded to -/

variable {aux : List Blob}

theorem not_isContainer_of_asInt {v : Value} (h : v.asInt.isSome = true) : v.isContainer = false := by
  cases v <;> first | rfl | cases h

theorem resolveRefs_atom {v : Value} (h : v.isContainer = false) (n : ℕ) :
    resolveRefs c aux (n + 1) v = some v := by
  cases v <;> first | rfl | cases h

theorem isContainer_of_resolveRefs (hc : RoundTrips c) (hlarge : AreLarge c threshold aux) :
    ∀ (n : ℕ) {u v : Value}, u.isContainer = true → resolveRefs c aux n u = some v →
      v.isContainer = true := by
  intro n
  induction n with
  | zero =>
    intro u v _ h
    cases h
  | succ n ih =>
    intro u v hu h
    cases u with
    | dict entries =>
      simp only [resolveRefs] at h
      split at h
      · next blob hframe =>
        obtain ⟨i, -, hframe⟩ := Option.bind_eq_some_iff.mp hframe
        split at hframe
        · obtain ⟨w, hw, hblob⟩ := hlarge blob (List.mem_of_getElem? hframe)
          rw [hc.value w blob (largeBlob_eq_some.mp hblob).1] at h
          exact ih hw h
        · cases hframe
      · obtain ⟨entries', -, rfl⟩ := Option.map_eq_some_iff.mp h
        rfl
    | list elems =>
      obtain ⟨elems', -, rfl⟩ := Option.map_eq_some_iff.mp h
      rfl
    | none => cases hu
    | bool b => cases hu
    | int i => cases hu
    | float bits => cases hu
    | str s => cases hu
    | bytes b => cases hu

/-- What looks like a reference is not the meaning of a frame. -/
theorem resolveRefs_ne_ref (hc : RoundTrips c) (hlarge : AreLarge c threshold aux)
    (hsmall : RefsAreSmall c threshold) {w x : Value} {blob : Blob} (hw : w.isContainer = true)
    (hblob : largeBlob c threshold w = some blob) (hx : x.asInt.isSome = true) (n : ℕ) :
    resolveRefs c aux n w ≠ some (.dict [(zeroCopyRefKey, x)]) := by
  intro h
  obtain ⟨hencode, hsize⟩ := largeBlob_eq_some.mp hblob
  cases n with
  | zero => cases h
  | succ n =>
    cases w with
    | dict entries =>
      simp only [resolveRefs] at h
      split at h
      · next blob' hframe =>
        -- a reference in the place of a frame would be large
        obtain ⟨i, hi, -⟩ := Option.bind_eq_some_iff.mp hframe
        unfold refIndex at hi
        split at hi
        · next k v =>
          split at hi
          · next hk =>
            subst hk
            have := hsmall v blob (by rw [hi]; rfl) hencode
            omega
          · cases hi
        · cases hi
      · obtain ⟨entries', hentries, hdict⟩ := Option.map_eq_some_iff.mp h
        cases hdict
        obtain ⟨⟨k, y⟩, hentry, rfl⟩ : ∃ e, (resolveRefs c aux n e.2).map (e.1, ·) =
            some (zeroCopyRefKey, x) ∧ entries = [e] := by
          cases mapM_eq_some_iff.mp hentries with
          | cons hentry hrest =>
            cases hrest
            exact ⟨_, hentry, rfl⟩
        obtain ⟨x', hx', hkey⟩ := Option.map_eq_some_iff.mp hentry
        cases hkey
        -- an integer is resolved from itself only
        have hy : y.isContainer = false := by
          by_contra hy
          have hcontainer := isContainer_of_resolveRefs hc hlarge n (Bool.of_not_eq_false hy) hx'
          rw [not_isContainer_of_asInt hx] at hcontainer
          cases hcontainer
        have hsame : y = x := by
          cases n with
          | zero => cases hx'
          | succ n => exact Option.some.inj ((resolveRefs_atom hy n).symm.trans hx')
        have := hsmall x blob hx (hsame ▸ hencode)
        omega
    | list elems =>
      obtain ⟨elems', -, hlist⟩ := Option.map_eq_some_iff.mp h
      cases hlist
    | none => cases hw
    | bool b => cases hw
    | int i => cases hw
    | float bits => cases hw
    | str s => cases hw
    | bytes b => cases hw

/-- What the entries are resolved to. -/
def EntriesResolve (c : Msgspec Blob) (aux : List Blob) (n : ℕ) : Entries → Entries → Prop :=
  List.Forall₂ fun e e' => (resolveRefs c aux n e.2).map (e.1, ·) = some e'

def ElemsResolve (c : Msgspec Blob) (aux : List Blob) (n : ℕ) : List Value → List Value → Prop :=
  List.Forall₂ fun v v' => resolveRefs c aux n v = some v'

theorem resolveRefs_dict_iff {n : ℕ} {entries entries' : Entries}
    (hframe : looksLikeRef aux.length entries = false) :
    resolveRefs c aux (n + 1) (.dict entries) = some (.dict entries') ↔
      EntriesResolve c aux n entries entries' := by
  simp only [resolveRefs, refFrame_eq_none.mpr hframe, Option.map_eq_some_iff, Value.dict.injEq,
    exists_eq_right]
  exact mapM_eq_some_iff

theorem resolveRefs_list_iff {n : ℕ} {elems elems' : List Value} :
    resolveRefs c aux (n + 1) (.list elems) = some (.list elems') ↔
      ElemsResolve c aux n elems elems' := by
  simp only [resolveRefs, Option.map_eq_some_iff, Value.list.injEq, exists_eq_right]
  exact mapM_eq_some_iff

theorem entriesResolve_cons_iff {n : ℕ} {k : Key} {v v' : Value} {entries entries' : Entries} :
    EntriesResolve c aux n ((k, v) :: entries) ((k, v') :: entries') ↔
      resolveRefs c aux n v = some v' ∧ EntriesResolve c aux n entries entries' := by
  rw [EntriesResolve, List.forall₂_cons]
  simp

theorem elemsResolve_cons_iff {n : ℕ} {v v' : Value} {elems elems' : List Value} :
    ElemsResolve c aux n (v :: elems) (v' :: elems') ↔
      resolveRefs c aux n v = some v' ∧ ElemsResolve c aux n elems elems' :=
  List.forall₂_cons

/-- What looks like a reference does not stay. -/
theorem resolveRefs_ref_ne (hc : RoundTrips c) (hlarge : AreLarge c threshold aux)
    (hsmall : RefsAreSmall c threshold) {entries : Entries}
    (hlooks : looksLikeRef aux.length entries = true) (n : ℕ) :
    resolveRefs c aux n (.dict entries) ≠ some (.dict entries) := by
  intro h
  cases n with
  | zero => cases h
  | succ n =>
    cases hframe : refFrame aux entries with
    | none =>
      rw [refFrame_eq_none.mp hframe] at hlooks
      cases hlooks
    | some blob =>
      simp only [resolveRefs, hframe] at h
      obtain ⟨i, hi, hblob⟩ := Option.bind_eq_some_iff.mp hframe
      split at hblob
      · obtain ⟨w, hw, hlargeBlob⟩ := hlarge blob (List.mem_of_getElem? hblob)
        rw [hc.value w blob (largeBlob_eq_some.mp hlargeBlob).1] at h
        unfold refIndex at hi
        split at hi
        · next k x =>
          split at hi
          · next hk =>
            subst hk
            exact resolveRefs_ne_ref hc hlarge hsmall hw hlargeBlob (by rw [hi]; rfl) n h
          · cases hi
        · cases hi
      · cases hblob

/-! ## What is sent as it is -/

theorem resolveRefs_atom_iff {v : Value} (hatom : v.isContainer = false) {n : ℕ} (hn : 0 < n) :
    resolveRefs c aux n v = some v ↔ hasRef aux.length v = false := by
  obtain ⟨n, rfl⟩ := Nat.exists_eq_succ_of_ne_zero (Nat.ne_of_gt hn)
  refine iff_of_true (resolveRefs_atom hatom n) ?_
  cases v <;> first | rfl | cases hatom

section

set_option linter.unusedSectionVars false

variable (hc : RoundTrips c) (hlarge : AreLarge c threshold aux) (hsmall : RefsAreSmall c threshold)

include hc hlarge hsmall

mutual

theorem resolveRefs_self_iff : ∀ (v : Value) (n : ℕ), depth v ≤ n →
    (resolveRefs c aux n v = some v ↔ hasRef aux.length v = false)
  | .dict entries, n, hn => by
      obtain ⟨n, rfl⟩ : ∃ m, n = m + 1 := ⟨n - 1, by rw [depth] at hn; omega⟩
      have hentries := entriesResolve_self_iff entries n (by rw [depth] at hn; omega)
      rw [hasRef]
      cases hlooks : looksLikeRef aux.length entries with
      | true =>
        rw [Bool.true_or]
        exact iff_of_false (resolveRefs_ref_ne hc hlarge hsmall hlooks _) fun h => nomatch h
      | false =>
        rw [Bool.false_or, resolveRefs_dict_iff hlooks]
        exact hentries
  | .list elems, n, hn => by
      obtain ⟨n, rfl⟩ : ∃ m, n = m + 1 := ⟨n - 1, by rw [depth] at hn; omega⟩
      rw [hasRef, resolveRefs_list_iff]
      exact elemsResolve_self_iff elems n (by rw [depth] at hn; omega)
  | .none, _, hn => resolveRefs_atom_iff rfl hn
  | .bool _, _, hn => resolveRefs_atom_iff rfl hn
  | .int _, _, hn => resolveRefs_atom_iff rfl hn
  | .float _, _, hn => resolveRefs_atom_iff rfl hn
  | .str _, _, hn => resolveRefs_atom_iff rfl hn
  | .bytes _, _, hn => resolveRefs_atom_iff rfl hn

theorem entriesResolve_self_iff : ∀ (entries : Entries) (n : ℕ), depthEntries entries ≤ n →
    (EntriesResolve c aux n entries entries ↔ hasRefEntries aux.length entries = false)
  | [], _, _ => iff_of_true .nil rfl
  | (k, v) :: entries, n, hn => by
      rw [depthEntries] at hn
      have hv := resolveRefs_self_iff v n (le_of_max_le_left hn)
      have hentries := entriesResolve_self_iff entries n (le_of_max_le_right hn)
      rw [entriesResolve_cons_iff, hv, hentries, hasRefEntries, Bool.or_eq_false_iff]

theorem elemsResolve_self_iff : ∀ (elems : List Value) (n : ℕ), depthElems elems ≤ n →
    (ElemsResolve c aux n elems elems ↔ hasRefElems aux.length elems = false)
  | [], _, _ => iff_of_true .nil rfl
  | v :: elems, n, hn => by
      rw [depthElems] at hn
      have hv := resolveRefs_self_iff v n (le_of_max_le_left hn)
      have helems := elemsResolve_self_iff elems n (le_of_max_le_right hn)
      rw [elemsResolve_cons_iff, hv, helems, hasRefElems, Bool.or_eq_false_iff]

end

end

/-! ## What is sent with references -/

/-- The frames that a value needs come after those that are there. -/
def Extends (c : Msgspec Blob) (threshold : ℕ) (aux aux' : List Blob) : Prop :=
  ∃ more, aux' = aux ++ more ∧ AreLarge c threshold more

theorem Extends.refl (aux : List Blob) : Extends c threshold aux aux :=
  ⟨[], (List.append_nil aux).symm, fun _ h => nomatch h⟩

theorem Extends.trans {aux aux' aux'' : List Blob} (h : Extends c threshold aux aux')
    (h' : Extends c threshold aux' aux'') : Extends c threshold aux aux'' := by
  obtain ⟨more, rfl, hmore⟩ := h
  obtain ⟨more', rfl, hmore'⟩ := h'
  refine ⟨more ++ more', List.append_assoc _ _ _, fun blob hblob => ?_⟩
  rcases List.mem_append.mp hblob with hblob | hblob
  · exact hmore blob hblob
  · exact hmore' blob hblob

theorem Extends.one {v : Value} {blob : Blob} (hv : v.isContainer = true)
    (hblob : largeBlob c threshold v = some blob) (aux : List Blob) :
    Extends c threshold aux (aux ++ [blob]) := by
  refine ⟨[blob], rfl, fun blob' hblob' => ?_⟩
  rw [List.mem_singleton.mp hblob']
  exact ⟨v, hv, hblob⟩

/-- The value of a key, with its frames. -/
def replaceValue (c : Msgspec Blob) (threshold : ℕ) (v : Value) (aux : List Blob) : Value × List Blob :=
  match if v.isContainer then largeBlob c threshold v else none with
  | some blob => (ref aux.length, aux ++ [blob])
  | none => replaceLargeWithRefs c threshold v aux

theorem replaceEntries_cons (k : Key) (v : Value) (entries : Entries) (aux : List Blob) :
    replaceEntries c threshold ((k, v) :: entries) aux =
      ((k, (replaceValue c threshold v aux).1) ::
          (replaceEntries c threshold entries (replaceValue c threshold v aux).2).1,
        (replaceEntries c threshold entries (replaceValue c threshold v aux).2).2) := by
  rw [replaceEntries]
  rfl

theorem replaceElems_cons (v : Value) (elems : List Value) (aux : List Blob) :
    replaceElems c threshold (v :: elems) aux =
      ((replaceLargeWithRefs c threshold v aux).1 ::
          (replaceElems c threshold elems (replaceLargeWithRefs c threshold v aux).2).1,
        (replaceElems c threshold elems (replaceLargeWithRefs c threshold v aux).2).2) := by
  rw [replaceElems]

section Replacing

variable (c threshold)

/-- What a value is replaced by: what its entries or elements are, or a reference. -/
theorem replaceLarge_dict (entries : Entries) (aux : List Blob) :
    replaceLargeWithRefs c threshold (.dict entries) aux = (.dict entries, aux) ∧
        holdsRef entries = true ∨
      replaceLargeWithRefs c threshold (.dict entries) aux =
          (.dict (replaceEntries c threshold entries aux).1, (replaceEntries c threshold entries aux).2) ∧
        holdsRef entries = false := by
  rw [replaceLargeWithRefs]
  cases hholds : holdsRef entries with
  | true => exact Or.inl ⟨rfl, rfl⟩
  | false => exact Or.inr ⟨rfl, rfl⟩

theorem replaceLarge_list (elems : List Value) (aux : List Blob) :
    (∃ blob, largeBlob c threshold (.list elems) = some blob ∧
        replaceLargeWithRefs c threshold (.list elems) aux = (ref aux.length, aux ++ [blob])) ∨
      replaceLargeWithRefs c threshold (.list elems) aux =
        (.list (replaceElems c threshold elems aux).1, (replaceElems c threshold elems aux).2) := by
  rw [replaceLargeWithRefs]
  cases hblob : largeBlob c threshold (.list elems) with
  | some blob => exact Or.inl ⟨blob, rfl, rfl⟩
  | none => exact Or.inr rfl

end Replacing

theorem extends_replaceValue {v : Value} {aux : List Blob}
    (h : Extends c threshold aux (replaceLargeWithRefs c threshold v aux).2) :
    Extends c threshold aux (replaceValue c threshold v aux).2 := by
  unfold replaceValue
  split
  · next blob hblob =>
    split at hblob
    · next hv => exact Extends.one hv hblob aux
    · cases hblob
  · exact h

section Extending

variable (c threshold)

mutual

theorem extends_replaceLarge : ∀ (v : Value) (aux : List Blob),
    Extends c threshold aux (replaceLargeWithRefs c threshold v aux).2
  | .dict entries, aux => by
      rcases replaceLarge_dict c threshold entries aux with ⟨heq, -⟩ | ⟨heq, -⟩
      · rw [heq]
        exact .refl aux
      · rw [heq]
        exact extends_replaceEntries entries aux
  | .list elems, aux => by
      rcases replaceLarge_list c threshold elems aux with ⟨blob, hblob, heq⟩ | heq
      · rw [heq]
        exact Extends.one rfl hblob aux
      · rw [heq]
        exact extends_replaceElems elems aux
  | .none, aux => .refl aux
  | .bool _, aux => .refl aux
  | .int _, aux => .refl aux
  | .float _, aux => .refl aux
  | .str _, aux => .refl aux
  | .bytes _, aux => .refl aux

theorem extends_replaceEntries : ∀ (entries : Entries) (aux : List Blob),
    Extends c threshold aux (replaceEntries c threshold entries aux).2
  | [], aux => .refl aux
  | (k, v) :: entries, aux => by
      rw [replaceEntries_cons]
      exact (extends_replaceValue (extends_replaceLarge v aux)).trans (extends_replaceEntries entries _)

theorem extends_replaceElems : ∀ (elems : List Value) (aux : List Blob),
    Extends c threshold aux (replaceElems c threshold elems aux).2
  | [], aux => .refl aux
  | v :: elems, aux => by
      rw [replaceElems_cons]
      exact (extends_replaceLarge v aux).trans (extends_replaceElems elems _)

end

end Extending

theorem Extends.isPrefix {pre aux' : List Blob} (h : Extends c threshold pre aux') : pre <+: aux' := by
  obtain ⟨more, rfl, -⟩ := h
  exact List.prefix_append pre more

/-- What is left of a dictionary does not look like a reference, when the dictionary did not. -/
theorem looksLikeRef_replaceEntries (c : Msgspec Blob) (threshold : ℕ) {entries : Entries} (hholds : holdsRef entries = false) (n : ℕ)
    (pre : List Blob) : looksLikeRef n (replaceEntries c threshold entries pre).1 = false ∧
      looksLikeRef n entries = false := by
  match entries with
  | [] => exact ⟨rfl, rfl⟩
  | [(k, v)] =>
    by_cases hk : k = zeroCopyRefKey
    · -- only `None` may stand there
      subst hk
      have hnone : v = .none := by cases v <;> first | rfl | cases hholds
      subst hnone
      exact ⟨rfl, rfl⟩
    · rw [replaceEntries_cons]
      simp [replaceEntries, looksLikeRef, refIndex, hk]
  | (k, v) :: (k', v') :: entries =>
    rw [replaceEntries_cons, replaceEntries_cons]
    exact ⟨rfl, rfl⟩

theorem resolveRefs_ref (hc : RoundTrips c) {v : Value} {blob : Blob} {pre : List Blob}
    (hblob : largeBlob c threshold v = some blob) (hpre : pre ++ [blob] <+: aux) (n : ℕ) :
    resolveRefs c aux (n + 1) (ref pre.length) = resolveRefs c aux n v := by
  have hframe : refFrame aux [(zeroCopyRefKey, .int pre.length)] = some blob := by
    obtain ⟨more, rfl⟩ := hpre
    simp [refFrame, refIndex, Value.asInt]
  rw [ref]
  simp only [resolveRefs, hframe]
  rw [hc.value v blob (largeBlob_eq_some.mp hblob).1, Option.bind_some]

section

set_option linter.unusedSectionVars false

variable (hc : RoundTrips c) (hlarge : AreLarge c threshold aux) (hsmall : RefsAreSmall c threshold)

include hc hlarge hsmall

mutual

theorem resolve_replaceLarge_iff : ∀ (v : Value) (pre : List Blob) (n : ℕ),
    (replaceLargeWithRefs c threshold v pre).2 <+: aux → depth v < n →
    (resolveRefs c aux n (replaceLargeWithRefs c threshold v pre).1 = some v ↔
      hasRef aux.length v = false)
  | .dict entries, pre, n, hpre, hn => by
      rcases replaceLarge_dict c threshold entries pre with ⟨heq, -⟩ | ⟨heq, hholds⟩
      · rw [heq]
        exact resolveRefs_self_iff hc hlarge hsmall _ n (Nat.le_of_lt hn)
      · rw [heq] at hpre ⊢
        obtain ⟨n, rfl⟩ : ∃ m, n = m + 1 := ⟨n - 1, by omega⟩
        obtain ⟨hafter, hbefore⟩ := looksLikeRef_replaceEntries c threshold hholds
          aux.length pre
        rw [resolveRefs_dict_iff hafter, hasRef, hbefore, Bool.false_or]
        exact resolve_replaceEntries_iff entries pre n hpre (by rw [depth] at hn; omega)
  | .list elems, pre, n, hpre, hn => by
      obtain ⟨n, rfl⟩ : ∃ m, n = m + 1 := ⟨n - 1, by omega⟩
      rcases replaceLarge_list c threshold elems pre with ⟨blob, hblob, heq⟩ | heq
      · rw [heq] at hpre ⊢
        rw [resolveRefs_ref hc hblob hpre]
        exact resolveRefs_self_iff hc hlarge hsmall _ n (Nat.le_of_lt_succ hn)
      · rw [heq] at hpre ⊢
        rw [resolveRefs_list_iff, hasRef]
        exact resolve_replaceElems_iff elems pre n hpre (by rw [depth] at hn; omega)
  | .none, _, _, _, hn => resolveRefs_atom_iff rfl (Nat.zero_lt_of_lt hn)
  | .bool _, _, _, _, hn => resolveRefs_atom_iff rfl (Nat.zero_lt_of_lt hn)
  | .int _, _, _, _, hn => resolveRefs_atom_iff rfl (Nat.zero_lt_of_lt hn)
  | .float _, _, _, _, hn => resolveRefs_atom_iff rfl (Nat.zero_lt_of_lt hn)
  | .str _, _, _, _, hn => resolveRefs_atom_iff rfl (Nat.zero_lt_of_lt hn)
  | .bytes _, _, _, _, hn => resolveRefs_atom_iff rfl (Nat.zero_lt_of_lt hn)

theorem resolve_replaceEntries_iff : ∀ (entries : Entries) (pre : List Blob) (n : ℕ),
    (replaceEntries c threshold entries pre).2 <+: aux → depthEntries entries < n →
    (EntriesResolve c aux n (replaceEntries c threshold entries pre).1 entries ↔
      hasRefEntries aux.length entries = false)
  | [], _, _, _, _ => iff_of_true .nil rfl
  | (k, v) :: entries, pre, n, hpre, hn => by
      rw [depthEntries] at hn
      rw [replaceEntries_cons] at hpre ⊢
      have hbefore := (extends_replaceEntries c threshold entries
        (replaceValue c threshold v pre).2).isPrefix.trans hpre
      have hentries := resolve_replaceEntries_iff entries _ n hpre (by omega)
      have hv : resolveRefs c aux n (replaceValue c threshold v pre).1 = some v ↔
          hasRef aux.length v = false := by
        have hsame := resolve_replaceLarge_iff v pre n
        revert hbefore
        unfold replaceValue
        split
        · next blob hblob =>
          intro hbefore
          split at hblob
          · obtain ⟨n, rfl⟩ : ∃ m, n = m + 1 := ⟨n - 1, by omega⟩
            rw [resolveRefs_ref hc hblob hbefore]
            exact resolveRefs_self_iff hc hlarge hsmall v n (by omega)
          · cases hblob
        · exact fun hbefore => hsame hbefore (by omega)
      rw [entriesResolve_cons_iff, hv, hentries, hasRefEntries, Bool.or_eq_false_iff]

theorem resolve_replaceElems_iff : ∀ (elems : List Value) (pre : List Blob) (n : ℕ),
    (replaceElems c threshold elems pre).2 <+: aux → depthElems elems < n →
    (ElemsResolve c aux n (replaceElems c threshold elems pre).1 elems ↔
      hasRefElems aux.length elems = false)
  | [], _, _, _, _ => iff_of_true .nil rfl
  | v :: elems, pre, n, hpre, hn => by
      rw [depthElems] at hn
      rw [replaceElems_cons] at hpre ⊢
      have hbefore := (extends_replaceElems c threshold elems
        (replaceLargeWithRefs c threshold v pre).2).isPrefix.trans hpre
      have hv := resolve_replaceLarge_iff v pre n hbefore (by omega)
      have helems := resolve_replaceElems_iff elems _ n hpre (by omega)
      rw [elemsResolve_cons_iff, hv, helems, hasRefElems, Bool.or_eq_false_iff]

end

end

/-! ## Messages -/

mutual

theorem hasRef_zero : ∀ v : Value, hasRef 0 v = false
  | .dict entries => by
      rw [hasRef, hasRefEntries_zero entries, Bool.or_false, looksLikeRef]
      cases refIndex entries with
      | none => rfl
      | some i =>
        simp only [Option.any_some, Bool.and_eq_false_iff, decide_eq_false_iff_not]
        omega
  | .list elems => hasRefElems_zero elems
  | .none => rfl
  | .bool _ => rfl
  | .int _ => rfl
  | .float _ => rfl
  | .str _ => rfl
  | .bytes _ => rfl

theorem hasRefEntries_zero : ∀ entries : Entries, hasRefEntries 0 entries = false
  | [] => rfl
  | (_, v) :: entries => by rw [hasRefEntries, hasRef_zero v, hasRefEntries_zero entries, Bool.or_false]

theorem hasRefElems_zero : ∀ elems : List Value, hasRefElems 0 elems = false
  | [] => rfl
  | v :: elems => by rw [hasRefElems, hasRef_zero v, hasRefElems_zero elems, Bool.or_false]

end

theorem areLarge_replaceLarge (c : Msgspec Blob) (threshold : ℕ) (v : Value) : AreLarge c threshold (replaceLargeWithRefs c threshold v []).2 := by
  obtain ⟨more, heq, hmore⟩ := extends_replaceLarge c threshold v []
  rw [heq]
  exact hmore

/-- What becomes of the data of a message. -/
def arrivingData (c : Msgspec Blob) (threshold limit : ℕ) (data : Value) : Option Value :=
  let (data, aux) := replaceLargeWithRefs c threshold data []
  if aux.isEmpty then some data else resolveRefs c aux limit data

theorem arrivingData_iff (hc : RoundTrips c) (hsmall : RefsAreSmall c threshold) {data : Value} {limit : ℕ}
    (hlimit : depth data < limit) : arrivingData c threshold limit data = some data ↔
      hasRef (replaceLargeWithRefs c threshold data []).2.length data = false := by
  have hlarge := areLarge_replaceLarge c threshold data
  have hiff := fun n => resolve_replaceLarge_iff hc hlarge hsmall data [] n (List.prefix_refl _)
  unfold arrivingData
  cases haux : (replaceLargeWithRefs c threshold data []).2 with
  | cons blob aux =>
    rw [haux] at hiff
    simp only [haux, List.isEmpty_cons, if_neg Bool.false_ne_true]
    exact hiff limit hlimit
  | nil =>
    simp only [haux, List.isEmpty_nil, if_true]
    refine iff_of_true ?_ (hasRef_zero data)
    -- without frames, nothing was replaced
    rw [haux] at hiff hlarge
    generalize (replaceLargeWithRefs c threshold data []).1 = data' at hiff ⊢
    have hself := (resolveRefs_self_iff hc hlarge hsmall data' (max (depth data') limit)
      (Nat.le_max_left _ _)).mpr (hasRef_zero data')
    have hback := (hiff (max (depth data') limit) (Nat.lt_of_lt_of_le hlimit (Nat.le_max_right _ _))).mpr
      (hasRef_zero data)
    exact hself.symm.trans hback

theorem isDict_replaceLarge {data : Value} (h : data.isDict = true) :
    (replaceLargeWithRefs c threshold data []).1.isDict = true := by
  cases data with
  | dict entries =>
    rcases replaceLarge_dict c threshold entries [] with ⟨heq, -⟩ | ⟨heq, -⟩ <;>
      rw [heq] <;> rfl
  | _ => cases h

theorem truthy_replaceLarge {data : Value} (h : data.isDict = true)
    (haux : (replaceLargeWithRefs c threshold data []).2 ≠ []) :
    truthy (replaceLargeWithRefs c threshold data []).1 = true := by
  cases data with
  | dict entries =>
    rcases replaceLarge_dict c threshold entries [] with ⟨heq, -⟩ | ⟨heq, -⟩
    · rw [heq] at haux
      exact absurd rfl haux
    · rw [heq] at haux ⊢
      cases entries with
      | nil => exact absurd rfl haux
      | cons e entries =>
        rw [replaceEntries_cons]
        rfl
  | _ => cases h

theorem unpack_pack (before : List Blob) (main empty : Blob) (aux : List Blob) :
    unpackRecvPayload empty (packSendFrames before (.of main aux)) before.length = .of main aux := by
  cases aux with
  | nil => simp [Payload.of, packSendFrames, unpackRecvPayload]
  | cons blob aux => simp [Payload.of, packSendFrames, unpackRecvPayload]

theorem deserializeRequest_of (aux : List Blob) {main : Blob} {r : SchedulerRequest} (hmain : c.decodeRequest main = some r)
    (limit : ℕ) : deserializeRequest c limit (.of main aux) =
      (if aux.isEmpty then some r.data else resolveRefs c aux limit r.data).map
        fun data => { r with data := data } := by
  cases aux with
  | nil => exact hmain
  | cons blob aux =>
    simp only [Payload.of, deserializeRequest, hmain, List.isEmpty_cons, Option.bind_eq_bind,
      Option.bind_some, if_neg Bool.false_ne_true]
    cases resolveRefs c (blob :: aux) limit r.data <;> rfl

theorem deserializeResponse_of (aux : List Blob) {main : Blob} {r : SchedulerResponse} {data : Value}
    (hmain : c.decodeResponse main = some r) (hdata : r.data = some data)
    (htruthy : aux ≠ [] → truthy data = true) (limit : ℕ) : deserializeResponse c limit (.of main aux) =
      (if aux.isEmpty then some data else resolveRefs c aux limit data).map
        fun data => { r with data := some data } := by
  cases aux with
  | nil =>
    show c.decodeResponse main = some { r with data := some data }
    rw [hmain, ← hdata]
  | cons blob aux =>
    have hfilter : r.data.filter truthy = some data := by
      rw [hdata, Option.filter_some, if_pos (htruthy (List.cons_ne_nil _ _))]
    simp only [Payload.of, deserializeResponse, hmain, hfilter, List.isEmpty_cons, Option.bind_eq_bind,
      Option.bind_some, if_neg Bool.false_ne_true]
    cases resolveRefs c (blob :: aux) limit data <;> rfl

/-- How many frames of its own the data has. -/
def numFrames (c : Msgspec Blob) (threshold : ℕ) (data : Value) : ℕ :=
  (replaceLargeWithRefs c threshold data []).2.length

variable {empty : Blob} {limit : ℕ}

theorem request_arrives_iff (hc : RoundTrips c) (hsmall : RefsAreSmall c threshold)
    {request : SchedulerRequest} {frames : List Blob} (hdict : request.data.isDict = true)
    (hlimit : depth request.data < limit) (hsend : sendRequest c threshold empty request = some frames)
    (clientId : Blob) : ∃ payload, recvFrontend (clientId :: frames) = some (clientId, payload) ∧
      (receiveRequest c empty limit payload = some request ↔
        hasRef (numFrames c threshold request.data) request.data = false) := by
  obtain ⟨payload, hpayload, rfl⟩ := Option.map_eq_some_iff.mp hsend
  obtain ⟨main, hmain, rfl⟩ := Option.map_eq_some_iff.mp hpayload
  have hdecode := hc.request _ main (isDict_replaceLarge hdict) hmain
  have hunpack := unpack_pack [empty, empty] main empty (replaceLargeWithRefs c threshold request.data []).2
  have hdeserialize := deserializeRequest_of (replaceLargeWithRefs c threshold request.data []).2
    hdecode limit
  refine ⟨packSendFrames [] (.of main (replaceLargeWithRefs c threshold request.data []).2), ?_, ?_⟩
  · cases (replaceLargeWithRefs c threshold request.data []).2 <;> rfl
  · have hpack : [empty, empty] ++ packSendFrames [] (.of main
        (replaceLargeWithRefs c threshold request.data []).2) = packSendFrames [empty, empty] (.of main
          (replaceLargeWithRefs c threshold request.data []).2) := by
      cases (replaceLargeWithRefs c threshold request.data []).2 <;> rfl
    rw [receiveRequest, hpack]
    show deserializeRequest c limit (unpackRecvPayload empty _ [empty, empty].length) = _ ↔ _
    rw [hunpack, hdeserialize, numFrames, ← arrivingData_iff hc hsmall hlimit]
    show (arrivingData c threshold limit request.data).map _ = _ ↔ _
    cases arrivingData c threshold limit request.data with
    | none => simp
    | some data =>
      simp only [Option.map_some, Option.some.injEq]
      exact ⟨fun heq => congrArg SchedulerRequest.data heq, fun heq => heq ▸ rfl⟩

theorem response_arrives_iff (hc : RoundTrips c) (hsmall : RefsAreSmall c threshold)
    {response : SchedulerResponse} {frames : List Blob} {clientId : Blob}
    (hdict : ∀ data ∈ response.data, data.isDict = true ∧ depth data < limit)
    (hsend : sendResponse c threshold empty clientId response = some frames) :
    ∃ parts, frames = clientId :: parts ∧
      (receiveResponse c empty limit parts = some response ↔
        ∀ data ∈ response.data, hasRef (numFrames c threshold data) data = false) := by
  obtain ⟨payload, hpayload, rfl⟩ := Option.map_eq_some_iff.mp hsend
  unfold serializeResponse at hpayload
  cases hdata : response.data with
  | none =>
    rw [hdata] at hpayload
    obtain ⟨main, hmain, rfl⟩ := Option.map_eq_some_iff.mp hpayload
    -- without data there is nothing to replace
    have hdecode := hc.response { response with data := none } main (fun _ hmem => nomatch hmem) hmain
    refine ⟨[empty, main], rfl, iff_of_true ?_ fun _ hmem => nomatch hmem⟩
    show c.decodeResponse main = some response
    rw [hdecode, ← hdata]
  | some data =>
    rw [hdata] at hpayload
    obtain ⟨main, hmain, rfl⟩ := Option.map_eq_some_iff.mp hpayload
    obtain ⟨hdict, hlimit⟩ := hdict data hdata
    have hdecode := hc.response
      { response with data := some (replaceLargeWithRefs c threshold data []).1 } main
      (fun _ hmem => Option.some.inj hmem ▸ isDict_replaceLarge hdict) hmain
    have hdeserialize := deserializeResponse_of (replaceLargeWithRefs c threshold data []).2
      hdecode rfl (truthy_replaceLarge hdict) limit
    have hunpack := unpack_pack [empty] main empty (replaceLargeWithRefs c threshold data []).2
    refine ⟨packSendFrames [empty] (.of main (replaceLargeWithRefs c threshold data []).2), ?_, ?_⟩
    · cases (replaceLargeWithRefs c threshold data []).2 <;> rfl
    · have hlong : ¬(packSendFrames [empty] (.of main (replaceLargeWithRefs c threshold data []).2)).length
          < 2 := by
        cases (replaceLargeWithRefs c threshold data []).2 <;> simp [Payload.of, packSendFrames]
      rw [receiveResponse, if_neg hlong]
      show deserializeResponse c limit (unpackRecvPayload empty _ [empty].length) = _ ↔ _
      rw [hunpack, hdeserialize]
      have hiff := arrivingData_iff hc hsmall hlimit
      rw [← numFrames] at hiff
      show (arrivingData c threshold limit data).map _ = _ ↔ _
      simp only [Option.mem_some_iff, forall_eq', ← hiff]
      cases arrivingData c threshold limit data with
      | none => simp
      | some data' =>
        simp only [Option.map_some, Option.some.injEq]
        constructor
        · intro heq
          have := congrArg SchedulerResponse.data heq
          rw [hdata] at this
          exact Option.some.inj this
        · intro heq
          rw [heq, ← hdata]

/-- **A message arrives as it was sent** exactly if nothing in its data looks like a reference to one of its own
frames; both a request and its response, whatever the recursion limit is that their data does not reach. -/
theorem message_arrives_iff (hc : RoundTrips c) (hsmall : RefsAreSmall c threshold) (limit : ℕ) :
    (∀ request frames clientId, request.data.isDict = true → depth request.data < limit →
      sendRequest c threshold empty request = some frames →
        ∃ payload, recvFrontend (clientId :: frames) = some (clientId, payload) ∧
          (receiveRequest c empty limit payload = some request ↔
            hasRef (numFrames c threshold request.data) request.data = false)) ∧
      ∀ response frames clientId, (∀ data ∈ response.data, data.isDict = true ∧ depth data < limit) →
        sendResponse c threshold empty clientId response = some frames →
          ∃ parts, frames = clientId :: parts ∧
            (receiveResponse c empty limit parts = some response ↔
              ∀ data ∈ response.data, hasRef (numFrames c threshold data) data = false) :=
  ⟨fun _ _ clientId hdict hlimit hsend => request_arrives_iff hc hsmall hdict hlimit hsend clientId,
    fun _ _ _ hdict hsend => response_arrives_iff hc hsmall hdict hsend⟩

end

/-! ## A codec -/

/-- What is packed, kept as it is. -/
inductive Packed where
  | nothing
  | value (v : Value)
  | request (r : SchedulerRequest)
  | response (r : SchedulerResponse)

def intSize (n : ℤ) : ℕ :=
  if -32 ≤ n ∧ n < 128 then 1
  else if -128 ≤ n ∧ n < 256 then 2
  else if -32768 ≤ n ∧ n < 65536 then 3
  else if -2147483648 ≤ n ∧ n < 4294967296 then 5
  else 9

def strSize (s : String) : ℕ :=
  (if s.utf8ByteSize < 32 then 1 else if s.utf8ByteSize < 256 then 2
    else if s.utf8ByteSize < 65536 then 3 else 5) + s.utf8ByteSize

/-- The header of a list or a dictionary. -/
def headerSize (n : ℕ) : ℕ := if n < 16 then 1 else if n < 65536 then 3 else 5

def keySize : Key → ℕ
  | .str s => strSize s
  | .int n => intSize n

mutual

/-- How many bytes `msgpack` has for the value. -/
def packedSize : Value → ℕ
  | .dict entries => headerSize entries.length + entriesSize entries
  | .list elems => headerSize elems.length + elemsSize elems
  | .none => 1
  | .bool _ => 1
  | .int n => intSize n
  | .float _ => 9
  | .str s => strSize s
  | .bytes b => (if b.length < 256 then 2 else if b.length < 65536 then 3 else 5) + b.length

def entriesSize : Entries → ℕ
  | [] => 0
  | (k, v) :: entries => keySize k + packedSize v + entriesSize entries

def elemsSize : List Value → ℕ
  | [] => 0
  | v :: elems => packedSize v + elemsSize elems

end

def msgpack : Msgspec Packed where
  encode v := some (.value v)
  decode
    | .value v => some v
    | _ => none
  size
    | .value v => packedSize v
    | _ => 0
  encodeRequest r := some (.request r)
  decodeRequest
    | .request r => some r
    | _ => none
  encodeResponse r := some (.response r)
  decodeResponse
    | .response r => some r
    | _ => none

/-- `DEFAULT_ZERO_COPY_THRESHOLD` -/
def defaultZeroCopyThreshold : ℕ := 1024

theorem msgpack_roundTrips : RoundTrips msgpack where
  value := by
    rintro v _ h
    cases h
    rfl
  request := by
    rintro r _ - h
    cases h
    rfl
  response := by
    rintro r _ - h
    cases h
    rfl

theorem msgpack_refsAreSmall : RefsAreSmall msgpack defaultZeroCopyThreshold := by
  rintro v _ hv h
  cases h
  have hint : ∀ n, intSize n ≤ 9 := by
    intro n
    unfold intSize
    split_ifs <;> decide
  have hkey : keySize zeroCopyRefKey = 8 := by decide
  have hsize : packedSize v ≤ 9 := by
    cases v with
    | int n => exact hint n
    | bool b => exact Nat.le_of_ble_eq_true rfl
    | _ => cases hv
  show headerSize 1 + (keySize zeroCopyRefKey + packedSize v + 0) ≤ 1024
  rw [hkey, headerSize, if_pos (by decide)]
  omega

/-- A request whose candidates go in a frame of their own, and some more data. -/
def candidatesRequest (more : Value) : SchedulerRequest :=
  ⟨"allocate_only", "r1", .dict [(.str "candidates", .list (List.replicate 1100 (.int 1))),
    (.str "more", more)]⟩

theorem msgpack_sends (request : SchedulerRequest) : ∃ frames,
    sendRequest msgpack defaultZeroCopyThreshold .nothing request = some frames :=
  ⟨_, rfl⟩

/-- One frame is sent. Data that refers to a second one is kept, and data that refers to the first one is not. -/
theorem candidatesRequest_arrives :
    (∃ frames payload, sendRequest msgpack defaultZeroCopyThreshold .nothing
          (candidatesRequest (ref 1)) = some frames ∧
        recvFrontend (.nothing :: frames) = some (.nothing, payload) ∧
        receiveRequest msgpack .nothing 100 payload = some (candidatesRequest (ref 1))) ∧
      ∃ frames payload, sendRequest msgpack defaultZeroCopyThreshold .nothing
          (candidatesRequest (ref 0)) = some frames ∧
        recvFrontend (.nothing :: frames) = some (.nothing, payload) ∧
        receiveRequest msgpack .nothing 100 payload ≠ some (candidatesRequest (ref 0)) := by
  constructor
  · obtain ⟨frames, hframes⟩ := msgpack_sends (candidatesRequest (ref 1))
    obtain ⟨payload, hpayload, hiff⟩ := (message_arrives_iff msgpack_roundTrips msgpack_refsAreSmall
      100).1 _ frames .nothing rfl (by decide +kernel) hframes
    exact ⟨frames, payload, hframes, hpayload, hiff.mpr (by decide +kernel)⟩
  · obtain ⟨frames, hframes⟩ := msgpack_sends (candidatesRequest (ref 0))
    obtain ⟨payload, hpayload, hiff⟩ := (message_arrives_iff msgpack_roundTrips msgpack_refsAreSmall
      100).1 _ frames .nothing rfl (by decide +kernel) hframes
    exact ⟨frames, payload, hframes, hpayload, fun h => absurd (hiff.mp h) (by decide +kernel)⟩

end Zmq

end PyMotor.Coordinator
