import PyMotor.Lib.Chunks

/-!
# Two lists filtered apart and zipped again

A list of records and a list of their parts, `n` parts for each record, are filtered independently of
each other, and what is left is put together again by position: a record with the next `n` parts
(`zipBlocks`). Record `i` gets its own parts if in every block that still counts the record and its
parts were kept, or the record and its parts were dropped (`WholeBlocks`), and not otherwise
(`zipBlocks_aligned_iff`).
-/

namespace PyMotor

section Positions

variable {α β : Type}

/-- The positions whose element `f` accepts. -/
def positions (f : α → Option β) (l : List α) : List Nat :=
  (List.range l.length).filter (fun i => (l[i]?.bind f).isSome)

/-- What `f` makes of the element at a position. -/
def valueAt (f : α → Option β) (l : List α) (default : β) (i : Nat) : β :=
  (l[i]?.bind f).getD default

/-- What `f` accepts is found at its positions. -/
theorem filterMap_eq_map_positions (f : α → Option β) (l : List α) (default : β) :
    l.filterMap f = (positions f l).map (valueAt f l default) := by
  induction l with
  | nil => rfl
  | cons a l ih =>
    have hpos : positions f (a :: l) =
        (if (f a).isSome then [0] else []) ++ (positions f l).map (· + 1) := by
      simp only [positions, List.length_cons, List.range_succ_eq_map, List.filter_cons,
        List.getElem?_cons_zero, Option.bind_some, List.filter_map]
      split <;> rfl
    rw [hpos, List.map_append, List.map_map, List.filterMap_cons, ih]
    have hshift : valueAt f (a :: l) default ∘ (· + 1) = valueAt f l default := rfl
    rw [hshift]
    cases hfa : f a with
    | none => rfl
    | some b =>
      simp [valueAt, hfa]

end Positions

/-! ## Blocks -/

/-- The positions of the parts of record `i`, of `len` parts in all. -/
def blockPositions (n len i : Nat) : List Nat := List.range' (i * n) (min n (len - i * n))

/-- A record and the next `n` parts, in turn. -/
def zipBlocks {α β : Type} (n : Nat) (records : List α) (parts : List β) : List (α × List β) :=
  records.zip (chunks n parts)

/-- What becomes of records and parts does not change how they are put together. -/
theorem zipBlocks_map {α α' β β' : Type} (n : Nat) (f : α → α') (g : β → β') (records : List α)
    (parts : List β) : zipBlocks n (records.map f) (parts.map g) =
      (zipBlocks n records parts).map (fun p => (f p.1, p.2.map g)) := by
  rw [zipBlocks, zipBlocks, chunks_map, List.zip_map]
  rfl

section Aligned

variable {n numRecords numParts : Nat} (keep keepPart : Nat → Bool)

/-- The records that are kept, from `i` on. -/
def keptFrom (numRecords i : Nat) : List Nat := (List.range' i (numRecords - i)).filter keep

/-- In every block that still counts, because a record is kept from there on and a part too, all is
kept or nothing. -/
def WholeBlocksFrom (n numRecords numParts i : Nat) : Prop :=
  ∀ k, i ≤ k → (∃ j, k ≤ j ∧ j < numRecords ∧ keep j = true) →
    (∃ p, k * n ≤ p ∧ p < numParts ∧ keepPart p = true) →
    (k < numRecords ∧ keep k = true ∧ ∀ p ∈ blockPositions n numParts k, keepPart p = true) ∨
      (¬ (k < numRecords ∧ keep k = true) ∧
        ∀ p ∈ blockPositions n numParts k, keepPart p = false)

/-- All blocks. -/
def WholeBlocks (n numRecords numParts : Nat) : Prop :=
  WholeBlocksFrom keep keepPart n numRecords numParts 0

variable {keep keepPart} {i : Nat}

theorem keptFrom_eq_nil (h : ¬ ∃ j, i ≤ j ∧ j < numRecords ∧ keep j = true) :
    keptFrom keep numRecords i = [] := by
  rw [keptFrom, List.filter_eq_nil_iff]
  intro j hj hkeep
  rw [List.mem_range'_1] at hj
  exact h ⟨j, hj.1, by omega, hkeep⟩

/-- The kept records are record `i`, if it is kept, and those behind it. -/
theorem keptFrom_succ : keptFrom keep numRecords i =
    (if i < numRecords ∧ keep i = true then [i] else []) ++ keptFrom keep numRecords (i + 1) := by
  by_cases hi : i < numRecords
  · obtain ⟨m, hm⟩ : ∃ m, numRecords - i = m + 1 := ⟨numRecords - i - 1, by omega⟩
    have hm' : numRecords - (i + 1) = m := by omega
    rw [keptFrom, keptFrom, hm, hm', List.range'_succ, List.filter_cons]
    by_cases hk : keep i = true <;> simp [hi, hk]
  · have h₁ : numRecords - i = 0 := by omega
    have h₂ : numRecords - (i + 1) = 0 := by omega
    simp [keptFrom, h₁, h₂, hi]

theorem keptFrom_block : keptFrom keepPart numParts (i * n) =
    (blockPositions n numParts i).filter keepPart ++ keptFrom keepPart numParts ((i + 1) * n) := by
  have hsplit : List.range' (i * n) (numParts - i * n) =
      blockPositions n numParts i ++ List.range' ((i + 1) * n) (numParts - (i + 1) * n) := by
    rw [blockPositions, Nat.add_mul, Nat.one_mul]
    by_cases hfull : n ≤ numParts - i * n
    · have hrest : numParts - i * n = n + (numParts - (i * n + n)) := by omega
      rw [Nat.min_eq_left hfull]
      conv => lhs; rw [hrest]
      rw [List.range'_append_1]
    · have hrest : numParts - (i * n + n) = 0 := by omega
      rw [Nat.min_eq_right (by omega), hrest, List.range'_zero, List.append_nil]
  rw [keptFrom, hsplit, List.filter_append]
  rfl

/-- A block of kept parts is the first piece. -/
theorem chunks_block (hn : 0 < n) (hne : blockPositions n numParts i ≠ []) :
    chunks n (blockPositions n numParts i ++ keptFrom keepPart numParts ((i + 1) * n)) =
      blockPositions n numParts i :: chunks n (keptFrom keepPart numParts ((i + 1) * n)) := by
  have hlen : (blockPositions n numParts i).length = min n (numParts - i * n) := List.length_range'
  by_cases hfull : n ≤ numParts - i * n
  · have hlen' : (blockPositions n numParts i).length = 1 * n := by omega
    rw [chunks_append hn hlen', chunks_of_length_le hne (by omega)]
    rfl
  · -- the last block, a shorter one
    have hlast : keptFrom keepPart numParts ((i + 1) * n) = [] := by
      refine keptFrom_eq_nil ?_
      rintro ⟨p, hp, hlt, -⟩
      rw [Nat.add_mul] at hp
      omega
    rw [hlast, List.append_nil, chunks_of_length_le hne (by omega)]
    simp [chunks, divCeil, Nat.div_eq_of_lt (show n - 1 < n by omega)]

/-- Every record from `i` on gets its own parts. -/
def AlignedFrom (keep keepPart : Nat → Bool) (n numRecords numParts i : Nat) : Prop :=
  ∀ p ∈ zipBlocks n (keptFrom keep numRecords i) (keptFrom keepPart numParts (i * n)),
    p.2 = blockPositions n numParts p.1

/-- If nothing is left of the one or of the other, nothing is put together. -/
theorem alignedFrom_of_none (h : ¬ ((∃ j, i ≤ j ∧ j < numRecords ∧ keep j = true) ∧
    ∃ p, i * n ≤ p ∧ p < numParts ∧ keepPart p = true)) :
    AlignedFrom keep keepPart n numRecords numParts i := by
  intro p hp
  rcases not_and_or.mp h with h | h
  · rw [keptFrom_eq_nil h] at hp
    cases hp
  · have hnil : chunks n ([] : List Nat) = [] := by
      by_cases hn : n = 0
      · subst hn
        rfl
      · simp [chunks, divCeil, Nat.div_eq_of_lt (show n - 1 < n by omega)]
    rw [keptFrom_eq_nil h, zipBlocks, hnil, List.zip_nil_right] at hp
    cases hp

theorem zipBlocks_cons {α β : Type} {n : Nat} {r : α} {records : List α} {parts piece : List β}
    {pieces : List (List β)} (h : chunks n parts = piece :: pieces) :
    zipBlocks n (r :: records) parts = (r, piece) :: records.zip pieces := by
  rw [zipBlocks, h, List.zip_cons_cons]

theorem chunks_eq_cons {α : Type} {n : Nat} {l : List α} (hn : 0 < n) (hne : l ≠ []) :
    ∃ pieces, chunks n l = l.take n :: pieces := by
  have hpos : 0 < divCeil l.length n :=
    (lt_divCeil_iff hn).mpr (by rw [Nat.zero_mul]; exact List.length_pos_iff.mpr hne)
  have hhead := getElem?_chunks (l := l) hpos
  cases hc : chunks n l with
  | nil =>
    rw [hc] at hhead
    cases hhead
  | cons piece pieces =>
    rw [hc, List.getElem?_cons_zero, Nat.zero_mul, List.drop_zero] at hhead
    cases hhead
    exact ⟨pieces, rfl⟩

/-- All of record `i` is kept, or nothing. -/
def WholeBlock (keep keepPart : Nat → Bool) (n numRecords numParts i : Nat) : Prop :=
  (i < numRecords ∧ keep i = true ∧ ∀ p ∈ blockPositions n numParts i, keepPart p = true) ∨
    (¬ (i < numRecords ∧ keep i = true) ∧ ∀ p ∈ blockPositions n numParts i, keepPart p = false)

theorem alignedFrom_succ (hn : 0 < n) (hparts : ∃ p, i * n ≤ p ∧ p < numParts ∧ keepPart p = true)
    (h : WholeBlock keep keepPart n numRecords numParts i) :
    AlignedFrom keep keepPart n numRecords numParts i ↔
      AlignedFrom keep keepPart n numRecords numParts (i + 1) := by
  unfold AlignedFrom
  rw [keptFrom_succ, keptFrom_block]
  rcases h with ⟨hi, hkeep, hall⟩ | ⟨hnot, hnone⟩
  · have hne : blockPositions n numParts i ≠ [] := by
      obtain ⟨p, hp, hlt, -⟩ := hparts
      rw [← List.length_pos_iff, blockPositions, List.length_range']
      omega
    rw [if_pos ⟨hi, hkeep⟩, List.filter_eq_self.mpr hall, List.singleton_append,
      zipBlocks_cons (chunks_block hn hne)]
    simp [zipBlocks]
  · have hfilter : (blockPositions n numParts i).filter keepPart = [] := by
      rw [List.filter_eq_nil_iff]
      intro p hp
      rw [hnone p hp]
      exact Bool.false_ne_true
    rw [if_neg hnot, hfilter, List.nil_append, List.nil_append]

/-- Where something is kept and something is missing, the first record gets parts of another. -/
theorem not_alignedFrom (hn : 0 < n) (hrecords : ∃ j, i ≤ j ∧ j < numRecords ∧ keep j = true)
    (hparts : ∃ p, i * n ≤ p ∧ p < numParts ∧ keepPart p = true)
    (h : ¬ WholeBlock keep keepPart n numRecords numParts i) :
    ¬ AlignedFrom keep keepPart n numRecords numParts i := by
  intro halign
  have hne : keptFrom keepPart numParts (i * n) ≠ [] := by
    obtain ⟨p, hp, hlt, hkeep⟩ := hparts
    refine List.ne_nil_of_mem (a := p) (List.mem_filter.mpr ⟨?_, hkeep⟩)
    rw [List.mem_range'_1]
    omega
  obtain ⟨pieces, hpieces⟩ := chunks_eq_cons hn hne
  by_cases hi : i < numRecords ∧ keep i = true
  · -- record `i` gets kept parts only
    have hfirst : (i, (keptFrom keepPart numParts (i * n)).take n) ∈
        zipBlocks n (keptFrom keep numRecords i) (keptFrom keepPart numParts (i * n)) := by
      rw [keptFrom_succ, if_pos hi, List.singleton_append, zipBlocks_cons hpieces]
      exact List.mem_cons_self
    have hblock := halign _ hfirst
    simp only at hblock
    refine h (Or.inl ⟨hi.1, hi.2, fun p hp => ?_⟩)
    rw [← hblock] at hp
    exact (List.mem_filter.mp (List.mem_of_mem_take hp)).2
  · -- a later record gets the parts that are left of record `i`
    refine h (Or.inr ⟨hi, fun p hp => ?_⟩)
    by_contra hkept
    obtain ⟨j, hj, hlt, hkeep⟩ := hrecords
    have hj' : j ≠ i := by
      rintro rfl
      exact hi ⟨hlt, hkeep⟩
    obtain ⟨r, records, hr⟩ := List.exists_cons_of_ne_nil (List.ne_nil_of_mem (a := j)
      (l := keptFrom keep numRecords (i + 1)) (List.mem_filter.mpr ⟨by
        rw [List.mem_range'_1]
        omega, hkeep⟩))
    have hfirst : (r, (keptFrom keepPart numParts (i * n)).take n) ∈
        zipBlocks n (keptFrom keep numRecords i) (keptFrom keepPart numParts (i * n)) := by
      rw [keptFrom_succ, if_neg hi, List.nil_append, hr, zipBlocks_cons hpieces]
      exact List.mem_cons_self
    have hblock := halign _ hfirst
    simp only at hblock
    have hrge : i + 1 ≤ r := by
      have hmem : r ∈ keptFrom keep numRecords (i + 1) := hr ▸ List.mem_cons_self
      exact (List.mem_range'_1.mp (List.mem_filter.mp hmem).1).1
    -- the first part of the piece is one of record `i`
    obtain ⟨p₀, rest, hp₀⟩ := List.exists_cons_of_ne_nil (List.ne_nil_of_mem (a := p)
      (l := (blockPositions n numParts i).filter keepPart)
      (List.mem_filter.mpr ⟨hp, by simpa using hkept⟩))
    have hmem₀ : p₀ ∈ blockPositions n numParts i :=
      (List.mem_filter.mp (hp₀ ▸ List.mem_cons_self (a := p₀) (l := rest))).1
    have hin : p₀ ∈ blockPositions n numParts r := by
      rw [← hblock, keptFrom_block, hp₀]
      obtain ⟨m, rfl⟩ : ∃ m, n = m + 1 := ⟨n - 1, by omega⟩
      exact List.mem_cons_self
    rw [blockPositions, List.mem_range'_1] at hmem₀ hin
    have hmul : (i + 1) * n ≤ r * n := Nat.mul_le_mul_right n hrge
    rw [Nat.add_mul] at hmul
    omega

theorem alignedFrom_iff (hn : 0 < n) : ∀ d i, numRecords ≤ i + d →
    (AlignedFrom keep keepPart n numRecords numParts i ↔
      WholeBlocksFrom keep keepPart n numRecords numParts i) := by
  -- by induction on the number of records from `i` on
  intro d
  induction d with
  | zero =>
    intro i hi
    refine iff_of_true (alignedFrom_of_none ?_) ?_
    · rintro ⟨⟨j, hj, hlt, -⟩, -⟩
      omega
    · rintro k hk ⟨j, hj, hlt, -⟩ -
      omega
  | succ d ih =>
    intro i hi
    by_cases hsome : (∃ j, i ≤ j ∧ j < numRecords ∧ keep j = true) ∧
        ∃ p, i * n ≤ p ∧ p < numParts ∧ keepPart p = true
    · by_cases hwhole : WholeBlock keep keepPart n numRecords numParts i
      · rw [alignedFrom_succ hn hsome.2 hwhole, ih (i + 1) (by omega)]
        constructor
        · intro h k hk hj hp
          rcases Nat.eq_or_lt_of_le hk with rfl | hlt
          · exact hwhole
          · exact h k hlt hj hp
        · intro h k hk hj hp
          exact h k (by omega) hj hp
      · refine iff_of_false (not_alignedFrom hn hsome.1 hsome.2 hwhole) (fun h => hwhole ?_)
        exact h i (Nat.le_refl i) hsome.1 hsome.2
    · refine iff_of_true (alignedFrom_of_none hsome) ?_
      rintro k hk ⟨j, hj, hlt, hkeep⟩ ⟨p, hp, hlt', hkeep'⟩
      have hmul : i * n ≤ k * n := Nat.mul_le_mul_right n hk
      exact absurd ⟨⟨j, by omega, hlt, hkeep⟩, p, by omega, hlt', hkeep'⟩ hsome

/-- **Records keep their parts exactly if every block that still counts is kept or dropped as a
whole.** -/
theorem zipBlocks_aligned_iff (hn : 0 < n) (keep keepPart : Nat → Bool) (numRecords numParts : Nat) :
    (∀ p ∈ zipBlocks n ((List.range numRecords).filter keep) ((List.range numParts).filter keepPart),
      p.2 = blockPositions n numParts p.1) ↔ WholeBlocks keep keepPart n numRecords numParts := by
  have h : AlignedFrom keep keepPart n numRecords numParts 0 ↔
      WholeBlocksFrom keep keepPart n numRecords numParts 0 :=
    alignedFrom_iff hn numRecords 0 (Nat.le_of_eq (Nat.zero_add numRecords).symm)
  unfold AlignedFrom keptFrom at h
  rw [Nat.zero_mul, Nat.sub_zero, Nat.sub_zero, ← List.range_eq_range', ← List.range_eq_range'] at h
  exact h

end Aligned

end PyMotor
