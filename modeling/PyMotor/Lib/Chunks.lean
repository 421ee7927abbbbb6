import Mathlib.Data.Rat.Floor

/-!
# Chunks of a list

`chunks n l` cuts `l` into pieces of `n` elements, the last of which may be shorter. Piece `i` starts
at position `i * n`, and there are as many pieces as `n` goes into the length, rounded up. Cutting a
list at a multiple of `n` does not change its pieces (`chunks_append`), so a prefix of whole pieces has
the first of them (`chunks_isPrefix`), and they may as well be cut from larger pieces (`flatMap_chunks`).
-/

namespace PyMotor

universe u

variable {α β : Type u}

/-- Division that rounds up. -/
def divCeil (a b : Nat) : Nat := (a + b - 1) / b

section DivCeil

variable {a b n : Nat}

theorem le_divCeil_mul (hn : 0 < n) : a ≤ divCeil a n * n := by
  have h := Nat.div_add_mod (a + n - 1) n
  have hlt := Nat.mod_lt (a + n - 1) hn
  rw [Nat.mul_comm] at h
  unfold divCeil
  omega

theorem divCeil_mul_lt (hn : 0 < n) : divCeil a n * n < a + n := by
  have h := Nat.div_mul_le_self (a + n - 1) n
  unfold divCeil
  omega

/-- `divCeil a n` is the least number of pieces that reach `a`. -/
theorem divCeil_le_iff {k : Nat} (hn : 0 < n) : divCeil a n ≤ k ↔ a ≤ k * n := by
  constructor
  · intro h
    exact Nat.le_trans (le_divCeil_mul hn) (Nat.mul_le_mul_right n h)
  · intro h
    have hlt := divCeil_mul_lt (a := a) hn
    by_contra hgt
    have hle : (k + 1) * n ≤ divCeil a n * n := Nat.mul_le_mul_right n (Nat.lt_of_not_le hgt)
    rw [Nat.add_mul] at hle
    omega

theorem lt_divCeil_iff {i : Nat} (hn : 0 < n) : i < divCeil a n ↔ i * n < a := by
  rw [← Nat.not_le, ← Nat.not_le, divCeil_le_iff hn]

theorem divCeil_mul_add {k : Nat} (hn : 0 < n) : divCeil (k * n + b) n = k + divCeil b n := by
  have h : k * n + b + n - 1 = b + n - 1 + k * n := by omega
  rw [divCeil, divCeil, h, Nat.add_mul_div_right _ _ hn, Nat.add_comm]

theorem divCeil_mul_eq_iff (hn : 0 < n) : divCeil a n * n = a ↔ n ∣ a := by
  constructor
  · intro h
    exact ⟨divCeil a n, by rw [Nat.mul_comm]; exact h.symm⟩
  · rintro ⟨k, rfl⟩
    have h := divCeil_mul_add (k := k) (b := 0) hn
    have hzero : divCeil 0 n = 0 := Nat.div_eq_of_lt (by omega)
    rw [Nat.add_zero, hzero, Nat.add_zero] at h
    rw [Nat.mul_comm n k, h]

/-- The quotient of the rational numbers, rounded up. -/
theorem divCeil_eq_ceil (hn : 0 < n) : divCeil a n = ⌈(a : ℚ) / n⌉₊ := by
  refine eq_of_forall_ge_iff fun k => ?_
  rw [divCeil_le_iff hn, Nat.ceil_le, div_le_iff₀ (Nat.cast_pos.mpr hn), ← Nat.cast_mul, Nat.cast_le]

end DivCeil

/-- The pieces of `n` elements. -/
def chunks (n : Nat) (l : List α) : List (List α) :=
  (List.range (divCeil l.length n)).map (fun i => (l.drop (i * n)).take n)

variable {n k : Nat} {l l' : List α}

@[simp] theorem length_chunks : (chunks n l).length = divCeil l.length n := by
  simp [chunks]

/-- Piece `i` consists of the positions from `i * n` on. -/
theorem getElem?_chunks {i : Nat} (hi : i < divCeil l.length n) :
    (chunks n l)[i]? = some ((l.drop (i * n)).take n) := by
  simp [chunks, hi]

theorem chunks_map (f : α → β) : chunks n (l.map f) = (chunks n l).map (List.map f) := by
  simp [chunks, Function.comp_def]

theorem chunks_of_length_le (hne : l ≠ []) (hle : l.length ≤ n) : chunks n l = [l] := by
  have hpos : 0 < l.length := List.length_pos_iff.mpr hne
  have hone : divCeil l.length n = 1 := by
    refine Nat.le_antisymm ((divCeil_le_iff (by omega)).mpr (by omega)) ?_
    exact (lt_divCeil_iff (by omega)).mpr (by omega)
  simp [chunks, hone, List.take_of_length_le hle]

/-- **A cut at a multiple of `n`** separates the pieces. -/
theorem chunks_append (hn : 0 < n) (hk : l.length = k * n) :
    chunks n (l ++ l') = chunks n l ++ chunks n l' := by
  have hlen : divCeil l.length n = k := by
    have h := divCeil_mul_add (k := k) (b := 0) hn
    have hzero : divCeil 0 n = 0 := Nat.div_eq_of_lt (by omega)
    rw [hk]
    rwa [Nat.add_zero, hzero, Nat.add_zero] at h
  rw [chunks, chunks, chunks, List.length_append, hk, divCeil_mul_add hn, ← hk, hlen,
    List.range_add, List.map_append, List.map_map]
  congr 1
  · -- the pieces before the cut
    refine List.map_congr_left (fun i hi => ?_)
    have hi' : (i + 1) * n ≤ l.length := hk ▸ Nat.mul_le_mul_right n (List.mem_range.mp hi)
    rw [Nat.add_mul] at hi'
    rw [List.drop_append_of_le_length (by omega), List.take_append_of_le_length]
    rw [List.length_drop]
    omega
  · refine List.map_congr_left (fun i _ => ?_)
    have hdrop : (k + i) * n = l.length + i * n := by rw [Nat.add_mul, hk]
    rw [Function.comp_apply, hdrop, List.drop_append, List.drop_eq_nil_of_le (by omega)]
    simp

theorem chunks_isPrefix (hn : 0 < n) (hfront : l <+: l') (hdvd : n ∣ l.length) :
    chunks n l <+: chunks n l' := by
  obtain ⟨rest, rfl⟩ := hfront
  obtain ⟨k, hk⟩ := hdvd
  rw [chunks_append hn (hk.trans (Nat.mul_comm n k))]
  exact List.prefix_append _ _

/-- **Pieces may be cut from larger pieces.** A larger piece that is shorter than `n` is one piece. -/
theorem flatMap_chunks (hn : 0 < n) (hk : 0 < k) (l : List α) :
    (chunks (n * k) l).flatMap (fun batch => chunks (min n batch.length) batch) = chunks n l := by
  have hpos : 0 < n * k := Nat.mul_pos hn hk
  have hmin : ∀ batch : List α, chunks (min n batch.length) batch = chunks n batch := by
    intro batch
    by_cases hle : n ≤ batch.length
    · rw [Nat.min_eq_left hle]
    · rw [Nat.min_eq_right (by omega)]
      by_cases hne : batch = []
      · subst hne
        simp [chunks, divCeil, Nat.div_eq_of_lt (show n - 1 < n by omega)]
      · rw [chunks_of_length_le hne (Nat.le_refl _), chunks_of_length_le hne (by omega)]
  simp only [hmin]
  -- by induction on the length, a larger piece at a time
  generalize hm : l.length = m
  induction m using Nat.strong_induction_on generalizing l with
  | _ m ih =>
    by_cases hle : l.length ≤ n * k
    · by_cases hne : l = []
      · subst hne
        simp [chunks, divCeil, Nat.div_eq_of_lt (show n - 1 < n by omega),
          Nat.div_eq_of_lt (show n * k - 1 < n * k by omega)]
      · simp [chunks_of_length_le hne hle]
    · have htake : (l.take (n * k)).length = 1 * (n * k) := by
        rw [List.length_take]
        omega
      have htake' : (l.take (n * k)).length = k * n := by
        rw [htake, Nat.one_mul, Nat.mul_comm]
      have hne : l.take (n * k) ≠ [] := by
        intro h
        rw [h, List.length_nil] at htake
        omega
      have hrest := ih (l.drop (n * k)).length (by rw [List.length_drop]; omega) _ rfl
      have hcut : chunks (n * k) (l.take (n * k) ++ l.drop (n * k)) = _ :=
        chunks_append hpos htake
      have hcut' : chunks n (l.take (n * k) ++ l.drop (n * k)) = _ := chunks_append hn htake'
      rw [List.take_append_drop] at hcut hcut'
      rw [hcut, hcut', List.flatMap_append, hrest,
        chunks_of_length_le hne (by omega), List.flatMap_singleton]

end PyMotor
