import PyMotor.Lib.Framing

/-!
# Forwarding a stream

The answer of an engine arrives in network chunks and goes on in frames
(`router/strategies/base.py`, `forward_stream_request`): bytes are kept until a delimiter of server-sent
events is complete, an empty line with either line ending. The search for the two delimiters starts
anew with every chunk and compares where they begin, not where they end.

`forwardStream_eq_iff` says what the frames are, in terms of the stream alone.
-/

namespace PyMotor.Router

open Framing (Cutter First Framed)

/-! ## Bytes -/

/-- `bytes.find`: where the pattern first occurs. -/
def find (pattern : List UInt8) : List UInt8 → Option ℕ
  | [] => if pattern = [] then some 0 else none
  | b :: bytes => if pattern <+: b :: bytes then some 0 else (find pattern bytes).map (· + 1)

theorem find_eq_some {pattern bytes : List UInt8} {i : ℕ} : find pattern bytes = some i ↔
    pattern <+: bytes.drop i ∧ i ≤ bytes.length ∧ ∀ j < i, ¬ pattern <+: bytes.drop j := by
  induction bytes generalizing i with
  | nil =>
    simp only [find, Option.ite_none_right_eq_some, Option.some.injEq, List.drop_nil,
      List.prefix_nil, List.length_nil, Nat.le_zero]
    constructor
    · rintro ⟨rfl, rfl⟩
      exact ⟨rfl, rfl, by simp⟩
    · rintro ⟨rfl, rfl, -⟩
      exact ⟨rfl, rfl⟩
  | cons b bytes ih =>
    rw [find]
    split
    · next h =>
      constructor
      · intro hi
        cases hi
        exact ⟨h, Nat.zero_le _, by simp⟩
      · rintro ⟨-, -, hbefore⟩
        cases i with
        | zero => rfl
        | succ i => exact absurd h (hbefore 0 (Nat.succ_pos i))
    · next h =>
      rw [Option.map_eq_some_iff]
      constructor
      · rintro ⟨j, hj, rfl⟩
        obtain ⟨hpattern, hle, hbefore⟩ := ih.mp hj
        refine ⟨hpattern, Nat.succ_le_succ hle, fun k hk => ?_⟩
        cases k with
        | zero => exact h
        | succ k => exact hbefore k (Nat.lt_of_succ_lt_succ hk)
      · rintro ⟨hpattern, hle, hbefore⟩
        cases i with
        | zero => exact absurd hpattern h
        | succ i =>
          exact ⟨i, ih.mpr ⟨hpattern, Nat.le_of_succ_le_succ hle,
            fun k hk => hbefore (k + 1) (Nat.succ_lt_succ hk)⟩, rfl⟩

theorem find_eq_none {pattern bytes : List UInt8} : find pattern bytes = none ↔
    ∀ i ≤ bytes.length, ¬ pattern <+: bytes.drop i := by
  induction bytes with
  | nil => simp [find]
  | cons b bytes ih =>
    rw [find]
    split
    · next h =>
      constructor
      · intro hi
        cases hi
      · exact fun hi => absurd h (hi 0 (Nat.zero_le _))
    · next h =>
      rw [Option.map_eq_none_iff, ih]
      constructor
      · intro hi j hj
        cases j with
        | zero => exact h
        | succ j => exact hi j (Nat.le_of_succ_le_succ hj)
      · exact fun hi j hj => hi (j + 1) (Nat.succ_le_succ hj)

/-! ## Delimiters -/

/-- `b"\n\n"` -/
def lf : List UInt8 := [10, 10]

/-- `b"\r\n\r\n"` -/
def crlf : List UInt8 := [13, 10, 13, 10]

/-- Where the first delimiter begins, and how long it is. -/
def findDelimiter (pending : List UInt8) : Option (ℕ × ℕ) :=
  match find lf pending, find crlf pending with
  | none, none => none
  | some i, none => some (i, 2)
  | none, some j => some (j, 4)
  | some i, some j => if j < i then some (j, 4) else some (i, 2)

/-- The first frame of what is pending, and the rest. -/
def cutFrame (pending : List UInt8) : Option (List UInt8 × List UInt8) :=
  (findDelimiter pending).map fun d => (pending.take (d.1 + d.2), pending.drop (d.1 + d.2))

/-- A delimiter is complete at the end. -/
def Delimited (frame : List UInt8) : Prop := lf <:+ frame ∨ crlf <:+ frame

instance (frame : List UInt8) : Decidable (Delimited frame) :=
  inferInstanceAs (Decidable (lf <:+ frame ∨ crlf <:+ frame))

theorem suffix_take_iff {pattern bytes : List UInt8} {n : ℕ} (hn : n ≤ bytes.length) :
    pattern <:+ bytes.take n ↔ pattern.length ≤ n ∧ pattern <+: bytes.drop (n - pattern.length) := by
  constructor
  · rintro ⟨before, h⟩
    have hlength := congrArg List.length h
    rw [List.length_append, List.length_take, Nat.min_eq_left hn] at hlength
    have hstart : n - pattern.length = before.length := by omega
    refine ⟨by omega, bytes.drop n, ?_⟩
    have hsplit : before ++ (pattern ++ bytes.drop n) = bytes := by
      rw [← List.append_assoc, h, List.take_append_drop]
    rw [hstart]
    conv_rhs => rw [← hsplit, List.drop_left]
  · rintro ⟨hle, after, h⟩
    refine ⟨bytes.take (n - pattern.length), ?_⟩
    have hsplit : bytes.take (n - pattern.length) ++ pattern ++ after = bytes := by
      rw [List.append_assoc, h, List.take_append_drop]
    have hlength : (bytes.take (n - pattern.length) ++ pattern).length = n := by
      rw [List.length_append, List.length_take]
      omega
    have htake : (bytes.take (n - pattern.length) ++ pattern ++ after).take n =
        bytes.take (n - pattern.length) ++ pattern := List.take_left' hlength
    rw [hsplit] at htake
    exact htake.symm

theorem delimited_take_iff {bytes : List UInt8} {n : ℕ} (hn : n ≤ bytes.length) :
    Delimited (bytes.take n) ↔
      2 ≤ n ∧ lf <+: bytes.drop (n - 2) ∨ 4 ≤ n ∧ crlf <+: bytes.drop (n - 4) := by
  unfold Delimited
  rw [suffix_take_iff hn, suffix_take_iff hn]
  exact Iff.rfl

theorem prefix_drop_length_le {pattern bytes : List UInt8} {i : ℕ} (hi : i ≤ bytes.length)
    (h : pattern <+: bytes.drop i) : i + pattern.length ≤ bytes.length := by
  have hle := h.length_le
  rw [List.length_drop] at hle
  omega

/-- The short delimiter does not begin within the first half of the long one. -/
theorem not_lf_within_crlf {bytes : List UInt8} {j : ℕ} (h : crlf <+: bytes.drop j) :
    ¬ lf <+: bytes.drop (j + 1) := by
  obtain ⟨after, h⟩ := h
  rw [← List.drop_drop, ← h]
  simp [crlf, lf]

/-- The delimiter that begins first is the one that is complete first. -/
theorem first_of_findDelimiter {pending : List UInt8} {d : ℕ × ℕ} (h : findDelimiter pending = some d) :
    d.1 + d.2 ≤ pending.length ∧ First Delimited (pending.take (d.1 + d.2)) := by
  have hlf : ∀ {i}, find lf pending = some i → i + 2 ≤ pending.length ∧
      lf <+: pending.drop i ∧ ∀ k < i, ¬ lf <+: pending.drop k := by
    intro i hi
    obtain ⟨hpattern, hle, hbefore⟩ := find_eq_some.mp hi
    exact ⟨prefix_drop_length_le hle hpattern, hpattern, hbefore⟩
  have hcrlf : ∀ {j}, find crlf pending = some j → j + 4 ≤ pending.length ∧
      crlf <+: pending.drop j ∧ ∀ k < j, ¬ crlf <+: pending.drop k := by
    intro j hj
    obtain ⟨hpattern, hle, hbefore⟩ := find_eq_some.mp hj
    exact ⟨prefix_drop_length_le hle hpattern, hpattern, hbefore⟩
  -- the short delimiter is complete first if the long one does not begin before it
  have hshort : ∀ {i}, find lf pending = some i → (∀ k < i, ¬ crlf <+: pending.drop k) →
      i + 2 ≤ pending.length ∧ First Delimited (pending.take (i + 2)) := by
    intro i hi hno
    obtain ⟨hle, hpattern, hbefore⟩ := hlf hi
    refine ⟨hle, (Framing.first_take_iff hle).mpr ⟨?_, fun n hn => ?_⟩⟩
    · rw [delimited_take_iff hle]
      exact Or.inl ⟨by omega, by simpa using hpattern⟩
    · rw [delimited_take_iff (by omega)]
      rintro (⟨h2, hpre⟩ | ⟨h4, hpre⟩)
      · exact hbefore (n - 2) (by omega) hpre
      · exact hno (n - 4) (by omega) hpre
  have hlong : ∀ {j}, find crlf pending = some j → (∀ k ≤ j, ¬ lf <+: pending.drop k) →
      j + 4 ≤ pending.length ∧ First Delimited (pending.take (j + 4)) := by
    intro j hj hno
    obtain ⟨hle, hpattern, hbefore⟩ := hcrlf hj
    refine ⟨hle, (Framing.first_take_iff hle).mpr ⟨?_, fun n hn => ?_⟩⟩
    · rw [delimited_take_iff hle]
      exact Or.inr ⟨by omega, by simpa using hpattern⟩
    · rw [delimited_take_iff (by omega)]
      rintro (⟨h2, hpre⟩ | ⟨h4, hpre⟩)
      · by_cases hwithin : n - 2 = j + 1
        · exact not_lf_within_crlf hpattern (hwithin ▸ hpre)
        · exact hno (n - 2) (by omega) hpre
      · exact hbefore (n - 4) (by omega) hpre
  unfold findDelimiter at h
  cases hi : find lf pending with
  | none =>
    cases hj : find crlf pending with
    | none =>
      rw [hi, hj] at h
      cases h
    | some j =>
      rw [hi, hj] at h
      cases h
      refine hlong hj fun k hk => find_eq_none.mp hi k ?_
      have := (hcrlf hj).1
      omega
  | some i =>
    cases hj : find crlf pending with
    | none =>
      rw [hi, hj] at h
      cases h
      refine hshort hi fun k hk => find_eq_none.mp hj k ?_
      have := (hlf hi).1
      omega
    | some j =>
      rw [hi, hj] at h
      simp only at h
      split at h
      · next hlt =>
        cases h
        exact hlong hj fun k hk => (hlf hi).2.2 k (by omega)
      · next hge =>
        cases h
        exact hshort hi fun k hk => (hcrlf hj).2.2 k (by omega)

theorem findDelimiter_eq_none {pending : List UInt8} (h : findDelimiter pending = none) {n : ℕ}
    (hn : n ≤ pending.length) : ¬ Delimited (pending.take n) := by
  have hnone : find lf pending = none ∧ find crlf pending = none := by
    unfold findDelimiter at h
    split at h
    · next hi hj => exact ⟨hi, hj⟩
    · cases h
    · cases h
    · split at h <;> cases h
  rw [delimited_take_iff hn]
  rintro (⟨h2, hpre⟩ | ⟨h4, hpre⟩)
  · exact find_eq_none.mp hnone.1 _ (by omega) hpre
  · exact find_eq_none.mp hnone.2 _ (by omega) hpre

theorem cutFrame_eq_some {s f r : List UInt8} :
    cutFrame s = some (f, r) ↔ First Delimited f ∧ f ++ r = s := by
  unfold cutFrame
  constructor
  · intro h
    obtain ⟨d, hd, heq⟩ := Option.map_eq_some_iff.mp h
    cases heq
    exact ⟨(first_of_findDelimiter hd).2, List.take_append_drop _ s⟩
  · rintro ⟨hfirst, rfl⟩
    cases hd : findDelimiter (f ++ r) with
    | none =>
      have hnot := findDelimiter_eq_none hd (n := f.length) (by simp)
      rw [List.take_left] at hnot
      exact absurd hfirst.holds hnot
    | some d =>
      obtain ⟨hf, hr⟩ := (first_of_findDelimiter hd).2.eq hfirst (List.take_append_drop _ _)
      rw [Option.map_some, hf, hr]

/-! ## The stream -/

def frameCutter : Cutter Delimited where
  cut := cutFrame
  cut_eq_some := cutFrame_eq_some
  not_nil := by decide

/-- What is yielded for a stream that arrives in chunks. -/
def forwardStream (chunks : List (List UInt8)) : List (List UInt8) :=
  Cutter.close (frameCutter.feed [] chunks)

/-- **What is yielded are the frames of the stream**, whatever the chunks. -/
theorem forwardStream_eq_iff {chunks frames : List (List UInt8)} :
    forwardStream chunks = frames ↔ Framed Delimited frames chunks.flatten := by
  unfold forwardStream
  rw [frameCutter.feed_eq rfl, List.nil_append]
  exact frameCutter.framed_iff

/-- **The frames do not depend on the chunks**: together they are the stream, all but the last end with
a delimiter, and none contains one before its end. -/
theorem forwardStream_chunking (chunks : List (List UInt8)) :
    forwardStream chunks = forwardStream [chunks.flatten] ∧
      (forwardStream chunks).flatten = chunks.flatten ∧
      (∀ frame ∈ (forwardStream chunks).dropLast, Delimited frame) ∧
      ∀ frame ∈ forwardStream chunks, frame ≠ [] ∧
        ∀ before, before <+: frame → before ≠ frame → ¬ Delimited before := by
  have hframed : Framed Delimited (forwardStream chunks) chunks.flatten := forwardStream_eq_iff.mp rfl
  have hwhole : Framed Delimited (forwardStream chunks) [chunks.flatten].flatten := by
    rwa [List.flatten_singleton]
  exact ⟨(forwardStream_eq_iff.mpr hwhole).symm, hframed.flatten, hframed.finished,
    fun frame hframe => ⟨hframed.ne_nil frame hframe, hframed.before frame hframe⟩⟩

end PyMotor.Router
