import Mathlib.Data.Nat.ModEq
import Mathlib.Tactic.Positivity
import Mathlib.Tactic.Ring

/-!
# Packed records

A record packed into bytes as Python's `struct` does it, little-endian and without alignment: its fields one
after the other, each of a fixed width, signed or unsigned, with padding between them. A number that does not
fit its field is not packed.

What is packed is unpacked again (`unpack_pack`), and the fields of a record lie side by side: a record of two
parts is unpacked part by part (`unpack_append`). A write into a buffer changes what lies there and nothing else
(`slice_splice_self`, `slice_splice_of_disjoint`).
-/

namespace PyMotor

/-! ## Numbers -/

/-- The lowest `width` bytes of a number, the lowest first. -/
def leBytes : ℕ → ℕ → List UInt8
  | 0, _ => []
  | width + 1, n => UInt8.ofNat (n % 256) :: leBytes width (n / 256)

def leNat : List UInt8 → ℕ
  | [] => 0
  | b :: bytes => b.toNat + 256 * leNat bytes

@[simp] theorem length_leBytes (width n : ℕ) : (leBytes width n).length = width := by
  induction width generalizing n with
  | zero => rfl
  | succ width ih => rw [leBytes, List.length_cons, ih]

theorem leNat_leBytes (width n : ℕ) : leNat (leBytes width n) = n % 256 ^ width := by
  induction width generalizing n with
  | zero => rw [leBytes, leNat, pow_zero, Nat.mod_one]
  | succ width ih =>
    have hbyte : (UInt8.ofNat (n % 256)).toNat = n % 256 := by
      rw [UInt8.toNat_ofNat']
      exact Nat.mod_eq_of_lt (Nat.mod_lt n (by decide))
    rw [leBytes, leNat, ih, hbyte, pow_succ', Nat.mod_mul]

/-! ## Fields -/

inductive Field where
  | unsigned (width : ℕ)
  | signed (width : ℕ)
  /-- Padding, which has no value. -/
  | pad (width : ℕ)
  deriving DecidableEq

namespace Field

def width : Field → ℕ
  | unsigned width => width
  | signed width => width
  | pad width => width

/-- Whether a number is packed. -/
def Fits : Field → ℤ → Prop
  | unsigned width, x => 0 ≤ x ∧ x < 256 ^ width
  | signed width, x => -256 ^ width ≤ 2 * x ∧ 2 * x < 256 ^ width
  | pad _, _ => False

instance (f : Field) (x : ℤ) : Decidable (f.Fits x) := by
  cases f <;> unfold Fits <;> infer_instance

def encode (f : Field) (x : ℤ) : List UInt8 := leBytes f.width (x % 256 ^ f.width).toNat

def decode : Field → List UInt8 → ℤ
  | unsigned _, bytes => leNat bytes
  | signed width, bytes => if 2 * (leNat bytes : ℤ) < 256 ^ width then leNat bytes else leNat bytes - 256 ^ width
  | pad _, _ => 0

@[simp] theorem length_encode (f : Field) (x : ℤ) : (f.encode x).length = f.width := length_leBytes _ _

theorem leNat_encode (f : Field) (x : ℤ) : (leNat (f.encode x) : ℤ) = x % 256 ^ f.width := by
  have hpos : (0 : ℤ) < 256 ^ f.width := by positivity
  have hnonneg : 0 ≤ x % 256 ^ f.width := Int.emod_nonneg x (ne_of_gt hpos)
  rw [encode, leNat_leBytes]
  push_cast
  rw [Int.toNat_of_nonneg hnonneg]
  exact Int.emod_eq_of_lt hnonneg (Int.emod_lt_of_pos x hpos)

/-- **A number that is packed is unpacked again.** -/
theorem decode_encode {f : Field} {x : ℤ} (h : f.Fits x) : f.decode (f.encode x) = x := by
  have hnat := f.leNat_encode x
  cases f with
  | unsigned width =>
    rw [decode, hnat]
    exact Int.emod_eq_of_lt h.1 h.2
  | signed width =>
    obtain ⟨hlow, hhigh⟩ := h
    rw [decode, hnat]
    show (if 2 * (x % 256 ^ width) < 256 ^ width then x % 256 ^ width else x % 256 ^ width - 256 ^ width) = x
    generalize (256 : ℤ) ^ width = m at hlow hhigh
    by_cases hx : 0 ≤ x
    · rw [Int.emod_eq_of_lt hx (by omega), if_pos hhigh]
    · -- a negative number is packed as the one that is larger by a turn
      have hturn : x % m = x + m := by
        rw [← Int.add_emod_right]
        exact Int.emod_eq_of_lt (by omega) (by omega)
      rw [hturn, if_neg (by omega)]
      omega
  | pad width => exact h.elim

end Field

/-! ## Records -/

/-- How many bytes a record has. -/
def calcsize : List Field → ℕ
  | [] => 0
  | f :: fields => f.width + calcsize fields

def pack : List Field → List ℤ → Option (List UInt8)
  | [], [] => some []
  | .pad width :: fields, values => (pack fields values).map (List.replicate width 0 ++ ·)
  | f :: fields, x :: values => if f.Fits x then (pack fields values).map (f.encode x ++ ·) else none
  | _, _ => none

/-- The values of a record, whose length is right. -/
def unpackFields : List Field → List UInt8 → List ℤ
  | [], _ => []
  | .pad width :: fields, bytes => unpackFields fields (bytes.drop width)
  | f :: fields, bytes => f.decode (bytes.take f.width) :: unpackFields fields (bytes.drop f.width)

def unpack (fields : List Field) (bytes : List UInt8) : Option (List ℤ) :=
  if bytes.length = calcsize fields then some (unpackFields fields bytes) else none

theorem Field.isPad_or (f : Field) : (∀ width, f ≠ .pad width) ∨ ∃ width, f = .pad width := by
  cases f with
  | unsigned width => exact Or.inl fun _ h => nomatch h
  | signed width => exact Or.inl fun _ h => nomatch h
  | pad width => exact Or.inr ⟨width, rfl⟩

theorem unpackFields_cons {f : Field} (hpad : ∀ width, f ≠ .pad width) (fields : List Field)
    (bytes : List UInt8) : unpackFields (f :: fields) bytes =
      f.decode (bytes.take f.width) :: unpackFields fields (bytes.drop f.width) := by
  cases f with
  | pad width => exact absurd rfl (hpad width)
  | unsigned width => rfl
  | signed width => rfl

theorem unpackFields_pad (width : ℕ) (fields : List Field) (bytes : List UInt8) :
    unpackFields (.pad width :: fields) bytes = unpackFields fields (bytes.drop (Field.pad width).width) := rfl

theorem calcsize_append (fields fields' : List Field) :
    calcsize (fields ++ fields') = calcsize fields + calcsize fields' := by
  induction fields with
  | nil => exact (Nat.zero_add _).symm
  | cons f fields ih => rw [List.cons_append, calcsize, calcsize, ih, Nat.add_assoc]

theorem unpackFields_append (fields fields' : List Field) (bytes : List UInt8) :
    unpackFields (fields ++ fields') bytes =
      unpackFields fields bytes ++ unpackFields fields' (bytes.drop (calcsize fields)) := by
  induction fields generalizing bytes with
  | nil => rfl
  | cons f fields ih =>
    have hdrop : bytes.drop (calcsize (f :: fields)) = (bytes.drop f.width).drop (calcsize fields) :=
      List.drop_drop.symm
    rcases f.isPad_or with hpad | ⟨width, rfl⟩
    · rw [List.cons_append, unpackFields_cons hpad, unpackFields_cons hpad, ih, hdrop, List.cons_append]
    · rw [List.cons_append, unpackFields_pad, unpackFields_pad, ih, hdrop]

/-- What comes after a record does not matter. -/
theorem unpackFields_take (fields : List Field) (bytes : List UInt8) :
    unpackFields fields (bytes.take (calcsize fields)) = unpackFields fields bytes := by
  induction fields generalizing bytes with
  | nil => rfl
  | cons f fields ih =>
    have htake : (bytes.take (calcsize (f :: fields))).take f.width = bytes.take f.width := by
      rw [List.take_take, calcsize, Nat.min_eq_left (Nat.le_add_right _ _)]
    have hdrop : (bytes.take (calcsize (f :: fields))).drop f.width =
        (bytes.drop f.width).take (calcsize fields) := by
      rw [List.drop_take, calcsize, Nat.add_sub_cancel_left]
    rcases f.isPad_or with hpad | ⟨width, rfl⟩
    · rw [unpackFields_cons hpad, unpackFields_cons hpad, htake, hdrop, ih]
    · rw [unpackFields_pad, unpackFields_pad, hdrop, ih]

/-- A field with a value, and the rest of its record. -/
theorem pack_value_cons {f : Field} {fields : List Field} {values : List ℤ} {bytes : List UInt8}
    (hpad : ∀ width, f ≠ .pad width) (h : pack (f :: fields) values = some bytes) :
    ∃ x values' bytes', values = x :: values' ∧ f.Fits x ∧ pack fields values' = some bytes' ∧
      bytes = f.encode x ++ bytes' := by
  cases values with
  | nil =>
    cases f with
    | pad width => exact absurd rfl (hpad width)
    | unsigned width => cases h
    | signed width => cases h
  | cons x values =>
    cases f with
    | pad width => exact absurd rfl (hpad width)
    | unsigned width =>
      simp only [pack] at h
      split at h
      · next hfits =>
        obtain ⟨bytes', hbytes', rfl⟩ := Option.map_eq_some_iff.mp h
        exact ⟨x, values, bytes', rfl, hfits, hbytes', rfl⟩
      · cases h
    | signed width =>
      simp only [pack] at h
      split at h
      · next hfits =>
        obtain ⟨bytes', hbytes', rfl⟩ := Option.map_eq_some_iff.mp h
        exact ⟨x, values, bytes', rfl, hfits, hbytes', rfl⟩
      · cases h

/-- **What is packed is unpacked again**, also when other bytes follow. -/
theorem unpackFields_pack {fields : List Field} : ∀ {values : List ℤ} {bytes : List UInt8},
    pack fields values = some bytes → bytes.length = calcsize fields ∧
      ∀ rest, unpackFields fields (bytes ++ rest) = values := by
  induction fields with
  | nil =>
    intro values bytes h
    cases values with
    | nil =>
      cases h
      exact ⟨rfl, fun _ => rfl⟩
    | cons x values => cases h
  | cons f fields ih =>
    intro values bytes h
    rcases f.isPad_or with hpad | ⟨width, rfl⟩
    · obtain ⟨x, values', bytes', rfl, hfits, hbytes', rfl⟩ := pack_value_cons hpad h
      obtain ⟨hlength, hunpack⟩ := ih hbytes'
      refine ⟨by rw [List.length_append, f.length_encode, hlength, calcsize], fun rest => ?_⟩
      rw [unpackFields_cons hpad, List.append_assoc, List.take_left' (f.length_encode x),
        List.drop_left' (f.length_encode x), Field.decode_encode hfits, hunpack]
    · obtain ⟨bytes', hbytes', rfl⟩ : ∃ bytes', pack fields values = some bytes' ∧
          List.replicate width 0 ++ bytes' = bytes := by
        cases values <;> exact Option.map_eq_some_iff.mp h
      obtain ⟨hlength, hunpack⟩ := ih hbytes'
      refine ⟨by rw [List.length_append, List.length_replicate, hlength]; rfl, fun rest => ?_⟩
      rw [unpackFields, List.append_assoc, List.drop_left' List.length_replicate, hunpack]

/-- Each number fits its field. -/
def Fitting : List Field → List ℤ → Prop
  | [], [] => True
  | .pad _ :: fields, values => Fitting fields values
  | f :: fields, x :: values => f.Fits x ∧ Fitting fields values
  | _, _ => False

/-- A record is packed if its numbers fit, and only then. -/
theorem pack_isSome_iff (fields : List Field) (values : List ℤ) :
    (pack fields values).isSome = true ↔ Fitting fields values := by
  induction fields generalizing values with
  | nil => cases values <;> simp [pack, Fitting]
  | cons f fields ih =>
    cases f with
    | pad width => cases values <;> simp [pack, Fitting, ih]
    | unsigned width =>
      cases values with
      | nil => simp [pack, Fitting]
      | cons x values =>
        by_cases hfits : (Field.unsigned width).Fits x <;> simp [pack, Fitting, hfits, ih]
    | signed width =>
      cases values with
      | nil => simp [pack, Fitting]
      | cons x values =>
        by_cases hfits : (Field.signed width).Fits x <;> simp [pack, Fitting, hfits, ih]

/-! ## Buffers -/

/-- `buf[offset : offset + n]` -/
def slice (buf : List UInt8) (offset n : ℕ) : List UInt8 := (buf.drop offset).take n

/-- `buf[offset : offset + len(data)] = data`, for a buffer of fixed length. -/
def splice (buf : List UInt8) (offset : ℕ) (data : List UInt8) : Option (List UInt8) :=
  if offset + data.length ≤ buf.length then
    some (buf.take offset ++ data ++ buf.drop (offset + data.length))
  else none

section Buffer

variable {buf buf' data : List UInt8} {offset : ℕ}

theorem length_slice {n : ℕ} (h : offset + n ≤ buf.length) : (slice buf offset n).length = n := by
  rw [slice, List.length_take, List.length_drop]
  omega

theorem splice_eq_some (h : splice buf offset data = some buf') : offset + data.length ≤ buf.length ∧
    buf' = buf.take offset ++ data ++ buf.drop (offset + data.length) := by
  unfold splice at h
  split at h
  · next hle => exact ⟨hle, (Option.some.inj h).symm⟩
  · cases h

theorem length_splice (h : splice buf offset data = some buf') : buf'.length = buf.length := by
  obtain ⟨hle, rfl⟩ := splice_eq_some h
  rw [List.length_append, List.length_append, List.length_take, List.length_drop]
  omega

theorem slice_splice_self (h : splice buf offset data = some buf') :
    slice buf' offset data.length = data := by
  obtain ⟨hle, rfl⟩ := splice_eq_some h
  have htake : (buf.take offset).length = offset := List.length_take_of_le (by omega)
  rw [slice, List.append_assoc, List.drop_left' htake, List.take_left' rfl]

/-- A write leaves alone what it does not overlap. -/
theorem slice_splice_of_disjoint (h : splice buf offset data = some buf') {offset' n : ℕ}
    (hdisjoint : offset' + n ≤ offset ∨ offset + data.length ≤ offset') :
    slice buf' offset' n = slice buf offset' n := by
  obtain ⟨hle, rfl⟩ := splice_eq_some h
  apply List.ext_getElem?
  intro i
  unfold slice
  simp only [List.getElem?_take, List.getElem?_drop, List.append_assoc, List.getElem?_append,
    List.length_take]
  split
  · rcases hdisjoint with hbefore | hafter
    · rw [if_pos (by omega), if_pos (by omega)]
    · rw [if_neg (by omega), if_neg (by omega)]
      congr 1
      omega
  · rfl

/-- The fields of a record lie side by side in a buffer. -/
theorem unpackFields_slice_append (fields fields' : List Field) (buf : List UInt8) (offset : ℕ) :
    unpackFields (fields ++ fields') (slice buf offset (calcsize (fields ++ fields'))) =
      unpackFields fields (slice buf offset (calcsize fields)) ++
        unpackFields fields' (slice buf (offset + calcsize fields) (calcsize fields')) := by
  have hdrop : (slice buf offset (calcsize (fields ++ fields'))).drop (calcsize fields) =
      slice buf (offset + calcsize fields) (calcsize fields') := by
    rw [slice, slice, List.drop_take, List.drop_drop, calcsize_append, Nat.add_sub_cancel_left]
  have htake : (slice buf offset (calcsize (fields ++ fields'))).take (calcsize fields) =
      slice buf offset (calcsize fields) := by
    rw [slice, slice, List.take_take, calcsize_append, Nat.min_eq_left (Nat.le_add_right _ _)]
  rw [unpackFields_append, hdrop, ← unpackFields_take fields, htake]

end Buffer

end PyMotor
