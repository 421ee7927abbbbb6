import Mathlib.Logic.Basic

/-!
# Values on the wire

The msgpack values that events consist of (`rmpv::Value`), and the conversions of the standard library
that turn text and bytes into numbers. A msgpack integer is signed or unsigned with 64 bits. A string
is not checked by the decoder of values: it is text if its bytes are UTF-8.
-/

namespace PyMotor.Conductor

namespace Rmpv

/-- An integer of 64 bits, signed or not. -/
structure Integer where
  val : Int
  lower : -9223372036854775808 ≤ val
  upper : val < 18446744073709551616
  deriving DecidableEq

namespace Integer

def asU64 (i : Integer) : Option UInt64 :=
  if 0 ≤ i.val then some (UInt64.ofNat i.val.toNat) else none

def asI64 (i : Integer) : Option Int :=
  if i.val < 9223372036854775808 then some i.val else none

end Integer

inductive Utf8String where
  | text (s : String)
  | invalid (bytes : List UInt8)
  deriving DecidableEq

def Utf8String.asStr : Utf8String → Option String
  | .text s => some s
  | .invalid _ => none

inductive Value where
  | nil
  | boolean (b : Bool)
  | integer (i : Integer)
  | f32 (bits : UInt32)
  | f64 (bits : UInt64)
  | string (s : Utf8String)
  | binary (bytes : List UInt8)
  | array (elems : List Value)
  | map (entries : List (Value × Value))
  | ext (type : Int) (bytes : List UInt8)

namespace Value

def isNil : Value → Bool
  | nil => true
  | _ => false

def isArray : Value → Bool
  | array _ => true
  | _ => false

def isInteger : Value → Bool
  | integer _ => true
  | _ => false

def isString : Value → Bool
  | string _ => true
  | _ => false

def asArray : Value → Option (List Value)
  | array elems => some elems
  | _ => none

def asU64 : Value → Option UInt64
  | integer i => i.asU64
  | _ => none

def asI64 : Value → Option Int
  | integer i => i.asI64
  | _ => none

def asStr : Value → Option String
  | string s => s.asStr
  | _ => none

/-- A value of type `u64`. -/
def ofU64 (n : UInt64) : Value :=
  integer ⟨n.toNat, by omega, by have := n.toNat_lt; omega⟩

/-- A value of type `i64`. -/
def ofI64 (n : Int64) : Value :=
  integer ⟨n.toInt, n.le_toInt, by have := n.toInt_lt; omega⟩

/-- A value of type `u32`. -/
def ofU32 (n : UInt32) : Value := ofU64 n.toUInt64

def ofStr (s : String) : Value := string (.text s)

@[simp] theorem asU64_ofU64 (n : UInt64) : (ofU64 n).asU64 = some n := by
  simp [ofU64, asU64, Integer.asU64]

@[simp] theorem asI64_ofI64 (n : Int64) : (ofI64 n).asI64 = some n.toInt := by
  have := n.toInt_lt
  simp only [ofI64, asI64, Integer.asI64]
  rw [if_pos (by omega)]

@[simp] theorem asStr_ofStr (s : String) : (ofStr s).asStr = some s := rfl

end Value

end Rmpv

/-! ## Numbers from text -/

/-- Why a text is not a number. -/
inductive IntErrorKind where
  | empty
  | invalidDigit
  | posOverflow
  deriving DecidableEq, Repr

def IntErrorKind.text : IntErrorKind → String
  | .empty => "cannot parse integer from empty string"
  | .invalidDigit => "invalid digit found in string"
  | .posOverflow => "number too large to fit in target type"

def toDigit (radix : Nat) (c : Char) : Option Nat :=
  let digit :=
    if '0' ≤ c ∧ c ≤ '9' then c.toNat - '0'.toNat
    else if 'a' ≤ c ∧ c ≤ 'z' then c.toNat - 'a'.toNat + 10
    else if 'A' ≤ c ∧ c ≤ 'Z' then c.toNat - 'A'.toNat + 10
    else radix
  if digit < radix then some digit else none

/-- Multiply and add, checked at every digit. -/
def digitsLoop (radix acc : Nat) : List Char → Except IntErrorKind UInt64
  | [] => .ok (UInt64.ofNat acc)
  | c :: cs =>
    match toDigit radix c with
    | none => .error .invalidDigit
    | some digit =>
      if acc * radix + digit < 18446744073709551616 then digitsLoop radix (acc * radix + digit) cs
      else .error .posOverflow

/-- `u64::from_str_radix`: digits, after a `+` that may be left out. -/
def fromStrRadix (radix : Nat) : List Char → Except IntErrorKind UInt64
  | [] => .error .empty
  | ['+'] | ['-'] => .error .invalidDigit
  | '+' :: digits => digitsLoop radix 0 digits
  | digits => digitsLoop radix 0 digits

/-- The property `White_Space` of Unicode. -/
def isWhiteSpace (c : Char) : Bool :=
  let n := c.toNat
  decide ((9 ≤ n ∧ n ≤ 13) ∨ n ∈ [0x20, 0x85, 0xA0, 0x1680, 0x2028, 0x2029, 0x202F, 0x205F, 0x3000] ∨
    (0x2000 ≤ n ∧ n ≤ 0x200A))

/-- `str::trim`. -/
def trim (s : List Char) : List Char :=
  ((s.dropWhile isWhiteSpace).reverse.dropWhile isWhiteSpace).reverse

/-- What follows a prefix. -/
def stripPrefix : List Char → List Char → Option (List Char)
  | [], s => some s
  | _ :: _, [] => none
  | c :: cs, x :: xs => if c = x then stripPrefix cs xs else none

/-! ## Numbers from bytes -/

/-- The number whose bytes these are, the highest first. -/
def fromBeBytes (bytes : List UInt8) : UInt64 :=
  UInt64.ofNat (bytes.foldl (fun acc b => acc * 256 + b.toNat) 0)

end PyMotor.Conductor
