import PyMotor.Conductor.Wire

/-!
# The two decoders of block hashes

A block hash comes as an integer, as decimal or hexadecimal text, or as bytes. Engine events are read
as msgpack values, and `flex_hash_from_rmpv` makes a hash of a value (`events/vllm.rs`). Pool events
are deserialized directly, and the visitor of `FlexHash` is called with what the deserializer finds
(`events/flex_hash.rs`); which of its methods is called for a value is up to the deserializer, of
which `Dispatches` states what it documents.

The decoders differ on byte strings of more than eight bytes: the first takes the last eight of them,
the second refuses. On all other values they agree (`decoders_agree`).
-/

namespace PyMotor.Conductor

/-! ## Engine events -/

def flexHashFromRmpv : Rmpv.Value → Option UInt64
  | .integer i => i.asU64
  | .string s =>
    let s := trim (s.asStr.getD "").toList
    match (stripPrefix ['0', 'x'] s).orElse fun _ => stripPrefix ['0', 'X'] s with
    | some hex => (fromStrRadix 16 hex).toOption
    | none =>
      match fromStrRadix 10 s with
      | .ok n => some n
      | .error _ => (fromStrRadix 16 s).toOption
  | .binary b =>
    if 8 < b.length then
      let start := b.length - 8
      let usable := min (b.length - start) 8
      some (fromBeBytes (List.replicate (8 - usable) 0 ++ (b.drop start).take usable))
    else some (fromBeBytes (List.replicate (8 - b.length) 0 ++ b))
  | _ => none

/-! ## Pool events -/

namespace FlexHash

/-- Why a value is refused: for a reason of the visitor's, or because it expects another type. -/
inductive DeError where
  | custom (message : String)
  | invalidType (expecting : String)
  deriving DecidableEq, Repr

def expecting : String := "a u64, decimal/hex string, or up to 8 bytes"

def visitU64 (v : UInt64) : Except DeError UInt64 := .ok v

def visitI64 (v : Int) : Except DeError UInt64 :=
  if v < 0 then .error (.custom ("negative hash: " ++ toString v)) else .ok (UInt64.ofNat v.toNat)

def visitStr (v : String) : Except DeError UInt64 :=
  let s := trim v.toList
  match (stripPrefix ['0', 'x'] s).orElse fun _ => stripPrefix ['0', 'X'] s with
  | some hex =>
    (fromStrRadix 16 hex).mapError fun e =>
      .custom ("invalid hex hash '" ++ v ++ "': " ++ e.text)
  | none =>
    match fromStrRadix 10 s with
    | .ok n => .ok n
    | .error _ =>
      (fromStrRadix 16 s).mapError fun _ =>
        .custom ("invalid hash '" ++ v ++ "': expected u64, hex, or 0x-prefixed")

def bytesToFlex (v : List UInt8) : Except DeError UInt64 :=
  if 8 < v.length then
    .error (.custom ("hash bytes too long: " ++ toString v.length ++ " > 8"))
  else .ok (fromBeBytes (List.replicate (8 - v.length) 0 ++ v))

def visitBytes (v : List UInt8) : Except DeError UInt64 := bytesToFlex v

/-- What a deserializer calls a visitor with. -/
inductive Visit where
  | u64 (v : UInt64)
  | i64 (v : Int)
  | str (v : String)
  | bytes (v : List UInt8)
  /-- One of the methods that the visitor of `FlexHash` does not implement. -/
  | other
  deriving DecidableEq, Repr

def visit : Visit → Except DeError UInt64
  | .u64 v => visitU64 v
  | .i64 v => visitI64 v
  | .str v => visitStr v
  | .bytes v => visitBytes v
  | .other => .error (.invalidType expecting)

def deserialize (deserializeAny : Rmpv.Value → Visit) (v : Rmpv.Value) : Except DeError UInt64 :=
  visit (deserializeAny v)

/-- **The deserializer of msgpack** calls the method of the type that it finds. An integer that is not
negative may be encoded as a signed one. Nothing is said about a string that is not UTF-8. -/
structure Dispatches (deserializeAny : Rmpv.Value → Visit) : Prop where
  integer : ∀ i : Rmpv.Integer,
    (0 ≤ i.val ∧ deserializeAny (.integer i) = .u64 (UInt64.ofNat i.val.toNat)) ∨
      (i.val < 9223372036854775808 ∧ deserializeAny (.integer i) = .i64 i.val)
  text : ∀ s, deserializeAny (.string (.text s)) = .str s
  binary : ∀ b, deserializeAny (.binary b) = .bytes b
  nil : deserializeAny .nil = .other
  boolean : ∀ b, deserializeAny (.boolean b) = .other
  f32 : ∀ bits, deserializeAny (.f32 bits) = .other
  f64 : ∀ bits, deserializeAny (.f64 bits) = .other
  array : ∀ elems, deserializeAny (.array elems) = .other
  map : ∀ entries, deserializeAny (.map entries) = .other
  ext : ∀ type bytes, deserializeAny (.ext type bytes) = .other

end FlexHash

/-! ## Agreement -/

open FlexHash

variable {deserializeAny : Rmpv.Value → Visit}

theorem visitI64_toOption (i : Rmpv.Integer) : (visitI64 i.val).toOption = i.asU64 := by
  unfold visitI64 Rmpv.Integer.asU64
  by_cases hneg : i.val < 0
  · rw [if_pos hneg, if_neg (by omega)]
    rfl
  · rw [if_neg hneg, if_pos (by omega)]
    rfl

theorem toOption_mapError {ε ε' α : Type} (f : ε → ε') (x : Except ε α) :
    (x.mapError f).toOption = x.toOption := by
  cases x <;> rfl

theorem visitStr_toOption (s : String) :
    (visitStr s).toOption = flexHashFromRmpv (.string (.text s)) := by
  unfold visitStr flexHashFromRmpv
  simp only [Rmpv.Utf8String.asStr, Option.getD_some]
  split
  · exact toOption_mapError ..
  · split
    · rfl
    · exact toOption_mapError ..

theorem visitBytes_toOption {b : List UInt8} (h : b.length ≤ 8) :
    (visitBytes b).toOption = flexHashFromRmpv (.binary b) := by
  have hlong : ¬ 8 < b.length := Nat.not_lt.mpr h
  rw [visitBytes, bytesToFlex, flexHashFromRmpv, if_neg hlong, if_neg hlong]
  rfl

/-- More than eight bytes: the last eight of them count for an engine, none for a pool. -/
theorem long_binary {b : List UInt8} (h : 8 < b.length) :
    flexHashFromRmpv (.binary b) = some (fromBeBytes (b.drop (b.length - 8))) ∧
      (visitBytes b).toOption = none := by
  constructor
  · have husable : min (b.length - (b.length - 8)) 8 = 8 := by omega
    have hall : (b.drop (b.length - 8)).take 8 = b.drop (b.length - 8) := by
      rw [List.take_of_length_le]
      rw [List.length_drop]
      omega
    simp only [flexHashFromRmpv, h, ↓reduceIte, husable, hall, Nat.sub_self, List.replicate_zero,
      List.nil_append]
  · rw [visitBytes, bytesToFlex, if_pos h]
    rfl

/-- **The decoders agree** on every value except a byte string that is too long (and a string that is
not text, on which the deserializer decides): both refuse it, or both read the same number. -/
theorem decoders_agree (hd : Dispatches deserializeAny) :
    (∀ v, (∀ b, v = .binary b → b.length ≤ 8) → (∀ bytes, v ≠ .string (.invalid bytes)) →
      (deserialize deserializeAny v).toOption = flexHashFromRmpv v) ∧
    ∀ b : List UInt8, 8 < b.length →
      flexHashFromRmpv (.binary b) = some (fromBeBytes (b.drop (b.length - 8))) ∧
        (deserialize deserializeAny (.binary b)).toOption = none := by
  constructor
  · intro v hshort htext
    unfold deserialize
    cases v with
    | integer i =>
      rcases hd.integer i with ⟨hpos, hcall⟩ | ⟨-, hcall⟩
      · rw [hcall, flexHashFromRmpv, Rmpv.Integer.asU64, if_pos hpos]
        rfl
      · rw [hcall]
        exact visitI64_toOption i
    | string s =>
      cases s with
      | text s =>
        rw [hd.text]
        exact visitStr_toOption s
      | invalid bytes => exact absurd rfl (htext bytes)
    | binary b =>
      rw [hd.binary]
      exact visitBytes_toOption (hshort b rfl)
    | nil => rw [hd.nil]; rfl
    | boolean b => rw [hd.boolean]; rfl
    | f32 bits => rw [hd.f32]; rfl
    | f64 bits => rw [hd.f64]; rfl
    | array elems => rw [hd.array]; rfl
    | map entries => rw [hd.map]; rfl
    | ext type bytes => rw [hd.ext]; rfl
  · intro b h
    rw [deserialize, hd.binary]
    exact long_binary h

/-- A deserializer as documented; a string that is not text goes on as bytes. -/
def rmpSerde : Rmpv.Value → Visit
  | .integer i => if 0 ≤ i.val then .u64 (UInt64.ofNat i.val.toNat) else .i64 i.val
  | .string (.text s) => .str s
  | .string (.invalid bytes) => .bytes bytes
  | .binary b => .bytes b
  | _ => .other

theorem rmpSerde_dispatches : Dispatches rmpSerde where
  integer i := by
    unfold rmpSerde
    by_cases hpos : 0 ≤ i.val
    · exact Or.inl ⟨hpos, if_pos hpos⟩
    · exact Or.inr ⟨by omega, if_neg hpos⟩
  text _ := rfl
  binary _ := rfl
  nil := rfl
  boolean _ := rfl
  f32 _ := rfl
  f64 _ := rfl
  array _ := rfl
  map _ := rfl
  ext _ _ := rfl

/-- The text of a number is read alike, whatever its form. -/
theorem decoders_agree_on_hex :
    Dispatches rmpSerde ∧ (deserialize rmpSerde (.string (.text " 0xABCD"))).toOption =
      flexHashFromRmpv (.string (.text " 0xABCD")) :=
  ⟨rmpSerde_dispatches, (decoders_agree rmpSerde_dispatches).1 _ (fun _ h => by cases h)
    (fun _ h => by cases h)⟩

/-- Nine bytes are a hash for the one decoder and an error for the other. -/
theorem decoders_differ_on_long_binary :
    flexHashFromRmpv (.binary [9, 0, 0, 0, 0, 0, 0, 0, 1]) = some 1 ∧
      deserialize rmpSerde (.binary [9, 0, 0, 0, 0, 0, 0, 0, 1]) =
        .error (.custom "hash bytes too long: 9 > 8") ∧
      ¬ ∀ v, (deserialize rmpSerde v).toOption = flexHashFromRmpv v := by
  refine ⟨by decide, by rfl, fun h => ?_⟩
  have := h (.binary [9, 0, 0, 0, 0, 0, 0, 0, 1])
  revert this
  decide

end PyMotor.Conductor
