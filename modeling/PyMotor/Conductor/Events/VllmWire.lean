import PyMotor.Conductor.Events
import PyMotor.Conductor.Events.FlexHash

/-!
# Engine events on the wire

An engine sends an event as an array: the tag, and the fields in a fixed order, with nil for a field
that is absent (`events/vllm.rs`). The decoder drops the nils and gives each of the remaining values to
the next field of a fitting type. For a `BlockRemoved` this inverts the encoding
(`parse_encodeBlockRemoved`). For a `BlockStored` it does so only if every field that is present is kept
apart from the earlier fields of its type by a value between them (`Unambiguous`): a LoRA name without
a medium is read as the medium.
-/

namespace PyMotor.Conductor

open Rmpv (Value)

/-! ## Converters -/

def flexHashesFromRmpv (v : Value) : Option (List UInt64) :=
  v.asArray.map (·.filterMap flexHashFromRmpv)

def i64VecFromRmpv (v : Value) : Option (List Int) := v.asArray.map (·.filterMap Value.asI64)

def u32FromRmpv (v : Value) : Option UInt32 :=
  v.asU64.bind (fun n => if n.toNat < 4294967296 then some n.toUInt32 else none)

/-! ## Decoding -/

/-- The fields of an event, as far as they were found. -/
structure VllmEventMap where
  eventType : String
  blockHashes : Option (List UInt64)
  parentBlockHash : Option UInt64
  tokenIds : Option (List Int)
  blockSize : Option UInt32
  medium : Option String
  groupIdx : Option UInt32
  loraId : Option Int
  loraName : Option String
  kvCacheSpecKind : Option String
  kvCacheSpecSlidingWindow : Option UInt32

namespace VllmEventMap

def empty (eventType : String) : VllmEventMap :=
  ⟨eventType, none, none, none, none, none, none, none, none, none, none⟩

def withRemoved (eventType : String) (blockHashes : Option (List UInt64)) (medium : Option String)
    (groupIdx : Option UInt32) : VllmEventMap :=
  ⟨eventType, blockHashes, none, none, none, medium, groupIdx, none, none, none, none⟩

end VllmEventMap

/-- The value at the cursor goes to the field if it fits, and the cursor moves on. -/
def takeSlot {α : Type} (fits : Value → Bool) (read : Value → Option α) :
    List Value → Option α × List Value
  | [] => (none, [])
  | v :: rest => if fits v then (read v, rest) else (none, v :: rest)

/-- The parser never fails. -/
def parseBlockStoredValues (eventType : String) (values : List Value) : VllmEventMap :=
  let values := values.filter (!·.isNil)
  let (blockHashes, values) := takeSlot Value.isArray flexHashesFromRmpv values
  let (parentBlockHash, values) := takeSlot (!·.isArray) flexHashFromRmpv values
  let (tokenIds, values) := takeSlot Value.isArray i64VecFromRmpv values
  let (blockSize, values) := takeSlot Value.isInteger u32FromRmpv values
  let (loraId, values) := takeSlot Value.isInteger Value.asI64 values
  let (medium, values) := takeSlot Value.isString Value.asStr values
  let (loraName, values) := takeSlot Value.isString Value.asStr values
  -- `extra_keys` are skipped
  let (_, values) := takeSlot Value.isArray Value.asArray values
  let (groupIdx, values) := takeSlot Value.isInteger u32FromRmpv values
  let (kvCacheSpecKind, values) := takeSlot Value.isString Value.asStr values
  let (kvCacheSpecSlidingWindow, _) := takeSlot Value.isInteger u32FromRmpv values
  { eventType, blockHashes, parentBlockHash, tokenIds, blockSize, medium, groupIdx, loraId, loraName,
    kvCacheSpecKind, kvCacheSpecSlidingWindow }

def parseBlockRemovedValues (eventType : String) (values : List Value) : VllmEventMap :=
  let values := values.filter (!·.isNil)
  let (blockHashes, values) := takeSlot Value.isArray flexHashesFromRmpv values
  let (medium, values) := takeSlot Value.isString Value.asStr values
  let (groupIdx, _) := takeSlot Value.isInteger u32FromRmpv values
  .withRemoved eventType blockHashes medium groupIdx

/-- `visit_seq`, after the tag. -/
def parseVllmEvent (eventType : String) (values : List Value) : VllmEventMap :=
  if eventType = "BlockStored" then parseBlockStoredValues eventType values
  else if eventType = "BlockRemoved" then parseBlockRemovedValues eventType values
  else .empty eventType

/-! ## Normalization -/

/-- `char::to_lowercase`, as far as the result is ASCII: outside ASCII the Kelvin sign is the only
character whose lower case is one ASCII letter. -/
def lowerChar (c : Char) : Char := if c = 'K' then 'k' else c.toLower

def isMainAttentionKind (kind : Option String) : Bool :=
  match kind with
  | none => true
  | some kind =>
    let normalized := String.ofList ((kind.toList.filter (· ≠ '_')).map lowerChar)
    if normalized ∈ ["fullattention", "mlaattention", "sinkfullattention"] then true
    else !decide (normalized ∈ ["slidingwindow", "slidingwindowmla", "mamba", "chunkedlocalattention",
      "encoderonlyattention", "crossattention"])

def VllmEventMap.normalize (m : VllmEventMap) : VllmEvent :=
  if m.eventType ≠ "AllBlocksCleared" ∧ !isMainAttentionKind m.kvCacheSpecKind then .ignored
  else if m.eventType = "BlockStored" then
    .blockStored (m.blockHashes.getD []) m.parentBlockHash (m.tokenIds.getD [])
      (m.blockSize.getD 0) m.medium
  else if m.eventType = "BlockRemoved" then .blockRemoved (m.blockHashes.getD []) m.medium
  else if m.eventType = "AllBlocksCleared" then .allBlocksCleared
  else .ignored

/-! ## Encoding -/

/-- A hash together with a value that the decoder reads it from. -/
structure WireHash where
  value : Value
  hash : UInt64
  decodes : flexHashFromRmpv value = some hash

/-- A hash that is sent as an integer. -/
def WireHash.ofU64 (n : UInt64) : WireHash := ⟨.ofU64 n, n, Value.asU64_ofU64 n⟩

/-- The fields of a `BlockStored`. -/
structure BlockStoredFields where
  blockHashes : List WireHash
  parentBlockHash : Option WireHash
  tokenIds : List Int64
  blockSize : UInt32
  loraId : Option Int64
  medium : Option String
  loraName : Option String
  extraKeys : Option (List Value)
  groupIdx : Option UInt32
  kvCacheSpecKind : Option String
  kvCacheSpecSlidingWindow : Option UInt32

/-- The fields of a `BlockRemoved`. -/
structure BlockRemovedFields where
  blockHashes : List WireHash
  medium : Option String
  groupIdx : Option UInt32

/-- Nil for an absent field. -/
def optValue {α : Type} (enc : α → Value) : Option α → Value
  | none => .nil
  | some a => enc a

/-- The array of a `BlockStored`, after the tag. -/
def BlockStoredFields.encode (f : BlockStoredFields) : List Value :=
  [.array (f.blockHashes.map (·.value)), optValue (·.value) f.parentBlockHash,
   .array (f.tokenIds.map .ofI64), .ofU32 f.blockSize, optValue .ofI64 f.loraId,
   optValue .ofStr f.medium, optValue .ofStr f.loraName, optValue .array f.extraKeys,
   optValue .ofU32 f.groupIdx, optValue .ofStr f.kvCacheSpecKind,
   optValue .ofU32 f.kvCacheSpecSlidingWindow]

/-- The array of a `BlockRemoved`, after the tag. -/
def BlockRemovedFields.encode (f : BlockRemovedFields) : List Value :=
  [.array (f.blockHashes.map (·.value)), optValue .ofStr f.medium, optValue .ofU32 f.groupIdx]

/-- `values` is the array `full`, whose trailing nils may be missing. -/
def EncodedAs (full values : List Value) : Prop := ∃ k, values ++ List.replicate k .nil = full

/-- The field values, as the decoder is meant to return them. -/
def BlockStoredFields.toMap (f : BlockStoredFields) : VllmEventMap where
  eventType := "BlockStored"
  blockHashes := some (f.blockHashes.map (·.hash))
  parentBlockHash := f.parentBlockHash.map (·.hash)
  tokenIds := some (f.tokenIds.map (·.toInt))
  blockSize := some f.blockSize
  medium := f.medium
  groupIdx := f.groupIdx
  loraId := f.loraId.map (·.toInt)
  loraName := f.loraName
  kvCacheSpecKind := f.kvCacheSpecKind
  kvCacheSpecSlidingWindow := f.kvCacheSpecSlidingWindow

def BlockRemovedFields.toMap (f : BlockRemovedFields) : VllmEventMap :=
  .withRemoved "BlockRemoved" (some (f.blockHashes.map (·.hash))) f.medium f.groupIdx

/-! ## Values of the fields -/

section Fields

@[simp] theorem isNil_ofU32 (n : UInt32) : (Value.ofU32 n).isNil = false := rfl
@[simp] theorem isNil_ofI64 (n : Int64) : (Value.ofI64 n).isNil = false := rfl
@[simp] theorem isNil_ofStr (s : String) : (Value.ofStr s).isNil = false := rfl

@[simp] theorem u32FromRmpv_ofU32 (n : UInt32) : u32FromRmpv (.ofU32 n) = some n := by
  have hlt := n.toNat_lt
  simp only [u32FromRmpv, Value.ofU32, Value.asU64_ofU64, Option.bind_some]
  rw [if_pos (by simpa using hlt)]
  simp

theorem WireHash.not_nil (h : WireHash) : h.value.isNil = false := by
  have hd := h.decodes
  cases hv : h.value with
  | nil =>
    rw [hv] at hd
    cases hd
  | _ => rfl

theorem WireHash.not_array (h : WireHash) : h.value.isArray = false := by
  have hd := h.decodes
  cases hv : h.value with
  | array elems =>
    rw [hv] at hd
    cases hd
  | _ => rfl

@[simp] theorem flexHashesFromRmpv_array (hs : List WireHash) :
    flexHashesFromRmpv (.array (hs.map (·.value))) = some (hs.map (·.hash)) := by
  have hall : (hs.map (·.value)).filterMap flexHashFromRmpv = hs.map (·.hash) := by
    induction hs with
    | nil => rfl
    | cons h hs ih => simp [h.decodes, ih]
  rw [flexHashesFromRmpv, Value.asArray, Option.map_some, hall]

@[simp] theorem i64VecFromRmpv_array (ts : List Int64) :
    i64VecFromRmpv (.array (ts.map .ofI64)) = some (ts.map (·.toInt)) := by
  have hall : (ts.map Value.ofI64).filterMap Value.asI64 = ts.map (·.toInt) := by
    induction ts with
    | nil => rfl
    | cons t ts ih => simp [ih]
  rw [i64VecFromRmpv, Value.asArray, Option.map_some, hall]

/-- The values of a field that may be absent, without nil. -/
def present {α : Type} (enc : α → Value) (o : Option α) : List Value := (o.map enc).toList

theorem filter_encodedAs {full values : List Value} (h : EncodedAs full values) :
    values.filter (!·.isNil) = full.filter (!·.isNil) := by
  obtain ⟨k, rfl⟩ := h
  rw [List.filter_append, List.filter_replicate]
  simp [Value.isNil]

theorem filter_optValue {α : Type} {enc : α → Value} (henc : ∀ a, (enc a).isNil = false)
    (o : Option α) (rest : List Value) :
    (optValue enc o :: rest).filter (!·.isNil) = present enc o ++ rest.filter (!·.isNil) := by
  cases o with
  | none => rfl
  | some a => simp [optValue, present, henc]

theorem filter_value {v : Value} (h : v.isNil = false) (rest : List Value) :
    (v :: rest).filter (!·.isNil) = v :: rest.filter (!·.isNil) := by
  rw [List.filter_cons, h]
  rfl

end Fields

/-! ## Slots -/

section Slots

variable {α β : Type} {fits : Value → Bool} {read : Value → Option β} {v : Value}
  {rest : List Value} {enc : α → Value} {out : α → β} {o : Option α}

theorem takeSlot_cons_of_fits (h : fits v = true) : takeSlot fits read (v :: rest) = (read v, rest) :=
  if_pos h

theorem takeSlot_cons_of_not_fits (h : fits v = false) :
    takeSlot fits read (v :: rest) = (none, v :: rest) := by
  rw [takeSlot, h, if_neg Bool.false_ne_true]

/-- The next value would fit. -/
def headFits (fits : Value → Bool) (rest : List Value) : Bool := rest.head?.any fits

theorem headFits_present {c : Bool} (hc : ∀ a, fits (enc a) = c) :
    headFits fits (present enc o ++ rest) = if o.isSome then c else headFits fits rest := by
  cases o with
  | none => rfl
  | some a => exact hc a

theorem takeSlot_of_not_headFits (h : headFits fits rest = false) :
    takeSlot fits read rest = (none, rest) := by
  cases rest with
  | nil => rfl
  | cons v rest => exact takeSlot_cons_of_not_fits h

/-- A field that is present is taken; an absent one leaves the cursor, unless the next value fits. -/
theorem takeSlot_present (hfits : ∀ a, fits (enc a) = true) (hread : ∀ a, read (enc a) = some (out a))
    (hrest : headFits fits rest = true → o.isSome = true) :
    takeSlot fits read (present enc o ++ rest) = (o.map out, rest) := by
  cases o with
  | some a =>
    have hslot : takeSlot fits read (enc a :: rest) = (read (enc a), rest) :=
      takeSlot_cons_of_fits (hfits a)
    rw [hread] at hslot
    exact hslot
  | none =>
    have hnot : headFits fits rest = false := by
      cases h : headFits fits rest with
      | false => rfl
      | true => cases hrest h
    exact takeSlot_of_not_headFits hnot

/-- **One field of the decoder**: it is read back, and the cursor stands behind it, exactly if it is
present or the next value does not fit. -/
theorem slot_iff {C : List Value → Prop} (hfits : ∀ a, fits (enc a) = true)
    (hread : ∀ a, read (enc a) = some (out a))
    (hrest : ∀ v ∈ rest.head?, fits v = true → (read v).isSome = true) :
    (takeSlot fits read (present enc o ++ rest)).1 = o.map out ∧
        C (takeSlot fits read (present enc o ++ rest)).2 ↔
      (headFits fits rest = true → o.isSome = true) ∧ C rest := by
  by_cases hok : headFits fits rest = true → o.isSome = true
  · rw [takeSlot_present hfits hread hok]
    exact ⟨fun h => ⟨hok, h.2⟩, fun h => ⟨rfl, h.2⟩⟩
  · -- the next value goes to an absent field
    obtain ⟨hhead, habs⟩ := Classical.not_imp.mp hok
    have hnone : o = none := by simpa using habs
    subst hnone
    cases rest with
    | nil => cases hhead
    | cons v rest =>
      have hfit : fits v = true := hhead
      have hsome := hrest v rfl hfit
      have hslot : takeSlot fits read (present enc none ++ v :: rest) = (read v, rest) :=
        takeSlot_cons_of_fits hfit
      rw [hslot]
      refine iff_of_false (fun h => ?_) (fun h => hok h.1)
      have hread : read v = none := h.1
      rw [hread] at hsome
      cases hsome

theorem slot_iff_same {enc : β → Value} {o : Option β} {C : List Value → Prop}
    (hfits : ∀ a, fits (enc a) = true) (hread : ∀ a, read (enc a) = some a)
    (hrest : ∀ v ∈ rest.head?, fits v = true → (read v).isSome = true) :
    (takeSlot fits read (present enc o ++ rest)).1 = o ∧
        C (takeSlot fits read (present enc o ++ rest)).2 ↔
      (headFits fits rest = true → o.isSome = true) ∧ C rest := by
  have h : (takeSlot fits read (present enc o ++ rest)).1 = o.map id ∧
      C (takeSlot fits read (present enc o ++ rest)).2 ↔ _ := slot_iff hfits hread hrest
  rwa [Option.map_id_apply] at h

end Slots

/-! ## The optional fields -/

/-- A text, a `u32` or an array. -/
def Plain (v : Value) : Prop := (∃ s, v = .ofStr s) ∨ (∃ n, v = .ofU32 n) ∨ ∃ elems, v = .array elems

theorem Plain.asI64 {v : Value} (h : Plain v) (hi : v.isInteger = true) : v.asI64.isSome = true := by
  rcases h with ⟨s, rfl⟩ | ⟨n, rfl⟩ | ⟨elems, rfl⟩
  · cases hi
  · have hlt := n.toNat_lt
    simp only [Value.ofU32, Value.ofU64, Value.asI64, Rmpv.Integer.asI64]
    rw [if_pos (by simp; omega)]
    rfl
  · cases hi

theorem Plain.u32 {v : Value} (h : Plain v) (hi : v.isInteger = true) :
    (u32FromRmpv v).isSome = true := by
  rcases h with ⟨s, rfl⟩ | ⟨n, rfl⟩ | ⟨elems, rfl⟩
  · cases hi
  · rw [u32FromRmpv_ofU32]
    rfl
  · cases hi

theorem Plain.asStr {v : Value} (h : Plain v) (hs : v.isString = true) : v.asStr.isSome = true := by
  rcases h with ⟨s, rfl⟩ | ⟨n, rfl⟩ | ⟨elems, rfl⟩
  · rfl
  · cases hs
  · cases hs

theorem plain_head_present {α : Type} {enc : α → Value} {o : Option α} {rest : List Value}
    (henc : ∀ a, Plain (enc a)) (hrest : ∀ v ∈ rest.head?, Plain v) :
    ∀ v ∈ (present enc o ++ rest).head?, Plain v := by
  cases o with
  | none => exact hrest
  | some a =>
    intro v hv
    cases hv
    exact henc a

namespace BlockStoredFields

variable (f : BlockStoredFields)

/-! The values from each optional field on, without nils. -/

def windowTail : List Value := present .ofU32 f.kvCacheSpecSlidingWindow ++ []
def kindTail : List Value := present .ofStr f.kvCacheSpecKind ++ f.windowTail
def groupTail : List Value := present .ofU32 f.groupIdx ++ f.kindTail
def extraTail : List Value := present .array f.extraKeys ++ f.groupTail
def nameTail : List Value := present .ofStr f.loraName ++ f.extraTail
def mediumTail : List Value := present .ofStr f.medium ++ f.nameTail
def loraTail : List Value := present .ofI64 f.loraId ++ f.mediumTail

/-! From there on the fields are read back. -/

def ReadsWindow (values : List Value) : Prop :=
  (takeSlot Value.isInteger u32FromRmpv values).1 = f.kvCacheSpecSlidingWindow

def ReadsKind (values : List Value) : Prop :=
  (takeSlot Value.isString Value.asStr values).1 = f.kvCacheSpecKind ∧
    f.ReadsWindow (takeSlot Value.isString Value.asStr values).2

def ReadsGroup (values : List Value) : Prop :=
  (takeSlot Value.isInteger u32FromRmpv values).1 = f.groupIdx ∧
    f.ReadsKind (takeSlot Value.isInteger u32FromRmpv values).2

def ReadsName (values : List Value) : Prop :=
  (takeSlot Value.isString Value.asStr values).1 = f.loraName ∧
    f.ReadsGroup (takeSlot Value.isArray Value.asArray
      (takeSlot Value.isString Value.asStr values).2).2

def ReadsMedium (values : List Value) : Prop :=
  (takeSlot Value.isString Value.asStr values).1 = f.medium ∧
    f.ReadsName (takeSlot Value.isString Value.asStr values).2

def ReadsLora (values : List Value) : Prop :=
  (takeSlot Value.isInteger Value.asI64 values).1 = f.loraId.map (·.toInt) ∧
    f.ReadsMedium (takeSlot Value.isInteger Value.asI64 values).2

theorem plain_tails : (∀ v ∈ f.windowTail.head?, Plain v) ∧ (∀ v ∈ f.kindTail.head?, Plain v) ∧
    (∀ v ∈ f.groupTail.head?, Plain v) ∧ (∀ v ∈ f.extraTail.head?, Plain v) ∧
    (∀ v ∈ f.nameTail.head?, Plain v) ∧ ∀ v ∈ f.mediumTail.head?, Plain v := by
  have hstr : ∀ s, Plain (.ofStr s) := fun s => Or.inl ⟨s, rfl⟩
  have hu32 : ∀ n, Plain (.ofU32 n) := fun n => Or.inr (Or.inl ⟨n, rfl⟩)
  have harr : ∀ elems, Plain (.array elems) := fun elems => Or.inr (Or.inr ⟨elems, rfl⟩)
  have h₁ : ∀ v ∈ f.windowTail.head?, Plain v := plain_head_present hu32 (fun v hv => by cases hv)
  have h₂ : ∀ v ∈ f.kindTail.head?, Plain v := plain_head_present hstr h₁
  have h₃ : ∀ v ∈ f.groupTail.head?, Plain v := plain_head_present hu32 h₂
  have h₄ : ∀ v ∈ f.extraTail.head?, Plain v := plain_head_present harr h₃
  have h₅ : ∀ v ∈ f.nameTail.head?, Plain v := plain_head_present hstr h₄
  exact ⟨h₁, h₂, h₃, h₄, h₅, plain_head_present hstr h₅⟩

/-- Every field that is present is kept apart from the earlier fields of its type. -/
def Unambiguous : Prop :=
  (f.loraName.isSome → f.medium.isSome) ∧
  (f.groupIdx.isSome → f.loraId.isSome ∨ f.medium.isSome ∨ f.extraKeys.isSome) ∧
  (f.kvCacheSpecKind.isSome → f.loraName.isSome ∨ f.extraKeys.isSome ∨ f.groupIdx.isSome) ∧
  (f.kvCacheSpecSlidingWindow.isSome → f.groupIdx.isSome ∨ f.kvCacheSpecKind.isSome)

/-! Each field is read back if it is present or if what follows does not fit. -/

theorem readsLora_iff : f.ReadsLora f.loraTail ↔
    (headFits Value.isInteger f.mediumTail = true → f.loraId.isSome = true) ∧
      f.ReadsMedium f.mediumTail :=
  slot_iff (fun _ => rfl) Value.asI64_ofI64 (fun v hv => (f.plain_tails.2.2.2.2.2 v hv).asI64)

theorem readsMedium_iff : f.ReadsMedium f.mediumTail ↔
    (headFits Value.isString f.nameTail = true → f.medium.isSome = true) ∧
      f.ReadsName f.nameTail :=
  slot_iff_same (fun _ => rfl) Value.asStr_ofStr (fun v hv => (f.plain_tails.2.2.2.2.1 v hv).asStr)

theorem readsName_iff : f.ReadsName f.nameTail ↔
    (headFits Value.isString f.extraTail = true → f.loraName.isSome = true) ∧
      f.ReadsGroup f.groupTail := by
  -- after the extra keys there is no array
  have hextra : takeSlot Value.isArray Value.asArray f.extraTail =
      (f.extraKeys.map id, f.groupTail) := by
    refine takeSlot_present (fun _ => rfl) (fun _ => rfl) (fun h => ?_)
    rw [groupTail, headFits_present (c := false) (fun _ => rfl), kindTail,
      headFits_present (c := false) (fun _ => rfl), windowTail,
      headFits_present (c := false) (fun _ => rfl)] at h
    simp [headFits] at h
  have h : f.ReadsName f.nameTail ↔
      (headFits Value.isString f.extraTail = true → f.loraName.isSome = true) ∧
        f.ReadsGroup (takeSlot Value.isArray Value.asArray f.extraTail).2 :=
    slot_iff_same (C := fun values => f.ReadsGroup (takeSlot Value.isArray Value.asArray values).2)
      (fun _ => rfl) Value.asStr_ofStr (fun v hv => (f.plain_tails.2.2.2.1 v hv).asStr)
  rwa [hextra] at h

theorem readsGroup_iff : f.ReadsGroup f.groupTail ↔
    (headFits Value.isInteger f.kindTail = true → f.groupIdx.isSome = true) ∧
      f.ReadsKind f.kindTail :=
  slot_iff_same (fun _ => rfl) u32FromRmpv_ofU32 (fun v hv => (f.plain_tails.2.1 v hv).u32)

theorem readsKind_iff : f.ReadsKind f.kindTail ↔
    (headFits Value.isString f.windowTail = true → f.kvCacheSpecKind.isSome = true) ∧
      f.ReadsWindow f.windowTail :=
  slot_iff_same (fun _ => rfl) Value.asStr_ofStr (fun v hv => (f.plain_tails.1 v hv).asStr)

theorem readsWindow : f.ReadsWindow f.windowTail := by
  have h : takeSlot Value.isInteger u32FromRmpv f.windowTail =
      (f.kvCacheSpecSlidingWindow.map id, []) :=
    takeSlot_present (fun _ => rfl) u32FromRmpv_ofU32 (fun h => by cases h)
  rw [Option.map_id_apply] at h
  exact congrArg Prod.fst h

/-- **The optional fields are read back exactly if they are kept apart.** -/
theorem readsLora_iff_unambiguous : f.ReadsLora f.loraTail ↔ f.Unambiguous := by
  have hwindow : headFits Value.isString f.windowTail = false := by
    rw [windowTail, headFits_present (c := false) (fun _ => rfl)]
    simp [headFits]
  have hkind : headFits Value.isInteger f.kindTail =
      if f.kvCacheSpecKind.isSome then false else f.kvCacheSpecSlidingWindow.isSome := by
    rw [kindTail, headFits_present (c := false) (fun _ => rfl), windowTail,
      headFits_present (c := true) (fun _ => rfl)]
    simp [headFits]
  have hextra : headFits Value.isString f.extraTail =
      if f.extraKeys.isSome ∨ f.groupIdx.isSome then false else f.kvCacheSpecKind.isSome := by
    rw [extraTail, headFits_present (c := false) (fun _ => rfl), groupTail,
      headFits_present (c := false) (fun _ => rfl), kindTail,
      headFits_present (c := true) (fun _ => rfl), hwindow]
    grind
  have hname : headFits Value.isString f.nameTail =
      if f.loraName.isSome then true else headFits Value.isString f.extraTail := by
    rw [nameTail, headFits_present (c := true) (fun _ => rfl)]
  have hmedium : headFits Value.isInteger f.mediumTail =
      if f.medium.isSome ∨ f.loraName.isSome ∨ f.extraKeys.isSome then false
      else if f.groupIdx.isSome then true else headFits Value.isInteger f.kindTail := by
    rw [mediumTail, headFits_present (c := false) (fun _ => rfl), nameTail,
      headFits_present (c := false) (fun _ => rfl), extraTail,
      headFits_present (c := false) (fun _ => rfl), groupTail,
      headFits_present (c := true) (fun _ => rfl)]
    grind
  have hreads := f.readsWindow
  rw [readsLora_iff, readsMedium_iff, readsName_iff, readsGroup_iff, readsKind_iff, hmedium, hname,
    hextra, hkind, hwindow, Unambiguous]
  generalize f.loraId.isSome = lora
  generalize f.medium.isSome = medium
  generalize f.loraName.isSome = name
  generalize f.extraKeys.isSome = extra
  generalize f.groupIdx.isSome = group
  generalize f.kvCacheSpecKind.isSome = kind
  generalize f.kvCacheSpecSlidingWindow.isSome = window
  simp only [hreads, and_true]
  clear hwindow hkind hextra hname hmedium hreads
  -- the rest is a fact about which fields are present
  cases medium <;> cases name <;> cases extra <;> cases group <;> cases kind <;> cases window <;> simp

end BlockStoredFields

/-! ## The decoder and the encoding -/

theorem filter_encode (f : BlockStoredFields) : f.encode.filter (!·.isNil) =
    .array (f.blockHashes.map (·.value)) :: (present (·.value) f.parentBlockHash ++
      (.array (f.tokenIds.map .ofI64) :: .ofU32 f.blockSize :: f.loraTail)) := by
  rw [BlockStoredFields.encode, filter_value rfl, filter_optValue WireHash.not_nil, filter_value rfl,
    filter_value (isNil_ofU32 _), filter_optValue isNil_ofI64, filter_optValue isNil_ofStr,
    filter_optValue isNil_ofStr, filter_optValue (fun _ => rfl), filter_optValue isNil_ofU32,
    filter_optValue isNil_ofStr, filter_optValue isNil_ofU32]
  rfl

theorem parseBlockStoredValues_eq (eventType : String) (values : List Value) :
    parseBlockStoredValues eventType values =
      let slot₁ := takeSlot Value.isArray flexHashesFromRmpv (values.filter (!·.isNil))
      let slot₂ := takeSlot (!·.isArray) flexHashFromRmpv slot₁.2
      let slot₃ := takeSlot Value.isArray i64VecFromRmpv slot₂.2
      let slot₄ := takeSlot Value.isInteger u32FromRmpv slot₃.2
      let slot₅ := takeSlot Value.isInteger Value.asI64 slot₄.2
      let slot₆ := takeSlot Value.isString Value.asStr slot₅.2
      let slot₇ := takeSlot Value.isString Value.asStr slot₆.2
      let slot₈ := takeSlot Value.isArray Value.asArray slot₇.2
      let slot₉ := takeSlot Value.isInteger u32FromRmpv slot₈.2
      let slot₁₀ := takeSlot Value.isString Value.asStr slot₉.2
      let slot₁₁ := takeSlot Value.isInteger u32FromRmpv slot₁₀.2
      ⟨eventType, slot₁.1, slot₂.1, slot₃.1, slot₄.1, slot₆.1, slot₉.1, slot₅.1, slot₇.1, slot₁₀.1,
        slot₁₁.1⟩ :=
  rfl

/-- **A `BlockStored` is read back exactly if its fields are kept apart.** -/
theorem parse_encodeBlockStored (f : BlockStoredFields) {values : List Value}
    (h : EncodedAs f.encode values) :
    parseBlockStoredValues "BlockStored" values = f.toMap ↔ f.Unambiguous := by
  have hfilter := (filter_encodedAs h).trans (filter_encode f)
  have hslot₂ : takeSlot (!·.isArray) flexHashFromRmpv (present (·.value) f.parentBlockHash ++
      (.array (f.tokenIds.map .ofI64) :: .ofU32 f.blockSize :: f.loraTail)) =
      (f.parentBlockHash.map (·.hash),
        .array (f.tokenIds.map .ofI64) :: .ofU32 f.blockSize :: f.loraTail) :=
    takeSlot_present (fun a => by rw [a.not_array]; rfl) (·.decodes) (fun h => by cases h)
  rw [parseBlockStoredValues_eq, hfilter, takeSlot_cons_of_fits rfl]
  simp only
  rw [hslot₂]
  simp only
  rw [takeSlot_cons_of_fits rfl]
  simp only
  rw [takeSlot_cons_of_fits rfl]
  simp only [flexHashesFromRmpv_array, i64VecFromRmpv_array, u32FromRmpv_ofU32,
    BlockStoredFields.toMap, VllmEventMap.mk.injEq, true_and]
  rw [← f.readsLora_iff_unambiguous]
  constructor
  · rintro ⟨hmedium, hgroup, hlora, hname, hkind, hwindow⟩
    exact ⟨hlora, hmedium, hname, hgroup, hkind, hwindow⟩
  · rintro ⟨hlora, hmedium, hname, hgroup, hkind, hwindow⟩
    exact ⟨hmedium, hgroup, hlora, hname, hkind, hwindow⟩

/-- **A `BlockRemoved` is read back.** -/
theorem parse_encodeBlockRemoved (g : BlockRemovedFields) {values : List Value}
    (h : EncodedAs g.encode values) :
    parseBlockRemovedValues "BlockRemoved" values = g.toMap := by
  have hfilter : values.filter (!·.isNil) = .array (g.blockHashes.map (·.value)) ::
      (present .ofStr g.medium ++ (present .ofU32 g.groupIdx ++ [])) := by
    rw [filter_encodedAs h, BlockRemovedFields.encode, filter_value rfl,
      filter_optValue isNil_ofStr, filter_optValue isNil_ofU32]
    rfl
  have hmedium : takeSlot Value.isString Value.asStr
      (present .ofStr g.medium ++ (present .ofU32 g.groupIdx ++ [])) =
      (g.medium.map id, present .ofU32 g.groupIdx ++ []) := by
    refine takeSlot_present (fun _ => rfl) Value.asStr_ofStr (fun h => ?_)
    rw [headFits_present (c := false) (fun _ => rfl)] at h
    simp [headFits] at h
  have hgroup : takeSlot Value.isInteger u32FromRmpv (present .ofU32 g.groupIdx ++ []) =
      (g.groupIdx.map id, []) :=
    takeSlot_present (fun _ => rfl) u32FromRmpv_ofU32 (fun h => by cases h)
  have hhashes : ∀ rest, takeSlot Value.isArray flexHashesFromRmpv
      (.array (g.blockHashes.map (·.value)) :: rest) = (some (g.blockHashes.map (·.hash)), rest) := by
    intro rest
    rw [takeSlot_cons_of_fits rfl, flexHashesFromRmpv_array]
  unfold parseBlockRemovedValues
  simp only [hfilter, hhashes, hmedium, hgroup, Option.map_id_apply]
  rfl

/-- **The decoder inverts the encoding** of a `BlockRemoved`, and of a `BlockStored` exactly if its
fields are kept apart. -/
theorem decoder_inverts_iff (f : BlockStoredFields) (g : BlockRemovedFields) :
    (∀ values, EncodedAs f.encode values →
      (parseVllmEvent "BlockStored" values = f.toMap ↔ f.Unambiguous)) ∧
    ∀ values, EncodedAs g.encode values → parseVllmEvent "BlockRemoved" values = g.toMap :=
  ⟨fun _ h => parse_encodeBlockStored f h, fun _ h => parse_encodeBlockRemoved g h⟩

/-- An event of a group with full attention, with a medium and a LoRA adapter. -/
def adapterEvent : BlockStoredFields where
  blockHashes := [.ofU64 100, .ofU64 200]
  parentBlockHash := none
  tokenIds := [1, 2, 3, 4, 5, 6, 7, 8]
  blockSize := 4
  loraId := some 0
  medium := some "GPU"
  loraName := some "lora"
  extraKeys := none
  groupIdx := some 0
  kvCacheSpecKind := some "FullAttention"
  kvCacheSpecSlidingWindow := none

theorem adapterEvent_read_back :
    EncodedAs adapterEvent.encode (adapterEvent.encode.take 10) ∧
      parseVllmEvent "BlockStored" (adapterEvent.encode.take 10) = adapterEvent.toMap := by
  have henc : EncodedAs adapterEvent.encode (adapterEvent.encode.take 10) := ⟨1, rfl⟩
  exact ⟨henc, ((decoder_inverts_iff adapterEvent ⟨[], none, none⟩).1 _ henc).mpr ⟨by decide, by decide, by decide,
    by decide⟩⟩

/-- An event of a state-space layer; its kind is the only optional field. -/
def mambaEvent : BlockStoredFields where
  blockHashes := [.ofU64 100]
  parentBlockHash := none
  tokenIds := [1]
  blockSize := 1
  loraId := none
  medium := none
  loraName := none
  extraKeys := none
  groupIdx := none
  kvCacheSpecKind := some "mamba"
  kvCacheSpecSlidingWindow := none

/-- The kind is taken for the medium. -/
theorem mambaEvent_misread :
    (parseVllmEvent "BlockStored" mambaEvent.encode).medium = some "mamba" ∧
      (parseVllmEvent "BlockStored" mambaEvent.encode).kvCacheSpecKind = none ∧
      ¬ ∀ (f : BlockStoredFields) values, EncodedAs f.encode values →
        parseVllmEvent "BlockStored" values = f.toMap := by
  have hmedium : (parseVllmEvent "BlockStored" mambaEvent.encode).medium = some "mamba" := rfl
  refine ⟨hmedium, rfl, fun h => ?_⟩
  rw [h mambaEvent mambaEvent.encode ⟨0, rfl⟩] at hmedium
  cases hmedium

end PyMotor.Conductor
