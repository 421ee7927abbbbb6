import PyMotor.Conductor.Events.Alignment

/-!
# Engine events over HTTP

An event that is posted to `/events` is a JSON map. It is deserialized into a payload with the fields
of all the formats in use, and `normalize` makes a canonical event of it (`protocols.rs`). A
`BlockStored` that arrives so is meant to store the same as one that arrives as an array of values.

The payload takes the parent hash as a signed number, where the array takes an unsigned one; and an
event without block hashes is dropped from an array only. Apart from that the two paths agree
(`http_agrees_iff`).

The deserializer is derived from the type of the payload. `Serde` states what is used of it.
-/

namespace PyMotor.Conductor

open Rmpv (Value)

/-! ## JSON -/

inductive Json where
  | null
  | bool (b : Bool)
  | number (n : Int)
  | float (bits : UInt64)
  | string (s : String)
  | array (elems : List Json)
  | object (members : List (String × Json))

namespace Json

/-- An integer outside the type is rejected. -/
def asU64 : Json → Option UInt64
  | number n => if 0 ≤ n ∧ n < 18446744073709551616 then some (UInt64.ofNat n.toNat) else none
  | _ => none

def asI64 : Json → Option Int
  | number n => if -9223372036854775808 ≤ n ∧ n < 9223372036854775808 then some n else none
  | _ => none

def asU32 : Json → Option UInt32
  | number n => if 0 ≤ n ∧ n < 4294967296 then some (UInt32.ofNat n.toNat) else none
  | _ => none

def asStr : Json → Option String
  | string s => some s
  | _ => none

/-- A `Vec`: all elements are of the type. -/
def asVec {α : Type} (read : Json → Option α) : Json → Option (List α)
  | array elems => elems.mapM read
  | _ => none

/-- An `Option`: null, or of the type. -/
def asOption {α : Type} (read : Json → Option α) : Json → Option (Option α)
  | null => some none
  | v => (read v).map some

/-- The values of a field, under any of its names. -/
def members (names : List String) (obj : List (String × Json)) : List Json :=
  (obj.filter (fun m => decide (m.1 ∈ names))).map (·.2)

/-- A required field. -/
def required {α : Type} (names : List String) (read : Json → Option α)
    (obj : List (String × Json)) : Option α :=
  match members names obj with
  | [v] => read v
  | _ => none

/-- A field with a default. More than one value is an error. -/
def withDefault {α : Type} (names : List String) (read : Json → Option α) (default : α)
    (obj : List (String × Json)) : Option α :=
  match members names obj with
  | [] => some default
  | [v] => read v
  | _ => none

/-- A stored block. -/
def asBlock : Json → Option KvCacheStoredBlockData
  | object members => do
    let blockHash ← required ["block_hash"] asU64 members
    let tokensHash ← required ["tokens_hash"] asU64 members
    some ⟨blockHash, tokensHash⟩
  | array [blockHash, tokensHash] => do
    let blockHash ← blockHash.asU64
    let tokensHash ← tokensHash.asU64
    some ⟨blockHash, tokensHash⟩
  | _ => none

end Json

/-! ## The payload -/

structure KvEventWirePayload where
  eventType : String
  blocks : List KvCacheStoredBlockData
  /-- An `i64`. -/
  parentHash : Option Int
  tokenIds : List Int
  blockSize : Option UInt32
  seqHashes : List UInt64
  medium : Option String
  backendId : Option String
  blockHashes : List UInt64
  legacyType : Option String
  deriving DecidableEq, Repr

/-- The event types that `resolve_event_type` tells apart. -/
inductive ResolvedType where
  | stored
  | removed
  | cleared
  | unknown
  deriving DecidableEq, Repr

namespace KvEventWirePayload

def resolveEventType (p : KvEventWirePayload) : ResolvedType :=
  match if p.eventType ≠ "" then some p.eventType else p.legacyType with
  | none => .unknown
  | some raw =>
    let lower := String.ofList (raw.toList.map Char.toLower)
    if PoolEvent.containsText lower "removed" then .removed
    else if PoolEvent.containsText lower "stored" then .stored
    else if PoolEvent.containsText lower "cleared" then .cleared
    else .unknown

def collectSeqHashes (p : KvEventWirePayload) : List UInt64 :=
  p.seqHashes ++ p.blockHashes ++ p.blocks.map (·.blockHash)

section Normalize

variable (hashSeq : List Int → UInt32 → List UInt64) (p : KvEventWirePayload)

/-- The blocks of a `stored` event. -/
def storedBlocks : List KvCacheStoredBlockData :=
  if !p.blocks.isEmpty then p.blocks
  else if !p.tokenIds.isEmpty && p.blockSize.any (fun bs => decide (0 < bs)) then
    (p.blockHashes.zip (hashSeq p.tokenIds (p.blockSize.getD 0))).map (fun q => ⟨q.1, q.2⟩)
  else p.collectSeqHashes.map (fun h => ⟨h, h⟩)

/-- `h as u64` -/
def parentAsU64 : Option UInt64 := p.parentHash.map UInt64.ofInt

def normalize : KvCacheEventData × Option String × Option String :=
  let data :=
    match p.resolveEventType with
    | .stored => .stored ⟨p.parentAsU64, p.storedBlocks hashSeq⟩
    | .removed => .removed p.collectSeqHashes
    | .cleared => .cleared
    | .unknown =>
      -- without a type the data decide
      if !p.blocks.isEmpty then .stored ⟨p.parentAsU64, p.blocks⟩
      else if !p.blockHashes.isEmpty || !p.seqHashes.isEmpty then
        let hashes := p.seqHashes ++ p.blockHashes
        if hashes.isEmpty then .cleared else .removed hashes
      else .cleared
  (data, p.medium, p.backendId)

end Normalize

end KvEventWirePayload

/-! ## The deserializer -/

section Serde

/-- The names of the field `parent_hash`. -/
def parentNames : List String := ["parent_hash", "parent_block_hash"]

/-- The deserializer, field by field. Members that belong to no field are ignored. -/
def KvEventWirePayload.ofMap (obj : List (String × Json)) : Option KvEventWirePayload := do
  let eventType ← Json.withDefault ["event_type", "type"] Json.asStr "" obj
  let blocks ← Json.withDefault ["blocks"] (Json.asVec Json.asBlock) [] obj
  let parentHash ← Json.withDefault parentNames (Json.asOption Json.asI64) none obj
  let tokenIds ← Json.withDefault ["token_ids"] (Json.asVec Json.asI64) [] obj
  let blockSize ← Json.withDefault ["block_size"] (Json.asOption Json.asU32) none obj
  let seqHashes ← Json.withDefault ["seq_hashes"] (Json.asVec Json.asU64) [] obj
  let medium ← Json.withDefault ["medium"] (Json.asOption Json.asStr) none obj
  let backendId ← Json.withDefault ["backend_id"] (Json.asOption Json.asStr) none obj
  let blockHashes ← Json.withDefault ["block_hashes"] (Json.asVec Json.asU64) [] obj
  let legacyType ← Json.withDefault ["legacy_type"] (Json.asOption Json.asStr) none obj
  some { eventType, blocks, parentHash, tokenIds, blockSize, seqHashes, medium, backendId, blockHashes,
         legacyType }

/-- **The derived deserializer**: a map all of whose fields are of their types is accepted, and an
integer outside the type of its field is rejected. -/
structure Serde (deserialize : List (String × Json) → Option KvEventWirePayload) : Prop where
  accepts : ∀ obj p, KvEventWirePayload.ofMap obj = some p → deserialize obj = some p
  rejects : ∀ obj n, Json.number n ∈ Json.members parentNames obj → Json.asI64 (.number n) = none →
    deserialize obj = none

end Serde

/-! ## One event on both paths -/

/-- A `BlockStored` about device memory, of the registered block size or without one. -/
structure HbmStored (registeredBlockSize : UInt32) where
  blockHashes : List UInt64
  parentBlockHash : Option UInt64
  tokenIds : List Int64
  blockSize : Option UInt32
  medium : Option String
  size_registered : ∀ n ∈ blockSize, n = registeredBlockSize
  medium_hbm : StorageMedium.isHbmKey (medium.getD "npu") = true

namespace HbmStored

variable {registeredBlockSize : UInt32} (f : HbmStored registeredBlockSize)

/-- The array of values, after the tag. -/
def encode : List Value :=
  [.array (f.blockHashes.map .ofU64), optValue .ofU64 f.parentBlockHash,
   .array (f.tokenIds.map .ofI64), optValue .ofU32 f.blockSize, .nil, optValue .ofStr f.medium,
   .nil, .nil, .nil, .nil, .nil]

/-- The member of a field that may be absent: left out, or null. -/
def OptMember {α : Type} (enc : α → Json) (o : Option α) (members : List Json) : Prop :=
  members = (o.map enc).toList ∨ o = none ∧ members = [.null]

/-- `obj` is the event as a map, in any order and with members of other formats. -/
structure IsMap (obj : List (String × Json)) : Prop where
  eventType : Json.members ["event_type", "type"] obj = [.string "BlockStored"]
  blockHashes : Json.members ["block_hashes"] obj =
    [.array (f.blockHashes.map (fun h => .number h.toNat))]
  parentHash : OptMember (fun h : UInt64 => .number h.toNat) f.parentBlockHash
    (Json.members parentNames obj)
  tokenIds : Json.members ["token_ids"] obj = [.array (f.tokenIds.map (fun t => .number t.toInt))]
  blockSize : OptMember (fun n : UInt32 => .number n.toNat) f.blockSize
    (Json.members ["block_size"] obj)
  medium : OptMember .string f.medium (Json.members ["medium"] obj)
  blocks : Json.members ["blocks"] obj = []
  seqHashes : Json.members ["seq_hashes"] obj = []
  backendId : Json.members ["backend_id"] obj = []
  legacyType : Json.members ["legacy_type"] obj = []

/-- The blocks of the event. -/
def pairs (hashSeq : List Int → UInt32 → List UInt64) : List (UInt64 × UInt64) :=
  f.blockHashes.zip (IndexerEntry.computedHashes hashSeq f.blockHashes (f.tokenIds.map (·.toInt))
    (f.blockSize.getD 0))

/-- What the event stores. -/
def storeData (hashSeq : List Int → UInt32 → List UInt64) : KvCacheStoreData :=
  ⟨f.parentBlockHash, (f.pairs hashSeq).map (fun p => ⟨p.1, p.2⟩)⟩

end HbmStored

/-- What is stored of a map. -/
def httpStoreData (hashSeq : List Int → UInt32 → List UInt64)
    (deserialize : List (String × Json) → Option KvEventWirePayload)
    (obj : List (String × Json)) : Option KvCacheStoreData :=
  (deserialize obj).bind fun p =>
    match (p.normalize hashSeq).1 with
    | .stored data => some data
    | _ => none

/-- What is stored of an array of values. -/
def zmqStoreData (hashSeq : List Int → UInt32 → List UInt64) (registeredBlockSize : UInt32)
    (values : List Value) : Option KvCacheStoreData :=
  let pairs := storedPairs hashSeq registeredBlockSize values
  if pairs.isEmpty then none
  else some ⟨(parseVllmEvent "BlockStored" values).parentBlockHash,
    pairs.map (fun p => ⟨p.1, p.2⟩)⟩

/-! ## The array -/

section Zmq

variable {registeredBlockSize : UInt32} {f : HbmStored registeredBlockSize} {values : List Value}

theorem filter_hbmEncode : f.encode.filter (!·.isNil) =
    .array (f.blockHashes.map .ofU64) :: (present .ofU64 f.parentBlockHash ++
      (.array (f.tokenIds.map .ofI64) :: (present .ofU32 f.blockSize ++
        (present .ofStr f.medium ++ [])))) := by
  rw [HbmStored.encode, filter_value rfl, filter_optValue (fun _ => rfl), filter_value rfl,
    filter_optValue isNil_ofU32]
  have hmedium := filter_optValue isNil_ofStr f.medium [.nil, .nil, .nil, .nil, .nil]
  exact congrArg (fun rest => _ :: (_ ++ _ :: (_ ++ rest))) hmedium

theorem flexHashesFromRmpv_ofU64 (hs : List UInt64) :
    flexHashesFromRmpv (.array (hs.map .ofU64)) = some hs := by
  have h := flexHashesFromRmpv_array (hs.map WireHash.ofU64)
  rw [List.map_map, List.map_map] at h
  exact h.trans (congrArg some (List.map_id hs))

theorem parse_hbmEncode (h : EncodedAs f.encode values) :
    parseVllmEvent "BlockStored" values =
      { VllmEventMap.empty "BlockStored" with
        blockHashes := some f.blockHashes
        parentBlockHash := f.parentBlockHash
        tokenIds := some (f.tokenIds.map (·.toInt))
        blockSize := f.blockSize
        medium := f.medium } := by
  have hparent : takeSlot (!·.isArray) flexHashFromRmpv (present .ofU64 f.parentBlockHash ++
      (.array (f.tokenIds.map .ofI64) :: (present .ofU32 f.blockSize ++
        (present .ofStr f.medium ++ [])))) =
      (f.parentBlockHash.map id, .array (f.tokenIds.map .ofI64) :: (present .ofU32 f.blockSize ++
        (present .ofStr f.medium ++ []))) :=
    takeSlot_present (fun _ => rfl) Value.asU64_ofU64 (fun h => by cases h)
  -- after the block size there is no integer
  have hlora : headFits Value.isInteger (present .ofStr f.medium ++ []) = false := by
    rw [headFits_present (c := false) (fun _ => rfl)]
    simp [headFits]
  have hsize : takeSlot Value.isInteger u32FromRmpv
      (present .ofU32 f.blockSize ++ (present .ofStr f.medium ++ [])) =
      (f.blockSize.map id, present .ofStr f.medium ++ []) :=
    takeSlot_present (fun _ => rfl) u32FromRmpv_ofU32 (fun h => by
      rw [hlora] at h
      cases h)
  have hmedium : takeSlot Value.isString Value.asStr (present .ofStr f.medium ++ []) =
      (f.medium.map id, []) :=
    takeSlot_present (fun _ => rfl) Value.asStr_ofStr (fun h => by cases h)
  have hvalues := (filter_encodedAs h).trans filter_hbmEncode
  have hparse : parseVllmEvent "BlockStored" values =
      parseBlockStoredValues "BlockStored" values := rfl
  rw [hparse, parseBlockStoredValues_eq, hvalues, takeSlot_cons_of_fits rfl]
  simp only
  rw [hparent]
  simp only
  rw [takeSlot_cons_of_fits rfl]
  simp only
  rw [hsize]
  simp only
  rw [takeSlot_of_not_headFits hlora]
  simp only
  rw [hmedium]
  simp only [flexHashesFromRmpv_ofU64, i64VecFromRmpv_array, Option.map_id_apply]
  rfl

theorem zmqStoreData_eq (hashSeq : List Int → UInt32 → List UInt64)
    (h : EncodedAs f.encode values) : zmqStoreData hashSeq registeredBlockSize values =
      if (f.pairs hashSeq).isEmpty then none else some (f.storeData hashSeq) := by
  have hsize : ¬ (f.blockSize.getD 0 ≠ 0 ∧ f.blockSize.getD 0 ≠ registeredBlockSize) := by
    rintro ⟨hzero, hne⟩
    cases hb : f.blockSize with
    | none =>
      rw [hb] at hzero
      exact hzero rfl
    | some n =>
      rw [hb] at hne
      exact hne (f.size_registered n hb)
  have hpairs : storedPairs hashSeq registeredBlockSize values = f.pairs hashSeq := by
    unfold storedPairs
    rw [parse_hbmEncode h]
    exact if_neg hsize
  unfold zmqStoreData
  rw [hpairs, parse_hbmEncode h]
  rfl

end Zmq

/-! ## The map -/

section Http

variable {registeredBlockSize : UInt32} {f : HbmStored registeredBlockSize}
  {obj : List (String × Json)}

theorem mapM_asU64 (hs : List UInt64) :
    (hs.map (fun h => Json.number h.toNat)).mapM Json.asU64 = some hs := by
  induction hs with
  | nil => rfl
  | cons h hs ih =>
    have hlt := h.toNat_lt
    have hread : Json.asU64 (.number h.toNat) = some h := by
      simp only [Json.asU64]
      rw [if_pos (by omega)]
      simp
    simp [hread, ih]

theorem mapM_asI64 (ts : List Int64) :
    (ts.map (fun t => Json.number t.toInt)).mapM Json.asI64 = some (ts.map (·.toInt)) := by
  induction ts with
  | nil => rfl
  | cons t ts ih =>
    have hread : Json.asI64 (.number t.toInt) = some t.toInt := by
      have hle := t.le_toInt
      have hlt := t.toInt_lt
      simp only [Json.asI64]
      rw [if_pos (by omega)]
    simp [hread, ih]

theorem asU32_toNat (n : UInt32) : Json.asU32 (.number n.toNat) = some n := by
  have hlt := n.toNat_lt
  simp only [Json.asU32]
  rw [if_pos (by omega)]
  simp

theorem withDefault_optMember {α β : Type} {enc : α → Json} {read : Json → Option β} {out : α → β}
    {o : Option α} {names : List String}
    (h : HbmStored.OptMember enc o (Json.members names obj))
    (hnull : ∀ a, enc a ≠ .null) (hread : ∀ a ∈ o, read (enc a) = some (out a)) :
    Json.withDefault names (Json.asOption read) none obj = some (o.map out) := by
  unfold Json.withDefault
  rcases h with h | ⟨rfl, h⟩
  · cases o with
    | none =>
      rw [h]
      rfl
    | some a =>
      rw [h]
      simp only [Option.map_some, Option.toList_some]
      unfold Json.asOption
      split
      · next heq => exact absurd heq (hnull a)
      · rw [hread a rfl]
        rfl
  · rw [h]
    rfl

/-- A parent hash is a number of the type, or it is rejected. -/
theorem asI64_parent (h : UInt64) : Json.asI64 (.number h.toNat) =
    if h.toNat < 9223372036854775808 then some (h.toNat : Int) else none := by
  simp only [Json.asI64]
  split <;> split <;> first | rfl | omega

theorem ofInt_parent (h : UInt64) : UInt64.ofInt (h.toNat : Int) = h := by
  have hlt := h.toNat_lt
  have hmod : ((h.toNat : Int) % 2 ^ 64).toNat = h.toNat := by omega
  rw [UInt64.ofInt, hmod, UInt64.ofNat_toNat]

theorem ofMap_eq (hmap : f.IsMap obj)
    (hparent : ∀ h ∈ f.parentBlockHash, h.toNat < 9223372036854775808) :
    KvEventWirePayload.ofMap obj = some
      { eventType := "BlockStored", blocks := [],
        parentHash := f.parentBlockHash.map (fun h => (h.toNat : Int)),
        tokenIds := f.tokenIds.map (·.toInt), blockSize := f.blockSize, seqHashes := [],
        medium := f.medium, backendId := none, blockHashes := f.blockHashes, legacyType := none } := by
  have hparent' : Json.withDefault parentNames (Json.asOption Json.asI64) none obj =
      some (f.parentBlockHash.map (fun h => (h.toNat : Int))) :=
    withDefault_optMember hmap.parentHash (fun _ h => by cases h)
      (fun h hh => by rw [asI64_parent, if_pos (hparent h hh)])
  have hsize : Json.withDefault ["block_size"] (Json.asOption Json.asU32) none obj =
      some (f.blockSize.map id) :=
    withDefault_optMember hmap.blockSize (fun _ h => by cases h) (fun n _ => asU32_toNat n)
  have hmedium : Json.withDefault ["medium"] (Json.asOption Json.asStr) none obj =
      some (f.medium.map id) :=
    withDefault_optMember hmap.medium (fun _ h => by cases h) (fun _ _ => rfl)
  have hhashes : Json.withDefault ["block_hashes"] (Json.asVec Json.asU64) [] obj =
      some f.blockHashes := by
    rw [Json.withDefault, hmap.blockHashes]
    exact mapM_asU64 f.blockHashes
  have htokens : Json.withDefault ["token_ids"] (Json.asVec Json.asI64) [] obj =
      some (f.tokenIds.map (·.toInt)) := by
    rw [Json.withDefault, hmap.tokenIds]
    exact mapM_asI64 f.tokenIds
  rw [KvEventWirePayload.ofMap, hparent', hsize, hmedium, hhashes, htokens]
  simp only [Json.withDefault, hmap.eventType, hmap.blocks, hmap.seqHashes, hmap.backendId,
    hmap.legacyType, Option.map_id_apply]
  rfl

theorem normalize_blockStored (hashSeq : List Int → UInt32 → List UInt64) (p : KvEventWirePayload)
    (htype : p.eventType = "BlockStored") :
    (p.normalize hashSeq).1 = .stored ⟨p.parentAsU64, p.storedBlocks hashSeq⟩ := by
  have hresolve : p.resolveEventType = .stored := by
    rw [KvEventWirePayload.resolveEventType, htype, if_pos (by decide)]
    decide
  rw [KvEventWirePayload.normalize, hresolve]

theorem storedBlocks_eq (hashSeq : List Int → UInt32 → List UInt64) (p : KvEventWirePayload)
    (hblocks : p.blocks = []) (hseq : p.seqHashes = []) :
    p.storedBlocks hashSeq =
      (p.blockHashes.zip (IndexerEntry.computedHashes hashSeq p.blockHashes p.tokenIds
        (p.blockSize.getD 0))).map (fun q => ⟨q.1, q.2⟩) := by
  have hany : p.blockSize.any (fun bs => decide (0 < bs)) = decide (p.blockSize.getD 0 ≠ 0) := by
    cases p.blockSize with
    | none => rfl
    | some n => exact decide_eq_decide.mpr UInt32.pos_iff_ne_zero
  rw [KvEventWirePayload.storedBlocks, hblocks, hany, IndexerEntry.computedHashes,
    KvEventWirePayload.collectSeqHashes, hblocks, hseq]
  by_cases hback : p.tokenIds.isEmpty = true ∨ p.blockSize.getD 0 = 0
  · have hzip : p.blockHashes.zip p.blockHashes = p.blockHashes.map (fun h => (h, h)) := by
      have hid : (p.blockHashes.map id).zip (p.blockHashes.map id) =
          p.blockHashes.map (fun h => (h, h)) := List.zip_map'
      rwa [List.map_id] at hid
    have hcond : (!p.tokenIds.isEmpty && decide (p.blockSize.getD 0 ≠ 0)) = false := by
      rcases hback with h | h <;> simp [h]
    rw [if_pos hback, hzip, hcond]
    simp
  · obtain ⟨htokens, hsize⟩ := not_or.mp hback
    rw [if_neg hback, zip_take_length]
    simp [htokens, hsize]

section Deserialize

variable {deserialize : List (String × Json) → Option KvEventWirePayload}
  (hserde : Serde deserialize) (hashSeq : List Int → UInt32 → List UInt64) (hmap : f.IsMap obj)

include hserde hmap

theorem httpStoreData_of_low (hparent : ∀ h ∈ f.parentBlockHash, h.toNat < 9223372036854775808) :
    httpStoreData hashSeq deserialize obj = some (f.storeData hashSeq) := by
  have hback : (f.parentBlockHash.map (fun h => (h.toNat : Int))).map UInt64.ofInt =
      f.parentBlockHash := by
    cases f.parentBlockHash with
    | none => rfl
    | some h => exact congrArg some (ofInt_parent h)
  rw [httpStoreData, hserde.accepts _ _ (ofMap_eq hmap hparent), Option.bind_some,
    normalize_blockStored hashSeq _ rfl, storedBlocks_eq hashSeq _ rfl rfl,
    KvEventWirePayload.parentAsU64, hback]
  rfl

theorem httpStoreData_of_high {h : UInt64} (hparent : f.parentBlockHash = some h)
    (hhigh : ¬ h.toNat < 9223372036854775808) : httpStoreData hashSeq deserialize obj = none := by
  have hmem := hmap.parentHash
  rw [hparent] at hmem
  have hreject : deserialize obj = none := by
    rcases hmem with hmem | ⟨hnone, -⟩
    · refine hserde.rejects obj h.toNat (hmem ▸ List.mem_singleton_self _) ?_
      rw [asI64_parent, if_neg hhigh]
    · cases hnone
  rw [httpStoreData, hreject]
  rfl

end Deserialize

end Http

/-! ## Agreement -/

theorem HbmStored.pairs_isEmpty_iff {registeredBlockSize : UInt32}
    (f : HbmStored registeredBlockSize) (xxh3 : List UInt8 → UInt64 → UInt64) :
    (f.pairs (computeBlockHashForSeq xxh3)).isEmpty = true ↔ f.blockHashes = [] := by
  rw [List.isEmpty_iff, HbmStored.pairs, List.zip_eq_nil_iff]
  refine ⟨fun h => h.elim id (fun hnone => ?_), Or.inl⟩
  unfold IndexerEntry.computedHashes at hnone
  split at hnone
  · exact hnone
  · next hback =>
    obtain ⟨htokens, hsize⟩ := not_or.mp hback
    have hpos := UInt32.lt_iff_toNat_lt.mp (UInt32.pos_iff_ne_zero.mpr hsize)
    have hlen : (computeBlockHashForSeq xxh3 (f.tokenIds.map (·.toInt))
        (f.blockSize.getD 0)).length = _ := length_computeBlockHashForSeq hpos
    have hsome : 0 < divCeil (f.tokenIds.map (·.toInt)).length (f.blockSize.getD 0).toNat := by
      refine (lt_divCeil_iff hpos).mpr ?_
      rw [Nat.zero_mul, List.length_pos_iff]
      exact fun hnil => htokens (List.isEmpty_iff.mpr hnil)
    rcases List.take_eq_nil_iff.mp hnone with hzero | hnil
    · exact List.length_eq_zero_iff.mp hzero
    · rw [hnil] at hlen
      exact absurd hlen (Nat.ne_of_lt hsome)

/-- **The two paths.** What is stored of an array is applied to the workers it concerns. The map and the
array store the same exactly if there are block hashes and the parent hash, if there is one, is below
2^63. -/
theorem http_agrees_iff (xxh3 : List UInt8 → UInt64 → UInt64)
    {deserialize : List (String × Json) → Option KvEventWirePayload} (hserde : Serde deserialize)
    (sub : Subscriber) (f : HbmStored sub.registeredBlockSize) {obj : List (String × Json)}
    (hmap : f.IsMap obj) {values : List Value} (hvalues : EncodedAs f.encode values) :
    (∀ (e : IndexerEntry) now σ,
      e.applyVllmEvent (computeBlockHashForSeq xxh3) now σ sub
          (parseVllmEvent "BlockStored" values).normalize =
        match zmqStoreData (computeBlockHashForSeq xxh3) sub.registeredBlockSize values with
        | none => (.ok (), e)
        | some data =>
          forWorkers (fun _ e w => e.applyEvent w (.stored data)) 0 e
            (resolveWorkers sub.matchMode sub.hbmIpIndex sub.backendId sub.dpRank
              (resolveMedium f.medium sub.defaultMedia))) ∧
    ((∃ data, httpStoreData (computeBlockHashForSeq xxh3) deserialize obj = some data ∧
        zmqStoreData (computeBlockHashForSeq xxh3) sub.registeredBlockSize values = some data) ↔
      f.blockHashes ≠ [] ∧ ∀ h ∈ f.parentBlockHash, h.toNat < 9223372036854775808) := by
  constructor
  · intro e now σ
    have hmedium : (parseVllmEvent "BlockStored" values).medium = f.medium := by
      rw [parse_hbmEncode hvalues]
    rw [applyVllmEvent_handPairs, IndexerEntry.handPairs, zmqStoreData, hmedium, f.medium_hbm]
    cases (storedPairs (computeBlockHashForSeq xxh3) sub.registeredBlockSize values).isEmpty <;> rfl
  · rw [zmqStoreData_eq _ hvalues]
    by_cases hnone : f.blockHashes = []
    · rw [if_pos ((f.pairs_isEmpty_iff xxh3).mpr hnone)]
      simp [hnone]
    · rw [if_neg (fun h => hnone ((f.pairs_isEmpty_iff xxh3).mp h))]
      by_cases hparent : ∀ h ∈ f.parentBlockHash, h.toNat < 9223372036854775808
      · rw [httpStoreData_of_low hserde _ hmap hparent]
        exact iff_of_true ⟨_, rfl, rfl⟩ ⟨hnone, hparent⟩
      · refine iff_of_false ?_ (fun h => hparent h.2)
        obtain ⟨h, hh, hhigh⟩ : ∃ h, f.parentBlockHash = some h ∧
            ¬ h.toNat < 9223372036854775808 := by
          simpa using hparent
        rw [httpStoreData_of_high hserde _ hmap hh hhigh]
        rintro ⟨data, hdata, -⟩
        cases hdata

theorem serde_ofMap : Serde KvEventWirePayload.ofMap where
  accepts _ _ h := h
  rejects obj n hmem hn := by
    have hfield : Json.withDefault parentNames (Json.asOption Json.asI64) none obj = none := by
      rw [Json.withDefault]
      split
      · next hnil =>
        rw [hnil] at hmem
        cases hmem
      · next v hv =>
        rw [hv, List.mem_singleton] at hmem
        rw [← hmem]
        simp only [Json.asOption, hn]
        rfl
      · rfl
    rw [KvEventWirePayload.ofMap, hfield]
    simp

/-- Two blocks of one token, behind another block. -/
def continuedEvent (parent : UInt64) : HbmStored 1 where
  blockHashes := [101, 102]
  parentBlockHash := some parent
  tokenIds := [1, 2]
  blockSize := some 1
  medium := none
  size_registered := fun _ h => (Option.some.inj h).symm
  medium_hbm := rfl

/-- The event as a map. -/
def continuedMap (parent : UInt64) : List (String × Json) :=
  [("type", .string "BlockStored"), ("block_hashes", .array [.number 101, .number 102]),
   ("parent_block_hash", .number parent.toNat), ("token_ids", .array [.number 1, .number 2]),
   ("block_size", .number 1)]

theorem continuedMap_isMap (parent : UInt64) :
    (continuedEvent parent).IsMap (continuedMap parent) where
  eventType := rfl
  blockHashes := rfl
  parentHash := Or.inl rfl
  tokenIds := rfl
  blockSize := Or.inl rfl
  medium := Or.inl rfl
  blocks := rfl
  seqHashes := rfl
  backendId := rfl
  legacyType := rfl

/-- The subscriber of an engine with blocks of one token. -/
def engineSubscriber : Subscriber := ⟨"engine", 0, [.npu], .none, none, 1⟩

theorem continuedEvent_agrees :
    ∃ data, httpStoreData (computeBlockHashForSeq tokenXxh3) KvEventWirePayload.ofMap
        (continuedMap 50) = some data ∧
      zmqStoreData (computeBlockHashForSeq tokenXxh3) 1 (continuedEvent 50).encode = some data := by
  have henc : EncodedAs (continuedEvent 50).encode (continuedEvent 50).encode :=
    ⟨0, List.append_nil _⟩
  exact (http_agrees_iff tokenXxh3 serde_ofMap engineSubscriber (continuedEvent 50)
    (continuedMap_isMap 50) henc).2.mpr ⟨by decide, by simp [continuedEvent]⟩

/-- Behind the block 2^63 the map is rejected, and the array is stored. -/
theorem highParent_differs :
    (continuedEvent 9223372036854775808).IsMap (continuedMap 9223372036854775808) ∧
      httpStoreData (computeBlockHashForSeq tokenXxh3) KvEventWirePayload.ofMap
        (continuedMap 9223372036854775808) = none ∧
      zmqStoreData (computeBlockHashForSeq tokenXxh3) 1
        (continuedEvent 9223372036854775808).encode =
          some ⟨some 9223372036854775808,
            [⟨101, 14426539925402682893⟩, ⟨102, 132880511001376177⟩]⟩ := by
  exact ⟨continuedMap_isMap _,
    httpStoreData_of_high serde_ofMap _ (continuedMap_isMap _) rfl (by decide), by decide⟩

end PyMotor.Conductor
