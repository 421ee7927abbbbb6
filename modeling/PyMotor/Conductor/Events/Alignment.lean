import PyMotor.Conductor.Events.VllmWire
import PyMotor.Conductor.Hashing
import PyMotor.Lib.Aligned

/-!
# Block hashes and their tokens

A `BlockStored` carries an array of block hashes and an array of tokens, and block `i` has the tokens
from `i * block_size` on (`events/vllm.rs`). The decoder drops the elements that it cannot read from
each of the arrays, and the blocks are cut from the tokens that are left. So a block hash gets the
tokens of another block as soon as a block that still counts is neither read as a whole nor dropped as
a whole (`storedPairs_aligned_iff`).

Which elements of the arrays a pair was made of cannot be told from its two numbers. The pairs are
therefore computed a second time, with positions in place of the values (`tracedPairs`); reading the
values at the positions gives the pairs that are stored (`storedPairs_eq_traced`).
-/

namespace PyMotor.Conductor

open Rmpv (Value)

/-! ## What an event stores -/

section Stored

variable (hashSeq : List Int → UInt32 → List UInt64)

/-- The pairs of block hash and content hash that a `BlockStored` hands to the index. -/
def handedPairs (registeredBlockSize : UInt32) (blockHashes : List UInt64) (tokenIds : List Int)
    (blockSize : UInt32) : List (UInt64 × UInt64) :=
  if blockSize ≠ 0 ∧ blockSize ≠ registeredBlockSize then []
  else blockHashes.zip (IndexerEntry.computedHashes hashSeq blockHashes tokenIds blockSize)

/-- What becomes of the pairs: below the device memory they wait for the pool. -/
def IndexerEntry.handPairs (e : IndexerEntry) (now : Instant)
    (σ : HashOrder (WorkerKey × List PlacedBlock)) (sub : Subscriber) (parent : Option UInt64)
    (medium : Option String) (pairs : List (UInt64 × UInt64)) :
    Except KvConductorError Unit × IndexerEntry :=
  if pairs.isEmpty then (.ok (), e)
  else if !StorageMedium.isHbmKey (medium.getD "npu") then
    e.offloadBlocks now σ (offloadChain parent pairs)
  else
    let blocks := pairs.map (fun p => (⟨p.1, p.2⟩ : KvCacheStoredBlockData))
    forWorkers (fun _ e w => e.applyEvent w (.stored ⟨parent, blocks⟩)) 0 e
      (resolveWorkers sub.matchMode sub.hbmIpIndex sub.backendId sub.dpRank
        (resolveMedium medium sub.defaultMedia))

/-- **A `BlockStored` does nothing but hand its pairs to the index.** -/
theorem applyVllmEvent_blockStored (e : IndexerEntry) (now : Instant)
    (σ : HashOrder (WorkerKey × List PlacedBlock)) (sub : Subscriber) (blockHashes : List UInt64)
    (parent : Option UInt64) (tokenIds : List Int) (blockSize : UInt32) (medium : Option String) :
    e.applyVllmEvent hashSeq now σ sub (.blockStored blockHashes parent tokenIds blockSize medium) =
      e.handPairs now σ sub parent medium
        (handedPairs hashSeq sub.registeredBlockSize blockHashes tokenIds blockSize) := by
  simp only [IndexerEntry.applyVllmEvent, handedPairs]
  split
  · rfl
  · cases blockHashes with
    | nil => rfl
    | cons b bs =>
      cases hc : IndexerEntry.computedHashes hashSeq (b :: bs) tokenIds blockSize with
      | nil => rfl
      | cons c cs => rfl

/-- The pairs of an array. -/
def storedPairs (registeredBlockSize : UInt32) (values : List Value) : List (UInt64 × UInt64) :=
  match (parseVllmEvent "BlockStored" values).normalize with
  | .blockStored blockHashes _ tokenIds blockSize _ =>
    handedPairs hashSeq registeredBlockSize blockHashes tokenIds blockSize
  | _ => []

end Stored

/-! ## Positions -/

section Traced

variable (registeredBlockSize : UInt32) (values : List Value)

/-- The elements of `block_hashes`. -/
def wireHashes : List Value :=
  (takeSlot Value.isArray Value.asArray (values.filter (!·.isNil))).1.getD []

/-- The elements of `token_ids`. -/
def wireTokens : List Value :=
  let slot₁ := takeSlot Value.isArray Value.asArray (values.filter (!·.isNil))
  let slot₂ := takeSlot (!·.isArray) flexHashFromRmpv slot₁.2
  (takeSlot Value.isArray Value.asArray slot₂.2).1.getD []

def wireBlockSize : UInt32 := (parseVllmEvent "BlockStored" values).blockSize.getD 0

/-- The event is not one of full attention, or not one of the registered block size. -/
def FilteredOut : Prop :=
  ¬ isMainAttentionKind (parseVllmEvent "BlockStored" values).kvCacheSpecKind ∨
    wireBlockSize values ≠ 0 ∧ wireBlockSize values ≠ registeredBlockSize

instance : Decidable (FilteredOut registeredBlockSize values) := by
  unfold FilteredOut
  infer_instance

/-- What a content hash was made of. -/
inductive ContentSource where
  /-- The tokens at these positions were hashed. -/
  | tokens (positions : List Nat)
  /-- The block hash at this position stands in for the content hash. -/
  | blockHash (position : Nat)
  deriving DecidableEq, Repr

/-- Each stored pair: the position of its block hash, and what its content hash was made of. -/
def tracedPairs : List (Nat × ContentSource) :=
  if FilteredOut registeredBlockSize values then []
  else
    let hashes := positions flexHashFromRmpv (wireHashes values)
    let tokens := positions Value.asI64 (wireTokens values)
    if tokens.isEmpty ∨ wireBlockSize values = 0 then hashes.map (fun i => (i, .blockHash i))
    else (zipBlocks (wireBlockSize values).toNat hashes tokens).map (fun p => (p.1, .tokens p.2))

/-- The block hash at a position. -/
def blockHashAt (i : Nat) : UInt64 := valueAt flexHashFromRmpv (wireHashes values) 0 i

/-- The content hash, from what it was made of. -/
def ContentSource.read (xxh3 : List UInt8 → UInt64 → UInt64) : ContentSource → UInt64
  | .tokens ps => hashI64Chunk xxh3 (ps.map (valueAt Value.asI64 (wireTokens values) 0))
  | .blockHash i => blockHashAt values i

/-- The content hash was made of the tokens of the block. -/
def OwnTokens (p : Nat × ContentSource) : Prop :=
  p.2 = .tokens (blockPositions (wireBlockSize values).toNat (wireTokens values).length p.1)

/-- In every block from which on both block hashes and tokens are read, the block hash and all the
tokens are read, or none of them. -/
def ReadInBlocks : Prop :=
  WholeBlocks (fun i => ((wireHashes values)[i]?.bind flexHashFromRmpv).isSome)
    (fun i => ((wireTokens values)[i]?.bind Value.asI64).isSome)
    (wireBlockSize values).toNat (wireHashes values).length (wireTokens values).length

end Traced

/-! ## Reading the positions -/

section Reading

variable {xxh3 : List UInt8 → UInt64 → UInt64} {registeredBlockSize : UInt32} {values : List Value}

theorem takeSlot_map {α β : Type} (fits : Value → Bool) (read : Value → Option α) (g : α → β)
    (values : List Value) : takeSlot fits (fun v => (read v).map g) values =
      ((takeSlot fits read values).1.map g, (takeSlot fits read values).2) := by
  cases values with
  | nil => rfl
  | cons v rest =>
    rw [takeSlot, takeSlot]
    split <;> rfl

theorem getD_filterMap {β : Type} (f : Value → Option β) (o : Option (List Value)) :
    (o.map (·.filterMap f)).getD [] = (o.getD []).filterMap f := by
  cases o <;> rfl

theorem zip_take_length {α β : Type} (as : List α) (bs : List β) :
    as.zip (bs.take as.length) = as.zip bs := by
  induction as generalizing bs with
  | nil => rfl
  | cons a as ih =>
    cases bs with
    | nil => rfl
    | cons b bs => rw [List.length_cons, List.take_succ_cons, List.zip_cons_cons, ih, List.zip_cons_cons]

theorem blockHashes_eq : (parseVllmEvent "BlockStored" values).blockHashes.getD [] =
    (wireHashes values).filterMap flexHashFromRmpv := by
  have h := takeSlot_map Value.isArray Value.asArray (·.filterMap flexHashFromRmpv)
    (values.filter (!·.isNil))
  rw [wireHashes, ← getD_filterMap]
  exact congrArg (fun r => r.1.getD []) h

theorem tokenIds_eq : (parseVllmEvent "BlockStored" values).tokenIds.getD [] =
    (wireTokens values).filterMap Value.asI64 := by
  have h₁ := takeSlot_map Value.isArray Value.asArray (·.filterMap flexHashFromRmpv)
    (values.filter (!·.isNil))
  have h₃ := takeSlot_map Value.isArray Value.asArray (·.filterMap Value.asI64)
    (takeSlot (!·.isArray) flexHashFromRmpv
      (takeSlot Value.isArray Value.asArray (values.filter (!·.isNil))).2).2
  have hparse : (parseVllmEvent "BlockStored" values).tokenIds =
      (takeSlot Value.isArray i64VecFromRmpv (takeSlot (!·.isArray) flexHashFromRmpv
        (takeSlot Value.isArray flexHashesFromRmpv (values.filter (!·.isNil))).2).2).1 := rfl
  have hcursor : (takeSlot Value.isArray flexHashesFromRmpv (values.filter (!·.isNil))).2 =
      (takeSlot Value.isArray Value.asArray (values.filter (!·.isNil))).2 := congrArg Prod.snd h₁
  rw [hparse, hcursor, wireTokens, ← getD_filterMap]
  exact congrArg (fun r => r.1.getD []) h₃

theorem normalize_of_main
    (h : isMainAttentionKind (parseVllmEvent "BlockStored" values).kvCacheSpecKind = true) :
    (parseVllmEvent "BlockStored" values).normalize =
      .blockStored ((parseVllmEvent "BlockStored" values).blockHashes.getD [])
        (parseVllmEvent "BlockStored" values).parentBlockHash
        ((parseVllmEvent "BlockStored" values).tokenIds.getD []) (wireBlockSize values)
        (parseVllmEvent "BlockStored" values).medium := by
  rw [VllmEventMap.normalize, if_neg (fun hnot => by simp [h] at hnot)]
  rfl

theorem normalize_of_not_main
    (h : isMainAttentionKind (parseVllmEvent "BlockStored" values).kvCacheSpecKind = false) :
    (parseVllmEvent "BlockStored" values).normalize = .ignored := by
  have htype : (parseVllmEvent "BlockStored" values).eventType = "BlockStored" := rfl
  rw [VllmEventMap.normalize, htype, h]
  rfl

theorem applyVllmEvent_handPairs {hashSeq : List Int → UInt32 → List UInt64} (e : IndexerEntry)
    (now : Instant) (σ : HashOrder (WorkerKey × List PlacedBlock)) (sub : Subscriber) :
    e.applyVllmEvent hashSeq now σ sub (parseVllmEvent "BlockStored" values).normalize =
      e.handPairs now σ sub (parseVllmEvent "BlockStored" values).parentBlockHash
        (parseVllmEvent "BlockStored" values).medium
        (storedPairs hashSeq sub.registeredBlockSize values) := by
  cases hkind : isMainAttentionKind (parseVllmEvent "BlockStored" values).kvCacheSpecKind with
  | true => rw [storedPairs, normalize_of_main hkind, applyVllmEvent_blockStored]
  | false =>
    rw [storedPairs, normalize_of_not_main hkind]
    rfl

theorem storedPairs_eq (hashSeq : List Int → UInt32 → List UInt64) :
    storedPairs hashSeq registeredBlockSize values =
      if FilteredOut registeredBlockSize values then []
      else ((wireHashes values).filterMap flexHashFromRmpv).zip (IndexerEntry.computedHashes hashSeq
        ((wireHashes values).filterMap flexHashFromRmpv)
        ((wireTokens values).filterMap Value.asI64) (wireBlockSize values)) := by
  rw [storedPairs]
  cases hkind : isMainAttentionKind (parseVllmEvent "BlockStored" values).kvCacheSpecKind with
  | true =>
    have hiff : FilteredOut registeredBlockSize values ↔
        wireBlockSize values ≠ 0 ∧ wireBlockSize values ≠ registeredBlockSize := by
      rw [FilteredOut, hkind]
      simp
    rw [normalize_of_main hkind]
    simp only [handedPairs, blockHashes_eq, tokenIds_eq, hiff]
  | false =>
    have hf : FilteredOut registeredBlockSize values := Or.inl (by simp [hkind])
    rw [normalize_of_not_main hkind, if_pos hf]

/-- **The stored pairs are what is read at the positions.** -/
theorem storedPairs_eq_traced :
    storedPairs (computeBlockHashForSeq xxh3) registeredBlockSize values =
      (tracedPairs registeredBlockSize values).map
        (fun p => (blockHashAt values p.1, p.2.read values xxh3)) := by
  rw [storedPairs_eq, tracedPairs]
  by_cases hf : FilteredOut registeredBlockSize values
  · rw [if_pos hf, if_pos hf]
    rfl
  · rw [if_neg hf, if_neg hf, filterMap_eq_map_positions flexHashFromRmpv _ 0,
      filterMap_eq_map_positions Value.asI64 _ 0]
    simp only [IndexerEntry.computedHashes, List.isEmpty_map]
    by_cases hback : (positions Value.asI64 (wireTokens values)).isEmpty = true ∨
        wireBlockSize values = 0
    · rw [if_pos hback, if_pos hback, List.map_map, List.zip_map']
      rfl
    · obtain ⟨-, hsize⟩ := not_or.mp hback
      have hpairs := zipBlocks_map (wireBlockSize values).toNat (blockHashAt values)
        (valueAt Value.asI64 (wireTokens values) 0)
        (positions flexHashFromRmpv (wireHashes values)) (positions Value.asI64 (wireTokens values))
      rw [if_neg hback, if_neg hback, computeBlockHashForSeq_eq (UInt32.pos_iff_ne_zero.mpr hsize),
        zip_take_length, List.zip_map_right, List.map_map]
      unfold zipBlocks at hpairs
      unfold blockHashAt at hpairs ⊢
      rw [hpairs, List.map_map]
      rfl

theorem tracedPairs_of_tokens (hf : ¬ FilteredOut registeredBlockSize values)
    (htokens : positions Value.asI64 (wireTokens values) ≠ []) (hsize : wireBlockSize values ≠ 0) :
    tracedPairs registeredBlockSize values =
      (zipBlocks (wireBlockSize values).toNat (positions flexHashFromRmpv (wireHashes values))
        (positions Value.asI64 (wireTokens values))).map (fun p => (p.1, .tokens p.2)) := by
  have hback : ¬ ((positions Value.asI64 (wireTokens values)).isEmpty = true ∨
      wireBlockSize values = 0) := by
    rw [List.isEmpty_iff]
    exact not_or.mpr ⟨htokens, hsize⟩
  rw [tracedPairs, if_neg hf, if_neg hback]

theorem tracedPairs_of_no_tokens (hf : ¬ FilteredOut registeredBlockSize values)
    (h : positions Value.asI64 (wireTokens values) = [] ∨ wireBlockSize values = 0) :
    tracedPairs registeredBlockSize values =
      (positions flexHashFromRmpv (wireHashes values)).map (fun i => (i, .blockHash i)) := by
  rw [← List.isEmpty_iff] at h
  rw [tracedPairs, if_neg hf, if_pos h]

theorem ownTokens_iff (hf : ¬ FilteredOut registeredBlockSize values)
    (htokens : positions Value.asI64 (wireTokens values) ≠ []) (hsize : wireBlockSize values ≠ 0) :
    (∀ p ∈ tracedPairs registeredBlockSize values, OwnTokens values p) ↔ ReadInBlocks values := by
  have haligned := zipBlocks_aligned_iff
    (UInt32.lt_iff_toNat_lt.mp (UInt32.pos_iff_ne_zero.mpr hsize))
    (fun i => ((wireHashes values)[i]?.bind flexHashFromRmpv).isSome)
    (fun i => ((wireTokens values)[i]?.bind Value.asI64).isSome)
    (wireHashes values).length (wireTokens values).length
  rw [ReadInBlocks, ← haligned, tracedPairs_of_tokens hf htokens hsize, List.forall_mem_map]
  simp only [OwnTokens, ContentSource.tokens.injEq]
  rfl

theorem readInBlocks_of_no_tokens (h : positions Value.asI64 (wireTokens values) = []) :
    ReadInBlocks values := by
  rintro k - - ⟨p, -, hlt, hkeep⟩
  have hmem : p ∈ positions Value.asI64 (wireTokens values) :=
    List.mem_filter.mpr ⟨List.mem_range.mpr hlt, hkeep⟩
  rw [h] at hmem
  cases hmem

theorem ownTokens_iff_of_no_tokens (hf : ¬ FilteredOut registeredBlockSize values)
    (h : positions Value.asI64 (wireTokens values) = [] ∨ wireBlockSize values = 0) :
    (∀ p ∈ tracedPairs registeredBlockSize values, OwnTokens values p) ↔
      positions flexHashFromRmpv (wireHashes values) = [] := by
  rw [tracedPairs_of_no_tokens hf h, List.forall_mem_map, List.eq_nil_iff_forall_not_mem]
  refine forall₂_congr (fun i _ => ?_)
  simp [OwnTokens]

end Reading

/-! ## Alignment -/

/-- **Block hashes and their tokens.** What a `BlockStored` does is to hand its pairs to the index, and
the pairs are what is read at the traced positions. Every block hash is paired with the hash of its own
tokens exactly if the event is filtered out, or no block hash is read, or there are tokens and the
arrays are read in blocks. If the pairs in which the block hash stands in for the content hash are set
aside, it is only the arrays that matter. -/
theorem storedPairs_aligned_iff (xxh3 : List UInt8 → UInt64 → UInt64) (e : IndexerEntry)
    (now : Instant) (σ : HashOrder (WorkerKey × List PlacedBlock)) (sub : Subscriber)
    (values : List Value) :
    e.applyVllmEvent (computeBlockHashForSeq xxh3) now σ sub
        (parseVllmEvent "BlockStored" values).normalize =
      e.handPairs now σ sub (parseVllmEvent "BlockStored" values).parentBlockHash
        (parseVllmEvent "BlockStored" values).medium
        (storedPairs (computeBlockHashForSeq xxh3) sub.registeredBlockSize values) ∧
    storedPairs (computeBlockHashForSeq xxh3) sub.registeredBlockSize values =
      (tracedPairs sub.registeredBlockSize values).map
        (fun p => (blockHashAt values p.1, p.2.read values xxh3)) ∧
    ((∀ p ∈ tracedPairs sub.registeredBlockSize values, OwnTokens values p) ↔
      FilteredOut sub.registeredBlockSize values ∨
        positions flexHashFromRmpv (wireHashes values) = [] ∨
        wireBlockSize values ≠ 0 ∧ positions Value.asI64 (wireTokens values) ≠ [] ∧
          ReadInBlocks values) ∧
    ((∀ p ∈ tracedPairs sub.registeredBlockSize values,
        OwnTokens values p ∨ p.2 = .blockHash p.1) ↔
      FilteredOut sub.registeredBlockSize values ∨ wireBlockSize values = 0 ∨
        ReadInBlocks values) := by
  refine ⟨applyVllmEvent_handPairs e now σ sub, storedPairs_eq_traced, ?_, ?_⟩
  · by_cases hf : FilteredOut sub.registeredBlockSize values
    · rw [tracedPairs, if_pos hf]
      simp [hf]
    · by_cases hback : positions Value.asI64 (wireTokens values) = [] ∨ wireBlockSize values = 0
      · rw [ownTokens_iff_of_no_tokens hf hback]
        rcases hback with h | h <;> simp [hf, h]
      · obtain ⟨htokens, hsize⟩ := not_or.mp hback
        rw [ownTokens_iff hf htokens hsize]
        simp only [hf, hsize, htokens, ne_eq, not_false_eq_true, true_and, false_or]
        -- without block hashes no block counts
        refine ⟨Or.inr, fun h => h.elim (fun hnone => ?_) id⟩
        rintro k - ⟨j, -, hlt, hkeep⟩ -
        have hmem : j ∈ positions flexHashFromRmpv (wireHashes values) :=
          List.mem_filter.mpr ⟨List.mem_range.mpr hlt, hkeep⟩
        rw [hnone] at hmem
        cases hmem
  · by_cases hf : FilteredOut sub.registeredBlockSize values
    · rw [tracedPairs, if_pos hf]
      simp [hf]
    · by_cases hback : positions Value.asI64 (wireTokens values) = [] ∨ wireBlockSize values = 0
      · refine iff_of_true ?_ (Or.inr (hback.symm.imp_right readInBlocks_of_no_tokens))
        rw [tracedPairs_of_no_tokens hf hback, List.forall_mem_map]
        exact fun i _ => Or.inr rfl
      · obtain ⟨htokens, hsize⟩ := not_or.mp hback
        have hhashed : ∀ p ∈ tracedPairs sub.registeredBlockSize values, p.2 ≠ .blockHash p.1 := by
          rw [tracedPairs_of_tokens hf htokens hsize, List.forall_mem_map]
          exact fun p _ h => by cases h
        have hown : (∀ p ∈ tracedPairs sub.registeredBlockSize values,
            OwnTokens values p ∨ p.2 = .blockHash p.1) ↔
            ∀ p ∈ tracedPairs sub.registeredBlockSize values, OwnTokens values p :=
          forall₂_congr (fun p hp => or_iff_left (hhashed p hp))
        rw [hown, ownTokens_iff hf htokens hsize]
        simp [hf, hsize]

/-- The hashes of the tokens 1 and 2. -/
def tokenXxh3 (data : List UInt8) (seed : UInt64) : UInt64 :=
  if seed ≠ xxh3Seed then 0
  else if data = [1, 0, 0, 0] then 14426539925402682893
  else if data = [2, 0, 0, 0] then 132880511001376177
  else 0

/-- Two blocks of one token; the first block hash is not a number. -/
def shiftedValues : List Value :=
  [.array [.ofStr "not hex", .ofU64 102], .array [.ofI64 1, .ofI64 2], .ofU32 1]

/-- The second block hash is stored with the first token. -/
theorem shiftedValues_misaligned :
    storedPairs (computeBlockHashForSeq tokenXxh3) 1 shiftedValues =
        [(102, 14426539925402682893)] ∧
      ¬ ∀ p ∈ storedPairs (computeBlockHashForSeq tokenXxh3) 1 shiftedValues, ∃ i,
        (wireHashes shiftedValues)[i]?.bind flexHashFromRmpv = some p.1 ∧
          p.2 = hashI64Chunk tokenXxh3 ((blockPositions (wireBlockSize shiftedValues).toNat
            (wireTokens shiftedValues).length i).map
              (valueAt Value.asI64 (wireTokens shiftedValues) 0)) := by
  have hpairs : storedPairs (computeBlockHashForSeq tokenXxh3) 1 shiftedValues =
      [(102, 14426539925402682893)] := by decide
  refine ⟨hpairs, fun h => ?_⟩
  rw [hpairs] at h
  obtain ⟨i, hhash, htokens⟩ := h _ (List.mem_singleton_self _)
  match i with
  | 0 => exact absurd hhash (by decide)
  | 1 => exact absurd htokens (by decide)
  | i + 2 => cases hhash

end PyMotor.Conductor
