import PyMotor.Conductor.Protocols
import PyMotor.Lib.Chunks

/-!
# Block hashes of a token sequence

`compute_block_hash_for_seq` cuts the tokens into blocks and hashes each (`hashing.rs`). The last
block may be shorter than the others and is hashed like them. Long sequences are cut into batches
first, which gives the same blocks (`hashChunksParallel_eq`). So it makes no difference on which path a
sequence is hashed, nor whether its first blocks are hashed alone (`parallel_agrees_with_sequential`).

The hash function itself is external, the parameter `xxh3`.
-/

namespace PyMotor.Conductor

section Hashing

-- `xxh3_64_with_seed`
variable (xxh3 : List UInt8 → UInt64 → UInt64)

def xxh3Seed : UInt64 := 1337

/-- The number of blocks from which on batches are hashed in parallel. -/
def parThreshold : Nat := 2048

def parBatchBlocks : Nat := 1024

/-- The four bytes of a token, the lowest first. -/
def leBytes (x : UInt32) : List UInt8 :=
  [x.toUInt8, (x >>> 8).toUInt8, (x >>> 16).toUInt8, (x >>> 24).toUInt8]

def hashU32Chunk (chunk : List UInt32) : LocalBlockHash := xxh3 (chunk.flatMap leBytes) xxh3Seed

/-- Of a token the lower 32 bits are hashed. -/
def hashI64Chunk (chunk : List Int) : LocalBlockHash := hashU32Chunk xxh3 (chunk.map UInt32.ofInt)

def hashChunksSequential (tokens : List Int) (stride : Nat) : List LocalBlockHash :=
  (chunks stride tokens).map (hashI64Chunk xxh3)

def hashChunksParallel (tokens : List Int) (stride : Nat) : List LocalBlockHash :=
  (chunks (stride * parBatchBlocks) tokens).flatMap (fun batch =>
    (chunks (min stride batch.length) batch).map (hashI64Chunk xxh3))

def computeBlockHashForSeq (tokens : List Int) (blockSize : UInt32) : List LocalBlockHash :=
  if blockSize = 0 then []
  else if divCeil tokens.length blockSize.toNat ≤ parThreshold then
    hashChunksSequential xxh3 tokens blockSize.toNat
  else hashChunksParallel xxh3 tokens blockSize.toNat

variable {xxh3} {tokens : List Int} {blockSize : UInt32}

theorem hashChunksParallel_eq {stride : Nat} (h : 0 < stride) :
    hashChunksParallel xxh3 tokens stride = hashChunksSequential xxh3 tokens stride := by
  unfold hashChunksParallel hashChunksSequential
  rw [← List.map_flatMap, flatMap_chunks h (by decide)]

/-- **One hash for each block.** -/
theorem computeBlockHashForSeq_eq (h : 0 < blockSize.toNat) :
    computeBlockHashForSeq xxh3 tokens blockSize =
      (chunks blockSize.toNat tokens).map (hashI64Chunk xxh3) := by
  have hne : blockSize ≠ 0 := by
    rintro rfl
    exact Nat.lt_irrefl 0 h
  rw [computeBlockHashForSeq, if_neg hne]
  split
  · rfl
  · exact hashChunksParallel_eq h

theorem length_computeBlockHashForSeq (h : 0 < blockSize.toNat) :
    (computeBlockHashForSeq xxh3 tokens blockSize).length =
      divCeil tokens.length blockSize.toNat := by
  rw [computeBlockHashForSeq_eq h, List.length_map, length_chunks]

theorem length_hashChunksSequential {stride : Nat} (h : 0 < stride) :
    (hashChunksSequential xxh3 tokens stride).length = ⌈(tokens.length : ℚ) / stride⌉₊ := by
  rw [hashChunksSequential, List.length_map, length_chunks, divCeil_eq_ceil h]

theorem hashChunksSequential_isPrefix {stride : Nat} {head : List Int} (h : 0 < stride)
    (hfront : head <+: tokens) (hdvd : stride ∣ head.length) :
    hashChunksSequential xxh3 head stride <+: hashChunksSequential xxh3 tokens stride :=
  (chunks_isPrefix h hfront hdvd).map (hashI64Chunk xxh3)

/-- **Batches or not, a sequence has the same hashes**: one for each block, the last of which may be
shorter. Those of whole blocks in front come first, on whichever path these are hashed alone. -/
theorem parallel_agrees_with_sequential (xxh3 : List UInt8 → UInt64 → UInt64) (tokens : List Int)
    (blockSize : UInt32) (h : 1 ≤ blockSize) :
    hashChunksParallel xxh3 tokens blockSize.toNat = hashChunksSequential xxh3 tokens blockSize.toNat ∧
      (hashChunksParallel xxh3 tokens blockSize.toNat).length =
        ⌈(tokens.length : ℚ) / blockSize.toNat⌉₊ ∧
      computeBlockHashForSeq xxh3 tokens blockSize =
        hashChunksSequential xxh3 tokens blockSize.toNat ∧
      ∀ head, head <+: tokens → blockSize.toNat ∣ head.length →
        hashChunksParallel xxh3 head blockSize.toNat <+:
            hashChunksParallel xxh3 tokens blockSize.toNat ∧
          computeBlockHashForSeq xxh3 head blockSize <+:
            computeBlockHashForSeq xxh3 tokens blockSize := by
  have hpos : 0 < blockSize.toNat := UInt32.le_iff_toNat_le.mp h
  have hparallel (tokens : List Int) : hashChunksParallel xxh3 tokens blockSize.toNat =
      hashChunksSequential xxh3 tokens blockSize.toNat := hashChunksParallel_eq hpos
  have hauto (tokens : List Int) : computeBlockHashForSeq xxh3 tokens blockSize =
      hashChunksSequential xxh3 tokens blockSize.toNat := computeBlockHashForSeq_eq hpos
  refine ⟨hparallel tokens, ?_, hauto tokens, fun head hfront hdvd => ?_⟩
  · rw [hparallel]
    exact length_hashChunksSequential hpos
  · have hfirst : hashChunksSequential xxh3 head blockSize.toNat <+:
        hashChunksSequential xxh3 tokens blockSize.toNat :=
      hashChunksSequential_isPrefix hpos hfront hdvd
    rw [hparallel, hparallel, hauto, hauto]
    exact ⟨hfirst, hfirst⟩

/-- The hashes of four tokens 1 and of one. -/
def onesXxh3 (data : List UInt8) (seed : UInt64) : UInt64 :=
  if seed ≠ xxh3Seed then 0
  else if data = [1, 0, 0, 0, 1, 0, 0, 0, 1, 0, 0, 0, 1, 0, 0, 0] then 17197628134376687251
  else if data = [1, 0, 0, 0] then 14426539925402682893
  else 0

/-- A sequence of 2500 whole blocks and a rest is hashed in batches, and begins as its first two blocks,
which are hashed one after the other. -/
theorem manyOnes_agree :
    (1 : UInt32) ≤ 4 ∧
      (computeBlockHashForSeq onesXxh3 (List.replicate 10001 1) 4).length = 2501 ∧
      computeBlockHashForSeq onesXxh3 (List.replicate 8 1) 4 <+:
        computeBlockHashForSeq onesXxh3 (List.replicate 10001 1) 4 := by
  obtain ⟨hparallel, hlength, hauto, hhead⟩ :=
    parallel_agrees_with_sequential onesXxh3 (List.replicate 10001 1) 4 (by decide)
  refine ⟨by decide, ?_, (hhead (List.replicate 8 1) ?_ ?_).2⟩
  · have hfour : UInt32.toNat 4 = 4 := rfl
    rw [hauto, ← hparallel, hlength, List.length_replicate, hfour]
    norm_num [Nat.ceil_eq_iff]
  · exact ⟨List.replicate 9993 1, List.replicate_append_replicate⟩
  · rw [List.length_replicate]
    decide

end Hashing

end PyMotor.Conductor
