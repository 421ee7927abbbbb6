import Mathlib.Data.Int.Log
import Mathlib.Data.Rat.Floor
import PyMotor.Coordinator.InstanceManager.Pools
import PyMotor.Coordinator.WorkloadShm
import PyMotor.Lib.Struct

/-!
# The bytes of the workload segment

The segment is a buffer of bytes: a header of 64 bytes and entries of 24 bytes after it
(`workload_shm/layout.py`). The writer packs a header or an entry and copies it into the buffer, and it writes the
heartbeat into the middle of the header (`writer.py`).

A step copies a whole packed header, entry or heartbeat, and a read decodes the buffer as it is in one step. A copy
that is seen half done is left out, as it is of the segment.

`bytes_refine_segment` says that the buffer means the segment of the model: every run over bytes is a run of the
system with headers and slots, as long as the loads are doubles. No write touches a slot or a field that it
is not about.
-/

namespace PyMotor.Coordinator

/-! ## Doubles -/

namespace Double

/-- The number with these bits; the ones with the largest exponent are not numbers. -/
def ofBits (bits : ℕ) : ℚ :=
  let sign : ℚ := if bits / 2 ^ 63 % 2 = 1 then -1 else 1
  let exponent : ℕ := bits / 2 ^ 52 % 2 ^ 11
  let fraction : ℕ := bits % 2 ^ 52
  if exponent = 0 then sign * fraction * 2 ^ (-1074 : ℤ)
  else if exponent = 2047 then 0
  else sign * (2 ^ 52 + fraction) * 2 ^ ((exponent : ℤ) - 1075)

/-- The bits of a double. What is between two doubles is cut off. -/
def toBits (x : ℚ) : ℕ :=
  if x = 0 then 0
  else
    let sign := if x < 0 then 2 ^ 63 else 0
    let exponent := max (Int.log 2 |x|) (-1022)
    let fraction := ⌊|x| * 2 ^ (52 - exponent)⌋.toNat
    if fraction < 2 ^ 52 then sign + fraction
    else (sign + (exponent + 1023).toNat * 2 ^ 52 + (fraction - 2 ^ 52)) % 2 ^ 64

/-- The number is a double. -/
def IsDouble (x : ℚ) : Prop := ofBits (toBits x) = x ∧ toBits x < 2 ^ 64

instance (x : ℚ) : Decidable (IsDouble x) := inferInstanceAs (Decidable (_ ∧ _))

example : toBits 5 = 0x4014000000000000 ∧ toBits (-3 / 4) = 0xBFE8000000000000 ∧ IsDouble 5 ∧
    IsDouble (-3 / 4) ∧ ¬IsDouble (1 / 3) := by decide +kernel

end Double

/-! ## Layout -/

/-- `HEADER_FMT` -/
def headerFmt : List Field :=
  [.unsigned 4, .unsigned 2, .unsigned 2, .signed 8, .unsigned 4, .unsigned 4, .unsigned 8, .unsigned 8,
    .unsigned 8, .unsigned 8, .unsigned 8]

def heartbeatOffset : ℕ := 32

def heartbeatFmt : List Field := [.unsigned 8]

/-- `ENTRY_FMT`; a double is packed as its bits. -/
def entryFmt : List Field := [.signed 4, .signed 4, .unsigned 1, .pad 3, .unsigned 8, .pad 4]

def totalSize (maxEntries : ℕ) : ℕ := headerSize + maxEntries * entrySize

def entryOffset (slot : ℕ) : ℕ := headerSize + slot * entrySize

/-- An unsigned field of the header. -/
def normalizeUint64 (x : ℕ) : ℕ := if 2 ^ 64 - 1 < x then x % 2 ^ 64 else x

def packHeaderBytes (h : WorkloadShmHeader) : Option (List UInt8) :=
  pack headerFmt [h.magic, h.schemaVersion, 0, h.sequence, h.entryCount, h.maxEntries,
    normalizeUint64 h.instanceVersion, normalizeUint64 h.heartbeatSequence,
    normalizeUint64 h.prefillSequence, normalizeUint64 h.decodeSequence,
    normalizeUint64 h.hybridSequence]

/-- The fields of a header; no number in it is negative. -/
def headerOf : List ℤ → Option WorkloadShmHeader
  | [magic, schemaVersion, _, sequence, entryCount, maxEntries, instanceVersion, heartbeatSequence,
      prefillSequence, decodeSequence, hybridSequence] =>
    some ⟨magic.toNat, schemaVersion.toNat, sequence.toNat, entryCount.toNat, maxEntries.toNat,
      instanceVersion.toNat, heartbeatSequence.toNat, prefillSequence.toNat, decodeSequence.toNat,
      hybridSequence.toNat⟩
  | _ => none

def unpackHeader (buf : List UInt8) : Option WorkloadShmHeader :=
  (unpack headerFmt (slice buf 0 headerSize)).bind headerOf

def packEntryBytes (e : WorkloadShmEntry) : Option (List UInt8) :=
  pack entryFmt [e.instanceId, e.endpointId, e.role, Double.toBits e.activeTokens]

def entryOf : List ℤ → Option WorkloadShmEntry
  | [instanceId, endpointId, role, activeTokens] =>
    some ⟨instanceId, endpointId, role.toNat, Double.ofBits activeTokens.toNat⟩
  | _ => none

def unpackEntry (buf : List UInt8) (slot : ℕ) : Option WorkloadShmEntry :=
  (unpack entryFmt (slice buf (entryOffset slot) entrySize)).bind entryOf

/-- What a buffer means. What does not lie in it counts as zero. -/
def segmentOf (buf : List UInt8) : Segment where
  size := buf.length
  header := (unpackHeader buf).getD ⟨0, 0, 0, 0, 0, 0, 0, 0, 0, 0⟩
  slots slot := (unpackEntry buf slot).getD ⟨0, 0, 0, 0⟩

/-! ## The system over bytes -/

/-- The segment as a buffer; what is written at a time is the packed bytes of a header, an entry or a heartbeat. -/
structure ByteShm (ι : Type) where
  writer : Writer
  buf : List UInt8
  readers : ι → Reader

namespace ByteShm

variable {ι : Type}

/-- A new block of shared memory is all zeros. -/
def new (maxEntries size : ℕ) : ByteShm ι := ⟨.new maxEntries, List.replicate size 0, fun _ => .new⟩

/-- The system whose segment the buffer means. -/
def system (s : ByteShm ι) : ShmSystem ι := ⟨s.writer, segmentOf s.buf, s.readers⟩

def currentHeartbeat (s : ByteShm ι) : Option ℕ :=
  match unpack heartbeatFmt (slice s.buf heartbeatOffset 8) with
  | some [heartbeat] => some heartbeat.toNat
  | _ => none

/-- A write that raises is given up. -/
def writeBytes (s : ByteShm ι) (w : Writer) (offset : ℕ) (data : Option (List UInt8)) (next : WriterPc) :
    ByteShm ι :=
  match data.bind (splice s.buf offset) with
  | none => { s with writer := { w with pc := .idle } }
  | some buf => { s with writer := { w with pc := next }, buf := buf }

/-- The newer of the two heartbeats is kept, if the one in the buffer can be read. -/
def writeHeader (s : ByteShm ι) (next : WriterPc) : ByteShm ι :=
  let w := { s.writer with
    heartbeatSequence := match s.currentHeartbeat with
      | some heartbeat => max s.writer.heartbeatSequence heartbeat
      | none => s.writer.heartbeatSequence }
  s.writeBytes w 0 (packHeaderBytes w.header) next

def writeEntryAtSlot (s : ByteShm ι) (slot : ℕ) (entry : WorkloadShmEntry) (next : WriterPc) : ByteShm ι :=
  s.writeBytes s.writer (entryOffset slot) (packEntryBytes entry) next

def writeStep (s : ByteShm ι) : Option (ByteShm ι) :=
  match s.writer.pc with
  | .idle => none
  | .begin todo fin => some (s.writeHeader (.entries todo fin))
  | .entries [] fin => some { s with writer := (s.writer.finish fin).endWrite }
  | .entries ((slot, entry) :: todo) fin => some (s.writeEntryAtSlot slot entry (.entries todo fin))
  | .ending => some (s.writeHeader .idle)

def writeHeartbeat (s : ByteShm ι) : ByteShm ι :=
  let heartbeat := (s.writer.heartbeatSequence + 1) % 2 ^ 64
  { s with
    writer := { s.writer with heartbeatSequence := heartbeat }
    buf := ((pack heartbeatFmt [heartbeat]).bind (splice s.buf heartbeatOffset)).getD s.buf }

/-- A reader reads what the buffer means. -/
def exec [DecidableEq ι] (s : ByteShm ι) : ShmStep ι → Option (ByteShm ι)
  | .writeSnapshot available =>
    match s.writer.pc with
    | .idle => some { s with writer := s.writer.writeSnapshot available }
    | _ => none
  | .writeSingleEntry instanceId endpointId role workload available =>
    match s.writer.pc with
    | .idle =>
      let w := s.writer.writeSingleEntry instanceId endpointId role workload available
      some { s with writer := w }
    | _ => none
  | .write => s.writeStep
  | .heartbeat => some s.writeHeartbeat
  | .call i role =>
    match (s.readers i).pc with
    | .idle =>
      let r := { s.readers i with pc := .header role Reader.stableSnapshotReadAttempts }
      some { s with readers := Function.update s.readers i r }
    | _ => none
  | .read i now =>
    ((s.readers i).step (segmentOf s.buf) now).map fun r =>
      { s with readers := Function.update s.readers i r }

end ByteShm

/-! ## What a write means -/

theorem unpack_of_length {fields : List Field} {bytes : List UInt8} (h : bytes.length = calcsize fields) :
    unpack fields bytes = some (unpackFields fields bytes) := if_pos h

theorem unpackHeader_eq {buf : List UInt8} (h : headerSize ≤ buf.length) :
    unpackHeader buf = headerOf (unpackFields headerFmt (slice buf 0 headerSize)) := by
  have hlength : (slice buf 0 headerSize).length = calcsize headerFmt := length_slice (by rwa [Nat.zero_add])
  rw [unpackHeader, unpack_of_length hlength, Option.bind_some]

theorem unpackEntry_eq {buf : List UInt8} {slot : ℕ} (h : entryOffset slot + entrySize ≤ buf.length) :
    unpackEntry buf slot = entryOf (unpackFields entryFmt (slice buf (entryOffset slot) entrySize)) := by
  have hlength : (slice buf (entryOffset slot) entrySize).length = calcsize entryFmt := length_slice h
  rw [unpackEntry, unpack_of_length hlength, Option.bind_some]

theorem normalizeUint64_eq (x : ℕ) : normalizeUint64 x = x % 2 ^ 64 := by
  unfold normalizeUint64
  split
  · rfl
  · rw [Nat.mod_eq_of_lt (by omega)]

theorem normalizeUint64_lt (x : ℕ) : normalizeUint64 x < 2 ^ 64 := by
  rw [normalizeUint64_eq]
  exact Nat.mod_lt x (by decide)

/-- A header is packed into bytes if it is packed in the model, and means the same. -/
theorem packHeaderBytes_cases {h : WorkloadShmHeader} (hmagic : h.magic < 2 ^ 32)
    (hschema : h.schemaVersion < 2 ^ 16) :
    packHeader h = none ∧ packHeaderBytes h = none ∨
      ∃ h' bytes, packHeader h = some h' ∧ packHeaderBytes h = some bytes ∧ bytes.length = headerSize ∧
        headerOf (unpackFields headerFmt bytes) = some h' := by
  have hsome := pack_isSome_iff headerFmt [h.magic, h.schemaVersion, 0, h.sequence, h.entryCount,
    h.maxEntries, normalizeUint64 h.instanceVersion, normalizeUint64 h.heartbeatSequence,
    normalizeUint64 h.prefillSequence, normalizeUint64 h.decodeSequence, normalizeUint64 h.hybridSequence]
  have hfitting : (packHeaderBytes h).isSome = true ↔
      h.sequence < 2 ^ 63 ∧ h.entryCount < 2 ^ 32 ∧ h.maxEntries < 2 ^ 32 := by
    rw [packHeaderBytes, hsome]
    have h1 := normalizeUint64_lt h.instanceVersion
    have h2 := normalizeUint64_lt h.heartbeatSequence
    have h3 := normalizeUint64_lt h.prefillSequence
    have h4 := normalizeUint64_lt h.decodeSequence
    have h5 := normalizeUint64_lt h.hybridSequence
    simp only [headerFmt, Fitting, Field.Fits]
    norm_num
    omega
  unfold packHeader
  split
  · next hfits =>
    obtain ⟨bytes, hbytes⟩ := Option.isSome_iff_exists.mp (hfitting.mpr hfits)
    obtain ⟨hlength, hunpack⟩ := unpackFields_pack hbytes
    replace hunpack := hunpack []
    rw [List.append_nil] at hunpack
    refine Or.inr ⟨_, bytes, rfl, hbytes, hlength, ?_⟩
    rw [hunpack]
    simp only [headerOf, Int.toNat_natCast, normalizeUint64_eq]
  · next hfits =>
    refine Or.inl ⟨rfl, ?_⟩
    rw [← Option.not_isSome_iff_eq_none]
    exact fun hbytes => hfits (hfitting.mp hbytes)

theorem fits_signed_four (x : ℤ) : Field.Fits (.signed 4) x ↔ -2 ^ 31 ≤ x ∧ x < 2 ^ 31 := by
  unfold Field.Fits
  omega

theorem fits_unsigned (width n : ℕ) : Field.Fits (.unsigned width) n ↔ n < 256 ^ width := by
  rw [Field.Fits]
  have hcast : ((n : ℤ) < 256 ^ width) ↔ n < 256 ^ width := by exact_mod_cast Iff.rfl
  rw [hcast]
  exact and_iff_right (Int.natCast_nonneg n)

theorem packEntryBytes_cases {e : WorkloadShmEntry} (hrole : e.role < 256)
    (hdouble : Double.IsDouble e.activeTokens) :
    packEntry e = none ∧ packEntryBytes e = none ∨
      ∃ bytes, packEntry e = some e ∧ packEntryBytes e = some bytes ∧ bytes.length = entrySize ∧
        entryOf (unpackFields entryFmt bytes) = some e := by
  have hsome := pack_isSome_iff entryFmt [e.instanceId, e.endpointId, e.role, Double.toBits e.activeTokens]
  have hfitting : (packEntryBytes e).isSome = true ↔ -2 ^ 31 ≤ e.instanceId ∧ e.instanceId < 2 ^ 31 ∧
      -2 ^ 31 ≤ e.endpointId ∧ e.endpointId < 2 ^ 31 := by
    rw [packEntryBytes, hsome]
    simp only [entryFmt, Fitting, fits_signed_four, fits_unsigned]
    have hbits : Double.toBits e.activeTokens < 256 ^ 8 := hdouble.2
    have hbyte : e.role < 256 ^ 1 := hrole
    exact ⟨fun h => ⟨h.1.1, h.1.2, h.2.1.1, h.2.1.2⟩,
      fun h => ⟨⟨h.1, h.2.1⟩, ⟨h.2.2.1, h.2.2.2⟩, hbyte, hbits, trivial⟩⟩
  unfold packEntry
  split
  · next hfits =>
    obtain ⟨bytes, hbytes⟩ := Option.isSome_iff_exists.mp (hfitting.mpr hfits)
    obtain ⟨hlength, hunpack⟩ := unpackFields_pack hbytes
    replace hunpack := hunpack []
    rw [List.append_nil] at hunpack
    refine Or.inr ⟨bytes, rfl, hbytes, hlength, ?_⟩
    rw [hunpack]
    simp only [entryOf, Int.toNat_natCast, hdouble.1]
  · next hfits =>
    refine Or.inl ⟨rfl, ?_⟩
    rw [← Option.not_isSome_iff_eq_none]
    exact fun hbytes => hfits (hfitting.mp hbytes)

section Writes

variable {buf buf' data : List UInt8}

/-- The slots of a buffer are those of another one if they lie there alike. -/
theorem slots_eq {slot : ℕ}
    (hslice : slice buf' (entryOffset slot) entrySize = slice buf (entryOffset slot) entrySize) :
    (segmentOf buf').slots slot = (segmentOf buf).slots slot := by
  show (unpackEntry buf' slot).getD _ = (unpackEntry buf slot).getD _
  rw [unpackEntry, unpackEntry, hslice]

theorem segmentOf_header {h : WorkloadShmHeader} (hsplice : splice buf 0 data = some buf')
    (hlength : data.length = headerSize) (hdata : headerOf (unpackFields headerFmt data) = some h) :
    segmentOf buf' = { segmentOf buf with header := h } := by
  have hsize := length_splice hsplice
  have hle := (splice_eq_some hsplice).1
  have hheader : unpackHeader buf' = some h := by
    rw [unpackHeader_eq (by omega), ← hlength, slice_splice_self hsplice, hdata]
  have hslots : (segmentOf buf').slots = (segmentOf buf).slots := by
    funext slot
    apply slots_eq
    apply slice_splice_of_disjoint hsplice
    unfold entryOffset
    omega
  unfold segmentOf at hslots ⊢
  simp only [Segment.mk.injEq] at hslots ⊢
  exact ⟨hsize, by rw [hheader, Option.getD_some], hslots⟩

theorem segmentOf_entry {slot : ℕ} {e : WorkloadShmEntry}
    (hsplice : splice buf (entryOffset slot) data = some buf') (hlength : data.length = entrySize)
    (hdata : entryOf (unpackFields entryFmt data) = some e) :
    segmentOf buf' =
      { segmentOf buf with slots := Function.update (segmentOf buf).slots slot e } := by
  have hsize := length_splice hsplice
  have hle := (splice_eq_some hsplice).1
  have hheader : unpackHeader buf' = unpackHeader buf := by
    rw [unpackHeader, unpackHeader, slice_splice_of_disjoint hsplice]
    unfold entryOffset
    omega
  have hslots : (segmentOf buf').slots = Function.update (segmentOf buf).slots slot e := by
    funext slot'
    by_cases hslot : slot' = slot
    · subst hslot
      rw [Function.update_self]
      show (unpackEntry buf' slot').getD _ = e
      rw [unpackEntry_eq (by omega), ← hlength, slice_splice_self hsplice, hdata, Option.getD_some]
    · rw [Function.update_of_ne hslot]
      apply slots_eq
      apply slice_splice_of_disjoint hsplice
      -- slots are as long as entries
      rw [hlength]
      unfold entryOffset entrySize
      omega
  unfold segmentOf at hslots ⊢
  simp only [Segment.mk.injEq] at hslots ⊢
  exact ⟨hsize, by rw [hheader], hslots⟩

theorem unpackHeader_parts (h : headerSize ≤ buf.length) : unpackHeader buf =
    headerOf (unpackFields (headerFmt.take 7) (slice buf 0 heartbeatOffset) ++
      (unpackFields heartbeatFmt (slice buf heartbeatOffset 8) ++
        unpackFields (headerFmt.drop 8) (slice buf 40 24))) := by
  rw [unpackHeader_eq h]
  have hfirst := unpackFields_slice_append (headerFmt.take 7) (heartbeatFmt ++ headerFmt.drop 8) buf 0
  have hsecond := unpackFields_slice_append heartbeatFmt (headerFmt.drop 8) buf heartbeatOffset
  exact congrArg headerOf (hfirst.trans (congrArg _ hsecond))

theorem heartbeat_eq (h : headerSize ≤ buf.length) : unpack heartbeatFmt (slice buf heartbeatOffset 8) =
    some [((segmentOf buf).header.heartbeatSequence : ℤ)] := by
  have hlength : (slice buf heartbeatOffset 8).length = calcsize heartbeatFmt :=
    length_slice (by unfold headerSize at h; unfold heartbeatOffset; omega)
  have hheader := unpackHeader_parts h
  rw [unpack_of_length hlength]
  show some [(leNat _ : ℤ)] = some [(((unpackHeader buf).getD _).heartbeatSequence : ℤ)]
  rw [hheader]
  rfl

theorem headerOf_heartbeat {before after : List ℤ} (hbefore : before.length = 7) (hafter : after.length = 3)
    (x y : ℤ) (none : WorkloadShmHeader) : (headerOf (before ++ ([x] ++ after))).getD none =
      { (headerOf (before ++ ([y] ++ after))).getD none with heartbeatSequence := x.toNat } := by
  match before, after with
  | [_, _, _, _, _, _, _], [_, _, _] => rfl

theorem segmentOf_heartbeat {heartbeat : ℕ} (hsplice : splice buf heartbeatOffset data = some buf')
    (h : headerSize ≤ buf.length) (hlength : data.length = 8)
    (hdata : unpackFields heartbeatFmt data = [(heartbeat : ℤ)]) :
    segmentOf buf' = { segmentOf buf with
      header := { (segmentOf buf).header with heartbeatSequence := heartbeat } } := by
  have hsize := length_splice hsplice
  have hbefore : slice buf' 0 heartbeatOffset = slice buf 0 heartbeatOffset :=
    slice_splice_of_disjoint hsplice (Or.inl (by omega))
  have hafter : slice buf' 40 24 = slice buf 40 24 :=
    slice_splice_of_disjoint hsplice (Or.inr (by unfold heartbeatOffset; omega))
  have hself : slice buf' heartbeatOffset 8 = data := hlength ▸ slice_splice_self hsplice
  have hslots : (segmentOf buf').slots = (segmentOf buf).slots := by
    funext slot
    apply slots_eq
    apply slice_splice_of_disjoint hsplice
    unfold entryOffset headerSize heartbeatOffset
    omega
  have hheader : (segmentOf buf').header =
      { (segmentOf buf).header with heartbeatSequence := heartbeat } := by
    show (unpackHeader buf').getD _ = { (unpackHeader buf).getD _ with heartbeatSequence := heartbeat }
    rw [unpackHeader_parts (hsize ▸ h), unpackHeader_parts h, hbefore, hafter, hself, hdata]
    exact headerOf_heartbeat rfl rfl heartbeat _ _
  unfold segmentOf at hslots hheader ⊢
  simp only [Segment.mk.injEq] at hslots hheader ⊢
  exact ⟨hsize, hheader, hslots⟩

end Writes

/-! ## Refinement -/

/-- The entries that a write has still to copy. -/
def WriterPc.todo : WriterPc → List (ℕ × WorkloadShmEntry)
  | .idle => []
  | .begin todo _ => todo
  | .entries todo _ => todo
  | .ending => []

/-- The loads that a step publishes are doubles. -/
def LoadsAreDoubles {ι : Type} : ShmStep ι → Prop
  | .writeSnapshot available => ∀ role, ∀ inst ∈ available role, ∀ ep ∈ inst.allEndpoints,
      Double.IsDouble ep.workload.activeTokens
  | .writeSingleEntry _ _ _ workload available =>
    (∀ w ∈ workload, Double.IsDouble w.activeTokens) ∧ ∀ role, ∀ inst ∈ available role,
      ∀ ep ∈ inst.allEndpoints, Double.IsDouble ep.workload.activeTokens
  | _ => True

/-- An entry that lies in the buffer and can be packed if its ids can. -/
def Packable (maxEntries : ℕ) (p : ℕ × WorkloadShmEntry) : Prop :=
  p.1 < maxEntries ∧ p.2.role < 256 ∧ Double.IsDouble p.2.activeTokens

namespace Writer

structure Laid (w : Writer) : Prop where
  slotMap : ∀ key slot, w.slotMap.get? key = some slot → slot < w.maxEntries
  todo : ∀ p ∈ w.pc.todo, Packable w.maxEntries p

variable {w : Writer} {available : PDRole → List Instance}

theorem role_lt (role : PDRole) : pdroleToShmRole role < 256 := by
  cases role <;> decide

theorem packable_collect (hloads : ∀ role, ∀ inst ∈ available role, ∀ ep ∈ inst.allEndpoints,
    Double.IsDouble ep.workload.activeTokens) (maxEntries : ℕ) :
    ∀ p ∈ (collectEntriesAndSlotMap available maxEntries).1.zipIdx, Packable maxEntries (p.2, p.1) := by
  rintro ⟨entry, slot⟩ hmem
  have hget := List.mem_zipIdx_iff_getElem?.mp hmem
  obtain ⟨hlt, -⟩ := List.getElem?_eq_some_iff.mp hget
  unfold collectEntriesAndSlotMap at hlt hget
  have hslot : slot < maxEntries := Nat.lt_of_lt_of_le hlt (List.length_take_le _ _)
  have hrow := List.mem_of_mem_take (List.mem_of_getElem? hget)
  obtain ⟨role, -, hrow⟩ := List.mem_flatMap.mp hrow
  obtain ⟨inst, hinst, hrow⟩ := List.mem_flatMap.mp hrow
  obtain ⟨ep, hep, rfl⟩ := List.mem_map.mp hrow
  exact ⟨hslot, role_lt role, hloads role inst hinst ep hep⟩

theorem laid_writeSnapshot (hloads : ∀ role, ∀ inst ∈ available role, ∀ ep ∈ inst.allEndpoints,
    Double.IsDouble ep.workload.activeTokens) : (w.writeSnapshot available).Laid where
  slotMap := by
    intro key slot hget
    rcases Dict.of_get?_foldl_insert
      (f := fun p : WorkloadShmEntry × ℕ => (p.1.instanceId, p.1.endpointId)) (g := Prod.snd) _ _ hget with
      hempty | ⟨p, hp, -, rfl⟩
    · cases hempty
    · exact (packable_collect hloads w.maxEntries p hp).1
  todo := by
    intro p hp
    obtain ⟨q, hq, rfl⟩ := List.mem_map.mp hp
    exact packable_collect hloads w.maxEntries q hq

theorem laid_writeSingleEntry (h : w.Laid) {instanceId : InstanceId} {endpointId : EndpointId}
    {role : Option PDRole} {workload : Option Workload}
    (hload : ∀ w ∈ workload, Double.IsDouble w.activeTokens)
    (hloads : ∀ role, ∀ inst ∈ available role, ∀ ep ∈ inst.allEndpoints,
      Double.IsDouble ep.workload.activeTokens) :
    (w.writeSingleEntry instanceId endpointId role workload available).Laid := by
  unfold writeSingleEntry
  split
  · exact laid_writeSnapshot hloads
  · next slot hslot =>
    split
    · refine ⟨h.slotMap, fun p hp => ?_⟩
      rw [List.mem_singleton.mp hp]
      exact ⟨h.slotMap _ _ hslot, role_lt _, hload _ rfl⟩
    · exact h

end Writer

namespace ByteShm

variable {ι : Type} {s s' : ByteShm ι}

/-- All slots of the writer lie in the buffer. -/
structure Laid (s : ByteShm ι) : Prop where
  size : totalSize s.writer.maxEntries ≤ s.buf.length
  writer : s.writer.Laid

theorem Laid.headerSize_le (h : Laid s) : headerSize ≤ s.buf.length :=
  Nat.le_trans (Nat.le_add_right _ _) h.size

theorem currentHeartbeat_eq (h : Laid s) :
    s.currentHeartbeat = some (segmentOf s.buf).header.heartbeatSequence := by
  rw [currentHeartbeat, heartbeat_eq h.headerSize_le]
  rfl

theorem writeBytes_some {w : Writer} {offset : ℕ} {data buf : List UInt8} {next : WriterPc}
    (hsplice : splice s.buf offset data = some buf) :
    s.writeBytes w offset (some data) next = { s with writer := { w with pc := next }, buf := buf } := by
  rw [writeBytes, Option.bind_some, hsplice]

theorem splice_of_le (buf data : List UInt8) (offset : ℕ) (h : offset + data.length ≤ buf.length) :
    ∃ buf', splice buf offset data = some buf' :=
  ⟨_, if_pos h⟩

theorem writeBytes_header (h : Laid s) {w : Writer} {next : WriterPc}
    (hmax : w.maxEntries = s.writer.maxEntries) (hslotMap : w.slotMap = s.writer.slotMap)
    (hnext : ∀ p ∈ next.todo, Packable s.writer.maxEntries p) :
    Laid (s.writeBytes w 0 (packHeaderBytes w.header) next) ∧
      (s.writeBytes w 0 (packHeaderBytes w.header) next).system =
        match packHeader w.header with
        | none => { s.system with writer := { w with pc := .idle } }
        | some h => { s.system with
            writer := { w with pc := next }
            segment := { s.system.segment with header := h } } := by
  have hslots : ∀ key slot, w.slotMap.get? key = some slot → slot < w.maxEntries := by
    rw [hmax, hslotMap]
    exact h.writer.slotMap
  rcases packHeaderBytes_cases (h := w.header) (by decide : magicNumber < 2 ^ 32)
    (by decide : schemaVersion < 2 ^ 16) with
    ⟨hnone, hbytes⟩ | ⟨h', bytes, hsome, hbytes, hlength, hmeans⟩
  · rw [hnone, hbytes]
    exact ⟨⟨hmax ▸ h.size, hslots, fun _ hp => nomatch hp⟩, rfl⟩
  · obtain ⟨buf, hsplice⟩ := splice_of_le s.buf bytes 0
      (by rw [hlength, Nat.zero_add]; exact h.headerSize_le)
    rw [hsome, hbytes, writeBytes_some hsplice]
    refine ⟨⟨?_, hslots, hmax ▸ hnext⟩, ?_⟩
    · show totalSize w.maxEntries ≤ buf.length
      rw [hmax, length_splice hsplice]
      exact h.size
    · show ShmSystem.mk _ (segmentOf buf) _ = _
      rw [segmentOf_header hsplice hlength hmeans]
      rfl

theorem writeHeader_system (h : Laid s) (next : WriterPc)
    (hnext : ∀ p ∈ next.todo, Packable s.writer.maxEntries p) :
    Laid (s.writeHeader next) ∧ (s.writeHeader next).system = s.system.writeHeader next := by
  unfold writeHeader
  rw [currentHeartbeat_eq h]
  exact writeBytes_header h rfl rfl hnext

theorem writeEntryAtSlot_system (h : Laid s) {slot : ℕ} {entry : WorkloadShmEntry} (next : WriterPc)
    (hentry : Packable s.writer.maxEntries (slot, entry))
    (hnext : ∀ p ∈ next.todo, Packable s.writer.maxEntries p) :
    Laid (s.writeEntryAtSlot slot entry next) ∧
      (s.writeEntryAtSlot slot entry next).system = s.system.writeEntryAtSlot slot entry next := by
  obtain ⟨hslot, hrole, hdouble⟩ := hentry
  unfold writeEntryAtSlot ShmSystem.writeEntryAtSlot
  rcases packEntryBytes_cases hrole hdouble with ⟨hnone, hbytes⟩ | ⟨bytes, hsome, hbytes, hlength, hmeans⟩
  · rw [hnone, hbytes]
    exact ⟨⟨h.size, h.writer.slotMap, fun _ hp => nomatch hp⟩, rfl⟩
  · have hfits : entryOffset slot + bytes.length ≤ s.buf.length :=
      calc entryOffset slot + bytes.length = headerSize + (slot + 1) * entrySize := by
            rw [hlength, entryOffset, Nat.succ_mul, Nat.add_assoc]
        _ ≤ totalSize s.writer.maxEntries :=
            Nat.add_le_add_left (Nat.mul_le_mul_right entrySize hslot) headerSize
        _ ≤ s.buf.length := h.size
    obtain ⟨buf, hsplice⟩ := splice_of_le _ _ _ hfits
    rw [hsome, hbytes, writeBytes_some hsplice]
    refine ⟨⟨?_, h.writer.slotMap, hnext⟩, ?_⟩
    · show totalSize s.writer.maxEntries ≤ buf.length
      rw [length_splice hsplice]
      exact h.size
    · show ShmSystem.mk _ (segmentOf buf) _ = _
      rw [segmentOf_entry hsplice hlength hmeans]
      rfl

theorem writeHeartbeat_system (h : Laid s) :
    Laid s.writeHeartbeat ∧ s.writeHeartbeat.system = s.system.writeHeartbeat := by
  unfold writeHeartbeat ShmSystem.writeHeartbeat
  simp only
  have hlt : (s.writer.heartbeatSequence + 1) % 2 ^ 64 < 2 ^ 64 := Nat.mod_lt _ (by decide)
  have hheartbeat : ((s.system.writer.heartbeatSequence + 1) % 2 ^ 64) =
      (s.writer.heartbeatSequence + 1) % 2 ^ 64 := rfl
  rw [hheartbeat]
  generalize (s.writer.heartbeatSequence + 1) % 2 ^ 64 = heartbeat at hlt ⊢
  obtain ⟨bytes, hbytes⟩ := Option.isSome_iff_exists.mp
    ((pack_isSome_iff heartbeatFmt [(heartbeat : ℤ)]).mpr ⟨(fits_unsigned 8 heartbeat).mpr hlt, trivial⟩)
  obtain ⟨hlength, hmeans⟩ := unpackFields_pack hbytes
  replace hmeans := hmeans []
  rw [List.append_nil] at hmeans
  have hheader := h.headerSize_le
  obtain ⟨buf, hsplice⟩ := splice_of_le s.buf bytes heartbeatOffset
    (by rw [hlength]; exact Nat.le_trans (by decide) hheader)
  rw [hbytes, Option.bind_some, hsplice, Option.getD_some]
  refine ⟨⟨?_, h.writer.slotMap, h.writer.todo⟩, ?_⟩
  · show totalSize s.writer.maxEntries ≤ buf.length
    rw [length_splice hsplice]
    exact h.size
  · show ShmSystem.mk _ (segmentOf buf) _ = _
    rw [segmentOf_heartbeat hsplice hheader hlength hmeans]
    rfl

theorem finish_kept (w : Writer) (fin : Finish) : (w.finish fin).maxEntries = w.maxEntries ∧
    (w.finish fin).slotMap = w.slotMap := by
  cases fin with
  | snapshot entries => exact ⟨rfl, rfl⟩
  | single role =>
    show (w.bumpRoleSequence role).maxEntries = _ ∧ (w.bumpRoleSequence role).slotMap = _
    unfold Writer.bumpRoleSequence
    split <;> exact ⟨rfl, rfl⟩

theorem writeStep_system (h : Laid s) (hexec : s.writeStep = some s') :
    Laid s' ∧ s.system.writeStep = some s'.system := by
  have htodo := h.writer.todo
  have hpcs : s.system.writer.pc = s.writer.pc := rfl
  unfold writeStep at hexec
  unfold ShmSystem.writeStep
  rw [hpcs]
  cases hpc : s.writer.pc with
  | idle =>
    rw [hpc] at hexec
    cases hexec
  | begin todo fin =>
    rw [hpc] at hexec htodo
    obtain rfl := Option.some.inj hexec
    obtain ⟨hlaid, hsystem⟩ := writeHeader_system h (.entries todo fin) htodo
    exact ⟨hlaid, congrArg some hsystem.symm⟩
  | entries todo fin =>
    rw [hpc] at hexec htodo
    cases todo with
    | nil =>
      obtain rfl := Option.some.inj hexec
      obtain ⟨hmax, hslotMap⟩ := finish_kept s.writer fin
      refine ⟨⟨?_, ⟨?_, fun _ hp => nomatch hp⟩⟩, rfl⟩
      · show totalSize (s.writer.finish fin).maxEntries ≤ _
        rw [hmax]
        exact h.size
      · show ∀ key slot, (s.writer.finish fin).slotMap.get? key = some slot →
          slot < (s.writer.finish fin).maxEntries
        rw [hmax, hslotMap]
        exact h.writer.slotMap
    | cons p todo =>
      obtain rfl := Option.some.inj hexec
      obtain ⟨hlaid, hsystem⟩ := writeEntryAtSlot_system h (.entries todo fin)
        (htodo _ List.mem_cons_self) fun p hp => htodo p (List.mem_cons_of_mem _ hp)
      exact ⟨hlaid, congrArg some hsystem.symm⟩
  | ending =>
    rw [hpc] at hexec
    obtain rfl := Option.some.inj hexec
    obtain ⟨hlaid, hsystem⟩ := writeHeader_system h .idle fun _ hp => nomatch hp
    exact ⟨hlaid, congrArg some hsystem.symm⟩

theorem writeSingleEntry_maxEntries (w : Writer) (instanceId : InstanceId) (endpointId : EndpointId)
    (role : Option PDRole) (workload : Option Workload) (available : PDRole → List Instance) :
    (w.writeSingleEntry instanceId endpointId role workload available).maxEntries = w.maxEntries := by
  unfold Writer.writeSingleEntry
  split
  · rfl
  · split <;> rfl

theorem slice_zeros {size offset n : ℕ} (h : offset + n ≤ size) :
    slice (List.replicate size 0) offset n = List.replicate n 0 := by
  rw [slice, List.drop_replicate, List.take_replicate, Nat.min_eq_left (by omega)]

theorem system_new {maxEntries size : ℕ} (h : totalSize maxEntries ≤ size) :
    (new maxEntries size : ByteShm ι).system = .new maxEntries size := by
  have hheader : headerSize ≤ size := Nat.le_trans (Nat.le_add_right _ _) h
  have hzeros : (segmentOf (List.replicate size 0)).header = ⟨0, 0, 0, 0, 0, 0, 0, 0, 0, 0⟩ := by
    show (unpackHeader _).getD _ = _
    rw [unpackHeader_eq (by rwa [List.length_replicate]), slice_zeros (by omega)]
    decide +kernel
  have hslots : (segmentOf (List.replicate size 0)).slots = fun _ => ⟨0, 0, 0, 0⟩ := by
    funext slot
    show (unpackEntry _ slot).getD _ = _
    by_cases hlies : entryOffset slot + entrySize ≤ size
    · rw [unpackEntry_eq (by rwa [List.length_replicate]), slice_zeros hlies]
      decide +kernel
    · have hshort : (slice (List.replicate size 0) (entryOffset slot) entrySize).length ≠
          calcsize entryFmt := by
        rw [slice, List.length_take, List.length_drop, List.length_replicate]
        show min entrySize (size - entryOffset slot) ≠ entrySize
        have hpos : 0 < entrySize := by decide
        omega
      rw [unpackEntry, unpack, if_neg hshort]
      rfl
  show ShmSystem.mk _ ⟨(List.replicate size 0).length, _, _⟩ _ = ShmSystem.mk _ ⟨size, _, _⟩ _
  rw [List.length_replicate]
  exact congrArg₂ (fun header slots => ShmSystem.mk _ ⟨size, header, slots⟩ _) hzeros hslots

theorem laid_new {maxEntries size : ℕ} (h : totalSize maxEntries ≤ size) :
    Laid (new maxEntries size : ByteShm ι) :=
  ⟨h.trans_eq (List.length_replicate).symm, ⟨fun _ _ hget => (nomatch hget), fun _ hp => (nomatch hp)⟩⟩

variable [DecidableEq ι] {step : ShmStep ι}

/-- **A step over bytes is a step of the model.** -/
theorem exec_system (h : Laid s) (hloads : LoadsAreDoubles step) (hexec : s.exec step = some s') :
    Laid s' ∧ s.system.exec step = some s'.system := by
  cases step with
  | writeSnapshot available =>
    simp only [exec] at hexec
    split at hexec
    · next hpc =>
      cases hexec
      have hsystem : s.system.writer.pc = .idle := hpc
      refine ⟨⟨h.size, Writer.laid_writeSnapshot hloads⟩, ?_⟩
      simp only [ShmSystem.exec, hsystem]
      rfl
    · cases hexec
  | writeSingleEntry instanceId endpointId role workload available =>
    simp only [exec] at hexec
    split at hexec
    · next hpc =>
      cases hexec
      have hsystem : s.system.writer.pc = .idle := hpc
      refine ⟨⟨?_, Writer.laid_writeSingleEntry h.writer hloads.1 hloads.2⟩, ?_⟩
      · rw [writeSingleEntry_maxEntries]
        exact h.size
      · simp only [ShmSystem.exec, hsystem]
        rfl
    · cases hexec
  | write => exact writeStep_system h hexec
  | heartbeat =>
    cases hexec
    obtain ⟨hlaid, hsystem⟩ := writeHeartbeat_system h
    exact ⟨hlaid, congrArg some hsystem.symm⟩
  | call i role =>
    simp only [exec] at hexec
    split at hexec
    · next hpc =>
      cases hexec
      have hsystem : (s.system.readers i).pc = .idle := hpc
      refine ⟨⟨h.size, h.writer⟩, ?_⟩
      simp only [ShmSystem.exec, hsystem]
      rfl
    · cases hexec
  | read i now =>
    obtain ⟨r, hr, rfl⟩ := Option.map_eq_some_iff.mp hexec
    refine ⟨⟨h.size, h.writer⟩, ?_⟩
    show ((s.readers i).step (segmentOf s.buf) now).map _ = _
    rw [hr]
    rfl

/-- **The buffer means the segment**: every run that copies packed headers, entries and heartbeats into the bytes of
shared memory, and in which the loads are doubles, is a run of the system of headers and slots, step by step. No
write goes beyond the buffer or into what it is not about. -/
theorem bytes_refine_segment {maxEntries size : ℕ} (h : totalSize maxEntries ≤ size)
    {steps : List (ShmStep ι)}
    (hrun : Run exec (fun _ step => LoadsAreDoubles step) (new maxEntries size) steps s) :
    Run ShmSystem.exec Free (.new maxEntries size) steps s.system := by
  have hstart : Run ShmSystem.exec Free (.new maxEntries size) [] (new maxEntries size : ByteShm ι).system := by
    rw [system_new h]
    exact .nil
  have hrefines := hrun.invariant (I := fun steps (s : ByteShm ι) =>
    Run ShmSystem.exec Free (.new maxEntries size) steps s.system ∧ Laid s) ⟨hstart, laid_new h⟩ (by
      rintro steps s step s' ⟨hbefore, hlaid⟩ hloads hexec
      obtain ⟨hlaid', hstep⟩ := exec_system hlaid hloads hexec
      exact ⟨hbefore.snoc trivial hstep, hlaid'⟩)
  exact hrefines.1

instance : Fintype PDRole :=
  ⟨{.encode, .prefill, .decode, .union}, fun role => by cases role <;> decide⟩

instance : ∀ step : ShmStep ι, Decidable (LoadsAreDoubles step)
  | .writeSnapshot _ => inferInstanceAs (Decidable (∀ _, _))
  | .writeSingleEntry _ _ _ _ _ => inferInstanceAs (Decidable (_ ∧ _))
  | .write => isTrue trivial
  | .heartbeat => isTrue trivial
  | .call _ _ => isTrue trivial
  | .read _ _ => isTrue trivial

open InstanceManager (oneEndpoint)

/-- A snapshot of one instance, a heartbeat in the middle of it, and a reader. -/
def snapshotRead : List (ShmStep Unit) :=
  [.writeSnapshot fun role => if role = .prefill then [oneEndpoint 1 "p" "prefill"] else [], .write, .write,
    .heartbeat, .write, .write, .writeSingleEntry 1 0 (some .prefill) (some ⟨5 / 2⟩) fun _ => [], .write, .write,
    .write, .write, .call () none, .read () 1, .read () 1, .read () 1]

theorem snapshotRead_refines : ∃ s : ByteShm Unit,
    Run exec (fun _ step => LoadsAreDoubles step) (new 2 112) snapshotRead s ∧
      slice s.buf 64 24 = [1, 0, 0, 0, 0, 0, 0, 0, 0, 0, 0, 0, 0, 0, 0, 0, 0, 0, 4, 64, 0, 0, 0, 0] ∧
      Run ShmSystem.exec Free (.new 2 112) snapshotRead s.system := by
  have hbytes : (runList exec (fun _ step => LoadsAreDoubles step) (new 2 112) snapshotRead).map
      (fun s => slice s.buf 64 24) =
        some [1, 0, 0, 0, 0, 0, 0, 0, 0, 0, 0, 0, 0, 0, 0, 0, 0, 0, 4, 64, 0, 0, 0, 0] := by
    decide +kernel
  obtain ⟨s, hs, hbytes⟩ := Option.map_eq_some_iff.mp hbytes
  exact ⟨s, runList_run hs, hbytes, bytes_refine_segment (by decide) (runList_run hs)⟩

end ByteShm

end PyMotor.Coordinator
