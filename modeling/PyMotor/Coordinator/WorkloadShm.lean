import Mathlib.Algebra.Order.Ring.Int
import Mathlib.Algebra.Order.Ring.Nat
import Mathlib.Data.Finset.Insert
import PyMotor.Coordinator.Instance
import PyMotor.Lib.Run
import PyMotor.Lib.Seqlock

/-!
# The workload segment

The scheduler publishes the load of every endpoint in a shared memory segment: a header and an array
of entries (`workload_shm/layout.py`). A write makes the sequence number in the header odd, changes
entries in place and publishes an even number again (`writer.py`); a worker reads the header, the
entries one by one and the header again, and takes the entries into its cache if the two headers
match (`reader.py`).

The processes run side by side. One access to the segment (a header, an entry, the heartbeat) is one
step, and everything that a process computes for itself goes with the access before or after it.
Packing a header or an entry fails if a number does not fit its field; the write is then given up
where it stands.
-/

namespace PyMotor.Coordinator

/-! ## Layout -/

def magicNumber : Nat := 0x574B4C44

def schemaVersion : Nat := 3

def headerSize : Nat := 64

def entrySize : Nat := 24

def rolePrefill : Nat := 0

def roleDecode : Nat := 1

def roleHybrid : Nat := 2

def roleEncode : Nat := 3

structure WorkloadShmEntry where
  instanceId : InstanceId
  endpointId : EndpointId
  role : Nat
  activeTokens : ℚ
  deriving DecidableEq

structure WorkloadShmHeader where
  magic : Nat
  schemaVersion : Nat
  sequence : Nat
  entryCount : Nat
  maxEntries : Nat
  instanceVersion : Nat
  heartbeatSequence : Nat
  prefillSequence : Nat
  decodeSequence : Nat
  hybridSequence : Nat
  deriving DecidableEq, Repr

structure Segment where
  /-- Length of the buffer in bytes. -/
  size : Nat
  header : WorkloadShmHeader
  slots : Nat → WorkloadShmEntry

/-- A new segment is all zeros. -/
def Segment.new (size : Nat) : Segment where
  size := size
  header := ⟨0, 0, 0, 0, 0, 0, 0, 0, 0, 0⟩
  slots _ := ⟨0, 0, 0, 0⟩

/-- The fields of the header fit: a signed sequence of 64 bits and counts of 32 bits. The other
numbers are taken modulo `2 ^ 64`. -/
def packHeader (h : WorkloadShmHeader) : Option WorkloadShmHeader :=
  if h.sequence < 2 ^ 63 ∧ h.entryCount < 2 ^ 32 ∧ h.maxEntries < 2 ^ 32 then
    some { h with
      instanceVersion := h.instanceVersion % 2 ^ 64
      heartbeatSequence := h.heartbeatSequence % 2 ^ 64
      prefillSequence := h.prefillSequence % 2 ^ 64
      decodeSequence := h.decodeSequence % 2 ^ 64
      hybridSequence := h.hybridSequence % 2 ^ 64 }
  else none

/-- The ids are signed numbers of 32 bits. -/
def packEntry (e : WorkloadShmEntry) : Option WorkloadShmEntry :=
  if -2 ^ 31 ≤ e.instanceId ∧ e.instanceId < 2 ^ 31 ∧ -2 ^ 31 ≤ e.endpointId ∧
      e.endpointId < 2 ^ 31 then some e
  else none

/-! ## Writer -/

/-- The roles that have a sequence number of their own. -/
inductive RoleKey where
  | prefill
  | decode
  | hybrid
  deriving DecidableEq, Repr

def roleSequenceField : PDRole → Option RoleKey
  | .prefill => some .prefill
  | .decode => some .decode
  | .union => some .hybrid
  | .encode => none

def shmRoleToSeqKey (role : Nat) : Option RoleKey :=
  if role = rolePrefill then some .prefill
  else if role = roleDecode then some .decode
  else if role = roleHybrid then some .hybrid
  else none

def pdroleToShmRole : PDRole → Nat
  | .encode => roleEncode
  | .prefill => rolePrefill
  | .decode => roleDecode
  | .union => roleHybrid

/-- What is left to do at the end of a write. -/
inductive Finish where
  | snapshot (entries : List WorkloadShmEntry)
  | single (role : PDRole)

/-- Where the writer stands. -/
inductive WriterPc where
  | idle
  /-- The header with the odd number comes next. -/
  | begin (todo : List (Nat × WorkloadShmEntry)) (fin : Finish)
  | entries (todo : List (Nat × WorkloadShmEntry)) (fin : Finish)
  /-- The header with the even number comes next. -/
  | ending

structure Writer where
  maxEntries : Nat
  slotMap : Dict (InstanceId × EndpointId) Nat
  sequence : Nat
  roleSequences : RoleKey → Nat
  /-- The endpoints of a role at the last snapshot. -/
  roleMembers : RoleKey → Finset (InstanceId × EndpointId)
  entryCount : Nat
  instanceVersion : Nat
  heartbeatSequence : Nat
  pc : WriterPc

namespace Writer

def new (maxEntries : Nat) : Writer where
  maxEntries := maxEntries
  slotMap := ∅
  sequence := 0
  roleSequences _ := 0
  roleMembers _ := ∅
  entryCount := 0
  instanceVersion := 0
  heartbeatSequence := 0
  pc := .idle

/-- The rows of all roles, cut off at `maxEntries`, and the slot of each endpoint. -/
def collectEntriesAndSlotMap (available : PDRole → List Instance) (maxEntries : Nat) :
    List WorkloadShmEntry × Dict (InstanceId × EndpointId) Nat :=
  let rows := [PDRole.encode, .prefill, .decode, .union].flatMap fun role =>
    (available role).flatMap fun inst => inst.allEndpoints.map fun ep =>
      (⟨inst.id, ep.id, pdroleToShmRole role, ep.workload.activeTokens⟩ : WorkloadShmEntry)
  let entries := rows.take maxEntries
  (entries, entries.zipIdx.foldl (fun map p => map.insert (p.1.instanceId, p.1.endpointId) p.2) ∅)

/-- Enter a write: the sequence becomes odd, whether or not an earlier write was finished. -/
def beginWrite (w : Writer) (todo : List (Nat × WorkloadShmEntry)) (fin : Finish) : Writer :=
  { w with
    sequence := if w.sequence % 2 = 0 then w.sequence + 1 else w.sequence + 2
    pc := .begin todo fin }

/-- Up to the first access of `write_snapshot`. -/
def writeSnapshot (w : Writer) (available : PDRole → List Instance) : Writer :=
  let (entries, slotMap) := collectEntriesAndSlotMap available w.maxEntries
  let w := { w with slotMap := slotMap, entryCount := entries.length }
  w.beginWrite (entries.zipIdx.map fun p => (p.2, p.1)) (.snapshot entries)

/-- Up to the first access of `write_single_entry_from_workload`; an unknown endpoint leads to a full
snapshot. -/
def writeSingleEntry (w : Writer) (instanceId : InstanceId) (endpointId : EndpointId)
    (role : Option PDRole) (workload : Option Workload) (available : PDRole → List Instance) :
    Writer :=
  match w.slotMap.get? (instanceId, endpointId) with
  | none => w.writeSnapshot available
  | some slot =>
    match role, workload with
    | some role, some workload =>
      w.beginWrite [(slot, ⟨instanceId, endpointId, pdroleToShmRole role, workload.activeTokens⟩)]
        (.single role)
    | _, _ => w

/-- The endpoints of the roles that have a sequence. -/
def newMembers (entries : List WorkloadShmEntry) (key : RoleKey) :
    Finset (InstanceId × EndpointId) :=
  ((entries.filter fun e => decide (shmRoleToSeqKey e.role = some key)).map fun e =>
    (e.instanceId, e.endpointId)).toFinset

def bumpChangedRoleSequences (w : Writer) (entries : List WorkloadShmEntry) : Writer :=
  { w with
    roleSequences := fun key =>
      if newMembers entries key = w.roleMembers key then w.roleSequences key
      else (w.roleSequences key + 1) % 2 ^ 64
    roleMembers := newMembers entries }

def bumpRoleSequence (w : Writer) (role : PDRole) : Writer :=
  match roleSequenceField role with
  | none => w
  | some key =>
    let sequence := (w.roleSequences key + 1) % 2 ^ 64
    { w with roleSequences := Function.update w.roleSequences key sequence }

/-- After the last entry. -/
def finish (w : Writer) : Finish → Writer
  | .snapshot entries =>
    let w := w.bumpChangedRoleSequences entries
    { w with instanceVersion := w.instanceVersion + 1 }
  | .single role => w.bumpRoleSequence role

/-- Leave a write: the sequence becomes even. -/
def endWrite (w : Writer) : Writer :=
  { w with
    sequence := if w.sequence % 2 = 1 then w.sequence + 1 else w.sequence + 2
    pc := .ending }

def header (w : Writer) : WorkloadShmHeader where
  magic := magicNumber
  schemaVersion := schemaVersion
  sequence := w.sequence
  entryCount := w.entryCount
  maxEntries := w.maxEntries
  instanceVersion := w.instanceVersion
  heartbeatSequence := w.heartbeatSequence
  prefillSequence := w.roleSequences .prefill
  decodeSequence := w.roleSequences .decode
  hybridSequence := w.roleSequences .hybrid

end Writer

/-! ## Reader -/

def shmRoleToPdrole (role : Nat) : PDRole :=
  if role = roleEncode then .encode
  else if role = rolePrefill then .prefill
  else if role = roleDecode then .decode
  else .union

/-- One call of `patch_workload_from_shm`. -/
structure Patch where
  instanceId : InstanceId
  endpointId : EndpointId
  role : PDRole
  activeTokens : ℚ
  deriving DecidableEq

/-- Where a reader stands; `attempts` counts the ones left, the current one included. -/
inductive ReaderPc where
  | idle
  | header (role : Option PDRole) (attempts : Nat)
  /-- The cache of the role is current: only the header is confirmed. -/
  | confirmSkip (role : Option PDRole) (attempts : Nat) (header : WorkloadShmHeader)
  | scan (role : Option PDRole) (attempts : Nat) (header : WorkloadShmHeader)
      (entries : List WorkloadShmEntry)

/-- What a call that accepted a snapshot did: what it returned, the patches of the cache (none if the
scan was skipped) and what the reader remembers afterwards. -/
structure Accepted where
  role : Option PDRole
  instanceVersion : Nat
  heartbeatStale : Bool
  patches : Option (List Patch)
  roleSequences : Dict PDRole Nat
  sequence : Option Nat

structure Reader where
  lastSequence : Option Nat
  lastRoleSequences : Dict PDRole Nat
  lastHeartbeatValue : Nat
  lastHeartbeatTime : ℚ
  pc : ReaderPc
  /-- The outcome of the last call, if it accepted. -/
  accepted : Option Accepted

namespace Reader

def new : Reader := ⟨none, ∅, 0, 0, .idle, none⟩

def stableSnapshotReadAttempts : Nat := 3

def heartbeatStaleSec : ℚ := 5

def isValidHeader (size : Nat) (h : WorkloadShmHeader) : Bool :=
  decide (h.magic = magicNumber ∧ h.schemaVersion = schemaVersion ∧ h.entryCount ≤ h.maxEntries ∧
    headerSize + h.entryCount * entrySize ≤ size)

def roleSequencesSupported (h : WorkloadShmHeader) : Bool := decide (schemaVersion ≤ h.schemaVersion)

def headersMatch (h after : WorkloadShmHeader) : Bool :=
  decide (after.magic = magicNumber ∧ after.schemaVersion = h.schemaVersion ∧
    after.sequence = h.sequence ∧ after.sequence % 2 = 0 ∧ after.entryCount = h.entryCount ∧
    after.instanceVersion = h.instanceVersion) &&
  (!roleSequencesSupported h ||
    decide (after.prefillSequence = h.prefillSequence ∧ after.decodeSequence = h.decodeSequence ∧
      after.hybridSequence = h.hybridSequence))

def roleSequenceFromHeader (h : WorkloadShmHeader) (role : Option PDRole) : Option Nat :=
  if roleSequencesSupported h then
    match role with
    | some .prefill => some h.prefillSequence
    | some .decode => some h.decodeSequence
    | some .union => some h.hybridSequence
    | _ => none
  else none

def roleCacheIsCurrent (r : Reader) (h : WorkloadShmHeader) (role : Option PDRole) : Bool :=
  match role, roleSequenceFromHeader h role with
  | some role, some sequence => decide (r.lastRoleSequences.get? role = some sequence)
  | _, _ => false

/-- The patches for the role; all of them, if the role has no sequence. -/
def patchEntries (role : Option PDRole) (entries : List WorkloadShmEntry) : List Patch :=
  (entries.filter fun e =>
    match role with
    | some .prefill | some .decode | some .union => decide (some (shmRoleToPdrole e.role) = role)
    | _ => true).map fun e =>
      ⟨e.instanceId, e.endpointId, shmRoleToPdrole e.role, e.activeTokens⟩

def recordPatchedSequences (r : Reader) (h : WorkloadShmHeader) (role : Option PDRole) : Reader :=
  match role, roleSequenceFromHeader h role with
  | some role, some sequence =>
    { r with lastRoleSequences := r.lastRoleSequences.insert role sequence }
  | _, _ =>
    { r with
      lastRoleSequences :=
        if roleSequencesSupported h then
          ((Dict.insert ∅ .prefill h.prefillSequence).insert .decode h.decodeSequence).insert .union
            h.hybridSequence
        else ∅
      lastSequence := some h.sequence }

def updateHeartbeatAndCheckStale (r : Reader) (h : WorkloadShmHeader) (now : ℚ) : Bool × Reader :=
  let r := if h.heartbeatSequence ≠ r.lastHeartbeatValue then
      { r with lastHeartbeatValue := h.heartbeatSequence, lastHeartbeatTime := now }
    else r
  (decide (0 < r.lastHeartbeatTime ∧ heartbeatStaleSec < now - r.lastHeartbeatTime), r)

/-- A snapshot is accepted: track the heartbeat, patch and remember, unless the scan was skipped. -/
def accept (r : Reader) (role : Option PDRole) (h : WorkloadShmHeader)
    (entries : Option (List WorkloadShmEntry)) (now : ℚ) : Reader :=
  let (stale, r) := r.updateHeartbeatAndCheckStale h now
  let r := match entries with
    | none => r
    | some _ => r.recordPatchedSequences h role
  let outcome : Accepted := {
    role := role
    instanceVersion := h.instanceVersion
    heartbeatStale := stale
    patches := entries.map (patchEntries role)
    roleSequences := r.lastRoleSequences
    sequence := r.lastSequence }
  { r with pc := .idle, accepted := some outcome }

/-- The call returns without a snapshot. -/
def giveUp (r : Reader) : Reader := { r with pc := .idle, accepted := none }

/-- The next attempt, if there is one. -/
def retry (r : Reader) (role : Option PDRole) (attempts : Nat) : Reader :=
  if attempts ≤ 1 then r.giveUp else { r with pc := .header role (attempts - 1) }

/-- The next access of a call under way. -/
def step (r : Reader) (seg : Segment) (now : ℚ) : Option Reader :=
  match r.pc with
  | .idle => none
  | .header role attempts =>
    let h := seg.header
    if !isValidHeader seg.size h then some r.giveUp
    else if h.sequence % 2 = 1 then some (r.retry role attempts)
    else if r.roleCacheIsCurrent h role then some { r with pc := .confirmSkip role attempts h }
    else some { r with pc := .scan role attempts h [] }
  | .confirmSkip role attempts h =>
    if headersMatch h seg.header then some (r.accept role seg.header none now)
    else some { r with pc := .scan role attempts h [] }
  | .scan role attempts h entries =>
    if entries.length < h.entryCount then
      some { r with pc := .scan role attempts h (entries ++ [seg.slots entries.length]) }
    else if headersMatch h seg.header then some (r.accept role seg.header (some entries) now)
    else some (r.retry role attempts)

end Reader

/-! ## The system -/

/-- What a stable segment says: the numbers of the header and the entries it counts. -/
structure Stable where
  sequence : Nat
  instanceVersion : Nat
  roleSequence : RoleKey → Nat
  entries : List WorkloadShmEntry

def Segment.stable (seg : Segment) : Stable where
  sequence := seg.header.sequence
  instanceVersion := seg.header.instanceVersion
  roleSequence
    | .prefill => seg.header.prefillSequence
    | .decode => seg.header.decodeSequence
    | .hybrid => seg.header.hybridSequence
  entries := (List.range seg.header.entryCount).map seg.slots

/-- The writer, the segment and the readers. -/
structure ShmSystem (ι : Type) where
  writer : Writer
  segment : Segment
  readers : ι → Reader

inductive ShmStep (ι : Type) where
  | writeSnapshot (available : PDRole → List Instance)
  | writeSingleEntry (instanceId : InstanceId) (endpointId : EndpointId) (role : Option PDRole)
      (workload : Option Workload) (available : PDRole → List Instance)
  | write
  | heartbeat
  | call (i : ι) (role : Option PDRole)
  | read (i : ι) (now : ℚ)

namespace ShmSystem

variable {ι : Type}

def new (maxEntries size : Nat) : ShmSystem ι := ⟨.new maxEntries, .new size, fun _ => .new⟩

/-- Write the header, with the newer of the two heartbeats, and go on at `next`; give up the write if
the header cannot be packed. -/
def writeHeader (s : ShmSystem ι) (next : WriterPc) : ShmSystem ι :=
  let w := { s.writer with
    heartbeatSequence := max s.writer.heartbeatSequence s.segment.header.heartbeatSequence }
  match packHeader w.header with
  | none => { s with writer := { w with pc := .idle } }
  | some h => { s with writer := { w with pc := next }, segment := { s.segment with header := h } }

def writeEntryAtSlot (s : ShmSystem ι) (slot : Nat) (entry : WorkloadShmEntry) (next : WriterPc) :
    ShmSystem ι :=
  match packEntry entry with
  | none => { s with writer := { s.writer with pc := .idle } }
  | some entry =>
    let slots := Function.update s.segment.slots slot entry
    { s with writer := { s.writer with pc := next }, segment := { s.segment with slots := slots } }

/-- The next access of the write under way. -/
def writeStep (s : ShmSystem ι) : Option (ShmSystem ι) :=
  match s.writer.pc with
  | .idle => none
  | .begin todo fin => some (s.writeHeader (.entries todo fin))
  | .entries [] fin => some { s with writer := (s.writer.finish fin).endWrite }
  | .entries ((slot, entry) :: todo) fin => some (s.writeEntryAtSlot slot entry (.entries todo fin))
  | .ending => some (s.writeHeader .idle)

def writeHeartbeat (s : ShmSystem ι) : ShmSystem ι :=
  let hb := (s.writer.heartbeatSequence + 1) % 2 ^ 64
  { s with
    writer := { s.writer with heartbeatSequence := hb }
    segment := { s.segment with header := { s.segment.header with heartbeatSequence := hb } } }

def exec [DecidableEq ι] (s : ShmSystem ι) : ShmStep ι → Option (ShmSystem ι)
  | .writeSnapshot available =>
    match s.writer.pc with
    | .idle => some { s with writer := s.writer.writeSnapshot available }
    | _ => none
  | .writeSingleEntry instanceId endpointId role workload available =>
    match s.writer.pc with
    | .idle =>
      let w := s.writer.writeSingleEntry instanceId endpointId role workload available
      some { s with writer := w }
    | _ => none
  | .write => s.writeStep
  | .heartbeat => some s.writeHeartbeat
  | .call i role =>
    match (s.readers i).pc with
    | .idle =>
      let r := { s.readers i with pc := .header role Reader.stableSnapshotReadAttempts }
      some { s with readers := Function.update s.readers i r }
    | _ => none
  | .read i now =>
    ((s.readers i).step s.segment now).map fun r =>
      { s with readers := Function.update s.readers i r }

end ShmSystem

end PyMotor.Coordinator
