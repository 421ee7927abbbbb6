import PyMotor.Coordinator.InstanceManager.Pools
import PyMotor.Coordinator.InstanceManager.Workload
import PyMotor.Coordinator.WorkloadShm.Reads

/-!
# Role sequences

Each role but `encode` has a sequence number in the segment. A worker whose cache was patched under the
current number of a role does not read the segment again, and the scheduler takes the choice of a worker
that quotes the current number (`workload_shm/reader.py`, `runtime/scheduler_server.py`). So the number
has to change whenever the loads of the role do.

It changes with every load that is written to a slot, and with every snapshot whose endpoints of the
role are not those of the last one (`workload_shm/writer.py`). A snapshot with other loads for the same
endpoints does not change it: after a `SET` has replaced an instance in place, or after a load of an
endpoint without a slot has changed. In all runs without such steps a number identifies the loads
(`role_sequence_identifies_loads`).
-/

namespace PyMotor.Coordinator

/-! ## A write from end to end -/

namespace ShmSystem

variable {ι : Type}

/-- The entries and the header behind them. -/
def writeEntries (s : ShmSystem ι) (fin : Finish) : List (Nat × WorkloadShmEntry) → ShmSystem ι
  | [] => { s with writer := (s.writer.finish fin).endWrite }.writeHeader .idle
  | (slot, entry) :: todo =>
    match packEntry entry with
    | none => s.writeEntryAtSlot slot entry (.entries todo fin)
    | some _ => (s.writeEntryAtSlot slot entry (.entries todo fin)).writeEntries fin todo

/-- All accesses of the write under way, with none of anything else between them. -/
def writeAll (s : ShmSystem ι) : ShmSystem ι :=
  match s.writer.pc with
  | .begin todo fin =>
    match (s.writeHeader (.entries todo fin)).writer.pc with
    | .idle => s.writeHeader (.entries todo fin)
    | _ => (s.writeHeader (.entries todo fin)).writeEntries fin todo
  | _ => s

section Accesses

variable [DecidableEq ι] {s s' : ShmSystem ι}

end Accesses

end ShmSystem

/-! ## The scheduler -/

/-- The role of a sequence. -/
def RoleKey.role : RoleKey → PDRole
  | .prefill => .prefill
  | .decode => .decode
  | .hybrid => .union

/-- The available instances of each role. -/
def InstanceManager.available (m : InstanceManager) (role : PDRole) : List Instance :=
  (m.rolePools role).values

/-- The loads of a role: every available endpoint, with its load. -/
def InstanceManager.roleLoads (m : InstanceManager) (role : PDRole) :
    Finset (InstanceId × EndpointId × ℚ) :=
  ((m.available role).flatMap fun inst => inst.allEndpoints.map fun ep =>
    (inst.id, ep.id, ep.workload.activeTokens)).toFinset

/-- The pools of the scheduler and the segment in which it publishes their loads. -/
structure LoadServer (ι : Type) where
  manager : InstanceManager
  shm : ShmSystem ι

inductive LoadOp where
  | refresh (σ : HashOrder InstanceId) (eventType : EventType) (instances : List Instance)
  /-- A request is placed on an endpoint, or leaves it. -/
  | update (id : InstanceId) (endpointId : EndpointId) (change : Workload)
  /-- An update that was committed before is sent again. -/
  | replay (id : InstanceId) (endpointId : EndpointId)

namespace LoadServer

variable {ι : Type}

def writeSnapshot (s : LoadServer ι) : LoadServer ι :=
  let writer := s.shm.writer.writeSnapshot s.manager.available
  { s with shm := { s.shm with writer := writer }.writeAll }

def writeSingleEntry (s : LoadServer ι) (id : InstanceId) (endpointId : EndpointId)
    (result : Option (PDRole × Workload)) : LoadServer ι :=
  let writer := s.shm.writer.writeSingleEntry id endpointId (result.map (·.1)) (result.map (·.2))
    s.manager.available
  { s with shm := { s.shm with writer := writer }.writeAll }

/-- The segment is set up before there are instances. -/
def start (maxEntries size : Nat) : LoadServer ι := writeSnapshot ⟨.new, .new maxEntries size⟩

/-- Every handler runs from end to end: in between no other handler runs. -/
def exec (s : LoadServer ι) : LoadOp → Option (LoadServer ι)
  | .refresh σ eventType instances =>
    match s.manager.refreshInstances σ eventType instances with
    | (.ok true, m) => some { s with manager := m }.writeSnapshot
    | (_, m) => some { s with manager := m }
  | .update id endpointId change =>
    match s.manager.updateInstanceWorkloadSync id endpointId change with
    | (.ok (some result), m) =>
      some ({ s with manager := m }.writeSingleEntry id endpointId (some result))
    | (_, m) => some { s with manager := m }
  | .replay id endpointId =>
    match s.manager.getEndpointWorkloadSync id endpointId with
    | (.ok result, m) => some ({ s with manager := m }.writeSingleEntry id endpointId result)
    | (_, m) => some { s with manager := m }

/-- What a reader sees as the number of a role. -/
def roleSequence (s : LoadServer ι) (key : RoleKey) : Nat := s.shm.segment.stable.roleSequence key

/-- The pools after an operation. -/
def managerAfter (s : LoadServer ι) : LoadOp → InstanceManager
  | .refresh σ eventType instances => (s.manager.refreshInstances σ eventType instances).2
  | .update id endpointId change => (s.manager.updateInstanceWorkloadSync id endpointId change).2
  | .replay id endpointId => (s.manager.getEndpointWorkloadSync id endpointId).2

/-! ## Announced changes -/

/-- A snapshot of these pools shows other endpoints of the role than the last one, and its rows and
headers fit. -/
def SnapshotAnnounces (key : RoleKey) (w : Writer) (m : InstanceManager) : Prop :=
  let rows := (Writer.collectEntriesAndSlotMap m.available w.maxEntries).1
  Writer.newMembers rows key ≠ w.roleMembers key ∧ ∀ e ∈ rows, (packEntry e).isSome = true

instance (key : RoleKey) (w : Writer) (m : InstanceManager) : Decidable (SnapshotAnnounces key w m) :=
  inferInstanceAs (Decidable (_ ∧ _))

/-- A refresh that returned and changed the pools. -/
def changed : Except PyError Bool → Bool
  | .ok modified => modified
  | .error _ => false

/-- The operation is published under a new number of the role: a refresh by its snapshot, an update in
the slot of its endpoint. -/
def Announces (key : RoleKey) (s : LoadServer ι) : LoadOp → Prop
  | .refresh σ eventType instances =>
    changed (s.manager.refreshInstances σ eventType instances).1 = true ∧
      SnapshotAnnounces key s.shm.writer (s.managerAfter (.refresh σ eventType instances))
  | .update id endpointId change =>
    s.shm.writer.slotMap.contains (id, endpointId) = true ∧
        (packEntry ⟨id, endpointId, 0, 0⟩).isSome = true ∨
      s.shm.writer.slotMap.contains (id, endpointId) = false ∧
        SnapshotAnnounces key s.shm.writer (s.managerAfter (.update id endpointId change))
  | .replay _ _ => False

instance (key : RoleKey) (s : LoadServer ι) : ∀ op, Decidable (Announces key s op)
  | .refresh _ _ _ => inferInstanceAs (Decidable (_ ∧ _))
  | .update _ _ _ => inferInstanceAs (Decidable (_ ∧ _ ∨ _ ∧ _))
  | .replay _ _ => inferInstanceAs (Decidable False)

/-- **The loads of the role stay, or the change is announced**; and the numbers have room. -/
structure KeepsView (key : RoleKey) (s : LoadServer ι) (op : LoadOp) : Prop where
  loads : (s.managerAfter op).roleLoads key.role = s.manager.roleLoads key.role ∨
    Announces key s op
  roleSequence_lt : s.shm.writer.roleSequences key + 1 < 2 ^ 64
  sequence_lt : s.shm.writer.sequence + 3 < 2 ^ 63
  maxEntries_lt : s.shm.writer.maxEntries < 2 ^ 32

instance (key : RoleKey) (s : LoadServer ι) (op : LoadOp) : Decidable (KeepsView key s op) :=
  decidable_of_iff (((s.managerAfter op).roleLoads key.role = s.manager.roleLoads key.role ∨
      Announces key s op) ∧ s.shm.writer.roleSequences key + 1 < 2 ^ 64 ∧
      s.shm.writer.sequence + 3 < 2 ^ 63 ∧ s.shm.writer.maxEntries < 2 ^ 32)
    ⟨fun h => ⟨h.1, h.2.1, h.2.2.1, h.2.2.2⟩, fun h => ⟨h.1, h.2, h.3, h.4⟩⟩

end LoadServer

/-! ## What a write publishes -/

namespace ShmSystem

variable {ι : Type} {s : ShmSystem ι} {key : RoleKey} {fin : Finish} {next : WriterPc}

/-- The number of a role in the segment. -/
def published (s : ShmSystem ι) (key : RoleKey) : Nat := s.segment.stable.roleSequence key

theorem published_of_packHeader {w : Writer} {h : WorkloadShmHeader} {seg : Segment} {hb : Nat}
    (hp : packHeader { w with heartbeatSequence := hb }.header = some h) :
    ({ seg with header := h } : Segment).stable.roleSequence key = w.roleSequences key % 2 ^ 64 := by
  unfold packHeader at hp
  split at hp
  · cases hp
    cases key <;> rfl
  · cases hp

theorem packHeader_ne_none {h : WorkloadShmHeader} (hseq : h.sequence < 2 ^ 63)
    (hcount : h.entryCount < 2 ^ 32) (hmax : h.maxEntries < 2 ^ 32) : packHeader h ≠ none := by
  rw [packHeader, if_pos ⟨hseq, hcount, hmax⟩]
  exact Option.some_ne_none _

/-- The writer keeps its numbers, and the segment shows either the old ones or those of the writer. -/
theorem writeHeader_keeps (s : ShmSystem ι) (next : WriterPc) (key : RoleKey) :
    (∃ hb pc, (s.writeHeader next).writer =
      { s.writer with heartbeatSequence := hb, pc := pc }) ∧
      ((s.writeHeader next).published key = s.published key ∨
        (s.writeHeader next).published key = s.writer.roleSequences key % 2 ^ 64) := by
  unfold writeHeader published
  simp only
  split
  · exact ⟨⟨_, _, rfl⟩, Or.inl rfl⟩
  · next h hp => exact ⟨⟨_, _, rfl⟩, Or.inr (published_of_packHeader hp)⟩

/-- The numbers of the writer fit a header. -/
structure Fits (w : Writer) : Prop where
  sequence : w.sequence < 2 ^ 63
  entryCount : w.entryCount < 2 ^ 32
  maxEntries : w.maxEntries < 2 ^ 32

theorem writeHeader_fits (hfits : Fits s.writer) (next : WriterPc) (key : RoleKey) :
    (∃ hb, (s.writeHeader next).writer = { s.writer with heartbeatSequence := hb, pc := next }) ∧
      (s.writeHeader next).published key = s.writer.roleSequences key % 2 ^ 64 := by
  unfold writeHeader published
  simp only
  split
  · next hp => exact absurd hp (packHeader_ne_none hfits.sequence hfits.entryCount hfits.maxEntries)
  · next h hp => exact ⟨⟨_, rfl⟩, published_of_packHeader hp⟩

theorem writeEntryAtSlot_keeps (s : ShmSystem ι) (slot : Nat) (entry : WorkloadShmEntry)
    (next : WriterPc) (key : RoleKey) :
    ∃ pc, (s.writeEntryAtSlot slot entry next).writer = { s.writer with pc := pc } ∧
      (s.writeEntryAtSlot slot entry next).published key = s.published key := by
  unfold writeEntryAtSlot published
  split
  · exact ⟨_, rfl, rfl⟩
  · exact ⟨_, rfl, rfl⟩

/-- Numbers only grow, and what is published does not run ahead. -/
structure Ahead (key : RoleKey) (s s' : ShmSystem ι) : Prop where
  published : s.published key ≤ s'.published key
  behind : s'.published key ≤ s'.writer.roleSequences key
  writer : s.writer.roleSequences key ≤ s'.writer.roleSequences key
  entryCount : s'.writer.entryCount = s.writer.entryCount
  maxEntries : s'.writer.maxEntries = s.writer.maxEntries

theorem Ahead.trans {s' s'' : ShmSystem ι} (h : Ahead key s s') (h' : Ahead key s' s'') :
    Ahead key s s'' :=
  ⟨h.published.trans h'.published, h'.behind, h.writer.trans h'.writer,
    h'.entryCount.trans h.entryCount, h'.maxEntries.trans h.maxEntries⟩

/-- The end of a write leaves the number of a role or adds one. -/
theorem finish_cases (w : Writer) (fin : Finish) (hlt : w.roleSequences key + 1 < 2 ^ 64) :
    (w.finish fin).roleSequences key = w.roleSequences key ∨
      (w.finish fin).roleSequences key = w.roleSequences key + 1 := by
  cases fin with
  | snapshot entries =>
    simp only [Writer.finish, Writer.bumpChangedRoleSequences]
    split
    · exact Or.inl rfl
    · exact Or.inr (Nat.mod_eq_of_lt hlt)
  | single role =>
    simp only [Writer.finish, Writer.bumpRoleSequence]
    split
    · exact Or.inl rfl
    · next key' _ =>
      simp only
      by_cases hkey : key = key'
      · subst hkey
        rw [Function.update_self]
        exact Or.inr (Nat.mod_eq_of_lt hlt)
      · rw [Function.update_of_ne hkey]
        exact Or.inl rfl

theorem finish_counts (w : Writer) (fin : Finish) :
    (w.finish fin).entryCount = w.entryCount ∧ (w.finish fin).maxEntries = w.maxEntries := by
  cases fin with
  | snapshot entries => exact ⟨rfl, rfl⟩
  | single role =>
    simp only [Writer.finish, Writer.bumpRoleSequence]
    split <;> exact ⟨rfl, rfl⟩

theorem writeHeader_ahead (hle : s.published key ≤ s.writer.roleSequences key)
    (hlt : s.writer.roleSequences key < 2 ^ 64) : Ahead key s (s.writeHeader next) := by
  obtain ⟨⟨hb, pc, hwriter⟩, hpub⟩ := writeHeader_keeps s next key
  rw [Nat.mod_eq_of_lt hlt] at hpub
  have hbehind : (s.writeHeader next).published key ≤ s.writer.roleSequences key := by
    rcases hpub with h | h <;> omega
  refine ⟨?_, ?_, ?_, ?_, ?_⟩
  · rcases hpub with h | h <;> omega
  all_goals rw [hwriter]
  exact hbehind

theorem writeEntries_ahead (todo : List (Nat × WorkloadShmEntry)) :
    ∀ {s : ShmSystem ι}, s.published key ≤ s.writer.roleSequences key →
      s.writer.roleSequences key + 1 < 2 ^ 64 → Ahead key s (s.writeEntries fin todo) := by
  induction todo with
  | nil =>
    intro s hle hlt
    have hfinish := finish_cases s.writer fin hlt
    have hpub : ({ s with writer := (s.writer.finish fin).endWrite } : ShmSystem ι).published key =
        s.published key := rfl
    have hwriter : ({ s with writer := (s.writer.finish fin).endWrite } :
        ShmSystem ι).writer.roleSequences key = (s.writer.finish fin).roleSequences key := rfl
    have hend : Ahead key s { s with writer := (s.writer.finish fin).endWrite } :=
      ⟨hpub.ge, by omega, by omega, (finish_counts s.writer fin).1, (finish_counts s.writer fin).2⟩
    exact hend.trans (writeHeader_ahead (by omega) (by omega))
  | cons p todo ih =>
    obtain ⟨slot, entry⟩ := p
    intro s hle hlt
    obtain ⟨pc, hwriter, hpub⟩ := writeEntryAtSlot_keeps s slot entry (.entries todo fin) key
    have hentry : Ahead key s (s.writeEntryAtSlot slot entry (.entries todo fin)) := by
      refine ⟨hpub.ge, ?_, ?_, ?_, ?_⟩
      · rw [hpub, hwriter]
        exact hle
      all_goals rw [hwriter]
    rw [writeEntries]
    split
    · exact hentry
    · refine hentry.trans (ih ?_ ?_)
      · rw [hpub, hwriter]
        exact hle
      · rw [hwriter]
        exact hlt

/-- **A write never takes a number back.** -/
theorem writeAll_ahead (hle : s.published key ≤ s.writer.roleSequences key)
    (hlt : s.writer.roleSequences key + 1 < 2 ^ 64) : Ahead key s s.writeAll := by
  unfold writeAll
  split
  · next todo fin _ =>
    have hheader : Ahead key s (s.writeHeader (.entries todo fin)) :=
      writeHeader_ahead hle (by omega)
    obtain ⟨⟨hb, pc, hkeep⟩, -⟩ := writeHeader_keeps s (.entries todo fin) key
    split
    · exact hheader
    · refine hheader.trans (writeEntries_ahead todo hheader.behind ?_)
      rw [hkeep]
      exact hlt
  · exact ⟨Nat.le_refl _, hle, Nat.le_refl _, rfl, rfl⟩

theorem finish_frame (w : Writer) (hb : Nat) (pc : WriterPc) (fin : Finish) :
    ({ w with heartbeatSequence := hb, pc := pc } : Writer).finish fin =
      { w.finish fin with heartbeatSequence := hb, pc := pc } := by
  cases fin with
  | snapshot entries => rfl
  | single role =>
    unfold Writer.finish Writer.bumpRoleSequence
    simp only
    split <;> rfl

/-- If all entries fit, the numbers at the end of the write are published. -/
theorem writeEntries_publishes (todo : List (Nat × WorkloadShmEntry)) :
    ∀ {s : ShmSystem ι}, (∀ p ∈ todo, (packEntry p.2).isSome = true) →
      Fits (s.writer.finish fin).endWrite →
      (s.writeEntries fin todo).published key = (s.writer.finish fin).roleSequences key % 2 ^ 64 ∧
      (s.writeEntries fin todo).writer.roleSequences = (s.writer.finish fin).roleSequences := by
  induction todo with
  | nil =>
    intro s _ hfits
    obtain ⟨⟨hb, hwriter⟩, hpub⟩ := writeHeader_fits
      (s := { s with writer := (s.writer.finish fin).endWrite }) hfits .idle key
    refine ⟨hpub, ?_⟩
    rw [writeEntries, hwriter]
    rfl
  | cons p todo ih =>
    obtain ⟨slot, entry⟩ := p
    intro s hpack hfits
    obtain ⟨pc, hwriter, -⟩ := writeEntryAtSlot_keeps s slot entry (.entries todo fin) key
    have hsome : (packEntry entry).isSome = true := hpack _ List.mem_cons_self
    rw [writeEntries]
    split
    · next hnone =>
      rw [hnone] at hsome
      cases hsome
    · have hfinish := finish_frame s.writer s.writer.heartbeatSequence pc fin
      rw [← hwriter] at hfinish
      have hrest := ih (s := s.writeEntryAtSlot slot entry (.entries todo fin))
        (fun p hp => hpack p (List.mem_cons_of_mem _ hp)) (by
          rw [hfinish]
          exact ⟨hfits.sequence, hfits.entryCount, hfits.maxEntries⟩)
      rw [hfinish] at hrest
      exact hrest

/-- **A write that fits publishes the numbers at its end.** -/
theorem writeAll_publishes {todo : List (Nat × WorkloadShmEntry)} (hpc : s.writer.pc = .begin todo fin)
    (hpack : ∀ p ∈ todo, (packEntry p.2).isSome = true) (hbegin : Fits s.writer)
    (hend : Fits (s.writer.finish fin).endWrite) :
    s.writeAll.published key = (s.writer.finish fin).roleSequences key % 2 ^ 64 ∧
      s.writeAll.writer.roleSequences = (s.writer.finish fin).roleSequences := by
  obtain ⟨⟨hb, hwriter⟩, -⟩ := writeHeader_fits hbegin (.entries todo fin) key
  have hfinish := finish_frame s.writer hb (.entries todo fin) fin
  rw [← hwriter] at hfinish
  have hfits : Fits ((s.writeHeader (.entries todo fin)).writer.finish fin).endWrite := by
    rw [hfinish]
    exact ⟨hend.sequence, hend.entryCount, hend.maxEntries⟩
  have hrest := @writeEntries_publishes _ key _ todo _ hpack hfits
  have hall : s.writeAll = (s.writeHeader (.entries todo fin)).writeEntries fin todo := by
    unfold writeAll
    rw [hpc]
    simp only [hwriter]
  rw [hall]
  rw [hfinish] at hrest
  exact hrest

end ShmSystem

/-! ## What an operation publishes -/

theorem roleSequenceField_role (key : RoleKey) : roleSequenceField key.role = some key := by
  cases key <;> rfl

theorem packEntry_isSome {e e' : WorkloadShmEntry} (hid : e.instanceId = e'.instanceId)
    (hep : e.endpointId = e'.endpointId) : (packEntry e).isSome = (packEntry e').isSome := by
  rw [packEntry, packEntry, hid, hep]
  split <;> rfl

namespace LoadServer

open ShmSystem (Ahead Fits)

variable {ι : Type} {s s' : LoadServer ι} {key : RoleKey} {op : LoadOp}

/-- The segment is not ahead of the writer, and it has a slot for every row. -/
structure Inv (key : RoleKey) (s : LoadServer ι) : Prop where
  behind : s.roleSequence key ≤ s.shm.writer.roleSequences key
  entryCount_le : s.shm.writer.entryCount ≤ s.shm.writer.maxEntries

/-- `s'` is a later state: no number was taken back, and if the loads of the role are others, the
segment is ahead of what the writer had before. -/
structure Later (key : RoleKey) (s s' : LoadServer ι) : Prop where
  published : s.roleSequence key ≤ s'.roleSequence key
  writer : s.shm.writer.roleSequences key ≤ s'.shm.writer.roleSequences key
  loads : s'.manager.roleLoads key.role = s.manager.roleLoads key.role ∨
    s.shm.writer.roleSequences key < s'.roleSequence key

theorem Later.refl (key : RoleKey) (s : LoadServer ι) : Later key s s :=
  ⟨Nat.le_refl _, Nat.le_refl _, Or.inl rfl⟩

theorem Later.trans {s'' : LoadServer ι} (h : Later key s s') (h' : Later key s' s'') :
    Later key s s'' := by
  refine ⟨h.published.trans h'.published, h.writer.trans h'.writer, ?_⟩
  rcases h'.loads with hsame' | hnew'
  · rcases h.loads with hsame | hnew
    · exact Or.inl (hsame'.trans hsame)
    · exact Or.inr (Nat.lt_of_lt_of_le hnew h'.published)
  · exact Or.inr (Nat.lt_of_le_of_lt h.writer hnew')

/-- The numbers have room for one more write. -/
structure Room (key : RoleKey) (w : Writer) : Prop where
  roleSequence_lt : w.roleSequences key + 1 < 2 ^ 64
  sequence_lt : w.sequence + 3 < 2 ^ 63
  maxEntries_lt : w.maxEntries < 2 ^ 32

theorem KeepsView.room (h : KeepsView key s op) : Room key s.shm.writer :=
  ⟨h.roleSequence_lt, h.sequence_lt, h.maxEntries_lt⟩

section Write

variable {todo : List (Nat × WorkloadShmEntry)} {fin : Finish} {w : Writer}

/-- A write that is entered with the writer `w`, whose numbers are those of the writer before. -/
def enter (s : LoadServer ι) (w : Writer) : LoadServer ι :=
  { s with shm := { s.shm with writer := w }.writeAll }

theorem enter_ahead (hinv : Inv key s) (hlt : s.shm.writer.roleSequences key + 1 < 2 ^ 64)
    (hnumbers : w.roleSequences = s.shm.writer.roleSequences) :
    Ahead key { s.shm with writer := w } (s.enter w).shm := by
  refine ShmSystem.writeAll_ahead ?_ ?_
  · rw [hnumbers]
    exact hinv.behind
  · rw [hnumbers]
    exact hlt

/-- **Every write leads to a later state.** -/
theorem enter_later (hinv : Inv key s) (hlt : s.shm.writer.roleSequences key + 1 < 2 ^ 64)
    (hnumbers : w.roleSequences = s.shm.writer.roleSequences) (hcount : w.entryCount ≤ w.maxEntries) :
    Inv key (s.enter w) ∧ Later key s (s.enter w) := by
  have h := enter_ahead hinv hlt hnumbers
  refine ⟨⟨h.behind, ?_⟩, ⟨h.published, ?_, Or.inl rfl⟩⟩
  · rw [h.entryCount, h.maxEntries]
    exact hcount
  · rw [← hnumbers]
    exact h.writer

theorem fits_beginWrite (hroom : Room key w) (hcount : w.entryCount ≤ w.maxEntries) :
    Fits (w.beginWrite todo fin) ∧ Fits ((w.beginWrite todo fin).finish fin).endWrite := by
  have hseq := hroom.sequence_lt
  have hmax := hroom.maxEntries_lt
  have hcounts := ShmSystem.finish_counts (w.beginWrite todo fin) fin
  have hbegin : (w.beginWrite todo fin).sequence ≤ w.sequence + 2 := by
    simp only [Writer.beginWrite]
    split <;> omega
  have hodd : (w.beginWrite todo fin).sequence % 2 = 1 := by
    simp only [Writer.beginWrite]
    split <;> omega
  have hend : ((w.beginWrite todo fin).finish fin).endWrite.sequence ≤ w.sequence + 3 := by
    simp only [Writer.endWrite, ShmSystem.finish_sequence]
    split <;> omega
  refine ⟨⟨by omega, ?_, hmax⟩, ⟨by omega, ?_, ?_⟩⟩
  · exact Nat.lt_of_le_of_lt hcount hmax
  · rw [Writer.endWrite]
    simp only [hcounts.1]
    exact Nat.lt_of_le_of_lt hcount hmax
  · rw [Writer.endWrite]
    simp only [hcounts.2]
    exact hmax

/-- A write that fits and adds to the number of the role shows it. -/
theorem enter_publishes (hroom : Room key w) (hcount : w.entryCount ≤ w.maxEntries)
    (hpack : ∀ p ∈ todo, (packEntry p.2).isSome = true)
    (hbump : ((w.beginWrite todo fin).finish fin).roleSequences key = w.roleSequences key + 1) :
    (s.enter (w.beginWrite todo fin)).roleSequence key = w.roleSequences key + 1 := by
  have hfits : Fits (w.beginWrite todo fin) ∧ Fits ((w.beginWrite todo fin).finish fin).endWrite :=
    fits_beginWrite hroom hcount
  have h : (s.enter (w.beginWrite todo fin)).roleSequence key =
      ((w.beginWrite todo fin).finish fin).roleSequences key % 2 ^ 64 :=
    (ShmSystem.writeAll_publishes (s := { s.shm with writer := w.beginWrite todo fin })
      rfl hpack hfits.1 hfits.2).1
  rw [hbump, Nat.mod_eq_of_lt hroom.roleSequence_lt] at h
  exact h

theorem collectEntries_length (available : PDRole → List Instance) (maxEntries : Nat) :
    (Writer.collectEntriesAndSlotMap available maxEntries).1.length ≤ maxEntries :=
  List.length_take_le _ _

theorem finish_snapshot {entries : List WorkloadShmEntry}
    (h : Writer.newMembers entries key ≠ w.roleMembers key)
    (hlt : w.roleSequences key + 1 < 2 ^ 64) :
    (w.finish (.snapshot entries)).roleSequences key = w.roleSequences key + 1 := by
  simp only [Writer.finish, Writer.bumpChangedRoleSequences]
  rw [if_neg h, Nat.mod_eq_of_lt hlt]

theorem finish_single (hlt : w.roleSequences key + 1 < 2 ^ 64) :
    (w.finish (.single key.role)).roleSequences key = w.roleSequences key + 1 := by
  simp only [Writer.finish, Writer.bumpRoleSequence, roleSequenceField_role]
  rw [Function.update_self, Nat.mod_eq_of_lt hlt]

theorem writeSnapshot_later (hinv : Inv key s) (hlt : s.shm.writer.roleSequences key + 1 < 2 ^ 64) :
    Inv key s.writeSnapshot ∧ Later key s s.writeSnapshot :=
  enter_later hinv hlt rfl (collectEntries_length _ _)

/-- A snapshot that shows other endpoints of the role shows a new number. -/
theorem writeSnapshot_announces (hroom : Room key s.shm.writer)
    (h : SnapshotAnnounces key s.shm.writer s.manager) :
    s.writeSnapshot.roleSequence key = s.shm.writer.roleSequences key + 1 := by
  obtain ⟨hmembers, hpack⟩ := h
  refine enter_publishes (w := { s.shm.writer with
      slotMap := (Writer.collectEntriesAndSlotMap s.manager.available s.shm.writer.maxEntries).2
      entryCount :=
        (Writer.collectEntriesAndSlotMap s.manager.available s.shm.writer.maxEntries).1.length })
    ⟨hroom.roleSequence_lt, hroom.sequence_lt, hroom.maxEntries_lt⟩ (collectEntries_length _ _) ?_ ?_
  · intro p hp
    obtain ⟨q, hq, rfl⟩ := List.mem_map.mp hp
    exact hpack q.1 (List.fst_mem_of_mem_zipIdx hq)
  · exact finish_snapshot hmembers hroom.roleSequence_lt

theorem writeSingleEntry_later (hinv : Inv key s)
    (hlt : s.shm.writer.roleSequences key + 1 < 2 ^ 64) (id : InstanceId) (endpointId : EndpointId)
    (result : Option (PDRole × Workload)) :
    Inv key (s.writeSingleEntry id endpointId result) ∧
      Later key s (s.writeSingleEntry id endpointId result) := by
  unfold writeSingleEntry Writer.writeSingleEntry
  cases hslot : s.shm.writer.slotMap.get? (id, endpointId) with
  | none => exact writeSnapshot_later hinv hlt
  | some slot =>
    cases result with
    | none => exact enter_later hinv hlt rfl hinv.entryCount_le
    | some result => exact enter_later hinv hlt rfl hinv.entryCount_le

theorem writeSingleEntry_announces (hinv : Inv key s) (hroom : Room key s.shm.writer)
    {id : InstanceId} {endpointId : EndpointId} {slot : Nat} {workload : Workload}
    (hslot : s.shm.writer.slotMap.get? (id, endpointId) = some slot)
    (hpack : (packEntry ⟨id, endpointId, 0, 0⟩).isSome = true) :
    (s.writeSingleEntry id endpointId (some (key.role, workload))).roleSequence key =
      s.shm.writer.roleSequences key + 1 := by
  unfold writeSingleEntry Writer.writeSingleEntry
  rw [hslot]
  refine enter_publishes hroom hinv.entryCount_le ?_ ?_
  · intro p hp
    rw [List.mem_singleton.mp hp, ← hpack]
    exact packEntry_isSome rfl rfl
  · exact finish_single hroom.roleSequence_lt

end Write

/-! ## Runs -/

theorem Later.of_loads {m : InstanceManager}
    (hloads : m.roleLoads key.role = s.manager.roleLoads key.role)
    (h : Inv key s' ∧ Later key { s with manager := m } s') : Inv key s' ∧ Later key s s' :=
  ⟨h.1, ⟨h.2.published, h.2.writer, h.2.loads.imp_left (·.trans hloads)⟩⟩

theorem Later.of_number {m : InstanceManager}
    (hnumber : s'.roleSequence key = s.shm.writer.roleSequences key + 1)
    (h : Inv key s' ∧ Later key { s with manager := m } s') : Inv key s' ∧ Later key s s' :=
  ⟨h.1, ⟨h.2.published, h.2.writer, Or.inr (by omega)⟩⟩

theorem roleLoads_congr {m m' : InstanceManager} {role : PDRole}
    (h : m'.rolePools role = m.rolePools role) : m'.roleLoads role = m.roleLoads role := by
  rw [InstanceManager.roleLoads, InstanceManager.roleLoads, InstanceManager.available,
    InstanceManager.available, h]

theorem exec_refresh_later {σ : HashOrder InstanceId} {eventType : EventType}
    {instances : List Instance} (hinv : Inv key s)
    (hkeep : KeepsView key s (.refresh σ eventType instances))
    (he : s.exec (.refresh σ eventType instances) = some s') : Inv key s' ∧ Later key s s' := by
  have hloads := hkeep.loads
  simp only [exec] at he
  simp only [managerAfter, Announces] at hloads
  generalize s.manager.refreshInstances σ eventType instances = r at he hloads
  obtain ⟨result, m⟩ := r
  have hinv' : Inv key { s with manager := m } := ⟨hinv.behind, hinv.entryCount_le⟩
  have hroom : Room key ({ s with manager := m } : LoadServer ι).shm.writer := hkeep.room
  split at he
  · next heq =>
    cases heq
    cases he
    have hlater := writeSnapshot_later hinv' hkeep.roleSequence_lt
    rcases hloads with hsame | ⟨-, hannounce⟩
    · exact Later.of_loads hsame hlater
    · exact Later.of_number (writeSnapshot_announces hroom hannounce) hlater
  · next hquiet heq =>
    cases heq
    cases he
    -- nothing is written, so the loads have to stay
    have hsame : m.roleLoads key.role = s.manager.roleLoads key.role := by
      refine hloads.resolve_right (fun h => ?_)
      cases result with
      | error err => exact Bool.false_ne_true h.1
      | ok modified =>
        have hmodified : modified = true := h.1
        exact hquiet (by rw [hmodified])
    exact Later.of_loads hsame ⟨hinv', Later.refl key _⟩

theorem exec_update_later {id : InstanceId} {endpointId : EndpointId} {change : Workload}
    (hinv : Inv key s) (hkeep : KeepsView key s (.update id endpointId change))
    (he : s.exec (.update id endpointId change) = some s') : Inv key s' ∧ Later key s s' := by
  have hloads := hkeep.loads
  have hpools := @InstanceManager.updateInstanceWorkloadSync_rolePools s.manager id endpointId change key.role
  simp only [exec] at he
  simp only [managerAfter, Announces] at hloads
  generalize s.manager.updateInstanceWorkloadSync id endpointId change = r at he hloads hpools
  obtain ⟨result, m⟩ := r
  have hinv' : Inv key { s with manager := m } := ⟨hinv.behind, hinv.entryCount_le⟩
  have hroom : Room key ({ s with manager := m } : LoadServer ι).shm.writer := hkeep.room
  split at he
  · next result' m' heq =>
    cases heq
    cases he
    have hlater := writeSingleEntry_later hinv' hkeep.roleSequence_lt id endpointId (some result')
    rcases hpools with hsame | ⟨workload, hresult⟩
    · exact Later.of_loads (roleLoads_congr hsame) hlater
    · -- the load is one of the role
      cases hresult
      rcases hloads with hsame | hannounce
      · exact Later.of_loads hsame hlater
      · refine Later.of_number ?_ hlater
        rcases hannounce with ⟨hslot, hpack⟩ | ⟨hnone, hannounce⟩
        · obtain ⟨slot, hslot⟩ := Dict.contains_iff.mp hslot
          exact writeSingleEntry_announces hinv' hroom hslot hpack
        · have hslot : s.shm.writer.slotMap.get? (id, endpointId) = none :=
            Option.isNone_iff_eq_none.mp (Option.isSome_eq_false_iff.mp hnone)
          have hsnapshot := writeSnapshot_announces hroom hannounce
          unfold writeSingleEntry Writer.writeSingleEntry
          simp only [hslot]
          exact hsnapshot
  · next hquiet heq =>
    cases heq
    cases he
    have hsame : m.rolePools key.role = s.manager.rolePools key.role := by
      refine hpools.resolve_right ?_
      rintro ⟨workload, hresult⟩
      exact hquiet _ hresult
    exact Later.of_loads (roleLoads_congr hsame) ⟨hinv', Later.refl key _⟩

theorem exec_replay_later {id : InstanceId} {endpointId : EndpointId} (hinv : Inv key s)
    (hkeep : KeepsView key s (.replay id endpointId))
    (he : s.exec (.replay id endpointId) = some s') : Inv key s' ∧ Later key s s' := by
  have hpools : (s.manager.getEndpointWorkloadSync id endpointId).2.rolePools = s.manager.rolePools :=
    InstanceManager.getEndpointWorkloadSync_rolePools
  simp only [exec] at he
  generalize s.manager.getEndpointWorkloadSync id endpointId = r at he hpools
  obtain ⟨result, m⟩ := r
  have hinv' : Inv key { s with manager := m } := ⟨hinv.behind, hinv.entryCount_le⟩
  have hroom : Room key ({ s with manager := m } : LoadServer ι).shm.writer := hkeep.room
  have hsame := roleLoads_congr (congrFun hpools key.role)
  split at he
  · next heq =>
    cases heq
    cases he
    exact Later.of_loads hsame (writeSingleEntry_later hinv' hkeep.roleSequence_lt id endpointId _)
  · next heq =>
    cases heq
    cases he
    exact Later.of_loads hsame ⟨hinv', Later.refl key _⟩

/-- **A step**: the loads of a role stay as they are, or they get a new number. -/
theorem exec_later (hinv : Inv key s) (hkeep : KeepsView key s op) (he : s.exec op = some s') :
    Inv key s' ∧ Later key s s' := by
  cases op with
  | refresh σ eventType instances => exact exec_refresh_later hinv hkeep he
  | update id endpointId change => exact exec_update_later hinv hkeep he
  | replay id endpointId => exact exec_replay_later hinv hkeep he

theorem run_later {ops : List LoadOp} (hinv : Inv key s) (hrun : Run exec (KeepsView key) s ops s') :
    Inv key s' ∧ Later key s s' :=
  hrun.invariant_state (I := fun t => Inv key t ∧ Later key s t) ⟨hinv, Later.refl key s⟩
    (fun h hkeep he => ⟨(exec_later h.1 hkeep he).1, h.2.trans (exec_later h.1 hkeep he).2⟩)

theorem inv_start (maxEntries size : Nat) : Inv key (start maxEntries size : LoadServer ι) := by
  have hnew : Inv key (⟨.new, .new maxEntries size⟩ : LoadServer ι) := by
    refine ⟨?_, Nat.zero_le _⟩
    cases key <;> exact Nat.le_refl _
  exact (writeSnapshot_later hnew (show 0 + 1 < 2 ^ 64 by decide)).1

/-- **A role's number identifies its loads.** In a run in which every change of the loads of a role is
announced, two states in which the segment shows the same number have the same loads; and so have two
states if the writer has, in the second, the number that the segment shows in the first. -/
theorem role_sequence_identifies_loads {maxEntries size : Nat} {ops ops' : List LoadOp}
    (hrun : Run exec (KeepsView key) (start maxEntries size) ops s)
    (hrun' : Run exec (KeepsView key) s ops' s') :
    (s.roleSequence key = s'.roleSequence key →
      s.manager.roleLoads key.role = s'.manager.roleLoads key.role) ∧
    (s.roleSequence key = s'.shm.writer.roleSequences key →
      s.manager.roleLoads key.role = s'.manager.roleLoads key.role) := by
  have hinv := (run_later (inv_start maxEntries size) hrun).1
  obtain ⟨hinv', hlater⟩ := run_later hinv hrun'
  have hle := hinv.behind
  have hle' := hinv'.behind
  constructor
  · intro heq
    exact (hlater.loads.resolve_right (by omega)).symm
  · intro heq
    exact (hlater.loads.resolve_right (by omega)).symm

open InstanceManager (oneEndpoint)

/-- A prefill instance comes and gets a request. -/
def prefillOps : List LoadOp :=
  [.refresh .insertion .add [oneEndpoint 1 "p" "prefill"], .update 1 0 ⟨5⟩]

/-- What only concerns the decode instance. -/
def decodeOps : List LoadOp :=
  [.refresh .insertion .add [oneEndpoint 2 "d" "decode"], .update 2 0 ⟨7⟩, .update 2 0 ⟨-7⟩]

/-- The instance is announced with another model, so it is replaced. -/
def inPlaceOps : List LoadOp :=
  [.refresh .insertion .set [{ oneEndpoint 1 "p" "prefill" with modelName := "other" }]]

/-- What the segment and the pools say about prefill. -/
def prefillView (s : LoadServer Empty) : Nat × Nat × Finset (InstanceId × EndpointId × ℚ) :=
  (s.shm.segment.header.sequence, s.roleSequence .prefill, s.manager.roleLoads .prefill)

theorem decodeOps_keep_prefill : ∃ s s' : LoadServer Empty,
    Run exec (KeepsView .prefill) (start 4 256) prefillOps s ∧
      Run exec (KeepsView .prefill) s decodeOps s' ∧ s.prefillView = (6, 2, {(1, 0, 5)}) ∧
      s'.shm.segment.header.sequence = 12 ∧
      s.manager.roleLoads .prefill = s'.manager.roleLoads .prefill := by
  have hview : (runList exec (KeepsView .prefill) (start 4 256) prefillOps).map prefillView =
      some (6, 2, {(1, 0, 5)}) := by decide +kernel
  have hnumbers : (runList exec (KeepsView .prefill) (start 4 256) (prefillOps ++ decodeOps)).map
      (fun s : LoadServer Empty => (s.shm.segment.header.sequence, s.roleSequence .prefill)) =
      some (12, 2) := by decide +kernel
  obtain ⟨s, s', hs, hs', hview, hnumbers⟩ := runList_runs hview hnumbers
  rw [Prod.mk.injEq] at hnumbers
  have hnumber : s.roleSequence .prefill = 2 := congrArg (·.2.1) hview
  exact ⟨s, s', hs, hs', hview, hnumbers.1,
    (role_sequence_identifies_loads hs hs').1 (hnumber.trans hnumbers.2.symm)⟩

/-- The number stays while the loads change: a replaced instance is reset, and an endpoint without a
slot gets a request. -/
theorem changed_loads_keep_number :
    (∃ s s' : LoadServer Empty, Run exec Free (start 4 256) prefillOps s ∧
      Run exec Free s inPlaceOps s' ∧
      s.prefillView = (6, 2, {(1, 0, 5)}) ∧ s'.prefillView = (8, 2, {(1, 0, 0)})) ∧
    ∃ s s' : LoadServer Empty, Run exec Free (start 1 256)
      [.refresh .insertion .add [oneEndpoint 1 "p" "prefill", oneEndpoint 2 "q" "prefill"]] s ∧
      Run exec Free s [.update 2 0 ⟨5⟩] s' ∧
      s.prefillView = (4, 1, {(1, 0, 0), (2, 0, 0)}) ∧
      s'.prefillView = (6, 1, {(1, 0, 0), (2, 0, 5)}) :=
  ⟨runList_runs (by decide +kernel) (by decide +kernel),
    runList_runs (by decide +kernel) (by decide +kernel)⟩

end LoadServer

end PyMotor.Coordinator
