import PyMotor.Coordinator.WorkloadShm

/-!
# What a reader accepts

Every header that the writer writes has a larger sequence number than the one before, and it writes
entries only under an odd number: the segment is a sequence lock (`Wrote.moves`). So the entries that a
reader collects between two matching headers are those of the segment at the first of them, which is
what the last complete write left there.
-/

namespace PyMotor.Coordinator

open Seqlock

/-! ## The segment as a sequence lock -/

/-- The fields that only a header write changes. -/
def WorkloadShmHeader.body (h : WorkloadShmHeader) : WorkloadShmHeader :=
  { h with sequence := 0, heartbeatSequence := 0 }

def Segment.view (seg : Segment) : View (WorkloadShmHeader × (Nat → WorkloadShmEntry)) :=
  ⟨seg.header.sequence, seg.header.body, seg.slots⟩

theorem packHeader_sequence {h h' : WorkloadShmHeader} (hp : packHeader h = some h') :
    h'.sequence = h.sequence := by
  unfold packHeader at hp
  split at hp
  · cases hp
    rfl
  · cases hp

namespace ShmSystem

variable {ι : Type} {s s' : ShmSystem ι}

/-- The sequence of the writer is ahead of the header by the bumps it has not written yet. -/
structure WriterOk (s : ShmSystem ι) : Prop where
  le : s.segment.header.sequence ≤ s.writer.sequence
  phase : match s.writer.pc with
    | .idle => True
    | .begin _ _ => s.segment.header.sequence < s.writer.sequence ∧ s.writer.sequence % 2 = 1
    | .entries _ _ => s.segment.header.sequence = s.writer.sequence ∧ s.writer.sequence % 2 = 1
    | .ending => s.segment.header.sequence < s.writer.sequence ∧ s.writer.sequence % 2 = 0

/-- No write is under way, and the last one was completed. -/
def Complete (s : ShmSystem ι) : Prop :=
  s.writer.pc = .idle ∧ s.segment.header.sequence = s.writer.sequence ∧
    s.segment.header.sequence % 2 = 0

/-- What the writer does to the segment: nothing that matters (`stay`), a new header (after which the
write goes on, or is complete), or an entry. -/
inductive Wrote (s s' : ShmSystem ι) : Prop where
  | stay : s'.segment.view = s.segment.view → Wrote s s'
  | begun : s.segment.header.sequence < s'.segment.header.sequence →
      s'.segment.header.sequence % 2 = 1 → Wrote s s'
  | completed : s.segment.header.sequence < s'.segment.header.sequence → s'.Complete → Wrote s s'
  | entry : s.segment.header.sequence % 2 = 1 →
      s'.segment.header.sequence = s.segment.header.sequence → Wrote s s'

theorem Wrote.moves (h : Wrote s s') : Moves s.segment.view s'.segment.view := by
  cases h with
  | stay heq =>
    rw [heq]
    exact Moves.stay _
  | begun hlt _ => exact Moves.publish hlt
  | completed hlt _ => exact Moves.publish hlt
  | entry hodd heq => exact Moves.inPlace hodd heq

/-- Either the header is written and the write goes on at `next`, or the write is given up. -/
theorem writeHeader_cases (s : ShmSystem ι) (next : WriterPc) :
    (s.writeHeader next).writer.sequence = s.writer.sequence ∧
      (((s.writeHeader next).writer.pc = .idle ∧ (s.writeHeader next).segment = s.segment) ∨
        ((s.writeHeader next).writer.pc = next ∧
          (s.writeHeader next).segment.header.sequence = s.writer.sequence)) := by
  unfold writeHeader
  simp only
  split
  · exact ⟨rfl, Or.inl ⟨rfl, rfl⟩⟩
  · next h hp => exact ⟨rfl, Or.inr ⟨rfl, packHeader_sequence hp⟩⟩

theorem writeHeader_readers (s : ShmSystem ι) (next : WriterPc) :
    (s.writeHeader next).readers = s.readers := by
  unfold writeHeader
  simp only
  split <;> rfl

theorem finish_sequence (w : Writer) (fin : Finish) : (w.finish fin).sequence = w.sequence := by
  cases fin with
  | snapshot entries => rfl
  | single role =>
    unfold Writer.finish Writer.bumpRoleSequence
    simp only
    split <;> rfl

/-- **An access of a write.** -/
theorem writeStep_wrote (h : s.WriterOk) (he : s.writeStep = some s') :
    s'.WriterOk ∧ Wrote s s' ∧ s'.readers = s.readers := by
  obtain ⟨hle, hphase⟩ := h
  unfold writeStep at he
  cases hpc : s.writer.pc with
  | idle =>
    rw [hpc] at he
    cases he
  | begin todo fin =>
    rw [hpc] at he hphase
    cases he
    -- the header does not fit and the write is given up, or its sequence number is odd from now on
    obtain ⟨hseq, ⟨hidle, hseg⟩ | ⟨hnext, hheader⟩⟩ := writeHeader_cases s (.entries todo fin)
    · refine ⟨⟨?_, ?_⟩, Wrote.stay ?_, ?_⟩
      · rw [hseg, hseq]
        exact hle
      · rw [hidle]
        trivial
      · rw [hseg]
      · exact writeHeader_readers _ _
    · refine ⟨⟨?_, ?_⟩, Wrote.begun ?_ ?_, ?_⟩
      · omega
      · rw [hnext]
        simp only
        omega
      · omega
      · omega
      · exact writeHeader_readers _ _
  | entries todo fin =>
    rw [hpc] at hphase
    cases todo with
    | nil =>
      rw [hpc] at he
      cases he
      have hseq := finish_sequence s.writer fin
      refine ⟨⟨?_, ?_⟩, Wrote.stay rfl, rfl⟩
      · simp only [Writer.endWrite]
        split <;> omega
      · simp only [Writer.endWrite]
        split <;> omega
    | cons p todo =>
      obtain ⟨slot, entry⟩ := p
      rw [hpc] at he
      cases he
      unfold writeEntryAtSlot
      cases hentry : packEntry entry with
      | none => exact ⟨⟨hle, trivial⟩, Wrote.stay rfl, rfl⟩
      | some entry =>
        refine ⟨⟨hle, hphase⟩, Wrote.entry ?_ rfl, rfl⟩
        omega
  | ending =>
    rw [hpc] at he hphase
    cases he
    -- the same header with an even number: all entries are there
    obtain ⟨hseq, ⟨hidle, hseg⟩ | ⟨hnext, hheader⟩⟩ := writeHeader_cases s .idle
    · refine ⟨⟨?_, ?_⟩, Wrote.stay ?_, ?_⟩
      · rw [hseg, hseq]
        exact hle
      · rw [hidle]
        trivial
      · rw [hseg]
      · exact writeHeader_readers _ _
    · refine ⟨⟨?_, ?_⟩, Wrote.completed ?_ ⟨hnext, ?_, ?_⟩, ?_⟩
      · omega
      · rw [hnext]
        trivial
      · omega
      · omega
      · omega
      · exact writeHeader_readers _ _

theorem writeHeartbeat_wrote (h : s.WriterOk) :
    s.writeHeartbeat.WriterOk ∧ Wrote s s.writeHeartbeat ∧ s.writeHeartbeat.readers = s.readers :=
  ⟨⟨h.le, h.phase⟩, Wrote.stay rfl, rfl⟩

theorem WriterOk.beginWrite (h : s.WriterOk) {w : Writer} (hw : w.sequence = s.writer.sequence)
    (todo : List (Nat × WorkloadShmEntry)) (fin : Finish) :
    WriterOk { s with writer := w.beginWrite todo fin } := by
  have hle := h.le
  refine ⟨?_, ?_⟩
  · simp only [Writer.beginWrite]
    split <;> omega
  · simp only [Writer.beginWrite]
    split <;> omega

theorem WriterOk.writeSnapshot (h : s.WriterOk) (available : PDRole → List Instance) :
    WriterOk { s with writer := s.writer.writeSnapshot available } := by
  apply WriterOk.beginWrite h
  rfl

theorem WriterOk.writeSingleEntry (h : s.WriterOk) (instanceId : InstanceId)
    (endpointId : EndpointId) (role : Option PDRole) (workload : Option Workload)
    (available : PDRole → List Instance) :
    WriterOk { s with writer :=
      s.writer.writeSingleEntry instanceId endpointId role workload available } := by
  unfold Writer.writeSingleEntry
  split
  · exact h.writeSnapshot available
  · split
    · apply WriterOk.beginWrite h
      rfl
    · exact ⟨h.le, h.phase⟩

/-! ## Readers -/

section Readers

variable {r r' : Reader} {seg seg' : Segment} {h : WorkloadShmHeader}
  {es : List WorkloadShmEntry} {Was : Stable → Prop}

/-- The reader has read the header `h`, and then the entries `es`. As long as the segment carries the
number of `h`, these are entries of the segment. -/
structure Collected (seg : Segment) (h : WorkloadShmHeader) (es : List WorkloadShmEntry) : Prop where
  even : h.sequence % 2 = 0
  schema : h.schemaVersion = schemaVersion
  length_le : es.length ≤ h.entryCount
  since : ∃ slots, Since ⟨h.sequence, h.body, slots⟩ seg.view ∧
    (h.sequence = seg.header.sequence → es = (List.range es.length).map slots)

theorem Collected.start (hvalid : Reader.isValidHeader seg.size seg.header = true)
    (heven : ¬ seg.header.sequence % 2 = 1) : Collected seg seg.header [] := by
  unfold Reader.isValidHeader at hvalid
  rw [decide_eq_true_eq] at hvalid
  exact ⟨by omega, hvalid.2.1, Nat.zero_le _, seg.slots, Since.refl _, fun _ => rfl⟩

theorem Collected.move (hc : Collected seg h es) (hm : Moves seg.view seg'.view) :
    Collected seg' h es := by
  obtain ⟨slots, hsince, hes⟩ := hc.since
  refine ⟨hc.even, hc.schema, hc.length_le, slots, hsince.move hm, fun heq => hes ?_⟩
  have hle : seg.header.sequence ≤ seg'.header.sequence := (Since.refl seg.view).move hm |>.le
  have hle' : h.sequence ≤ seg.header.sequence := hsince.le
  omega

theorem Collected.read (hc : Collected seg h es) (hlt : es.length < h.entryCount) :
    Collected seg h (es ++ [seg.slots es.length]) := by
  obtain ⟨slots, hsince, hes⟩ := hc.since
  refine ⟨hc.even, hc.schema, ?_, slots, hsince, fun heq => ?_⟩
  · rw [List.length_append, List.length_singleton]
    omega
  · have hsame : (h.body, slots) = (seg.header.body, seg.slots) := hsince.same hc.even heq
    have hslots : slots = seg.slots := congrArg Prod.snd hsame
    rw [List.length_append, List.length_singleton, List.range_succ, List.map_append, ← hes heq,
      hslots]
    rfl

/-- **At a matching header the collection is what the segment says.** -/
theorem Collected.entries_eq (hc : Collected seg h es) (hall : ¬ es.length < h.entryCount)
    (hseq : seg.header.sequence = h.sequence) : es = seg.stable.entries := by
  obtain ⟨slots, hsince, hes⟩ := hc.since
  have hsame : (h.body, slots) = (seg.header.body, seg.slots) := hsince.same hc.even hseq.symm
  have hcount : h.entryCount = seg.header.entryCount :=
    congrArg (fun p => WorkloadShmHeader.entryCount p.1) hsame
  have hslots : slots = seg.slots := congrArg Prod.snd hsame
  have hlen : es.length = seg.header.entryCount := by
    have := hc.length_le
    omega
  calc es = (List.range es.length).map slots := hes hseq.symm
    _ = seg.stable.entries := by rw [hlen, hslots]; rfl

end Readers

end ShmSystem

/-! ## Accepted snapshots -/

/-- The roles whose sequence the call takes: the role asked for, or all of them. -/
def Covers (asked : Option PDRole) (role : PDRole) : Prop :=
  asked = some role ∨ asked = none ∨ asked = some .encode

/-- **What a call returned, patched and remembers is the content of one state.** -/
structure Accepted.From (a : Accepted) (st : Stable) : Prop where
  instanceVersion : a.instanceVersion = st.instanceVersion
  patches : ∀ patches, a.patches = some patches → patches = Reader.patchEntries a.role st.entries
  roleSequences : ∀ role key, roleSequenceField role = some key → Covers a.role role →
    a.roleSequences.get? role = some (st.roleSequence key)
  sequence : a.role = none ∨ a.role = some .encode → a.sequence = some st.sequence

namespace Reader

variable {r r' : Reader} {seg seg' : Segment} {role : Option PDRole} {now : ℚ}

/-- In the current layout the header has the sequence of every role that has one. -/
theorem roleSequenceFromHeader_eq (hschema : seg.header.schemaVersion = schemaVersion) :
    roleSequenceFromHeader seg.header role =
      (role.bind roleSequenceField).map seg.stable.roleSequence := by
  have hsupported : roleSequencesSupported seg.header = true := by
    simp [roleSequencesSupported, hschema]
  unfold roleSequenceFromHeader
  rw [if_pos hsupported]
  cases role with
  | none => rfl
  | some role => cases role <;> rfl

theorem updateHeartbeat_remembers (r : Reader) (h : WorkloadShmHeader) (now : ℚ) :
    (r.updateHeartbeatAndCheckStale h now).2.lastRoleSequences = r.lastRoleSequences ∧
      (r.updateHeartbeatAndCheckStale h now).2.lastSequence = r.lastSequence := by
  unfold updateHeartbeatAndCheckStale
  simp only
  split <;> exact ⟨rfl, rfl⟩

theorem recordPatchedSequences_eq (hschema : seg.header.schemaVersion = schemaVersion) :
    (∀ role' key, roleSequenceField role' = some key → Covers role role' →
      (r.recordPatchedSequences seg.header role).lastRoleSequences.get? role' =
        some (seg.stable.roleSequence key)) ∧
    (role = none ∨ role = some .encode →
      (r.recordPatchedSequences seg.header role).lastSequence = some seg.stable.sequence) := by
  have hsupported : roleSequencesSupported seg.header = true := by
    simp [roleSequencesSupported, hschema]
  have hall : ∀ role' key, roleSequenceField role' = some key →
      (((Dict.insert ∅ PDRole.prefill seg.header.prefillSequence).insert .decode
        seg.header.decodeSequence).insert .union seg.header.hybridSequence).get? role' =
        some (seg.stable.roleSequence key) := by
    intro role' key hkey
    cases role' <;> cases hkey <;> rfl
  unfold recordPatchedSequences
  rw [roleSequenceFromHeader_eq hschema]
  cases role with
  | none =>
    refine ⟨fun role' key hkey _ => ?_, fun _ => rfl⟩
    simp only [hsupported, ↓reduceIte]
    exact hall role' key hkey
  | some role =>
    cases hfield : roleSequenceField role with
    | none =>
      refine ⟨fun role' key hkey _ => ?_, fun _ => ?_⟩
      · simp only [Option.bind_some, hfield, Option.map_none, hsupported, ↓reduceIte]
        exact hall role' key hkey
      · simp only [Option.bind_some, hfield, Option.map_none]
        rfl
    | some key' =>
      refine ⟨fun role' key hkey hcovers => ?_, fun hnone => ?_⟩
      · rcases hcovers with heq | heq | heq
        · cases heq
          rw [hfield] at hkey
          cases hkey
          simp only [Option.bind_some, hfield, Option.map_some, Dict.get?_insert_self]
        · cases heq
        · cases heq
          cases hfield
      · rcases hnone with heq | heq
        · cases heq
        · cases heq
          cases hfield

theorem accept_scan_from (hschema : seg.header.schemaVersion = schemaVersion) {a : Accepted}
    (ha : (r.accept role seg.header (some seg.stable.entries) now).accepted = some a) :
    a.From seg.stable := by
  cases ha
  obtain ⟨hroles, hseq⟩ := recordPatchedSequences_eq hschema
  refine ⟨rfl, fun patches hp => ?_, hroles, hseq⟩
  cases hp
  rfl

theorem accept_skip_from (hschema : seg.header.schemaVersion = schemaVersion)
    (hcurrent : r.roleCacheIsCurrent seg.header role = true) {a : Accepted}
    (ha : (r.accept role seg.header none now).accepted = some a) : a.From seg.stable := by
  cases ha
  obtain ⟨hroles, -⟩ := updateHeartbeat_remembers r seg.header now
  unfold roleCacheIsCurrent at hcurrent
  rw [roleSequenceFromHeader_eq hschema] at hcurrent
  cases role with
  | none => cases hcurrent
  | some role =>
    cases hfield : roleSequenceField role with
    | none => simp [hfield] at hcurrent
    | some key =>
      simp only [Option.bind_some, hfield, Option.map_some, decide_eq_true_eq] at hcurrent
      refine ⟨rfl, fun patches hp => ?_, fun role' key' hkey hcovers => ?_, fun hnone => ?_⟩
      · cases hp
      · rcases hcovers with heq | heq | heq
        · cases heq
          rw [hfield] at hkey
          cases hkey
          show (r.updateHeartbeatAndCheckStale seg.header now).2.lastRoleSequences.get? role = _
          rw [hroles]
          exact hcurrent
        · cases heq
        · cases heq
          cases hfield
      · rcases hnone with heq | heq
        · cases heq
        · cases heq
          cases hfield

/-- What holds of a reader: it has collected entries of the segment, or these will not be confirmed,
and what it accepted `Was` the content of a state. -/
structure Ok (seg : Segment) (Was : Stable → Prop) (r : Reader) : Prop where
  pc : match r.pc with
    | .idle | .header _ _ => True
    | .confirmSkip role _ h => ShmSystem.Collected seg h [] ∧ r.roleCacheIsCurrent h role = true
    | .scan _ _ h es => ShmSystem.Collected seg h es
  accepted : ∀ a, r.accepted = some a → ∃ st, Was st ∧ a.From st

variable {Was Was' : Stable → Prop}

theorem Ok.giveUp (_ : r.Ok seg Was) : r.giveUp.Ok seg Was :=
  ⟨trivial, fun a ha => by cases ha⟩

theorem Ok.retry (h : r.Ok seg Was) (attempts : Nat) : (r.retry role attempts).Ok seg Was := by
  unfold Reader.retry
  split
  · exact h.giveUp
  · exact ⟨trivial, h.accepted⟩

theorem headersMatch_eq {h after : WorkloadShmHeader} (hm : headersMatch h after = true) :
    after.magic = magicNumber ∧ after.schemaVersion = h.schemaVersion ∧
      after.sequence = h.sequence ∧ after.sequence % 2 = 0 := by
  unfold headersMatch at hm
  rw [Bool.and_eq_true, decide_eq_true_eq] at hm
  exact ⟨hm.1.1, hm.1.2.1, hm.1.2.2.1, hm.1.2.2.2.1⟩

theorem roleCacheIsCurrent_congr {h after : WorkloadShmHeader}
    (hbody : h.body = after.body) (role : Option PDRole) :
    r.roleCacheIsCurrent after role = r.roleCacheIsCurrent h role := by
  have hfield : roleSequenceFromHeader after role = roleSequenceFromHeader h role := by
    have hrole : ∀ g : WorkloadShmHeader, roleSequenceFromHeader g role =
        roleSequenceFromHeader g.body role := fun g => rfl
    rw [hrole after, hrole h, hbody]
  unfold roleCacheIsCurrent
  rw [hfield]

/-- **A step of a reader.** What is stable is the content of a state, so what is accepted is too. -/
theorem Ok.step (hr : r.Ok seg Was)
    (hpub : seg.header.sequence % 2 = 0 → seg.header.magic = magicNumber → Was seg.stable)
    (hstep : r.step seg now = some r') : r'.Ok seg Was := by
  have hpc := hr.pc
  unfold Reader.step at hstep
  cases heq : r.pc with
  | idle =>
    rw [heq] at hstep
    cases hstep
  | header role attempts =>
    rw [heq] at hstep
    simp only at hstep
    split at hstep
    · cases hstep
      exact hr.giveUp
    · next hvalid =>
      have hvalid' : isValidHeader seg.size seg.header = true := by simpa using hvalid
      split at hstep
      · cases hstep
        exact hr.retry attempts
      · next heven =>
        -- the writer was not at work when the header was read
        have hstart := ShmSystem.Collected.start hvalid' heven
        split at hstep
        · next hcurrent =>
          cases hstep
          exact ⟨⟨hstart, hcurrent⟩, hr.accepted⟩
        · cases hstep
          exact ⟨hstart, hr.accepted⟩
  | confirmSkip role attempts h =>
    rw [heq] at hstep hpc
    obtain ⟨hcoll, hcurrent⟩ := hpc
    simp only at hstep
    split at hstep
    · next hmatch =>
      cases hstep
      obtain ⟨hmagic, hschema, hseq, heven⟩ := headersMatch_eq hmatch
      refine ⟨trivial, fun a ha => ⟨seg.stable, hpub heven hmagic, ?_⟩⟩
      obtain ⟨slots, hsince, -⟩ := hcoll.since
      have hsame : (h.body, slots) = (seg.header.body, seg.slots) :=
        hsince.same hcoll.even hseq.symm
      refine accept_skip_from (hschema.trans hcoll.schema) ?_ ha
      rw [roleCacheIsCurrent_congr (congrArg Prod.fst hsame)]
      exact hcurrent
    · cases hstep
      exact ⟨hcoll, hr.accepted⟩
  | scan role attempts h es =>
    rw [heq] at hstep hpc
    simp only at hstep
    split at hstep
    · next hlt =>
      cases hstep
      exact ⟨hpc.read hlt, hr.accepted⟩
    · next hall =>
      split at hstep
      · next hmatch =>
        cases hstep
        obtain ⟨hmagic, hschema, hseq, heven⟩ := headersMatch_eq hmatch
        refine ⟨trivial, fun a ha => ⟨seg.stable, hpub heven hmagic, ?_⟩⟩
        -- an equal number: what was collected is what is there now
        rw [hpc.entries_eq hall hseq] at ha
        exact accept_scan_from (hschema.trans hpc.schema) ha
      · cases hstep
        exact hr.retry attempts

theorem Ok.move (hr : r.Ok seg Was) (hm : Moves seg.view seg'.view)
    (hwas : ∀ st, Was st → Was' st) : r.Ok seg' Was' := by
  refine ⟨?_, fun a ha => ?_⟩
  · have hpc := hr.pc
    split
    · trivial
    · trivial
    · next heq =>
      rw [heq] at hpc
      exact ⟨hpc.1.move hm, hpc.2⟩
    · next heq =>
      rw [heq] at hpc
      exact hpc.move hm
  · obtain ⟨st, hst, hfrom⟩ := hr.accepted a ha
    exact ⟨st, hwas st hst, hfrom⟩

end Reader

/-! ## Runs -/

namespace ShmSystem

variable {ι : Type} [DecidableEq ι] {maxEntries size : Nat} {ls : List (ShmStep ι)}
  {s s' : ShmSystem ι}

/-- The segment said this when some write of the run had been completed and the next one had not yet
begun. -/
def WasComplete (maxEntries size : Nat) (ls : List (ShmStep ι)) (st : Stable) : Prop :=
  ∃ pre s, pre <+: ls ∧ Run exec Free (new maxEntries size) pre s ∧ s.Complete ∧
    s.segment.stable = st

theorem WasComplete.snoc {st : Stable} (l : ShmStep ι) (h : WasComplete maxEntries size ls st) :
    WasComplete maxEntries size (ls ++ [l]) st := by
  obtain ⟨pre, s, hpre, hs⟩ := h
  exact ⟨pre, s, hpre.trans (List.prefix_append ls [l]), hs⟩

structure Inv (maxEntries size : Nat) (ls : List (ShmStep ι)) (s : ShmSystem ι) : Prop where
  run : Run exec Free (new maxEntries size) ls s
  writer : s.WriterOk
  published : s.segment.header.sequence % 2 = 0 → s.segment.header.magic = magicNumber →
    WasComplete maxEntries size ls s.segment.stable
  readers : ∀ i, (s.readers i).Ok s.segment (WasComplete maxEntries size ls)

theorem inv_new : Inv maxEntries size [] (new maxEntries size : ShmSystem ι) where
  run := Run.nil
  writer := ⟨Nat.le_refl _, trivial⟩
  published _ hmagic := by cases hmagic
  readers _ := ⟨trivial, fun a ha => by cases ha⟩

theorem stable_congr {seg seg' : Segment} (h : seg'.view = seg.view) :
    seg'.header.sequence = seg.header.sequence ∧ seg'.header.magic = seg.header.magic ∧
      seg'.stable = seg.stable := by
  have hseq : seg'.header.sequence = seg.header.sequence := congrArg View.seq h
  have hmagic : seg'.header.magic = seg.header.magic := congrArg (fun v => v.content.1.magic) h
  have hversion : seg'.header.instanceVersion = seg.header.instanceVersion :=
    congrArg (fun v => v.content.1.instanceVersion) h
  have hprefill : seg'.header.prefillSequence = seg.header.prefillSequence :=
    congrArg (fun v => v.content.1.prefillSequence) h
  have hdecode : seg'.header.decodeSequence = seg.header.decodeSequence :=
    congrArg (fun v => v.content.1.decodeSequence) h
  have hhybrid : seg'.header.hybridSequence = seg.header.hybridSequence :=
    congrArg (fun v => v.content.1.hybridSequence) h
  have hcount : seg'.header.entryCount = seg.header.entryCount :=
    congrArg (fun v => v.content.1.entryCount) h
  have hslots : seg'.slots = seg.slots := congrArg (fun v => v.content.2) h
  refine ⟨hseq, hmagic, ?_⟩
  unfold Segment.stable
  simp only [hseq, hversion, hprefill, hdecode, hhybrid, hcount, hslots]

theorem Inv.wrote {l : ShmStep ι} (h : Inv maxEntries size ls s) (he : s.exec l = some s')
    (hwriter : s'.WriterOk) (hwrote : Wrote s s') (hreaders : s'.readers = s.readers) :
    Inv maxEntries size (ls ++ [l]) s' := by
  have hrun := h.run.snoc trivial he
  refine ⟨hrun, hwriter, fun heven hmagic => ?_, fun i => ?_⟩
  · cases hwrote with
    | stay hview =>
      obtain ⟨hseq, hmag, hst⟩ := stable_congr hview
      rw [hst]
      exact (h.published (hseq ▸ heven) (hmag ▸ hmagic)).snoc l
    | begun _ hodd => omega
    | completed _ hcomplete => exact ⟨_, s', List.prefix_rfl, hrun, hcomplete, rfl⟩
    | entry hodd heq => omega
  · rw [hreaders]
    exact (h.readers i).move hwrote.moves fun st hst => hst.snoc l

theorem Inv.reader {l : ShmStep ι} {i : ι} {r : Reader} (h : Inv maxEntries size ls s)
    (he : s.exec l = some { s with readers := Function.update s.readers i r })
    (hr : r.Ok s.segment (WasComplete maxEntries size ls)) :
    Inv maxEntries size (ls ++ [l]) { s with readers := Function.update s.readers i r } := by
  refine ⟨h.run.snoc trivial he, ⟨h.writer.le, h.writer.phase⟩,
    fun heven hmagic => (h.published heven hmagic).snoc l, fun j => ?_⟩
  by_cases hij : j = i
  · subst hij
    simp only [Function.update_self]
    exact hr.move (Moves.stay _) fun st hst => hst.snoc l
  · simp only [Function.update_of_ne hij]
    exact (h.readers j).move (Moves.stay _) fun st hst => hst.snoc l

/-- **Every step keeps the segment a sequence lock.** -/
theorem exec_inv {l : ShmStep ι} (h : Inv maxEntries size ls s) (he : s.exec l = some s') :
    Inv maxEntries size (ls ++ [l]) s' := by
  have he' := he
  cases l with
  | writeSnapshot available =>
    simp only [exec] at he
    split at he
    · cases he
      exact h.wrote he' (h.writer.writeSnapshot available) (Wrote.stay rfl) rfl
    · cases he
  | writeSingleEntry instanceId endpointId role workload available =>
    simp only [exec] at he
    split at he
    · cases he
      exact h.wrote he' (h.writer.writeSingleEntry instanceId endpointId role workload available)
        (Wrote.stay rfl) rfl
    · cases he
  | write =>
    obtain ⟨hwriter, hwrote, hreaders⟩ := writeStep_wrote h.writer he
    exact h.wrote he' hwriter hwrote hreaders
  | heartbeat =>
    cases he
    obtain ⟨hwriter, hwrote, hreaders⟩ := writeHeartbeat_wrote h.writer
    exact h.wrote he' hwriter hwrote hreaders
  | call i role =>
    simp only [exec] at he
    split at he
    · cases he
      exact h.reader he' ⟨trivial, (h.readers i).accepted⟩
    · cases he
  | read i now =>
    simp only [exec, Option.map_eq_some_iff] at he
    obtain ⟨r, hr, rfl⟩ := he
    exact h.reader he' ((h.readers i).step h.published hr)

/-- **No torn snapshot.** In every run of the writer and the readers, whatever a reader has accepted is
the content of the segment in one state between two complete writes. -/
theorem accepted_from_complete_state {i : ι} {a : Accepted}
    (hrun : Run exec Free (new maxEntries size) ls s) (ha : (s.readers i).accepted = some a) :
    ∃ pre s', pre <+: ls ∧ Run exec Free (new maxEntries size) pre s' ∧ s'.Complete ∧
      a.From s'.segment.stable := by
  have hinv : Inv maxEntries size ls s := hrun.invariant inv_new fun h _ he => exec_inv h he
  obtain ⟨st, ⟨pre, s', hpre, hrun', hcomplete, rfl⟩, hfrom⟩ := (hinv.readers i).accepted a ha
  exact ⟨pre, s', hpre, hrun', hcomplete, hfrom⟩

/-- One prefill instance with one endpoint. -/
def onePrefill (tokens : ℚ) : PDRole → List Instance
  | .prefill =>
    [{ jobName := "p0", modelName := "model", engineType := none, dispatchCapabilities := [],
       id := 1, role := "prefill", parallelConfig := none, enableMultiEndpoints := true,
       nodeManagers := [],
       endpoints := Dict.insert ∅ "10.0.0.1"
         (Dict.insert ∅ 0 ⟨0, "10.0.0.1", "8000", "8001", none, [], ⟨tokens⟩, false⟩),
       gatheredWorkload := ⟨tokens⟩ }]
  | _ => []

/-- The reader is caught in the middle of a write, and succeeds at the second attempt. -/
def overtakenSteps : List (ShmStep Unit) :=
  [.writeSnapshot (onePrefill 0), .write, .write, .write, .write,
   .call () (some .prefill), .read () 1,
   .writeSingleEntry 1 0 (some .prefill) (some ⟨7⟩) (onePrefill 7), .write, .write,
   .read () 1, .write, .write,
   .read () 1, .read () 2, .read () 2, .heartbeat, .read () 2]

theorem overtakenSteps_accepts :
    ∃ s a, Run exec Free (new 4 256) overtakenSteps s ∧ (s.readers ()).accepted = some a ∧
      a.patches = some [⟨1, 0, .prefill, 7⟩] ∧
      ∃ pre s', pre <+: overtakenSteps ∧ Run exec Free (new 4 256) pre s' ∧ s'.Complete ∧
        a.From s'.segment.stable := by
  have hpatches : (runList exec Free (new 4 256) overtakenSteps).map
      (fun s => (s.readers ()).accepted.map (·.patches)) =
      some (some (some [⟨1, 0, .prefill, 7⟩])) := by
    rfl
  obtain ⟨s, hs, hacc⟩ := Option.map_eq_some_iff.mp hpatches
  obtain ⟨a, ha, hp⟩ := Option.map_eq_some_iff.mp hacc
  exact ⟨s, a, runList_run hs, ha, hp, accepted_from_complete_state (runList_run hs) ha⟩

end ShmSystem

end PyMotor.Coordinator
