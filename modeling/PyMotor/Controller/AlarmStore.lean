import Mathlib.Data.List.Chain
import PyMotor.Lib.Always
import PyMotor.Lib.Dict
import PyMotor.Router.PrecisionSample

/-!
# The alarm store

The controller keeps alarms and events for the systems that watch it
(`controller/observability/alarm/alarm_store.py`). Each of these sources has a list of its own: a record
is appended to all lists, and a source takes its list away when it asks.

An alarm is not appended again and again. The exceptions of an instance or a coordinator come raised and cleared in
turns. A precision alarm that is active is not raised again; its clearing is always passed on.

What was appended is kept here beside what the store holds, and so is what each source has taken away. Times and
texts of a record are left out.
-/

namespace PyMotor.Controller

open Router.PrecisionSample (intOfString)

inductive AlarmCategory where
  | alarm
  | clear
  | event
  | levelChange
  | confirm
  | unconfirm
  | otherChange
  deriving DecidableEq, Repr

structure AlarmRecord where
  alarmId : String
  category : AlarmCategory
  cleared : Bool
  moi : String
  instanceId : String
  pInstanceId : String
  deriving DecidableEq, Repr

def precisionIssueAlarmId : String := "0xFC001009"

def instanceExceptionAlarmId : String := "0xFC001002"

def coordinatorExceptionAlarmId : String := "0xFC001004"

namespace AlarmRecord

variable (r : AlarmRecord)

/-- `_precision_alarm_key` -/
def precisionAlarmKey : String :=
  if r.moi ≠ "" then r.moi else r.alarmId ++ ":" ++ r.pInstanceId ++ ":" ++ r.instanceId

def recoveryAlarmKey : String := r.alarmId ++ "_" ++ r.instanceId

def isPrecision : Bool := r.alarmId = precisionIssueAlarmId

def isRecoverable : Bool := r.alarmId ∈ [instanceExceptionAlarmId, coordinatorExceptionAlarmId]

end AlarmRecord

structure AlarmStore where
  /-- What each source has not taken away. -/
  alarms : Dict (Option String) (List AlarmRecord)
  recoverableAlarms : Dict String AlarmRecord
  activePrecisionAlarms : Dict String AlarmRecord
  /-- All that was appended to the lists. -/
  sent : List AlarmRecord
  /-- What a source has taken away, and how much was sent before it was a source. -/
  taken : Option String → List AlarmRecord
  joined : Option String → ℕ

inductive AlarmStep where
  | add (records : List AlarmRecord)
  | get (sourceId : Option String)
  deriving DecidableEq, Repr

namespace AlarmStore

/-- The northbound platform is a source from the start. -/
def new (northPlatform : String) : AlarmStore where
  alarms := (∅ : Dict (Option String) (List AlarmRecord)).insert (some northPlatform) []
  recoverableAlarms := ∅
  activePrecisionAlarms := ∅
  sent := []
  taken _ := []
  joined _ := 0

variable (s : AlarmStore)

def send (r : AlarmRecord) : AlarmStore :=
  { s with alarms := s.alarms.mapVal fun _ value => value ++ [r], sent := s.sent ++ [r] }

def handlePrecisionIssueAlarm (r : AlarmRecord) : AlarmStore :=
  let key := r.precisionAlarmKey
  if r.cleared = false ∧ r.category = .alarm then
    if s.activePrecisionAlarms.contains key then s
    else { s.send r with activePrecisionAlarms := s.activePrecisionAlarms.insert key r }
  else if r.cleared = true ∨ r.category = .clear then
    { s.send r with activePrecisionAlarms := s.activePrecisionAlarms.erase key }
  else s.send r

/-- Another state of the alarm than the last one is passed on. -/
def handleInstanceExceptionAlarm (r : AlarmRecord) : AlarmStore :=
  let key := r.recoveryAlarmKey
  if r.cleared = false then
    if s.recoverableAlarms.contains key then s
    else { s.send r with recoverableAlarms := s.recoverableAlarms.insert key r }
  else if s.recoverableAlarms.contains key then
    { s.send r with recoverableAlarms := s.recoverableAlarms.erase key }
  else s

def addAlarm (r : AlarmRecord) : AlarmStore :=
  if r.isPrecision then s.handlePrecisionIssueAlarm r
  else if r.isRecoverable then s.handleInstanceExceptionAlarm r
  else s.send r

def addAlarms (records : List AlarmRecord) : AlarmStore := records.foldl addAlarm s

def getAlarms (sourceId : Option String) : List (List AlarmRecord) × AlarmStore :=
  let result := (s.alarms.get? sourceId).getD []
  (if result.isEmpty then [] else [result],
    { s with
      alarms := s.alarms.insert sourceId []
      taken := Function.update s.taken sourceId (s.taken sourceId ++ result)
      joined := if s.alarms.contains sourceId then s.joined
        else Function.update s.joined sourceId s.sent.length })

/-- The northbound interface asks for the precision alarm of a PD group. -/
def findActivePrecisionAlarm (pInstanceId : Option ℤ) (dInstanceId : ℤ) : Option AlarmRecord :=
  s.activePrecisionAlarms.values.find? fun r =>
    decide (intOfString r.instanceId = some dInstanceId) &&
      match pInstanceId with
      | none => (intOfString r.pInstanceId).all fun p => decide (p ≤ 0)
      | some p => decide (intOfString r.pInstanceId = some p)

def exec : AlarmStep → Option AlarmStore
  | .add records => some (s.addAlarms records)
  | .get sourceId => some (s.getAlarms sourceId).2

end AlarmStore

/-! ## Raising and clearing -/

/-- A record that raises or clears the alarm of a key, or is about another one. -/
abbrev AlarmLevel := String → AlarmRecord → Option Bool

/-- How an alarm went up and down. -/
def AlarmLevel.history (level : AlarmLevel) (key : String) (sent : List AlarmRecord) : List Bool := sent.filterMap (level key)

def AlarmLevel.recoverable : AlarmLevel := fun key r =>
  if !r.isPrecision && r.isRecoverable && decide (r.recoveryAlarmKey = key) then some !r.cleared else none

def AlarmLevel.precision : AlarmLevel := fun key r =>
  if r.isPrecision && decide (r.precisionAlarmKey = key) then
    if r.cleared = false ∧ r.category = .alarm then some true
    else if r.cleared = true ∨ r.category = .clear then some false
    else none
  else none

/-- The table holds the alarms that went up last. -/
def AlarmLevel.Agrees (level : AlarmLevel) (table : Dict String AlarmRecord) (sent : List AlarmRecord) : Prop :=
  ∀ key, table.contains key = true ↔ (level.history key sent).getLast? = some true

namespace AlarmLevel

variable {level : AlarmLevel} {table : Dict String AlarmRecord} {sent : List AlarmRecord} {r : AlarmRecord}
  {key : String} {R : Bool → Bool → Prop}

theorem history_concat : level.history key (sent ++ [r]) = level.history key sent ++ (level key r).toList := by
  rw [history, List.filterMap_append]
  cases hlevel : level key r <;> simp [history, hlevel]

theorem Agrees.skip (h : level.Agrees table sent) (hr : ∀ key, level key r = none) :
    level.Agrees table (sent ++ [r]) := by
  intro key
  rw [history_concat, hr key, Option.toList_none, List.append_nil]
  exact h key

theorem Agrees.raise (h : level.Agrees table sent)
    (hr : ∀ key', level key' r = if key' = key then some true else none) :
    level.Agrees (table.insert key r) (sent ++ [r]) := by
  intro key'
  rw [history_concat, hr key', Dict.contains_insert]
  by_cases hkey : key' = key
  · simp [hkey]
  · rw [if_neg hkey, Option.toList_none, List.append_nil, ← h key']
    exact or_iff_right hkey

theorem Agrees.lower (h : level.Agrees table sent)
    (hr : ∀ key', level key' r = if key' = key then some false else none) :
    level.Agrees (table.erase key) (sent ++ [r]) := by
  intro key'
  rw [history_concat, hr key', Dict.contains, Dict.get?_erase]
  by_cases hkey : key' = key
  · simp [hkey]
  · simp only [hkey, if_false, Option.toList_none, List.append_nil, ← h key', Ne.symm hkey]
    rfl

theorem isChain_concat (h : ((level.history key sent).IsChain R))
    (hr : ∀ up, level key r = some up → ∀ last ∈ (level.history key sent).getLast?, R last up) :
    (level.history key (sent ++ [r])).IsChain R := by
  rw [history_concat, List.isChain_append]
  cases hlevel : level key r with
  | none => simp [h]
  | some up =>
    refine ⟨h, List.isChain_singleton _, fun last hlast up' hup => ?_⟩
    cases Option.some.inj hup
    exact hr up hlevel last hlast

end AlarmLevel

/-! ## What every source learns -/

namespace AlarmStore

variable {s s' : AlarmStore} {r : AlarmRecord} {northPlatform : String}

theorem recoverable_eq {key : String} (hprecision : r.isPrecision = false) (hrecoverable : r.isRecoverable = true) :
    AlarmLevel.recoverable key r = if key = r.recoveryAlarmKey then some !r.cleared else none := by
  simp [AlarmLevel.recoverable, hprecision, hrecoverable, eq_comm]

theorem recoverable_none {key : String} (h : r.isPrecision = true ∨ r.isRecoverable = false) :
    AlarmLevel.recoverable key r = none := by
  rcases h with h | h <;> simp [AlarmLevel.recoverable, h]

theorem precision_eq {key : String} {up : Option Bool} (hprecision : r.isPrecision = true)
    (hup : up = if r.cleared = false ∧ r.category = .alarm then some true
      else if r.cleared = true ∨ r.category = .clear then some false else none) :
    AlarmLevel.precision key r = if key = r.precisionAlarmKey then up else none := by
  subst hup
  simp only [AlarmLevel.precision, hprecision, Bool.true_and, decide_eq_true_eq]
  by_cases hkey : key = r.precisionAlarmKey
  · rw [if_pos hkey, if_pos hkey.symm]
  · rw [if_neg hkey, if_neg fun heq => hkey heq.symm]

theorem precision_none {key : String} (h : r.isPrecision = false) : AlarmLevel.precision key r = none := by
  simp [AlarmLevel.precision, h]

/-- What is kept from step to step. -/
structure Inv (northPlatform : String) (s : AlarmStore) : Prop where
  recoverable : AlarmLevel.recoverable.Agrees s.recoverableAlarms s.sent
  precision : AlarmLevel.precision.Agrees s.activePrecisionAlarms s.sent
  turns : ∀ key, (AlarmLevel.recoverable.history key s.sent).IsChain (· ≠ ·) ∧
    (AlarmLevel.recoverable.history key s.sent).head? ≠ some false
  once : ∀ key, (AlarmLevel.precision.history key s.sent).IsChain fun last up => (last && up) = false
  lists : ∀ source pending, s.alarms.get? source = some pending →
    s.taken source ++ pending = s.sent.drop (s.joined source) ∧ s.joined source ≤ s.sent.length
  strangers : ∀ source, s.alarms.get? source = none → s.taken source = []
  platform : s.joined (some northPlatform) = 0 ∧ s.alarms.contains (some northPlatform) = true

theorem inv_new (northPlatform : String) : (new northPlatform).Inv northPlatform where
  recoverable key := by simp [new, AlarmLevel.history, Dict.contains]
  precision key := by simp [new, AlarmLevel.history, Dict.contains]
  turns key := ⟨List.isChain_nil, by simp [new, AlarmLevel.history]⟩
  once key := List.isChain_nil
  lists source pending h := by
    simp only [new, Dict.get?_insert, Dict.get?_empty] at h
    split at h
    · cases h
      exact ⟨rfl, le_refl _⟩
    · cases h
  strangers _ _ := rfl
  platform := ⟨rfl, Dict.contains_of_some (Dict.get?_insert_self _ _ _)⟩

theorem Inv.send (h : s.Inv northPlatform) {recovered active : Dict String AlarmRecord}
    (hrecoverable : AlarmLevel.recoverable.Agrees recovered (s.sent ++ [r]))
    (hprecision : AlarmLevel.precision.Agrees active (s.sent ++ [r]))
    (hturn : ∀ key up, AlarmLevel.recoverable key r = some up →
      ((AlarmLevel.recoverable.history key s.sent).getLast? = some true ↔ up = false))
    (honce : ∀ key, AlarmLevel.precision key r = some true →
      (AlarmLevel.precision.history key s.sent).getLast? ≠ some true) :
    ({ s.send r with recoverableAlarms := recovered, activePrecisionAlarms := active } : AlarmStore).Inv
      northPlatform where
  recoverable := hrecoverable
  precision := hprecision
  turns key := by
    refine ⟨AlarmLevel.isChain_concat (h.turns key).1 fun up hup last hlast => ?_, ?_⟩
    · have hiff := hturn key up hup
      rw [hlast] at hiff
      cases last <;> cases up <;> simp_all
    · rw [AlarmStore.send, AlarmLevel.history_concat]
      -- a history begins with a raise, so the first alarm of a key is one
      cases hhistory : AlarmLevel.recoverable.history key s.sent with
      | nil =>
        intro hfirst
        cases hlevel : AlarmLevel.recoverable key r with
        | none => simp [hlevel] at hfirst
        | some up =>
          have hiff := hturn key up hlevel
          rw [hhistory] at hiff
          simp_all
      | cons up ups =>
        have hfirst := (h.turns key).2
        rw [hhistory] at hfirst
        exact hfirst
  once key := AlarmLevel.isChain_concat (h.once key) fun up hup last hlast => by
    cases up with
    | false => exact Bool.and_false last
    | true =>
      have hne := honce key hup
      cases last with
      | false => rfl
      | true => exact absurd hlast hne
  lists source pending hpending := by
    simp only [AlarmStore.send, Dict.get?_mapVal, Option.map_eq_some_iff] at hpending
    obtain ⟨before, hbefore, rfl⟩ := hpending
    -- a source that has joined gets the alarm at the end of its list
    obtain ⟨heq, hle⟩ := h.lists source before hbefore
    refine ⟨?_, ?_⟩
    · show s.taken source ++ (before ++ [r]) = (s.sent ++ [r]).drop (s.joined source)
      rw [← List.append_assoc, heq, List.drop_append_of_le_length hle]
    · show s.joined source ≤ (s.sent ++ [r]).length
      rw [List.length_append]
      exact Nat.le_add_right_of_le hle
  strangers source hsource := by
    simp only [AlarmStore.send, Dict.get?_mapVal, Option.map_eq_none_iff] at hsource
    exact h.strangers source hsource
  platform := by
    refine ⟨h.platform.1, ?_⟩
    simp only [AlarmStore.send, Dict.contains, Dict.get?_mapVal, Option.isSome_map]
    exact h.platform.2

theorem Inv.handlePrecisionIssueAlarm (h : s.Inv northPlatform) (hr : r.isPrecision = true) :
    (s.handlePrecisionIssueAlarm r).Inv northPlatform := by
  have hother : ∀ key, AlarmLevel.recoverable key r = none := fun key => recoverable_none (Or.inl hr)
  have hkept := h.recoverable.skip hother
  have hturn : ∀ key up, AlarmLevel.recoverable key r = some up →
      ((AlarmLevel.recoverable.history key s.sent).getLast? = some true ↔ up = false) := by
    intro key up hup
    rw [hother key] at hup
    cases hup
  unfold AlarmStore.handlePrecisionIssueAlarm
  dsimp only
  split
  · next hraise =>
    split
    · exact h
    · next hnew =>
      have hlevel : ∀ key, AlarmLevel.precision key r = if key = r.precisionAlarmKey then some true else none :=
        fun key => precision_eq hr (by rw [if_pos hraise])
      refine h.send hkept (h.precision.raise hlevel) hturn fun key hup hlast => ?_
      rw [hlevel key] at hup
      split at hup
      · next heq =>
        rw [heq, ← h.precision] at hlast
        exact hnew hlast
      · cases hup
  · next hraise =>
    have hnever : ∀ key, AlarmLevel.precision key r ≠ some true := by
      intro key hup
      rw [precision_eq hr rfl, if_neg hraise] at hup
      split at hup
      · split at hup <;> cases hup
      · cases hup
    split
    · next hclear =>
      have hlevel : ∀ key, AlarmLevel.precision key r = if key = r.precisionAlarmKey then some false else none :=
        fun key => precision_eq hr (by rw [if_neg hraise, if_pos hclear])
      exact h.send hkept (h.precision.lower hlevel) hturn fun key hup => absurd hup (hnever key)
    · next hclear =>
      have hlevel : ∀ key, AlarmLevel.precision key r = none := by
        intro key
        rw [precision_eq hr rfl, if_neg hraise, if_neg hclear, ite_self]
      exact h.send hkept (h.precision.skip hlevel) hturn fun key hup => absurd hup (hnever key)

theorem Inv.handleInstanceExceptionAlarm (h : s.Inv northPlatform) (hprecision : r.isPrecision = false)
    (hr : r.isRecoverable = true) : (s.handleInstanceExceptionAlarm r).Inv northPlatform := by
  have hother : ∀ key, AlarmLevel.precision key r = none := fun key => precision_none hprecision
  have hkept := h.precision.skip hother
  have hlevel : ∀ key, AlarmLevel.recoverable key r = if key = r.recoveryAlarmKey then some !r.cleared else none :=
    fun key => recoverable_eq hprecision hr
  have honce : ∀ key, AlarmLevel.precision key r = some true →
      (AlarmLevel.precision.history key s.sent).getLast? ≠ some true := by
    intro key hup
    rw [hother key] at hup
    cases hup
  -- the record of a turn is the one that the table lacks
  have hturn : (s.recoverableAlarms.contains r.recoveryAlarmKey = true ↔ r.cleared = true) →
      ∀ key up, AlarmLevel.recoverable key r = some up →
        ((AlarmLevel.recoverable.history key s.sent).getLast? = some true ↔ up = false) := by
    intro hcleared key up hup
    rw [hlevel key] at hup
    split at hup
    · next heq =>
      cases hup
      rw [heq, ← h.recoverable, hcleared]
      cases r.cleared <;> simp
    · cases hup
  unfold AlarmStore.handleInstanceExceptionAlarm
  dsimp only
  split
  · next hraise =>
    split
    · exact h
    · next hnew =>
      refine h.send (h.recoverable.raise fun key => ?_) hkept (hturn ?_) honce
      · rw [hlevel key, hraise]
        rfl
      · simp [hnew, hraise]
  · next hclear =>
    have hclear : r.cleared = true := by simpa using hclear
    split
    · next hraised =>
      refine h.send (h.recoverable.lower fun key => ?_) hkept (hturn ?_) honce
      · rw [hlevel key, hclear]
        rfl
      · simp [hraised, hclear]
    · exact h

theorem Inv.addAlarm (h : s.Inv northPlatform) (r : AlarmRecord) : (s.addAlarm r).Inv northPlatform := by
  unfold AlarmStore.addAlarm
  split
  · next hprecision => exact h.handlePrecisionIssueAlarm hprecision
  · next hprecision =>
    have hprecision : r.isPrecision = false := by simpa using hprecision
    split
    · next hrecoverable => exact h.handleInstanceExceptionAlarm hprecision hrecoverable
    · next hrecoverable =>
      have hrecoverable : r.isRecoverable = false := by simpa using hrecoverable
      have hrec : ∀ key, AlarmLevel.recoverable key r = none := fun key => recoverable_none (Or.inr hrecoverable)
      have hprec : ∀ key, AlarmLevel.precision key r = none := fun key => precision_none hprecision
      refine h.send (h.recoverable.skip hrec) (h.precision.skip hprec) ?_ ?_
      · intro key up hup
        rw [hrec key] at hup
        cases hup
      · intro key hup
        rw [hprec key] at hup
        cases hup

theorem Inv.addAlarms (h : s.Inv northPlatform) (records : List AlarmRecord) :
    (s.addAlarms records).Inv northPlatform := by
  unfold AlarmStore.addAlarms
  induction records generalizing s with
  | nil => exact h
  | cons r records ih => exact ih (h.addAlarm r)

theorem Inv.getAlarms (h : s.Inv northPlatform) (sourceId : Option String) :
    (s.getAlarms sourceId).2.Inv northPlatform where
  recoverable := h.recoverable
  precision := h.precision
  turns := h.turns
  once := h.once
  lists source pending hpending := by
    simp only [AlarmStore.getAlarms, Dict.get?_insert] at hpending ⊢
    by_cases hsource : sourceId = source
    · subst hsource
      rw [if_pos rfl] at hpending
      cases hpending
      rw [Function.update_self, List.append_nil]
      cases hold : s.alarms.get? sourceId with
      | none =>
        rw [Dict.contains, hold, h.strangers _ hold]
        simp
      | some before =>
        rw [Dict.contains, hold]
        exact h.lists sourceId before hold
    · rw [if_neg hsource] at hpending
      rw [Function.update_of_ne (Ne.symm hsource)]
      split
      · exact h.lists source pending hpending
      · rw [Function.update_of_ne (Ne.symm hsource)]
        exact h.lists source pending hpending
  strangers source hsource := by
    simp only [AlarmStore.getAlarms, Dict.get?_insert] at hsource ⊢
    split at hsource
    · cases hsource
    · next hne =>
      rw [Function.update_of_ne (Ne.symm hne)]
      exact h.strangers source hsource
  platform := by
    obtain ⟨hjoined, hknown⟩ := h.platform
    simp only [AlarmStore.getAlarms]
    refine ⟨?_, Dict.contains_insert.mpr (Or.inr hknown)⟩
    split
    · exact hjoined
    · next hnew =>
      rw [Function.update_of_ne, hjoined]
      rintro rfl
      exact hnew hknown

/-- The record says about every alarm what was said about it last. -/
def Repeats (s : AlarmStore) (r : AlarmRecord) : Prop :=
  ∀ level ∈ [AlarmLevel.recoverable, AlarmLevel.precision], ∀ key up, level key r = some up →
    ((level.history key s.sent).getLast? = some true ↔ up = true)

theorem Inv.addAlarm_sent (h : s.Inv northPlatform) (r : AlarmRecord) :
    (s.addAlarm r).sent = s.sent ++ [r] ∨
      s.addAlarm r = s ∧ (r.isPrecision = true ∨ r.isRecoverable = true) ∧ s.Repeats r := by
  unfold AlarmStore.addAlarm
  split
  · next hprecision =>
    unfold AlarmStore.handlePrecisionIssueAlarm
    dsimp only
    split
    · next hraise =>
      split
      · next hactive =>
        refine Or.inr ⟨rfl, Or.inl hprecision, fun level hlevel key up hup => ?_⟩
        rcases List.mem_pair.mp hlevel with rfl | rfl
        · rw [recoverable_none (Or.inl hprecision)] at hup
          cases hup
        · rw [precision_eq hprecision rfl, if_pos hraise] at hup
          split at hup
          · next heq =>
            cases hup
            rw [heq, ← h.precision]
            exact iff_of_true hactive rfl
          · cases hup
      · exact Or.inl rfl
    · split <;> exact Or.inl rfl
  · next hprecision =>
    have hprecision : r.isPrecision = false := by simpa using hprecision
    split
    · next hrecoverable =>
      -- a level that already is what the alarm says
      have hrepeats : (s.recoverableAlarms.contains r.recoveryAlarmKey = true ↔ r.cleared = false) →
          s.Repeats r := by
        intro hcleared level hlevel key up hup
        rcases List.mem_pair.mp hlevel with rfl | rfl
        · rw [recoverable_eq hprecision hrecoverable] at hup
          split at hup
          · next heq =>
            cases hup
            rw [heq, ← h.recoverable, hcleared, Bool.not_eq_true']
          · cases hup
        · rw [precision_none hprecision] at hup
          cases hup
      unfold AlarmStore.handleInstanceExceptionAlarm
      dsimp only
      split
      · next hraise =>
        split
        · next hraised => exact Or.inr ⟨rfl, Or.inr hrecoverable, hrepeats (iff_of_true hraised hraise)⟩
        · exact Or.inl rfl
      · next hclear =>
        split
        · exact Or.inl rfl
        · next hraised => exact Or.inr ⟨rfl, Or.inr hrecoverable, hrepeats (iff_of_false hraised hclear)⟩
    · exact Or.inl rfl

/-- What was sent tells the same as what was reported. -/
structure Tells (reported sent : List AlarmRecord) : Prop where
  inOrder : sent.Sublist reported
  events : (reported.filter fun r => !r.isPrecision && !r.isRecoverable) =
    sent.filter fun r => !r.isPrecision && !r.isRecoverable
  alarms : ∀ level ∈ [AlarmLevel.recoverable, AlarmLevel.precision], ∀ key,
    (level.history key reported).getLast? = some true ↔ (level.history key sent).getLast? = some true

theorem Tells.add {reported : List AlarmRecord} (h : Tells reported s.sent) (hinv : s.Inv northPlatform)
    (r : AlarmRecord) : Tells (reported ++ [r]) (s.addAlarm r).sent := by
  rcases hinv.addAlarm_sent r with heq | ⟨heq, hkind, hrepeats⟩
  · rw [heq]
    refine ⟨h.inOrder.append_right _, by rw [List.filter_append, List.filter_append, h.events], ?_⟩
    intro level hlevel key
    rw [AlarmLevel.history_concat, AlarmLevel.history_concat]
    cases level key r with
    | none => simpa using h.alarms level hlevel key
    | some up => simp
  · rw [heq]
    refine ⟨h.inOrder.trans (List.sublist_append_left _ _), ?_, ?_⟩
    · rw [List.filter_append, h.events, List.append_right_eq_self, List.filter_eq_nil_iff]
      intro r' hr'
      rw [List.mem_singleton.mp hr']
      rcases hkind with hkind | hkind <;> simp [hkind]
    · intro level hlevel key
      rw [AlarmLevel.history_concat]
      cases hup : level key r with
      | none => simpa using h.alarms level hlevel key
      | some up =>
        rw [hrepeats level hlevel key up hup]
        simp

theorem Tells.addAlarms {reported : List AlarmRecord} (h : Tells reported s.sent) (hinv : s.Inv northPlatform)
    (records : List AlarmRecord) : Tells (reported ++ records) (s.addAlarms records).sent := by
  unfold AlarmStore.addAlarms
  induction records generalizing s reported with
  | nil => simpa using h
  | cons r records ih =>
    rw [List.append_cons]
    exact ih (h.add hinv r) (hinv.addAlarm r)

/-- The records of a step. -/
def reported : AlarmStep → List AlarmRecord
  | .add records => records
  | .get _ => []

variable {steps : List AlarmStep}

theorem run_inv (hrun : Run exec Free (new northPlatform) steps s) :
    s.Inv northPlatform ∧ Tells (steps.flatMap reported) s.sent := by
  refine hrun.invariant (I := fun steps s => s.Inv northPlatform ∧ Tells (steps.flatMap reported) s.sent) ?_ ?_
  · refine ⟨inv_new northPlatform, List.Sublist.refl _, rfl, fun level _ key => ?_⟩
    simp [new, AlarmLevel.history]
  · rintro steps s step s' ⟨hinv, htells⟩ - hexec
    cases step with
    | add records =>
      cases hexec
      rw [List.flatMap_append]
      exact ⟨hinv.addAlarms records, by simpa [reported] using htells.addAlarms hinv records⟩
    | get sourceId =>
      cases hexec
      refine ⟨hinv.getAlarms sourceId, ?_⟩
      rw [List.flatMap_append]
      simpa [reported, AlarmStore.getAlarms] using htells

/-- **What every source learns.** In every run, what a source has taken away and what waits for it is, in order, all
that was sent since it is a source; the northbound platform is one from the start. What was sent tells of every
alarm whether it is up now, and all events. An exception is raised and cleared in turns, beginning with the raise,
and a precision alarm is not raised twice without a clear in between. -/
theorem sources_learn_alarms (hrun : Run exec Free (new northPlatform) steps s) :
    (∀ source pending, s.alarms.get? source = some pending →
      s.taken source ++ pending = s.sent.drop (s.joined source)) ∧
    (∃ pending, s.alarms.get? (some northPlatform) = some pending ∧
      s.taken (some northPlatform) ++ pending = s.sent) ∧
    Tells (steps.flatMap reported) s.sent ∧
    (∀ key, (AlarmLevel.recoverable.history key s.sent).IsChain (· ≠ ·) ∧
      (AlarmLevel.recoverable.history key s.sent).head? ≠ some false) ∧
    ∀ key, (AlarmLevel.precision.history key s.sent).IsChain fun last up => (last && up) = false := by
  obtain ⟨hinv, htells⟩ := run_inv hrun
  obtain ⟨hjoined, hknown⟩ := hinv.platform
  obtain ⟨pending, hpending⟩ := Dict.contains_iff.mp hknown
  refine ⟨fun source pending h => (hinv.lists source pending h).1, ⟨pending, hpending, ?_⟩, htells, hinv.turns,
    hinv.once⟩
  rw [(hinv.lists _ pending hpending).1, hjoined, List.drop_zero]

/-- The exception of an instance. -/
def instanceDown (cleared : Bool) : AlarmRecord :=
  ⟨instanceExceptionAlarmId, if cleared then .clear else .alarm, cleared, "", "7", ""⟩

/-- An instance is down, up and down again, which is told twice each time; a second source comes in between. -/
def twoSources : List AlarmStep :=
  [.add [instanceDown true, instanceDown false], .get (some "OM"), .add [instanceDown false, instanceDown true],
    .get (some ""), .add [instanceDown true, instanceDown false, instanceDown false]]

theorem twoSources_learn : ∃ s, Run exec Free (new "") twoSources s ∧
    s.taken (some "") = [instanceDown false, instanceDown true] ∧
    s.alarms.get? (some "") = some [instanceDown false] ∧
    s.sent = [instanceDown false, instanceDown true, instanceDown false] ∧
    s.taken (some "OM") ++ [instanceDown true, instanceDown false] = s.sent.drop (s.joined (some "OM")) := by
  have hcomputed : (runList exec Free (new "") twoSources).map (fun s =>
      (s.taken (some ""), s.alarms.get? (some ""), s.alarms.get? (some "OM"))) =
      some ([instanceDown false, instanceDown true], some [instanceDown false],
        some [instanceDown true, instanceDown false]) := by
    decide +kernel
  obtain ⟨s, hrun, heq⟩ := runList_exists hcomputed
  obtain ⟨htaken, heq⟩ := Prod.mk.inj heq
  obtain ⟨hplatform, hom⟩ := Prod.mk.inj heq
  obtain ⟨hlists, ⟨pending, hpending, hsent⟩, -⟩ := sources_learn_alarms hrun
  cases hplatform.symm.trans hpending
  rw [htaken] at hsent
  exact ⟨s, hrun, htaken, hplatform, hsent.symm, hlists _ _ hom⟩

end AlarmStore

end PyMotor.Controller
