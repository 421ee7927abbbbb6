import PyMotor.Controller.PrecisionRecovery

/-!
# What is heard of a precision alarm first

Whoever watches the alarms learns of each precision alarm first that it was raised: no clear comes before the first
raise (`raise_heard_first`). This holds whatever is lost on the way, for the name of an alarm is only handed on after
the controller has had the alarm.
-/

namespace PyMotor.Controller

open Coordinator

/-! ## The store -/

namespace AlarmStore

/-- The alarm of this name was raised some time. -/
def Told (s : AlarmStore) (moi : String) : Prop := true ∈ AlarmLevel.precision.history moi s.sent

/-- Each precision alarm is raised first. -/
def RaisedFirst (s : AlarmStore) : Prop := ∀ moi, (AlarmLevel.precision.history moi s.sent).head? ≠ some false

/-- The alarms that are active were raised under their names. -/
def HoldsRaises (s : AlarmStore) : Prop :=
  ∀ moi r, s.activePrecisionAlarms.get? moi = some r → r.precisionAlarmKey = moi ∧ r.isPrecisionRaiseAlarm = true

variable {s : AlarmStore} {northPlatform moi : String} {r : AlarmRecord}

theorem told_of_active (h : s.Inv northPlatform) (hactive : s.activePrecisionAlarms.contains moi = true) :
    s.Told moi := List.mem_of_getLast? ((h.precision moi).mp hactive)

theorem Told.addAlarm (h : s.Told moi) (hinv : s.Inv northPlatform) (r : AlarmRecord) : (s.addAlarm r).Told moi := by
  rcases hinv.addAlarm_sent r with heq | ⟨heq, -⟩
  · rw [Told, heq, AlarmLevel.history_concat]
    exact List.mem_append_left _ h
  · rw [heq]
    exact h

theorem isPrecision_of_raise (hr : r.isPrecisionRaiseAlarm = true) :
    r.isPrecision = true ∧ r.cleared = false ∧ r.category = .alarm := by
  simp only [AlarmRecord.isPrecisionRaiseAlarm, Bool.and_eq_true, decide_eq_true_eq, Bool.not_eq_true'] at hr
  exact ⟨decide_eq_true hr.1.1, hr.2, hr.1.2⟩

theorem addAlarm_raise (hr : r.isPrecisionRaiseAlarm = true) : s.addAlarm r =
    if s.activePrecisionAlarms.contains r.precisionAlarmKey then s
    else { s.send r with activePrecisionAlarms := s.activePrecisionAlarms.insert r.precisionAlarmKey r } := by
  obtain ⟨hprecision, hcleared, hcategory⟩ := isPrecision_of_raise hr
  rw [AlarmStore.addAlarm, if_pos hprecision, handlePrecisionIssueAlarm, if_pos ⟨hcleared, hcategory⟩]

theorem precision_raise (hr : r.isPrecisionRaiseAlarm = true) (moi : String) :
    AlarmLevel.precision moi r = if moi = r.precisionAlarmKey then some true else none := by
  obtain ⟨hprecision, hcleared, hcategory⟩ := isPrecision_of_raise hr
  exact precision_eq hprecision (by rw [if_pos ⟨hcleared, hcategory⟩])

theorem addAlarm_clear (hr : r.isPrecision = true) : s.addAlarm r.clear =
    { s.send r.clear with activePrecisionAlarms := s.activePrecisionAlarms.erase r.precisionAlarmKey } := by
  have hprecision : r.clear.isPrecision = true := hr
  have hcleared : r.clear.cleared = true ∨ r.clear.category = .clear := Or.inl rfl
  rw [AlarmStore.addAlarm, if_pos hprecision, handlePrecisionIssueAlarm, if_neg fun h => Bool.noConfusion h.1,
    if_pos hcleared]
  rfl

theorem precision_clear (hr : r.isPrecision = true) (moi : String) :
    AlarmLevel.precision moi r.clear = if moi = r.precisionAlarmKey then some false else none := by
  have hcleared : r.clear.cleared = true ∨ r.clear.category = .clear := Or.inl rfl
  exact precision_eq (r := r.clear) hr (by rw [if_neg fun h => Bool.noConfusion h.1, if_pos hcleared])

theorem told_addAlarm (hinv : s.Inv northPlatform) (hr : r.isPrecisionRaiseAlarm = true) :
    (s.addAlarm r).Told r.precisionAlarmKey := by
  rw [addAlarm_raise hr]
  split
  · next hactive => exact told_of_active hinv hactive
  · rw [Told]
    show true ∈ AlarmLevel.precision.history _ (s.sent ++ [r])
    rw [AlarmLevel.history_concat, precision_raise hr, if_pos rfl]
    exact List.mem_append_right _ (List.mem_singleton_self _)

theorem RaisedFirst.addAlarm (h : s.RaisedFirst) (hinv : s.Inv northPlatform)
    (hr : ∀ moi, AlarmLevel.precision moi r = some false → s.Told moi) : (s.addAlarm r).RaisedFirst := by
  intro moi
  rcases hinv.addAlarm_sent r with heq | ⟨heq, -⟩
  · rw [heq, AlarmLevel.history_concat]
    cases hhistory : AlarmLevel.precision.history moi s.sent with
    | nil =>
      intro hfirst
      have hfalse : AlarmLevel.precision moi r = some false := by
        cases hlevel : AlarmLevel.precision moi r with
        | none => simp [hlevel] at hfirst
        | some up => simpa [hlevel] using hfirst
      have htold := hr moi hfalse
      rw [Told, hhistory] at htold
      cases htold
    | cons up ups =>
      have hfirst := h moi
      rw [hhistory] at hfirst
      exact hfirst
  · rw [heq]
    exact h moi

theorem HoldsRaises.raise (h : s.HoldsRaises) (hr : r.isPrecisionRaiseAlarm = true) : (s.addAlarm r).HoldsRaises := by
  rw [addAlarm_raise hr]
  split
  · exact h
  · intro moi r' hget
    simp only [Dict.get?_insert] at hget
    split at hget
    · next heq =>
      cases hget
      exact ⟨heq, hr⟩
    · exact h moi r' hget

theorem HoldsRaises.clear (h : s.HoldsRaises) (hr : r.isPrecision = true) : (s.addAlarm r.clear).HoldsRaises := by
  rw [addAlarm_clear hr]
  intro moi r' hget
  exact h moi r' (Dict.get?_of_erase hget)

theorem addAlarm_other (hr : r.isPrecision = false) :
    (s.addAlarm r).activePrecisionAlarms = s.activePrecisionAlarms := by
  rw [AlarmStore.addAlarm, if_neg (by simp [hr])]
  split
  · unfold handleInstanceExceptionAlarm
    dsimp only
    split <;> split <;> rfl
  · rfl

/-- The store knows what it needs to. -/
structure Sound (northPlatform : String) (s : AlarmStore) : Prop where
  inv : s.Inv northPlatform
  first : s.RaisedFirst
  holds : s.HoldsRaises

theorem Sound.raise (h : s.Sound northPlatform) (hr : r.isPrecisionRaiseAlarm = true) :
    (s.addAlarm r).Sound northPlatform := by
  refine ⟨h.inv.addAlarm r, h.first.addAlarm h.inv fun moi hfalse => ?_, h.holds.raise hr⟩
  rw [precision_raise hr] at hfalse
  split at hfalse <;> cases hfalse

theorem Sound.clear (h : s.Sound northPlatform) (hr : r.isPrecision = true) (htold : s.Told r.precisionAlarmKey) :
    (s.addAlarm r.clear).Sound northPlatform := by
  refine ⟨h.inv.addAlarm r.clear, h.first.addAlarm h.inv fun moi hfalse => ?_, h.holds.clear hr⟩
  rw [precision_clear hr] at hfalse
  split at hfalse
  · next heq =>
    rw [heq]
    exact htold
  · cases hfalse

theorem Sound.recover (h : s.Sound northPlatform) (hr : r.isPrecisionRaiseAlarm = true) :
    (s.addAlarms [r, r.clear]).Sound northPlatform ∧ (s.addAlarms [r, r.clear]).Told r.precisionAlarmKey := by
  have hraised := h.raise hr
  have htold := told_addAlarm h.inv hr
  exact ⟨hraised.clear (isPrecision_of_raise hr).1 htold, htold.addAlarm hraised.inv r.clear⟩

theorem Sound.other (h : s.Sound northPlatform) {records : List AlarmRecord}
    (hr : records.all (fun r => !r.isPrecision) = true) : (s.addAlarms records).Sound northPlatform := by
  unfold addAlarms
  induction records generalizing s with
  | nil => exact h
  | cons r records ih =>
    simp only [List.all_cons, Bool.and_eq_true, Bool.not_eq_true'] at hr
    refine ih ⟨h.inv.addAlarm r, h.first.addAlarm h.inv fun moi hfalse => ?_, fun moi r' hget => ?_⟩ (by simpa using hr.2)
    · rw [precision_none hr.1] at hfalse
      cases hfalse
    · rw [addAlarm_other hr.1] at hget
      exact h.holds moi r' hget

theorem Told.addAlarms (h : s.Told moi) (hinv : s.Inv northPlatform) (records : List AlarmRecord) :
    (s.addAlarms records).Told moi := by
  unfold AlarmStore.addAlarms
  induction records generalizing s with
  | nil => exact h
  | cons r records ih => exact ih (h.addAlarm hinv r) (hinv.addAlarm r)

theorem sound_new (northPlatform : String) : (new northPlatform).Sound northPlatform where
  inv := inv_new northPlatform
  first moi := by simp [new, AlarmLevel.history]
  holds moi r hget := by cases hget

end AlarmStore

/-! ## The names of the alarms -/

theorem precisionAlarmKey_precisionIssueAlarm {podIp moi : String} {key : PdGroup} {alarmMoi : Option String}
    (hmoi : alarmMoi.getD (buildPrecisionMoi podIp key) = moi) (hne : moi ≠ "") :
    (precisionIssueAlarm podIp key alarmMoi).precisionAlarmKey = moi := by
  unfold AlarmRecord.precisionAlarmKey precisionIssueAlarm
  dsimp only
  rw [hmoi, if_pos hne]

theorem buildPrecisionMoi_ne (podIp : String) (key : PdGroup) : buildPrecisionMoi podIp key ≠ "" := by
  obtain ⟨p, d⟩ := key
  cases p <;> simp [buildPrecisionMoi]

theorem alarmMoi_finish {tables : PrecisionTables} {call : FinishCall} {key : PdGroup} {moi : String}
    (h : (tables.finishPrecisionAction call.key call.actionToken call.actionType call.success call.alarmMoi
      call.autoRecoveryCleared).2.alarmMoi.get? key = some moi) :
    tables.alarmMoi.get? key = some moi ∨
      call.actionType ≠ "clear" ∧ call.success = true ∧ call.key = key ∧ call.alarmMoi = some moi := by
  simp only [PrecisionTables.finishPrecisionAction, PrecisionTables.finishClear, PrecisionTables.finishRaise,
    PrecisionTables.clearPrecisionGroupState] at h
  split at h
  · split at h
    · split at h
      · exact Or.inl (Dict.get?_of_erase h)
      · exact Or.inl h
    · exact Or.inl h
  · next htype =>
    split at h
    · exact Or.inl (Dict.get?_of_erase h)
    · split at h
      · split at h
        · exact Or.inl h
        · next hsuccess =>
          dsimp only at h
          split at h
          · exact Or.inl h
          · next hne =>
            rw [Dict.get?_insert] at h
            split at h
            · next hkey =>
              refine Or.inr ⟨htype, by simpa using hsuccess, hkey, ?_⟩
              cases hmoi : call.alarmMoi with
              | none => simp [hmoi] at hne
              | some m =>
                rw [hmoi] at h
                exact h
            · exact Or.inl h
      · exact Or.inl h

theorem alarmMoi_dismiss {tables : PrecisionTables} {key key' : PdGroup} {moi : String}
    (h : (tables.clearPrecisionGroupState key).alarmMoi.get? key' = some moi) :
    tables.alarmMoi.get? key' = some moi := by
  simp only [PrecisionTables.clearPrecisionGroupState] at h
  exact Dict.get?_of_erase h

/-- A result leaves the names alone, and a clear is asked for by the name. -/
theorem alarmMoi_record (tables : PrecisionTables) (call : RecordCall) (uuid : String) :
    (tables.recordPrecisionResult call.key call.hasIssue call.threshold call.clearThreshold call.checkValid
        uuid).2.alarmMoi = tables.alarmMoi ∧
      ((tables.recordPrecisionResult call.key call.hasIssue call.threshold call.clearThreshold call.checkValid
          uuid).1.clearThresholdHit = true →
        (tables.recordPrecisionResult call.key call.hasIssue call.threshold call.clearThreshold call.checkValid
          uuid).1.alarmMoi = some ((tables.alarmMoi.get? call.key).getD "")) := by
  simp only [PrecisionTables.recordPrecisionResult, PrecisionTables.recordActive, PrecisionTables.recordInactive,
    PrecisionResult.noAction]
  split_ifs <;> simp

/-! ## Runs -/

namespace PrecisionLoop

/-- A standby coordinator says that it has reported. -/
def Reports (_ : PrecisionLoop) : LoopStep → Prop
  | .report _ .standby => False
  | _ => True

instance (s : PrecisionLoop) : ∀ step, Decidable (s.Reports step)
  | .report _ .standby => inferInstanceAs (Decidable False)
  | .report _ .lost => inferInstanceAs (Decidable True)
  | .report _ (.handled _ _ _) => inferInstanceAs (Decidable True)
  | .record _ _ => inferInstanceAs (Decidable True)
  | .finish _ _ => inferInstanceAs (Decidable True)
  | .dismiss _ _ => inferInstanceAs (Decidable True)
  | .terminateInstance _ _ => inferInstanceAs (Decidable True)
  | .addAlarms _ => inferInstanceAs (Decidable True)
  | .getAlarms _ => inferInstanceAs (Decidable True)

/-- A task knows only names of alarms that the controller has had. -/
def Knows (store : AlarmStore) (a : PrecisionAction) : Prop :=
  match a.kind with
  | .clear alarmMoi => ∀ moi, alarmMoi = some moi → moi ≠ "" → store.Told moi
  | .raise => ∀ outcome, a.outcome = some outcome → outcome.success = true → store.Told outcome.moi

structure Heard (c : PrecisionConfig) (s : PrecisionLoop) : Prop where
  sound : s.store.Sound c.northPlatform
  names : c.enableObservabilityApi = true → ∀ key moi, s.run.tables.alarmMoi.get? key = some moi → s.store.Told moi
  tasks : c.enableObservabilityApi = true → ∀ a ∈ s.actions, Knows s.store a

variable {c : PrecisionConfig} {s s' : PrecisionLoop}

theorem Knows.mono {store store' : AlarmStore} {a : PrecisionAction} (h : Knows store a)
    (hmono : ∀ moi, store.Told moi → store'.Told moi) : Knows store' a := by
  unfold Knows at h ⊢
  split at h
  · exact fun moi hmoi hne => hmono moi (h moi hmoi hne)
  · exact fun outcome houtcome hsuccess => hmono _ (h outcome houtcome hsuccess)

theorem Heard.learn (h : s.Heard c) {store : AlarmStore} (hsound : store.Sound c.northPlatform)
    (hmono : ∀ moi, s.store.Told moi → store.Told moi) (dismissals : List PdGroup) :
    ({ s with store := store, dismissals := dismissals } : PrecisionLoop).Heard c :=
  ⟨hsound, fun hon key moi hget => hmono moi (h.names hon key moi hget), fun hon a ha => (h.tasks hon a ha).mono hmono⟩

theorem find_of_findActive {store : AlarmStore} {r : AlarmRecord} {p : Option ℤ} {d : ℤ} (hholds : store.HoldsRaises)
    (h : store.findActivePrecisionAlarm p d = some r) : r.isPrecisionRaiseAlarm = true := by
  obtain ⟨moi, hget⟩ := Dict.mem_values_iff.mp (List.mem_of_find?_eq_some h)
  exact (hholds moi r hget).2

theorem completeRecovery_cases (s : PrecisionLoop) (c : PrecisionConfig) (key : PdGroup)
    (raiseRecord : Option AlarmRecord) (recovery : GroupRecovery) :
    ∃ store dismissals, (s.completePrecisionPdGroupRecovery c key raiseRecord recovery).2 =
        { s with store := store, dismissals := dismissals } ∧
      (store = s.store ∧ ((s.completePrecisionPdGroupRecovery c key raiseRecord recovery).1 = true →
          c.enableObservabilityApi = false) ∨
        ∃ r, raiseRecord.or (s.store.findActivePrecisionAlarm (normalize key).1 (normalize key).2) = some r ∧
          store = s.store.addAlarms [r, r.clear]) := by
  unfold completePrecisionPdGroupRecovery
  dsimp only
  split
  · cases hfind : raiseRecord.or (s.store.findActivePrecisionAlarm (normalize key).1 (normalize key).2) with
    | none =>
      unfold notifyPrecisionAlarmCleared
      dsimp only
      split <;> exact ⟨_, _, rfl, Or.inl ⟨rfl, fun hcleared => Bool.noConfusion hcleared⟩⟩
    | some r =>
      unfold notifyPrecisionAlarmCleared
      dsimp only
      cases hon : c.enableObservabilityApi with
      | false =>
        split <;> exact ⟨_, _, rfl, Or.inl ⟨rfl, fun _ => rfl⟩⟩
      | true =>
        split <;> exact ⟨_, _, rfl, Or.inr ⟨r, rfl, rfl⟩⟩
  · exact ⟨_, _, rfl, Or.inl ⟨rfl, fun hcleared => Bool.noConfusion hcleared⟩⟩

theorem Heard.recover (h : s.Heard c) (key : PdGroup) {raiseRecord : Option AlarmRecord}
    (hraise : ∀ r, raiseRecord = some r → r.isPrecisionRaiseAlarm = true) (recovery : GroupRecovery) :
    (s.completePrecisionPdGroupRecovery c key raiseRecord recovery).2.Heard c ∧
      (∀ moi, s.store.Told moi →
        (s.completePrecisionPdGroupRecovery c key raiseRecord recovery).2.store.Told moi) ∧
      ∀ r, raiseRecord = some r → c.enableObservabilityApi = true →
        (s.completePrecisionPdGroupRecovery c key raiseRecord recovery).1 = true →
          (s.completePrecisionPdGroupRecovery c key raiseRecord recovery).2.store.Told r.precisionAlarmKey := by
  obtain ⟨store, dismissals, heq, ⟨hstore, hoff⟩ | ⟨r, hfind, hstore⟩⟩ :=
    completeRecovery_cases s c key raiseRecord recovery
  · rw [heq, hstore]
    refine ⟨h.learn h.sound (fun _ htold => htold) dismissals, fun _ htold => htold, fun r _ hon hcleared => ?_⟩
    rw [hoff hcleared] at hon
    cases hon
  · have hr : r.isPrecisionRaiseAlarm = true := by
      cases hrecord : raiseRecord with
      | none =>
        rw [hrecord, Option.none_or] at hfind
        exact find_of_findActive h.sound.holds hfind
      | some r' =>
        rw [hrecord, Option.some_or] at hfind
        exact hraise r (by rw [hrecord, hfind])
    obtain ⟨hsound, htold⟩ := h.sound.recover hr
    have hmono : ∀ moi, s.store.Told moi → (s.store.addAlarms [r, r.clear]).Told moi :=
      fun moi hmoi => hmoi.addAlarms h.sound.inv _
    rw [heq, hstore]
    refine ⟨h.learn hsound hmono dismissals, hmono, fun r' hrecord _ _ => ?_⟩
    rw [hrecord, Option.some_or] at hfind
    cases hfind
    exact htold

/-- A record that the controller may be told: the raise of a precision alarm, or the clear of one it has had. -/
def Due (store : AlarmStore) (r : AlarmRecord) : Prop :=
  r.isPrecisionRaiseAlarm = true ∨
    ∃ r' : AlarmRecord, r = r'.clear ∧ r'.isPrecision = true ∧ store.Told r'.precisionAlarmKey

theorem Heard.store (h : s.Heard c) {r : AlarmRecord} (hdue : Due s.store r) :
    ({ s with store := s.store.addAlarm r } : PrecisionLoop).Heard c ∧
      (r.isPrecisionRaiseAlarm = true → (s.store.addAlarm r).Told r.precisionAlarmKey) := by
  have hmono : ∀ moi, s.store.Told moi → (s.store.addAlarm r).Told moi := fun moi hmoi => hmoi.addAlarm h.sound.inv r
  refine ⟨?_, AlarmStore.told_addAlarm h.sound.inv⟩
  rcases hdue with hraise | ⟨r, rfl, hprecision, htold⟩
  · exact h.learn (h.sound.raise hraise) hmono s.dismissals
  · exact h.learn (h.sound.clear hprecision htold) hmono s.dismissals

theorem Heard.addAlarm (h : s.Heard c) {r : AlarmRecord} (hdue : c.enableObservabilityApi = true → Due s.store r)
    (allowed : Bool) (recovery : GroupRecovery) :
    (s.addAlarm c r allowed recovery).2.Heard c ∧
      (∀ moi, s.store.Told moi → (s.addAlarm c r allowed recovery).2.store.Told moi) ∧
      (c.enableObservabilityApi = true → r.isPrecisionRaiseAlarm = true →
        (s.addAlarm c r allowed recovery).2.store.Told r.precisionAlarmKey) := by
  -- the record goes into the store unless the group was recovered
  have hthen : ∀ t : Bool × PrecisionLoop, t.2.Heard c → (∀ moi, s.store.Told moi → t.2.store.Told moi) →
      (c.enableObservabilityApi = true → t.1 = true → t.2.store.Told r.precisionAlarmKey) →
      let after := if t.1 then (true, t.2) else
        if c.enableObservabilityApi then (false, { t.2 with store := t.2.store.addAlarm r }) else (false, t.2)
      after.2.Heard c ∧ (∀ moi, s.store.Told moi → after.2.store.Told moi) ∧
        (c.enableObservabilityApi = true → r.isPrecisionRaiseAlarm = true →
          after.2.store.Told r.precisionAlarmKey) := by
    rintro ⟨cleared, t⟩ ht hmono htold
    cases cleared with
    | true => exact ⟨ht, hmono, fun hon _ => htold hon rfl⟩
    | false =>
      cases hon : c.enableObservabilityApi with
      | false => exact ⟨ht, hmono, fun hon' => Bool.noConfusion hon'⟩
      | true =>
        have hdue' : Due t.store r := (hdue hon).imp_right fun ⟨r', heq, hprecision, hr'⟩ =>
          ⟨r', heq, hprecision, hmono _ hr'⟩
        obtain ⟨hheard, hraise⟩ := ht.store hdue'
        exact ⟨hheard, fun moi hmoi => (hmono moi hmoi).addAlarm ht.sound.inv r, fun _ => hraise⟩
  unfold PrecisionLoop.addAlarm
  cases hgroup : r.group with
  | none => exact hthen (false, s) h (fun _ htold => htold) fun _ hcleared => Bool.noConfusion hcleared
  | some key =>
    dsimp only
    split
    · next hallowed =>
      have hraise : r.isPrecisionRaiseAlarm = true := (Bool.and_eq_true_iff.mp hallowed).1
      obtain ⟨hheard, hmono, htold⟩ := h.recover key
        (fun r' hr' => Option.some.inj hr' ▸ hraise) recovery
      exact hthen _ hheard hmono fun hon hcleared => htold r rfl hon hcleared
    · exact hthen (false, s) h (fun _ htold => htold) fun _ hcleared => Bool.noConfusion hcleared

/-- What a task reports is due, under the name of the alarm. -/
theorem due_payload {a : PrecisionAction} {r : AlarmRecord} {podIp : String} {store : AlarmStore}
    (hknows : Knows store a) (hpayload : a.payload podIp = some r) :
    Due store r ∧ (a.kind = .raise → r.isPrecisionRaiseAlarm = true ∧ r.precisionAlarmKey = r.moi) := by
  unfold PrecisionAction.payload at hpayload
  split at hpayload
  · cases hpayload
    refine ⟨Or.inl rfl, fun _ => ⟨rfl, ?_⟩⟩
    exact precisionAlarmKey_precisionIssueAlarm rfl (buildPrecisionMoi_ne podIp a.key)
  · next alarmMoi hkind =>
    split at hpayload
    · cases hpayload
    · next hne =>
      cases hpayload
      cases alarmMoi with
      | none => exact absurd rfl hne
      | some moi =>
        unfold Knows at hknows
        rw [hkind] at hknows
        have hkey : (precisionIssueAlarm podIp a.key (some moi)).precisionAlarmKey = moi :=
          precisionAlarmKey_precisionIssueAlarm rfl hne
        refine ⟨Or.inr ⟨_, rfl, rfl, ?_⟩, fun hraise => ?_⟩
        · rw [hkey]
          exact hknows moi rfl hne
        · rw [hkind] at hraise
          cases hraise

theorem Heard.report (h : s.Heard c) {a : PrecisionAction} (ha : a ∈ s.actions) {delivery : Delivery}
    (hdelivery : delivery ≠ .standby) :
    (s.report c a delivery).2.Heard c ∧ (∀ moi, s.store.Told moi → (s.report c a delivery).2.store.Told moi) ∧
      (c.enableObservabilityApi = true →
        Knows (s.report c a delivery).2.store { a with outcome := some (s.report c a delivery).1 }) := by
  have hmono : ∀ moi, s.store.Told moi → s.store.Told moi := fun _ htold => htold
  -- the names that a clear knows stay known; a raise that succeeds has told its own
  have hknows : ∀ (store : AlarmStore) outcome, c.enableObservabilityApi = true →
      (∀ moi, s.store.Told moi → store.Told moi) →
      (a.kind = .raise → outcome.success = true → store.Told outcome.moi) →
      Knows store { a with outcome := some outcome } := by
    intro store outcome hon hlater hraise
    have hold := h.tasks hon a ha
    unfold Knows at hold ⊢
    cases hkind : a.kind with
    | raise =>
      rintro _ ⟨⟩ hsuccess
      exact hraise hkind hsuccess
    | clear alarmMoi =>
      rw [hkind] at hold
      exact fun moi hmoi hne => hlater moi (hold moi hmoi hne)
  unfold PrecisionLoop.report
  cases hpayload : a.payload c.podIp with
  | none => exact ⟨h, hmono, fun hon => hknows _ _ hon hmono fun _ hsuccess => Bool.noConfusion hsuccess⟩
  | some r =>
    cases delivery with
    | lost => exact ⟨h, hmono, fun hon => hknows _ _ hon hmono fun _ hsuccess => Bool.noConfusion hsuccess⟩
    | standby => exact absurd rfl hdelivery
    | handled allowed recovery answered =>
      have hdue := fun hon => (due_payload (h.tasks hon a ha) hpayload).1
      obtain ⟨hheard, hlater, htold⟩ := h.addAlarm hdue allowed recovery
      refine ⟨hheard, hlater, fun hon => hknows _ _ hon hlater fun hkind hsuccess => ?_⟩
      obtain ⟨hraise, hkey⟩ := (due_payload (h.tasks hon a ha) hpayload).2 hkind
      have hmoi : (s.reportAlarms c r (.handled allowed recovery answered)).1.moi = r.moi := by
        unfold reportAlarms
        dsimp only
        split <;> rfl
      show (s.addAlarm c r allowed recovery).2.store.Told _
      rw [hmoi, ← hkey]
      exact htold hon hraise

theorem Heard.call (h : s.Heard c) (call : PrecisionCall)
    (hnames : c.enableObservabilityApi = true → ∀ key moi,
      (s.call c call).run.tables.alarmMoi.get? key = some moi → s.store.Told moi) : (s.call c call).Heard c :=
  ⟨h.sound, hnames, h.tasks⟩

theorem Heard.record (h : s.Heard c) (call : RecordCall) (answered : Bool)
    (hexec : s.exec c (.record call answered) = some s') : s'.Heard c := by
  obtain rfl := Option.some.inj hexec
  obtain ⟨hsame, hmoi⟩ := alarmMoi_record s.run.tables call (c.uuid4.draw s.run.drawn)
  refine ⟨h.sound, fun hon key moi hget => ?_, fun hon a ha => ?_⟩
  · refine h.names hon key moi ?_
    rw [← hsame]
    exact hget
  · rcases List.mem_append.mp ha with ha | ha
    · exact h.tasks hon a ha
    · have hlaunch : launch call.key (s.run.tables.recordPrecisionResult call.key call.hasIssue call.threshold
          call.clearThreshold call.checkValid (c.uuid4.draw s.run.drawn)).1 = some a := by
        cases answered with
        | true => exact Option.mem_toList.mp ha
        | false => cases ha
      unfold launch at hlaunch
      split at hlaunch
      · cases hlaunch
      · split at hlaunch
        · next hclear =>
          cases hlaunch
          show ∀ moi, _ = some moi → moi ≠ "" → _
          intro moi hname hne
          rw [hmoi hclear] at hname
          cases hget : s.run.tables.alarmMoi.get? call.key with
          | none =>
            rw [hget] at hname
            exact absurd (Option.some.inj hname).symm hne
          | some moi' =>
            rw [hget] at hname
            cases hname
            exact h.names hon call.key _ hget
        · split at hlaunch
          · cases hlaunch
            rintro outcome ⟨⟩
          · cases hlaunch

theorem Heard.exec (h : s.Heard c) {step : LoopStep} (hreports : s.Reports step) (hexec : s.exec c step = some s') :
    s'.Heard c := by
  cases step with
  | record call answered => exact h.record call answered hexec
  | report i delivery =>
    obtain ⟨a, hget, -, rfl⟩ := exec_report hexec
    -- the guard says that the coordinator is no standby
    have hdelivery : delivery ≠ .standby := by
      rintro rfl
      exact hreports
    obtain ⟨hheard, -, hknows⟩ := h.report (List.mem_of_getElem? hget) hdelivery
    refine ⟨hheard.sound, hheard.names, fun hon b hb => ?_⟩
    rcases List.mem_or_eq_of_mem_set hb with hb | rfl
    · exact hheard.tasks hon b hb
    · exact hknows hon
  | finish i arrives =>
    obtain ⟨a, outcome, hget, houtcome, hnext⟩ := exec_finish hexec
    -- the action leaves the list, whether or not its outcome arrives
    have hrest : ({ s with actions := s.actions.eraseIdx i } : PrecisionLoop).Heard c :=
      ⟨h.sound, h.names, fun hon b hb => h.tasks hon b (List.mem_of_mem_eraseIdx hb)⟩
    rcases hnext with rfl | ⟨actionToken, -, rfl⟩
    · exact hrest
    · refine hrest.call _ fun hon key moi hmoi => ?_
      rcases alarmMoi_finish hmoi with hold | ⟨htype, hsuccess, -, hname⟩
      · exact h.names hon key moi hold
      · have hknows := h.tasks hon a (List.mem_of_getElem? hget)
        unfold Knows at hknows
        unfold PrecisionAction.finishCall at htype hsuccess hname
        split at hknows
        · next hkind =>
          rw [hkind] at htype
          exact absurd rfl htype
        · next hkind =>
          rw [hkind] at hsuccess hname
          cases hname
          exact hknows outcome houtcome hsuccess
  | dismiss i arrives =>
    obtain ⟨key, -, hnext⟩ := exec_dismiss hexec
    have hrest : ({ s with dismissals := s.dismissals.eraseIdx i } : PrecisionLoop).Heard c :=
      ⟨h.sound, h.names, h.tasks⟩
    rcases hnext with rfl | rfl
    · exact hrest
    · exact hrest.call _ fun hon key' moi hmoi => h.names hon key' moi (alarmMoi_dismiss hmoi)
  | terminateInstance key recovery =>
    obtain rfl := Option.some.inj hexec
    exact (h.recover key (fun r hr => absurd hr (Option.some_ne_none r).symm) recovery).1
  | addAlarms records =>
    obtain ⟨hother, rfl⟩ := exec_addAlarms hexec
    exact h.learn (h.sound.other hother) (fun moi hmoi => hmoi.addAlarms h.sound.inv records) s.dismissals
  | getAlarms sourceId =>
    obtain rfl := Option.some.inj hexec
    exact h.learn ⟨h.sound.inv.getAlarms sourceId, h.sound.first, h.sound.holds⟩ (fun _ htold => htold) s.dismissals

variable {steps : List LoopStep}

theorem run_heard (hrun : Run (exec c) Reports (new c) steps s) : s.Heard c := by
  refine hrun.invariant_state (I := fun s => s.Heard c) ?_ fun h hreports hexec => h.exec hreports hexec
  exact ⟨AlarmStore.sound_new _, fun _ key moi hget => absurd hget (Option.some_ne_none moi).symm,
    fun _ a ha => absurd ha List.not_mem_nil⟩

/-- **The raise is heard first.** In every run of workers, scheduler, controller and operators, whatever is lost, and
as long as the coordinator is no standby: the northbound platform is told of every precision alarm that it was raised
before it is told that it was cleared, and not twice that it was raised without a clear in between. -/
theorem raise_heard_first (hrun : Run (exec c) Reports (new c) steps s) :
    ∃ pending, s.store.alarms.get? (some c.northPlatform) = some pending ∧
      ∀ moi, (AlarmLevel.precision.history moi (s.store.taken (some c.northPlatform) ++ pending)).head? ≠ some false ∧
        (AlarmLevel.precision.history moi (s.store.taken (some c.northPlatform) ++ pending)).IsChain
          fun last up => (last && up) = false := by
  have hsound := (run_heard hrun).sound
  obtain ⟨hjoined, hknown⟩ := hsound.inv.platform
  obtain ⟨pending, hpending⟩ := Dict.contains_iff.mp hknown
  have hall := (hsound.inv.lists _ pending hpending).1
  rw [hjoined, List.drop_zero] at hall
  refine ⟨pending, hpending, fun moi => ?_⟩
  rw [hall]
  exact ⟨hsound.first moi, hsound.inv.once moi⟩

/-- A coordinator in one pod, and a northbound platform without a name. -/
def onePod : PrecisionConfig := ⟨.strokes, "10.0.0.1", "", true⟩

/-- The answer to a raise is lost, so the alarm is raised again before it is cleared. -/
def lostAnswer : List LoopStep :=
  [.record ⟨(some 1, 2), true, 1, 1, true⟩ true, .report 0 (.handled false ⟨false, false⟩ false), .finish 0 true,
    .record ⟨(some 1, 2), true, 1, 1, true⟩ true, .report 0 (.handled false ⟨false, false⟩ true), .finish 0 true,
    .getAlarms (some ""), .record ⟨(some 1, 2), false, 1, 1, true⟩ true,
    .report 0 (.handled false ⟨false, false⟩ true)]

theorem lostAnswer_heard : ∃ s pending, Run (exec onePod) Reports (new onePod) lostAnswer s ∧
    s.store.alarms.get? (some "") = some pending ∧
    AlarmLevel.precision.history (buildPrecisionMoi "10.0.0.1" (some 1, 2)) (s.store.taken (some "") ++ pending) =
      [true, false] ∧
    (AlarmLevel.precision.history (buildPrecisionMoi "10.0.0.1" (some 1, 2))
      (s.store.taken (some "") ++ pending)).IsChain fun last up => (last && up) = false := by
  have hcomputed : (runList (exec onePod) Reports (new onePod) lostAnswer).map (fun s =>
      (s.store.alarms.get? (some "")).map fun pending =>
        AlarmLevel.precision.history (buildPrecisionMoi "10.0.0.1" (some 1, 2))
          (s.store.taken (some "") ++ pending)) = some (some [true, false]) := by
    decide +kernel
  obtain ⟨s, hrun, heq⟩ := runList_exists hcomputed
  obtain ⟨pending, hpending, hall⟩ := raise_heard_first hrun
  change s.store.alarms.get? (some "") = some pending at hpending
  rw [hpending] at heq
  exact ⟨s, pending, hrun, hpending, Option.some.inj heq, (hall _).2⟩

end PrecisionLoop

end PyMotor.Controller
