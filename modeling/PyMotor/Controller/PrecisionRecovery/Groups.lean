import PyMotor.Controller.PrecisionRecovery.Heard

/-!
# The alarm of a group is found

Whoever reports or recovers a group writes its ids as numbers, and the controller reads them again. So each group has a
precision alarm of its own in the store, and a search for the group finds it (`search_finds_alarm`).
-/

namespace PyMotor.Controller

open Coordinator
open Router.PrecisionSample (intOfString decimal)

/-! ## Names -/

theorem isDigit_of_mem_toDigits {c : Char} {n : ℕ} (h : c ∈ Nat.toDigits 10 n) : c.isDigit = true :=
  Nat.isDigit_of_mem_toDigits (by decide) (by decide) h

theorem decimal_toDigits (n : ℕ) : decimal (Nat.toDigits 10 n) = some n := by
  rw [decimal, if_pos ⟨Nat.toDigits_ne_nil, List.all_eq_true.mpr fun c hc => isDigit_of_mem_toDigits hc⟩]
  exact congrArg some (Nat.ofDigitChars_toDigits (by decide) (by decide))

theorem toList_repr (n : ℤ) : (Int.repr n).toList =
    if n < 0 then '-' :: Nat.toDigits 10 n.natAbs else Nat.toDigits 10 n.natAbs := by
  cases n with
  | ofNat m => exact Nat.toList_repr
  | negSucc m =>
    rw [if_pos (Int.negSucc_lt_zero m), Int.repr]
    simp [Int.natAbs_negSucc]

theorem mem_repr {n : ℤ} {c : Char} (h : c ∈ (Int.repr n).toList) : c = '-' ∨ c.isDigit = true := by
  rw [toList_repr] at h
  split at h
  · exact (List.mem_cons.mp h).imp_right isDigit_of_mem_toDigits
  · exact Or.inr (isDigit_of_mem_toDigits h)

theorem intOfString_repr (n : ℤ) : intOfString (Int.repr n) = some n := by
  have hplain : ∀ m : ℕ, (if ((Nat.toDigits 10 m).splitOn '_').all (fun g => (decimal g).isSome) then
      (Nat.toDigits 10 m).filter (· ≠ '_') else []) = Nat.toDigits 10 m := by
    intro m
    have hnone : '_' ∉ Nat.toDigits 10 m := fun hmem => absurd (isDigit_of_mem_toDigits hmem) (by decide)
    rw [List.splitOn_eq_singleton hnone, if_pos (by simp [decimal_toDigits]), List.filter_eq_self]
    intro c hc
    exact decide_eq_true fun heq : c = '_' => hnone (heq ▸ hc)
  have hblank : ∀ c ∈ (Int.repr n).toList, c.isWhitespace = false := by
    intro c hc
    rcases mem_repr hc with rfl | hdigit
    · decide
    · rw [← Bool.not_eq_true]
      intro hwhite
      simp only [Char.isWhitespace, Bool.or_eq_true, decide_eq_true_eq] at hwhite
      rcases hwhite with ((rfl | rfl) | rfl) | rfl <;> exact absurd hdigit (by decide)
  have hstays : ∀ cs : List Char, (∀ c ∈ cs, c.isWhitespace = false) → cs.dropWhile Char.isWhitespace = cs :=
    fun cs hcs => List.dropWhile_eq_self_iff.mpr fun hpos => by simp [hcs _ (List.getElem_mem hpos)]
  unfold intOfString
  dsimp only
  rw [hstays _ hblank, hstays _ fun c hc => hblank c (List.mem_reverse.mp hc), List.reverse_reverse, toList_repr]
  by_cases hneg : n < 0
  · rw [if_pos hneg]
    split
    · next ds heq => exact absurd (List.cons.inj heq).1 (by decide)
    · next ds heq =>
      rw [← (List.cons.inj heq).2, hplain, decimal_toDigits]
      exact congrArg some (by omega : -(n.natAbs : ℤ) = n)
    · next hminus => exact absurd rfl (hminus _)
  · rw [if_neg hneg]
    split
    · next ds heq => exact absurd (isDigit_of_mem_toDigits (heq ▸ List.mem_cons_self)) (by decide)
    · next ds heq => exact absurd (isDigit_of_mem_toDigits (heq ▸ List.mem_cons_self)) (by decide)
    · rw [hplain, decimal_toDigits]
      exact congrArg some (by omega : (n.natAbs : ℤ) = n)

theorem buildPrecisionMoi_injective (podIp : String) : Function.Injective (buildPrecisionMoi podIp) := by
  have hcomma : ∀ n : ℤ, ',' ∉ (Int.repr n).toList := fun n hmem => absurd (mem_repr hmem) (by decide)
  rintro ⟨p, d⟩ ⟨p', d'⟩ heq
  have hlist := congrArg String.toList heq
  cases p with
  | none =>
    cases p' with
    | none =>
      have hd : d.repr.toList = d'.repr.toList := by simpa [buildPrecisionMoi] using hlist
      rw [Int.repr_injective (String.toList_injective hd)]
    | some p' => simp [buildPrecisionMoi] at hlist
  | some p =>
    cases p' with
    | none => simp [buildPrecisionMoi] at hlist
    | some p' =>
      have hsplit : p.repr.toList ++ ',' :: (" instanceId=".toList ++ d.repr.toList) =
          p'.repr.toList ++ ',' :: (" instanceId=".toList ++ d'.repr.toList) := by
        simpa [buildPrecisionMoi] using hlist
      have hrest : ',' ∉ " instanceId=".toList ++ d.repr.toList := by simpa using hcomma d
      obtain ⟨hp, -, hd⟩ := (List.append_cons_inj_of_notMem (hcomma p) hrest).mp hsplit
      rw [Int.repr_injective (String.toList_injective hp),
        Int.repr_injective (String.toList_injective (List.append_cancel_left hd))]

/-- A group as the workers and the controller write it. -/
def Proper (key : PdGroup) : Prop := (∀ p ∈ key.1, 0 < p) ∧ 0 ≤ key.2

instance (key : PdGroup) : Decidable (Proper key) := inferInstanceAs (Decidable (_ ∧ _))

theorem proper_normalize (key : PdGroup) : Proper (PrecisionLoop.normalize key) := by
  refine ⟨fun p hp => ?_, le_max_right _ _⟩
  exact of_decide_eq_true (Option.mem_filter_iff.mp hp).2

/-! ## The alarms that the controller has -/

namespace AlarmStore

variable {s : AlarmStore} {northPlatform podIp : String} {key : PdGroup} {r : AlarmRecord}

/-- The last that was sent of the alarm is that it was raised. -/
def Up (s : AlarmStore) (moi : String) : Prop := (AlarmLevel.precision.history moi s.sent).getLast? = some true

instance (s : AlarmStore) (moi : String) : Decidable (s.Up moi) := inferInstanceAs (Decidable (_ = _))

/-- The precision alarms are those of groups, under their names. -/
structure Grouped (northPlatform podIp : String) (s : AlarmStore) : Prop where
  inv : s.Inv northPlatform
  groups : ∀ moi r, s.activePrecisionAlarms.get? moi = some r →
    ∃ key, Proper key ∧ moi = buildPrecisionMoi podIp key ∧ r = precisionIssueAlarm podIp key none

theorem grouped_new (northPlatform podIp : String) : (new northPlatform).Grouped northPlatform podIp where
  inv := inv_new northPlatform
  groups moi r hget := by cases hget

theorem precisionAlarmKey_issue (podIp : String) (key : PdGroup) :
    (precisionIssueAlarm podIp key none).precisionAlarmKey = buildPrecisionMoi podIp key :=
  precisionAlarmKey_precisionIssueAlarm rfl (buildPrecisionMoi_ne podIp key)

theorem Grouped.raise (h : s.Grouped northPlatform podIp) (hkey : Proper key) :
    (s.addAlarm (precisionIssueAlarm podIp key none)).Grouped northPlatform podIp := by
  refine ⟨h.inv.addAlarm _, fun moi r hget => ?_⟩
  rw [addAlarm_raise rfl, precisionAlarmKey_issue] at hget
  split at hget
  · exact h.groups moi r hget
  · rw [Dict.get?_insert] at hget
    split at hget
    · next heq =>
      cases hget
      exact ⟨key, hkey, heq.symm, rfl⟩
    · exact h.groups moi r hget

theorem Grouped.clear (h : s.Grouped northPlatform podIp) (hr : r.isPrecision = true) :
    (s.addAlarm r.clear).Grouped northPlatform podIp := by
  refine ⟨h.inv.addAlarm _, fun moi r' hget => ?_⟩
  rw [addAlarm_clear hr] at hget
  exact h.groups moi r' (Dict.get?_of_erase hget)

theorem Grouped.other (h : s.Grouped northPlatform podIp) {records : List AlarmRecord}
    (hr : records.all (fun r => !r.isPrecision) = true) : (s.addAlarms records).Grouped northPlatform podIp := by
  unfold addAlarms
  induction records generalizing s with
  | nil => exact h
  | cons r records ih =>
    rw [List.all_cons, Bool.and_eq_true, Bool.not_eq_true'] at hr
    exact ih ⟨h.inv.addAlarm r, fun moi r' hget => h.groups moi r' (addAlarm_other hr.1 ▸ hget)⟩ hr.2

theorem Grouped.recover (h : s.Grouped northPlatform podIp) (hkey : Proper key) :
    (s.addAlarms [precisionIssueAlarm podIp key none, (precisionIssueAlarm podIp key none).clear]).Grouped
      northPlatform podIp := by
  have hraised := h.raise hkey
  exact hraised.clear (r := precisionIssueAlarm podIp key none) rfl

/-- After a recovery the alarm of the group is down, and the others are as they were. -/
theorem Grouped.up_recover (h : s.Grouped northPlatform podIp) (hkey : Proper key) (moi : String) :
    (s.addAlarms [precisionIssueAlarm podIp key none, (precisionIssueAlarm podIp key none).clear]).Up moi ↔
      moi ≠ buildPrecisionMoi podIp key ∧ s.Up moi := by
  rw [Up, Up, ← (h.recover hkey).inv.precision, ← h.inv.precision]
  have heq : s.addAlarms [precisionIssueAlarm podIp key none, (precisionIssueAlarm podIp key none).clear] =
      (s.addAlarm (precisionIssueAlarm podIp key none)).addAlarm (precisionIssueAlarm podIp key none).clear := rfl
  rw [heq, addAlarm_clear rfl, precisionAlarmKey_issue]
  by_cases hmoi : moi = buildPrecisionMoi podIp key
  · simp [hmoi, Dict.contains]
  · rw [Dict.contains, Dict.get?_erase_ne _ (Ne.symm hmoi), and_iff_right hmoi, addAlarm_raise rfl,
      precisionAlarmKey_issue]
    split
    · rfl
    · rw [Dict.get?_insert_ne _ _ (Ne.symm hmoi)]
      rfl

theorem ids_eq_iff {key' : PdGroup} (hkey : Proper key) (hkey' : Proper key') :
    (decide (intOfString (precisionIssueAlarm podIp key' none).instanceId = some key.2) &&
      match key.1 with
      | none => (intOfString (precisionIssueAlarm podIp key' none).pInstanceId).all fun p => decide (p ≤ 0)
      | some p => decide (intOfString (precisionIssueAlarm podIp key' none).pInstanceId = some p)) = true ↔
      key' = key := by
  have hblank : intOfString "" = none := by decide
  obtain ⟨p, d⟩ := key
  obtain ⟨p', d'⟩ := key'
  rw [Bool.and_eq_true, decide_eq_true_eq, Prod.mk.injEq, and_comm]
  refine and_congr ?_ ?_
  · cases p with
    | none =>
      cases p' with
      | none => simp [precisionIssueAlarm, hblank]
      | some p' => simpa [precisionIssueAlarm, intOfString_repr] using hkey'.1 p' rfl
    | some p => cases p' <;> simp [precisionIssueAlarm, hblank, intOfString_repr]
  · rw [show (precisionIssueAlarm podIp (p', d') none).instanceId = Int.repr d' from rfl, intOfString_repr,
      Option.some.injEq]

theorem Grouped.findActivePrecisionAlarm (h : s.Grouped northPlatform podIp) (hkey : Proper key) :
    s.findActivePrecisionAlarm key.1 key.2 =
      if s.Up (buildPrecisionMoi podIp key) then some (precisionIssueAlarm podIp key none) else none := by
  cases hfind : s.findActivePrecisionAlarm key.1 key.2 with
  | none =>
    rw [if_neg]
    intro hup
    obtain ⟨r, hget⟩ := Dict.contains_iff.mp ((h.inv.precision _).mpr hup)
    obtain ⟨key', hkey', hmoi, rfl⟩ := h.groups _ _ hget
    have hno := List.find?_eq_none.mp hfind _ (Dict.mem_values_iff.mpr ⟨_, hget⟩)
    exact hno ((ids_eq_iff hkey hkey').mpr (buildPrecisionMoi_injective podIp hmoi).symm)
  | some r =>
    obtain ⟨moi, hget⟩ := Dict.mem_values_iff.mp (List.mem_of_find?_eq_some hfind)
    obtain ⟨key', hkey', rfl, rfl⟩ := h.groups moi r hget
    have hmatches := List.find?_some (l := s.activePrecisionAlarms.values) hfind
    have hsame := (ids_eq_iff hkey hkey').mp hmatches
    rw [hsame] at hget ⊢
    rw [if_pos]
    exact (h.inv.precision _).mp (Dict.contains_of_some hget)

end AlarmStore

/-! ## Runs -/

namespace PrecisionLoop

/-- Workers name a group properly. -/
def Named (_ : PrecisionLoop) : LoopStep → Prop
  | .record call _ => Proper call.key
  | _ => True

instance (s : PrecisionLoop) : ∀ step, Decidable (s.Named step)
  | .record call _ => inferInstanceAs (Decidable (Proper call.key))
  | .report _ _ => inferInstanceAs (Decidable True)
  | .finish _ _ => inferInstanceAs (Decidable True)
  | .dismiss _ _ => inferInstanceAs (Decidable True)
  | .terminateInstance _ _ => inferInstanceAs (Decidable True)
  | .addAlarms _ => inferInstanceAs (Decidable True)
  | .getAlarms _ => inferInstanceAs (Decidable True)

structure Searchable (c : PrecisionConfig) (s : PrecisionLoop) : Prop where
  grouped : s.store.Grouped c.northPlatform c.podIp
  proper : ∀ a ∈ s.actions, Proper a.key

variable {c : PrecisionConfig} {s s' : PrecisionLoop} {key : PdGroup}

theorem launch_key {streak : PrecisionResult} {a : PrecisionAction} (h : launch key streak = some a) : a.key = key := by
  unfold launch at h
  split at h
  · cases h
  · split at h
    · cases h
      rfl
    · split at h <;> cases h
      rfl

theorem Searchable.recover (h : s.Searchable c) (key : PdGroup) {raiseRecord : Option AlarmRecord}
    (hrecord : ∀ r, raiseRecord = some r → ∃ key', Proper key' ∧ r = precisionIssueAlarm c.podIp key' none)
    (recovery : GroupRecovery) : (s.completePrecisionPdGroupRecovery c key raiseRecord recovery).2.Searchable c := by
  obtain ⟨store, dismissals, heq, ⟨hstore, -⟩ | ⟨r, hfind, hstore⟩⟩ :=
    completeRecovery_cases s c key raiseRecord recovery
  · rw [heq, hstore]
    exact ⟨h.grouped, h.proper⟩
  · obtain ⟨key', hkey', rfl⟩ : ∃ key', Proper key' ∧ r = precisionIssueAlarm c.podIp key' none := by
      cases hraise : raiseRecord with
      | none =>
        have hproper := proper_normalize key
        rw [hraise, Option.none_or, h.grouped.findActivePrecisionAlarm hproper] at hfind
        split at hfind
        · exact ⟨_, hproper, (Option.some.inj hfind).symm⟩
        · cases hfind
      | some r' =>
        rw [hraise, Option.some_or] at hfind
        exact hrecord r (by rw [hraise, hfind])
    rw [heq, hstore]
    exact ⟨h.grouped.recover hkey', h.proper⟩

theorem Searchable.addAlarm (h : s.Searchable c) {r : AlarmRecord}
    (hr : (∃ key, Proper key ∧ r = precisionIssueAlarm c.podIp key none) ∨
      ∃ r' : AlarmRecord, r = r'.clear ∧ r'.isPrecision = true) (allowed : Bool) (recovery : GroupRecovery) :
    (s.addAlarm c r allowed recovery).2.Searchable c := by
  have hstore : ∀ t : PrecisionLoop, t.Searchable c →
      ({ t with store := t.store.addAlarm r } : PrecisionLoop).Searchable c := by
    intro t ht
    rcases hr with ⟨key, hkey, rfl⟩ | ⟨r', rfl, hprecision⟩
    · exact ⟨ht.grouped.raise hkey, ht.proper⟩
    · exact ⟨ht.grouped.clear hprecision, ht.proper⟩
  -- the record goes into the store unless the group was recovered
  have hthen : ∀ t : Bool × PrecisionLoop, t.2.Searchable c →
      let after := if t.1 then (true, t.2) else
        if c.enableObservabilityApi then (false, { t.2 with store := t.2.store.addAlarm r }) else (false, t.2)
      after.2.Searchable c := by
    rintro ⟨cleared, t⟩ ht
    dsimp only
    split
    · exact ht
    · split
      · exact hstore t ht
      · exact ht
  unfold PrecisionLoop.addAlarm
  cases hgroup : r.group with
  | none => exact hthen (false, s) h
  | some key =>
    dsimp only
    split
    · next hallowed =>
      refine hthen _ (h.recover key (fun r' hr' => ?_) recovery)
      cases hr'
      refine hr.resolve_right ?_
      rintro ⟨r', rfl, -⟩
      simp [AlarmRecord.isPrecisionRaiseAlarm, AlarmRecord.clear] at hallowed
    · exact hthen (false, s) h

theorem Searchable.report (h : s.Searchable c) {a : PrecisionAction} (ha : a ∈ s.actions) (delivery : Delivery) :
    (s.report c a delivery).2.Searchable c := by
  unfold PrecisionLoop.report
  cases hpayload : a.payload c.podIp with
  | none => exact h
  | some r =>
    cases delivery with
    | lost => exact h
    | standby => exact h
    | handled allowed recovery answered =>
      refine h.addAlarm ?_ allowed recovery
      unfold PrecisionAction.payload at hpayload
      split at hpayload
      · cases hpayload
        exact Or.inl ⟨a.key, h.proper a ha, rfl⟩
      · split at hpayload <;> cases hpayload
        exact Or.inr ⟨_, rfl, rfl⟩

theorem Searchable.exec (h : s.Searchable c) {step : LoopStep} (hnamed : s.Named step) (hexec : s.exec c step = some s') :
    s'.Searchable c := by
  cases step with
  | record call answered =>
    obtain rfl := Option.some.inj hexec
    refine ⟨h.grouped, fun a ha => ?_⟩
    rcases List.mem_append.mp ha with ha | ha
    · exact h.proper a ha
    · cases answered with
      | true =>
        rw [launch_key (Option.mem_toList.mp ha)]
        exact hnamed
      | false => cases ha
  | report i delivery =>
    obtain ⟨a, hget, -, rfl⟩ := exec_report hexec
    have ha := List.mem_of_getElem? hget
    have hreport := h.report ha delivery
    refine ⟨hreport.grouped, fun b hb => ?_⟩
    rcases List.mem_or_eq_of_mem_set hb with hb | rfl
    · exact hreport.proper b hb
    · exact h.proper a ha
  | finish i arrives =>
    obtain ⟨a, outcome, -, -, hnext⟩ := exec_finish hexec
    have hrest : ∀ b ∈ s.actions.eraseIdx i, Proper b.key := fun b hb => h.proper b (List.mem_of_mem_eraseIdx hb)
    rcases hnext with rfl | ⟨actionToken, -, rfl⟩ <;> exact ⟨h.grouped, hrest⟩
  | dismiss i arrives =>
    obtain ⟨key, -, hnext⟩ := exec_dismiss hexec
    rcases hnext with rfl | rfl <;> exact ⟨h.grouped, h.proper⟩
  | terminateInstance key recovery =>
    obtain rfl := Option.some.inj hexec
    exact h.recover key (fun r hr => absurd hr (Option.some_ne_none r).symm) recovery
  | addAlarms records =>
    obtain ⟨hother, rfl⟩ := exec_addAlarms hexec
    exact ⟨h.grouped.other hother, h.proper⟩
  | getAlarms sourceId =>
    obtain rfl := Option.some.inj hexec
    exact ⟨⟨h.grouped.inv.getAlarms sourceId, h.grouped.groups⟩, h.proper⟩

theorem Searchable.terminateInstance (h : s.Searchable c) (hon : c.enableObservabilityApi = true) {recovery : GroupRecovery}
    (hterminated : terminatePdGroup (normalize key) recovery = true)
    (hexec : s.exec c (.terminateInstance key recovery) = some s') (key' : PdGroup) :
    s'.store.Up (buildPrecisionMoi c.podIp key') ↔
      key' ≠ normalize key ∧ s.store.Up (buildPrecisionMoi c.podIp key') := by
  have hproper := proper_normalize key
  have hnotify : ∀ t : PrecisionLoop, (t.notifyPrecisionAlarmCleared (normalize key) recovery).store = t.store := by
    intro t
    unfold notifyPrecisionAlarmCleared
    split <;> rfl
  obtain rfl := Option.some.inj hexec
  simp only [completePrecisionPdGroupRecovery, if_pos hterminated, Option.none_or,
    h.grouped.findActivePrecisionAlarm hproper]
  by_cases hup : s.store.Up (buildPrecisionMoi c.podIp (normalize key))
  · simp only [if_pos hup, hnotify, if_pos hon]
    rw [h.grouped.up_recover hproper, (buildPrecisionMoi_injective c.podIp).ne_iff]
  · simp only [if_neg hup, hnotify]
    refine (and_iff_right_of_imp fun hup' heq => ?_).symm
    rw [heq] at hup'
    exact hup hup'

variable {steps : List LoopStep}

/-- **A group's alarm is found.** In every run of workers, scheduler, controller and operators, whatever is lost: a
search for a group finds an alarm exactly if the last that was sent of the group's alarm is that it was raised, and
what it finds is the raise for this very group. So when an operator has a group recovered and its instances stop, its
alarm is down, and the alarms of the other groups are as they were. -/
theorem search_finds_alarm (hrun : Run (exec c) Named (new c) steps s) :
    (∀ key, Proper key → s.store.findActivePrecisionAlarm key.1 key.2 =
      if s.store.Up (buildPrecisionMoi c.podIp key) then some (precisionIssueAlarm c.podIp key none) else none) ∧
    ∀ key recovery s', c.enableObservabilityApi = true → terminatePdGroup (normalize key) recovery = true →
      s.exec c (.terminateInstance key recovery) = some s' → ∀ key',
        (s'.store.Up (buildPrecisionMoi c.podIp key') ↔
          key' ≠ normalize key ∧ s.store.Up (buildPrecisionMoi c.podIp key')) := by
  have h : s.Searchable c := by
    refine hrun.invariant_state (I := fun s => s.Searchable c) ?_ fun h hnamed hexec => h.exec hnamed hexec
    exact ⟨AlarmStore.grouped_new _ _, fun a ha => absurd ha List.not_mem_nil⟩
  exact ⟨fun key hkey => h.grouped.findActivePrecisionAlarm hkey,
    fun key recovery s' hon hterminated hexec => h.terminateInstance hon hterminated hexec⟩

/-- Two groups with the same decoder have issues, and an operator has the one recovered. -/
def sharedDecoder : List LoopStep :=
  [.record ⟨(some 1, 2), true, 1, 1, true⟩ true, .record ⟨(some 3, 2), true, 1, 1, true⟩ true,
    .report 0 (.handled false ⟨false, false⟩ false), .report 1 (.handled false ⟨false, false⟩ true)]

theorem sharedDecoder_found : ∃ s, Run (exec onePod) Named (new onePod) sharedDecoder s ∧
    s.store.findActivePrecisionAlarm (some 3) 2 = some (precisionIssueAlarm "10.0.0.1" (some 3, 2) none) ∧
    ∃ s', s.exec onePod (.terminateInstance (some 3, 2) ⟨true, false⟩) = some s' ∧
      ¬ s'.store.Up (buildPrecisionMoi "10.0.0.1" (some 3, 2)) ∧
      s'.store.Up (buildPrecisionMoi "10.0.0.1" (some 1, 2)) := by
  have hcomputed : (runList (exec onePod) Named (new onePod) sharedDecoder).map (fun s =>
      decide (s.store.Up (buildPrecisionMoi "10.0.0.1" (some 3, 2)) ∧
        s.store.Up (buildPrecisionMoi "10.0.0.1" (some 1, 2)))) = some true := by
    decide +kernel
  obtain ⟨s, hrun, hups⟩ := runList_exists hcomputed
  obtain ⟨hup, hother⟩ := of_decide_eq_true hups
  obtain ⟨hfind, hrecovery⟩ := search_finds_alarm hrun
  refine ⟨s, hrun, (hfind (some 3, 2) (by decide)).trans (if_pos hup), _, rfl, ?_, ?_⟩
  · exact fun hlast => ((hrecovery _ _ _ rfl (by decide) rfl _).mp hlast).1 rfl
  · exact (hrecovery _ _ _ rfl (by decide) rfl _).mpr ⟨by decide, hother⟩

end PrecisionLoop

end PyMotor.Controller
