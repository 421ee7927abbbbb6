import PyMotor.Coordinator.PrecisionAlarm.Phases

/-!
# What precision alarms promise

Two invariants hold of every run. `Filed` says that each group is in a phase, and how the phase
follows from the history of the calls. `Tokens` is about the tokens of all groups together: a pending
token was drawn, belongs to one group and was never accepted before.
-/

namespace PyMotor.Coordinator

open PrecisionRun

/-! ## Groups and their histories -/

/-- Each group is in its phase, and the history explains the phase. -/
structure Filed (tables : PrecisionTables) (history : List PrecisionEvent)
    (phase : PdGroup → Phase) : Prop where
  view : ∀ key, tables.view key = (phase key).view
  issues : ∀ key n, phase key = .watching n → streak true key history = n
  normals : ∀ key n, phase key = .active n → streak false key history = n
  raised : ∀ key, (phase key).alarmed = true → Raised key history

theorem Filed.start : Filed .new [] (fun _ => .watching 0) where
  view _ := rfl
  issues key n h := by
    cases h
    rfl
  normals key n h := by cases h
  raised key h := by cases h

theorem Filed.step {tables tables' : PrecisionTables} {history : List PrecisionEvent}
    {phase : PdGroup → Phase} {e : PrecisionEvent} {next : Phase} (h : Filed tables history phase)
    (hview : tables'.view e.group = next.view)
    (hother : ∀ key, e.group ≠ key → tables'.view key = tables.view key)
    (hissues : ∀ n, next = .watching n → streak true e.group (history ++ [e]) = n)
    (hnormals : ∀ n, next = .active n → streak false e.group (history ++ [e]) = n)
    (hraised : next.alarmed = true → Raised e.group (history ++ [e])) :
    Filed tables' (history ++ [e]) (Function.update phase e.group next) := by
  have hstreak : ∀ hasIssue key, e.group ≠ key →
      streak hasIssue key (history ++ [e]) = streak hasIssue key history := by
    intro hasIssue key hne
    simp [streak_snoc, streakStep.eq_def, hne]
  constructor
  case view =>
    intro key
    by_cases hkey : e.group = key
    · subst hkey
      simpa using hview
    · rw [Function.update_of_ne (Ne.symm hkey), hother key hkey]
      exact h.view key
  case issues =>
    intro key n hn
    by_cases hkey : e.group = key
    · subst hkey
      exact hissues n (by simpa using hn)
    · rw [Function.update_of_ne (Ne.symm hkey)] at hn
      rw [hstreak true key hkey]
      exact h.issues key n hn
  case normals =>
    intro key n hn
    by_cases hkey : e.group = key
    · subst hkey
      exact hnormals n (by simpa using hn)
    · rw [Function.update_of_ne (Ne.symm hkey)] at hn
      rw [hstreak false key hkey]
      exact h.normals key n hn
  case raised =>
    intro key hactive
    by_cases hkey : e.group = key
    · subst hkey
      exact hraised (by simpa using hactive)
    · rw [Function.update_of_ne (Ne.symm hkey)] at hactive
      exact (h.raised key hactive).snoc fun hgroup => absurd hgroup hkey

/-! ## Tokens -/

/-- `pending` says which token each group waits for. -/
structure Tokens (uuid4 : TokenSource) (drawn : ℕ) (history : List PrecisionEvent)
    (pending : PdGroup → Option String) : Prop where
  pending_drawn : ∀ key token, pending key = some token → ∃ m < drawn, uuid4.draw m = token
  pending_once : ∀ key key' token, pending key = some token → pending key' = some token → key = key'
  pending_unspent : ∀ key token, pending key = some token → acceptances token history = 0
  spent_drawn : ∀ token, acceptances token history ≠ 0 → ∃ m < drawn, uuid4.draw m = token
  spent_once : ∀ token, acceptances token history ≤ 1

section Tokens

variable {uuid4 : TokenSource} {drawn : ℕ} {history : List PrecisionEvent}
  {pending : PdGroup → Option String} {e : PrecisionEvent}

theorem Tokens.start (uuid4 : TokenSource) : Tokens uuid4 0 [] (fun _ => none) where
  pending_drawn key token h := by cases h
  pending_once key key' token h := by cases h
  pending_unspent key token h := by cases h
  spent_drawn token h := absurd rfl h
  spent_once token := Nat.zero_le 1

theorem acceptances_snoc_of_not (h : ∀ token, e.accepts token = false) (token : String) :
    acceptances token (history ++ [e]) = acceptances token history := by
  simp [acceptances_snoc, h token]

theorem Tokens.keep (h : Tokens uuid4 drawn history pending)
    (he : ∀ token, e.accepts token = false) : Tokens uuid4 drawn (history ++ [e]) pending where
  pending_drawn := h.pending_drawn
  pending_once := h.pending_once
  pending_unspent key token hp := by
    rw [acceptances_snoc_of_not he]
    exact h.pending_unspent key token hp
  spent_drawn token hspent := by
    rw [acceptances_snoc_of_not he] at hspent
    exact h.spent_drawn token hspent
  spent_once token := by
    rw [acceptances_snoc_of_not he]
    exact h.spent_once token

theorem Tokens.issue (h : Tokens uuid4 drawn history pending) (key : PdGroup)
    (he : ∀ token, e.accepts token = false) :
    Tokens uuid4 (drawn + 1) (history ++ [e])
      (Function.update pending key (some (uuid4.draw drawn))) := by
  have hfresh : ∀ m, m < drawn → uuid4.draw m ≠ uuid4.draw drawn := by
    intro m hm heq
    exact Nat.ne_of_lt hm (uuid4.draw_injective heq)
  have hcases : ∀ key' token, Function.update pending key (some (uuid4.draw drawn)) key' = some token →
      (key' = key ∧ uuid4.draw drawn = token) ∨ pending key' = some token := by
    intro key' token hp
    by_cases hkey : key' = key
    · subst hkey
      rw [Function.update_self] at hp
      exact Or.inl ⟨rfl, Option.some.inj hp⟩
    · rw [Function.update_of_ne hkey] at hp
      exact Or.inr hp
  -- no group waits for the new token yet
  have hnew : ∀ key', pending key' ≠ some (uuid4.draw drawn) := by
    intro key' hp
    obtain ⟨m, hm, hdraw⟩ := h.pending_drawn key' _ hp
    exact hfresh m hm hdraw
  constructor
  case pending_drawn =>
    intro key' token hp
    rcases hcases key' token hp with ⟨-, hdraw⟩ | hold
    · exact ⟨drawn, by omega, hdraw⟩
    · obtain ⟨m, hm, hdraw⟩ := h.pending_drawn key' token hold
      exact ⟨m, by omega, hdraw⟩
  case pending_once =>
    intro key₁ key₂ token hp₁ hp₂
    rcases hcases key₁ token hp₁ with ⟨hkey₁, hdraw⟩ | hold₁ <;>
      rcases hcases key₂ token hp₂ with ⟨hkey₂, hdraw'⟩ | hold₂
    · rw [hkey₁, hkey₂]
    · exact absurd (hdraw ▸ hold₂) (hnew key₂)
    · exact absurd (hdraw' ▸ hold₁) (hnew key₁)
    · exact h.pending_once key₁ key₂ token hold₁ hold₂
  case pending_unspent =>
    intro key' token hp
    rw [acceptances_snoc_of_not he]
    rcases hcases key' token hp with ⟨-, hdraw⟩ | hold
    · by_contra hspent
      obtain ⟨m, hm, hdraw'⟩ := h.spent_drawn token hspent
      exact hfresh m hm (hdraw'.trans hdraw.symm)
    · exact h.pending_unspent key' token hold
  case spent_drawn =>
    intro token hspent
    rw [acceptances_snoc_of_not he] at hspent
    obtain ⟨m, hm, hdraw⟩ := h.spent_drawn token hspent
    exact ⟨m, by omega, hdraw⟩
  case spent_once =>
    intro token
    rw [acceptances_snoc_of_not he]
    exact h.spent_once token

/-- A call after which the group waits for nothing. If it accepts a token, then the one that the
group waited for. -/
theorem Tokens.release (h : Tokens uuid4 drawn history pending) (key : PdGroup)
    (he : ∀ token, e.accepts token = true → pending key = some token) :
    Tokens uuid4 drawn (history ++ [e]) (Function.update pending key none) := by
  have hcases : ∀ key' token, Function.update pending key none key' = some token →
      key' ≠ key ∧ pending key' = some token := by
    intro key' token hp
    by_cases hkey : key' = key
    · subst hkey
      rw [Function.update_self] at hp
      cases hp
    · rw [Function.update_of_ne hkey] at hp
      exact ⟨hkey, hp⟩
  constructor
  case pending_drawn =>
    intro key' token hp
    exact h.pending_drawn key' token (hcases key' token hp).2
  case pending_once =>
    intro key₁ key₂ token hp₁ hp₂
    exact h.pending_once key₁ key₂ token (hcases key₁ token hp₁).2 (hcases key₂ token hp₂).2
  case pending_unspent =>
    intro key' token hp
    obtain ⟨hne, hold⟩ := hcases key' token hp
    -- the token of another group is not the one that this call accepts
    have hnot : e.accepts token = false := by
      by_contra hacc
      have hkey : pending key = some token := he token (by simpa using hacc)
      exact hne (h.pending_once key' key token hold hkey)
    simpa [acceptances_snoc, hnot] using h.pending_unspent key' token hold
  case spent_drawn =>
    intro token hspent
    by_cases hacc : e.accepts token = true
    · exact h.pending_drawn key token (he token hacc)
    · apply h.spent_drawn token
      simpa [acceptances_snoc, hacc] using hspent
  case spent_once =>
    intro token
    by_cases hacc : e.accepts token = true
    · have hzero := h.pending_unspent key token (he token hacc)
      simp [acceptances_snoc, hacc, hzero]
    · simpa [acceptances_snoc, hacc] using h.spent_once token

end Tokens

/-! ## What a call does to a phase -/

namespace Phase

variable {phase : Phase}

theorem record_token (phase : Phase) (call : RecordCall) (uuid : String) :
    ((phase.record call uuid).1 = none ∧ (phase.record call uuid).2.token = phase.token) ∨
      ((phase.record call uuid).1 = some uuid ∧ (phase.record call uuid).2.token = some uuid) := by
  cases phase with
  | watching n =>
    simp only [record]
    split_ifs <;> simp [token]
  | raising token n => exact Or.inl ⟨rfl, rfl⟩
  | active n =>
    simp only [record]
    split_ifs <;> simp [token]
  | clearing token n => exact Or.inl ⟨rfl, rfl⟩

theorem record_alarmed (phase : Phase) (call : RecordCall) (uuid : String) :
    (phase.record call uuid).2.alarmed = phase.alarmed := by
  cases phase with
  | watching n =>
    simp only [record]
    split_ifs <;> rfl
  | raising token n => rfl
  | active n =>
    simp only [record]
    split_ifs <;> rfl
  | clearing token n => rfl

theorem record_watching {call : RecordCall} {uuid : String} {n : ℕ}
    (h : (phase.record call uuid).2 = .watching n) :
    ∃ m, phase = .watching m ∧
      n = if !call.checkValid then m else if call.hasIssue = true then m + 1 else 0 := by
  cases phase with
  | watching m =>
    refine ⟨m, rfl, ?_⟩
    simp only [record] at h
    split_ifs at h <;> simp_all
  | raising token m => cases h
  | active m =>
    simp only [record] at h
    split_ifs at h
  | clearing token m => cases h

theorem record_active {call : RecordCall} {uuid : String} {n : ℕ}
    (h : (phase.record call uuid).2 = .active n) :
    ∃ m, phase = .active m ∧
      n = if !call.checkValid then m else if call.hasIssue = false then m + 1 else 0 := by
  cases phase with
  | watching m =>
    simp only [record] at h
    split_ifs at h
  | raising token m => cases h
  | active m =>
    refine ⟨m, rfl, ?_⟩
    simp only [record] at h
    split_ifs at h <;> simp_all
  | clearing token m => cases h

theorem finish_cases (phase : Phase) (call : FinishCall) :
    phase.finish call = (false, phase) ∨
      ((phase.finish call).1 = true ∧
        (call.autoRecoveryCleared = false → phase.token = some call.actionToken) ∧
        ((phase.finish call).2 = .watching 0 ∨
          ((phase.finish call).2 = .active 0 ∧
            ((PrecisionEvent.finished call true).raises = true ∨
              (phase.alarmed = true ∧ (PrecisionEvent.finished call true).lowers = false))))) := by
  by_cases htype : call.actionType = "clear"
  · cases phase with
    | clearing token n =>
      by_cases heq : token = call.actionToken
      · right
        cases hsuccess : call.success <;>
          simp [finish, htype, heq, Phase.token, alarmed, hsuccess, PrecisionEvent.lowers]
      · left
        simp [finish, htype, heq]
    | watching n => exact Or.inl (by simp [finish, htype])
    | raising token n => exact Or.inl (by simp [finish, htype])
    | active n => exact Or.inl (by simp [finish, htype])
  · cases hauto : call.autoRecoveryCleared with
    | true => exact Or.inr (by simp [finish, htype, hauto])
    | false =>
      cases phase with
      | raising token n =>
        by_cases heq : token = call.actionToken
        · right
          cases hsuccess : call.success <;>
            simp [finish, htype, hauto, heq, Phase.token, hsuccess, PrecisionEvent.raises]
        · left
          simp [finish, htype, hauto, heq]
      | watching n => exact Or.inl (by simp [finish, htype, hauto])
      | clearing token n => exact Or.inl (by simp [finish, htype, hauto])
      | active n => exact Or.inl (by simp [finish, htype, hauto])

end Phase

/-! ## Runs -/

/-- Every token that was handed out was due. -/
def AllIssuedAtThreshold (history : List PrecisionEvent) : Prop :=
  ∀ pre e post, history = pre ++ e :: post → IssuedAtThreshold pre e

theorem AllIssuedAtThreshold.snoc {history : List PrecisionEvent} {e : PrecisionEvent}
    (h : AllIssuedAtThreshold history) (he : IssuedAtThreshold history e) :
    AllIssuedAtThreshold (history ++ [e]) := by
  intro pre e' post heq
  rcases List.eq_nil_or_concat post with rfl | ⟨init, last, rfl⟩
  · obtain ⟨rfl, hsame⟩ := List.append_inj' heq rfl
    cases hsame
    exact he
  · have hinit : history = pre ++ e' :: init := by
      have : history ++ [e] = (pre ++ e' :: init) ++ [last] := by simpa using heq
      exact (List.append_inj' this rfl).1
    exact h pre e' init hinit

structure PrecisionInv (uuid4 : TokenSource) (s : PrecisionRun) (phase : PdGroup → Phase) : Prop where
  filed : Filed s.tables s.history phase
  tokens : Tokens uuid4 s.drawn s.history (fun key => (phase key).token)
  issued : AllIssuedAtThreshold s.history

namespace PrecisionInv

variable {uuid4 : TokenSource} {s s' : PrecisionRun} {phase : PdGroup → Phase}

theorem token_update (phase : PdGroup → Phase) (key : PdGroup) (next : Phase) :
    (fun k => (Function.update phase key next k).token) =
      Function.update (fun k => (phase k).token) key next.token := by
  funext k
  exact Function.apply_update (fun _ => Phase.token) phase key next k

theorem record (h : PrecisionInv uuid4 s phase) (call : RecordCall)
    (hs : s.exec uuid4 (.record call) = some s') :
    PrecisionInv uuid4 s' (Function.update phase call.key
      ((phase call.key).record call (uuid4.draw s.drawn)).2) := by
  obtain ⟨htoken, hview⟩ :=
    PrecisionTables.recordPrecisionResult_view call (uuid4.draw s.drawn) (h.filed.view call.key)
  have hissued :=
    PrecisionTables.recordPrecisionResult_issued call (uuid4.draw s.drawn) (h.filed.view call.key)
  have hother := fun other (hne : call.key ≠ other) =>
    s.tables.recordPrecisionResult_view_ne hne call.hasIssue call.threshold call.clearThreshold
      call.checkValid (uuid4.draw s.drawn)
  simp only [exec, Option.some.injEq] at hs
  generalize s.tables.recordPrecisionResult call.key call.hasIssue call.threshold
    call.clearThreshold call.checkValid (uuid4.draw s.drawn) = r at *
  obtain ⟨result, tables⟩ := r
  subst hs
  dsimp only at htoken hview
  constructor
  case filed =>
    apply h.filed.step (e := .recorded call result) hview hother
    · intro n hn
      obtain ⟨m, hm, rfl⟩ := Phase.record_watching hn
      simp [streak_snoc, streakStep, PrecisionEvent.group, h.filed.issues call.key m hm]
    · intro n hn
      obtain ⟨m, hm, rfl⟩ := Phase.record_active hn
      simp [streak_snoc, streakStep, PrecisionEvent.group, h.filed.normals call.key m hm]
    · intro hactive
      rw [Phase.record_alarmed] at hactive
      exact (h.filed.raised call.key hactive).snoc fun _ => rfl
  case tokens =>
    rw [token_update]
    have he : ∀ token, (PrecisionEvent.recorded call result).accepts token = false := fun _ => rfl
    rcases (phase call.key).record_token call (uuid4.draw s.drawn) with
      ⟨hnone, hsame⟩ | ⟨hsome, hnew⟩
    · rw [hnone] at htoken
      rw [hsame, Function.update_eq_self]
      simpa [htoken] using h.tokens.keep he
    -- the threshold is reached: a token is drawn and becomes the pending one
    · rw [hsome] at htoken
      rw [hnew]
      simpa [htoken] using h.tokens.issue call.key he
  case issued =>
    apply h.issued.snoc
    intro hsome
    obtain ⟨hvalid, ⟨hhit, hclear, hissue, n, hn, hle⟩ | ⟨hhit, hclear, hissue, n, hn, hle⟩⟩ :=
      hissued hsome
    · refine Or.inl ⟨hhit, hclear, ?_⟩
      simpa [streak_snoc, streakStep, PrecisionEvent.group, hvalid, hissue,
        h.filed.issues call.key n hn] using hle
    · refine Or.inr ⟨hhit, hclear, ?_⟩
      simpa [streak_snoc, streakStep, PrecisionEvent.group, hvalid, hissue,
        h.filed.normals call.key n hn] using hle

theorem finish (h : PrecisionInv uuid4 s phase) (call : FinishCall)
    (hs : s.exec uuid4 (.finish call) = some s') :
    PrecisionInv uuid4 s' (Function.update phase call.key ((phase call.key).finish call).2) := by
  -- an empty token would be taken for none
  have hnonempty : ∀ token, (phase call.key).token = some token → token ≠ "" := by
    intro token hpending
    obtain ⟨m, -, rfl⟩ := h.tokens.pending_drawn call.key token hpending
    exact uuid4.draw_ne_empty m
  obtain ⟨hacc, hview⟩ :=
    PrecisionTables.finishPrecisionAction_view call (h.filed.view call.key) hnonempty
  have hother := fun other (hne : call.key ≠ other) =>
    s.tables.finishPrecisionAction_view_ne hne call.actionToken call.actionType call.success
      call.alarmMoi call.autoRecoveryCleared
  simp only [exec, Option.some.injEq] at hs
  generalize s.tables.finishPrecisionAction call.key call.actionToken call.actionType call.success
    call.alarmMoi call.autoRecoveryCleared = r at *
  obtain ⟨accepted, tables⟩ := r
  subst hs
  dsimp only at hacc hview
  rw [hacc]
  have hissued : AllIssuedAtThreshold
      (s.history ++ [.finished call ((phase call.key).finish call).1]) := h.issued.snoc trivial
  rcases (phase call.key).finish_cases call with
    hrejected | ⟨htrue, hpending, hnext⟩
  · -- nothing changes, and the history says nothing new
    rw [hrejected] at hview hissued ⊢
    refine ⟨?_, ?_, hissued⟩
    · apply h.filed.step (e := .finished call false) hview hother
      · intro n hn
        simpa [streak_snoc, streakStep, PrecisionEvent.group] using h.filed.issues call.key n hn
      · intro n hn
        simpa [streak_snoc, streakStep, PrecisionEvent.group] using h.filed.normals call.key n hn
      · intro hactive
        apply (h.filed.raised call.key hactive).snoc
        intro _
        simp [PrecisionEvent.lowers]
    · rw [Function.update_eq_self]
      exact h.tokens.keep fun _ => by simp [PrecisionEvent.accepts]
  -- the action that was pending is over, and its streaks begin anew
  · rw [htrue] at hissued ⊢
    refine ⟨?_, ?_, hissued⟩
    · have hzero : ∀ hasIssue,
          streak hasIssue call.key (s.history ++ [.finished call true]) = 0 := by
        intro hasIssue
        simp [streak_snoc, streakStep, PrecisionEvent.group]
      apply h.filed.step (e := .finished call true) hview hother
      · intro n hn
        rcases hnext with hwatching | ⟨hactive, -⟩
        · rw [hwatching] at hn
          cases hn
          exact hzero true
        · rw [hactive] at hn
          cases hn
      · intro n hn
        rcases hnext with hwatching | ⟨hactive, -⟩
        · rw [hwatching] at hn
          cases hn
        · rw [hactive] at hn
          cases hn
          exact hzero false
      · intro halarmed
        rcases hnext with hwatching | ⟨-, hraises | ⟨hbefore, hkeeps⟩⟩
        · rw [hwatching] at halarmed
          cases halarmed
        · exact Raised.now s.history rfl hraises
        · exact (h.filed.raised call.key hbefore).snoc fun _ => hkeeps
    · have hnone : ((phase call.key).finish call).2.token = none := by
        rcases hnext with hwatching | ⟨hactive, -⟩
        · rw [hwatching]
          rfl
        · rw [hactive]
          rfl
      rw [token_update, hnone]
      apply h.tokens.release call.key
      intro token haccepts
      simp only [PrecisionEvent.accepts, Bool.true_and, Bool.and_eq_true, Bool.not_eq_true',
        decide_eq_true_eq] at haccepts
      rw [← haccepts.2]
      exact hpending haccepts.1

theorem dismiss (h : PrecisionInv uuid4 s phase) (key : PdGroup)
    (hs : s.exec uuid4 (.dismiss key) = some s') :
    PrecisionInv uuid4 s' (Function.update phase key (.watching 0)) := by
  simp only [exec, PrecisionTables.dismissPrecisionAlarmState, Option.some.injEq] at hs
  subst hs
  refine ⟨?_, ?_, h.issued.snoc trivial⟩
  · apply h.filed.step (e := .dismissed key)
      (PrecisionTables.clearPrecisionGroupState_view s.tables key)
    · intro other hne
      exact PrecisionTables.clearPrecisionGroupState_view_ne hne
    · intro n hn
      cases hn
      simp [streak_snoc, streakStep, PrecisionEvent.group]
    · intro n hn
      cases hn
    · intro halarmed
      cases halarmed
  · rw [token_update]
    apply h.tokens.release key
    intro token haccepts
    cases haccepts

/-- **In every run, each group is in a phase** that its history explains. -/
theorem run {ls : List PrecisionCall} (h : Run (exec uuid4) Free start ls s) :
    ∃ phase, PrecisionInv uuid4 s phase := by
  apply h.invariant_state (I := fun s => ∃ phase, PrecisionInv uuid4 s phase)
  · refine ⟨fun _ => .watching 0, Filed.start, Tokens.start uuid4, ?_⟩
    intro pre e post heq
    simp [start] at heq
  · rintro s call s' ⟨phase, hinv⟩ - hs
    cases call with
    | record call => exact ⟨_, hinv.record call hs⟩
    | finish call => exact ⟨_, hinv.finish call hs⟩
    | dismiss key => exact ⟨_, hinv.dismiss key hs⟩

end PrecisionInv

/-- The tokens that a group waits for. -/
def PrecisionTables.actionTokens (s : PrecisionTables) (key : PdGroup) : List String :=
  (s.raiseTokens.get? key).toList ++ (s.clearTokens.get? key).toList

/-- **Precision alarms are safe.** Whatever the workers call in whatever order: a group has an action
pending exactly when it holds one token; it is never asked to raise and to clear at once; no token is
accepted twice; a token is handed out only when the streak has reached the threshold; and an alarm is
active only if it was raised and not lowered since. -/
theorem precision_alarm_safe (uuid4 : TokenSource) {calls : List PrecisionCall} {s : PrecisionRun}
    (h : Run (exec uuid4) Free start calls s) :
    (∀ key, (s.tables.isRaiseProbing key || s.tables.isClearProbing key) = true ↔
      (s.tables.actionTokens key).length = 1) ∧
    (∀ key, ¬ (s.tables.isRaiseProbing key = true ∧ s.tables.isClearProbing key = true) ∧
      ¬ ((s.tables.raiseTokens.get? key).isSome ∧ (s.tables.clearTokens.get? key).isSome)) ∧
    (∀ token, acceptances token s.history ≤ 1) ∧
    (∀ pre e post, s.history = pre ++ e :: post → IssuedAtThreshold pre e) ∧
    (∀ key, s.tables.isAlarmActive key = true → Raised key s.history) := by
  obtain ⟨phase, hinv⟩ := PrecisionInv.run h
  have htokens : ∀ key, s.tables.raiseTokens.get? key = (phase key).view.raiseToken ∧
      s.tables.clearTokens.get? key = (phase key).view.clearToken := by
    intro key
    exact ⟨congrArg GroupView.raiseToken (hinv.filed.view key),
      congrArg GroupView.clearToken (hinv.filed.view key)⟩
  refine ⟨?_, ?_, hinv.tokens.spent_once, hinv.issued, ?_⟩
  · intro key
    rw [PrecisionTables.isProbing_eq (hinv.filed.view key), PrecisionTables.actionTokens,
      (htokens key).1, (htokens key).2]
    cases phase key <;> simp [Phase.token, Phase.view]
  · intro key
    have hview := hinv.filed.view key
    simp only [PrecisionTables.view] at hview
    cases hphase : phase key <;> rw [hphase] at hview <;>
      simp only [Phase.view, GroupView.mk.injEq] at hview <;> simp [hview]
  · intro key hactive
    rw [PrecisionTables.isAlarmActive_eq (hinv.filed.view key)] at hactive
    exact hinv.filed.raised key hactive

/-- Tokens that count in strokes. -/
def TokenSource.strokes : TokenSource where
  draw n := String.ofList (List.replicate (n + 1) 'x')
  draw_injective := by
    intro m n h
    have := congrArg (fun s => s.toList.length) h
    simpa using this
  draw_ne_empty n := by
    intro h
    have := congrArg (fun s => s.toList.length) h
    simp at this

/-- Two issues raise an alarm, a late finish is rejected, and a normal result is asked to clear. -/
theorem precision_alarm_safe_raised :
    ∃ s, Run (exec .strokes) Free start
      [.record ⟨(some 1, 2), true, 2, 1, true⟩, .record ⟨(some 1, 2), true, 2, 1, true⟩,
        .finish ⟨(some 1, 2), "x", "raise", true, none, false⟩,
        .finish ⟨(some 1, 2), "x", "raise", true, none, false⟩,
        .record ⟨(some 1, 2), false, 2, 1, true⟩] s ∧
      s.tables.isAlarmActive (some 1, 2) = true ∧ s.tables.actionTokens (some 1, 2) = ["xx"] ∧
      Raised (some 1, 2) s.history ∧ acceptances "x" s.history ≤ 1 := by
  have h : (runList (exec .strokes) Free start
      [.record ⟨(some 1, 2), true, 2, 1, true⟩, .record ⟨(some 1, 2), true, 2, 1, true⟩,
        .finish ⟨(some 1, 2), "x", "raise", true, none, false⟩,
        .finish ⟨(some 1, 2), "x", "raise", true, none, false⟩,
        .record ⟨(some 1, 2), false, 2, 1, true⟩]).map
      (fun s => (s.tables.isAlarmActive (some 1, 2), s.tables.actionTokens (some 1, 2))) =
      some (true, ["xx"]) := by
    decide
  obtain ⟨s, hs, hf⟩ := Option.map_eq_some_iff.mp h
  simp only [Prod.mk.injEq] at hf
  have hrun := runList_run hs
  obtain ⟨-, -, honce, -, hraised⟩ := precision_alarm_safe .strokes hrun
  exact ⟨s, hrun, hf.1, hf.2, hraised _ hf.1, honce "x"⟩

/-! ## Stale finishes -/

/-- The token that a finish has to quote. -/
def PrecisionTables.pendingToken (s : PrecisionTables) (call : FinishCall) : Option String :=
  if call.actionType = "clear" then s.clearTokens.get? call.key else s.raiseTokens.get? call.key

theorem PrecisionTables.tokenMatches_eq_false {expected : Option String} {actionToken : String}
    (h : expected ≠ some actionToken) : tokenMatches expected actionToken = false := by
  cases expected with
  | none => rfl
  | some expected =>
    have hne : expected ≠ actionToken := fun heq => h (congrArg some heq)
    simp [tokenMatches, hne]

/-- **A stale finish is ignored**, in whatever state it arrives. Only the finish of a raise that was
already recovered needs no token, since the controller may have dismissed the alarm; it too concerns
no group but its own. -/
theorem stale_finish_ignored (uuid4 : TokenSource) {s s' : PrecisionRun} {call : FinishCall}
    (hstale : s.tables.pendingToken call ≠ some call.actionToken)
    (he : exec uuid4 s (.finish call) = some s') :
    (call.actionType = "clear" ∨ call.autoRecoveryCleared = false →
      s'.history = s.history ++ [.finished call false] ∧ s'.tables = s.tables) ∧
    ∀ key, key ≠ call.key → s'.tables.view key = s.tables.view key ∧
      s'.tables.alarmMoi.get? key = s.tables.alarmMoi.get? key := by
  unfold PrecisionTables.pendingToken at hstale
  simp only [exec, Option.some.injEq] at he
  subst he
  refine ⟨fun hquoted => ?_, fun key hne => ?_⟩
  · have hrejected : s.tables.finishPrecisionAction call.key call.actionToken call.actionType
        call.success call.alarmMoi call.autoRecoveryCleared = (false, s.tables) := by
      unfold PrecisionTables.finishPrecisionAction
      split at hstale
      · next htype =>
        rw [if_pos htype, PrecisionTables.finishClear,
          PrecisionTables.tokenMatches_eq_false hstale, if_neg Bool.false_ne_true]
      · next htype =>
        rw [if_neg htype, hquoted.resolve_left htype, if_neg Bool.false_ne_true,
          PrecisionTables.finishRaise, PrecisionTables.tokenMatches_eq_false hstale,
          if_neg Bool.false_ne_true]
    rw [hrejected]
    exact ⟨rfl, rfl⟩
  · exact ⟨PrecisionTables.finishPrecisionAction_view_ne (Ne.symm hne) _ _ _ _ _,
      PrecisionTables.finishPrecisionAction_alarmMoi_ne (Ne.symm hne) _ _ _ _ _⟩

/-- An issue is to raise an alarm, and the alarm is dismissed before the worker has finished. -/
def dismissedRun : List PrecisionCall :=
  [.record ⟨(some 1, 2), true, 1, 1, true⟩, .dismiss (some 1, 2)]

theorem stale_finish_ignored_dismissed : ∃ s s', Run (exec .strokes) Free start dismissedRun s ∧
    exec .strokes s (.finish ⟨(some 1, 2), "x", "raise", true, none, false⟩) = some s' ∧
    s'.tables = s.tables := by
  have h : (runList (exec .strokes) Free start dismissedRun).map (fun s =>
      s.tables.raiseTokens.get? (some 1, 2)) = some none := by
    decide
  obtain ⟨s, hs, hf⟩ := Option.map_eq_some_iff.mp h
  have hstale : s.tables.pendingToken ⟨(some 1, 2), "x", "raise", true, none, false⟩ ≠ some "x" := by
    have hpending : s.tables.pendingToken ⟨(some 1, 2), "x", "raise", true, none, false⟩ =
        s.tables.raiseTokens.get? (some 1, 2) := if_neg (by decide)
    rw [hpending, hf]
    exact fun h => by cases h
  obtain ⟨s', hs'⟩ : ∃ s', exec .strokes s
      (.finish ⟨(some 1, 2), "x", "raise", true, none, false⟩) = some s' := ⟨_, rfl⟩
  exact ⟨s, s', runList_run hs, hs', ((stale_finish_ignored .strokes hstale hs').1 (Or.inr rfl)).2⟩

/-- If the alarm was also recovered, the finish is accepted all the same. -/
theorem dismissedRun_accepts_recovered : ∃ s, Run (exec .strokes) Free start dismissedRun s ∧
    s.tables.pendingToken ⟨(some 1, 2), "x", "raise", true, none, true⟩ ≠ some "x" ∧
    (s.tables.finishPrecisionAction (some 1, 2) "x" "raise" true none true).1 = true := by
  have h : (runList (exec .strokes) Free start dismissedRun).map (fun s =>
      (s.tables.pendingToken ⟨(some 1, 2), "x", "raise", true, none, true⟩,
        (s.tables.finishPrecisionAction (some 1, 2) "x" "raise" true none true).1)) =
      some (none, true) := by
    decide
  obtain ⟨s, hs, hf⟩ := Option.map_eq_some_iff.mp h
  simp only [Prod.mk.injEq] at hf
  refine ⟨s, runList_run hs, ?_, hf.2⟩
  rw [hf.1]
  exact fun h => by cases h

end PyMotor.Coordinator
