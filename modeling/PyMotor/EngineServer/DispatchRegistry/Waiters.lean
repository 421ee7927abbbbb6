import PyMotor.EngineServer.DispatchRegistry.Stops

/-!
# Waking the waiters

All that wait for the body of one request share an event, and the table holds it until the body is filed.
But a waiter whose timeout fires takes the event out of the table, whether or not others still sleep on it,
and filing the body does not set an event that the table has lost. So everybody who waits is woken exactly
if, when the body is filed, all that are asleep sleep on the event of the table (`wakes_all_iff`). That is
so as long as no waiter takes the event away from others (`awaited_of_run`).
-/

namespace PyMotor.EngineServer

open DispatchAttemptRegistry

variable {β : Type}

/-- Who is asleep will be woken: its event is in the table, or is set. -/
def Awaited (waiters : Dict WaiterId (Waiter β)) (r : DispatchAttemptRegistry β) : Prop :=
  ∀ w waiter event, waiters.get? w = some waiter → waiter.phase = .sleeping event →
    r.prefillWaiters.get? waiter.engineRequestId = some event ∨ event ∈ r.signalled

variable {waiters : Dict WaiterId (Waiter β)} {r r' : DispatchAttemptRegistry β} {now : ℚ}

/-! ## What keeps the waiters on the table -/

theorem Awaited.congr (h : Awaited waiters r) (htable : r'.prefillWaiters = r.prefillWaiters)
    (hsignalled : r'.signalled = r.signalled) : Awaited waiters r' := by
  intro w waiter event hwaiter hphase
  rw [htable, hsignalled]
  exact h w waiter event hwaiter hphase

theorem Awaited.popWaiter (h : Awaited waiters r) (e : String) : Awaited waiters (r.popWaiter e) := by
  intro w waiter event hwaiter hphase
  unfold DispatchAttemptRegistry.popWaiter
  split
  · exact h w waiter event hwaiter hphase
  · next event' hevent =>
    simp only
    rw [Dict.get?_erase]
    rcases h w waiter event hwaiter hphase with htable | hset
    · split
      · next heq =>
        rw [← heq, hevent] at htable
        cases htable
        exact Or.inr List.mem_cons_self
      · exact Or.inl htable
    · exact Or.inr (List.mem_cons_of_mem _ hset)

theorem Awaited.expireKey (h : Awaited waiters r) (key : AttemptKey) :
    Awaited waiters (r.expireKey key) := by
  unfold DispatchAttemptRegistry.expireKey
  simp only
  split
  · exact h.congr rfl rfl
  · apply Awaited.popWaiter
    exact h.congr rfl rfl

theorem Awaited.cleanupLocked (h : Awaited waiters r) (now : ℚ) :
    Awaited waiters (r.cleanupLocked now) := by
  unfold DispatchAttemptRegistry.cleanupLocked
  have hkeys : ∀ (keys : List AttemptKey) (r : DispatchAttemptRegistry β), Awaited waiters r →
      Awaited waiters (keys.foldl DispatchAttemptRegistry.expireKey r) := by
    intro keys
    induction keys with
    | nil => exact fun _ h => h
    | cons key keys ih => exact fun r h => ih _ (h.expireKey key)
  have hids : ∀ (ids : List String) (r : DispatchAttemptRegistry β), Awaited waiters r →
      Awaited waiters (ids.foldl popEntry r) := by
    intro ids
    induction ids with
    | nil => exact fun _ h => h
    | cons e ids ih => exact fun r h => ih _ (h.congr rfl rfl)
  exact hids _ _ (hkeys _ _ h)

theorem Awaited.getPrefillEntry (h : Awaited waiters r) (e : String) (now : ℚ) :
    Awaited waiters (r.getPrefillEntry e now).2 := by
  have hclean := h.cleanupLocked now
  unfold DispatchAttemptRegistry.getPrefillEntry
  simp only
  split
  · exact hclean
  · split
    · exact hclean.congr rfl rfl
    · exact hclean

theorem Awaited.stop (h : Awaited waiters r) (request : DispatchStopRequest) (now : ℚ) :
    Awaited waiters (r.stop request now).2 := by
  have hclean := h.cleanupLocked now
  unfold DispatchAttemptRegistry.stop
  simp only
  split
  · exact hclean
  · next current _ =>
    split
    · exact hclean
    · cases (r.cleanupLocked now).dispatches.get? request.key with
      | none =>
        cases current with
        | active => exact hclean.congr rfl rfl
        | stopped => exact hclean
        | done => exact hclean
      | some d =>
        have hpopped : Awaited waiters (((r.cleanupLocked now).popEntry
            d.engineRequestId).popWaiter d.engineRequestId) := by
          apply Awaited.popWaiter
          exact hclean.congr rfl rfl
        cases current with
        | active => exact hpopped.congr rfl rfl
        | stopped => exact hpopped
        | done => exact hpopped

theorem Awaited.finish (h : Awaited waiters r) (d : MotorDispatch) (now : ℚ) :
    Awaited waiters (r.finish d now) := by
  have hclean := h.cleanupLocked now
  unfold DispatchAttemptRegistry.finish
  simp only
  split
  · exact hclean.congr rfl rfl
  · exact hclean.congr rfl rfl

/-- The event of an id is in the table once it was asked for, and nothing else moves. -/
theorem waiterEvent_spec (r : DispatchAttemptRegistry β) (e : String) :
    (r.waiterEvent e).2.prefillWaiters.get? e = some (r.waiterEvent e).1 ∧
      (∀ e' event, r.prefillWaiters.get? e' = some event →
        (r.waiterEvent e).2.prefillWaiters.get? e' = some event) ∧
      (r.waiterEvent e).2.signalled = r.signalled := by
  unfold waiterEvent
  split
  · next hevent => exact ⟨hevent, fun _ _ h => h, rfl⟩
  · next hnone =>
    refine ⟨Dict.get?_insert_self _ _ _, fun e' event hevent => ?_, rfl⟩
    have hne : e ≠ e' := by
      rintro rfl
      rw [hnone] at hevent
      cases hevent
    exact (Dict.get?_insert_ne _ _ hne).trans hevent

theorem Awaited.waiterEvent (h : Awaited waiters r) (e : String) :
    Awaited waiters (r.waiterEvent e).2 := by
  obtain ⟨-, hkept, hsignalled⟩ := waiterEvent_spec r e
  intro w waiter event hwaiter hphase
  rw [hsignalled]
  exact (h w waiter event hwaiter hphase).imp_left (hkept _ _)

theorem Awaited.joinWaiters (h : Awaited waiters r) (e : String) (now : ℚ) :
    Awaited waiters (r.joinWaiters e now).2 := by
  have hclean := h.cleanupLocked now
  unfold DispatchAttemptRegistry.joinWaiters
  cases hcached : (r.cleanupLocked now).prefillEntries.get? e with
  | none =>
    simp only [hcached]
    exact hclean.waiterEvent e
  | some entry =>
    simp only [hcached]
    split
    · exact hclean
    · apply Awaited.waiterEvent
      exact hclean.congr rfl rfl

theorem joinWaiters_event {e : String} {event : EventId}
    (h : (r.joinWaiters e now).1 = .inr event) :
    (r.joinWaiters e now).2.prefillWaiters.get? e = some event := by
  unfold joinWaiters at h ⊢
  cases hcached : (r.cleanupLocked now).prefillEntries.get? e with
  | none =>
    simp only [hcached] at h ⊢
    cases h
    exact (waiterEvent_spec _ _).1
  | some entry =>
    simp only [hcached] at h ⊢
    split at h
    · cases h
    · next hold =>
      cases h
      rw [if_neg hold]
      exact (waiterEvent_spec _ _).1

theorem Awaited.insert (h : Awaited waiters r) (w : WaiterId) (waiter : Waiter β)
    (hnew : ∀ event, waiter.phase = .sleeping event →
      r.prefillWaiters.get? waiter.engineRequestId = some event) :
    Awaited (waiters.insert w waiter) r := by
  intro w' waiter' event hwaiter hphase
  rw [Dict.get?_insert] at hwaiter
  split at hwaiter
  · cases hwaiter
    exact Or.inl (hnew event hphase)
  · exact h w' waiter' event hwaiter hphase

/-- No waiter whose timeout fired takes the event away from others. -/
def LeavesOthers (s : DispatchSystem β) (m : DispatchMove β) : Prop :=
  ∀ w t, m = .waiterRuns w t → ∀ waiter event, s.waiters.get? w = some waiter →
    waiter.phase = .timedOut event →
    s.registry.prefillWaiters.get? waiter.engineRequestId = some event →
    ∀ w' waiter', s.waiters.get? w' = some waiter' →
      waiter'.engineRequestId = waiter.engineRequestId → waiter'.phase = .sleeping event →
      event ∈ s.registry.signalled

variable {s s' : DispatchSystem β} {m : DispatchMove β}

theorem awaited_run (h : Awaited s.waiters s.registry) {w : WaiterId} {t : ℚ}
    (hG : LeavesOthers s (.waiterRuns w t)) (hexec : s.exec (.waiterRuns w t) = some s') :
    Awaited s'.waiters s'.registry := by
  obtain ⟨waiter, hwaiter, hexec⟩ := Option.bind_eq_some_iff.mp hexec
  obtain ⟨p, hrun, rfl⟩ := Option.map_eq_some_iff.mp hexec
  show Awaited (s.waiters.insert w { waiter with phase := p.1 }) p.2
  unfold Waiter.run at hrun
  split at hrun
  · have hget := h.getPrefillEntry waiter.engineRequestId t
    cases hentry : (s.registry.getPrefillEntry waiter.engineRequestId t).1 <;>
      simp only [hentry] at hrun <;> cases hrun <;>
      exact hget.insert w _ (fun _ hphase => by cases hphase)
  · cases hrun
    refine (h.joinWaiters waiter.engineRequestId t).insert w _ fun event hphase => ?_
    cases hjoined : (s.registry.joinWaiters waiter.engineRequestId t).1 with
    | inl entry =>
      simp only [hjoined] at hphase
      cases hphase
    | inr event' =>
      simp only [hjoined] at hphase
      cases hphase
      exact joinWaiters_event hjoined
  · split at hrun
    · cases hrun
      exact h.insert w _ (fun _ hphase => by cases hphase)
    · cases hrun
  · next event hphase =>
    cases hrun
    refine Awaited.insert ?_ w _ (fun _ hphase => by cases hphase)
    -- those that sleep on the event have been woken already
    intro w' waiter' event' hwaiter' hphase'
    unfold leaveWaiters
    split
    · next htable =>
      rcases h w' waiter' event' hwaiter' hphase' with hsleeps | hset
      · show (s.registry.prefillWaiters.erase _).get? _ = some event' ∨ _
        rw [Dict.get?_erase]
        split
        · next heq =>
          right
          rw [← heq, htable] at hsleeps
          cases hsleeps
          exact hG w t rfl waiter event hwaiter hphase htable w' waiter' hwaiter' heq.symm
            hphase'
        · exact Or.inl hsleeps
      · exact Or.inr hset
    · exact h w' waiter' event' hwaiter' hphase'
  · cases hrun
    exact (h.getPrefillEntry waiter.engineRequestId t).insert w _ (fun _ hphase => by cases hphase)
  · cases hrun

theorem exec_awaited (h : Awaited s.waiters s.registry) (hG : LeavesOthers s m)
    (hexec : s.exec m = some s') : Awaited s'.waiters s'.registry := by
  cases m with
  | activate d t =>
    cases hexec
    exact (h.cleanupLocked t).congr rfl rfl
  | cachePrefillBody d body t =>
    cases hexec
    apply Awaited.popWaiter
    exact (h.cleanupLocked t).congr rfl rfl
  | getPrefillEntry e t =>
    cases hexec
    exact h.getPrefillEntry e t
  | stop request t =>
    cases hexec
    exact h.stop request t
  | isStopped d t =>
    cases hexec
    exact h.cleanupLocked t
  | finish d t =>
    cases hexec
    exact h.finish d t
  | startWait w e =>
    simp only [DispatchSystem.exec] at hexec
    split at hexec
    · cases hexec
    · cases hexec
      exact h.insert w _ (fun _ hphase => by cases hphase)
  | waiterRuns w t => exact awaited_run h hG hexec
  | timeoutFires w =>
    obtain ⟨waiter, -, hexec⟩ := Option.bind_eq_some_iff.mp hexec
    split at hexec
    · cases hexec
      exact h.insert w _ (fun _ hphase => by cases hphase)
    · cases hexec

/-- **Who sleeps, sleeps on the event of the table**, in every run in which no waiter takes the event away
from others. -/
theorem awaited_of_run {ttlSeconds : ℚ} {ms : List (DispatchMove β)}
    (h : Run DispatchSystem.exec LeavesOthers (.new ttlSeconds) ms s) :
    Awaited s.waiters s.registry :=
  h.invariant_state (I := fun s => Awaited s.waiters s.registry)
    (fun _ _ _ hwaiter => (nomatch hwaiter)) fun hI hG he => exec_awaited hI hG he

/-! ## After the body was filed -/

namespace WaiterPhase

/-- How many times the waiter may still run. -/
def remaining : WaiterPhase β → ℕ
  | looking => 4
  | joining => 3
  | sleeping _ => 2
  | timedOut _ => 1
  | woken => 1
  | returned _ => 0

/-- The timeout has fired, or the call is over. -/
def isOver : WaiterPhase β → Bool
  | timedOut _ => true
  | returned _ => true
  | _ => false

end WaiterPhase

theorem run_remaining {w : Waiter β} {p : WaiterPhase β × DispatchAttemptRegistry β}
    (h : w.run r now = some p) : p.1.remaining < w.phase.remaining := by
  unfold Waiter.run at h
  split at h
  · next hphase =>
    rw [hphase]
    cases hentry : (r.getPrefillEntry w.engineRequestId now).1 <;> simp only [hentry] at h <;>
      cases h <;> simp [WaiterPhase.remaining]
  · next hphase =>
    rw [hphase]
    cases hfound : (r.joinWaiters w.engineRequestId now).1 <;> simp only [hfound] at h <;>
      cases h <;> simp [WaiterPhase.remaining]
  · next hphase =>
    rw [hphase]
    split at h
    · cases h
      simp [WaiterPhase.remaining]
    · cases h
  · next hphase =>
    rw [hphase]
    cases h
    simp [WaiterPhase.remaining]
  · next hphase =>
    rw [hphase]
    cases h
    simp [WaiterPhase.remaining]
  · cases h

/-- The waiter has returned the entry, or it can run and is nearer to the end then. -/
def Proceeds (r : DispatchAttemptRegistry β) (waiter : Waiter β)
    (entry : PrefillBodyCacheEntry β) : Prop :=
  waiter.phase = .returned (some entry) ∨
    waiter.phase.remaining ≠ 0 ∧
      ∀ now, ∃ p, waiter.run r now = some p ∧ p.1.remaining < waiter.phase.remaining

/-- The call of the waiter was over, or its timeout had fired. -/
def OverIn (s : DispatchSystem β) (w : WaiterId) : Prop :=
  ∃ waiter, s.waiters.get? w = some waiter ∧ waiter.phase.isOver = true

/-- Where a waiter may be that finds the entry. -/
def WillFind (r : DispatchAttemptRegistry β) (entry : PrefillBodyCacheEntry β) :
    WaiterPhase β → Prop
  | .sleeping event => event ∈ r.signalled
  | .timedOut _ => False
  | .returned result => result = some entry
  | _ => True

/-- The body is filed under `e`, and of the waiters those that are not `late` find it. -/
structure Found (e : String) (entry : PrefillBodyCacheEntry β) (late : WaiterId → Prop)
    (s : DispatchSystem β) : Prop where
  isFiled : s.registry.prefillEntries.get? e = some entry
  finds : ∀ w waiter, s.waiters.get? w = some waiter → waiter.engineRequestId = e → ¬late w →
    WillFind s.registry entry waiter.phase

/-- Nothing expires, nothing is stopped or finished, no other body is filed under `e`, and no timeout fires
for a waiter that is woken already. -/
def Undisturbed (e : String) (s : DispatchSystem β) (m : DispatchMove β) : Prop :=
  Unexpired s m ∧
    match m with
    | .stop _ _ => False
    | .finish _ _ => False
    | .cachePrefillBody d _ _ => d.engineRequestId ≠ e
    | .timeoutFires w => ∀ waiter event, s.waiters.get? w = some waiter →
        waiter.phase = .sleeping event → event ∉ s.registry.signalled
    | _ => True

variable {e : String} {entry : PrefillBodyCacheEntry β} {late : WaiterId → Prop}

theorem WillFind.mono {phase : WaiterPhase β} (h : WillFind r entry phase)
    (hmore : ∀ event ∈ r.signalled, event ∈ r'.signalled) : WillFind r' entry phase := by
  cases phase with
  | sleeping event => exact hmore event h
  | timedOut event => exact h
  | returned result => exact h
  | looking => trivial
  | joining => trivial
  | woken => trivial

theorem Found.set (h : Found e entry late s) (hentry : r'.prefillEntries.get? e = some entry)
    (hmore : ∀ event ∈ s.registry.signalled, event ∈ r'.signalled) (w : WaiterId)
    (waiter : Waiter β) (hwaiter : waiter.engineRequestId = e → ¬late w →
      WillFind r' entry waiter.phase) :
    Found e entry late ⟨r', s.waiters.insert w waiter⟩ := by
  refine ⟨hentry, fun w' waiter' hwaiter' hid hlate => ?_⟩
  change (s.waiters.insert w waiter).get? w' = some waiter' at hwaiter'
  rw [Dict.get?_insert] at hwaiter'
  split at hwaiter'
  · next heq =>
    subst heq
    cases hwaiter'
    exact hwaiter hid hlate
  · exact (h.finds w' waiter' hwaiter' hid hlate).mono hmore

theorem Found.congr (h : Found e entry late s) (hentry : r'.prefillEntries.get? e = some entry)
    (hmore : ∀ event ∈ s.registry.signalled, event ∈ r'.signalled) :
    Found e entry late { s with registry := r' } :=
  ⟨hentry, fun w waiter hwaiter hid hlate => (h.finds w waiter hwaiter hid hlate).mono hmore⟩

theorem signalled_popWaiter (r : DispatchAttemptRegistry β) (e : String) :
    ∀ event ∈ r.signalled, event ∈ (r.popWaiter e).signalled := by
  intro event hevent
  unfold popWaiter
  split
  · exact hevent
  · exact List.mem_cons_of_mem _ hevent

theorem found_run (h : Found e entry late s) {w : WaiterId} {t : ℚ}
    (hnow : s.registry.NothingExpires t) (hexec : s.exec (.waiterRuns w t) = some s') :
    Found e entry late s' := by
  obtain ⟨waiter, hwaiter, hexec⟩ := Option.bind_eq_some_iff.mp hexec
  obtain ⟨p, hrun, rfl⟩ := Option.map_eq_some_iff.mp hexec
  have hsame := sameAttempts_run hnow hrun
  have hentry : p.2.prefillEntries.get? e = some entry := by
    rw [hsame.prefillEntries]
    exact h.isFiled
  cases waiter_run_cases hnow hrun with
  | returns found hfound =>
    refine h.set hentry (fun _ hevent => hevent) w _ fun hid _ => ?_
    change waiter.engineRequestId = e at hid
    rw [hid, h.isFiled] at hfound
    exact hfound.symm
  | notFound => exact h.set hentry (fun _ hevent => hevent) w _ fun _ _ => trivial
  | sleeps hnone =>
    refine h.set hentry (fun event hevent => ?_) w _ fun hid _ => ?_
    · show event ∈ (s.registry.waiterEvent waiter.engineRequestId).2.signalled
      rw [(waiterEvent_spec _ _).2.2]
      exact hevent
    · change waiter.engineRequestId = e at hid
      rw [hid, h.isFiled] at hnone
      cases hnone
  | wakes => exact h.set hentry (fun _ hevent => hevent) w _ fun _ _ => trivial
  | givesUp event hphase =>
    refine h.set hentry (fun event' hevent => ?_) w _ fun hid hlate => ?_
    · unfold leaveWaiters
      split <;> exact hevent
    · have hfinds := h.finds w waiter hwaiter hid hlate
      rw [hphase] at hfinds
      exact hfinds.elim

theorem exec_found (h : Found e entry late s) (hG : Undisturbed e s m)
    (hexec : s.exec m = some s') : Found e entry late s' := by
  cases m with
  | activate d t =>
    cases hexec
    rw [activate_eq (hG.1 t rfl)]
    exact h.congr h.isFiled fun _ hevent => hevent
  | cachePrefillBody d body t =>
    cases hexec
    rw [cachePrefillBody_eq (hG.1 t rfl)]
    refine h.congr ?_ fun event hevent => ?_
    · rw [popWaiter_prefillEntries]
      exact (Dict.get?_insert_ne _ _ hG.2).trans h.isFiled
    · exact signalled_popWaiter _ _ event hevent
  | getPrefillEntry e' t =>
    cases hexec
    rw [getPrefillEntry_eq (hG.1 t rfl)]
    exact h
  | stop request t => exact hG.2.elim
  | isStopped d t =>
    cases hexec
    rw [isStopped_eq (hG.1 t rfl)]
    exact h
  | finish d t => exact hG.2.elim
  | startWait w e' =>
    simp only [DispatchSystem.exec] at hexec
    split at hexec
    · cases hexec
    · cases hexec
      exact h.set h.isFiled (fun _ hevent => hevent) w _ fun _ _ => trivial
  | waiterRuns w t => exact found_run h (hG.1 t rfl) hexec
  | timeoutFires w =>
    obtain ⟨waiter, hwaiter, hexec⟩ := Option.bind_eq_some_iff.mp hexec
    split at hexec
    · next event hphase =>
      cases hexec
      refine h.set h.isFiled (fun _ hevent => hevent) w _ fun hid hlate => ?_
      have hfinds := h.finds w waiter hwaiter hid hlate
      rw [hphase] at hfinds
      exact hG.2 waiter event hwaiter hphase hfinds
    · cases hexec

theorem proceeds_of_willFind {waiter : Waiter β} (h : WillFind r entry waiter.phase) :
    Proceeds r waiter entry := by
  unfold Proceeds
  have hruns : ∀ t, waiter.phase.remaining ≠ 0 → ∃ p, waiter.run r t = some p := by
    intro t hopen
    unfold Waiter.run
    cases hphase : waiter.phase with
    | looking => exact ⟨_, rfl⟩
    | joining => exact ⟨_, rfl⟩
    | sleeping event =>
      rw [hphase] at h
      exact ⟨_, if_pos h⟩
    | timedOut event => exact ⟨_, rfl⟩
    | woken => exact ⟨_, rfl⟩
    | returned result => exact absurd (by rw [hphase]; rfl) hopen
  by_cases hopen : waiter.phase.remaining = 0
  · left
    cases hphase : waiter.phase with
    | returned result =>
      rw [hphase] at h
      rw [show result = some entry from h]
    | looking => rw [hphase] at hopen; cases hopen
    | joining => rw [hphase] at hopen; cases hopen
    | sleeping event => rw [hphase] at hopen; cases hopen
    | timedOut event => rw [hphase] at hopen; cases hopen
    | woken => rw [hphase] at hopen; cases hopen
  · refine Or.inr ⟨hopen, fun t => ?_⟩
    obtain ⟨p, hp⟩ := hruns t hopen
    exact ⟨p, hp, run_remaining hp⟩

/-- The system after the body was filed. -/
def filed (s : DispatchSystem β) (d : MotorDispatch) (body : β) (t : ℚ) : DispatchSystem β :=
  { s with registry := s.registry.cachePrefillBody d body t }

/-- Everybody who waits for the body is asleep on the event of the table, or on one that is set. -/
def OnTable (s : DispatchSystem β) (e : String) : Prop :=
  ∀ w waiter event, s.waiters.get? w = some waiter → waiter.engineRequestId = e →
    waiter.phase = .sleeping event →
    s.registry.prefillWaiters.get? e = some event ∨ event ∈ s.registry.signalled

theorem OnTable.of_awaited (h : Awaited s.waiters s.registry) (e : String) : OnTable s e :=
  fun w waiter event hwaiter hid hphase => hid ▸ h w waiter event hwaiter hphase

theorem mem_signalled_filed (d : MotorDispatch) (body : β) {t : ℚ}
    (hnow : s.registry.NothingExpires t) (event : EventId) :
    event ∈ (filed s d body t).registry.signalled ↔
      s.registry.prefillWaiters.get? d.engineRequestId = some event ∨
        event ∈ s.registry.signalled := by
  unfold filed
  simp only
  rw [cachePrefillBody_eq hnow]
  unfold popWaiter
  simp only
  split
  · next hnone => simp [hnone]
  · next event' hevent =>
    simp only [List.mem_cons, hevent, Option.some.injEq]
    exact or_congr_left eq_comm

/-- **No wake-up is lost**: once the body is filed, everybody whose call was not over goes on by itself and
returns it, exactly if at that moment all that were asleep were on the event of the table. -/
theorem wakes_all_iff (s : DispatchSystem β) (d : MotorDispatch) (body : β) (t : ℚ)
    (hnow : s.registry.NothingExpires t) :
    (∀ ms s', Run DispatchSystem.exec (Undisturbed d.engineRequestId) (filed s d body t) ms s' →
      ∀ w waiter, s'.waiters.get? w = some waiter → waiter.engineRequestId = d.engineRequestId →
        ¬OverIn s w → Proceeds s'.registry waiter ⟨body, d, t⟩) ↔
    OnTable s d.engineRequestId := by
  constructor
  · intro h w waiter event hwaiter hid hphase
    have hopen : ¬OverIn s w := by
      rintro ⟨waiter', hwaiter', hover⟩
      rw [hwaiter] at hwaiter'
      cases hwaiter'
      rw [hphase] at hover
      cases hover
    rw [← mem_signalled_filed d body hnow]
    rcases h [] _ Run.nil w waiter hwaiter hid hopen with hreturned | ⟨-, hruns⟩
    · rw [hphase] at hreturned
      cases hreturned
    · -- it can only run if its event is set
      by_contra hunset
      have hasleep : waiter.run (filed s d body t).registry t = none := by
        unfold Waiter.run
        rw [hphase]
        exact if_neg hunset
      obtain ⟨p, hp, -⟩ := hruns t
      rw [hasleep] at hp
      cases hp
  · intro hon ms s' hrun w waiter hwaiter hid hopen
    have hstart : Found d.engineRequestId ⟨body, d, t⟩ (OverIn s) (filed s d body t) := by
      refine ⟨?_, fun w waiter hwaiter hid hopen => ?_⟩
      · unfold filed
        simp only
        rw [cachePrefillBody_eq hnow, popWaiter_prefillEntries]
        exact Dict.get?_insert_self _ _ _
      · change s.waiters.get? w = some waiter at hwaiter
        cases hphase : waiter.phase with
        | sleeping event =>
          exact (mem_signalled_filed d body hnow event).mpr (hon w waiter event hwaiter hid hphase)
        | timedOut event => exact hopen ⟨waiter, hwaiter, by rw [hphase]; rfl⟩
        | returned result => exact absurd ⟨waiter, hwaiter, by rw [hphase]; rfl⟩ hopen
        | looking => trivial
        | joining => trivial
        | woken => trivial
    have hend := hrun.invariant_state (I := Found d.engineRequestId ⟨body, d, t⟩ (OverIn s)) hstart
      fun hI hG he => exec_found hI hG he
    exact proceeds_of_willFind (hend.finds w waiter hwaiter hid hopen)

/-- Two requests wait for the body of the first attempt. -/
def twoAsleep : DispatchSystem String where
  registry := ((DispatchAttemptRegistry.new 300).waiterEvent "req#a1").2
  waiters := ((∅ : Dict WaiterId (Waiter String)).insert 0 ⟨"req#a1", .sleeping 0⟩).insert 1
    ⟨"req#a1", .sleeping 0⟩

/-- The second of the two is woken. -/
theorem twoAsleep_woken :
    Proceeds (filed twoAsleep firstAttempt "body" 2).registry ⟨"req#a1", .sleeping 0⟩
      ⟨"body", firstAttempt, 2⟩ := by
  have hnone : Awaited (∅ : Dict WaiterId (Waiter String)) twoAsleep.registry :=
    fun _ _ _ hwaiter => (nomatch hwaiter)
  have hasleep : ∀ event, (WaiterPhase.sleeping 0 : WaiterPhase String) = .sleeping event →
      twoAsleep.registry.prefillWaiters.get? "req#a1" = some event := by
    intro event hphase
    cases hphase
    decide +kernel
  have hon : OnTable twoAsleep "req#a1" :=
    .of_awaited ((hnone.insert 0 ⟨"req#a1", .sleeping 0⟩ hasleep).insert 1 _ hasleep) _
  refine (wakes_all_iff twoAsleep firstAttempt "body" 2 (by decide +kernel)).mpr hon [] _ Run.nil 1 _
    (Dict.get?_insert_self _ _ _) rfl ?_
  rintro ⟨waiter, hwaiter, hover⟩
  cases (Dict.get?_insert_self _ _ _).symm.trans hwaiter
  cases hover

/-- Two wait, the timeout of the first fires, and then the body is filed: the second sleeps on until its own
timeout fires, and returns nothing. -/
theorem firstTimeout_losesWakeUp :
    ∃ s s' : DispatchSystem String,
      Run DispatchSystem.exec Unexpired (.new 300) [.startWait 0 "req#a1", .startWait 1 "req#a1",
        .waiterRuns 0 0, .waiterRuns 0 0, .waiterRuns 1 0, .waiterRuns 1 0, .timeoutFires 0,
        .waiterRuns 0 1] s ∧
      Run DispatchSystem.exec Unexpired s [.cachePrefillBody firstAttempt "body" 2, .timeoutFires 1,
        .waiterRuns 1 3] s' ∧
      s.waiters.get? 1 = some ⟨"req#a1", .sleeping 0⟩ ∧
      s'.waiters.get? 1 = some ⟨"req#a1", .returned none⟩ :=
  runList_runs (f := fun s : DispatchSystem String => s.waiters.get? 1)
    (g := fun s' : DispatchSystem String => s'.waiters.get? 1) (by decide +kernel) (by decide +kernel)

end PyMotor.EngineServer
