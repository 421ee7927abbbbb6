import PyMotor.EngineServer.DispatchRegistry

/-!
# A stop is final

Once an attempt is stopped, it should stay stopped, and its prefill body should not be handed out any more.
Two methods do not look at the state of the attempt: `activate` makes an attempt that was stopped active
again, and `cache_prefill_body` files its body. And a stop drops only the body that is filed under the
engine's request id of the last dispatch. In a run in which nothing of this happens, a stop is final
(`stop_is_final`).
-/

namespace PyMotor.EngineServer

variable {β : Type}

namespace DispatchAttemptRegistry

variable {r : DispatchAttemptRegistry β} {d : MotorDispatch} {key : AttemptKey} {now : ℚ}

/-! ## What the methods leave alone -/

@[simp] theorem popWaiter_states (e : String) : (r.popWaiter e).states = r.states := by
  unfold popWaiter
  split <;> rfl

@[simp] theorem popWaiter_dispatches (e : String) : (r.popWaiter e).dispatches = r.dispatches := by
  unfold popWaiter
  split <;> rfl

@[simp] theorem popWaiter_updatedAt (e : String) : (r.popWaiter e).updatedAt = r.updatedAt := by
  unfold popWaiter
  split <;> rfl

@[simp] theorem popWaiter_prefillEntries (e : String) :
    (r.popWaiter e).prefillEntries = r.prefillEntries := by
  unfold popWaiter
  split <;> rfl

/-- Only the table of the waiters and their events differ. -/
structure SameAttempts (r r' : DispatchAttemptRegistry β) : Prop where
  states : r'.states = r.states
  dispatches : r'.dispatches = r.dispatches
  updatedAt : r'.updatedAt = r.updatedAt
  prefillEntries : r'.prefillEntries = r.prefillEntries

theorem SameAttempts.refl (r : DispatchAttemptRegistry β) : SameAttempts r r := ⟨rfl, rfl, rfl, rfl⟩

theorem sameAttempts_waiterEvent (r : DispatchAttemptRegistry β) (e : String) :
    SameAttempts r (r.waiterEvent e).2 := by
  unfold waiterEvent
  split <;> exact ⟨rfl, rfl, rfl, rfl⟩

theorem sameAttempts_leaveWaiters (r : DispatchAttemptRegistry β) (e : String) (event : EventId) :
    SameAttempts r (r.leaveWaiters e event) := by
  unfold leaveWaiters
  split <;> exact ⟨rfl, rfl, rfl, rfl⟩

/-- One turn of a waiter: it reads the table of the bodies, goes to sleep, is woken, or gives up. -/
inductive WaiterTurn (r : DispatchAttemptRegistry β) (w : Waiter β) :
    WaiterPhase β × DispatchAttemptRegistry β → Prop
  | returns (found : Option (PrefillBodyCacheEntry β))
      (hfound : r.prefillEntries.get? w.engineRequestId = found) : WaiterTurn r w (.returned found, r)
  | notFound : WaiterTurn r w (.joining, r)
  | sleeps (hnone : r.prefillEntries.get? w.engineRequestId = none) :
      WaiterTurn r w (.sleeping (r.waiterEvent w.engineRequestId).1, (r.waiterEvent w.engineRequestId).2)
  | wakes : WaiterTurn r w (.woken, r)
  | givesUp (event : EventId) (hphase : w.phase = .timedOut event) :
      WaiterTurn r w (.returned none, r.leaveWaiters w.engineRequestId event)

/-! ## The methods, as long as nothing expires -/

variable (h : r.NothingExpires now)

include h

theorem activate_eq (d : MotorDispatch) :
    r.activate d now = (r.setState d.key .active now).setDispatch d := by
  rw [activate, cleanupLocked_eq h]

theorem cachePrefillBody_eq (d : MotorDispatch) (body : β) :
    r.cachePrefillBody d body now = { r with
      prefillEntries := r.prefillEntries.insert d.engineRequestId ⟨body, d, now⟩ }.popWaiter
        d.engineRequestId := by
  rw [cachePrefillBody, cleanupLocked_eq h]

theorem getPrefillEntry_eq (e : String) : r.getPrefillEntry e now = (r.prefillEntries.get? e, r) := by
  unfold getPrefillEntry
  rw [cleanupLocked_eq h]
  cases hentry : r.prefillEntries.get? e with
  | none => simp only [hentry]
  | some entry => simp only [hentry, if_neg (h.fresh hentry)]

theorem joinWaiters_eq (e : String) :
    r.joinWaiters e now = match r.prefillEntries.get? e with
      | none => (.inr (r.waiterEvent e).1, (r.waiterEvent e).2)
      | some entry => (.inl entry, r) := by
  unfold joinWaiters
  rw [cleanupLocked_eq h]
  cases hentry : r.prefillEntries.get? e with
  | none => simp only [hentry]
  | some entry => simp only [hentry, if_pos (not_lt.mp (h.fresh hentry))]

theorem isStopped_eq (d : MotorDispatch) :
    r.isStopped d now = (decide (r.states.get? d.key = some .stopped), r) := by
  rw [isStopped, cleanupLocked_eq h]

theorem finish_eq (d : MotorDispatch) :
    r.finish d now =
      if r.states.get? d.key = some .stopped then r.popEntry d.engineRequestId
      else ((r.popEntry d.engineRequestId).setState d.key .done now).setDispatch d := by
  rw [finish, cleanupLocked_eq h]
  rfl

theorem stop_eq {request : DispatchStopRequest} {current : AttemptState}
    (hstate : r.states.get? request.key = some current)
    (hdispatch : r.dispatches.get? request.key = some d) :
    r.stop request now =
      if d.matchesStopRequest request then
        let popped := (r.popEntry d.engineRequestId).popWaiter d.engineRequestId
        match current with
        | .stopped => (.alreadyStopped, popped)
        | .done => (.alreadyDone, popped)
        | .active => (.stopped, popped.setState request.key .stopped now)
      else (.stale, r) := by
  unfold stop
  rw [cleanupLocked_eq h]
  simp only [hstate, hdispatch, Option.any_some]
  cases d.matchesStopRequest request <;> rfl

theorem stop_notFound {request : DispatchStopRequest} (hstate : r.states.get? request.key = none) :
    r.stop request now = (.notFound, r) := by
  unfold stop
  rw [cleanupLocked_eq h]
  simp only [hstate]

theorem waiter_run_cases {w : Waiter β} {p : WaiterPhase β × DispatchAttemptRegistry β}
    (hrun : w.run r now = some p) : WaiterTurn r w p := by
  unfold Waiter.run at hrun
  split at hrun
  · rw [getPrefillEntry_eq h] at hrun
    cases hentry : r.prefillEntries.get? w.engineRequestId with
    | none =>
      rw [hentry] at hrun
      cases hrun
      exact .notFound
    | some entry =>
      rw [hentry] at hrun
      cases hrun
      exact .returns _ hentry
  · rw [joinWaiters_eq h] at hrun
    cases hentry : r.prefillEntries.get? w.engineRequestId with
    | none =>
      rw [hentry] at hrun
      cases hrun
      exact .sleeps hentry
    | some entry =>
      rw [hentry] at hrun
      cases hrun
      exact .returns _ hentry
  · split at hrun
    · cases hrun
      exact .wakes
    · cases hrun
  · next event hphase =>
    cases hrun
    exact .givesUp event hphase
  · rw [getPrefillEntry_eq h] at hrun
    cases hrun
    exact .returns _ rfl
  · cases hrun

theorem sameAttempts_run {w : Waiter β} {p : WaiterPhase β × DispatchAttemptRegistry β}
    (hrun : w.run r now = some p) : SameAttempts r p.2 := by
  cases waiter_run_cases h hrun with
  | returns found hfound => exact .refl r
  | notFound => exact .refl r
  | sleeps hnone => exact sameAttempts_waiterEvent r _
  | wakes => exact .refl r
  | givesUp event hphase => exact sameAttempts_leaveWaiters r _ _

end DispatchAttemptRegistry

/-! ## What is filed -/

open DispatchAttemptRegistry

/-- Dispatches and bodies are under their own keys, and an attempt with a state has a dispatch. -/
structure Filed (r : DispatchAttemptRegistry β) : Prop where
  known : ∀ key state, r.states.get? key = some state → ∃ d, r.dispatches.get? key = some d
  dispatch_key : ∀ key d, r.dispatches.get? key = some d → d.key = key
  entry_id : ∀ e entry, r.prefillEntries.get? e = some entry → entry.dispatch.engineRequestId = e

variable {r r' : DispatchAttemptRegistry β} {d : MotorDispatch} {now : ℚ}

theorem filed_new (ttlSeconds : ℚ) : Filed (new ttlSeconds : DispatchAttemptRegistry β) :=
  ⟨fun _ _ h => (nomatch h), fun _ _ h => (nomatch h), fun _ _ h => (nomatch h)⟩

theorem Filed.congr (h : Filed r) (hsame : SameAttempts r r') : Filed r' := by
  refine ⟨fun key state => ?_, fun key d => ?_, fun e entry => ?_⟩
  · rw [hsame.states, hsame.dispatches]
    exact h.known key state
  · rw [hsame.dispatches]
    exact h.dispatch_key key d
  · rw [hsame.prefillEntries]
    exact h.entry_id e entry

theorem Filed.file (h : Filed r) (d : MotorDispatch) (state : AttemptState) :
    Filed ((r.setState d.key state now).setDispatch d) := by
  refine ⟨fun key state' hstate => ?_, fun key d' hdispatch => ?_, h.entry_id⟩
  · show ∃ d', (r.dispatches.insert d.key d).get? key = some d'
    change (r.states.insert d.key state).get? key = some state' at hstate
    rw [Dict.get?_insert] at hstate ⊢
    split at hstate
    · next hkey => exact ⟨d, if_pos hkey⟩
    · next hkey =>
      rw [if_neg hkey]
      exact h.known key state' hstate
  · change (r.dispatches.insert d.key d).get? key = some d' at hdispatch
    rw [Dict.get?_insert] at hdispatch
    split at hdispatch
    · next hkey =>
      cases hdispatch
      exact hkey
    · exact h.dispatch_key key d' hdispatch

theorem Filed.popEntry (h : Filed r) (e : String) : Filed (r.popEntry e) := by
  refine ⟨h.known, h.dispatch_key, fun e' entry hentry => ?_⟩
  change (r.prefillEntries.erase e).get? e' = some entry at hentry
  exact h.entry_id e' entry (Dict.get?_of_erase hentry)

theorem Filed.popWaiter (h : Filed r) (e : String) : Filed (r.popWaiter e) :=
  h.congr ⟨by simp, by simp, by simp, by simp⟩

theorem Filed.setState (h : Filed r) {key : AttemptKey} {state : AttemptState}
    (hdispatch : r.dispatches.get? key = some d) : Filed (r.setState key state now) := by
  refine ⟨fun key' state' hstate => ?_, h.dispatch_key, h.entry_id⟩
  change (r.states.insert key state).get? key' = some state' at hstate
  rw [Dict.get?_insert] at hstate
  split at hstate
  · next hkey => exact ⟨d, hkey ▸ hdispatch⟩
  · exact h.known key' state' hstate

theorem Filed.cachePrefillBody (h : Filed r) (hnow : r.NothingExpires now) (d : MotorDispatch)
    (body : β) : Filed (r.cachePrefillBody d body now) := by
  rw [cachePrefillBody_eq hnow]
  apply Filed.popWaiter
  refine ⟨h.known, h.dispatch_key, fun e entry hentry => ?_⟩
  change (r.prefillEntries.insert d.engineRequestId ⟨body, d, now⟩).get? e = some entry at hentry
  rw [Dict.get?_insert] at hentry
  split at hentry
  · next heq =>
    cases hentry
    exact heq
  · exact h.entry_id e entry hentry

theorem Filed.stop (h : Filed r) (hnow : r.NothingExpires now) (request : DispatchStopRequest) :
    Filed (r.stop request now).2 := by
  cases hstate : r.states.get? request.key with
  | none =>
    rw [stop_notFound hnow hstate]
    exact h
  | some current =>
    obtain ⟨d, hdispatch⟩ := h.known _ _ hstate
    have hpopped := (h.popEntry d.engineRequestId).popWaiter d.engineRequestId
    rw [stop_eq hnow hstate hdispatch]
    split
    · cases current with
      | active =>
        refine hpopped.setState (d := d) ?_
        rw [popWaiter_dispatches]
        exact hdispatch
      | stopped => exact hpopped
      | done => exact hpopped
    · exact h

theorem Filed.finish (h : Filed r) (hnow : r.NothingExpires now) (d : MotorDispatch) :
    Filed (r.finish d now) := by
  rw [finish_eq hnow]
  split
  · exact h.popEntry _
  · exact (h.popEntry _).file d .done

/-! ## A stopped attempt -/

/-- The attempt is stopped, and none of its bodies is filed. -/
structure Final (key : AttemptKey) (d : MotorDispatch) (r : DispatchAttemptRegistry β) : Prop where
  state : r.states.get? key = some .stopped
  dispatch : r.dispatches.get? key = some d
  noBody : ∀ e entry, r.prefillEntries.get? e = some entry → entry.dispatch.key ≠ key

variable {key : AttemptKey}

theorem Final.congr (h : Final key d r) (hsame : SameAttempts r r') : Final key d r' := by
  refine ⟨?_, ?_, fun e entry => ?_⟩
  · rw [hsame.states]
    exact h.state
  · rw [hsame.dispatches]
    exact h.dispatch
  · rw [hsame.prefillEntries]
    exact h.noBody e entry

theorem Final.popEntry (h : Final key d r) (e : String) : Final key d (r.popEntry e) := by
  refine ⟨h.state, h.dispatch, fun e' entry hentry => ?_⟩
  change (r.prefillEntries.erase e).get? e' = some entry at hentry
  exact h.noBody e' entry (Dict.get?_of_erase hentry)

theorem Final.popWaiter (h : Final key d r) (e : String) : Final key d (r.popWaiter e) :=
  h.congr ⟨by simp, by simp, by simp, by simp⟩

theorem Final.setState (h : Final key d r) {key' : AttemptKey} (hne : key' ≠ key)
    (state : AttemptState) : Final key d (r.setState key' state now) :=
  ⟨(r.states.get?_insert_ne state hne).trans h.state, h.dispatch, h.noBody⟩

theorem Final.file (h : Final key d r) {d' : MotorDispatch} (hne : d'.key ≠ key)
    (state : AttemptState) : Final key d ((r.setState d'.key state now).setDispatch d') :=
  ⟨(r.states.get?_insert_ne state hne).trans h.state,
    (r.dispatches.get?_insert_ne d' hne).trans h.dispatch, h.noBody⟩

theorem Final.cachePrefillBody (h : Final key d r) (hnow : r.NothingExpires now) {d' : MotorDispatch}
    (hne : d'.key ≠ key) (body : β) : Final key d (r.cachePrefillBody d' body now) := by
  rw [cachePrefillBody_eq hnow]
  apply Final.popWaiter
  refine ⟨h.state, h.dispatch, fun e entry hentry => ?_⟩
  change (r.prefillEntries.insert d'.engineRequestId ⟨body, d', now⟩).get? e = some entry at hentry
  rw [Dict.get?_insert] at hentry
  split at hentry
  · cases hentry
    exact hne
  · exact h.noBody e entry hentry

theorem Final.stop (h : Final key d r) (hfiled : Filed r) (hnow : r.NothingExpires now)
    (request : DispatchStopRequest) : Final key d (r.stop request now).2 := by
  cases hstate : r.states.get? request.key with
  | none =>
    rw [stop_notFound hnow hstate]
    exact h
  | some current =>
    obtain ⟨d', hdispatch⟩ := hfiled.known _ _ hstate
    have hpopped := (h.popEntry d'.engineRequestId).popWaiter d'.engineRequestId
    rw [stop_eq hnow hstate hdispatch]
    split
    · cases current with
      | active =>
        refine hpopped.setState (fun heq => ?_) _
        rw [heq, h.state] at hstate
        cases hstate
      | stopped => exact hpopped
      | done => exact hpopped
    · exact h

theorem Final.finish (h : Final key d r) (hnow : r.NothingExpires now) (d' : MotorDispatch) :
    Final key d (r.finish d' now) := by
  rw [finish_eq hnow]
  split
  · exact h.popEntry _
  · next hopen => exact (h.popEntry _).file (fun heq => hopen (heq ▸ h.state)) .done

/-! ## Runs -/

/-- Every body of the attempt is filed under the id of its last dispatch. -/
def BodiesTogether (r : DispatchAttemptRegistry β) (key : AttemptKey) : Prop :=
  ∀ d e entry, r.dispatches.get? key = some d → r.prefillEntries.get? e = some entry →
    entry.dispatch.key = key → e = d.engineRequestId

/-- Nothing expires. -/
def Unexpired (s : DispatchSystem β) (m : DispatchMove β) : Prop :=
  ∀ now ∈ m.time, s.registry.NothingExpires now

instance (s : DispatchSystem β) (m : DispatchMove β) : Decidable (Unexpired s m) :=
  inferInstanceAs (Decidable (∀ now ∈ m.time, s.registry.NothingExpires now))

/-- Nothing expires, no attempt that is stopped is activated or has a body filed, and none becomes stopped
whose bodies are in several places. -/
def RespectsStops (s : DispatchSystem β) (m : DispatchMove β) : Prop :=
  Unexpired s m ∧
    match m with
    | .activate d _ => s.registry.states.get? d.key ≠ some .stopped
    | .cachePrefillBody d _ _ => s.registry.states.get? d.key ≠ some .stopped
    | .stop request now =>
      (s.registry.stop request now).1 = .stopped → BodiesTogether s.registry request.key
    | _ => True

variable {s s' : DispatchSystem β} {m : DispatchMove β}

/-- The move asks about an attempt, or is one of a waiter. -/
def OnlyAsks : DispatchMove β → Prop
  | .activate _ _ | .cachePrefillBody _ _ _ | .stop _ _ | .finish _ _ => False
  | _ => True

theorem sameAttempts_exec (hnow : Unexpired s m) (hexec : s.exec m = some s') (hasks : OnlyAsks m) :
    SameAttempts s.registry s'.registry := by
  cases m with
  | getPrefillEntry e now =>
    cases hexec
    show SameAttempts s.registry (s.registry.getPrefillEntry e now).2
    rw [getPrefillEntry_eq (hnow now rfl)]
    exact .refl _
  | isStopped d now =>
    cases hexec
    show SameAttempts s.registry (s.registry.isStopped d now).2
    rw [isStopped_eq (hnow now rfl)]
    exact .refl _
  | startWait w e =>
    simp only [DispatchSystem.exec] at hexec
    split at hexec
    · cases hexec
    · cases hexec
      exact .refl _
  | waiterRuns w now =>
    obtain ⟨waiter, -, hexec⟩ := Option.bind_eq_some_iff.mp hexec
    obtain ⟨p, hrun, rfl⟩ := Option.map_eq_some_iff.mp hexec
    exact sameAttempts_run (hnow now rfl) hrun
  | timeoutFires w =>
    obtain ⟨waiter, -, hexec⟩ := Option.bind_eq_some_iff.mp hexec
    split at hexec
    · cases hexec
      exact .refl _
    · cases hexec
  | _ => exact hasks.elim

theorem exec_filed (h : Filed s.registry) (hG : RespectsStops s m)
    (hexec : s.exec m = some s') : Filed s'.registry := by
  cases m with
  | activate d now =>
    cases hexec
    show Filed (s.registry.activate d now)
    rw [activate_eq (hG.1 now rfl)]
    exact h.file d .active
  | cachePrefillBody d body now =>
    cases hexec
    exact h.cachePrefillBody (hG.1 now rfl) d body
  | stop request now =>
    cases hexec
    exact h.stop (hG.1 now rfl) request
  | finish d now =>
    cases hexec
    exact h.finish (hG.1 now rfl) d
  | _ => exact h.congr (sameAttempts_exec hG.1 hexec trivial)

theorem exec_final (h : Final key d s.registry) (hfiled : Filed s.registry) (hG : RespectsStops s m)
    (hexec : s.exec m = some s') : Final key d s'.registry := by
  cases m with
  | activate d' now =>
    cases hexec
    have hne : d'.key ≠ key := fun heq => hG.2 (heq ▸ h.state)
    show Final key d (s.registry.activate d' now)
    rw [activate_eq (hG.1 now rfl)]
    exact h.file hne .active
  | cachePrefillBody d' body now =>
    cases hexec
    have hne : d'.key ≠ key := fun heq => hG.2 (heq ▸ h.state)
    exact h.cachePrefillBody (hG.1 now rfl) hne body
  | stop request now =>
    cases hexec
    exact h.stop hfiled (hG.1 now rfl) request
  | finish d' now =>
    cases hexec
    exact h.finish (hG.1 now rfl) d'
  | _ => exact h.congr (sameAttempts_exec hG.1 hexec trivial)

theorem final_of_stopped {request : DispatchStopRequest} (hfiled : Filed r)
    (hnow : r.NothingExpires now) (htogether : BodiesTogether r request.key)
    (hstopped : (r.stop request now).1 = .stopped) :
    ∃ d, r.dispatches.get? request.key = some d ∧ d.matchesStopRequest request = true ∧
      Final request.key d (r.stop request now).2 := by
  cases hstate : r.states.get? request.key with
  | none =>
    rw [stop_notFound hnow hstate] at hstopped
    cases hstopped
  | some current =>
    obtain ⟨d, hdispatch⟩ := hfiled.known _ _ hstate
    rw [stop_eq hnow hstate hdispatch] at hstopped ⊢
    split at hstopped
    · next hmatches =>
      rw [if_pos hmatches]
      cases current with
      | active =>
        refine ⟨d, hdispatch, hmatches, Dict.get?_insert_self _ _ _, ?_, ?_⟩
        · exact (congrArg (Dict.get? · request.key) (popWaiter_dispatches _)).trans hdispatch
        · intro e entry hentry hkey
          have hkept : (r.prefillEntries.erase d.engineRequestId).get? e = some entry :=
            (congrArg (Dict.get? · e) (popWaiter_prefillEntries _)).symm.trans hentry
          rw [Dict.get?_erase] at hkept
          split at hkept
          · cases hkept
          · next hne => exact hne (htogether d e entry hdispatch hkept hkey).symm
      | stopped => cases hstopped
      | done => cases hstopped
    · cases hstopped

/-! ## Other attempts -/

/-- The move works on the attempt, or on the engine's request id. -/
def Concerns (r : DispatchAttemptRegistry β) (key : AttemptKey) (e : String) : DispatchMove β → Prop
  | .activate d _ => d.key = key ∨ d.engineRequestId = e
  | .cachePrefillBody d _ _ => d.key = key ∨ d.engineRequestId = e
  | .finish d _ => d.key = key ∨ d.engineRequestId = e
  | .stop request _ => request.key = key ∨
      ∃ d, r.dispatches.get? request.key = some d ∧ d.engineRequestId = e
  | _ => False

/-- What is known of an attempt and of the id its body is filed under. -/
structure SameAttempt (key : AttemptKey) (e : String) (r r' : DispatchAttemptRegistry β) : Prop where
  state : r'.states.get? key = r.states.get? key
  dispatch : r'.dispatches.get? key = r.dispatches.get? key
  updatedAt : r'.updatedAt.get? key = r.updatedAt.get? key
  entry : r'.prefillEntries.get? e = r.prefillEntries.get? e

theorem DispatchAttemptRegistry.SameAttempts.sameAttempt (h : SameAttempts r r') (key : AttemptKey) (e : String) :
    SameAttempt key e r r' :=
  ⟨by rw [h.states], by rw [h.dispatches], by rw [h.updatedAt], by rw [h.prefillEntries]⟩

theorem exec_sameAttempt (hfiled : Filed s.registry) {e : String}
    (hnow : Unexpired s m)
    (hother : ¬Concerns s.registry key e m) (hexec : s.exec m = some s') :
    SameAttempt key e s.registry s'.registry := by
  cases m with
  | activate d now =>
    cases hexec
    obtain ⟨hkey, -⟩ := not_or.mp hother
    show SameAttempt key e s.registry (s.registry.activate d now)
    rw [activate_eq (hnow now rfl)]
    exact ⟨Dict.get?_insert_ne _ _ hkey, Dict.get?_insert_ne _ _ hkey,
      Dict.get?_insert_ne _ _ hkey, rfl⟩
  | cachePrefillBody d body now =>
    cases hexec
    obtain ⟨-, hid⟩ := not_or.mp hother
    show SameAttempt key e s.registry (s.registry.cachePrefillBody d body now)
    rw [cachePrefillBody_eq (hnow now rfl)]
    exact ⟨by simp, by simp, by simp, by simp [Dict.get?_insert_ne _ _ hid]⟩
  | stop request now =>
    cases hexec
    obtain ⟨hkey, hid⟩ := not_or.mp hother
    show SameAttempt key e s.registry (s.registry.stop request now).2
    cases hstate : s.registry.states.get? request.key with
    | none =>
      rw [stop_notFound (hnow now rfl) hstate]
      exact ⟨rfl, rfl, rfl, rfl⟩
    | some current =>
      obtain ⟨d, hdispatch⟩ := hfiled.known _ _ hstate
      -- the attempt that is stopped runs under another engine request
      have hne : d.engineRequestId ≠ e := fun heq => hid ⟨d, hdispatch, heq⟩
      have hpopped : SameAttempt key e s.registry
          ((s.registry.popEntry d.engineRequestId).popWaiter d.engineRequestId) :=
        ⟨by simp [popEntry], by simp [popEntry], by simp [popEntry],
          by simp [popEntry, Dict.get?_erase_ne _ hne]⟩
      rw [stop_eq (hnow now rfl) hstate hdispatch]
      split
      · cases current with
        | active =>
          exact ⟨(Dict.get?_insert_ne _ _ hkey).trans hpopped.state, hpopped.dispatch,
            (Dict.get?_insert_ne _ _ hkey).trans hpopped.updatedAt, hpopped.entry⟩
        | stopped => exact hpopped
        | done => exact hpopped
      · exact ⟨rfl, rfl, rfl, rfl⟩
  | finish d now =>
    cases hexec
    obtain ⟨hkey, hid⟩ := not_or.mp hother
    show SameAttempt key e s.registry (s.registry.finish d now)
    rw [finish_eq (hnow now rfl)]
    split
    · exact ⟨rfl, rfl, rfl, Dict.get?_erase_ne _ hid⟩
    · exact ⟨Dict.get?_insert_ne _ _ hkey, Dict.get?_insert_ne _ _ hkey,
        Dict.get?_insert_ne _ _ hkey, Dict.get?_erase_ne _ hid⟩
  | _ => exact (sameAttempts_exec hnow hexec trivial).sameAttempt key e

/-! ## The result -/

/-- What a stop of the attempt of `d` should have brought about. -/
structure StaysStopped (d : MotorDispatch) (s : DispatchSystem β) (now : ℚ) : Prop where
  isStopped : ∀ d', d'.key = d.key → (s.registry.isStopped d' now).1 = true
  stop : ∀ request, request.key = d.key → d.matchesStopRequest request = true →
    (s.registry.stop request now).1 = .alreadyStopped
  notHandedOut : ∀ e entry, (s.registry.getPrefillEntry e now).1 = some entry →
    entry.dispatch.key ≠ d.key
  notReturned : ∀ w waiter entry r, s.waiters.get? w = some waiter →
    waiter.run s.registry now = some (.returned (some entry), r) → entry.dispatch.key ≠ d.key
  keptByOthers : ∀ m s', Unexpired s m → ¬Concerns s.registry d.key d.engineRequestId m →
    s.exec m = some s' → SameAttempt d.key d.engineRequestId s.registry s'.registry

theorem staysStopped (hfinal : Final d.key d s.registry) (hfiled : Filed s.registry)
    (hnow : s.registry.NothingExpires now) : StaysStopped d s now where
  isStopped := by
    intro d' hkey
    rw [isStopped_eq hnow, hkey, hfinal.state]
    rfl
  stop := by
    intro request hkey hmatches
    rw [stop_eq hnow (hkey ▸ hfinal.state) (hkey ▸ hfinal.dispatch), if_pos hmatches]
  notHandedOut := by
    intro e entry hentry
    rw [getPrefillEntry_eq hnow] at hentry
    exact hfinal.noBody e entry hentry
  notReturned := by
    intro w waiter entry r _ hrun
    have hfiledEntry : s.registry.prefillEntries.get? waiter.engineRequestId = some entry := by
      cases waiter_run_cases hnow hrun with
      | returns found hfound => exact hfound
    exact hfinal.noBody _ entry hfiledEntry
  keptByOthers := fun _ _ hunexpired hother hexec =>
    exec_sameAttempt hfiled hunexpired hother hexec

/-- **A stop is final**, in every run in which no attempt that is stopped is activated or has a body filed
and the bodies of an attempt are together when it is stopped. -/
theorem stop_is_final {ttlSeconds : ℚ} {before after : List (DispatchMove β)} {s s' : DispatchSystem β}
    {request : DispatchStopRequest} {t : ℚ}
    (hbefore : Run DispatchSystem.exec RespectsStops (.new ttlSeconds) before s)
    (hstop : RespectsStops s (.stop request t)) (hstopped : (s.registry.stop request t).1 = .stopped)
    (hafter : Run DispatchSystem.exec RespectsStops
      { s with registry := (s.registry.stop request t).2 } after s') :
    ∃ d, d.key = request.key ∧ s.registry.dispatches.get? request.key = some d ∧
      d.matchesStopRequest request = true ∧
      ∀ now, s'.registry.NothingExpires now → StaysStopped d s' now := by
  have hfiled : Filed s.registry :=
    hbefore.invariant_state (I := fun s => Filed s.registry) (filed_new ttlSeconds)
      fun hI hG he => exec_filed hI hG he
  obtain ⟨d, hdispatch, hmatches, hfinal⟩ :=
    final_of_stopped hfiled (hstop.1 t rfl) (hstop.2 hstopped) hstopped
  have hkey := hfiled.dispatch_key _ _ hdispatch
  rw [← hkey] at hfinal
  have hend : Filed s'.registry ∧ Final d.key d s'.registry :=
    hafter.invariant_state (I := fun s => Filed s.registry ∧ Final d.key d s.registry)
      ⟨hfiled.stop (hstop.1 t rfl) request, hfinal⟩
      fun hI hG he => ⟨exec_filed hI.1 hG he, exec_final hI.2 hI.1 hG he⟩
  exact ⟨d, hkey, hdispatch, hmatches, fun now hnow => staysStopped hend.2 hend.1 hnow⟩

/-- The first attempt of a request. -/
def firstAttempt : MotorDispatch := ⟨"req", "req#a1", "pair", 1⟩

def stopFirstAttempt : DispatchStopRequest := ⟨"req", none, 1, "pair"⟩

/-- The first attempt was activated, and its body is filed. -/
def oneFiled : DispatchSystem String :=
  ⟨((DispatchAttemptRegistry.new 300).activate firstAttempt 0).cachePrefillBody firstAttempt "body" 1, ∅⟩

/-- An attempt with a body is stopped, and stopped again after others have asked. -/
theorem stoppedTwice_final : ∃ s s' : DispatchSystem String,
    Run DispatchSystem.exec RespectsStops (.new 300)
      [.activate firstAttempt 0, .cachePrefillBody firstAttempt "body" 1] s ∧
    Run DispatchSystem.exec RespectsStops { s with registry := (s.registry.stop stopFirstAttempt 2).2 }
      [.isStopped firstAttempt 3, .getPrefillEntry "req#a1" 4] s' ∧
    (s.registry.getPrefillEntry "req#a1" 2).1.isSome ∧
    (s'.registry.stop stopFirstAttempt 5).1 = .alreadyStopped ∧
    ∀ e entry, (s'.registry.getPrefillEntry e 5).1 = some entry → entry.dispatch.key ≠ firstAttempt.key := by
  have hbefore : Run DispatchSystem.exec RespectsStops (.new 300)
      [.activate firstAttempt 0, .cachePrefillBody firstAttempt "body" 1] oneFiled :=
    (Run.nil.snoc ⟨by decide +kernel, by decide⟩ rfl).snoc ⟨by decide +kernel, by decide +kernel⟩ rfl
  have hstop : RespectsStops oneFiled (.stop stopFirstAttempt 2) := by
    refine ⟨by decide +kernel, fun _ d e entry hdispatch hentry hkey => ?_⟩
    have hfiled : oneFiled.registry.dispatches.get? stopFirstAttempt.key = some firstAttempt := by
      decide +kernel
    have hentries : oneFiled.registry.prefillEntries.entries =
        [("req#a1", ⟨"body", firstAttempt, 1⟩)] := by decide +kernel
    cases hfiled.symm.trans hdispatch
    rw [← Dict.mem_entries_iff, hentries, List.mem_singleton] at hentry
    exact congrArg Prod.fst hentry
  have hafter : Run DispatchSystem.exec RespectsStops
      { oneFiled with registry := (oneFiled.registry.stop stopFirstAttempt 2).2 }
      [.isStopped firstAttempt 3, .getPrefillEntry "req#a1" 4] _ :=
    (Run.nil.snoc ⟨by decide +kernel, trivial⟩ rfl).snoc ⟨by decide +kernel, trivial⟩ rfl
  obtain ⟨d, -, hdispatch, -, hstays⟩ := stop_is_final hbefore hstop (by decide +kernel) hafter
  have hfirst : d = firstAttempt := by
    have hfiled : oneFiled.registry.dispatches.get? stopFirstAttempt.key = some firstAttempt := by
      decide +kernel
    exact (Option.some.inj (hfiled.symm.trans hdispatch)).symm
  subst hfirst
  have hlast := hstays 5 (by decide +kernel)
  exact ⟨_, _, hbefore, hafter, by decide +kernel, hlast.stop stopFirstAttempt rfl (by decide),
    hlast.notHandedOut⟩

/-- A body that is filed after the stop is handed out, and an attempt that is activated again is not stopped
any more. -/
theorem lateBody_handedOut_activatedAgain_notStopped :
    (∃ s s' : DispatchSystem String,
      Run DispatchSystem.exec Unexpired (.new 300) [.activate firstAttempt 0] s ∧
      Run DispatchSystem.exec Unexpired s
        [.stop stopFirstAttempt 1, .cachePrefillBody firstAttempt "body" 2] s' ∧
      (s.registry.stop stopFirstAttempt 1).1 = .stopped ∧
      (s'.registry.getPrefillEntry "req#a1" 3).1 = some ⟨"body", firstAttempt, 2⟩) ∧
    ∃ s s' : DispatchSystem String,
      Run DispatchSystem.exec Unexpired (.new 300) [.activate firstAttempt 0] s ∧
      Run DispatchSystem.exec Unexpired s [.stop stopFirstAttempt 1, .activate firstAttempt 2] s' ∧
      (s.registry.stop stopFirstAttempt 1).1 = .stopped ∧
      (s'.registry.isStopped firstAttempt 3).1 = false :=
  ⟨runList_runs (f := fun s : DispatchSystem String => (s.registry.stop stopFirstAttempt 1).1)
      (g := fun s' : DispatchSystem String => (s'.registry.getPrefillEntry "req#a1" 3).1)
      (by decide +kernel) (by decide +kernel),
    runList_runs (f := fun s : DispatchSystem String => (s.registry.stop stopFirstAttempt 1).1)
      (g := fun s' : DispatchSystem String => (s'.registry.isStopped firstAttempt 3).1)
      (by decide +kernel) (by decide +kernel)⟩

end PyMotor.EngineServer
