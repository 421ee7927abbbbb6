import Mathlib.Algebra.Order.Ring.Rat
import PyMotor.Lib.Dict
import PyMotor.Lib.Run

/-!
# The attempts of an engine

An engine server keeps the state of the dispatch attempts it works on
(`engine_server/core/dispatch_adapter/base.py`, `DispatchAttemptRegistry`), so that a peer can stop them.
States and dispatches are filed under the attempt, the bodies that the prefill leg leaves for the
metaserver request under the engine's request id. A metaserver request that finds no body waits for one:
all that wait for the same id share an `asyncio.Event`, through a table.

Every method works under one lock and awaits nothing meanwhile, except `wait_prefill_entry`. That one is a
`Waiter`, which takes the lock up to three times and sleeps in between. A `Move` is what happens from one
release of the lock to the next.

From Python 3.12 on, `asyncio.wait_for` may raise `TimeoutError` for a task that its event has already
woken but that has not run since. So a timeout may fire as long as the waiter has not run.
-/

namespace PyMotor.EngineServer

/-- `(root_request_id, attempt_seq)` -/
abbrev AttemptKey := String × ℕ

structure MotorDispatch where
  rootRequestId : String
  engineRequestId : String
  pairId : String
  attemptSeq : ℕ
  deriving DecidableEq, Repr

def MotorDispatch.key (d : MotorDispatch) : AttemptKey := (d.rootRequestId, d.attemptSeq)

structure DispatchStopRequest where
  rootRequestId : String
  engineRequestId : Option String
  attemptSeq : ℕ
  pairId : String
  deriving DecidableEq, Repr

def DispatchStopRequest.key (r : DispatchStopRequest) : AttemptKey := (r.rootRequestId, r.attemptSeq)

inductive DispatchStopState where
  | stopped
  | alreadyStopped
  | alreadyDone
  | notFound
  | stale
  deriving DecidableEq, Repr

inductive AttemptState where
  | active
  | stopped
  | done
  deriving DecidableEq, Repr

/-- `_matches_stop_request` -/
def MotorDispatch.matchesStopRequest (d : MotorDispatch) (r : DispatchStopRequest) : Bool :=
  decide (d.pairId = r.pairId) &&
    (decide (r.engineRequestId = none) || decide (r.engineRequestId = some d.engineRequestId))

structure PrefillBodyCacheEntry (β : Type) where
  body : β
  dispatch : MotorDispatch
  cachedAt : ℚ
  deriving DecidableEq

/-- An `asyncio.Event`, by the order of creation. -/
abbrev EventId := ℕ

structure DispatchAttemptRegistry (β : Type) where
  states : Dict AttemptKey AttemptState
  dispatches : Dict AttemptKey MotorDispatch
  updatedAt : Dict AttemptKey ℚ
  prefillEntries : Dict String (PrefillBodyCacheEntry β)
  prefillWaiters : Dict String EventId
  ttlSeconds : ℚ
  /-- How many events were created. -/
  created : ℕ
  /-- The events that are set. -/
  signalled : List EventId

namespace DispatchAttemptRegistry

variable {β : Type}

def new (ttlSeconds : ℚ) : DispatchAttemptRegistry β := ⟨∅, ∅, ∅, ∅, ∅, ttlSeconds, 0, []⟩

variable (r : DispatchAttemptRegistry β)

/-- Take the event out of the table and set it. -/
def popWaiter (engineRequestId : String) : DispatchAttemptRegistry β :=
  match r.prefillWaiters.get? engineRequestId with
  | none => r
  | some event =>
    { r with
      prefillWaiters := r.prefillWaiters.erase engineRequestId
      signalled := event :: r.signalled }

def popEntry (engineRequestId : String) : DispatchAttemptRegistry β :=
  { r with prefillEntries := r.prefillEntries.erase engineRequestId }

/-! ## What expires -/

def expiredKeys (now : ℚ) : List AttemptKey :=
  (r.updatedAt.entries.filter fun p =>
    decide (r.states.get? p.1 = some .done ∨ r.states.get? p.1 = some .stopped) &&
      decide (r.ttlSeconds < now - p.2)).map Prod.fst

def expiredPrefillKeys (now : ℚ) : List String :=
  (r.prefillEntries.entries.filter fun p => decide (r.ttlSeconds < now - p.2.cachedAt)).map Prod.fst

def expireKey (key : AttemptKey) : DispatchAttemptRegistry β :=
  let kept := { r with
    dispatches := r.dispatches.erase key
    states := r.states.erase key
    updatedAt := r.updatedAt.erase key }
  match r.dispatches.get? key with
  | none => kept
  | some d => (kept.popEntry d.engineRequestId).popWaiter d.engineRequestId

def cleanupLocked (now : ℚ) : DispatchAttemptRegistry β :=
  let r := (r.expiredKeys now).foldl expireKey r
  (r.expiredPrefillKeys now).foldl popEntry r

/-- Nothing is old enough to be cleaned up. -/
def NothingExpires (now : ℚ) : Prop := r.expiredKeys now = [] ∧ r.expiredPrefillKeys now = []

instance (now : ℚ) : Decidable (r.NothingExpires now) := inferInstanceAs (Decidable (_ ∧ _))

theorem cleanupLocked_eq {r : DispatchAttemptRegistry β} {now : ℚ} (h : r.NothingExpires now) :
    r.cleanupLocked now = r := by
  unfold cleanupLocked
  rw [h.1]
  show (r.expiredPrefillKeys now).foldl popEntry r = r
  rw [h.2]
  rfl

theorem NothingExpires.fresh {r : DispatchAttemptRegistry β} {now : ℚ} (h : r.NothingExpires now)
    {e : String} {entry : PrefillBodyCacheEntry β} (hentry : r.prefillEntries.get? e = some entry) :
    ¬r.ttlSeconds < now - entry.cachedAt := by
  intro hold
  have hmem : e ∈ r.expiredPrefillKeys now :=
    List.mem_map.mpr ⟨(e, entry), List.mem_filter.mpr
      ⟨Dict.mem_entries_iff.mpr hentry, decide_eq_true hold⟩, rfl⟩
  rw [h.2] at hmem
  cases hmem

/-! ## The methods -/

def setState (key : AttemptKey) (state : AttemptState) (now : ℚ) : DispatchAttemptRegistry β :=
  { r with states := r.states.insert key state, updatedAt := r.updatedAt.insert key now }

def setDispatch (d : MotorDispatch) : DispatchAttemptRegistry β :=
  { r with dispatches := r.dispatches.insert d.key d }

def activate (d : MotorDispatch) (now : ℚ) : DispatchAttemptRegistry β :=
  ((r.cleanupLocked now).setState d.key .active now).setDispatch d

def cachePrefillBody (d : MotorDispatch) (body : β) (now : ℚ) : DispatchAttemptRegistry β :=
  let r := r.cleanupLocked now
  { r with
    prefillEntries := r.prefillEntries.insert d.engineRequestId ⟨body, d, now⟩ }.popWaiter
      d.engineRequestId

def getPrefillEntry (engineRequestId : String) (now : ℚ) :
    Option (PrefillBodyCacheEntry β) × DispatchAttemptRegistry β :=
  let r := r.cleanupLocked now
  match r.prefillEntries.get? engineRequestId with
  | none => (none, r)
  | some entry =>
    if r.ttlSeconds < now - entry.cachedAt then (none, r.popEntry engineRequestId)
    else (some entry, r)

/-- The event that the requests for an id wait for, created when the first one asks for it. -/
def waiterEvent (engineRequestId : String) : EventId × DispatchAttemptRegistry β :=
  match r.prefillWaiters.get? engineRequestId with
  | some event => (event, r)
  | none => (r.created, { r with
      prefillWaiters := r.prefillWaiters.insert engineRequestId r.created
      created := r.created + 1 })

/-- The second section of `wait_prefill_entry`: an entry, or the event to wait for. -/
def joinWaiters (engineRequestId : String) (now : ℚ) :
    (PrefillBodyCacheEntry β ⊕ EventId) × DispatchAttemptRegistry β :=
  let r := r.cleanupLocked now
  match r.prefillEntries.get? engineRequestId with
  | none =>
    let waiting := r.waiterEvent engineRequestId
    (.inr waiting.1, waiting.2)
  | some entry =>
    if now - entry.cachedAt ≤ r.ttlSeconds then (.inl entry, r)
    else
      let waiting := (r.popEntry engineRequestId).waiterEvent engineRequestId
      (.inr waiting.1, waiting.2)

/-- The section after a timeout: the event leaves the table if it is still in it. -/
def leaveWaiters (engineRequestId : String) (event : EventId) : DispatchAttemptRegistry β :=
  if r.prefillWaiters.get? engineRequestId = some event then
    { r with prefillWaiters := r.prefillWaiters.erase engineRequestId }
  else r

def stop (request : DispatchStopRequest) (now : ℚ) : DispatchStopState × DispatchAttemptRegistry β :=
  let r := r.cleanupLocked now
  match r.states.get? request.key with
  | none => (.notFound, r)
  | some current =>
    let dispatch := r.dispatches.get? request.key
    if dispatch.any fun d => !d.matchesStopRequest request then (.stale, r)
    else
      let r := match dispatch with
        | none => r
        | some d => (r.popEntry d.engineRequestId).popWaiter d.engineRequestId
      match current with
      | .stopped => (.alreadyStopped, r)
      | .done => (.alreadyDone, r)
      | .active => (.stopped, r.setState request.key .stopped now)

def isStopped (d : MotorDispatch) (now : ℚ) : Bool × DispatchAttemptRegistry β :=
  let r := r.cleanupLocked now
  (decide (r.states.get? d.key = some .stopped), r)

def finish (d : MotorDispatch) (now : ℚ) : DispatchAttemptRegistry β :=
  let r := (r.cleanupLocked now).popEntry d.engineRequestId
  if r.states.get? d.key = some .stopped then r
  else (r.setState d.key .done now).setDispatch d

end DispatchAttemptRegistry

/-! ## Waiting -/

/-- Where a call of `wait_prefill_entry` is. -/
inductive WaiterPhase (β : Type) where
  /-- Before it looks for an entry. -/
  | looking
  /-- Before it asks for the event. -/
  | joining
  | sleeping (event : EventId)
  /-- `TimeoutError` was raised. -/
  | timedOut (event : EventId)
  /-- Before it looks again. -/
  | woken
  | returned (result : Option (PrefillBodyCacheEntry β))
  deriving DecidableEq

structure Waiter (β : Type) where
  engineRequestId : String
  phase : WaiterPhase β
  deriving DecidableEq

abbrev WaiterId := ℕ

/-- The registry and the calls that wait. -/
structure DispatchSystem (β : Type) where
  registry : DispatchAttemptRegistry β
  waiters : Dict WaiterId (Waiter β)

inductive DispatchMove (β : Type) where
  | activate (d : MotorDispatch) (now : ℚ)
  | cachePrefillBody (d : MotorDispatch) (body : β) (now : ℚ)
  | getPrefillEntry (engineRequestId : String) (now : ℚ)
  | stop (request : DispatchStopRequest) (now : ℚ)
  | isStopped (d : MotorDispatch) (now : ℚ)
  | finish (d : MotorDispatch) (now : ℚ)
  | startWait (w : WaiterId) (engineRequestId : String)
  | waiterRuns (w : WaiterId) (now : ℚ)
  | timeoutFires (w : WaiterId)

namespace Waiter

variable {β : Type}

/-- What a waiter does next, and what it leaves of the registry; one that sleeps needs its event set. -/
def run (w : Waiter β) (r : DispatchAttemptRegistry β) (now : ℚ) :
    Option (WaiterPhase β × DispatchAttemptRegistry β) :=
  match w.phase with
  | .looking =>
    let cached := r.getPrefillEntry w.engineRequestId now
    some (match cached.1 with
      | some entry => .returned (some entry)
      | none => .joining, cached.2)
  | .joining =>
    let joined := r.joinWaiters w.engineRequestId now
    some (match joined.1 with
      | .inl entry => .returned (some entry)
      | .inr event => .sleeping event, joined.2)
  | .sleeping event => if event ∈ r.signalled then some (.woken, r) else none
  | .timedOut event => some (.returned none, r.leaveWaiters w.engineRequestId event)
  | .woken =>
    let cached := r.getPrefillEntry w.engineRequestId now
    some (.returned cached.1, cached.2)
  | .returned _ => none

end Waiter

namespace DispatchSystem

variable {β : Type}

def new (ttlSeconds : ℚ) : DispatchSystem β := ⟨.new ttlSeconds, ∅⟩

def setPhase (s : DispatchSystem β) (w : WaiterId) (waiter : Waiter β) (phase : WaiterPhase β) :
    Dict WaiterId (Waiter β) :=
  s.waiters.insert w { waiter with phase := phase }

def exec (s : DispatchSystem β) : DispatchMove β → Option (DispatchSystem β)
  | .activate d now => some { s with registry := s.registry.activate d now }
  | .cachePrefillBody d body now => some { s with registry := s.registry.cachePrefillBody d body now }
  | .getPrefillEntry e now => some { s with registry := (s.registry.getPrefillEntry e now).2 }
  | .stop request now => some { s with registry := (s.registry.stop request now).2 }
  | .isStopped d now => some { s with registry := (s.registry.isStopped d now).2 }
  | .finish d now => some { s with registry := s.registry.finish d now }
  | .startWait w e =>
    if s.waiters.contains w then none
    else some { s with waiters := s.waiters.insert w ⟨e, .looking⟩ }
  | .waiterRuns w now =>
    (s.waiters.get? w).bind fun waiter => (waiter.run s.registry now).map fun p =>
      { s with registry := p.2, waiters := s.setPhase w waiter p.1 }
  | .timeoutFires w =>
    (s.waiters.get? w).bind fun waiter =>
      match waiter.phase with
      | .sleeping event => some { s with waiters := s.setPhase w waiter (.timedOut event) }
      | _ => none

end DispatchSystem

/-- The time that a move reads, if it does. -/
def DispatchMove.time {β : Type} : DispatchMove β → Option ℚ
  | .activate _ now => some now
  | .cachePrefillBody _ _ now => some now
  | .getPrefillEntry _ now => some now
  | .stop _ now => some now
  | .isStopped _ now => some now
  | .finish _ now => some now
  | .waiterRuns _ now => some now
  | .startWait _ _ => none
  | .timeoutFires _ => none

end PyMotor.EngineServer
