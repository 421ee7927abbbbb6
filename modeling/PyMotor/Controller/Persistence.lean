import Mathlib.Data.Int.Notation
import PyMotor.Lib.Dict
import PyMotor.Lib.Run

/-!
# Persisting the state of a component

The fault manager, the instance manager and the instance assembler persist their data alike
(`fault_tolerance/mixin/persistence.py`, `core/instance_manager.py`, `core/instance_assembler.py`,
`common/etcd/etcd_client.py`). A call draws the next version and takes a snapshot under the lock of the
component. It then goes to ETCD without that lock: it acquires a lease lock, deletes the prefix, puts the
state and releases the lock.

The lease lock keeps two calls from mixing their deletions and puts, but it is not granted in the order
of the versions, and a deletion is not taken back when the put after it fails. `TakesTurns` excludes both:
the calls that get the lock get it in the order of their versions. Then, since only one of them has the lock
at a time, the store never goes back and loses nothing (`persisted_state_never_goes_back`).

The data is that of any component. Timestamps, checksums and the pauses between attempts are left out.
-/

namespace PyMotor.Controller

/-- The components that persist their data. -/
inductive PersistedComponent where
  | faultManager
  | instanceManager
  | instanceAssembler
  deriving DecidableEq, Repr

/-- Only the fault manager expects others to hold the lock, and tries again. -/
def PersistedComponent.maxRetries : PersistedComponent → ℕ
  | faultManager => 2
  | instanceManager => 0
  | instanceAssembler => 0

/-- What becomes of a request to ETCD. A request may fail and have been carried out all the same. -/
inductive EtcdOutcome where
  | done
  | lost
  | refused
  deriving DecidableEq, Repr

/-- Whether the request was carried out. -/
def EtcdOutcome.applied : EtcdOutcome → Bool
  | done => true
  | lost => true
  | refused => false

structure PersistentState (D : Type) where
  data : D
  version : ℕ
  deriving DecidableEq

/-- Where a call is. The number counts its failed attempts. -/
inductive PersistPhase where
  | acquiring (attempt : ℕ)
  | deleting (attempt : ℕ)
  | putting (attempt : ℕ)
  | releasing (attempt : ℕ) (success : Bool)
  | returned (success : Bool)
  deriving DecidableEq, Repr

namespace PersistPhase

/-- Between the acquisition of the lock and its release. -/
def holdsLock : PersistPhase → Bool
  | deleting _ => true
  | putting _ => true
  | releasing _ _ => true
  | _ => false

/-- The old state is deleted and the new one is not there yet. -/
def inSection : PersistPhase → Bool
  | putting _ => true
  | _ => false

/-- The new state is there, as far as the call knows. -/
def succeeded : PersistPhase → Bool
  | releasing _ success => success
  | returned success => success
  | _ => false

/-- After a failed attempt. -/
def failed (component : PersistedComponent) (attempt : ℕ) : PersistPhase :=
  if attempt < component.maxRetries then acquiring (attempt + 1) else returned false

end PersistPhase

structure PersistCall (D : Type) where
  state : PersistentState D
  phase : PersistPhase
  deriving DecidableEq

structure Persistence (D : Type) where
  /-- The component as it is now. -/
  data : D
  dataVersion : ℕ
  calls : Dict ℕ (PersistCall D)
  /-- The call that the client has a lease for. -/
  lease : Option ℕ
  /-- The state under the prefix in ETCD. -/
  store : Option (PersistentState D)
  /-- All that was ever put there, oldest first. -/
  history : List (PersistentState D)
  /-- The versions of the calls that were granted the lock, oldest first. -/
  turns : List ℕ
  /-- Whether the last deletion was carried out. -/
  deleted : Bool

inductive PersistOp (D : Type) where
  /-- The component changes its data. -/
  | change (data : D)
  | begin (call : ℕ)
  /-- ETCD grants the lock, or it does not. -/
  | acquireLock (call : ℕ) (granted : Bool)
  | deletePrefix (call : ℕ) (outcome : EtcdOutcome)
  | putJson (call : ℕ) (outcome : EtcdOutcome)
  | releaseLock (call : ℕ)

namespace Persistence

variable {D : Type}

/-- A component that starts has restored the state it found, and goes on from its version. -/
def start (restored : Option (PersistentState D)) (data : D) : Persistence D where
  data := data
  dataVersion := (restored.map (·.version)).getD 0
  calls := ∅
  lease := none
  store := restored
  history := restored.toList
  turns := []
  deleted := false

def setPhase (s : Persistence D) (call : ℕ) (c : PersistCall D) (phase : PersistPhase) :
    Persistence D :=
  { s with calls := s.calls.insert call { c with phase := phase } }

/-- The version is drawn and the snapshot taken in one go. -/
def beginCall (s : Persistence D) (call : ℕ) : Persistence D :=
  { s with
    dataVersion := s.dataVersion + 1
    calls := s.calls.insert call ⟨⟨s.data, s.dataVersion + 1⟩, .acquiring 0⟩ }

/-- A lock that the client has a lease for is not asked for again. -/
def acquireLock (component : PersistedComponent) (s : Persistence D) (call : ℕ) (c : PersistCall D)
    (attempt : ℕ) (granted : Bool) : Persistence D :=
  if s.lease.isNone && granted then
    { s.setPhase call c (.deleting attempt) with
      lease := some call
      turns := s.turns ++ [c.state.version] }
  else s.setPhase call c (.failed component attempt)

/-- Nobody looks at the outcome. -/
def deletePrefix (s : Persistence D) (call : ℕ) (c : PersistCall D) (attempt : ℕ)
    (outcome : EtcdOutcome) : Persistence D :=
  { s.setPhase call c (.putting attempt) with
    store := if outcome.applied then none else s.store
    deleted := outcome.applied }

def putJson (s : Persistence D) (call : ℕ) (c : PersistCall D) (attempt : ℕ)
    (outcome : EtcdOutcome) : Persistence D :=
  { s.setPhase call c (.releasing attempt (decide (outcome = .done))) with
    store := if outcome.applied then some c.state else s.store
    history := if outcome.applied then s.history ++ [c.state] else s.history }

/-- The lease is forgotten even if it cannot be revoked. -/
def releaseLock (component : PersistedComponent) (s : Persistence D) (call : ℕ) (c : PersistCall D)
    (attempt : ℕ) (success : Bool) : Persistence D :=
  { s.setPhase call c (if success then .returned true else .failed component attempt) with
    lease := none }

def exec (component : PersistedComponent) (s : Persistence D) : PersistOp D → Option (Persistence D)
  | .change data => some { s with data := data }
  | .begin call =>
    match s.calls.get? call with
    | some _ => none
    | none => some (s.beginCall call)
  | .acquireLock call granted =>
    match s.calls.get? call with
    | some ⟨state, .acquiring attempt⟩ =>
      some (s.acquireLock component call ⟨state, .acquiring attempt⟩ attempt granted)
    | _ => none
  | .deletePrefix call outcome =>
    match s.calls.get? call with
    | some ⟨state, .deleting attempt⟩ =>
      some (s.deletePrefix call ⟨state, .deleting attempt⟩ attempt outcome)
    | _ => none
  | .putJson call outcome =>
    match s.calls.get? call with
    | some ⟨state, .putting attempt⟩ =>
      some (s.putJson call ⟨state, .putting attempt⟩ attempt outcome)
    | _ => none
  | .releaseLock call =>
    match s.calls.get? call with
    | some ⟨state, .releasing attempt success⟩ =>
      some (s.releaseLock component call ⟨state, .releasing attempt success⟩ attempt success)
    | _ => none

/-! ## The condition -/

/-- No call is granted the lock after one with a later version; and once something was put, a put is
carried out if the deletion before it was. -/
def TakesTurns (s : Persistence D) : PersistOp D → Prop
  | .acquireLock call granted => s.lease = none → granted = true →
      ∀ c ∈ s.calls.get? call, ∀ version ∈ s.turns, version ≤ c.state.version
  | .putJson _ outcome => s.history.isEmpty = false → s.deleted = true → outcome.applied = true
  | _ => True

instance (s : Persistence D) : (op : PersistOp D) → Decidable (s.TakesTurns op)
  | .acquireLock _ _ => inferInstanceAs (Decidable (_ → _ → _))
  | .putJson _ _ => inferInstanceAs (Decidable (_ → _ → _))
  | .change _ => isTrue trivial
  | .begin _ => isTrue trivial
  | .deletePrefix _ _ => isTrue trivial
  | .releaseLock _ => isTrue trivial

/-! ## The invariant -/

/-- The states that the calls of a run have taken, and the one it started from. -/
def IsSnapshot (restored : Option (PersistentState D)) (s : Persistence D) (p : PersistentState D) :
    Prop :=
  restored = some p ∨ ∃ call c, s.calls.get? call = some c ∧ c.state = p

/-- The lock keeps all but one call out, and that one has the latest version of all that had it; the
store holds the newest of all states that were put, and what a call knows to be put has been put. -/
structure Inv (restored : Option (PersistentState D)) (s : Persistence D) : Prop where
  holder : ∀ call c, s.calls.get? call = some c → c.phase.holdsLock = true → s.lease = some call
  turn : ∀ call c, s.calls.get? call = some c → c.phase.holdsLock = true →
    c.state.version ∈ s.turns ∧ ∀ version ∈ s.turns, version ≤ c.state.version
  drawn : ∀ r, restored = some r → r.version ≤ s.dataVersion
  ahead : ∀ r, restored = some r → ∀ call c, s.calls.get? call = some c → r.version ≤ c.state.version
  snapshot : ∀ p ∈ s.history, IsSnapshot restored s p
  inTurn : ∀ p ∈ s.history, restored = some p ∨ p.version ∈ s.turns
  stored : ∀ p, s.store = some p → p ∈ s.history
  newest : ∀ p, s.store = some p → ∀ q ∈ s.history, q.version ≤ p.version
  kept : s.store = none → s.history = [] ∨
    s.deleted = true ∧ ∃ call c, s.calls.get? call = some c ∧ c.phase.inSection = true
  put : ∀ call c, s.calls.get? call = some c → c.phase.succeeded = true → c.state ∈ s.history

variable {component : PersistedComponent} {restored : Option (PersistentState D)}
  {s s' : Persistence D} {call : ℕ} {c : PersistCall D} {phase : PersistPhase} {data : D}
  {ops : List (PersistOp D)}

theorem inv_start (restored : Option (PersistentState D)) (data : D) :
    Inv restored (start restored data) where
  holder call c hc _ := by cases hc
  turn call c hc _ := by cases hc
  drawn r hr := by
    subst hr
    exact Nat.le_refl _
  ahead r _ call c hc := by cases hc
  snapshot p hp := Or.inl (Option.mem_toList.mp hp)
  inTurn p hp := Or.inl (Option.mem_toList.mp hp)
  stored p hp := by
    have hp : restored = some p := hp
    subst hp
    exact List.mem_singleton_self p
  newest p hp q hq := by
    have hp : restored = some p := hp
    subst hp
    cases List.mem_singleton.mp hq
    exact Nat.le_refl _
  kept hnone := by
    have hnone : restored = none := hnone
    subst hnone
    exact Or.inl rfl
  put call c hc _ := by cases hc

/-- **A call moves on.** What it needs to show is about its own phase and turn, about the lease and the
store. -/
theorem Inv.moved (h : Inv restored s) (phase : PersistPhase) (hc : s.calls.get? call = some c)
    (hcalls : s'.calls = s.calls.insert call { c with phase := phase })
    (hversion : s'.dataVersion = s.dataVersion)
    (hold : ∀ p ∈ s.history, p ∈ s'.history)
    (hnew : ∀ p ∈ s'.history, p ∈ s.history ∨ p = c.state ∧ c.state.version ∈ s'.turns)
    (hturns : ∀ version ∈ s.turns, version ∈ s'.turns)
    (hlease : ∀ k, k ≠ call → s.lease = some k → s'.lease = some k ∧ s'.turns = s.turns)
    (hholder : phase.holdsLock = true → s'.lease = some call ∧ c.state.version ∈ s'.turns ∧
      ∀ version ∈ s'.turns, version ≤ c.state.version)
    (hput : phase.succeeded = true → c.state ∈ s'.history)
    (hstored : ∀ p, s'.store = some p → p ∈ s'.history)
    (hnewest : ∀ p, s'.store = some p → ∀ q ∈ s'.history, q.version ≤ p.version)
    (hkept : s'.store = none → s'.history = [] ∨ s'.deleted = true ∧ phase.inSection = true ∨
      c.phase.inSection = false ∧ s.store = none ∧ s'.history = s.history ∧ s'.deleted = s.deleted) :
    Inv restored s' where
  holder k c' hk hlock := by
    rw [hcalls, Dict.get?_insert] at hk
    split at hk
    · next heq =>
      cases hk
      rw [← heq]
      exact (hholder hlock).1
    · next hne => exact (hlease k (Ne.symm hne) (h.holder k c' hk hlock)).1
  turn k c' hk hlock := by
    rw [hcalls, Dict.get?_insert] at hk
    split at hk
    · cases hk
      exact (hholder hlock).2
    · next hne =>
      rw [(hlease k (Ne.symm hne) (h.holder k c' hk hlock)).2]
      exact h.turn k c' hk hlock
  drawn r hr := by
    rw [hversion]
    exact h.drawn r hr
  ahead r hr k c' hk := by
    rw [hcalls, Dict.get?_insert] at hk
    split at hk
    · cases hk
      exact h.ahead r hr call c hc
    · exact h.ahead r hr k c' hk
  snapshot p hp := by
    -- the calls keep their snapshots
    have hstate : ∀ k c', s.calls.get? k = some c' →
        ∃ k' c'', s'.calls.get? k' = some c'' ∧ c''.state = c'.state := by
      intro k c' hk
      by_cases heq : call = k
      · subst heq
        rw [hc] at hk
        cases hk
        exact ⟨call, { c with phase := phase }, by rw [hcalls, Dict.get?_insert_self], rfl⟩
      · exact ⟨k, c', by rw [hcalls, Dict.get?_insert_ne _ _ heq, hk], rfl⟩
    rcases hnew p hp with hp | ⟨rfl, -⟩
    · rcases h.snapshot p hp with hr | ⟨k, c', hk, rfl⟩
      · exact Or.inl hr
      · exact Or.inr (hstate k c' hk)
    · exact Or.inr (hstate call c hc)
  inTurn p hp := by
    rcases hnew p hp with hp | ⟨rfl, hturn⟩
    · exact (h.inTurn p hp).imp_right (hturns p.version)
    · exact Or.inr hturn
  stored := hstored
  newest := hnewest
  kept hnone := by
    rcases hkept hnone with hempty | ⟨hdeleted, hin⟩ | ⟨hout, hbefore, hsame, hdeleted⟩
    · exact Or.inl hempty
    · exact Or.inr ⟨hdeleted, call, { c with phase := phase },
        by rw [hcalls, Dict.get?_insert_self], hin⟩
    · rw [hsame, hdeleted]
      rcases h.kept hbefore with hempty | ⟨hdeleted, k, c', hk, hin⟩
      · exact Or.inl hempty
      · -- whoever is between deletion and put is another call
        refine Or.inr ⟨hdeleted, k, c', ?_, hin⟩
        rw [hcalls, Dict.get?_insert_ne, hk]
        rintro rfl
        rw [hc] at hk
        cases hk
        rw [hout] at hin
        cases hin
  put k c' hk hok := by
    rw [hcalls, Dict.get?_insert] at hk
    split at hk
    · cases hk
      exact hput hok
    · exact hold _ (h.put k c' hk hok)

theorem Inv.begin (h : Inv restored s) (hnew : s.calls.get? call = none) :
    Inv restored (s.beginCall call) := by
  have hget : ∀ k, (s.beginCall call).calls.get? k =
      if call = k then some ⟨⟨s.data, s.dataVersion + 1⟩, .acquiring 0⟩ else s.calls.get? k :=
    fun k => Dict.get?_insert ..
  have hkeep : ∀ k c', s.calls.get? k = some c' → (s.beginCall call).calls.get? k = some c' := by
    intro k c' hk
    rw [hget, if_neg, hk]
    rintro rfl
    rw [hnew] at hk
    cases hk
  refine ⟨fun k c' hk hlock => ?_, fun k c' hk hlock => ?_,
    fun r hr => Nat.le_succ_of_le (h.drawn r hr), fun r hr k c' hk => ?_, fun p hp => ?_, h.inTurn,
    h.stored, h.newest, fun hnone => ?_, fun k c' hk hok => ?_⟩
  · rw [hget] at hk
    split at hk
    · cases hk
      cases hlock
    · exact h.holder k c' hk hlock
  · rw [hget] at hk
    split at hk
    · cases hk
      cases hlock
    · exact h.turn k c' hk hlock
  · rw [hget] at hk
    split at hk
    · cases hk
      exact Nat.le_succ_of_le (h.drawn r hr)
    · exact h.ahead r hr k c' hk
  · rcases h.snapshot p hp with hr | ⟨k, c', hk, hstate⟩
    · exact Or.inl hr
    · exact Or.inr ⟨k, c', hkeep k c' hk, hstate⟩
  · rcases h.kept hnone with hempty | ⟨hdeleted, k, c', hk, hin⟩
    · exact Or.inl hempty
    · exact Or.inr ⟨hdeleted, k, c', hkeep k c' hk, hin⟩
  · rw [hget] at hk
    split at hk
    · cases hk
      cases hok
    · exact h.put k c' hk hok

@[simp] theorem holdsLock_failed (component : PersistedComponent) (attempt : ℕ) :
    (PersistPhase.failed component attempt).holdsLock = false := by
  unfold PersistPhase.failed
  split <;> rfl

@[simp] theorem succeeded_failed (component : PersistedComponent) (attempt : ℕ) :
    (PersistPhase.failed component attempt).succeeded = false := by
  unfold PersistPhase.failed
  split <;> rfl

theorem Inv.acquireLock (h : Inv restored s) {state : PersistentState D} {attempt : ℕ}
    (hc : s.calls.get? call = some ⟨state, .acquiring attempt⟩) {granted : Bool}
    (hguard : s.TakesTurns (.acquireLock call granted)) :
    Inv restored (s.acquireLock component call ⟨state, .acquiring attempt⟩ attempt granted) := by
  unfold Persistence.acquireLock
  split
  · next hfree =>
    rw [Bool.and_eq_true, Option.isNone_iff_eq_none] at hfree
    have hlatest := hguard hfree.1 hfree.2 _ hc
    refine h.moved (.deleting attempt) hc rfl rfl (fun _ hp => hp) (fun _ hp => Or.inl hp)
      (fun _ hv => List.mem_append_left _ hv) ?_ (fun _ => ⟨rfl, ?_, fun version hv => ?_⟩)
      (fun hok => by cases hok) h.stored h.newest (fun hnone => Or.inr (Or.inr ⟨rfl, hnone, rfl, rfl⟩))
    · intro k _ hk
      rw [hfree.1] at hk
      cases hk
    · exact List.mem_append_right _ (List.mem_singleton_self _)
    · rcases List.mem_append.mp hv with hv | hv
      · exact hlatest version hv
      · exact Nat.le_of_eq (List.mem_singleton.mp hv)
  · exact h.moved (.failed component attempt) hc rfl rfl (fun _ hp => hp)
      (fun _ hp => Or.inl hp) (fun _ hv => hv) (fun _ _ hk => ⟨hk, rfl⟩) (by simp) (by simp) h.stored
      h.newest (fun hnone => Or.inr (Or.inr ⟨rfl, hnone, rfl, rfl⟩))

theorem Inv.alone (h : Inv restored s) (hc : s.calls.get? call = some c)
    (hlock : c.phase.holdsLock = true) {k : ℕ} {c' : PersistCall D} (hk : s.calls.get? k = some c')
    (hin : c'.phase.inSection = true) : c' = c := by
  have hlock' : c'.phase.holdsLock = true := by
    cases hphase : c'.phase with
    | putting attempt => rfl
    | acquiring attempt => rw [hphase] at hin; cases hin
    | deleting attempt => rfl
    | releasing attempt success => rfl
    | returned success => rw [hphase] at hin; cases hin
  have hsame := (h.holder k c' hk hlock').symm.trans (h.holder call c hc hlock)
  cases hsame
  exact Option.some.inj (hk.symm.trans hc)

theorem Inv.deletePrefix (h : Inv restored s) {state : PersistentState D} {attempt : ℕ}
    (hc : s.calls.get? call = some ⟨state, .deleting attempt⟩) (outcome : EtcdOutcome) :
    Inv restored (s.deletePrefix call ⟨state, .deleting attempt⟩ attempt outcome) := by
  have hstore : ∀ p, (if outcome.applied then none else s.store) = some p → s.store = some p := by
    intro p hp
    split at hp
    · cases hp
    · exact hp
  refine h.moved (.putting attempt) hc rfl rfl (fun _ hp => hp) (fun _ hp => Or.inl hp)
    (fun _ hv => hv) (fun _ _ hk => ⟨hk, rfl⟩) (fun _ => ⟨h.holder call _ hc rfl, h.turn call _ hc rfl⟩)
    (fun hok => by cases hok) (fun p hp => h.stored p (hstore p hp))
    (fun p hp => h.newest p (hstore p hp)) fun hnone => ?_
  cases happlied : outcome.applied with
  | true => exact Or.inr (Or.inl ⟨happlied, rfl⟩)
  | false =>
    -- the store was empty before, and this call is the one that has the lock
    have hempty : s.store = none := by simpa [Persistence.deletePrefix, happlied] using hnone
    rcases h.kept hempty with hempty | ⟨-, k, c', hk, hin⟩
    · exact Or.inl hempty
    · rw [h.alone hc rfl hk hin] at hin
      cases hin

theorem Inv.latest (h : Inv restored s) (hc : s.calls.get? call = some c)
    (hlock : c.phase.holdsLock = true) : ∀ p ∈ s.history, p.version ≤ c.state.version := by
  intro p hp
  rcases h.inTurn p hp with hr | hturn
  · exact h.ahead p hr call c hc
  · exact (h.turn call c hc hlock).2 p.version hturn

theorem Inv.putJson (h : Inv restored s) {state : PersistentState D} {attempt : ℕ}
    (hc : s.calls.get? call = some ⟨state, .putting attempt⟩) (outcome : EtcdOutcome)
    (hguard : s.TakesTurns (.putJson call outcome)) :
    Inv restored (s.putJson call ⟨state, .putting attempt⟩ attempt outcome) := by
  have hlock := h.holder call _ hc rfl
  have hturn := h.turn call _ hc rfl
  unfold Persistence.putJson
  cases happlied : outcome.applied with
  | true =>
    simp only [↓reduceIte]
    refine h.moved (.releasing attempt (decide (outcome = .done))) hc rfl rfl ?_ ?_ (fun _ hv => hv)
      (fun _ _ hk => ⟨hk, rfl⟩) (fun _ => ⟨hlock, hturn⟩) ?_ ?_ ?_ (fun hnone => by cases hnone)
    · exact fun _ hp => List.mem_append_left _ hp
    · intro p hp
      rcases List.mem_append.mp hp with hp | hp
      · exact Or.inl hp
      · exact Or.inr ⟨List.mem_singleton.mp hp, hturn.1⟩
    · exact fun _ => List.mem_append_right _ (List.mem_singleton_self _)
    · intro p hp
      cases hp
      exact List.mem_append_right _ (List.mem_singleton_self _)
    · intro p hp q hq
      cases hp
      rcases List.mem_append.mp hq with hq | hq
      · exact h.latest hc rfl q hq
      · cases List.mem_singleton.mp hq
        exact Nat.le_refl _
  | false =>
    simp only [Bool.false_eq_true, ↓reduceIte]
    have hfailed : decide (outcome = .done) = false := by
      cases outcome with
      | done => cases happlied
      | lost => cases happlied
      | refused => rfl
    rw [hfailed]
    refine h.moved (.releasing attempt false) hc rfl rfl (fun _ hp => hp)
      (fun _ hp => Or.inl hp) (fun _ hv => hv) (fun _ _ hk => ⟨hk, rfl⟩) (fun _ => ⟨hlock, hturn⟩)
      (fun hok => by cases hok) h.stored h.newest ?_
    intro hnone
    rcases h.kept hnone with hempty | ⟨hdeleted, -⟩
    · exact Or.inl hempty
    · -- after a deletion the put would have been carried out
      refine Or.inl (List.isEmpty_iff.mp ?_)
      by_contra hsome
      have := hguard (Bool.not_eq_true _ ▸ hsome) hdeleted
      rw [happlied] at this
      cases this

theorem Inv.releaseLock (h : Inv restored s) {state : PersistentState D} {attempt : ℕ}
    {success : Bool} (hc : s.calls.get? call = some ⟨state, .releasing attempt success⟩) :
    Inv restored
      (s.releaseLock component call ⟨state, .releasing attempt success⟩ attempt success) := by
  have hlock := h.holder call _ hc rfl
  have hlease : ∀ k, k ≠ call → s.lease = some k → (none : Option ℕ) = some k ∧ s.turns = s.turns := by
    intro k hk hk'
    rw [hlock] at hk'
    exact absurd (Option.some.inj hk').symm hk
  unfold Persistence.releaseLock
  cases success with
  | true =>
    exact h.moved (.returned true) hc rfl rfl (fun _ hp => hp) (fun _ hp => Or.inl hp)
      (fun _ hv => hv) hlease (fun hholds => by cases hholds) (fun _ => h.put call _ hc rfl) h.stored
      h.newest (fun hnone => Or.inr (Or.inr ⟨rfl, hnone, rfl, rfl⟩))
  | false =>
    exact h.moved (.failed component attempt) hc rfl rfl (fun _ hp => hp)
      (fun _ hp => Or.inl hp) (fun _ hv => hv) hlease (by simp) (by simp) h.stored h.newest
      (fun hnone => Or.inr (Or.inr ⟨rfl, hnone, rfl, rfl⟩))

theorem exec_inv {op : PersistOp D} (h : Inv restored s) (hguard : s.TakesTurns op)
    (he : exec component s op = some s') : Inv restored s' := by
  cases op with
  | change data =>
    cases he
    exact ⟨h.holder, h.turn, h.drawn, h.ahead, h.snapshot, h.inTurn, h.stored, h.newest, h.kept, h.put⟩
  | begin call =>
    simp only [exec] at he
    split at he
    · cases he
    · next hnew =>
      cases he
      exact h.begin hnew
  | acquireLock call granted =>
    simp only [exec] at he
    split at he
    · next hc =>
      cases he
      exact h.acquireLock hc hguard
    · cases he
  | deletePrefix call outcome =>
    simp only [exec] at he
    split at he
    · next hc =>
      cases he
      exact h.deletePrefix hc outcome
    · cases he
  | putJson call outcome =>
    simp only [exec] at he
    split at he
    · next hc =>
      cases he
      exact h.putJson hc outcome hguard
    · cases he
  | releaseLock call =>
    simp only [exec] at he
    split at he
    · next hc =>
      cases he
      exact h.releaseLock hc
    · cases he

theorem run_inv (h : Run (exec component) TakesTurns (start restored data) ops s) :
    Inv restored s :=
  h.invariant_state (inv_start restored data) (fun hi hguard he => exec_inv hi hguard he)

/-- Something was put, and nobody is between deletion and put: it is there. -/
theorem Inv.store_isSome (h : Inv restored s)
    (hout : ∀ call c, s.calls.get? call = some c → c.phase.inSection = false)
    (hput : s.history ≠ []) : ∃ p, s.store = some p := by
  cases hstore : s.store with
  | some p => exact ⟨p, rfl⟩
  | none =>
    rcases h.kept hstore with hempty | ⟨-, call, c, hc, hin⟩
    · exact absurd hempty hput
    · rw [hout call c hc] at hin
      cases hin

/-! ## Nothing goes back and nothing is lost -/

/-- **The store never goes back and loses nothing**, as long as the lock is granted in the order of the
versions and no put fails after a deletion. -/
theorem persisted_state_never_goes_back (component : PersistedComponent)
    (restored : Option (PersistentState D)) (data : D)
    (h : Run (exec component) TakesTurns (start restored data) ops s) :
    ((∀ call c, s.calls.get? call = some c → c.phase.inSection = false) →
      (∃ call c, s.calls.get? call = some c ∧ c.phase.succeeded = true) →
      ∃ p, s.store = some p ∧ IsSnapshot restored s p) ∧
    (∀ p, s.store = some p → ∀ q ∈ s.history, q.version ≤ p.version) ∧
    ((∀ call c, s.calls.get? call = some c → ∃ success, c.phase = .returned success) →
      ∀ call c, s.calls.get? call = some c → c.phase = .returned true →
        ∃ p, s.store = some p ∧ c.state.version ≤ p.version) := by
  have hinv := run_inv h
  refine ⟨?_, hinv.newest, ?_⟩
  · intro hout hsucceeded
    obtain ⟨call, c, hc, hok⟩ := hsucceeded
    obtain ⟨p, hp⟩ := hinv.store_isSome hout (List.ne_nil_of_mem (hinv.put call c hc hok))
    exact ⟨p, hp, hinv.snapshot p (hinv.stored p hp)⟩
  · intro hall call c hc hreturned
    have hmem : c.state ∈ s.history := hinv.put call c hc (by rw [hreturned]; rfl)
    have hout : ∀ k c', s.calls.get? k = some c' → c'.phase.inSection = false := by
      intro k c' hk
      obtain ⟨success, hphase⟩ := hall k c' hk
      rw [hphase]
      rfl
    obtain ⟨p, hp⟩ := hinv.store_isSome hout (List.ne_nil_of_mem hmem)
    exact ⟨p, hp, hinv.newest p hp _ hmem⟩

/-- All steps of a call that meets no resistance. -/
def undisturbed (call : ℕ) : List (PersistOp D) :=
  [.acquireLock call true, .deletePrefix call .done, .putJson call .done, .releaseLock call]

/-- Two calls at once, and the second one collides with the first and tries again. -/
def collidingCalls : List (PersistOp ℕ) :=
  [.begin 1, .change 8, .begin 2, .acquireLock 1 true, .acquireLock 2 true, .deletePrefix 1 .done,
    .putJson 1 .done, .releaseLock 1] ++ undisturbed 2

theorem collidingCalls_store_newest :
    ∃ s, Run (exec .faultManager) TakesTurns (start none 7) collidingCalls s ∧
      ∃ p, s.store = some p ∧ 2 ≤ p.version := by
  have h : (runList (exec .faultManager) TakesTurns (start none 7) collidingCalls).map
      (fun s => (s.calls.keys, (s.calls.get? 1).map (·.phase),
        (s.calls.get? 2).map fun c => (c.phase, c.state.version))) =
      some ([1, 2], some (.returned true), some (.returned true, 2)) := by decide
  obtain ⟨s, hs, hf⟩ := Option.map_eq_some_iff.mp h
  have hrun := runList_run hs
  simp only [Prod.mk.injEq] at hf
  obtain ⟨hkeys, hfirst, hsecond⟩ := hf
  obtain ⟨c, hc, hc'⟩ := Option.map_eq_some_iff.mp hsecond
  obtain ⟨hphase, hversion⟩ := Prod.mk.inj hc'
  have hall : ∀ call c, s.calls.get? call = some c → ∃ success, c.phase = .returned success := by
    intro call c' hget
    have hmem := Dict.mem_keys_iff.mpr ⟨c', hget⟩
    rw [hkeys, List.mem_pair] at hmem
    rcases hmem with rfl | rfl
    · rw [hget] at hfirst
      exact ⟨true, Option.some.inj hfirst⟩
    · rw [hc] at hget
      cases hget
      exact ⟨true, hphase⟩
  obtain ⟨p, hp, hle⟩ :=
    (persisted_state_never_goes_back .faultManager none 7 hrun).2.2 hall 2 c hc hphase
  rw [hversion] at hle
  exact ⟨s, hrun, p, hp, hle⟩

/-- The first call draws its version and gets the lock only after the second one is through. -/
def overtakenCall : List (PersistOp ℕ) :=
  [.begin 1, .change 8, .begin 2] ++ undisturbed 2 ++ undisturbed 1

/-- The deletion is carried out and the put after it is not. -/
def failedPut : List (PersistOp ℕ) :=
  [.begin 1] ++ undisturbed 1 ++
    [.begin 2, .acquireLock 2 true, .deletePrefix 2 .done, .putJson 2 .refused, .releaseLock 2]

/-- In the first run both calls return `True`, version 2 is put first and version 1 stays. In
the second one a call has returned `True` and in the end nothing is stored. -/
theorem overtakenCall_goes_back_failedPut_loses :
    (∃ s, Run (exec .instanceManager) Free (start none 7) overtakenCall s ∧
      s.calls.get? 1 = some ⟨⟨7, 1⟩, .returned true⟩ ∧
      s.calls.get? 2 = some ⟨⟨8, 2⟩, .returned true⟩ ∧ s.calls.keys = [1, 2] ∧
      s.store = some ⟨7, 1⟩) ∧
    ∃ s, Run (exec .instanceManager) Free (start none 7) failedPut s ∧
      s.calls.get? 1 = some ⟨⟨7, 1⟩, .returned true⟩ ∧
      s.calls.get? 2 = some ⟨⟨7, 2⟩, .returned false⟩ ∧ s.calls.keys = [1, 2] ∧
      s.store = none := by
  constructor
  · have h : (runList (exec .instanceManager) Free (start none 7) overtakenCall).map
        (fun s => (s.calls.get? 1, s.calls.get? 2, s.calls.keys, s.store)) =
        some (some ⟨⟨7, 1⟩, .returned true⟩, some ⟨⟨8, 2⟩, .returned true⟩, [1, 2],
          some ⟨7, 1⟩) := by
      decide
    obtain ⟨s, hs, hf⟩ := Option.map_eq_some_iff.mp h
    simp only [Prod.mk.injEq] at hf
    exact ⟨s, runList_run hs, hf⟩
  · have h : (runList (exec .instanceManager) Free (start none 7) failedPut).map
        (fun s => (s.calls.get? 1, s.calls.get? 2, s.calls.keys, s.store)) =
        some (some ⟨⟨7, 1⟩, .returned true⟩, some ⟨⟨7, 2⟩, .returned false⟩, [1, 2], none) := by
      decide
    obtain ⟨s, hs, hf⟩ := Option.map_eq_some_iff.mp h
    simp only [Prod.mk.injEq] at hf
    exact ⟨s, runList_run hs, hf⟩

end Persistence

end PyMotor.Controller
