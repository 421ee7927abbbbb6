import PyMotor.Coordinator.CircuitBreaker.Timers

/-!
# An open circuit recovers

A circuit opens at the third failure in a row, and as long as it is open a recovery task tends it, with
a timeout that doubles from thirty seconds up to five minutes. There is one exception. The doubling
is computed before the minimum is taken, and from the 1025th power on it does not fit into a
floating-point number: `process_probe_failure` raises, the task ends, and nobody tends the circuit.
-/

namespace PyMotor.Coordinator

/-! ## What a history says about a circuit -/

def failuresStep (id : InstanceId) (n : ℕ) : CircuitEvent → ℕ
  | .failed id' => if id' = id then n + 1 else n
  | .succeeded id' => if id' = id then 0 else n
  | .recovered id' => if id' = id then 0 else n
  | .cleared id' => if id' = id then 0 else n
  | .clearedAll => 0
  | .tripped _ => n
  | .probeFailed _ => n

/-- The failures reported since the last success, recovery or clear. -/
def failures (id : InstanceId) (history : List CircuitEvent) : ℕ :=
  history.foldl (failuresStep id) 0

def tripsStep (id : InstanceId) (n : ℕ) : CircuitEvent → ℕ
  | .tripped id' => if id' = id then n + 1 else n
  | .probeFailed id' => if id' = id then n + 1 else n
  | .succeeded id' => if id' = id then 0 else n
  | .recovered id' => if id' = id then 0 else n
  | .cleared id' => if id' = id then 0 else n
  | .clearedAll => 0
  | .failed _ => n

/-- The trips and the failed probes since the record of the circuit was last reset. -/
def trips (id : InstanceId) (history : List CircuitEvent) : ℕ :=
  history.foldl (tripsStep id) 0

theorem failures_append (id : InstanceId) (history events : List CircuitEvent) :
    failures id (history ++ events) = events.foldl (failuresStep id) (failures id history) := by
  simp [failures]

theorem trips_append (id : InstanceId) (history events : List CircuitEvent) :
    trips id (history ++ events) = events.foldl (tripsStep id) (trips id history) := by
  simp [trips]

/-- The instance that an event is about, if only one. -/
def CircuitEvent.subject : CircuitEvent → Option InstanceId
  | .failed id => some id
  | .succeeded id => some id
  | .tripped id => some id
  | .probeFailed id => some id
  | .recovered id => some id
  | .cleared id => some id
  | .clearedAll => none

theorem counts_append_of_ne {id id' : InstanceId} (hid : id ≠ id') (history : List CircuitEvent)
    {events : List CircuitEvent} (h : ∀ e ∈ events, e.subject = some id) :
    failures id' (history ++ events) = failures id' history ∧
      trips id' (history ++ events) = trips id' history := by
  rw [failures_append, trips_append]
  induction events generalizing history with
  | nil => exact ⟨rfl, rfl⟩
  | cons e events ih =>
    have hsubject := h e List.mem_cons_self
    have hstep : ∀ n, failuresStep id' n e = n ∧ tripsStep id' n e = n := by
      intro n
      cases e <;> simp_all [CircuitEvent.subject, failuresStep, tripsStep]
    simp only [List.foldl_cons, hstep]
    exact ih history fun e he => h e (List.mem_cons_of_mem _ he)

theorem backoff_eq_ok {tripCount timeout : ℕ} (h : backoff tripCount = .ok timeout) :
    timeout = min (30 * 2 ^ (tripCount - 1)) 300 := by
  simp only [backoff, powerAsFloat] at h
  split at h
  · cases h
    rfl
  · cases h

theorem backoff_of_le {tripCount : ℕ} (h : tripCount ≤ 1024) :
    ∃ timeout, backoff tripCount = .ok timeout := by
  have hlt : tripCount - 1 < 1024 := by omega
  simp [backoff, powerAsFloat, hlt, Except.map]

/-! ## The invariant -/

/-- What the scheduler has about an instance agrees with the history, and a task tends the circuit if
it is open. -/
structure Circuit (s : BreakerServer) (id : InstanceId) : Prop where
  missing : s.cbManager.pool.get? id = none → failures id s.history = 0 ∧ trips id s.history = 0
  closed : ∀ st, s.cbManager.pool.get? id = some st → st.isOpen = false →
    st.tripCount = 0 ∧ trips id s.history = 0 ∧ st.failureCount = failures id s.history ∧
      st.failureCount < 3
  opened : ∀ st, s.cbManager.pool.get? id = some st → st.isOpen = true →
    st.tripCount = trips id s.history ∧ 0 < st.tripCount ∧
      ∃ timeout, backoff st.tripCount = .ok timeout ∧ Tends s.recoveryTimers s.tasks id timeout

structure RecoveryInv (s : BreakerServer) : Prop where
  quiet : s.raised = false
  table : TimerTable s.recoveryTimers s.tasks
  circuits : ∀ id, Circuit s id

theorem Circuit.frame {s s' : BreakerServer} {id : InstanceId} (h : Circuit s id)
    (hpool : s'.cbManager.pool.get? id = s.cbManager.pool.get? id)
    (hfailures : failures id s'.history = failures id s.history)
    (htrips : trips id s'.history = trips id s.history)
    (htends : ∀ timeout, Tends s.recoveryTimers s.tasks id timeout →
      Tends s'.recoveryTimers s'.tasks id timeout) : Circuit s' id := by
  constructor
  case missing =>
    rw [hpool, hfailures, htrips]
    exact h.missing
  case closed =>
    rw [hpool, hfailures, htrips]
    exact h.closed
  case opened =>
    rw [hpool, htrips]
    intro st hst hopen
    obtain ⟨hcount, hpos, timeout, hback, ht⟩ := h.opened st hst hopen
    exact ⟨hcount, hpos, timeout, hback, htends timeout ht⟩

theorem Circuit.frame_of_not_open {s s' : BreakerServer} {id : InstanceId} (h : Circuit s id)
    (hclosed : s.cbManager.isOpen id = false)
    (hpool : s'.cbManager.pool.get? id = s.cbManager.pool.get? id)
    (hhistory : s'.history = s.history) : Circuit s' id := by
  constructor
  case missing =>
    rw [hpool, hhistory]
    exact h.missing
  case closed =>
    rw [hpool, hhistory]
    exact h.closed
  case opened =>
    intro st hst hopen
    rw [hpool] at hst
    simp [CircuitBreakerManager.isOpen, hst, hopen] at hclosed

theorem Circuit.of_missing {s : BreakerServer} {id : InstanceId}
    (hpool : s.cbManager.pool.get? id = none) (hfailures : failures id s.history = 0)
    (htrips : trips id s.history = 0) : Circuit s id where
  missing _ := ⟨hfailures, htrips⟩
  closed st hst := by
    rw [hpool] at hst
    cases hst
  opened st hst := by
    rw [hpool] at hst
    cases hst

theorem Circuit.of_closed {s : BreakerServer} {id : InstanceId} (st : CircuitBreakerState)
    (hpool : s.cbManager.pool.get? id = some st) (hclosed : st.isOpen = false)
    (h : st.tripCount = 0 ∧ trips id s.history = 0 ∧ st.failureCount = failures id s.history ∧
      st.failureCount < 3) : Circuit s id where
  missing hnone := by
    rw [hpool] at hnone
    cases hnone
  closed st' hst _ := by
    rw [hpool] at hst
    cases hst
    exact h
  opened st' hst hopen := by
    rw [hpool] at hst
    cases hst
    rw [hclosed] at hopen
    cases hopen

theorem Circuit.of_open {s : BreakerServer} {id : InstanceId} (st : CircuitBreakerState)
    (hpool : s.cbManager.pool.get? id = some st) (hopen : st.isOpen = true)
    (h : st.tripCount = trips id s.history ∧ 0 < st.tripCount ∧
      ∃ timeout, backoff st.tripCount = .ok timeout ∧ Tends s.recoveryTimers s.tasks id timeout) :
    Circuit s id where
  missing hnone := by
    rw [hpool] at hnone
    cases hnone
  closed st' hst hclosed := by
    rw [hpool] at hst
    cases hst
    rw [hopen] at hclosed
    cases hclosed
  opened st' hst _ := by
    rw [hpool] at hst
    cases hst
    exact h

theorem RecoveryInv.start : RecoveryInv .start where
  quiet := rfl
  table := TimerTable.empty
  circuits _ := Circuit.of_missing rfl rfl rfl

/-- What is counted for an instance whose circuit is not open; a missing record is as good as a new
one. -/
theorem Circuit.counts {s : BreakerServer} {id : InstanceId} (h : Circuit s id)
    (hclosed : (s.cbManager.getOrCreate id).isOpen = false) :
    (s.cbManager.getOrCreate id).tripCount = 0 ∧ trips id s.history = 0 ∧
      (s.cbManager.getOrCreate id).failureCount = failures id s.history ∧
      (s.cbManager.getOrCreate id).failureCount < 3 := by
  cases hpool : s.cbManager.pool.get? id with
  | none =>
    obtain ⟨hfailures, htrips⟩ := h.missing hpool
    simp [CircuitBreakerManager.getOrCreate, hpool, CircuitBreakerState.new, hfailures, htrips]
  | some st =>
    simp only [CircuitBreakerManager.getOrCreate, hpool, Option.getD_some] at hclosed ⊢
    exact h.closed st hpool hclosed

namespace BreakerServer

variable {s : BreakerServer} {id : InstanceId}

/-- The record after one more failure. -/
def countFailure (st : CircuitBreakerState) : CircuitBreakerState :=
  { st with failureCount := st.failureCount + 1 }

/-- The record after the third failure. -/
def trip (st : CircuitBreakerState) : CircuitBreakerState :=
  ⟨.open, st.tripCount + 1, st.failureCount + 1, cbBaseTimeout⟩

theorem isOpen_eq_getOrCreate (m : CircuitBreakerManager) (id : InstanceId) :
    m.isOpen id = (m.getOrCreate id).isOpen := by
  simp only [CircuitBreakerManager.isOpen, CircuitBreakerManager.getOrCreate]
  cases m.pool.get? id <;> rfl

theorem getOrCreate_of_some {m : CircuitBreakerManager} {st : CircuitBreakerState}
    (h : m.pool.get? id = some st) : m.getOrCreate id = st := by
  simp [CircuitBreakerManager.getOrCreate, h]

theorem exists_open {m : CircuitBreakerManager} (h : m.isOpen id = true) :
    ∃ st, m.pool.get? id = some st ∧ st.isOpen = true := by
  cases hpool : m.pool.get? id with
  | none => simp [CircuitBreakerManager.isOpen, hpool] at h
  | some st => exact ⟨st, rfl, by simpa [CircuitBreakerManager.isOpen, hpool] using h⟩

theorem reportFailure_cases (h : Circuit s id) :
    (s.cbManager.isOpen id = true ∧
      s.reportFailure id = { s with
        cbManager := ⟨s.cbManager.pool.insert id (s.cbManager.getOrCreate id)⟩ }.record [.failed id]) ∨
    (s.cbManager.isOpen id = false ∧ failures id s.history + 1 < 3 ∧
      s.reportFailure id = { s with
        cbManager := ⟨s.cbManager.pool.insert id (countFailure (s.cbManager.getOrCreate id))⟩
        }.record [.failed id]) ∨
    (s.cbManager.isOpen id = false ∧ failures id s.history + 1 = 3 ∧
      s.reportFailure id = (({ s with
        cbManager := ⟨s.cbManager.pool.insert id (trip (s.cbManager.getOrCreate id))⟩
        }.record [.failed id, .tripped id]).scheduleRecovery id cbBaseTimeout).publishCircuitBreaker id
          .open) := by
  simp only [reportFailure, CircuitBreakerManager.processFailure, isOpen_eq_getOrCreate]
  cases hst : (s.cbManager.getOrCreate id).isOpen with
  | true => simp
  | false =>
    obtain ⟨htrip, -, hfailures, hlt⟩ := h.counts hst
    by_cases hfew : failures id s.history + 1 < 3
    · refine Or.inr (Or.inl ⟨rfl, hfew, ?_⟩)
      simp [hfailures, hfew, countFailure]
    · refine Or.inr (Or.inr ⟨rfl, by omega, ?_⟩)
      simp [hfailures, hfew, htrip, trip, backoff, powerAsFloat, Except.map,
        CircuitBreakerState.tripState, cbBaseTimeout, cbMaxTimeout]

end BreakerServer

open BreakerServer

/-! ## Steps about one instance -/

/-- From `s` to `s'`, only the circuit of `id` was touched. -/
structure Local (id : InstanceId) (s s' : BreakerServer) : Prop where
  quiet : s'.raised = s.raised
  table : TimerTable s.recoveryTimers s.tasks → TimerTable s'.recoveryTimers s'.tasks
  pool : ∀ id', id ≠ id' → s'.cbManager.pool.get? id' = s.cbManager.pool.get? id'
  failures : ∀ id', id ≠ id' → failures id' s'.history = failures id' s.history
  trips : ∀ id', id ≠ id' → trips id' s'.history = trips id' s.history
  tends : TimerTable s.recoveryTimers s.tasks → ∀ id', id ≠ id' → ∀ timeout,
    Tends s.recoveryTimers s.tasks id' timeout → Tends s'.recoveryTimers s'.tasks id' timeout

namespace Local

variable {s s' s'' : BreakerServer} {id : InstanceId}

theorem trans (h : Local id s s') (h' : Local id s' s'') : Local id s s'' where
  quiet := h'.quiet.trans h.quiet
  table ht := h'.table (h.table ht)
  pool id' hid := (h'.pool id' hid).trans (h.pool id' hid)
  failures id' hid := (h'.failures id' hid).trans (h.failures id' hid)
  trips id' hid := (h'.trips id' hid).trans (h.trips id' hid)
  tends ht id' hid timeout htends :=
    h'.tends (h.table ht) id' hid timeout (h.tends ht id' hid timeout htends)

theorem setPool {m : CircuitBreakerManager}
    (h : ∀ id', id ≠ id' → m.pool.get? id' = s.cbManager.pool.get? id') :
    Local id s { s with cbManager := m } where
  quiet := rfl
  table ht := ht
  pool := h
  failures _ _ := rfl
  trips _ _ := rfl
  tends _ _ _ _ ht := ht

theorem insertPool (s : BreakerServer) (id : InstanceId) (st : CircuitBreakerState) :
    Local id s { s with cbManager := ⟨s.cbManager.pool.insert id st⟩ } :=
  setPool fun _ hid => Dict.get?_insert_ne _ _ hid

theorem erasePool (s : BreakerServer) (id : InstanceId) :
    Local id s { s with cbManager := s.cbManager.clearInstance id } :=
  setPool fun _ hid => Dict.get?_erase_ne _ hid

theorem record {events : List CircuitEvent} (h : ∀ e ∈ events, e.subject = some id) :
    Local id s (s.record events) where
  quiet := rfl
  table ht := ht
  pool _ _ := rfl
  failures _ hid := (counts_append_of_ne hid s.history h).1
  trips _ hid := (counts_append_of_ne hid s.history h).2
  tends _ _ _ _ ht := ht

theorem publish (s : BreakerServer) (id : InstanceId) (state : CircuitState) :
    Local id s (s.publishCircuitBreaker id state) where
  quiet := rfl
  table ht := ht
  pool _ _ := rfl
  failures _ _ := rfl
  trips _ _ := rfl
  tends _ _ _ _ ht := ht

theorem timers {timers : Dict InstanceId ℕ} {tasks : List RecoveryTask}
    (htable : TimerTable s.recoveryTimers s.tasks → TimerTable timers tasks)
    (htends : TimerTable s.recoveryTimers s.tasks → ∀ id', id ≠ id' → ∀ timeout,
      Tends s.recoveryTimers s.tasks id' timeout → Tends timers tasks id' timeout) :
    Local id s { s with recoveryTimers := timers, tasks := tasks } where
  quiet := rfl
  table := htable
  pool _ _ := rfl
  failures _ _ := rfl
  trips _ _ := rfl
  tends := htends

theorem scheduleRecovery (s : BreakerServer) (id : InstanceId) (timeout : ℕ) :
    Local id s (s.scheduleRecovery id timeout) :=
  timers (fun ht => scheduleRecovery_table ht id timeout)
    fun ht _ hid _ htends => Tends.scheduleRecovery ht htends hid

theorem cancelRecovery (s : BreakerServer) (id : InstanceId) : Local id s (s.cancelRecovery id) :=
  timers (fun ht => cancelRecovery_table ht id) fun ht _ hid _ htends =>
    Tends.cancelRecovery ht htends hid

section Task

variable {i : ℕ} {task : RecoveryTask}

theorem task_ne (htask : s.tasks[i]? = some task) {id' : InstanceId} (hid : task.instanceId ≠ id') :
    ∀ task', s.tasks[i]? = some task' → task'.instanceId ≠ id' := by
  intro task' htask'
  rw [htask] at htask'
  cases htask'
  exact hid

theorem finishTask (htask : s.tasks[i]? = some task) : Local task.instanceId s (s.finishTask i) :=
  timers (fun ht => finishTask_table ht i) fun _ _ hid _ htends => htends.modify (task_ne htask hid)

theorem moveTask (htask : s.tasks[i]? = some task) (hlive : task.live = true) (stage : RecoveryStage) :
    Local task.instanceId s (s.moveTask i stage) :=
  timers (fun ht => moveTask_table ht htask hlive stage) fun _ _ hid _ htends =>
    htends.modify (task_ne htask hid)

theorem closeTask (htask : s.tasks[i]? = some task) :
    Local task.instanceId s (s.closeTask i task.instanceId) :=
  timers (fun ht => closeTask_table ht i task.instanceId) fun _ _ hid _ htends =>
    Tends.closeTask htends htask hid

end Task

end Local

namespace RecoveryInv

variable {s : BreakerServer} {id : InstanceId}

theorem about {s' : BreakerServer} (h : RecoveryInv s) (hlocal : Local id s s') (hown : Circuit s' id) :
    RecoveryInv s' where
  quiet := hlocal.quiet.trans h.quiet
  table := hlocal.table h.table
  circuits id' := by
    by_cases hid : id = id'
    · rw [← hid]
      exact hown
    · exact (h.circuits id').frame (hlocal.pool id' hid) (hlocal.failures id' hid)
        (hlocal.trips id' hid) (hlocal.tends h.table id' hid)

/-! ## Reports -/

theorem reportFailure (h : RecoveryInv s) (id : InstanceId) : RecoveryInv (s.reportFailure id) := by
  have hcircuit := h.circuits id
  have hsame := isOpen_eq_getOrCreate s.cbManager id
  rcases reportFailure_cases hcircuit with ⟨hopen, heq⟩ | ⟨hclosed, hfew, heq⟩ | ⟨hclosed, hthird, heq⟩
  · -- the circuit is open already, and the failure changes nothing
    rw [heq]
    obtain ⟨st, hst, hstopen⟩ := exists_open hopen
    rw [getOrCreate_of_some hst]
    apply h.about ((Local.insertPool s id st).trans (Local.record (by simp [CircuitEvent.subject])))
    apply Circuit.of_open st (by simp [record]) hstopen
    simpa [record, trips_append, tripsStep] using hcircuit.opened st hst hstopen
  · rw [heq]
    rw [hsame] at hclosed
    obtain ⟨htrip, htrips, hfailures, -⟩ := hcircuit.counts hclosed
    apply h.about ((Local.insertPool s id _).trans (Local.record (by simp [CircuitEvent.subject])))
    apply Circuit.of_closed (countFailure (s.cbManager.getOrCreate id)) (by simp [record]) hclosed
    simp [record, countFailure, failures_append, trips_append, failuresStep, tripsStep, htrip, htrips,
      hfailures]
    omega
  · rw [heq]
    rw [hsame] at hclosed
    obtain ⟨htrip, htrips, -, -⟩ := hcircuit.counts hclosed
    apply h.about ((((Local.insertPool s id _).trans (Local.record (by simp [CircuitEvent.subject]))).trans
      (Local.scheduleRecovery _ id cbBaseTimeout)).trans (Local.publish _ id .open))
    apply Circuit.of_open (trip (s.cbManager.getOrCreate id))
      (by simp [publishCircuitBreaker, scheduleRecovery, record]) rfl
    refine ⟨?_, Nat.succ_pos _, cbBaseTimeout, ?_, scheduleRecovery_tends _ id cbBaseTimeout⟩
    · simp [publishCircuitBreaker, scheduleRecovery, record, trip, trips_append, tripsStep, htrip,
        htrips]
    · simp [trip, htrip, backoff, powerAsFloat, Except.map, cbBaseTimeout, cbMaxTimeout]

theorem reportSuccess (h : RecoveryInv s) (id : InstanceId) : RecoveryInv (s.reportSuccess id) := by
  cases hpool : s.cbManager.pool.get? id with
  | none =>
    simp only [BreakerServer.reportSuccess, CircuitBreakerManager.processSuccess, hpool]
    have hlocal : Local id s (s.record [.succeeded id]) :=
      Local.record (by simp [CircuitEvent.subject])
    apply h.about hlocal
    apply Circuit.of_missing (by simpa [record] using hpool)
    · simp [record, failures_append, failuresStep]
    · simp [record, trips_append, tripsStep]
  | some st =>
    simp only [BreakerServer.reportSuccess, CircuitBreakerManager.processSuccess, hpool]
    have hreset : st.reset.isOpen = false := rfl
    cases hopen : st.isOpen with
    | false =>
      apply h.about ((Local.insertPool s id _).trans (Local.record (by simp [CircuitEvent.subject])))
      apply Circuit.of_closed st.reset (by simp [record]) hreset
      simp [record, failures_append, trips_append, failuresStep, tripsStep, CircuitBreakerState.reset]
    | true =>
      apply h.about ((((Local.insertPool s id _).trans
        (Local.record (by simp [CircuitEvent.subject]))).trans
        (Local.cancelRecovery _ id)).trans (Local.publish _ id .closed))
      apply Circuit.of_closed st.reset
        (by simp [publishCircuitBreaker, cancelRecovery, record]) hreset
      simp [publishCircuitBreaker, cancelRecovery, record, failures_append, trips_append, failuresStep,
        tripsStep, CircuitBreakerState.reset]

/-! ## Refresh events -/

theorem clearCircuit (h : RecoveryInv s) (id : InstanceId) : RecoveryInv (s.clearCircuit id) := by
  apply h.about (((Local.erasePool s id).trans (Local.record (by simp [CircuitEvent.subject]))).trans
    (Local.cancelRecovery _ id))
  apply Circuit.of_missing
  · simp [cancelRecovery, record, CircuitBreakerManager.clearInstance]
  · simp [cancelRecovery, record, failures_append, failuresStep]
  · simp [cancelRecovery, record, trips_append, tripsStep]

theorem clearCircuits (h : RecoveryInv s) : RecoveryInv s.clearCircuits where
  quiet := h.quiet
  table := cancelAll_table h.table
  circuits id := by
    apply Circuit.of_missing
    · rfl
    · simp [BreakerServer.clearCircuits, record, failures_append, failuresStep]
    · simp [BreakerServer.clearCircuits, record, trips_append, tripsStep]

/-- The circuits do not depend on the pools of instances and on what is published. -/
theorem congr {server : SchedulerServer} {closedToPublish : List InstanceId}
    {channel : List Publication} (h : RecoveryInv s) :
    RecoveryInv { s with
      server := server, closedToPublish := closedToPublish, channel := channel } where
  quiet := h.quiet
  table := h.table
  circuits id := (h.circuits id).frame rfl rfl rfl fun _ ht => ht

theorem resetCircuits (h : RecoveryInv s) (eventType : EventType) (instances : List Instance) :
    RecoveryInv (s.resetCircuits eventType instances) := by
  cases eventType with
  | set => exact h.clearCircuits
  | del =>
    simp only [BreakerServer.resetCircuits]
    induction instances generalizing s with
    | nil => exact h
    | cons inst instances ih => exact ih (h.clearCircuit inst.id)
  | add => exact h
  | pause => exact h
  | resume => exact h

theorem handleRefreshInstances (h : RecoveryInv s) (σ : HashOrder InstanceId) (eventType : EventType)
    (instances : List Instance) : RecoveryInv (s.handleRefreshInstances σ eventType instances) := by
  simp only [BreakerServer.handleRefreshInstances]
  split
  · exact h.congr
  · exact (h.congr.resetCircuits eventType instances).congr

/-! ## Recovery -/

section Task

variable {i : ℕ} {task : RecoveryTask}

/-- A live task that has come to its publication finds the circuit closed: otherwise the task that
tends the circuit would be registered in its place. -/
theorem not_open_of_publishing (h : RecoveryInv s) (htask : s.tasks[i]? = some task)
    (hlive : task.live = true) (hstage : task.stage ≠ .sleeping ∧ task.stage ≠ .probing) :
    s.cbManager.isOpen task.instanceId = false := by
  by_contra hopen
  obtain ⟨st, hst, hstopen⟩ := exists_open (by simpa using hopen)
  obtain ⟨-, -, timeout, -, j, other, hj, hother, -, -, hearly, -⟩ :=
    (h.circuits task.instanceId).opened st hst hstopen
  rw [h.table.registered i task htask hlive] at hj
  cases hj
  rw [htask] at hother
  cases hother
  rcases hearly with hsleeping | hprobing
  · exact hstage.1 hsleeping
  · exact hstage.2 hprobing

/-- A failed probe. The back-off of the circuit must still fit into a floating-point number. -/
theorem probeFailed (h : RecoveryInv s) (htask : s.tasks[i]? = some task)
    (hfits : (s.cbManager.getOrCreate task.instanceId).tripCount < 1024) :
    RecoveryInv (s.probeFailed i task.instanceId) := by
  have hcircuit := h.circuits task.instanceId
  cases hopen : s.cbManager.isOpen task.instanceId with
  | false =>
    have hnone : s.cbManager.processProbeFailure task.instanceId = (.ok none, s.cbManager) := by
      simp only [CircuitBreakerManager.isOpen, CircuitBreakerManager.processProbeFailure] at hopen ⊢
      cases hpool : s.cbManager.pool.get? task.instanceId with
      | none => rfl
      | some st => simp_all
    simp only [BreakerServer.probeFailed, hnone]
    apply h.about (Local.finishTask htask)
    exact hcircuit.frame_of_not_open hopen rfl rfl
  | true =>
    obtain ⟨st, hst, hstopen⟩ := exists_open hopen
    obtain ⟨hcount, hpos, -⟩ := hcircuit.opened st hst hstopen
    rw [getOrCreate_of_some hst] at hfits
    obtain ⟨timeout, hback⟩ := backoff_of_le (Nat.succ_le_of_lt hfits)
    simp only [BreakerServer.probeFailed, CircuitBreakerManager.processProbeFailure, hst, hstopen,
      hback, if_true]
    have hlt : i < s.tasks.length := (List.getElem?_eq_some_iff.mp htask).1
    set s₁ := { s with cbManager := ⟨s.cbManager.pool.insert task.instanceId
      ⟨st.state, st.tripCount + 1, st.failureCount, timeout⟩⟩ }.record [.probeFailed task.instanceId]
      with hs₁
    have hcounted : Local task.instanceId s s₁ :=
      (Local.insertPool s task.instanceId _).trans (Local.record (by simp [CircuitEvent.subject]))
    obtain ⟨task', htask', hid'⟩ :=
      scheduleRecovery_task (s := s₁) htask task.instanceId timeout
    have hfinish := Local.finishTask htask'
    rw [hid'] at hfinish
    apply h.about ((hcounted.trans (Local.scheduleRecovery _ _ timeout)).trans hfinish)
    refine Circuit.of_open ⟨st.state, st.tripCount + 1, st.failureCount, timeout⟩
      (by simp [hs₁, finishTask, scheduleRecovery, record]) ?_ ⟨?_, Nat.succ_pos _, timeout, hback, ?_⟩
    · simpa [CircuitBreakerState.isOpen] using hstopen
    · simp [hs₁, finishTask, scheduleRecovery, record, trips_append, tripsStep, hcount]
    · -- the successor is another task
      apply (scheduleRecovery_tends s₁ task.instanceId timeout).modify_of_not_registered
      simp only [hs₁, scheduleRecovery, record, Dict.get?_insert_self, ne_eq, Option.some.injEq]
      omega

theorem drop {s' : BreakerServer} (h : RecoveryInv s) (hlocal : Local task.instanceId s s')
    (hpool : s'.cbManager = s.cbManager) (hhistory : s'.history = s.history)
    (hnot : s.recoveryTimers.get? task.instanceId = some i →
      s.cbManager.isOpen task.instanceId = false)
    (hkeep : s.recoveryTimers.get? task.instanceId ≠ some i → ∀ timeout,
      Tends s.recoveryTimers s.tasks task.instanceId timeout →
      Tends s'.recoveryTimers s'.tasks task.instanceId timeout) : RecoveryInv s' := by
  apply h.about hlocal
  cases hopen : s.cbManager.isOpen task.instanceId with
  | false => exact (h.circuits task.instanceId).frame_of_not_open hopen (by rw [hpool]) hhistory
  | true =>
    apply (h.circuits task.instanceId).frame (by rw [hpool]) (by rw [hhistory]) (by rw [hhistory])
    apply hkeep
    intro hreg
    rw [hnot hreg] at hopen
    cases hopen

theorem finishTask (h : RecoveryInv s) (htask : s.tasks[i]? = some task)
    (hnot : s.recoveryTimers.get? task.instanceId = some i →
      s.cbManager.isOpen task.instanceId = false) : RecoveryInv (s.finishTask i) :=
  h.drop (Local.finishTask htask) rfl rfl hnot fun hne _ ht => ht.modify_of_not_registered hne

theorem closeTask (h : RecoveryInv s) (htask : s.tasks[i]? = some task)
    (hnot : s.recoveryTimers.get? task.instanceId = some i →
      s.cbManager.isOpen task.instanceId = false) :
    RecoveryInv (s.closeTask i task.instanceId) := by
  apply h.drop (Local.closeTask htask) rfl rfl hnot
  intro hne timeout ht
  simp only [BreakerServer.closeTask, BreakerServer.finishTask, hne, if_false]
  exact ht.modify_of_not_registered hne

theorem probeSucceeded (h : RecoveryInv s) (htask : s.tasks[i]? = some task)
    (hlive : task.live = true) : RecoveryInv (s.probeSucceeded i task.instanceId) := by
  cases hopen : s.cbManager.isOpen task.instanceId with
  | false =>
    have hnone : s.cbManager.autoRecover task.instanceId = (false, s.cbManager) := by
      simp only [CircuitBreakerManager.isOpen, CircuitBreakerManager.autoRecover] at hopen ⊢
      cases hpool : s.cbManager.pool.get? task.instanceId with
      | none => rfl
      | some st => simp_all
    simp only [BreakerServer.probeSucceeded, hnone]
    exact h.closeTask htask fun _ => hopen
  | true =>
    obtain ⟨st, hst, hstopen⟩ := exists_open hopen
    simp only [BreakerServer.probeSucceeded, CircuitBreakerManager.autoRecover, hst, hstopen, if_true]
    set s₁ := ({ s with cbManager := ⟨s.cbManager.pool.insert task.instanceId st.reset⟩
      }.record [.recovered task.instanceId]).publishCircuitBreaker task.instanceId .closed with hs₁
    have hclosed : Local task.instanceId s s₁ :=
      ((Local.insertPool s task.instanceId _).trans
        (Local.record (by simp [CircuitEvent.subject]))).trans (Local.publish _ _ .closed)
    have htask₁ : s₁.tasks[i]? = some task := htask
    have hmove := Local.moveTask htask₁ hlive .closing
    apply h.about (hclosed.trans hmove)
    apply Circuit.of_closed st.reset
    · simp [hs₁, moveTask, publishCircuitBreaker, record]
    · rfl
    · simp [hs₁, moveTask, publishCircuitBreaker, record, failures_append, trips_append, failuresStep,
        tripsStep, CircuitBreakerState.reset]

theorem moveTask_probing (h : RecoveryInv s) (htask : s.tasks[i]? = some task)
    (hlive : task.live = true) : RecoveryInv (s.moveTask i .probing) := by
  apply h.about (Local.moveTask htask hlive .probing)
  apply (h.circuits task.instanceId).frame
  · rfl
  · rfl
  · rfl
  · intro timeout ⟨j, task', hj, htask', hid, hl, hstage, htimeout⟩
    rw [h.table.registered i task htask hlive] at hj
    cases hj
    rw [htask] at htask'
    cases htask'
    refine ⟨i, { task with stage := .probing }, h.table.registered i task htask hlive, ?_, rfl, ?_,
      Or.inr rfl, htimeout⟩
    · simp [moveTask, htask]
    · simp only [RecoveryTask.live, Bool.and_eq_true] at hl ⊢
      exact ⟨by simp, hl.2⟩

theorem probeInstance (h : RecoveryInv s) (htask : s.tasks[i]? = some task) (hlive : task.live = true)
    (hasEndpoints : Bool)
    (hfits : s.isAvailable task.instanceId = true → hasEndpoints = false →
      (s.cbManager.getOrCreate task.instanceId).tripCount < 1024) :
    RecoveryInv (s.probeInstance i task.instanceId hasEndpoints) := by
  unfold BreakerServer.probeInstance
  cases havail : s.isAvailable task.instanceId with
  | false =>
    simp only [Bool.not_false, if_true]
    set s₁ := ({ s with cbManager := s.cbManager.clearInstance task.instanceId
      }.record [.cleared task.instanceId]).publishCircuitBreaker task.instanceId .closed with hs₁
    have hcleared : Local task.instanceId s s₁ :=
      ((Local.erasePool s task.instanceId).trans
        (Local.record (by simp [CircuitEvent.subject]))).trans (Local.publish _ _ .closed)
    have htask₁ : s₁.tasks[i]? = some task := htask
    have hmove := Local.moveTask htask₁ hlive .dropping
    apply h.about (hcleared.trans hmove)
    apply Circuit.of_missing
    · simp [hs₁, moveTask, publishCircuitBreaker, record, CircuitBreakerManager.clearInstance]
    · simp [hs₁, moveTask, publishCircuitBreaker, record, failures_append, failuresStep]
    · simp [hs₁, moveTask, publishCircuitBreaker, record, trips_append, tripsStep]
  | true =>
    cases hasEndpoints with
    | false => exact h.probeFailed htask (hfits havail rfl)
    | true => exact h.moveTask_probing htask hlive

theorem resumeTask {s' : BreakerServer} (h : RecoveryInv s) (htask : s.tasks[i]? = some task)
    (hlive : task.live = true) (hs : s.resumeTask i task = some s') : RecoveryInv s' := by
  have hnot := h.not_open_of_publishing htask hlive
  unfold BreakerServer.resumeTask at hs
  cases hstage : task.stage <;> rw [hstage] at hs hnot <;> cases hs
  · -- the circuit was cleared, so the probe does not count
    apply h.probeFailed htask
    have hclosed := hnot ⟨by simp, by simp⟩
    rw [isOpen_eq_getOrCreate] at hclosed
    rw [((h.circuits _).counts hclosed).1]
    omega
  · exact h.closeTask htask fun _ => hnot ⟨by simp, by simp⟩

theorem cancelTask {s' : BreakerServer} (h : RecoveryInv s) (htask : s.tasks[i]? = some task)
    (hcancelled : task.cancelRequested = true) (hs : s.cancelTask i task = some s') :
    RecoveryInv s' := by
  -- the task that tends an open circuit was not cancelled
  have hnot : s.recoveryTimers.get? task.instanceId = some i →
      s.cbManager.isOpen task.instanceId = false := by
    intro hreg
    by_contra hopen
    obtain ⟨st, hst, hstopen⟩ := exists_open (by simpa using hopen)
    obtain ⟨-, -, -, -, j, task', hj, htask', -, hl, -⟩ := (h.circuits _).opened st hst hstopen
    rw [hreg] at hj
    cases hj
    rw [htask] at htask'
    cases htask'
    simp [RecoveryTask.live, hcancelled] at hl
  have hfinish := h.finishTask htask hnot
  unfold BreakerServer.cancelTask at hs
  cases hstage : task.stage <;> rw [hstage] at hs <;> cases hs
  · exact hfinish
  · exact hfinish
  · exact hfinish
  · exact h.closeTask htask hnot

end Task

end RecoveryInv

end PyMotor.Coordinator
