import PyMotor.Coordinator.CircuitBreaker.Recovery

/-!
# When a circuit opens, and that it recovers

A reported failure is the only step that opens a circuit, and the invariant says which one does. Over
whole runs, the invariant gives that every open circuit is tended, as long as no probe fails of a
circuit that has used up the floating-point numbers.
-/

namespace PyMotor.Coordinator

/-! ## When a circuit opens -/

namespace CircuitBreakerManager

variable {m : CircuitBreakerManager} {id id' : InstanceId}

theorem isOpen_of_insert {st : CircuitBreakerState}
    (h : (⟨m.pool.insert id' st⟩ : CircuitBreakerManager).isOpen id = true)
    (hst : id' = id → st.isOpen = true → m.isOpen id = true) : m.isOpen id = true := by
  simp only [isOpen, Dict.get?_insert] at h
  split at h
  · cases h
  · next heq =>
    split at heq
    · next hid =>
      cases heq
      exact hst hid h
    · simpa [isOpen, heq] using h

theorem isOpen_of_clearInstance (h : (m.clearInstance id').isOpen id = true) : m.isOpen id = true := by
  simp only [clearInstance, isOpen, Dict.get?_erase] at h
  split at h
  · cases h
  · next heq =>
    split at heq
    · cases heq
    · simpa [isOpen, heq] using h

theorem isOpen_of_processSuccess (h : (m.processSuccess id').2.isOpen id = true) :
    m.isOpen id = true := by
  unfold processSuccess at h
  split at h
  · exact h
  · exact isOpen_of_insert h fun _ hreset => by cases hreset

theorem isOpen_of_processProbeFailure (h : (m.processProbeFailure id').2.isOpen id = true) :
    m.isOpen id = true := by
  unfold processProbeFailure at h
  split at h
  · exact h
  · next st hst =>
    cases hopen : st.isOpen with
    | false => simpa [hopen] using h
    | true =>
      have hwas : id' = id → m.isOpen id = true := by
        intro hid
        subst hid
        simp [isOpen, hst, hopen]
      simp only [hopen, if_true] at h
      split at h
      · exact isOpen_of_insert h fun hid _ => hwas hid
      · exact isOpen_of_insert h fun hid _ => hwas hid

theorem isOpen_of_autoRecover (h : (m.autoRecover id').2.isOpen id = true) : m.isOpen id = true := by
  unfold autoRecover at h
  split at h
  · exact h
  · split at h
    · exact isOpen_of_insert h fun _ hreset => by cases hreset
    · exact h

end CircuitBreakerManager

namespace BreakerServer

open CircuitBreakerManager

variable {s s' : BreakerServer} {id : InstanceId} {i : ℕ}

theorem isOpen_of_resetCircuits {eventType : EventType} {instances : List Instance}
    (h : (s.resetCircuits eventType instances).cbManager.isOpen id = true) :
    s.cbManager.isOpen id = true := by
  cases eventType with
  | set => cases h
  | del =>
    simp only [resetCircuits] at h
    induction instances generalizing s with
    | nil => exact h
    | cons inst instances ih => exact isOpen_of_clearInstance (ih h)
  | add => exact h
  | pause => exact h
  | resume => exact h

theorem isOpen_of_handleRefreshInstances {σ : HashOrder InstanceId} {eventType : EventType}
    {instances : List Instance}
    (h : (s.handleRefreshInstances σ eventType instances).cbManager.isOpen id = true) :
    s.cbManager.isOpen id = true := by
  unfold handleRefreshInstances at h
  split at h
  · exact h
  · generalize s.server.handleRefreshInstances σ eventType instances = r at h
    obtain ⟨server, changed⟩ := r
    exact isOpen_of_resetCircuits (s := { s with server := server }) h

theorem cbManager_probeFailed (s : BreakerServer) (i : ℕ) (id : InstanceId) :
    (s.probeFailed i id).cbManager = (s.cbManager.processProbeFailure id).2 := by
  unfold probeFailed
  split <;> next heq => simp [heq, finishTask, scheduleRecovery, record]

theorem cbManager_probeSucceeded (s : BreakerServer) (i : ℕ) (id : InstanceId) :
    (s.probeSucceeded i id).cbManager = (s.cbManager.autoRecover id).2 := by
  unfold probeSucceeded
  split <;> next heq =>
    simp [heq, moveTask, publishCircuitBreaker, closeTask, finishTask, record]

theorem cbManager_reportSuccess (s : BreakerServer) (id : InstanceId) :
    (s.reportSuccess id).cbManager = (s.cbManager.processSuccess id).2 := by
  unfold reportSuccess
  split <;> next heq => simp [heq, publishCircuitBreaker, cancelRecovery, record]

theorem isOpen_of_probeFailed {id' : InstanceId} (h : (s.probeFailed i id').cbManager.isOpen id = true) :
    s.cbManager.isOpen id = true := by
  rw [cbManager_probeFailed] at h
  exact isOpen_of_processProbeFailure h

theorem isOpen_of_probeInstance {id' : InstanceId} {hasEndpoints : Bool}
    (h : (s.probeInstance i id' hasEndpoints).cbManager.isOpen id = true) :
    s.cbManager.isOpen id = true := by
  unfold probeInstance at h
  split at h
  · exact isOpen_of_clearInstance h
  · split at h
    · exact isOpen_of_probeFailed h
    · exact h

/-- **No step but a reported failure opens a circuit.** -/
theorem isOpen_of_exec {l : BreakerStep} (hs : s.exec l = some s')
    (hl : ∀ id', l ≠ .report id' .failure) (h : s'.cbManager.isOpen id = true) :
    s.cbManager.isOpen id = true := by
  cases l with
  | refresh σ eventType instances =>
    cases hs
    exact isOpen_of_handleRefreshInstances h
  | report id' event =>
    cases event with
    | failure => exact absurd rfl (hl id')
    | success =>
      cases hs
      simp only [handleCircuitBreakerReport, cbManager_reportSuccess] at h
      exact isOpen_of_processSuccess h
  | snapshot =>
    cases hs
    exact h
  | fire i hasEndpoints =>
    obtain ⟨task, htask, hs⟩ := Option.bind_eq_some_iff.mp hs
    split at hs
    · cases hs
      exact isOpen_of_probeInstance h
    · cases hs
  | probed i healthy =>
    obtain ⟨task, htask, hs⟩ := Option.bind_eq_some_iff.mp hs
    split at hs
    · cases hs
      split at h
      · rw [cbManager_probeSucceeded] at h
        exact isOpen_of_autoRecover h
      · exact isOpen_of_probeFailed h
    · cases hs
  | resume i =>
    obtain ⟨task, htask, hs⟩ := Option.bind_eq_some_iff.mp hs
    split at hs
    · unfold resumeTask at hs
      -- a task that goes on takes in that its probe failed, or is at its end
      cases hstage : task.stage <;> rw [hstage] at hs <;> cases hs
      · exact isOpen_of_probeFailed h
      · exact h
    · cases hs
  | cancelled i =>
    obtain ⟨task, htask, hs⟩ := Option.bind_eq_some_iff.mp hs
    split at hs
    · unfold cancelTask at hs
      cases hstage : task.stage <;> rw [hstage] at hs <;> cases hs <;> exact h
    · cases hs
  | publishClosed i =>
    obtain ⟨id', hid', rfl⟩ := Option.map_eq_some_iff.mp hs
    exact h

/-- **A circuit opens exactly at the third failure in a row** that is reported while it is closed. -/
theorem opens_iff {l : BreakerStep} (h : RecoveryInv s) (hs : s.exec l = some s') (id : InstanceId) :
    (s.cbManager.isOpen id = false ∧ s'.cbManager.isOpen id = true) ↔
      (l = .report id .failure ∧ s.cbManager.isOpen id = false ∧ failures id s'.history = 3) := by
  constructor
  · rintro ⟨hbefore, hafter⟩
    by_cases hl : ∃ id', l = .report id' .failure
    · obtain ⟨id', rfl⟩ := hl
      cases hs
      simp only [handleCircuitBreakerReport] at hafter ⊢
      -- whatever the record becomes, only a trip opens it
      have hcontra : s.cbManager.isOpen id ≠ true := by simp [hbefore]
      have hsame : id' = id → (s.cbManager.getOrCreate id').isOpen = true →
          s.cbManager.isOpen id = true := by
        intro hid hopen
        rw [← hid, isOpen_eq_getOrCreate]
        exact hopen
      rcases reportFailure_cases (h.circuits id') with ⟨-, heq⟩ | ⟨-, -, heq⟩ | ⟨-, hthird, heq⟩
      · rw [heq] at hafter
        exact absurd (isOpen_of_insert hafter hsame) hcontra
      · rw [heq] at hafter
        exact absurd (isOpen_of_insert hafter hsame) hcontra
      · by_cases hid : id' = id
        · subst hid
          refine ⟨rfl, hbefore, ?_⟩
          rw [heq]
          simpa [publishCircuitBreaker, scheduleRecovery, record, failures_append, failuresStep]
            using hthird
        · rw [heq] at hafter
          exact absurd (isOpen_of_insert hafter fun h' => absurd h' hid) hcontra
    · have := isOpen_of_exec hs (fun id' hl' => hl ⟨id', hl'⟩) hafter
      rw [this] at hbefore
      cases hbefore
  · rintro ⟨rfl, hbefore, hthree⟩
    refine ⟨hbefore, ?_⟩
    cases hs
    simp only [handleCircuitBreakerReport] at hthree ⊢
    rcases reportFailure_cases (h.circuits id) with ⟨hopen, -⟩ | ⟨-, hfew, heq⟩ | ⟨-, -, heq⟩
    · rw [hopen] at hbefore
      cases hbefore
    · rw [heq] at hthree
      simp [record, failures_append, failuresStep] at hthree
      omega
    · rw [heq]
      simp [publishCircuitBreaker, scheduleRecovery, record, CircuitBreakerManager.isOpen, trip,
        CircuitBreakerState.isOpen]

end BreakerServer

/-! ## Runs -/

open BreakerServer

/-- The instance whose probe fails in a step. -/
def BreakerServer.probesInVain (s : BreakerServer) : BreakerStep → Option InstanceId
  | .fire i false =>
    s.tasks[i]?.bind fun task => if s.isAvailable task.instanceId then some task.instanceId else none
  | .probed i false => s.tasks[i]?.map RecoveryTask.instanceId
  | _ => none

/-- No probe fails of a circuit that has counted 1024 trips and failed probes already. -/
def BackoffFits (s : BreakerServer) (l : BreakerStep) : Prop :=
  ∀ id ∈ s.probesInVain l, (s.cbManager.getOrCreate id).tripCount < 1024

instance (s : BreakerServer) (l : BreakerStep) : Decidable (BackoffFits s l) :=
  match h : s.probesInVain l with
  | none => isTrue (by simp [BackoffFits, h])
  | some id => decidable_of_iff ((s.cbManager.getOrCreate id).tripCount < 1024) (by simp [BackoffFits, h])

theorem RecoveryInv.exec {s s' : BreakerServer} {l : BreakerStep} (h : RecoveryInv s)
    (hfits : BackoffFits s l) (hs : s.exec l = some s') : RecoveryInv s' := by
  cases l with
  | refresh σ eventType instances =>
    cases hs
    exact h.handleRefreshInstances σ eventType instances
  | report id event =>
    cases hs
    cases event with
    | failure => exact h.reportFailure id
    | success => exact h.reportSuccess id
  | snapshot =>
    cases hs
    exact h.congr
  | fire i hasEndpoints =>
    obtain ⟨task, htask, hs⟩ := Option.bind_eq_some_iff.mp hs
    split at hs
    · next hsleeping =>
      cases hs
      -- a probe of an instance without endpoints fails at once
      apply h.probeInstance htask hsleeping.1
      intro havail hnone
      subst hnone
      apply hfits
      simp [probesInVain, htask, havail]
    · cases hs
  | probed i healthy =>
    obtain ⟨task, htask, hs⟩ := Option.bind_eq_some_iff.mp hs
    split at hs
    · next hprobing =>
      cases hs
      cases healthy with
      | true => exact h.probeSucceeded htask hprobing.1
      | false =>
        apply h.probeFailed htask
        apply hfits
        simp [probesInVain, htask]
    · cases hs
  | resume i =>
    obtain ⟨task, htask, hs⟩ := Option.bind_eq_some_iff.mp hs
    split at hs
    · next hlive => exact h.resumeTask htask hlive hs
    · cases hs
  | cancelled i =>
    obtain ⟨task, htask, hs⟩ := Option.bind_eq_some_iff.mp hs
    split at hs
    · next hcancelled => exact h.cancelTask htask hcancelled hs
    · cases hs
  | publishClosed i =>
    obtain ⟨id, hid, rfl⟩ := Option.map_eq_some_iff.mp hs
    exact h.congr

theorem RecoveryInv.run {s : BreakerServer} {ls : List BreakerStep}
    (h : Run BreakerServer.exec BackoffFits .start ls s) : RecoveryInv s :=
  h.invariant_state RecoveryInv.start fun hinv hfits hs => hinv.exec hfits hs

/-- **A tripped circuit recovers** as long as the back-off fits into a floating-point number: no method
of the manager raises, a circuit opens exactly at the third failure in a row, and whenever it is open a
task is about to probe the instance, `min (30 * 2 ^ (k - 1)) 300` seconds after its `k`-th trip or
failed probe. -/
theorem tripped_circuit_recovers {ls : List BreakerStep} {s : BreakerServer}
    (h : Run BreakerServer.exec BackoffFits .start ls s) :
    s.raised = false ∧
    (∀ id, s.cbManager.isOpen id = true → ∃ i task, s.recoveryTimers.get? id = some i ∧
      s.tasks[i]? = some task ∧ task.instanceId = id ∧ task.live = true ∧
      task.timeout = min (30 * 2 ^ (trips id s.history - 1)) 300) ∧
    ∀ l s', s.exec l = some s' → ∀ id,
      (s.cbManager.isOpen id = false ∧ s'.cbManager.isOpen id = true) ↔
        (l = .report id .failure ∧ s.cbManager.isOpen id = false ∧ failures id s'.history = 3) := by
  have hinv := RecoveryInv.run h
  refine ⟨hinv.quiet, ?_, fun l s' hs id => opens_iff hinv hs id⟩
  intro id hopen
  obtain ⟨st, hst, hstopen⟩ := exists_open hopen
  obtain ⟨hcount, -, timeout, hback, i, task, hi, htask, hid, hlive, -, htimeout⟩ :=
    (hinv.circuits id).opened st hst hstopen
  refine ⟨i, task, hi, htask, hid, hlive, ?_⟩
  rw [htimeout, backoff_eq_ok hback, hcount]

/-! ## A long outage -/

def outageInstance : Instance where
  jobName := "job"
  modelName := "model"
  engineType := none
  dispatchCapabilities := []
  id := 7
  role := "prefill"
  parallelConfig := none
  enableMultiEndpoints := true
  nodeManagers := []
  endpoints := (∅ : Dict _ _).insert "10.0.0.1"
    ((∅ : Dict _ _).insert 0 ⟨0, "10.0.0.1", "8000", "8001", none, [], .zero, false⟩)
  gatheredWorkload := .zero

/-- The instance fails three times, and then `n` probes. -/
def outage (n : ℕ) : List BreakerStep :=
  [.refresh .insertion .add [outageInstance], .report 7 .failure, .report 7 .failure,
    .report 7 .failure] ++
    (List.range n).flatMap fun i => [.fire i true, .probed i false]

/-- After `n` failed probes the next one is due. -/
structure Waiting (n : ℕ) (s : BreakerServer) : Prop where
  available : s.isAvailable 7 = true
  record : ∃ timeout, s.cbManager.pool.get? 7 = some ⟨.open, n + 1, 3, timeout⟩
  registered : s.recoveryTimers.get? 7 = some n
  sleeping : ∃ timeout, s.tasks[n]? = some ⟨7, timeout, .sleeping, false⟩
  count : s.tasks.length = n + 1

theorem Waiting.fire {n : ℕ} {s : BreakerServer} (h : Waiting n s) :
    s.exec (.fire n true) = some (s.moveTask n .probing) := by
  obtain ⟨timeout, hsleeping⟩ := h.sleeping
  simp [BreakerServer.exec, hsleeping, RecoveryTask.live, probeInstance, h.available]

theorem Waiting.probed {n : ℕ} {s : BreakerServer} (h : Waiting n s) :
    (s.moveTask n .probing).exec (.probed n false) =
      some ((s.moveTask n .probing).probeFailed n 7) := by
  obtain ⟨timeout, hsleeping⟩ := h.sleeping
  simp [BreakerServer.exec, moveTask, hsleeping, RecoveryTask.live]

theorem Waiting.next {n : ℕ} {s : BreakerServer} (h : Waiting n s) (hn : n + 1 < 1024) :
    Waiting (n + 1) ((s.moveTask n .probing).probeFailed n 7) := by
  obtain ⟨timeout, hpool⟩ := h.record
  obtain ⟨next, hback⟩ := backoff_of_le (show n + 1 + 1 ≤ 1024 by omega)
  have hopen : (⟨.open, n + 1, 3, timeout⟩ : CircuitBreakerState).isOpen = true := rfl
  have hlen := h.count
  simp only [probeFailed, CircuitBreakerManager.processProbeFailure, moveTask, hpool, hopen, hback,
    if_true]
  constructor
  case available => exact h.available
  case record => exact ⟨next, by simp [finishTask, scheduleRecovery, BreakerServer.record]⟩
  case registered =>
    simp [finishTask, scheduleRecovery, BreakerServer.record, hlen]
  case sleeping =>
    refine ⟨next, ?_⟩
    simp [finishTask, scheduleRecovery, BreakerServer.record, cancelTimer, h.registered, hlen]
  case count =>
    simp [finishTask, scheduleRecovery, BreakerServer.record, cancelTimer, h.registered, hlen]

theorem outage_succ (n : ℕ) : outage (n + 1) = outage n ++ [.fire n true] ++ [.probed n false] := by
  simp [outage, List.range_succ]

theorem outage_waiting (n : ℕ) (hn : n < 1024) :
    ∃ s, Run BreakerServer.exec Free .start (outage n) s ∧ Waiting n s := by
  induction n with
  | zero =>
    have h : (runList BreakerServer.exec Free .start (outage 0)).map (fun s =>
        (s.isAvailable 7, s.cbManager.pool.get? 7, s.recoveryTimers.get? 7, s.tasks)) =
        some (true, some ⟨.open, 1, 3, 30⟩, some 0, [⟨7, 30, .sleeping, false⟩]) := by
      rfl
    obtain ⟨s, hs, hf⟩ := Option.map_eq_some_iff.mp h
    simp only [Prod.mk.injEq] at hf
    obtain ⟨havail, hpool, htimer, htasks⟩ := hf
    exact ⟨s, runList_run hs, havail, ⟨30, hpool⟩, htimer, ⟨30, by simp [htasks]⟩, by simp [htasks]⟩
  | succ n ih =>
    obtain ⟨s, hrun, hwaiting⟩ := ih (by omega)
    refine ⟨_, ?_, hwaiting.next hn⟩
    rw [outage_succ]
    exact (hrun.snoc trivial hwaiting.fire).snoc trivial hwaiting.probed

/-- Three failures and a failed probe: the next one is a minute away. -/
theorem tripped_circuit_recovers_outage :
    ∃ s, Run BreakerServer.exec BackoffFits .start (outage 1) s ∧ s.cbManager.isOpen 7 = true ∧
      ∃ i task, s.recoveryTimers.get? 7 = some i ∧ s.tasks[i]? = some task ∧
        task.timeout = 60 := by
  have h : (runList BreakerServer.exec BackoffFits .start (outage 1)).map (fun s =>
      (s.cbManager.isOpen 7, trips 7 s.history)) = some (true, 2) := by
    rfl
  obtain ⟨s, hs, hf⟩ := Option.map_eq_some_iff.mp h
  simp only [Prod.mk.injEq] at hf
  have hrun := runList_run hs
  obtain ⟨-, htended, -⟩ := tripped_circuit_recovers hrun
  obtain ⟨i, task, hi, htask, -, -, htimeout⟩ := htended 7 hf.1
  rw [hf.2] at htimeout
  exact ⟨s, hrun, hf.1, i, task, hi, htask, htimeout⟩

/-- The 1024th failed probe in a row raises, and nobody tends the circuit any more. -/
theorem long_outage_never_recovers :
    ∃ s, Run BreakerServer.exec Free .start (outage 1024) s ∧ s.raised = true ∧
      s.cbManager.isOpen 7 = true ∧
      ¬ ∃ i task, s.recoveryTimers.get? 7 = some i ∧ s.tasks[i]? = some task ∧ task.live = true := by
  obtain ⟨s, hrun, hwaiting⟩ := outage_waiting 1023 (by omega)
  have hfinal := (hrun.snoc trivial hwaiting.fire).snoc trivial hwaiting.probed
  rw [← outage_succ 1023] at hfinal
  refine ⟨_, hfinal, ?_⟩
  obtain ⟨timeout, hpool⟩ := hwaiting.record
  have hopen : (⟨.open, 1024, 3, timeout⟩ : CircuitBreakerState).isOpen = true := rfl
  have hback : backoff 1025 = .error .tooLarge := rfl
  simp only [probeFailed, CircuitBreakerManager.processProbeFailure, moveTask, hpool, hopen, hback,
    if_true]
  refine ⟨rfl, ?_, ?_⟩
  · simp [finishTask, record, CircuitBreakerManager.isOpen, CircuitBreakerState.isOpen]
  · rintro ⟨i, task, hi, htask, hlive⟩
    rw [show i = 1023 from by simpa [finishTask, record, hwaiting.registered] using hi.symm] at htask
    simp only [finishTask, List.getElem?_modify_eq] at htask
    obtain ⟨old, -, rfl⟩ := Option.map_eq_some_iff.mp htask
    simp at hlive

end PyMotor.Coordinator
