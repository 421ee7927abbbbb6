import PyMotor.Coordinator.CircuitBreaker

/-!
# The timer table

`_recovery_timers` registers one recovery task for an instance. Two facts make the table trustworthy,
whatever the tasks do: an entry is a task of its own instance, and a task that still goes on by itself
is registered (`TimerTable`). The operations on the table then keep what they do not mean to change:
a task that tends another instance goes on tending it.
-/

namespace PyMotor.Coordinator

namespace RecoveryTask

variable {task : RecoveryTask}

@[simp] theorem cancel_instanceId : task.cancel.instanceId = task.instanceId := by
  unfold cancel
  split <;> rfl

@[simp] theorem cancel_live : task.cancel.live = false := by
  unfold cancel
  split
  · next h => simp [live, h]
  · simp [live]

@[simp] theorem finish_instanceId : task.finish.instanceId = task.instanceId := rfl

@[simp] theorem finish_live : task.finish.live = false := by simp [live, finish]

end RecoveryTask

/-- What holds of the table and the tasks at all times. -/
structure TimerTable (timers : Dict InstanceId ℕ) (tasks : List RecoveryTask) : Prop where
  owns : ∀ id i, timers.get? id = some i → ∃ task, tasks[i]? = some task ∧ task.instanceId = id
  registered : ∀ i task, tasks[i]? = some task → task.live = true →
    timers.get? task.instanceId = some i

/-- A task that has not come to its end yet is registered for the instance, with this timeout. -/
def Tends (timers : Dict InstanceId ℕ) (tasks : List RecoveryTask) (id : InstanceId) (timeout : ℕ) :
    Prop :=
  ∃ i task, timers.get? id = some i ∧ tasks[i]? = some task ∧ task.instanceId = id ∧
    task.live = true ∧ (task.stage = .sleeping ∨ task.stage = .probing) ∧ task.timeout = timeout

section

variable {timers : Dict InstanceId ℕ} {tasks : List RecoveryTask}

theorem TimerTable.empty : TimerTable ∅ [] where
  owns id i h := by cases h
  registered i task h := by cases h

theorem TimerTable.modify {f : RecoveryTask → RecoveryTask} (h : TimerTable timers tasks) (i : ℕ)
    (hid : ∀ task, (f task).instanceId = task.instanceId)
    (hlive : ∀ task, tasks[i]? = some task → (f task).live = true → task.live = true) :
    TimerTable timers (tasks.modify i f) := by
  constructor
  case owns =>
    intro id j hj
    obtain ⟨task, htask, hown⟩ := h.owns id j hj
    by_cases hij : i = j
    · subst hij
      exact ⟨f task, by simp [htask], by rw [hid, hown]⟩
    · exact ⟨task, by simp [hij, htask], hown⟩
  case registered =>
    intro j task htask hl
    by_cases hij : i = j
    · subst hij
      rw [List.getElem?_modify_eq] at htask
      obtain ⟨old, hold, rfl⟩ := Option.map_eq_some_iff.mp htask
      rw [hid]
      exact h.registered i old hold (hlive old hold hl)
    · rw [List.getElem?_modify_ne f _ hij] at htask
      exact h.registered j task htask hl

/-- A task that is not registered for the instance may change as it likes. -/
theorem Tends.modify_of_not_registered {f : RecoveryTask → RecoveryTask} {id : InstanceId}
    {timeout i : ℕ} (h : Tends timers tasks id timeout) (hne : timers.get? id ≠ some i) :
    Tends timers (tasks.modify i f) id timeout := by
  obtain ⟨j, task, hj, htask, hrest⟩ := h
  have hij : i ≠ j := by
    intro hij
    subst hij
    exact hne hj
  exact ⟨j, task, hj, by rw [List.getElem?_modify_ne f _ hij, htask], hrest⟩

theorem Tends.modify {f : RecoveryTask → RecoveryTask} {id : InstanceId} {timeout i : ℕ}
    (h : Tends timers tasks id timeout)
    (hne : ∀ task, tasks[i]? = some task → task.instanceId ≠ id) :
    Tends timers (tasks.modify i f) id timeout := by
  apply h.modify_of_not_registered
  intro hreg
  obtain ⟨j, task, hj, htask, hid, -⟩ := h
  rw [hreg] at hj
  cases hj
  exact hne task htask hid

theorem TimerTable.erase (h : TimerTable timers tasks) (id : InstanceId)
    (hdead : ∀ i task, timers.get? id = some i → tasks[i]? = some task → task.live = false) :
    TimerTable (timers.erase id) tasks := by
  constructor
  case owns =>
    intro id' i hi
    exact h.owns id' i (Dict.get?_of_erase hi)
  case registered =>
    intro i task htask hl
    have hreg := h.registered i task htask hl
    have hne : id ≠ task.instanceId := by
      intro heq
      subst heq
      rw [hdead i task hreg htask] at hl
      cases hl
    rw [Dict.get?_erase_ne _ hne]
    exact hreg

theorem Tends.erase {id id' : InstanceId} {timeout : ℕ} (h : Tends timers tasks id timeout)
    (hne : id' ≠ id) : Tends (timers.erase id') tasks id timeout := by
  obtain ⟨i, task, hi, hrest⟩ := h
  exact ⟨i, task, by rw [Dict.get?_erase_ne _ hne, hi], hrest⟩

end

namespace BreakerServer

variable {s : BreakerServer} {id id' : InstanceId} {timeout timeout' : ℕ}

theorem length_cancelTimer (s : BreakerServer) (id : InstanceId) :
    (s.cancelTimer id).length = s.tasks.length := by
  unfold cancelTimer
  split
  · rfl
  · exact List.length_modify ..

theorem cancelTimer_table (h : TimerTable s.recoveryTimers s.tasks) (id : InstanceId) :
    TimerTable s.recoveryTimers (s.cancelTimer id) := by
  unfold cancelTimer
  split
  · exact h
  · exact h.modify _ (fun _ => RecoveryTask.cancel_instanceId) fun task _ hl => by simp at hl

theorem cancelTimer_dead {i : ℕ} {task : RecoveryTask} (hi : s.recoveryTimers.get? id = some i)
    (htask : (s.cancelTimer id)[i]? = some task) : task.live = false := by
  unfold cancelTimer at htask
  rw [hi] at htask
  rw [List.getElem?_modify_eq] at htask
  obtain ⟨old, -, rfl⟩ := Option.map_eq_some_iff.mp htask
  exact RecoveryTask.cancel_live

theorem Tends.cancelTimer (h : TimerTable s.recoveryTimers s.tasks)
    (ht : Tends s.recoveryTimers s.tasks id timeout) (hne : id' ≠ id) :
    Tends s.recoveryTimers (s.cancelTimer id') id timeout := by
  unfold BreakerServer.cancelTimer
  split
  · exact ht
  · next i hi =>
    apply ht.modify
    intro task htask hid
    obtain ⟨own, hown, hid'⟩ := h.owns id' i hi
    rw [htask] at hown
    cases hown
    exact hne (hid'.symm.trans hid)

theorem cancelRecovery_table (h : TimerTable s.recoveryTimers s.tasks) (id : InstanceId) :
    TimerTable (s.cancelRecovery id).recoveryTimers (s.cancelRecovery id).tasks :=
  (cancelTimer_table h id).erase id fun _ _ hi htask => cancelTimer_dead hi htask

theorem Tends.cancelRecovery (h : TimerTable s.recoveryTimers s.tasks)
    (ht : Tends s.recoveryTimers s.tasks id timeout) (hne : id' ≠ id) :
    Tends (s.cancelRecovery id').recoveryTimers (s.cancelRecovery id').tasks id timeout :=
  (Tends.cancelTimer h ht hne).erase hne

theorem scheduleRecovery_table (h : TimerTable s.recoveryTimers s.tasks) (id : InstanceId)
    (timeout : ℕ) :
    TimerTable (s.scheduleRecovery id timeout).recoveryTimers
      (s.scheduleRecovery id timeout).tasks := by
  have hlen := s.length_cancelTimer id
  have htable := cancelTimer_table h id
  constructor
  case owns =>
    intro id' i hi
    simp only [scheduleRecovery, Dict.get?_insert] at hi ⊢
    split at hi
    · next heq =>
      cases hi
      exact ⟨_, by rw [← hlen, List.getElem?_concat_length], heq⟩
    · obtain ⟨task, htask, hid⟩ := htable.owns id' i hi
      have hi := (List.getElem?_eq_some_iff.mp htask).1
      exact ⟨task, by rw [List.getElem?_append_left hi, htask], hid⟩
  case registered =>
    intro i task htask hl
    simp only [scheduleRecovery, Dict.get?_insert] at htask ⊢
    rw [List.getElem?_append] at htask
    split at htask
    · -- an older task that still lives is not the one of this instance
      have hreg := htable.registered i task htask hl
      have hne : id ≠ task.instanceId := by
        intro heq
        subst heq
        rw [cancelTimer_dead hreg htask] at hl
        cases hl
      rw [if_neg hne]
      exact hreg
    · next hge =>
      obtain ⟨hzero, htask⟩ := List.getElem?_eq_some_iff.mp htask
      simp only [List.length_singleton] at hzero
      have hi : i = s.tasks.length := by omega
      subst hi
      simp only [List.getElem_singleton] at htask
      subst htask
      simp

theorem scheduleRecovery_tends (s : BreakerServer) (id : InstanceId) (timeout : ℕ) :
    Tends (s.scheduleRecovery id timeout).recoveryTimers (s.scheduleRecovery id timeout).tasks id
      timeout := by
  refine ⟨s.tasks.length, ⟨id, timeout, .sleeping, false⟩, by simp [scheduleRecovery], ?_, rfl,
    rfl, Or.inl rfl, rfl⟩
  simp only [scheduleRecovery]
  rw [← s.length_cancelTimer id, List.getElem?_concat_length]

theorem Tends.scheduleRecovery (h : TimerTable s.recoveryTimers s.tasks)
    (ht : Tends s.recoveryTimers s.tasks id timeout) (hne : id' ≠ id) :
    Tends (s.scheduleRecovery id' timeout').recoveryTimers (s.scheduleRecovery id' timeout').tasks id
      timeout := by
  obtain ⟨i, task, hi, htask, hrest⟩ := Tends.cancelTimer h ht hne
  have hlt := (List.getElem?_eq_some_iff.mp htask).1
  refine ⟨i, task, ?_, ?_, hrest⟩
  · simp only [BreakerServer.scheduleRecovery]
    rw [Dict.get?_insert_ne _ _ hne, hi]
  · simp only [BreakerServer.scheduleRecovery]
    rw [List.getElem?_append_left hlt, htask]

theorem scheduleRecovery_task {i : ℕ} {task : RecoveryTask} (htask : s.tasks[i]? = some task)
    (id : InstanceId) (timeout : ℕ) :
    ∃ task', (s.scheduleRecovery id timeout).tasks[i]? = some task' ∧
      task'.instanceId = task.instanceId := by
  have hlt : i < (s.cancelTimer id).length := by
    rw [length_cancelTimer]
    exact (List.getElem?_eq_some_iff.mp htask).1
  simp only [scheduleRecovery, List.getElem?_append_left hlt]
  unfold cancelTimer
  split
  · exact ⟨task, htask, rfl⟩
  · next j _ =>
    by_cases hij : j = i
    · subst hij
      exact ⟨task.cancel, by simp [htask], RecoveryTask.cancel_instanceId⟩
    · exact ⟨task, by simp [hij, htask], rfl⟩

theorem finishTask_table (h : TimerTable s.recoveryTimers s.tasks) (i : ℕ) :
    TimerTable (s.finishTask i).recoveryTimers (s.finishTask i).tasks :=
  h.modify i (fun _ => rfl) fun task _ hl => by simp at hl

theorem moveTask_table (h : TimerTable s.recoveryTimers s.tasks) {i : ℕ} {task : RecoveryTask}
    (htask : s.tasks[i]? = some task) (hlive : task.live = true) (stage : RecoveryStage) :
    TimerTable (s.moveTask i stage).recoveryTimers (s.moveTask i stage).tasks := by
  refine h.modify (f := fun task => { task with stage := stage }) i (fun _ => rfl) ?_
  intro task' htask' _
  rw [htask] at htask'
  cases htask'
  exact hlive

theorem closeTask_table (h : TimerTable s.recoveryTimers s.tasks) (i : ℕ) (id : InstanceId) :
    TimerTable (s.closeTask i id).recoveryTimers (s.closeTask i id).tasks := by
  have hfinish := finishTask_table h i
  simp only [closeTask, finishTask] at hfinish ⊢
  split
  · next hown =>
    apply hfinish.erase
    intro j task hj htask
    rw [hown] at hj
    cases hj
    rw [List.getElem?_modify_eq] at htask
    obtain ⟨old, -, rfl⟩ := Option.map_eq_some_iff.mp htask
    exact RecoveryTask.finish_live
  · exact hfinish

theorem Tends.closeTask {i : ℕ} {task : RecoveryTask} (ht : Tends s.recoveryTimers s.tasks id timeout)
    (htask : s.tasks[i]? = some task) (hne : task.instanceId ≠ id) :
    Tends (s.closeTask i task.instanceId).recoveryTimers (s.closeTask i task.instanceId).tasks id
      timeout := by
  have hfinish : Tends s.recoveryTimers (s.tasks.modify i RecoveryTask.finish) id timeout := by
    apply ht.modify
    intro task' htask'
    rw [htask] at htask'
    cases htask'
    exact hne
  simp only [BreakerServer.closeTask, finishTask]
  split
  · exact hfinish.erase hne
  · exact hfinish

theorem live_of_foldl_cancel {j : ℕ} {task : RecoveryTask} (l : List ℕ) (tasks : List RecoveryTask)
    (htask : (l.foldl (fun tasks i => tasks.modify i RecoveryTask.cancel) tasks)[j]? = some task)
    (hlive : task.live = true) : j ∉ l ∧ tasks[j]? = some task := by
  induction l generalizing tasks with
  | nil => exact ⟨List.not_mem_nil, htask⟩
  | cons i l ih =>
    obtain ⟨hnotin, hat⟩ := ih (tasks.modify i RecoveryTask.cancel) htask
    have hne : i ≠ j := by
      intro hij
      subst hij
      rw [List.getElem?_modify_eq] at hat
      obtain ⟨old, -, rfl⟩ := Option.map_eq_some_iff.mp hat
      simp at hlive
    rw [List.getElem?_modify_ne _ _ hne] at hat
    refine ⟨?_, hat⟩
    simp [hnotin, Ne.symm hne]

theorem cancelAll_table (h : TimerTable s.recoveryTimers s.tasks) :
    TimerTable ∅ (s.recoveryTimers.values.foldl
      (fun tasks i => tasks.modify i RecoveryTask.cancel) s.tasks) where
  owns id i hi := by cases hi
  registered j task htask hl := by
    obtain ⟨hnotin, hat⟩ := live_of_foldl_cancel _ _ htask hl
    have hreg := h.registered j task hat hl
    exact absurd (Dict.mem_values_iff.mpr ⟨task.instanceId, hreg⟩) hnotin

end BreakerServer

end PyMotor.Coordinator
