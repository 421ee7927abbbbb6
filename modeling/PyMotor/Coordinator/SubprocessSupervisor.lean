import Mathlib.Algebra.Order.Ring.Rat
import PyMotor.Lib.Always
import PyMotor.Lib.Dict
import PyMotor.Lib.SlidingWindow

/-!
# The supervision of the coordinator's processes

The daemon of a coordinator keeps its scheduler, management, observability and inference processes alive
(`coordinator/daemon/subprocess_supervisor.py`, `coordinator/process/base.py`,
`process/inference_manager.py`). Every two seconds `SubprocessSupervisor` restarts what is not running,
unless a manager was restarted five times in the last minute.

Whatever exits and whichever restarts fail, a manager is restarted at most five times in any minute, a restart is
refused only when there were as many, and no restart takes a living worker away (`restarts_are_limited`).

Time is that of `time.monotonic`. What is started, what fails to, and what exits meanwhile is part of a step.
-/

namespace PyMotor.Coordinator

abbrev WorkerId := ℕ

def maxRestartPerMinute : ℕ := 5

def restartWindowSeconds : ℚ := 60

structure RestartLimiter where
  max : ℕ
  timestamps : List ℚ
  deriving DecidableEq

namespace RestartLimiter

def new (max : ℕ) : RestartLimiter := ⟨max, []⟩

def record (l : RestartLimiter) (now : ℚ) : RestartLimiter := { l with timestamps := l.timestamps ++ [now] }

def pruneOld (l : RestartLimiter) (now : ℚ) : RestartLimiter :=
  { l with timestamps := prune (now - restartWindowSeconds) l.timestamps }

/-- The answer is about the limiter as it is after pruning. -/
def canRestart (l : RestartLimiter) : Bool := decide (l.timestamps.length < l.max)

end RestartLimiter

/-- A `BaseProcessManager`, or the `InferenceProcessManager`, which has `restart_dead_workers`. -/
structure ProcessManager where
  processes : List WorkerId
  processCount : ℕ
  inference : Bool
  deriving DecidableEq

namespace ProcessManager

variable (m : ProcessManager) (exited : List WorkerId)

/-- One living process is enough, but the inference manager wants all of its workers to live. -/
def isRunning : Bool :=
  if m.inference then !m.processes.isEmpty && m.processes.all fun w => !exited.contains w
  else m.processes.any fun w => !exited.contains w

/-- A process that cannot be started makes `start` forget those before it. -/
def start (launches : List (Option WorkerId)) : ProcessManager :=
  { m with processes := ((launches.take m.processCount).mapM id).getD [] }

def stop : ProcessManager := { m with processes := [] }

/-- In the place of each dead worker there is a new one, unless it cannot be started. -/
def replaceDead : List WorkerId → List (Option WorkerId) → List WorkerId
  | [], _ => []
  | w :: ws, launches =>
    if exited.contains w then (launches.head?.join.getD w) :: replaceDead ws launches.tail
    else w :: replaceDead ws launches

/-- What the supervisor does with a manager that is not running. -/
def restart (launches : List (Option WorkerId)) : ProcessManager :=
  if m.inference then { m with processes := replaceDead exited m.processes launches } else m.stop.start launches

/-- Whether a restart counts as one. A manager of inference workers that has no dead worker is content, even if it
has no worker at all. -/
def restarted (m' : ProcessManager) (exited' : List WorkerId) : Bool :=
  (m.inference && m.processes.all fun w => !exited.contains w) || m'.isRunning exited'

end ProcessManager

structure SubprocessSupervisor where
  managers : Dict String ProcessManager
  restartLimits : Dict String RestartLimiter
  /-- The workers that have exited. -/
  exited : List WorkerId
  clock : ℚ
  /-- The restarts that succeeded, oldest first, and those that were refused. -/
  restarts : List (String × ℚ)
  refused : List (String × ℚ)
  /-- The workers that a restart has taken out of their manager's list. -/
  dropped : List WorkerId

inductive SupervisionStep where
  /-- The daemon starts or stops a manager. -/
  | start (name : String) (launches : List (Option WorkerId))
  | stop (name : String)
  | exit (worker : WorkerId)
  /-- The supervisor comes to a manager that it supervises, at a time `now`. A restart is over at `later`, when some
  workers may have exited again. -/
  | check (name : String) (now later : ℚ) (launches : List (Option WorkerId)) (died : List WorkerId)
  deriving DecidableEq

namespace SubprocessSupervisor

def new (managers : Dict String ProcessManager) (clock : ℚ) : SubprocessSupervisor :=
  ⟨managers, ∅, [], clock, [], [], []⟩

variable (s : SubprocessSupervisor)

def setManager (name : String) (m : ProcessManager) : SubprocessSupervisor :=
  { s with managers := s.managers.insert name m }

/-- `_restart_limits[name]`, which is made when it is asked for. -/
def limiter (name : String) : RestartLimiter := (s.restartLimits.get? name).getD (.new maxRestartPerMinute)

def setLimiter (name : String) (l : RestartLimiter) : SubprocessSupervisor :=
  { s with restartLimits := s.restartLimits.insert name l }

/-- `_record_restart` -/
def recordRestart (name : String) (now : ℚ) : SubprocessSupervisor :=
  { s.setLimiter name ((s.limiter name).record now) with restarts := s.restarts ++ [(name, now)] }

/-- A manager is restarted. -/
def restart (name : String) (m : ProcessManager) (later : ℚ) (launches : List (Option WorkerId))
    (died : List WorkerId) : SubprocessSupervisor :=
  let m' := m.restart s.exited launches
  let t : SubprocessSupervisor :=
    { s.setManager name m' with
      exited := s.exited ++ died
      clock := later
      dropped := s.dropped ++ m.processes.filter fun w => !m'.processes.contains w }
  if m.restarted s.exited m' t.exited then t.recordRestart name later else t

/-- One turn of the loop in `run`. -/
def check (name : String) (m : ProcessManager) (now later : ℚ) (launches : List (Option WorkerId))
    (died : List WorkerId) : SubprocessSupervisor :=
  if m.isRunning s.exited then { s with clock := now }
  else
    let l := (s.limiter name).pruneOld now
    if l.canRestart then ({ s.setLimiter name l with clock := now } : SubprocessSupervisor).restart name m later launches died
    else { s.setLimiter name l with clock := now, refused := s.refused ++ [(name, now)] }

def exec : SupervisionStep → Option SubprocessSupervisor
  | .start name launches => (s.managers.get? name).map fun m =>
    if m.isRunning s.exited then s else s.setManager name (m.start launches)
  | .stop name => (s.managers.get? name).map fun m =>
    { s.setManager name m.stop with exited := s.exited ++ m.processes }
  | .exit worker => some { s with exited := s.exited ++ [worker] }
  | .check name now later launches died =>
    if s.clock ≤ now ∧ now ≤ later then
      (s.managers.get? name).map fun m => s.check name m now later launches died
    else none

/-- When a manager was restarted. -/
def restartsOf (name : String) : List ℚ := (s.restarts.filter fun r => decide (r.1 = name)).map Prod.snd

/-! ## The limit -/

variable {s} {s' : SubprocessSupervisor} {name : String} {m : ProcessManager} {now later : ℚ}

/-- **The invariant**: each limiter retains what is within the window of its manager's restarts. -/
structure Inv (s : SubprocessSupervisor) : Prop where
  max : ∀ name, (s.limiter name).max = maxRestartPerMinute
  retains : ∀ name, Retains restartWindowSeconds s.clock (s.restartsOf name) (s.limiter name).timestamps
  past : ∀ name, ∀ t ∈ s.restartsOf name, t ≤ s.clock
  spaced : ∀ name, Spaced maxRestartPerMinute restartWindowSeconds (s.restartsOf name)
  refused : ∀ r ∈ s.refused, maxRestartPerMinute ≤
    ((s.restartsOf r.1).filter fun t => decide (r.2 - restartWindowSeconds ≤ t ∧ t ≤ r.2)).length
  dropped : ∀ w ∈ s.dropped, w ∈ s.exited

theorem inv_new (managers : Dict String ProcessManager) (clock : ℚ) : (new managers clock).Inv where
  max _ := rfl
  retains _ := retains_nil _ _
  past _ t ht := by cases ht
  spaced _ := spaced_nil _ _
  refused r hr := by cases hr
  dropped w hw := by cases hw

theorem restartsOf_recordRestart (s : SubprocessSupervisor) (name name' : String) (now : ℚ) :
    (s.recordRestart name now).restartsOf name' =
      if name = name' then s.restartsOf name' ++ [now] else s.restartsOf name' := by
  simp only [restartsOf, recordRestart, List.filter_append, List.map_append, List.filter_singleton]
  by_cases h : name = name'
  · simp [h]
  · simp [h]

theorem limiter_setLimiter (s : SubprocessSupervisor) (name name' : String) (l : RestartLimiter) :
    (s.setLimiter name l).limiter name' = if name = name' then l else s.limiter name' := by
  simp only [limiter, setLimiter, Dict.get?_insert]
  split <;> rfl

theorem Inv.tick (h : s.Inv) (hlimiter : ∀ name, s'.limiter name = s.limiter name)
    (hrestarts : s'.restarts = s.restarts) (hclock : s.clock ≤ s'.clock) (hrefused : s'.refused = s.refused)
    (hdropped : ∀ w ∈ s'.dropped, w ∈ s'.exited) : s'.Inv := by
  have hof : ∀ name, s'.restartsOf name = s.restartsOf name := fun name => by rw [restartsOf, hrestarts]; rfl
  refine ⟨fun name => ?_, fun name => ?_, fun name t ht => ?_, fun name => ?_, fun r hr => ?_, hdropped⟩
  · rw [hlimiter, h.max]
  · rw [hof, hlimiter]
    exact (h.retains name).mono hclock
  · exact (h.past name t (hof name ▸ ht)).trans hclock
  · rw [hof]
    exact h.spaced name
  · rw [hof]
    exact h.refused r (hrefused ▸ hr)

theorem Inv.pruned (h : s.Inv) (name : String) (hnow : s.clock ≤ now) :
    ({ s.setLimiter name ((s.limiter name).pruneOld now) with clock := now } : SubprocessSupervisor).Inv := by
  have hlimiter : ∀ name',
      ({ s.setLimiter name ((s.limiter name).pruneOld now) with clock := now } : SubprocessSupervisor).limiter name' =
        if name = name' then (s.limiter name).pruneOld now else s.limiter name' :=
    fun name' => limiter_setLimiter s name name' _
  refine ⟨fun name' => ?_, fun name' => ?_, fun name' t ht => (h.past name' t ht).trans hnow, h.spaced, h.refused,
    h.dropped⟩
  · rw [hlimiter]
    split
    · exact h.max name
    · exact h.max name'
  · rw [hlimiter]
    split
    · next heq =>
      subst heq
      exact (h.retains name).prune hnow
    · exact (h.retains name').mono hnow

/-- **A restart is recorded**, when fewer than five are retained. -/
theorem Inv.recorded (h : s.Inv) (hfew : (s.limiter name).canRestart = true) (hlater : s.clock ≤ later) :
    ({ s.recordRestart name later with clock := later } : SubprocessSupervisor).Inv := by
  have hof : ∀ name', ({ s.recordRestart name later with clock := later } : SubprocessSupervisor).restartsOf name' =
      if name = name' then s.restartsOf name' ++ [later] else s.restartsOf name' :=
    fun name' => restartsOf_recordRestart s name name' later
  have hlimiter : ∀ name', ({ s.recordRestart name later with clock := later } : SubprocessSupervisor).limiter name' =
      if name = name' then (s.limiter name).record later else s.limiter name' :=
    fun name' => limiter_setLimiter s name name' _
  have hpast : ∀ name', ∀ t ∈ s.restartsOf name', t ≤ later := fun name' t ht => (h.past name' t ht).trans hlater
  refine ⟨fun name' => ?_, fun name' => ?_, fun name' t ht => ?_, fun name' => ?_, fun r hr => ?_, h.dropped⟩
  · rw [hlimiter]
    split
    · exact h.max name
    · exact h.max name'
  · rw [hof, hlimiter]
    split
    · next heq =>
      subst heq
      exact ((h.retains name).snoc (hpast name)).mono hlater
    · exact (h.retains name').mono hlater
  · rw [hof] at ht
    split at ht
    · rcases List.mem_append.mp ht with ht | ht
      · exact hpast name' t ht
      · exact (List.mem_singleton.mp ht).le
    · exact hpast name' t ht
  · rw [hof]
    split
    · next heq =>
      subst heq
      rw [RestartLimiter.canRestart, h.max, decide_eq_true_eq] at hfew
      exact (h.spaced name).snoc (h.retains name) hfew hlater
    · exact h.spaced name'
  · rw [hof]
    refine (h.refused r hr).trans ?_
    split
    · rw [List.filter_append, List.length_append]
      exact Nat.le_add_right _ _
    · exact le_refl _

/-- **A restart is refused** when five or more are within the window. -/
theorem Inv.refusal (h : s.Inv) (name : String) (hmany : (s.limiter name).canRestart = false)
    (hpruned : (s.limiter name).timestamps = (s.restartsOf name).filter fun t =>
      decide (s.clock - restartWindowSeconds ≤ t)) :
    ({ s with refused := s.refused ++ [(name, s.clock)] } : SubprocessSupervisor).Inv := by
  refine ⟨h.max, h.retains, h.past, h.spaced, fun r hr => ?_, h.dropped⟩
  rcases List.mem_append.mp hr with hr | hr
  · exact h.refused r hr
  · rw [List.mem_singleton.mp hr]
    rw [RestartLimiter.canRestart, h.max, decide_eq_false_iff_not, not_lt, hpruned] at hmany
    refine hmany.trans (le_of_eq (congrArg List.length (List.filter_congr fun t ht => ?_)))
    have hle : t ≤ s.clock := h.past name t ht
    simp [hle]

/-! ## Living workers -/

theorem mem_replaceDead {exited : List WorkerId} {w : WorkerId} (hlives : w ∉ exited) :
    ∀ {ws : List WorkerId} {launches : List (Option WorkerId)}, w ∈ ws →
      w ∈ ProcessManager.replaceDead exited ws launches := by
  intro ws
  induction ws with
  | nil =>
    intro launches hw
    cases hw
  | cons v ws ih =>
    intro launches hw
    rw [ProcessManager.replaceDead]
    rcases List.mem_cons.mp hw with rfl | hw
    · rw [if_neg (by simpa using hlives)]
      exact List.mem_cons_self
    · split
      · exact List.mem_cons_of_mem _ (ih hw)
      · exact List.mem_cons_of_mem _ (ih hw)

/-- **What a restart takes away is dead.** -/
theorem dropped_dead {exited : List WorkerId} (hdown : m.isRunning exited = false)
    (launches : List (Option WorkerId)) {w : WorkerId} (hw : w ∈ m.processes)
    (hgone : w ∉ (m.restart exited launches).processes) : w ∈ exited := by
  by_contra hlives
  by_cases hkind : m.inference = true
  · rw [ProcessManager.restart, if_pos hkind] at hgone
    exact hgone (mem_replaceDead hlives hw)
  · rw [ProcessManager.isRunning, if_neg hkind, List.any_eq_false] at hdown
    exact hdown w hw (by simpa using hlives)

/-! ## Runs -/

theorem Inv.restart (h : s.Inv) (hdown : m.isRunning s.exited = false)
    (hfew : (s.limiter name).canRestart = true) (hlater : s.clock ≤ later) (launches : List (Option WorkerId))
    (died : List WorkerId) : (s.restart name m later launches died).Inv := by
  have hdropped : ∀ w ∈ s.dropped ++ m.processes.filter (fun w => !(m.restart s.exited launches).processes.contains w),
      w ∈ s.exited ++ died := by
    intro w hw
    rcases List.mem_append.mp hw with hw | hw
    · exact List.mem_append_left _ (h.dropped w hw)
    · obtain ⟨hmem, hgone⟩ := List.mem_filter.mp hw
      exact List.mem_append_left _ (dropped_dead hdown launches hmem (by simpa using hgone))
  have htick : ({ s.setManager name (m.restart s.exited launches) with
      exited := s.exited ++ died
      clock := later
      dropped := s.dropped ++ m.processes.filter fun w => !(m.restart s.exited launches).processes.contains w } :
      SubprocessSupervisor).Inv := h.tick (fun _ => rfl) rfl hlater rfl hdropped
  unfold SubprocessSupervisor.restart
  simp only
  split
  · exact htick.recorded hfew (le_refl _)
  · exact htick

/-- **One turn of the loop.** -/
theorem Inv.check (h : s.Inv) (hnow : s.clock ≤ now) (hlater : now ≤ later) (name : String) (m : ProcessManager)
    (launches : List (Option WorkerId)) (died : List WorkerId) : (s.check name m now later launches died).Inv := by
  unfold SubprocessSupervisor.check
  split
  · exact h.tick (fun _ => rfl) rfl hnow rfl h.dropped
  · next hdown =>
    have hpruned := h.pruned name hnow
    have hlimiter : ({ s.setLimiter name ((s.limiter name).pruneOld now) with clock := now } :
        SubprocessSupervisor).limiter name = (s.limiter name).pruneOld now :=
      (limiter_setLimiter s name name _).trans (if_pos rfl)
    simp only
    split
    · next hfew =>
      have hdown : m.isRunning s.exited = false := by simpa using hdown
      exact hpruned.restart hdown (by rw [hlimiter, hfew]) hlater launches died
    · next hmany =>
      refine hpruned.refusal name (by rw [hlimiter]; simpa using hmany) ?_
      rw [hlimiter]
      exact (h.retains name).prune_eq_filter hnow

theorem exec_inv {step : SupervisionStep} (h : s.Inv) (hexec : s.exec step = some s') : s'.Inv := by
  cases step with
  | start name launches =>
    obtain ⟨m, -, rfl⟩ := Option.map_eq_some_iff.mp hexec
    split
    · exact h
    · exact h.tick (fun _ => rfl) rfl (le_refl _) rfl h.dropped
  | stop name =>
    obtain ⟨m, -, rfl⟩ := Option.map_eq_some_iff.mp hexec
    exact h.tick (fun _ => rfl) rfl (le_refl _) rfl fun w hw => List.mem_append_left _ (h.dropped w hw)
  | exit worker =>
    cases hexec
    exact h.tick (fun _ => rfl) rfl (le_refl _) rfl fun w hw => List.mem_append_left _ (h.dropped w hw)
  | check name now later launches died =>
    simp only [exec] at hexec
    split at hexec
    · next htime =>
      obtain ⟨m, -, rfl⟩ := Option.map_eq_some_iff.mp hexec
      exact h.check htime.1 htime.2 name m launches died
    · cases hexec

variable {managers : Dict String ProcessManager} {clock : ℚ} {steps : List SupervisionStep}

theorem run_inv (hrun : Run exec Free (new managers clock) steps s) : s.Inv :=
  hrun.invariant_state (inv_new managers clock) fun h _ hexec => exec_inv h hexec

/-- **Restarts are limited.** In every run, a manager is restarted no more than five times in any minute; a restart
is refused only when five or more are within the last minute; and the workers that restarts took away were dead. -/
theorem restarts_are_limited (hrun : Run exec Free (new managers clock) steps s) :
    (∀ name i a b, (s.restartsOf name)[i]? = some a → (s.restartsOf name)[i + 5]? = some b → 60 < b - a) ∧
    (∀ r ∈ s.refused, 5 ≤ ((s.restartsOf r.1).filter fun t => decide (r.2 - 60 ≤ t ∧ t ≤ r.2)).length) ∧
    ∀ w ∈ s.dropped, w ∈ s.exited :=
  ⟨(run_inv hrun).spaced, (run_inv hrun).refused, (run_inv hrun).dropped⟩

/-- Two inference workers and a scheduler. One of the workers dies again and again. -/
def twoManagers : Dict String ProcessManager :=
  ((∅ : Dict String ProcessManager).insert "inference" ⟨[1, 2], 2, true⟩).insert "scheduler" ⟨[0], 1, false⟩

def diesAgain : List SupervisionStep :=
  [.exit 1, .check "inference" 2 3 [some 3] [3], .check "inference" 4 5 [some 4] [],
    .exit 4, .check "inference" 6 7 [some 5] [], .exit 5, .check "inference" 8 9 [none] [],
    .check "inference" 10 11 [some 6] [], .exit 6, .exit 0, .check "scheduler" 12 13 [some 7] [],
    .check "inference" 14 15 [some 8] [], .exit 8, .check "inference" 16 17 [some 9] [], .exit 9,
    .check "inference" 18 19 [some 10] []]

theorem diesAgain_limited : ∃ s, Run exec Free (new twoManagers 0) diesAgain s ∧
    s.restartsOf "inference" = [5, 7, 11, 15, 17] ∧ s.refused = [("inference", 18)] ∧
    5 ≤ ((s.restartsOf "inference").filter fun t => decide ((18 : ℚ) - 60 ≤ t ∧ t ≤ 18)).length ∧
    ∀ w ∈ s.dropped, w ∈ s.exited := by
  have hcomputed : (runList exec Free (new twoManagers 0) diesAgain).map (fun s =>
      (s.restartsOf "inference", s.refused)) = some ([5, 7, 11, 15, 17], [("inference", 18)]) := by
    decide +kernel
  obtain ⟨s, hrun, heq⟩ := runList_exists hcomputed
  obtain ⟨hrestarts, hrefused⟩ := Prod.mk.inj heq
  obtain ⟨-, hlimit, hdead⟩ := restarts_are_limited hrun
  exact ⟨s, hrun, hrestarts, hrefused, hlimit ("inference", 18) (hrefused ▸ List.mem_cons_self), hdead⟩

end SubprocessSupervisor

end PyMotor.Coordinator
