import PyMotor.Router.StreamResponse.WellFormed

/-!
# A stream that ends is answered

When the generator has ended, every step of the tasks brings the response closer to its end, and at the
end it is complete. The ends differ by what was first: readiness or the end of the stream.
-/

namespace PyMotor.Router

namespace StreamingResponse

variable {s s' : StreamingResponse} {ops : List StreamOp} {op : StreamOp}

/-! ## What a step does to the controller -/

@[simp] theorem leavePump_controller (s : StreamingResponse) (o : Outcome) :
    (s.leavePump o).controller = s.controller := rfl

@[simp] theorem stopStream_controller (s : StreamingResponse) (o : Outcome) :
    (s.stopStream o).controller = s.controller := rfl

theorem generatorRaises_controller (s : StreamingResponse) (r : Raised) :
    (s.generatorRaises r).controller = s.controller := by
  cases r with
  | error e =>
    unfold generatorRaises generatorEnds
    simp only
    split <;> rfl
  | osError | cancelled => rfl

theorem resumePump_controller {ok : Bool} (he : s.resumePump ok = some s') :
    s'.controller = s.controller := by
  cases hpc : s.pump <;> simp only [resumePump, hpc] at he <;>
    grind [pumpGoesOn, leavePump, pumpFinish, pumpCommittedError, send]

theorem streamCatches_controller (s : StreamingResponse) (e : Error) :
    (s.streamCatches e).controller = s.controller := by
  cases e <;> grind [streamCatches, streamDisconnects, stopStream, send]

theorem afterPump_controller (s : StreamingResponse) (o : Outcome) :
    (s.afterPump o).controller = s.controller := by
  cases o with
  | returned => rfl
  | raised r =>
    cases r with
    | error e => exact s.streamCatches_controller e
    | osError | cancelled => rfl

theorem streamGoesOn_controller {ok : Bool} {pc : StreamTask} (he : s.streamGoesOn ok pc = some s') :
    s'.controller = s.controller ∨ s'.controller = s.controller.markCommitStarted ∨
      s'.controller = s.controller.markCommitted := by
  cases pc <;> simp only [streamGoesOn] at he <;>
    grind [stopStream, streamDisconnects, streamCatches_controller, afterPump_controller, commit, send]

theorem resumeStream_controller {ok : Bool} (he : s.resumeStream ok = some s') :
    s'.controller = s.controller ∨ s'.controller = s.controller.markCommitStarted ∨
      s'.controller = s.controller.markCommitted := by
  unfold resumeStream at he
  split at he
  · cases he
  · exact streamGoesOn_controller he
  · split at he
    · cases he
      exact Or.inl rfl
    · exact streamGoesOn_controller he

theorem resumeCall_controller (he : s.resumeCall = some s') : s'.controller = s.controller := by
  grind [resumeCall, cancelStream]

/-! ## Reports -/

/-- The parts that count have been reported, for the attempt that is under way; a controller that is
ready has them all. -/
structure Reported (parts : OrdSet String) (ops : List StreamOp) (c : StreamCommitController) :
    Prop where
  required : c.requiredParts = parts
  full : c.readyEvent = true → ∀ part ∈ parts, part ∈ c.readyParts
  reported : ∀ part ∈ c.readyParts, .markReady part c.attemptId ∈ ops

variable {parts : OrdSet String} {c : StreamCommitController}

theorem Reported.snoc (h : Reported parts ops c) (op : StreamOp) : Reported parts (ops ++ [op]) c :=
  ⟨h.required, h.full, fun part hpart => List.mem_append_left _ (h.reported part hpart)⟩

theorem Reported.markReady (h : Reported parts ops c) (part : String) (id : ℤ) :
    Reported parts (ops ++ [.markReady part id]) ((c.markReady part id).getD c) := by
  have hkept := h.snoc (.markReady part id)
  unfold StreamCommitController.markReady
  split
  · exact hkept
  · next hcounts =>
    obtain ⟨hid, hsealed⟩ := not_or.mp hcounts
    have hid : id = c.attemptId := not_not.mp hid
    split
    · exact hkept
    · refine ⟨h.required, fun hready p hp => ?_, fun p hp => ?_⟩
      · have hopen : c.readyEvent = false := by
          simp only [StreamCommitController.commitSealed, StreamCommitController.readyToCommit,
            Bool.or_eq_true, not_or, Bool.not_eq_true] at hsealed
          exact hsealed.1.1
        simp only [Option.getD_some, hopen, Bool.false_or, List.all_eq_true, h.required] at hready
        exact of_decide_eq_true (hready p hp)
      · rcases OrdSet.mem_insert.mp hp with rfl | hp
        · rw [hid]
          exact List.mem_append_right _ List.mem_cons_self
        · exact hkept.reported p hp

theorem Reported.beginAttempt (h : Reported parts ops c) (id : ℤ) :
    Reported parts ops ((c.beginAttempt id).getD c) := by
  unfold StreamCommitController.beginAttempt
  split
  · exact h
  · exact ⟨h.required, Bool.noConfusion, fun part hpart => absurd hpart (OrdSet.not_mem_empty part)⟩

theorem Reported.exec (h : Reported parts ops s.controller) (he : s.exec op = some s') :
    Reported parts (ops ++ [op]) s'.controller := by
  have hkept := h.snoc op
  cases op with
  | markReady part id =>
    obtain ⟨-, he⟩ := Option.ite_none_right_eq_some.mp he
    cases he
    exact h.markReady part id
  | beginAttempt id =>
    obtain ⟨-, he⟩ := Option.ite_none_right_eq_some.mp he
    cases he
    exact hkept.beginAttempt id
  | yields item =>
    obtain ⟨-, he⟩ := Option.ite_none_right_eq_some.mp he
    cases he
    exact hkept
  | ends =>
    obtain ⟨-, he⟩ := Option.ite_none_right_eq_some.mp he
    cases he
    unfold generatorEnds
    simp only
    split <;> exact hkept
  | raises r =>
    obtain ⟨-, he⟩ := Option.ite_none_right_eq_some.mp he
    cases he
    rw [generatorRaises_controller]
    exact hkept
  | closes =>
    unfold StreamingResponse.exec at he
    simp only at he
    split at he
    · cases he
      exact hkept
    · cases he
  | ready =>
    obtain ⟨-, he⟩ := Option.ite_none_right_eq_some.mp he
    cases he
    exact hkept
  | disconnect =>
    obtain ⟨-, he⟩ := Option.ite_none_right_eq_some.mp he
    cases he
    exact hkept
  | pump ok => exact resumePump_controller he ▸ hkept
  | stream ok =>
    rcases resumeStream_controller he with hc | hc | hc <;> rw [hc]
    · exact hkept
    · exact ⟨hkept.required, hkept.full, hkept.reported⟩
    · exact ⟨hkept.required, hkept.full, hkept.reported⟩
  | call => exact resumeCall_controller he ▸ hkept

theorem reported_new (hc : StreamCommitController.requiring parts = some c) : Reported parts [] c := by
  unfold StreamCommitController.requiring at hc
  split at hc
  · cases hc
  · cases hc
    exact ⟨rfl, Bool.noConfusion, fun part hpart => absurd hpart (OrdSet.not_mem_empty part)⟩

theorem Inv.commitStarted_of_ok (h : s.Inv) (hok : .start 200 ∈ s.messages) :
    s.controller.commitStarted = true := by
  by_contra hnot
  rw [Bool.not_eq_true] at hnot
  have hsent := h.sent
  rw [hnot] at hsent
  have herror : ∀ e, s.messages = [.start (precommitStatus e)] ∨
      s.messages = [.start (precommitStatus e), .body (.errorResponse e) false] → False := by
    rintro e (hs | hs) <;> rw [hs] at hok <;> simp only [List.mem_cons, Message.start.injEq,
      reduceCtorEq, List.not_mem_nil, or_false] at hok <;> exact precommitStatus_ne_ok e hok.symm
  have hsilent : s.messages = [] → False := by
    intro hs
    rw [hs] at hok
    cases hok
  cases hpc : s.stream <;> rw [hpc] at hsent
  case waiting => exact hsilent hsent.1
  case sendingErrorStart e => exact herror e (Or.inl hsent)
  case sendingErrorBody e => exact herror e (Or.inr hsent)
  case stopping | done =>
    rcases hsent with hs | ⟨e, hs⟩
    · exact hsilent hs
    · exact herror e hs
  case sendingStart | awaitingPump | sendingErrorChunk | sendingErrorEnd => exact hsent

/-! ## The tasks come to an end -/

end StreamingResponse

namespace Pump

/-- How many steps the pump has left when the generator gives nothing more. -/
def stepsLeft : Pump → ℕ
  | failing _ => 3
  | holding _ | sendingError _ | ending => 2
  | sending _ | sendingLast _ | closing _ => 1
  | running | done _ => 0

end Pump

namespace StreamTask

def stepsLeft : StreamTask → ℕ
  | waiting => 6
  | sendingStart => 5
  | awaitingPump | sendingErrorStart _ => 4
  | sendingErrorBody _ | sendingErrorChunk _ => 3
  | sendingErrorEnd => 2
  | stopping _ => 1
  | done _ => 0

end StreamTask

namespace StreamingResponse

variable {s s' : StreamingResponse} {ops : List StreamOp} {op : StreamOp}

def callStepsLeft : Call → ℕ
  | .waiting => 2
  | .gathering => 1
  | .finished => 0

/-- How many steps are left at most when the generator has ended. -/
def stepsLeft (s : StreamingResponse) : ℕ :=
  s.pump.stepsLeft + s.stream.stepsLeft + (if s.readyTask = .waiting then 1 else 0) +
    callStepsLeft s.call + (if s.disconnected then 0 else 1)

theorem resumePump_stepsLeft {ok : Bool} (hdead : s.generatorAlive = false)
    (he : s.resumePump ok = some s') :
    s'.pump.stepsLeft < s.pump.stepsLeft ∧ s'.generatorAlive = false ∧ s'.stream = s.stream ∧
      s'.readyTask = s.readyTask ∧ s'.call = s.call ∧ s'.disconnected = s.disconnected := by
  cases hpc : s.pump <;> simp only [resumePump, hpc] at he <;>
    grind [pumpGoesOn, leavePump, pumpFinish, pumpCommittedError, send, Pump.stepsLeft]

theorem streamCatches_stepsLeft (s : StreamingResponse) (e : Error) :
    (s.streamCatches e).stream.stepsLeft < 5 ∧
      (s.stream = .awaitingPump → s.controller.committed = true →
        (s.streamCatches e).stream.stepsLeft < 4) ∧
      (s.streamCatches e).generatorAlive = s.generatorAlive ∧ (s.streamCatches e).pump = s.pump ∧
      ((s.streamCatches e).readyTask = .waiting → s.readyTask = .waiting) ∧
      (s.streamCatches e).call = s.call ∧ (s.streamCatches e).disconnected = s.disconnected := by
  cases e <;> grind [streamCatches, streamDisconnects, stopStream, send, StreamTask.stepsLeft]

/-- The pump's outcome is taken up after the commit only. -/
theorem streamGoesOn_stepsLeft {ok : Bool} {pc : StreamTask} (hstream : s.stream = pc)
    (hpast : pc = .awaitingPump → s.controller.committed = true)
    (he : s.streamGoesOn ok pc = some s') :
    s'.stream.stepsLeft < pc.stepsLeft ∧ s'.generatorAlive = s.generatorAlive ∧ s'.pump = s.pump ∧
      (s'.readyTask = .waiting → s.readyTask = .waiting) ∧ s'.call = s.call ∧
      s'.disconnected = s.disconnected := by
  cases pc <;> simp only [streamGoesOn] at he
  case waiting =>
    have hcatches := s.streamCatches_stepsLeft
    grind [commit, send, StreamTask.stepsLeft]
  case awaitingPump =>
    split at he
    · next o _ =>
      have hcatches := s.streamCatches_stepsLeft
      cases o with
      | returned => grind [afterPump, stopStream, StreamTask.stepsLeft]
      | raised r => cases r <;> grind [afterPump, streamDisconnects, stopStream, StreamTask.stepsLeft]
    · cases he
  all_goals grind [stopStream, streamDisconnects, send, StreamTask.stepsLeft]

theorem resumeStream_stepsLeft (h : s.Inv) {ok : Bool} (he : s.resumeStream ok = some s') :
    s'.stream.stepsLeft < s.stream.stepsLeft ∧ s'.generatorAlive = s.generatorAlive ∧
      s'.pump = s.pump ∧ (s'.readyTask = .waiting → s.readyTask = .waiting) ∧ s'.call = s.call ∧
      s'.disconnected = s.disconnected := by
  have hpast : s.stream = .awaitingPump → s.controller.committed = true :=
    fun hpc => h.past (by rw [hpc]; rfl)
  unfold resumeStream at he
  split at he
  · cases he
  · next o hpc =>
    rw [hpc]
    simp only [streamGoesOn] at he
    split at he
    · cases he
      exact ⟨Nat.one_pos, rfl, rfl, id, rfl, rfl⟩
    · cases he
  · next hdone hstopping =>
    split at he
    · cases he
      refine ⟨?_, rfl, rfl, ?_, rfl, rfl⟩
      · cases hpc : s.stream with
        | done o => exact absurd hpc (hdone o)
        | stopping o => exact absurd hpc (hstopping o)
        | waiting | sendingStart | awaitingPump | sendingErrorStart | sendingErrorBody |
            sendingErrorChunk | sendingErrorEnd => simp [stopStream, StreamTask.stepsLeft]
      · grind [stopStream]
    · exact streamGoesOn_stepsLeft rfl hpast he

theorem resumeCall_stepsLeft (he : s.resumeCall = some s') :
    callStepsLeft s'.call < callStepsLeft s.call ∧ s'.generatorAlive = s.generatorAlive ∧
      s'.pump = s.pump ∧ s'.stream = s.stream ∧ s'.readyTask = s.readyTask ∧
      s'.disconnected = s.disconnected := by
  grind [resumeCall, cancelStream, callStepsLeft]

/-- Once the generator has ended, a step of any task is one step less that is left. -/
theorem exec_stepsLeft (h : s.Inv) (hdead : s.generatorAlive = false) (he : s.exec op = some s') :
    s'.stepsLeft < s.stepsLeft ∧ s'.generatorAlive = false := by
  have hidle : s.isGenerating = false := by simp [isGenerating, hdead]
  cases op with
  | markReady | beginAttempt => simp [exec, hdead] at he
  | yields | ends | raises => simp [exec, hidle] at he
  | closes =>
    simp only [exec] at he
    split at he
    · next o hpump =>
      cases he
      refine ⟨?_, rfl⟩
      simp only [stepsLeft, hpump, Pump.stepsLeft]
      omega
    · cases he
  | ready =>
    obtain ⟨hready, he⟩ := Option.ite_none_right_eq_some.mp he
    cases he
    refine ⟨?_, hdead⟩
    simp [stepsLeft, hready.1]
  | disconnect =>
    obtain ⟨hconnected, he⟩ := Option.ite_none_right_eq_some.mp he
    cases he
    refine ⟨?_, hdead⟩
    simp [stepsLeft, hconnected.2]
  | pump ok =>
    obtain ⟨hless, hdead', hstream, hready, hcall, hconnected⟩ := resumePump_stepsLeft hdead he
    refine ⟨?_, hdead'⟩
    simp only [stepsLeft, hstream, hready, hcall, hconnected]
    omega
  | stream ok =>
    obtain ⟨hless, hdead', hpump, hready, hcall, hconnected⟩ := resumeStream_stepsLeft h he
    refine ⟨?_, hdead'.trans hdead⟩
    simp only [stepsLeft, hpump, hcall, hconnected]
    by_cases hwaiting : s'.readyTask = .waiting
    · rw [if_pos hwaiting, if_pos (hready hwaiting)]
      omega
    · rw [if_neg hwaiting]
      omega
  | call =>
    obtain ⟨hless, hdead', hpump, hstream, hready, hconnected⟩ := resumeCall_stepsLeft he
    refine ⟨?_, hdead'.trans hdead⟩
    simp only [stepsLeft, hpump, hstream, hready, hconnected]
    omega

/-- **The response comes to an end**: the number of steps after the end of the generator is bounded. -/
theorem run_le_stepsLeft {ops : List StreamOp} (h : s.Inv) (hdead : s.generatorAlive = false)
    (hrun : Run exec Free s ops s') : ops.length ≤ s.stepsLeft := by
  have hbound : s'.Inv ∧ s'.generatorAlive = false ∧ ops.length + s'.stepsLeft ≤ s.stepsLeft := by
    refine hrun.invariant (I := fun ops s' =>
      s'.Inv ∧ s'.generatorAlive = false ∧ ops.length + s'.stepsLeft ≤ s.stepsLeft)
      ⟨h, hdead, by simp⟩ ?_
    rintro ops t op t' ⟨hinv, hended, hle⟩ - he
    obtain ⟨hless, hended'⟩ := exec_stepsLeft hinv hended he
    refine ⟨hinv.exec he, hended', ?_⟩
    rw [List.length_append, List.length_singleton]
    omega
  omega

end StreamingResponse

end PyMotor.Router
