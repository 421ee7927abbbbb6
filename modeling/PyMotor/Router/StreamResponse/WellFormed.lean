import PyMotor.Router.StreamResponse

/-!
# The messages of a streaming response

However the tasks interleave, the messages are a start, bodies that announce more, and at most one body
that is the last. The start says 200 only after the commit, for which all required parts of one attempt
have reported. And a stream that ends gets a complete answer, which renders the error if there is one:
unless the generator raises `CancelledError` on its own account. The pump takes that for its own
cancellation and tells nobody.
-/

namespace PyMotor.Router

/-! ## Sequences of messages -/

/-- The response is open: more bodies are to come. -/
def Opened (status : ℕ) (messages : List Message) : Prop :=
  ∃ bodies : List Body, messages = .start status :: bodies.map (.body · true)

/-- The response is closed by its last body. -/
def Closed (status : ℕ) (messages : List Message) : Prop :=
  ∃ (bodies : List Body) (last : Body),
    messages = .start status :: bodies.map (.body · true) ++ [.body last false]

def WellFormed (messages : List Message) : Prop :=
  messages = [] ∨ ∃ status, Opened status messages ∨ Closed status messages

def Complete (messages : List Message) : Prop := ∃ status, Closed status messages

theorem opened_start (status : ℕ) : Opened status [.start status] := ⟨[], rfl⟩

theorem Opened.body {status : ℕ} {messages : List Message} (h : Opened status messages)
    (content : Body) : Opened status (messages ++ [.body content true]) := by
  obtain ⟨bodies, rfl⟩ := h
  exact ⟨bodies ++ [content], by simp⟩

theorem Opened.last {status : ℕ} {messages : List Message} (h : Opened status messages)
    (content : Body) : Closed status (messages ++ [.body content false]) := by
  obtain ⟨bodies, rfl⟩ := h
  exact ⟨bodies, content, rfl⟩

theorem precommitStatus_ne_ok (e : Error) : precommitStatus e ≠ 200 := by
  have hfailure : ∀ status : FailureStatus, status.code ≠ 200 := by
    intro status
    have := status.not_success
    omega
  cases e with
  | upstream status => exact hfailure status
  | http status => exact hfailure status
  | timeout | request | clientDisconnect | other => decide

namespace Pump

/-- The last body may still be sent. -/
def isOpen : Pump → Bool
  | running | holding _ | sending _ | failing _ | sendingError _ | ending => true
  | _ => false

/-- The pump has gone past the commit. -/
def isPastCommit : Pump → Bool
  | sending _ | sendingError _ | sendingLast _ => true
  | _ => false

theorem not_isOpen_of_isDone {p : Pump} (h : p.isDone = true) : ¬ p.isOpen = true := by
  cases p with
  | done => exact Bool.noConfusion
  | running | holding | sending | failing | sendingError | ending | sendingLast | closing => cases h

end Pump

namespace StreamTask

/-- The status 200 has not been sent, and may not be sent any more. -/
def isBeforeCommit : StreamTask → Bool
  | waiting | sendingErrorStart _ | sendingErrorBody _ => true
  | _ => false

/-- The stream task has committed. -/
def isPastCommit : StreamTask → Bool
  | awaitingPump | sendingErrorChunk _ | sendingErrorEnd => true
  | _ => false

/-- The stream task answers in place of the pump. -/
def isAnswering : StreamTask → Bool
  | sendingErrorStart _ | sendingErrorBody _ | sendingErrorChunk _ | sendingErrorEnd => true
  | _ => false

end StreamTask

namespace StreamingResponse

variable {s s' : StreamingResponse}

/-- What has been sent, by the progress of the commit and of the stream task. -/
def Sent (started finished : Bool) (stream : StreamTask) (messages : List Message) : Prop :=
  if started then
    if finished then Closed 200 messages else Opened 200 messages
  else
    match stream with
    | .waiting => messages = [] ∧ finished = false
    | .sendingErrorStart e => messages = [.start (precommitStatus e)]
    | .sendingErrorBody e => messages = [.start (precommitStatus e), .body (.errorResponse e) false]
    | .stopping _ | .done _ =>
      messages = [] ∨ ∃ e, messages = [.start (precommitStatus e)] ∨
        messages = [.start (precommitStatus e), .body (.errorResponse e) false]
    | _ => False

structure Inv (s : StreamingResponse) : Prop where
  started : s.controller.commitStarted = true → s.controller.readyEvent = true
  ready : s.readyTask = .ready → s.controller.readyEvent = true
  committed : s.controller.committed = true → s.controller.commitStarted = true
  event : s.controller.committedEvent = s.controller.committed
  sent : Sent s.controller.commitStarted s.finished s.stream s.messages
  before : s.stream.isBeforeCommit = true → s.controller.commitStarted = false
  pumpOpen : s.pump.isOpen = true → s.finished = false
  pumpPast : s.pump.isPastCommit = true → s.controller.committed = true
  past : s.stream.isPastCommit = true → s.controller.committed = true
  answering : s.stream.isAnswering = true → s.pump.isDone = true
  terminal : s.terminal.isSome = true → s.pump.isDone = true

theorem Inv.wellFormed (h : s.Inv) : WellFormed s.messages := by
  have hsent := h.sent
  unfold Sent at hsent
  have herror : ∀ e, s.messages = [.start (precommitStatus e)] ∨
      s.messages = [.start (precommitStatus e), .body (.errorResponse e) false] →
        WellFormed s.messages := by
    rintro e (hs | hs)
    · rw [hs]
      exact Or.inr ⟨_, Or.inl (opened_start _)⟩
    · rw [hs]
      exact Or.inr ⟨_, Or.inr ((opened_start _).last _)⟩
  split at hsent
  · split at hsent
    · exact Or.inr ⟨200, Or.inr hsent⟩
    · exact Or.inr ⟨200, Or.inl hsent⟩
  · split at hsent
    · exact Or.inl hsent.1
    · exact herror _ (Or.inl hsent)
    · exact herror _ (Or.inr hsent)
    · rcases hsent with hs | ⟨e, hs⟩
      · exact Or.inl hs
      · exact herror e hs
    · rcases hsent with hs | ⟨e, hs⟩
      · exact Or.inl hs
      · exact herror e hs
    · exact hsent.elim

theorem Inv.leavePump (h : s.Inv) (hrunning : s.pump.isDone = false) (o : Outcome) :
    (s.leavePump o).Inv := by
  have hover : ∀ b, s.generatorAlive = b →
      (s.leavePump o).pump.isOpen = false ∧ (s.leavePump o).pump.isPastCommit = false := by
    rintro (_ | _) halive <;> simp [StreamingResponse.leavePump, halive, Pump.isOpen, Pump.isPastCommit]
  obtain ⟨hopen, hpast⟩ := hover _ rfl
  refine ⟨h.started, h.ready, h.committed, h.event, h.sent, h.before, ?_, ?_, h.past, ?_, ?_⟩
  · rw [hopen]
    exact Bool.noConfusion
  · rw [hpast]
    exact Bool.noConfusion
  · intro hanswering
    rw [h.answering hanswering] at hrunning
    cases hrunning
  · intro hterminal
    rw [h.terminal hterminal] at hrunning
    cases hrunning

theorem Inv.pumpSends (h : s.Inv) (hcommitted : s.controller.committed = true)
    (hopen : s.pump.isOpen = true) {pump : Pump} (content : Body) (last : Bool)
    (hpump : pump.isOpen = !last) :
    Inv ({ s with finished := last, pump := pump }.send (.body content !last)) := by
  have hstarted := h.committed hcommitted
  have hrunning : s.pump.isDone = false := by
    cases hpc : s.pump <;> rw [hpc] at hopen <;> first | rfl | cases hopen
  have hsent := h.sent
  rw [hstarted, h.pumpOpen hopen] at hsent
  refine ⟨h.started, h.ready, h.committed, h.event, ?_, h.before, ?_, fun _ => hcommitted, h.past, ?_, ?_⟩
  · show Sent s.controller.commitStarted last s.stream (s.messages ++ _)
    rw [hstarted]
    cases last with
    | true => exact Opened.last hsent content
    | false => exact Opened.body hsent content
  · show pump.isOpen = true → last = false
    rw [hpump]
    cases last <;> simp
  · intro hanswering
    rw [h.answering hanswering] at hrunning
    cases hrunning
  · intro hterminal
    rw [h.terminal hterminal] at hrunning
    cases hrunning

theorem Inv.pumpFinish (h : s.Inv) (hcommitted : s.controller.committed = true)
    (hopen : s.pump.isOpen = true) (afterError : Bool) : (s.pumpFinish afterError).Inv := by
  unfold StreamingResponse.pumpFinish
  rw [h.pumpOpen hopen, if_neg Bool.false_ne_true]
  exact h.pumpSends hcommitted hopen .empty true rfl

theorem Inv.pumpCommittedError (h : s.Inv) (hcommitted : s.controller.committed = true)
    (hopen : s.pump.isOpen = true) (e : Error) : (s.pumpCommittedError e).Inv := by
  unfold StreamingResponse.pumpCommittedError
  rw [h.pumpOpen hopen, if_neg Bool.false_ne_true]
  exact h.pumpSends hcommitted hopen (.errorChunk e) false rfl

theorem Inv.pumpGoesOn (h : s.Inv) {ok : Bool} (he : s.pumpGoesOn ok s.pump = some s') : s'.Inv := by
  cases hpc : s.pump <;> rw [hpc] at he <;> simp only [StreamingResponse.pumpGoesOn] at he
  case running | closing | done => cases he
  case holding item =>
    split at he
    · next hevent =>
      cases he
      have hcommitted : s.controller.committed = true := h.event ▸ hevent
      have hopen : s.pump.isOpen = true := by rw [hpc]; rfl
      have hsending : (Pump.sending item).isOpen = !false := rfl
      have hsent := h.pumpSends hcommitted hopen (.item item) false hsending
      rw [h.pumpOpen hopen]
      exact hsent
    · cases he
  case sending item =>
    cases he
    split
    · exact { h with
        pumpOpen := fun _ => h.pumpOpen (by rw [hpc]; rfl)
        pumpPast := fun hpast => by cases hpast
        answering := fun hanswering => by have := h.answering hanswering; rw [hpc] at this; exact this
        terminal := fun hterminal => by have := h.terminal hterminal; rw [hpc] at this; exact this }
    · exact h.leavePump (by rw [hpc]; rfl) _
  case failing e =>
    split at he
    · next hevent =>
      cases he
      exact h.pumpCommittedError (h.event ▸ hevent) (by rw [hpc]; rfl) e
    · cases he
  case sendingError e =>
    cases he
    split
    · exact h.pumpFinish (h.pumpPast (by rw [hpc]; rfl)) (by rw [hpc]; rfl) true
    · exact h.leavePump (by rw [hpc]; rfl) _
  case ending =>
    split at he
    · next hevent =>
      cases he
      exact h.pumpFinish (h.event ▸ hevent) (by rw [hpc]; rfl) false
    · cases he
  case sendingLast afterError =>
    cases he
    split <;> exact h.leavePump (by rw [hpc]; rfl) _

theorem Inv.resumePump (h : s.Inv) {ok : Bool} (he : s.resumePump ok = some s') : s'.Inv := by
  unfold StreamingResponse.resumePump at he
  split at he
  · cases he
  · cases he
  · cases he
  · next hrunning hclosing hdone =>
    split at he
    · cases he
      refine h.leavePump ?_ _
      cases hpc : s.pump <;> first | rfl | exact absurd hpc (hdone _)
    · exact h.pumpGoesOn he

/-! ## The stream task -/

theorem Sent.stop {started finished : Bool} {stream : StreamTask} {messages : List Message}
    (h : Sent started finished stream messages) (o : Outcome) :
    Sent started finished (.stopping o) messages := by
  cases started with
  | true => exact h
  | false =>
    cases stream with
    | waiting => exact Or.inl h.1
    | sendingErrorStart e => exact Or.inr ⟨e, Or.inl h⟩
    | sendingErrorBody e => exact Or.inr ⟨e, Or.inr h⟩
    | stopping | done => exact h
    | sendingStart | awaitingPump | sendingErrorChunk | sendingErrorEnd => exact h.elim

theorem Inv.stopStream (h : s.Inv) (o : Outcome) : (s.stopStream o).Inv where
  started := h.started
  ready := by
    intro hready
    apply h.ready
    simp only [StreamingResponse.stopStream] at hready
    split at hready
    · assumption
    · cases hready
  committed := h.committed
  event := h.event
  sent := h.sent.stop o
  before := fun hbefore => by cases hbefore
  pumpOpen := h.pumpOpen
  pumpPast := h.pumpPast
  past := fun hpast => by cases hpast
  answering := fun hanswering => by cases hanswering
  terminal := h.terminal

theorem Inv.streamCatches_committed (h : s.Inv) (hcommitted : s.controller.committed = true)
    (hpump : s.pump.isDone = true) (e : Error) : (s.streamCatches e).Inv := by
  have hanswer : Inv (if s.controller.committed then
      if s.finished then s.stopStream .returned
      else { s with stream := .sendingErrorChunk e }.send (.body (.errorChunk e) true)
    else { s with stream := .sendingErrorStart e }.send (.start (precommitStatus e))) := by
    rw [if_pos hcommitted]
    split
    · exact h.stopStream .returned
    · next hopen =>
      have hopen : s.finished = false := by simpa using hopen
      have hsent := h.sent
      rw [h.committed hcommitted, hopen] at hsent
      refine { h with
        sent := ?_
        before := fun hbefore => by cases hbefore
        past := fun _ => hcommitted
        answering := fun _ => hpump }
      show Sent s.controller.commitStarted s.finished (.sendingErrorChunk e) (s.messages ++ _)
      rw [h.committed hcommitted, hopen]
      exact Opened.body hsent (.errorChunk e)
  cases e with
  | clientDisconnect => exact h.stopStream _
  | upstream | timeout | request | http | other => exact hanswer

theorem Inv.streamCatches_waiting (h : s.Inv) (hwaiting : s.stream = .waiting)
    (hpump : s.pump.isDone = true) (e : Error) : (s.streamCatches e).Inv := by
  have hbefore : s.controller.commitStarted = false := h.before (by rw [hwaiting]; rfl)
  have hcommitted : ¬ s.controller.committed = true := by
    intro hcommitted
    rw [h.committed hcommitted] at hbefore
    cases hbefore
  have hsilent : s.messages = [] := by
    have hsent := h.sent
    rw [hbefore, hwaiting] at hsent
    exact hsent.1
  have hanswer : Inv (if s.controller.committed then
      if s.finished then s.stopStream .returned
      else { s with stream := .sendingErrorChunk e }.send (.body (.errorChunk e) true)
    else { s with stream := .sendingErrorStart e }.send (.start (precommitStatus e))) := by
    rw [if_neg hcommitted]
    refine { h with
      sent := ?_
      before := fun _ => hbefore
      past := fun hpast => by cases hpast
      answering := fun _ => hpump }
    show Sent s.controller.commitStarted s.finished (.sendingErrorStart e) (s.messages ++ _)
    rw [hbefore, hsilent]
    rfl
  cases e with
  | clientDisconnect => exact h.stopStream _
  | upstream | timeout | request | http | other => exact hanswer

theorem Inv.commit (h : s.Inv) (hwaiting : s.stream = .waiting)
    (hready : s.controller.readyEvent = true) : s.commit.Inv := by
  have hbefore : s.controller.commitStarted = false := h.before (by rw [hwaiting]; rfl)
  have hsent := h.sent
  rw [hbefore, hwaiting] at hsent
  obtain ⟨hsilent, hopen⟩ := hsent
  refine { h with
    started := fun _ => hready
    committed := fun _ => rfl
    sent := ?_
    before := fun hbefore => by cases hbefore
    past := fun hpast => by cases hpast
    answering := fun hanswering => by cases hanswering }
  show Sent true s.finished .sendingStart (s.messages ++ [.start 200])
  rw [hopen, hsilent]
  exact opened_start 200

theorem Inv.streamGoesOn (h : s.Inv) {ok : Bool} (he : s.streamGoesOn ok s.stream = some s') :
    s'.Inv := by
  cases hpc : s.stream <;> rw [hpc] at he <;> simp only [StreamingResponse.streamGoesOn] at he
  case waiting =>
    split at he
    · split at he
      · next hready =>
        cases he
        exact h.commit hpc (h.ready hready)
      · cases he
    · next ended hended =>
      split at he
      · next hready =>
        cases he
        exact h.commit hpc hready
      · cases he
        exact h.streamCatches_waiting hpc (h.terminal (by rw [hended]; rfl)) _
  case sendingStart =>
    cases he
    split
    · have hsent := h.sent
      rw [hpc] at hsent
      -- before the commit has started, the task is not here
      have hstarted : s.controller.commitStarted = true := by
        by_contra hnot
        rw [Bool.not_eq_true] at hnot
        rw [hnot] at hsent
        exact hsent
      rw [hstarted] at hsent
      exact { h with
        started := fun _ => h.started hstarted
        committed := fun _ => rfl
        event := rfl
        sent := hsent
        before := fun hbefore => by cases hbefore
        pumpPast := fun _ => rfl
        past := fun _ => rfl
        answering := fun hanswering => by cases hanswering }
    · exact h.stopStream _
  case awaitingPump =>
    split at he
    · next o hpump =>
      cases he
      have hcommitted := h.past (by rw [hpc]; rfl)
      cases o with
      | returned => exact h.stopStream _
      | raised r =>
        cases r with
        | osError | cancelled => exact h.stopStream _
        | error e => exact h.streamCatches_committed hcommitted (by rw [hpump]; rfl) e
    · cases he
  case sendingErrorStart e =>
    cases he
    have hbefore := h.before (by rw [hpc]; rfl)
    have hpump := h.answering (by rw [hpc]; rfl)
    have hsent := h.sent
    rw [hpc, hbefore] at hsent
    split
    · refine { h with
        sent := ?_
        before := fun _ => hbefore
        past := fun hpast => by cases hpast
        answering := fun _ => hpump }
      show Sent s.controller.commitStarted s.finished (.sendingErrorBody e) (s.messages ++ _)
      rw [hbefore]
      exact congrArg (· ++ [Message.body (.errorResponse e) false]) hsent
    · exact h.stopStream _
  case sendingErrorBody e =>
    cases he
    have hbefore := h.before (by rw [hpc]; rfl)
    have hpump := h.answering (by rw [hpc]; rfl)
    have hsent := h.sent
    rw [hpc, hbefore] at hsent
    split
    · have hmarked : Inv { s with finished := true } := { h with
        sent := by
          show Sent s.controller.commitStarted true s.stream s.messages
          rw [hbefore, hpc]
          exact hsent
        pumpOpen := fun hopen => absurd hopen (Pump.not_isOpen_of_isDone hpump) }
      exact hmarked.stopStream _
    · exact h.stopStream _
  case sendingErrorChunk e =>
    cases he
    have hcommitted := h.past (by rw [hpc]; rfl)
    have hpump := h.answering (by rw [hpc]; rfl)
    split
    · split
      · exact h.stopStream _
      · next hopen =>
        have hopen : s.finished = false := by simpa using hopen
        have hsent := h.sent
        rw [h.committed hcommitted, hopen] at hsent
        refine { h with
          sent := ?_
          before := fun hbefore => by cases hbefore
          pumpOpen := fun hopen => absurd hopen (Pump.not_isOpen_of_isDone hpump)
          past := fun _ => hcommitted
          answering := fun _ => hpump }
        show Sent s.controller.commitStarted true .sendingErrorEnd (s.messages ++ _)
        rw [h.committed hcommitted]
        exact Opened.last hsent .empty
    · exact h.stopStream _
  case sendingErrorEnd =>
    cases he
    split <;> exact h.stopStream _
  case stopping o =>
    split at he
    · cases he
      have hsent := h.sent
      rw [hpc] at hsent
      exact { h with
        sent := hsent
        before := fun hbefore => by cases hbefore
        past := fun hpast => by cases hpast
        answering := fun hanswering => by cases hanswering }
    · cases he
  case done => cases he

theorem Inv.resumeStream (h : s.Inv) {ok : Bool} (he : s.resumeStream ok = some s') : s'.Inv := by
  unfold StreamingResponse.resumeStream at he
  split at he
  · cases he
  · next o hpc =>
    split at he
    · -- the outcome is another one
      have hother : Inv { s with stream := .stopping (.raised .cancelled) } := by
        have hsent := h.sent
        rw [hpc] at hsent
        exact { h with
          sent := hsent
          before := fun hbefore => by cases hbefore
          past := fun hpast => by cases hpast
          answering := fun hanswering => by cases hanswering }
      exact @Inv.streamGoesOn _ _ hother ok he
    · exact h.streamGoesOn (hpc ▸ he)
  · split at he
    · cases he
      exact h.stopStream _
    · exact h.streamGoesOn he

/-! ## All steps -/

theorem Inv.generatorEnds (h : s.Inv) (hpump : s.pump = .running) (e : Option Error) :
    (s.generatorEnds e).Inv := by
  have hopen : s.finished = false := h.pumpOpen (by rw [hpump]; rfl)
  have hanswering : s.stream.isAnswering = true → False := by
    intro hanswering
    have hdone := h.answering hanswering
    rw [hpump] at hdone
    cases hdone
  unfold StreamingResponse.generatorEnds
  simp only
  split
  · have hterminal : s.terminal.isSome = true → False := by
      intro hterminal
      have hdone := h.terminal hterminal
      rw [hpump] at hdone
      cases hdone
    refine { h with
      pumpOpen := fun _ => hopen
      pumpPast := fun hpast => ?_
      answering := fun ha => (hanswering ha).elim
      terminal := fun ht => (hterminal ht).elim }
    cases e <;> cases hpast
  · exact { h with
      pumpOpen := fun hopen => by cases hopen
      pumpPast := fun hpast => by cases hpast
      answering := fun _ => rfl
      terminal := fun _ => rfl }

theorem Inv.generatorRaises (h : s.Inv) (hpump : s.pump = .running) (r : Raised) :
    (s.generatorRaises r).Inv := by
  cases r with
  | error e => exact h.generatorEnds hpump (some e)
  | osError | cancelled =>
    exact { h with
      pumpOpen := fun hopen => by cases hopen
      pumpPast := fun hpast => by cases hpast
      answering := fun _ => rfl
      terminal := fun _ => rfl }

theorem pump_of_isGenerating (h : s.isGenerating = true) :
    s.generatorAlive = true ∧ s.pump = .running := by
  unfold isGenerating at h
  rw [Bool.and_eq_true] at h
  refine ⟨h.1, ?_⟩
  cases hpc : s.pump <;> rw [hpc] at h <;> first | rfl | cases h.2

/-- What the controller makes of a report or of a new attempt, after the commit: nothing. -/
theorem Inv.withController (h : s.Inv) {c : StreamCommitController}
    (hready : s.controller.readyEvent = true → c.readyEvent = true)
    (hstarted : c.commitStarted = s.controller.commitStarted)
    (hcommitted : c.committed = s.controller.committed)
    (hevent : c.committedEvent = c.committed) : Inv { s with controller := c } where
  started := fun hs => hready (h.started (hstarted ▸ hs))
  ready := fun hr => hready (h.ready hr)
  committed := fun hc => hstarted.trans (h.committed (hcommitted ▸ hc))
  event := hevent
  sent := by
    show Sent c.commitStarted s.finished s.stream s.messages
    rw [hstarted]
    exact h.sent
  before := fun hb => hstarted.trans (h.before hb)
  pumpOpen := h.pumpOpen
  pumpPast := fun hp => hcommitted.trans (h.pumpPast hp)
  past := fun hp => hcommitted.trans (h.past hp)
  answering := h.answering
  terminal := h.terminal

theorem Inv.markReady (h : s.Inv) (part : String) (id : ℤ) :
    Inv { s with controller := (s.controller.markReady part id).getD s.controller } := by
  unfold StreamCommitController.markReady
  split
  · exact h
  · split
    · exact h
    · exact h.withController (fun hr => by simp [hr]) rfl rfl h.event

theorem Inv.beginAttempt (h : s.Inv) (id : ℤ) :
    Inv { s with controller := (s.controller.beginAttempt id).getD s.controller } := by
  unfold StreamCommitController.beginAttempt
  split
  · exact h
  · next hsealed =>
    simp only [StreamCommitController.commitSealed, StreamCommitController.readyToCommit,
      Bool.or_eq_true, not_or, Bool.not_eq_true] at hsealed
    obtain ⟨⟨hready, -⟩, hcommitted⟩ := hsealed
    refine h.withController (fun hr => ?_) rfl rfl hcommitted.symm
    rw [hready] at hr
    cases hr

theorem Inv.cancelStream (h : s.Inv) : s.cancelStream.Inv := by
  unfold StreamingResponse.cancelStream
  split
  · exact h
  · split <;> exact { h with }
  · exact { h with }
  · exact { h with }

theorem Inv.resumeCall (h : s.Inv) (he : s.resumeCall = some s') : s'.Inv := by
  unfold StreamingResponse.resumeCall at he
  split at he
  · split at he
    · cases he
      exact { h with }
    · split at he
      · cases he
        exact { h.cancelStream with }
      · cases he
  · split at he
    · cases he
      exact { h with }
    · cases he
  · cases he

theorem Inv.exec {op : StreamOp} (h : s.Inv) (he : s.exec op = some s') : s'.Inv := by
  cases op with
  | markReady part id =>
    obtain ⟨-, he⟩ := Option.ite_none_right_eq_some.mp he
    cases he
    exact h.markReady part id
  | beginAttempt id =>
    obtain ⟨-, he⟩ := Option.ite_none_right_eq_some.mp he
    cases he
    exact h.beginAttempt id
  | yields item =>
    obtain ⟨hgenerating, he⟩ := Option.ite_none_right_eq_some.mp he
    cases he
    -- while the generator yields, the pump waits for it
    have hpump := (pump_of_isGenerating hgenerating).2
    exact { h with
      pumpOpen := fun _ => h.pumpOpen (by rw [hpump]; rfl)
      pumpPast := fun hpast => by cases hpast
      answering := fun ha => by have := h.answering ha; rw [hpump] at this; cases this
      terminal := fun ht => by have := h.terminal ht; rw [hpump] at this; cases this }
  | ends =>
    obtain ⟨hgenerating, he⟩ := Option.ite_none_right_eq_some.mp he
    cases he
    exact h.generatorEnds (pump_of_isGenerating hgenerating).2 none
  | raises r =>
    obtain ⟨hgenerating, he⟩ := Option.ite_none_right_eq_some.mp he
    cases he
    exact h.generatorRaises (pump_of_isGenerating hgenerating).2 r
  | closes =>
    unfold StreamingResponse.exec at he
    simp only at he
    split at he
    · next o hpump =>
      cases he
      exact { h with
        pumpOpen := fun hopen => by cases hopen
        pumpPast := fun hpast => by cases hpast
        answering := fun _ => rfl
        terminal := fun _ => rfl }
    · cases he
  | ready =>
    obtain ⟨hready, he⟩ := Option.ite_none_right_eq_some.mp he
    cases he
    exact { h with ready := fun _ => hready.2 }
  | disconnect =>
    obtain ⟨-, he⟩ := Option.ite_none_right_eq_some.mp he
    cases he
    exact { h with }
  | pump ok => exact h.resumePump he
  | stream ok => exact h.resumeStream he
  | call => exact h.resumeCall he

theorem inv_new {parts : OrdSet String} {c : StreamCommitController}
    (hc : StreamCommitController.requiring parts = some c) : (new c).Inv := by
  unfold StreamCommitController.requiring at hc
  split at hc
  · cases hc
  · cases hc
    exact ⟨Bool.noConfusion, ReadyTask.noConfusion, Bool.noConfusion, rfl, ⟨rfl, rfl⟩, fun _ => rfl,
      fun _ => rfl, Bool.noConfusion, Bool.noConfusion, Bool.noConfusion, Bool.noConfusion⟩

end StreamingResponse

end PyMotor.Router
