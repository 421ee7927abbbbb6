import PyMotor.Lib.Always
import PyMotor.Router.StreamResponse.Completion

/-!
# Every stream that ends is answered

As long as the client stays and `send` succeeds, nobody is cancelled, and the pump leaves the generator
only at its end. What it knows then reaches the client: through the stream task if the commit was not
sealed yet, and else through the pump itself.
-/

namespace PyMotor.Router

/-! ## Errors, raised and rendered -/

def StreamOp.failure : StreamOp → Option Error
  | raises (.error e) => some e
  | _ => none

/-- The errors that the generator has raised. -/
def failures (ops : List StreamOp) : List Error := ops.filterMap StreamOp.failure

def Message.rendering : Message → Option Error
  | body (.errorResponse e) _ => some e
  | body (.errorChunk e) _ => some e
  | _ => none

/-- The errors that the response renders. -/
def renderings (messages : List Message) : List Error := messages.filterMap Message.rendering

theorem failures_snoc (ops : List StreamOp) (op : StreamOp) :
    failures (ops ++ [op]) = failures ops ++ op.failure.toList := by
  simp [failures, List.filterMap_append, List.filterMap_cons]
  cases op.failure <;> rfl

theorem renderings_snoc (messages : List Message) (msg : Message) :
    renderings (messages ++ [msg]) = renderings messages ++ msg.rendering.toList := by
  simp [renderings, List.filterMap_append, List.filterMap_cons]
  cases msg.rendering <;> rfl

/-- The client leaves, or an `OSError` occurs. -/
def StreamOp.disturbs : StreamOp → Bool
  | disconnect | pump false | stream false | raises .osError => true
  | _ => false

namespace Pump

/-- The generator has not ended. -/
def isServing : Pump → Bool
  | running | holding _ | sending _ => true
  | _ => false

/-- The generator has ended, and the commit was sealed before. -/
def isSealed : Pump → Bool
  | failing _ | sendingError _ | ending | sendingLast _ => true
  | _ => false

/-- The pump has not been thrown out of its work. -/
def isUndisturbed : Pump → Bool
  | closing _ | done (.raised _) => false
  | _ => true

end Pump

/-- Which errors the client knows of, among those raised. -/
def Told (failures renderings : List Error) (terminal : Option (Option Error)) : Pump → Prop
  | .running | .holding _ | .sending _ | .ending => failures = [] ∧ renderings = []
  | .failing e => failures = [e] ∧ renderings = []
  | .sendingError e => failures = [e] ∧ renderings = [e]
  | .sendingLast _ => renderings = failures
  | .closing _ => True
  | .done _ =>
    match terminal with
    | none => renderings = failures
    | some ended => failures = ended.toList

namespace StreamingResponse

variable {s s' : StreamingResponse} {ops : List StreamOp} {op : StreamOp}

/-- `CancelledError` is for tasks that were cancelled, and until the commit is sealed `ClientDisconnect` is
for clients that have left; the generator does not raise them for other reasons. -/
def KeepsAnswering (s : StreamingResponse) : StreamOp → Prop
  | .raises .cancelled => s.pumpCancelled = true
  | .raises (.error .clientDisconnect) => s.disconnected = true ∨ s.controller.commitSealed = true
  | _ => True

instance (s : StreamingResponse) : ∀ op, Decidable (s.KeepsAnswering op)
  | .raises .cancelled => inferInstanceAs (Decidable (_ = true))
  | .raises (.error .clientDisconnect) => inferInstanceAs (Decidable (_ = true ∨ _ = true))
  | .raises (.error (.upstream _)) | .raises (.error .timeout) | .raises (.error .request) |
    .raises (.error (.http _)) | .raises (.error .other) | .raises .osError | .markReady _ _ |
    .beginAttempt _ | .yields _ | .ends | .closes | .ready | .disconnect | .pump _ | .stream _ |
    .call => isTrue trivial

/-- What the stream task has done about an end of the stream before the commit. -/
def Answered (terminal : Option (Option Error)) (messages : List Message) : StreamTask → Prop
  | .sendingErrorStart e | .sendingErrorBody e => ∃ ended, terminal = some ended ∧ e = ended.getD .other
  | .sendingErrorChunk _ | .sendingErrorEnd => False
  | .stopping _ | .done _ => ∀ ended, terminal = some ended → ∃ e, e = ended.getD .other ∧
      messages = [.start (precommitStatus e), .body (.errorResponse e) false]
  | _ => True

/-- Nothing has disturbed the tasks. -/
structure Undisturbed (ops : List StreamOp) (s : StreamingResponse) : Prop where
  inv : s.Inv
  connected : s.disconnected = false
  streamGoes : s.streamCancelled = false
  pumpGoes : s.pumpCancelled = false
  calling : s.call ≠ .gathering
  serving : s.generatorAlive = s.pump.isServing
  undisturbed : s.pump.isUndisturbed = true
  sealed : s.pump.isSealed = true → s.controller.readyEvent = true
  unsealed : s.terminal.isSome = true → s.controller.readyEvent = false
  ended : s.pump.isDone = true → s.terminal = none → s.finished = true ∧ s.controller.committed = true
  last : ∀ afterError, s.pump = .sendingLast afterError → s.finished = true
  stopped : s.stream.stepsLeft ≤ 1 → s.pump.isDone = true
  waiter : s.readyTask = .cancelled → s.stream.stepsLeft ≤ 1
  present : ∀ ended, s.terminal = some ended → ended ≠ some .clientDisconnect
  once : (failures ops).length ≤ 1
  told : Told (failures ops) (renderings s.messages) s.terminal s.pump
  answered : Answered s.terminal s.messages s.stream

/-! ### The generator -/

theorem Undisturbed.terminal_eq_none (h : Undisturbed ops s) (hpump : s.pump.isDone = false) :
    s.terminal = none := by
  cases hterminal : s.terminal with
  | none => rfl
  | some ended =>
    rw [h.inv.terminal (by rw [hterminal]; rfl)] at hpump
    cases hpump

theorem Undisturbed.terminal_of_committed (h : Undisturbed ops s)
    (hcommitted : s.controller.committed = true) : s.terminal = none := by
  cases hterminal : s.terminal with
  | none => rfl
  | some ended =>
    have hready := h.inv.started (h.inv.committed hcommitted)
    rw [h.unsealed (by rw [hterminal]; rfl)] at hready
    cases hready

/-- While the pump is at work, the stream task is before or in its wait for it. -/
theorem Undisturbed.stream_pending (h : Undisturbed ops s) (hpump : s.pump.isDone = false) :
    1 < s.stream.stepsLeft := by
  by_contra hle
  rw [h.stopped (by omega)] at hpump
  cases hpump

theorem Undisturbed.generatorEnds (h : Undisturbed ops s) (hpump : s.pump = .running)
    (e : Option Error) (hop : op.failure = e)
    (hpresent : s.controller.commitSealed = false → e ≠ some .clientDisconnect) :
    Undisturbed (ops ++ [op]) (s.generatorEnds e) := by
  have hrunning : s.pump.isDone = false := by rw [hpump]; rfl
  have hnone := h.terminal_eq_none hrunning
  have hpending := h.stream_pending hrunning
  have htold := h.told
  rw [hpump] at htold
  obtain ⟨hfailures, hrenderings⟩ := htold
  have hnew : failures (ops ++ [op]) = e.toList := by
    rw [failures_snoc, hfailures, hop]
    rfl
  have hinv := h.inv.generatorEnds hpump e
  have honce : (failures (ops ++ [op])).length ≤ 1 := by
    rw [hnew]
    cases e <;> simp
  -- the stream task has not answered yet: there was no end it could have seen
  have hanswered : ∀ t, Answered t s.messages s.stream := by
    have := h.answered
    intro t
    cases hpc : s.stream <;> rw [hpc] at this hpending
    case sendingErrorStart | sendingErrorBody =>
      obtain ⟨ended, hended, -⟩ := this
      rw [hnone] at hended
      cases hended
    case sendingErrorChunk | sendingErrorEnd => exact this
    case stopping | done => simp [StreamTask.stepsLeft] at hpending
    all_goals trivial
  unfold StreamingResponse.generatorEnds at hinv ⊢
  simp only at hinv ⊢
  -- the pump tells the client itself once the commit is sealed, and leaves it to the stream task before
  by_cases hsealed : s.controller.commitSealed = true
  · rw [if_pos hsealed] at hinv ⊢
    have hready : s.controller.readyEvent = true := by
      simp only [StreamCommitController.commitSealed, StreamCommitController.readyToCommit,
        Bool.or_eq_true] at hsealed
      rcases hsealed with (hready | hstarted) | hcommitted
      · exact hready
      · exact h.inv.started hstarted
      · exact h.inv.started (h.inv.committed hcommitted)
    exact {
      inv := hinv
      connected := h.connected
      streamGoes := h.streamGoes
      pumpGoes := rfl
      calling := h.calling
      serving := by cases e <;> rfl
      undisturbed := by cases e <;> rfl
      sealed := fun _ => hready
      unsealed := h.unsealed
      ended := by cases e <;> exact Bool.noConfusion
      last := by cases e <;> exact fun _ => Pump.noConfusion
      stopped := fun hle => absurd hle (Nat.not_le.mpr hpending)
      waiter := h.waiter
      present := h.present
      once := honce
      told := by
        rw [hnew]
        cases e with
        | none => exact ⟨rfl, hrenderings⟩
        | some e => exact ⟨rfl, hrenderings⟩
      answered := hanswered _ }
  · rw [if_neg hsealed] at hinv ⊢
    have hready : s.controller.readyEvent = false := by
      simp only [StreamCommitController.commitSealed, StreamCommitController.readyToCommit,
        Bool.or_eq_true, not_or, Bool.not_eq_true] at hsealed
      exact hsealed.1.1
    rw [hnone] at hinv ⊢
    exact {
      inv := hinv
      connected := h.connected
      streamGoes := h.streamGoes
      pumpGoes := rfl
      calling := h.calling
      serving := rfl
      undisturbed := rfl
      sealed := Bool.noConfusion
      unsealed := fun _ => hready
      ended := fun _ hterminal => by cases hterminal
      last := fun _ => Pump.noConfusion
      stopped := fun _ => rfl
      waiter := h.waiter
      present := fun _ hterminal => Option.some.inj hterminal ▸ hpresent (Bool.not_eq_true _ ▸ hsealed)
      once := honce
      told := hnew
      answered := hanswered _ }

/-! ### The pump -/

theorem Undisturbed.answered_of_running (h : Undisturbed ops s) (hpump : s.pump.isDone = false)
    (messages : List Message) : Answered s.terminal messages s.stream := by
  have hpending := h.stream_pending hpump
  have hanswered := h.answered
  cases hpc : s.stream <;> rw [hpc] at hanswered hpending
  case sendingErrorStart | sendingErrorBody => exact hanswered
  case sendingErrorChunk | sendingErrorEnd => exact hanswered
  case stopping | done => simp [StreamTask.stepsLeft] at hpending
  all_goals trivial

theorem Undisturbed.pumpMoves (h : Undisturbed ops s) (hrunning : s.pump.isDone = false) {pump : Pump}
    {finished : Bool} {messages : List Message}
    (hinv : Inv { s with pump := pump, finished := finished, messages := messages })
    (hserving : pump.isServing = s.pump.isServing) (hundisturbed : pump.isUndisturbed = true)
    (hsealed : pump.isSealed = true → s.pump.isSealed = true) (hdone : pump.isDone = false)
    (hlast : ∀ afterError, pump = .sendingLast afterError → finished = true)
    (htold : Told (failures ops) (renderings messages) s.terminal pump) :
    Undisturbed ops { s with pump := pump, finished := finished, messages := messages } where
  inv := hinv
  connected := h.connected
  streamGoes := h.streamGoes
  pumpGoes := h.pumpGoes
  calling := h.calling
  serving := h.serving.trans hserving.symm
  undisturbed := hundisturbed
  sealed := fun hs => h.sealed (hsealed hs)
  unsealed := h.unsealed
  ended := fun hd => by
    rw [show ({ s with pump := pump, finished := finished, messages := messages } :
      StreamingResponse).pump.isDone = pump.isDone from rfl, hdone] at hd
    cases hd
  last := hlast
  stopped := fun hle => absurd hle (Nat.not_le.mpr (h.stream_pending hrunning))
  waiter := h.waiter
  present := h.present
  once := h.once
  told := htold
  answered := h.answered_of_running hrunning messages

theorem resumePump_eq {ok : Bool} (h : s.pumpCancelled = false) :
    s.resumePump ok = s.pumpGoesOn ok s.pump := by
  unfold StreamingResponse.resumePump
  split
  · next hpc => rw [hpc]; rfl
  · next hpc => rw [hpc]; rfl
  · next hpc => rw [hpc]; rfl
  · rw [if_neg (by simp [h])]

theorem Undisturbed.resumePump (h : Undisturbed ops s) (he : s.resumePump true = some s') :
    Undisturbed ops s' := by
  have hinv := h.inv.resumePump he
  have htold := h.told
  rw [resumePump_eq h.pumpGoes] at he
  cases hpc : s.pump <;> rw [hpc] at htold he <;>
    simp only [StreamingResponse.pumpGoesOn, if_true] at he
  case running | closing | done => cases he
  case holding item =>
    have hrunning : s.pump.isDone = false := by rw [hpc]; rfl
    split at he
    · cases he
      refine h.pumpMoves hrunning hinv (by rw [hpc]; rfl) rfl Bool.noConfusion rfl
        (fun _ => Pump.noConfusion) ?_
      -- the item that was held has now been told
      refine ⟨htold.1, ?_⟩
      rw [renderings_snoc, htold.2]
      rfl
    · cases he
  case sending item =>
    have hrunning : s.pump.isDone = false := by rw [hpc]; rfl
    cases he
    exact h.pumpMoves hrunning hinv (by rw [hpc]; rfl) rfl Bool.noConfusion rfl
      (fun _ => Pump.noConfusion) htold
  case failing e =>
    have hrunning : s.pump.isDone = false := by rw [hpc]; rfl
    -- nobody finishes the response while the pump is at work
    have hopen : s.finished = false := h.inv.pumpOpen (by rw [hpc]; rfl)
    split at he
    · cases he
      simp only [StreamingResponse.pumpCommittedError, hopen, Bool.false_eq_true, if_false] at hinv ⊢
      refine h.pumpMoves hrunning hinv (by rw [hpc]; rfl) rfl (fun _ => by rw [hpc]; rfl) rfl
        (fun _ => Pump.noConfusion) ⟨htold.1, ?_⟩
      rw [renderings_snoc, htold.2]
      rfl
    · cases he
  case sendingError e =>
    have hrunning : s.pump.isDone = false := by rw [hpc]; rfl
    have hopen : s.finished = false := h.inv.pumpOpen (by rw [hpc]; rfl)
    cases he
    simp only [StreamingResponse.pumpFinish, hopen, Bool.false_eq_true, if_false] at hinv ⊢
    refine h.pumpMoves hrunning hinv (by rw [hpc]; rfl) rfl (fun _ => by rw [hpc]; rfl) rfl
      (fun _ _ => rfl) ?_
    show renderings (s.messages ++ _) = _
    rw [renderings_snoc, htold.2, htold.1]
    rfl
  case ending =>
    have hrunning : s.pump.isDone = false := by rw [hpc]; rfl
    have hopen : s.finished = false := h.inv.pumpOpen (by rw [hpc]; rfl)
    split at he
    · cases he
      simp only [StreamingResponse.pumpFinish, hopen, Bool.false_eq_true, if_false] at hinv ⊢
      refine h.pumpMoves hrunning hinv (by rw [hpc]; rfl) rfl (fun _ => by rw [hpc]; rfl) rfl
        (fun _ _ => rfl) ?_
      show renderings (s.messages ++ _) = _
      rw [renderings_snoc, htold.2, htold.1]
      rfl
    · cases he
  case sendingLast afterError =>
    have hrunning : s.pump.isDone = false := by rw [hpc]; rfl
    have hdead : s.generatorAlive = false := by rw [h.serving, hpc]; rfl
    have hcommitted := h.inv.pumpPast (by rw [hpc]; rfl)
    cases he
    have hpump : (s.leavePump .returned).pump = .done .returned := by
      simp [StreamingResponse.leavePump, hdead]
    -- the pump returns, with everything told and the response committed
    exact {
      inv := hinv
      connected := h.connected
      streamGoes := h.streamGoes
      pumpGoes := rfl
      calling := h.calling
      serving := by rw [hpump]; exact hdead
      undisturbed := by rw [hpump]; rfl
      sealed := by rw [hpump]; exact Bool.noConfusion
      unsealed := h.unsealed
      ended := fun _ _ => ⟨h.last afterError hpc, hcommitted⟩
      last := by rw [hpump]; exact fun _ => Pump.noConfusion
      stopped := fun _ => by rw [hpump]; rfl
      waiter := h.waiter
      present := h.present
      once := h.once
      told := by
        rw [hpump, show (s.leavePump .returned).terminal = none from h.terminal_of_committed hcommitted]
        exact htold
      answered := h.answered_of_running hrunning s.messages }

/-! ### The stream task -/

/-- The stream task goes on, and may send a message that renders no error. -/
theorem Undisturbed.streamMoves (h : Undisturbed ops s) {c : StreamCommitController}
    {stream : StreamTask} {messages : List Message}
    (hinv : Inv { s with controller := c, stream := stream, messages := messages })
    (hready : c.readyEvent = s.controller.readyEvent)
    (hcommitted : s.controller.committed = true → c.committed = true)
    (hstopped : 1 < stream.stepsLeft) (hpending : 1 < s.stream.stepsLeft)
    (htold : Told (failures ops) (renderings messages) s.terminal s.pump)
    (hanswered : Answered s.terminal messages stream) :
    Undisturbed ops { s with controller := c, stream := stream, messages := messages } where
  inv := hinv
  connected := h.connected
  streamGoes := h.streamGoes
  pumpGoes := h.pumpGoes
  calling := h.calling
  serving := h.serving
  undisturbed := h.undisturbed
  sealed := fun hs => hready.trans (h.sealed hs)
  unsealed := fun hu => hready.trans (h.unsealed hu)
  ended := fun hd ht => ⟨(h.ended hd ht).1, hcommitted (h.ended hd ht).2⟩
  last := h.last
  stopped := fun hle => absurd hle (Nat.not_le.mpr hstopped)
  waiter := fun hw => absurd (h.waiter hw) (Nat.not_le.mpr hpending)
  present := h.present
  once := h.once
  told := htold
  answered := hanswered

theorem Undisturbed.stopStream (h : Undisturbed ops s) (hpump : s.pump.isDone = true)
    (hanswered : Answered s.terminal s.messages (.stopping .returned)) :
    Undisturbed ops (s.stopStream .returned) where
  inv := h.inv.stopStream _
  connected := h.connected
  streamGoes := h.streamGoes
  pumpGoes := by
    show (!s.pump.isDone) = false
    rw [hpump]
    rfl
  calling := h.calling
  serving := h.serving
  undisturbed := h.undisturbed
  sealed := h.sealed
  unsealed := h.unsealed
  ended := h.ended
  last := h.last
  stopped := fun _ => hpump
  waiter := fun _ => Nat.le_refl 1
  present := h.present
  once := h.once
  told := h.told
  answered := hanswered

theorem Undisturbed.not_committed {ended : Option Error} (h : Undisturbed ops s)
    (hterminal : s.terminal = some ended) : s.controller.committed = false := by
  cases hcommitted : s.controller.committed with
  | false => rfl
  | true =>
    rw [h.terminal_of_committed hcommitted] at hterminal
    cases hterminal

theorem Undisturbed.ended_ne_clientDisconnect {ended : Option Error} (h : Undisturbed ops s)
    (hterminal : s.terminal = some ended) : ended.getD .other ≠ .clientDisconnect := by
  cases ended with
  | none => exact Error.noConfusion
  | some e => exact fun heq => h.present _ hterminal (congrArg some heq)

theorem resumeStream_eq {ok : Bool} (h : s.streamCancelled = false) :
    s.resumeStream ok = s.streamGoesOn ok s.stream := by
  unfold StreamingResponse.resumeStream
  split
  · next hpc => rw [hpc]; rfl
  · next hpc => rw [hpc, h]; rfl
  · rw [if_neg (by simp [h])]

theorem Told.send {fs : List Error} {terminal : Option (Option Error)} {pump : Pump}
    {messages : List Message} {msg : Message} (h : Told fs (renderings messages) terminal pump)
    (hmsg : msg.rendering = none) : Told fs (renderings (messages ++ [msg])) terminal pump := by
  rw [renderings_snoc, hmsg]
  simpa using h

theorem Undisturbed.resumeStream (h : Undisturbed ops s) (he : s.resumeStream true = some s') :
    Undisturbed ops s' := by
  have hinv := h.inv.resumeStream he
  have hanswered := h.answered
  rw [resumeStream_eq h.streamGoes] at he
  cases hpc : s.stream <;> rw [hpc] at hanswered he <;>
    simp only [StreamingResponse.streamGoesOn, if_true] at he
  case waiting =>
    have hpending : 1 < s.stream.stepsLeft := by rw [hpc]; decide
    have hcommit : s' = s.commit → Undisturbed ops s' := by
      rintro rfl
      exact h.streamMoves (c := s.controller.markCommitStarted) hinv rfl id
        (by simp [StreamTask.stepsLeft]) hpending (Told.send h.told rfl) trivial
    split at he
    · split at he
      · exact hcommit (Option.some.inj he).symm
      · cases he
    · next ended hterminal =>
      split at he
      · exact hcommit (Option.some.inj he).symm
      · cases he
        have hcatches : s.streamCatches (ended.getD .other) =
            { s with stream := .sendingErrorStart (ended.getD .other) }.send
              (.start (precommitStatus (ended.getD .other))) := by
          -- the client is there, so the error is answered with its status
          have hpresent := h.ended_ne_clientDisconnect hterminal
          generalize ended.getD .other = e at hpresent
          cases e <;> first | exact absurd rfl hpresent | simp [streamCatches, h.not_committed hterminal]
        rw [hcatches] at hinv ⊢
        exact h.streamMoves hinv rfl id (by simp [StreamTask.stepsLeft]) hpending (Told.send h.told rfl)
          ⟨ended, hterminal, rfl⟩
  case sendingStart =>
    cases he
    exact h.streamMoves (c := s.controller.markCommitted) hinv rfl (fun _ => rfl)
      (by simp [StreamTask.stepsLeft]) (by rw [hpc]; decide) h.told trivial
  case awaitingPump =>
    have hcommitted := h.inv.past (by rw [hpc]; rfl)
    split at he
    · next o hpump =>
      cases he
      have hdone : s.pump.isDone = true := by rw [hpump]; rfl
      cases o with
      | returned =>
        refine h.stopStream hdone fun ended hended => ?_
        rw [h.terminal_of_committed hcommitted] at hended
        cases hended
      | raised r =>
        -- a pump that nobody disturbs does not raise
        have hundisturbed := h.undisturbed
        rw [hpump] at hundisturbed
        cases hundisturbed
    · cases he
  case sendingErrorStart e =>
    cases he
    obtain ⟨ended, hended, rfl⟩ := hanswered
    have hdone := h.inv.answering (by rw [hpc]; rfl)
    refine h.streamMoves hinv rfl id (by simp [StreamTask.stepsLeft]) (by rw [hpc]; simp [StreamTask.stepsLeft])
      ?_ ⟨ended, hended, rfl⟩
    have htold := h.told
    cases hpump : s.pump <;> rw [hpump] at hdone htold <;> cases hdone
    rw [hended] at htold ⊢
    exact htold
  case sendingErrorBody e =>
    cases he
    obtain ⟨ended, hended, rfl⟩ := hanswered
    have hdone := h.inv.answering (by rw [hpc]; rfl)
    have hsent := h.inv.sent
    rw [h.inv.before (by rw [hpc]; rfl), hpc] at hsent
    -- the answer is complete before the pump is stopped
    have hmarked : Undisturbed ops { s with finished := true } := { h with
      inv := { h.inv with
        sent := by
          show Sent s.controller.commitStarted true s.stream s.messages
          rw [h.inv.before (by rw [hpc]; rfl), hpc]
          exact hsent
        pumpOpen := fun hopen => absurd hopen (Pump.not_isOpen_of_isDone hdone) }
      ended := fun _ hnone => by
        rw [show ({ s with finished := true } : StreamingResponse).terminal = some ended from hended] at hnone
        cases hnone
      last := fun _ _ => rfl }
    refine hmarked.stopStream hdone fun ended' hended' => ?_
    rw [show ({ s with finished := true } : StreamingResponse).terminal = some ended from hended] at hended'
    cases hended'
    exact ⟨_, rfl, hsent⟩
  case sendingErrorChunk => exact hanswered.elim
  case sendingErrorEnd => exact hanswered.elim
  case stopping o =>
    split at he
    · next hdone =>
      cases he
      exact { h with
        inv := hinv
        stopped := fun _ => hdone
        waiter := fun _ => Nat.zero_le 1
        answered := hanswered }
    · cases he
  case done => cases he

/-! ### All steps -/

theorem Undisturbed.snoc (h : Undisturbed ops s) (hop : op.failure = none) :
    Undisturbed (ops ++ [op]) s := by
  have hsame : failures (ops ++ [op]) = failures ops := by
    rw [failures_snoc, hop]
    simp
  exact { h with
    once := hsame ▸ h.once
    told := hsame ▸ h.told }

theorem Undisturbed.withController (h : Undisturbed ops s) {c : StreamCommitController}
    (halive : s.generatorAlive = true) (hinv : Inv { s with controller := c }) :
    Undisturbed ops { s with controller := c } := by
  have hserving : s.pump.isServing = true := h.serving ▸ halive
  have hrunning : s.pump.isDone = false := by
    cases hpc : s.pump <;> rw [hpc] at hserving <;> first | rfl | cases hserving
  exact { h with
    inv := hinv
    sealed := fun hsealed => by
      have hunsealed : s.pump.isSealed = false := by
        cases hpc : s.pump <;> rw [hpc] at hserving <;> first | rfl | cases hserving
      rw [show ({ s with controller := c } : StreamingResponse).pump.isSealed = false from hunsealed]
        at hsealed
      cases hsealed
    unsealed := fun hterminal => by
      rw [show ({ s with controller := c } : StreamingResponse).terminal = none from
        h.terminal_eq_none hrunning] at hterminal
      cases hterminal
    ended := fun hdone => by
      rw [show ({ s with controller := c } : StreamingResponse).pump.isDone = false from hrunning] at hdone
      cases hdone }

theorem Undisturbed.exec (h : Undisturbed ops s) (hcalm : op.disturbs = false)
    (hguard : s.KeepsAnswering op) (he : s.exec op = some s') : Undisturbed (ops ++ [op]) s' := by
  have hinv := h.inv.exec he
  cases op with
  | markReady part id =>
    obtain ⟨halive, he⟩ := Option.ite_none_right_eq_some.mp he
    cases he
    exact (h.withController halive hinv).snoc rfl
  | beginAttempt id =>
    obtain ⟨halive, he⟩ := Option.ite_none_right_eq_some.mp he
    cases he
    exact (h.withController halive hinv).snoc rfl
  | yields item =>
    obtain ⟨hgenerating, he⟩ := Option.ite_none_right_eq_some.mp he
    cases he
    obtain ⟨halive, hpump⟩ := pump_of_isGenerating hgenerating
    have hpumpGoes := h.pumpGoes
    rw [← hpumpGoes] at hinv ⊢
    have htold := h.told
    rw [hpump] at htold
    refine Undisturbed.snoc ?_ rfl
    exact h.pumpMoves (by rw [hpump]; rfl) hinv (by rw [hpump]; rfl) rfl Bool.noConfusion rfl
      (fun _ => Pump.noConfusion) htold
  | ends =>
    obtain ⟨hgenerating, he⟩ := Option.ite_none_right_eq_some.mp he
    cases he
    exact h.generatorEnds (pump_of_isGenerating hgenerating).2 none rfl (by simp)
  | raises r =>
    obtain ⟨hgenerating, he⟩ := Option.ite_none_right_eq_some.mp he
    cases he
    cases r with
    | error e =>
      refine h.generatorEnds (pump_of_isGenerating hgenerating).2 (some e) rfl ?_
      rintro hunsealed ⟨⟩
      -- the client is still there
      have hleft : s.disconnected = true ∨ s.controller.commitSealed = true := hguard
      rw [h.connected, hunsealed] at hleft
      cases hleft <;> contradiction
    | osError => cases hcalm
    | cancelled =>
      -- nobody has cancelled the pump
      have hcancelled : s.pumpCancelled = true := hguard
      rw [h.pumpGoes] at hcancelled
      cases hcancelled
  | closes =>
    have hundisturbed := h.undisturbed
    simp only [StreamingResponse.exec] at he
    split at he
    · next o hpump =>
      rw [hpump] at hundisturbed
      cases hundisturbed
    · cases he
  | ready =>
    obtain ⟨hready, he⟩ := Option.ite_none_right_eq_some.mp he
    cases he
    refine Undisturbed.snoc ?_ rfl
    exact { h with
      inv := hinv
      waiter := ReadyTask.noConfusion }
  | disconnect => cases hcalm
  | pump ok =>
    cases ok with
    | true => exact (h.resumePump he).snoc rfl
    | false => cases hcalm
  | stream ok =>
    cases ok with
    | true => exact (h.resumeStream he).snoc rfl
    | false => cases hcalm
  | call =>
    refine Undisturbed.snoc ?_ rfl
    simp only [StreamingResponse.exec, StreamingResponse.resumeCall] at he
    split at he
    · split at he
      · cases he
        exact { h with
          inv := hinv
          calling := Call.noConfusion }
      · split at he
        · next hleft =>
          rw [h.connected] at hleft
          cases hleft
        · cases he
    · next hcall => exact absurd hcall h.calling
    · cases he

theorem undisturbed_new {parts : OrdSet String} {c : StreamCommitController}
    (hc : StreamCommitController.requiring parts = some c) : Undisturbed [] (new c) where
  inv := inv_new hc
  connected := rfl
  streamGoes := rfl
  pumpGoes := rfl
  calling := Call.noConfusion
  serving := rfl
  undisturbed := rfl
  sealed := Bool.noConfusion
  unsealed := Bool.noConfusion
  ended := Bool.noConfusion
  last := fun _ => Pump.noConfusion
  stopped := fun hle => by simp [new, StreamTask.stepsLeft] at hle
  waiter := ReadyTask.noConfusion
  present := fun _ hterminal => by cases hterminal
  once := Nat.zero_le 1
  told := ⟨rfl, rfl⟩
  answered := trivial

/-! ## The end -/

/-- No task of the response can go on. -/
def isSettled (s : StreamingResponse) : Bool :=
  (s.exec .ready).isNone && (s.exec (.pump true)).isNone && (s.exec (.stream true)).isNone &&
    (s.exec .call).isNone

theorem isSettled_iff : s.isSettled = true ↔ s.exec .ready = none ∧ s.resumePump true = none ∧
    s.resumeStream true = none ∧ s.resumeCall = none := by
  simp only [isSettled, Bool.and_eq_true, Option.isNone_iff_eq_none, and_assoc]
  exact Iff.rfl

theorem Undisturbed.pump_done (h : Undisturbed ops s) (hdead : s.generatorAlive = false)
    (hsettled : s.isSettled = true) : s.pump.isDone = true := by
  obtain ⟨hready, hpump, hstream, -⟩ := isSettled_iff.mp hsettled
  by_contra hrunning
  rw [Bool.not_eq_true] at hrunning
  have hpending := h.stream_pending hrunning
  have hnone := h.terminal_eq_none hrunning
  have hidle : s.pumpGoesOn true s.pump = none := resumePump_eq h.pumpGoes ▸ hpump
  have hstuck : s.streamGoesOn true s.stream = none := resumeStream_eq h.streamGoes ▸ hstream
  have hserving := h.serving.symm.trans hdead
  have hundisturbed := h.undisturbed
  -- a message that is being sent is sent; else the pump waits for the commit
  have hwaits : s.pump.isSealed = true ∧ s.controller.committedEvent = false := by
    cases hpc : s.pump <;> rw [hpc] at hidle hserving hundisturbed hrunning
    case running | holding | sending => cases hserving
    case closing => cases hundisturbed
    case done => cases hrunning
    case sendingError | sendingLast => cases hidle
    case failing | ending =>
      simp only [pumpGoesOn] at hidle
      split at hidle
      · cases hidle
      · next hevent => exact ⟨rfl, by simpa using hevent⟩
  have hsealed := h.sealed hwaits.1
  -- the waiter has told the stream task, which commits
  have hwaiter : s.readyTask = .ready := by
    cases hpc : s.readyTask with
    | ready => rfl
    | waiting =>
      rw [StreamingResponse.exec, if_pos ⟨hpc, hsealed⟩] at hready
      cases hready
    | cancelled =>
      have hle := h.waiter hpc
      omega
  cases hpc : s.stream <;> rw [hpc] at hstuck hpending
  case waiting =>
    simp only [streamGoesOn, hnone, hwaiter, if_true] at hstuck
    cases hstuck
  case awaitingPump =>
    have hcommitted := h.inv.past (by rw [hpc]; rfl)
    rw [← h.inv.event, hwaits.2] at hcommitted
    cases hcommitted
  case sendingErrorStart | sendingErrorBody | sendingErrorChunk | sendingErrorEnd =>
    have hdone := h.inv.answering (by rw [hpc]; rfl)
    rw [hrunning] at hdone
    cases hdone
  case stopping | done => simp [StreamTask.stepsLeft] at hpending
  case sendingStart => cases hstuck

theorem Undisturbed.stream_done (h : Undisturbed ops s) (hdone : s.pump.isDone = true)
    (hsettled : s.isSettled = true) : ∃ o, s.stream = .done o := by
  have hstuck : s.streamGoesOn true s.stream = none :=
    resumeStream_eq h.streamGoes ▸ (isSettled_iff.mp hsettled).2.2.1
  have hanswered := h.answered
  obtain ⟨o, hpump⟩ : ∃ o, s.pump = .done o := by
    cases hpc : s.pump <;> rw [hpc] at hdone <;> cases hdone
    exact ⟨_, rfl⟩
  cases hpc : s.stream <;> rw [hpc] at hstuck hanswered
  case done o => exact ⟨o, rfl⟩
  case waiting =>
    cases hterminal : s.terminal with
    | none =>
      have hcommitted := h.inv.committed (h.ended hdone hterminal).2
      rw [h.inv.before (by rw [hpc]; rfl)] at hcommitted
      cases hcommitted
    | some ended =>
      simp only [streamGoesOn, hterminal] at hstuck
      split at hstuck <;> cases hstuck
  case awaitingPump =>
    simp only [streamGoesOn, hpump] at hstuck
    cases hstuck
  case stopping o =>
    simp only [streamGoesOn, hdone, if_true] at hstuck
    cases hstuck
  case sendingErrorChunk | sendingErrorEnd => exact hanswered.elim
  case sendingStart | sendingErrorStart | sendingErrorBody => cases hstuck

/-- **At the end the response is complete**, and renders the error that the generator has raised. -/
theorem Undisturbed.complete (h : Undisturbed ops s) (hdead : s.generatorAlive = false)
    (hsettled : s.isSettled = true) :
    Complete s.messages ∧ ∀ e ∈ failures ops, renderings s.messages = [e] := by
  have hdone := h.pump_done hdead hsettled
  obtain ⟨o, hstream⟩ := h.stream_done hdone hsettled
  have htold : Told (failures ops) (renderings s.messages) s.terminal (.done .returned) := by
    have htold := h.told
    cases hpc : s.pump <;> rw [hpc] at hdone htold <;> cases hdone
    exact htold
  cases hterminal : s.terminal with
  | none =>
    obtain ⟨hfinished, hcommitted⟩ := h.ended hdone hterminal
    have hsent := h.inv.sent
    rw [h.inv.committed hcommitted, hfinished] at hsent
    rw [hterminal] at htold
    refine ⟨⟨200, hsent⟩, fun e he => ?_⟩
    have hrendered : renderings s.messages = failures ops := htold
    rw [hrendered]
    -- the generator raises once
    have honce := h.once
    obtain ⟨f, hf⟩ : ∃ f, failures ops = [f] :=
      List.length_eq_one_iff.mp (Nat.le_antisymm honce (List.length_pos_of_mem he))
    rw [hf] at he ⊢
    rw [List.mem_singleton.mp he]
  | some ended =>
    have hanswered := h.answered
    rw [hstream] at hanswered
    obtain ⟨e, rfl, hmessages⟩ := hanswered ended hterminal
    rw [hterminal] at htold
    have hfailures : failures ops = ended.toList := htold
    rw [hmessages, hfailures]
    refine ⟨⟨_, [], _, rfl⟩, fun e he => ?_⟩
    rw [Option.mem_toList] at he
    cases he
    rfl

theorem mem_failures {e : Error} : e ∈ failures ops ↔ .raises (.error e) ∈ ops := by
  simp only [failures, List.mem_filterMap]
  constructor
  · rintro ⟨op, hop, hfailure⟩
    cases op with
    | raises r =>
      cases r with
      | error e' =>
        cases hfailure
        exact hop
      | osError | cancelled => cases hfailure
    | markReady | beginAttempt | yields | ends | closes | ready | disconnect | pump | stream | call =>
      cases hfailure
  · exact fun hop => ⟨_, hop, rfl⟩

/-- **The response is well-formed**: in every run its messages are in order, and it says 200 only if all
required parts of one attempt have reported; and if nothing disturbs it, the end of the generator is
followed by a bounded number of steps, after which it is complete and renders exactly the error that was
raised. -/
theorem response_well_formed {parts : OrdSet String} {c : StreamCommitController}
    (hc : StreamCommitController.requiring parts = some c) :
    (∀ ops s, Run exec Free (new c) ops s → WellFormed s.messages ∧
      (.start 200 ∈ s.messages → ∃ id, ∀ part ∈ parts, .markReady part id ∈ ops)) ∧
    ∀ ops s, Run exec KeepsAnswering (new c) ops s → (∀ op ∈ ops, op.disturbs = false) →
      s.generatorAlive = false →
        (∀ ops' s', Run exec Free s ops' s' → ops'.length ≤ s.stepsLeft) ∧
        (s.isSettled = true →
          Complete s.messages ∧ ∀ e, .raises (.error e) ∈ ops → renderings s.messages = [e]) := by
  refine ⟨fun ops s hrun => ?_, fun ops s hrun hcalm hdead => ⟨fun ops' s' hrun' => ?_, fun hsettled => ?_⟩⟩
  · have hinv : s.Inv := hrun.invariant_state (inv_new hc) fun h _ he => h.exec he
    have hreported : Reported parts ops s.controller :=
      hrun.invariant (I := fun ops s => Reported parts ops s.controller) (reported_new hc)
        fun h _ he => h.exec he
    refine ⟨hinv.wellFormed, fun hok => ?_⟩
    have hready := hinv.started (hinv.commitStarted_of_ok hok)
    exact ⟨s.controller.attemptId, fun part hpart =>
      hreported.reported part (hreported.full hready part hpart)⟩
  · exact run_le_stepsLeft (hrun.invariant_state (inv_new hc) fun h _ he => h.exec he) hdead hrun'
  · have hundisturbed : (∀ op ∈ ops, op.disturbs = false) → Undisturbed ops s := by
      refine hrun.invariant (I := fun ops s => (∀ op ∈ ops, op.disturbs = false) → Undisturbed ops s)
        (fun _ => undisturbed_new hc) ?_
      intro ops s op s' ih hguard he hcalm
      exact (ih fun op hop => hcalm op (List.mem_append_left _ hop)).exec
        (hcalm op (List.mem_append_right _ List.mem_cons_self)) hguard he
    obtain ⟨hcomplete, hrendered⟩ := (hundisturbed hcalm).complete hdead hsettled
    exact ⟨hcomplete, fun e he => hrendered e (mem_failures.mpr he)⟩

/-! ## Two runs -/

def bothLegs : OrdSet String := ((∅ : OrdSet String).insert "prefill").insert "decode"

def bothLegsController : StreamCommitController := ⟨bothLegs, 0, ∅, false, false, false, false⟩

/-- The stream fails when both legs are ready and the status has not been sent yet. -/
def failsAfterSeal : List StreamOp :=
  [.beginAttempt 1, .markReady "prefill" 1, .markReady "decode" 1, .raises (.error .timeout), .ready,
    .stream true, .stream true, .pump true, .pump true, .pump true, .stream true, .stream true, .call]

theorem failsAfterSeal_answered : ∃ s, Run exec KeepsAnswering (new bothLegsController) failsAfterSeal s ∧
    WellFormed s.messages ∧ Complete s.messages ∧ renderings s.messages = [.timeout] := by
  have h : (runList exec KeepsAnswering (new bothLegsController) failsAfterSeal).map (fun s =>
      (s.generatorAlive, s.isSettled)) = some (false, true) := by decide
  obtain ⟨s, hs, hf⟩ := Option.map_eq_some_iff.mp h
  simp only [Prod.mk.injEq] at hf
  obtain ⟨hdead, hsettled⟩ := hf
  have hrequired : StreamCommitController.requiring bothLegs = some bothLegsController := rfl
  obtain ⟨hevery, hends⟩ := response_well_formed hrequired
  have hformed := (hevery _ s (runList_run hs).free).1
  obtain ⟨-, hcomplete⟩ := hends _ s (runList_run hs) (by decide) hdead
  obtain ⟨hcomplete, hrendered⟩ := hcomplete hsettled
  exact ⟨s, runList_run hs, hformed, hcomplete, hrendered .timeout (by simp [failsAfterSeal])⟩

/-- The instance that the stream has fallen back to is lost, and its canceller cancels the pump inside
of the generator, which lets `CancelledError` pass. -/
def cancelledBeforeCommit : List StreamOp := [.beginAttempt 1, .raises .cancelled]

/-- Nobody is told: the response waits for ever, without a message. -/
theorem cancelled_generator_never_answered :
    ∃ s, Run exec Free (new bothLegsController) cancelledBeforeCommit s ∧
      (∀ op ∈ cancelledBeforeCommit, op.disturbs = false) ∧ s.generatorAlive = false ∧
      s.isSettled = true ∧ s.disconnected = false ∧ ¬ Complete s.messages := by
  have h : (runList exec Free (new bothLegsController) cancelledBeforeCommit).map (fun s =>
      (s.generatorAlive, s.isSettled, s.disconnected, s.messages.isEmpty)) =
        some (false, true, false, true) := by decide
  obtain ⟨s, hs, hf⟩ := Option.map_eq_some_iff.mp h
  simp only [Prod.mk.injEq, List.isEmpty_iff] at hf
  obtain ⟨hdead, hsettled, hconnected, hsilent⟩ := hf
  refine ⟨s, runList_run hs, by decide, hdead, hsettled, hconnected, ?_⟩
  rintro ⟨status, bodies, last, hmessages⟩
  rw [hsilent] at hmessages
  cases hmessages

end StreamingResponse

end PyMotor.Router
