import PyMotor.Lib.Dict
import PyMotor.Lib.Run
import Mathlib.Data.Int.Notation

/-!
# Streaming responses that commit late

The status 200 of a streaming response is held back until the engines that take part have accepted the
request (`coordinator/router/stream_response.py`). A controller collects their reports; a report is for
an attempt, and those of earlier attempts do not count. Four tasks work on the response: the pump takes
the items from the router's generator and sends them once the response is committed, the stream task
waits for readiness and commits, or answers with an error if the stream is over before; a waiter and a
listener tell it about readiness and about the client.

A task runs from one `await` to the next without interruption, so such a piece is one step. A call of
`send` is two: the message is handed over, and later the call returns or raises `OSError`.

Bodies are symbolic: it is kept which error a body renders, and not the text.
-/

namespace PyMotor.Router

/-! ## The controller -/

structure StreamCommitController where
  requiredParts : OrdSet String
  attemptId : ℤ
  readyParts : OrdSet String
  readyEvent : Bool
  committedEvent : Bool
  commitStarted : Bool
  committed : Bool

namespace StreamCommitController

/-- A controller that requires nothing is not built. -/
def requiring (parts : OrdSet String) : Option StreamCommitController :=
  if parts.isEmpty then none else some ⟨parts, 0, ∅, false, false, false, false⟩

def readyToCommit (c : StreamCommitController) : Bool := c.readyEvent

def commitSealed (c : StreamCommitController) : Bool :=
  c.readyToCommit || c.commitStarted || c.committed

/-- It is an error to begin an attempt after the commit is sealed. -/
def beginAttempt (c : StreamCommitController) (id : ℤ) : Option StreamCommitController :=
  if c.commitSealed then none
  else some { c with attemptId := id, readyParts := ∅, readyEvent := false, committedEvent := false }

/-- Reports of other attempts are ignored, and it is an error to report a part that is not required. -/
def markReady (c : StreamCommitController) (part : String) (id : ℤ) : Option StreamCommitController :=
  if id ≠ c.attemptId ∨ c.commitSealed then some c
  else if part ∉ c.requiredParts then none
  else
    let ready := c.readyParts.insert part
    some { c with
      readyParts := ready
      readyEvent := c.readyEvent || c.requiredParts.elems.all fun p => decide (p ∈ ready) }

def markCommitStarted (c : StreamCommitController) : StreamCommitController :=
  { c with commitStarted := true }

def markCommitted (c : StreamCommitController) : StreamCommitController :=
  { c with commitStarted := true, committed := true, committedEvent := true }

end StreamCommitController

/-! ## Errors and messages -/

/-- The status of an answer that is not a success; only such answers are raised as errors. -/
structure FailureStatus where
  code : ℕ
  not_success : ¬ (200 ≤ code ∧ code < 300)

/-- The exceptions, as far as the response tells them apart. -/
inductive Error where
  | upstream (status : FailureStatus)
  | timeout
  | request
  | http (status : FailureStatus)
  | clientDisconnect
  | other

/-- What a task or the generator ends with, if not normally. -/
inductive Raised where
  | error (e : Error)
  | osError
  | cancelled

inductive Outcome where
  | returned
  | raised (r : Raised)

/-- The status of an answer that is an error from the start. -/
def precommitStatus : Error → ℕ
  | .upstream status => status.code
  | .timeout => 504
  | .request => 502
  | .http status => status.code
  | .clientDisconnect => 500
  | .other => 500

inductive Body where
  | item (data : String)
  /-- The answer is an error from the start. -/
  | errorResponse (e : Error)
  /-- An error that comes after the status was sent. -/
  | errorChunk (e : Error)
  | empty

inductive Message where
  | start (status : ℕ)
  | body (content : Body) (moreBody : Bool)

/-! ## The tasks -/

inductive Pump where
  /-- The generator computes the next item. -/
  | running
  /-- An item waits for the commit. -/
  | holding (item : String)
  | sending (item : String)
  /-- An error waits for the commit. -/
  | failing (e : Error)
  | sendingError (e : Error)
  /-- The end waits for the commit. -/
  | ending
  | sendingLast (afterError : Bool)
  /-- The generator is being closed. -/
  | closing (o : Outcome)
  | done (o : Outcome)

inductive StreamTask where
  /-- For the end of the stream or for readiness. -/
  | waiting
  | sendingStart
  | awaitingPump
  | sendingErrorStart (e : Error)
  | sendingErrorBody (e : Error)
  | sendingErrorChunk (e : Error)
  | sendingErrorEnd
  /-- The other tasks are being cancelled. -/
  | stopping (o : Outcome)
  | done (o : Outcome)

inductive ReadyTask where
  | waiting
  | ready
  | cancelled
  deriving DecidableEq

inductive Call where
  | waiting
  | gathering
  | finished
  deriving DecidableEq

def Pump.isDone : Pump → Bool
  | done _ => true
  | _ => false

def StreamTask.isDone : StreamTask → Bool
  | done _ => true
  | _ => false

structure StreamingResponse where
  controller : StreamCommitController
  generatorAlive : Bool
  pump : Pump
  pumpCancelled : Bool
  readyTask : ReadyTask
  /-- How the stream ended, if it did so before the commit was sealed. -/
  terminal : Option (Option Error)
  stream : StreamTask
  streamCancelled : Bool
  disconnected : Bool
  call : Call
  finished : Bool
  messages : List Message

inductive StreamOp where
  /-- The generator, or what it has started in the background. -/
  | markReady (part : String) (id : ℤ)
  | beginAttempt (id : ℤ)
  | yields (item : String)
  | ends
  | raises (r : Raised)
  | closes
  /-- The waiter for readiness. -/
  | ready
  /-- The listener hears that the client has left. -/
  | disconnect
  /-- The pump goes on; `ok` says whether `send` has succeeded, where it has called it. -/
  | pump (ok : Bool)
  | stream (ok : Bool)
  | call

namespace StreamingResponse

def new (controller : StreamCommitController) : StreamingResponse where
  controller := controller
  generatorAlive := true
  pump := .running
  pumpCancelled := false
  readyTask := .waiting
  terminal := none
  stream := .waiting
  streamCancelled := false
  disconnected := false
  call := .waiting
  finished := false
  messages := []

def send (s : StreamingResponse) (msg : Message) : StreamingResponse :=
  { s with messages := s.messages ++ [msg] }

/-! ### The pump -/

/-- The pump is over; a generator that has not ended is closed first. -/
def leavePump (s : StreamingResponse) (o : Outcome) : StreamingResponse :=
  { s with pump := if s.generatorAlive then .closing o else .done o, pumpCancelled := false }

def pumpFinish (s : StreamingResponse) (afterError : Bool) : StreamingResponse :=
  if s.finished then s.leavePump .returned
  else { s with finished := true, pump := .sendingLast afterError }.send (.body .empty false)

def pumpCommittedError (s : StreamingResponse) (e : Error) : StreamingResponse :=
  if s.finished then s.leavePump .returned
  else { s with pump := .sendingError e }.send (.body (.errorChunk e) true)

/-- The generator ends, normally or with an exception that the pump is to report. -/
def generatorEnds (s : StreamingResponse) (e : Option Error) : StreamingResponse :=
  let s := { s with generatorAlive := false, pumpCancelled := false }
  if s.controller.commitSealed then
    { s with pump := match e with | none => .ending | some e => .failing e }
  else { s with terminal := s.terminal.or (some e), pump := .done .returned }

def generatorRaises (s : StreamingResponse) : Raised → StreamingResponse
  | .error e => s.generatorEnds (some e)
  | .osError => { s with generatorAlive := false, pump := .done (.raised (.error .clientDisconnect)) }
  | .cancelled => { s with generatorAlive := false, pump := .done (.raised .cancelled) }

def pumpGoesOn (s : StreamingResponse) (ok : Bool) : Pump → Option StreamingResponse
  | .holding item =>
    if s.controller.committedEvent then
      some ({ s with pump := .sending item }.send (.body (.item item) true))
    else none
  | .sending _ =>
    some (if ok then { s with pump := .running } else s.leavePump (.raised (.error .clientDisconnect)))
  | .failing e => if s.controller.committedEvent then some (s.pumpCommittedError e) else none
  | .sendingError _ =>
    some (if ok then s.pumpFinish true else s.leavePump (.raised (.error .clientDisconnect)))
  | .ending => if s.controller.committedEvent then some (s.pumpFinish false) else none
  | .sendingLast afterError =>
    some (if ok then s.leavePump .returned
      else s.leavePump (.raised (if afterError then .error .clientDisconnect else .osError)))
  | .running | .closing _ | .done _ => none

def resumePump (s : StreamingResponse) (ok : Bool) : Option StreamingResponse :=
  match s.pump with
  | .running | .closing _ | .done _ => none
  | pc => if s.pumpCancelled then some (s.leavePump (.raised .cancelled)) else s.pumpGoesOn ok pc

/-! ### The stream task -/

/-- The pump and the waiter are cancelled unless they are done. -/
def stopStream (s : StreamingResponse) (o : Outcome) : StreamingResponse :=
  { s with
    stream := .stopping o
    pumpCancelled := !s.pump.isDone
    readyTask := if s.readyTask = .ready then .ready else .cancelled }

def streamDisconnects (s : StreamingResponse) : StreamingResponse :=
  s.stopStream (.raised (.error .clientDisconnect))

def streamCatches (s : StreamingResponse) : Error → StreamingResponse
  | .clientDisconnect => s.streamDisconnects
  | e =>
    if s.controller.committed then
      if s.finished then s.stopStream .returned
      else { s with stream := .sendingErrorChunk e }.send (.body (.errorChunk e) true)
    else { s with stream := .sendingErrorStart e }.send (.start (precommitStatus e))

def afterPump (s : StreamingResponse) : Outcome → StreamingResponse
  | .returned => s.stopStream .returned
  | .raised .osError => s.streamDisconnects
  | .raised .cancelled => s.stopStream (.raised .cancelled)
  | .raised (.error e) => s.streamCatches e

/-- The status 200 is sent. -/
def commit (s : StreamingResponse) : StreamingResponse :=
  { s with controller := s.controller.markCommitStarted, stream := .sendingStart }.send (.start 200)

def streamGoesOn (s : StreamingResponse) (ok : Bool) : StreamTask → Option StreamingResponse
  | .waiting =>
    match s.terminal with
    | none => if s.readyTask = .ready then some s.commit else none
    | some ended =>
      -- readiness counts even if the stream is over by now
      if s.controller.readyToCommit then some s.commit
      else some (s.streamCatches (ended.getD .other))
  | .sendingStart =>
    some (if ok then { s with controller := s.controller.markCommitted, stream := .awaitingPump }
      else s.streamDisconnects)
  | .awaitingPump =>
    match s.pump with
    | .done o => some (s.afterPump o)
    | _ => none
  | .sendingErrorStart e =>
    some (if ok then { s with stream := .sendingErrorBody e }.send (.body (.errorResponse e) false)
      else s.streamDisconnects)
  | .sendingErrorBody _ =>
    some (if ok then { s with finished := true }.stopStream .returned else s.streamDisconnects)
  | .sendingErrorChunk _ =>
    some (if ok then
        if s.finished then s.stopStream .returned
        else { s with finished := true, stream := .sendingErrorEnd }.send (.body .empty false)
      else s.streamDisconnects)
  | .sendingErrorEnd => some (if ok then s.stopStream .returned else s.streamDisconnects)
  | .stopping o => if s.pump.isDone then some { s with stream := .done o } else none
  | .done _ => none

def resumeStream (s : StreamingResponse) (ok : Bool) : Option StreamingResponse :=
  match s.stream with
  | .done _ => none
  | .stopping o =>
    s.streamGoesOn ok (.stopping (if s.streamCancelled then .raised .cancelled else o))
  | pc => if s.streamCancelled then some (s.stopStream (.raised .cancelled)) else s.streamGoesOn ok pc

/-! ### The call -/

/-- While the stream task waits for the pump, it is the pump that is cancelled. -/
def cancelStream (s : StreamingResponse) : StreamingResponse :=
  match s.stream with
  | .done _ => s
  | .awaitingPump =>
    if s.pump.isDone then { s with streamCancelled := true } else { s with pumpCancelled := true }
  | .stopping _ => { s with streamCancelled := true, pumpCancelled := !s.pump.isDone }
  | _ => { s with streamCancelled := true }

def resumeCall (s : StreamingResponse) : Option StreamingResponse :=
  match s.call with
  | .waiting =>
    if s.stream.isDone then some { s with call := .finished }
    else if s.disconnected then some { s.cancelStream with call := .gathering }
    else none
  | .gathering => if s.stream.isDone then some { s with call := .finished } else none
  | .finished => none

/-! ### Steps -/

/-- The pump is in the generator. -/
def isGenerating (s : StreamingResponse) : Bool :=
  s.generatorAlive && match s.pump with | .running => true | _ => false

def exec (s : StreamingResponse) : StreamOp → Option StreamingResponse
  | .markReady part id =>
    if s.generatorAlive then
      some { s with controller := (s.controller.markReady part id).getD s.controller }
    else none
  | .beginAttempt id =>
    if s.generatorAlive then
      some { s with controller := (s.controller.beginAttempt id).getD s.controller }
    else none
  | .yields item =>
    if s.isGenerating then some { s with pump := .holding item, pumpCancelled := false } else none
  | .ends => if s.isGenerating then some (s.generatorEnds none) else none
  | .raises r => if s.isGenerating then some (s.generatorRaises r) else none
  | .closes =>
    match s.pump with
    | .closing o => some { s with generatorAlive := false, pump := .done o }
    | _ => none
  | .ready =>
    if s.readyTask = .waiting ∧ s.controller.readyEvent then some { s with readyTask := .ready } else none
  | .disconnect =>
    if s.call = .waiting ∧ ¬ s.disconnected then some { s with disconnected := true } else none
  | .pump ok => s.resumePump ok
  | .stream ok => s.resumeStream ok
  | .call => s.resumeCall

end StreamingResponse

end PyMotor.Router
