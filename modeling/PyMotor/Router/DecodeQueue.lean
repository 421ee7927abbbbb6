import Mathlib.Data.Nat.Notation
import PyMotor.Lib.Run

/-!
# The decode queue

A streaming request has three tasks (`router/strategies/unified_pd.py`). The decode task puts the chunks
of the engine on a queue of one place and then sets the terminal future. The prefill task runs beside it.
The consumer (`_iter_stream_decode_queue`) takes what is on the queue; if there is nothing and the
terminal future is not set, it makes a task of `queue.get()` and waits for this task, for the terminal
future and for the prefill task, whichever is done first.

The tasks are interleaved at their awaits: a `Move` is what one task does from one await to the next. The
consumer is not cancelled here, and a chunk is rewritten by a function of the chunk and of the state of
the adapters.
-/

namespace PyMotor.Router

/-- What the terminal future is set to. -/
inductive DecodeOutcome (ε : Type) where
  | done
  | error (e : ε)
  deriving DecidableEq, Repr

inductive PrefillTask where
  | running
  | succeeded
  | failed
  deriving DecidableEq, Repr

/-- The task of `queue.get()`. -/
inductive Getter (χ : Type) where
  | absent
  | pending
  | got (chunk : χ)
  /-- To be cancelled when it runs next. -/
  | cancelling
  | cancelled
  deriving DecidableEq, Repr

/-- What the consumer has to act on once the prefill task is done. -/
inductive StreamKey (χ : Type) where
  | chunk (chunk : χ)
  | done
  deriving DecidableEq, Repr

inductive DecodeEnd (ε : Type) where
  | returned
  | raised (e : ε)
  | prefillFailed
  deriving DecidableEq, Repr

/-- Where the consumer is. -/
inductive Consumer (χ ε : Type) where
  /-- At the head of its loop. -/
  | running
  /-- In `asyncio.wait`. -/
  | waiting
  /-- Until the getter is cancelled, with the terminal future if it was done before. -/
  | cancelling (seen : Option (DecodeOutcome ε))
  | awaitingPrefill (key : StreamKey χ)
  /-- Has yielded a chunk. -/
  | suspended
  | finished (ending : DecodeEnd ε)
  deriving DecidableEq, Repr

/-- `asyncio.Queue(maxsize=1)` -/
def queueMaxsize : ℕ := 1

/-- The tasks of a streaming request: the chunks `χ` of the engine become `ω` for the client. -/
structure DecodeStream (σ χ ω ε : Type) where
  /-- What the decode task is yet to put. -/
  remaining : List χ
  /-- How the decode task will end. -/
  outcome : DecodeOutcome ε
  queue : List χ
  terminal : Option (DecodeOutcome ε)
  prefill : PrefillTask
  /-- `prefill_task is not None` -/
  awaitsPrefill : Bool
  getter : Getter χ
  consumer : Consumer χ ε
  adapter : σ
  yielded : List ω

namespace DecodeStream

variable {σ χ ω ε : Type}

def start (chunks : List χ) (outcome : DecodeOutcome ε) (withPrefill : Bool) (adapter : σ) :
    DecodeStream σ χ ω ε where
  remaining := chunks
  outcome := outcome
  queue := []
  terminal := none
  prefill := .running
  awaitsPrefill := withPrefill
  getter := .absent
  consumer := .running
  adapter := adapter
  yielded := []

variable (rewrite : σ → χ → ω × σ) (s : DecodeStream σ χ ω ε)

/-! ## The consumer -/

def finish (ending : DecodeEnd ε) : DecodeStream σ χ ω ε := { s with consumer := .finished ending }

def yieldChunk (chunk : χ) : DecodeStream σ χ ω ε :=
  let rewritten := rewrite s.adapter chunk
  { s with
    adapter := rewritten.2
    yielded := s.yielded ++ [rewritten.1]
    consumer := .suspended }

def actOn : StreamKey χ → DecodeStream σ χ ω ε
  | .chunk chunk => s.yieldChunk rewrite chunk
  | .done => s.finish .returned

/-- The prefill task is awaited before the first chunk is yielded, and before a normal end. -/
def handleKey (key : StreamKey χ) : DecodeStream σ χ ω ε :=
  if s.awaitsPrefill then
    match s.prefill with
    | .running => { s with consumer := .awaitingPrefill key }
    | .failed => s.finish .prefillFailed
    | .succeeded => { s with awaitsPrefill := false }.actOn rewrite key
  else s.actOn rewrite key

def handleTerminal : DecodeOutcome ε → DecodeStream σ χ ω ε
  | .done => s.handleKey rewrite .done
  | .error e => s.finish (.raised e)

/-- From the head of the loop. -/
def runLoop : DecodeStream σ χ ω ε :=
  match s.queue with
  | chunk :: queue => { s with queue := queue }.handleKey rewrite (.chunk chunk)
  | [] =>
    match s.terminal with
    | some outcome => s.handleTerminal rewrite outcome
    | none => { s with getter := .pending, consumer := .waiting }

def prefillDone : Bool := s.awaitsPrefill && decide (s.prefill ≠ .running)

/-- Something that the consumer waits for is done. -/
def isReady : Bool :=
  s.terminal.isSome || s.prefillDone ||
    match s.getter with
    | .got _ => true
    | _ => false

/-- From `asyncio.wait`, with the prefill task seen to. -/
def takeGetter : DecodeStream σ χ ω ε :=
  match s.getter with
  | .got chunk => { s with getter := .absent }.handleKey rewrite (.chunk chunk)
  | _ => { s with getter := .cancelling, consumer := .cancelling s.terminal }

def wake : DecodeStream σ χ ω ε :=
  if s.prefillDone then
    if s.prefill = .failed then s.finish .prefillFailed
    else { s with awaitsPrefill := false }.takeGetter rewrite
  else s.takeGetter rewrite

/-- After the getter was cancelled. -/
def afterCancel (seen : Option (DecodeOutcome ε)) : DecodeStream σ χ ω ε :=
  match s.queue, seen with
  | [], some outcome => { s with getter := .absent }.handleTerminal rewrite outcome
  | _, _ => { s with getter := .absent, consumer := .running }

def runConsumer : Option (DecodeStream σ χ ω ε) :=
  match s.consumer with
  | .running => some (s.runLoop rewrite)
  | .waiting => if s.isReady then some (s.wake rewrite) else none
  | .cancelling seen =>
    match s.getter with
    | .cancelled => some (s.afterCancel rewrite seen)
    | _ => none
  | .awaitingPrefill key => if s.prefill = .running then none else some (s.handleKey rewrite key)
  | .suspended => some { s with consumer := .running }
  | .finished _ => none

/-! ## The moves -/

inductive Move where
  /-- The decode task puts a chunk, if there is room. -/
  | put
  /-- The decode task sets the terminal future. -/
  | decodeEnds
  | prefillEnds (success : Bool)
  /-- The getter takes a chunk. -/
  | getterRuns
  | getterCancels
  | consumerRuns
  deriving DecidableEq, Repr

def exec (s : DecodeStream σ χ ω ε) : Move → Option (DecodeStream σ χ ω ε)
  | .put =>
    match s.remaining with
    | chunk :: remaining =>
      if s.queue.length < queueMaxsize then
        some { s with remaining := remaining, queue := s.queue ++ [chunk] }
      else none
    | [] => none
  | .decodeEnds =>
    match s.remaining, s.terminal with
    | [], none => some { s with terminal := some s.outcome }
    | _, _ => none
  | .prefillEnds success =>
    if s.prefill = .running then
      some { s with prefill := if success then .succeeded else .failed }
    else none
  | .getterRuns =>
    match s.getter, s.queue with
    | .pending, chunk :: queue => some { s with getter := .got chunk, queue := queue }
    | _, _ => none
  | .getterCancels =>
    match s.getter with
    | .cancelling => some { s with getter := .cancelled }
    | _ => none
  | .consumerRuns => s.runConsumer rewrite

/-- The prefill task does not fail. -/
def PrefillSucceeds (_ : DecodeStream σ χ ω ε) (move : Move) : Prop := move ≠ .prefillEnds false

instance (s : DecodeStream σ χ ω ε) (move : Move) : Decidable (s.PrefillSucceeds move) :=
  inferInstanceAs (Decidable (move ≠ .prefillEnds false))

end DecodeStream

end PyMotor.Router
