import PyMotor.Router.Rescheduler
import PyMotor.Lib.Run

/-!
# Streams that are tried again

The stream loops of the two routers (`strategies/pd_hybrid.py`, `strategies/unified_pd.py`). An attempt
is scheduled, forwarded to its engines, and its frames go through the rescheduler to the client; when it
fails the router decides whether there is another one. The router for separate prefill and decode can
also hand the request over to a hybrid instance, once.

The response sends a frame before it asks for the next one, so whatever the router has produced by the
time an attempt fails is with the client. Frames are sent only after the commit.

`sent` and `forwards` are kept for the specification. A forwarded request is recorded before the protocol
adapter of the engine adds its own fields, which are not about the prompt.
-/

namespace PyMotor.Router

/-! ## Output -/

/-- A piece of output: the tokens that the frame reports for it, and in which choice, or a visible piece
without tokens. -/
inductive Piece where
  | tokens (choice : ℕ) (ids : List ℕ)
  | untracked
  deriving DecidableEq

def Choice.output (c : Choice) (i : ℕ) : List Piece :=
  if c.hasTokenIds then [.tokens i (c.tokenIds.getD [])]
  else if c.isVisible then [.untracked]
  else []

/-- The output of the choices, the first of which has number `i`. -/
def outputFrom (i : ℕ) : List (Option Choice) → List Piece
  | [] => []
  | none :: cs => outputFrom (i + 1) cs
  | some c :: cs => c.output i ++ outputFrom (i + 1) cs

def StreamChunk.output : StreamChunk → List Piece
  | json j => outputFrom 0 j.choices
  | unparsed true true => [.untracked]
  | unparsed _ _ | notObject => []

/-- The tokens of the output, if they are all known. -/
def tokensOf : List Piece → Option (List ℕ)
  | [] => some []
  | .tokens _ ids :: ps => (tokensOf ps).map (ids ++ ·)
  | .untracked :: _ => none

/-! ## The state of a request -/

inductive Strategy where
  | pdHybrid
  | unifiedPd
  deriving DecidableEq

/-- The part of an attempt that is forwarded to one engine. -/
inductive Leg where
  | engine
  | prefill
  | decode
  deriving DecidableEq

def Leg.part : Leg → String
  | engine => "engine"
  | prefill => "prefill"
  | decode => "decode"

def Strategy.legs : Strategy → List Leg
  | pdHybrid => [.engine]
  | unifiedPd => [.prefill, .decode]

structure StreamConfig where
  strategy : Strategy
  transportRetryLimit : ℤ
  rescheduleEnabled : Bool
  enablePdSeparationFallbackToHybrid : Bool

def StreamConfig.maxRetry (cfg : StreamConfig) : ℕ := (max cfg.transportRetryLimit 1).toNat

structure Forward where
  leg : Leg
  request : ReqData
  api : String
  /-- What had been sent to the client by then. -/
  sent : List Piece
  deriving DecidableEq

inductive StreamEnd where
  | completed
  | failed
  | abandoned
  deriving DecidableEq

inductive Phase where
  /-- The next attempt is about to start. -/
  | starting
  /-- Whether it is scheduled, and which of its legs are forwarded. -/
  | running (scheduled : Bool) (posted : List Leg)
  /-- The hybrid instance that takes over. -/
  | fallback (posted : Bool)
  | ended (how : StreamEnd)
  deriving DecidableEq

structure StreamState where
  info : RequestInfo
  rescheduler : Rescheduler
  controller : StreamCommitController
  attempt : ℕ
  /-- The number of the attempt that the controller knows. -/
  attemptSeq : ℕ
  plan : Option RetryRequestPlan
  phase : Phase
  /-- The state of the adapter to the chat shape. -/
  roleSent : Bool
  bodySent : Bool
  firstChunkSent : Bool
  hybridStreamFallbackAttempted : Bool
  sent : List Piece
  /-- A frame could not be adapted after its tokens had been cached. -/
  lost : Bool
  forwards : List Forward

inductive RetryOp where
  | start (feasible : Bool)
  | schedule
  | post (leg : Leg)
  /-- The engine of the leg has accepted the request. -/
  | accepted (leg : Leg)
  /-- The response sends the status 200. -/
  | commit
  | chunk (c : StreamChunk) (feasible : Bool)
  | finish
  /-- The attempt fails; `feasible` says whether a hybrid instance could take over. -/
  | fail (e : Failure) (feasible : Bool)
  /-- The response gives the stream up. -/
  | abandon

namespace StreamState

def new (cfg : StreamConfig) (info : RequestInfo) (controller : StreamCommitController) :
    StreamState where
  info := { info with promptTokenIds := [], cachedTokenIds := [] }
  rescheduler := Rescheduler.new cfg.rescheduleEnabled
  controller := controller
  attempt := 0
  attemptSeq := 0
  plan := none
  phase := .starting
  roleSent := false
  bodySent := false
  firstChunkSent := false
  hybridStreamFallbackAttempted := false
  sent := []
  lost := false
  forwards := []

variable (cfg : StreamConfig)

/-! ## Failures -/

/-- Exceptions of the coordinator are final, and of the engines' those that `upstream_error` lists. -/
def transportRetryable : Failure → Bool
  | .http => false
  | .other => true
  | e => e.isRetryableUpstreamError

def attemptsLeft (s : StreamState) : Bool := decide (s.attempt + 1 < cfg.maxRetry)

/-- The gates of `PDHybridRouter._generate_stream`. -/
def pdHybridRetries (s : StreamState) : Failure → Bool
  | .cancelled reason =>
    reason.isRetryable && s.attemptsLeft cfg && (!s.bodySent || cfg.rescheduleEnabled)
  | e =>
    if e.isTimeout then !(s.firstChunkSent || s.controller.readyToCommit) && s.attemptsLeft cfg
    else s.attemptsLeft cfg && (!s.bodySent || cfg.rescheduleEnabled) && transportRetryable e

def streamRetryAllowed (s : StreamState) : Bool :=
  !s.bodySent || s.rescheduler.canResumeAfterVisibleOutput s.info

/-- The decision of `UnifiedPDRouter._process_response_error`. -/
def unifiedPdRetries (s : StreamState) : Failure → Bool
  | .cancelled reason => reason.isRetryable && s.streamRetryAllowed && s.attemptsLeft cfg
  | e => s.streamRetryAllowed && s.attemptsLeft cfg && transportRetryable e

def retries (s : StreamState) (e : Failure) : Bool :=
  match cfg.strategy with
  | .pdHybrid => s.pdHybridRetries cfg e
  | .unifiedPd => s.unifiedPdRetries cfg e

/-- `_should_use_hybrid_fallback_stream_restart`. -/
def shouldRestart (s : StreamState) (feasible : Bool) : Bool :=
  decide (cfg.strategy = .unifiedPd) && !s.hybridStreamFallbackAttempted && !s.bodySent &&
    !s.controller.commitSealed && (cfg.enablePdSeparationFallbackToHybrid && feasible)

/-- `_should_use_hybrid_fallback_stream_resume`. -/
def shouldResume (s : StreamState) (feasible : Bool) : Bool :=
  decide (cfg.strategy = .unifiedPd) && !s.hybridStreamFallbackAttempted && s.bodySent &&
    s.rescheduler.canResumeAfterVisibleOutput s.info &&
    (cfg.enablePdSeparationFallbackToHybrid && feasible)

def «end» (s : StreamState) (how : StreamEnd) : StreamState := { s with phase := .ended how }

def fallbackAttemptId (s : StreamState) : ℕ :=
  match s.phase with
  | .running true _ => s.attemptSeq + 1
  | _ => s.attempt + 1

/-- The hybrid router that takes over has a rescheduler of its own, on the same caches. -/
def enterFallback (s : StreamState) (plan : Option RetryRequestPlan) : StreamState :=
  { s with
    phase := .fallback false
    plan := plan
    attemptSeq := s.fallbackAttemptId
    roleSent := false
    hybridStreamFallbackAttempted := true
    rescheduler := { Rescheduler.new cfg.rescheduleEnabled with isRescheduling := plan.isSome }
    controller :=
      if plan.isSome then s.controller
      else (s.controller.beginAttempt s.fallbackAttemptId).getD s.controller }

def onFailure (s : StreamState) (e : Failure) (feasible : Bool) : StreamState :=
  if s.shouldRestart cfg feasible then s.enterFallback cfg none
  else if s.shouldResume cfg feasible then
    match s.info.buildRetryPlan with
    | .ok (some plan) => s.enterFallback cfg (some plan)
    | _ => s.end .failed
  else if s.retries cfg e then { s with phase := .starting, attempt := s.attempt + 1 }
  else s.end .failed

/-! ## An attempt -/

/-- From the second attempt on the request counts as rescheduled. -/
def prepareAttempt (s : StreamState) : StreamState :=
  let s := { s with
    plan := none
    roleSent := false
    rescheduler := { s.rescheduler with
      isRescheduling := s.rescheduler.isRescheduling || decide (s.attempt ≠ 0) } }
  match cfg.strategy with
  | .pdHybrid => { s with
      attemptSeq := s.attempt + 1
      controller := (s.controller.beginAttempt (s.attempt + 1)).getD s.controller }
  | .unifiedPd => s

/-- The tokens are replayed from the second attempt on. -/
def attemptPlan (s : StreamState) : Except HTTPException (Option RetryRequestPlan) :=
  if s.attempt = 0 ∨ cfg.strategy = .pdHybrid ∧ ¬ cfg.rescheduleEnabled then .ok none
  else s.info.buildRetryPlan

def startAttempt (s : StreamState) (feasible : Bool) : StreamState :=
  match s.attemptPlan cfg with
  | .ok plan => { s.prepareAttempt cfg with plan := plan, phase := .running false [] }
  | .error _ => (s.prepareAttempt cfg).onFailure cfg .http feasible

def scheduled (s : StreamState) : StreamState :=
  match cfg.strategy with
  | .pdHybrid => { s with phase := .running true [] }
  | .unifiedPd => { s with
      phase := .running true []
      attemptSeq := s.attemptSeq + 1
      controller := (s.controller.beginAttempt (s.attemptSeq + 1)).getD s.controller }

def attemptRequest (s : StreamState) (leg : Leg) (api : String) : ReqData × String :=
  let d := s.info.reqData
  if cfg.rescheduleEnabled then
    match s.plan with
    | none => ({ d with returnTokenIds := true }, api)
    | some plan => plan.apply { d with returnTokenIds := true } (leg == .prefill)
  else (d, api)

/-- Forward the request to the engine of a leg. -/
def forward (s : StreamState) (leg : Leg) (api : String) : StreamState :=
  let (request, api) := s.attemptRequest cfg leg api
  { s with
    firstChunkSent := s.firstChunkSent && leg == .prefill
    forwards := s.forwards ++ [⟨leg, request, api, s.sent⟩] }

def postLeg (s : StreamState) (leg : Leg) : Option StreamState :=
  match s.phase with
  | .running true posted =>
    if leg ∈ cfg.strategy.legs ∧ leg ∉ posted then
      let api := match cfg.strategy with
        | .pdHybrid => s.info.api
        | .unifiedPd => s.info.entryApi
      some { s.forward cfg leg api with phase := .running true (posted ++ [leg]) }
    else none
  | .fallback false =>
    if leg = .engine then some { s.forward cfg .engine s.info.api with phase := .fallback true } else none
  | _ => none

def legAccepted (s : StreamState) (leg : Leg) : Option StreamState :=
  let mark (c : StreamCommitController) (part : String) := (c.markReady part s.attemptSeq).getD c
  match s.phase with
  | .running true posted =>
    if leg ∈ posted then some { s with controller := mark s.controller leg.part } else none
  | .fallback true =>
    if leg = .engine then
      some { s with controller := mark (mark s.controller "prefill") "decode" }
    else none
  | _ => none

/-- Frames come from engines that have all of the request. -/
def isStreaming (s : StreamState) : Bool :=
  match s.phase with
  | .running _ posted => cfg.strategy.legs.all fun leg => decide (leg ∈ posted)
  | .fallback posted => posted
  | _ => false

/-- The rescheduler's work on a frame; without it the token ids are stripped and nothing is cached. -/
def process (s : StreamState) (c : StreamChunk) : Processed :=
  if cfg.rescheduleEnabled then s.rescheduler.processStreamChunk s.info s.roleSent c
  else
    { rescheduler := s.rescheduler, info := s.info, roleSent := s.roleSent
      frame := match c with
        | .json j =>
          some (.json (stripOpenaiTokenIdFieldsForClient j s.info.clientExpectsTokenIds))
        | .notObject => none
        | .unparsed done _ => some (if done then .verbatim else .dropped) }

/-- The tokens of the frame are cached, but it does not reach the client. -/
def loses (s : StreamState) : StreamChunk → Bool
  | .json j =>
    cfg.rescheduleEnabled && s.rescheduler.adaptRaises s.info j && !j.firstTokenIds.isEmpty
  | _ => false

/-- A frame has been processed. -/
def received (s : StreamState) (c : StreamChunk) : StreamState :=
  let p := s.process cfg c
  { s with
    rescheduler := p.rescheduler
    info := p.info
    roleSent := p.roleSent
    firstChunkSent := true
    lost := s.lost || s.loses cfg c }

def deliver (s : StreamState) (c : StreamChunk) (feasible : Bool) : StreamState :=
  match (s.process cfg c).frame with
  | some _ => { s.received cfg c with sent := s.sent ++ c.output, bodySent := true }
  | none =>
    match s.phase with
    | .fallback _ => (s.received cfg c).end .failed
    | _ => (s.received cfg c).onFailure cfg .other feasible

/-! ## Steps -/

/-- An engine that reports the tokens of the prompt reports those of the prompt it was given. -/
def reportsPrompt (prompts : List (List ℕ)) (s : StreamState) : StreamChunk → Bool
  | .json j =>
    match j.reportedPrompt, s.plan with
    | none, _ => true
    | some ids, none => decide (ids ∈ prompts)
    | some ids, some plan => ids == plan.promptTokenIds
  | _ => true

/-- `prompts` are the tokens of the prompts of the request. -/
def exec (prompts : List (List ℕ)) (s : StreamState) : RetryOp → Option StreamState
  | .start feasible => if s.phase = .starting then some (s.startAttempt cfg feasible) else none
  | .schedule => if s.phase = .running false [] then some (s.scheduled cfg) else none
  | .post leg => s.postLeg cfg leg
  | .accepted leg => s.legAccepted leg
  | .commit =>
    if s.controller.readyToCommit then
      some { s with controller := s.controller.markCommitStarted.markCommitted }
    else none
  | .chunk c feasible =>
    if s.isStreaming cfg ∧ s.controller.committed ∧ s.reportsPrompt prompts c then
      some (s.deliver cfg c feasible)
    else none
  | .finish => if s.isStreaming cfg then some (s.end .completed) else none
  | .fail e feasible =>
    match s.phase with
    | .running _ _ => some (s.onFailure cfg e feasible)
    | .fallback _ => some (s.end .failed)
    | _ => none
  | .abandon =>
    match s.phase with
    | .ended _ => none
    | _ => some (s.end .abandoned)

end StreamState

end PyMotor.Router
