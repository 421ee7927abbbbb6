import PyMotor.Router.UpstreamError
import Mathlib.Data.Int.Order.Basic

/-!
# Token replay

A stream whose engine fails can be continued by another one: the router asks every engine for the ids of
the prompt and of the tokens it generates, keeps them, and sends the next engine a prompt made of both
(`coordinator/router/rescheduler/rescheduler.py`, with the cache in `coordinator/models/request.py` and
the adapters in `router/adapters`).

A frame of the stream is JSON or it is not. Of a JSON frame the model keeps the fields that decide what is
cached and what the client gets to see.
-/

namespace PyMotor.Router

/-! ## Frames of a stream -/

/-- A JSON value, as far as it can be empty. -/
inductive FieldValue where
  | null
  | bool (b : Bool)
  | number (n : ℤ)
  | text (s : String)
  | list (length : ℕ)
  | object (size : ℕ)
  deriving DecidableEq

namespace FieldValue

/-- `value in (None, "", [], {})`. -/
def isEmpty : FieldValue → Bool
  | null => true
  | bool _ | number _ => false
  | text s => s == ""
  | list n | object n => n == 0

/-- Python's truth value. -/
def truthy : FieldValue → Bool
  | bool b => b
  | number n => n != 0
  | v => !v.isEmpty

end FieldValue

/-- The fields of a `delta` or a `message`. -/
abbrev Payload := List (String × FieldValue)

structure Choice where
  index : ℕ
  /-- Absent in frames of the chat shape. -/
  text : Option FieldValue
  delta : Option Payload
  message : Option Payload
  tokenIds : Option (List ℕ)
  promptTokenIds : Option (List ℕ)
  finishReason : Option String
  stopReason : Option String
  /-- Whether `float` accepts every one of the log probabilities. -/
  logprobsConvert : Bool
  deriving DecidableEq

structure ChunkJson where
  object : Option String
  promptTokenIds : Option (List ℕ)
  /-- An entry that is not an object is `none`. -/
  choices : List (Option Choice)
  deriving DecidableEq

inductive StreamChunk where
  | json (j : ChunkJson)
  /-- JSON, but not an object. -/
  | notObject
  /-- Not JSON; `done` if `[DONE]` occurs in it, and `output` if there is output next to it. -/
  | unparsed (done output : Bool)
  deriving DecidableEq

/-- What the client gets for a frame. -/
inductive ClientFrame where
  | json (j : ChunkJson)
  | verbatim
  | dropped
  deriving DecidableEq

def Choice.hasTokenIds (c : Choice) : Bool := !(c.tokenIds.getD []).isEmpty

def Payload.isVisible (p : Payload) : Bool := p.any fun kv => kv.1 != "role" && !kv.2.isEmpty

def Choice.isVisible (c : Choice) : Bool :=
  (c.text.getD .null).truthy || (c.delta.getD []).isVisible || (c.message.getD []).isVisible

namespace ChunkJson

/-- `_has_visible_output_without_token_ids`. -/
def hasVisibleOutputWithoutTokenIds (j : ChunkJson) : Bool :=
  j.choices.any fun c => c.any fun c => !c.hasTokenIds && c.isVisible

/-- `_has_finish_reason`. -/
def hasFinishReason (j : ChunkJson) : Bool :=
  j.choices.any fun c => c.any fun c => c.finishReason.isSome

/-- The first choice, if it is an object. -/
def firstChoice (j : ChunkJson) : Option Choice := j.choices.head?.join

/-- There is a first choice, but it is not an object. -/
def firstIsNotObject (j : ChunkJson) : Bool := decide (j.choices.head? = some none)

def reportedPrompt (j : ChunkJson) : Option (List ℕ) :=
  j.promptTokenIds.or (j.firstChoice.bind Choice.promptTokenIds)

def firstTokenIds (j : ChunkJson) : List ℕ := (j.firstChoice.bind Choice.tokenIds).getD []

/-- `is_completion_like_stream_chunk`. -/
def isCompletionLike (j : ChunkJson) : Bool :=
  j.object == some "text_completion" ||
    j.firstChoice.any fun c => (c.delta.getD []).isEmpty && c.text.isSome

end ChunkJson

/-! ## Adapters -/

/-- `adapt_completion_stream_chunk_to_chat`. The role is sent with the first frame only. -/
def adaptCompletionStreamChunkToChat (j : ChunkJson) (roleSent : Bool) : ChunkJson × Bool :=
  match j.choices with
  | some c :: rest =>
    let role : Payload := if roleSent then [] else [("role", .text "assistant")]
    let content : Payload :=
      match c.text with
      | some v => if v.truthy then [("content", v)] else []
      | none => []
    let adapted : Choice :=
      { c with
        text := none, delta := some (role ++ content), message := none
        tokenIds := none, promptTokenIds := none }
    ({ object := some "chat.completion.chunk"
       promptTokenIds := j.promptTokenIds.or c.promptTokenIds
       choices := some adapted :: rest }, true)
  | _ => ({ j with object := some "chat.completion.chunk" }, roleSent)

def Choice.strip (c : Choice) (clientReturnTokenIds : Bool) : Choice :=
  { c with
    tokenIds := if clientReturnTokenIds then c.tokenIds else none
    promptTokenIds := if clientReturnTokenIds then c.promptTokenIds else none
    stopReason := if c.stopReason = some "recomputed" then some "stop" else c.stopReason }

/-- `strip_openai_token_id_fields_for_client`. -/
def stripOpenaiTokenIdFieldsForClient (j : ChunkJson) (clientReturnTokenIds : Bool) : ChunkJson :=
  { j with
    promptTokenIds := if clientReturnTokenIds then j.promptTokenIds else none
    choices := j.choices.map fun c => c.map (Choice.strip · clientReturnTokenIds) }

/-! ## The request -/

/-- What `int(...)` makes of an optional field. -/
inductive NumberField where
  | absent
  | int (k : ℤ)
  | invalid
  deriving DecidableEq

inductive Prompt where
  | text (s : String)
  | tokens (ids : List ℕ)
  /-- One completion for each entry. -/
  | batch (prompts : List String)
  deriving DecidableEq

/-- The types of the parts, where the content is a list. -/
structure ChatMessage where
  partTypes : List String
  deriving DecidableEq

inductive ResponseFormat where
  | ofType (type : Option String)
  | notObject
  deriving DecidableEq

structure ReqData where
  prompt : Option Prompt
  messages : Option (List ChatMessage)
  n : NumberField
  maxTokens : NumberField
  maxCompletionTokens : NumberField
  responseFormat : Option ResponseFormat
  tools : Bool
  logprobs : Bool
  topLogprobs : Bool
  /-- The other fields that only the chat interface knows. -/
  otherChatFields : List String
  returnTokenIds : Bool
  deriving DecidableEq

/-- The part of `RequestInfo` that token replay is about. -/
structure RequestInfo where
  reqData : ReqData
  api : String
  entryApi : String
  clientExpectsTokenIds : Bool
  clientExpectsChatShape : Bool
  promptTokenIds : List ℕ
  cachedTokenIds : List ℕ
  deriving DecidableEq

/-- `update_token_id_cache`. The prompt is kept from its first report, the output of the first choice
is collected. -/
def RequestInfo.updateTokenIdCache (q : RequestInfo) (j : ChunkJson) : RequestInfo :=
  { q with
    promptTokenIds := if q.promptTokenIds = [] then j.reportedPrompt.getD [] else q.promptTokenIds
    cachedTokenIds := q.cachedTokenIds ++ j.firstTokenIds }

/-! ## The rescheduler -/

structure Rescheduler where
  enable : Bool
  isRescheduling : Bool
  replayProgressComplete : Bool
  streamFinished : Bool
  deriving DecidableEq

structure RetryRequestPlan where
  promptTokenIds : List ℕ
  api : String
  removeChatFields : Bool
  cachedOutputTokens : ℕ
  deriving DecidableEq

structure HTTPException where
  status : ℕ
  detail : String
  deriving DecidableEq

/-- The rescheduler, the caches and the adapter's state after a frame, and what became of the frame;
`none` if an exception was raised. -/
structure Processed where
  rescheduler : Rescheduler
  info : RequestInfo
  roleSent : Bool
  frame : Option ClientFrame
  deriving DecidableEq

namespace Rescheduler

def new (enable : Bool) : Rescheduler := ⟨enable, false, true, false⟩

/-- Note what a JSON frame says about the progress of the stream. -/
def observe (r : Rescheduler) (j : ChunkJson) : Rescheduler :=
  { r with
    replayProgressComplete :=
      r.replayProgressComplete && !(r.enable && j.hasVisibleOutputWithoutTokenIds)
    streamFinished := r.streamFinished || j.hasFinishReason }

/-- Completions that answer a chat are given the chat shape. -/
def adapts (r : Rescheduler) (q : RequestInfo) (j : ChunkJson) : Bool :=
  r.isRescheduling && q.clientExpectsChatShape && j.isCompletionLike

/-- Giving a frame the chat shape raises when its first choice is not an object, and when the log
probabilities of that choice are not numbers. -/
def adaptRaises (r : Rescheduler) (q : RequestInfo) (j : ChunkJson) : Bool :=
  r.isRescheduling && q.clientExpectsChatShape && j.firstIsNotObject ||
  r.adapts q j && j.firstChoice.any fun c => !c.logprobsConvert

def processJson (r : Rescheduler) (q : RequestInfo) (roleSent : Bool) (j : ChunkJson) : Processed :=
  let cached := if r.enable then q.updateTokenIdCache j else q
  if j.firstIsNotObject && r.enable then
    -- raised by the cache, which has taken the prompt by then
    { rescheduler := { r.observe j with streamFinished := r.streamFinished }
      info := cached, roleSent := roleSent, frame := none }
  else if r.adaptRaises q j then
    { rescheduler := r.observe j, info := cached, roleSent := roleSent, frame := none }
  else
    let (shown, roleSent) :=
      if r.adapts q j then adaptCompletionStreamChunkToChat j roleSent else (j, roleSent)
    { rescheduler := r.observe j, info := cached, roleSent := roleSent
      frame := some (.json (stripOpenaiTokenIdFieldsForClient shown q.clientExpectsTokenIds)) }

/-- `process_stream_chunk`. -/
def processStreamChunk (r : Rescheduler) (q : RequestInfo) (roleSent : Bool) : StreamChunk → Processed
  | .json j => r.processJson q roleSent j
  | .notObject => ⟨r, q, roleSent, none⟩
  | .unparsed true _ => ⟨{ r with streamFinished := true }, q, roleSent, some .verbatim⟩
  | .unparsed false _ => ⟨r, q, roleSent, some .dropped⟩

/-! ### Replay -/

end Rescheduler

/-- `completions_retry_eligible_for_chat_request`. -/
def ReqData.completionsRetryEligible (d : ReqData) : Bool :=
  (match d.responseFormat with
    | none | some (.ofType none) => true
    | some (.ofType (some t)) => t == "text"
    | some .notObject => false) &&
  !d.tools && !d.logprobs && !d.topLogprobs &&
  (d.messages.getD []).all fun m => m.partTypes.all fun t => t == "" || t == "text"

/-- `n` is one, explicitly or by default. -/
def ReqData.asksForOne (d : ReqData) : Bool :=
  match d.n with
  | .absent => true
  | .int k => k == 1
  | .invalid => false

namespace Rescheduler

/-- `can_resume_after_visible_output`. -/
def canResumeAfterVisibleOutput (r : Rescheduler) (q : RequestInfo) : Bool :=
  r.enable && r.replayProgressComplete && !r.streamFinished &&
  !q.promptTokenIds.isEmpty && !q.cachedTokenIds.isEmpty &&
  q.reqData.asksForOne && (q.reqData.messages.isNone || q.reqData.completionsRetryEligible)

def invalidN : HTTPException := ⟨502, "Rescheduling aborted: invalid n parameter."⟩

def parallelSampling : HTTPException := ⟨502, "Rescheduling does not support parallel sampling (n>1)."⟩

def ineligibleChat : HTTPException :=
  ⟨502, "Rescheduling is not supported for this Chat request (tools, logprobs, top_logprobs, " ++
    "non-text multimodal content, structured response_format, or n>1). vLLM does not accept " ++
    "token-id arrays in Chat messages."⟩

end Rescheduler

open Rescheduler in
/-- `build_retry_plan`. There is no plan while the ids of the prompt or of the output are not known. -/
def RequestInfo.buildRetryPlan (q : RequestInfo) : Except HTTPException (Option RetryRequestPlan) :=
  if q.promptTokenIds.isEmpty || q.cachedTokenIds.isEmpty then .ok none
  else if q.reqData.n = .invalid then .error invalidN
  else if !q.reqData.asksForOne then .error parallelSampling
  else if q.reqData.messages.isSome && !q.reqData.completionsRetryEligible then .error ineligibleChat
  else .ok (some {
    promptTokenIds := q.promptTokenIds ++ q.cachedTokenIds
    api := if q.reqData.messages.isSome then "v1/completions" else q.api
    removeChatFields := q.reqData.messages.isSome
    cachedOutputTokens := q.cachedTokenIds.length })

namespace RetryRequestPlan

def removeChat (d : ReqData) : ReqData :=
  { d with
    messages := none, responseFormat := none, tools := false, otherChatFields := []
    maxTokens := if d.maxCompletionTokens = .absent then d.maxTokens else d.maxCompletionTokens
    maxCompletionTokens := .absent }

/-- At least one token is asked for. -/
def limitTokens (p : RetryRequestPlan) : NumberField → NumberField
  | .int k => .int (max 1 (k - p.cachedOutputTokens))
  | field => field

/-- `apply_retry_plan`. -/
def apply (p : RetryRequestPlan) (d : ReqData) (prefill : Bool) : ReqData × String :=
  let d := if p.removeChatFields then removeChat d else d
  ({ d with
    prompt := some (.tokens p.promptTokenIds)
    maxTokens := if prefill then d.maxTokens else p.limitTokens d.maxTokens }, p.api)

end RetryRequestPlan

/-- `prepare_retry_request`. -/
def RequestInfo.prepareRetryRequest (q : RequestInfo) : Except HTTPException (ReqData × String) := do
  match ← q.buildRetryPlan with
  | none => return (q.reqData, q.api)
  | some plan => return plan.apply q.reqData false

end PyMotor.Router
