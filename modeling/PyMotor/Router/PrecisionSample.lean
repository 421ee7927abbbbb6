import PyMotor.Lib.Dict
import Mathlib.Data.Int.Order.Basic

/-!
# What a request leaves for the precision check

While a response passes through, the router keeps the ids of its tokens and, for each of them, a
dictionary of log probabilities (`update_token_id_cache` in `router/adapters/stream.py`,
`update_logprob_cache` in `router/precision_sample/response.py`). The two lists grow side by side and are
handed to the checker as one sample.

Of a chunk the model keeps what the two functions read: its first choice, where that is an object. The
numbers are of any type `V`. Labels are read in ASCII.
-/

namespace PyMotor.Router.PrecisionSample

/-! ## Chunks -/

/-- A field that should be a number. -/
inductive JsonFloat (V : Type) where
  | null
  | number (v : V)
  | invalid
  deriving DecidableEq

/-- A field that should be a list. A missing one is `items []`. -/
inductive JsonList (α : Type) where
  | items (l : List α)
  | notIterable
  deriving DecidableEq

structure TopCandidate (V : Type) where
  /-- `none` unless it is a string. -/
  token : Option String
  logprob : JsonFloat V
  deriving DecidableEq

structure ContentEntry (V : Type) where
  /-- `none` where the entry has no such key. -/
  logprob : Option (JsonFloat V)
  /-- A candidate that is not an object is `none`. -/
  topLogprobs : JsonList (Option (TopCandidate V))
  deriving DecidableEq

/-- The items of a row of a completion's `top_logprobs`; `none` if the row is not an object. -/
abbrev TopRow (V : Type) := Option (List (String × JsonFloat V))

/-- The field `logprobs` of a choice: absent, with the `content` of a chat, or a completion's. -/
inductive LogprobsField (V : Type) where
  | absent
  | chat (content : List (Option (ContentEntry V)))
  | completion (tokenLogprobs : JsonList (JsonFloat V)) (topLogprobs : JsonList (TopRow V))
  | notObject
  deriving DecidableEq

/-- `delta.content` and `text`. -/
inductive TextField where
  | null
  | text (s : String)
  | other
  deriving DecidableEq

structure SampledChoice (V : Type) where
  promptTokenIds : Option (JsonList ℤ)
  /-- Empty unless it is a list. -/
  tokenIds : List ℤ
  deltaContent : TextField
  text : TextField
  logprobs : LogprobsField V
  deriving DecidableEq

structure SampledChunk (V : Type) where
  promptTokenIds : Option (JsonList ℤ)
  /-- `none` if there are no choices, or if the first is not an object. -/
  choice : Option (SampledChoice V)
  deriving DecidableEq

/-- What is kept of a request, `request_info` in the source. -/
structure RequestInfo (V : Type) where
  cachedPromptTokenIds : Option (List ℤ)
  cachedOutputTokenIds : List ℤ
  cachedOutputTextChunks : List String
  cachedLogprobs : List V
  cachedTopkLogprobs : List (Dict ℤ V)

variable {V : Type}

/-! ## Labels -/

/-- `\d+`. -/
def decimal (cs : List Char) : Option ℕ :=
  if cs ≠ [] ∧ cs.all Char.isDigit then
    some (cs.foldl (fun n c => 10 * n + (c.toNat - '0'.toNat)) 0)
  else none

/-- `-?\d+`. -/
def signed : List Char → Option ℤ
  | '-' :: cs => (decimal cs).map fun n => -(n : ℤ)
  | cs => (decimal cs).map fun n => (n : ℤ)

/-- `_parse_logprob_token_id`. A `$` also stands before a newline at the end. -/
def parseLogprobTokenId (token : Option String) : Option ℤ :=
  token.bind fun s =>
    if "token_id:".toList <+: s.toList then
      let label := s.toList.drop "token_id:".length
      signed (if label.getLast? = some '\n' then label.dropLast else label)
    else none

/-- `int(k)` of a string: blanks around it, a sign, single underscores between the digits. -/
def intOfString (k : String) : Option ℤ :=
  let blank := fun c : Char => c.isWhitespace
  let cs := ((k.toList.dropWhile blank).reverse.dropWhile blank).reverse
  let plain := fun ds : List Char =>
    if (ds.splitOn '_').all (fun g => (decimal g).isSome) then ds.filter (· ≠ '_') else []
  match cs with
  | '+' :: ds => (decimal (plain ds)).map fun n => (n : ℤ)
  | '-' :: ds => (decimal (plain ds)).map fun n => -(n : ℤ)
  | ds => (decimal (plain ds)).map fun n => (n : ℤ)

/-! ## The dictionary of a token -/

/-- `float(x)`; `none` if it raises. -/
def JsonFloat.float : JsonFloat V → Option V
  | .number v => some v
  | .null | .invalid => none

/-- Iteration; `none` if it raises. -/
def JsonList.iter {α : Type} : JsonList α → Option (List α)
  | .items l => some l
  | .notIterable => none

/-- A candidate for the dictionary: the id its label gives, and its log probability. -/
abbrev Labelled (V : Type) := Option ℤ × JsonFloat V

/-- One turn of the loops over the candidates: without an id or a value the candidate is dropped. -/
def addCandidate (out : Dict ℤ V) : Labelled V → Option (Dict ℤ V)
  | (none, _) | (some _, .null) => some out
  | (some tid, lp) => lp.float.map (out.insert tid)

/-- The label and the value of an item of `top_logprobs`. -/
def candidateOf : Option (TopCandidate V) → Labelled V
  | none => (none, .null)
  | some sub => (parseLogprobTokenId sub.token, sub.logprob)

/-- The label and the value of an item of a completion's row. -/
def candidateOfItem (kv : String × JsonFloat V) : Labelled V :=
  ((parseLogprobTokenId (some kv.1)).or (intOfString kv.1), kv.2)

/-- `_topk_from_entry`; the outer `none` if it raises. -/
def topkFromEntry (entry : ContentEntry V) (fallbackTid : Option ℤ) (topk : ℤ) :
    Option (Option (Dict ℤ V)) := do
  let candidates ← if 1 < topk then entry.topLogprobs.iter else some []
  let out ← (candidates.map candidateOf).foldlM addCandidate ∅
  let out ←
    match entry.logprob, fallbackTid with
    | some lp, some tid => lp.float.map (out.insert tid)
    | _, _ => some out
  some (if out.isEmpty then none else some out)

/-- `_build_completion_topk_dict`; `none` if it raises. -/
def buildCompletionTopkDict (i : ℕ) (completionTopLogprobs : JsonList (TopRow V))
    (logprobsCount : ℤ) : Option (Dict ℤ V) := do
  let rows ← if 1 < logprobsCount then completionTopLogprobs.iter else some []
  let items := (rows[i]?.join).getD []
  (items.map candidateOfItem).foldlM addCandidate ∅

/-! ## The caches -/

/-- `ids[-take:] if take else []`. -/
def idsTail (ids : List ℤ) (take : ℕ) : List ℤ := ids.drop (ids.length - take)

/-- What one chunk adds to the log probabilities and to the dictionaries. -/
abbrev Collected (V : Type) := List V × List (Dict ℤ V)

/-- A loop over entries with the ids of the tail next to it; `none` as soon as one entry raises. -/
def collect {α : Type} (read : Option ℤ → α → Option (Collected V)) :
    List ℤ → List α → Option (Collected V)
  | _, [] => some ([], [])
  | ids, x :: xs => do
    let here ← read ids.head? x
    let rest ← collect read ids.tail xs
    some (here.1 ++ rest.1, here.2 ++ rest.2)

/-- The body of the loop of `_update_logprob_cache_chat`. -/
def readContent (logprobsCount : ℤ) (fallbackTid : Option ℤ) :
    Option (ContentEntry V) → Option (Collected V)
  | none => some ([], [])
  | some entry => do
    let floats ←
      match entry.logprob with
      | some lp => lp.float.map fun v => [v]
      | none => some []
    if logprobsCount ≤ 0 then some (floats, [])
    else
      let topk ← topkFromEntry entry fallbackTid logprobsCount
      some (floats, topk.toList)

/-- The body of the loop of `_update_logprob_cache_completion`. -/
def readToken (logprobsCount : ℤ) (completionTopLogprobs : JsonList (TopRow V))
    (fallbackTid : Option ℤ) : JsonFloat V × ℕ → Option (Collected V)
  | (.null, _) => some ([], [])
  | (lp, i) => do
    let floatVal ← lp.float
    let topkDict ← buildCompletionTopkDict i completionTopLogprobs logprobsCount
    let topkDict :=
      match fallbackTid with
      | some tid => topkDict.insert tid floatVal
      | none => topkDict
    some ([floatVal], if topkDict.isEmpty then [] else [topkDict])

/-- `_update_logprob_cache_chat`. -/
def updateLogprobCacheChat (ids : List ℤ) (content : List (Option (ContentEntry V)))
    (logprobsCount : ℤ) : Option (Collected V) :=
  collect (readContent logprobsCount) (idsTail ids content.length) content

/-- `_update_logprob_cache_completion`. -/
def updateLogprobCacheCompletion (ids : List ℤ) (tokenLogprobs : List (JsonFloat V))
    (topLogprobs : JsonList (TopRow V)) (logprobsCount : ℤ) : Option (Collected V) :=
  collect (readToken logprobsCount topLogprobs) (idsTail ids tokenLogprobs.length)
    tokenLogprobs.zipIdx

/-- What the field `logprobs` of a chunk adds, given the ids so far; `none` if reading it raises.
Nothing is taken from a completion whose values are all `null`. -/
def collected (ids : List ℤ) (logprobsCount : ℤ) : LogprobsField V → Option (Collected V)
  | .absent => some ([], [])
  | .notObject => none
  | .chat content => updateLogprobCacheChat ids content logprobsCount
  | .completion tokenLogprobs topLogprobs => do
    let raw ← tokenLogprobs.iter
    if raw ≠ [] ∧ raw.all (fun v => match v with | .null => true | _ => false) then some ([], [])
    else updateLogprobCacheCompletion ids raw topLogprobs logprobsCount

namespace RequestInfo

def new : RequestInfo V where
  cachedPromptTokenIds := none
  cachedOutputTokenIds := []
  cachedOutputTextChunks := []
  cachedLogprobs := []
  cachedTopkLogprobs := []

/-- `update_token_id_cache`. -/
def updateTokenIdCache (info : RequestInfo V) (chunk : SampledChunk V) : RequestInfo V :=
  let pti := chunk.promptTokenIds.or (chunk.choice.bind SampledChoice.promptTokenIds)
  let info := { info with
    cachedPromptTokenIds := info.cachedPromptTokenIds.or (pti.bind JsonList.iter) }
  match chunk.choice with
  | none => info
  | some c0 =>
    let chunkText := match c0.deltaContent with | .null => c0.text | content => content
    { info with
      cachedOutputTokenIds := info.cachedOutputTokenIds ++ c0.tokenIds
      cachedOutputTextChunks := info.cachedOutputTextChunks ++
        match chunkText with
        | .text s => if s = "" then [] else [s]
        | _ => [] }

/-- `update_logprob_cache`; `none` if it raises, with nothing cached. -/
def updateLogprobCache (info : RequestInfo V) (chunk : SampledChunk V) (logprobsCount : ℤ) :
    Option (RequestInfo V) :=
  match chunk.choice with
  | none => some info
  | some c0 =>
    (collected info.cachedOutputTokenIds logprobsCount c0.logprobs).map fun r =>
      { info with
        cachedLogprobs := info.cachedLogprobs ++ r.1
        cachedTopkLogprobs := info.cachedTopkLogprobs ++ r.2 }

/-- One chunk: the ids first, then the log probabilities. -/
def collectChunk (logprobsCount : ℤ) (info : RequestInfo V) (chunk : SampledChunk V) :
    RequestInfo V :=
  let info := info.updateTokenIdCache chunk
  (info.updateLogprobCache chunk logprobsCount).getD info

/-- The chunks of a response. -/
def collectChunks (logprobsCount : ℤ) (chunks : List (SampledChunk V)) : RequestInfo V :=
  chunks.foldl (collectChunk logprobsCount) new

end RequestInfo

end PyMotor.Router.PrecisionSample
