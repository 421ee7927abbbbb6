import PyMotor.Coordinator.BlockOffset.Tokenizer

/-!
# The offset tables

Where messages and tools are in the rendered request is found by rendering it once more and looking for
markers (`coordinator/domain/block_offset_translator.py`). The standard calculator counts the marker
that opens each message. The calculator for DeepSeek V4 has three markers and a cursor for each of
them: a message of a user ends at the next marker of a role, and one of the assistant behind the next
end of sentence. Tools are found by their names in the rendered text.
-/

namespace PyMotor.Coordinator

/-! ## Tools -/

/-- The name of a function tool, if it has one. -/
def toolName (tool : Json) : Option (List Char) :=
  if tool.isObj then
    let fn := (tool.get? "function").getD .null
    let fn := if fn.truthy then fn else .obj []
    if fn.isObj then
      let name := (fn.get? "name").getD .null
      let name := if name.truthy then name.pyStr.toList else []
      if name.isEmpty then none else some name
    else none
  else none

/-- `"name": "…"` -/
def nameMarker (name : List Char) : List Char :=
  "\"name\": \"".toList ++ name ++ [doubleQuote]

/-- The token positions of prefixes of the text; none if they are not in order. -/
def tokenPositions (tok : Tokenizer) (full : List Char) (charPositions : List ℕ) : Option (List ℕ) :=
  match charPositions.mapM fun cp => tok.encode (String.ofList (full.take cp)) false with
  | .error _ => none
  | .ok prefixes =>
    let tokens := prefixes.map List.length
    if tokens.IsChain (· ≤ ·) then some tokens else none

/-! ## DeepSeek V4 -/

namespace Dsv4

def userMarker : String := "<｜User｜>"

def assistantMarker : String := "<｜Assistant｜>"

def eosMarker : String := "<｜end▁of▁sentence｜>"

/-- How the end of a message is marked. -/
inductive MarkerRole where
  | userLike
  | assistant
  | unknown
  deriving DecidableEq, Repr

def isRole (msg : Json) (role : String) : Bool :=
  match msg.get? "role" with
  | some (.str s) => decide (s = role)
  | _ => false

def markerRole (msg : Json) : MarkerRole :=
  if isRole msg "user" || isRole msg "developer" || isRole msg "tool" then .userLike
  else if isRole msg "assistant" then .assistant
  else .unknown

/-- The end of a message of a user, and where the cursor for assistants is then. -/
def userLikeEnd (userPos asstPos : List ℕ) (userPosIdx asstPosIdx : ℕ) : Option (ℕ × ℕ) :=
  match asstPos[asstPosIdx]?, userPos[userPosIdx + 1]? with
  | some p, some nextUser => if p < nextUser then some (p, asstPosIdx + 1) else some (nextUser, asstPosIdx)
  | some p, none => some (p, asstPosIdx + 1)
  | none, some nextUser => some (nextUser, asstPosIdx)
  | none, none => none

/-- One message after the other, with a cursor for each of the markers. -/
def scan (userPos asstPos eosPos : List ℕ) (userPosIdx asstPosIdx eosConsumed : ℕ) :
    List Json → Option (List ℕ)
  | [] => some []
  | msg :: msgs =>
    match markerRole msg with
    | .userLike => do
      let (p, asstPosIdx) ← userLikeEnd userPos asstPos userPosIdx asstPosIdx
      let rest ← scan userPos asstPos eosPos (userPosIdx + 1) asstPosIdx eosConsumed msgs
      some (p :: rest)
    | .assistant => do
      let p ← eosPos[eosConsumed]?
      let rest ← scan userPos asstPos eosPos userPosIdx asstPosIdx (eosConsumed + 1) msgs
      some ((p + 1) :: rest)
    | .unknown => none

/-- A message of the system at the start ends at the first user. -/
def scanAll (userPos asstPos eosPos : List ℕ) : List Json → Option (List ℕ)
  | [] => some []
  | msg :: msgs =>
    if isRole msg "system" then do
      let p ← userPos[0]?
      let rest ← scan userPos asstPos eosPos 1 0 0 msgs
      some (p :: rest)
    else scan userPos asstPos eosPos 0 0 0 (msg :: msgs)

/-- The markers and the tokens that the scan works on. -/
structure Scanned where
  eosId : ℤ
  userId : ℤ
  asstId : ℤ
  ids : List ℤ

def scanned (tok : Tokenizer) (messages : List Json) (tools : Option (List Json)) : Option Scanned := do
  let eosId ← tok.tryGetTokenId eosMarker
  let userId ← tok.tryGetTokenId userMarker
  let asstId ← tok.tryGetTokenId assistantMarker
  match tok.renderForTable messages tools true with
  | .ok (.ids ids) => if ids.isEmpty then none else some ⟨eosId, userId, asstId, ids⟩
  | _ => none

def buildMessagesOffsetTable (tok : Tokenizer) (messages : List Json) (tools : Option (List Json)) :
    Option (List ℕ) :=
  if messages.isEmpty then none
  else do
    let s ← scanned tok messages tools
    scanAll (s.ids.idxsOf s.userId) (s.ids.idxsOf s.asstId) (s.ids.idxsOf s.eosId) messages

/-- Each tool opens at the last brace before its name; the search goes on from there. -/
def locateTools (full : List Char) (searchFrom : ℕ) : List Json → Option (List ℕ)
  | [] => some []
  | tool :: tools => do
    let name ← toolName tool
    let nmIdx ← find full (nameMarker name) searchFrom
    let objOpen ← rfind full ['\x7b'] searchFrom nmIdx
    let rest ← locateTools full objOpen tools
    some (objOpen :: rest)

/-- The tools end at the first user, or with the text. -/
def resolveToolsEndPos (full : List Char) (charPositions : List ℕ) : ℕ :=
  match find full userMarker.toList 0, charPositions.getLast? with
  | some um, some last => if um ≤ last then full.length else um
  | _, _ => full.length

def buildToolsOffsetTable (tok : Tokenizer) (messages : List Json) (tools : Option (List Json)) :
    Option (List ℕ) :=
  match tools with
  | none => none
  | some [] => none
  | some tools =>
    match tok.renderForTable messages (some tools) true with
    | .ok (.ids ids) =>
      if ids.isEmpty then none
      else
        match tok.decode ids with
        | .ok (.text full) =>
          let full := full.toList
          if full.isEmpty then none
          else do
            let charPositions ← locateTools full 0 tools
            tokenPositions tok full (charPositions ++ [resolveToolsEndPos full charPositions])
        | _ => none
    | _ => none

end Dsv4

/-! ## Other models -/

namespace Standard

def chatMarkerCandidates : List String := ["<|im_start|>", "<|begin_of_text|>", "<|user|>", "<|sep|>"]

def detectChatMarkerId (tok : Tokenizer) : Option ℤ := chatMarkerCandidates.findSome? tok.tryGetTokenId

/-- Every marker but the first one ends a message; the last message may end with the prompt. -/
def tableOf (count : ℕ) (markerId : ℤ) : Rendered → Option (List ℕ)
  | .ids ids =>
    let imStarts := ids.idxsOf markerId
    if ids.isEmpty then none
    else if imStarts.length = count + 1 ∨ imStarts.length = count then
      some ((List.range count).map fun i => (imStarts[i + 1]?).getD ids.length)
    else none
  | _ => none

/-- Only a second call that raises is not caught. -/
def buildMessagesOffsetTable (tok : Tokenizer) (messages : List Json) (tools : Option (List Json)) :
    Except TokenizerError (Option (List ℕ)) :=
  if messages.isEmpty then .ok none
  else
    match detectChatMarkerId tok with
    | none => .ok none
    | some markerId =>
      match tok.applyChatTemplate
          ⟨messages, tools, (Tokenizer.tableKwargs true).insert "return_dict" (.bool false)⟩ with
      | .ok rendered => .ok (tableOf messages.length markerId rendered)
      | .error .typeError =>
        (tok.applyChatTemplate ⟨messages, tools, Tokenizer.tableKwargs true⟩).map
          (tableOf messages.length markerId)
      | .error .other => .ok none

/-- The name that follows a position. -/
def nameAfter (full : List Char) (idx : ℕ) : Option (List Char) := do
  let nextNameIdx ← find full "\"name\":".toList idx
  let nameStart ← find full [doubleQuote] (nextNameIdx + 7)
  let nameEnd ← find full [doubleQuote] (nameStart + 1)
  some ((full.take nameEnd).drop (nameStart + 1))

/-- The first function object with the name; the search ends where no name follows. -/
def matchCandidate (full name : List Char) : List ℕ → Option ℕ
  | [] => none
  | idx :: idxs => do
    let found ← nameAfter full idx
    if found = name then some idx else matchCandidate full name idxs

/-- The opener of the object of a tool, in the text with all tools. -/
def locateTool (full name : List Char) (searchFrom : ℕ) : Option ℕ :=
  let candidatePrefix := "\x7b\"type\": \"function\"".toList
  match matchCandidate full name (occurrences full candidatePrefix searchFrom) with
  | some idx => some idx
  | none => do
    let nm ← find full (nameMarker name) searchFrom
    rfind full ['\x7b'] searchFrom nm

/-- Each tool is also rendered alone, and has to show its name there. -/
def locateTools (tok : Tokenizer) (messages : List Json) (full : List Char) (searchFrom : ℕ) :
    List Json → Option (List ℕ)
  | [] => some []
  | tool :: tools =>
    match tok.renderForTable messages (some [tool]) false with
    | .ok (.text alone) => do
      let name ← toolName tool
      let _ ← find alone.toList (nameMarker name) 0
      let idx ← locateTool full name searchFrom
      let rest ← locateTools tok messages full idx tools
      some (idx :: rest)
    | _ => none

/-- The tools end at a closing tag behind the last one, or with the text. -/
def toolsEndPos (full : List Char) (charPositions : List ℕ) : ℕ :=
  (["</tools>", "</tools_section>"].findSome? fun closer => do
    let idx ← rfind full closer.toList 0 full.length
    let last ← charPositions.getLast?
    if last < idx then some idx else none).getD full.length

def buildToolsOffsetTable (tok : Tokenizer) (messages : List Json) (tools : Option (List Json)) :
    Option (List ℕ) :=
  match tools with
  | none => none
  | some [] => none
  | some tools =>
    match tok.renderForTable messages (some tools) false with
    | .ok (.text full) =>
      let full := full.toList
      if full.isEmpty then none
      else do
        let charPositions ← locateTools tok messages full 0 tools
        tokenPositions tok full (charPositions ++ [toolsEndPos full charPositions])
    | _ => none

end Standard

end PyMotor.Coordinator
