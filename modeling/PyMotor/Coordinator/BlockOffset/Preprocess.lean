import PyMotor.Coordinator.BlockOffset.Tokenizer

/-!
# Preprocessing a chat request

Before a request is rendered, its messages and tools are brought into the form that the chat template
expects (`coordinator/scheduler/policy/utils.py`). Contents of several parts are flattened to a string,
the arguments of tool calls are read as JSON, and the fields of a tool are sorted. Each of these may
raise, where a request has not the form of a chat request.

`json.loads` is the parameter `loads`.
-/

namespace PyMotor.Coordinator

namespace Json

/-- `key in value`; only containers can be asked. -/
def hasKey (key : String) : Json → Option Bool
  | .obj fields => some (fields.any fun field => decide (field.1 = key))
  | .str s => some (!(occurrences s.toList key.toList 0).isEmpty)
  | .arr items => some (items.any fun
      | .str s => decide (s = key)
      | _ => false)
  | _ => none

def setField (key : String) (value : Json) : List (String × Json) → List (String × Json)
  | [] => [(key, value)]
  | field :: fields =>
    if field.1 = key then (key, value) :: fields else field :: setField key value fields

/-- Only an object takes a value for a key. -/
def set : Json → String → Json → Option Json
  | .obj fields, key, value => some (.obj (setField key value fields))
  | _, _, _ => none

end Json

/-! ## Contents -/

/-- The text field of each type of part. -/
def textContentPartFields : Dict String String :=
  (((((∅ : Dict String String).insert "text" "text").insert "input_text" "text").insert "output_text"
    "text").insert "refusal" "refusal").insert "thinking" "thinking"

/-- The value of a key; a missing one is `None`. -/
def Json.getOrNull (j : Json) (key : String) : Json := (j.get? key).getD .null

/-- What a part contributes: nothing, a value, or it raises. -/
def extractTextFromContentPart (part : Json) : Option (Option Json) :=
  match part.getOrNull "type" with
  | .arr _ | .obj _ => none
  | .str partType =>
    match textContentPartFields.get? partType with
    | none => some none
    | some field =>
      let value := match part.getOrNull field with
        | .null => if field ≠ "text" then part.getOrNull "text" else .null
        | value => value
      let value := match value with
        | .null => if partType = "thinking" then part.getOrNull "reasoning_content" else .null
        | value => value
      some (some (if value.truthy then value else .str ""))
  | _ => some none

/-- The texts of a part; only strings can be joined. -/
def contentPartTexts (part : Json) : Option (List String) :=
  match part with
  | .str s => some [s]
  | .obj _ =>
    match extractTextFromContentPart part with
    | none => none
    | some (some (.str s)) => some [s]
    | some (some _) => none
    | some none =>
      match part.getOrNull "type" with
      | .null => some []
      | partType => some ["[Unsupported " ++ partType.pyStr ++ "]"]
  | _ => some []

def contentPartsToString : Json → Option String
  | .null => some ""
  | .str s => some s
  | .arr parts => (parts.mapM contentPartTexts).map fun texts => "\n".intercalate texts.flatten
  | content => some content.pyStr

def flattenMessageContentToString (message : Json) : Option Json := do
  if !(← message.hasKey "content") then return message
  let content ← message.get? "content"
  let text ← contentPartsToString content
  message.set "content" (.str text)

/-! ## Tool calls and tools -/

section Loads

-- `json.loads`
variable (loads : String → Option Json)

def exchangeToolCall (call : Json) : Option Json := do
  if !(← call.hasKey "function") then return call
  let fn ← call.get? "function"
  match ← fn.get? "arguments" with
  | .str arguments => call.set "function" (← fn.set "arguments" (← loads arguments))
  | _ => return call

/-- The tool calls of a message; text and the keys of an object are gone through as well. -/
def exchangeArguments (message : Json) : Option Json := do
  if !(← message.hasKey "tool_calls") then return message
  match ← message.get? "tool_calls" with
  | .arr calls => message.set "tool_calls" (.arr (← calls.mapM (exchangeToolCall loads)))
  | .obj fields => if ← fields.anyM fun field => (Json.str field.1).hasKey "function" then none else message
  | .str _ => return message
  | _ => none

/-- The content of a tool's answer becomes the text of an object. -/
def exchangeToolContent (message : Json) : Option Json := do
  if !(← message.hasKey "role") then return message
  match ← message.get? "role" with
  | .str "tool" =>
    match message.get? "content" with
    | some (.str s) =>
      message.set "content" (.str (Json.obj [("type", .str "text"), ("text", .str s)]).pyRepr)
    | _ => return message
  | _ => return message

def toolFieldPriority (key : String) : ℕ :=
  if key = "name" then 1 else if key = "description" then 2 else if key = "parameters" then 3 else 100

/-- The fields of the function, by priority. -/
def exchangeTools (tool : Json) : Option Json := do
  if !(← tool.hasKey "function") then return tool
  match ← tool.get? "function" with
  | .obj fields => tool.set "function" (.obj (fields.mergeSort fun a b =>
    decide (toolFieldPriority a.1 ≤ toolFieldPriority b.1)))
  | _ => none

/-! ## Requests -/

/-- Each message goes through the processors one after the other, and so does each tool; an empty list
of tools is none. -/
def preprocessItems (messages : List Json) (tools : Option (List Json))
    (messageProcessors toolProcessors : List (Json → Option Json)) :
    Option (List Json × Option (List Json)) := do
  let processedMessages ← messages.mapM fun message => messageProcessors.foldlM (fun m f => f m) message
  match tools with
  | some (tool :: tools) =>
    let processedTools ← (tool :: tools).mapM fun tool => toolProcessors.foldlM (fun t f => f t) tool
    return (processedMessages, some processedTools)
  | _ => return (processedMessages, none)

def preprocessMessagesForStandard (messages : List Json) : Option (List Json) :=
  (preprocessItems messages none [flattenMessageContentToString] []).map Prod.fst

def preprocessMessagesForDsv4 (messages : List Json) (tools : Option (List Json)) :
    Option (List Json × Option (List Json)) :=
  preprocessItems messages tools [exchangeArguments loads, flattenMessageContentToString] [exchangeTools]

def preprocessInput (messages : List Json) (tools : Option (List Json)) :
    Option (List Json × Option (List Json)) :=
  preprocessItems messages tools [exchangeArguments loads, exchangeToolContent] [exchangeTools]

end Loads

end PyMotor.Coordinator
