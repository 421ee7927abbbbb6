import Mathlib.Data.Int.Notation
import PyMotor.Lib.Dict

/-!
# Messages, tools and the tokenizer

A chat request brings its messages and tools as JSON. What the tokenizer of the model makes of them is not
known here: its chat template is any function of the messages, the tools and the keyword arguments that it
is called with, and it may raise.
-/

namespace PyMotor.Coordinator

/-- A JSON value; numbers are integers. -/
inductive Json where
  | null
  | bool (b : Bool)
  | num (n : ℤ)
  | str (s : String)
  | arr (items : List Json)
  | obj (fields : List (String × Json))
  deriving Repr

namespace Json

/-- The value of a key, if it is an object that has the key. -/
def get? : Json → String → Option Json
  | .obj fields, key => (fields.find? fun field => decide (field.1 = key)).map Prod.snd
  | _, _ => none

def isObj : Json → Bool
  | .obj _ => true
  | _ => false

/-- What counts as true in Python. -/
def truthy : Json → Bool
  | .null => false
  | .bool b => b
  | .num n => decide (n ≠ 0)
  | .str s => !s.isEmpty
  | .arr items => !items.isEmpty
  | .obj fields => !fields.isEmpty

end Json

/-! ## Texts in Python -/

def singleQuote : Char := Char.ofNat 39

def doubleQuote : Char := Char.ofNat 34

def hexDigit (n : ℕ) : Char := Char.ofNat (if n < 10 then 48 + n else 87 + n)

/-- A character inside of quotes. Characters beyond ASCII are taken as they are. -/
def escapeChar (quote c : Char) : List Char :=
  if c = quote ∨ c = '\\' then ['\\', c]
  else if c = '\n' then ['\\', 'n']
  else if c = '\r' then ['\\', 'r']
  else if c = '\t' then ['\\', 't']
  else if c.toNat < 32 ∨ c.toNat = 127 then ['\\', 'x', hexDigit (c.toNat / 16), hexDigit (c.toNat % 16)]
  else [c]

/-- `repr` of a string: in single quotes, unless only those would have to be escaped. -/
def reprStr (s : String) : String :=
  let quote := if s.contains singleQuote && !s.contains doubleQuote then doubleQuote else singleQuote
  String.ofList (quote :: s.toList.flatMap (escapeChar quote) ++ [quote])

mutual

/-- `repr` of a JSON value. -/
def Json.pyRepr : Json → String
  | .null => "None"
  | .bool b => if b then "True" else "False"
  | .num n => toString n
  | .str s => reprStr s
  | .arr items => "[" ++ ", ".intercalate (Json.reprItems items) ++ "]"
  | .obj fields => "\x7b" ++ ", ".intercalate (Json.reprFields fields) ++ "\x7d"

def Json.reprItems : List Json → List String
  | [] => []
  | item :: items => item.pyRepr :: Json.reprItems items

def Json.reprFields : List (String × Json) → List String
  | [] => []
  | (key, j) :: fields => (reprStr key ++ ": " ++ j.pyRepr) :: Json.reprFields fields

end

/-- `str` of a JSON value. -/
def Json.pyStr : Json → String
  | .str s => s
  | j => j.pyRepr

/-- Where a text occurs, from a position on. -/
def occurrences (s pat : List Char) (start : ℕ) : List ℕ :=
  (List.range (s.length + 1)).filter fun i => decide (start ≤ i) && pat.isPrefixOf (s.drop i)

/-- Where a text occurs first, from a position on. -/
def find (s pat : List Char) (start : ℕ) : Option ℕ := (occurrences s pat start).head?

/-- Where a text occurs last between two positions. -/
def rfind (s pat : List Char) (start stop : ℕ) : Option ℕ :=
  ((occurrences s pat start).filter fun i => decide (i + pat.length ≤ stop)).getLast?

/-! ## The tokenizer -/

inductive TokenizerError where
  | typeError
  | other
  deriving DecidableEq, Repr

/-- What the chat template is called with. -/
structure TemplateCall where
  conversation : List Json
  tools : Option (List Json)
  kwargs : Dict String Json

/-- What the chat template returns. -/
inductive Rendered where
  | ids (ids : List ℤ)
  | text (text : String)
  | other
  deriving DecidableEq, Repr

structure Tokenizer where
  /-- Some class that it derives from has a name that starts with `DSV4`. -/
  isDsv4 : Bool
  applyChatTemplate : TemplateCall → Except TokenizerError Rendered
  convertTokensToIds : String → Except TokenizerError (Option ℤ)
  unkTokenId : Option ℤ
  /-- Whether special tokens are added is the second argument. -/
  encode : String → Bool → Except TokenizerError (List ℤ)
  decode : List ℤ → Except TokenizerError Rendered

namespace Tokenizer

variable (tok : Tokenizer)

/-- The id of a text that is a single token. -/
def tryGetTokenId (s : String) : Option ℤ :=
  match tok.convertTokensToIds s with
  | .ok (some tid) =>
    if tok.unkTokenId = some tid then none
    else
      match tok.encode s false with
      | .ok enc => if enc = [tid] then some tid else none
      | .error _ => none
  | _ => none

/-- The keyword arguments with which the tables are rendered. -/
def tableKwargs (tokenize : Bool) : Dict String Json :=
  ((∅ : Dict String Json).insert "add_generation_prompt" (.bool true)).insert "tokenize" (.bool tokenize)

/-- Some templates do not know `return_dict`, and are called again without it. -/
def renderForTable (messages : List Json) (tools : Option (List Json)) (tokenize : Bool) :
    Except TokenizerError Rendered :=
  match tok.applyChatTemplate ⟨messages, tools, (tableKwargs tokenize).insert "return_dict" (.bool false)⟩ with
  | .error .typeError => tok.applyChatTemplate ⟨messages, tools, tableKwargs tokenize⟩
  | outcome => outcome

end Tokenizer

end PyMotor.Coordinator
