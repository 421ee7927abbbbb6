import Mathlib.Data.Int.Notation
import Mathlib.Data.Nat.Notation

/-!
# Messages between workers and the scheduler

Requests and responses go over ZMQ in msgpack (`scheduler/runtime/zmq_protocol.py`). What is large in the
data of a message goes in frames of its own: a dictionary or a list whose encoding is longer than a
threshold is replaced by `{"__ref__": i}`, and its encoding is the `i`th of the frames after the main one.

The codec (`msgspec`) is a parameter. Where it raises, it gives nothing. A value is what the codec is given:
enumerations and models are replaced by their values before. Threshold and length are those of bytes.
-/

namespace PyMotor.Coordinator

namespace Zmq

/-- The keys of a dictionary. -/
inductive Key where
  | str (s : String)
  | int (n : ℤ)
  deriving DecidableEq, Repr

inductive Value where
  | none
  | bool (b : Bool)
  | int (n : ℤ)
  | float (bits : BitVec 64)
  | str (s : String)
  | bytes (b : List UInt8)
  | list (elems : List Value)
  /-- The entries of a dictionary, in its order. -/
  | dict (entries : List (Key × Value))

namespace Value

def isContainer : Value → Bool
  | list _ => true
  | dict _ => true
  | _ => false

def isDict : Value → Bool
  | dict _ => true
  | _ => false

def isNone : Value → Bool
  | none => true
  | _ => false

/-- `isinstance(v, int)`, which a Boolean is too. -/
def asInt : Value → Option ℤ
  | bool b => some (if b then 1 else 0)
  | int n => some n
  | _ => Option.none

end Value

abbrev Entries := List (Key × Value)

/-- `ZERO_COPY_REF_KEY` -/
def zeroCopyRefKey : Key := .str "__ref__"

/-- What stands for the frame with this index. -/
def ref (i : ℕ) : Value := .dict [(zeroCopyRefKey, .int i)]

/-- The only key is that of a reference, and there is a value. -/
def holdsRef : Entries → Bool
  | [(k, v)] => k = zeroCopyRefKey && !v.isNone
  | _ => false

/-- The index of what looks like a reference. -/
def refIndex : Entries → Option ℤ
  | [(k, v)] => if k = zeroCopyRefKey then v.asInt else none
  | _ => none

structure SchedulerRequest where
  requestType : String
  requestId : String
  data : Value

structure SchedulerResponse where
  responseType : String
  requestId : String
  data : Option Value
  error : Option String

/-- The encoder and the decoders of `msgspec`. -/
structure Msgspec (Blob : Type) where
  encode : Value → Option Blob
  decode : Blob → Option Value
  size : Blob → ℕ
  encodeRequest : SchedulerRequest → Option Blob
  decodeRequest : Blob → Option SchedulerRequest
  encodeResponse : SchedulerResponse → Option Blob
  decodeResponse : Blob → Option SchedulerResponse

/-! ## Large parts -/

section Serializer

variable {Blob : Type} (c : Msgspec Blob) (threshold : ℕ)

/-- The encoding of a value that is too large for the main frame. What cannot be encoded counts as empty. -/
def largeBlob (v : Value) : Option Blob := (c.encode v).filter fun blob => threshold < c.size blob

mutual

/-- The value with references, and the frames so far. A dictionary is replaced as the value of a key only. -/
def replaceLargeWithRefs : Value → List Blob → Value × List Blob
  | .dict entries, aux =>
    if holdsRef entries then (.dict entries, aux)
    else
      let (entries, aux) := replaceEntries entries aux
      (.dict entries, aux)
  | .list elems, aux =>
    match largeBlob c threshold (.list elems) with
    | some blob => (ref aux.length, aux ++ [blob])
    | none =>
      let (elems, aux) := replaceElems elems aux
      (.list elems, aux)
  | v, aux => (v, aux)

def replaceEntries : Entries → List Blob → Entries × List Blob
  | [], aux => ([], aux)
  | (k, v) :: entries, aux =>
    let (v, aux) :=
      match if v.isContainer then largeBlob c threshold v else none with
      | some blob => (ref aux.length, aux ++ [blob])
      | none => replaceLargeWithRefs v aux
    let (entries, aux) := replaceEntries entries aux
    ((k, v) :: entries, aux)

def replaceElems : List Value → List Blob → List Value × List Blob
  | [], aux => ([], aux)
  | v :: elems, aux =>
    let (v, aux) := replaceLargeWithRefs v aux
    let (elems, aux) := replaceElems elems aux
    (v :: elems, aux)

end

/-- The frame that a dictionary stands for. -/
def refFrame (aux : List Blob) (entries : Entries) : Option Blob :=
  (refIndex entries).bind fun i => if 0 ≤ i then aux[i.toNat]? else none

/-- The value with the frames put in, unless a frame cannot be decoded or the recursion goes too deep. -/
def resolveRefs (aux : List Blob) : ℕ → Value → Option Value
  | 0, _ => none
  | depth + 1, .dict entries =>
    match refFrame aux entries with
    | some blob => (c.decode blob).bind (resolveRefs aux depth)
    | none => (entries.mapM fun e => (resolveRefs aux depth e.2).map (e.1, ·)).map .dict
  | depth + 1, .list elems => (elems.mapM (resolveRefs aux depth)).map .list
  | _ + 1, v => some v

/-! ## Messages -/

/-- One frame, or a main frame and others. -/
inductive Payload (Blob : Type) where
  | single (frame : Blob)
  | multi (frames : List Blob)
  deriving DecidableEq

def Payload.of (main : Blob) : List Blob → Payload Blob
  | [] => .single main
  | aux => .multi (main :: aux)

def serializeRequest (request : SchedulerRequest) : Option (Payload Blob) :=
  let (data, aux) := replaceLargeWithRefs c threshold request.data []
  (c.encodeRequest { request with data := data }).map fun main => .of main aux

def deserializeRequest (depth : ℕ) : Payload Blob → Option SchedulerRequest
  | .single frame => c.decodeRequest frame
  | .multi [] => none
  | .multi (main :: aux) => do
    let request ← c.decodeRequest main
    if aux.isEmpty then return request
    let data ← resolveRefs c aux depth request.data
    return { request with data := data }

def serializeResponse (response : SchedulerResponse) : Option (Payload Blob) :=
  let (data, aux) :=
    match response.data with
    | none => (none, [])
    | some data =>
      let (data, aux) := replaceLargeWithRefs c threshold data []
      (some data, aux)
  (c.encodeResponse { response with data := data }).map fun main => .of main aux

/-- Whether Python takes the data for true. -/
def truthy : Value → Bool
  | .dict entries => !entries.isEmpty
  | .list elems => !elems.isEmpty
  | .none => false
  | .bool b => b
  | .int n => n ≠ 0
  | .float bits => bits &&& 0x7FFFFFFFFFFFFFFF#64 ≠ 0
  | .str s => s ≠ ""
  | .bytes b => !b.isEmpty

def deserializeResponse (depth : ℕ) : Payload Blob → Option SchedulerResponse
  | .single frame => c.decodeResponse frame
  | .multi [] => none
  | .multi (main :: aux) => do
    let response ← c.decodeResponse main
    if aux.isEmpty then return response
    let data ← match response.data.filter truthy with
      | none => pure none
      | some data => (resolveRefs c aux depth data).map some
    return { response with data := data }

/-! ## Frames of a socket -/

def packSendFrames (before : List Blob) : Payload Blob → List Blob
  | .single frame => before ++ [frame]
  | .multi frames => before ++ frames

/-- `empty` is the frame without bytes. -/
def unpackRecvPayload (empty : Blob) (parts : List Blob) (payloadStart : ℕ) : Payload Blob :=
  match parts.drop payloadStart with
  | [] => .single empty
  | [frame] => .single frame
  | frames => .multi frames

variable (empty : Blob)

/-- What a worker gives to its socket. -/
def sendRequest (request : SchedulerRequest) : Option (List Blob) :=
  (serializeRequest c threshold request).map (packSendFrames [empty])

/-- The socket of the scheduler puts the identity of the worker in front. -/
def recvFrontend : List Blob → Option (Blob × List Blob)
  | clientId :: _ :: frame :: frames => some (clientId, frame :: frames)
  | _ => none

def receiveRequest (depth : ℕ) (payloadFrames : List Blob) : Option SchedulerRequest :=
  deserializeRequest c depth (unpackRecvPayload empty ([empty, empty] ++ payloadFrames) 2)

def sendResponse (clientId : Blob) (response : SchedulerResponse) : Option (List Blob) :=
  (serializeResponse c threshold response).map (packSendFrames [clientId, empty])

/-- The identity of the worker is gone. -/
def receiveResponse (depth : ℕ) (parts : List Blob) : Option SchedulerResponse :=
  if parts.length < 2 then none else deserializeResponse c depth (unpackRecvPayload empty parts 1)

end Serializer

end Zmq

end PyMotor.Coordinator
