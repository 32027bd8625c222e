-- Broker requests (the broker crate): a paired device asks another one to run an
-- op. Objects travel over a transport; here is the serving side.
import PersonalAi.Core
import PersonalAi.Lib.Chars

open pai_core text

namespace pai_broker.rpc

def REQ_PREFIX : String := "breq/"
def RES_PREFIX : String := "bres/"

/-! ## Objects -/

/-- A request. `payload_b64` is what its base64 text decodes to; `sender` is the field
`from`, or nil where that is no UUID. -/
structure BrokerRequest where
  v : Nat
  id : String
  sender : DeviceId
  op : String
  payload_b64 : Except String Bytes
  stream : Bool
  expires_at_ms : Nat

structure BrokerResponse where
  v : Nat
  request_id : String
  sender : DeviceId
  ok : Bool
  payload_b64 : Except String Bytes
  error : Option String

structure BrokerChunk where
  v : Nat
  seq : UInt32
  payload_b64 : Except String Bytes

/-- The JSON text in a sealed object of the server. -/
inductive Body
  | response (r : BrokerResponse)
  | chunk (c : BrokerChunk)

/-! ## Serving -/

/-- How the `select!` of `serve_stream` ends: the channel is closed and empty, or the
handler is done, with chunks left in the channel. -/
inductive Select
  | closed
  | out (result : Except Error Unit) (left : List Bytes)

/-- A streamed op, as the loop sees it: the chunks that it receives, and its end. -/
structure Streamed where
  received : List Bytes
  last : Select

/-- What the handler does with an op. -/
structure OpHandler where
  handle : String → Bytes → Except Error Bytes
  handle_stream : String → Bytes → Streamed

/-- What the transport, the clock and the handler give for one listed object: its
header, what a pull of its key gives, the time, and how the pushes go, by their number.
A request that does not open or does not parse is `none`. -/
structure Turn where
  key : String
  tombstone : Bool
  pulled : Except Error (Option (SyncObject (Option BrokerRequest)))
  now_ms : Nat
  handler : OpHandler
  push : Nat → Except Error Unit

/-- What a pass did. `calls` are the requests that the handler ran for, each with the
id in its key, and `served` the ids that it puts among the served ones. -/
structure Pass where
  calls : List (String × BrokerRequest) := []
  pushed : List (SyncObject Body) := []
  deleted : List String := []
  served : List String := []
  count : Nat := 0
  err : Option Error := none

def Pass.append (a b : Pass) : Pass :=
  { calls := a.calls ++ b.calls, pushed := a.pushed ++ b.pushed,
    deleted := a.deleted ++ b.deleted, served := b.served ++ a.served,
    count := a.count + b.count, err := b.err }

def want (device : DeviceId) : String := REQ_PREFIX ++ device.to_string ++ "/"

def res_key (req : BrokerRequest) : String := RES_PREFIX ++ req.sender.to_string ++ "/" ++ req.id

def seal_obj (device : DeviceId) (now_ms : Nat) (key : String) (body : Body) : SyncObject Body :=
  { key := key, ciphertext := body, version := max now_ms 1, writer := device,
    updated_at := now_ms * 1000000, tombstone := false }

def final_object (device : DeviceId) (now_ms : Nat) (req : BrokerRequest) (ok : Bool)
    (payload : Bytes) (error : Option String) : SyncObject Body :=
  seal_obj device now_ms (res_key req) (.response
    { v := 1, request_id := req.id, sender := device, ok := ok, payload_b64 := .ok payload,
      error := error })

/-- Chunks as numbered objects, from this number on. -/
def chunk_objects (device : DeviceId) (now_ms : Nat) (key : String) :
    UInt32 → List Bytes → List (SyncObject Body)
  | _, [] => []
  | seq, bytes :: rest =>
    seal_obj device now_ms (key ++ "/" ++ toString seq)
      (.chunk { v := 1, seq := seq, payload_b64 := .ok bytes }) ::
      chunk_objects device now_ms key (seq + 1) rest

/-- What `serve_stream` pushes, in this order. -/
def stream_objects (device : DeviceId) (now_ms : Nat) (req : BrokerRequest) (s : Streamed) :
    List (SyncObject Body) :=
  match s.last with
  | .closed => chunk_objects device now_ms (res_key req) 0 s.received ++
      [final_object device now_ms req true [] none]
  | .out (.error e) _ => chunk_objects device now_ms (res_key req) 0 s.received ++
      [final_object device now_ms req false [] (some e.to_string)]
  | .out (.ok ()) left => chunk_objects device now_ms (res_key req) 0 (s.received ++ left) ++
      [final_object device now_ms req true [] none]

/-- The objects that answer a request, in the order of their pushes. -/
def answer (device : DeviceId) (t : Turn) (req : BrokerRequest) : List (SyncObject Body) :=
  match req.payload_b64 with
  | .ok bytes =>
    if req.stream then stream_objects device t.now_ms req (t.handler.handle_stream req.op bytes)
    else
      match t.handler.handle req.op bytes with
      | .ok out => [final_object device t.now_ms req true out none]
      | .error e => [final_object device t.now_ms req false [] (some e.to_string)]
  | .error e => [final_object device t.now_ms req false [] (some ("bad request payload: " ++ e))]

/-- The first push that fails ends it. -/
def push_all (push : Nat → Except Error Unit) :
    Nat → List (SyncObject Body) → List (SyncObject Body) × Option Error
  | _, [] => ([], none)
  | n, o :: os =>
    match push n with
    | .error e => ([], some e)
    | .ok () => (o :: (push_all push (n + 1) os).1, (push_all push (n + 1) os).2)

/-- The request has an expiry, and it is past. -/
def BrokerRequest.expired (req : BrokerRequest) (now_ms : Nat) : Bool :=
  decide (req.expires_at_ms > 0) && decide (now_ms > req.expires_at_ms)

/-- A parsed request: run, answer, delete, and remember its id. -/
def serve_request (device : DeviceId) (t : Turn) (req_id : String) (req : BrokerRequest) : Pass :=
  if req.expired t.now_ms then { deleted := [t.key], served := [req_id] }
  else
    let calls := if req.payload_b64.isOk then [(req_id, req)] else []
    match push_all t.push 0 (answer device t req) with
    | (pushed, some e) => { calls := calls, pushed := pushed, err := some e }
    | (pushed, none) =>
      { calls := calls, pushed := pushed, deleted := [t.key], served := [req_id], count := 1 }

def serve_turn (device : DeviceId) (served : List String) (t : Turn) : Pass :=
  match strip_prefix (want device) t.key with
  | none => {}
  | some req_id =>
    if t.tombstone ∨ req_id ∈ served then {}
    else
      match t.pulled with
      | .error e => { err := some e }
      | .ok none => {}
      | .ok (some o) =>
        match o.ciphertext with
        | none => {}
        | some req => if req.v ≠ 1 then {} else serve_request device t req_id req

/-- One pass over the listing. An error of the transport ends the pass. -/
def serve_once (device : DeviceId) (served : List String) : List Turn → Pass
  | [] => {}
  | t :: ts =>
    let p := serve_turn device served t
    match p.err with
    | some _ => p
    | none => p.append (serve_once device (p.served ++ served) ts)

end pai_broker.rpc
