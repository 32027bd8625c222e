-- The relay in front of a folder: what its handler does with a request before and behind the call of
-- the folder, what its client sends and makes of the answer, and the threads of many requests.
import PersonalAi.FolderCalls

open pai_core text inodes pai_sync.keys pai_sync.folder

namespace pai_sync.relay

variable {C : Type}

/-! ## Requests and answers -/

def MAX_OBJ_BODY : Nat := 32 * 1024 * 1024

/-- What of a request the handler reads. -/
structure HttpRequest where
  method : String
  url : String
  headers : List (String × String)
  body : Bytes

/-- The JSON of an answer by what it holds. The texts of serde and of the system are left open. -/
inductive Body
  | error (text : String)
  | failed
  | objects (raw : Bytes)
  | wire (raw : Bytes)
  | empty
deriving DecidableEq

structure Response where
  status : Nat
  body : Body
deriving DecidableEq

def Response.is_success (r : Response) : Bool := 200 ≤ r.status && r.status < 300

/-- `serde_json` on a list of headers. -/
structure Listing where
  to_vec : List engine.SyncObjectMeta → Bytes
  from_slice : Bytes → Option (List engine.SyncObjectMeta)

abbrev AuthCheck := String → Bool

/-- `bind`: the token the relay was started with, if any. -/
def bind (token : Option String) : Option AuthCheck := token.map fun t given => given == t

/-- `bind_dynamic`: any of the tokens there are when the request is handled. -/
def bind_dynamic (tokens : List String) : Option AuthCheck := some fun given => tokens.any (· == given)

/-! ## The handler -/

def authorized (auth : Option AuthCheck) (headers : List (String × String)) : Bool :=
  match auth with
  | none => true
  | some check => headers.any fun h =>
    eq_ignore_ascii_case h.1.toList "authorization".toList &&
      ( strip_prefix "Bearer " h.2).any check

/-- The text of `urldec`; it has none where a slice panics. -/
def decoded_key (p : String) : Option String :=
  (urldec p).bind fun raw => (from_utf8 raw).map String.ofList

/-- What the handler does before it waits for the folder. -/
inductive Handled (C : Type)
  | respond (r : Response)
  | call (request : Request C)
  | panic

def not_found : Response := { status := 404, body := .error "not found" }

def with_key (p : String) (next : String → Handled C) : Handled C :=
  match decoded_key p with
  | none => .panic
  | some key => next key

section Json
variable (wire : Wire C) (listing : Listing)

/-- The body is read up to one byte more than it may have. -/
def put (body : Bytes) (key : String) : Handled C :=
  let read := body.take (MAX_OBJ_BODY + 1)
  if (from_utf8 read).isNone then .respond { status := 400, body := .error "bad body" }
  else if MAX_OBJ_BODY < read.length then
    .respond { status := 413, body := .error "object exceeds 32 MiB cap" }
  else
    match wire.from_slice read with
    | none => .respond { status := 400, body := .failed }
    | some obj =>
      if obj.key ≠ key then
        .respond { status := 400, body := .error "key mismatch between path and body" }
      else .call (.push obj)

/-- `handle` up to its call of the folder. -/
def handle (auth : Option AuthCheck) (req : HttpRequest) : Handled C :=
  if authorized auth req.headers then
    let path := first_part '?' req.url
    if req.method = "GET" ∧ path = "/v1/objects" then .call .list
    else
      match strip_prefix key_prefix path with
      | none => .respond not_found
      | some p =>
        if req.method = "GET" then with_key p fun key => .call (.pull key)
        else if req.method = "PUT" then with_key p (put wire req.body)
        else if req.method = "DELETE" then with_key p fun key => .call (.delete key)
        else .respond not_found
  else .respond { status := 401, body := .error "unauthorized" }

/-- `handle` behind its call of the folder. -/
def respond : Reply C → Response
  | .listed out => { status := 200, body := .objects (listing.to_vec out) }
  | .pulled (some obj) => { status := 200, body := .wire (wire.to_vec obj) }
  | .pulled none => not_found
  | .pushed => { status := 204, body := .empty }
  | .deleted => { status := 204, body := .empty }
  | .error => { status := 500, body := .failed }

end Json

/-! ## The client -/

/-- A text of a base URL, without slashes at its end, and the token for all requests. -/
structure RelayTransport where
  base : String
  token : Option String

/-- `env` is `PAI_SYNC_TOKEN`. -/
def RelayTransport.new (base_url : String) (token env : Option String) : RelayTransport :=
  { base := String.ofList (base_url.toList.rdropWhile (· == '/')), token := token.or env }

def RelayTransport.req (t : RelayTransport) (method url : String)
    (headers : List (String × String)) (body : Bytes) : HttpRequest :=
  { method, url, body
    headers := (t.token.map fun token => ("authorization", "Bearer " ++ token)).toList ++ headers }

section Json
variable (wire : Wire C) (listing : Listing)

/-- What `list`, `push`, `pull` and `delete` send. -/
def RelayTransport.send (t : RelayTransport) : Request C → HttpRequest
  | .list => t.req "GET" (t.base ++ "/v1/objects") [] []
  | .push obj =>
    t.req "PUT" (RelayTransport.url t.base obj.key) [("Content-Type", "application/json")]
      (wire.to_vec obj)
  | .pull key => t.req "GET" (RelayTransport.url t.base key) [] []
  | .delete key => t.req "DELETE" (RelayTransport.url t.base key) [] []

/-- What they make of the answer. -/
def RelayTransport.receive (r : Response) : Request C → Reply C
  | .list =>
    if r.is_success then
      match r.body with
      | .objects raw => (listing.from_slice raw).elim .error .listed
      | _ => .error
    else .error
  | .push _ => if r.is_success then .pushed else .error
  | .pull _ =>
    if r.status = 404 then .pulled none
    else if r.is_success then
      match r.body with
      | .wire raw => (wire.from_slice raw).elim .error fun obj => .pulled (some obj)
      | _ => .error
    else .error
  | .delete _ => if r.is_success || r.status = 404 then .deleted else .error

end Json

/-! ## The threads -/

/-- Where the thread of a request is. -/
inductive Phase
  | arrived
  | waits
  | answered (r : Response)
  | panicked
deriving DecidableEq

structure Thread where
  http : HttpRequest
  phase : Phase

/-- The folder of the relay, the tokens of its peers, and the threads, which call the folder under
their own ids. -/
structure Relay (C : Type) where
  folder : State C
  tokens : List String
  threads : Nat → Option Thread

def Relay.empty : Relay C := { folder := start, tokens := [], threads := fun _ => none }

def Relay.at_ (s : Relay C) (id : Nat) (t : Thread) : Relay C :=
  { s with threads := Function.update s.threads id (some t) }

/-- Peers come and go; a request that got a thread, which goes on with it; and the operations of the
folder. -/
inductive RelayAct
  | peers (tokens : List String)
  | arrive (id : Nat) (http : HttpRequest)
  | handle (id : Nat)
  | op (id bytes : Nat) (order : List Name)
  | fail (id : Nat)
  | respond (id : Nat)

section Steps
variable (wire : Wire C) (listing : Listing) (auth : List String → Option AuthCheck)

def Relay.step (s : Relay C) : RelayAct → Relay C
  | .peers tokens => { s with tokens }
  | .arrive id http =>
    match s.threads id with
    | none => s.at_ id { http, phase := .arrived }
    | some _ => s
  | .handle id =>
    match s.threads id with
    | some { http, phase := .arrived } =>
      match handle wire (auth s.tokens) http with
      | .respond r => s.at_ id { http, phase := .answered r }
      | .panic => s.at_ id { http, phase := .panicked }
      | .call request =>
        { s with folder := folder.step wire s.folder (.begin_ id request) }.at_ id
          { http, phase := .waits }
    | _ => s
  | .op id bytes order => { s with folder := folder.step wire s.folder (.op id bytes order) }
  | .fail id => { s with folder := folder.step wire s.folder (.fail id) }
  | .respond id =>
    match s.threads id, s.folder.calls id with
    | some { http, phase := .waits }, some (.done reply) =>
      s.at_ id { http, phase := .answered (relay.respond wire listing reply) }
    | _, _ => s

end Steps

end pai_sync.relay
