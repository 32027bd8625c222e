-- Guest requests: an op of an app, run for a device that is not a vault
-- member, on the authority of the capability token it presents. The laws say
-- which requests reach the handler.
import PersonalAi.Capabilities

open pai_core text

namespace pai_share.guest

def REQ_PREFIX : String := "greq/"
def RES_PREFIX : String := "gres/"

/-! ## Requests and responses -/

structure GuestRequest where
  v : Nat
  id : String
  op : String
  app_id : String
  args : List String
  capability : Capability
  eph_pub : String
  sig : Option String
  expires_at_ms : Nat

/-- The bytes that the grantee signs: everything but the token, the signature
and the expiry. -/
def GuestRequest.signing_payload (r : GuestRequest) : Bytes :=
  utf8 ("\n".intercalate
    [r.id, r.op, r.app_id, "\x00".intercalate r.args, r.eph_pub, r.capability.token_id])

/-- The body of a response. `payload_b64` holds the bytes that the base64 text
stands for. -/
structure GuestResponse where
  v : Nat
  request_id : String
  ok : Bool
  payload_b64 : Bytes
  error : Option String
deriving DecidableEq, Repr

/-- The envelope of a response. Its sealed part opens only with the secret of
the request's ephemeral key `sealed_to`, under the object key `aad`. -/
structure GuestEnvelope where
  v : Nat
  request_id : String
  sealed_to : Bytes
  aad : String
  response : GuestResponse
deriving DecidableEq, Repr

/-- The ops that a guest may request, and the action that each one needs. -/
def op_action (op : String) : Option Action :=
  if op = "app-run" then some .Exec
  else if op = "app-read" then some .Read
  else if op = "app-write" then some .Write
  else none

/-! ## The server -/

/-- A paired peer, as far as issuers are resolved through it. -/
structure Peer where
  device_id : DeviceId
  ed_pubkey : Bytes
deriving DecidableEq, Repr

/-- The serving device. `sha256` and the curve arithmetic are third-party. -/
structure GuestServer where
  device_id : DeviceId
  public_key : Bytes
  peers : List Peer
  shares : ShareStore
  verify_with_key : VerifyWithKey
  sha256 : Bytes → Bytes

abbrev GuestHandler := String → String → List String → Except Error Bytes

/-- The key of an issuer: of this device, or of a paired peer. -/
def GuestServer.issuer_pubkey (srv : GuestServer) (issued_by : DeviceId) : Option Bytes :=
  if issued_by = srv.device_id then
    if srv.public_key.length = 32 then some srv.public_key else none
  else
    (srv.peers.find? (fun p => decide (p.device_id = issued_by))).map Peer.ed_pubkey

/-- A grantee-bound token needs a signature of the grantee over the request. -/
def GuestServer.verify_sig (srv : GuestServer) (req : GuestRequest) : Except ShareError Unit :=
  match req.capability.grantee_key with
  | none => .ok ()
  | some grantee_hex =>
    match req.sig with
    | none => .error (.InvalidInput "grantee-bound request unsigned")
    | some sig_hex =>
      match grantee_bytes grantee_hex with
      | .error e => .error e
      | .ok gk =>
        match hex_decode sig_hex with
        | .error e => .error (.InvalidInput ("sig: " ++ e.to_string))
        | .ok sig =>
          match srv.verify_with_key gk req.signing_payload sig with
          | .error e => .error (.Identity e)
          | .ok true => .ok ()
          | .ok false => .error
              (.BadSignature ("grantee request sig (token " ++ req.capability.token_id ++ ")"))

def GuestServer.verify (srv : GuestServer) (now : Int) (req : GuestRequest) :
    Except ShareError Unit :=
  match op_action req.op with
  | none => .error (.InvalidInput ("unsupported guest op \"" ++ req.op ++ "\""))
  | some action =>
    if req.v ≠ 1 then
      .error (.InvalidInput ("unsupported guest request v" ++ toString req.v))
    else if req.capability.app_id ≠ req.app_id then
      .error (.InvalidInput "token app_id does not match request")
    else
      match srv.verify_sig req with
      | .error e => .error e
      | .ok () =>
        (verify_chain srv.shares srv.verify_with_key now srv.issuer_pubkey action
          req.capability).map (fun _ => ())

/-! ## One pass over the requests -/

/-- What the transport and the clock give for one listed object: its header,
what a pull of its key gives, the time, and whether the push of the response
goes through. A request that does not parse is `none`. -/
structure Turn where
  key : String
  tombstone : Bool
  pulled : Except Error (Option (SyncObject (Option GuestRequest)))
  now_ms : Nat
  now : Int
  push : Except Error Unit

/-- What a pass did. `calls` lists the requests that the handler ran for. -/
structure Pass where
  calls : List GuestRequest := []
  pushed : List (SyncObject GuestEnvelope) := []
  deleted : List String := []
  served : Nat := 0
  err : Option Error := none

def Pass.append (a b : Pass) : Pass :=
  { calls := a.calls ++ b.calls, pushed := a.pushed ++ b.pushed,
    deleted := a.deleted ++ b.deleted, served := a.served + b.served, err := b.err }

def want (srv : GuestServer) : String := REQ_PREFIX ++ srv.device_id.to_string ++ "/"

def starts_with (s p : String) : Bool := p.toList.isPrefixOf s.toList

/-- The ephemeral key of a request, or zeros when it does not decode. -/
def eph_bytes (req : GuestRequest) : Bytes :=
  match hex_decode req.eph_pub with
  | .ok b => if b.length = 32 then b else List.replicate 32 0
  | .error _ => List.replicate 32 0

def hex_encode (b : Bytes) : String :=
  String.ofList (b.flatMap (fun x => [Nat.digitChar (x.toNat / 16), Nat.digitChar (x.toNat % 16)]))

def reply_tag (srv : GuestServer) (token_id : String) (eph_pub : Bytes) : String :=
  "t" ++ hex_encode ((srv.sha256 (utf8 token_id ++ eph_pub)).take 8)

def GuestServer.response_object (srv : GuestServer) (now_ms : Nat) (req : GuestRequest)
    (res : GuestResponse) : SyncObject GuestEnvelope :=
  let res_key := RES_PREFIX ++ reply_tag srv req.capability.token_id (eph_bytes req) ++ "/" ++ req.id
  { key := res_key,
    ciphertext := { v := 1, request_id := req.id, sealed_to := eph_bytes req, aad := res_key,
                    response := res },
    version := max now_ms 1, writer := srv.device_id, updated_at := now_ms * 1000000,
    tombstone := false }

/-- The request has an expiry, and it is past. -/
def GuestRequest.expired (req : GuestRequest) (now_ms : Nat) : Bool :=
  decide (req.expires_at_ms > 0) && decide (now_ms > req.expires_at_ms)

/-- A parsed request: verify, run, answer, delete. -/
def serve_request (srv : GuestServer) (handler : GuestHandler) (t : Turn) (req : GuestRequest) :
    Pass :=
  if req.expired t.now_ms then { deleted := [t.key] }
  else
    let (calls, ok, payload, error) : List GuestRequest × Bool × Bytes × Option String :=
      match srv.verify t.now req with
      | .ok () =>
        match handler req.op req.app_id req.args with
        | .ok out => ([req], true, out, none)
        | .error e => ([req], false, [], some e.to_string)
      | .error e => ([], false, [], some e.to_string)
    let res := { v := 1, request_id := req.id, ok := ok, payload_b64 := payload, error := error }
    match t.push with
    | .error e => { calls := calls, err := some e }
    | .ok () =>
      { calls := calls, pushed := [srv.response_object t.now_ms req res], deleted := [t.key],
        served := 1 }

def serve_turn (srv : GuestServer) (handler : GuestHandler) (t : Turn) : Pass :=
  if ¬ starts_with t.key (want srv) ∨ t.tombstone then {}
  else
    match t.pulled with
    | .error e => { err := some e }
    | .ok none => {}
    | .ok (some o) =>
      match o.ciphertext with
      | none => { deleted := [t.key] }
      | some req => serve_request srv handler t req

/-- One pass over the listing. An error of the transport ends the pass. -/
def serve_once (srv : GuestServer) (handler : GuestHandler) : List Turn → Pass
  | [] => {}
  | t :: ts =>
    let p := serve_turn srv handler t
    match p.err with
    | some _ => p
    | none => p.append (serve_once srv handler ts)

/-! ## Which requests reach the handler -/

/-- The request of a turn, when it is addressed to this device and parses. -/
def Turn.request (t : Turn) (srv : GuestServer) : Option GuestRequest :=
  if ¬ starts_with t.key (want srv) ∨ t.tombstone then none
  else
    match t.pulled with
    | .ok (some o) => o.ciphertext
    | _ => none

/-- The server takes the request on: it is not past its expiry, and
`GuestServer::verify` accepts it. -/
def Taken (srv : GuestServer) (t : Turn) (req : GuestRequest) : Prop :=
  t.request srv = some req ∧ req.expired t.now_ms = false ∧ srv.verify t.now req = .ok ()

theorem serve_request_calls (srv : GuestServer) (handler : GuestHandler) (t : Turn)
    (req r : GuestRequest) :
    r ∈ (serve_request srv handler t req).calls ↔
      r = req ∧ req.expired t.now_ms = false ∧ srv.verify t.now req = .ok () := by
  unfold serve_request
  by_cases hexp : req.expired t.now_ms = true
  · simp [hexp]
  · have hexp' : req.expired t.now_ms = false := by simpa using hexp
    simp only [hexp', Bool.false_eq_true, if_false, true_and]
    rcases hv : srv.verify t.now req with e | u
    · cases t.push <;> simp
    · cases handler req.op req.app_id req.args <;> cases t.push <;> simp

/-- The handler of a turn runs for a request exactly when the server takes the
request on. -/
theorem serve_turn_calls (srv : GuestServer) (handler : GuestHandler) (t : Turn)
    (r : GuestRequest) : r ∈ (serve_turn srv handler t).calls ↔ Taken srv t r := by
  unfold serve_turn Taken Turn.request
  by_cases hkey : ¬ starts_with t.key (want srv) ∨ t.tombstone
  · rw [if_pos hkey, if_pos hkey]
    simp
  · rw [if_neg hkey, if_neg hkey]
    cases t.pulled with
    | error e => simp
    | ok found =>
      cases found with
      | none => simp
      | some o =>
        cases ho : o.ciphertext with
        | none => simp [ho]
        | some req =>
          simp only [ho, serve_request_calls, Option.some.injEq]
          constructor
          · rintro ⟨rfl, h⟩
            exact ⟨rfl, h⟩
          · rintro ⟨rfl, h⟩
            exact ⟨rfl, h⟩

/-- Every run of the handler in a pass is a request that some turn took on. -/
theorem serve_once_calls (srv : GuestServer) (handler : GuestHandler) (ts : List Turn)
    (r : GuestRequest) (h : r ∈ (serve_once srv handler ts).calls) :
    ∃ t ∈ ts, Taken srv t r := by
  induction ts with
  | nil => simp [serve_once] at h
  | cons t ts ih =>
    simp only [serve_once] at h
    split at h
    · exact ⟨t, by simp, (serve_turn_calls srv handler t r).mp h⟩
    · simp only [Pass.append, List.mem_append] at h
      rcases h with h | h
      · exact ⟨t, by simp, (serve_turn_calls srv handler t r).mp h⟩
      · obtain ⟨t', ht', htaken⟩ := ih h
        exact ⟨t', by simp [ht'], htaken⟩

theorem serve_once_single (srv : GuestServer) (handler : GuestHandler) (t : Turn) :
    (serve_once srv handler [t]).calls = (serve_turn srv handler t).calls := by
  simp only [serve_once]
  split
  · rfl
  · simp [Pass.append]

/-! ## The device restriction -/

/-- The handler ran only for requests whose whole chain is free to run on this
device. -/
def DeviceHeld (srv : GuestServer) (p : Pass) : Prop :=
  ∀ r ∈ p.calls, ∀ c ∈ r.capability.chain, ∀ d, c.device = some d → d = srv.device_id

/-- The turn brings no request that the server takes on and whose presented
token names another device. -/
def NoForeignToken (srv : GuestServer) (t : Turn) : Prop :=
  ∀ r, Taken srv t r → ∀ d, r.capability.device = some d → d = srv.device_id

/-- A request that `verify` accepts carries a chain that `verify_chain`
accepts. -/
theorem verify_accepts_chain {srv : GuestServer} {now : Int} {req : GuestRequest}
    (h : srv.verify now req = .ok ()) :
    ∃ action g, verify_chain srv.shares srv.verify_with_key now srv.issuer_pubkey action
      req.capability = .ok g := by
  unfold GuestServer.verify at h
  split at h
  · cases h
  · rename_i action _
    split_ifs at h
    split at h
    · cases h
    · rcases hc : verify_chain srv.shares srv.verify_with_key now srv.issuer_pubkey action
        req.capability with e | g
      · simp [hc, Except.map] at h
      · exact ⟨action, g, hc⟩

/-- `verify_chain` carries the restriction of every ancestor down to the
presented token, so that token decides for the whole chain. -/
theorem presented_token_decides {srv : GuestServer} {t : Turn} {r : GuestRequest}
    (h : Taken srv t r) (hd : ∀ d, r.capability.device = some d → d = srv.device_id) :
    ∀ c ∈ r.capability.chain, ∀ d, c.device = some d → d = srv.device_id := by
  obtain ⟨action, g, hc⟩ := verify_accepts_chain h.2.2
  intro c hmem d hdev
  exact hd d ((verify_chain_ok hc).device c hmem d hdev)

/-- A pass keeps to the device restriction when no turn brings a foreign token
that the server takes on. For one request this is exact: no code of the serving
path compares the restriction with the serving device, so a foreign token that
passes the other checks runs here. -/
theorem a_pass_keeps_the_device_restriction_when_no_foreign_token_passes (srv : GuestServer)
    (handler : GuestHandler) :
    (∀ ts : List Turn, (∀ t ∈ ts, NoForeignToken srv t) →
      DeviceHeld srv (serve_once srv handler ts)) ∧
    ∀ t : Turn, DeviceHeld srv (serve_once srv handler [t]) ↔ NoForeignToken srv t := by
  have hpass : ∀ ts : List Turn, (∀ t ∈ ts, NoForeignToken srv t) →
      DeviceHeld srv (serve_once srv handler ts) := by
    intro ts hts r hr
    obtain ⟨t, ht, htaken⟩ := serve_once_calls srv handler ts r hr
    exact presented_token_decides htaken (hts t ht r htaken)
  refine ⟨hpass, ?_⟩
  intro t
  constructor
  · intro hheld r htaken
    refine hheld r ?_ r.capability (self_mem_chain _)
    rw [serve_once_single]
    exact (serve_turn_calls srv handler t r).mpr htaken
  · intro hno
    apply hpass
    intro t' ht'
    rw [List.mem_singleton.mp ht']
    exact hno

/-- The device `desktop`, which issued the token of `phoneRequest`. -/
def desktop : GuestServer :=
  { device_id := ⟨"desktop"⟩, public_key := List.replicate 32 0, peers := [],
    shares := { dir := "share", is_file := fun _ => false },
    verify_with_key := fun _ _ _ => .ok true, sha256 := fun b => b }

/-- A bearer token for the device `phone` alone. -/
def phoneToken : Capability :=
  { token_id := "t", app_id := "notes", actions := [.Exec], grantee_key := none,
    device := some ⟨"phone"⟩, expires := none, issued_by := ⟨"desktop"⟩, issued_at := 0,
    signature := "00", parent := none }

def phoneRequest : GuestRequest :=
  { v := 1, id := "r", op := "app-run", app_id := "notes", args := [],
    capability := phoneToken, eph_pub := "", sig := none, expires_at_ms := 0 }

def phoneObject : SyncObject (Option GuestRequest) :=
  { key := "greq/desktop/r", ciphertext := some phoneRequest, version := 1,
    writer := ⟨"guest"⟩, updated_at := 0, tombstone := false }

def phoneTurn : Turn :=
  { key := "greq/desktop/r", tombstone := false, pulled := .ok (some phoneObject),
    now_ms := 1, now := 0, push := .ok () }

theorem a_token_for_the_phone_runs_on_the_desktop :
    ¬ ∀ (srv : GuestServer) (handler : GuestHandler) (ts : List Turn),
      DeviceHeld srv (serve_once srv handler ts) := by
  intro h
  have hv : desktop.verify 0 phoneRequest = .ok () := by rfl
  have hcall : phoneRequest ∈ (serve_once desktop (fun _ _ _ => .ok []) [phoneTurn]).calls := by
    rw [serve_once_single, serve_turn_calls]
    exact ⟨by rfl, by rfl, hv⟩
  have := h desktop (fun _ _ _ => .ok []) [phoneTurn] phoneRequest hcall
    phoneRequest.capability (self_mem_chain _) ⟨"phone"⟩ rfl
  exact absurd this (by decide)

end pai_share.guest
