-- Broker calls among any number of paired devices: each device may call and serve at the same
-- time, over a transport that loses, delays and repeats what lies on it. The law says that a call
-- gets what its peer's handler did with it.
import PersonalAi.BrokerServes
import PersonalAi.BrokerStreams
import PersonalAi.Lib.Runs

open pai_core program runs text

namespace pai_broker.rpc

/-! ## The calling side -/

def EXPIRY_MARGIN : Nat := 60 * 10 ^ 9

/-- `chrono::Duration::from_std(..).unwrap_or_default()`, in nanoseconds. -/
def from_std (duration : Nat) : Nat := if duration ≤ (2 ^ 63 - 1) * 10 ^ 6 then duration else 0

/-- A call of a client: its device, its arguments, the id it draws, and the time. Times are in
nanoseconds. -/
structure Asked where
  device : DeviceId
  to_device : DeviceId
  op : String
  payload : Bytes
  timeout : Nat
  stream : Bool
  id : String
  now : Nat

namespace Asked
variable (a : Asked)

/-- The request of `push_request`. -/
def request : BrokerRequest :=
  { v := 1, id := a.id, sender := a.device, op := a.op, payload_b64 := .ok a.payload,
    stream := a.stream,
    expires_at_ms := max ((a.now + from_std (a.timeout + EXPIRY_MARGIN)) / 10 ^ 6) 1 }

def key : String := REQ_PREFIX ++ a.to_device.to_string ++ "/" ++ a.id

def res_key : String := RES_PREFIX ++ a.device.to_string ++ "/" ++ a.id

def late : Error :=
  .Sync ("broker: no response to " ++ a.id ++ " within " ++ toString (a.timeout / 10 ^ 9) ++ "s")

end Asked

/-- A response that opens. -/
def opened (o : SyncObject Body) : Except Error BrokerResponse :=
  match o.ciphertext with
  | .response r =>
    if r.v ≠ 1 then .error (.Sync ("unsupported broker response v" ++ toString r.v)) else .ok r
  | .chunk _ => .error (.Sync "bad broker response")

/-- The streaming client reads the final object in the same way. -/
theorem open_response_opened (o : SyncObject Body) (w : Net) :
    (open_response o).outcome w = ((opened o).mapError Stop.Failed, w) := by
  unfold open_response opened
  cases o.ciphertext with
  | response r =>
    dsimp only
    split <;> rfl
  | chunk c => rfl

/-- Where a call is: it polls, it gave up or its transport failed, or it read a response. -/
inductive Phase
  | waiting
  | failed (e : Error)
  | answered (r : Except Error Bytes)

/-- What `call` returns. -/
def Phase.result : Phase → Option (Except Error Bytes)
  | .waiting => none
  | .failed e => some (.error e)
  | .answered r => some r

/-- One turn of the loop of `call`. An object that does not open is an error of the pull. -/
def Asked.poll (a : Asked) (expired : Bool)
    (pulled : Except Error (Option (SyncObject Body))) : Phase :=
  if expired then .failed a.late
  else
    match pulled with
    | .error e => .failed e
    | .ok none => .waiting
    | .ok (some o) => .answered ((opened o).bind (read_response a.op))

/-! ## The devices -/

/-- A run of a handler: for this request, in this turn of a server. -/
structure Ran where
  device : DeviceId
  turn : Turn
  req : BrokerRequest

/-- All devices: their calls, by number, what lies sealed under which key, the ids that the servers
have served, and what their handlers ran for. Nothing that was pushed is ever out of the reach of
the transport, whatever is deleted. -/
structure Mesh where
  calls : Nat → Option (Asked × Phase)
  requests : List (String × BrokerRequest)
  sealed : List (SyncObject Body)
  served : DeviceId → List String
  ran : List Ran

def Mesh.empty : Mesh :=
  { calls := fun _ => none, requests := [], sealed := [], served := fun _ => [], ran := [] }

/-- The objects that a turn seals for a push, whether it then fails or not. -/
def sealed_in (device : DeviceId) (served : List String) (t : Turn) : List (SyncObject Body) :=
  match t.brought device with
  | none => []
  | some (id, req) => if id ∈ served ∨ req.expired t.now_ms then [] else answer device t req

inductive Act
  | ask (n : Nat) (a : Asked) (push : Except Error Unit)
  | turn (device : DeviceId) (t : Turn)
  | restart (device : DeviceId)
  | poll (n : Nat) (expired : Bool) (pulled : Except Error (Option (SyncObject Body)))

namespace Mesh
variable (s : Mesh)

def put (n : Nat) (a : Asked) (ph : Phase) : Mesh :=
  { s with calls := Function.update s.calls n (some (a, ph)) }

/-- `push_request`. A push that fails may have landed. -/
def ask (n : Nat) (a : Asked) (push : Except Error Unit) : Mesh :=
  let s := { s with requests := (a.key, a.request) :: s.requests }
  match push with
  | .error e => s.put n a (.failed e)
  | .ok () => s.put n a .waiting

/-- A server deals with one object of its listing. -/
def turn (device : DeviceId) (t : Turn) : Mesh :=
  let p := serve_turn device (s.served device) t
  { s with
    sealed := sealed_in device (s.served device) t ++ s.sealed
    served := Function.update s.served device (p.served ++ s.served device)
    ran := p.calls.map (fun c => ⟨device, t, c.2⟩) ++ s.ran }

def step (s : Mesh) : Act → Mesh
  | .ask n a push => s.ask n a push
  | .turn device t => s.turn device t
  -- a new process has served nothing
  | .restart device => { s with served := Function.update s.served device [] }
  | .poll n expired pulled =>
    match s.calls n with
    -- the chunks of a streaming call are read elsewhere
    | some (a, .waiting) => if a.stream then s else s.put n a (a.poll expired pulled)
    | _ => s

end Mesh

/-- A text of a UUID, as far as keys go. -/
def Plain (id : String) : Prop := '/' ∉ id.toList

/-- What the acts rely on: ids are drawn once, and what a pull of a key gives was sealed under this
key by one of the devices. -/
def Kept (s : Mesh) : Act → Prop
  | .ask n a _ => s.calls n = none ∧ Plain a.id ∧ Plain a.device.text ∧ Plain a.to_device.text ∧
      ∀ m b ph, s.calls m = some (b, ph) → b.id ≠ a.id
  | .turn device t => Plain device.text ∧ ∀ o, t.pulled = .ok (some o) → o.key = t.key ∧
      ∀ req, o.ciphertext = some req → (o.key, req) ∈ s.requests
  | .restart _ => True
  | .poll n _ pulled => ∀ a ph o, s.calls n = some (a, ph) → pulled = .ok (some o) →
      o.key = a.res_key ∧ o ∈ s.sealed

/-! ## Keys -/

theorem cut_at_slash {a b x y : String} (ha : Plain a) (hb : Plain b)
    (h : a ++ "/" ++ x = b ++ "/" ++ y) : a = b ∧ x = y := by
  have hlist : a.toList ++ '/' :: x.toList = b.toList ++ '/' :: y.toList := by
    simpa [String.toList_append] using congrArg String.toList h
  have hcut := congrArg (split_once '/') hlist
  rw [split_once_append _ _ _ ha, split_once_append _ _ _ hb] at hcut
  simp only [Option.some.injEq, Prod.mk.injEq] at hcut
  exact ⟨String.toList_inj.mp hcut.1, String.toList_inj.mp hcut.2⟩

/-- The device and the id in a key. -/
theorem key_parts {p a b x y : String} (ha : Plain a) (hb : Plain b)
    (h : p ++ a ++ "/" ++ x = p ++ b ++ "/" ++ y) : a = b ∧ x = y := by
  refine cut_at_slash ha hb (String.append_right_inj p |>.mp ?_)
  simpa only [String.append_assoc] using h

theorem not_plain_append (a b : String) : ¬ Plain (a ++ "/" ++ b) := by
  simp [Plain, String.toList_append]

/-! ## One turn -/

section Turn
variable {device : DeviceId} {served : List String} {t : Turn} {id : String} {req : BrokerRequest}

theorem brought_eq (h : t.brought device = some (id, req)) : t.key = want device ++ id ∧
    ∃ o, t.pulled = .ok (some o) ∧ o.ciphertext = some req := by
  unfold Turn.brought at h
  split at h
  · rename_i i o hkey htomb hpull
    cases hbody : o.ciphertext with
    | none =>
      rw [hbody] at h
      cases h
    | some r =>
      rw [hbody] at h
      dsimp only at h
      split at h
      · obtain ⟨rfl, rfl⟩ := Prod.mk.inj (Option.some.inj h)
        exact ⟨strip_prefix_eq_some.mp hkey, o, hpull, hbody⟩
      · cases h
  · cases h

theorem sealed_in_cases {o : SyncObject Body} (h : o ∈ sealed_in device served t) :
    ∃ id req, t.brought device = some (id, req) ∧ id ∉ served ∧ req.expired t.now_ms = false ∧
      o ∈ answer device t req := by
  unfold sealed_in at h
  split at h
  · cases h
  · rename_i id req hbrought
    split at h
    · cases h
    · rename_i hopen
      rw [not_or, Bool.not_eq_true] at hopen
      exact ⟨id, req, hbrought, hopen.1, hopen.2, h⟩

theorem calls_cases {c : String × BrokerRequest} (h : c ∈ (serve_turn device served t).calls) :
    t.brought device = some c ∧ c.2.expired t.now_ms = false := by
  cases hbrought : t.brought device with
  | none =>
    rw [(serve_turn_idle served hbrought).1] at h
    cases h
  | some b =>
    obtain ⟨id, req⟩ := b
    rw [serve_turn_brought hbrought] at h
    split at h
    · cases h
    · unfold serve_request at h
      split at h
      · cases h
      · rename_i hlate
        have hmem : c ∈ if req.payload_b64.isOk then [(id, req)] else [] := by
          dsimp only at h
          split at h <;> exact h
        split at hmem
        · obtain rfl := List.mem_singleton.mp hmem
          exact ⟨rfl, Bool.eq_false_iff.mpr hlate⟩
        · cases hmem

/-- A request whose payload decodes is answered behind a run of the handler. -/
theorem sealed_behind_a_run (hbrought : t.brought device = some (id, req)) (hid : id ∉ served)
    (hlate : req.expired t.now_ms = false) (hpayload : req.payload_b64.isOk = true) :
    (id, req) ∈ (serve_turn device served t).calls := by
  rw [serve_turn_brought hbrought, if_neg hid]
  unfold serve_request
  rw [if_neg (Bool.eq_false_iff.mp hlate), if_pos hpayload]
  dsimp only
  split <;> exact List.mem_singleton_self _

theorem mem_push_all {push : Nat → Except Error Unit} {n : Nat} {os : List (SyncObject Body)}
    {o : SyncObject Body} (h : o ∈ (push_all push n os).1) : o ∈ os := by
  induction os generalizing n with
  | nil => exact h
  | cons o' os ih =>
    unfold push_all at h
    split at h
    · cases h
    · rcases List.mem_cons.mp h with rfl | h
      · exact List.mem_cons_self
      · exact List.mem_cons_of_mem _ (ih h)

theorem serve_turn_silent (served : List String) (h : t.brought device = none) :
    (serve_turn device served t).pushed = [] := by
  unfold serve_turn
  split
  · rfl
  · rename_i req_id hkey
    split
    · rfl
    · rename_i hskip
      rw [not_or, Bool.not_eq_true] at hskip
      split
      · rfl
      · rfl
      · rename_i o hpull
        split
        · rfl
        · rename_i req hbody
          split
          · rfl
          · rename_i hv
            simp [Turn.brought, hkey, hskip.1, hpull, hbody, not_not.mp hv] at h

/-- What a turn pushes was sealed for it. -/
theorem pushed_sealed {o : SyncObject Body} (h : o ∈ (serve_turn device served t).pushed) :
    o ∈ sealed_in device served t := by
  unfold sealed_in
  cases hbrought : t.brought device with
  | none =>
    rw [serve_turn_silent served hbrought] at h
    cases h
  | some b =>
    obtain ⟨id, req⟩ := b
    rw [serve_turn_brought hbrought] at h
    dsimp only
    split at h
    · cases h
    · rename_i hid
      unfold serve_request at h
      split at h
      · cases h
      · rename_i hlate
        rw [if_neg (not_or.mpr ⟨hid, hlate⟩)]
        dsimp only at h
        cases hpush : push_all t.push 0 (answer device t req) with
        | mk pushed e =>
          rw [hpush] at h
          have hpushed : o ∈ (push_all t.push 0 (answer device t req)).1 := by
            rw [hpush]
            cases e <;> exact h
          exact mem_push_all hpushed

/-- A pass of `serve_once` is its turns, one behind the other: they serve the same ids, and their
handlers run for the same requests. -/
theorem pass_is_its_turns (device : DeviceId) (ts : List Turn) (s : Mesh) :
    let p := serve_once device (s.served device) ts
    let s' := run Mesh.step s ((reached device (s.served device) ts).map (Act.turn device))
    s'.served device = p.served ++ s.served device ∧
      ∀ req, req ∈ s'.ran.map Ran.req ↔ req ∈ p.calls.map Prod.snd ∨ req ∈ s.ran.map Ran.req := by
  induction ts generalizing s with
  | nil => exact ⟨rfl, by simp [serve_once, reached]⟩
  | cons t ts ih =>
    have hserved : (s.turn device t).served device =
        (serve_turn device (s.served device) t).served ++ s.served device := Function.update_self ..
    have hran : ∀ req, req ∈ (s.turn device t).ran.map Ran.req ↔
        req ∈ (serve_turn device (s.served device) t).calls.map Prod.snd ∨ req ∈ s.ran.map Ran.req := by
      intro req
      simp [Mesh.turn]
    unfold serve_once reached
    dsimp only
    cases herr : (serve_turn device (s.served device) t).err with
    | some e => exact ⟨hserved, hran⟩
    | none =>
      obtain ⟨hserved', hran'⟩ := ih (s.turn device t)
      rw [hserved] at hserved' hran'
      refine ⟨hserved'.trans (List.append_assoc ..).symm, fun req => (hran' req).trans ?_⟩
      rw [hran, Pass.append, List.map_append, List.mem_append]
      tauto

end Turn

/-! ## Answers -/

/-- What the caller gets to see of this handler. -/
def Asked.reply (a : Asked) (handler : OpHandler) : Except Error Bytes :=
  match handler.handle a.op a.payload with
  | .ok out => .ok out
  | .error e => .error (.Sync ("broker: peer failed " ++ a.op ++ ": " ++ e.to_string))

/-- The handler of the peer ran for the call, in time, and this is what the caller gets to see. -/
def Mesh.Did (s : Mesh) (a : Asked) (r : Except Error Bytes) : Prop :=
  ∃ x ∈ s.ran, x.device = a.to_device ∧ x.req = a.request ∧
    a.request.expired x.turn.now_ms = false ∧ r = a.reply x.turn.handler

theorem answer_key {device : DeviceId} {t : Turn} {req : BrokerRequest} {o : SyncObject Body}
    (h : o ∈ answer device t req) : o.key = res_key req ∨ ∃ seq, o.key = res_key req ++ "/" ++ seq := by
  have hchunks : ∀ (payloads : List Bytes) (seq : UInt32),
      o ∈ chunk_objects device t.now_ms (res_key req) seq payloads →
      ∃ seq, o.key = res_key req ++ "/" ++ seq := by
    intro payloads
    induction payloads with
    | nil => exact fun _ h => nomatch h
    | cons bytes rest ih =>
      intro seq h
      rcases List.mem_cons.mp h with rfl | h
      · exact ⟨_, rfl⟩
      · exact ih _ h
  have hfinal : ∀ {ok payload error}, o ∈ [final_object device t.now_ms req ok payload error] →
      o.key = res_key req := fun h => congrArg SyncObject.key (List.mem_singleton.mp h)
  unfold answer at h
  split at h
  · split at h
    · unfold stream_objects at h
      split at h <;> rcases List.mem_append.mp h with h | h
      all_goals first | exact .inr (hchunks _ _ h) | exact .inl (hfinal h)
    · split at h <;> exact .inl (hfinal h)
  · exact .inl (hfinal h)

/-- The caller reads the answer to its plain call as what the handler did. -/
theorem read_answer {a : Asked} (hstream : a.stream = false) {device : DeviceId} {t : Turn}
    {o : SyncObject Body} (h : o ∈ answer device t a.request) :
    (opened o).bind (read_response a.op) = a.reply t.handler := by
  have hanswer : answer device t a.request = match t.handler.handle a.op a.payload with
      | .ok out => [final_object device t.now_ms a.request true out none]
      | .error e => [final_object device t.now_ms a.request false [] (some e.to_string)] :=
    if_neg (Bool.eq_false_iff.mp hstream)
  rw [hanswer] at h
  unfold Asked.reply
  cases hhandle : t.handler.handle a.op a.payload with
  | ok out =>
    rw [hhandle] at h
    obtain rfl := List.mem_singleton.mp h
    rfl
  | error e =>
    rw [hhandle] at h
    obtain rfl := List.mem_singleton.mp h
    rfl

/-! ## Runs -/

/-- Call `n`, wherever it is. -/
def Mesh.asked (s : Mesh) (n : Nat) : Option Asked := (s.calls n).map Prod.fst

structure Inv (s : Mesh) : Prop where
  fresh : ∀ {n m a b}, s.asked n = some a → s.asked m = some b → a.id = b.id → n = m
  plain : ∀ {n a}, s.asked n = some a → Plain a.id ∧ Plain a.device.text ∧ Plain a.to_device.text
  requests : ∀ {k req}, (k, req) ∈ s.requests → ∃ n a, s.asked n = some a ∧ k = a.key ∧ req = a.request
  ran : ∀ x ∈ s.ran, ∃ n a, s.asked n = some a ∧ x.device = a.to_device ∧ x.req = a.request ∧
    a.request.expired x.turn.now_ms = false
  sealed : ∀ o ∈ s.sealed, ∃ x ∈ s.ran, o ∈ answer x.device x.turn x.req
  answered : ∀ {n a r}, s.calls n = some (a, .answered r) → s.Did a r

theorem inv_empty : Inv Mesh.empty :=
  { fresh := nofun, plain := nofun, requests := nofun, ran := nofun, sealed := nofun,
    answered := nofun }

section Steps
variable {s : Mesh}

theorem asked_put (n : Nat) (a : Asked) (ph : Phase) :
    (s.put n a ph).asked = Function.update s.asked n (some a) := by
  funext m
  by_cases hm : m = n
  · subst hm
    simp [Mesh.asked, Mesh.put]
  · simp [Mesh.asked, Mesh.put, hm]

theorem asked_put_cases {n m : Nat} {a b : Asked}
    (h : Function.update s.asked n (some a) m = some b) : (m = n ∧ b = a) ∨ s.asked m = some b := by
  by_cases hm : m = n
  · subst hm
    rw [Function.update_self] at h
    exact .inl ⟨rfl, (Option.some.inj h).symm⟩
  · rw [Function.update_of_ne hm] at h
    exact .inr h

theorem calls_put_cases {n m : Nat} {a b : Asked} {ph ph' : Phase}
    (h : (s.put n a ph).calls m = some (b, ph')) :
    (b = a ∧ ph' = ph) ∨ s.calls m = some (b, ph') := by
  change Function.update s.calls n (some (a, ph)) m = _ at h
  by_cases hm : m = n
  · subst hm
    rw [Function.update_self] at h
    obtain ⟨rfl, rfl⟩ := Prod.mk.inj (Option.some.inj h)
    exact .inl ⟨rfl, rfl⟩
  · rw [Function.update_of_ne hm] at h
    exact .inr h

/-- The call gets to another place, where an answer is what its peer did. -/
theorem Inv.put (h : Inv s) {n : Nat} {a : Asked} {ph : Phase} (hn : s.asked n = some a)
    (hph : ∀ r, ph = .answered r → s.Did a r) : Inv (s.put n a ph) := by
  have hasked : (s.put n a ph).asked = s.asked := by
    rw [asked_put, ← hn, Function.update_eq_self]
  refine { fresh := ?_, plain := ?_, requests := ?_, ran := ?_, sealed := h.sealed, answered := ?_ }
  · rw [hasked]
    exact h.fresh
  · rw [hasked]
    exact h.plain
  · rw [hasked]
    exact h.requests
  · rw [hasked]
    exact h.ran
  · intro m b r hm
    rcases calls_put_cases hm with ⟨rfl, hr⟩ | hm
    · exact hph r hr.symm
    · exact h.answered hm

/-- A new call, behind its request. -/
theorem ask_opens (h : Inv s) {n : Nat} {a : Asked} {push : Except Error Unit}
    (hkept : Kept s (.ask n a push)) (ph : Phase) (hph : ∀ r, ph ≠ .answered r) :
    Inv ({ s with requests := (a.key, a.request) :: s.requests }.put n a ph) := by
  obtain ⟨hnone, hid, hdevice, hto, hother⟩ := hkept
  have hold : ∀ {m b}, s.asked m = some b → m ≠ n ∧ b.id ≠ a.id := by
    intro m b hm
    obtain ⟨⟨b', ph'⟩, hcall, rfl⟩ := Option.map_eq_some_iff.mp hm
    refine ⟨fun hmn => ?_, hother m b' ph' hcall⟩
    rw [hmn, hnone] at hcall
    cases hcall
  have hstays : ∀ {m b}, s.asked m = some b → Function.update s.asked n (some a) m = some b :=
    fun hm => (Function.update_of_ne (hold hm).1 _ _).trans hm
  have hasked : ({ s with requests := (a.key, a.request) :: s.requests }.put n a ph).asked =
      Function.update s.asked n (some a) := asked_put n a ph
  refine { fresh := ?_, plain := ?_, requests := ?_, ran := ?_, sealed := h.sealed, answered := ?_ }
  · rw [hasked]
    intro m m' b b' hm hm' hsame
    rcases asked_put_cases hm with ⟨hmn, hb⟩ | hm <;>
      rcases asked_put_cases hm' with ⟨hmn', hb'⟩ | hm'
    · exact hmn.trans hmn'.symm
    · exact absurd (hsame.symm.trans (congrArg Asked.id hb)) (hold hm').2
    · exact absurd (hsame.trans (congrArg Asked.id hb')) (hold hm).2
    · exact h.fresh hm hm' hsame
  · rw [hasked]
    intro m b hm
    rcases asked_put_cases hm with ⟨rfl, rfl⟩ | hm
    · exact ⟨hid, hdevice, hto⟩
    · exact h.plain hm
  · rw [hasked]
    intro k req hreq
    rcases List.mem_cons.mp hreq with hreq | hreq
    · obtain ⟨rfl, rfl⟩ := Prod.mk.inj hreq
      exact ⟨n, a, Function.update_self .., rfl, rfl⟩
    · obtain ⟨m, b, hm, hkey, hb⟩ := h.requests hreq
      exact ⟨m, b, hstays hm, hkey, hb⟩
  · rw [hasked]
    intro x hx
    obtain ⟨m, b, hm, hx⟩ := h.ran x hx
    exact ⟨m, b, hstays hm, hx⟩
  · intro m b r hm
    rcases calls_put_cases hm with ⟨-, hr⟩ | hm
    · exact absurd hr.symm (hph r)
    · exact h.answered hm

theorem ask_step (h : Inv s) {n : Nat} {a : Asked} {push : Except Error Unit}
    (hkept : Kept s (.ask n a push)) : Inv (s.ask n a push) := by
  cases push with
  | error e => exact ask_opens h hkept (.failed e) nofun
  | ok u => exact ask_opens h hkept .waiting nofun

/-- The request that a turn brings is one of the calls, and goes to the device of the turn. -/
theorem brought_asked (h : Inv s) {device : DeviceId} {t : Turn} (hkept : Kept s (.turn device t))
    {id : String} {req : BrokerRequest} (hbrought : t.brought device = some (id, req)) :
    ∃ n a, s.asked n = some a ∧ device = a.to_device ∧ req = a.request := by
  obtain ⟨hkey, o, hpull, hbody⟩ := brought_eq hbrought
  obtain ⟨hsame, hrequests⟩ := hkept.2 o hpull
  obtain ⟨n, a, hn, ha, hreq⟩ := h.requests (hrequests req hbody)
  refine ⟨n, a, hn, ?_, hreq⟩
  have hkeys : REQ_PREFIX ++ device.text ++ "/" ++ id = REQ_PREFIX ++ a.to_device.text ++ "/" ++ a.id :=
    hkey.symm.trans (hsame.symm.trans ha)
  exact congrArg DeviceId.mk (key_parts hkept.1 (h.plain hn).2.2 hkeys).1

theorem turn_step (h : Inv s) {device : DeviceId} {t : Turn} (hkept : Kept s (.turn device t)) :
    Inv (s.turn device t) := by
  have hmore : ∀ x ∈ s.ran, x ∈ (s.turn device t).ran := fun x hx => List.mem_append_right _ hx
  refine { fresh := h.fresh, plain := h.plain, requests := h.requests, ran := ?_, sealed := ?_,
           answered := ?_ }
  · intro x hx
    rcases List.mem_append.mp hx with hx | hx
    · obtain ⟨⟨id, req⟩, hc, rfl⟩ := List.mem_map.mp hx
      obtain ⟨hbrought, hlate⟩ := calls_cases hc
      obtain ⟨n, a, hn, hdevice, rfl⟩ := brought_asked h hkept hbrought
      exact ⟨n, a, hn, hdevice, rfl, hlate⟩
    · exact h.ran x hx
  · intro o ho
    rcases List.mem_append.mp ho with ho | ho
    · obtain ⟨id, req, hbrought, hid, hlate, hanswer⟩ := sealed_in_cases ho
      obtain ⟨n, a, hn, hdevice, rfl⟩ := brought_asked h hkept hbrought
      have hcall := sealed_behind_a_run hbrought hid hlate rfl
      exact ⟨⟨device, t, a.request⟩,
        List.mem_append_left _ (List.mem_map.mpr ⟨_, hcall, rfl⟩), hanswer⟩
    · obtain ⟨x, hx, hanswer⟩ := h.sealed o ho
      exact ⟨x, hmore x hx, hanswer⟩
  · intro n a r hn
    obtain ⟨x, hx, hdid⟩ := h.answered hn
    exact ⟨x, hmore x hx, hdid⟩

/-- What lies under the response key of a call answers this call. -/
theorem sealed_answers (h : Inv s) {n : Nat} {a : Asked} (hn : s.asked n = some a)
    {o : SyncObject Body} (ho : o ∈ s.sealed) (hkey : o.key = a.res_key) :
    ∃ x ∈ s.ran, x.device = a.to_device ∧ x.req = a.request ∧
      a.request.expired x.turn.now_ms = false ∧ o ∈ answer x.device x.turn a.request := by
  obtain ⟨x, hx, hanswer⟩ := h.sealed o ho
  obtain ⟨m, b, hm, hdevice, hreq, hlate⟩ := h.ran x hx
  rw [hreq] at hanswer
  have hplain := h.plain hn
  -- of the objects of an answer, only the last one has two slashes in its key
  have hid : b.id = a.id := by
    rcases answer_key hanswer with hres | ⟨seq, hres⟩
    · exact (key_parts (h.plain hm).2.1 hplain.2.1 (hres.symm.trans hkey)).2
    · have hkeys : RES_PREFIX ++ b.device.text ++ "/" ++ (b.id ++ "/" ++ seq) =
          RES_PREFIX ++ a.device.text ++ "/" ++ a.id := by
        rw [← String.append_assoc, ← String.append_assoc]
        exact hres.symm.trans hkey
      have hsame := (key_parts (h.plain hm).2.1 hplain.2.1 hkeys).2
      exact absurd (hsame ▸ hplain.1) (not_plain_append b.id seq)
  obtain rfl := h.fresh hm hn hid
  obtain rfl := Option.some.inj (hm.symm.trans hn)
  exact ⟨x, hx, hdevice, hreq, hlate, hanswer⟩

theorem poll_did (h : Inv s) {n : Nat} {a : Asked} {expired : Bool}
    {pulled : Except Error (Option (SyncObject Body))} (hkept : Kept s (.poll n expired pulled))
    (hn : s.calls n = some (a, .waiting)) (hstream : a.stream = false) (r : Except Error Bytes)
    (hr : a.poll expired pulled = .answered r) : s.Did a r := by
  unfold Asked.poll at hr
  split at hr
  · cases hr
  · split at hr
    · cases hr
    · cases hr
    · rename_i o
      obtain ⟨hkey, ho⟩ := hkept a .waiting o hn rfl
      have hasked : s.asked n = some a := by rw [Mesh.asked, hn]; rfl
      obtain ⟨x, hx, hdevice, hreq, hlate, hanswer⟩ := sealed_answers h hasked ho hkey
      refine ⟨x, hx, hdevice, hreq, hlate, ?_⟩
      rw [← Phase.answered.inj hr]
      exact read_answer hstream hanswer

/-- A poll of a plain call goes on with this call, and changes no other. -/
theorem poll_step (h : Inv s) {n : Nat} {expired : Bool}
    {pulled : Except Error (Option (SyncObject Body))} (hkept : Kept s (.poll n expired pulled)) :
    Inv (s.step (.poll n expired pulled)) := by
  change Inv (match s.calls n with
    | some (a, .waiting) => if a.stream then s else s.put n a (a.poll expired pulled)
    | _ => s)
  split
  · rename_i a hn
    split
    · exact h
    · rename_i hstream
      refine h.put ?_ fun r hr => poll_did h hkept hn (Bool.eq_false_iff.mpr hstream) r hr
      rw [Mesh.asked, hn]
      rfl
  · exact h

theorem step_inv (act : Act) (h : Inv s) (hkept : Kept s act) : Inv (s.step act) := by
  cases act with
  | ask n a push => exact ask_step h hkept
  | turn device t => exact turn_step h hkept
  | restart device =>
    exact { fresh := h.fresh, plain := h.plain, requests := h.requests, ran := h.ran,
            sealed := h.sealed, answered := h.answered }
  | poll n expired pulled => exact poll_step h hkept

end Steps

/-- A call that reads a response gets what the handler of its peer did with its payload, whatever
the transport loses, delays and repeats, and whichever devices start anew. -/
theorem a_call_gets_what_its_peer_did (acts : List Act) (h : Along Mesh.step Kept Mesh.empty acts)
    {n : Nat} {a : Asked} {r : Except Error Bytes}
    (hn : (run Mesh.step Mesh.empty acts).calls n = some (a, .answered r)) :
    (run Mesh.step Mesh.empty acts).Did a r :=
  (invariant (fun _ act => step_inv act) inv_empty h).answered hn

def spoken : Asked :=
  { device := ⟨"phone"⟩, to_device := ⟨"desk"⟩, op := "stt", payload := [7], timeout := 30 * 10 ^ 9,
    stream := false, id := "r1", now := 0 }

/-- The desk gets the request, and hears two bytes. -/
def spoken_turn : Turn :=
  { key := spoken.key, tombstone := false,
    pulled := .ok (some
      { key := spoken.key, ciphertext := some spoken.request, version := 1, writer := ⟨"phone"⟩,
        updated_at := 0, tombstone := false })
    now_ms := 20, handler := { handle := fun _ payload => .ok (payload ++ payload),
                               handle_stream := fun _ _ => ⟨[], .closed⟩ },
    push := fun _ => .ok () }

def heard : SyncObject Body := final_object ⟨"desk"⟩ 20 spoken.request true [7, 7] none

/-- The desk starts anew and serves the request twice, behind an empty poll of the phone. -/
theorem the_phone_gets_what_the_desk_heard :
    let acts : List Act := [.ask 0 spoken (.ok ()), .poll 0 false (.ok none),
      .turn ⟨"desk"⟩ spoken_turn, .restart ⟨"desk"⟩, .turn ⟨"desk"⟩ spoken_turn,
      .poll 0 false (.ok (some heard))]
    (run Mesh.step Mesh.empty acts).Did spoken (.ok [7, 7]) := by
  have hplain : Plain "r1" ∧ Plain "phone" ∧ Plain "desk" := by
    unfold Plain
    decide
  have hturn : ∀ s : Mesh, (spoken.key, spoken.request) ∈ s.requests →
      Kept s (.turn ⟨"desk"⟩ spoken_turn) := by
    intro s hs
    refine ⟨hplain.2.2, fun o ho => ?_⟩
    obtain rfl := Option.some.inj (Except.ok.inj ho)
    refine ⟨rfl, fun req hreq => ?_⟩
    obtain rfl := Option.some.inj hreq
    exact hs
  have hsealed : heard ∈ sealed_in ⟨"desk"⟩ [] spoken_turn := List.mem_singleton_self _
  intro acts
  have hkept : Along Mesh.step Kept Mesh.empty acts := by
    refine ⟨?_, ?_, ?_, trivial, ?_, ?_, trivial⟩
    · exact ⟨rfl, hplain.1, hplain.2.1, hplain.2.2, nofun⟩
    · exact fun _ _ _ _ h => nomatch h
    · exact hturn _ (List.mem_singleton_self _)
    · exact hturn _ (List.mem_singleton_self _)
    · intro a ph o hcall ho
      obtain rfl := Option.some.inj (Except.ok.inj ho)
      obtain ⟨rfl, -⟩ := Prod.mk.inj (Option.some.inj hcall)
      exact ⟨rfl, List.mem_append_left _ hsealed⟩
  exact a_call_gets_what_its_peer_did acts hkept (n := 0) rfl

end pai_broker.rpc
