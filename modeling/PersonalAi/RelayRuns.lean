-- A relay serves its clients as the folder behind it would: the calls of clients with a valid token
-- end as if each called the folder itself, whatever comes in between from others.
import PersonalAi.FolderAtomic
import PersonalAi.Lib.Runs
import PersonalAi.RelayCalls

open pai_core text inodes runs pai_sync.keys pai_sync.folder

namespace pai_sync.relay

variable {C : Type}

/-! ## Clients at the folder -/

/-- A call that is not begun yet, under way in the folder, or over. -/
inductive SharedCall (C : Type)
  | waiting
  | begun
  | ended (reply : Reply C)
deriving DecidableEq

/-- The folder and the clients that call it themselves. -/
structure Shared (C : Type) where
  folder : State C
  calls : Nat → Option (SharedCall C)

def Shared.empty : Shared C := { folder := start, calls := fun _ => none }

def Shared.at_ (s : Shared C) (id : Nat) (call : SharedCall C) : Shared C :=
  { s with calls := Function.update s.calls id (some call) }

structure Client (C : Type) where
  transport : RelayTransport
  request : Request C

section Law
variable (wire : Wire C) (listing : Listing) (auth : List String → Option AuthCheck)
  (clients : Nat → Option (Client C))

/-- The acts of the relay without the relay: a client begins its own call where its request is
handled, and has the reply where the answer is sent. -/
def Shared.step (s : Shared C) : RelayAct → Shared C
  | .peers _ => s
  | .arrive id _ =>
    match clients id, s.calls id with
    | some _, none => s.at_ id .waiting
    | _, _ => s
  | .handle id =>
    match clients id, s.calls id with
    | some c, some .waiting =>
      { s with folder := folder.step wire s.folder (.begin_ id c.request) }.at_ id .begun
    | _, _ => s
  | .op id bytes order => { s with folder := folder.step wire s.folder (.op id bytes order) }
  | .fail id => { s with folder := folder.step wire s.folder (.fail id) }
  | .respond id =>
    match s.calls id, s.folder.calls id with
    | some .begun, some (.done reply) => s.at_ id (.ended reply)
    | _, _ => s

/-- What a client has of its call at the folder. -/
def Shared.result (s : Shared C) (id : Nat) : Option (Reply C) :=
  match s.calls id with
  | some (.ended reply) => some reply
  | _ => none

/-- What a client makes of the answer of the relay. -/
def Relay.result (s : Relay C) (id : Nat) : Option (Reply C) :=
  match clients id, s.threads id with
  | some c, some { http := _, phase := .answered r } =>
    some (RelayTransport.receive wire listing r c.request)
  | _, _ => none

/-! ## What is asked of a run -/

/-- What HTTP brings of a request: the path of the URL, and other headers beside its own. -/
structure Delivered (base : String) (sent http : HttpRequest) : Prop where
  method : http.method = sent.method
  url : sent.url = base ++ http.url
  headers : ∀ h ∈ sent.headers, h ∈ http.headers
  body : http.body = sent.body

def Ascii (key : String) : Prop := ∀ c ∈ key.toList, c.toNat < 0x80

/-- An object whose JSON is text, comes back from it, and is within the cap. -/
structure Sendable (obj : SyncObject C) : Prop where
  text : (from_utf8 (wire.to_vec obj)).isSome = true
  small : (wire.to_vec obj).length ≤ MAX_OBJ_BODY
  back : wire.from_slice (wire.to_vec obj) = some obj

/-- Keys are ASCII, which others do not come back from a URL. -/
def Plain : Request C → Prop
  | .push obj => Ascii obj.key ∧ Sendable wire obj
  | .pull key | .delete key => Ascii key
  | .list => True

/-- What the folder has to send comes back from its JSON. -/
def Readable : Reply C → Prop
  | .pulled (some obj) => wire.from_slice (wire.to_vec obj) = some obj
  | .listed out => listing.from_slice (listing.to_vec out) = some out
  | _ => True

def ValidToken (auth : Option AuthCheck) (token : Option String) : Prop :=
  ∀ check ∈ auth, ∃ t ∈ token, check t = true

/-- The requests of the clients arrive, and have a valid token where they are handled; those of
others have none. -/
def Served (s : Relay C) : RelayAct → Prop
  | .arrive id http => ∀ c ∈ clients id, Plain wire c.request ∧
    Delivered c.transport.base (c.transport.send wire c.request) http
  | .handle id =>
    match clients id with
    | some c => ValidToken (auth s.tokens) c.transport.token
    | none => ∀ t ∈ s.threads id, authorized (auth s.tokens) t.http.headers = false
  | .respond id => ∀ reply, s.folder.calls id = some (.done reply) → Readable wire listing reply
  | _ => True

end Law

/-! ## The calls of the folder -/

/-- Where a call for a request can be. -/
def OfRequest : Request C → Call C → Prop
  | _, .done .error => True
  | .push _, .push _ | .push _, .writing .. | .push _, .done .pushed => True
  | .pull _, .pull _ | .pull _, .found _ | .pull _, .done (.pulled _) => True
  | .list, .list | .list, .reading .. | .list, .done (.listed _) => True
  | .delete _, .delete _ | .delete _, .done .deleted => True
  | _, _ => False

theorem ofRequest_call (request : Request C) : OfRequest request request.call := by
  cases request with
  | push obj => trivial
  | pull key => trivial
  | list => trivial
  | delete key => trivial

theorem ofRequest_error (request : Request C) : OfRequest request (.done .error) := by
  cases request with
  | push obj => trivial
  | pull key => trivial
  | list => trivial
  | delete key => trivial

/-- A call goes from one place to another, and one that is over stays. -/
structure GoesOn (call call' : Call C) : Prop where
  kind : ∀ request, OfRequest request call → OfRequest request call'
  over_ : ∀ reply, call = .done reply → call' = call

theorem goesOn_error {call : Call C} (h : ∀ reply, call ≠ .done reply) :
    GoesOn call (.done .error) :=
  ⟨fun request _ => ofRequest_error request, fun reply heq => absurd heq (h reply)⟩

theorem goesOn_same {call : Call C} : GoesOn call call := ⟨fun _ h => h, fun _ _ => rfl⟩

section Folder
variable (wire : Wire C) {s : State C} {id : Nat}

/-- An operation of a call is about that call. -/
theorem operate_goes_on {call : Call C} (hcall : s.calls id = some call) (bytes : Nat)
    (order : List Name) : ∃ call', GoesOn call call' ∧
      (operate wire s id bytes order call).calls = Function.update s.calls id (some call') := by
  cases call with
  | push obj => exact ⟨_, ⟨by rintro (_ | _ | _ | _) h <;> trivial, nofun⟩, rfl⟩
  | writing obj inode written =>
    unfold operate
    dsimp only
    split
    · exact ⟨_, ⟨by rintro (_ | _ | _ | _) h <;> trivial, nofun⟩, rfl⟩
    · split
      · exact ⟨_, goesOn_error nofun, rfl⟩
      · exact ⟨_, ⟨by rintro (_ | _ | _ | _) h <;> trivial, nofun⟩, rfl⟩
  | pull key =>
    unfold operate
    dsimp only
    split <;> exact ⟨_, ⟨by rintro (_ | _ | _ | _) h <;> trivial, nofun⟩, rfl⟩
  | found key =>
    unfold operate
    dsimp only
    split
    · exact ⟨_, goesOn_error nofun, rfl⟩
    · exact ⟨_, ⟨by rintro (_ | _ | _ | _) h <;> trivial, nofun⟩, rfl⟩
  | list => exact ⟨_, ⟨by rintro (_ | _ | _ | _) h <;> trivial, nofun⟩, rfl⟩
  | reading entries out =>
    cases entries <;> exact ⟨_, ⟨by rintro (_ | _ | _ | _) h <;> trivial, nofun⟩, rfl⟩
  | delete key =>
    unfold operate
    dsimp only
    split <;> exact ⟨_, ⟨by rintro (_ | _ | _ | _) h <;> trivial, nofun⟩, rfl⟩
  | done reply => exact ⟨_, goesOn_same, (Function.update_eq_self_iff.mpr hcall.symm).symm⟩

/-- The calls of `s` have gone on in `s'`, and there are no others. -/
structure CallsGoOn (s s' : State C) : Prop where
  none_ : ∀ id, s.calls id = none → s'.calls id = none
  some_ : ∀ id call, s.calls id = some call → ∃ call', s'.calls id = some call' ∧ GoesOn call call'

theorem callsGoOn_same : CallsGoOn s s :=
  ⟨fun _ h => h, fun _ call h => ⟨call, h, goesOn_same⟩⟩

theorem callsGoOn_update {s' : State C} {call call' : Call C} (hcall : s.calls id = some call)
    (hgoes : GoesOn call call') (hcalls : s'.calls = Function.update s.calls id (some call')) :
    CallsGoOn s s' := by
  constructor
  · intro id' hnone
    have hne : id' ≠ id := fun heq => by simp [heq, hcall] at hnone
    rw [hcalls, Function.update_of_ne hne, hnone]
  · intro id' c hc
    by_cases hid : id' = id
    · subst hid
      obtain rfl : call = c := Option.some.inj (hcall.symm.trans hc)
      exact ⟨call', by rw [hcalls, Function.update_self], hgoes⟩
    · exact ⟨c, by rw [hcalls, Function.update_of_ne hid, hc], goesOn_same⟩

theorem op_goes_on (id bytes : Nat) (order : List Name) :
    CallsGoOn s (folder.step wire s (.op id bytes order)) := by
  unfold folder.step
  dsimp only
  rcases hcall : s.calls id with _ | call
  · exact callsGoOn_same
  · obtain ⟨call', hgoes, hcalls⟩ := operate_goes_on wire hcall bytes order
    exact callsGoOn_update hcall hgoes hcalls

theorem fail_goes_on (id : Nat) : CallsGoOn s (folder.step wire s (.fail id)) := by
  unfold folder.step
  dsimp only
  rcases hcall : s.calls id with _ | call
  · exact callsGoOn_same
  · cases call with
    | done reply => exact callsGoOn_same
    | push obj => exact callsGoOn_update hcall (goesOn_error nofun) rfl
    | writing obj inode written => exact callsGoOn_update hcall (goesOn_error nofun) rfl
    | pull key => exact callsGoOn_update hcall (goesOn_error nofun) rfl
    | found key => exact callsGoOn_update hcall (goesOn_error nofun) rfl
    | list => exact callsGoOn_update hcall (goesOn_error nofun) rfl
    | reading entries out => exact callsGoOn_update hcall (goesOn_error nofun) rfl
    | delete key => exact callsGoOn_update hcall (goesOn_error nofun) rfl

theorem begin_calls (request : Request C) (hnone : s.calls id = none) :
    (folder.step wire s (.begin_ id request)).calls =
      Function.update s.calls id (some request.call) := by
  unfold folder.step
  dsimp only
  rw [if_pos (by rw [hnone]; rfl)]
  rfl

end Folder

/-! ## What the handler makes of a client's request -/

section Handler
variable {wire : Wire C} {listing : Listing} {auth : Option AuthCheck}

theorem authorized_of_token {token : Option String} {headers : List (String × String)}
    (hvalid : ValidToken auth token)
    (hheaders : ∀ t ∈ token, ("authorization", "Bearer " ++ t) ∈ headers) :
    authorized auth headers = true := by
  cases auth with
  | none => rfl
  | some check =>
    obtain ⟨t, ht, hcheck⟩ := hvalid check rfl
    refine List.any_eq_true.mpr ⟨_, hheaders t ht, ?_⟩
    rw [strip_prefix_append]
    simp [eq_ignore_ascii_case, hcheck]

theorem decoded_key_urlenc {key : String} (h : Ascii key) : decoded_key (urlenc key) = some key := by
  unfold decoded_key
  rw [(urldec_urlenc key).mpr h, Option.bind_some, utf8_eq_encode, from_utf8_encode, Option.map_some,
    String.ofList_toList]

/-- A path without a query. -/
theorem first_part_free {c : Char} {s : String} (h : c ∉ s.toList) : first_part c s = s := by
  unfold first_part
  rw [List.takeWhile_eq_self_iff.mpr, String.ofList_toList]
  intro x hx
  exact decide_eq_true fun heq => h (heq ▸ hx)

theorem question_free_urlenc (key : String) : '?' ∉ (urlenc key).toList := by
  unfold urlenc
  rw [String.toList_ofList, List.mem_flatMap]
  rintro ⟨c, -, hc⟩
  unfold urlenc_char at hc
  split at hc
  · rename_i hplain
    rw [← List.mem_singleton.mp hc] at hplain
    exact absurd hplain (by decide)
  · obtain ⟨k, hk, l, hl, more, hhex, hdigits, -⟩ := hex02_two c.toNat
    have hdigit : ∀ j < 16, '?' ≠ Nat.digitChar j := by decide
    rw [hhex] at hc
    simp only [List.mem_cons, hdigit k hk, hdigit l hl, false_or] at hc
    rcases hc with hc | hc
    · exact absurd hc (by decide)
    · obtain ⟨j, hj, heq⟩ := hdigits _ hc
      exact hdigit j hj heq

theorem first_part_url (key : String) :
    first_part '?' ( key_prefix ++ urlenc key) = key_prefix ++ urlenc key := by
  refine first_part_free ?_
  rw [String.toList_append, List.mem_append, not_or]
  exact ⟨by decide, question_free_urlenc key⟩

theorem not_list_url (key : String) : key_prefix ++ urlenc key ≠ "/v1/objects" := by
  intro h
  have hlength := congrArg (fun s => s.toList.length) h
  rw [String.toList_append, List.length_append] at hlength
  have : key_prefix.toList.length = 12 := by decide
  have : "/v1/objects".toList.length = 11 := by decide
  omega

theorem put_sendable {obj : SyncObject C} (h : Sendable wire obj) :
    put wire (wire.to_vec obj) obj.key = .call (.push obj) := by
  have htake : (wire.to_vec obj).take (MAX_OBJ_BODY + 1) = wire.to_vec obj :=
    List.take_of_length_le (h.small.trans (Nat.le_succ _))
  unfold put
  dsimp only
  rw [htake, Option.isNone_eq_false_iff.mpr h.text, if_neg Bool.false_ne_true,
    if_neg (Nat.not_lt.mpr h.small), h.back]
  dsimp only
  rw [if_neg (fun hne => hne rfl)]

variable {t : RelayTransport} {request : Request C} {http : HttpRequest}

theorem delivered_path {method path : String} {headers : List (String × String)} {body : Bytes}
    (h : Delivered t.base (t.req method (t.base ++ path) headers body) http) : http.url = path := by
  have hchars := congrArg String.toList h.url
  simp only [RelayTransport.req, String.toList_append] at hchars
  exact (String.toList_inj.mp (List.append_cancel_left hchars)).symm

theorem delivered_token {method url : String} {headers : List (String × String)} {body : Bytes}
    (h : Delivered t.base (t.req method url headers body) http) (token : String)
    (htoken : token ∈ t.token) : ("authorization", "Bearer " ++ token) ∈ http.headers := by
  refine h.headers _ (List.mem_append_left _ ?_)
  exact Option.mem_toList.mpr (Option.mem_map_of_mem _ htoken)

/-- The path of a key, which is read back. -/
theorem handle_key {method : String} {headers : List (String × String)} {body : Bytes} {key : String}
    (hkey : Ascii key) (hvalid : ValidToken auth t.token)
    (h : Delivered t.base (t.req method (RelayTransport.url t.base key) headers body) http) :
    handle wire auth http =
      if method = "GET" then .call (.pull key)
      else if method = "PUT" then put wire body key
      else if method = "DELETE" then .call (.delete key)
      else .respond not_found := by
  have hurl : RelayTransport.url t.base key = t.base ++ ( key_prefix ++ urlenc key) :=
    String.append_assoc
  rw [hurl] at h
  unfold handle
  rw [authorized_of_token hvalid (delivered_token h), if_pos rfl, delivered_path h, first_part_url,
    if_neg (fun hlist => not_list_url key hlist.2), strip_prefix_append]
  dsimp only
  rw [h.method, h.body]
  simp only [with_key, decoded_key_urlenc hkey, RelayTransport.req]

/-- A client's request is handled as its own call of the folder. -/
theorem handle_delivered (hplain : Plain wire request) (hvalid : ValidToken auth t.token)
    (h : Delivered t.base (t.send wire request) http) : handle wire auth http = .call request := by
  cases request with
  | list =>
    unfold handle
    rw [authorized_of_token hvalid (delivered_token h), if_pos rfl, delivered_path h, h.method]
    exact if_pos ⟨rfl, by decide⟩
  | pull key => exact (handle_key hplain hvalid h).trans (if_pos rfl)
  | delete key =>
    refine (handle_key hplain hvalid h).trans ?_
    rw [if_neg (by decide), if_neg (by decide), if_pos rfl]
  | push obj =>
    refine (handle_key hplain.1 hvalid h).trans ?_
    rw [if_neg (by decide), if_pos rfl, put_sendable hplain.2]

/-- The answer is read as the reply of the folder. -/
theorem receive_respond {reply : Reply C} (hkind : OfRequest request (.done reply))
    (hreadable : Readable wire listing reply) :
    RelayTransport.receive wire listing (relay.respond wire listing reply) request = reply := by
  cases reply with
  | error => cases request <;> rfl
  | pushed =>
    cases request with
    | push obj => rfl
    | _ => exact hkind.elim
  | deleted =>
    cases request with
    | delete key => rfl
    | _ => exact hkind.elim
  | listed out =>
    cases request with
    | list =>
      have hback : listing.from_slice (listing.to_vec out) = some out := hreadable
      simp [relay.respond, RelayTransport.receive, Response.is_success, hback]
    | _ => exact hkind.elim
  | pulled found =>
    cases request with
    | pull key =>
      cases found with
      | none => rfl
      | some obj =>
        have hback : wire.from_slice (wire.to_vec obj) = some obj := hreadable
        simp [relay.respond, RelayTransport.receive, Response.is_success, hback]
    | _ => exact hkind.elim

end Handler

/-! ## The relay beside the folder -/

section Law
variable {wire : Wire C} {listing : Listing} {auth : List String → Option AuthCheck}
  {clients : Nat → Option (Client C)} {s : Relay C} {d : Shared C}

/-- Where the call of a client is on both sides: its thread, the call itself and that of the folder. -/
inductive Matches (wire : Wire C) (listing : Listing) (c : Client C) :
    Option Thread → Option (SharedCall C) → Option (Call C) → Prop
  | none_ : Matches wire listing c none none none
  | arrived {http : HttpRequest} (hplain : Plain wire c.request)
      (hdelivered : Delivered c.transport.base (c.transport.send wire c.request) http) :
      Matches wire listing c (some { http, phase := .arrived }) (some .waiting) none
  | waits {http : HttpRequest} {call : Call C} (hkind : OfRequest c.request call) :
      Matches wire listing c (some { http, phase := .waits }) (some .begun) (some call)
  | answered {http : HttpRequest} {r : Response} {reply : Reply C} {call : Call C}
      (hreads : RelayTransport.receive wire listing r c.request = reply) :
      Matches wire listing c (some { http, phase := .answered r }) (some (.ended reply)) (some call)

/-- A request of another waits for no call. -/
structure Idle (thread : Option Thread) (shared : Option (SharedCall C)) (call : Option (Call C)) :
    Prop where
  shared : shared = none
  call : call = none
  thread : ∀ t ∈ thread, t.phase ≠ .waits

/-- One folder, and the clients are as far. -/
structure Same (wire : Wire C) (listing : Listing) (clients : Nat → Option (Client C)) (s : Relay C)
    (d : Shared C) : Prop where
  folder : s.folder = d.folder
  client : ∀ id c, clients id = some c →
    Matches wire listing c (s.threads id) (d.calls id) (s.folder.calls id)
  other : ∀ id, clients id = none → Idle (s.threads id) (d.calls id) (s.folder.calls id)

theorem Matches.goes_on {c : Client C} {thread : Option Thread} {shared : Option (SharedCall C)}
    {call call' : Option (Call C)} (h : Matches wire listing c thread shared call)
    (hnone : call = none → call' = none)
    (hsome : ∀ x, call = some x → ∃ x', call' = some x' ∧ GoesOn x x') :
    Matches wire listing c thread shared call' := by
  cases h with
  | none_ =>
    rw [hnone rfl]
    exact .none_
  | arrived hplain hdelivered =>
    rw [hnone rfl]
    exact .arrived hplain hdelivered
  | waits hkind =>
    obtain ⟨x', rfl, hgoes⟩ := hsome _ rfl
    exact .waits (hgoes.kind _ hkind)
  | answered hreads =>
    obtain ⟨x', rfl, -⟩ := hsome _ rfl
    exact .answered hreads

/-- The operations of the folder are the same on both sides. -/
theorem same_folder {folder' : State C} (h : Same wire listing clients s d)
    (hgoes : CallsGoOn s.folder folder') :
    Same wire listing clients { s with folder := folder' } { d with folder := folder' } where
  folder := rfl
  client id c hc := (h.client id c hc).goes_on (hgoes.none_ id) (hgoes.some_ id)
  other id hid :=
    let idle := h.other id hid
    { shared := idle.shared, call := hgoes.none_ id idle.call, thread := idle.thread }

/-- A client goes on on both sides. -/
theorem same_at {folder' : State C} {id : Nat} {c : Client C} {t : Thread} {call : SharedCall C}
    (h : Same wire listing clients s d) (hc : clients id = some c)
    (hfolder : ∀ id', id' ≠ id → folder'.calls id' = s.folder.calls id')
    (hmatches : Matches wire listing c (some t) (some call) (folder'.calls id)) :
    Same wire listing clients ({ s with folder := folder' }.at_ id t)
      ({ d with folder := folder' }.at_ id call) := by
  refine ⟨rfl, fun id' c' hc' => ?_, fun id' hid' => ?_⟩
  · simp only [Relay.at_, Shared.at_]
    by_cases hid : id' = id
    · subst hid
      obtain rfl : c = c' := Option.some.inj (hc.symm.trans hc')
      rw [Function.update_self, Function.update_self]
      exact hmatches
    · rw [Function.update_of_ne hid, Function.update_of_ne hid, hfolder id' hid]
      exact h.client id' c' hc'
  · have hid : id' ≠ id := fun heq => by simp [heq, hc] at hid'
    have hidle := h.other id' hid'
    simp only [Relay.at_, Shared.at_]
    rw [Function.update_of_ne hid, Function.update_of_ne hid, hfolder id' hid]
    exact hidle

/-- A request of another goes on at the relay. -/
theorem same_idle {id : Nat} {t : Thread} (h : Same wire listing clients s d)
    (hid : clients id = none) (ht : t.phase ≠ .waits) :
    Same wire listing clients (s.at_ id t) d := by
  refine ⟨h.folder, fun id' c' hc' => ?_, fun id' hid' => ?_⟩
  · have hne : id' ≠ id := fun heq => by simp [heq, hid] at hc'
    simp only [Relay.at_]
    rw [Function.update_of_ne hne]
    exact h.client id' c' hc'
  · have hidle := h.other id' hid'
    refine ⟨hidle.shared, hidle.call, fun t' ht' => ?_⟩
    simp only [Relay.at_] at ht'
    by_cases hne : id' = id
    · rw [hne, Function.update_self] at ht'
      obtain rfl : t = t' := Option.some.inj ht'
      exact ht
    · rw [Function.update_of_ne hne] at ht'
      exact hidle.thread t' ht'

theorem arrive_same {id : Nat} {http : HttpRequest} (h : Same wire listing clients s d)
    (hserved : Served wire listing auth clients s (.arrive id http)) :
    Same wire listing clients (s.step wire listing auth (.arrive id http))
      (d.step wire clients (.arrive id http)) := by
  obtain ⟨folder, calls⟩ := d
  obtain rfl : s.folder = folder := h.folder
  unfold Relay.step Shared.step
  dsimp only
  rcases hc : clients id with _ | c
  · rcases s.threads id with _ | t
    · exact same_idle h hc nofun
    · exact h
  · obtain ⟨hplain, hdelivered⟩ := hserved c hc
    have hmatches := h.client id c hc
    dsimp only at hmatches ⊢
    generalize hthread : s.threads id = thread at hmatches
    generalize hcall : calls id = call at hmatches ⊢
    generalize hfolder : s.folder.calls id = fcall at hmatches
    cases hmatches with
    | none_ => exact same_at h hc (fun _ _ => rfl) (hfolder ▸ .arrived hplain hdelivered)
    | arrived => exact h
    | waits => exact h
    | answered => exact h

theorem handle_same {id : Nat} (h : Same wire listing clients s d)
    (hserved : Served wire listing auth clients s (.handle id)) :
    Same wire listing clients (s.step wire listing auth (.handle id))
      (d.step wire clients (.handle id)) := by
  obtain ⟨folder, calls⟩ := d
  obtain rfl : s.folder = folder := h.folder
  unfold Relay.step Shared.step
  unfold Served at hserved
  dsimp only at hserved ⊢
  rcases hc : clients id with _ | c
  · rw [hc] at hserved
    dsimp only at hserved ⊢
    rcases hthread : s.threads id with _ | ⟨http, phase⟩
    · exact h
    · cases phase with
      | arrived =>
        have hrefused : handle wire (auth s.tokens) http =
            .respond { status := 401, body := .error "unauthorized" } := by
          unfold handle
          rw [hserved _ hthread]
          rfl
        dsimp only
        rw [hrefused]
        exact same_idle h hc nofun
      | waits => exact h
      | answered r => exact h
      | panicked => exact h
  · rw [hc] at hserved
    have hmatches := h.client id c hc
    dsimp only at hmatches hserved ⊢
    generalize hthread : s.threads id = thread at hmatches ⊢
    generalize hcall : calls id = call at hmatches ⊢
    generalize hfolder : s.folder.calls id = fcall at hmatches
    cases hmatches with
    | none_ => exact h
    | arrived hplain hdelivered =>
      dsimp only
      rw [handle_delivered hplain hserved hdelivered]
      have hcalls := begin_calls wire c.request hfolder
      refine same_at h hc (fun id' hid => ?_) ?_
      · rw [hcalls, Function.update_of_ne hid]
      · rw [hcalls, Function.update_self]
        exact .waits (ofRequest_call c.request)
    | waits => exact h
    | answered => exact h

theorem respond_same {id : Nat} (h : Same wire listing clients s d)
    (hserved : Served wire listing auth clients s (.respond id)) :
    Same wire listing clients (s.step wire listing auth (.respond id))
      (d.step wire clients (.respond id)) := by
  obtain ⟨folder, calls⟩ := d
  obtain rfl : s.folder = folder := h.folder
  unfold Relay.step Shared.step
  dsimp only
  rcases hc : clients id with _ | c
  · have hidle := h.other id hc
    rw [hidle.call]
    dsimp only at hidle ⊢
    rw [hidle.shared]
    rcases s.threads id with _ | ⟨http, _ | _ | _ | _⟩ <;> exact h
  · have hmatches := h.client id c hc
    dsimp only at hmatches ⊢
    generalize hthread : s.threads id = thread at hmatches ⊢
    generalize hcall : calls id = call at hmatches ⊢
    generalize hfolder : s.folder.calls id = fcall at hmatches ⊢
    cases hmatches with
    | none_ => exact h
    | arrived => exact h
    | @waits http fcall hkind =>
      cases fcall with
      | done reply =>
        refine same_at h hc (fun _ _ => rfl) ?_
        rw [hfolder]
        exact .answered (receive_respond hkind (hserved reply hfolder))
      | _ => exact h
    | answered => exact h

theorem step_same (h : Same wire listing clients s d) (a : RelayAct)
    (hserved : Served wire listing auth clients s a) :
    Same wire listing clients (s.step wire listing auth a) (d.step wire clients a) := by
  cases a with
  | peers tokens => exact ⟨h.folder, h.client, h.other⟩
  | arrive id http => exact arrive_same h hserved
  | handle id => exact handle_same h hserved
  | op id bytes order =>
    have hsame := same_folder h (op_goes_on wire id bytes order)
    unfold Relay.step Shared.step
    rw [← h.folder]
    exact hsame
  | fail id =>
    have hsame := same_folder h (fail_goes_on wire id)
    unfold Relay.step Shared.step
    rw [← h.folder]
    exact hsame
  | respond id => exact respond_same h hserved

theorem empty_same : Same wire listing clients Relay.empty Shared.empty where
  folder := rfl
  client _ _ _ := .none_
  other _ _ := ⟨rfl, rfl, nofun⟩

/-- What a client has is the same on both sides. -/
theorem same_result (h : Same wire listing clients s d) (id : Nat) :
    s.result wire listing clients id = if (clients id).isSome then d.result id else none := by
  unfold Relay.result Shared.result
  rcases hc : clients id with _ | c
  · rfl
  · have hmatches := h.client id c hc
    generalize s.threads id = thread at hmatches ⊢
    generalize d.calls id = call at hmatches ⊢
    generalize s.folder.calls id = fcall at hmatches
    cases hmatches with
    | none_ => rfl
    | arrived => rfl
    | waits => rfl
    | answered hreads => exact congrArg some hreads

end Law

def pusher : Client Bytes :=
  { transport := RelayTransport.new "http://127.0.0.1:7900/" (some "5eed") none
    request := .push sample }

def pushed_request : HttpRequest :=
  { method := "PUT", url := "/v1/objects/memory%2f1"
    headers := [("host", "127.0.0.1:7900"), ("authorization", "Bearer 5eed"),
      ("Content-Type", "application/json")]
    body := sample_text }

def guessed_request : HttpRequest :=
  { method := "DELETE", url := "/v1/objects/memory%2f1", headers := [("authorization", "Bearer 0")]
    body := [] }

def sample_listing : Listing := { to_vec := fun _ => [], from_slice := fun _ => none }

def one_client (id : Nat) : Option (Client Bytes) := if id = 0 then some pusher else none

theorem pushed_request_arrives :
    Delivered pusher.transport.base (pusher.transport.send sample_wire pusher.request)
      pushed_request := by
  have hurl : pusher.transport.base ++ pushed_request.url =
      (pusher.transport.send sample_wire pusher.request).url := by decide +kernel
  refine ⟨rfl, hurl.symm, fun h hin => ?_, rfl⟩
  have hheaders : (pusher.transport.send sample_wire pusher.request).headers =
      [("authorization", "Bearer 5eed"), ("Content-Type", "application/json")] := by decide +kernel
  rw [hheaders] at hin
  exact List.mem_cons_of_mem _ hin

section Runs
variable {wire : Wire C} {listing : Listing} {auth : List String → Option AuthCheck}
  {clients : Nat → Option (Client C)} {s : Relay C} {id : Nat}

theorem served_client {c : Client C} (hc : clients id = some c) {tokens : List String}
    (htokens : s.tokens = tokens) (hvalid : ValidToken (auth tokens) c.transport.token) :
    Served wire listing auth clients s (.handle id) := by
  unfold Served
  dsimp only
  rw [hc, htokens]
  exact hvalid

theorem served_stranger (hc : clients id = none)
    (hrefused : ((s.threads id).all fun t => !authorized (auth s.tokens) t.http.headers) = true) :
    Served wire listing auth clients s (.handle id) := by
  unfold Served
  dsimp only
  rw [hc]
  intro t ht
  rw [Option.mem_def.mp ht] at hrefused
  exact Bool.not_eq_true' _ ▸ hrefused

theorem served_pushed (hcall : s.folder.calls id = some (.done .pushed)) :
    Served wire listing auth clients s (.respond id) := by
  intro reply hreply
  cases hcall.symm.trans hreply
  trivial

end Runs

end pai_sync.relay
