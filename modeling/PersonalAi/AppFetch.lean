-- The network of sandboxed apps (pai-apps run.rs): the call that sends a request for a guest, the gate
-- in front of it, and the one number that the guest gets back.
import PersonalAi.Lib.Hosts
import PersonalAi.Lib.Json
import PersonalAi.Lib.SortedMap

open text hosts json sorted_map

namespace pai_apps.fetch

/-! ## Requests -/

structure FetchReq where
  method : String
  url : String
  headers : List (String × String)
  body_b64 : String

/-- What is read of a URL. -/
structure Url where
  scheme : String
  host_str : Option String
deriving DecidableEq

def Url.host (url : Url) : List Char := (url.host_str.getD "").toList

structure Request where
  method : String
  url : Url
  headers : List (String × String)
  body : Option Bytes
deriving DecidableEq

/-- A response, with the headers that are text, and of the body what arrives. -/
structure Response where
  status : UInt16
  headers : List (String × Option String)
  body : Bytes

/-- Building a blocking client panics on a thread of an asynchronous runtime. -/
inductive Client
  | built
  | failed
  | panics
deriving DecidableEq

/-- What comes from other crates, and from the network. -/
structure Net where
  from_slice : Bytes → Option FetchReq
  parse : String → Option Url
  method_from_bytes : String → Option String
  valid_header : String × String → Bool
  decode : String → Option Bytes
  encode : Bytes → String
  client : Client
  send : Request → Except String Response

structure Host where
  outbound : Bool
  allowed_hosts : List String

/-! ## The gate -/

def lower (s : List Char) : List Char := s.map Char.toLower

/-- `*.example.com` matches `a.example.com` and `example.com`; a bare pattern matches exactly. -/
def host_match (pattern : String) (host : List Char) : Bool :=
  match pattern.toList with
  | '*' :: '.' :: suffix =>
    decide (lower host = lower suffix) || ('.' :: lower suffix).isSuffixOf (lower host)
  | pattern => decide (lower host = lower pattern)

def begins_127 (host : List Char) : Bool := "127.".toList.isPrefixOf host

def scheme_ok (url : Url) : Bool :=
  decide (url.scheme = "https") ||
    (decide (url.scheme = "http") &&
      (decide (url.host = "localhost".toList) || decide (url.host = "::1".toList) ||
        begins_127 url.host))

def allowed (host : Host) (url : Url) : Bool :=
  host.outbound && host.allowed_hosts.any (fun h => host_match h url.host) && scheme_ok url

/-! ## The memory of the guest -/

/-- Linear memory has at most 65536 pages. -/
structure Memory where
  data : Bytes
  pages : data.length ≤ 65536 * 65536

structure Args where
  req_ptr : Int32
  req_len : Int32
  resp_ptr : Int32
  resp_cap : Int32

/-- `as usize`, which extends the sign. -/
def as_usize (i : Int32) : Nat := (i.toInt % 2 ^ 64).toNat

/-- The range of `get` from `start`, with an end that saturates. -/
def range (mem : Memory) (start len : Nat) : Option (Nat × Nat) :=
  let stop := min (start + len) (2 ^ 64 - 1)
  if start ≤ stop ∧ stop ≤ mem.data.length then some (start, stop) else none

def get (mem : Memory) (start len : Nat) : Option Bytes :=
  (range mem start len).map fun r => (mem.data.take r.2).drop r.1

/-! ## The call -/

def FETCH_ERR_DENIED : Int32 := -2
def FETCH_ERR_TRANSPORT : Int32 := -3
def FETCH_ERR_BAD_REQ : Int32 := -4
def FETCH_ERR_NO_MEM : Int32 := -5

def BODY_CAP : Nat := 4 * 1024 * 1024

/-- What a call comes to: so many bytes in the buffer, an error, or the size that is needed. -/
inductive Verdict
  | wrote (n : Nat)
  | error (code : Int32)
  | needed (n : Nat)
deriving DecidableEq

/-- A call that has returned. The verdict is what the number stands for. -/
structure Done where
  ret : Int32
  verdict : Verdict
  sent : List Request
  written : Option (Nat × Bytes)
  log : List String
deriving DecidableEq

def failed (code : Int32) (sent : List Request) (log : List String) : Done :=
  { ret := code, verdict := .error code, sent, written := none, log }

section Call
variable (net : Net) (host : Host) (a : Args)

/-- The request as it is read from the memory. -/
def asked (mem : Memory) : Option (FetchReq × Url) :=
  ((get mem (as_usize a.req_ptr) (as_usize a.req_len)).bind net.from_slice).bind fun freq =>
    (net.parse freq.url).map fun url => (freq, url)

/-- The body, if it can be decoded and is not too long. -/
def body_of (freq : FetchReq) : Option (Option Bytes) :=
  if freq.body_b64 = "" then some none
  else ((net.decode freq.body_b64).filter fun body => body.length ≤ BODY_CAP).map some

def request (freq : FetchReq) (url : Url) (body : Option Bytes) : Request :=
  { method := (net.method_from_bytes freq.method).getD "GET"
    url, headers := freq.headers.filter net.valid_header, body }

/-- The headers that are text, in the order of their names; of equal names the last one counts. -/
def header_map (headers : List (String × Option String)) : List (String × Value) :=
  (tabulate (headers.map Prod.fst) fun k =>
    (headers.filterMap fun h => h.2.map fun v => (h.1, Value.string v)).reverse.lookup k).entries

def reply (resp : Response) : Bytes :=
  utf8 (Value.object
    [("body_b64", .string (net.encode (resp.body.take BODY_CAP))),
      ("headers", .object (header_map resp.headers)),
      ("status", .number (.PosInt resp.status.toNat))]).to_string

/-- The end of the call. It is `none` where the negation overflows. -/
def answer (mem : Memory) (out : Bytes) (sent : List Request) (log : List String) : Option Done :=
  if as_usize a.resp_cap < out.length then
    let needed := Int32.ofNat out.length
    if needed = Int32.minValue then none
    else some { ret := -needed, verdict := .needed out.length, sent, written := none, log }
  else
    match range mem (as_usize a.resp_ptr) out.length with
    | some (start, _) =>
      some { ret := Int32.ofNat out.length, verdict := .wrote out.length, sent,
             written := some (start, out), log }
    | none => some (failed FETCH_ERR_NO_MEM sent log)

/-- `none` is a panic. -/
def host_fetch (mem : Option Memory) : Option Done :=
  match mem with
  | none => some (failed FETCH_ERR_NO_MEM [] [])
  | some mem =>
    match asked net a mem with
    | none => some (failed FETCH_ERR_BAD_REQ [] [])
    | some (freq, url) =>
      let line := freq.method ++ " " ++ freq.url
      if !allowed host url then some (failed FETCH_ERR_DENIED [] ["DENIED " ++ line])
      else
        match net.client with
        | .panics => none
        | .failed => some (failed FETCH_ERR_TRANSPORT [] [])
        | .built =>
          match body_of net freq with
          | none => some (failed FETCH_ERR_BAD_REQ [] [])
          | some body =>
            let req := request net freq url body
            match net.send req with
            | .error e => some (failed FETCH_ERR_TRANSPORT [req] ["ERROR " ++ line ++ " — " ++ e])
            | .ok resp =>
              answer a mem (reply net resp) [req] [line ++ " → " ++ toString resp.status]

end Call

/-! ## What is wanted -/

/-- The host is what the pattern says, or the labels of its domain end the host. -/
def Covers (pattern : String) (host : List Char) : Prop :=
  lower host = lower pattern.toList ∨ ∃ domain, pattern.toList = '*' :: '.' :: domain ∧
    (lower domain).splitOn '.' <:+ (lower host).splitOn '.'

/-- A loopback address, as texts or URLs have it, or its name. -/
def IsLoopback (host : List Char) : Prop :=
  host ∈ ["localhost".toList, "::1".toList, "[::1]".toList] ∨
    ∃ v ∈ parse_ipv4 host, v.is_loopback = true

def Permitted (host : Host) (url : Url) : Prop :=
  host.outbound = true ∧ (∃ pattern ∈ host.allowed_hosts, Covers pattern url.host) ∧
    (url.scheme = "https" ∨ IsLoopback url.host)

/-- The bytes are in the buffer that the guest gave. -/
def Inside (a : Args) (w : Nat × Bytes) : Prop :=
  a.resp_ptr.toInt ≤ w.1 ∧ (w.1 + w.2.length : Int) ≤ a.resp_ptr.toInt + a.resp_cap.toInt

/-- How a guest reads the number. -/
def reads (ret : Int32) : Verdict :=
  if 0 ≤ ret.toInt then .wrote ret.toInt.toNat
  else if -9 ≤ ret.toInt then .error ret
  else .needed (-ret.toInt).toNat

/-- The call returns, has sent at most one request, and that where it may, has written in the buffer
only, and tells what has come of it. -/
def InScope (host : Host) (a : Args) (o : Option Done) : Prop :=
  ∃ d ∈ o, d.sent.length ≤ 1 ∧ (∀ r ∈ d.sent, Permitted host r.url) ∧
    (∀ w ∈ d.written, Inside a w) ∧ reads d.ret = d.verdict

/-! ## When it holds -/

section Condition
variable (net : Net) (host : Host) (a : Args) (mem : Memory)

/-- The request that goes out, if one does. -/
def outgoing : Option Request :=
  (asked net a mem).bind fun (freq, url) =>
    if allowed host url && decide (net.client = .built) then
      (body_of net freq).map (request net freq url)
    else none

/-- An answer of this length can be told: it is short, or it is not longer than a buffer that has a
size, or there is no room for it. -/
def Tellable (n : Nat) : Prop :=
  (as_usize a.resp_cap < n → n < 2 ^ 31) ∧
    (n ≤ as_usize a.resp_cap → a.resp_cap.toInt < 0 → range mem (as_usize a.resp_ptr) n = none)

structure Fits : Prop where
  client : ∀ freq url, asked net a mem = some (freq, url) → allowed host url = true →
    net.client ≠ .panics
  address : ∀ r ∈ outgoing net host a mem, r.url.scheme ≠ "https" → begins_127 r.url.host = true →
    parse_ipv4 r.url.host ≠ none
  tellable : ∀ r ∈ outgoing net host a mem, ∀ resp, net.send r = .ok resp →
    Tellable a mem (reply net resp).length

end Condition

/-! ## The gate -/

section Gate
variable {host : Host} {url : Url}

theorem host_match_covers {pattern : String} {h : List Char} (hmatch : host_match pattern h = true) :
    Covers pattern h := by
  unfold host_match at hmatch
  split at hmatch
  · rename_i suffix hpattern
    rw [Bool.or_eq_true, decide_eq_true_eq, List.isSuffixOf_iff_suffix] at hmatch
    refine .inr ⟨suffix, hpattern, ?_⟩
    rcases hmatch with hsame | ⟨sub, hsub⟩
    · rw [hsame]
    · rw [← hsub, List.splitOn_append_cons_self]
      exact List.suffix_append _ _
  · exact .inl (of_decide_eq_true hmatch)

/-- An IPv4 address whose text begins with `127.` is a loopback address. -/
theorem loopback_of_127 {h : List Char} {v : Ipv4Addr} (hbegins : begins_127 h = true)
    (hv : parse_ipv4 h = some v) : v.is_loopback = true := by
  obtain ⟨rest, rfl⟩ := List.isPrefixOf_iff_prefix.mp hbegins
  have hsplit : ("127.".toList ++ rest).splitOn '.' = "127".toList :: rest.splitOn '.' :=
    List.splitOn_append_cons_self_of_not_mem (by decide : '.' ∉ "127".toList) rest
  have hoctet : parse_octet "127".toList = some 127 := by decide
  unfold parse_ipv4 at hv
  rw [hsplit, List.mapM_cons, hoctet] at hv
  split at hv
  · rename_i a b c d hall
    obtain ⟨first, hfirst, hrest⟩ := Option.bind_eq_some_iff.mp hall
    obtain ⟨others, -, heq⟩ := Option.bind_eq_some_iff.mp hrest
    obtain ⟨rfl, -⟩ := List.cons.inj (Option.some.inj heq)
    cases hfirst
    cases hv
    rfl
  · cases hv

/-- What the gate lets through is permitted, unless it is no address but begins like one. -/
theorem permitted_iff (h : allowed host url = true) : Permitted host url ↔
    (url.scheme ≠ "https" → begins_127 url.host = true → parse_ipv4 url.host ≠ none) := by
  simp only [allowed, Bool.and_eq_true, List.any_eq_true] at h
  obtain ⟨⟨hout, pattern, hpattern, hmatch⟩, hscheme⟩ := h
  constructor
  · rintro ⟨-, -, hsafe⟩ hhttp hbegins hnone
    rcases hsafe.resolve_left hhttp with hname | ⟨v, hv, -⟩
    · simp only [List.mem_cons, List.not_mem_nil, or_false] at hname
      rcases hname with hname | hname | hname
      all_goals
        rw [hname] at hbegins
        revert hbegins
        decide
    · rw [hnone] at hv
      cases hv
  · intro haddress
    refine ⟨hout, ⟨pattern, hpattern, host_match_covers hmatch⟩, ?_⟩
    by_cases hhttps : url.scheme = "https"
    · exact .inl hhttps
    · simp only [scheme_ok, hhttps, decide_false, Bool.false_or, Bool.and_eq_true, Bool.or_eq_true,
        decide_eq_true_eq] at hscheme
      refine .inr ?_
      rcases hscheme.2 with (hname | hname) | hbegins
      · exact .inl (by simp [hname])
      · exact .inl (by simp [hname])
      · obtain ⟨v, hv⟩ := Option.ne_none_iff_exists'.mp (haddress hhttps hbegins)
        exact .inr ⟨v, hv, loopback_of_127 hbegins hv⟩

end Gate

/-! ## The number -/

section Number
variable {n : Nat}

theorem reads_ofNat (h : n < 2 ^ 31) : reads (Int32.ofNat n) = .wrote n := by
  have hval : (Int32.ofNat n).toInt = n := Int32.toInt_ofNat_of_lt h
  simp [reads, hval]

/-- The negation is the size that is needed, as long as this is a positive `i32`. -/
theorem reads_neg (hlow : 10 ≤ n) (hne : Int32.ofNat n ≠ Int32.minValue) :
    reads (-Int32.ofNat n) = .needed n ↔ n < 2 ^ 31 := by
  have hval : (Int32.ofNat n).toInt = (n : Int).bmod (2 ^ 32) := Int32.toInt_ofNat'
  have hmin : (Int32.ofNat n).toInt ≠ -2 ^ 31 := fun h => hne (Int32.toInt_inj.mp h)
  have hneg : (-Int32.ofNat n).toInt = -(Int32.ofNat n).toInt := by
    rw [Int32.toInt_neg]
    have := Int32.le_toInt (Int32.ofNat n)
    have := Int32.toInt_lt (Int32.ofNat n)
    exact Int.bmod_eq_of_le (by omega) (by omega)
  constructor
  · intro hreads
    unfold reads at hreads
    split at hreads
    · cases hreads
    · split at hreads
      · cases hreads
      · injection hreads with hn
        have := Int32.toInt_lt (Int32.ofNat n)
        omega
  · intro hlt
    have hn : (Int32.ofNat n).toInt = n := Int32.toInt_ofNat_of_lt hlt
    rw [hn] at hneg
    unfold reads
    rw [hneg, if_neg (by omega), if_neg (by omega), Int.neg_neg, Int.toNat_natCast]

theorem as_usize_nonneg {i : Int32} (h : 0 ≤ i.toInt) : as_usize i = i.toInt.toNat := by
  have := Int32.toInt_lt i
  unfold as_usize
  rw [Int.emod_eq_of_lt h (by omega)]

/-- A negative number becomes a size beyond every memory. -/
theorem as_usize_neg {i : Int32} (h : i.toInt < 0) : 2 ^ 64 - 2 ^ 31 ≤ as_usize i := by
  have := Int32.le_toInt i
  unfold as_usize
  rw [← Int.add_emod_right, Int.emod_eq_of_lt (by omega) (by omega)]
  omega

end Number

section Answer
variable {host : Host} {a : Args} {mem : Memory} {out : Bytes} {sent : List Request}
  {log : List String}

theorem range_some {start n : Nat} {r : Nat × Nat} (h : range mem start n = some r) :
    r.1 = start ∧ start + n ≤ 2 ^ 32 := by
  have hpages := mem.pages
  dsimp only [range] at h
  split at h
  · cases h
    exact ⟨rfl, by omega⟩
  · cases h

theorem tellable_of_lt {n : Nat} (h : as_usize a.resp_cap < n) :
    Tellable a mem n ↔ n < 2 ^ 31 :=
  ⟨fun htell => htell.1 h, fun hlt => ⟨fun _ => hlt, fun hle => absurd h (Nat.not_lt.mpr hle)⟩⟩

theorem tellable_of_le {n : Nat} (h : ¬as_usize a.resp_cap < n) : Tellable a mem n ↔
    (a.resp_cap.toInt < 0 → range mem (as_usize a.resp_ptr) n = none) :=
  ⟨fun htell => htell.2 (Nat.not_lt.mp h), fun hroom => ⟨fun hlt => absurd hlt h, fun _ => hroom⟩⟩

/-- Of an answer that fits the size it was given, the bytes are inside the buffer unless that size
is negative. -/
theorem inside_iff {r : Nat × Nat} (hcap : ¬as_usize a.resp_cap < out.length)
    (hrange : range mem (as_usize a.resp_ptr) out.length = some r) :
    Inside a (r.1, out) ↔ 0 ≤ a.resp_cap.toInt := by
  obtain ⟨hstart, hin⟩ := range_some hrange
  have hptr : 0 ≤ a.resp_ptr.toInt := by
    by_contra hneg
    have := as_usize_neg (Int.not_le.mp hneg)
    omega
  rw [as_usize_nonneg hptr] at hstart
  dsimp only [Inside]
  constructor
  · rintro ⟨-, hend⟩
    omega
  · intro hnonneg
    rw [as_usize_nonneg hnonneg] at hcap
    omega

theorem answer_sent {d : Done} (h : answer a mem out sent log = some d) : d.sent = sent := by
  dsimp only [answer] at h
  split at h
  · split at h
    · cases h
    · cases h
      rfl
  · split at h
    · cases h
      rfl
    · cases h
      rfl

theorem answer_iff (hlow : 10 ≤ out.length) (hone : sent.length ≤ 1)
    (hsent : ∀ r ∈ sent, Permitted host r.url) :
    InScope host a (answer a mem out sent log) ↔ Tellable a mem out.length := by
  unfold answer
  by_cases hcap : as_usize a.resp_cap < out.length
  · rw [if_pos hcap, tellable_of_lt hcap]
    by_cases hmin : Int32.ofNat out.length = Int32.minValue
    · rw [if_pos hmin]
      constructor
      · rintro ⟨d, hd, -⟩
        cases hd
      · intro hlt
        have hval := Int32.toInt_ofNat_of_lt hlt
        rw [hmin] at hval
        have : Int32.minValue.toInt = -2 ^ 31 := rfl
        omega
    · rw [if_neg hmin, ← reads_neg hlow hmin]
      constructor
      · rintro ⟨d, hd, -, -, -, hreads⟩
        cases hd
        exact hreads
      · intro hreads
        exact ⟨_, rfl, hone, hsent, by rintro w ⟨⟩, hreads⟩
  · rw [if_neg hcap, tellable_of_le hcap]
    cases hrange : range mem (as_usize a.resp_ptr) out.length with
    | none =>
      refine ⟨fun _ _ => rfl, fun _ => ⟨_, rfl, hone, hsent, by rintro w ⟨⟩, rfl⟩⟩
    | some r =>
      have hinside := inside_iff hcap hrange
      constructor
      · rintro ⟨d, hd, -, -, hwritten, -⟩ hneg
        cases hd
        have := hinside.mp (hwritten _ rfl)
        omega
      · intro htell
        have hnonneg : 0 ≤ a.resp_cap.toInt := by
          by_contra hneg
          cases htell (Int.not_le.mp hneg)
        have := Int32.toInt_lt a.resp_cap
        rw [as_usize_nonneg hnonneg] at hcap
        refine ⟨_, rfl, hone, hsent, ?_, reads_ofNat (by omega)⟩
        rintro w ⟨⟩
        exact hinside.mpr hnonneg

end Answer

/-! ## Every call -/

section Scope
variable {net : Net} {host : Host} {a : Args} {mem : Memory}

theorem failed_in_scope {code : Int32} {log : List String} (h : reads code = .error code) :
    InScope host a (some (failed code [] log)) :=
  ⟨_, rfl, Nat.zero_le _, by rintro r ⟨⟩, by rintro w ⟨⟩, h⟩

/-- A reply is longer than the numbers that stand for errors. -/
theorem reply_length (resp : Response) : 10 ≤ (reply net resp).length := by
  refine Nat.le_trans ?_ (length_le_encode _)
  have hname : quote "body_b64" = "\"body_b64\"" := by decide
  have hlength : "\"body_b64\"".length = 10 := by decide
  rw [String.length_toList]
  simp only [Value.to_string, field_strings, hname, String.intercalate_cons_cons,
    String.length_append, hlength]
  omega

/-- Where nothing goes out, only the client is asked for anything. -/
theorem fits_of_no_request (hout : outgoing net host a mem = none)
    (hclient : ∀ freq url, asked net a mem = some (freq, url) → allowed host url = true →
      net.client ≠ .panics) : Fits net host a mem := by
  refine ⟨hclient, fun r hr => ?_, fun r hr => ?_⟩
  · rw [hout] at hr
    cases hr
  · rw [hout] at hr
    cases hr

/-- A call whose request goes out is what is asked of the URL and of the answer. -/
theorem fits_iff {req : Request} (hout : outgoing net host a mem = some req)
    (hallowed : allowed host req.url = true) (hclient : net.client = .built) :
    Fits net host a mem ↔ Permitted host req.url ∧
      ∀ resp, net.send req = .ok resp → Tellable a mem (reply net resp).length := by
  have hmem : req ∈ outgoing net host a mem := Option.mem_def.mpr hout
  rw [permitted_iff hallowed]
  constructor
  · intro h
    exact ⟨h.address req hmem, h.tellable req hmem⟩
  · rintro ⟨haddress, htell⟩
    refine ⟨fun freq url _ _ h => ?_, fun r hr => ?_, fun r hr => ?_⟩
    · rw [hclient] at h
      cases h
    · rw [Option.mem_unique hr hmem]
      exact haddress
    · rw [Option.mem_unique hr hmem]
      exact htell

/-- The rest of a call that sends its request. -/
theorem sent_in_scope_iff {req : Request} {resp : Response} {log : List String} :
    InScope host a (answer a mem (reply net resp) [req] log) ↔
      Permitted host req.url ∧ Tellable a mem (reply net resp).length := by
  have hlow : 10 ≤ (reply net resp).length := reply_length resp
  generalize reply net resp = out at hlow ⊢
  have hone : [req].length ≤ 1 := Nat.le_refl _
  constructor
  · intro hscope
    have hsent : ∀ r ∈ [req], Permitted host r.url := by
      obtain ⟨d, hd, -, hsent, -⟩ := hscope
      rwa [answer_sent hd] at hsent
    exact ⟨hsent req (List.mem_singleton_self req), (answer_iff hlow hone hsent).mp hscope⟩
  · rintro ⟨hpermitted, htell⟩
    exact (answer_iff hlow hone (List.forall_mem_singleton.mpr hpermitted)).mpr htell

end Scope

/-! ## Every call -/

section Calls
variable (net : Net) (host : Host) (a : Args) (mem : Memory)

/-- What a call does when nothing goes out. -/
def Refused : Prop :=
  outgoing net host a mem = none ∧
    (∀ freq url, asked net a mem = some (freq, url) → allowed host url = true →
      net.client ≠ .panics) ∧
    ∃ code log, reads code = .error code ∧
      host_fetch net host a (some mem) = some (failed code [] log)

/-- A call whose client cannot be built. -/
def Panics : Prop :=
  net.client = .panics ∧ host_fetch net host a (some mem) = none ∧
    ∃ freq url, asked net a mem = some (freq, url) ∧ allowed host url = true

/-- A call whose request goes out. -/
def Sends (req : Request) : Prop :=
  outgoing net host a mem = some req ∧ allowed host req.url = true ∧ net.client = .built ∧
    ((∃ e log, net.send req = .error e ∧
      host_fetch net host a (some mem) = some (failed FETCH_ERR_TRANSPORT [req] log)) ∨
    ∃ resp log, net.send req = .ok resp ∧
      host_fetch net host a (some mem) = answer a mem (reply net resp) [req] log)

theorem host_fetch_cases : Refused net host a mem ∨ Panics net host a mem ∨
    ∃ req, Sends net host a mem req := by
  cases hasked : asked net a mem with
  | none =>
    refine .inl ⟨by simp [outgoing, hasked], fun freq url h => ?_, FETCH_ERR_BAD_REQ, [], rfl, ?_⟩
    · rw [hasked] at h
      cases h
    · simp only [host_fetch, hasked]
  | some pair =>
    obtain ⟨freq, url⟩ := pair
    by_cases hallowed : allowed host url = true
    · cases hclient : net.client with
      | panics =>
        refine .inr (.inl ⟨hclient, ?_, freq, url, hasked, hallowed⟩)
        simp [host_fetch, hasked, hallowed, hclient]
      | failed =>
        refine .inl ⟨by simp [outgoing, hasked, hclient], fun _ _ _ _ h => ?_,
          FETCH_ERR_TRANSPORT, [], rfl, ?_⟩
        · rw [hclient] at h
          cases h
        · simp [host_fetch, hasked, hallowed, hclient]
      | built =>
        cases hbody : body_of net freq with
        | none =>
          refine .inl ⟨by simp [outgoing, hasked, hallowed, hclient, hbody], fun _ _ _ _ h => ?_,
            FETCH_ERR_BAD_REQ, [], rfl, ?_⟩
          · rw [hclient] at h
            cases h
          · simp [host_fetch, hasked, hallowed, hclient, hbody]
        | some body =>
          refine .inr (.inr ⟨request net freq url body, ?_, hallowed, hclient, ?_⟩)
          · simp [outgoing, hasked, hallowed, hclient, hbody]
          · cases hsend : net.send (request net freq url body) with
            | error e =>
              refine .inl ⟨e, ["ERROR " ++ (freq.method ++ " " ++ freq.url) ++ " — " ++ e], rfl, ?_⟩
              simp [host_fetch, hasked, hallowed, hclient, hbody, hsend]
            | ok resp =>
              refine .inr ⟨resp, [freq.method ++ " " ++ freq.url ++ " → " ++ toString resp.status],
                rfl, ?_⟩
              simp [host_fetch, hasked, hallowed, hclient, hbody, hsend]
    · refine .inl ⟨by simp [outgoing, hasked, hallowed], fun freq' url' h h' => ?_,
        FETCH_ERR_DENIED, ["DENIED " ++ (freq.method ++ " " ++ freq.url)], rfl, ?_⟩
      · rw [hasked] at h
        cases h
        exact absurd h' hallowed
      · simp [host_fetch, hasked, hallowed]

variable {net host a mem}

theorem Refused.iff (h : Refused net host a mem) :
    InScope host a (host_fetch net host a (some mem)) ↔ Fits net host a mem := by
  obtain ⟨hout, hclient, code, log, hreads, heq⟩ := h
  rw [heq]
  exact ⟨fun _ => fits_of_no_request hout hclient, fun _ => failed_in_scope hreads⟩

theorem Panics.iff (h : Panics net host a mem) :
    InScope host a (host_fetch net host a (some mem)) ↔ Fits net host a mem := by
  obtain ⟨hclient, heq, freq, url, hasked, hallowed⟩ := h
  rw [heq]
  constructor
  · rintro ⟨d, hd, -⟩
    cases hd
  · intro hfits
    exact absurd hclient (hfits.client freq url hasked hallowed)

theorem Sends.iff {req : Request} (h : Sends net host a mem req) :
    InScope host a (host_fetch net host a (some mem)) ↔ Fits net host a mem := by
  obtain ⟨hout, hallowed, hclient, hrest⟩ := h
  rw [fits_iff hout hallowed hclient]
  rcases hrest with ⟨e, log, hsend, heq⟩ | ⟨resp, log, hsend, heq⟩
  · rw [heq, hsend]
    constructor
    · rintro ⟨d, hd, -, hsent, -⟩
      cases hd
      exact ⟨hsent req (List.mem_singleton_self req), by rintro resp ⟨⟩⟩
    · rintro ⟨hpermitted, -⟩
      exact ⟨_, rfl, Nat.le_refl _, List.forall_mem_singleton.mpr hpermitted,
        by rintro w ⟨⟩, rfl⟩
  · rw [heq, hsend, sent_in_scope_iff]
    constructor
    · rintro ⟨hpermitted, htell⟩
      refine ⟨hpermitted, ?_⟩
      rintro resp' ⟨⟩
      exact htell
    · rintro ⟨hpermitted, htell⟩
      exact ⟨hpermitted, htell resp rfl⟩

theorem call_in_scope_iff :
    InScope host a (host_fetch net host a (some mem)) ↔ Fits net host a mem := by
  rcases host_fetch_cases net host a mem with hrefused | hpanics | ⟨req, hsends⟩
  · exact hrefused.iff
  · exact hpanics.iff
  · exact hsends.iff

end Calls

/-- A call stays in scope exactly if its client can be built, its host is an address where it begins
like one of the loopback, and its answer can be told. -/
theorem host_fetch_in_scope_iff (net : Net) (host : Host) (a : Args) (mem : Option Memory) :
    InScope host a (host_fetch net host a mem) ↔ ∀ m ∈ mem, Fits net host a m := by
  cases mem with
  | none => exact ⟨fun _ m hm => (nomatch hm), fun _ => failed_in_scope rfl⟩
  | some mem =>
    rw [call_in_scope_iff]
    constructor
    · rintro hfits m ⟨⟩
      exact hfits
    · intro h
      exact h mem rfl

/-! ## A name that begins like an address -/

namespace Example

def bytes : Bytes := utf8 "\x7b\"url\":\"http://127.evil.com/\"\x7d"

def url : Url := { scheme := "http", host_str := some "127.evil.com" }

def net : Net where
  from_slice b :=
    if b = bytes then
      some { method := "GET", url := "http://127.evil.com/", headers := [], body_b64 := "" }
    else none
  parse s := if s = "http://127.evil.com/" then some url else none
  method_from_bytes s := some s
  valid_header _ := true
  decode _ := some []
  encode _ := ""
  client := .built
  send _ := .ok { status := 200, headers := [], body := [] }

/-- The app may go to the hosts of one domain. -/
def host : Host := { outbound := true, allowed_hosts := ["*.evil.com"] }

def mem : Memory := { data := bytes, pages := by decide }

def args : Args := { req_ptr := 0, req_len := 30, resp_ptr := 0, resp_cap := 0 }

end Example

open Example in
/-- A host of the domain that is no address is reached without encryption, if its name begins
like one. -/
theorem host_fetch_sends_to_name : ¬InScope host args (host_fetch net host args (some mem)) := by
  rw [call_in_scope_iff]
  intro hfits
  have hout : outgoing net host args mem =
      some { method := "GET", url, headers := [], body := none } := by decide
  have haddress := hfits.address _ (Option.mem_def.mpr hout) (by decide) (by decide)
  exact haddress (by decide)

end pai_apps.fetch
