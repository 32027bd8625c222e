-- What the signatures of pai-share say (lib.rs, guest.rs): both payloads join their fields by line
-- breaks, and a field may hold line breaks of its own.
import PersonalAi.GuestServer
import PersonalAi.Lib.Chars
import PersonalAi.Lib.Joined
import PersonalAi.Lib.Uuid
import Std.Data.String.ToInt

open pai_core text joined

namespace pai_share

def line_breaks (s : String) : Nat := s.toList.count '\n'

/-- The fields of two joined texts, where the line breaks stand in the same ones. -/
theorem joined_fields {ps qs : List String} {x y : String} (hne : ps ≠ [])
    (hcount : ps.map line_breaks = qs.map line_breaks) (hx : Tail '\n' x.toList)
    (hy : Tail '\n' y.toList) (h : "\n".intercalate ps ++ x = "\n".intercalate qs ++ y) :
    ps = qs ∧ x = y := by
  have hlists := congrArg String.toList h
  rw [String.toList_append, String.toList_append, String.toList_intercalate,
    String.toList_intercalate] at hlists
  have hchars : (ps.map String.toList).map (List.count '\n') =
      (qs.map String.toList).map (List.count '\n') := by
    rw [List.map_map, List.map_map]
    exact hcount
  have hboth := joined_then (by simpa using hne) hchars hx hy hlists
  exact ⟨List.map_injective_iff.mpr (fun a b => String.toList_inj.mp) hboth.1,
    String.toList_inj.mp hboth.2⟩

/-! ## Guest requests -/

namespace guest

/-- A signature verifies for one message only. -/
def Binding (verify_with_key : VerifyWithKey) : Prop :=
  ∀ key msg msg' sig, verify_with_key key msg sig = .ok true →
    verify_with_key key msg' sig = .ok true → msg = msg'

/-- The fields of the payload in front of the token's id. -/
def GuestRequest.fields (r : GuestRequest) : List String :=
  [r.id, r.op, r.app_id, "\x00".intercalate r.args, r.eph_pub]

/-- What the requests ask for, to whom the reply goes, and until when they hold. -/
def SameRequest (r s : GuestRequest) : Prop :=
  r.id = s.id ∧ r.op = s.op ∧ r.app_id = s.app_id ∧ r.args = s.args ∧ r.eph_pub = s.eph_pub ∧
    r.expires_at_ms = s.expires_at_ms

/-- The separators stand in the same fields and in the same arguments. -/
def SameSeparators (r s : GuestRequest) : Prop :=
  r.fields.map line_breaks = s.fields.map line_breaks ∧
    r.args.map (fun a => a.toList.count '\x00') = s.args.map (fun a => a.toList.count '\x00')

instance (r s : GuestRequest) : Decidable (SameSeparators r s) :=
  inferInstanceAs (Decidable (_ ∧ _))

/-- A bound request that verifies carries a signature of its payload by the grantee. -/
theorem verify_sig_ok {srv : GuestServer} {r : GuestRequest} {grantee : String}
    (hgrantee : r.capability.grantee_key = some grantee) (h : srv.verify_sig r = .ok ()) :
    ∃ gk sig, grantee_bytes grantee = .ok gk ∧ r.sig.map hex_decode = some (.ok sig) ∧
      srv.verify_with_key gk r.signing_payload sig = .ok true := by
  unfold GuestServer.verify_sig at h
  rw [hgrantee] at h
  dsimp only at h
  cases hsig : r.sig with
  | none =>
    rw [hsig] at h
    cases h
  | some sig_hex =>
    rw [hsig] at h
    dsimp only at h
    cases hgk : grantee_bytes grantee with
    | error e =>
      rw [hgk] at h
      cases h
    | ok gk =>
      rw [hgk] at h
      dsimp only at h
      cases hdecoded : hex_decode sig_hex with
      | error e =>
        rw [hdecoded] at h
        cases h
      | ok sig =>
        rw [hdecoded] at h
        dsimp only at h
        split at h
        · cases h
        · rename_i hverify
          exact ⟨gk, sig, rfl, by rw [Option.map_some, hdecoded], hverify⟩
        · cases h

theorem args_of_joined {a b : List String}
    (hcount : a.map (fun a => a.toList.count '\x00') = b.map (fun a => a.toList.count '\x00'))
    (h : "\x00".intercalate a = "\x00".intercalate b) : a = b := by
  have hlists := congrArg String.toList h
  rw [String.toList_intercalate, String.toList_intercalate] at hlists
  have hchars : (a.map String.toList).map (List.count '\x00') =
      (b.map String.toList).map (List.count '\x00') := by
    rw [List.map_map, List.map_map]
    exact hcount
  have hargs := joined_inj hchars hlists
  exact List.map_injective_iff.mpr (fun a b => String.toList_inj.mp) hargs

theorem signing_payload_fields (r : GuestRequest) : r.signing_payload =
    utf8 ("\n".intercalate r.fields ++ ("\n" ++ r.capability.token_id)) := by
  unfold GuestRequest.signing_payload GuestRequest.fields
  simp [String.append_assoc]

/-- One message is signed. -/
def verify_only (signed : Bytes) : VerifyWithKey := fun _ msg _ => .ok (decide (msg = signed))

theorem verify_only_binding (signed : Bytes) : Binding (verify_only signed) := by
  intro key msg msg' sig h h'
  have hmsg : msg = signed := by simpa [verify_only] using h
  have hmsg' : msg' = signed := by simpa [verify_only] using h'
  rw [hmsg, hmsg']

def notes_token : Capability :=
  { token_id := "t", app_id := "notes", actions := [.Exec],
    grantee_key := some (String.ofList (List.replicate 64 '0')), device := none, expires := none,
    issued_by := ⟨"67e55044-10b1-426f-9247-bb680e5fe0c8"⟩, issued_at := 0,
    signature := "", parent := none }

def notes_request : GuestRequest :=
  { v := 1, id := "1", op := "app-run", app_id := "notes", args := ["list"],
    capability := notes_token, eph_pub := "", sig := some "00", expires_at_ms := 5 }

def notes_server : GuestServer :=
  { device_id := ⟨"67e55044-10b1-426f-9247-bb680e5fe0c8"⟩, public_key := [], peers := [],
    shares := ⟨"share", fun _ => false⟩,
    verify_with_key := verify_only notes_request.signing_payload, sha256 := id }

theorem notes_verifies : notes_server.verify_sig notes_request = .ok () := by decide +kernel

end guest

/-! ## Capability tokens -/

/-- Device ids are UUIDs, in the text that `Display` gives. -/
structure Capability.Canonical (c : Capability) : Prop where
  issuer : uuid.parse_str c.issued_by.text = some c.issued_by.text
  device : ∀ d ∈ c.device, uuid.parse_str d.text = some d.text

/-- What the two tokens say is the same, their signatures and the rest of their parents apart. -/
def SameToken (c d : Capability) : Prop :=
  c.token_id = d.token_id ∧ c.app_id = d.app_id ∧ c.actions = d.actions ∧
    c.grantee_key = d.grantee_key ∧ c.device = d.device ∧ c.expires = d.expires ∧
    c.issued_by = d.issued_by ∧ c.issued_at = d.issued_at ∧
    c.parent.map Capability.token_id = d.parent.map Capability.token_id

/-- The line breaks stand in the same fields, and a grantee that is called `-` is no missing one. -/
def Aligned (c d : Capability) : Prop :=
  line_breaks c.token_id = line_breaks d.token_id ∧ line_breaks c.app_id = line_breaks d.app_id ∧
    line_breaks (c.grantee_key.getD "-") = line_breaks (d.grantee_key.getD "-") ∧
    c.grantee_key.isSome = d.grantee_key.isSome

instance (c d : Capability) : Decidable (Aligned c d) := inferInstanceAs (Decidable (_ ∧ _))

def Capability.fields (c : Capability) : List String :=
  [c.token_id, c.app_id, ",".intercalate (c.actions.map Action.to_string), c.grantee_key.getD "-",
    (c.device.map DeviceId.to_string).getD "-", (c.expires.map toString).getD "-",
    c.issued_by.to_string, toString c.issued_at]

def Capability.parent_line (c : Capability) : String :=
  match c.parent with
  | none => ""
  | some p => "\n" ++ p.token_id

theorem Capability.signing_payload_fields (c : Capability) :
    c.signing_payload = utf8 ("\n".intercalate c.fields ++ c.parent_line) := by
  unfold Capability.signing_payload Capability.parent_line Capability.fields
  cases c.parent with
  | none => simp
  | some p => simp [String.append_assoc]

theorem actions_text_ne_empty (a : Action) (rest : List Action) :
    ",".intercalate ((a :: rest).map Action.to_string) ≠ "" := by
  rw [List.map_cons]
  cases rest.map Action.to_string with
  | nil => cases a <;> simp [Action.to_string]
  | cons b more => cases a <;> simp [Action.to_string]

theorem actions_of_text {as bs : List Action}
    (h : ",".intercalate (as.map Action.to_string) = ",".intercalate (bs.map Action.to_string)) :
    as = bs := by
  cases as with
  | nil =>
    cases bs with
    | nil => rfl
    | cons b bs => exact absurd h.symm (actions_text_ne_empty b bs)
  | cons a as =>
    cases bs with
    | nil => exact absurd h (actions_text_ne_empty a as)
    | cons b bs =>
      have hlists := congrArg String.toList h
      rw [String.toList_intercalate, String.toList_intercalate] at hlists
      have hfree : ∀ cs : List Action, ∀ p ∈ (cs.map Action.to_string).map String.toList, ',' ∉ p := by
        intro cs p hp
        simp only [List.map_map, List.mem_map] at hp
        obtain ⟨c, -, rfl⟩ := hp
        cases c <;> decide
      have hnames := joined_free (hfree _) (hfree _) (by simp) (by simp) hlists
      have hinj : ∀ a b : Action, a.to_string.toList = b.to_string.toList → a = b := by
        intro a b
        cases a <;> cases b <;> decide
      rw [List.map_map, List.map_map] at hnames
      exact List.map_injective_iff.mpr hinj hnames

theorem nat_text_plain (n : Nat) : '\n' ∉ n.repr.toList ∧ n.repr ≠ "-" := by
  have hdigit : ∀ c ∈ n.repr.toList, c.isDigit := by
    rw [Nat.toList_repr]
    intro c hc
    exact Nat.isDigit_of_mem_toDigits (by decide) (by decide) hc
  constructor
  · intro hmem
    exact absurd (hdigit _ hmem) (by decide)
  · intro hminus
    rw [hminus] at hdigit
    exact absurd (hdigit '-' (by decide)) (by decide)

theorem int_text_plain (n : Int) : '\n' ∉ (toString n).toList ∧ toString n ≠ "-" := by
  cases n with
  | ofNat m => exact nat_text_plain m
  | negSucc m =>
    have htext : toString (Int.negSucc m) = "-" ++ (m + 1).repr := rfl
    rw [htext]
    constructor
    · rw [String.toList_append, List.mem_append, not_or]
      exact ⟨by decide, (nat_text_plain (m + 1)).1⟩
    · intro hminus
      have hlists := congrArg String.toList hminus
      rw [String.toList_append] at hlists
      have hempty : (m + 1).repr.toList = [] := List.append_right_eq_self.mp hlists
      exact Nat.repr_ne_empty (String.toList_eq_nil_iff.mp hempty)

/-- The text of a field that `-` stands for where it is missing. -/
theorem optional_plain {α : Type} {f : α → String} {o : Option α}
    (h : ∀ a ∈ o, '\n' ∉ (f a).toList) : line_breaks ((o.map f).getD "-") = 0 := by
  apply List.count_eq_zero_of_not_mem
  cases o with
  | none =>
    change '\n' ∉ "-".toList
    decide
  | some a => exact h a rfl

theorem optional_inj {α : Type} {f : α → String} (hf : ∀ a b, f a = f b → a = b) {o o' : Option α}
    (hdash : ∀ a ∈ o, f a ≠ "-") (hdash' : ∀ a ∈ o', f a ≠ "-")
    (h : (o.map f).getD "-" = (o'.map f).getD "-") : o = o' := by
  cases o with
  | none =>
    cases o' with
    | none => rfl
    | some b => exact absurd h.symm (hdash' b rfl)
  | some a =>
    cases o' with
    | none => exact absurd h (hdash a rfl)
    | some b => rw [hf a b h]

theorem canonical_plain {d : DeviceId} (h : uuid.parse_str d.text = some d.text) :
    '\n' ∉ d.to_string.toList ∧ d.to_string ≠ "-" := by
  obtain ⟨hplain, hlen⟩ := uuid.parse_str_plain h
  refine ⟨hplain, ?_⟩
  intro hdash
  rw [show d.text = "-" from hdash] at hlen
  exact absurd hlen (by decide)

theorem actions_plain (as : List Action) :
    '\n' ∉ (",".intercalate (as.map Action.to_string)).toList := by
  induction as with
  | nil => decide
  | cons a as ih =>
    have hname : '\n' ∉ a.to_string.toList := by cases a <;> decide
    rw [List.map_cons]
    cases hrest : as.map Action.to_string with
    | nil => simpa using hname
    | cons b more =>
      rw [hrest] at ih
      rw [String.intercalate_cons_cons, String.toList_append, String.toList_append]
      simp only [List.mem_append, not_or]
      exact ⟨⟨hname, by decide⟩, ih⟩

/-- Of the fields, only the ids of the token and the app and the grantee may hold line breaks. -/
theorem fields_line_breaks {c : Capability} (hc : c.Canonical) : c.fields.map line_breaks =
    [line_breaks c.token_id, line_breaks c.app_id, 0, line_breaks (c.grantee_key.getD "-"), 0, 0, 0,
      0] := by
  have hactions : line_breaks (",".intercalate (c.actions.map Action.to_string)) = 0 :=
    List.count_eq_zero_of_not_mem (actions_plain c.actions)
  have hdevice : line_breaks ((c.device.map DeviceId.to_string).getD "-") = 0 :=
    optional_plain (fun d hd => (canonical_plain (hc.device d hd)).1)
  have hexpires : line_breaks ((c.expires.map toString).getD "-") = 0 :=
    optional_plain (fun n _ => (int_text_plain n).1)
  have hissuer : line_breaks c.issued_by.to_string = 0 :=
    List.count_eq_zero_of_not_mem (canonical_plain hc.issuer).1
  have htime : line_breaks (toString c.issued_at) = 0 :=
    List.count_eq_zero_of_not_mem (int_text_plain c.issued_at).1
  unfold Capability.fields
  simp only [List.map_cons, List.map_nil, hactions, hdevice, hexpires, hissuer, htime]

theorem parent_line_tail (c : Capability) : Tail '\n' c.parent_line.toList := by
  unfold Capability.parent_line
  cases c.parent with
  | none => exact .inl rfl
  | some p => exact .inr ⟨p.token_id.toList, by simp⟩

theorem parent_of_line {c d : Capability} (h : c.parent_line = d.parent_line) :
    c.parent.map Capability.token_id = d.parent.map Capability.token_id := by
  unfold Capability.parent_line at h
  cases hc : c.parent with
  | none =>
    cases hd : d.parent with
    | none => rfl
    | some q => simp [hc, hd] at h
  | some p =>
    cases hd : d.parent with
    | none => simp [hc, hd] at h
    | some q => simpa [hc, hd] using h

/-- **Equal payloads say the same token exactly where the line breaks stand in the same fields** and
a grantee called `-` is not taken for a missing one. -/
theorem equal_payloads_agree_iff {c d : Capability} (hc : c.Canonical) (hd : d.Canonical)
    (h : c.signing_payload = d.signing_payload) : SameToken c d ↔ Aligned c d := by
  constructor
  · rintro ⟨htoken, happ, -, hgrantee, -⟩
    unfold Aligned
    rw [htoken, happ, hgrantee]
    exact ⟨rfl, rfl, rfl, rfl⟩
  · rintro ⟨htoken, happ, hbreaks, hsome⟩
    rw [Capability.signing_payload_fields, Capability.signing_payload_fields, utf8_inj] at h
    have hcount : c.fields.map line_breaks = d.fields.map line_breaks := by
      rw [fields_line_breaks hc, fields_line_breaks hd, htoken, happ, hbreaks]
    obtain ⟨hfields, hparent⟩ := joined_fields (by simp [Capability.fields]) hcount
      (parent_line_tail c) (parent_line_tail d) h
    simp only [Capability.fields, List.cons.injEq, and_true] at hfields
    obtain ⟨htoken, happ, hactions, hgrantee, hdevice, hexpires, hissuer, htime⟩ := hfields
    have hkey : c.grantee_key = d.grantee_key := by
      cases hck : c.grantee_key with
      | none => cases hdk : d.grantee_key <;> simp_all
      | some g => cases hdk : d.grantee_key <;> simp_all
    have hid : ∀ a b : DeviceId, a.to_string = b.to_string → a = b := by
      rintro ⟨a⟩ ⟨b⟩ hab
      exact congrArg DeviceId.mk hab
    refine ⟨htoken, happ, actions_of_text hactions, hkey, ?_, ?_, hid _ _ hissuer, ?_,
      parent_of_line hparent⟩
    · exact optional_inj hid (fun a ha => (canonical_plain (hc.device a ha)).2)
        (fun a ha => (canonical_plain (hd.device a ha)).2) hdevice
    · exact optional_inj (fun a b => Int.repr_inj.mp) (fun a _ => (int_text_plain a).2)
        (fun a _ => (int_text_plain a).2) hexpires
    · exact Int.repr_inj.mp htime

/-- What the laptop grants on an app whose id has two lines. -/
def two_lines : Capability :=
  { guest.notes_token with
    token_id := "67e55044-10b1-426f-9247-bb680e5fe0c8", app_id := "notes\nread", actions := [.Read] }

/-- The same bytes, read as a token for the app of the first line. -/
def one_line : Capability :=
  { two_lines with
    app_id := "notes", grantee_key := two_lines.grantee_key.map (fun g => "read\n" ++ g) }

theorem two_lines_canonical : two_lines.Canonical := ⟨by decide +kernel, by decide⟩

theorem one_line_canonical : one_line.Canonical := ⟨by decide +kernel, by decide⟩

theorem one_payload : two_lines.signing_payload = one_line.signing_payload := by
  have happ : "notes\nread" = "notes" ++ ("\n" ++ "read") := by decide
  have hkey : ∀ g : String, "read\n" ++ g = "read" ++ ("\n" ++ g) := by
    intro g
    rw [← String.append_assoc]
    congr 1
  rw [Capability.signing_payload_fields, Capability.signing_payload_fields]
  unfold Capability.fields one_line
  simp only [String.intercalate_cons_cons, two_lines, happ, guest.notes_token, Option.map_some,
    Option.getD_some, hkey, String.append_assoc]
  rfl

theorem another_signature_is_the_same_token :
    SameToken two_lines { two_lines with signature := "00" } :=
  (equal_payloads_agree_iff two_lines_canonical ⟨two_lines_canonical.1, two_lines_canonical.2⟩
    rfl).mpr (by decide)

theorem an_app_id_runs_over_its_line :
    ¬ ∀ c d : Capability, trim c.app_id.toList ≠ [] → trim d.app_id.toList ≠ [] → c.Canonical →
      d.Canonical → c.signing_payload = d.signing_payload → SameToken c d := by
  intro h
  have hsame := h two_lines one_line (by decide) (by decide) two_lines_canonical one_line_canonical
    one_payload
  exact absurd hsame.2.1 (by decide)

end pai_share
