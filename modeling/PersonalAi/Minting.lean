-- Minting capability tokens (pai-share lib.rs): `grant` makes a root token, `delegate` a child of
-- one. The narrowing rules are coded twice, here and in `verify_chain`; the laws say that the two
-- agree on every child.
import PersonalAi.GuestServer
import PersonalAi.Lib.Chars

open pai_core text

namespace pai_share

/-! ## The functions of the source -/

/-- What a token is to say. A key has 32 bytes. -/
structure GrantSpec where
  app_id : String
  actions : List Action
  grantee_key : Option { b : Bytes // b.length = 32 }
  device : Option DeviceId
  expires : Option Int

/-- What the surroundings give to one call: the random id, the clock, the signature of a device, and
whether the directory and the file of the token can be written. -/
structure Surroundings where
  new_v4 : String
  now : Int
  sign : DeviceId → Bytes → Except Error Bytes
  create_dir_all : Except ShareError Unit
  write : Capability → Except ShareError Unit

/-- The token before it is signed. -/
def GrantSpec.unsigned (spec : GrantSpec) (x : Surroundings) (issuer : DeviceId)
    (parent : Option Capability) : Capability :=
  { token_id := x.new_v4, app_id := spec.app_id, actions := spec.actions,
    grantee_key := spec.grantee_key.map (fun k => guest.hex_encode k.val), device := spec.device,
    expires := spec.expires, issued_by := issuer, issued_at := x.now, signature := "",
    parent := parent }

def identity_error : Except Error Bytes → Except ShareError Bytes
  | .ok sig => .ok sig
  | .error e => .error (.Identity e)

/-- The end of both functions: sign, then write the file. -/
def sign_and_save (x : Surroundings) (cap : Capability) : Except ShareError Capability := do
  let sig ← identity_error (x.sign cap.issued_by cap.signing_payload)
  let cap := { cap with signature := guest.hex_encode sig }
  x.create_dir_all
  x.write cap
  return cap

def check_grant (now : Int) (spec : GrantSpec) : Except ShareError Unit :=
  if trim spec.app_id.toList = [] then .error (.InvalidInput "app_id required")
  else if spec.actions = [] then .error (.InvalidInput "at least one action")
  else if spec.expires.any (fun exp => exp ≤ now) then
    .error (.InvalidInput "expires must be in the future")
  else .ok ()

def grant (x : Surroundings) (issuer : DeviceId) (spec : GrantSpec) :
    Except ShareError Capability := do
  check_grant x.now spec
  sign_and_save x (spec.unsigned x issuer none)

/-- The checks of `delegate`, in its order. -/
def check_delegate (parent : Capability) (spec : GrantSpec) : Except ShareError Unit :=
  if ¬ Action.Share ∈ parent.actions then
    .error (.ActionNotGranted "share — parent token doesn't allow delegation")
  else if parent.grantee_key = none then
    .error (.InvalidInput "bearer parent can't delegate — no grantee key")
  else if spec.app_id ≠ parent.app_id then
    .error (.InvalidInput "sub-token must cover the same app_id")
  else
    match spec.actions.find? (fun a => decide (a ∉ parent.actions)) with
    | some a => .error (.InvalidInput ("action " ++ a.to_string ++ " not in parent grant"))
    | none =>
      if spec.actions = [] then .error (.InvalidInput "at least one action")
      else
        match parent.expires, spec.expires with
        | some pe, some ce =>
          if ce > pe then .error (.InvalidInput "sub-token can't outlive its parent")
          else check_same_device
        | some pe, none =>
          .error (.InvalidInput ("parent expires " ++ toString pe ++ " — sub-token needs an expiry"))
        | none, _ => check_same_device
where
  check_same_device : Except ShareError Unit :=
    if parent.device.isSome ∧ parent.device ≠ spec.device then
      .error (.InvalidInput "device restriction must match parent's")
    else .ok ()

def delegate (x : Surroundings) (issuer : DeviceId) (parent : Capability) (spec : GrantSpec) :
    Except ShareError Capability := do
  check_delegate parent spec
  sign_and_save x (spec.unsigned x issuer (some parent))

/-! ## Hex -/

theorem hexDigit_digitChar : ∀ n < 16, hexDigit (UInt8.ofNat (Nat.digitChar n).toNat) =
    some (UInt8.ofNat n) ∧ String.utf8EncodeChar (Nat.digitChar n) =
      [UInt8.ofNat (Nat.digitChar n).toNat] := by
  decide

theorem utf8_hex_encode (b : Bytes) : utf8 (guest.hex_encode b) = b.flatMap (fun x =>
    [UInt8.ofNat (Nat.digitChar (x.toNat / 16)).toNat,
      UInt8.ofNat (Nat.digitChar (x.toNat % 16)).toNat]) := by
  unfold utf8 guest.hex_encode
  rw [String.toList_ofList, List.flatMap_assoc]
  congr 1
  funext x
  have hx : x.toNat < 256 := x.toNat_lt
  have hhigh := (hexDigit_digitChar (x.toNat / 16) (by omega)).2
  have hlow := (hexDigit_digitChar (x.toNat % 16) (by omega)).2
  simp [hhigh, hlow]

/-- What `hex::encode` writes, `hex::decode` reads. -/
theorem hex_decode_encode (b : Bytes) : hex_decode (guest.hex_encode b) = .ok b := by
  have hpairs : ∀ i, hexPairs i (utf8 (guest.hex_encode b)) = .ok b := by
    rw [utf8_hex_encode]
    induction b with
    | nil =>
      intro i
      rfl
    | cons x rest ih =>
      intro i
      have hx : x.toNat < 256 := x.toNat_lt
      have hhigh := (hexDigit_digitChar (x.toNat / 16) (by omega)).1
      have hlow := (hexDigit_digitChar (x.toNat % 16) (by omega)).1
      have hbyte : UInt8.ofNat (x.toNat / 16) * 16 + UInt8.ofNat (x.toNat % 16) = x := by
        apply UInt8.toNat_inj.mp
        simp only [UInt8.toNat_add, UInt8.toNat_mul, UInt8.toNat_ofNat']
        have h16 : (16 : UInt8).toNat = 16 := rfl
        rw [h16]
        omega
      rw [List.flatMap_cons, List.cons_append, List.cons_append, List.nil_append, hexPairs, hhigh,
        hlow, ih]
      simp [Except.map, hbyte]
  have hlength : (utf8 (guest.hex_encode b)).length = 2 * b.length := by
    rw [utf8_hex_encode, List.length_flatMap]
    simp
    omega
  unfold hex_decode
  rw [if_neg (by omega), hpairs]

/-! ## The checks of both sides -/

/-- `check_hop` gives the key of a grantee exactly where the child narrows its parent. -/
theorem check_hop_iff {c p : Capability} {gk : Bytes} :
    check_hop c p = .ok gk ↔
      Narrows c p ∧ ∃ gk_hex, p.grantee_key = some gk_hex ∧ grantee_bytes gk_hex = .ok gk := by
  constructor
  · intro h
    refine ⟨(check_hop_ok h).1, ?_⟩
    unfold check_hop at h
    split_ifs at h
    have hdevice : ∀ {e : Except ShareError Bytes}, e = check_hop.check_device c p → e = .ok gk →
        ∃ gk_hex, p.grantee_key = some gk_hex ∧ grantee_bytes gk_hex = .ok gk := by
      intro e he hok
      rw [he] at hok
      unfold check_hop.check_device at hok
      split_ifs at hok
      rcases hkey : p.grantee_key with _ | gk_hex
      · simp [hkey] at hok
      · exact ⟨gk_hex, rfl, by simpa [hkey] using hok⟩
    split at h
    · cases h
    · split at h
      · split_ifs at h
        exact hdevice rfl h
      · cases h
      · exact hdevice rfl h
  · rintro ⟨hn, gk_hex, hkey, hbytes⟩
    have hdevice : check_hop.check_device c p = .ok gk := by
      unfold check_hop.check_device
      rw [if_neg, hkey]
      · exact hbytes
      · rintro ⟨hsome, hne⟩
        obtain ⟨d, hd⟩ := Option.isSome_iff_exists.mp hsome
        exact hne (by rw [hd, hn.device d hd])
    have hfind : c.actions.find? (fun a => decide (a ∉ p.actions)) = none := by
      rw [List.find?_eq_none]
      intro a ha
      simpa using hn.actions ha
    unfold check_hop
    rw [if_neg (not_not_intro hn.share), if_neg (not_not_intro hn.app), hfind]
    rcases hpe : p.expires with _ | pe
    · simpa using hdevice
    · obtain ⟨ce, hce, hle⟩ := hn.expires pe hpe
      simp only [hce]
      rw [if_neg (by omega)]
      exact hdevice

/-- **The two sides check the same rules.** `delegate` mints a child exactly where the child narrows
its parent and grants some action. -/
theorem check_delegate_iff {parent : Capability} {spec : GrantSpec} (x : Surroundings)
    (issuer : DeviceId) :
    check_delegate parent spec = .ok () ↔
      spec.actions ≠ [] ∧ Narrows (spec.unsigned x issuer (some parent)) parent := by
  have hdevice : check_delegate.check_same_device parent spec = .ok () ↔
      ∀ d, parent.device = some d → spec.device = some d := by
    unfold check_delegate.check_same_device
    rcases hd : parent.device with _ | d
    · simp
    · by_cases hsame : spec.device = some d
      · simp [hsame]
      · simp [hsame, Ne.symm hsame]
  constructor
  · intro h
    unfold check_delegate at h
    split_ifs at h with hshare hkey happ hempty
    · split at h <;> cases h
    split at h
    · cases h
    rename_i hfind
    have hsub : spec.actions ⊆ parent.actions := by
      intro a ha
      simpa using List.find?_eq_none.mp hfind a ha
    have hrest : check_delegate.check_same_device parent spec = .ok () ∧
        ∀ pe, parent.expires = some pe → ∃ ce, spec.expires = some ce ∧ ce ≤ pe := by
      rcases hpe : parent.expires with _ | pe
      · rw [hpe] at h
        exact ⟨h, nofun⟩
      · rcases hce : spec.expires with _ | ce
        · simp [hpe, hce] at h
        · simp only [hpe, hce] at h
          split_ifs at h with hlt
          refine ⟨h, ?_⟩
          intro pe' hpe'
          cases hpe'
          exact ⟨ce, rfl, by omega⟩
    exact ⟨hempty, by simpa using hshare, by simpa [Option.isSome_iff_ne_none] using hkey,
      not_not.mp happ, hsub, hrest.2, hdevice.mp hrest.1⟩
  · rintro ⟨hempty, hn⟩
    have hfind : spec.actions.find? (fun a => decide (a ∉ parent.actions)) = none := by
      rw [List.find?_eq_none]
      intro a ha
      simpa using hn.actions ha
    have hsame := hdevice.mpr hn.device
    have happ : spec.app_id = parent.app_id := hn.app
    unfold check_delegate
    rw [if_neg (not_not_intro hn.share), if_neg (Option.isSome_iff_ne_none.mp hn.grantee),
      if_neg (not_not_intro happ), hfind]
    dsimp only
    rw [if_neg hempty]
    rcases hpe : parent.expires with _ | pe
    · exact hsame
    · obtain ⟨ce, hce, hle⟩ := hn.expires pe hpe
      have hspec : spec.expires = some ce := hce
      simp only [hspec]
      rw [if_neg (by omega)]
      exact hsame

/-! ## Acceptance along the chain -/

/-- No token of the chain is revoked in the store or expired at the time. -/
def Live (st : ShareStore) (now : Int) (c : Capability) : Prop :=
  ∀ t ∈ c.chain, st.is_file (st.revoked_path t.token_id) = false ∧
    ∀ exp, t.expires = some exp → now < exp

section Agreement
variable {st later : ShareStore} {vk : VerifyWithKey} {now time : Int}
  {resolve : DeviceId → Option Bytes} {a b : Action}

theorem verify_accepts {c : Capability} {pk : Bytes} (hst : Stands st now a c)
    (hsig : SignedBy vk pk c) :
    verify st vk now c pk a = .ok
      { token_id := c.token_id, app_id := c.app_id,
        can_share := decide (Action.Share ∈ c.actions) } := by
  obtain ⟨sig, hhex, hvk⟩ := hsig
  have hexp : ¬ c.expires.any (fun exp => exp ≤ now) = true := by
    rcases he : c.expires with _ | exp
    · simp
    · simpa using hst.not_expired exp he
  have hrev : ¬ st.is_file (st.revoked_path c.token_id) = true := by simp [hst.not_revoked]
  unfold verify
  rw [if_neg (not_not_intro hst.grants), if_neg hrev, if_neg hexp, hhex]
  simp [hvk]

theorem verify_chain_root {c : Capability} (hc : c.parent = none) :
    verify_chain st vk now resolve a c =
      match resolve c.issued_by with
      | none => .error (.InvalidInput ("unknown issuer " ++ c.issued_by.to_string))
      | some pk => verify st vk now c pk a := by
  obtain ⟨_, _, _, _, _, _, _, _, _, par⟩ := c
  simp only at hc
  subst hc
  exact (verify_chain.eq_def ..).trans rfl

theorem verify_chain_child {c p : Capability} (hc : c.parent = some p) :
    verify_chain st vk now resolve a c =
      match check_hop c p with
      | .error e => .error e
      | .ok gk =>
        match verify st vk now c gk a with
        | .error e => .error e
        | .ok _ => verify_chain st vk now resolve a p := by
  obtain ⟨_, _, _, _, _, _, _, _, _, par⟩ := c
  simp only at hc
  subst hc
  exact (verify_chain.eq_def ..).trans rfl

/-- A child is accepted where it narrows its parent, the parent's key signed it, it stands, and its
parent is accepted for the same action. -/
theorem verify_chain_child_ok {c p : Capability} (hc : c.parent = some p) :
    (∃ g, verify_chain st vk now resolve a c = .ok g) ↔
      (∃ gk, check_hop c p = .ok gk ∧ SignedBy vk gk c) ∧ Stands st now a c ∧
        ∃ g, verify_chain st vk now resolve a p = .ok g := by
  rw [verify_chain_child hc]
  constructor
  · rintro ⟨g, h⟩
    rcases hhop : check_hop c p with e | gk
    · simp [hhop] at h
    · rcases hver : verify st vk now c gk a with e | g'
      · simp [hhop, hver] at h
      · obtain ⟨hst, hsig⟩ := verify_ok hver
        exact ⟨⟨gk, rfl, hsig⟩, hst, g, by simpa [hhop, hver] using h⟩
  · rintro ⟨⟨gk, hhop, hsig⟩, hst, g, hp⟩
    refine ⟨g, ?_⟩
    rw [hhop]
    dsimp only
    rw [verify_accepts hst hsig]
    exact hp

/-- A chain accepted for one action is accepted for every action of the presented token, in any
store and at any time at which the chain is live. -/
theorem accepted_for_its_actions {c : Capability} {g : Grant}
    (h : verify_chain st vk now resolve a c = .ok g) (hlive : Live later time c)
    (hb : b ∈ c.actions) : ∃ g', verify_chain later vk time resolve b c = .ok g' := by
  induction c using chain_induction generalizing g with
  | root c hc =>
    have hself := hlive c (self_mem_chain c)
    rw [verify_chain_root hc] at h
    rcases hpk : resolve c.issued_by with _ | pk
    · simp [hpk] at h
    · simp only [hpk] at h
      obtain ⟨-, hsig⟩ := verify_ok h
      rw [verify_chain_root hc, hpk]
      exact ⟨_, verify_accepts ⟨hb, hself.1, hself.2⟩ hsig⟩
  | child c p hc ih =>
    have hself := hlive c (self_mem_chain c)
    obtain ⟨⟨gk, hhop, hsig⟩, -, g', hp⟩ := (verify_chain_child_ok hc).mp ⟨g, h⟩
    apply (verify_chain_child_ok hc).mpr
    refine ⟨⟨gk, hhop, hsig⟩, ⟨hb, hself.1, hself.2⟩, ?_⟩
    apply ih hp
    · intro t ht
      apply hlive
      rw [chain_of_child hc]
      exact List.mem_cons_of_mem _ ht
    · exact (check_hop_iff.mp hhop).1.actions hb

/-- What is accepted is granted by the presented token. -/
theorem accepted_action {c : Capability} {g : Grant}
    (h : verify_chain st vk now resolve a c = .ok g) : a ∈ c.actions :=
  ((verify_chain_ok h).stands c (self_mem_chain c)).grants

/-- What `sign_and_save` returns is the token it was given, signed. -/
theorem sign_and_save_ok {x : Surroundings} {cap child : Capability}
    (h : sign_and_save x cap = .ok child) :
    ∃ sig, x.sign cap.issued_by cap.signing_payload = .ok sig ∧
      child = { cap with signature := guest.hex_encode sig } := by
  unfold sign_and_save at h
  rcases hsign : x.sign cap.issued_by cap.signing_payload with e | sig
  · simp [hsign, identity_error, bind, Except.bind] at h
  · rcases hdir : x.create_dir_all with e | u
    · simp [hsign, hdir, identity_error, bind, Except.bind] at h
    · rcases hwrite : x.write { cap with signature := guest.hex_encode sig } with e | u
      · simp [hsign, hdir, hwrite, identity_error, bind, Except.bind] at h
      · refine ⟨sig, rfl, ?_⟩
        simpa [hsign, hdir, hwrite, identity_error, bind, Except.bind, pure, Except.pure] using h.symm

/-! ## The laws -/

/-- The child breaks a rule: it is wider in actions, of another app, outlives its parent, is for
another device, or its parent cannot delegate. -/
def Violates (c p : Capability) : Prop :=
  (∃ e ∈ c.actions, e ∉ p.actions) ∨ c.app_id ≠ p.app_id ∨
    (∃ pe ce, p.expires = some pe ∧ c.expires = some ce ∧ pe < ce) ∨
    (∃ pe, p.expires = some pe ∧ c.expires = none) ∨
    (∃ d, p.device = some d ∧ c.device ≠ some d) ∨
    p.grantee_key = none ∨ Action.Share ∉ p.actions

theorem not_narrows_of_violates {c p : Capability} (h : Violates c p) : ¬ Narrows c p := by
  intro hn
  rcases h with ⟨e, he, hno⟩ | happ | ⟨pe, ce, hpe, hce, hlt⟩ | ⟨pe, hpe, hce⟩ | ⟨d, hd, hne⟩ |
    hkey | hshare
  · exact hno (hn.actions he)
  · exact happ hn.app
  · obtain ⟨ce', hce', hle⟩ := hn.expires pe hpe
    rw [hce] at hce'
    cases hce'
    omega
  · obtain ⟨ce', hce', -⟩ := hn.expires pe hpe
    rw [hce] at hce'
    cases hce'
  · exact hne (hn.device d hd)
  · have := hn.grantee
    rw [hkey] at this
    cases this
  · exact hshare hn.share

/-- A child that breaks a rule is refused, whoever signed it. -/
theorem violating_child_refused {c p : Capability} (hc : c.parent = some p) (h : Violates c p)
    {g : Grant} : verify_chain st vk now resolve a c ≠ .ok g := by
  intro hok
  obtain ⟨⟨gk, hhop, -⟩, -⟩ := (verify_chain_child_ok hc).mp ⟨g, hok⟩
  exact not_narrows_of_violates h (check_hop_iff.mp hhop).1

/-- **Minting and verifying agree.** The parent is accepted for `share`, and the issuer signs with
the key that the parent is bound to. Then a child that `delegate` returns is accepted for exactly
the actions of its spec, in every store and at every time at which no token of its chain is revoked
or expired. And no child that breaks a narrowing rule is accepted for any action, at any depth. -/
theorem minting_and_verifying_agree (parent : Capability) (g : Grant)
    (hparent : verify_chain st vk now resolve .Share parent = .ok g) (spec : GrantSpec)
    (x : Surroundings) (issuer : DeviceId) (gk_hex : String) (pk : Bytes)
    (hbound : parent.grantee_key = some gk_hex) (hkey : grantee_bytes gk_hex = .ok pk)
    (hsign : ∀ msg sig, x.sign issuer msg = .ok sig → vk pk msg sig = .ok true) :
    (∀ child, delegate x issuer parent spec = .ok child →
      ∀ later time, Live later time child →
        ∀ b, (∃ g', verify_chain later vk time resolve b child = .ok g') ↔ b ∈ spec.actions) ∧
    ∀ c p, c.parent = some p → Violates c p →
      ∀ later time b g', verify_chain later vk time resolve b c ≠ .ok g' := by
  refine ⟨?_, fun c p hc h later time b g' => violating_child_refused hc h⟩
  intro child hchild later time hlive b
  unfold delegate at hchild
  rcases hcheck : check_delegate parent spec with e | ⟨⟩
  · simp [hcheck, bind, Except.bind] at hchild
  rw [hcheck] at hchild
  obtain ⟨sig, hsig, rfl⟩ := sign_and_save_ok hchild
  obtain ⟨-, hnarrows⟩ := (check_delegate_iff x issuer).mp hcheck
  constructor
  · rintro ⟨g', h⟩
    exact accepted_action h
  · intro hb
    have hself := hlive _ (self_mem_chain _)
    apply (verify_chain_child_ok rfl).mpr
    refine ⟨⟨pk, check_hop_iff.mpr ⟨?_, gk_hex, hbound, hkey⟩, sig, hex_decode_encode sig, ?_⟩,
      ⟨hb, hself.1, hself.2⟩, ?_⟩
    · exact ⟨hnarrows.share, hnarrows.grantee, hnarrows.app, hnarrows.actions, hnarrows.expires,
        hnarrows.device⟩
    · exact hsign _ _ hsig
    · -- the parent was accepted for `share`, and it is still live
      apply accepted_for_its_actions hparent
      · intro t ht
        apply hlive
        rw [chain_of_child rfl]
        exact List.mem_cons_of_mem _ ht
      · exact hnarrows.actions hb

end Agreement

/-! ## A token of the laptop, delegated by the phone -/

def laptopKey : Bytes := List.replicate 32 1

def phoneKey : Bytes := List.replicate 32 2

/-- A signature that repeats the key and the message. -/
def sealOf (key msg : Bytes) : Bytes := key ++ msg

def checkSeal : VerifyWithKey := fun pk msg sig => .ok (decide (sig = sealOf pk msg))

def deviceKey (d : DeviceId) : Bytes := if d.text = "laptop" then laptopKey else phoneKey

def deskAt (id : String) (now : Int) : Surroundings :=
  { new_v4 := id, now := now, sign := fun d msg => .ok (sealOf (deviceKey d) msg),
    create_dir_all := .ok (), write := fun _ => .ok () }

def sealed (cap : Capability) : Capability :=
  { cap with
    signature := guest.hex_encode (sealOf (deviceKey cap.issued_by) cap.signing_payload) }

/-- The laptop lets the phone read, run and share. -/
def laptopSpec : GrantSpec :=
  { app_id := "notes", actions := [.Exec, .Read, .Share], grantee_key := some ⟨phoneKey, rfl⟩,
    device := none, expires := some 3700 }

def guestSpec : GrantSpec :=
  { app_id := "notes", actions := [.Exec, .Exec], grantee_key := none, device := none,
    expires := some 1900 }

def laptopToken : Capability := sealed (laptopSpec.unsigned (deskAt "root" 100) ⟨"laptop"⟩ none)

def guestToken : Capability :=
  sealed (guestSpec.unsigned (deskAt "sub" 110) ⟨"phone"⟩ (some laptopToken))

def laptopOnly (d : DeviceId) : Option Bytes := if d.text = "laptop" then some laptopKey else none

theorem sealed_signed (cap : Capability) :
    SignedBy checkSeal (deviceKey cap.issued_by) (sealed cap) := by
  refine ⟨_, hex_decode_encode _, ?_⟩
  simp [checkSeal, sealed, Capability.signing_payload]

theorem a_delegated_token_runs_and_does_not_read :
    grant (deskAt "root" 100) ⟨"laptop"⟩ laptopSpec = .ok laptopToken ∧
    delegate (deskAt "sub" 110) ⟨"phone"⟩ laptopToken guestSpec = .ok guestToken ∧
    (∃ g, verify_chain emptyShare checkSeal 120 laptopOnly .Exec guestToken = .ok g) ∧
    ¬ ∃ g, verify_chain emptyShare checkSeal 120 laptopOnly .Read guestToken = .ok g := by
  have hminted : delegate (deskAt "sub" 110) ⟨"phone"⟩ laptopToken guestSpec = .ok guestToken := by
    rfl
  have hissuer : laptopOnly laptopToken.issued_by = some laptopKey := by rfl
  have hparent : verify_chain emptyShare checkSeal 110 laptopOnly .Share laptopToken = .ok
      { token_id := "root", app_id := "notes", can_share := true } := by
    rw [verify_chain_root rfl, hissuer]
    have hstands : Stands emptyShare 110 .Share laptopToken := by
      refine ⟨by decide, rfl, ?_⟩
      intro exp hexp
      cases hexp
      decide
    exact verify_accepts hstands (sealed_signed _)
  have hlive : Live emptyShare 120 guestToken := by
    intro t ht
    have ht' : t = guestToken ∨ t = laptopToken := by
      simpa [chain_of_child (c := guestToken) rfl, chain_of_root (c := laptopToken) rfl] using ht
    rcases ht' with rfl | rfl
    · refine ⟨rfl, ?_⟩
      intro exp hexp
      cases hexp
      decide
    · refine ⟨rfl, ?_⟩
      intro exp hexp
      cases hexp
      decide
  have hagree := (minting_and_verifying_agree laptopToken _ hparent guestSpec (deskAt "sub" 110)
    ⟨"phone"⟩ (guest.hex_encode phoneKey) phoneKey rfl
    (by simp [grantee_bytes, hex_decode_encode, phoneKey])
    (by
      intro msg sig h
      cases h
      simp [checkSeal, deviceKey])).1 guestToken hminted emptyShare 120 hlive
  refine ⟨rfl, hminted, (hagree .Exec).mpr (by decide), ?_⟩
  rw [hagree .Read]
  decide

end pai_share
