-- The laws of capability tokens: what a chain of delegated tokens grants when
-- `verify_chain` accepts it. The chain is attacker-supplied, and the code
-- checks one hop at a time, so each law is an induction over the chain.
import PersonalAi.Core

open pai_core text

namespace pai_share

/-! ## The tokens -/

inductive ShareError
  | Io (msg : String)
  | Json (msg : String)
  | Identity (e : Error)
  | InvalidInput (msg : String)
  | BadSignature (issuer : String)
  | Revoked (token_id : String)
  | Expired (token_id : String)
  | ActionNotGranted (what : String)
deriving DecidableEq, Repr

def ShareError.to_string : ShareError → String
  | .Io m => "io: " ++ m
  | .Json m => "json: " ++ m
  | .Identity e => "identity: " ++ e.to_string
  | .InvalidInput m => m
  | .BadSignature i => "capability signature does not match issuer " ++ i
  | .Revoked t => "capability " ++ t ++ " was revoked"
  | .Expired t => "capability " ++ t ++ " expired"
  | .ActionNotGranted w => "capability does not grant " ++ w

/-- What a grant allows on the app. `Share` lets the grantee mint narrower
grants under its own key. -/
inductive Action
  | Read
  | Write
  | Exec
  | Share
deriving DecidableEq, Repr

def Action.to_string : Action → String
  | .Read => "read"
  | .Write => "write"
  | .Exec => "exec"
  | .Share => "share"

/-- A signed token. A delegated token embeds its parent. -/
structure Capability where
  token_id : String
  app_id : String
  actions : List Action
  grantee_key : Option String
  device : Option DeviceId
  expires : Option Int
  issued_by : DeviceId
  issued_at : Int
  signature : String
  parent : Option Capability

/-- The outcome of a verification that passed. -/
structure Grant where
  token_id : String
  app_id : String
  can_share : Bool
deriving DecidableEq, Repr

/-- The bytes the signature covers. Of the parent it covers the id alone. -/
def Capability.signing_payload (c : Capability) : Bytes :=
  let actions := ",".intercalate (c.actions.map Action.to_string)
  let base := "\n".intercalate
    [c.token_id, c.app_id, actions, c.grantee_key.getD "-",
      (c.device.map DeviceId.to_string).getD "-", (c.expires.map toString).getD "-",
      c.issued_by.to_string, toString c.issued_at]
  utf8 (match c.parent with
    | none => base
    | some p => base ++ "\n" ++ p.token_id)

/-- The token and its ancestors, from the presented token to the root. -/
def Capability.chain : Capability → List Capability
  | c@⟨_, _, _, _, _, _, _, _, _, none⟩ => [c]
  | c@⟨_, _, _, _, _, _, _, _, _, some p⟩ => c :: p.chain

/-! ## Verification -/

/-- `<data_dir>/share`, as far as verification reads it: which paths are
files. -/
structure ShareStore where
  dir : String
  is_file : String → Bool

/-- `Path::join`: an absolute second part replaces the first. -/
def join (a b : String) : String :=
  if b.toList.head? = some '/' then b else a ++ "/" ++ b

def ShareStore.revoked_dir (st : ShareStore) : String := join st.dir "revoked"

def ShareStore.revoked_path (st : ShareStore) (token_id : String) : String :=
  join st.revoked_dir token_id

/-- `IdentityStore::verify_with_key` on a public key, a message and a
signature. The curve arithmetic is third-party code. -/
abbrev VerifyWithKey := Bytes → Bytes → Bytes → Except Error Bool

def verify (st : ShareStore) (verify_with_key : VerifyWithKey) (now : Int)
    (cap : Capability) (issuer_pubkey : Bytes) (action : Action) : Except ShareError Grant :=
  if ¬ action ∈ cap.actions then
    .error (.ActionNotGranted action.to_string)
  else if st.is_file (st.revoked_path cap.token_id) then
    .error (.Revoked cap.token_id)
  else if cap.expires.any (fun exp => exp ≤ now) then
    .error (.Expired cap.token_id)
  else
    match hex_decode cap.signature with
    | .error e => .error (.InvalidInput ("signature hex: " ++ e.to_string))
    | .ok sig =>
      match verify_with_key issuer_pubkey cap.signing_payload sig with
      | .error e => .error (.Identity e)
      | .ok true => .ok
          { token_id := cap.token_id, app_id := cap.app_id,
            can_share := decide (Action.Share ∈ cap.actions) }
      | .ok false => .error (.BadSignature cap.issued_by.to_string)

/-- The 32 bytes of a grantee key in hex. -/
def grantee_bytes (gk_hex : String) : Except ShareError Bytes :=
  match hex_decode gk_hex with
  | .error e => .error (.InvalidInput ("grantee_key: " ++ e.to_string))
  | .ok gk =>
    if gk.length = 32 then .ok gk else .error (.InvalidInput "grantee_key not 32 bytes")

/-- The narrowing rules of one hop, in the order in which `verify_chain`
checks them, and then the key that must have signed the child. -/
def check_hop (cap parent : Capability) : Except ShareError Bytes :=
  if ¬ Action.Share ∈ parent.actions then
    .error (.InvalidInput "parent token doesn't allow delegation")
  else if cap.app_id ≠ parent.app_id then
    .error (.InvalidInput "sub-token app_id differs from parent")
  else
    match cap.actions.find? (fun a => decide (a ∉ parent.actions)) with
    | some a => .error (.ActionNotGranted (a.to_string ++ " widened beyond parent"))
    | none =>
      match parent.expires, cap.expires with
      | some pe, some ce =>
        if ce > pe then .error (.Expired cap.token_id) else check_device
      | some _, none => .error (.InvalidInput "sub-token must expire within its parent")
      | none, _ => check_device
where
  check_device : Except ShareError Bytes :=
    if parent.device.isSome ∧ parent.device ≠ cap.device then
      .error (.InvalidInput "device restriction widened beyond parent")
    else
      match parent.grantee_key with
      | none => .error (.InvalidInput "bearer parent can't delegate (no grantee key)")
      | some gk_hex => grantee_bytes gk_hex

/-- A token with no parent verifies under the key of its issuer. A child
verifies under the grantee key of its parent, and then its parent must verify
in turn. -/
def verify_chain (st : ShareStore) (verify_with_key : VerifyWithKey) (now : Int)
    (resolve : DeviceId → Option Bytes) (action : Action) : Capability → Except ShareError Grant
  | cap@⟨_, _, _, _, _, _, _, _, _, none⟩ =>
    match resolve cap.issued_by with
    | none => .error (.InvalidInput ("unknown issuer " ++ cap.issued_by.to_string))
    | some pk => verify st verify_with_key now cap pk action
  | cap@⟨_, _, _, _, _, _, _, _, _, some parent⟩ =>
    match check_hop cap parent with
    | .error e => .error e
    | .ok gk =>
      match verify st verify_with_key now cap gk action with
      | .error e => .error e
      | .ok _ => verify_chain st verify_with_key now resolve action parent

/-! ## The chain of a token -/

theorem chain_of_root {c : Capability} (h : c.parent = none) : c.chain = [c] := by
  cases c
  simp only at h
  subst h
  rw [Capability.chain]

theorem chain_of_child {c p : Capability} (h : c.parent = some p) : c.chain = c :: p.chain := by
  cases c
  simp only at h
  subst h
  rw [Capability.chain]

/-- Induction along the chain, from the root to the presented token. -/
theorem chain_induction {P : Capability → Prop} (root : ∀ c, c.parent = none → P c)
    (child : ∀ c p, c.parent = some p → P p → P c) (c : Capability) : P c := by
  induction c using Capability.chain.induct with
  | case1 => exact root _ rfl
  | case2 _ _ _ _ _ _ _ _ _ p ih => exact child _ p rfl ih

theorem self_mem_chain (c : Capability) : c ∈ c.chain := by
  rcases h : c.parent with _ | p
  · simp [chain_of_root h]
  · simp [chain_of_child h]

/-- The chain of an ancestor is a part of the chain of the token. -/
theorem chain_subset (c t : Capability) (ht : t ∈ c.chain) : t.chain ⊆ c.chain := by
  induction c using chain_induction with
  | root c hc =>
    rw [chain_of_root hc, List.mem_singleton] at ht
    rw [ht]
    exact List.Subset.refl _
  | child c p hc ih =>
    rw [chain_of_child hc, List.mem_cons] at ht
    rcases ht with ht | ht
    · rw [ht]
      exact List.Subset.refl _
    · rw [chain_of_child hc]
      exact List.Subset.trans (ih ht) (List.subset_cons_self _ _)

/-- A reflexive and transitive relation that each child has to its parent holds
from the presented token to each of its ancestors. -/
theorem chain_rel {R : Capability → Capability → Prop} (refl : ∀ c, R c c)
    (trans : ∀ a b c, R a b → R b c → R a c) (c : Capability)
    (hop : ∀ t ∈ c.chain, ∀ p, t.parent = some p → R t p) : ∀ t ∈ c.chain, R c t := by
  induction c using chain_induction with
  | root c hc =>
    intro t ht
    rw [chain_of_root hc, List.mem_singleton] at ht
    rw [ht]
    exact refl c
  | child c p hc ih =>
    have hsub : p.chain ⊆ c.chain := by
      rw [chain_of_child hc]
      exact List.subset_cons_self _ _
    intro t ht
    rw [chain_of_child hc, List.mem_cons] at ht
    rcases ht with ht | ht
    · rw [ht]
      exact refl c
    · have hcp := hop c (self_mem_chain c) p hc
      exact trans c p t hcp (ih (fun s hs => hop s (hsub hs)) t ht)

/-! ## What one accepted token gives -/

/-- The signature of the token verifies under the key. -/
def SignedBy (verify_with_key : VerifyWithKey) (pk : Bytes) (c : Capability) : Prop :=
  ∃ sig, hex_decode c.signature = .ok sig ∧ verify_with_key pk c.signing_payload sig = .ok true

/-- The token grants the action, has no tombstone in the store and is not
expired. -/
structure Stands (st : ShareStore) (now : Int) (action : Action) (c : Capability) : Prop where
  grants : action ∈ c.actions
  not_revoked : st.is_file (st.revoked_path c.token_id) = false
  not_expired : ∀ exp, c.expires = some exp → now < exp

/-- The child is no wider than its parent, and the parent may delegate. -/
structure Narrows (c p : Capability) : Prop where
  share : Action.Share ∈ p.actions
  grantee : p.grantee_key.isSome
  app : c.app_id = p.app_id
  actions : c.actions ⊆ p.actions
  expires : ∀ pe, p.expires = some pe → ∃ ce, c.expires = some ce ∧ ce ≤ pe
  device : ∀ d, p.device = some d → c.device = some d

theorem verify_ok {st : ShareStore} {vk : VerifyWithKey} {now : Int} {c : Capability}
    {pk : Bytes} {action : Action} {g : Grant} (h : verify st vk now c pk action = .ok g) :
    Stands st now action c ∧ SignedBy vk pk c := by
  unfold verify at h
  split_ifs at h with hact hrev hexp
  rcases hsig : hex_decode c.signature with e | sig
  · simp [hsig] at h
  · simp only [hsig] at h
    split at h
    · cases h
    · rename_i hvk
      refine ⟨⟨by simpa using hact, by simpa using hrev, ?_⟩, sig, hsig, hvk⟩
      intro exp he
      simpa [he] using hexp
    · cases h

theorem check_device_ok {c p : Capability} {gk : Bytes}
    (h : check_hop.check_device c p = .ok gk) :
    (∀ d, p.device = some d → c.device = some d) ∧
      ∃ gk_hex, p.grantee_key = some gk_hex ∧ hex_decode gk_hex = .ok gk ∧ gk.length = 32 := by
  unfold check_hop.check_device at h
  split_ifs at h with hdev
  refine ⟨?_, ?_⟩
  · intro d hd
    by_contra hne
    exact hdev ⟨by simp [hd], fun he => hne (by rw [← he, hd])⟩
  · split at h
    · cases h
    · rename_i gk_hex hgk
      unfold grantee_bytes at h
      rcases hdec : hex_decode gk_hex with e | b
      · simp [hdec] at h
      · simp only [hdec] at h
        split_ifs at h with hlen
        cases h
        exact ⟨gk_hex, hgk, hdec, hlen⟩

theorem check_hop_ok {c p : Capability} {gk : Bytes} (h : check_hop c p = .ok gk) :
    Narrows c p ∧ ∃ gk_hex, p.grantee_key = some gk_hex ∧ hex_decode gk_hex = .ok gk := by
  unfold check_hop at h
  split_ifs at h with hshare happ
  split at h
  · cases h
  rename_i hfind
  have hsub : c.actions ⊆ p.actions := by
    intro a ha
    have := List.find?_eq_none.mp hfind a ha
    simpa using this
  have hrest : check_hop.check_device c p = .ok gk ∧
      ∀ pe, p.expires = some pe → ∃ ce, c.expires = some ce ∧ ce ≤ pe := by
    split at h
    · rename_i pe ce hpe hce
      split_ifs at h with hlt
      refine ⟨h, ?_⟩
      intro pe' hpe'
      rw [hpe] at hpe'
      cases hpe'
      exact ⟨ce, hce, by omega⟩
    · cases h
    · rename_i hpe
      refine ⟨h, ?_⟩
      intro pe' hpe'
      rw [hpe] at hpe'
      cases hpe'
  obtain ⟨hdev, gk_hex, hgk, hdec, _⟩ := check_device_ok hrest.1
  exact ⟨⟨by simpa using hshare, by simp [hgk], by simpa using happ, hsub, hrest.2, hdev⟩,
    gk_hex, hgk, hdec⟩

/-! ## What an accepted chain gives -/

/-- Each hop of the chain passed its checks. -/
structure Sound (st : ShareStore) (vk : VerifyWithKey) (now : Int)
    (resolve : DeviceId → Option Bytes) (action : Action) (c : Capability) : Prop where
  stands : ∀ t ∈ c.chain, Stands st now action t
  narrows : ∀ t ∈ c.chain, ∀ p, t.parent = some p → Narrows t p
  signed_child : ∀ t ∈ c.chain, ∀ p, t.parent = some p →
    ∃ gk_hex gk, p.grantee_key = some gk_hex ∧ hex_decode gk_hex = .ok gk ∧ SignedBy vk gk t
  signed_root : ∀ t ∈ c.chain, t.parent = none →
    ∃ pk, resolve t.issued_by = some pk ∧ SignedBy vk pk t

section chain
variable {st : ShareStore} {vk : VerifyWithKey} {now : Int} {resolve : DeviceId → Option Bytes}
  {action : Action}

theorem sound_root {c : Capability} {pk : Bytes} (hc : c.parent = none)
    (hpk : resolve c.issued_by = some pk) (hst : Stands st now action c)
    (hsig : SignedBy vk pk c) : Sound st vk now resolve action c := by
  have honly : ∀ t ∈ c.chain, t = c := by
    intro t ht
    simpa [chain_of_root hc] using ht
  refine ⟨?_, ?_, ?_, ?_⟩
  · intro t ht
    rw [honly t ht]
    exact hst
  · intro t ht p hp
    rw [honly t ht, hc] at hp
    cases hp
  · intro t ht p hp
    rw [honly t ht, hc] at hp
    cases hp
  · intro t ht _
    rw [honly t ht]
    exact ⟨pk, hpk, hsig⟩

theorem sound_child {c p : Capability} {gk_hex : String} {gk : Bytes} (hc : c.parent = some p)
    (hp : Sound st vk now resolve action p) (hn : Narrows c p)
    (hhex : p.grantee_key = some gk_hex) (hdec : hex_decode gk_hex = .ok gk)
    (hst : Stands st now action c) (hsig : SignedBy vk gk c) :
    Sound st vk now resolve action c := by
  have hcases : ∀ t ∈ c.chain, t = c ∨ t ∈ p.chain := by
    intro t ht
    rwa [chain_of_child hc, List.mem_cons] at ht
  refine ⟨?_, ?_, ?_, ?_⟩
  · intro t ht
    rcases hcases t ht with he | hm
    · rw [he]
      exact hst
    · exact hp.stands t hm
  · intro t ht q hq
    rcases hcases t ht with he | hm
    · rw [he, hc] at hq
      cases hq
      rw [he]
      exact hn
    · exact hp.narrows t hm q hq
  · intro t ht q hq
    rcases hcases t ht with he | hm
    · rw [he, hc] at hq
      cases hq
      rw [he]
      exact ⟨gk_hex, gk, hhex, hdec, hsig⟩
    · exact hp.signed_child t hm q hq
  · intro t ht hnone
    rcases hcases t ht with he | hm
    · rw [he, hc] at hnone
      cases hnone
    · exact hp.signed_root t hm hnone

/-- The chain that `verify_chain` accepts passed the checks at every hop. -/
theorem verify_chain_ok {c : Capability} {g : Grant}
    (h : verify_chain st vk now resolve action c = .ok g) :
    Sound st vk now resolve action c := by
  induction c using chain_induction generalizing g with
  | root c hc =>
    obtain ⟨_, _, _, _, _, _, _, _, _, par⟩ := c
    simp only at hc
    subst hc
    rw [verify_chain] at h
    split at h
    · cases h
    · rename_i pk hpk
      obtain ⟨hst, hsig⟩ := verify_ok h
      exact sound_root rfl hpk hst hsig
  | child c p hc ih =>
    obtain ⟨_, _, _, _, _, _, _, _, _, par⟩ := c
    simp only at hc
    subst hc
    rw [verify_chain] at h
    split at h
    · cases h
    · rename_i gk hhop
      split at h
      · cases h
      · rename_i g' hver
        obtain ⟨hn, gk_hex, hhex, hdec⟩ := check_hop_ok hhop
        obtain ⟨hst, hsig⟩ := verify_ok hver
        exact sound_child rfl (ih h) hn hhex hdec hst hsig

namespace Sound
variable {c : Capability}

/-- Every ancestor of an accepted token is accepted. -/
theorem ancestor (hs : Sound st vk now resolve action c) {t : Capability} (ht : t ∈ c.chain) :
    Sound st vk now resolve action t :=
  have hsub := chain_subset c t ht
  ⟨fun s h => hs.stands s (hsub h), fun s h => hs.narrows s (hsub h),
    fun s h => hs.signed_child s (hsub h), fun s h => hs.signed_root s (hsub h)⟩

theorem app (hs : Sound st vk now resolve action c) : ∀ t ∈ c.chain, c.app_id = t.app_id :=
  chain_rel (R := fun a b => a.app_id = b.app_id) (fun _ => rfl)
    (fun _ _ _ h1 h2 => h1.trans h2) c (fun t ht p hp => (hs.narrows t ht p hp).app)

theorem actions (hs : Sound st vk now resolve action c) :
    ∀ t ∈ c.chain, c.actions ⊆ t.actions :=
  chain_rel (R := fun a b => a.actions ⊆ b.actions) (fun _ => List.Subset.refl _)
    (fun _ _ _ h1 h2 => List.Subset.trans h1 h2) c
    (fun t ht p hp => (hs.narrows t ht p hp).actions)

theorem device (hs : Sound st vk now resolve action c) :
    ∀ t ∈ c.chain, ∀ d, t.device = some d → c.device = some d :=
  chain_rel (R := fun a b => ∀ d, b.device = some d → a.device = some d) (fun _ _ h => h)
    (fun _ _ _ h1 h2 d hd => h1 d (h2 d hd)) c (fun t ht p hp => (hs.narrows t ht p hp).device)

theorem expires (hs : Sound st vk now resolve action c) :
    ∀ t ∈ c.chain, ∀ e, t.expires = some e → ∃ ce, c.expires = some ce ∧ ce ≤ e := by
  refine chain_rel (R := fun a b => ∀ e, b.expires = some e → ∃ ce, a.expires = some ce ∧ ce ≤ e)
    (fun _ e he => ⟨e, he, Int.le_refl e⟩) ?_ c (fun t ht p hp => (hs.narrows t ht p hp).expires)
  intro x y z hxy hyz e he
  obtain ⟨e1, he1, hle1⟩ := hyz e he
  obtain ⟨e2, he2, hle2⟩ := hxy e1 he1
  exact ⟨e2, he2, Int.le_trans hle2 hle1⟩

end Sound

/-! ## The law of the chain -/

/-- When `verify_chain` accepts a token for an action, the authority of the
whole chain stands. Every token of the chain grants the action, names the same
app, is not expired and has no tombstone. Every parent may share and names a
grantee key. Each child is signed by its parent's grantee and the root by the
issuer that `resolve` knows. No token is wider than an ancestor, and the device
restriction of an ancestor is the one of the presented token. -/
theorem an_accepted_chain_never_widens_authority (c : Capability) (g : Grant)
    (h : verify_chain st vk now resolve action c = .ok g) :
    (∀ t ∈ c.chain, action ∈ t.actions ∧ t.app_id = c.app_id) ∧
    (∀ t ∈ c.chain, ∀ p, t.parent = some p →
      Action.Share ∈ p.actions ∧ ∃ gk_hex gk, p.grantee_key = some gk_hex ∧
        hex_decode gk_hex = .ok gk ∧ SignedBy vk gk t) ∧
    (∀ t ∈ c.chain, t.parent = none →
      ∃ pk, resolve t.issued_by = some pk ∧ SignedBy vk pk t) ∧
    (∀ t ∈ c.chain, ∀ p ∈ t.chain, t.actions ⊆ p.actions) ∧
    (∀ t ∈ c.chain, ∀ p ∈ t.chain, ∀ pe, p.expires = some pe →
      ∃ te, t.expires = some te ∧ te ≤ pe) ∧
    (∀ t ∈ c.chain, ∀ e, t.expires = some e → now < e) ∧
    (∀ t ∈ c.chain, ∀ d, t.device = some d → c.device = some d) ∧
    (∀ t ∈ c.chain, st.is_file (st.revoked_path t.token_id) = false) := by
  have hs := verify_chain_ok h
  refine ⟨?_, ?_, hs.signed_root, ?_, ?_, ?_, hs.device, ?_⟩
  · intro t ht
    exact ⟨(hs.stands t ht).grants, (hs.app t ht).symm⟩
  · intro t ht p hp
    exact ⟨(hs.narrows t ht p hp).share, hs.signed_child t ht p hp⟩
  · intro t ht
    exact (hs.ancestor ht).actions
  · intro t ht
    exact (hs.ancestor ht).expires
  · intro t ht
    exact (hs.stands t ht).not_expired
  · intro t ht
    exact (hs.stands t ht).not_revoked

end chain

/-- A store with no tombstone. -/
def emptyShare : ShareStore := { dir := "share", is_file := fun _ => false }

/-- A root token of `laptop`, bound to a grantee that may share it on. -/
def rootToken : Capability :=
  { token_id := "root", app_id := "notes", actions := [.Exec, .Share],
    grantee_key := some "1111111111111111111111111111111111111111111111111111111111111111",
    device := some ⟨"desktop"⟩, expires := some 200, issued_by := ⟨"laptop"⟩, issued_at := 100,
    signature := "0a", parent := none }

/-- A narrower token that the grantee of `rootToken` minted. -/
def subToken : Capability :=
  { token_id := "sub", app_id := "notes", actions := [.Exec], grantee_key := none,
    device := some ⟨"desktop"⟩, expires := some 150, issued_by := ⟨"phone"⟩, issued_at := 110,
    signature := "0b", parent := some rootToken }

theorem a_two_token_chain_never_widens_authority :
    verify_chain emptyShare (fun _ _ _ => .ok true) 120 (fun _ => some []) .Exec subToken =
      .ok { token_id := "root", app_id := "notes", can_share := true } ∧
    ∀ t ∈ subToken.chain, Action.Exec ∈ t.actions ∧ t.app_id = subToken.app_id := by
  have h : verify_chain emptyShare (fun _ _ _ => .ok true) 120 (fun _ => some []) .Exec
      subToken = .ok { token_id := "root", app_id := "notes", can_share := true } := by
    rfl
  exact ⟨h, (an_accepted_chain_never_widens_authority subToken _ h).1⟩

end pai_share
