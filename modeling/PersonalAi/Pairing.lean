-- Pairing over files (pai-sync pair.rs), in its bytes: what the signature of a message covers, and
-- what a call that fails leaves in the table of peers.
import PersonalAi.Lib.Chars
import PersonalAi.Lib.Program
import PersonalAi.Lib.Uuid
import PersonalAi.StoredKeys

open pai_core program table text pai_identity.keystore

namespace pai_sync.pair

/-! ## Messages -/

/-- One side of the exchange. Keys, the sealed vault key and the signature are in hex. -/
structure PairingMessage where
  kind : String
  device_id : String
  name : String
  platform : String
  ed_pubkey : String
  agree_pubkey : String
  vault_sealed : String
  signature : String
deriving DecidableEq, Repr

/-- A device recorded as trusted. -/
structure SyncPeer where
  device_id : DeviceId
  name : String
  platform : String
  ed_pubkey : Key
  agree_pubkey : Key
  paired_at : Timestamp
deriving DecidableEq

/-- Third-party arithmetic: which bytes are an ed25519 key, its verification, the key that two
agreement keys give, and the cipher with its nonce and associated data. -/
structure Crypto where
  is_key : Key → Bool
  verify : Key → Bytes → Bytes → Bool
  peer_key : Key → Key → Key
  encrypt : Key → Bytes → Bytes → Bytes → Option Bytes
  decrypt : Key → Bytes → Bytes → Bytes → Option Bytes

def DOMAIN : Bytes := utf8 "pai-pair-v1"

def VAULT_AAD : Bytes := utf8 "pai-sync-v1 vault-handoff"

def transcript (m : PairingMessage) : Bytes :=
  DOMAIN ++ utf8 m.kind ++ utf8 m.device_id ++ utf8 m.ed_pubkey ++ utf8 m.agree_pubkey ++
    utf8 m.vault_sealed

def hex32 (s : String) : Except Error Key :=
  match hex_decode s with
  | .error e => .error (.InvalidInput ("bad hex: " ++ e.to_string))
  | .ok raw =>
    match to_key raw with
    | some k => .ok k
    | none => .error (.InvalidInput "expected 32 bytes")

def PairingMessage.verify (x : Crypto) (m : PairingMessage) : Except Error Unit :=
  match hex32 m.ed_pubkey with
  | .error e => .error e
  | .ok ed =>
    if x.is_key ed = false then .error (.InvalidInput "bad ed25519 pubkey")
    else
      match hex_decode m.signature with
      | .error e => .error (.InvalidInput ("bad signature hex: " ++ e.to_string))
      | .ok sig =>
        if sig.length ≠ 64 then .error (.InvalidInput "bad signature")
        else if x.verify ed (transcript m) sig then .ok ()
        else .error (.PermissionDenied "pairing message signature invalid")

/-- The record that a message attests to. -/
def PairingMessage.peer (m : PairingMessage) (now : Timestamp) : Except Error SyncPeer :=
  match uuid.parse_str m.device_id with
  | none => .error (.InvalidInput "bad device id")
  | some id =>
    match hex32 m.ed_pubkey, hex32 m.agree_pubkey with
    | .ok ed, .ok agree => .ok
        { device_id := ⟨id⟩, name := m.name, platform := m.platform, ed_pubkey := ed,
          agree_pubkey := agree, paired_at := now }
    | .error e, _ => .error e
    | .ok _, .error e => .error e

/-! ## The table of peers -/

abbrev SyncPeers := Table DeviceId SyncPeer

/-- An upsert: a row that is there keeps the time of its pairing. -/
def add_peer (peers : SyncPeers) (p : SyncPeer) : SyncPeers :=
  peers.insert p.device_id
    (match peers.lookup p.device_id with
    | some old => { p with paired_at := old.paired_at }
    | none => p)

/-! ## Sealing -/

def SEAL_VER : UInt8 := 1

/-- `crypto::seal`, with the nonce that it draws. -/
def seal_v1 (x : Crypto) (key : Key) (nonce aad plaintext : Bytes) : Except Error Bytes :=
  match x.encrypt key nonce aad plaintext with
  | none => .error (.Sync "seal failed")
  | some ct => .ok (SEAL_VER :: (nonce ++ ct))

/-- `crypto::open`. -/
def open_v1 (x : Crypto) (key : Key) (aad blob : Bytes) : Except Error Bytes :=
  if blob.length < 1 + 24 + 16 ∨ blob.head? ≠ some SEAL_VER then
    .error (.Sync "not a v1 sealed blob")
  else
    match x.decrypt key ((blob.drop 1).take 24) aad (blob.drop 25) with
    | none => .error (.Sync "sealed blob failed authentication")
    | some plain => .ok plain

/-! ## The two calls -/

/-- What a call reads and changes: the rows of `sync_peers`, and the keys of the account. -/
structure Here where
  peers : SyncPeers
  account : Account

/-- What the surroundings give to one call. -/
structure Surroundings where
  now : Timestamp
  execute : Except Error Unit
  answers : Answers
  nonce : Bytes
  sign : Bytes → Except Error Bytes

/-- The record of this device, and the secret of its agreement key. -/
structure Self where
  id : DeviceId
  name : String
  platform : String
  public_key : Bytes
  agree_public : Key
  agree_secret : Key

/-- Both calls check the message, write the row, and go on from there. -/
def record_then {α : Type} (env : Surroundings) (s : Here) (checked : Except Error SyncPeer)
    (go_on : Here → Except Error α × Here) : Except Error α × Here :=
  match checked with
  | .error e => (.error e, s)
  | .ok p =>
    match env.execute with
    | .error e => (.error e, s)
    | .ok () => go_on { s with peers := add_peer s.peers p }

def check_offer (x : Crypto) (env : Surroundings) (me : Self) (offer : PairingMessage) :
    Except Error SyncPeer :=
  if offer.kind ≠ "offer" then .error (.InvalidInput "not a pairing offer")
  else
    match offer.verify x with
    | .error e => .error e
    | .ok () =>
      if offer.device_id = me.id.to_string then .error (.InvalidInput "cannot pair with self")
      else offer.peer env.now

def check_accept (x : Crypto) (env : Surroundings) (accept : PairingMessage) :
    Except Error SyncPeer :=
  if accept.kind ≠ "accept" then .error (.InvalidInput "not a pairing accept")
  else
    match accept.verify x with
    | .error e => .error e
    | .ok () => accept.peer env.now

/-- The message of this device before it is signed. -/
def Self.message (me : Self) (kind vault_sealed : String) : PairingMessage :=
  { kind := kind, device_id := me.id.to_string, name := me.name, platform := me.platform,
    ed_pubkey := pai_share.guest.hex_encode me.public_key,
    agree_pubkey := pai_share.guest.hex_encode me.agree_public.val, vault_sealed := vault_sealed,
    signature := "" }

/-- The end of `accept_offer`: the vault key is sealed to the offerer. -/
def answer (x : Crypto) (env : Surroundings) (me : Self) (offer : PairingMessage) (vault : Key) :
    Except Error PairingMessage := do
  let offerer_agree ← hex32 offer.agree_pubkey
  let sealed ← seal_v1 x (x.peer_key me.agree_secret offerer_agree) env.nonce VAULT_AAD vault.val
  let m := me.message "accept" (pai_share.guest.hex_encode sealed)
  let sig ← env.sign (transcript m)
  return { m with signature := pai_share.guest.hex_encode sig }

def sealed_bytes (m : PairingMessage) : Except Error Bytes :=
  match hex_decode m.vault_sealed with
  | .error e => .error (.InvalidInput ("bad vault_sealed hex: " ++ e.to_string))
  | .ok blob => .ok blob

def vault_of (plain : Bytes) : Except Error Key :=
  match to_key plain with
  | none => .error (.Sync "vault key wrong length")
  | some vault => .ok vault

/-- The middle of `complete_pairing`: the vault key that the acceptor sealed. -/
def unwrap_vault (x : Crypto) (me : Self) (accept : PairingMessage) : Except Error Key := do
  let acceptor_agree ← hex32 accept.agree_pubkey
  let blob ← sealed_bytes accept
  let plain ← open_v1 x (x.peer_key me.agree_secret acceptor_agree) VAULT_AAD blob
  vault_of plain

section Calls
variable (sha256 : Bytes → Bytes) (x : Crypto) (env : Surroundings) (me : Self) (dir : String)

/-- The rest of `accept_offer`. -/
def send_vault (offer : PairingMessage) (s : Here) : Except Error PairingMessage × Here :=
  match vault_key_or_generate sha256 s.account dir env.answers with
  | (.error e, account) => (.error e, { s with account })
  | (.ok vault, account) => (answer x env me offer vault, { s with account })

def accept_offer (s : Here) (offer : PairingMessage) : Except Error PairingMessage × Here :=
  record_then env s (check_offer x env me offer) (send_vault sha256 x env me dir offer)

/-- The rest of `complete_pairing`. -/
def take_vault (accept : PairingMessage) (s : Here) : Except Error Key × Here :=
  match unwrap_vault x me accept with
  | .error e => (.error e, s)
  | .ok vault =>
    match adopt_vault_key sha256 s.account dir vault env.answers with
    | (.error e, account) => (.error e, { s with account })
    | (.ok (), account) => (.ok vault, { s with account })

def complete_pairing (s : Here) (accept : PairingMessage) : Except Error Key × Here :=
  record_then env s (check_accept x env accept) (take_vault sha256 x env me dir accept)

end Calls

/-! ## What the signature covers -/

/-- A signature verifies for one message only. -/
def Crypto.Binding (x : Crypto) : Prop :=
  ∀ key msg msg' sig, x.verify key msg sig = true → x.verify key msg' sig = true → msg = msg'

theorem hex32_ok {s : String} {k : Key} (h : hex32 s = .ok k) : hex_decode s = .ok k.val := by
  unfold hex32 at h
  split at h
  · cases h
  · rename_i raw hraw
    split at h
    · rename_i k' hk
      cases h
      rw [hraw, to_key_eq hk]
    · cases h

theorem hex32_length {s : String} {k : Key} (h : hex32 s = .ok k) : (utf8 s).length = 64 := by
  rw [hex_decode_length (hex32_ok h), k.property]

/-- A message that verifies carries a signature of its transcript. -/
theorem verify_ok {x : Crypto} {m : PairingMessage} (h : m.verify x = .ok ()) :
    ∃ ed sig, hex32 m.ed_pubkey = .ok ed ∧ hex_decode m.signature = .ok sig ∧
      x.verify ed (transcript m) sig = true := by
  unfold PairingMessage.verify at h
  cases hed : hex32 m.ed_pubkey with
  | error e =>
    rw [hed] at h
    cases h
  | ok ed =>
    rw [hed] at h
    dsimp only at h
    split at h
    · cases h
    · cases hsig : hex_decode m.signature with
      | error e =>
        rw [hsig] at h
        cases h
      | ok sig =>
        rw [hsig] at h
        dsimp only at h
        split at h
        · cases h
        · split at h
          · rename_i hverify
            exact ⟨ed, sig, rfl, rfl, hverify⟩
          · cases h

theorem peer_ok {m : PairingMessage} {now : Timestamp} {p : SyncPeer} (h : m.peer now = .ok p) :
    uuid.parse_str m.device_id = some p.device_id.text ∧ p.name = m.name ∧
      p.platform = m.platform ∧ hex32 m.ed_pubkey = .ok p.ed_pubkey ∧
      hex32 m.agree_pubkey = .ok p.agree_pubkey := by
  unfold PairingMessage.peer at h
  split at h
  · cases h
  · rename_i id hid
    split at h
    · rename_i ed agree hed hagree
      cases h
      exact ⟨hid, rfl, rfl, hed, hagree⟩
    · cases h
    · cases h

/-- The kinds differ in their first byte. -/
theorem kind_prefix_free {k k' : String} {x y : Bytes} (hk : k = "offer" ∨ k = "accept")
    (hk' : k' = "offer" ∨ k' = "accept") (h : utf8 k ++ x = utf8 k' ++ y) : k = k' := by
  have hfirst : (utf8 k).head? = (utf8 k').head? := by
    have hhead := congrArg List.head? h
    rcases hk with rfl | rfl <;> rcases hk' with rfl | rfl <;> exact hhead
  rcases hk with rfl | rfl <;> rcases hk' with rfl | rfl
  · rfl
  · exact absurd hfirst (by decide)
  · exact absurd hfirst (by decide)
  · rfl

/-- The transcript has no marks between its parts, but it says all of them where they can be read. -/
theorem transcript_says {m m' : PairingMessage} {now now' : Timestamp} {p p' : SyncPeer}
    (hk : m.kind = "offer" ∨ m.kind = "accept") (hk' : m'.kind = "offer" ∨ m'.kind = "accept")
    (hp : m.peer now = .ok p) (hp' : m'.peer now' = .ok p') (h : transcript m = transcript m') :
    m.kind = m'.kind ∧ m.device_id = m'.device_id ∧ m.ed_pubkey = m'.ed_pubkey ∧
      m.agree_pubkey = m'.agree_pubkey ∧ m.vault_sealed = m'.vault_sealed := by
  obtain ⟨hid, -, -, hed, hagree⟩ := peer_ok hp
  obtain ⟨hid', -, -, hed', hagree'⟩ := peer_ok hp'
  unfold transcript at h
  simp only [List.append_assoc, List.append_cancel_left_eq] at h
  have hkind := kind_prefix_free hk hk' h
  rw [hkind, List.append_cancel_left_eq] at h
  obtain ⟨ds, hds, -⟩ := Option.map_eq_some_iff.mp hid
  obtain ⟨es, hes, -⟩ := Option.map_eq_some_iff.mp hid'
  obtain ⟨hdevice, hkeys⟩ := uuid.digits_prefix_free hds hes h
  obtain ⟨hsigner, hrest⟩ := List.append_inj hkeys (by rw [hex32_length hed, hex32_length hed'])
  obtain ⟨hagreement, hvault⟩ :=
    List.append_inj hrest (by rw [hex32_length hagree, hex32_length hagree'])
  exact ⟨hkind, utf8_inj.mp hdevice, utf8_inj.mp hsigner, utf8_inj.mp hagreement,
    utf8_inj.mp hvault⟩

def zeros (n : Nat) : String := String.ofList (List.replicate n '0')

theorem utf8_zeros (n : Nat) : utf8 (zeros n) = List.replicate n 48 := by
  unfold utf8 zeros
  rw [String.toList_ofList]
  induction n with
  | zero => rfl
  | succ n ih =>
    rw [List.replicate_succ, List.flatMap_cons, ih]
    rfl

theorem hex_zeros {m n : Nat} (h : m = 2 * n) :
    hex_decode (zeros m) = .ok (List.replicate n 0) := by
  have hpairs : ∀ i, hexPairs i (List.replicate (2 * n) 48) = .ok (List.replicate n 0) := by
    clear h
    induction n with
    | zero => exact fun i => rfl
    | succ n ih =>
      intro i
      rw [Nat.mul_succ, List.replicate_succ, List.replicate_succ, hexPairs, ih]
      rfl
  unfold hex_decode
  rw [utf8_zeros, h, if_neg (by simp), hpairs]

def zero_key : Key := ⟨List.replicate 32 0, rfl⟩

theorem hex32_zeros : hex32 (zeros 64) = .ok zero_key := by
  unfold hex32
  rw [@hex_zeros 64 32 rfl]
  rfl

/-- An offer of a phone. -/
def phone_offer : PairingMessage :=
  { kind := "offer", device_id := "67e55044-10b1-426f-9247-bb680e5fe0c8", name := "Phone",
    platform := "android", ed_pubkey := zeros 64, agree_pubkey := zeros 64, vault_sealed := "",
    signature := zeros 128 }

/-- One message is signed, and the cipher opens everything to one vault key. -/
def verify_only (signed : PairingMessage) : Crypto where
  is_key _ := true
  verify _ msg _ := msg = transcript signed
  peer_key mine _ := mine
  encrypt _ _ _ _ := none
  decrypt _ _ _ _ := some (List.replicate 32 7)

theorem verify_only_binding (signed : PairingMessage) : (verify_only signed).Binding := by
  intro key msg msg' sig h h'
  have hmsg : msg = transcript signed := by simpa [verify_only] using h
  have hmsg' : msg' = transcript signed := by simpa [verify_only] using h'
  rw [hmsg, hmsg']

theorem zeros_verify {m signed : PairingMessage} (hed : m.ed_pubkey = zeros 64)
    (hsig : m.signature = zeros 128) (h : transcript m = transcript signed) :
    m.verify (verify_only signed) = .ok () := by
  unfold PairingMessage.verify
  rw [hed, hex32_zeros, hsig, @hex_zeros 128 64 rfl]
  simp [verify_only, h]

/-- The phone's offer under another name. -/
def renamed_offer : PairingMessage := { phone_offer with name := "Laptop", platform := "linux" }

def phone_peer (name platform : String) : SyncPeer :=
  { device_id := ⟨"67e55044-10b1-426f-9247-bb680e5fe0c8"⟩, name := name, platform := platform,
    ed_pubkey := zero_key, agree_pubkey := zero_key, paired_at := 0 }

theorem zeros_peer {m : PairingMessage} (hid : m.device_id = phone_offer.device_id)
    (hed : m.ed_pubkey = zeros 64) (hagree : m.agree_pubkey = zeros 64) :
    m.peer 0 = .ok (phone_peer m.name m.platform) := by
  have hread : uuid.parse_str phone_offer.device_id = some phone_offer.device_id := by
    decide +kernel
  unfold PairingMessage.peer
  rw [hid, hread, hed, hagree, hex32_zeros]
  rfl

def Fails {α : Type} (r : Except Error α × Here) : Prop := ∃ e, r.1 = .error e

/-- The two tables have the same rows. -/
def SamePeers (a b : SyncPeers) : Prop := ∀ id, a.lookup id = b.lookup id

/-- The row of this peer is there already, with the same keys and the same names. -/
def Recorded (peers : SyncPeers) (p : SyncPeer) : Prop :=
  ∃ since, peers.lookup p.device_id = some { p with paired_at := since }

section Failures
variable (sha256 : Bytes → Bytes) (x : Crypto) (env : Surroundings) (me : Self) (dir : String)

/-- What `vault_key` reads: the entry that the keystore loads, or else the file. -/
def readable (s : Account) (ans : Answers) : Option Bytes :=
  (load s (Place.name sha256 ⟨dir, .vault⟩) ans).or (s.files.lookup ⟨dir, .vault⟩)

/-- The keystore or the file takes a new key. -/
def Storable (ans : Answers) : Prop := ans.store = true ∨ ans.write = true

/-- This vault key is in force here, or can come into force. -/
def Adoptable (s : Account) (vault : Key) (ans : Answers) : Prop :=
  readable sha256 dir s ans = some vault.val ∨ (readable sha256 dir s ans = none ∧ Storable ans)

/-- The accept message carries this vault key, sealed for this device. -/
def Hands (accept : PairingMessage) (vault : Key) : Prop :=
  ∃ acceptor_agree blob, hex32 accept.agree_pubkey = .ok acceptor_agree ∧
    hex_decode accept.vault_sealed = .ok blob ∧
    open_v1 x (x.peer_key me.agree_secret acceptor_agree) VAULT_AAD blob = .ok vault.val

/-- The vault key can be sealed to the offerer, and the answer can be signed. -/
def Sends (offer : PairingMessage) (vault : Key) : Prop :=
  ∃ offerer_agree ct sig, hex32 offer.agree_pubkey = .ok offerer_agree ∧
    x.encrypt (x.peer_key me.agree_secret offerer_agree) env.nonce VAULT_AAD vault.val = some ct ∧
    env.sign (transcript (me.message "accept"
      (pai_share.guest.hex_encode (SEAL_VER :: (env.nonce ++ ct))))) = .ok sig

/-- Where `complete_pairing` gets as far as writing the row, the row is there already, or the vault
key arrives and can be adopted. -/
def CompletesOnceRecorded (s : Here) (accept : PairingMessage) : Prop :=
  ∀ p, check_accept x env accept = .ok p → env.execute = .ok () →
    Recorded s.peers p ∨
      ∃ vault, Hands x me accept vault ∧ Adoptable sha256 dir s.account vault env.answers

/-- Where `accept_offer` gets as far as writing the row, the row is there already, or this device has
or can make a vault key and sends it. -/
def AnswersOnceRecorded (s : Here) (offer : PairingMessage) : Prop :=
  ∀ p, check_offer x env me offer = .ok p → env.execute = .ok () →
    Recorded s.peers p ∨
      ∃ vault, Adoptable sha256 dir s.account vault env.answers ∧
        (readable sha256 dir s.account env.answers = none → vault = env.answers.fresh) ∧
        Sends x env me offer vault

/-- The three answers of `vault_key`, by what there is to read. -/
theorem vault_key_reads (s : Account) (ans : Answers) :
    (readable sha256 dir s ans = none ∧ vault_key sha256 s dir ans = (.ok none, s)) ∨
    (∃ k, readable sha256 dir s ans = some k.val ∧ (vault_key sha256 s dir ans).1 = .ok (some k)) ∨
    (∃ b e, readable sha256 dir s ans = some b ∧ to_key b = none ∧
      (vault_key sha256 s dir ans).1 = .error e) := by
  unfold readable vault_key
  dsimp only
  cases load s (Place.name sha256 ⟨dir, .vault⟩) ans with
  | some b =>
    cases hkey : to_key b with
    | some k => exact .inr (.inl ⟨k, by simp [to_key_eq hkey], by simp [hkey]⟩)
    | none =>
      exact .inr (.inr ⟨b, .Sync "corrupt sync-vault key", by simp, hkey, by simp [hkey]⟩)
  | none =>
    cases s.files.lookup ⟨dir, .vault⟩ with
    | none => exact .inl ⟨by simp, by simp⟩
    | some b =>
      cases hkey : to_key b with
      | some k => exact .inr (.inl ⟨k, by simp [to_key_eq hkey], by simp [hkey]⟩)
      | none =>
        exact .inr (.inr ⟨b, .Sync "corrupt sync-vault.key", by simp, hkey, by simp [hkey]⟩)

theorem persist_iff (s : Account) (p : Place) (k : Key) (ans : Answers) :
    (persist sha256 s p k ans).isSome ↔ Storable ans := by
  unfold persist Storable
  cases ans.store <;> cases ans.write <;> simp

variable {sha256 x env me dir}

theorem to_key_val (k : Key) : to_key k.val = some k := by
  unfold to_key
  rw [dif_pos k.property]

theorem same_peers_add_iff {peers : SyncPeers} {p : SyncPeer} :
    SamePeers peers (add_peer peers p) ↔ Recorded peers p := by
  unfold SamePeers add_peer Recorded
  simp only [lookup_insert_if]
  constructor
  · intro h
    have hrow := h p.device_id
    rw [if_pos rfl] at hrow
    cases hold : peers.lookup p.device_id with
    | none => simp [hold] at hrow
    | some old =>
      simp only [hold, Option.some.injEq] at hrow
      exact ⟨old.paired_at, by rw [← hrow]⟩
  · rintro ⟨since, hrow⟩ id
    rw [hrow]
    split
    · rename_i hid
      rw [hid, hrow]
    · rfl

/-- A row that was written stays behind where the rest fails. -/
theorem record_then_clean_iff {α : Type} {s : Here} {checked : Except Error SyncPeer}
    {go_on : Here → Except Error α × Here} (hgo : ∀ s, (go_on s).2.peers = s.peers) :
    (Fails (record_then env s checked go_on) →
        SamePeers s.peers (record_then env s checked go_on).2.peers) ↔
      ∀ p, checked = .ok p → env.execute = .ok () →
        Recorded s.peers p ∨ ∃ a, (go_on { s with peers := add_peer s.peers p }).1 = .ok a := by
  unfold record_then
  cases checked with
  | error e => simp [SamePeers]
  | ok p =>
    cases hexecute : env.execute with
    | error e => simp [SamePeers]
    | ok u =>
      simp only [hgo, same_peers_add_iff, Except.ok.injEq, forall_eq']
      constructor
      · intro h _
        rcases hr : (go_on { s with peers := add_peer s.peers p }).1 with e | a
        · exact .inl (h ⟨e, hr⟩)
        · exact .inr ⟨a, rfl⟩
      · rintro h ⟨e, he⟩
        rcases h trivial with hrow | ⟨a, ha⟩
        · exact hrow
        · rw [he] at ha
          cases ha

/-- What is no key has other bytes than every key. -/
theorem val_ne_of_bad {b : Bytes} {k : Key} (hbad : to_key b = none) : ¬ b = k.val := by
  rintro rfl
  rw [to_key_val] at hbad
  cases hbad

theorem adopt_ok_iff {s : Account} {k : Key} {ans : Answers} :
    (adopt_vault_key sha256 s dir k ans).1 = .ok () ↔ Adoptable sha256 dir s k ans := by
  unfold adopt_vault_key Adoptable
  rcases vault_key_reads sha256 dir s ans with
    ⟨hnone, hv⟩ | ⟨existing, hsome, hv⟩ | ⟨b, e, hsome, hbad, hv⟩
  · have hstore := persist_iff sha256 s ⟨dir, .vault⟩ k ans
    rw [hv, hnone]
    unfold store_vault
    cases hp : persist sha256 s ⟨dir, .vault⟩ k ans with
    | none => simp [hp] at hstore; simp [hp, hstore]
    | some s' => simp [hp] at hstore; simp [hp, hstore]
  · rcases hr : vault_key sha256 s dir ans with ⟨r, s'⟩
    obtain rfl : r = .ok (some existing) := by rw [← hv, hr]
    rw [hsome]
    by_cases heq : existing = k
    · simp [heq]
    · have hval : ¬ existing.val = k.val := fun h => heq (Subtype.ext h)
      simp [heq, hval]
  · rcases hr : vault_key sha256 s dir ans with ⟨r, s'⟩
    obtain rfl : r = .error e := by rw [← hv, hr]
    rw [hsome]
    simp [val_ne_of_bad hbad]

theorem generate_ok_iff {s : Account} {k : Key} {ans : Answers} :
    (vault_key_or_generate sha256 s dir ans).1 = .ok k ↔
      Adoptable sha256 dir s k ans ∧ (readable sha256 dir s ans = none → k = ans.fresh) := by
  unfold vault_key_or_generate Adoptable
  rcases vault_key_reads sha256 dir s ans with
    ⟨hnone, hv⟩ | ⟨existing, hsome, hv⟩ | ⟨b, e, hsome, hbad, hv⟩
  · have hstore := persist_iff sha256 s ⟨dir, .vault⟩ ans.fresh ans
    rw [hv, hnone]
    unfold store_vault
    cases hp : persist sha256 s ⟨dir, .vault⟩ ans.fresh ans with
    | none => simp [hp] at hstore; simp [hp, hstore]
    | some s' => simp [hp] at hstore; simp [hp, hstore, eq_comm]
  · rcases hr : vault_key sha256 s dir ans with ⟨r, s'⟩
    obtain rfl : r = .ok (some existing) := by rw [← hv, hr]
    rw [hsome]
    simp [Subtype.ext_iff]
  · rcases hr : vault_key sha256 s dir ans with ⟨r, s'⟩
    obtain rfl : r = .error e := by rw [← hv, hr]
    rw [hsome]
    simp [val_ne_of_bad hbad]

theorem sealed_bytes_ok_iff {m : PairingMessage} {blob : Bytes} :
    sealed_bytes m = .ok blob ↔ hex_decode m.vault_sealed = .ok blob := by
  unfold sealed_bytes
  cases hex_decode m.vault_sealed <;> simp

theorem vault_of_ok_iff {plain : Bytes} {vault : Key} :
    vault_of plain = .ok vault ↔ plain = vault.val := by
  unfold vault_of
  cases hplain : to_key plain with
  | none =>
    simp only [reduceCtorEq, false_iff]
    exact val_ne_of_bad hplain
  | some k =>
    obtain rfl := to_key_eq hplain
    simp only [Except.ok.injEq]
    exact Subtype.ext_iff

theorem unwrap_ok_iff {accept : PairingMessage} {vault : Key} :
    unwrap_vault x me accept = .ok vault ↔ Hands x me accept vault := by
  unfold unwrap_vault Hands
  simp only [bind_eq_ok, sealed_bytes_ok_iff, vault_of_ok_iff, exists_eq_right]
  constructor
  · rintro ⟨acceptor_agree, hagree, blob, hblob, hopen⟩
    exact ⟨acceptor_agree, blob, hagree, hblob, hopen⟩
  · rintro ⟨acceptor_agree, blob, hagree, hblob, hopen⟩
    exact ⟨acceptor_agree, hagree, blob, hblob, hopen⟩

theorem answer_ok_iff {offer : PairingMessage} {vault : Key} :
    (∃ m, answer x env me offer vault = .ok m) ↔ Sends x env me offer vault := by
  unfold answer Sends
  simp only [bind_eq_ok, pure, Except.pure, Except.ok.injEq]
  constructor
  · rintro ⟨m, offerer_agree, hagree, sealed, hseal, sig, hsign, -⟩
    unfold seal_v1 at hseal
    split at hseal
    · cases hseal
    · rename_i ct hct
      cases hseal
      exact ⟨offerer_agree, ct, sig, hagree, hct, hsign⟩
  · rintro ⟨offerer_agree, ct, sig, hagree, hct, hsign⟩
    exact ⟨_, offerer_agree, hagree, _, by rw [seal_v1, hct], sig, hsign, rfl⟩

/-- A file that moves into the keystore stays the vault key. -/
theorem current_vault_key (s : Account) (ans : Answers) :
    current sha256 (vault_key sha256 s dir ans).2 ⟨dir, .vault⟩ = current sha256 s ⟨dir, .vault⟩ := by
  unfold vault_key
  dsimp only
  split
  · split <;> rfl
  · split
    · rename_i b hfile
      split
      · rename_i raw hraw
        unfold migrate current
        split
        · dsimp only
          rw [hfile, to_key_eq hraw, AList.lookup_insert]
          split
          · rw [AList.lookup_erase]
            rfl
          · rw [hfile]
            rfl
        · rfl
      · rfl
    · rfl

/-- An adoption that fails leaves the vault key. -/
theorem current_adopt_failed {s : Account} {k : Key} {ans : Answers} {e : Error}
    (h : (adopt_vault_key sha256 s dir k ans).1 = .error e) :
    current sha256 (adopt_vault_key sha256 s dir k ans).2 ⟨dir, .vault⟩ =
      current sha256 s ⟨dir, .vault⟩ := by
  have hkept := @current_vault_key sha256 dir s ans
  unfold adopt_vault_key at h ⊢
  rcases hr : vault_key sha256 s dir ans with ⟨_ | _ | existing, s'⟩
  · rw [hr] at hkept
    exact hkept
  · rw [hr] at h hkept
    unfold store_vault at h ⊢
    cases hp : persist sha256 s' ⟨dir, .vault⟩ k ans with
    | none => simpa [hp] using hkept
    | some s'' => simp [hp] at h
  · rw [hr] at hkept
    dsimp only
    split <;> exact hkept

theorem send_vault_ok_iff {offer : PairingMessage} {s : Here} :
    (∃ m, (send_vault sha256 x env me dir offer s).1 = .ok m) ↔
      ∃ vault, (Adoptable sha256 dir s.account vault env.answers ∧
        (readable sha256 dir s.account env.answers = none → vault = env.answers.fresh)) ∧
        Sends x env me offer vault := by
  unfold send_vault
  simp only [← generate_ok_iff, ← answer_ok_iff]
  rcases vault_key_or_generate sha256 s.account dir env.answers with ⟨_ | vault, account⟩
  · simp
  · simp

theorem take_vault_ok_iff {accept : PairingMessage} {s : Here} :
    (∃ k, (take_vault sha256 x env me dir accept s).1 = .ok k) ↔
      ∃ vault, Hands x me accept vault ∧ Adoptable sha256 dir s.account vault env.answers := by
  unfold take_vault
  simp only [← unwrap_ok_iff, ← adopt_ok_iff]
  cases unwrap_vault x me accept with
  | error e => simp
  | ok vault =>
    rcases hadopt : adopt_vault_key sha256 s.account dir vault env.answers with ⟨_ | _, account⟩
    · simp [hadopt]
    · simp [hadopt]

/-- A vault key that cannot be taken leaves the one that is there. -/
theorem take_vault_failed {accept : PairingMessage} {s : Here}
    (h : Fails (take_vault sha256 x env me dir accept s)) :
    current sha256 (take_vault sha256 x env me dir accept s).2.account ⟨dir, .vault⟩ =
      current sha256 s.account ⟨dir, .vault⟩ := by
  obtain ⟨e, he⟩ := h
  unfold take_vault at he ⊢
  cases hvault : unwrap_vault x me accept with
  | error e => rfl
  | ok vault =>
    rw [hvault] at he
    dsimp only at he ⊢
    rcases hadopt : adopt_vault_key sha256 s.account dir vault env.answers with ⟨_ | _, account⟩
    · have hkept := current_adopt_failed (congrArg Prod.fst hadopt)
      rw [hadopt] at hkept
      exact hkept
    · rw [hadopt] at he
      cases he

theorem complete_leaves_vault {s : Here} {accept : PairingMessage}
    (h : Fails (complete_pairing sha256 x env me dir s accept)) :
    current sha256 (complete_pairing sha256 x env me dir s accept).2.account ⟨dir, .vault⟩ =
      current sha256 s.account ⟨dir, .vault⟩ := by
  unfold complete_pairing record_then at h ⊢
  cases hchecked : check_accept x env accept with
  | error e => rfl
  | ok p =>
    cases hexecute : env.execute with
    | error e => rfl
    | ok u =>
      rw [hchecked, hexecute] at h
      exact take_vault_failed h

theorem complete_clean_iff {s : Here} {accept : PairingMessage} :
    (Fails (complete_pairing sha256 x env me dir s accept) →
        SamePeers s.peers (complete_pairing sha256 x env me dir s accept).2.peers) ↔
      CompletesOnceRecorded sha256 x env me dir s accept := by
  unfold complete_pairing CompletesOnceRecorded
  rw [record_then_clean_iff]
  · simp only [take_vault_ok_iff]
  · intro t
    unfold take_vault
    split
    · rfl
    · split <;> rfl

theorem accept_clean_iff {s : Here} {offer : PairingMessage} :
    (Fails (accept_offer sha256 x env me dir s offer) →
        SamePeers s.peers (accept_offer sha256 x env me dir s offer).2.peers) ↔
      AnswersOnceRecorded sha256 x env me dir s offer := by
  unfold accept_offer AnswersOnceRecorded
  rw [record_then_clean_iff]
  · simp only [send_vault_ok_iff, and_assoc]
  · intro t
    unfold send_vault
    split <;> rfl

end Failures

/-- **A failed pairing leaves no trust behind exactly where nothing can fail once the row is
written**, or where the row was there already. The vault key stays in any case. -/
theorem pairing_fails_without_trust_iff (sha256 : Bytes → Bytes) (x : Crypto) (env : Surroundings)
    (me : Self) (dir : String) (s : Here) (accept offer : PairingMessage) :
    ((Fails (complete_pairing sha256 x env me dir s accept) →
        SamePeers s.peers (complete_pairing sha256 x env me dir s accept).2.peers ∧
        current sha256 (complete_pairing sha256 x env me dir s accept).2.account ⟨dir, .vault⟩ =
          current sha256 s.account ⟨dir, .vault⟩) ↔
      CompletesOnceRecorded sha256 x env me dir s accept) ∧
    ((Fails (accept_offer sha256 x env me dir s offer) →
        SamePeers s.peers (accept_offer sha256 x env me dir s offer).2.peers) ↔
      AnswersOnceRecorded sha256 x env me dir s offer) := by
  refine ⟨?_, accept_clean_iff⟩
  rw [← complete_clean_iff]
  constructor
  · intro h hfails
    exact (h hfails).1
  · intro h hfails
    exact ⟨h hfails, complete_leaves_vault hfails⟩

/-! ## A device of another vault -/

/-- An accept of the phone, with 41 bytes in the place of its sealed vault key. -/
def phone_accept : PairingMessage :=
  { phone_offer with
    kind := "accept", vault_sealed := String.ofList ('0' :: '1' :: List.replicate 80 '0') }

def desk : Self :=
  { id := ⟨"00000000-0000-0000-0000-000000000001"⟩, name := "Desk", platform := "linux",
    public_key := List.replicate 32 0, agree_public := zero_key, agree_secret := zero_key }

def working : Surroundings :=
  { now := 0, execute := .ok (),
    answers := { plaintext := false, load := true, store := true, delete := true, write := true,
                 remove := true, fresh := zero_key },
    nonce := List.replicate 24 0, sign := fun _ => .ok (List.replicate 64 0) }

/-- The desk has a vault key of its own, and no peers. -/
def desk_state : Here :=
  { peers := ∅,
    account := { entries := ∅, files := AList.singleton ⟨"desk", .vault⟩ (List.replicate 32 0) } }

theorem phone_accept_checked : check_accept (verify_only phone_accept) working phone_accept =
    .ok (phone_peer "Phone" "android") := by
  unfold check_accept
  rw [if_neg (by decide), zeros_verify rfl rfl rfl]
  exact zeros_peer rfl rfl rfl

theorem phone_accept_opens : unwrap_vault (verify_only phone_accept) desk phone_accept =
    .ok ⟨List.replicate 32 7, rfl⟩ := by
  have hdecoded : hex_decode phone_accept.vault_sealed = .ok (1 :: List.replicate 40 0) := by
    unfold hex_decode utf8 phone_accept
    rw [String.toList_ofList]
    decide +kernel
  exact unwrap_ok_iff.mpr ⟨zero_key, _, hex32_zeros, hdecoded, rfl⟩

theorem a_peer_of_another_vault_is_recorded :
    ¬ ∀ (sha256 : Bytes → Bytes) (x : Crypto) (env : Surroundings) (me : Self) (dir : String)
      (s : Here) (accept : PairingMessage), Fails (complete_pairing sha256 x env me dir s accept) →
      SamePeers s.peers (complete_pairing sha256 x env me dir s accept).2.peers := by
  intro h
  have hclean := complete_clean_iff.mp
    (h id (verify_only phone_accept) working desk "desk" desk_state phone_accept)
  rcases hclean _ phone_accept_checked rfl with ⟨since, hrow⟩ | ⟨vault, hhands, hadopt⟩
  · cases hrow
  · -- the desk's own key is not the one that arrives
    have harrives := (unwrap_ok_iff.mpr hhands).symm.trans phone_accept_opens
    have hkept : readable id "desk" desk_state.account working.answers =
        some (List.replicate 32 0) := by decide +kernel
    rcases hadopt with hsame | ⟨hnone, -⟩
    · rw [hkept, Except.ok.inj harrives] at hsame
      exact absurd hsame (by decide)
    · rw [hkept] at hnone
      cases hnone

end pai_sync.pair
