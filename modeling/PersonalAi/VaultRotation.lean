-- Pairing and vault rotation (pair.rs, rotate.rs): how two devices come to trust
-- each other and share a vault key, and how a new key travels from peer to peer.
import Mathlib.Data.Sym.Sym2
import Mathlib.Logic.Function.Basic
import PersonalAi.Core
import PersonalAi.Lib.Sealing

open pai_core sealing

namespace pai_sync

/-! ## Keys -/

/-- The ed25519 key of a device. -/
structure EdKey where
  owner : DeviceId
deriving DecidableEq

/-- The x25519 agreement key of a device. -/
structure AgreeKey where
  owner : DeviceId
deriving DecidableEq

/-- The key that two agreement keys give, from either side. -/
abbrev WrapKey := Sym2 AgreeKey

def peer_key (mine theirs : AgreeKey) : WrapKey := s(mine, theirs)

/-- A vault key: the epoch of the rotation that minted it, or 0 for a key that a
device made for itself, and its random bytes. The code only compares keys. -/
structure VaultKey where
  rotation : Nat
  random : Nat
deriving DecidableEq

/-! ## Peers -/

structure SyncPeer where
  device_id : DeviceId
  ed_pubkey : EdKey
  agree_pubkey : AgreeKey
deriving DecidableEq

/-- One device: its vault key, the epoch in `sync-vault.epoch` (0 without the
file), and its table of peers. -/
structure DeviceState where
  vault : Option VaultKey
  epoch : Nat
  peers : List SyncPeer

def add_peer (peers : List SyncPeer) (p : SyncPeer) : List SyncPeer :=
  if peers.any (fun q => decide (q.device_id = p.device_id)) then
    peers.map (fun q => if q.device_id = p.device_id then p else q)
  else peers ++ [p]

def remove_peer (peers : List SyncPeer) (id : DeviceId) : List SyncPeer :=
  peers.filter (fun q => decide (q.device_id ≠ id))

/-! ## Pairing -/

abbrev Handoff := Blob WrapKey Unit VaultKey

/-- What a pairing signature covers. -/
structure PairTranscript where
  kind : String
  device_id : DeviceId
  ed_pubkey : EdKey
  agree_pubkey : AgreeKey
  vault_sealed : Option Handoff
deriving DecidableEq

structure PairingMessage where
  kind : String
  device_id : DeviceId
  ed_pubkey : EdKey
  agree_pubkey : AgreeKey
  vault_sealed : Option Handoff
  signature : Signature EdKey PairTranscript
deriving DecidableEq

def transcript (kind : String) (device_id : DeviceId) (ed_pubkey : EdKey)
    (agree_pubkey : AgreeKey) (vault_sealed : Option Handoff) : PairTranscript :=
  { kind, device_id, ed_pubkey, agree_pubkey, vault_sealed }

def PairingMessage.verify (m : PairingMessage) : Except Error Unit :=
  if verify_with m.ed_pubkey
      (transcript m.kind m.device_id m.ed_pubkey m.agree_pubkey m.vault_sealed) m.signature then
    .ok ()
  else .error (.PermissionDenied "pairing message signature invalid")

def PairingMessage.peer (m : PairingMessage) : SyncPeer :=
  { device_id := m.device_id, ed_pubkey := m.ed_pubkey, agree_pubkey := m.agree_pubkey }

/-- A message of this device, signed by it. -/
def signed_message (me : DeviceId) (kind : String) (vault_sealed : Option Handoff) :
    PairingMessage :=
  { kind := kind, device_id := me, ed_pubkey := ⟨me⟩, agree_pubkey := ⟨me⟩,
    vault_sealed := vault_sealed,
    signature := ⟨⟨me⟩, transcript kind me ⟨me⟩ ⟨me⟩ vault_sealed⟩ }

def make_offer (me : DeviceId) : PairingMessage := signed_message me "offer" none

/-- The vault key, made with these random bytes when there is none. -/
def vault_key_or_generate (d : DeviceState) (random : Nat) : VaultKey :=
  d.vault.getD { rotation := 0, random := random }

def adopt_vault_key (d : DeviceState) (key : VaultKey) : Except Error DeviceState :=
  match d.vault with
  | none => .ok { d with vault := some key }
  | some existing =>
    if existing = key then .ok d
    else .error (.Sync ("vault key conflict: this device already belongs to a different " ++
      "sync vault. Remove the old peers/vault key before pairing with " ++
      "a different vault."))

/-- The offerer becomes a peer, and gets the vault key of this device. -/
def accept_offer (me : DeviceId) (d : DeviceState) (offer : PairingMessage) (random : Nat) :
    DeviceState × Except Error PairingMessage :=
  if offer.kind ≠ "offer" then (d, .error (.InvalidInput "not a pairing offer"))
  else
    match offer.verify with
    | .error e => (d, .error e)
    | .ok () =>
      if offer.device_id = me then (d, .error (.InvalidInput "cannot pair with self"))
      else
        let vault := vault_key_or_generate d random
        let sealed := seal_with (peer_key ⟨me⟩ offer.agree_pubkey) () vault
        ({ d with peers := add_peer d.peers offer.peer, vault := some vault },
          .ok (signed_message me "accept" (some sealed)))

/-- The acceptor becomes a peer; then its vault key is unwrapped and adopted. -/
def complete_pairing (me : DeviceId) (d : DeviceState) (accept : PairingMessage) :
    DeviceState × Except Error VaultKey :=
  if accept.kind ≠ "accept" then (d, .error (.InvalidInput "not a pairing accept"))
  else
    match accept.verify with
    | .error e => (d, .error e)
    | .ok () =>
      let d := { d with peers := add_peer d.peers accept.peer }
      match accept.vault_sealed.bind (open_with (peer_key ⟨me⟩ accept.agree_pubkey) ()) with
      | none => (d, .error (.Sync "decrypt failed"))
      | some vault =>
        match adopt_vault_key d vault with
        | .error e => (d, .error e)
        | .ok d => (d, .ok vault)

/-! ## Rotation objects -/

/-- What a rotation signature covers. -/
structure RotTranscript where
  epoch : Nat
  vault : VaultKey
  sender : DeviceId
deriving DecidableEq

/-- The payload of a rotation. `sender` is its field `from`. -/
structure RotationMsg where
  v : Nat
  epoch : Nat
  vault : VaultKey
  sender : DeviceId
  sig : Signature EdKey RotTranscript
deriving DecidableEq

/-- The object key `vrot/<to>/<from>`. -/
structure RotKey where
  receiver : DeviceId
  sender : DeviceId
deriving DecidableEq

structure RotObject where
  key : RotKey
  ciphertext : Blob WrapKey RotKey RotationMsg
  version : Nat
  writer : DeviceId
  tombstone : Bool
deriving DecidableEq

/-- The rotation objects on the transport, one for each key, and every object
that was ever pushed. -/
structure Network where
  slots : RotKey → Option RotObject
  log : List RotObject

def Network.push (net : Network) (o : RotObject) : Network :=
  { slots := Function.update net.slots o.key (some o), log := net.log ++ [o] }

def Network.push_all (net : Network) (os : List RotObject) : Network := os.foldl Network.push net

def rotation_message (me : DeviceId) (epoch : Nat) (vault : VaultKey) : RotationMsg :=
  { v := 1, epoch := epoch, vault := vault, sender := me, sig := ⟨⟨me⟩, ⟨epoch, vault, me⟩⟩ }

def rotation_object (me : DeviceId) (m : RotationMsg) (p : SyncPeer) : RotObject :=
  let key : RotKey := ⟨p.device_id, me⟩
  { key := key, ciphertext := seal_with (peer_key ⟨me⟩ p.agree_pubkey) key m, version := m.epoch,
    writer := me, tombstone := false }

/-- One object for each peer. -/
def rebroadcast (me : DeviceId) (peers : List SyncPeer) (epoch : Nat) (vault : VaultKey) :
    List RotObject :=
  peers.map (rotation_object me (rotation_message me epoch vault))

/-! ## Rotating and adopting -/

/-- Replace the vault key outright, and store the epoch. -/
def rotate_vault_key (d : DeviceState) (key : VaultKey) (epoch : Nat) : DeviceState :=
  { d with vault := some key, epoch := epoch }

/-- A device and the transport under its hands, with the count it returns. -/
structure Pass where
  device : DeviceState
  net : Network
  count : Nat

/-- A fresh vault key to every peer, then into use here. -/
def push_rotation (me : DeviceId) (d : DeviceState) (net : Network) (now_ms random : Nat) : Pass :=
  let epoch := max now_ms 1
  let vault : VaultKey := { rotation := epoch, random := random }
  { device := rotate_vault_key d vault epoch,
    net := net.push_all (rebroadcast me d.peers epoch vault), count := d.peers.length }

/-- The message of a rotation object from a known peer, if it opens and its
signature holds. -/
def check_rotation (me : DeviceId) (peers : List SyncPeer) (o : RotObject) : Option RotationMsg :=
  match peers.find? (fun p => decide (p.device_id = o.key.sender)) with
  | none => none
  | some peer =>
    match open_with (peer_key ⟨me⟩ peer.agree_pubkey) o.key o.ciphertext with
    | none => none
    | some m =>
      if m.v ≠ 1 ∨ m.sender ≠ o.key.sender then none
      else if !verify_with peer.ed_pubkey ⟨m.epoch, m.vault, m.sender⟩ m.sig then none
      else some m

/-- One turn of the loop over the listing. -/
def adopt_one (me : DeviceId) (peers : List SyncPeer) (p : Pass) (key : RotKey) : Pass :=
  if key.receiver ≠ me then p
  else
    match p.net.slots key with
    | none => p
    | some o =>
      if o.tombstone then p
      else
        match check_rotation me peers o with
        | none => p
        | some m =>
          if m.epoch ≤ p.device.epoch then p
          else
            { device := rotate_vault_key p.device m.vault m.epoch,
              net := p.net.push_all (rebroadcast me peers m.epoch m.vault), count := p.count + 1 }

/-- A pass over the keys in the order in which the transport lists them. -/
def adopt_rotations (me : DeviceId) (d : DeviceState) (net : Network) (listing : List RotKey) :
    Pass :=
  listing.foldl (adopt_one me d.peers) { device := d, net := net, count := 0 }

/-! ## The system -/

/-- All devices, the transport, the accept messages under way, and every vault
key that a rotation minted, with the device that minted it. -/
structure System where
  devices : DeviceId → DeviceState
  net : Network
  accepts : List PairingMessage
  mints : List (DeviceId × VaultKey)

/-- One call on one device. The listing of an adopting pass is any part of what
the transport lists, in any order: other devices act between its turns. -/
inductive Step
  | accept_offer (acceptor offerer : DeviceId) (random : Nat)
  | complete_pairing (device : DeviceId) (accept : PairingMessage)
  | push_rotation (device : DeviceId) (now_ms random : Nat)
  | adopt_rotations (device : DeviceId) (listing : List RotKey)

def System.set (s : System) (d : DeviceId) (p : Pass) : System :=
  { s with devices := Function.update s.devices d p.device, net := p.net }

def System.step (s : System) : Step → System
  | .accept_offer acceptor offerer random =>
    match accept_offer acceptor (s.devices acceptor) (make_offer offerer) random with
    | (d, .ok accept) =>
      { s with devices := Function.update s.devices acceptor d, accepts := accept :: s.accepts }
    | (d, .error _) => { s with devices := Function.update s.devices acceptor d }
  | .complete_pairing device accept =>
    if accept ∈ s.accepts then
      let (d, _) := complete_pairing device (s.devices device) accept
      { s with devices := Function.update s.devices device d }
    else s
  | .push_rotation device now_ms random =>
    { s.set device (push_rotation device (s.devices device) s.net now_ms random) with
      mints := (device, { rotation := max now_ms 1, random := random }) :: s.mints }
  | .adopt_rotations device listing =>
    s.set device (adopt_rotations device (s.devices device) s.net listing)

def System.remove_peer (s : System) (device peer : DeviceId) : System :=
  let d := s.devices device
  { s with devices :=
    Function.update s.devices device { d with peers := pai_sync.remove_peer d.peers peer } }

/-- The device lists the other one as a peer. -/
def System.Lists (s : System) (d p : DeviceId) : Prop :=
  ∃ row ∈ (s.devices d).peers, row.device_id = p

/-- Two devices that list each other. -/
def System.Paired (s : System) (d p : DeviceId) : Prop := s.Lists d p ∧ s.Lists p d

/-! ## What a rotation does -/

/-- The row of a device with its own keys. -/
def row_of (d : DeviceId) : SyncPeer := { device_id := d, ed_pubkey := ⟨d⟩, agree_pubkey := ⟨d⟩ }

/-- Every row has the keys of its device. -/
def HonestRows (peers : List SyncPeer) : Prop := ∀ row ∈ peers, row = row_of row.device_id

/-- The object with which `d` hands an epoch and its key to `p`. -/
def handed (d p : DeviceId) (epoch : Nat) (vault : VaultKey) : RotObject :=
  rotation_object d (rotation_message d epoch vault) (row_of p)

@[simp] theorem handed_key (d p : DeviceId) (epoch : Nat) (vault : VaultKey) :
    (handed d p epoch vault).key = ⟨p, d⟩ := rfl

@[simp] theorem handed_tombstone (d p : DeviceId) (epoch : Nat) (vault : VaultKey) :
    (handed d p epoch vault).tombstone = false := rfl

theorem handed_inj {d p : DeviceId} {e e' : Nat} {k k' : VaultKey}
    (h : handed d p e k = handed d p e' k') : e = e' ∧ k = k' := by
  simp only [handed, rotation_object, rotation_message, seal_with, RotObject.mk.injEq,
    Blob.box.injEq, RotationMsg.mk.injEq] at h
  exact ⟨h.2.1.2.2.2.1, h.2.1.2.2.2.2.1⟩

/-- A broadcast over honest rows fills the slot of every listed device, and no
other. -/
theorem rebroadcast_slots (net : Network) (d : DeviceId) {peers : List SyncPeer}
    (hrows : HonestRows peers) (epoch : Nat) (vault : VaultKey) (key : RotKey) :
    (net.push_all (rebroadcast d peers epoch vault)).slots key =
      if key.sender = d ∧ ∃ row ∈ peers, row.device_id = key.receiver then
        some (handed d key.receiver epoch vault)
      else net.slots key := by
  induction peers generalizing net with
  | nil => simp [rebroadcast, Network.push_all]
  | cons row peers ih =>
    have hrow : row = row_of row.device_id := hrows row (by simp)
    have hrest : HonestRows peers := fun r hr => hrows r (by simp [hr])
    have hstep : net.push_all (rebroadcast d (row :: peers) epoch vault) =
        (net.push (handed d row.device_id epoch vault)).push_all
          (rebroadcast d peers epoch vault) := by
      unfold handed
      rw [← hrow]
      rfl
    rw [hstep, ih _ hrest]
    by_cases hlater : key.sender = d ∧ ∃ r ∈ peers, r.device_id = key.receiver
    · rw [if_pos hlater, if_pos]
      obtain ⟨hs, r, hr, hid⟩ := hlater
      exact ⟨hs, r, by simp [hr], hid⟩
    · rw [if_neg hlater]
      by_cases hnow : key = ⟨row.device_id, d⟩
      · subst hnow
        simp [Network.push]
      · rw [if_neg]
        · exact Function.update_of_ne hnow _ _
        · rintro ⟨hs, r, hr, hid⟩
          rcases List.mem_cons.mp hr with rfl | hr
          · exact hnow (by rw [hid, ← hs])
          · exact hlater ⟨hs, r, hr, hid⟩

theorem push_all_log (net : Network) (os : List RotObject) :
    (net.push_all os).log = net.log ++ os := by
  induction os generalizing net with
  | nil => simp [Network.push_all]
  | cons o os ih =>
    have hstep : net.push_all (o :: os) = (net.push o).push_all os := rfl
    rw [hstep, ih]
    simp [Network.push]

theorem find_honest {peers : List SyncPeer} (hrows : HonestRows peers) (d : DeviceId) :
    peers.find? (fun p => decide (p.device_id = d)) =
      if ∃ row ∈ peers, row.device_id = d then some (row_of d) else none := by
  by_cases hex : ∃ row ∈ peers, row.device_id = d
  · rw [if_pos hex]
    cases hf : peers.find? (fun p => decide (p.device_id = d)) with
    | none =>
      obtain ⟨row, hrow, hid⟩ := hex
      exact absurd hid (by simpa using List.find?_eq_none.mp hf row hrow)
    | some row =>
      have hid : row.device_id = d := by simpa using List.find?_some hf
      rw [hrows row (List.mem_of_find?_eq_some hf), hid]
  · rw [if_neg hex, List.find?_eq_none]
    intro row hrow hid
    exact hex ⟨row, hrow, by simpa using hid⟩

/-- A listed device's object is taken for what it is, an unlisted one's is
ignored. -/
theorem check_handed {peers : List SyncPeer} (hrows : HonestRows peers) (me d : DeviceId)
    (epoch : Nat) (vault : VaultKey) :
    check_rotation me peers (handed d me epoch vault) =
      if ∃ row ∈ peers, row.device_id = d then some (rotation_message d epoch vault) else none := by
  have hswap : peer_key ⟨me⟩ (row_of d).agree_pubkey = peer_key ⟨d⟩ (row_of me).agree_pubkey :=
    Sym2.eq_swap
  unfold check_rotation
  rw [handed_key, find_honest hrows]
  by_cases hex : ∃ row ∈ peers, row.device_id = d
  · rw [if_pos hex, if_pos hex]
    have hopen : open_with (peer_key ⟨me⟩ (row_of d).agree_pubkey) ⟨me, d⟩
        (handed d me epoch vault).ciphertext = some (rotation_message d epoch vault) := by
      rw [hswap]
      exact open_seal _ _ _
    simp only [hopen]
    have hverify : verify_with (row_of d).ed_pubkey
        ⟨(rotation_message d epoch vault).epoch, (rotation_message d epoch vault).vault,
          (rotation_message d epoch vault).sender⟩ (rotation_message d epoch vault).sig = true :=
      verify_own _ _
    rw [if_neg (by simp [rotation_message]), hverify]
    rfl
  · rw [if_neg hex, if_neg hex]

/-- Every object on the transport hands a key from the device in its key to the
device in its key. -/
def HonestSlots (net : Network) : Prop :=
  ∀ key o, net.slots key = some o → ∃ epoch vault, o = handed key.sender key.receiver epoch vault

/-- The device takes the epoch and the key into use and tells its peers. -/
def Pass.install (p : Pass) (me : DeviceId) (peers : List SyncPeer) (epoch : Nat)
    (vault : VaultKey) : Pass :=
  { device := rotate_vault_key p.device vault epoch,
    net := p.net.push_all (rebroadcast me peers epoch vault), count := p.count + 1 }

/-- A turn of the loop changes nothing, or takes over what a listed peer handed
over, which is newer than the epoch stored here. -/
theorem adopt_one_cases {me : DeviceId} {peers : List SyncPeer} (hrows : HonestRows peers)
    {p : Pass} (hslots : HonestSlots p.net) (key : RotKey) :
    adopt_one me peers p key = p ∨
    ∃ d epoch vault, key = ⟨me, d⟩ ∧ p.net.slots key = some (handed d me epoch vault) ∧
      (∃ row ∈ peers, row.device_id = d) ∧ p.device.epoch < epoch ∧
      adopt_one me peers p key = p.install me peers epoch vault := by
  unfold adopt_one
  by_cases hme : key.receiver = me
  · rw [if_neg (by simpa using hme)]
    cases hslot : p.net.slots key with
    | none => exact Or.inl rfl
    | some o =>
      obtain ⟨epoch, vault, rfl⟩ := hslots key o hslot
      rw [hme]
      simp only [handed_tombstone, Bool.false_eq_true, if_false, check_handed hrows]
      by_cases hlist : ∃ row ∈ peers, row.device_id = key.sender
      · simp only [if_pos hlist]
        by_cases hold : epoch ≤ p.device.epoch
        · left
          rw [if_pos (show (rotation_message key.sender epoch vault).epoch ≤ _ from hold)]
        · right
          refine ⟨key.sender, epoch, vault, ?_, rfl, hlist, by omega, ?_⟩
          · cases key
            simp_all
          · rw [if_neg (show ¬ (rotation_message key.sender epoch vault).epoch ≤ _ from hold)]
            rfl
      · left
        simp only [if_neg hlist]
  · rw [if_pos (by simpa using hme)]
    exact Or.inl rfl

end pai_sync
