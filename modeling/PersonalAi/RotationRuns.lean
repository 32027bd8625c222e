-- Runs of pairing and rotation: what every step is made of, and what holds of
-- the transport in every state that a run reaches.
import Mathlib.Logic.Relation
import PersonalAi.VaultRotation

open pai_core sealing

namespace pai_sync

/-! ## One step -/

/-- The device takes the epoch and the key into use and tells its peers. -/
def System.install (s : System) (me : DeviceId) (epoch : Nat) (vault : VaultKey) : System :=
  { s with
    devices := Function.update s.devices me (rotate_vault_key (s.devices me) vault epoch),
    net := s.net.push_all (rebroadcast me (s.devices me).peers epoch vault) }

theorem push_rotation_step (s : System) (d : DeviceId) (now_ms random : Nat) :
    s.step (.push_rotation d now_ms random) =
      { s.install d (max now_ms 1) ⟨max now_ms 1, random⟩ with
        mints := (d, ⟨max now_ms 1, random⟩) :: s.mints } := rfl

theorem install_peers (s : System) (me : DeviceId) (epoch : Nat) (vault : VaultKey)
    (d : DeviceId) : ((s.install me epoch vault).devices d).peers = (s.devices d).peers := by
  by_cases hd : d = me
  · subst hd
    simp [System.install, rotate_vault_key]
  · simp [System.install, Function.update_of_ne hd]

theorem install_lists (s : System) (me : DeviceId) (epoch : Nat) (vault : VaultKey)
    (d p : DeviceId) : (s.install me epoch vault).Lists d p ↔ s.Lists d p := by
  unfold System.Lists
  rw [install_peers]

theorem install_device_self (s : System) (me : DeviceId) (epoch : Nat) (vault : VaultKey) :
    (s.install me epoch vault).devices me = rotate_vault_key (s.devices me) vault epoch := by
  simp [System.install]

theorem install_device_other (s : System) {me d : DeviceId} (h : d ≠ me) (epoch : Nat)
    (vault : VaultKey) : (s.install me epoch vault).devices d = s.devices d := by
  simp [System.install, Function.update_of_ne h]

theorem install_log (s : System) (me : DeviceId) (epoch : Nat) (vault : VaultKey) :
    (s.install me epoch vault).net.log =
      s.net.log ++ rebroadcast me (s.devices me).peers epoch vault :=
  push_all_log _ _

theorem install_slots {s : System} {me : DeviceId} (hrows : HonestRows (s.devices me).peers)
    (epoch : Nat) (vault : VaultKey) (p d : DeviceId) [Decidable (d = me ∧ s.Lists me p)] :
    (s.install me epoch vault).net.slots ⟨p, d⟩ =
      if d = me ∧ s.Lists me p then some (handed me p epoch vault) else s.net.slots ⟨p, d⟩ := by
  unfold System.install
  rw [rebroadcast_slots s.net me hrows]
  simp only [System.Lists]
  congr

/-- A device that lists a newer key from a listed peer takes it over. -/
theorem adopt_single {s : System} {me d : DeviceId} {epoch : Nat} {vault : VaultKey}
    (hrows : HonestRows (s.devices me).peers)
    (hslot : s.net.slots ⟨me, d⟩ = some (handed d me epoch vault)) (hlist : s.Lists me d)
    (hnew : (s.devices me).epoch < epoch) :
    s.step (.adopt_rotations me [⟨me, d⟩]) = s.install me epoch vault := by
  have hcheck : check_rotation me (s.devices me).peers (handed d me epoch vault) =
      some (rotation_message d epoch vault) := by
    rw [check_handed hrows]
    exact if_pos hlist
  have hturn : adopt_one me (s.devices me).peers ⟨s.devices me, s.net, 0⟩ ⟨me, d⟩ =
      Pass.install ⟨s.devices me, s.net, 0⟩ me (s.devices me).peers epoch vault := by
    unfold adopt_one
    rw [if_neg (by simp)]
    simp only [hslot, handed_tombstone, Bool.false_eq_true, if_false, hcheck]
    rw [if_neg (show ¬ (rotation_message d epoch vault).epoch ≤ (s.devices me).epoch by
      simpa [rotation_message] using hnew)]
    rfl
  simp only [System.step, adopt_rotations, List.foldl_cons, List.foldl_nil, hturn]
  rfl

/-- A pass over the listing keeps what every adoption keeps. -/
theorem adopt_step_keeps {Q : System → Prop} {s : System} (me : DeviceId) (listing : List RotKey)
    (hQ : ∀ t, Q t → HonestRows (t.devices me).peers ∧ HonestSlots t.net) (h0 : Q s)
    (hstep : ∀ t d epoch vault, Q t → t.net.slots ⟨me, d⟩ = some (handed d me epoch vault) →
      t.Lists me d → (t.devices me).epoch < epoch → Q (t.install me epoch vault)) :
    Q (s.step (.adopt_rotations me listing)) := by
  have hloop : ∀ (listing : List RotKey) (p : Pass),
      p.device.peers = (s.devices me).peers → Q (s.set me p) →
      Q (s.set me (listing.foldl (adopt_one me (s.devices me).peers) p)) := by
    intro listing
    induction listing with
    | nil => exact fun p _ h => h
    | cons key listing ih =>
      intro p hpeers hp
      obtain ⟨hrows, hslots⟩ := hQ _ hp
      have hdev : (s.set me p).devices me = p.device := by simp [System.set]
      rw [hdev, hpeers] at hrows
      rw [List.foldl_cons]
      rcases adopt_one_cases hrows hslots key with hsame | ⟨d, epoch, vault, hkey, hslot, hlist,
        hnew, hturn⟩
      · rw [hsame]
        exact ih p hpeers hp
      · rw [hturn]
        refine ih _ (by simpa [Pass.install, rotate_vault_key] using hpeers) ?_
        have hinstall : s.set me (p.install me (s.devices me).peers epoch vault) =
            (s.set me p).install me epoch vault := by
          simp [System.set, System.install, Pass.install, hpeers]
        rw [hinstall]
        refine hstep _ d epoch vault hp (by rw [← hkey]; exact hslot) ?_ (by rw [hdev]; exact hnew)
        unfold System.Lists
        rw [hdev, hpeers]
        exact hlist
  refine hloop listing _ rfl ?_
  simpa [System.set] using h0

/-! ## Honest states -/

/-- Before the first step: any peer table with the keys of the peers, any vault
keys that no rotation made, and nothing under way. -/
structure Start (s : System) : Prop where
  rows : ∀ d, HonestRows (s.devices d).peers
  vault : ∀ d k, (s.devices d).vault = some k → k.rotation = 0
  epoch : ∀ d, (s.devices d).epoch = 0
  slots : ∀ key, s.net.slots key = none
  log : s.net.log = []
  accepts : s.accepts = []
  mints : s.mints = []

/-- What the devices put into tables and onto the transport is what it says. -/
structure Honest (s : System) : Prop where
  rows : ∀ d, HonestRows (s.devices d).peers
  slots : HonestSlots s.net
  minted : ∀ p d epoch vault, s.net.slots ⟨p, d⟩ = some (handed d p epoch vault) →
    vault.rotation = epoch ∧ ∃ m, (m, vault) ∈ s.mints
  logged : ∀ o ∈ s.net.log, ∃ d p epoch vault, o = handed d p epoch vault ∧
    ∃ m, (m, vault) ∈ s.mints
  posted : ∀ key o, s.net.slots key = some o → o ∈ s.net.log
  accepts : ∀ m ∈ s.accepts, m.peer = row_of m.device_id

theorem Start.honest {s : System} (h : Start s) : Honest s where
  rows := h.rows
  slots := by
    intro key o hslot
    rw [h.slots] at hslot
    cases hslot
  minted := by
    intro p d epoch vault hslot
    rw [h.slots] at hslot
    cases hslot
  logged := by simp [h.log]
  posted := by
    intro key o hslot
    rw [h.slots] at hslot
    cases hslot
  accepts := by simp [h.accepts]

/-- The table after a peer is added: that peer's row, and rows that were there. -/
theorem mem_add_peer {peers : List SyncPeer} {p row : SyncPeer} (h : row ∈ add_peer peers p) :
    row = p ∨ row ∈ peers := by
  unfold add_peer at h
  split at h
  · obtain ⟨q, hq, heq⟩ := List.mem_map.mp h
    split at heq
    · exact Or.inl heq.symm
    · exact Or.inr (by rwa [← heq])
  · rcases List.mem_append.mp h with h | h
    · exact Or.inr h
    · exact Or.inl (List.mem_singleton.mp h)

theorem add_peer_listed (peers : List SyncPeer) (p : SyncPeer) (d : DeviceId) :
    (∃ row ∈ add_peer peers p, row.device_id = d) ↔
      d = p.device_id ∨ ∃ row ∈ peers, row.device_id = d := by
  constructor
  · rintro ⟨row, hrow, rfl⟩
    rcases mem_add_peer hrow with rfl | hrow
    · exact Or.inl rfl
    · exact Or.inr ⟨row, hrow, rfl⟩
  · unfold add_peer
    by_cases hany : peers.any (fun q => decide (q.device_id = p.device_id)) = true
    · rw [if_pos hany]
      rintro (rfl | ⟨row, hrow, rfl⟩)
      · obtain ⟨q, hq, hid⟩ := List.any_eq_true.mp hany
        refine ⟨p, List.mem_map.mpr ⟨q, hq, ?_⟩, rfl⟩
        simp_all
      · by_cases hid : row.device_id = p.device_id
        · exact ⟨p, List.mem_map.mpr ⟨row, hrow, by simp [hid]⟩, hid.symm⟩
        · exact ⟨row, List.mem_map.mpr ⟨row, hrow, by simp [hid]⟩, rfl⟩
    · rw [if_neg hany]
      rintro (rfl | ⟨row, hrow, rfl⟩)
      · exact ⟨p, by simp, rfl⟩
      · exact ⟨row, by simp [hrow], rfl⟩

theorem honest_add_peer {peers : List SyncPeer} (h : HonestRows peers) {p : SyncPeer}
    (hp : p = row_of p.device_id) : HonestRows (add_peer peers p) := by
  intro row hrow
  rcases mem_add_peer hrow with rfl | hrow
  · exact hp
  · exact h row hrow

/-! ## Pairing steps -/

/-- The key in an accept message, for a device that can open it. -/
def PairingMessage.handed_key (accept : PairingMessage) (me : DeviceId) : Option VaultKey :=
  accept.vault_sealed.bind (open_with (peer_key ⟨me⟩ accept.agree_pubkey) ())

/-- The device with one more peer. -/
def DeviceState.with_peer (d : DeviceState) (p : SyncPeer) : DeviceState :=
  { d with peers := add_peer d.peers p }

/-- The message that answers an offer of `offerer`. -/
def accept_message (acceptor offerer : DeviceId) (vault : VaultKey) : PairingMessage :=
  signed_message acceptor "accept"
    (some (seal_with (peer_key ⟨acceptor⟩ ⟨offerer⟩) () vault))

theorem accept_offer_spec (me offerer : DeviceId) (d : DeviceState) (random : Nat)
    (h : offerer ≠ me) :
    accept_offer me d (make_offer offerer) random =
      ({ d.with_peer (row_of offerer) with vault := some (vault_key_or_generate d random) },
        .ok (accept_message me offerer (vault_key_or_generate d random))) := by
  have hverify : (make_offer offerer).verify = .ok () := by
    simp [make_offer, signed_message, PairingMessage.verify]
  have hkind : ¬ (make_offer offerer).kind ≠ "offer" := by simp [make_offer, signed_message]
  unfold accept_offer
  rw [if_neg hkind, hverify]
  dsimp only
  rw [if_neg (show ¬ (make_offer offerer).device_id = me from h)]
  rfl

theorem accept_offer_self (me : DeviceId) (d : DeviceState) (random : Nat) :
    accept_offer me d (make_offer me) random =
      (d, .error (.InvalidInput "cannot pair with self")) := by
  have hverify : (make_offer me).verify = .ok () := by
    simp [make_offer, signed_message, PairingMessage.verify]
  have hkind : ¬ (make_offer me).kind ≠ "offer" := by simp [make_offer, signed_message]
  unfold accept_offer
  rw [if_neg hkind, hverify]
  dsimp only
  rw [if_pos (show (make_offer me).device_id = me from rfl)]

/-- Completing a pairing adds the peer, and a vault key only where there was
none. -/
theorem complete_pairing_cases (me : DeviceId) (d : DeviceState) (accept : PairingMessage) :
    (complete_pairing me d accept).1 = d ∨
    (complete_pairing me d accept).1 = d.with_peer accept.peer ∨
    ∃ vault, d.vault = none ∧ accept.handed_key me = some vault ∧
      (complete_pairing me d accept).1 = { d.with_peer accept.peer with vault := some vault } := by
  unfold complete_pairing
  by_cases hkind : accept.kind ≠ "accept"
  · rw [if_pos hkind]
    exact Or.inl rfl
  · rw [if_neg hkind]
    rcases accept.verify with e | ⟨⟩
    · exact Or.inl rfl
    · right
      dsimp only
      unfold PairingMessage.handed_key
      rcases accept.vault_sealed.bind (open_with (peer_key ⟨me⟩ accept.agree_pubkey) ()) with
        _ | vault
      · exact Or.inl rfl
      · cases hv : d.vault with
        | none =>
          right
          refine ⟨vault, rfl, rfl, ?_⟩
          simp [adopt_vault_key, hv, DeviceState.with_peer]
        | some existing =>
          left
          by_cases hsame : existing = vault <;>
            simp [adopt_vault_key, hv, hsame, DeviceState.with_peer]

/-- What an accept step makes of the system. -/
theorem accept_step_cases (s : System) (acceptor offerer : DeviceId) (random : Nat) :
    s.step (.accept_offer acceptor offerer random) = s ∨
    (offerer ≠ acceptor ∧ ∃ vault, vault = vault_key_or_generate (s.devices acceptor) random ∧
      s.step (.accept_offer acceptor offerer random) =
        { s with
          devices := Function.update s.devices acceptor
            { (s.devices acceptor).with_peer (row_of offerer) with vault := some vault },
          accepts := accept_message acceptor offerer vault :: s.accepts }) := by
  by_cases hself : offerer = acceptor
  · left
    subst hself
    simp [System.step, accept_offer_self]
  · right
    refine ⟨hself, _, rfl, ?_⟩
    simp [System.step, accept_offer_spec _ _ _ _ hself]

/-- What a completing step makes of the system. -/
theorem complete_step_cases (s : System) (me : DeviceId) (accept : PairingMessage) :
    s.step (.complete_pairing me accept) = s ∨
    (accept ∈ s.accepts ∧ ∃ d, s.step (.complete_pairing me accept) =
        { s with devices := Function.update s.devices me d } ∧
      (d = (s.devices me).with_peer accept.peer ∨
        ∃ vault, (s.devices me).vault = none ∧ accept.handed_key me = some vault ∧
          d = { (s.devices me).with_peer accept.peer with vault := some vault })) := by
  by_cases hmem : accept ∈ s.accepts
  · have hstep : s.step (.complete_pairing me accept) =
        { s with devices :=
            Function.update s.devices me (complete_pairing me (s.devices me) accept).1 } := by
      simp only [System.step, if_pos hmem]
    rcases complete_pairing_cases me (s.devices me) accept with hd | hd | ⟨vault, hnone, hkey, hd⟩
    · left
      rw [hstep, hd, Function.update_eq_self]
    · right
      rw [hd] at hstep
      exact ⟨hmem, _, hstep, Or.inl rfl⟩
    · right
      rw [hd] at hstep
      exact ⟨hmem, _, hstep, Or.inr ⟨vault, hnone, hkey, rfl⟩⟩
  · left
    simp [System.step, hmem]

/-! ## Honest states stay honest -/

/-- The objects of a broadcast over honest rows. -/
theorem mem_rebroadcast {me : DeviceId} {peers : List SyncPeer} (hrows : HonestRows peers)
    {epoch : Nat} {vault : VaultKey} {o : RotObject} :
    o ∈ rebroadcast me peers epoch vault ↔
      ∃ row ∈ peers, o = handed me row.device_id epoch vault := by
  unfold rebroadcast handed
  constructor
  · intro ho
    obtain ⟨row, hrow, rfl⟩ := List.mem_map.mp ho
    refine ⟨row, hrow, ?_⟩
    rw [← hrows row hrow]
  · rintro ⟨row, hrow, rfl⟩
    refine List.mem_map.mpr ⟨row, hrow, ?_⟩
    rw [← hrows row hrow]

theorem honest_install {s : System} (h : Honest s) {me : DeviceId} {epoch : Nat}
    {vault : VaultKey} (hrot : vault.rotation = epoch) (hmint : ∃ m, (m, vault) ∈ s.mints) :
    Honest (s.install me epoch vault) where
  rows := by
    intro d
    rw [install_peers]
    exact h.rows d
  slots := by
    classical
    intro key o hslot
    obtain ⟨p, d⟩ := key
    rw [install_slots (h.rows me)] at hslot
    split at hslot
    · rename_i hcond
      cases hslot
      exact ⟨epoch, vault, by rw [hcond.1]⟩
    · exact h.slots _ o hslot
  minted := by
    classical
    intro p d e k hslot
    rw [install_slots (h.rows me)] at hslot
    split at hslot
    · rename_i hcond
      rw [hcond.1] at hslot
      obtain ⟨rfl, rfl⟩ := handed_inj (Option.some.inj hslot)
      exact ⟨hrot, hmint⟩
    · exact h.minted p d e k hslot
  logged := by
    intro o ho
    rw [install_log] at ho
    rcases List.mem_append.mp ho with ho | ho
    · exact h.logged o ho
    · obtain ⟨row, _, rfl⟩ := (mem_rebroadcast (h.rows me)).mp ho
      exact ⟨me, row.device_id, epoch, vault, rfl, hmint⟩
  posted := by
    classical
    intro key o hslot
    obtain ⟨p, d⟩ := key
    rw [install_slots (h.rows me)] at hslot
    rw [install_log]
    split at hslot
    · rename_i hcond
      obtain ⟨row, hrow, rfl⟩ := hcond.2
      cases hslot
      exact List.mem_append_right _ ((mem_rebroadcast (h.rows me)).mpr ⟨row, hrow, rfl⟩)
    · exact List.mem_append_left _ (h.posted _ o hslot)
  accepts := h.accepts

theorem honest_more_mints {s : System} (h : Honest s) (mints : List (DeviceId × VaultKey))
    (hsub : ∀ m ∈ s.mints, m ∈ mints) : Honest { s with mints := mints } where
  rows := h.rows
  slots := h.slots
  minted := by
    intro p d e k hslot
    obtain ⟨hrot, m, hm⟩ := h.minted p d e k hslot
    exact ⟨hrot, m, hsub _ hm⟩
  logged := by
    intro o ho
    obtain ⟨d, p, e, k, heq, m, hm⟩ := h.logged o ho
    exact ⟨d, p, e, k, heq, m, hsub _ hm⟩
  posted := h.posted
  accepts := h.accepts

theorem honest_set_device {s : System} (h : Honest s) (me : DeviceId) {d : DeviceState}
    (hd : HonestRows d.peers) {accepts : List PairingMessage}
    (haccepts : ∀ m ∈ accepts, m.peer = row_of m.device_id) :
    Honest { s with devices := Function.update s.devices me d, accepts := accepts } where
  rows := by
    intro p
    by_cases hp : p = me
    · subst hp
      simpa using hd
    · simpa [Function.update_of_ne hp] using h.rows p
  slots := h.slots
  minted := h.minted
  logged := h.logged
  posted := h.posted
  accepts := haccepts

theorem honest_step {s : System} (h : Honest s) (a : Step) : Honest (s.step a) := by
  cases a with
  | accept_offer acceptor offerer random =>
    rcases accept_step_cases s acceptor offerer random with hs | ⟨_, vault, _, hs⟩
    · rw [hs]
      exact h
    · rw [hs]
      refine honest_set_device h acceptor (honest_add_peer (h.rows acceptor) rfl) ?_
      intro m hm
      rcases List.mem_cons.mp hm with rfl | hm
      · rfl
      · exact h.accepts m hm
  | complete_pairing me accept =>
    rcases complete_step_cases s me accept with hs | ⟨hmem, d, hs, hd⟩
    · rw [hs]
      exact h
    · have hpeer : accept.peer = row_of accept.peer.device_id := h.accepts accept hmem
      have hrows : HonestRows d.peers := by
        rcases hd with rfl | ⟨_, _, _, rfl⟩ <;> exact honest_add_peer (h.rows me) hpeer
      rw [hs]
      exact honest_set_device h me hrows h.accepts
  | push_rotation d now_ms random =>
    rw [push_rotation_step]
    have hmore := honest_more_mints h ((d, ⟨max now_ms 1, random⟩) :: s.mints) (by simp_all)
    exact honest_install hmore rfl ⟨d, by simp⟩
  | adopt_rotations me listing =>
    refine adopt_step_keeps me listing (fun t ht => ⟨ht.rows me, ht.slots⟩) h ?_
    intro t d epoch vault ht hslot _ _
    obtain ⟨hrot, hmint⟩ := ht.minted me d epoch vault hslot
    exact honest_install ht hrot hmint

theorem remove_peer_lists (s : System) (me x d p : DeviceId) :
    (s.remove_peer me x).Lists d p ↔ s.Lists d p ∧ ¬ (d = me ∧ p = x) := by
  unfold System.Lists System.remove_peer
  by_cases hd : d = me
  · subst hd
    simp only [Function.update_self, remove_peer, List.mem_filter, decide_eq_true_eq, true_and]
    constructor
    · rintro ⟨row, ⟨hrow, hne⟩, rfl⟩
      exact ⟨⟨row, hrow, rfl⟩, hne⟩
    · rintro ⟨⟨row, hrow, rfl⟩, hne⟩
      exact ⟨row, ⟨hrow, hne⟩, rfl⟩
  · simp [hd]

theorem honest_remove_peer {s : System} (h : Honest s) (me x : DeviceId) :
    Honest (s.remove_peer me x) := by
  refine honest_set_device h me ?_ h.accepts
  intro row hrow
  exact h.rows me row (List.mem_filter.mp hrow).1

/-- The states that a run reaches, from any peer graph. -/
inductive Reachable : System → Prop
  | start (s : System) (h : Start s) : Reachable s
  | step (s : System) (a : Step) (h : Reachable s) : Reachable (s.step a)
  | remove_peer (s : System) (me x : DeviceId) (h : Reachable s) :
      Reachable (s.remove_peer me x)

theorem reachable_honest {s : System} (h : Reachable s) : Honest s := by
  induction h with
  | start s h => exact h.honest
  | step s a _ ih => exact honest_step ih a
  | remove_peer s me x _ ih => exact honest_remove_peer ih me x

/-! ## A small vault -/

/-- Devices that all list each other, in one vault. -/
def mesh (ids : List DeviceId) : System :=
  { devices := fun d =>
      { vault := some ⟨0, 0⟩, epoch := 0,
        peers := if d ∈ ids then (ids.filter (fun p => decide (p ≠ d))).map row_of else [] },
    net := { slots := fun _ => none, log := [] }, accepts := [], mints := [] }

theorem mesh_lists {ids : List DeviceId} {d p : DeviceId} :
    (mesh ids).Lists d p ↔ d ∈ ids ∧ p ∈ ids ∧ p ≠ d := by
  unfold System.Lists mesh
  by_cases hd : d ∈ ids
  · simp only [hd, if_true, true_and]
    constructor
    · rintro ⟨row, hrow, rfl⟩
      obtain ⟨q, hq, rfl⟩ := List.mem_map.mp hrow
      have hmem := List.mem_filter.mp hq
      exact ⟨hmem.1, of_decide_eq_true hmem.2⟩
    · rintro ⟨hp, hne⟩
      exact ⟨row_of p, List.mem_map.mpr ⟨p, List.mem_filter.mpr ⟨hp, by simpa using hne⟩, rfl⟩, rfl⟩
  · simp [hd]

theorem mesh_start (ids : List DeviceId) : Start (mesh ids) where
  rows := by
    intro d row hrow
    unfold mesh at hrow
    dsimp only at hrow
    split at hrow
    · obtain ⟨q, _, rfl⟩ := List.mem_map.mp hrow
      rfl
    · cases hrow
  vault := by
    intro d k hk
    cases hk
    rfl
  epoch := fun _ => rfl
  slots := fun _ => rfl
  log := rfl
  accepts := rfl
  mints := rfl

def laptop : DeviceId := ⟨"laptop"⟩

def tablet : DeviceId := ⟨"tablet"⟩

def lost : DeviceId := ⟨"lost"⟩

end pai_sync
