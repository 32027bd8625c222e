-- Rotation with failures (rotate.rs): a push or a pull that fails, and a process that stops
-- inside a rotation or an adoption. The laws of what is left, and of the passes after it.
import PersonalAi.RotationAgreement

open pai_core sealing

namespace pai_sync

/-! ## Stops -/

def reset_vault_key (d : DeviceState) : DeviceState := { d with vault := none }

def store_epoch (d : DeviceState) (epoch : Nat) : DeviceState := { d with epoch := epoch }

/-- Where `rotate_vault_key` stops: behind the deletion, or behind the storing of the new key. -/
inductive Torn
  | deleted
  | stored
deriving DecidableEq

def rotate_until (d : DeviceState) (key : VaultKey) : Torn → DeviceState
  | .deleted => reset_vault_key d
  | .stored =>
    match adopt_vault_key (reset_vault_key d) key with
    | .ok d => d
    | .error _ => reset_vault_key d

/-- Run to its end it deletes, stores and writes the epoch. -/
theorem rotate_vault_key_eq (d : DeviceState) (key : VaultKey) (epoch : Nat) :
    rotate_vault_key d key epoch = store_epoch (rotate_until d key .stored) epoch := rfl

@[simp] theorem rotate_until_peers (d : DeviceState) (key : VaultKey) (t : Torn) :
    (rotate_until d key t).peers = d.peers := by
  cases t with
  | deleted => rfl
  | stored => rfl

@[simp] theorem rotate_until_epoch (d : DeviceState) (key : VaultKey) (t : Torn) :
    (rotate_until d key t).epoch = d.epoch := by
  cases t with
  | deleted => rfl
  | stored => rfl

/-- Where `push_rotation` ends too early: behind some of its pushes, or in the replacement. -/
inductive PushHalt
  | pushed (n : Nat)
  | torn (t : Torn)
deriving DecidableEq

def push_until (me : DeviceId) (d : DeviceState) (net : Network) (now_ms random : Nat) :
    PushHalt → Pass
  | .pushed n =>
    let epoch := max now_ms 1
    let vault : VaultKey := { rotation := epoch, random := random }
    { device := d, net := net.push_all ((rebroadcast me d.peers epoch vault).take n), count := 0 }
  | .torn t =>
    let epoch := max now_ms 1
    let vault : VaultKey := { rotation := epoch, random := random }
    { device := rotate_until d vault t, net := net.push_all (rebroadcast me d.peers epoch vault),
      count := 0 }

/-- Where an adoption ends too early: in the replacement, or behind some pushes of `rebroadcast`. -/
inductive AdoptHalt
  | torn (t : Torn)
  | told (n : Nat)
deriving DecidableEq

/-- A turn of the loop over the listing that ends too early. -/
def adopt_until (me : DeviceId) (peers : List SyncPeer) (p : Pass) (key : RotKey)
    (halt : AdoptHalt) : Pass :=
  if key.receiver ≠ me then p
  else
    match p.net.slots key with
    | none => p
    | some o =>
      if o.tombstone then p
      else
        match check_rotation me peers o with
        | none => p
        | some m =>
          if m.epoch ≤ p.device.epoch then p
          else
            match halt with
            | .torn t => { p with device := rotate_until p.device m.vault t }
            | .told n =>
              { device := rotate_vault_key p.device m.vault m.epoch,
                net := p.net.push_all ((rebroadcast me peers m.epoch m.vault).take n),
                count := p.count }

/-! ## The system -/

/-- A call on one device that runs to its end, or one that ends too early: a rotation, or the turn
of an adopting pass for one key. A list or a pull that fails makes a pass of a shorter listing. -/
inductive FaultyStep
  | push_rotation (device : DeviceId) (now_ms random : Nat)
  | adopt_rotations (device : DeviceId) (listing : List RotKey)
  | push_halts (device : DeviceId) (now_ms random : Nat) (halt : PushHalt)
  | adopt_halts (device : DeviceId) (key : RotKey) (halt : AdoptHalt)

def System.faulty_step (s : System) : FaultyStep → System
  | .push_rotation device now_ms random => s.step (.push_rotation device now_ms random)
  | .adopt_rotations device listing => s.step (.adopt_rotations device listing)
  | .push_halts device now_ms random halt =>
    { s.set device (push_until device (s.devices device) s.net now_ms random halt) with
      mints := (device, { rotation := max now_ms 1, random := random }) :: s.mints }
  | .adopt_halts device key halt =>
    let d := s.devices device
    s.set device (adopt_until device d.peers { device := d, net := s.net, count := 0 } key halt)

/-- `q` offers `p` the epoch. -/
def System.Offers (s : System) (q p : DeviceId) (epoch : Nat) : Prop :=
  ∃ vault, s.net.slots ⟨p, q⟩ = some (handed q p epoch vault)

/-- The device has recorded the epoch or a newer one, or a peer that has done so offers it one. -/
def System.Knows (s : System) (epoch : Nat) (p : DeviceId) : Prop :=
  epoch ≤ (s.devices p).epoch ∨
    ∃ q e, s.Lists p q ∧ s.Offers q p e ∧ epoch ≤ e ∧ epoch ≤ (s.devices q).epoch

/-- A rotation mints an epoch of its own that is newer than the recorded one. -/
def Newer (s : System) : FaultyStep → Prop
  | .push_rotation device now_ms _ | .push_halts device now_ms _ _ =>
    (s.devices device).epoch < max now_ms 1 ∧ ∀ m ∈ s.mints, m.2.rotation ≠ max now_ms 1
  | .adopt_rotations _ _ | .adopt_halts _ _ _ => True

/-- A device that stops inside a rotation has a peer. One that stops inside the replacement for an
offer has not recorded a newer epoch than the peer that offers it. An adoption that is cut short
leaves out only peers that know its epoch. -/
def Told (s : System) : FaultyStep → Prop
  | .push_rotation _ _ _ | .adopt_rotations _ _ => True
  | .push_halts _ _ _ (.pushed _) => True
  | .push_halts device _ _ (.torn _) => (s.devices device).peers ≠ []
  | .adopt_halts device key (.torn _) =>
    (s.devices device).epoch ≤ (s.devices key.sender).epoch
  | .adopt_halts device key (.told n) =>
    ∀ epoch vault, s.net.slots key = some (handed key.sender device epoch vault) →
      ∀ row ∈ (s.devices device).peers.drop n, s.Knows epoch row.device_id

/-- A peer graph whose devices share a vault, before the first rotation: all listing is mutual, and
devices that list each other hold the same key. -/
structure SharedStart (s : System) : Prop where
  start : Start s
  mutual_rows : ∀ d p, s.Lists d p → s.Lists p d ∧ d ≠ p
  has_key : ∀ d, ∃ k, (s.devices d).vault = some k
  same_key : ∀ d p, s.Lists d p → (s.devices d).vault = (s.devices p).vault

/-- The states of the runs from such a graph whose steps are all allowed. -/
inductive FaultyRun (allowed : System → FaultyStep → Prop) : System → Prop
  | start (s : System) (h : SharedStart s) : FaultyRun allowed s
  | step (s : System) (a : FaultyStep) (h : FaultyRun allowed s) (ha : allowed s a) :
      FaultyRun allowed (s.faulty_step a)

/-- Passes of any devices on a transport that works. -/
def System.Adopts : System → System → Prop :=
  Relation.ReflTransGen fun s t => ∃ d listing, t = s.step (.adopt_rotations d listing)

/-- A device without a key can get one, and when the passes change nothing any more, connected
devices hold one key and have recorded its epoch. -/
def Survives (s : System) : Prop :=
  (∀ d, (s.devices d).vault = none → ∃ t, s.Adopts t ∧ (t.devices d).vault ≠ none) ∧
    ∀ t, s.Adopts t → Quiescent t → ∀ d p, t.Connected d p →
      ∃ k, (t.devices d).vault = some k ∧ (t.devices p).vault = some k ∧
        (t.devices d).epoch = k.rotation ∧ (t.devices p).epoch = k.rotation

/-! ## One move -/

/-- A device takes a new state, and tells some peers an epoch and its key. -/
def System.tell (s : System) (me : DeviceId) (d : DeviceState) (told : List SyncPeer)
    (epoch : Nat) (vault : VaultKey) : System :=
  { s with
    devices := Function.update s.devices me d,
    net := s.net.push_all (rebroadcast me told epoch vault) }

theorem honest_tell {s : System} (h : Honest s) {me : DeviceId} {d : DeviceState}
    {told : List SyncPeer} {epoch : Nat} {vault : VaultKey} (hd : HonestRows d.peers)
    (htold : HonestRows told) (hrot : vault.rotation = epoch) (hmint : ∃ m, (m, vault) ∈ s.mints) :
    Honest (s.tell me d told epoch vault) := by
  -- tell as a device whose table has the told peers only, then put the state in
  have hfew := honest_set_device h me (d := { s.devices me with peers := told }) htold h.accepts
  have hinstall := @honest_install _ hfew me epoch vault hrot hmint
  have hput := honest_set_device hinstall me (d := d) hd hinstall.accepts
  simpa [System.install, System.tell] using hput

/-- What every step amounts to: a device with the same peers tells some of them an epoch that is
newer than its own, of a rotation before or now, and records it or not. -/
structure Move (s : System) (me : DeviceId) (d : DeviceState) (told : List SyncPeer) (epoch : Nat)
    (vault : VaultKey) (mints : List (DeviceId × VaultKey)) : Prop where
  newer : (s.devices me).epoch < epoch
  rotation : vault.rotation = epoch
  peers : d.peers = (s.devices me).peers
  told : ∀ row ∈ told, row ∈ (s.devices me).peers
  mints : (mints = s.mints ∧ ∃ m, (m, vault) ∈ s.mints) ∨
    (mints = (me, vault) :: s.mints ∧ ∀ m ∈ s.mints, m.2.rotation ≠ epoch)
  epoch : d.epoch = (s.devices me).epoch ∨ d.epoch = epoch
  vault : d.vault = none ∨ d.vault = (s.devices me).vault ∨ d.vault = some vault

/-- The state behind a move. -/
def System.moved (s : System) (me : DeviceId) (d : DeviceState) (told : List SyncPeer)
    (epoch : Nat) (vault : VaultKey) (mints : List (DeviceId × VaultKey)) : System :=
  { s.tell me d told epoch vault with mints := mints }

section Moves

variable {s : System} {me : DeviceId} {d : DeviceState} {told : List SyncPeer} {epoch : Nat}
  {vault : VaultKey} {mints : List (DeviceId × VaultKey)}

@[simp] theorem moved_self : (s.moved me d told epoch vault mints).devices me = d := by
  simp [System.moved, System.tell]

theorem moved_other {p : DeviceId} (hp : p ≠ me) :
    (s.moved me d told epoch vault mints).devices p = s.devices p := by
  simp [System.moved, System.tell, hp]

namespace Move

variable (h : Move s me d told epoch vault mints)

include h

theorem lists (a b : DeviceId) :
    (s.moved me d told epoch vault mints).Lists a b ↔ s.Lists a b := by
  unfold System.Lists
  by_cases ha : a = me
  · subst ha
    rw [moved_self, h.peers]
  · rw [moved_other ha]

theorem epoch_le (a : DeviceId) :
    (s.devices a).epoch ≤ ((s.moved me d told epoch vault mints).devices a).epoch := by
  by_cases ha : a = me
  · subst ha
    rw [moved_self]
    have := h.newer
    rcases h.epoch with he | he
    · omega
    · omega
  · rw [moved_other ha]

theorem mem_mints : (∃ m, (m, vault) ∈ mints) ∧ ∀ m ∈ s.mints, m ∈ mints := by
  rcases h.mints with ⟨rfl, hm⟩ | ⟨rfl, _⟩
  · exact ⟨hm, fun _ hm => hm⟩
  · exact ⟨⟨me, by simp⟩, fun _ hm => by simp [hm]⟩

theorem honest (hs : Honest s) : Honest (s.moved me d told epoch vault mints) := by
  obtain ⟨hmem, hsub⟩ := h.mem_mints
  have hrows : HonestRows d.peers := by
    rw [h.peers]
    exact hs.rows me
  have htold : HonestRows told := fun row hrow => hs.rows me row (h.told row hrow)
  exact honest_tell (honest_more_mints hs mints hsub) hrows htold h.rotation hmem

/-- A slot behind a move: one that was told, or what it was. -/
theorem slot (hs : Honest s) (p q : DeviceId) :
    (s.moved me d told epoch vault mints).net.slots ⟨p, q⟩ =
      if q = me ∧ ∃ row ∈ told, row.device_id = p then some (handed me p epoch vault)
      else s.net.slots ⟨p, q⟩ :=
  rebroadcast_slots s.net me (fun row hrow => hs.rows me row (h.told row hrow)) epoch vault ⟨p, q⟩

/-- An offer that waits behind a move is the one of the move, or waited before. -/
theorem offers_of (hs : Honest s) {p q : DeviceId} {e : Nat}
    (ho : (s.moved me d told epoch vault mints).Offers q p e) :
    (q = me ∧ e = epoch ∧ s.Lists me p) ∨ s.Offers q p e := by
  obtain ⟨k, hk⟩ := ho
  rw [h.slot hs] at hk
  split at hk
  · rename_i hcond
    obtain ⟨rfl, row, hrow, rfl⟩ := hcond
    obtain ⟨rfl, _⟩ := handed_inj (Option.some.inj hk)
    exact Or.inl ⟨rfl, rfl, row, h.told row hrow, rfl⟩
  · exact Or.inr ⟨k, hk⟩

/-- An offer stays, or gives way to that of the move. -/
theorem offers_stay (hs : Honest s) {p q : DeviceId} {e : Nat} (ho : s.Offers q p e) :
    (q = me ∧ (s.moved me d told epoch vault mints).Offers q p epoch) ∨
      (s.moved me d told epoch vault mints).Offers q p e := by
  obtain ⟨k, hk⟩ := ho
  by_cases hcond : q = me ∧ ∃ row ∈ told, row.device_id = p
  · left
    refine ⟨hcond.1, vault, ?_⟩
    rw [h.slot hs, if_pos hcond, hcond.1]
  · right
    refine ⟨k, ?_⟩
    rw [h.slot hs, if_neg hcond]
    exact hk

theorem offers_told (hs : Honest s) {p : DeviceId} (hp : ∃ row ∈ told, row.device_id = p) :
    (s.moved me d told epoch vault mints).Offers me p epoch := by
  refine ⟨vault, ?_⟩
  rw [h.slot hs, if_pos ⟨rfl, hp⟩]

/-- What a device knows it knows behind the move. -/
theorem knows (hs : Honest s) {e : Nat} {p : DeviceId} (hk : s.Knows e p) :
    (s.moved me d told epoch vault mints).Knows e p := by
  rcases hk with hle | ⟨q, e', hlist, hoffer, hle, hq⟩
  · exact Or.inl (hle.trans (h.epoch_le p))
  · right
    have hlist' := (h.lists p q).mpr hlist
    have hq' := hq.trans (h.epoch_le q)
    rcases h.offers_stay hs hoffer with ⟨rfl, hnow⟩ | hstill
    · have hnew := h.newer
      exact ⟨q, epoch, hlist', hnow, by omega, hq'⟩
    · exact ⟨q, e', hlist', hstill, hle, hq'⟩

end Move

end Moves

/-! ## The invariant -/

/-- The device holds the key of the epoch that it has recorded. -/
def System.Whole (s : System) (d : DeviceId) : Prop :=
  ∃ k, (s.devices d).vault = some k ∧ k.rotation = (s.devices d).epoch

/-- A peer that is not behind the device offers it a newer epoch. -/
def System.Offered (s : System) (d : DeviceId) : Prop :=
  ∃ p e, s.Lists d p ∧ s.Offers p d e ∧ (s.devices d).epoch < e ∧
    (s.devices d).epoch ≤ (s.devices p).epoch

/-- The device offers a peer an epoch that is newer than that of both. -/
def System.Offering (s : System) (d : DeviceId) : Prop :=
  ∃ p e, s.Lists d p ∧ s.Offers d p e ∧ (s.devices d).epoch < e ∧ (s.devices p).epoch < e

/-- What holds of all devices in every run whose stops are allowed: a device holds the key of its
epoch, or a newer key is on its way to it; and what it has recorded its peers know. -/
structure Surviving (first : DeviceId → VaultKey) (s : System) : Prop where
  honest : Honest s
  mutual_rows : ∀ d p, s.Lists d p → s.Lists p d ∧ d ≠ p
  own_key : ∀ d, (first d).rotation = 0
  same_first : ∀ d p, s.Lists d p → first d = first p
  offers : ∀ d p e, s.Offers d p e → s.Lists d p
  held : ∀ d k, (s.devices d).vault = some k → k = first d ∨ ∃ m, (m, k) ∈ s.mints
  minted : ∀ m ∈ s.mints, 0 < m.2.rotation
  distinct : ∀ x ∈ s.mints, ∀ y ∈ s.mints, x.2.rotation = y.2.rotation → x = y
  knows : ∀ d p, s.Lists d p → s.Knows (s.devices d).epoch p
  whole : ∀ d, s.Whole d ∨ s.Offered d ∨ s.Offering d

theorem SharedStart.surviving {s : System} (h : SharedStart s) :
    ∃ first, Surviving first s := by
  choose first hfirst using h.has_key
  refine ⟨first, ?_⟩
  refine
    { honest := h.start.honest, mutual_rows := h.mutual_rows, own_key := ?_, same_first := ?_,
      offers := ?_, held := ?_, minted := ?_, distinct := ?_, knows := ?_, whole := ?_ }
  · intro d
    exact h.start.vault d _ (hfirst d)
  · intro d p hlist
    have hsame := h.same_key d p hlist
    rw [hfirst, hfirst] at hsame
    exact Option.some.inj hsame
  · rintro d p e ⟨k, hk⟩
    rw [h.start.slots] at hk
    cases hk
  · intro d k hk
    left
    rw [hfirst] at hk
    exact (Option.some.inj hk).symm
  · simp [h.start.mints]
  · simp [h.start.mints]
  · intro d p _
    left
    simp [h.start.epoch]
  · intro d
    left
    refine ⟨first d, hfirst d, ?_⟩
    rw [h.start.vault d _ (hfirst d), h.start.epoch]

/-- A device with a peer that has recorded a newer epoch is offered one. -/
theorem offered_of_knows {s : System} {d : DeviceId} {e : Nat} (hk : s.Knows e d)
    (hnew : (s.devices d).epoch < e) : s.Offered d := by
  rcases hk with hle | ⟨q, e', hlist, hoffer, hle, hq⟩
  · omega
  · exact ⟨q, e', hlist, hoffer, by omega, by omega⟩

/-- A device that offers a peer a newer epoch than its own waits for it. -/
theorem waits_of_offers {s : System} {d p : DeviceId} {e : Nat} (hlist : s.Lists d p)
    (hback : s.Knows (s.devices p).epoch d) (hoffer : s.Offers d p e)
    (hnew : (s.devices d).epoch < e) : s.Offered d ∨ s.Offering d := by
  by_cases hpast : (s.devices p).epoch < e
  · exact Or.inr ⟨p, e, hlist, hoffer, hnew, hpast⟩
  · -- the peer has caught up with the offer, and the device knows what the peer has recorded
    exact Or.inl (offered_of_knows hback (by omega))

section Moves

variable {first : DeviceId → VaultKey} {s : System} {me : DeviceId} {d : DeviceState}
  {told : List SyncPeer} {epoch : Nat} {vault : VaultKey} {mints : List (DeviceId × VaultKey)}

/-- Behind a move a device that has recorded the epoch needs its untold peers to know it. -/
theorem moved_knows (hs : Surviving first s) (h : Move s me d told epoch vault mints)
    (hleft : d.epoch = epoch → ∀ row ∈ (s.devices me).peers, row ∉ told →
      s.Knows epoch row.device_id) (a p : DeviceId) (hlist : s.Lists a p) :
    (s.moved me d told epoch vault mints).Knows
      ((s.moved me d told epoch vault mints).devices a).epoch p := by
  have hkept := h.knows hs.honest (hs.knows a p hlist)
  by_cases ha : a = me
  · subst ha
    rw [moved_self]
    rcases h.epoch with hold | hnow
    · rw [hold]
      exact hkept
    · rw [hnow]
      obtain ⟨row, hrow, rfl⟩ := hlist
      by_cases htold : row ∈ told
      · right
        have hback := (hs.mutual_rows a row.device_id ⟨row, hrow, rfl⟩).1
        refine ⟨a, epoch, (h.lists _ _).mpr hback, h.offers_told hs.honest ⟨row, htold, rfl⟩,
          le_refl _, ?_⟩
        rw [moved_self, hnow]
      · exact h.knows hs.honest (hleft hnow row hrow htold)
  · rw [moved_other ha]
    exact hkept

/-- A device that waited for a newer key still waits behind a move that leaves its epoch. -/
theorem moved_waits (hs : Surviving first s) (h : Move s me d told epoch vault mints)
    (hknows : ∀ a p, s.Lists a p → (s.moved me d told epoch vault mints).Knows
      ((s.moved me d told epoch vault mints).devices a).epoch p)
    {a : DeviceId}
    (hsame : ((s.moved me d told epoch vault mints).devices a).epoch = (s.devices a).epoch)
    (hwait : s.Offered a ∨ s.Offering a) :
    (s.moved me d told epoch vault mints).Offered a ∨
      (s.moved me d told epoch vault mints).Offering a := by
  have hlt := h.newer
  rcases hwait with ⟨p, e, hlist, hoffer, hnew, hpeer⟩ | ⟨p, e, hlist, hoffer, hnew, hpeer⟩
  · left
    have hlist' := (h.lists a p).mpr hlist
    have hpeer' := hpeer.trans (h.epoch_le p)
    rw [← hsame] at hnew hpeer hpeer'
    rcases h.offers_stay hs.honest hoffer with ⟨rfl, hnow⟩ | hstill
    · exact ⟨p, epoch, hlist', hnow, by omega, hpeer'⟩
    · exact ⟨p, e, hlist', hstill, hnew, hpeer'⟩
  · have hlist' := (h.lists a p).mpr hlist
    have hback := hknows p a (hs.mutual_rows a p hlist).1
    rw [← hsame] at hnew
    rcases h.offers_stay hs.honest hoffer with ⟨rfl, hnow⟩ | hstill
    · exact waits_of_offers hlist' hback hnow (by omega)
    · exact waits_of_offers hlist' hback hstill hnew

/-- Every move keeps the invariant, if the device itself is whole or waits behind it, and the peers
that it leaves out know the epoch that it records. -/
theorem surviving_moved (hs : Surviving first s) (h : Move s me d told epoch vault mints)
    (hleft : d.epoch = epoch → ∀ row ∈ (s.devices me).peers, row ∉ told →
      s.Knows epoch row.device_id)
    (hme : (s.moved me d told epoch vault mints).Whole me ∨
      (s.moved me d told epoch vault mints).Offered me ∨
      (s.moved me d told epoch vault mints).Offering me) :
    Surviving first (s.moved me d told epoch vault mints) := by
  have hknows := moved_knows hs h hleft
  obtain ⟨hmem, hsub⟩ := h.mem_mints
  refine
    { honest := h.honest hs.honest, mutual_rows := ?_, own_key := hs.own_key, same_first := ?_,
      offers := ?_, held := ?_, minted := ?_, distinct := ?_, knows := ?_, whole := ?_ }
  · intro a p hlist
    rw [h.lists] at hlist ⊢
    exact hs.mutual_rows a p hlist
  · intro a p hlist
    rw [h.lists] at hlist
    exact hs.same_first a p hlist
  · intro a p e hoffer
    rw [h.lists]
    rcases h.offers_of hs.honest hoffer with ⟨rfl, _, hlist⟩ | hold
    · exact hlist
    · exact hs.offers a p e hold
  · intro a k hk
    have hold : (s.devices a).vault = some k → k = first a ∨ ∃ m, (m, k) ∈ mints := by
      intro hk
      rcases hs.held a k hk with hfirst | ⟨m, hm⟩
      · exact Or.inl hfirst
      · exact Or.inr ⟨m, hsub _ hm⟩
    by_cases ha : a = me
    · subst ha
      rw [moved_self] at hk
      rcases h.vault with hv | hv | hv
      · rw [hv] at hk
        cases hk
      · rw [hv] at hk
        exact hold hk
      · rw [hv] at hk
        cases hk
        exact Or.inr hmem
    · rw [moved_other ha] at hk
      exact hold hk
  · intro m hm
    rcases h.mints with ⟨rfl, _⟩ | ⟨rfl, _⟩
    · exact hs.minted m hm
    · rcases List.mem_cons.mp hm with rfl | hm
      · have := h.newer
        have := h.rotation
        simp only
        omega
      · exact hs.minted m hm
  · intro x hx y hy hxy
    rcases h.mints with ⟨rfl, _⟩ | ⟨rfl, hfresh⟩
    · exact hs.distinct x hx y hy hxy
    · have hrot := h.rotation
      rcases List.mem_cons.mp hx with rfl | hx <;> rcases List.mem_cons.mp hy with rfl | hy
      · rfl
      · exact absurd (hxy.symm.trans hrot) (hfresh y hy)
      · exact absurd (hxy.trans hrot) (hfresh x hx)
      · exact hs.distinct x hx y hy hxy
  · intro a p hlist
    rw [h.lists] at hlist
    exact hknows a p hlist
  · intro a
    by_cases ha : a = me
    · subst ha
      exact hme
    · rcases hs.whole a with ⟨k, hk, hrot⟩ | hwait
      · left
        refine ⟨k, ?_, ?_⟩
        · rw [moved_other ha]
          exact hk
        · rw [moved_other ha]
          exact hrot
      · refine Or.inr (moved_waits hs h hknows ?_ hwait)
        rw [moved_other ha]

end Moves

/-! ## Every allowed step -/

/-- A slot of an honest transport that a device can take over from. -/
theorem surviving_install {first : DeviceId → VaultKey} {s : System} (hs : Surviving first s)
    {me p : DeviceId} {epoch : Nat} {vault : VaultKey}
    (hslot : s.net.slots ⟨me, p⟩ = some (handed p me epoch vault))
    (hnew : (s.devices me).epoch < epoch) : Surviving first (s.install me epoch vault) := by
  obtain ⟨hrot, hmint⟩ := hs.honest.minted me p epoch vault hslot
  have hmove : Move s me (rotate_vault_key (s.devices me) vault epoch) (s.devices me).peers epoch
      vault s.mints :=
    { newer := hnew, rotation := hrot, peers := rfl, told := fun _ hrow => hrow,
      mints := Or.inl ⟨rfl, hmint⟩, epoch := Or.inr rfl, vault := Or.inr (Or.inr rfl) }
  refine surviving_moved hs hmove (fun _ row hrow hleft => absurd hrow hleft) (Or.inl ?_)
  refine ⟨vault, ?_, ?_⟩
  · rw [moved_self]
    rfl
  · rw [moved_self]
    exact hrot

theorem surviving_adopt {first : DeviceId → VaultKey} {s : System} (hs : Surviving first s)
    (me : DeviceId) (listing : List RotKey) :
    Surviving first (s.step (.adopt_rotations me listing)) := by
  refine adopt_step_keeps me listing (fun t ht => ⟨ht.honest.rows me, ht.honest.slots⟩) hs ?_
  intro t d epoch vault ht hslot _ hnew
  exact surviving_install ht hslot hnew

theorem surviving_push {first : DeviceId → VaultKey} {s : System} (hs : Surviving first s)
    (me : DeviceId) (now_ms random : Nat)
    (hnew : Newer s (.push_rotation me now_ms random)) :
    Surviving first (s.faulty_step (.push_rotation me now_ms random)) := by
  obtain ⟨hlt, hfresh⟩ := hnew
  have hmove : Move s me (rotate_vault_key (s.devices me) ⟨max now_ms 1, random⟩ (max now_ms 1))
      (s.devices me).peers (max now_ms 1) ⟨max now_ms 1, random⟩
      ((me, ⟨max now_ms 1, random⟩) :: s.mints) :=
    { newer := hlt, rotation := rfl, peers := rfl, told := fun _ hrow => hrow,
      mints := Or.inr ⟨rfl, hfresh⟩, epoch := Or.inr rfl, vault := Or.inr (Or.inr rfl) }
  refine surviving_moved hs hmove (fun _ row hrow hleft => absurd hrow hleft) (Or.inl ?_)
  refine ⟨⟨max now_ms 1, random⟩, ?_, ?_⟩
  · rw [moved_self]
    rfl
  · rw [moved_self]
    rfl

theorem rotate_until_vault (d : DeviceState) (key : VaultKey) (t : Torn) :
    (rotate_until d key t).vault = none ∨ (rotate_until d key t).vault = some key := by
  cases t with
  | deleted => exact Or.inl rfl
  | stored => exact Or.inr rfl

/-- A rotation that stops behind some of its pushes leaves the device as it was. -/
theorem surviving_pushed {first : DeviceId → VaultKey} {s : System} (hs : Surviving first s)
    (me : DeviceId) (now_ms random n : Nat)
    (hnew : Newer s (.push_halts me now_ms random (.pushed n))) :
    Surviving first (s.faulty_step (.push_halts me now_ms random (.pushed n))) := by
  obtain ⟨hlt, hfresh⟩ := hnew
  have hmove : Move s me (s.devices me) ((s.devices me).peers.take n) (max now_ms 1)
      ⟨max now_ms 1, random⟩ ((me, ⟨max now_ms 1, random⟩) :: s.mints) :=
    { newer := hlt, rotation := rfl, peers := rfl, told := fun _ hrow => List.mem_of_mem_take hrow,
      mints := Or.inr ⟨rfl, hfresh⟩, epoch := Or.inl rfl, vault := Or.inr (Or.inl rfl) }
  have hstep : s.faulty_step (.push_halts me now_ms random (.pushed n)) =
      s.moved me (s.devices me) ((s.devices me).peers.take n) (max now_ms 1)
        ⟨max now_ms 1, random⟩ ((me, ⟨max now_ms 1, random⟩) :: s.mints) := by
    simp only [System.faulty_step, push_until, System.set, System.moved, System.tell, rebroadcast,
      List.map_take]
  rw [hstep]
  have hleft : (s.devices me).epoch = max now_ms 1 →
      ∀ row ∈ (s.devices me).peers, row ∉ (s.devices me).peers.take n →
        s.Knows (max now_ms 1) row.device_id := by
    intro heq
    omega
  refine surviving_moved hs hmove hleft ?_
  rcases hs.whole me with ⟨k, hk, hrot⟩ | hwait
  · left
    refine ⟨k, ?_, ?_⟩
    · rw [moved_self]
      exact hk
    · rw [moved_self]
      exact hrot
  · refine Or.inr (moved_waits hs hmove (moved_knows hs hmove hleft) ?_ hwait)
    rw [moved_self]

/-- A rotation that stops in the replacement has told all peers, and one of them hands the key
back. -/
theorem surviving_push_torn {first : DeviceId → VaultKey} {s : System} (hs : Surviving first s)
    (me : DeviceId) (now_ms random : Nat) (t : Torn)
    (hnew : Newer s (.push_halts me now_ms random (.torn t)))
    (hpeer : (s.devices me).peers ≠ []) :
    Surviving first (s.faulty_step (.push_halts me now_ms random (.torn t))) := by
  obtain ⟨hlt, hfresh⟩ := hnew
  have hmove : Move s me (rotate_until (s.devices me) ⟨max now_ms 1, random⟩ t)
      (s.devices me).peers (max now_ms 1) ⟨max now_ms 1, random⟩
      ((me, ⟨max now_ms 1, random⟩) :: s.mints) :=
    { newer := hlt, rotation := rfl, peers := rotate_until_peers _ _ t,
      told := fun _ hrow => hrow, mints := Or.inr ⟨rfl, hfresh⟩,
      epoch := Or.inl (rotate_until_epoch _ _ t),
      vault := (rotate_until_vault _ _ t).imp_right Or.inr }
  have hstep : s.faulty_step (.push_halts me now_ms random (.torn t)) =
      s.moved me (rotate_until (s.devices me) ⟨max now_ms 1, random⟩ t) (s.devices me).peers
        (max now_ms 1) ⟨max now_ms 1, random⟩ ((me, ⟨max now_ms 1, random⟩) :: s.mints) := rfl
  rw [hstep]
  refine surviving_moved hs hmove (fun _ row hrow hleft => absurd hrow hleft) (Or.inr ?_)
  obtain ⟨row, hrow⟩ := List.exists_mem_of_ne_nil _ hpeer
  have hlist : s.Lists me row.device_id := ⟨row, hrow, rfl⟩
  refine waits_of_offers ((hmove.lists _ _).mpr hlist) ?_
    (hmove.offers_told hs.honest ⟨row, hrow, rfl⟩) ?_
  · exact moved_knows hs hmove (fun _ row hrow hleft => absurd hrow hleft) _ _
      (hs.mutual_rows me _ hlist).1
  · rw [moved_self, rotate_until_epoch]
    exact hlt

/-- A turn that ends too early changes nothing, or stops behind the check of a newer offer. -/
theorem adopt_until_cases {s : System} (h : Honest s) (me : DeviceId) (key : RotKey)
    (halt : AdoptHalt) :
    s.faulty_step (.adopt_halts me key halt) = s ∨
    ∃ p epoch vault, key = ⟨me, p⟩ ∧ s.net.slots key = some (handed p me epoch vault) ∧
      s.Lists me p ∧ (s.devices me).epoch < epoch ∧
      s.faulty_step (.adopt_halts me key halt) =
        match halt with
        | .torn t => s.set me
            { device := rotate_until (s.devices me) vault t, net := s.net, count := 0 }
        | .told n => s.set me
            { device := rotate_vault_key (s.devices me) vault epoch,
              net := s.net.push_all ((rebroadcast me (s.devices me).peers epoch vault).take n),
              count := 0 } := by
  have hsame : s.set me { device := s.devices me, net := s.net, count := 0 } = s := by
    simp [System.set]
  simp only [System.faulty_step, adopt_until]
  by_cases hme : key.receiver = me
  · rw [if_neg (by simpa using hme)]
    cases hslot : s.net.slots key with
    | none => exact Or.inl hsame
    | some o =>
      obtain ⟨epoch, vault, rfl⟩ := h.slots key o hslot
      rw [hme]
      simp only [handed_tombstone, Bool.false_eq_true, if_false, check_handed (h.rows me)]
      by_cases hlist : ∃ row ∈ (s.devices me).peers, row.device_id = key.sender
      · simp only [if_pos hlist]
        by_cases hold : epoch ≤ (s.devices me).epoch
        · left
          rw [if_pos (show (rotation_message key.sender epoch vault).epoch ≤ _ from hold)]
          exact hsame
        · right
          refine ⟨key.sender, epoch, vault, ?_, rfl, hlist, by omega, ?_⟩
          · cases key
            simp_all
          · rw [if_neg (show ¬ (rotation_message key.sender epoch vault).epoch ≤ _ from hold)]
            cases halt with
            | torn t => rfl
            | told n => rfl
      · left
        simp only [if_neg hlist]
        exact hsame
  · left
    rw [if_pos (by simpa using hme)]
    exact hsame

/-- An adoption that stops in the replacement can be made again, from the same offer. -/
theorem surviving_adopt_torn {first : DeviceId → VaultKey} {s : System} (hs : Surviving first s)
    (me : DeviceId) (key : RotKey) (t : Torn)
    (hpeer : (s.devices me).epoch ≤ (s.devices key.sender).epoch) :
    Surviving first (s.faulty_step (.adopt_halts me key (.torn t))) := by
  rcases adopt_until_cases hs.honest me key (.torn t) with
    hstep | ⟨p, epoch, vault, rfl, hslot, hlist, hnew, hstep⟩
  · rw [hstep]
    exact hs
  · obtain ⟨hrot, hmint⟩ := hs.honest.minted me p epoch vault hslot
    have hmove : Move s me (rotate_until (s.devices me) vault t) [] epoch vault s.mints :=
      { newer := hnew, rotation := hrot, peers := rotate_until_peers _ _ t,
        told := fun _ hrow => absurd hrow List.not_mem_nil, mints := Or.inl ⟨rfl, hmint⟩,
        epoch := Or.inl (rotate_until_epoch _ _ t),
        vault := (rotate_until_vault _ _ t).imp_right Or.inr }
    have hmoved : s.faulty_step (.adopt_halts me ⟨me, p⟩ (.torn t)) =
        s.moved me (rotate_until (s.devices me) vault t) [] epoch vault s.mints := by
      rw [hstep]
      rfl
    rw [hmoved]
    refine surviving_moved hs hmove ?_ (Or.inr (Or.inl ?_))
    · intro heq
      rw [rotate_until_epoch] at heq
      omega
    · have hne := (hs.mutual_rows me p hlist).2
      refine ⟨p, epoch, (hmove.lists _ _).mpr hlist, ⟨vault, hslot⟩, ?_, ?_⟩
      · rw [moved_self, rotate_until_epoch]
        exact hnew
      · rw [moved_self, rotate_until_epoch, moved_other (Ne.symm hne)]
        exact hpeer

/-- An adoption that is cut short keeps the invariant when the peers left out know the epoch. -/
theorem surviving_adopt_told {first : DeviceId → VaultKey} {s : System} (hs : Surviving first s)
    (me : DeviceId) (key : RotKey) (n : Nat) (htold : Told s (.adopt_halts me key (.told n))) :
    Surviving first (s.faulty_step (.adopt_halts me key (.told n))) := by
  rcases adopt_until_cases hs.honest me key (.told n) with
    hstep | ⟨p, epoch, vault, rfl, hslot, hlist, hnew, hstep⟩
  · rw [hstep]
    exact hs
  · obtain ⟨hrot, hmint⟩ := hs.honest.minted me p epoch vault hslot
    have hmove : Move s me (rotate_vault_key (s.devices me) vault epoch)
        ((s.devices me).peers.take n) epoch vault s.mints :=
      { newer := hnew, rotation := hrot, peers := rfl,
        told := fun _ hrow => List.mem_of_mem_take hrow, mints := Or.inl ⟨rfl, hmint⟩,
        epoch := Or.inr rfl, vault := Or.inr (Or.inr rfl) }
    have hmoved : s.faulty_step (.adopt_halts me ⟨me, p⟩ (.told n)) =
        s.moved me (rotate_vault_key (s.devices me) vault epoch) ((s.devices me).peers.take n)
          epoch vault s.mints := by
      rw [hstep]
      simp only [System.set, System.moved, System.tell, rebroadcast, List.map_take]
    rw [hmoved]
    refine surviving_moved hs hmove ?_ (Or.inl ⟨vault, ?_, ?_⟩)
    · intro _ row hrow hleft
      refine htold epoch vault hslot row ?_
      rw [← List.take_append_drop n (s.devices me).peers] at hrow
      rcases List.mem_append.mp hrow with htake | hdrop
      · exact absurd htake hleft
      · exact hdrop
    · rw [moved_self]
      rfl
    · rw [moved_self]
      exact hrot

theorem surviving_step {first : DeviceId → VaultKey} {s : System} (hs : Surviving first s)
    (a : FaultyStep) (hnew : Newer s a) (htold : Told s a) :
    Surviving first (s.faulty_step a) := by
  cases a with
  | push_rotation me now_ms random => exact surviving_push hs me now_ms random hnew
  | adopt_rotations me listing => exact surviving_adopt hs me listing
  | push_halts me now_ms random halt =>
    cases halt with
    | pushed n => exact surviving_pushed hs me now_ms random n hnew
    | torn t => exact surviving_push_torn hs me now_ms random t hnew htold
  | adopt_halts me key halt =>
    cases halt with
    | torn t => exact surviving_adopt_torn hs me key t htold
    | told n => exact surviving_adopt_told hs me key n htold

theorem faulty_run_surviving {s : System}
    (h : FaultyRun (fun s a => Newer s a ∧ Told s a) s) : ∃ first, Surviving first s := by
  induction h with
  | start s h => exact h.surviving
  | step s a _ ha ih =>
    obtain ⟨first, hs⟩ := ih
    exact ⟨first, surviving_step hs a ha.1 ha.2⟩

theorem adopts_surviving {first : DeviceId → VaultKey} {s t : System} (hs : Surviving first s)
    (h : s.Adopts t) : Surviving first t := by
  induction h with
  | refl => exact hs
  | tail _ hlast ih =>
    obtain ⟨d, listing, rfl⟩ := hlast
    exact surviving_adopt ih d listing

/-! ## A device without a key -/

/-- A device that is offered a newer epoch has a key after one pass. -/
theorem offered_obtains {first : DeviceId → VaultKey} {s : System} (hs : Surviving first s)
    {d : DeviceId} (h : s.Offered d) : ∃ t, s.Adopts t ∧ (t.devices d).vault ≠ none := by
  obtain ⟨p, e, hlist, ⟨vault, hslot⟩, hnew, _⟩ := h
  refine ⟨s.install d e vault, Relation.ReflTransGen.single ⟨d, [⟨d, p⟩], ?_⟩, ?_⟩
  · exact (adopt_single (hs.honest.rows d) hslot hlist hnew).symm
  · rw [install_device_self]
    simp [rotate_vault_key]

/-- A device that offers its peer a newer epoch is offered one after a pass of the peer. -/
theorem offering_obtains {first : DeviceId → VaultKey} {s : System} (hs : Surviving first s)
    {d : DeviceId} (h : s.Offering d) : ∃ t, s.Adopts t ∧ (t.devices d).vault ≠ none := by
  obtain ⟨p, e, hlist, ⟨vault, hslot⟩, hnew, hpeer⟩ := h
  obtain ⟨hback, hne⟩ := hs.mutual_rows d p hlist
  have hpass : s.step (.adopt_rotations p [⟨p, d⟩]) = s.install p e vault :=
    adopt_single (hs.honest.rows p) hslot hback hpeer
  have hs' := surviving_install hs hslot hpeer
  have hwait : (s.install p e vault).Offered d := by
    refine offered_of_knows (hs'.knows p d ((install_lists _ _ _ _ _ _).mpr hback)) ?_
    rw [install_device_self, install_device_other s hne]
    exact hnew
  obtain ⟨t, hadopts, hkey⟩ := offered_obtains hs' hwait
  exact ⟨t, Relation.ReflTransGen.head ⟨p, [⟨p, d⟩], hpass.symm⟩ hadopts, hkey⟩

theorem keyless_obtains {first : DeviceId → VaultKey} {s : System} (hs : Surviving first s)
    {d : DeviceId} (hnone : (s.devices d).vault = none) :
    ∃ t, s.Adopts t ∧ (t.devices d).vault ≠ none := by
  rcases hs.whole d with ⟨k, hk, _⟩ | hoffered | hoffering
  · rw [hnone] at hk
    cases hk
  · exact offered_obtains hs hoffered
  · exact offering_obtains hs hoffering

/-! ## At rest -/

theorem quiescent_not_offered {first : DeviceId → VaultKey} {s : System} (hs : Surviving first s)
    (hq : Quiescent s) (d : DeviceId) : ¬ s.Offered d := by
  rintro ⟨p, e, hlist, ⟨vault, hslot⟩, hnew, _⟩
  have hne := (hs.mutual_rows d p hlist).2
  have := quiescent_slot hs.honest hq (Ne.symm hne) hlist hslot
  omega

theorem quiescent_level {first : DeviceId → VaultKey} {s : System} (hs : Surviving first s)
    (hq : Quiescent s) {d p : DeviceId} (hlist : s.Lists d p) :
    (s.devices d).epoch ≤ (s.devices p).epoch := by
  by_contra hlt
  exact quiescent_not_offered hs hq p (offered_of_knows (hs.knows d p hlist) (by omega))

theorem quiescent_whole {first : DeviceId → VaultKey} {s : System} (hs : Surviving first s)
    (hq : Quiescent s) (d : DeviceId) : s.Whole d := by
  rcases hs.whole d with hwhole | hoffered | ⟨p, e, hlist, ⟨vault, hslot⟩, hnew, hpeer⟩
  · exact hwhole
  · exact absurd hoffered (quiescent_not_offered hs hq d)
  · obtain ⟨hback, hne⟩ := hs.mutual_rows d p hlist
    have := quiescent_slot hs.honest hq hne hback hslot
    omega

/-- Two devices that have recorded the same epoch and hold its key hold the same key, if they hold
the same one before the first rotation. -/
theorem same_epoch_same_key {first : DeviceId → VaultKey} {s : System} (hs : Surviving first s)
    {d p : DeviceId} (hfirst : first d = first p) {k k' : VaultKey}
    (hk : (s.devices d).vault = some k) (hk' : (s.devices p).vault = some k')
    (hrot : k.rotation = k'.rotation) : k = k' := by
  rcases hs.held d k hk with rfl | ⟨m, hm⟩
  · rcases hs.held p k' hk' with rfl | ⟨m', hm'⟩
    · exact hfirst
    · have hpos := hs.minted _ hm'
      have hzero := hs.own_key d
      simp only at hpos
      omega
  · rcases hs.held p k' hk' with rfl | ⟨m', hm'⟩
    · have hpos := hs.minted _ hm
      have hzero := hs.own_key p
      simp only at hpos
      omega
    · exact (Prod.mk.inj (hs.distinct _ hm _ hm' hrot)).2

theorem quiescent_same {first : DeviceId → VaultKey} {s : System} (hs : Surviving first s)
    (hq : Quiescent s) {d p : DeviceId} (hc : s.Connected d p) :
    (s.devices d).epoch = (s.devices p).epoch ∧ first d = first p := by
  induction hc with
  | refl => exact ⟨rfl, rfl⟩
  | tail _ hlast ih =>
    have hle := quiescent_level hs hq hlast.1
    have hge := quiescent_level hs hq hlast.2
    exact ⟨by omega, ih.2.trans (hs.same_first _ _ hlast.1)⟩

/-- In every run whose stops are allowed a device without a key can get one, and at rest connected
devices hold one key and have recorded its epoch. -/
theorem a_told_rotation_survives_every_stop {s : System}
    (h : FaultyRun (fun s a => Newer s a ∧ Told s a) s) : Survives s := by
  obtain ⟨first, hs⟩ := faulty_run_surviving h
  refine ⟨fun d hnone => keyless_obtains hs hnone, ?_⟩
  intro t hadopts hq d p hc
  have ht := adopts_surviving hs hadopts
  obtain ⟨hepoch, hfirst⟩ := quiescent_same ht hq hc
  obtain ⟨k, hk, hrot⟩ := quiescent_whole ht hq d
  obtain ⟨k', hk', hrot'⟩ := quiescent_whole ht hq p
  have hsame : k = k' := same_epoch_same_key ht hfirst hk hk' (by omega)
  subst hsame
  exact ⟨k, hk, hk', hrot.symm, hrot'.symm⟩

/-! ## Two small runs -/

theorem mesh_shared {ids : List DeviceId} : SharedStart (mesh ids) where
  start := mesh_start ids
  mutual_rows := by
    intro d p hlist
    rw [mesh_lists] at hlist ⊢
    obtain ⟨hd, hp, hne⟩ := hlist
    exact ⟨⟨hp, hd, Ne.symm hne⟩, Ne.symm hne⟩
  has_key := fun d => ⟨⟨0, 0⟩, rfl⟩
  same_key := fun _ _ _ => rfl

/-- A laptop and a tablet; the laptop stops inside its rotation, without a key. -/
def tornLaptop : System :=
  (mesh [laptop, tablet]).faulty_step (.push_halts laptop 5 7 (.torn .deleted))

/-- The tablet hands it one. -/
theorem the_torn_laptop_gets_a_key :
    ∃ t, tornLaptop.Adopts t ∧ (t.devices laptop).vault ≠ none := by
  have hrun : FaultyRun (fun s a => Newer s a ∧ Told s a) tornLaptop := by
    refine .step _ _ (.start _ mesh_shared) ⟨⟨?_, ?_⟩, ?_⟩
    · decide
    · simp [mesh]
    · simp [Told, mesh, laptop, tablet]
  exact (a_told_rotation_survives_every_stop hrun).1 laptop rfl

/-- A laptop, a tablet and a phone in a row. -/
def row_of_three : System :=
  { devices := fun d =>
      { vault := some ⟨0, 0⟩, epoch := 0,
        peers :=
          if d = tablet then [row_of laptop, row_of phone]
          else if d = laptop ∨ d = phone then [row_of tablet] else [] },
    net := { slots := fun _ => none, log := [] }, accepts := [], mints := [] }

theorem row_of_three_lists {d p : DeviceId} :
    row_of_three.Lists d p ↔
      (d = tablet ∧ (p = laptop ∨ p = phone)) ∨ ((d = laptop ∨ d = phone) ∧ p = tablet) := by
  unfold System.Lists row_of_three
  by_cases ht : d = tablet
  · subst ht
    simp [row_of, laptop, phone, tablet, eq_comm]
  · by_cases hend : d = laptop ∨ d = phone
    · simp [ht, hend, row_of, eq_comm]
    · simp [ht, hend]

theorem row_of_three_shared : SharedStart row_of_three where
  start :=
    { rows := by
        intro d row hrow
        unfold row_of_three at hrow
        dsimp only at hrow
        split_ifs at hrow
        · rcases List.mem_pair.mp hrow with rfl | rfl
          · rfl
          · rfl
        · rw [List.mem_singleton.mp hrow]
          rfl
        · cases hrow
      vault := by
        intro d k hk
        cases hk
        rfl
      epoch := fun _ => rfl
      slots := fun _ => rfl
      log := rfl
      accepts := rfl
      mints := rfl }
  mutual_rows := by
    intro d p hlist
    rw [row_of_three_lists] at hlist ⊢
    rcases hlist with ⟨rfl, rfl | rfl⟩ | ⟨rfl | rfl, rfl⟩
    · decide
    · decide
    · decide
    · decide
  has_key := fun d => ⟨⟨0, 0⟩, rfl⟩
  same_key := fun _ _ _ => rfl

/-- The laptop rotates; the tablet takes the key over and stops before its first push. -/
def silentTablet : System :=
  (row_of_three.faulty_step (.push_rotation laptop 5 7)).faulty_step
    (.adopt_halts tablet ⟨tablet, laptop⟩ (.told 0))

theorem silentTablet_slots : silentTablet.net.slots =
    Function.update (fun _ => none) ⟨tablet, laptop⟩ (some (handed laptop tablet 5 ⟨5, 7⟩)) := by
  rfl

/-- The offer to the tablet is the only object, and its epoch is the tablet's own. -/
theorem silentTablet_turn (d : DeviceId) (key : RotKey) :
    adopt_one d (silentTablet.devices d).peers ⟨silentTablet.devices d, silentTablet.net, 0⟩ key =
      ⟨silentTablet.devices d, silentTablet.net, 0⟩ := by
  unfold adopt_one
  by_cases hkey : key = ⟨tablet, laptop⟩
  · subst hkey
    by_cases hd : tablet = d
    · subst hd
      rfl
    · rw [if_pos hd]
  · split
    · rfl
    · simp [silentTablet_slots, Function.update_of_ne hkey]

theorem silentTablet_quiescent : Quiescent silentTablet := by
  intro d listing _
  have hpass : ∀ listing : List RotKey,
      listing.foldl (adopt_one d (silentTablet.devices d).peers)
        ⟨silentTablet.devices d, silentTablet.net, 0⟩ =
          ⟨silentTablet.devices d, silentTablet.net, 0⟩ := by
    intro listing
    induction listing with
    | nil => rfl
    | cons key listing ih => rw [List.foldl_cons, silentTablet_turn, ih]
  simp only [System.step, adopt_rotations, hpass]
  simp [System.set]

/-- The phone is never told, and keeps the old key. -/
theorem the_phone_keeps_the_old_key : ¬ ∀ s, FaultyRun Newer s → Survives s := by
  intro h
  have hrun : FaultyRun Newer silentTablet := by
    refine .step _ _ (.step _ _ (.start _ row_of_three_shared) ⟨?_, ?_⟩) trivial
    · decide
    · simp [row_of_three]
  have hpaired : silentTablet.Paired tablet phone :=
    ⟨⟨row_of phone, by decide, rfl⟩, ⟨row_of tablet, by decide, rfl⟩⟩
  obtain ⟨k, hk, hk', _⟩ := (h _ hrun).2 silentTablet .refl silentTablet_quiescent tablet phone
    (.single hpaired)
  have htablet : (silentTablet.devices tablet).vault = some ⟨5, 7⟩ := by decide
  have hphone : (silentTablet.devices phone).vault = some ⟨0, 0⟩ := by decide
  rw [htablet] at hk
  rw [hphone] at hk'
  cases hk
  cases hk'

end pai_sync
