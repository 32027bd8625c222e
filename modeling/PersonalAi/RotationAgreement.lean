-- The laws of agreement: when pairing never brings a key that the stored epoch
-- does not know, and every rotation mints a newer epoch, no device goes back to
-- an older key, and devices that list each other end with the newest one.
import PersonalAi.RotationRuns

open pai_core sealing

namespace pai_sync

/-! ## Careful runs -/

/-- What `d` holds is not newer than what `p` holds, or it waits for `p` on the
transport. -/
def System.Delivered (s : System) (d p : DeviceId) : Prop :=
  (s.devices d).epoch ≤ (s.devices p).epoch ∨
    ∃ vault, (s.devices d).vault = some vault ∧
      s.net.slots ⟨p, d⟩ = some (handed d p (s.devices d).epoch vault)

/-- The step mints no epoch that a rotation minted before. -/
def FreshEpoch (s : System) : Step → Prop
  | .push_rotation _ now_ms _ => ∀ m ∈ s.mints, m.2.rotation ≠ max now_ms 1
  | _ => True

/-- When two devices come to list each other, neither waits for a rotation of the
other that is not under way. A device without a vault key gets one of the epoch
that it has stored. A rotation mints a newer epoch than the stored one. -/
def Careful (s : System) : Step → Prop
  | .accept_offer acceptor offerer _ =>
    s.Lists offerer acceptor → s.Delivered acceptor offerer ∧ s.Delivered offerer acceptor
  | .complete_pairing device accept =>
    (s.Lists accept.device_id device →
      s.Delivered device accept.device_id ∧ s.Delivered accept.device_id device) ∧
    ((s.devices device).vault = none →
      ∀ vault, accept.handed_key device = some vault →
        vault.rotation = (s.devices device).epoch)
  | .push_rotation device now_ms _ => (s.devices device).epoch < max now_ms 1
  | .adopt_rotations _ _ => True

/-- The states of the runs from any peer graph whose steps are all allowed. -/
inductive RunWith (allowed : System → Step → Prop) : System → Prop
  | start (s : System) (h : Start s) : RunWith allowed s
  | step (s : System) (a : Step) (h : RunWith allowed s) (ha : allowed s a) :
      RunWith allowed (s.step a)

/-- Devices that a chain of devices links, each listing the next and listed by
it. -/
def System.Connected (s : System) : DeviceId → DeviceId → Prop := Relation.ReflTransGen s.Paired

/-- No vault key gives way to one of an older rotation. -/
def NoOlder (s t : System) : Prop :=
  ∀ d k k', (s.devices d).vault = some k → (t.devices d).vault = some k' → k.rotation ≤ k'.rotation

/-- The transport lists each of its objects once. -/
def Network.Listing (net : Network) (listing : List RotKey) : Prop :=
  listing.Nodup ∧ ∀ key, key ∈ listing ↔ net.slots key ≠ none

/-- No adopting pass of any device changes anything. -/
def Quiescent (s : System) : Prop :=
  ∀ d listing, s.net.Listing listing → s.step (.adopt_rotations d listing) = s

/-- The key of the greatest epoch that a device connected to `d` has minted. -/
def Greatest (s : System) (d : DeviceId) (vault : VaultKey) : Prop :=
  (∃ m, (m, vault) ∈ s.mints ∧ s.Connected d m) ∧
    ∀ m k, (m, k) ∈ s.mints → s.Connected d m → k.rotation ≤ vault.rotation

/-- All devices connected to a minter hold the key of the greatest epoch. -/
def Agreed (s : System) : Prop :=
  ∀ d vault, Greatest s d vault → ∀ p, s.Connected d p → (s.devices p).vault = some vault

/-! ## The invariant -/

/-- The stored epoch is that of the key in use; every key in use or under way was
minted by a connected device; and between devices that list each other no newer
rotation is lost. -/
structure InStep (s : System) : Prop where
  honest : Honest s
  epoch_of_key : ∀ d k, (s.devices d).vault = some k → k.rotation = (s.devices d).epoch
  epoch_of_none : ∀ d, (s.devices d).vault = none → (s.devices d).epoch = 0
  slots : ∀ p d epoch vault, s.net.slots ⟨p, d⟩ = some (handed d p epoch vault) →
    s.Lists d p ∧ ∃ m, (m, vault) ∈ s.mints ∧ s.Connected m d
  held : ∀ d k, (s.devices d).vault = some k → 0 < k.rotation →
    ∃ m, (m, k) ∈ s.mints ∧ s.Connected m d
  minted : ∀ m k, (m, k) ∈ s.mints → 0 < k.rotation ∧ k.rotation ≤ (s.devices m).epoch
  distinct : ∀ x ∈ s.mints, ∀ y ∈ s.mints, x.2.rotation = y.2.rotation → x = y
  delivered : ∀ d p, s.Paired d p → s.Delivered d p

theorem paired_symm {s : System} {d p : DeviceId} (h : s.Paired d p) : s.Paired p d := ⟨h.2, h.1⟩

theorem connected_symm {s : System} {d p : DeviceId} (h : s.Connected d p) :
    s.Connected p d := by
  induction h with
  | refl => exact Relation.ReflTransGen.refl
  | tail _ hlast ih => exact Relation.ReflTransGen.head (paired_symm hlast) ih

theorem connected_mono {s t : System} (h : ∀ d p, s.Lists d p → t.Lists d p) {d p : DeviceId}
    (hc : s.Connected d p) : t.Connected d p := by
  induction hc with
  | refl => exact Relation.ReflTransGen.refl
  | tail _ hlast ih => exact ih.tail ⟨h _ _ hlast.1, h _ _ hlast.2⟩

theorem Start.inStep {s : System} (h : Start s) : InStep s where
  honest := h.honest
  epoch_of_key := by
    intro d k hk
    rw [h.vault d k hk, h.epoch]
  epoch_of_none := fun d _ => h.epoch d
  slots := by
    intro p d epoch vault hslot
    rw [h.slots] at hslot
    cases hslot
  held := by
    intro d k hk hpos
    rw [h.vault d k hk] at hpos
    omega
  minted := by simp [h.mints]
  distinct := by simp [h.mints]
  delivered := by
    intro d p _
    left
    rw [h.epoch, h.epoch]

/-! ## Adopting and minting -/

/-- Where the key of an installation comes from: a connected device minted it, or
the device mints it now. -/
def Sourced (s : System) (me : DeviceId) (vault : VaultKey) (mints : List (DeviceId × VaultKey)) :
    Prop :=
  (mints = s.mints ∧ ∃ m, (m, vault) ∈ s.mints ∧ s.Connected m me) ∨
    (mints = (me, vault) :: s.mints ∧ ∀ m ∈ s.mints, m.2.rotation ≠ vault.rotation)

theorem Sourced.mem {s : System} {me : DeviceId} {vault : VaultKey}
    {mints : List (DeviceId × VaultKey)} (h : Sourced s me vault mints) :
    (∃ m, (m, vault) ∈ mints ∧ s.Connected m me) ∧ (∀ m ∈ s.mints, m ∈ mints) ∧
      ∀ m ∈ mints, m ∈ s.mints ∨ m = (me, vault) := by
  rcases h with ⟨rfl, m, hm, hc⟩ | ⟨rfl, _⟩
  · exact ⟨⟨m, hm, hc⟩, fun _ h => h, fun _ h => Or.inl h⟩
  · refine ⟨⟨me, by simp, Relation.ReflTransGen.refl⟩, fun _ h => by simp [h], ?_⟩
    intro m hm
    rcases List.mem_cons.mp hm with rfl | hm
    · exact Or.inr rfl
    · exact Or.inl hm

/-- A device that takes a newer key into use and tells its peers keeps the
invariant. -/
theorem inStep_install {s : System} (h : InStep s) {me : DeviceId} {vault : VaultKey}
    (hnew : (s.devices me).epoch < vault.rotation) {mints : List (DeviceId × VaultKey)}
    (hsource : Sourced s me vault mints) :
    InStep { s.install me vault.rotation vault with mints := mints } := by
  classical
  obtain ⟨hmem, hsub, hcases⟩ := hsource.mem
  have hlists : ∀ d p, s.Lists d p →
      System.Lists { s.install me vault.rotation vault with mints := mints } d p :=
    fun d p hl => (install_lists s me vault.rotation vault d p).mpr hl
  have hconn : ∀ d p, s.Connected d p →
      System.Connected { s.install me vault.rotation vault with mints := mints } d p :=
    fun d p hc => connected_mono hlists hc
  have hself := install_device_self s me vault.rotation vault
  have hother : ∀ d, d ≠ me → (s.install me vault.rotation vault).devices d = s.devices d :=
    fun d hd => install_device_other s hd _ _
  have hslots := fun p d => install_slots (h.honest.rows me) vault.rotation vault p d
  refine
    { honest := ?_, epoch_of_key := ?_, epoch_of_none := ?_, slots := ?_, held := ?_, minted := ?_,
      distinct := ?_, delivered := ?_ }
  · obtain ⟨m, hm, _⟩ := hmem
    exact honest_install (honest_more_mints h.honest mints hsub) rfl ⟨m, hm⟩
  · intro d k hk
    dsimp only at hk ⊢
    by_cases hd : d = me
    · subst hd
      rw [hself] at hk ⊢
      cases hk
      rfl
    · rw [hother d hd] at hk ⊢
      exact h.epoch_of_key d k hk
  · intro d hk
    dsimp only at hk ⊢
    by_cases hd : d = me
    · subst hd
      rw [hself] at hk
      cases hk
    · rw [hother d hd] at hk ⊢
      exact h.epoch_of_none d hk
  · intro p d epoch k hslot
    dsimp only at hslot
    rw [hslots] at hslot
    split at hslot
    · rename_i hcond
      obtain ⟨rfl, hl⟩ := hcond
      obtain ⟨_, rfl⟩ := handed_inj (Option.some.inj hslot)
      obtain ⟨m, hm, hc⟩ := hmem
      exact ⟨hlists _ _ hl, m, hm, hconn _ _ hc⟩
    · obtain ⟨hl, m, hm, hc⟩ := h.slots p d epoch k hslot
      exact ⟨hlists _ _ hl, m, hsub _ hm, hconn _ _ hc⟩
  · intro d k hk hpos
    dsimp only at hk
    by_cases hd : d = me
    · subst hd
      rw [hself] at hk
      cases hk
      obtain ⟨m, hm, hc⟩ := hmem
      exact ⟨m, hm, hconn _ _ hc⟩
    · rw [hother d hd] at hk
      obtain ⟨m, hm, hc⟩ := h.held d k hk hpos
      exact ⟨m, hsub _ hm, hconn _ _ hc⟩
  · intro m k hm
    dsimp only
    have hstep : (s.devices m).epoch ≤ ((s.install me vault.rotation vault).devices m).epoch := by
      by_cases hd : m = me
      · subst hd
        rw [hself]
        exact hnew.le
      · rw [hother m hd]
    rcases hcases _ hm with hold | heq
    · obtain ⟨hpos, hle⟩ := h.minted m k hold
      exact ⟨hpos, hle.trans hstep⟩
    · obtain ⟨rfl, rfl⟩ := Prod.mk.inj heq
      rw [hself]
      exact ⟨by omega, le_refl _⟩
  · intro x hx y hy hxy
    rcases hsource with ⟨rfl, _⟩ | ⟨rfl, hfresh⟩
    · exact h.distinct x hx y hy hxy
    · rcases List.mem_cons.mp hx with rfl | hx <;> rcases List.mem_cons.mp hy with rfl | hy
      · rfl
      · exact absurd hxy.symm (hfresh y hy)
      · exact absurd hxy (hfresh x hx)
      · exact h.distinct x hx y hy hxy
  · intro d p hpaired
    have hdp : s.Lists d p := (install_lists s me vault.rotation vault d p).mp hpaired.1
    have hpd : s.Lists p d := (install_lists s me vault.rotation vault p d).mp hpaired.2
    unfold System.Delivered
    dsimp only
    by_cases hd : d = me
    · subst hd
      right
      refine ⟨vault, by rw [hself]; rfl, ?_⟩
      rw [hslots, if_pos ⟨rfl, hdp⟩, hself]
      rfl
    · rw [hslots, if_neg (fun hc => hd hc.1), hother d hd]
      rcases h.delivered d p ⟨hdp, hpd⟩ with hle | hslot
      · left
        by_cases hp : p = me
        · subst hp
          rw [hself]
          exact hle.trans hnew.le
        · rw [hother p hp]
          exact hle
      · exact Or.inr hslot

/-! ## Pairing -/

/-- The state of a device after a pairing step: one more peer, and a vault key of
the stored epoch where there was none. -/
structure PairedWith (d d' : DeviceState) (p : DeviceId) : Prop where
  peers : d'.peers = add_peer d.peers (row_of p)
  epoch : d'.epoch = d.epoch
  vault : d'.vault = d.vault ∨
    (d.vault = none ∧ ∃ k, d'.vault = some k ∧ k.rotation = d.epoch)

/-- A pairing step keeps the invariant, if nothing is lost between the two
devices when they come to list each other. -/
theorem inStep_pair {s : System} (h : InStep s) {me p : DeviceId} {d' : DeviceState}
    (hd' : PairedWith (s.devices me) d' p) {accepts : List PairingMessage}
    (haccepts : ∀ m ∈ accepts, m.peer = row_of m.device_id)
    (hdelivered : s.Lists p me → s.Delivered me p ∧ s.Delivered p me) :
    InStep { s with devices := Function.update s.devices me d', accepts := accepts } := by
  have hlists : ∀ a b, System.Lists
      { s with devices := Function.update s.devices me d', accepts := accepts } a b ↔
        s.Lists a b ∨ (a = me ∧ b = p) := by
    intro a b
    unfold System.Lists
    by_cases ha : a = me
    · subst ha
      simp only [Function.update_self, hd'.peers, add_peer_listed, true_and]
      exact or_comm
    · simp [ha]
  have hup : ∀ a b, s.Lists a b → System.Lists
      { s with devices := Function.update s.devices me d', accepts := accepts } a b :=
    fun a b hl => (hlists a b).mpr (Or.inl hl)
  have hepoch : ∀ d, (Function.update s.devices me d' d).epoch = (s.devices d).epoch := by
    intro d
    by_cases hd : d = me
    · subst hd
      simpa using hd'.epoch
    · rw [Function.update_of_ne hd]
  have hvault : ∀ d, (Function.update s.devices me d' d).vault = (s.devices d).vault ∨
      ((s.devices d).vault = none ∧ ∃ k, (Function.update s.devices me d' d).vault = some k ∧
        k.rotation = (s.devices d).epoch) := by
    intro d
    by_cases hd : d = me
    · subst hd
      simpa using hd'.vault
    · left
      rw [Function.update_of_ne hd]
  have hkeep : ∀ a b, s.Delivered a b → System.Delivered
      { s with devices := Function.update s.devices me d', accepts := accepts } a b := by
    intro a b hab
    unfold System.Delivered
    dsimp only
    rw [hepoch, hepoch]
    rcases hab with hle | ⟨k, hk, hslot⟩
    · exact Or.inl hle
    · right
      refine ⟨k, ?_, hslot⟩
      rcases hvault a with hv | ⟨hnone, _⟩
      · rw [hv, hk]
      · rw [hk] at hnone
        cases hnone
  refine
    { honest := ?_, epoch_of_key := ?_, epoch_of_none := ?_, slots := ?_, held := ?_, minted := ?_,
      distinct := h.distinct, delivered := ?_ }
  · refine honest_set_device h.honest me ?_ haccepts
    rw [hd'.peers]
    exact honest_add_peer (h.honest.rows me) rfl
  · intro d k hk
    dsimp only at hk ⊢
    rw [hepoch]
    rcases hvault d with hv | ⟨_, k', hv, hrot⟩
    · exact h.epoch_of_key d k (by rw [← hv, hk])
    · rw [hv] at hk
      cases hk
      exact hrot
  · intro d hk
    dsimp only at hk ⊢
    rw [hepoch]
    rcases hvault d with hv | ⟨_, k', hv, _⟩
    · exact h.epoch_of_none d (by rw [← hv, hk])
    · rw [hv] at hk
      cases hk
  · intro q d epoch k hslot
    obtain ⟨hl, m, hm, hc⟩ := h.slots q d epoch k hslot
    exact ⟨hup _ _ hl, m, hm, connected_mono hup hc⟩
  · intro d k hk hpos
    dsimp only at hk
    rcases hvault d with hv | ⟨hnone, k', hv, hrot⟩
    · obtain ⟨m, hm, hc⟩ := h.held d k (by rw [← hv, hk]) hpos
      exact ⟨m, hm, connected_mono hup hc⟩
    · rw [hv] at hk
      cases hk
      have hzero := h.epoch_of_none d hnone
      omega
  · intro m k hm
    dsimp only
    rw [hepoch]
    exact h.minted m k hm
  · intro a b hpaired
    rcases (hlists a b).mp hpaired.1 with hab | ⟨rfl, rfl⟩
    · rcases (hlists b a).mp hpaired.2 with hba | ⟨rfl, rfl⟩
      · exact hkeep a b (h.delivered a b ⟨hab, hba⟩)
      · exact hkeep a b (hdelivered hab).2
    · rcases (hlists b a).mp hpaired.2 with hba | ⟨rfl, _⟩
      · exact hkeep a b (hdelivered hba).1
      · exact Or.inl (le_refl _)

/-! ## Every careful step -/

/-- No stored epoch goes back. -/
def EpochsGrow (s t : System) : Prop := ∀ d, (s.devices d).epoch ≤ (t.devices d).epoch

theorem inStep_accept {s : System} (h : InStep s) (acceptor offerer : DeviceId) (random : Nat)
    (hcare : Careful s (.accept_offer acceptor offerer random)) :
    InStep (s.step (.accept_offer acceptor offerer random)) ∧
      EpochsGrow s (s.step (.accept_offer acceptor offerer random)) := by
  rcases accept_step_cases s acceptor offerer random with hs | ⟨_, vault, hvault, hs⟩
  · rw [hs]
    exact ⟨h, fun _ => le_refl _⟩
  · rw [hs]
    have hpaired : PairedWith (s.devices acceptor)
        { (s.devices acceptor).with_peer (row_of offerer) with vault := some vault } offerer := by
      refine ⟨rfl, rfl, ?_⟩
      cases hv : (s.devices acceptor).vault with
      | none =>
        right
        refine ⟨rfl, vault, rfl, ?_⟩
        rw [hvault, vault_key_or_generate, hv, h.epoch_of_none acceptor hv]
        rfl
      | some k =>
        left
        rw [hvault, vault_key_or_generate, hv]
        rfl
    refine ⟨inStep_pair h hpaired ?_ hcare, ?_⟩
    · intro m hm
      rcases List.mem_cons.mp hm with rfl | hm
      · rfl
      · exact h.honest.accepts m hm
    · intro d
      by_cases hd : d = acceptor
      · subst hd
        simp [DeviceState.with_peer]
      · simp [Function.update_of_ne hd]

theorem inStep_complete {s : System} (h : InStep s) (me : DeviceId) (accept : PairingMessage)
    (hcare : Careful s (.complete_pairing me accept)) :
    InStep (s.step (.complete_pairing me accept)) ∧
      EpochsGrow s (s.step (.complete_pairing me accept)) := by
  rcases complete_step_cases s me accept with hs | ⟨hmem, d, hs, hd⟩
  · rw [hs]
    exact ⟨h, fun _ => le_refl _⟩
  · have hpeer : accept.peer = row_of accept.device_id := h.honest.accepts accept hmem
    have hpaired : PairedWith (s.devices me) d accept.device_id := by
      rcases hd with rfl | ⟨vault, hnone, hkey, rfl⟩
      · exact ⟨by rw [← hpeer]; rfl, rfl, Or.inl rfl⟩
      · exact ⟨by rw [← hpeer]; rfl, rfl, Or.inr ⟨hnone, vault, rfl, hcare.2 hnone vault hkey⟩⟩
    rw [hs]
    refine ⟨inStep_pair h hpaired h.honest.accepts hcare.1, ?_⟩
    intro q
    by_cases hq : q = me
    · subst hq
      simp [hpaired.epoch]
    · simp [Function.update_of_ne hq]

theorem install_grows {s : System} {me : DeviceId} {epoch : Nat} (vault : VaultKey)
    (h : (s.devices me).epoch < epoch) : EpochsGrow s (s.install me epoch vault) := by
  intro d
  by_cases hd : d = me
  · subst hd
    rw [install_device_self]
    exact h.le
  · rw [install_device_other s hd]

theorem inStep_adopt {s : System} (h : InStep s) (me : DeviceId) (listing : List RotKey) :
    InStep (s.step (.adopt_rotations me listing)) ∧
      EpochsGrow s (s.step (.adopt_rotations me listing)) := by
  refine adopt_step_keeps (Q := fun t => InStep t ∧ EpochsGrow s t) me listing
    (fun t ht => ⟨ht.1.honest.rows me, ht.1.honest.slots⟩) ⟨h, fun _ => le_refl _⟩ ?_
  rintro t d epoch vault ⟨ht, hgrow⟩ hslot hlist hnew
  obtain ⟨hdme, m, hm, hc⟩ := ht.slots me d epoch vault hslot
  obtain ⟨rfl, _⟩ := ht.honest.minted me d epoch vault hslot
  have hsource : Sourced t me vault t.mints := Or.inl ⟨rfl, m, hm, hc.tail ⟨hdme, hlist⟩⟩
  exact ⟨inStep_install ht hnew hsource, fun q => (hgrow q).trans (install_grows vault hnew q)⟩

theorem inStep_push {s : System} (h : InStep s) (me : DeviceId) (now_ms random : Nat)
    (hfresh : FreshEpoch s (.push_rotation me now_ms random))
    (hcare : Careful s (.push_rotation me now_ms random)) :
    InStep (s.step (.push_rotation me now_ms random)) ∧
      EpochsGrow s (s.step (.push_rotation me now_ms random)) := by
  have hsource : Sourced s me ⟨max now_ms 1, random⟩ ((me, ⟨max now_ms 1, random⟩) :: s.mints) :=
    Or.inr ⟨rfl, hfresh⟩
  have hnew : (s.devices me).epoch < (VaultKey.mk (max now_ms 1) random).rotation := hcare
  rw [push_rotation_step]
  exact ⟨inStep_install h hnew hsource, install_grows _ hnew⟩

theorem inStep_step {s : System} (h : InStep s) (a : Step) (hfresh : FreshEpoch s a)
    (hcare : Careful s a) : InStep (s.step a) ∧ EpochsGrow s (s.step a) := by
  cases a with
  | accept_offer acceptor offerer random => exact inStep_accept h acceptor offerer random hcare
  | complete_pairing me accept => exact inStep_complete h me accept hcare
  | push_rotation me now_ms random => exact inStep_push h me now_ms random hfresh hcare
  | adopt_rotations me listing => exact inStep_adopt h me listing

theorem careful_inStep {s : System}
    (h : RunWith (fun s a => FreshEpoch s a ∧ Careful s a) s) : InStep s := by
  induction h with
  | start s h => exact h.inStep
  | step s a _ ha ih => exact (inStep_step ih a ha.1 ha.2).1

/-! ## At rest -/

/-- A pass that works through a listing ends at or above every epoch that a
listed peer handed over in it. -/
theorem pass_catches_up {me d : DeviceId} {peers : List SyncPeer} {epoch : Nat} {vault : VaultKey}
    (hrows : HonestRows peers) (hd : d ≠ me) (hlist : ∃ row ∈ peers, row.device_id = d)
    (listing : List RotKey) (p : Pass) (hslots : HonestSlots p.net)
    (hslot : p.net.slots ⟨me, d⟩ = some (handed d me epoch vault)) :
    let out := listing.foldl (adopt_one me peers) p
    p.device.epoch ≤ out.device.epoch ∧ (⟨me, d⟩ ∈ listing → epoch ≤ out.device.epoch) := by
  induction listing generalizing p with
  | nil => simp
  | cons key listing ih =>
    simp only [List.foldl_cons]
    rcases adopt_one_cases hrows hslots key with hsame | ⟨d', e', k', hkey, hslot', _, hnew, hturn⟩
    · obtain ⟨hmono, hcatch⟩ := ih p hslots hslot
      rw [hsame]
      refine ⟨hmono, ?_⟩
      intro hmem
      rcases List.mem_cons.mp hmem with rfl | hmem
      · by_contra hlt
        have hnew : p.device.epoch < epoch := by omega
        have hadopt : adopt_one me peers p ⟨me, d⟩ = p.install me peers epoch vault := by
          unfold adopt_one
          rw [if_neg (by simp)]
          have hcheck : check_rotation me peers (handed d me epoch vault) =
              some (rotation_message d epoch vault) := by
            rw [check_handed hrows]
            exact if_pos hlist
          simp only [hslot, handed_tombstone, Bool.false_eq_true, if_false, hcheck]
          rw [if_neg (show ¬ (rotation_message d epoch vault).epoch ≤ p.device.epoch by
            simpa [rotation_message] using hnew)]
          rfl
        have heq : p.device.epoch = (p.install me peers epoch vault).device.epoch := by
          rw [← hadopt, hsame]
        have hinstalled : (p.install me peers epoch vault).device.epoch = epoch := rfl
        omega
      · exact hcatch hmem
    · rw [hturn]
      have hslots' : HonestSlots (p.install me peers e' k').net := by
        intro key' o ho
        have hcase := rebroadcast_slots p.net me hrows e' k' key'
        have ho' : (p.net.push_all (rebroadcast me peers e' k')).slots key' = some o := ho
        rw [hcase] at ho'
        split at ho'
        · rename_i hcond
          cases ho'
          exact ⟨e', k', by rw [hcond.1]⟩
        · exact hslots key' o ho'
      have hslot'' : (p.install me peers e' k').net.slots ⟨me, d⟩ =
          some (handed d me epoch vault) := by
        have hcase := rebroadcast_slots p.net me hrows e' k' ⟨me, d⟩
        rw [if_neg (fun hc => hd hc.1)] at hcase
        exact hcase.trans hslot
      obtain ⟨hmono, hcatch⟩ := ih _ hslots' hslot''
      have hinstalled : (p.install me peers e' k').device.epoch = e' := rfl
      refine ⟨by omega, ?_⟩
      intro hmem
      rcases List.mem_cons.mp hmem with rfl | hmem
      · obtain ⟨_, rfl⟩ := RotKey.mk.inj hkey
        obtain ⟨rfl, _⟩ := handed_inj (Option.some.inj (hslot.symm.trans hslot'))
        omega
      · exact hcatch hmem

/-- The transport can list its objects. -/
theorem listing_exists {s : System} (h : Honest s) : ∃ listing, s.net.Listing listing := by
  refine ⟨((s.net.log.map RotObject.key).dedup).filter (fun key => (s.net.slots key).isSome), ?_, ?_⟩
  · exact (List.nodup_dedup _).filter _
  · intro key
    simp only [List.mem_filter, List.mem_dedup, List.mem_map]
    constructor
    · rintro ⟨_, hsome⟩ hnone
      rw [hnone] at hsome
      cases hsome
    · intro hne
      cases hslot : s.net.slots key with
      | none => exact absurd hslot hne
      | some o =>
        obtain ⟨epoch, vault, ho⟩ := h.slots key o hslot
        refine ⟨⟨o, h.posted key o hslot, ?_⟩, rfl⟩
        rw [ho]
        rfl

/-- At rest, what a listed peer hands over is not newer than the stored epoch. -/
theorem quiescent_slot {s : System} (h : Honest s) (hq : Quiescent s) {d p : DeviceId}
    {epoch : Nat} {vault : VaultKey} (hdp : d ≠ p) (hlist : s.Lists p d)
    (hslot : s.net.slots ⟨p, d⟩ = some (handed d p epoch vault)) :
    epoch ≤ (s.devices p).epoch := by
  obtain ⟨listing, hlisting⟩ := listing_exists h
  have hsame := hq p listing hlisting
  have hmem : (⟨p, d⟩ : RotKey) ∈ listing := (hlisting.2 _).mpr (by rw [hslot]; simp)
  have hcatch := (pass_catches_up (h.rows p) hdp hlist listing ⟨s.devices p, s.net, 0⟩ h.slots
    hslot).2 hmem
  have hdev : (listing.foldl (adopt_one p (s.devices p).peers)
      ⟨s.devices p, s.net, 0⟩).device = s.devices p := by
    have := congrArg (fun t : System => t.devices p) hsame
    simpa [System.step, System.set, adopt_rotations] using this
  rw [hdev] at hcatch
  exact hcatch

/-- At rest, two devices that list each other have stored the same epoch. -/
theorem quiescent_paired {s : System} (h : InStep s) (hq : Quiescent s) {d p : DeviceId}
    (hpaired : s.Paired d p) : (s.devices d).epoch ≤ (s.devices p).epoch := by
  rcases h.delivered d p hpaired with hle | ⟨vault, _, hslot⟩
  · exact hle
  · by_cases hdp : d = p
    · rw [hdp]
    · exact quiescent_slot h.honest hq hdp hpaired.2 hslot

theorem quiescent_connected {s : System} (h : InStep s) (hq : Quiescent s) {d p : DeviceId}
    (hc : s.Connected d p) : (s.devices d).epoch = (s.devices p).epoch := by
  induction hc with
  | refl => rfl
  | tail _ hlast ih =>
    exact ih.trans (Nat.le_antisymm (quiescent_paired h hq hlast)
      (quiescent_paired h hq (paired_symm hlast)))

/-- At rest, every device connected to a minter holds the newest of their keys. -/
theorem quiescent_agreed {s : System} (h : InStep s) (hq : Quiescent s) : Agreed s := by
  rintro d vault ⟨⟨m, hm, hdm⟩, hgreatest⟩ p hdp
  obtain ⟨hpos, hle⟩ := h.minted m vault hm
  have hsame : (s.devices m).epoch = (s.devices p).epoch :=
    quiescent_connected h hq ((connected_symm hdm).trans hdp)
  cases hp : (s.devices p).vault with
  | none =>
    have := h.epoch_of_none p hp
    omega
  | some k =>
    have hk := h.epoch_of_key p k hp
    obtain ⟨m', hm', hmp⟩ := h.held p k hp (by omega)
    have hkle := hgreatest m' k hm' (hdp.trans (connected_symm hmp))
    have hrot : k.rotation = vault.rotation := by omega
    have := h.distinct _ hm' _ hm hrot
    rw [(Prod.mk.inj this).2]

theorem noOlder_of_inStep {s t : System} (hs : InStep s) (ht : InStep t) (h : EpochsGrow s t) :
    NoOlder s t := by
  intro d k k' hk hk'
  rw [hs.epoch_of_key d k hk, ht.epoch_of_key d k' hk']
  exact h d

def phone : DeviceId := ⟨"phone"⟩

/-- A laptop alone that rotates to a key of epoch 5. -/
def rotatedLaptop : System := (mesh [laptop]).step (.push_rotation laptop 5 7)

theorem rotatedLaptop_quiescent : Quiescent rotatedLaptop := by
  intro d listing hlisting
  have hnil : listing = [] := by
    refine List.eq_nil_iff_forall_not_mem.mpr ?_
    intro key hkey
    exact (hlisting.2 key).mp hkey rfl
  rw [hnil]
  simp [System.step, adopt_rotations, System.set]

/-- A phone without a vault key that lists a tablet, and a laptop that lists
nobody. -/
def newPhone : System :=
  { devices := fun d =>
      if d = phone then { vault := none, epoch := 0, peers := [row_of tablet] }
      else if d = tablet then { vault := some ⟨0, 0⟩, epoch := 0, peers := [row_of phone] }
      else { vault := some ⟨0, 0⟩, epoch := 0, peers := [] },
    net := { slots := fun _ => none, log := [] }, accepts := [], mints := [] }

theorem newPhone_start : Start newPhone where
  rows := by
    intro d row hrow
    unfold newPhone at hrow
    dsimp only at hrow
    split_ifs at hrow
    · rw [List.mem_singleton.mp hrow]
      rfl
    · rw [List.mem_singleton.mp hrow]
      rfl
    · cases hrow
  vault := by
    intro d k hk
    unfold newPhone at hk
    dsimp only at hk
    split_ifs at hk
    · cases hk
      rfl
    · cases hk
      rfl
  epoch := by
    intro d
    unfold newPhone
    dsimp only
    split_ifs <;> rfl
  slots := fun _ => rfl
  log := rfl
  accepts := rfl
  mints := rfl

/-- The tablet rotates to epoch 3 and the laptop to epoch 5; then the phone pairs
with the laptop. -/
def pairedPhone : System :=
  (((newPhone.step (.push_rotation tablet 3 1)).step (.push_rotation laptop 5 2)).step
    (.accept_offer laptop phone 0)).step
      (.complete_pairing phone (accept_message laptop phone ⟨5, 2⟩))

end pai_sync
