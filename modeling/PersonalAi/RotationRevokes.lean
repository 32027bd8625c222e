-- The law of revocation: a rotation that follows the removal of a peer keeps the
-- new key from that peer exactly when no device that the key reaches still lists
-- the removed one.
import PersonalAi.RotationRuns

open pai_core sealing

namespace pai_sync

/-! ## Reading and reaching -/

/-- The device can open the object, and it carries the vault key. -/
def CanRead (x : DeviceId) (vault : VaultKey) (o : RotObject) : Prop :=
  ∃ wrap aad m, o.ciphertext = .box wrap aad m ∧ (⟨x⟩ : AgreeKey) ∈ wrap ∧ m.vault = vault

/-- A run of adopting passes, on any devices and with any listings. -/
def System.adopt_all (s : System) (passes : List (DeviceId × List RotKey)) : System :=
  passes.foldl (fun s pass => s.step (.adopt_rotations pass.1 pass.2)) s

/-- The device takes a key of this epoch over from the other one: they list each
other, and its stored epoch is older. -/
def System.Takes (s : System) (epoch : Nat) (d p : DeviceId) : Prop :=
  s.Paired d p ∧ (s.devices p).epoch < epoch

/-- A key of this epoch that `a` broadcasts gets to `d`. -/
def System.Reaches (s : System) (epoch : Nat) (a d : DeviceId) : Prop :=
  Relation.ReflTransGen (s.Takes epoch) a d

/-- The key that a rotation mints. -/
def minted_key (now_ms random : Nat) : VaultKey := { rotation := max now_ms 1, random := random }

/-- After `a` removed `x` and rotated, no pass of any device ever puts the new
key where `x` can read it. -/
def Revoked (s : System) (a x : DeviceId) (now_ms random : Nat) : Prop :=
  ∀ passes, ∀ o ∈ (((s.remove_peer a x).step
    (.push_rotation a now_ms random)).adopt_all passes).net.log,
      ¬ CanRead x (minted_key now_ms random) o

theorem canRead_handed {x d p : DeviceId} {epoch : Nat} {vault k : VaultKey} :
    CanRead x k (handed d p epoch vault) ↔ (x = d ∨ x = p) ∧ vault = k := by
  constructor
  · rintro ⟨wrap, aad, m, hbox, hmem, hk⟩
    simp only [handed, rotation_object, seal_with, Blob.box.injEq] at hbox
    obtain ⟨rfl, rfl, rfl⟩ := hbox
    refine ⟨?_, hk⟩
    rcases Sym2.mem_iff.mp hmem with h | h
    · exact Or.inl (congrArg AgreeKey.owner h)
    · exact Or.inr (congrArg AgreeKey.owner h)
  · rintro ⟨hx, rfl⟩
    refine ⟨_, _, _, rfl, ?_, rfl⟩
    rcases hx with rfl | rfl
    · exact Sym2.mem_mk_left _ _
    · exact Sym2.mem_mk_right _ _

/-! ## The key stays where it reaches -/

/-- What holds while the key of `a` spreads: the tables stay, epochs grow, and
only devices that the key reaches hand it on, to devices they list. -/
structure Spread (s : System) (a : DeviceId) (vault : VaultKey) (t : System) : Prop where
  honest : Honest t
  peers : ∀ d, (t.devices d).peers = (s.devices d).peers
  epochs : ∀ d, d ≠ a → (s.devices d).epoch ≤ (t.devices d).epoch
  slots : ∀ p d epoch, t.net.slots ⟨p, d⟩ = some (handed d p epoch vault) →
    s.Reaches vault.rotation a d ∧ s.Lists d p
  log : ∀ o ∈ t.net.log, ∀ d p epoch, o = handed d p epoch vault →
    s.Reaches vault.rotation a d ∧ s.Lists d p

theorem Spread.lists {s t : System} {a : DeviceId} {vault : VaultKey} (h : Spread s a vault t)
    (d p : DeviceId) : t.Lists d p ↔ s.Lists d p := by
  unfold System.Lists
  rw [h.peers]

theorem handed_eq {d d' p p' : DeviceId} {e e' : Nat} {k k' : VaultKey}
    (h : handed d p e k = handed d' p' e' k') : d = d' ∧ p = p' ∧ e = e' ∧ k = k' := by
  have hkey : (handed d p e k).key = (handed d' p' e' k').key := by rw [h]
  simp only [handed_key, RotKey.mk.injEq] at hkey
  obtain ⟨rfl, rfl⟩ := hkey
  exact ⟨rfl, rfl, handed_inj h⟩

/-- An adoption keeps to the devices that the key reaches, if the adopting
device is one when it adopts that key. -/
theorem spread_install {s t : System} {a me : DeviceId} {vault k : VaultKey} {epoch : Nat}
    (h : Spread s a vault t) (hrot : k.rotation = epoch) (hmint : ∃ m, (m, k) ∈ t.mints)
    (hepoch : me ≠ a → (t.devices me).epoch ≤ epoch)
    (hreach : k = vault → s.Reaches vault.rotation a me) :
    Spread s a vault (t.install me epoch k) where
  honest := honest_install h.honest hrot hmint
  peers := by
    intro d
    rw [install_peers]
    exact h.peers d
  epochs := by
    intro d hd
    by_cases hme : d = me
    · subst hme
      rw [install_device_self]
      exact le_trans (h.epochs d hd) (hepoch hd)
    · rw [install_device_other t hme]
      exact h.epochs d hd
  slots := by
    classical
    intro p d e hslot
    rw [install_slots (h.honest.rows me)] at hslot
    split at hslot
    · rename_i hcond
      obtain ⟨rfl, hlist⟩ := hcond
      obtain ⟨_, _, _, hk⟩ := handed_eq (Option.some.inj hslot)
      exact ⟨hreach hk, (h.lists d p).mp hlist⟩
    · exact h.slots p d e hslot
  log := by
    intro o ho d p e heq
    rw [install_log] at ho
    rcases List.mem_append.mp ho with ho | ho
    · exact h.log o ho d p e heq
    · obtain ⟨row, hrow, rfl⟩ := (mem_rebroadcast (h.honest.rows me)).mp ho
      obtain ⟨rfl, rfl, _, hk⟩ := handed_eq heq
      exact ⟨hreach hk, (h.lists me _).mp ⟨row, hrow, rfl⟩⟩

theorem spread_adopt {s t : System} {a : DeviceId} {vault : VaultKey} (h : Spread s a vault t)
    (me : DeviceId) (listing : List RotKey) :
    Spread s a vault (t.step (.adopt_rotations me listing)) := by
  refine adopt_step_keeps me listing (fun u hu => ⟨hu.honest.rows me, hu.honest.slots⟩) h ?_
  intro u d epoch k hu hslot hlist hnew
  obtain ⟨hrot, hmint⟩ := hu.honest.minted me d epoch k hslot
  refine spread_install hu hrot hmint (fun _ => hnew.le) ?_
  rintro rfl
  obtain ⟨hd, hdme⟩ := hu.slots me d epoch hslot
  by_cases hme : me = a
  · rw [hme]
    exact Relation.ReflTransGen.refl
  · refine hd.tail ⟨⟨hdme, (hu.lists me d).mp hlist⟩, ?_⟩
    rw [hrot]
    exact lt_of_le_of_lt (hu.epochs me hme) hnew

theorem spread_adopt_all {s t : System} {a : DeviceId} {vault : VaultKey} (h : Spread s a vault t)
    (passes : List (DeviceId × List RotKey)) : Spread s a vault (t.adopt_all passes) := by
  induction passes generalizing t with
  | nil => exact h
  | cons pass passes ih => exact ih (spread_adopt h pass.1 pass.2)

/-- A state that a fresh key has not entered, with the key's mint recorded. -/
theorem spread_start {s : System} (hs : Honest s) (a : DeviceId) {vault : VaultKey}
    (hfresh : ∀ m ∈ s.mints, m.2 ≠ vault) :
    Spread s a vault { s with mints := (a, vault) :: s.mints } where
  honest := honest_more_mints hs _ (fun m hm => by simp [hm])
  peers := fun _ => rfl
  epochs := fun _ _ => le_refl _
  slots := by
    intro p d epoch hslot
    obtain ⟨_, m, hm⟩ := hs.minted p d epoch vault hslot
    exact absurd rfl (hfresh _ hm)
  log := by
    intro o ho d p epoch heq
    obtain ⟨_, _, _, k, heq', m, hm⟩ := hs.logged o ho
    obtain ⟨_, _, _, rfl⟩ := handed_eq (heq.symm.trans heq')
    exact absurd rfl (hfresh _ hm)

theorem spread_push {s : System} (hs : Honest s) (a : DeviceId) (now_ms random : Nat)
    (hfresh : ∀ m ∈ s.mints, m.2 ≠ minted_key now_ms random) :
    Spread s a (minted_key now_ms random) (s.step (.push_rotation a now_ms random)) := by
  have hstart := spread_start hs a hfresh
  rw [push_rotation_step]
  exact spread_install hstart rfl ⟨a, by simp [minted_key]⟩ (fun hne => absurd rfl hne)
    (fun _ => Relation.ReflTransGen.refl)

/-! ## The key gets everywhere it reaches -/

/-- The device has handed the key to every device it lists. -/
def HasHanded (s t : System) (vault : VaultKey) (d : DeviceId) : Prop :=
  ∀ p, s.Lists d p → t.net.slots ⟨p, d⟩ = some (handed d p vault.rotation vault) ∧
    handed d p vault.rotation vault ∈ t.net.log

/-- Every device has handed the key on or has not moved since `s`. -/
def Wave (s t : System) (vault : VaultKey) : Prop :=
  ∀ d, HasHanded s t vault d ∨ (t.devices d).epoch = (s.devices d).epoch

theorem install_hands {s t : System} {a me : DeviceId} {vault : VaultKey}
    (h : Spread s a vault t) : HasHanded s (t.install me vault.rotation vault) vault me := by
  classical
  intro p hp
  have hlist := (h.lists me p).mpr hp
  refine ⟨by rw [install_slots (h.honest.rows me), if_pos ⟨rfl, hlist⟩], ?_⟩
  rw [install_log]
  obtain ⟨row, hrow, rfl⟩ := hlist
  exact List.mem_append_right _ ((mem_rebroadcast (h.honest.rows me)).mpr ⟨row, hrow, rfl⟩)

/-- What other devices have handed on stays when one more device takes over. -/
theorem install_keeps_handed {s t : System} {a me d : DeviceId} {vault k : VaultKey} {epoch : Nat}
    (h : Spread s a vault t) (hd : d ≠ me) (hhand : HasHanded s t vault d) :
    HasHanded s (t.install me epoch k) vault d := by
  classical
  intro p hp
  obtain ⟨hslot, hlog⟩ := hhand p hp
  refine ⟨?_, ?_⟩
  · rw [install_slots (h.honest.rows me), if_neg (fun hc => hd hc.1)]
    exact hslot
  · rw [install_log]
    exact List.mem_append_left _ hlog

theorem adopt_all_append (s : System) (xs ys : List (DeviceId × List RotKey)) :
    s.adopt_all (xs ++ ys) = (s.adopt_all xs).adopt_all ys := by
  simp [System.adopt_all]

/-- For every device that the key reaches, some run of passes makes it hand the
key to all its peers. -/
theorem reached_hands {s t : System} {a d : DeviceId} {vault : VaultKey}
    (hspread : Spread s a vault t) (hwave : Wave s t vault) (ha : HasHanded s t vault a)
    (hd : s.Reaches vault.rotation a d) :
    ∃ passes, Wave s (t.adopt_all passes) vault ∧ HasHanded s (t.adopt_all passes) vault d := by
  induction hd with
  | refl => exact ⟨[], hwave, ha⟩
  | @tail d p _ htakes ih =>
    obtain ⟨passes, hwave', hd⟩ := ih
    have hsp := spread_adopt_all hspread passes
    rcases hwave' p with hp | hp
    · exact ⟨passes, hwave', hp⟩
    · obtain ⟨⟨hdp, hpd⟩, hold⟩ := htakes
      refine ⟨passes ++ [(p, [⟨p, d⟩])], ?_⟩
      have hstep : (t.adopt_all passes).step (.adopt_rotations p [⟨p, d⟩]) =
          (t.adopt_all passes).install p vault.rotation vault :=
        adopt_single (hsp.honest.rows p) (hd p hdp).1 ((hsp.lists p d).mpr hpd)
          (by rw [hp]; exact hold)
      have hlast : (t.adopt_all passes).adopt_all [(p, [⟨p, d⟩])] =
          (t.adopt_all passes).install p vault.rotation vault := hstep
      rw [adopt_all_append, hlast]
      refine ⟨?_, install_hands hsp⟩
      intro q
      by_cases hq : q = p
      · subst hq
        exact Or.inl (install_hands hsp)
      · rcases hwave' q with hhand | hsame
        · exact Or.inl (install_keeps_handed hsp hq hhand)
        · right
          rw [install_device_other _ hq]
          exact hsame

theorem wave_push {s : System} (hs : Honest s) (a : DeviceId) (now_ms random : Nat)
    (hfresh : ∀ m ∈ s.mints, m.2 ≠ minted_key now_ms random) :
    let t := s.step (.push_rotation a now_ms random)
    Wave s t (minted_key now_ms random) ∧ HasHanded s t (minted_key now_ms random) a := by
  have hstart := spread_start hs a hfresh
  have hhands : HasHanded s (s.step (.push_rotation a now_ms random))
      (minted_key now_ms random) a := by
    rw [push_rotation_step]
    exact install_hands hstart
  refine ⟨?_, hhands⟩
  intro d
  by_cases hd : d = a
  · subst hd
    exact Or.inl hhands
  · right
    rw [push_rotation_step]
    exact congrArg DeviceState.epoch (install_device_other s hd _ _)

/-! ## Revocation -/

/-- In every state of every run: the rotation of `a` keeps the new key from the
removed device exactly when no device that the key reaches lists it. The adopters
hand the key to their own peers, not to those of `a`. -/
theorem a_rotation_revokes_when_no_device_it_reaches_lists_the_removed {s : System}
    (hs : Reachable s) {a x : DeviceId} (hx : x ≠ a) (now_ms random : Nat)
    (hfresh : ∀ m ∈ s.mints, m.2 ≠ minted_key now_ms random) :
    Revoked s a x now_ms random ↔
      ∀ d, (s.remove_peer a x).Reaches (max now_ms 1) a d → ¬ (s.remove_peer a x).Lists d x := by
  have hhonest : Honest (s.remove_peer a x) := honest_remove_peer (reachable_honest hs) a x
  have hspread := spread_push hhonest a now_ms random hfresh
  constructor
  · intro hrev d hreach hlist
    obtain ⟨hwave, ha⟩ := wave_push hhonest a now_ms random hfresh
    obtain ⟨passes, _, hhand⟩ := reached_hands hspread hwave ha hreach
    exact hrev passes _ (hhand x hlist).2 (canRead_handed.mpr ⟨Or.inr rfl, rfl⟩)
  · intro hno passes o ho hread
    have hsp := spread_adopt_all hspread passes
    obtain ⟨d, p, epoch, k, rfl, _⟩ := hsp.honest.logged o ho
    obtain ⟨hdp, rfl⟩ := canRead_handed.mp hread
    obtain ⟨hreach, hlist⟩ := hsp.log _ ho d p epoch rfl
    rcases hdp with rfl | rfl
    · rcases Relation.ReflTransGen.cases_tail hreach with heq | ⟨d, hd, htakes⟩
      · exact hx heq
      · exact hno d hd htakes.1.1
    · exact hno d hreach hlist

/-! ## A removal that one device alone knows of -/

/-- The tablet still lists the lost phone, so it hands it the new key. -/
theorem the_tablet_hands_the_new_key_to_the_lost_phone :
    ¬ ∀ s, Reachable s → ∀ a x, x ≠ a → ∀ now_ms random,
      (∀ m ∈ s.mints, m.2 ≠ minted_key now_ms random) → Revoked s a x now_ms random := by
  intro h
  have hstart := mesh_start [laptop, tablet, lost]
  have hfresh : ∀ m ∈ (mesh [laptop, tablet, lost]).mints, m.2 ≠ minted_key 5 7 := by
    simp [mesh]
  have hrev := h _ (.start _ hstart) laptop lost (by decide) 5 7 hfresh
  have hhonest := honest_remove_peer hstart.honest laptop lost
  obtain ⟨hwave, ha⟩ := wave_push hhonest laptop 5 7 hfresh
  have hlists : ∀ d p, d ∈ [laptop, tablet, lost] → p ∈ [laptop, tablet, lost] → p ≠ d →
      ¬ (d = laptop ∧ p = lost) → ((mesh [laptop, tablet, lost]).remove_peer laptop lost).Lists d p :=
    fun d p hd hp hne hkept => (remove_peer_lists _ _ _ _ _).mpr ⟨mesh_lists.mpr ⟨hd, hp, hne⟩, hkept⟩
  have hpaired : ((mesh [laptop, tablet, lost]).remove_peer laptop lost).Paired laptop tablet :=
    ⟨hlists _ _ (by decide) (by decide) (by decide) (by decide),
      hlists _ _ (by decide) (by decide) (by decide) (by decide)⟩
  have hreach : ((mesh [laptop, tablet, lost]).remove_peer laptop lost).Reaches
      (minted_key 5 7).rotation laptop tablet :=
    Relation.ReflTransGen.single ⟨hpaired, by decide⟩
  obtain ⟨passes, _, hhand⟩ :=
    reached_hands (spread_push hhonest laptop 5 7 hfresh) hwave ha hreach
  have hlost := hlists tablet lost (by decide) (by decide) (by decide) (by decide)
  exact hrev passes _ (hhand lost hlost).2 (canRead_handed.mpr ⟨Or.inr rfl, rfl⟩)

/-- The tablet removed the lost phone too. -/
theorem removed_everywhere_is_revoked :
    Revoked ((mesh [laptop, tablet, lost]).remove_peer tablet lost) laptop lost 5 7 := by
  refine (a_rotation_revokes_when_no_device_it_reaches_lists_the_removed
    (.remove_peer _ tablet lost (.start _ (mesh_start _))) (by decide) 5 7
    (by simp [mesh, System.remove_peer])).mpr ?_
  intro d _ hlist
  rw [remove_peer_lists, remove_peer_lists, mesh_lists] at hlist
  obtain ⟨⟨⟨hd, _, hne⟩, htablet⟩, hlaptop⟩ := hlist
  simp only [List.mem_cons, List.not_mem_nil, or_false] at hd
  rcases hd with rfl | rfl | rfl
  · exact hlaptop ⟨rfl, rfl⟩
  · exact htablet ⟨rfl, rfl⟩
  · exact hne rfl

end pai_sync
