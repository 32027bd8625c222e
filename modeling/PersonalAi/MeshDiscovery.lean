-- Discovery on the local network (the mesh crate): signed announcements, the address that a
-- listener takes from the datagram, and the token that it sends there.
import PersonalAi.Lib.Chars
import PersonalAi.Lib.Runs
import PersonalAi.VaultRotation

open pai_core pai_sync sealing runs text

namespace pai_mesh

structure IpAddr where
  text : String
deriving DecidableEq, Repr

structure SocketAddr where
  ip : IpAddr
  port : UInt16
deriving DecidableEq

def MAX_SKEW_SECS : Int := 15 * 60

/-- "I serve a sync relay on this port." `sig` is what its hex text decodes to. -/
structure Announcement where
  v : Nat
  device_id : String
  name : String
  platform : String
  port : UInt16
  ts : String
  sig : Option (Signature EdKey String)
deriving DecidableEq

def Announcement.signing_payload (a : Announcement) : String :=
  "v" ++ toString a.v ++ "|" ++ a.device_id ++ "|" ++ a.name ++ "|" ++ a.platform ++ "|" ++
    toString a.port.toNat ++ "|" ++ a.ts

/-- The announcement that `device` signs, with the time of its clock. -/
def make_announcement (device : DeviceId) (name platform ts : String) (relay_port : UInt16) :
    Announcement :=
  let a : Announcement :=
    { v := 1, device_id := device.to_string, name, platform, port := relay_port, ts, sig := none }
  { a with sig := some ⟨⟨device⟩, a.signing_payload⟩ }

section Listener
variable (parse_from_rfc3339 : String → Option Int)

def fresh (now : Int) (ts : String) : Bool :=
  match parse_from_rfc3339 ts with
  | some t => decide ((now - t).natAbs ≤ MAX_SKEW_SECS)
  | none => false

def verify_announcement (now : Int) (a : Announcement) (ed_pubkey : EdKey) : Bool :=
  if a.v ≠ 1 then false
  else
    match a.sig with
    | none => false
    | some sig =>
      if fresh parse_from_rfc3339 now a.ts then verify_with ed_pubkey a.signing_payload sig else false

/-- What a socket receives: the announcement that its JSON reads as, if it does, and the source
address of the datagram. -/
structure Datagram where
  announcement : Option Announcement
  src : SocketAddr
deriving DecidableEq

/-- One turn of the loop: the newest datagram of a device id takes its place. -/
def see (seen : List (Announcement × SocketAddr)) (d : Datagram) : List (Announcement × SocketAddr) :=
  match d.announcement with
  | some a => (a, d.src) :: seen.filter (fun e => e.1.device_id ≠ a.device_id)
  | none => seen

/-- What is seen, in one order of the many that the map may give. -/
def discover (received : List Datagram) : List (Announcement × SocketAddr) := received.foldl see []

structure PairedPeer where
  announcement : Announcement
  relay_addr : SocketAddr
  peer : SyncPeer

/-- The paired peer behind an announcement that verifies. -/
def paired (peers : List SyncPeer) (now : Int) (a : Announcement) : Option SyncPeer :=
  (peers.find? (fun p => p.device_id.to_string = a.device_id)).filter
    (fun p => verify_announcement parse_from_rfc3339 now a p.ed_pubkey)

def paired_announcements (peers : List SyncPeer) (now : Int) (found : List (Announcement × SocketAddr)) :
    List PairedPeer :=
  found.filterMap fun e =>
    (paired parse_from_rfc3339 peers now e.1).map fun peer =>
      { announcement := e.1, relay_addr := { ip := e.2.ip, port := e.1.port }, peer }

/-- `hex(peer_key)`, of which the key counts here. -/
def token_for (secret : AgreeKey) (peer : SyncPeer) : WrapKey := peer_key secret peer.agree_pubkey

/-- A transport to a relay, with the token that it sends. -/
structure LanTransport where
  peer : SyncPeer
  addr : SocketAddr
  token : WrapKey

def lan_transport (peers : List SyncPeer) (secret : AgreeKey) (now : Int) (wanted : Option String)
    (found : List (Announcement × SocketAddr)) : Except Error LanTransport :=
  let paired := paired_announcements parse_from_rfc3339 peers now found
  let target : Option PairedPeer := match wanted with
    | some start => paired.find? (fun p => start.toList.isPrefixOf p.peer.device_id.to_string.toList)
    | none => paired.head?
  match target with
  | some p => .ok { peer := p.peer, addr := p.relay_addr, token := token_for secret p.peer }
  | none =>
    .error (.NotFound "no paired mesh peer announcing — run `pai sync serve --announce` on it")

end Listener

/-! ## The network -/

/-- An announcement that a device sent, and the address that it sent it from. -/
structure Sent where
  device : DeviceId
  ip : IpAddr
  announcement : Announcement
deriving DecidableEq

/-- The time, and all that devices have sent so far. -/
structure Network where
  now : Int
  sent : List Sent

/-- Someone captures, drops, replays and forges: what a listener receives is any list of
datagrams, from any source addresses. -/
inductive Act
  | tick (secs : Nat)
  | announce (device : DeviceId) (ip : IpAddr) (name platform : String) (clock : Int) (port : UInt16)
  | listen (received : List Datagram)

def Network.step (to_rfc3339 : Int → String) (n : Network) : Act → Network
  | .tick secs => { n with now := n.now + secs }
  | .announce device ip name platform clock port =>
    { n with
      sent := ⟨device, ip, make_announcement device name platform (to_rfc3339 clock) port⟩ :: n.sent }
  | .listen _ => n

/-! ## What a listener finds -/

theorem mem_foldl_see {received : List Datagram} {e : Announcement × SocketAddr}
    {seen : List (Announcement × SocketAddr)} (he : e ∈ received.foldl see seen) :
    e ∈ seen ∨ ⟨some e.1, e.2⟩ ∈ received := by
  induction received generalizing seen with
  | nil => exact .inl he
  | cons d received ih =>
    rcases d with ⟨_ | a, src⟩
    · exact (ih he).imp_right (List.mem_cons_of_mem _)
    · rcases ih he with hin | hin
      · rcases List.mem_cons.mp hin with rfl | hold
        · exact .inr List.mem_cons_self
        · exact .inl (List.mem_filter.mp hold).1
      · exact .inr (List.mem_cons_of_mem _ hin)

theorem mem_discover {received : List Datagram} {e : Announcement × SocketAddr}
    (he : e ∈ discover received) : ⟨some e.1, e.2⟩ ∈ received :=
  (mem_foldl_see he).resolve_left (by simp)

section Listener
variable {parse_from_rfc3339 : String → Option Int} {peers : List SyncPeer} {secret : AgreeKey}
  {now : Int}

theorem paired_eq_some {a : Announcement} {peer : SyncPeer} :
    paired parse_from_rfc3339 peers now a = some peer ↔
      peers.find? (fun p => p.device_id.to_string = a.device_id) = some peer ∧
        verify_announcement parse_from_rfc3339 now a peer.ed_pubkey = true := by
  simp [paired, Option.filter_eq_some_iff]

theorem verify_announcement_eq_true {a : Announcement} {key : EdKey} :
    verify_announcement parse_from_rfc3339 now a key = true ↔
      a.v = 1 ∧ a.sig = some ⟨key, a.signing_payload⟩ ∧
        fresh parse_from_rfc3339 now a.ts = true := by
  unfold verify_announcement
  rcases a.sig with _ | ⟨k, text⟩
  · simp
  · simp [verify_with]
    tauto

/-- A transport leads to the source address of a datagram that verifies for a paired device. -/
theorem lan_transport_ok {wanted : Option String} {found : List (Announcement × SocketAddr)}
    {t : LanTransport} (h : lan_transport parse_from_rfc3339 peers secret now wanted found = .ok t) :
    ∃ e ∈ found, paired parse_from_rfc3339 peers now e.1 = some t.peer ∧
      t.addr = ⟨e.2.ip, e.1.port⟩ ∧ t.token = peer_key secret t.peer.agree_pubkey := by
  have hmem : ∀ p ∈ paired_announcements parse_from_rfc3339 peers now found,
      ∃ e ∈ found, paired parse_from_rfc3339 peers now e.1 = some p.peer ∧
        p.relay_addr = ⟨e.2.ip, e.1.port⟩ := by
    intro p hp
    obtain ⟨e, he, hpeer⟩ := List.mem_filterMap.mp hp
    obtain ⟨peer, hpaired, rfl⟩ := Option.map_eq_some_iff.mp hpeer
    exact ⟨e, he, hpaired, rfl⟩
  simp only [lan_transport] at h
  split at h
  · rename_i p htarget
    have hp : p ∈ paired_announcements parse_from_rfc3339 peers now found := by
      split at htarget
      · exact List.mem_of_find?_eq_some htarget
      · exact List.mem_of_head? htarget
    obtain ⟨e, he, hpaired, haddr⟩ := hmem p hp
    cases h
    exact ⟨e, he, hpaired, haddr, rfl⟩
  · cases h

/-- The first that is found is taken, when no device is asked for. -/
theorem lan_transport_first {a : Announcement} {src : SocketAddr} {peer : SyncPeer}
    (rest : List (Announcement × SocketAddr))
    (hpaired : paired parse_from_rfc3339 peers now a = some peer) :
    lan_transport parse_from_rfc3339 peers secret now none ((a, src) :: rest) =
      .ok ⟨peer, ⟨src.ip, a.port⟩, token_for secret peer⟩ := by
  simp [lan_transport, paired_announcements, hpaired]

end Listener

/-! ## What a signature binds -/

theorem signing_payload_ends (a : Announcement) : ∃ start : List Char,
    a.signing_payload.toList =
      (start ++ '|' :: (toString a.port.toNat).toList) ++ '|' :: a.ts.toList := by
  have hbar : "|".toList = ['|'] := rfl
  refine ⟨("v" ++ toString a.v ++ "|" ++ a.device_id ++ "|" ++ a.name ++ "|" ++ a.platform).toList, ?_⟩
  unfold Announcement.signing_payload
  rw [String.toList_append, String.toList_append, String.toList_append, String.toList_append, hbar]
  simp only [List.append_assoc, List.cons_append, List.nil_append]

/-- The port and the time are the last two fields of what is signed, and no name before them
can shift them. -/
theorem signing_payload_binds {a b : Announcement} (ha : '|' ∉ a.ts.toList)
    (hb : '|' ∉ b.ts.toList) (h : a.signing_payload = b.signing_payload) :
    a.port = b.port ∧ a.ts = b.ts := by
  obtain ⟨start, hstart⟩ := signing_payload_ends a
  obtain ⟨start', hstart'⟩ := signing_payload_ends b
  have hlast := congrArg (rsplit_once '|') (hstart.symm.trans ((congrArg String.toList h).trans hstart'))
  rw [rsplit_once_append _ _ _ ha, rsplit_once_append _ _ _ hb] at hlast
  simp only [Option.some.injEq, Prod.mk.injEq] at hlast
  have hplain : ∀ n : Nat, '|' ∉ (toString n).toList := fun n hin =>
    absurd ((digits_of_nat n).2 _ hin) (by decide)
  have hports := congrArg (rsplit_once '|') hlast.1
  rw [rsplit_once_append _ _ _ (hplain _), rsplit_once_append _ _ _ (hplain _)] at hports
  simp only [Option.some.injEq, Prod.mk.injEq] at hports
  have hport := parse_u16_toString a.port
  rw [hports.2, parse_u16_toString] at hport
  exact ⟨(Option.some.inj hport).symm, String.toList_inj.mp hlast.2⟩

namespace Network

section
variable (parse_from_rfc3339 : String → Option Int) (peers : List SyncPeer) (secret : AgreeKey)

/-- From that address the device has announced that port, at a time that is fresh now. -/
def Announced (n : Network) (device : DeviceId) (addr : SocketAddr) : Prop :=
  ∃ r ∈ n.sent, r.device = device ∧ r.ip = addr.ip ∧ r.announcement.port = addr.port ∧
    fresh parse_from_rfc3339 n.now r.announcement.ts = true

/-- In whatever order the map gives what was seen, and whichever device is wanted, the token
for a device goes to an address that the device has announced. -/
def Safe (n : Network) : Act → Prop
  | .listen received => ∀ found wanted t, found.Perm (discover received) →
      lan_transport parse_from_rfc3339 peers secret n.now wanted found = .ok t →
      Announced parse_from_rfc3339 n t.peer.ed_pubkey.owner t.addr
  | _ => True

/-- Each datagram that is kept and verifies comes from where its device announces its port. -/
def Unmoved (n : Network) : Act → Prop
  | .listen received => ∀ e ∈ discover received, ∀ peer,
      peers.find? (fun p => p.device_id.to_string = e.1.device_id) = some peer →
      verify_announcement parse_from_rfc3339 n.now e.1 peer.ed_pubkey = true →
      Announced parse_from_rfc3339 n peer.ed_pubkey.owner ⟨e.2.ip, e.1.port⟩
  | _ => True

/-- Nobody but the device itself signs an announcement with its key. -/
def Unforged (n : Network) : Act → Prop
  | .listen received => ∀ d ∈ received, ∀ a, d.announcement = some a → ∀ peer ∈ peers,
      a.sig = some ⟨peer.ed_pubkey, a.signing_payload⟩ →
      ∃ r ∈ n.sent, r.device = peer.ed_pubkey.owner ∧
        r.announcement.signing_payload = a.signing_payload
  | _ => True

/-- An announcement that a device sent comes from an address that it sent it from. -/
def Direct (n : Network) : Act → Prop
  | .listen received => ∀ d ∈ received, ∀ a, d.announcement = some a → ∀ r ∈ n.sent,
      r.announcement.signing_payload = a.signing_payload →
      ∃ r' ∈ n.sent, r'.device = r.device ∧ r'.ip = d.src.ip ∧
        r'.announcement.signing_payload = a.signing_payload
  | _ => True

end

variable {parse_from_rfc3339 : String → Option Int} {peers : List SyncPeer} {secret : AgreeKey}

theorem safe_iff_unmoved (n : Network) (act : Act) :
    n.Safe parse_from_rfc3339 peers secret act ↔ n.Unmoved parse_from_rfc3339 peers act := by
  cases act with
  | tick => exact Iff.rfl
  | announce => exact Iff.rfl
  | listen received =>
    constructor
    · intro hsafe e he peer hfind hverify
      -- the map may well give this datagram first
      have hfirst : (e :: (discover received).erase e).Perm (discover received) :=
        (List.perm_cons_erase he).symm
      exact hsafe _ none _ hfirst
        (lan_transport_first _ (paired_eq_some.mpr ⟨hfind, hverify⟩))
    · intro hunmoved found wanted t hperm ht
      obtain ⟨e, he, hpaired, haddr, -⟩ := lan_transport_ok ht
      obtain ⟨hfind, hverify⟩ := paired_eq_some.mp hpaired
      rw [haddr]
      exact hunmoved e (hperm.mem_iff.mp he) t.peer hfind hverify

/-- The times of all announcements were written by a clock. -/
def Timed (to_rfc3339 : Int → String) (n : Network) : Prop :=
  ∀ r ∈ n.sent, ∃ clock, r.announcement.ts = to_rfc3339 clock

theorem step_timed {to_rfc3339 : Int → String} (n : Network) (act : Act)
    (h : n.Timed to_rfc3339) : (n.step to_rfc3339 act).Timed to_rfc3339 := by
  cases act with
  | tick => exact h
  | listen => exact h
  | announce device ip name platform clock port =>
    intro r hr
    rcases List.mem_cons.mp hr with rfl | hold
    · exact ⟨clock, rfl⟩
    · exact h r hold

/-- With signatures that nobody forges, a datagram that moves no announcement is unmoved. -/
theorem unmoved_of_direct {to_rfc3339 : Int → String}
    (hparsed : ∀ text t, parse_from_rfc3339 text = some t → '|' ∉ text.toList)
    (hprinted : ∀ clock, '|' ∉ (to_rfc3339 clock).toList) {n : Network} {act : Act}
    (htimed : n.Timed to_rfc3339) (hunforged : n.Unforged peers act) (hdirect : n.Direct act) :
    n.Unmoved parse_from_rfc3339 peers act := by
  cases act with
  | tick => trivial
  | announce => trivial
  | listen received =>
    intro e he peer hfind hverify
    have hreceived := mem_discover he
    obtain ⟨-, hsig, hfresh⟩ := verify_announcement_eq_true.mp hverify
    obtain ⟨r, hr, hdevice, hsigned⟩ :=
      hunforged _ hreceived e.1 rfl peer (List.mem_of_find?_eq_some hfind) hsig
    obtain ⟨r', hr', hsame, hip, hpayload⟩ := hdirect _ hreceived e.1 rfl r hr hsigned
    have hplain : '|' ∉ e.1.ts.toList := by
      unfold fresh at hfresh
      split at hfresh
      · exact hparsed _ _ ‹_›
      · cases hfresh
    obtain ⟨clock, hclock⟩ := htimed r' hr'
    obtain ⟨hport, hts⟩ := signing_payload_binds (hclock ▸ hprinted clock) hplain hpayload
    exact ⟨r', hr', hsame.trans hdevice, hip, hport, hts ▸ hfresh⟩

/-- The source address is no part of what is signed: tokens go to the devices that they are
for as long as each datagram that verifies comes from where its device announces its port.
When nobody forges, it is enough that no announcement is sent again from elsewhere. -/
theorem tokens_reach_their_devices_iff_unmoved (parse_from_rfc3339 : String → Option Int)
    (to_rfc3339 : Int → String) (peers : List SyncPeer) (secret : AgreeKey) (start : Int)
    (acts : List Act) :
    (Along (step to_rfc3339) (Safe parse_from_rfc3339 peers secret) ⟨start, []⟩ acts ↔
      Along (step to_rfc3339) (Unmoved parse_from_rfc3339 peers) ⟨start, []⟩ acts) ∧
    ((∀ text t, parse_from_rfc3339 text = some t → '|' ∉ text.toList) →
      (∀ clock, '|' ∉ (to_rfc3339 clock).toList) →
      Along (step to_rfc3339) (fun n act => n.Unforged peers act ∧ n.Direct act) ⟨start, []⟩ acts →
      Along (step to_rfc3339) (Safe parse_from_rfc3339 peers secret) ⟨start, []⟩ acts) := by
  have hiff := @along_congr _ _ (step to_rfc3339) _ _
    (@safe_iff_unmoved parse_from_rfc3339 peers secret) ⟨start, []⟩ acts
  refine ⟨hiff, fun hparsed hprinted hruns => hiff.mpr ?_⟩
  refine along_of_invariant (fun n act h _ => step_timed n act h) ?_ (by simp [Timed]) hruns
  intro n act htimed hact
  exact unmoved_of_direct hparsed hprinted htimed hact.1 hact.2

/-- At noon of the epoch: the one time that the clocks of the runs below show. -/
def noon : Int → String := fun _ => "1970-01-01T12:00:00+00:00"

def read_noon (text : String) : Option Int := if text = noon 0 then some 43200 else none

def phone : SyncPeer := ⟨⟨"phone"⟩, ⟨⟨"phone"⟩⟩, ⟨⟨"phone"⟩⟩⟩

def phone_announces : Act := .announce ⟨"phone"⟩ ⟨"10.0.0.2"⟩ "Phone" "android" 43200 47000

/-- The phone's announcement, in a datagram from that address. -/
def arrives (ip : String) : Datagram :=
  ⟨some (make_announcement ⟨"phone"⟩ "Phone" "android" (noon 43200) 47000), ⟨⟨ip⟩, 40000⟩⟩

def listens (ip : String) : List Act := [phone_announces, .tick 60, .listen [arrives ip]]

theorem listens_unforged (ip : String) :
    Along (step noon) (fun n act => n.Unforged [phone] act) ⟨43200, []⟩ (listens ip) := by
  refine ⟨trivial, trivial, ?_, trivial⟩
  intro d hd a ha peer hpeer _
  obtain rfl := List.mem_singleton.mp hd
  obtain rfl := List.mem_singleton.mp hpeer
  cases ha
  exact ⟨_, List.mem_singleton_self _, rfl, rfl⟩

/-- A laptop finds the phone by a datagram that comes from the phone. -/
theorem a_phone_is_found :
    Along (step noon) (Safe read_noon [phone] ⟨⟨"laptop"⟩⟩) ⟨43200, []⟩ (listens "10.0.0.2") ∧
      lan_transport read_noon [phone] ⟨⟨"laptop"⟩⟩ 43260 none (discover [arrives "10.0.0.2"]) =
        .ok ⟨phone, ⟨⟨"10.0.0.2"⟩, 47000⟩, token_for ⟨⟨"laptop"⟩⟩ phone⟩ := by
  refine ⟨(tokens_reach_their_devices_iff_unmoved read_noon noon [phone] ⟨⟨"laptop"⟩⟩ 43200 _).2
    ?_ (fun _ => (by decide : _ ∉ (noon 0).toList)) ?_,
    lan_transport_first [] (by decide +kernel)⟩
  · intro text t h
    simp only [read_noon, Option.ite_none_right_eq_some] at h
    rw [h.1]
    decide
  · obtain ⟨-, -, hunforged, -⟩ := listens_unforged "10.0.0.2"
    refine ⟨⟨trivial, trivial⟩, ⟨trivial, trivial⟩, ⟨hunforged, ?_⟩, trivial⟩
    intro d hd a ha r hr hpayload
    obtain rfl := List.mem_singleton.mp hd
    obtain rfl := List.mem_singleton.mp hr
    exact ⟨_, List.mem_singleton_self _, rfl, rfl, hpayload⟩

/-- The same datagram, sent again from another address a minute later, brings the token there. -/
theorem a_replay_takes_the_token :
    ¬ (∀ acts, Along (step noon) (fun n act => n.Unforged [phone] act) ⟨43200, []⟩ acts →
        Along (step noon) (Safe read_noon [phone] ⟨⟨"laptop"⟩⟩) ⟨43200, []⟩ acts) ∧
      lan_transport read_noon [phone] ⟨⟨"laptop"⟩⟩ 43260 none (discover [arrives "10.0.0.66"]) =
        .ok ⟨phone, ⟨⟨"10.0.0.66"⟩, 47000⟩, token_for ⟨⟨"laptop"⟩⟩ phone⟩ := by
  have hfound := @lan_transport_first read_noon [phone] ⟨⟨"laptop"⟩⟩ 43260 _ ⟨⟨"10.0.0.66"⟩, 40000⟩ _ []
    (show paired read_noon [phone] 43260 (make_announcement ⟨"phone"⟩ "Phone" "android" (noon 43200)
      47000) = some phone by decide +kernel)
  refine ⟨fun hall => ?_, hfound⟩
  obtain ⟨-, -, hsafe, -⟩ := hall (listens "10.0.0.66") (listens_unforged _)
  obtain ⟨r, hr, -, hip, -⟩ := hsafe _ none _ (List.Perm.refl _) hfound
  obtain rfl := List.mem_singleton.mp hr
  exact absurd hip (by decide)

end Network

/-! ## Which peers a listener finds -/

/-- The last announcement that carries the id. -/
def last_of (received : List Datagram) (id : String) : Option Announcement :=
  (received.filterMap Datagram.announcement).reverse.find? (fun a => a.device_id = id)

theorem last_of_snoc (received : List Datagram) (d : Datagram) (id : String) :
    last_of (received ++ [d]) id =
      if d.announcement.any (fun a => a.device_id = id) then d.announcement
      else last_of received id := by
  unfold last_of
  rw [List.filterMap_append, List.reverse_append]
  rcases d with ⟨_ | a, src⟩
  · simp
  · by_cases hid : a.device_id = id
    · simp [hid]
    · simp [hid]

theorem last_of_id {received : List Datagram} {id : String} {a : Announcement}
    (h : last_of received id = some a) : a.device_id = id := by
  simpa using List.find?_some h

/-- The loop keeps the last announcement of each id, and no other one. -/
theorem mem_discover_iff {received : List Datagram} {a : Announcement} :
    (∃ src, (a, src) ∈ discover received) ↔ last_of received a.device_id = some a := by
  induction received using List.reverseRecOn with
  | nil => simp [discover, last_of]
  | append_singleton received d ih =>
    have hstep : discover (received ++ [d]) = see (discover received) d := by
      unfold discover
      rw [List.foldl_append]
      rfl
    rw [hstep, last_of_snoc]
    rcases d with ⟨_ | b, src⟩
    · simpa [see] using ih
    · by_cases hid : b.device_id = a.device_id
      · -- The newest one takes the place of those before it.
        simp only [see, Option.any_some, hid, decide_true, if_true, Option.some.injEq]
        constructor
        · rintro ⟨src', hmem⟩
          rcases List.mem_cons.mp hmem with heq | hold
          · exact (congrArg Prod.fst heq).symm
          · have hother := (List.mem_filter.mp hold).2
            simp at hother
        · rintro rfl
          exact ⟨src, List.mem_cons_self⟩
      · have hsee : ∀ src', (a, src') ∈ see (discover received) ⟨some b, src⟩ ↔
            (a, src') ∈ discover received := by
          intro src'
          have hne : a ≠ b := fun heq => hid (heq ▸ rfl)
          have hkept : a.device_id ≠ b.device_id := fun heq => hid heq.symm
          simp [see, hne, hkept]
        rw [if_neg (by simp [hid])]
        simp only [hsee]
        exact ih

section Found
variable (parse_from_rfc3339 : String → Option Int) (time : String → Int) (peers : List SyncPeer)
  (now : Int) (received : List Datagram)

/-- A datagram has brought the announcement, and it verifies for the peer. -/
def Arrived (a : Announcement) (peer : SyncPeer) : Prop :=
  ∃ src, ⟨some a, src⟩ ∈ received ∧ paired parse_from_rfc3339 peers now a = some peer

/-- No announcement of the peer that verifies is newer. -/
def Newest (a : Announcement) (peer : SyncPeer) : Prop :=
  ∀ b, Arrived parse_from_rfc3339 peers now received b peer → time b.ts ≤ time a.ts

/-- In whatever order the map gives what was seen: each peer with an announcement that verifies is
there, with the newest one. -/
def FindsPeers : Prop :=
  ∀ found, found.Perm (discover received) → ∀ a peer,
    Arrived parse_from_rfc3339 peers now received a peer →
    ∃ p ∈ paired_announcements parse_from_rfc3339 peers now found, p.peer = peer ∧
      Newest parse_from_rfc3339 time peers now received p.announcement peer

/-- Of each id that an announcement of a peer carries, the last datagram brings one that verifies,
and no newer one came before. -/
def LastIsNewest : Prop :=
  ∀ a peer, Arrived parse_from_rfc3339 peers now received a peer →
    ∃ b, last_of received a.device_id = some b ∧
      paired parse_from_rfc3339 peers now b = some peer ∧
      Newest parse_from_rfc3339 time peers now received b peer

variable {parse_from_rfc3339 peers now} in
theorem mem_paired_announcements {found : List (Announcement × SocketAddr)} {a : Announcement}
    {peer : SyncPeer} :
    (∃ p ∈ paired_announcements parse_from_rfc3339 peers now found,
        p.announcement = a ∧ p.peer = peer) ↔
      (∃ src, (a, src) ∈ found) ∧ paired parse_from_rfc3339 peers now a = some peer := by
  unfold paired_announcements
  constructor
  · rintro ⟨p, hp, rfl, rfl⟩
    obtain ⟨e, he, hpeer⟩ := List.mem_filterMap.mp hp
    obtain ⟨peer, hpaired, rfl⟩ := Option.map_eq_some_iff.mp hpeer
    exact ⟨⟨e.2, he⟩, hpaired⟩
  · rintro ⟨⟨src, hin⟩, hpaired⟩
    exact ⟨_, List.mem_filterMap.mpr ⟨(a, src), hin, by rw [hpaired]; rfl⟩, rfl, rfl⟩

variable {parse_from_rfc3339 peers now} in
/-- A peer's announcements carry its id. -/
theorem id_of_paired {a : Announcement} {peer : SyncPeer}
    (h : paired parse_from_rfc3339 peers now a = some peer) :
    peer.device_id.to_string = a.device_id := by
  simpa using List.find?_some (paired_eq_some.mp h).1

/-- The loop keeps one announcement of each id before any is verified: the peers are found, with
their newest announcements, where these came last. -/
theorem finds_peers_iff :
    FindsPeers parse_from_rfc3339 time peers now received ↔
      LastIsNewest parse_from_rfc3339 time peers now received := by
  constructor
  · intro hfinds a peer harrived
    obtain ⟨p, hp, hpeer, hnewest⟩ := hfinds _ (.refl _) a peer harrived
    obtain ⟨hseen, hpaired⟩ := mem_paired_announcements.mp ⟨p, hp, rfl, hpeer⟩
    refine ⟨p.announcement, ?_, hpaired, hnewest⟩
    obtain ⟨src, -, hsigned⟩ := harrived
    rw [← id_of_paired hsigned, id_of_paired hpaired]
    exact mem_discover_iff.mp hseen
  · intro hlast found hperm a peer harrived
    obtain ⟨b, hb, hpaired, hnewest⟩ := hlast a peer harrived
    rw [← last_of_id hb] at hb
    obtain ⟨src, hseen⟩ := mem_discover_iff.mpr hb
    obtain ⟨p, hp, rfl, hpeer⟩ :=
      mem_paired_announcements.mpr ⟨⟨src, hperm.mem_iff.mpr hseen⟩, hpaired⟩
    exact ⟨p, hp, hpeer, hnewest⟩

end Found

/-- The id of the phone, and nothing else of it. -/
def forged : Datagram :=
  ⟨some { v := 1, device_id := "phone", name := "", platform := "", port := 1, ts := "", sig := none },
    ⟨⟨"10.0.0.66"⟩, 40000⟩⟩

theorem a_forged_datagram_displaces :
    ¬ ∀ (parse : String → Option Int) (time : String → Int) (peers : List SyncPeer) (now : Int)
      (received : List Datagram), FindsPeers parse time peers now received := by
  intro hall
  have hfinds := hall Network.read_noon (fun _ => 0) [Network.phone] 43260
    [Network.arrives "10.0.0.2", forged]
  obtain ⟨p, hp, -, -⟩ := hfinds _ (.refl _)
    (make_announcement ⟨"phone"⟩ "Phone" "android" (Network.noon 43200) 47000) Network.phone
    ⟨⟨⟨"10.0.0.2"⟩, 40000⟩, List.mem_cons_self, by decide +kernel⟩
  have hnone : paired_announcements Network.read_noon [Network.phone] 43260
      (discover [Network.arrives "10.0.0.2", forged]) = [] := rfl
  rw [hnone] at hp
  cases hp

end pai_mesh
