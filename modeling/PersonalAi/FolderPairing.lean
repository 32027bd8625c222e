-- Pairing over a shared folder (lib.rs of pai-ffi, pai_pair_folder): the reads and writes of the
-- calls of all devices in any order, and the laws of the keys when no call changes anything.
import PersonalAi.RotationAgreement

open pai_core sealing pai_sync

namespace pai_ffi

/-! ## The folder -/

/-- The files `offer-<device>.pai` and `accept-<offerer>-<acceptor>.pai`. -/
inductive PairFile
  | offer (device : DeviceId)
  | accept (offerer acceptor : DeviceId)
deriving DecidableEq

/-- What is left to do of a call: the peers that it knew at its beginning, the devices whose accept
files and offer files it still reads, and the accept file that it writes next. -/
inductive PairCall
  | idle
  | begun (known : List DeviceId)
  | published (known : List DeviceId)
  | reading (known accepts offers : List DeviceId)
  | writing (known offers : List DeviceId) (file : PairFile) (message : PairingMessage)
deriving DecidableEq

/-- The devices, the files of the folder with the newest first, and the call of each device. -/
structure PairFolder where
  devices : DeviceId → DeviceState
  files : List (PairFile × PairingMessage)
  calls : DeviceId → PairCall

def PairFolder.read_message (s : PairFolder) (file : PairFile) : Option PairingMessage :=
  s.files.lookup file

def PairFolder.write_message (s : PairFolder) (file : PairFile) (m : PairingMessage) : PairFolder :=
  { s with files := (file, m) :: s.files }

def PairFolder.set (s : PairFolder) (me : DeviceId) (d : DeviceState) (call : PairCall) :
    PairFolder :=
  { s with
    devices := Function.update s.devices me d, calls := Function.update s.calls me call }

def PairFolder.Lists (s : PairFolder) (d p : DeviceId) : Prop :=
  ∃ row ∈ (s.devices d).peers, row.device_id = p

/-! ## One call -/

/-- The acceptors of the entries that start with `accept-<me>-`. -/
def accepts_for (me : DeviceId) (entries : List PairFile) : List DeviceId :=
  entries.filterMap fun
    | .accept offerer acceptor => if offerer = me then some acceptor else none
    | .offer _ => none

/-- The offerers of the entries that start with `offer-`. -/
def offers_in (entries : List PairFile) : List DeviceId :=
  entries.filterMap fun
    | .offer device => some device
    | .accept _ _ => none

/-- An accept file that can be read is completed, unless its device is known. -/
def complete_accept (me : DeviceId) (d : DeviceState) (known : List DeviceId)
    (file : Option PairingMessage) : DeviceState :=
  match file with
  | none => d
  | some m => if m.device_id ∈ known then d else (complete_pairing me d m).1

/-- An offer file that can be read is accepted, unless it is our own or its device is known. -/
def answer_offer (me : DeviceId) (d : DeviceState) (known : List DeviceId)
    (file : Option PairingMessage) (random : Nat) :
    DeviceState × Option (PairFile × PairingMessage) :=
  match file with
  | none => (d, none)
  | some m =>
    if m.device_id = me ∨ m.device_id ∈ known then (d, none)
    else
      match accept_offer me d m random with
      | (d, .ok accept) => (d, some (.accept m.device_id me, accept))
      | (d, .error _) => (d, none)

/-- The reads and writes of a call. A file may be unreadable while another device writes it. -/
inductive PairStep
  | list_peers (device : DeviceId)
  | write_offer (device : DeviceId)
  | read_dir (device : DeviceId) (entries : List PairFile)
  | read_message (device : DeviceId) (readable : Bool) (random : Nat)
  | write_accept (device : DeviceId)

def PairStep.device : PairStep → DeviceId
  | .list_peers d | .write_offer d | .read_dir d _ | .read_message d _ _ | .write_accept d => d

/-- The next part of the call of the device, accepts before offers. A step that is not the next one
of the call changes nothing. -/
def PairFolder.step (s : PairFolder) : PairStep → PairFolder
  | .list_peers me =>
    match s.calls me with
    | .idle =>
      s.set me (s.devices me) (.begun ((s.devices me).peers.map SyncPeer.device_id))
    | _ => s
  | .write_offer me =>
    match s.calls me with
    | .begun known =>
      (s.write_message (.offer me) (make_offer me)).set me (s.devices me) (.published known)
    | _ => s
  | .read_dir me entries =>
    match s.calls me with
    | .published known =>
      s.set me (s.devices me) (.reading known (accepts_for me entries) (offers_in entries))
    | _ => s
  | .read_message me readable random =>
    match s.calls me with
    | .reading known (acceptor :: accepts) offers =>
      let file := if readable then s.read_message (.accept me acceptor) else none
      s.set me (complete_accept me (s.devices me) known file) (.reading known accepts offers)
    | .reading known [] (offerer :: offers) =>
      let file := if readable then s.read_message (.offer offerer) else none
      match answer_offer me (s.devices me) known file random with
      | (d, some (file, accept)) => s.set me d (.writing known offers file accept)
      | (d, none) => s.set me d (.reading known [] offers)
    | .reading _ [] [] => s.set me (s.devices me) .idle
    | _ => s
  | .write_accept me =>
    match s.calls me with
    | .writing known offers file accept =>
      (s.write_message file accept).set me (s.devices me) (.reading known [] offers)
    | _ => s

/-! ## Runs -/

/-- A step of one of the devices that share the folder. A listing has every file that is there; one
that is written meanwhile may be in it. -/
def Fits (ids : List DeviceId) (s : PairFolder) (a : PairStep) : Prop :=
  a.device ∈ ids ∧
    match a with
    | .read_dir _ entries => ∀ e ∈ s.files, e.1 ∈ entries
    | _ => True

/-- Before the first call the folder is empty. Devices that have a vault key have the same one, and
a device with peers has it. -/
structure PairStart (ids : List DeviceId) (s : PairFolder) : Prop where
  files : s.files = []
  calls : ∀ d, s.calls d = .idle
  one_key : ∀ d ∈ ids, ∀ p ∈ ids, ∀ k k', (s.devices d).vault = some k →
    (s.devices p).vault = some k' → k = k'
  keyed : ∀ d ∈ ids, (s.devices d).peers ≠ [] → (s.devices d).vault ≠ none

/-- The states of the runs whose steps are all allowed. -/
inductive PairRun (ids : List DeviceId) (allowed : PairFolder → PairStep → Prop) :
    PairFolder → Prop
  | start (s : PairFolder) (h : PairStart ids s) : PairRun ids allowed s
  | step (s : PairFolder) (a : PairStep) (h : PairRun ids allowed s) (hfits : Fits ids s a)
      (ha : allowed s a) : PairRun ids allowed (s.step a)

/-- Further calls that can read all files. -/
def Calls (ids : List DeviceId) : PairFolder → PairFolder → Prop :=
  Relation.ReflTransGen fun s t =>
    ∃ a, Fits ids s a ∧ (∀ d random, a ≠ .read_message d false random) ∧ t = s.step a

/-- No call changes a device or a file any more. -/
def Settled (ids : List DeviceId) (s : PairFolder) : Prop :=
  ∀ t, Calls ids s t → t.devices = s.devices ∧ ∀ file, t.read_message file = s.read_message file

/-- No two devices hold different vault keys; and when calls change nothing any more, every two
devices list each other and hold the same key. -/
def OneVault (ids : List DeviceId) (s : PairFolder) : Prop :=
  (∀ d ∈ ids, ∀ p ∈ ids, ∀ k k', (s.devices d).vault = some k →
    (s.devices p).vault = some k' → k = k') ∧
  (Settled ids s → ∀ d ∈ ids, ∀ p ∈ ids, d ≠ p →
    s.Lists d p ∧ s.Lists p d ∧
      ∃ k, (s.devices d).vault = some k ∧ (s.devices p).vault = some k)

/-- The step answers an offer on a device without a vault key, which makes one. -/
def PairFolder.makes_key (s : PairFolder) : PairStep → Bool
  | .read_message me true _ =>
    match s.calls me with
    | .reading known [] (offerer :: _) =>
      match s.read_message (.offer offerer) with
      | some m =>
        m.device_id ≠ me && !decide (m.device_id ∈ known) && decide ((s.devices me).vault = none)
      | none => false
    | _ => false
  | _ => false

/-- A vault key is made only where no device of the folder has one. -/
def MintsFirst (ids : List DeviceId) (s : PairFolder) (a : PairStep) : Prop :=
  s.makes_key a = true → ∀ d ∈ ids, (s.devices d).vault = none

/-! ## One step -/

@[simp] theorem set_devices (s : PairFolder) (me : DeviceId) (d : DeviceState) (call : PairCall) :
    (s.set me d call).devices = Function.update s.devices me d := rfl

@[simp] theorem set_calls (s : PairFolder) (me : DeviceId) (d : DeviceState) (call : PairCall) :
    (s.set me d call).calls = Function.update s.calls me call := rfl

@[simp] theorem set_files (s : PairFolder) (me : DeviceId) (d : DeviceState) (call : PairCall) :
    (s.set me d call).files = s.files := rfl

@[simp] theorem write_message_files (s : PairFolder) (file : PairFile) (m : PairingMessage) :
    (s.write_message file m).files = (file, m) :: s.files := rfl

@[simp] theorem write_message_devices (s : PairFolder) (file : PairFile) (m : PairingMessage) :
    (s.write_message file m).devices = s.devices := rfl

@[simp] theorem write_message_calls (s : PairFolder) (file : PairFile) (m : PairingMessage) :
    (s.write_message file m).calls = s.calls := rfl

theorem mem_of_read {s : PairFolder} {file : PairFile} {m : PairingMessage}
    (h : s.read_message file = some m) : (file, m) ∈ s.files := by
  obtain ⟨before, after, heq, _⟩ := List.lookup_eq_some_iff.mp h
  rw [heq]
  simp

/-- A device that completes an accept message for it gets the peer, and the key if it has none. -/
theorem complete_pairing_spec (me acceptor : DeviceId) (d : DeviceState) (key : VaultKey) :
    (complete_pairing me d (accept_message acceptor me key)).1 =
      { d.with_peer (row_of acceptor) with vault := some (d.vault.getD key) } := by
  have hverify : (accept_message acceptor me key).verify = .ok () := by
    simp [accept_message, signed_message, PairingMessage.verify]
  have hkind : ¬ (accept_message acceptor me key).kind ≠ "accept" := by
    simp [accept_message, signed_message]
  have hopen : (accept_message acceptor me key).vault_sealed.bind
      (open_with (peer_key ⟨me⟩ (accept_message acceptor me key).agree_pubkey) ()) = some key := by
    have hswap : peer_key ⟨me⟩ ⟨acceptor⟩ = peer_key ⟨acceptor⟩ ⟨me⟩ := Sym2.eq_swap
    simp [accept_message, signed_message, hswap]
  unfold complete_pairing
  rw [if_neg hkind, hverify]
  dsimp only
  rw [hopen]
  cases hv : d.vault with
  | none => simp [adopt_vault_key, hv, DeviceState.with_peer, accept_message, signed_message,
      PairingMessage.peer, row_of]
  | some existing =>
    by_cases hsame : existing = key
    · simp [adopt_vault_key, hv, hsame, DeviceState.with_peer, accept_message, signed_message,
        PairingMessage.peer, row_of]
    · simp [adopt_vault_key, hv, hsame, DeviceState.with_peer, accept_message, signed_message,
        PairingMessage.peer, row_of]

/-- What holds of the folder in every run: each file is what its name says, and hands out the key
that its acceptor holds; a device with peers has a key. -/
structure Named (ids : List DeviceId) (s : PairFolder) : Prop where
  offers : ∀ d m, (.offer d, m) ∈ s.files → m = make_offer d
  accepts : ∀ o a m, (.accept o a, m) ∈ s.files →
    a ∈ ids ∧ ∃ k, m = accept_message a o k ∧ (s.devices a).vault = some k
  writing : ∀ d known offers file m, s.calls d = .writing known offers file m →
    ∃ o k, file = .accept o d ∧ m = accept_message d o k ∧ (s.devices d).vault = some k
  keyed : ∀ d ∈ ids, (s.devices d).peers ≠ [] → (s.devices d).vault ≠ none

/-- The device with one more peer, and a key. -/
def keyed_with (d : DeviceState) (peer : DeviceId) (key : VaultKey) : DeviceState :=
  { d.with_peer (row_of peer) with vault := some key }

/-- What a step makes of the folder. -/
inductive Turn (ids : List DeviceId) (s : PairFolder) (me : DeviceId) (mints : Prop) :
    PairFolder → Prop
  | none : Turn ids s me mints s
  | proceed (call : PairCall) (hcall : ∀ known offers file m, call ≠ .writing known offers file m) :
      Turn ids s me mints (s.set me (s.devices me) call)
  | offer (known : List DeviceId) :
      Turn ids s me mints
        ((s.write_message (.offer me) (make_offer me)).set me (s.devices me) (.published known))
  | complete (acceptor : DeviceId) (key : VaultKey) (known accepts offers : List DeviceId)
      (hmem : acceptor ∈ ids) (hkey : (s.devices acceptor).vault = some key) :
      Turn ids s me mints
        (s.set me (keyed_with (s.devices me) acceptor ((s.devices me).vault.getD key))
          (.reading known accepts offers))
  | answer (offerer : DeviceId) (key : VaultKey) (known offers : List DeviceId)
      (hkey : (s.devices me).vault = some key ∨ (s.devices me).vault = Option.none ∧ mints) :
      Turn ids s me mints
        (s.set me (keyed_with (s.devices me) offerer key)
          (.writing known offers (.accept offerer me) (accept_message me offerer key)))
  | accept (known offers : List DeviceId) (file : PairFile) (m : PairingMessage)
      (hcall : s.calls me = .writing known offers file m) :
      Turn ids s me mints
        ((s.write_message file m).set me (s.devices me) (.reading known [] offers))

theorem complete_accept_cases {ids : List DeviceId} {s : PairFolder} (h : Named ids s)
    (me acceptor : DeviceId) (known : List DeviceId) (readable : Bool) :
    let file := if readable then s.read_message (.accept me acceptor) else none
    complete_accept me (s.devices me) known file = s.devices me ∨
    ∃ key, acceptor ∈ ids ∧ (s.devices acceptor).vault = some key ∧
      complete_accept me (s.devices me) known file =
        keyed_with (s.devices me) acceptor ((s.devices me).vault.getD key) := by
  cases readable with
  | false => exact Or.inl rfl
  | true =>
    simp only [if_true]
    cases hfile : s.read_message (.accept me acceptor) with
    | none => exact Or.inl rfl
    | some m =>
      obtain ⟨hmem, key, rfl, hkey⟩ := h.accepts _ _ _ (mem_of_read hfile)
      unfold complete_accept
      dsimp only
      split
      · exact Or.inl rfl
      · exact Or.inr ⟨key, hmem, hkey, complete_pairing_spec _ _ _ _⟩

theorem answer_offer_cases {ids : List DeviceId} {s : PairFolder} (h : Named ids s)
    (me offerer : DeviceId) (known : List DeviceId) (readable : Bool) (random : Nat) :
    let file := if readable then s.read_message (.offer offerer) else none
    answer_offer me (s.devices me) known file random = (s.devices me, none) ∨
    (readable = true ∧ s.read_message (.offer offerer) = some (make_offer offerer) ∧
      offerer ≠ me ∧ offerer ∉ known ∧
      let key := vault_key_or_generate (s.devices me) random
      answer_offer me (s.devices me) known file random =
        (keyed_with (s.devices me) offerer key,
          some (.accept offerer me, accept_message me offerer key))) := by
  cases readable with
  | false => exact Or.inl rfl
  | true =>
    simp only [if_true]
    cases hfile : s.read_message (.offer offerer) with
    | none => exact Or.inl rfl
    | some m =>
      obtain rfl := h.offers _ _ (mem_of_read hfile)
      unfold answer_offer
      dsimp only
      split
      · exact Or.inl rfl
      · rename_i hskip
        rw [not_or] at hskip
        have hne : offerer ≠ me := hskip.1
        right
        refine ⟨trivial, rfl, hne, hskip.2, ?_⟩
        rw [accept_offer_spec me offerer _ random hne]
        rfl

theorem step_turn {ids : List DeviceId} {s : PairFolder} (h : Named ids s) (a : PairStep) :
    Turn ids s a.device (s.makes_key a = true) (s.step a) := by
  cases a with
  | list_peers me =>
    simp only [PairFolder.step, PairStep.device]
    cases s.calls me with
    | idle => exact .proceed _ (by simp)
    | begun known => exact .none
    | published known => exact .none
    | reading known accepts offers => exact .none
    | writing known offers file m => exact .none
  | write_offer me =>
    simp only [PairFolder.step, PairStep.device]
    cases s.calls me with
    | idle => exact .none
    | begun known => exact .offer known
    | published known => exact .none
    | reading known accepts offers => exact .none
    | writing known offers file m => exact .none
  | read_dir me entries =>
    simp only [PairFolder.step, PairStep.device]
    cases s.calls me with
    | idle => exact .none
    | begun known => exact .none
    | published known => exact .proceed _ (by simp)
    | reading known accepts offers => exact .none
    | writing known offers file m => exact .none
  | read_message me readable random =>
    simp only [PairFolder.step, PairStep.device]
    cases hcall : s.calls me with
    | idle => exact .none
    | begun known => exact .none
    | published known => exact .none
    | reading known accepts offers =>
      cases accepts with
      | cons acceptor accepts =>
        dsimp only
        rcases complete_accept_cases h me acceptor known readable with hsame | ⟨key, hmem, hkey, hto⟩
        · rw [hsame]
          exact .proceed _ (by simp)
        · rw [hto]
          exact .complete acceptor key known accepts offers hmem hkey
      | nil =>
        cases offers with
        | nil => exact .proceed _ (by simp)
        | cons offerer offers =>
          dsimp only
          rcases answer_offer_cases h me offerer known readable random with
            hsame | ⟨hread, hfile, hne, hknown, hto⟩
          · rw [hsame]
            exact .proceed _ (by simp)
          · rw [hto]
            refine .answer offerer _ known offers ?_
            cases hv : (s.devices me).vault with
            | some key => exact Or.inl (by simp [vault_key_or_generate, hv])
            | none =>
              right
              have hid : (make_offer offerer).device_id = offerer := rfl
              simp [PairFolder.makes_key, hread, hcall, hfile, hid, hne, hknown, hv]
    | writing known offers file m => exact .none
  | write_accept me =>
    simp only [PairFolder.step, PairStep.device]
    cases hcall : s.calls me with
    | idle => exact .none
    | begun known => exact .none
    | published known => exact .none
    | reading known accepts offers => exact .none
    | writing known offers file m => exact .accept known offers file m hcall

/-! ## Every run -/

/-- No two devices hold different keys. -/
def OneKey (ids : List DeviceId) (s : PairFolder) : Prop :=
  ∀ d ∈ ids, ∀ p ∈ ids, ∀ k k', (s.devices d).vault = some k →
    (s.devices p).vault = some k' → k = k'

theorem turn_other {ids : List DeviceId} {s t : PairFolder} {me : DeviceId} {mints : Prop}
    (h : Turn ids s me mints t) {d : DeviceId} (hd : d ≠ me) :
    t.devices d = s.devices d ∧ t.calls d = s.calls d := by
  cases h with
  | none => exact ⟨rfl, rfl⟩
  | proceed call hcall => simp [hd]
  | offer known => simp [hd]
  | complete acceptor key known accepts offers hmem hkey => simp [hd]
  | answer offerer key known offers hkey => simp [hd]
  | accept known offers file m hcall => simp [hd]

/-- A device keeps the key it has. -/
theorem turn_keeps_key {ids : List DeviceId} {s t : PairFolder} {me : DeviceId} {mints : Prop}
    (h : Turn ids s me mints t) {d : DeviceId} {k : VaultKey}
    (hk : (s.devices d).vault = some k) : (t.devices d).vault = some k := by
  by_cases hd : d = me
  · subst hd
    cases h with
    | none => exact hk
    | proceed call hcall => simpa using hk
    | offer known => simpa using hk
    | complete acceptor key known accepts offers hmem hkey => simp [keyed_with, hk]
    | answer offerer key known offers hkey =>
      rcases hkey with hkey | ⟨hnone, _⟩
      · simp [keyed_with, ← hkey, hk]
      · rw [hk] at hnone
        cases hnone
    | accept known offers file m hcall => simpa using hk
  · rw [(turn_other h hd).1]
    exact hk

/-- A device has the key it had, one that another device has, or one that it makes now. -/
theorem turn_key {ids : List DeviceId} {s t : PairFolder} {me : DeviceId} {mints : Prop}
    (h : Turn ids s me mints t) {d : DeviceId} {k : VaultKey}
    (hk : (t.devices d).vault = some k) :
    (s.devices d).vault = some k ∨ (∃ p ∈ ids, (s.devices p).vault = some k) ∨
      (d = me ∧ mints) := by
  by_cases hd : d = me
  · subst hd
    cases h with
    | none => exact Or.inl hk
    | proceed call hcall => exact Or.inl (by simpa using hk)
    | offer known => exact Or.inl (by simpa using hk)
    | complete acceptor key known accepts offers hmem hkey =>
      simp only [set_devices, Function.update_self, keyed_with, Option.some.injEq] at hk
      cases hv : (s.devices d).vault with
      | some k' =>
        left
        rw [hv] at hk
        exact congrArg some hk
      | none =>
        right
        left
        rw [hv] at hk
        exact ⟨acceptor, hmem, hkey.trans (congrArg some hk)⟩
    | answer offerer key known offers hkey =>
      simp only [set_devices, Function.update_self, keyed_with, Option.some.injEq] at hk
      subst hk
      rcases hkey with hkey | ⟨_, hmints⟩
      · exact Or.inl hkey
      · exact Or.inr (Or.inr ⟨rfl, hmints⟩)
    | accept known offers file m hcall => exact Or.inl (by simpa using hk)
  · left
    rw [← (turn_other h hd).1]
    exact hk

theorem named_turn {ids : List DeviceId} {s t : PairFolder} (h : Named ids s) {me : DeviceId}
    (hme : me ∈ ids) {mints : Prop} (ht : Turn ids s me mints t) : Named ids t := by
  have hkeep : ∀ d k, (s.devices d).vault = some k → (t.devices d).vault = some k :=
    fun d k hk => turn_keeps_key ht hk
  refine { offers := ?_, accepts := ?_, writing := ?_, keyed := ?_ }
  · intro d m hm
    cases ht with
    | none => exact h.offers d m hm
    | proceed call hcall => exact h.offers d m hm
    | offer known =>
      rcases List.mem_cons.mp hm with heq | hm
      · cases heq
        rfl
      · exact h.offers d m hm
    | complete acceptor key known accepts offers hmem hkey => exact h.offers d m hm
    | answer offerer key known offers hkey => exact h.offers d m hm
    | accept known offers file m' hcall =>
      rcases List.mem_cons.mp hm with heq | hm
      · obtain ⟨o, k, rfl, _⟩ := h.writing _ _ _ _ _ hcall
        cases heq
      · exact h.offers d m hm
  · intro o a m hm
    have hold : (PairFile.accept o a, m) ∈ s.files →
        a ∈ ids ∧ ∃ k, m = accept_message a o k ∧ (t.devices a).vault = some k := by
      intro hm
      obtain ⟨hmem, k, heq, hk⟩ := h.accepts o a m hm
      exact ⟨hmem, k, heq, hkeep a k hk⟩
    cases ht with
    | none => exact hold hm
    | proceed call hcall => exact hold hm
    | offer known =>
      rcases List.mem_cons.mp hm with heq | hm
      · cases heq
      · exact hold hm
    | complete acceptor key known accepts offers hmem hkey => exact hold hm
    | answer offerer key known offers hkey => exact hold hm
    | accept known offers file m' hcall =>
      rcases List.mem_cons.mp hm with heq | hm
      · obtain ⟨o', k, rfl, rfl, hk⟩ := h.writing _ _ _ _ _ hcall
        cases heq
        exact ⟨hme, k, rfl, hkeep _ _ hk⟩
      · exact hold hm
  · intro d known offers file m hd
    by_cases hdme : d = me
    · subst hdme
      cases ht with
      | none => exact h.writing _ _ _ _ _ hd
      | proceed call hcall => exact absurd (by simpa using hd) (hcall known offers file m)
      | offer known => simp at hd
      | complete acceptor key known accepts offers hmem hkey => simp at hd
      | answer offerer key known' offers' hkey =>
        simp only [set_calls, Function.update_self, PairCall.writing.injEq] at hd
        obtain ⟨_, _, rfl, rfl⟩ := hd
        exact ⟨offerer, key, rfl, rfl, by simp [keyed_with]⟩
      | accept known offers file m hcall => simp at hd
    · rw [(turn_other ht hdme).2] at hd
      obtain ⟨o, k, hfile, hm, hk⟩ := h.writing _ _ _ _ _ hd
      exact ⟨o, k, hfile, hm, hkeep _ _ hk⟩
  · intro d hdids hpeers
    by_cases hdme : d = me
    · subst hdme
      cases ht with
      | none => exact h.keyed d hdids hpeers
      | proceed call hcall => simpa using h.keyed d hdids (by simpa using hpeers)
      | offer known => simpa using h.keyed d hdids (by simpa using hpeers)
      | complete acceptor key known accepts offers hmem hkey => simp [keyed_with]
      | answer offerer key known offers hkey => simp [keyed_with]
      | accept known offers file m hcall => simpa using h.keyed d hdids (by simpa using hpeers)
    · rw [(turn_other ht hdme).1] at hpeers ⊢
      exact h.keyed d hdids hpeers

theorem PairStart.named {ids : List DeviceId} {s : PairFolder} (h : PairStart ids s) :
    Named ids s where
  offers := by simp [h.files]
  accepts := by simp [h.files]
  writing := by simp [h.calls]
  keyed := h.keyed

theorem pair_run_named {ids : List DeviceId} {allowed : PairFolder → PairStep → Prop}
    {s : PairFolder} (h : PairRun ids allowed s) : Named ids s := by
  induction h with
  | start s h => exact h.named
  | step s a _ hfits _ ih => exact named_turn ih hfits.1 (step_turn ih a)

/-- A step that makes a key only where there is none keeps the devices at one key. -/
theorem one_key_turn {ids : List DeviceId} {s t : PairFolder} (h : OneKey ids s) {me : DeviceId}
    {mints : Prop} (ht : Turn ids s me mints t)
    (hfirst : mints → ∀ d ∈ ids, (s.devices d).vault = none) : OneKey ids t := by
  intro d hd p hp k k' hk hk'
  -- both keys are old, or the device made its key where no device had one
  have hcases : ∀ d ∈ ids, ∀ k, (t.devices d).vault = some k →
      (∃ q ∈ ids, (s.devices q).vault = some k) ∨ (d = me ∧ mints) := by
    intro d hd k hk
    rcases turn_key ht hk with hold | hother | hmade
    · exact Or.inl ⟨d, hd, hold⟩
    · exact Or.inl hother
    · exact Or.inr hmade
  rcases hcases d hd k hk with ⟨q, hq, hqk⟩ | ⟨rfl, hmints⟩
  · rcases hcases p hp k' hk' with ⟨q', hq', hqk'⟩ | ⟨rfl, hmints⟩
    · exact h q hq q' hq' k k' hqk hqk'
    · rw [hfirst hmints q hq] at hqk
      cases hqk
  · rcases hcases p hp k' hk' with ⟨q', hq', hqk'⟩ | ⟨rfl, _⟩
    · rw [hfirst hmints q' hq'] at hqk'
      cases hqk'
    · rw [hk] at hk'
      exact Option.some.inj hk'

theorem pair_run_one_key {ids : List DeviceId} {s : PairFolder}
    (h : PairRun ids (MintsFirst ids) s) : OneKey ids s := by
  induction h with
  | start s h => exact h.one_key
  | step s a hrun _ ha ih => exact one_key_turn ih (step_turn (pair_run_named hrun) a) ha

/-! ## Running a call to its end -/

section Calls

variable {ids : List DeviceId} {s : PairFolder} {d : DeviceId}

theorem calls_step (a : PairStep) (hfits : Fits ids s a)
    (hread : ∀ d random, a ≠ .read_message d false random) : Calls ids s (s.step a) :=
  .single ⟨a, hfits, hread, rfl⟩

/-- A call reads its accept files one after the other. -/
theorem reads_accepts (hd : d ∈ ids) {known accepts offers : List DeviceId}
    (hcall : s.calls d = .reading known accepts offers) :
    ∃ t, Calls ids s t ∧ t.calls d = .reading known [] offers := by
  induction accepts generalizing s with
  | nil => exact ⟨s, .refl, hcall⟩
  | cons acceptor accepts ih =>
    have hnext : (s.step (.read_message d true 0)).calls d = .reading known accepts offers := by
      simp [PairFolder.step, hcall]
    obtain ⟨t, hcalls, ht⟩ := ih hnext
    exact ⟨t, (calls_step (.read_message d true 0) ⟨hd, trivial⟩ (by simp)).trans hcalls, ht⟩

/-- A call reads its offers one after the other, and writes an accept file behind some. -/
theorem reads_offers (hd : d ∈ ids) {known offers rest : List DeviceId}
    (hcall : s.calls d = .reading known [] (offers ++ rest)) :
    ∃ t, Calls ids s t ∧ t.calls d = .reading known [] rest := by
  induction offers generalizing s with
  | nil => exact ⟨s, .refl, hcall⟩
  | cons offerer offers ih =>
    have hfirst : Calls ids s (s.step (.read_message d true 0)) :=
      calls_step _ ⟨hd, trivial⟩ (by simp)
    rcases hanswer : answer_offer d (s.devices d) known (s.read_message (.offer offerer)) 0 with
      ⟨dev, _ | ⟨file, accept⟩⟩
    · have hnext : (s.step (.read_message d true 0)).calls d =
          .reading known [] (offers ++ rest) := by
        simp [PairFolder.step, hcall, hanswer]
      obtain ⟨t, hcalls, ht⟩ := ih hnext
      exact ⟨t, hfirst.trans hcalls, ht⟩
    · have hwriting : (s.step (.read_message d true 0)).calls d =
          .writing known (offers ++ rest) file accept := by
        simp [PairFolder.step, hcall, hanswer]
      have hnext : ((s.step (.read_message d true 0)).step (.write_accept d)).calls d =
          .reading known [] (offers ++ rest) := by
        simp [PairFolder.step, hcall, hanswer]
      have hsecond : Calls ids (s.step (.read_message d true 0))
          ((s.step (.read_message d true 0)).step (.write_accept d)) :=
        calls_step _ ⟨hd, trivial⟩ (by simp)
      obtain ⟨t, hcalls, ht⟩ := ih hnext
      exact ⟨t, (hfirst.trans hsecond).trans hcalls, ht⟩

theorem reading_ends (hd : d ∈ ids) {known accepts offers : List DeviceId}
    (hcall : s.calls d = .reading known accepts offers) :
    ∃ t, Calls ids s t ∧ t.calls d = .idle := by
  obtain ⟨t, hst, ht⟩ := reads_accepts hd hcall
  have hreading : t.calls d = .reading known [] (offers ++ []) := by simpa using ht
  obtain ⟨u, htu, hu⟩ := reads_offers hd hreading
  refine ⟨u.step (.read_message d true 0), (hst.trans htu).tail ?_, ?_⟩
  · exact ⟨.read_message d true 0, ⟨hd, trivial⟩, by simp, rfl⟩
  · simp [PairFolder.step, hu]

/-- Behind its offer a call lists the folder. -/
theorem published_reads (hd : d ∈ ids) {known : List DeviceId}
    (hcall : s.calls d = .published known) :
    ∃ t, Calls ids s t ∧ t.calls d = .reading known (accepts_for d (s.files.map Prod.fst))
      (offers_in (s.files.map Prod.fst)) := by
  refine ⟨s.step (.read_dir d (s.files.map Prod.fst)), calls_step _ ⟨hd, ?_⟩ (by simp), ?_⟩
  · intro e he
    exact List.mem_map_of_mem he
  · simp [PairFolder.step, hcall]

theorem begun_publishes (hd : d ∈ ids) {known : List DeviceId} (hcall : s.calls d = .begun known) :
    ∃ t, Calls ids s t ∧ t.calls d = .published known ∧
      t.read_message (.offer d) = some (make_offer d) := by
  refine ⟨s.step (.write_offer d), calls_step _ ⟨hd, trivial⟩ (by simp), ?_, ?_⟩
  · simp [PairFolder.step, hcall]
  · simp [PairFolder.step, hcall, PairFolder.read_message]

theorem call_ends (hd : d ∈ ids) : ∃ t, Calls ids s t ∧ t.calls d = .idle := by
  have hpublished : ∀ {s : PairFolder} {known : List DeviceId}, s.calls d = .published known →
      ∃ t, Calls ids s t ∧ t.calls d = .idle := by
    intro s known hcall
    obtain ⟨t, hst, ht⟩ := published_reads hd hcall
    obtain ⟨u, htu, hu⟩ := reading_ends hd ht
    exact ⟨u, hst.trans htu, hu⟩
  cases hcall : s.calls d with
  | idle => exact ⟨s, .refl, hcall⟩
  | begun known =>
    obtain ⟨t, hst, ht, _⟩ := begun_publishes hd hcall
    obtain ⟨u, htu, hu⟩ := hpublished ht
    exact ⟨u, hst.trans htu, hu⟩
  | published known => exact hpublished hcall
  | reading known accepts offers => exact reading_ends hd hcall
  | writing known offers file m =>
    have hnext : (s.step (.write_accept d)).calls d = .reading known [] offers := by
      simp [PairFolder.step, hcall]
    obtain ⟨t, hst, ht⟩ := reading_ends hd hnext
    exact ⟨t, (calls_step (.write_accept d) ⟨hd, trivial⟩ (by simp)).trans hst, ht⟩

/-- From any state a device can end its call and begin a new one, up to its offer. -/
theorem publishes_again (hd : d ∈ ids) :
    ∃ t u, Calls ids s t ∧ Calls ids t u ∧
      u.calls d = .published ((t.devices d).peers.map SyncPeer.device_id) ∧
      u.read_message (.offer d) = some (make_offer d) := by
  obtain ⟨t, hst, ht⟩ := call_ends (s := s) hd
  have hbegun : (t.step (.list_peers d)).calls d =
      .begun ((t.devices d).peers.map SyncPeer.device_id) := by
    simp [PairFolder.step, ht]
  obtain ⟨u, htu, hu, hread⟩ := begun_publishes hd hbegun
  exact ⟨t, u, hst, (calls_step (.list_peers d) ⟨hd, trivial⟩ (by simp)).trans htu, hu, hread⟩

/-! ## When calls change nothing -/

theorem settled_offer (h : Settled ids s) (hd : d ∈ ids) :
    s.read_message (.offer d) = some (make_offer d) := by
  obtain ⟨t, u, hst, htu, _, hread⟩ := publishes_again (s := s) hd
  rw [← (h u (hst.trans htu)).2]
  exact hread

theorem mem_offers_in {entries : List PairFile} {p : DeviceId} (h : .offer p ∈ entries) :
    p ∈ offers_in entries :=
  List.mem_filterMap.mpr ⟨.offer p, h, rfl⟩

/-- A device that does not list another one answers its offer in its next call. -/
theorem settled_lists (h : Settled ids s) {p : DeviceId} (hd : d ∈ ids) (hp : p ∈ ids)
    (hne : d ≠ p) : s.Lists d p := by
  by_contra hlist
  obtain ⟨t, u, hst, htu, hu, _⟩ := publishes_again (s := s) hd
  obtain ⟨v, huv, hv⟩ := published_reads hd hu
  have hsu : Calls ids s u := hst.trans htu
  have hoffer : p ∈ offers_in (u.files.map Prod.fst) := by
    have hread : u.read_message (.offer p) = some (make_offer p) := by
      rw [(h u hsu).2]
      exact settled_offer h hp
    exact mem_offers_in (List.mem_map_of_mem (f := Prod.fst) (mem_of_read hread))
  obtain ⟨before, after, hsplit⟩ := List.append_of_mem hoffer
  obtain ⟨w, hvw, hw⟩ := reads_accepts hd hv
  rw [hsplit] at hw
  obtain ⟨x, hwx, hx⟩ := reads_offers hd hw
  have hsx : Calls ids s x := ((hsu.trans huv).trans hvw).trans hwx
  have hread : x.read_message (.offer p) = some (make_offer p) := by
    rw [(h x hsx).2]
    exact settled_offer h hp
  have hknown : p ∉ (t.devices d).peers.map SyncPeer.device_id := by
    rw [(h t hst).1]
    intro hmem
    obtain ⟨row, hrow, hid⟩ := List.mem_map.mp hmem
    exact hlist ⟨row, hrow, hid⟩
  have hlast : Calls ids s (x.step (.read_message d true 0)) :=
    hsx.tail ⟨.read_message d true 0, ⟨hd, trivial⟩, by simp, rfl⟩
  have hanswer : (x.step (.read_message d true 0)).Lists d p := by
    have hskip : ¬ ((make_offer p).device_id = d ∨
        (make_offer p).device_id ∈ (t.devices d).peers.map SyncPeer.device_id) := by
      rw [not_or]
      exact ⟨Ne.symm hne, hknown⟩
    have hto : answer_offer d (x.devices d) ((t.devices d).peers.map SyncPeer.device_id)
        (some (make_offer p)) 0 =
          (keyed_with (x.devices d) p (vault_key_or_generate (x.devices d) 0),
            some (.accept p d, accept_message d p (vault_key_or_generate (x.devices d) 0))) := by
      unfold answer_offer
      dsimp only
      rw [if_neg hskip, accept_offer_spec d p _ 0 (Ne.symm hne)]
      rfl
    have hdev : (x.step (.read_message d true 0)).devices d =
        keyed_with (x.devices d) p (vault_key_or_generate (x.devices d) 0) := by
      simp [PairFolder.step, hx, hread, hto]
    unfold PairFolder.Lists
    rw [hdev]
    exact (add_peer_listed _ _ _).mpr (Or.inl rfl)
  unfold PairFolder.Lists at hanswer
  rw [(h _ hlast).1] at hanswer
  exact hlist hanswer

end Calls

/-! ## A folder whose devices all know each other -/

/-- A call of a device that knew these peers, and that accepts nothing. -/
def PairCall.Knows (known : List DeviceId) : PairCall → Prop
  | .idle => True
  | .begun k | .published k | .reading k _ _ => k = known
  | .writing _ _ _ _ => False

/-- An offer of a peer or of the device, or an accept message that comes from a peer if it is for
the device. -/
def PairFolder.Expected (s : PairFolder) (d : DeviceId) (e : PairFile × PairingMessage) : Prop :=
  match e.1 with
  | .offer _ => e.2.device_id = d ∨ s.Lists d e.2.device_id
  | .accept offerer _ => offerer = d → s.Lists d e.2.device_id

/-- All offers are there, and no file has anything new for a device. -/
structure AllKnown (ids : List DeviceId) (s : PairFolder) : Prop where
  written : ∀ d ∈ ids, s.read_message (.offer d) = some (make_offer d)
  files : ∀ d ∈ ids, ∀ e ∈ s.files, s.Expected d e

/-- The state looks as `s` does, up to calls that accept nothing. -/
structure LooksLike (ids : List DeviceId) (s t : PairFolder) : Prop where
  devices : t.devices = s.devices
  files : ∀ file, t.read_message file = s.read_message file
  calls : ∀ d ∈ ids, (t.calls d).Knows ((s.devices d).peers.map SyncPeer.device_id)

theorem looksLike_set {ids : List DeviceId} {s t : PairFolder} (h : LooksLike ids s t)
    (me : DeviceId) {call : PairCall}
    (hcall : call.Knows ((s.devices me).peers.map SyncPeer.device_id)) :
    LooksLike ids s (t.set me (t.devices me) call) where
  devices := by
    rw [set_devices, Function.update_eq_self]
    exact h.devices
  files := h.files
  calls := by
    intro d hd
    by_cases hdme : d = me
    · subst hdme
      simpa using hcall
    · simpa [hdme] using h.calls d hd

theorem complete_known {s : PairFolder} {me : DeviceId} {m : PairingMessage}
    (h : s.Lists me m.device_id) :
    complete_accept me (s.devices me) ((s.devices me).peers.map SyncPeer.device_id) (some m) =
      s.devices me := by
  obtain ⟨row, hrow, hid⟩ := h
  exact if_pos (List.mem_map.mpr ⟨row, hrow, hid⟩)

theorem answer_known {s : PairFolder} {me : DeviceId} {m : PairingMessage} (random : Nat)
    (h : m.device_id = me ∨ s.Lists me m.device_id) :
    answer_offer me (s.devices me) ((s.devices me).peers.map SyncPeer.device_id) (some m) random =
      (s.devices me, none) := by
  refine if_pos (h.imp_right ?_)
  rintro ⟨row, hrow, hid⟩
  exact List.mem_map.mpr ⟨row, hrow, hid⟩

theorem looksLike_step {ids : List DeviceId} {s t : PairFolder} (hs : AllKnown ids s)
    (h : LooksLike ids s t) (a : PairStep) (hme : a.device ∈ ids) :
    LooksLike ids s (t.step a) := by
  have hknows := h.calls a.device hme
  cases a with
  | list_peers me =>
    simp only [PairFolder.step]
    cases hcall : t.calls me with
    | idle =>
      refine looksLike_set h me ?_
      rw [h.devices]
      rfl
    | begun known => exact h
    | published known => exact h
    | reading known accepts offers => exact h
    | writing known offers file m => exact h
  | write_offer me =>
    simp only [PairFolder.step]
    cases hcall : t.calls me with
    | idle => exact h
    | begun known =>
      rw [PairStep.device, hcall] at hknows
      have hwrite : LooksLike ids s (t.write_message (.offer me) (make_offer me)) := by
        refine { devices := h.devices, files := ?_, calls := h.calls }
        intro file
        by_cases hfile : file = .offer me
        · subst hfile
          rw [hs.written me hme]
          simp [PairFolder.read_message]
        · rw [← h.files file]
          simp [PairFolder.read_message, List.lookup_cons, beq_false_of_ne hfile]
      exact looksLike_set hwrite me hknows
    | published known => exact h
    | reading known accepts offers => exact h
    | writing known offers file m => exact h
  | read_dir me entries =>
    simp only [PairFolder.step]
    cases hcall : t.calls me with
    | idle => exact h
    | begun known => exact h
    | published known =>
      rw [PairStep.device, hcall] at hknows
      exact looksLike_set h me hknows
    | reading known accepts offers => exact h
    | writing known offers file m => exact h
  | read_message me readable random =>
    simp only [PairFolder.step]
    cases hcall : t.calls me with
    | idle => exact h
    | begun known => exact h
    | published known => exact h
    | reading known accepts offers =>
      rw [PairStep.device, hcall] at hknows
      cases accepts with
      | cons acceptor accepts =>
        have hsame : complete_accept me (t.devices me) known
            (if readable then t.read_message (.accept me acceptor) else none) = t.devices me := by
          cases readable with
          | false => rfl
          | true =>
            simp only [if_true, h.files, h.devices]
            cases hread : s.read_message (.accept me acceptor) with
            | none => rfl
            | some m =>
              rw [hknows]
              exact complete_known (hs.files me hme _ (mem_of_read hread) rfl)
        dsimp only
        rw [hsame]
        exact looksLike_set h me hknows
      | nil =>
        cases offers with
        | nil => exact looksLike_set h me trivial
        | cons offerer offers =>
          have hsame : answer_offer me (t.devices me) known
              (if readable then t.read_message (.offer offerer) else none) random =
                (t.devices me, none) := by
            cases readable with
            | false => rfl
            | true =>
              simp only [if_true, h.files, h.devices]
              cases hread : s.read_message (.offer offerer) with
              | none => rfl
              | some m =>
                rw [hknows]
                exact answer_known random (hs.files me hme _ (mem_of_read hread))
          dsimp only
          rw [hsame]
          exact looksLike_set h me hknows
    | writing known offers file m => exact h
  | write_accept me =>
    simp only [PairFolder.step]
    cases hcall : t.calls me with
    | idle => exact h
    | begun known => exact h
    | published known => exact h
    | reading known accepts offers => exact h
    | writing known offers file m =>
      rw [PairStep.device, hcall] at hknows
      exact hknows.elim

/-- Between calls, a folder whose devices all know each other does not change any more. -/
theorem settled_of_known {ids : List DeviceId} {s : PairFolder} (hs : AllKnown ids s)
    (hidle : ∀ d ∈ ids, s.calls d = .idle) : Settled ids s := by
  intro t h
  have hlooks : LooksLike ids s t := by
    induction h with
    | refl =>
      refine ⟨rfl, fun _ => rfl, ?_⟩
      intro d hd
      rw [hidle d hd]
      trivial
    | tail _ hlast ih =>
      obtain ⟨a, hfits, _, rfl⟩ := hlast
      exact looksLike_step hs ih a hfits.1
  exact ⟨hlooks.devices, hlooks.files⟩

/-- Where a vault key is made only when no device of the folder has one, no two devices ever hold
different keys, and calls that change nothing any more leave all devices paired, with one key. -/
theorem a_folder_with_one_mint_ends_with_one_vault {ids : List DeviceId} {s : PairFolder}
    (h : PairRun ids (MintsFirst ids) s) : OneVault ids s := by
  have hone := pair_run_one_key h
  have hnamed := pair_run_named h
  refine ⟨hone, ?_⟩
  intro hsettled d hd p hp hne
  have hdp := settled_lists hsettled hd hp hne
  have hpd := settled_lists hsettled hp hd (Ne.symm hne)
  have hkey : ∀ {d p : DeviceId}, d ∈ ids → s.Lists d p → ∃ k, (s.devices d).vault = some k := by
    rintro d p hd ⟨row, hrow, _⟩
    exact Option.ne_none_iff_exists'.mp (hnamed.keyed d hd (List.ne_nil_of_mem hrow))
  obtain ⟨k, hk⟩ := hkey hd hdp
  obtain ⟨k', hk'⟩ := hkey hp hpd
  obtain rfl := hone d hd p hp k k' hk hk'
  exact ⟨hdp, hpd, k, hk, hk'⟩

/-! ## Two small runs -/

/-- Steps that can be taken one after the other. -/
def Goes (ids : List DeviceId) (allowed : PairFolder → PairStep → Prop) :
    PairFolder → List PairStep → Prop
  | _, [] => True
  | s, a :: steps => Fits ids s a ∧ allowed s a ∧ Goes ids allowed (s.step a) steps

theorem pair_run_goes {ids : List DeviceId} {allowed : PairFolder → PairStep → Prop}
    {s : PairFolder} (h : PairRun ids allowed s) {steps : List PairStep}
    (hgoes : Goes ids allowed s steps) : PairRun ids allowed (steps.foldl PairFolder.step s) := by
  induction steps generalizing s with
  | nil => exact h
  | cons a steps ih =>
    obtain ⟨hfits, ha, hrest⟩ := hgoes
    exact ih (.step s a h hfits ha) hrest

instance decideFits (ids : List DeviceId) (s : PairFolder) (a : PairStep) :
    Decidable (Fits ids s a) :=
  match a with
  | .list_peers d => inferInstanceAs (Decidable (d ∈ ids ∧ True))
  | .write_offer d => inferInstanceAs (Decidable (d ∈ ids ∧ True))
  | .read_dir d entries => inferInstanceAs (Decidable (d ∈ ids ∧ ∀ e ∈ s.files, e.1 ∈ entries))
  | .read_message d _ _ => inferInstanceAs (Decidable (d ∈ ids ∧ True))
  | .write_accept d => inferInstanceAs (Decidable (d ∈ ids ∧ True))

instance decideMintsFirst (ids : List DeviceId) (s : PairFolder) (a : PairStep) :
    Decidable (MintsFirst ids s a) :=
  inferInstanceAs (Decidable (s.makes_key a = true → ∀ d ∈ ids, (s.devices d).vault = none))

instance decideGoes (ids : List DeviceId) (allowed : PairFolder → PairStep → Prop)
    [∀ s a, Decidable (allowed s a)] :
    ∀ (s : PairFolder) (steps : List PairStep), Decidable (Goes ids allowed s steps)
  | _, [] => .isTrue trivial
  | s, a :: steps =>
    haveI := decideGoes ids allowed (s.step a) steps
    inferInstanceAs (Decidable (Fits ids s a ∧ allowed s a ∧ Goes ids allowed (s.step a) steps))

instance decideExpected (s : PairFolder) (d : DeviceId) (e : PairFile × PairingMessage) :
    Decidable (s.Expected d e) :=
  match e with
  | (.offer _, m) =>
    inferInstanceAs (Decidable (m.device_id = d ∨
      ∃ row ∈ (s.devices d).peers, row.device_id = m.device_id))
  | (.accept offerer _, m) =>
    inferInstanceAs (Decidable (offerer = d →
      ∃ row ∈ (s.devices d).peers, row.device_id = m.device_id))

/-- A whole call that finds these files; a device that makes a key makes it of `random`. -/
def press (me : DeviceId) (entries : List PairFile) (random : Nat) : List PairStep :=
  [.list_peers me, .write_offer me, .read_dir me entries] ++
    entries.flatMap (fun _ => [.read_message me true random, .write_accept me]) ++
      [.read_message me true random]

/-- Devices that have never paired, and an empty folder. -/
def strangers : PairFolder :=
  { devices := fun _ => { vault := none, epoch := 0, peers := [] }, files := [],
    calls := fun _ => .idle }

theorem strangers_start (ids : List DeviceId) : PairStart ids strangers where
  files := rfl
  calls := fun _ => rfl
  one_key := by
    intro d _ p _ k k' hk
    cases hk
  keyed := fun _ _ hpeers => absurd rfl hpeers

/-- The laptop and the tablet take turns until they are paired. -/
def twoPresses : List PairStep :=
  press laptop [.offer laptop] 0 ++ press tablet [.offer laptop, .offer tablet] 1 ++
    press laptop [.offer laptop, .offer tablet, .accept laptop tablet] 0

/-- The two hold one key, and go on to do so. -/
theorem two_devices_end_with_one_vault :
    OneVault [laptop, tablet] (twoPresses.foldl PairFolder.step strangers) :=
  a_folder_with_one_mint_ends_with_one_vault
    (pair_run_goes (.start _ (strangers_start _)) (by decide +kernel))

/-- Then a phone joins: it answers both offers before anybody answers its own. -/
def threePresses : List PairStep :=
  let old : List PairFile :=
    [.offer laptop, .offer tablet, .accept laptop tablet, .accept tablet laptop, .offer phone]
  let new : List PairFile := old ++ [.accept laptop phone, .accept tablet phone]
  twoPresses ++ press phone old 2 ++ press laptop new 0 ++
    press tablet (.accept phone laptop :: new) 0

/-- The phone has a key of its own for good. -/
theorem the_phone_that_joins_has_another_key :
    ¬ ∀ ids s, PairRun ids (fun _ _ => True) s → OneVault ids s := by
  intro h
  have hrun : PairRun [laptop, tablet, phone] (fun _ _ => True)
      (threePresses.foldl PairFolder.step strangers) :=
    pair_run_goes (.start _ (strangers_start _)) (by decide +kernel)
  have hknown : AllKnown [laptop, tablet, phone] (threePresses.foldl PairFolder.step strangers) :=
    ⟨by decide +kernel, by decide +kernel⟩
  have hidle : ∀ d ∈ [laptop, tablet, phone],
      (threePresses.foldl PairFolder.step strangers).calls d = .idle := by
    decide +kernel
  have hsettled := settled_of_known hknown hidle
  obtain ⟨_, _, k, hlaptop, hphone⟩ := (h _ _ hrun).2 hsettled laptop (by simp) phone (by simp)
    (by decide)
  have hlaptop' : ((threePresses.foldl PairFolder.step strangers).devices laptop).vault =
      some ⟨0, 1⟩ := by decide +kernel
  have hphone' : ((threePresses.foldl PairFolder.step strangers).devices phone).vault =
      some ⟨0, 2⟩ := by decide +kernel
  rw [hlaptop'] at hlaptop
  rw [hphone'] at hphone
  cases hlaptop
  cases hphone

end pai_ffi
