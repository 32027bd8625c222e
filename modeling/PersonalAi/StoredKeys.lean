-- The keys of a data directory: the database key, the vault key and the agreement key, each
-- in the OS keystore or in a file, with a keystore that may fail at every call.
import PersonalAi.GuestServer
import PersonalAi.Lib.Runs
import PersonalAi.Lib.Table

open pai_core runs table text

namespace pai_identity.keystore

/-! ## The two homes of a key -/

abbrev Key := { b : Bytes // b.length = 32 }

def to_key (b : Bytes) : Option Key := if h : b.length = 32 then some ⟨b, h⟩ else none

inductive KeyKind
  | store
  | vault
  | agreement (device : DeviceId)
deriving DecidableEq

/-- A key of a data directory, which is named by its canonical path. -/
structure Place where
  dir : String
  kind : KeyKind
deriving DecidableEq

/-- The user's keystore, and the key files of all data directories. -/
structure Account where
  entries : Table String Bytes
  files : Table Place Bytes

/-- What the surroundings answer in one call: the environment variable, the keystore, the file
system where the code goes on without it, and the random bytes. -/
structure Answers where
  plaintext : Bool
  load : Bool
  store : Bool
  delete : Bool
  write : Bool
  remove : Bool
  fresh : Key

/-- `keystore::load`: a keystore that fails reads as one without the entry. -/
def load (s : Account) (name : String) (ans : Answers) : Option Bytes :=
  if ans.load then s.entries.lookup name else none

section Names
variable (sha256 : Bytes → Bytes)

/-- The name in the keystore. The database key has one name for all directories. -/
def Place.name (p : Place) : String :=
  match p.kind with
  | .store => "store-key"
  | .vault => "sync-vault:" ++ pai_share.guest.hex_encode ((sha256 (utf8 p.dir)).take 8)
  | .agreement device => "agreement:" ++ device.to_string

/-- A file key moves into the keystore when that takes it. -/
def migrate (s : Account) (p : Place) (raw : Bytes) (ans : Answers) : Account :=
  if ans.store then
    { entries := s.entries.insert (p.name sha256) raw
      files := if ans.remove then s.files.erase p else s.files }
  else s

/-- A new key goes into the keystore, or else into the file. -/
def persist (s : Account) (p : Place) (k : Key) (ans : Answers) : Option Account :=
  if ans.store then some { s with entries := s.entries.insert (p.name sha256) k.val }
  else if ans.write then some { s with files := s.files.insert p k.val }
  else none

/-! ## The functions of the source -/

def store_key (s : Account) (dir : String) (ans : Answers) : Option Key × Account :=
  let p : Place := ⟨dir, .store⟩
  if ans.plaintext then (none, s)
  else
    match load s (p.name sha256) ans with
    | some b => (to_key b, s)
    | none =>
      match s.files.lookup p with
      | some raw => (to_key raw, migrate sha256 s p raw ans)
      | none =>
        match persist sha256 s p ans.fresh ans with
        | some s' => (some ans.fresh, s')
        | none => (none, s)

def load_or_make_key (s : Account) (p : Place) (file_name : String) (ans : Answers) :
    Except Error Key × Account :=
  match load s (p.name sha256) ans with
  | some b =>
    match to_key b with
    | some k => (.ok k, s)
    | none => (.error (.Sync ("corrupt " ++ p.name sha256 ++ " key")), s)
  | none =>
    match s.files.lookup p with
    | some b =>
      match to_key b with
      | some raw => (.ok raw, migrate sha256 s p raw.val ans)
      | none => (.error (.Sync ("corrupt " ++ file_name)), s)
    | none =>
      match persist sha256 s p ans.fresh ans with
      | some s' => (.ok ans.fresh, s')
      | none => (.error (.Storage "write"), s)

def agreement_key (s : Account) (device : DeviceId) (dir : String) (ans : Answers) :
    Except Error Key × Account :=
  load_or_make_key sha256 s ⟨dir, .agreement device⟩ ("agreement-" ++ device.to_string ++ ".key") ans

def vault_key (s : Account) (dir : String) (ans : Answers) : Except Error (Option Key) × Account :=
  let p : Place := ⟨dir, .vault⟩
  match load s (p.name sha256) ans with
  | some b =>
    match to_key b with
    | some k => (.ok (some k), s)
    | none => (.error (.Sync "corrupt sync-vault key"), s)
  | none =>
    match s.files.lookup p with
    | some b =>
      match to_key b with
      | some raw => (.ok (some raw), migrate sha256 s p raw.val ans)
      | none => (.error (.Sync "corrupt sync-vault.key"), s)
    | none => (.ok none, s)

def store_vault (s : Account) (dir : String) (k : Key) (ans : Answers) : Except Error Unit × Account :=
  match persist sha256 s ⟨dir, .vault⟩ k ans with
  | some s' => (.ok (), s')
  | none => (.error (.Storage "write"), s)

def vault_key_or_generate (s : Account) (dir : String) (ans : Answers) : Except Error Key × Account :=
  match vault_key sha256 s dir ans with
  | (.error e, s') => (.error e, s')
  | (.ok (some k), s') => (.ok k, s')
  | (.ok none, s') =>
    match store_vault sha256 s' dir ans.fresh ans with
    | (.ok (), s'') => (.ok ans.fresh, s'')
    | (.error e, s'') => (.error e, s'')

def adopt_vault_key (s : Account) (dir : String) (k : Key) (ans : Answers) :
    Except Error Unit × Account :=
  match vault_key sha256 s dir ans with
  | (.error e, s') => (.error e, s')
  | (.ok (some existing), s') =>
    if existing = k then (.ok (), s')
    else
      (.error (.Sync ("vault key conflict: this device already belongs to a different " ++
        "sync vault. Remove the old peers/vault key before pairing with a different vault.")), s')
  | (.ok none, s') => store_vault sha256 s' dir k ans

/-- The keystore deletes in silence, or not at all. -/
def reset_vault_key (s : Account) (dir : String) (ans : Answers) : Except Error Unit × Account :=
  let p : Place := ⟨dir, .vault⟩
  let entries := if ans.delete then s.entries.erase (p.name sha256) else s.entries
  if s.files.lookup p = none then (.ok (), { s with entries })
  else if ans.remove then (.ok (), { entries, files := s.files.erase p })
  else (.error (.Storage "remove"), { s with entries })

/-! ## Runs -/

inductive Call
  | store_key (dir : String)
  | agreement_key (device : DeviceId) (dir : String)
  | vault_key (dir : String)
  | vault_key_or_generate (dir : String)
  | adopt_vault_key (dir : String) (k : Key)
  | reset_vault_key (dir : String)

def Call.place : Call → Place
  | .store_key dir => ⟨dir, .store⟩
  | .agreement_key device dir => ⟨dir, .agreement device⟩
  | .vault_key dir | .vault_key_or_generate dir | .adopt_vault_key dir _ | .reset_vault_key dir =>
    ⟨dir, .vault⟩

/-- The key that a call returns, if it returns one. -/
def outcome (c : Call) (s : Account) (ans : Answers) : Option Key × Account :=
  match c with
  | .store_key dir => store_key sha256 s dir ans
  | .agreement_key device dir => (agreement_key sha256 s device dir ans).map Except.toOption id
  | .vault_key dir => (vault_key sha256 s dir ans).map (fun r => r.toOption.join) id
  | .vault_key_or_generate dir => (vault_key_or_generate sha256 s dir ans).map Except.toOption id
  | .adopt_vault_key dir k => (none, (adopt_vault_key sha256 s dir k ans).2)
  | .reset_vault_key dir => (none, (reset_vault_key sha256 s dir ans).2)

/-- The account, and the keys that calls returned, those of a vault since its last reset. -/
structure World where
  account : Account
  returned : List (Place × Key)

def World.step (w : World) (act : Call × Answers) : World :=
  let (c, ans) := act
  let (k, account) := outcome sha256 c w.account ans
  match c with
  | .reset_vault_key _ => { account, returned := w.returned.filter (fun r => r.1 ≠ c.place) }
  | _ => { account, returned := (k.map (fun k => (c.place, k))).toList ++ w.returned }

/-! ## What the claim is about -/

/-- The key of a place: the one in its file, or else the one in the keystore. -/
def current (s : Account) (p : Place) : Option Bytes :=
  (s.files.lookup p).or (s.entries.lookup (p.name sha256))

/-- A key file and the entry of its name never hold two keys. -/
def Agree (s : Account) : Prop :=
  ∀ p raw e, s.files.lookup p = some raw → s.entries.lookup (p.name sha256) = some e → e = raw

/-- Every key that calls returned is the one, and it is still there. -/
def World.Stable (w : World) : Prop :=
  (∀ p k k', (p, k) ∈ w.returned → (p, k') ∈ w.returned → k = k') ∧
    ∀ p k, (p, k) ∈ w.returned → current sha256 w.account p = some k.val

/-- The key that a call makes where it finds none. -/
def Call.makes (c : Call) (ans : Answers) : Option Key :=
  match c with
  | .store_key _ => if ans.plaintext then none else some ans.fresh
  | .agreement_key _ _ | .vault_key_or_generate _ => some ans.fresh
  | .adopt_vault_key _ k => some k
  | .vault_key _ | .reset_vault_key _ => none

/-- The keystore holds the key, fails to load it, and there is no file. -/
def hidden (s : Account) (p : Place) (ans : Answers) : Prop :=
  ans.load = false ∧ s.entries.lookup (p.name sha256) ≠ none ∧ s.files.lookup p = none

/-- No other place of the name has a file with another key. -/
def Alone (s : Account) (p : Place) (raw : Bytes) : Prop :=
  ∀ q other, q ≠ p → q.name sha256 = p.name sha256 → s.files.lookup q = some other → other = raw

/-- What a call puts into the keystore: the key of its file, or else one that it makes. -/
def stored (s : Account) (c : Call) (ans : Answers) : Option Bytes :=
  if ans.store = false ∨ load s (c.place.name sha256) ans ≠ none then none
  else
    match s.files.lookup c.place with
    | none => (c.makes ans).map Subtype.val
    | some raw =>
      match c with
      | .reset_vault_key _ => none
      | .store_key _ => if ans.plaintext then none else some raw
      | _ => if raw.length = 32 then some raw else none

/-- A call that makes a key does not do so over a hidden one; what goes into the keystore has
its name for itself there, and so has what a reset deletes. -/
structure InOrder (s : Account) (c : Call) (ans : Answers) : Prop where
  seen : (c.makes ans).isSome → ¬ hidden sha256 s c.place ans
  alone : ∀ raw ∈ stored sha256 s c ans, Alone sha256 s c.place raw
  reset : ∀ dir, c = .reset_vault_key dir → ans.delete = true →
    ∀ q, q ≠ c.place → q.name sha256 = c.place.name sha256 → s.files.lookup q = none →
      s.entries.lookup (q.name sha256) = none

/-! ## What a call does -/

/-- What a call that is no reset returns and leaves. -/
inductive Resolves (s : Account) (c : Call) (ans : Answers) : Option Key → Account → Prop
  | nothing : Resolves s c ans none s
  | entry {r : Option Key} {b : Bytes} (hload : load s (c.place.name sha256) ans = some b)
      (hr : ∀ x ∈ r, x.val = b) : Resolves s c ans r s
  | file {r : Option Key} {raw : Bytes} (hload : load s (c.place.name sha256) ans = none)
      (hfile : s.files.lookup c.place = some raw)
      (hstored : ans.store = true → stored sha256 s c ans = some raw) (hr : ∀ x ∈ r, x.val = raw) :
      Resolves s c ans r (migrate sha256 s c.place raw ans)
  | made {r : Option Key} {k : Key} {s' : Account}
      (hload : load s (c.place.name sha256) ans = none) (hfile : s.files.lookup c.place = none)
      (hmakes : c.makes ans = some k)
      (hstored : ans.store = true → stored sha256 s c ans = some k.val)
      (hpersist : persist sha256 s c.place k ans = some s') (hr : ∀ x ∈ r, x = k) : Resolves s c ans r s'

variable {sha256}

theorem to_key_eq {b : Bytes} {k : Key} (h : to_key b = some k) : k.val = b := by
  unfold to_key at h
  split at h
  · cases h
    rfl
  · cases h

theorem stored_file {s : Account} {c : Call} {ans : Answers} {raw : Bytes}
    (hload : load s (c.place.name sha256) ans = none) (hfile : s.files.lookup c.place = some raw)
    (hlen : raw.length = 32) (hc : (∀ dir, c ≠ .store_key dir) ∧ ∀ dir, c ≠ .reset_vault_key dir) :
    ans.store = true → stored sha256 s c ans = some raw := by
  intro hstore
  unfold stored
  rw [if_neg (by simp [hstore, hload]), hfile]
  cases c with
  | store_key dir => exact absurd rfl (hc.1 dir)
  | reset_vault_key dir => exact absurd rfl (hc.2 dir)
  | _ => simp [hlen]

theorem stored_made {s : Account} {c : Call} {ans : Answers} {k : Key}
    (hload : load s (c.place.name sha256) ans = none) (hfile : s.files.lookup c.place = none)
    (hmakes : c.makes ans = some k) : ans.store = true → stored sha256 s c ans = some k.val := by
  intro hstore
  unfold stored
  rw [if_neg (by simp [hstore, hload]), hfile, hmakes]
  rfl

theorem store_key_resolves (s : Account) (dir : String) (ans : Answers) :
    Resolves sha256 s (.store_key dir) ans
      (store_key sha256 s dir ans).1 (store_key sha256 s dir ans).2 := by
  unfold store_key
  dsimp only
  split
  · exact .nothing
  · rename_i hplain
    split
    · rename_i b hload
      exact .entry hload (fun x hx => to_key_eq hx)
    · rename_i hload
      split
      · rename_i raw hfile
        refine .file hload hfile ?_ (fun x hx => to_key_eq hx)
        intro hstore
        unfold stored
        have hstored : ¬ (ans.store = false ∨
            load s ((Call.store_key dir).place.name sha256) ans ≠ none) := by
          rintro (hno | hno)
          · rw [hstore] at hno
            cases hno
          · exact hno hload
        rw [if_neg hstored, show s.files.lookup (Call.store_key dir).place = some raw from hfile]
        simp [hplain]
      · rename_i hfile
        have hmakes : (Call.store_key dir).makes ans = some ans.fresh := by simp [Call.makes, hplain]
        split
        · rename_i s' hpersist
          exact .made hload hfile hmakes (stored_made hload hfile hmakes) hpersist (by simp)
        · exact .nothing

/-- The same without the returned key. -/
theorem Resolves.silent {s s' : Account} {c : Call} {ans : Answers} {r : Option Key}
    (h : Resolves sha256 s c ans r s') : Resolves sha256 s c ans none s' := by
  cases h with
  | nothing => exact .nothing
  | entry hload hr => exact .entry hload (by simp)
  | file hload hfile hstored hr => exact .file hload hfile hstored (by simp)
  | made hload hfile hmakes hstored hpersist hr =>
    exact .made hload hfile hmakes hstored hpersist (by simp)

/-- A vault key is found, or there is none and nothing changes. -/
theorem vault_key_resolves (s : Account) (c : Call) (dir : String) (ans : Answers)
    (hplace : c.place = ⟨dir, .vault⟩)
    (hc : (∀ dir, c ≠ .store_key dir) ∧ ∀ dir, c ≠ .reset_vault_key dir) :
    (vault_key sha256 s dir ans = (.ok none, s) ∧ load s (c.place.name sha256) ans = none ∧
      s.files.lookup c.place = none) ∨
    ((vault_key sha256 s dir ans).1 ≠ .ok none ∧
      Resolves sha256 s c ans (vault_key sha256 s dir ans).1.toOption.join
        (vault_key sha256 s dir ans).2) := by
  unfold vault_key
  dsimp only
  rw [← hplace]
  split
  · rename_i b hload
    refine .inr ?_
    split
    · rename_i k hk
      refine ⟨by simp, .entry hload ?_⟩
      rintro x ⟨⟩
      exact to_key_eq hk
    · exact ⟨by simp, .nothing⟩
  · rename_i hload
    split
    · rename_i b hfile
      refine .inr ?_
      split
      · rename_i raw hraw
        have hb := to_key_eq hraw
        subst hb
        refine ⟨by simp, .file hload hfile (stored_file hload hfile raw.property hc) ?_⟩
        rintro x ⟨⟩
        rfl
      · exact ⟨by simp, .nothing⟩
    · rename_i hfile
      exact .inl ⟨rfl, hload, hfile⟩

theorem agreement_key_resolves (s : Account) (device : DeviceId) (dir : String) (ans : Answers) :
    Resolves sha256 s (.agreement_key device dir) ans (agreement_key sha256 s device dir ans).1.toOption
      (agreement_key sha256 s device dir ans).2 := by
  unfold agreement_key load_or_make_key
  split
  · rename_i b hload
    split
    · rename_i k hk
      refine .entry hload ?_
      rintro x ⟨⟩
      exact to_key_eq hk
    · exact .nothing
  · rename_i hload
    split
    · rename_i b hfile
      split
      · rename_i raw hraw
        have hb := to_key_eq hraw
        subst hb
        refine .file hload hfile (stored_file hload hfile raw.property (by simp)) ?_
        rintro x ⟨⟩
        rfl
      · exact .nothing
    · rename_i hfile
      have hmakes : (Call.agreement_key device dir).makes ans = some ans.fresh := rfl
      split
      · rename_i s' hpersist
        refine .made hload hfile hmakes (stored_made hload hfile hmakes) hpersist ?_
        rintro x ⟨⟩
        rfl
      · exact .nothing

theorem vault_key_or_generate_resolves (s : Account) (dir : String) (ans : Answers) :
    Resolves sha256 s (.vault_key_or_generate dir) ans
      (vault_key_or_generate sha256 s dir ans).1.toOption (vault_key_or_generate sha256 s dir ans).2 := by
  rcases @vault_key_resolves sha256 s (.vault_key_or_generate dir) dir ans rfl (by simp) with
    ⟨hnone, hload, hfile⟩ | ⟨hsome, hfound⟩
  · have hmakes : (Call.vault_key_or_generate dir).makes ans = some ans.fresh := rfl
    unfold vault_key_or_generate store_vault
    rw [hnone]
    dsimp only
    cases hpersist : persist sha256 s ⟨dir, .vault⟩ ans.fresh ans with
    | none => exact .nothing
    | some s' =>
      refine .made hload hfile hmakes (stored_made hload hfile hmakes) hpersist ?_
      rintro x ⟨⟩
      rfl
  · unfold vault_key_or_generate
    rcases hv : vault_key sha256 s dir ans with ⟨e | _ | k, s'⟩
    · rw [hv] at hfound
      exact hfound
    · rw [hv] at hsome
      exact absurd rfl hsome
    · rw [hv] at hfound
      exact hfound

theorem adopt_vault_key_resolves (s : Account) (dir : String) (k : Key) (ans : Answers) :
    Resolves sha256 s (.adopt_vault_key dir k) ans none (adopt_vault_key sha256 s dir k ans).2 := by
  rcases @vault_key_resolves sha256 s (.adopt_vault_key dir k) dir ans rfl (by simp) with
    ⟨hnone, hload, hfile⟩ | ⟨hsome, hfound⟩
  · have hmakes : (Call.adopt_vault_key dir k).makes ans = some k := rfl
    unfold adopt_vault_key store_vault
    rw [hnone]
    dsimp only
    cases hpersist : persist sha256 s ⟨dir, .vault⟩ k ans with
    | none => exact .nothing
    | some s' => exact .made hload hfile hmakes (stored_made hload hfile hmakes) hpersist (by simp)
  · unfold adopt_vault_key
    rcases hv : vault_key sha256 s dir ans with ⟨e | _ | existing, s'⟩
    · rw [hv] at hfound
      exact hfound.silent
    · rw [hv] at hsome
      exact absurd rfl hsome
    · rw [hv] at hfound
      dsimp only
      split
      · exact hfound.silent
      · exact hfound.silent

/-- Every call but a reset resolves its place. -/
theorem outcome_resolves (s : Account) (c : Call) (ans : Answers) (hc : ∀ dir, c ≠ .reset_vault_key dir) :
    Resolves sha256 s c ans (outcome sha256 c s ans).1 (outcome sha256 c s ans).2 := by
  cases c with
  | store_key dir => exact store_key_resolves s dir ans
  | agreement_key device dir => exact agreement_key_resolves s device dir ans
  | vault_key dir =>
    rcases @vault_key_resolves sha256 s (.vault_key dir) dir ans rfl (by simp) with
      ⟨hnone, -, -⟩ | ⟨-, hfound⟩
    · unfold outcome
      dsimp only
      rw [hnone]
      exact .nothing
    · exact hfound
  | vault_key_or_generate dir => exact vault_key_or_generate_resolves s dir ans
  | adopt_vault_key dir k => exact adopt_vault_key_resolves s dir k ans
  | reset_vault_key dir => exact absurd rfl (hc dir)

/-! ## What a call in order keeps -/

/-- A key goes into the keystore that no key under its name contradicts. -/
theorem keystore_takes {s : Account} {p : Place} {raw : Bytes} {files : Table Place Bytes}
    (hagree : Agree sha256 s) (halone : Alone sha256 s p raw)
    (hfiles : ∀ q, files.lookup q = s.files.lookup q ∨ q = p ∧ files.lookup q = none)
    (hp : ∀ other, s.files.lookup p = some other → other = raw)
    (hold : ∀ e, s.entries.lookup (p.name sha256) = some e → e = raw) :
    Agree sha256 { entries := s.entries.insert (p.name sha256) raw, files } ∧
      ∀ q b, current sha256 s q = some b →
        current sha256 { entries := s.entries.insert (p.name sha256) raw, files } q = some b := by
  have hsame : ∀ q b, q.name sha256 = p.name sha256 → s.files.lookup q = some b → b = raw := by
    intro q b hname hq
    by_cases hqp : q = p
    · exact hp b (hqp ▸ hq)
    · exact halone q b hqp hname hq
  have hfile : ∀ q b, files.lookup q = some b → s.files.lookup q = some b := by
    intro q b hq
    rcases hfiles q with heq | ⟨-, hnone⟩
    · rw [← heq, hq]
    · rw [hnone] at hq
      cases hq
  constructor
  · intro q b e hq he
    by_cases hname : q.name sha256 = p.name sha256
    · rw [lookup_insert_if, if_pos hname] at he
      rw [hsame q b hname (hfile q b hq), Option.some.inj he]
    · rw [lookup_insert_if, if_neg hname] at he
      exact hagree q b e (hfile q b hq) he
  · intro q b hb
    unfold current at hb ⊢
    dsimp only
    by_cases hname : q.name sha256 = p.name sha256
    · have hraw : b = raw := by
        rcases hq : s.files.lookup q with _ | other
        · rw [hq, Option.none_or, hname] at hb
          exact hold b hb
        · rw [hq, Option.some_or] at hb
          rw [← Option.some.inj hb]
          exact hsame q other hname hq
      rw [lookup_insert_if, if_pos hname]
      rcases hq : files.lookup q with _ | other
      · rw [Option.none_or, hraw]
      · rw [Option.some_or, hraw, hsame q other hname (hfile q other hq)]
    · rw [lookup_insert_if, if_neg hname]
      rcases hfiles q with heq | ⟨hqp, -⟩
      · rw [heq]
        exact hb
      · exact absurd (by rw [hqp]) hname

theorem resolves_keeps {s s' : Account} {c : Call} {ans : Answers} {r : Option Key}
    (hagree : Agree sha256 s) (horder : InOrder sha256 s c ans) (h : Resolves sha256 s c ans r s') :
    Agree sha256 s' ∧ (∀ q b, current sha256 s q = some b → current sha256 s' q = some b) ∧
      ∀ x ∈ r, current sha256 s' c.place = some x.val := by
  cases h with
  | nothing => exact ⟨hagree, fun _ _ hb => hb, by simp⟩
  | @entry _ b hload hr =>
    refine ⟨hagree, fun _ _ hb => hb, fun x hx => ?_⟩
    have hentry : s.entries.lookup (c.place.name sha256) = some b := by
      unfold load at hload
      split at hload
      · exact hload
      · cases hload
    rw [hr x hx, current]
    rcases hfile : s.files.lookup c.place with _ | raw
    · rw [Option.none_or, hentry]
    · rw [Option.some_or, hagree c.place raw b hfile hentry]
  | @file _ raw hload hfile hstored hr =>
    unfold migrate
    split
    · rename_i hstore
      have halone := horder.alone raw (hstored hstore)
      have hfiles : ∀ q, (if ans.remove = true then s.files.erase c.place else s.files).lookup q =
          s.files.lookup q ∨ q = c.place ∧
            (if ans.remove = true then s.files.erase c.place else s.files).lookup q = none := by
        intro q
        split
        · rw [lookup_erase_if]
          by_cases hq : q = c.place
          · exact .inr ⟨hq, by rw [if_pos hq]⟩
          · exact .inl (by rw [if_neg hq])
        · exact .inl rfl
      have hp : ∀ other, s.files.lookup c.place = some other → other = raw := by
        intro other hother
        rw [hfile] at hother
        exact (Option.some.inj hother).symm
      obtain ⟨hagree', hkeeps⟩ := keystore_takes hagree halone hfiles hp
        (fun e he => hagree c.place raw e hfile he)
      refine ⟨hagree', hkeeps, fun x hx => hkeeps c.place x.val ?_⟩
      rw [current, hfile, Option.some_or, hr x hx]
    · refine ⟨hagree, fun _ _ hb => hb, fun x hx => ?_⟩
      rw [current, hfile, Option.some_or, hr x hx]
  | @made _ k _ hload hfile hmakes hstored hpersist hr =>
    have hentry : s.entries.lookup (c.place.name sha256) = none := by
      have hseen := horder.seen (by rw [hmakes]; rfl)
      unfold load at hload
      split at hload
      · exact hload
      · rename_i hoff
        by_contra hheld
        exact hseen ⟨by simpa using hoff, hheld, hfile⟩
    unfold persist at hpersist
    split at hpersist
    · rename_i hstore
      cases hpersist
      have halone := horder.alone k.val (hstored hstore)
      obtain ⟨hagree', hkeeps⟩ := @keystore_takes sha256 s c.place k.val s.files hagree halone
        (fun q => .inl rfl) (by rw [hfile]; simp) (by rw [hentry]; simp)
      refine ⟨hagree', hkeeps, fun x hx => ?_⟩
      rw [current, hfile, Option.none_or, lookup_insert_if, if_pos rfl, hr x hx]
    · split at hpersist
      · cases hpersist
        refine ⟨fun q b e hq he => ?_, fun q b hb => ?_, fun x hx => ?_⟩
        · rw [lookup_insert_if] at hq
          split at hq
          · rename_i hqp
            rw [hqp, hentry] at he
            cases he
          · exact hagree q b e hq he
        · unfold current at hb ⊢
          dsimp only
          rw [lookup_insert_if]
          split
          · rename_i hqp
            rw [hqp, hfile, hentry] at hb
            cases hb
          · exact hb
        · rw [current, lookup_insert_if, if_pos rfl, Option.some_or, hr x hx]
      · cases hpersist

/-- What a reset leaves. -/
theorem reset_leaves (s : Account) (dir : String) (ans : Answers) :
    let s' := (reset_vault_key sha256 s dir ans).2
    (s'.entries = if ans.delete then s.entries.erase (Place.name sha256 ⟨dir, .vault⟩) else s.entries) ∧
      ∀ q, s'.files.lookup q = s.files.lookup q ∨ q = ⟨dir, .vault⟩ ∧ s'.files.lookup q = none := by
  unfold reset_vault_key
  dsimp only
  split
  · exact ⟨rfl, fun q => .inl rfl⟩
  · split
    · refine ⟨rfl, fun q => ?_⟩
      rw [lookup_erase_if]
      by_cases hq : q = ⟨dir, .vault⟩
      · exact .inr ⟨hq, by rw [if_pos hq]⟩
      · exact .inl (by rw [if_neg hq])
    · exact ⟨rfl, fun q => .inl rfl⟩

/-- A reset in order keeps the keys of all other places. -/
theorem reset_keeps {s : Account} {dir : String} {ans : Answers} (hagree : Agree sha256 s)
    (horder : InOrder sha256 s (.reset_vault_key dir) ans) :
    Agree sha256 (reset_vault_key sha256 s dir ans).2 ∧ ∀ q b, q ≠ ⟨dir, .vault⟩ →
      current sha256 s q = some b → current sha256 (reset_vault_key sha256 s dir ans).2 q = some b := by
  obtain ⟨hentries, hfiles⟩ := @reset_leaves sha256 s dir ans
  constructor
  · intro q raw e hq he
    have hraw : s.files.lookup q = some raw := by
      rcases hfiles q with heq | ⟨-, hnone⟩
      · rw [← heq, hq]
      · rw [hnone] at hq
        cases hq
    refine hagree q raw e hraw ?_
    rw [hentries] at he
    split at he
    · rw [lookup_erase_if] at he
      split at he
      · cases he
      · exact he
    · exact he
  · intro q b hne hb
    unfold current at hb ⊢
    rcases hfiles q with heq | ⟨hq, -⟩
    · rw [heq, hentries]
      split
      · rename_i hdelete
        rw [lookup_erase_if]
        split
        · rename_i hname
          -- the entry goes, so the key of this place is in its file
          rcases hq : s.files.lookup q with _ | raw
          · rw [hq, horder.reset dir rfl hdelete q hne hname hq] at hb
            cases hb
          · rw [hq] at hb
            exact hb
        · exact hb
      · exact hb
    · exact absurd hq hne

/-! ## Runs of calls in order -/

/-- The key files agree with the keystore, and every returned key is still the current one. -/
structure World.Sound (w : World) : Prop where
  agree : Agree sha256 w.account
  held : ∀ p k, (p, k) ∈ w.returned → current sha256 w.account p = some k.val

theorem step_sound (w : World) (act : Call × Answers) (h : @World.Sound sha256 w)
    (horder : InOrder sha256 w.account act.1 act.2) :
    @World.Sound sha256 (w.step sha256 act) := by
  obtain ⟨c, ans⟩ := act
  by_cases hc : ∃ dir, c = .reset_vault_key dir
  · obtain ⟨dir, rfl⟩ := hc
    obtain ⟨hagree, hkeeps⟩ := reset_keeps h.agree horder
    refine ⟨hagree, fun p k hk => ?_⟩
    obtain ⟨hmem, hne⟩ := List.mem_filter.mp hk
    exact hkeeps p k.val (of_decide_eq_true hne) (h.held p k hmem)
  · have hno : ∀ dir, c ≠ .reset_vault_key dir := fun dir heq => hc ⟨dir, heq⟩
    obtain ⟨hagree, hkeeps, hnew⟩ := resolves_keeps h.agree horder (outcome_resolves w.account c ans hno)
    have hstep : w.step sha256 (c, ans) =
        { account := (outcome sha256 c w.account ans).2
          returned := ((outcome sha256 c w.account ans).1.map (fun k => (c.place, k))).toList ++
            w.returned } := by
      cases c with
      | reset_vault_key dir => exact absurd rfl (hno dir)
      | _ => rfl
    rw [hstep]
    refine ⟨hagree, fun p k hk => ?_⟩
    rcases List.mem_append.mp hk with hk | hk
    · obtain ⟨x, hx, heq⟩ := Option.map_eq_some_iff.mp (Option.mem_toList.mp hk)
      cases heq
      exact hnew _ hx
    · exact hkeeps p k.val (h.held p k hk)

theorem sound_stable {w : World} (h : @World.Sound sha256 w) : w.Stable sha256 := by
  refine ⟨fun p k k' hk hk' => ?_, h.held⟩
  have heq := (h.held p k hk).symm.trans (h.held p k' hk')
  exact Subtype.ext (Option.some.inj heq)

/-- In every run whose calls are all in order, each directory keeps its keys: all calls return
the same one, and it stays where the next call finds it. -/
theorem keys_are_stable_when_calls_are_in_order {s : Account} (hagree : Agree sha256 s)
    {acts : List (Call × Answers)}
    (horder : Along (World.step sha256) (fun w act => InOrder sha256 w.account act.1 act.2)
      { account := s, returned := [] } acts) :
    (run (World.step sha256) { account := s, returned := [] } acts).Stable sha256 := by
  have hstart : @World.Sound sha256 { account := s, returned := [] } :=
    ⟨hagree, fun p k hk => by cases hk⟩
  exact sound_stable (invariant (fun w act h ho => step_sound w act h ho) hstart horder)

end Names

/-! ## A laptop -/

def demo_sha256 (bytes : Bytes) : Bytes := (bytes ++ List.replicate 32 0).take 32

def key_of (n : UInt8) : Key := ⟨List.replicate 32 n, by simp⟩

/-- A keystore that answers and one that does not. -/
def up (fresh : UInt8) : Answers where
  plaintext := false
  load := true
  store := true
  delete := true
  write := true
  remove := true
  fresh := key_of fresh

def down (fresh : UInt8) : Answers := { up fresh with load := false, store := false, delete := false }

def nothing_yet : Account := { entries := ∅, files := ∅ }

theorem nothing_agrees : Agree demo_sha256 nothing_yet := by
  intro p raw e h
  cases h

theorem first_in_order : InOrder demo_sha256 nothing_yet (.store_key "/home/a") (down 1) where
  seen _ hhidden := hhidden.2.1 rfl
  alone raw h := by cases h
  reset dir h := by cases h

theorem second_in_order :
    InOrder demo_sha256 (outcome demo_sha256 (.store_key "/home/a") nothing_yet (down 1)).2
      (.store_key "/home/a") (up 2) where
  seen _ hhidden := by cases hhidden.1
  alone raw h q other hne _ hother := by
    have hfile : (outcome demo_sha256 (.store_key "/home/a") nothing_yet (down 1)).2.files.lookup q =
        if q = ⟨"/home/a", .store⟩ then some (key_of 1).val else none := lookup_insert_if _ _ _ _
    have hnone := hfile.trans (if_neg hne)
    rw [hnone] at hother
    cases hother
  reset dir h := by cases h

/-- A key that was written to the file while the keystore was down moves into it, and stays. -/
theorem a_file_key_moves :
    (run (World.step demo_sha256) { account := nothing_yet, returned := [] }
      [(.store_key "/home/a", down 1), (.store_key "/home/a", up 2)]).Stable demo_sha256 :=
  keys_are_stable_when_calls_are_in_order nothing_agrees ⟨first_in_order, second_in_order, trivial⟩

/-- One load that fails makes a new database key over the stored one, and a second directory
of the user takes over the key of the first. -/
theorem keys_of_a_directory_change :
    ¬ (run (World.step demo_sha256) { account := nothing_yet, returned := [] }
      [(.store_key "/home/a", up 1), (.store_key "/home/a", down 2)]).Stable demo_sha256 ∧
    ¬ (run (World.step demo_sha256) { account := nothing_yet, returned := [] }
      [(.store_key "/home/a", down 1), (.store_key "/home/b", up 2), (.store_key "/home/a", up 3)]).Stable
        demo_sha256 := by
  constructor
  · rintro ⟨hsame, -⟩
    have h := hsame ⟨"/home/a", .store⟩ (key_of 1) (key_of 2) (by decide) (by decide)
    exact absurd h (by decide)
  · rintro ⟨hsame, -⟩
    have h := hsame ⟨"/home/a", .store⟩ (key_of 1) (key_of 2) (by decide) (by decide)
    exact absurd h (by decide)

end pai_identity.keystore
