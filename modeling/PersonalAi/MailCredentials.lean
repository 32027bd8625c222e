-- The secrets of mail accounts (connectors/email imap.rs, oauth.rs): passwords and refresh tokens in the
-- keystore of the system, and the gate in front of the SMTP host that they are sent to.
import PersonalAi.Lib.Keyring
import PersonalAi.Lib.Runs
import PersonalAi.LocalTargets

open text pai_core hosts keyring

namespace pai_connector_email

/-! ## Keys -/

inductive Kind
  | password
  | refresh_token
deriving DecidableEq

def Kind.text : Kind → String
  | .password => "email:"
  | .refresh_token => "email-oauth:"

/-- A host as the keys have it. -/
def scope (host : String) : String := String.ofList ((trim host.toList).map Char.toLower)

def scoped_key (kind : Kind) (user host : String) : String := kind.text ++ user ++ "@" ++ scope host

def password_key (user host : String) : String := scoped_key .password user host

def oauth_key (user host : String) : String := scoped_key .refresh_token user host

/-- The key that a version without hosts wrote. -/
def legacy_key (kind : Kind) (user : String) : String := kind.text ++ user

/-- Who an entry was stored for: an account, or a user without a host. -/
inductive Owner
  | account (kind : Kind) (user host : String)
  | legacy (kind : Kind) (user : String)
deriving DecidableEq

def Owner.key : Owner → String
  | .account kind user host => kind.text ++ user ++ "@" ++ host
  | .legacy kind user => legacy_key kind user

abbrev Keystore := Ring Owner String Bytes

def account (kind : Kind) (user host : String) : Owner := .account kind user (scope host)

/-! ## The keystore -/

/-- What a call finds: which operations of the keystore work, and the password in the environment. -/
structure Call where
  loads : Bool
  stores : Bool
  deletes : Bool
  env_password : Option String

namespace Call
variable (c : Call) (ks : Keystore)

def load (name : String) : Option (Entry Owner Bytes) := if c.loads then ks.lookup name else none

def store (name : String) (e : Entry Owner Bytes) : Bool × Keystore :=
  if c.stores then (true, ks.insert name e) else (false, ks)

def delete (name : String) : Keystore := if c.deletes then ks.erase name else ks

end Call

/-- A secret that is text. -/
def entry_text (e : Entry Owner Bytes) : Option String := (from_utf8 e.secret).map String.ofList

/-! ## Passwords and tokens -/

section Secrets
variable (c : Call) (ks : Keystore) (user host : String)

/-- An account's secret is stored, and then the entry of its user without a host goes. -/
def store_secret (kind : Kind) (secret : Bytes) : Bool × Keystore :=
  let (ok, ks) := c.store ks (scoped_key kind user host) ⟨account kind user host, secret⟩
  (ok, if ok then c.delete ks (legacy_key kind user) else ks)

def store_password (password : String) : Bool × Keystore :=
  store_secret c ks user host .password (utf8 password)

def store_refresh_token (refresh_token : String) : Bool × Keystore :=
  store_secret c ks user host .refresh_token (utf8 refresh_token)

/-- An entry without a host moves to this one on its first read. -/
def migrate (kind : Kind) (e : Entry Owner Bytes) : Keystore :=
  (store_secret c ks user host kind e.secret).2

/-- What comes back: a secret, and who it was stored for if it is out of the keystore. -/
abbrev Found := Except Error (String × Option Owner)

def corrupt_password : Found := .error (.InvalidInput "corrupt email password")

def resolve_password : Found × Keystore :=
  match c.env_password.filter (· ≠ "") with
  | some p => (.ok (p, none), ks)
  | none =>
    match c.load ks (password_key user host) with
    | some e =>
      match entry_text e with
      | some pw => (.ok (pw, some e.owner), ks)
      | none => (corrupt_password, ks)
    | none =>
      match c.load ks (legacy_key .password user) with
      | some e =>
        match entry_text e with
        | some pw => (.ok (pw, some e.owner), migrate c ks user host .password e)
        | none => (corrupt_password, ks)
      | none =>
        (.error (.InvalidInput
          "no email password — set PAI_EMAIL_PASSWORD or run `pai email configure`"), ks)

/-- What the token endpoint answers: an access token, and maybe a new refresh token. -/
abbrev Grant := String → Except Error (String × Option String)

/-- The refresh token that is in the keystore, which is migrated on the way. -/
def stored_token : Option (Entry Owner Bytes) × Keystore :=
  match c.load ks (oauth_key user host) with
  | some e => (some e, ks)
  | none =>
    match c.load ks (legacy_key .refresh_token user) with
    | some e => (some e, migrate c ks user host .refresh_token e)
    | none => (none, ks)

/-- A new token that is stored in the place of the old one. -/
def rotated (grant : Grant) (refresh : String) : Option String :=
  match grant refresh with
  | .ok (_, r) => r.filter fun r => r ≠ "" && r ≠ refresh
  | .error _ => none

def access_token (grant : Grant) : Found × Keystore :=
  let (stored, ks) := stored_token c ks user host
  match stored.bind fun e => (entry_text e).map fun refresh => (e, refresh) with
  | none =>
    (.error (.InvalidInput
      "no oauth refresh token — run `pai email configure --oauth <provider>`"), ks)
  | some (e, refresh) =>
    match grant refresh with
    | .error err => (.error err, ks)
    | .ok (access, _) =>
      (.ok (access, some e.owner),
        match rotated grant refresh with
        | some r => (store_refresh_token c ks user host r).2
        | none => ks)

/-- `resolve_auth_for`: an OAuth block wins over the password. -/
def resolve_auth_for (oauth : Option Grant) : Found × Keystore :=
  match oauth with
  | some grant => access_token c ks user host grant
  | none => resolve_password c ks user host

end Secrets

/-! ## Sending -/

/-- `rsplitn(3, '.')`, of which the first two pieces are taken. -/
def last_two (h : List Char) : Option (List Char × List Char) :=
  match (h.splitOn '.').reverse with
  | tld :: sld :: _ => some (sld, tld)
  | _ => none

def same_site (a b : String) : Bool :=
  scope a = scope b ||
    match last_two (scope a).toList, last_two (scope b).toList with
    | some x, some y => x = y
    | _, _ => false

/-- An account with its submission server. -/
structure Account where
  host : String
  user : String
  smtp_host : String
  smtp_user : Option String
  oauth : Option Grant

def gate (a : Account) : Bool := same_site a.host a.smtp_host || host_is_local a.smtp_host.toList

/-- `ImapProvider::send` up to the session: the host that gets the secret of the account. -/
def send (c : Call) (ks : Keystore) (a : Account) : Except Error (String × Option Owner) × Keystore :=
  if gate a then resolve_auth_for c ks (a.smtp_user.getD a.user) a.host a.oauth
  else
    (.error (.PermissionDenied ("smtp host " ++ a.smtp_host ++ " is outside account domain " ++
      a.host ++ " — refusing to send account credentials there; edit email.json if this relay is " ++
      "intended")), ks)

/-! ## Runs -/

inductive Act
  | store_password (user host password : String)
  | store_refresh_token (user host refresh_token : String)
  | resolve_password (user host : String)
  | access_token (user host : String) (grant : Grant)
  | send (a : Account)

/-- What an act does: to the keystore, the secret that comes of it, and the host that the secret goes
to. -/
structure Effect where
  ks : Keystore
  found : Found
  sent_to : Option (String × String)

def effect (ks : Keystore) : Call × Act → Effect
  | (c, .store_password user host password) =>
    ⟨(store_password c ks user host password).2, .ok ("", none), none⟩
  | (c, .store_refresh_token user host refresh_token) =>
    ⟨(store_refresh_token c ks user host refresh_token).2, .ok ("", none), none⟩
  | (c, .resolve_password user host) =>
    let r := resolve_password c ks user host
    ⟨r.2, r.1, none⟩
  | (c, .access_token user host grant) =>
    let r := access_token c ks user host grant
    ⟨r.2, r.1, none⟩
  | (c, .send a) =>
    let r := send c ks a
    ⟨r.2, r.1, if r.1.toOption.isSome then some (a.host, a.smtp_host) else none⟩

def step (ks : Keystore) (act : Call × Act) : Keystore := (effect ks act).ks

/-- The entries that an act may read and change: those of its account. -/
def Act.owners : Act → List Owner
  | .store_password user host _ => [account .password user host, .legacy .password user]
  | .store_refresh_token user host _ =>
    [account .refresh_token user host, .legacy .refresh_token user]
  | .resolve_password user host => [account .password user host, .legacy .password user]
  | .access_token user host _ => [account .refresh_token user host, .legacy .refresh_token user]
  | .send a =>
    let kind := if a.oauth.isSome then .refresh_token else .password
    let user := a.smtp_user.getD a.user
    [account kind user a.host, .legacy kind user]

/-! ## What is wanted -/

section Domains
variable (public_suffix : List (List Char) → Bool)

/-- The labels of a name, from its end. -/
def labels (h : List Char) : List (List Char) := (h.splitOn '.').reverse

/-- How many labels the longest public suffix of a name has. Every top-level domain is one. -/
def suffix_length (ls : List (List Char)) : Nat :=
  max 1 (Nat.findGreatest (fun n => public_suffix (ls.take n) = true) ls.length)

/-- The registered domain of a name: its public suffix, and one label more. An address has none. -/
def registered_domain (h : List Char) : Option (List (List Char)) :=
  let ls := labels h
  let n := suffix_length public_suffix ls
  if parse_ip h = none ∧ n < ls.length then some (ls.take (n + 1)) else none

/-- An SMTP host that may get the secret of an account: a local one, the IMAP host, or a name below
the same registered domain. -/
def MayReceive (imap_host smtp_host : String) : Prop :=
  host_is_local smtp_host.toList = true ∨ scope imap_host = scope smtp_host ∨
    (registered_domain public_suffix (scope imap_host).toList ≠ none ∧
      registered_domain public_suffix (scope imap_host).toList =
        registered_domain public_suffix (scope smtp_host).toList)

/-- A secret that comes back was stored for the account that asks, no entry of another account
changes, and the secret goes to no host but one that may receive it. -/
def Safe (ks : Keystore) (act : Call × Act) : Prop :=
  (∀ r ∈ (effect ks act).found.toOption, ∀ o ∈ r.2, o ∈ act.2.owners) ∧
    Spares act.2.owners ks (step ks act) ∧
    ∀ hosts ∈ (effect ks act).sent_to, MayReceive public_suffix hosts.1 hosts.2

/-! ## When it holds -/

/-- Wherever more than one label of a name is a public suffix, the other agrees on one label more. -/
def AgreesBeyond (a b : List (List Char)) : Prop :=
  ∀ n, 2 ≤ n → n ≤ a.length → public_suffix (a.take n) = true →
    n < a.length ∧ n < b.length ∧ a.take (n + 1) = b.take (n + 1)

/-- Two names for which the last two labels decide. -/
def TwoDecide (a b : List Char) : Prop :=
  parse_ip a = none ∧ parse_ip b = none ∧ AgreesBeyond public_suffix (labels a) (labels b) ∧
    AgreesBeyond public_suffix (labels b) (labels a)

/-- No other account that has an entry has the key of the account that stores, or of its user. -/
def StoreClear (c : Call) (ks : Keystore) (kind : Kind) (user host : String) : Prop :=
  c.stores = true →
    Apart Owner.key ks (account kind user host) ∧ Apart Owner.key ks (.legacy kind user)

/-- None has the key of the account that reads, nor, where there is no entry under it, that of its
user. -/
def PasswordClear (c : Call) (ks : Keystore) (user host : String) : Prop :=
  c.loads = true → c.env_password.filter (· ≠ "") = none →
    Apart Owner.key ks (account .password user host) ∧
      (ks.lookup (password_key user host) = none → Apart Owner.key ks (.legacy .password user))

/-- The same for a token, where a new one may be stored in its place. -/
def TokenClear (c : Call) (ks : Keystore) (user host : String) (grant : Grant) : Prop :=
  c.loads = true →
    Apart Owner.key ks (account .refresh_token user host) ∧
      ((∀ e ∈ ks.lookup (oauth_key user host),
          ∃ refresh ∈ entry_text e, rotated grant refresh ≠ none) →
        Apart Owner.key ks (.legacy .refresh_token user))

/-- An account that sends to a host of its site, where the names are different. -/
def SendClear (c : Call) (ks : Keystore) (a : Account) : Prop :=
  (same_site a.host a.smtp_host = true → scope a.host ≠ scope a.smtp_host →
      host_is_local a.smtp_host.toList = false →
      TwoDecide public_suffix (scope a.host).toList (scope a.smtp_host).toList) ∧
    (gate a = true →
      match a.oauth with
      | some grant => TokenClear c ks (a.smtp_user.getD a.user) a.host grant
      | none => PasswordClear c ks (a.smtp_user.getD a.user) a.host)

def Clear (ks : Keystore) : Call × Act → Prop
  | (c, .store_password user host _) => StoreClear c ks .password user host
  | (c, .store_refresh_token user host _) => StoreClear c ks .refresh_token user host
  | (c, .resolve_password user host) => PasswordClear c ks user host
  | (c, .access_token user host grant) => TokenClear c ks user host grant
  | (c, .send a) => SendClear public_suffix c ks a

end Domains

/-! ## Sites -/

section Sites
variable {public_suffix : List (List Char) → Bool} {a b : List (List Char)}

theorem suffix_length_pos (ls : List (List Char)) : 1 ≤ suffix_length public_suffix ls :=
  Nat.le_max_left ..

theorem le_suffix_length {n : Nat} (hn : n ≤ a.length) (h : public_suffix (a.take n) = true) :
    n ≤ suffix_length public_suffix a :=
  (Nat.le_findGreatest hn h).trans (Nat.le_max_right ..)

/-- More than one label is a public suffix. -/
theorem suffix_length_spec (h : 2 ≤ suffix_length public_suffix a) :
    suffix_length public_suffix a ≤ a.length ∧
      public_suffix (a.take (suffix_length public_suffix a)) = true := by
  have hg : suffix_length public_suffix a =
      Nat.findGreatest (fun n => public_suffix (a.take n) = true) a.length := by
    unfold suffix_length at h ⊢
    omega
  rw [hg] at h ⊢
  have hne : Nat.findGreatest (fun n => public_suffix (a.take n) = true) a.length ≠ 0 := by omega
  exact ⟨Nat.findGreatest_le _, Nat.findGreatest_of_ne_zero rfl hne⟩

/-- Where the suffixes of one name are followed by what the other has there, its longest suffix is
one of the other. -/
theorem AgreesBeyond.le (h : AgreesBeyond public_suffix a b) :
    suffix_length public_suffix a ≤ suffix_length public_suffix b := by
  by_cases h2 : 2 ≤ suffix_length public_suffix a
  · obtain ⟨hle, hpublic⟩ := suffix_length_spec h2
    obtain ⟨-, hb, htake⟩ := h _ h2 hle hpublic
    refine le_suffix_length hb.le ?_
    have := congrArg (List.take (suffix_length public_suffix a)) htake
    rw [List.take_take, List.take_take, min_eq_left (Nat.le_succ _)] at this
    rwa [← this]
  · have := @suffix_length_pos public_suffix b
    omega

/-- What two names share behind their longest suffix they share behind each of their suffixes. -/
theorem agrees_of_take {n : Nat} (hn : n = suffix_length public_suffix a) (ha : n < a.length)
    (hb : n < b.length) (htake : a.take (n + 1) = b.take (n + 1)) :
    AgreesBeyond public_suffix a b := by
  intro m _ hm hpublic
  have hmn : m ≤ n := hn ▸ le_suffix_length hm hpublic
  refine ⟨by omega, by omega, ?_⟩
  have := congrArg (List.take (m + 1)) htake
  rwa [List.take_take, List.take_take, min_eq_left (by omega)] at this

/-- Two names that share their last two labels are below one registered domain just when no longer
suffix tells them apart. -/
theorem agrees_iff (hla : 2 ≤ a.length) (hlb : 2 ≤ b.length) (htwo : a.take 2 = b.take 2) :
    (AgreesBeyond public_suffix a b ∧ AgreesBeyond public_suffix b a) ↔
      (suffix_length public_suffix a < a.length ∧ suffix_length public_suffix b < b.length ∧
        a.take (suffix_length public_suffix a + 1) =
          b.take (suffix_length public_suffix b + 1)) := by
  constructor
  · rintro ⟨hab, hba⟩
    have heq : suffix_length public_suffix a = suffix_length public_suffix b :=
      le_antisymm hab.le hba.le
    rw [← heq]
    by_cases h2 : 2 ≤ suffix_length public_suffix a
    · obtain ⟨hle, hpublic⟩ := suffix_length_spec h2
      exact hab _ h2 hle hpublic
    · have hone : suffix_length public_suffix a = 1 := by
        have := @suffix_length_pos public_suffix a
        omega
      rw [hone]
      exact ⟨hla, hlb, htwo⟩
  · rintro ⟨ha, hb, htake⟩
    have heq : suffix_length public_suffix a = suffix_length public_suffix b := by
      have := congrArg List.length htake
      rw [List.length_take, List.length_take] at this
      omega
    rw [heq] at htake ha
    exact ⟨agrees_of_take heq.symm ha hb htake, agrees_of_take rfl hb ha htake.symm⟩

/-- The last two pieces of a name are its last two labels. -/
theorem last_two_eq {h sld tld : List Char} (htwo : last_two h = some (sld, tld)) :
    2 ≤ (labels h).length ∧ (labels h).take 2 = [tld, sld] := by
  unfold last_two at htwo
  unfold labels
  split at htwo
  · rename_i t s rest heq
    cases htwo
    rw [heq]
    exact ⟨by simp, rfl⟩
  · cases htwo

theorem registered_domain_eq_some {h : List Char} {d : List (List Char)} :
    registered_domain public_suffix h = some d ↔
      parse_ip h = none ∧ suffix_length public_suffix (labels h) < (labels h).length ∧
        (labels h).take (suffix_length public_suffix (labels h) + 1) = d := by
  unfold registered_domain
  by_cases hip : parse_ip h = none ∧ suffix_length public_suffix (labels h) < (labels h).length
  · rw [if_pos hip, Option.some.injEq]
    exact ⟨fun hd => ⟨hip.1, hip.2, hd⟩, fun hd => hd.2.2⟩
  · rw [if_neg hip]
    exact ⟨fun hd => (nomatch hd), fun hd => absurd ⟨hd.1, hd.2.1⟩ hip⟩

/-- Two hosts of one site with different names: they are below one registered domain just when their
last two labels decide. -/
theorem two_decide_iff {imap_host smtp_host : String} (hsite : same_site imap_host smtp_host = true)
    (hne : scope imap_host ≠ scope smtp_host) :
    TwoDecide public_suffix (scope imap_host).toList (scope smtp_host).toList ↔
      (registered_domain public_suffix (scope imap_host).toList ≠ none ∧
        registered_domain public_suffix (scope imap_host).toList =
          registered_domain public_suffix (scope smtp_host).toList) := by
  obtain ⟨⟨sld, tld⟩, hx, hy⟩ : ∃ x, last_two (scope imap_host).toList = some x ∧
      last_two (scope smtp_host).toList = some x := by
    rw [same_site, decide_eq_false hne, Bool.false_or] at hsite
    split at hsite
    · rename_i x y hx hy
      exact ⟨x, hx, by rw [hy, of_decide_eq_true hsite]⟩
    · cases hsite
  obtain ⟨hla, hta⟩ := last_two_eq hx
  obtain ⟨hlb, htb⟩ := last_two_eq hy
  have hagree := @agrees_iff public_suffix _ _ hla hlb (hta.trans htb.symm)
  constructor
  · rintro ⟨ha, hb, hab⟩
    obtain ⟨hla, hlb, htake⟩ := hagree.mp hab
    rw [registered_domain_eq_some.mpr ⟨ha, hla, rfl⟩, registered_domain_eq_some.mpr ⟨hb, hlb, rfl⟩,
      htake]
    exact ⟨nofun, rfl⟩
  · rintro ⟨hsome, heq⟩
    obtain ⟨d, hd⟩ := Option.ne_none_iff_exists'.mp hsome
    obtain ⟨ha, hla, htake⟩ := registered_domain_eq_some.mp hd
    obtain ⟨hb, hlb, htake'⟩ := registered_domain_eq_some.mp (heq ▸ hd)
    exact ⟨ha, hb, hagree.mpr ⟨hla, hlb, htake.trans htake'.symm⟩⟩

end Sites

/-! ## Storing -/

section Storing
variable {c : Call} {ks : Keystore} {kind : Kind} {user host : String}

/-- The key with a host is longer than the one without. -/
theorem legacy_ne_scoped (kind : Kind) (user host : String) :
    legacy_key kind user ≠ scoped_key kind user host := by
  intro h
  have hlen := congrArg (fun s => s.toList.length) h
  simp [legacy_key, scoped_key, String.toList_append] at hlen

/-- The keys of an account and its user hold nothing of another. -/
structure Holds (ks : Keystore) (kind : Kind) (user host : String) : Prop where
  own_host : Own ks (scoped_key kind user host) (account kind user host)
  own_user : Own ks (legacy_key kind user) (.legacy kind user)

theorem store_secret_keyed (h : Keyed Owner.key ks) (secret : Bytes) :
    Keyed Owner.key (store_secret c ks user host kind secret).2 := by
  have hput : Keyed Owner.key (ks.insert (scoped_key kind user host)
      ⟨account kind user host, secret⟩) := h.insert (account kind user host) secret
  unfold store_secret Call.store Call.delete
  by_cases hs : c.stores = true
  · by_cases hd : c.deletes = true
    · simpa [hs, hd] using hput.erase _
    · simpa [hs, hd] using hput
  · simpa [hs] using h

/-- A secret that is stored touches its own account only. -/
theorem store_secret_spares (h : c.stores = true → Holds ks kind user host) (secret : Bytes) :
    Spares [account kind user host, .legacy kind user] ks
      (store_secret c ks user host kind secret).2 := by
  unfold store_secret Call.store Call.delete
  by_cases hs : c.stores = true
  · have hput := Spares.insert (h hs).own_host (List.mem_cons_self (l := [.legacy kind user]))
      ⟨account kind user host, secret⟩
    by_cases hd : c.deletes = true
    · have hrest := (h hs).own_user.insert_ne (legacy_ne_scoped kind user host)
        ⟨account kind user host, secret⟩
      simpa [hs, hd] using hput.trans (hrest.spares (by simp))
    · simpa [hs, hd] using hput
  · simpa [hs] using Spares.refl _ ks

theorem store_secret_holds (h : Holds ks kind user host) (secret : Bytes) :
    Holds (store_secret c ks user host kind secret).2 kind user host := by
  have hput : Holds (ks.insert (scoped_key kind user host) ⟨account kind user host, secret⟩)
      kind user host :=
    ⟨.insert_self _ _, h.own_user.insert_ne (legacy_ne_scoped kind user host) _⟩
  unfold store_secret Call.store Call.delete
  by_cases hs : c.stores = true
  · by_cases hd : c.deletes = true
    · simpa [hs, hd] using (⟨hput.own_host.erase _, hput.own_user.erase _⟩ : Holds _ _ _ _)
    · simpa [hs, hd] using hput
  · simpa [hs] using h

end Storing

/-! ## Reading -/

section Reading
variable {c : Call} {ks ks' : Keystore} {kind : Kind} {user host : String} {os : List Owner}
  {found : Found}

/-- What comes of a read: the secret of one of these owners if any, and nothing of another has
changed. -/
structure Sound (os : List Owner) (ks : Keystore) (found : Found) (ks' : Keystore) : Prop where
  own : ∀ r ∈ found.toOption, ∀ o ∈ r.2, o ∈ os
  spares : Spares os ks ks'
  keyed : Keyed Owner.key ks'

theorem none_stored (secret : String) (os : List Owner) :
    ∀ r ∈ (Except.ok (secret, none) : Found).toOption, ∀ o ∈ r.2, o ∈ os := by
  intro r hr o ho
  obtain rfl : (secret, none) = r := Option.some.inj hr
  cases ho

theorem Sound.failed (hspares : Spares os ks ks') (hkeyed : Keyed Owner.key ks') (e : Error) :
    Sound os ks (.error e) ks' :=
  ⟨fun _ hr => (nomatch hr), hspares, hkeyed⟩

theorem Sound.of {o : Owner} (ho : o ∈ os) (hspares : Spares os ks ks')
    (hkeyed : Keyed Owner.key ks') (secret : String) : Sound os ks (.ok (secret, some o)) ks' := by
  refine ⟨fun r hr o' ho' => ?_, hspares, hkeyed⟩
  obtain rfl : (secret, some o) = r := Option.some.inj hr
  rwa [← Option.some.inj ho']

theorem load_eq_some {name : String} {e : Entry Owner Bytes} (h : c.load ks name = some e) :
    c.loads = true ∧ ks.lookup name = some e := by
  unfold Call.load at h
  split at h
  · exact ⟨by assumption, h⟩
  · cases h

/-- With nothing under the key of an account, there is nothing of another. -/
theorem holds_of_missing (hmissing : ks.lookup (scoped_key kind user host) = none)
    (hown : Own ks (legacy_key kind user) (.legacy kind user)) : Holds ks kind user host :=
  ⟨fun _ he => (nomatch hmissing.symm.trans he), hown⟩

theorem missing_of_load (hloads : c.loads = true) {name : String} (h : c.load ks name = none) :
    ks.lookup name = none := by
  rwa [Call.load, if_pos hloads] at h

theorem resolve_password_sound (hkeyed : Keyed Owner.key ks)
    (hclear : PasswordClear c ks user host) :
    Sound [account .password user host, .legacy .password user] ks
      (resolve_password c ks user host).1 (resolve_password c ks user host).2 := by
  have hsame := Spares.refl [account .password user host, .legacy .password user] ks
  unfold resolve_password
  split
  case h_1 p _ =>
    exact ⟨none_stored p _, hsame, hkeyed⟩
  case h_2 henv =>
    split
    case h_1 e he =>
      obtain ⟨hloads, hlookup⟩ := load_eq_some he
      have howner := (hclear hloads henv).1.own hkeyed e hlookup
      split
      · exact .of (by simp [howner]) hsame hkeyed _
      · exact .failed hsame hkeyed _
    case h_2 hno =>
      split
      case h_1 e he =>
        obtain ⟨hloads, hlookup⟩ := load_eq_some he
        have hmissing := missing_of_load hloads hno
        have hown := ((hclear hloads henv).2 hmissing).own hkeyed
        have howner := hown e hlookup
        split
        · exact .of (by simp [howner])
            (store_secret_spares (fun _ => holds_of_missing hmissing hown) _)
            (store_secret_keyed hkeyed _) _
        · exact .failed hsame hkeyed _
      case h_2 => exact .failed hsame hkeyed _

/-- What the refresh token that is used leaves: the keys of the account hold nothing of another
where a new token is stored. -/
structure TokenFound (ks : Keystore) (user host : String) (grant : Grant)
    (stored : Option (Entry Owner Bytes)) (ks' : Keystore) : Prop where
  own : ∀ e ∈ stored, e.owner ∈ [account .refresh_token user host, .legacy .refresh_token user]
  spares : Spares [account .refresh_token user host, .legacy .refresh_token user] ks ks'
  keyed : Keyed Owner.key ks'
  holds : ∀ e ∈ stored, ∀ refresh ∈ entry_text e, rotated grant refresh ≠ none →
    Holds ks' .refresh_token user host

theorem stored_token_found {grant : Grant} (hkeyed : Keyed Owner.key ks)
    (hclear : TokenClear c ks user host grant) :
    TokenFound ks user host grant (stored_token c ks user host).1
      (stored_token c ks user host).2 := by
  have hsame := Spares.refl [account .refresh_token user host, .legacy .refresh_token user] ks
  unfold stored_token
  split
  case h_1 e he =>
    obtain ⟨hloads, hlookup⟩ := load_eq_some he
    have hown := (hclear hloads).1.own hkeyed
    refine ⟨fun e' he' => ?_, hsame, hkeyed, fun e' he' refresh hrefresh hnew => ?_⟩
    · obtain rfl : e = e' := Option.some.inj he'
      simp [hown e hlookup]
    · obtain rfl : e = e' := Option.some.inj he'
      refine ⟨hown, ((hclear hloads).2 fun e' he' => ?_).own hkeyed⟩
      obtain rfl : e = e' := Option.some.inj (hlookup.symm.trans he')
      exact ⟨refresh, hrefresh, hnew⟩
  case h_2 hno =>
    split
    case h_1 e he =>
      obtain ⟨hloads, hlookup⟩ := load_eq_some he
      have hmissing := missing_of_load hloads hno
      have hown := ((hclear hloads).2 fun e' he' => (nomatch hmissing.symm.trans he')).own hkeyed
      have hholds := holds_of_missing hmissing hown
      refine ⟨fun e' he' => ?_, store_secret_spares (fun _ => hholds) _,
        store_secret_keyed hkeyed _, fun _ _ _ _ _ => store_secret_holds hholds _⟩
      obtain rfl : e = e' := Option.some.inj he'
      simp [hown e hlookup]
    case h_2 => exact ⟨fun _ he => (nomatch he), hsame, hkeyed, fun _ he => (nomatch he)⟩

theorem access_token_sound {grant : Grant} (hkeyed : Keyed Owner.key ks)
    (hclear : TokenClear c ks user host grant) :
    Sound [account .refresh_token user host, .legacy .refresh_token user] ks
      (access_token c ks user host grant).1 (access_token c ks user host grant).2 := by
  have hfound := stored_token_found hkeyed hclear
  unfold access_token
  generalize stored_token c ks user host = stored at hfound ⊢
  obtain ⟨stored, ks'⟩ := stored
  simp only
  split
  case h_1 => exact .failed hfound.spares hfound.keyed _
  case h_2 e refresh hstored =>
    obtain ⟨e', he', hmap⟩ := Option.bind_eq_some_iff.mp hstored
    obtain ⟨refresh', hrefresh, hpair⟩ := Option.map_eq_some_iff.mp hmap
    obtain ⟨rfl, rfl⟩ := Prod.mk.inj hpair
    split
    case h_1 => exact .failed hfound.spares hfound.keyed _
    case h_2 =>
      split
      case h_1 r hr =>
        -- The new token is stored after what the first read has done.
        have hholds := hfound.holds _ he' _ hrefresh (by rw [hr]; nofun)
        exact .of (hfound.own _ he')
          (hfound.spares.trans (store_secret_spares (fun _ => hholds) _))
          (store_secret_keyed hfound.keyed _) _
      case h_2 => exact .of (hfound.own _ he') hfound.spares hfound.keyed _

end Reading

/-! ## Runs -/

section Clear
variable {public_suffix : List (List Char) → Bool} {c : Call} {ks : Keystore}

theorem store_sound {kind : Kind} {user host : String} (hkeyed : Keyed Owner.key ks)
    (hclear : StoreClear c ks kind user host) (secret : Bytes) :
    Spares [account kind user host, .legacy kind user] ks
      (store_secret c ks user host kind secret).2 :=
  store_secret_spares (fun hs => ⟨(hclear hs).1.own hkeyed, (hclear hs).2.own hkeyed⟩) secret

/-- A host that the gate lets through may have the secret. -/
theorem may_receive_of_gate {a : Account}
    (hclear : same_site a.host a.smtp_host = true → scope a.host ≠ scope a.smtp_host →
      host_is_local a.smtp_host.toList = false →
      TwoDecide public_suffix (scope a.host).toList (scope a.smtp_host).toList)
    (hgate : gate a = true) : MayReceive public_suffix a.host a.smtp_host := by
  by_cases hlocal : host_is_local a.smtp_host.toList = true
  · exact .inl hlocal
  · by_cases hsame : scope a.host = scope a.smtp_host
    · exact .inr (.inl hsame)
    · have hsite : same_site a.host a.smtp_host = true := by
        rw [gate, Bool.or_eq_true] at hgate
        exact hgate.resolve_right hlocal
      have hdecide := hclear hsite hsame (by simpa using hlocal)
      exact .inr (.inr ((two_decide_iff hsite hsame).mp hdecide))

theorem send_sound {a : Account} (hkeyed : Keyed Owner.key ks)
    (hclear : SendClear public_suffix c ks a) :
    Sound (Act.send a).owners ks (send c ks a).1 (send c ks a).2 := by
  unfold send
  by_cases hgate : gate a = true
  · have hsecret := hclear.2 hgate
    rw [if_pos hgate]
    cases hoauth : a.oauth with
    | none =>
      rw [hoauth] at hsecret
      have howners : (Act.send a).owners = [account .password (a.smtp_user.getD a.user) a.host,
          .legacy .password (a.smtp_user.getD a.user)] := by simp [Act.owners, hoauth]
      rw [howners]
      exact resolve_password_sound hkeyed hsecret
    | some grant =>
      rw [hoauth] at hsecret
      have howners : (Act.send a).owners = [account .refresh_token (a.smtp_user.getD a.user) a.host,
          .legacy .refresh_token (a.smtp_user.getD a.user)] := by simp [Act.owners, hoauth]
      rw [howners]
      exact access_token_sound hkeyed hsecret
  · rw [if_neg hgate]
    exact .failed (.refl _ _) hkeyed _

theorem step_keyed (hkeyed : Keyed Owner.key ks) (act : Call × Act)
    (hclear : Clear public_suffix ks act) : Keyed Owner.key (step ks act) := by
  obtain ⟨c, act⟩ := act
  cases act with
  | store_password user host password => exact store_secret_keyed hkeyed _
  | store_refresh_token user host refresh_token => exact store_secret_keyed hkeyed _
  | resolve_password user host => exact (resolve_password_sound hkeyed hclear).keyed
  | access_token user host grant => exact (access_token_sound hkeyed hclear).keyed
  | send a =>
    simp only [step, effect]
    exact (send_sound hkeyed hclear).keyed

theorem safe_of_sound {act : Call × Act} {found : Found} {ks' : Keystore} {hosts : Option (String × String)}
    (heffect : effect ks act = ⟨ks', found, hosts⟩) (hsound : Sound act.2.owners ks found ks')
    (hmay : ∀ h ∈ hosts, MayReceive public_suffix h.1 h.2) : Safe public_suffix ks act := by
  rw [Safe, step, heffect]
  exact ⟨hsound.own, hsound.spares, hmay⟩

theorem gate_of_sent {a : Account} (hsent : (send c ks a).1.toOption.isSome = true) :
    gate a = true := by
  by_contra hgate
  rw [send, if_neg hgate] at hsent
  cases hsent

theorem step_safe (hkeyed : Keyed Owner.key ks) (act : Call × Act)
    (hclear : Clear public_suffix ks act) : Safe public_suffix ks act := by
  obtain ⟨c, act⟩ := act
  cases act with
  | store_password user host password =>
    exact ⟨none_stored "" _, store_sound hkeyed hclear _, fun _ hh => nomatch hh⟩
  | store_refresh_token user host refresh_token =>
    exact ⟨none_stored "" _, store_sound hkeyed hclear _, fun _ hh => nomatch hh⟩
  | resolve_password user host =>
    exact safe_of_sound rfl (resolve_password_sound hkeyed hclear) fun _ hh => nomatch hh
  | access_token user host grant =>
    exact safe_of_sound rfl (access_token_sound hkeyed hclear) fun _ hh => nomatch hh
  | send a =>
    refine safe_of_sound rfl (send_sound hkeyed hclear) fun hosts hsent => ?_
    obtain ⟨hsome, hhosts⟩ := Option.ite_none_right_eq_some.mp hsent
    rw [← Option.some.inj hhosts]
    exact may_receive_of_gate hclear.1 (gate_of_sent hsome)

/-- In every run in which no other account has the keys of the one that acts, and no SMTP host that
only ends like the IMAP host is an address or below another registered domain, each secret comes back
for its own account, no other account's goes, and it is sent to no host but one that may have it. -/
theorem secrets_stay {acts : List (Call × Act)} (hkeyed : Keyed Owner.key ks)
    (hruns : runs.Along step (Clear public_suffix) ks acts) :
    runs.Along step (Safe public_suffix) ks acts :=
  @runs.along_of_invariant _ _ step (Keyed Owner.key) _ _ (fun _ act hkeyed hclear => step_keyed hkeyed act hclear)
    (fun _ act hkeyed hclear => step_safe hkeyed act hclear) ks hkeyed acts hruns

end Clear

/-- A password for one account, which sends a mail with it. -/
def one_account : Account := ⟨"imap.example.org", "me", "smtp.example.org", none, none⟩

def works : Call := ⟨true, true, true, none⟩

/-- The only public suffix is `org`. -/
def org (ls : List (List Char)) : Bool := ls = ["org".toList]

theorem agrees_beyond_org (a b : List (List Char)) : AgreesBeyond org a b := by
  intro n hn hle horg
  have hlen := congrArg List.length (of_decide_eq_true horg)
  rw [List.length_take, min_eq_left hle] at hlen
  simp only [List.length_singleton] at hlen
  omega

theorem one_password_stays :
    runs.Along step (Safe org) ∅
      [(works, .store_password "me" "imap.example.org" "pw"), (works, .send one_account)] := by
  have hempty (o : Owner) : Apart Owner.key (∅ : Keystore) o :=
    fun _ _ he => (nomatch (AList.lookup_empty _).symm.trans he)
  have hstored : Apart Owner.key (step ∅ (works, .store_password "me" "imap.example.org" "pw"))
      (account .password "me" "imap.example.org") := by
    intro k e he _
    have he := (AList.lookup_erase_ne ?_).symm.trans he
    rw [table.lookup_insert_if] at he
    split at he
    · rw [← Option.some.inj he]
    · exact nomatch (AList.lookup_empty _).symm.trans he
    rintro rfl
    exact nomatch (AList.lookup_erase _ _).symm.trans he
  have hdecide : TwoDecide org (scope "imap.example.org").toList (scope "smtp.example.org").toList :=
    ⟨by decide, by decide, agrees_beyond_org _ _, agrees_beyond_org _ _⟩
  have hsecret : PasswordClear works
      (step ∅ (works, .store_password "me" "imap.example.org" "pw")) "me" "imap.example.org" :=
    fun _ _ => ⟨hstored, fun hno => absurd hno (by decide)⟩
  have hsend : Clear org (step ∅ (works, .store_password "me" "imap.example.org" "pw"))
      (works, .send one_account) := ⟨fun _ _ _ => hdecide, fun _ => hsecret⟩
  have hstore : Clear org ∅ (works, .store_password "me" "imap.example.org" "pw") :=
    fun _ => ⟨hempty _, hempty _⟩
  exact secrets_stay (fun _ _ he => (nomatch (AList.lookup_empty _).symm.trans he))
    ⟨hstore, hsend, trivial⟩

/-- A user's name may be the address of another account, and an address may end like another. -/
theorem an_address_for_a_user :
    (¬ ∀ (public_suffix : List (List Char) → Bool) (ks : Keystore) (acts : List (Call × Act)),
      Keyed Owner.key ks → runs.Along step (Safe public_suffix) ks acts) ∧
    gate ⟨"10.1.2.3", "me", "8.8.2.3", none, none⟩ = true ∧
      ∀ public_suffix, ¬ MayReceive public_suffix "10.1.2.3" "8.8.2.3" := by
  have hgate : gate ⟨"10.1.2.3", "me", "8.8.2.3", none, none⟩ = true := by decide +kernel
  refine ⟨fun h => ?_, hgate, fun public_suffix h => ?_⟩
  · have hsafe := h (fun _ => false) ∅ [(works, .store_password "me" "gmail.com" "pw"),
      (works, .resolve_password "me@gmail.com" "imap.org")]
      (fun _ _ he => (nomatch (AList.lookup_empty _).symm.trans he))
    have hfound : (effect (step ∅ (works, .store_password "me" "gmail.com" "pw"))
          (works, .resolve_password "me@gmail.com" "imap.org")).found.toOption =
        some ("pw", some (account .password "me" "gmail.com")) := by decide +kernel
    exact absurd (hsafe.2.1.1 _ hfound _ rfl) (by decide +kernel)
  · obtain hlocal | hsame | ⟨hsome, -⟩ := h
    · exact absurd hlocal (by decide +kernel)
    · exact absurd hsame (by decide)
    · obtain ⟨d, hd⟩ := Option.ne_none_iff_exists'.mp hsome
      exact absurd (registered_domain_eq_some.mp hd).1 (by decide)

end pai_connector_email
