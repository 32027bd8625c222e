-- The gate of outbound targets: which hosts count as this machine or its network, and whether
-- the client connects to the host that the gate has seen.
import PersonalAi.Core
import PersonalAi.Lib.Hosts

open text hosts

namespace pai_core

/-! ## The source -/

def is_bracket (c : Char) : Bool := c == '[' || c == ']'

def trim_brackets (cs : List Char) : List Char := (cs.dropWhile is_bracket).rdropWhile is_bracket

def ends_with (cs : List Char) (suffix : String) : Bool := suffix.toList.isSuffixOf cs

def ipv4_is_local (v4 : Ipv4Addr) : Bool :=
  v4.is_loopback || v4.is_private || v4.is_link_local || v4.is_unspecified ||
    (v4.a == 100 && v4.b &&& 0xC0 == 64)

def ipv6_is_local (v6 : Ipv6Addr) : Bool :=
  v6.is_loopback || v6.is_unicast_link_local || v6.is_unspecified || v6.first &&& 0xfe00 == 0xfc00

def host_is_local (host : List Char) : Bool :=
  let h := (trim_brackets (trim host)).map Char.toLower
  if (h = [] ∨ ':' ∈ h) ∧ parse_ip h = none ∧ ':' ∈ h then false
  else if h = "localhost".toList ∨ ends_with h ".localhost" ∨ ends_with h ".local" ∨
      ends_with h ".local-user.devices" ∨ ('.' ∉ h ∧ ':' ∉ h) then true
  else
    match parse_ip h with
    | some (.V4 v4) => ipv4_is_local v4
    | some (.V6 v6) => ipv6_is_local v6
    | none => false

def scheme_end : List Char := "://".toList

/-- `s.split("://").nth(1)`, or the text itself. -/
def behind_scheme (s : List Char) : List Char :=
  match split_once_str scheme_end s with
  | none => s
  | some (_, rest) =>
    match split_once_str scheme_end rest with
    | none => rest
    | some (second, _) => second

def ends_auth (c : Char) : Bool := c == '/' || c == '?' || c == '#'

def url_host (u : List Char) : Option (List Char) :=
  let s := trim u
  if s = [] then none
  else
    let auth_path := (behind_scheme s).takeWhile (fun c => !ends_auth c)
    let hostport := (auth_path.reverse.takeWhile (· != '@')).reverse
    if hostport.head? = some '[' then (split_once ']' hostport).map (fun p => p.1.drop 1)
    else some (hostport.takeWhile (· != ':'))

def require_local_or_flag (url : String) (allow_remote : Bool) (what : String) :
    Except Error Unit :=
  match split_once_str scheme_end (trim url.toList) with
  | some (scheme, _) =>
    if scheme ≠ "http".toList ∧ scheme ≠ "https".toList then
      .error (.InvalidInput (what ++ ": scheme '" ++ String.ofList scheme ++
        "://' not allowed (http/https only)"))
    else gate
  | none => gate
where
  gate : Except Error Unit :=
    match url_host url.toList with
    | none => .error (.InvalidInput (what ++ ": can't parse a host from '" ++ url ++ "'"))
    | some host =>
      if host_is_local host || allow_remote then .ok ()
      else
        .error (.InvalidInput (what ++ ": '" ++ String.ofList host ++
          "' is a public address — pass allow_remote:true to reach it (traffic will leave this " ++
          "device)"))

/-! ## Where the client is to connect -/

/-- An address of this machine, of its network, or no address in particular; a name below the local
domains or below the domain of the device names; or a name of one label. -/
def Near : Host → Prop
  | .domain name => ends_with name ".localhost" = true ∨ ends_with name ".local" = true ∨
      ends_with name ".local-user.devices" = true ∨ ('.' ∉ name ∧ ends_in_number name = false)
  | .ipv4 addr => ipv4_is_local addr = true
  | .ipv6 addr => ipv6_is_local addr = true

/-- The hosts that are private in the usual sense: no address that is none, and no device names. -/
def Listed : Host → Prop
  | .domain name => ends_with name ".localhost" = true ∨ ends_with name ".local" = true ∨
      ('.' ∉ name ∧ ends_in_number name = false)
  | .ipv4 v4 => v4.is_loopback = true ∨ v4.is_private = true ∨ v4.is_link_local = true ∨
      (v4.a = 100 ∧ v4.b &&& 0xC0 = 64)
  | .ipv6 v6 => v6.is_loopback = true ∨ v6.is_unicast_link_local = true ∨
      v6.first &&& 0xfe00 = 0xfc00

/-- What an authority names: what is behind the user and before the port. -/
def named (auth : List Char) : List Char := (behind_at auth).takeWhile (· != ':')

/-- The URL is spelled out with its scheme and two slashes, without a backslash before its path; no
blank or control character is in the host or behind it, and a host of one label is plain text and
no number. -/
structure Spelled (url rest : List Char) : Prop where
  scheme : ∃ scheme, split_once_str scheme_end (trim url) = some (scheme, rest)
  slash : rest.head? ≠ some '/'
  backslash : '\\' ∉ rest.takeWhile (fun c => !ends_auth c)
  host : ∀ c ∈ behind_at (rest.takeWhile (fun c => !ends_auth c)),
    32 < c.toNat ∧ is_whitespace c = false
  behind : (∃ c ∈ rest, ends_auth c = true) ∨
    ∀ c ∈ url.rtakeWhile is_whitespace, is_c0_or_space c = true
  plain : (∀ c ∈ behind_at (rest.takeWhile (fun c => !ends_auth c)), is_plain c = true) ∨
    ('.' ∈ named (rest.takeWhile (fun c => !ends_auth c)) ∧
      ∀ c ∈ named (rest.takeWhile (fun c => !ends_auth c)), is_bracket c = false)
  number : '.' ∉ named (rest.takeWhile (fun c => !ends_auth c)) →
    ends_in_number ((named (rest.takeWhile (fun c => !ends_auth c))).map Char.toLower) = false

/-! ## What the gate has seen -/

section Seen
variable {url rest : List Char}

/-- The text between two `://` ends in the same host: only a colon is cut from behind it. -/
theorem cut_again (rest : List Char) : ∃ second,
    (match split_once_str scheme_end rest with
      | none => rest
      | some (second, _) => second) = second ∧
    (behind_at (rest.takeWhile (fun c => !ends_auth c)) =
        behind_at (second.takeWhile (fun c => !ends_auth c)) ∨
      behind_at (rest.takeWhile (fun c => !ends_auth c)) =
        behind_at (second.takeWhile (fun c => !ends_auth c)) ++ [':']) := by
  rcases hsplit : split_once_str scheme_end rest with _ | ⟨second, more⟩
  · exact ⟨rest, rfl, .inl rfl⟩
  refine ⟨second, rfl, ?_⟩
  obtain ⟨-, heq⟩ := split_once_str_append hsplit []
  have htake : rest.takeWhile (fun c => !ends_auth c) =
      second.takeWhile (fun c => !ends_auth c) ∨
      rest.takeWhile (fun c => !ends_auth c) = second.takeWhile (fun c => !ends_auth c) ++ [':'] := by
    rw [heq, List.append_assoc, List.takeWhile_append]
    by_cases hall : (second.takeWhile (fun c => !ends_auth c)).length = second.length
    · right
      have hself := (List.takeWhile_prefix (fun c => !ends_auth c)).eq_of_length hall
      rw [if_pos hall, hself]
      rfl
    · left
      rw [if_neg hall]
  rcases htake with htake | htake
  · exact .inl (by rw [htake])
  · right
    rw [htake]
    unfold behind_at
    rw [List.reverse_append, List.reverse_singleton, List.singleton_append,
      List.takeWhile_cons_of_pos (by decide), List.reverse_cons]

/-- The gate has passed the host that it cut from the authority: the text between the first
brackets, or what is before the first colon. -/
theorem gate_passed {url : String} {what : String} {rest : List Char}
    (hscheme : ∃ scheme, split_once_str scheme_end (trim url.toList) = some (scheme, rest))
    (h : require_local_or_flag url false what = .ok ()) :
    (∃ scheme, (scheme = "http".toList ∨ scheme = "https".toList) ∧
      trim url.toList = scheme ++ "://".toList ++ rest) ∧
    ∃ host, host_is_local host = true ∧
      ((∃ more, behind_at (rest.takeWhile (fun c => !ends_auth c)) = '[' :: (host ++ ']' :: more) ∧
          ']' ∉ host) ∨
        (behind_at (rest.takeWhile (fun c => !ends_auth c))).head? ≠ some '[' ∧
          host = (behind_at (rest.takeWhile (fun c => !ends_auth c))).takeWhile (· != ':')) := by
  obtain ⟨scheme, hsplit⟩ := hscheme
  obtain ⟨-, htrim⟩ := split_once_str_append hsplit []
  unfold require_local_or_flag at h
  rw [hsplit] at h
  dsimp only at h
  split at h
  · cases h
  rename_i hhttp
  have hhttp : scheme = "http".toList ∨ scheme = "https".toList := by
    by_contra hno
    rw [not_or] at hno
    exact hhttp hno
  refine ⟨⟨scheme, hhttp, htrim⟩, ?_⟩
  unfold require_local_or_flag.gate at h
  split at h
  · cases h
  rename_i host hhost
  split at h
  · rename_i hlocal
    rw [Bool.or_false] at hlocal
    refine ⟨host, hlocal, ?_⟩
    have hne : trim url.toList ≠ [] := by
      rw [htrim]
      simp [scheme_end]
    obtain ⟨second, hsecond, hcut⟩ := cut_again rest
    have hbehind : behind_scheme (trim url.toList) = second := by
      unfold behind_scheme
      rw [hsplit]
      exact hsecond
    unfold url_host at hhost
    rw [if_neg hne, hbehind] at hhost
    change (if (behind_at (second.takeWhile (fun c => !ends_auth c))).head? = some '[' then
      (split_once ']' (behind_at (second.takeWhile (fun c => !ends_auth c)))).map (fun p => p.1.drop 1)
      else some ((behind_at (second.takeWhile (fun c => !ends_auth c))).takeWhile (· != ':'))) =
      some host at hhost
    generalize behind_at (second.takeWhile (fun c => !ends_auth c)) = seen at hcut hhost
    generalize behind_at (rest.takeWhile (fun c => !ends_auth c)) = whole at hcut ⊢
    obtain ⟨colon, hwhole, hcolon⟩ : ∃ colon : List Char, whole = seen ++ colon ∧
        (colon = [] ∨ colon = [':']) := by
      rcases hcut with hcut | hcut
      · exact ⟨[], by simpa using hcut, .inl rfl⟩
      · exact ⟨[':'], hcut, .inr rfl⟩
    split at hhost
    · rename_i hopen
      left
      obtain ⟨⟨before, more⟩, hsplit', rfl⟩ := Option.map_eq_some_iff.mp hhost
      obtain ⟨heq, hfree⟩ := split_once_spec hsplit'
      cases before with
      | nil =>
        rw [heq] at hopen
        cases hopen
      | cons x xs =>
        rw [heq] at hopen
        cases hopen
        refine ⟨more ++ colon, ?_, fun hmem => hfree (List.mem_cons_of_mem _ hmem)⟩
        rw [hwhole, heq]
        simp
    · rename_i hopen
      right
      cases hhost
      rcases hcolon with rfl | rfl
      · rw [List.append_nil] at hwhole
        rw [hwhole]
        exact ⟨hopen, rfl⟩
      · rw [hwhole]
        constructor
        · cases seen with
          | nil => simp
          | cons x xs => simpa using hopen
        · rw [List.takeWhile_append]
          split
          · rename_i hall
            have hself := (List.takeWhile_prefix (fun c => c != ':')).eq_of_length hall
            rw [hself]
            simp
          · rfl
  · cases h

end Seen

/-! ## What the gate takes for near -/

section Local
variable {host : List Char}

theorem local_cases {h : List Char} (hh : (trim_brackets (trim host)).map Char.toLower = h)
    (hlocal : host_is_local host = true) :
    (h = "localhost".toList ∨ ends_with h ".localhost" = true ∨ ends_with h ".local" = true ∨
        ends_with h ".local-user.devices" = true ∨ ('.' ∉ h ∧ ':' ∉ h)) ∨
      (∃ v4, parse_ip h = some (.V4 v4) ∧ ipv4_is_local v4 = true) ∨
      ∃ v6, parse_ip h = some (.V6 v6) ∧ ipv6_is_local v6 = true := by
  unfold host_is_local at hlocal
  dsimp only at hlocal
  rw [hh] at hlocal
  split at hlocal
  · cases hlocal
  · split at hlocal
    · rename_i hnames
      exact .inl hnames
    · split at hlocal
      · rename_i v4 hv4
        exact .inr (.inl ⟨v4, hv4, hlocal⟩)
      · rename_i v6 hv6
        exact .inr (.inr ⟨v6, hv6, hlocal⟩)
      · cases hlocal

/-- Neither white space nor brackets are around the host. -/
theorem trimmed_host (h : ∀ c ∈ host, is_whitespace c = false ∧ is_bracket c = false) :
    trim_brackets (trim host) = host := by
  rw [trim_of_no_whitespace fun c hc => (h c hc).1]
  have hdrop : host.dropWhile is_bracket = host := by
    apply List.dropWhile_eq_self_iff.mpr
    intro hl
    simp [(h _ (List.getElem_mem hl)).2]
  unfold trim_brackets
  rw [hdrop]
  apply List.rdropWhile_eq_self_iff.mpr
  intro hne
  simp [(h _ (List.getLast_mem hne)).2]

theorem colon_lower (h : ':' ∉ host) : ':' ∉ host.map Char.toLower := by
  intro hmem
  obtain ⟨c, hc, heq⟩ := List.mem_map.mp hmem
  exact h (eq_of_toLower heq (by decide) ▸ hc)

/-- Where a name ends in a label that is no number it is no address. -/
theorem not_number_of_suffix {name a b : List Char} {suffix : String}
    (hsuffix : suffix.toList = a ++ '.' :: b) (hdot : '.' ∉ b) (hb : b ≠ [])
    (hdigits : b.all Char.isDigit = false) (hnumber : parse_number b = none)
    (h : ends_with name suffix = true) : ends_in_number name = false := by
  obtain ⟨front, rfl⟩ := List.isSuffixOf_iff_suffix.mp h
  rw [hsuffix, ← List.append_assoc]
  exact not_number (last_label (front ++ a) b hdot) hb hdigits hnumber

/-- A name that passes: the client connects to it, or to the address that it writes out. -/
theorem name_is_near
    (hclear : ∀ c ∈ host, is_whitespace c = false ∧ is_bracket c = false) (hcolon : ':' ∉ host)
    (hlocal : host_is_local host = true)
    (hnumber : '.' ∉ host.map Char.toLower → ends_in_number (host.map Char.toLower) = false)
    {reached : Host}
    (hreached : (if ends_in_number (host.map Char.toLower) then
        (parse_numbers (host.map Char.toLower)).map Host.ipv4
      else some (.domain (host.map Char.toLower))) = some reached) : Near reached := by
  have htrim : trim_brackets (trim host) = host := trimmed_host hclear
  have hno_colon := colon_lower hcolon
  have hcases := local_cases (by rw [htrim]) hlocal
  have hlower := lower_lower host
  generalize host.map Char.toLower = name at *
  -- A name that is no number is a domain.
  have hdomain : ends_in_number name = false → reached = .domain name := by
    intro hno
    rw [hno, if_neg Bool.false_ne_true] at hreached
    injection hreached with hreached
    exact hreached.symm
  rcases hcases with (rfl | hlocalhost | hlocal | hdevices | ⟨hdot, -⟩) | ⟨v4, hv4, hnear⟩ |
    ⟨v6, hv6, -⟩
  · rw [hdomain (hnumber (by decide))]
    exact .inr (.inr (.inr ⟨by decide, hnumber (by decide)⟩))
  · rw [hdomain (not_number_of_suffix (a := []) (b := "localhost".toList) (by decide) (by decide)
      (by decide) (by decide) (by decide) hlocalhost)]
    exact .inl hlocalhost
  · rw [hdomain (not_number_of_suffix (a := []) (b := "local".toList) (by decide) (by decide)
      (by decide) (by decide) (by decide) hlocal)]
    exact .inr (.inl hlocal)
  · rw [hdomain (not_number_of_suffix (a := ".local-user".toList) (b := "devices".toList)
      (by decide) (by decide) (by decide) (by decide) (by decide) hdevices)]
    exact .inr (.inr (.inl hdevices))
  · rw [hdomain (hnumber hdot)]
    exact .inr (.inr (.inr ⟨hdot, hnumber hdot⟩))
  · -- A strict address.
    obtain ⟨hends, hnumbers⟩ := parse_numbers_of_ipv4 (ipv4_of_ip hv4)
    rw [hends, if_pos rfl, hnumbers] at hreached
    cases hreached
    exact hnear
  · exfalso
    have hmem := (parse_ipv6_chars (ipv6_of_ip hv6)).2
    rw [hlower] at hmem
    exact hno_colon hmem

/-- A suffix of labels stays in lower case. -/
theorem suffix_kept {idna : List Char → Option (List Char)} (hkeeps : KeepsLabels idna)
    {mapped rest : List Char} {suffix : String} (hsuffix : suffix.toList = '.' :: rest)
    (hrest : rest.all (fun c => c.isLower || c == '-' || c == '.') = true)
    (h : ends_with (host.map Char.toLower) suffix = true) (hmapped : idna host = some mapped) :
    ends_with mapped suffix = true := by
  obtain ⟨front, hfront⟩ := List.isSuffixOf_iff_suffix.mp h
  rw [hsuffix] at hfront
  obtain ⟨before, behind, rfl, -, hbehind⟩ := List.map_eq_append_iff.mp hfront.symm
  obtain ⟨dot, last, rfl, hdot, hlast⟩ := List.map_eq_cons_iff.mp hbehind
  rw [eq_of_toLower hdot (by decide)] at hmapped
  have hletters : ∀ c ∈ last, c.isAlpha = true ∨ c = '-' ∨ c = '.' := by
    intro c hc
    cases hupper : c.isUpper with
    | true => exact .inl (by simp [Char.isAlpha, hupper])
    | false =>
      have hmem : c ∈ rest := by
        rw [← hlast]
        exact List.mem_map.mpr ⟨c, hc, Char.toLower_eq_of_not_isUpper (by simp [hupper])⟩
      have hkind := List.all_eq_true.mp hrest c hmem
      simp only [Bool.or_eq_true, beq_iff_eq] at hkind
      rcases hkind with (hlower | hhyphen) | hdot
      · exact .inl (by simp [Char.isAlpha, hlower])
      · exact .inr (.inl hhyphen)
      · exact .inr (.inr hdot)
  obtain ⟨front', rfl⟩ := hkeeps before last mapped hletters hmapped
  unfold ends_with
  rw [hsuffix, hlast]
  exact List.isSuffixOf_iff_suffix.mpr (List.suffix_append _ _)

/-- What an address is written with is plain text. -/
theorem address_plain {c : Char} (h : IsAddressChar c.toLower) : is_plain c = true := by
  cases hupper : c.isUpper with
  | true =>
    have hrange : 65 ≤ c.toNat ∧ c.toNat ≤ 90 := by
      simp only [Char.isUpper, decide_eq_true_eq, ge_iff_le, UInt32.le_iff_toNat_le] at hupper
      exact hupper
    have hpercent : c ≠ '%' := by
      rintro rfl
      revert hupper
      decide
    have hascii : c.toNat < 128 := by omega
    simp [is_plain, hascii, hpercent]
  | false =>
    rw [Char.toLower_eq_of_not_isUpper (by simp [hupper])] at h
    have hpercent : c ≠ '%' := by
      rintro rfl
      revert h
      decide
    have hascii : c.toNat < 128 := by
      rcases h with hdigit | rfl | rfl
      · by_contra hno
        apply hdigit
        unfold digit_value
        rw [if_neg (by omega), if_neg (by omega), if_neg (by omega)]
      · decide
      · decide
    simp [is_plain, hascii, hpercent]

/-- A name of several labels that passes and that the client has to map: its last labels stay. -/
theorem mapped_is_near {idna : List Char → Option (List Char)} (hkeeps : KeepsLabels idna)
    (hclear : ∀ c ∈ host, is_whitespace c = false ∧ is_bracket c = false) (hcolon : ':' ∉ host)
    (hdot : '.' ∈ host) (hplain : host.all is_plain = false) (hlocal : host_is_local host = true)
    {mapped : List Char} (hmapped : idna host = some mapped) {reached : Host}
    (hreached : (if ends_in_number mapped then (parse_numbers mapped).map Host.ipv4
      else some (.domain mapped)) = some reached) : Near reached := by
  have htrim : trim_brackets (trim host) = host := trimmed_host hclear
  have hdotted : '.' ∈ host.map Char.toLower := List.mem_map.mpr ⟨'.', hdot, by decide⟩
  have hdomain : ends_in_number mapped = false → reached = .domain mapped := by
    intro hno
    rw [hno, if_neg Bool.false_ne_true] at hreached
    injection hreached with hreached
    exact hreached.symm
  -- An address would be plain text.
  have hno_address : ¬ ∀ c ∈ host.map Char.toLower, IsAddressChar c := by
    intro hall
    rw [List.all_eq_true.mpr fun c hc => address_plain (hall _ (List.mem_map_of_mem hc))] at hplain
    cases hplain
  rcases local_cases (by rw [htrim]) hlocal with
    (hname | hlocalhost | hends | hdevices | ⟨hno, -⟩) | ⟨v4, hv4, -⟩ | ⟨v6, hv6, -⟩
  · exfalso
    rw [hname] at hdotted
    revert hdotted
    decide
  · have hkept := @suffix_kept host idna hkeeps mapped "localhost".toList ".localhost" (by decide)
      (by decide) hlocalhost hmapped
    rw [hdomain (not_number_of_suffix (a := []) (b := "localhost".toList) (by decide) (by decide)
      (by decide) (by decide) (by decide) hkept)]
    exact .inl hkept
  · have hkept := @suffix_kept host idna hkeeps mapped "local".toList ".local" (by decide)
      (by decide) hends hmapped
    rw [hdomain (not_number_of_suffix (a := []) (b := "local".toList) (by decide) (by decide)
      (by decide) (by decide) (by decide) hkept)]
    exact .inr (.inl hkept)
  · have hkept := @suffix_kept host idna hkeeps mapped "local-user.devices".toList
      ".local-user.devices" (by decide) (by decide) hdevices hmapped
    rw [hdomain (not_number_of_suffix (a := ".local-user".toList) (b := "devices".toList)
      (by decide) (by decide) (by decide) (by decide) (by decide) hkept)]
    exact .inr (.inr (.inl hkept))
  · exact (hno hdotted).elim
  · exfalso
    apply hno_address
    intro c hc
    rcases parse_ipv4_chars (ipv4_of_ip hv4) c hc with hdigit | hpoint
    · exact .inl hdigit
    · exact .inr (.inl hpoint)
  · exfalso
    have hmem := (parse_ipv6_chars (ipv6_of_ip hv6)).2
    rw [lower_lower] at hmem
    exact colon_lower hcolon hmem

theorem address_kept {c : Char} (h : IsAddressChar c.toLower) :
    is_whitespace c = false ∧ is_bracket c = false := by
  have hblank : ∀ d : Char, is_whitespace d = true ∨ is_bracket d = true →
      d.isUpper = false ∧ ¬ IsAddressChar d := by
    intro d hd
    have hrange : d.isUpper = true → 65 ≤ d.toNat ∧ d.toNat ≤ 90 := by
      intro hupper
      simp only [Char.isUpper, decide_eq_true_eq, ge_iff_le,
        UInt32.le_iff_toNat_le] at hupper
      exact hupper
    rcases hd with hd | hd
    · unfold is_whitespace at hd
      simp only [Bool.or_eq_true, Bool.and_eq_true, beq_iff_eq, decide_eq_true_eq] at hd
      constructor
      · by_contra hno
        have := hrange (by simpa using hno)
        omega
      · rintro (hdigit | rfl | rfl)
        · apply hdigit
          unfold digit_value
          rw [if_neg (by omega), if_neg (by omega), if_neg (by omega)]
        · revert hd
          decide
        · revert hd
          decide
    · unfold is_bracket at hd
      simp only [Bool.or_eq_true, beq_iff_eq] at hd
      rcases hd with rfl | rfl
      · decide
      · decide
  constructor
  · by_contra hno
    obtain ⟨hupper, haddress⟩ := hblank c (.inl (by simpa using hno))
    rw [Char.toLower_eq_of_not_isUpper (by simp [hupper])] at h
    exact haddress h
  · by_contra hno
    obtain ⟨hupper, haddress⟩ := hblank c (.inr (by simpa using hno))
    rw [Char.toLower_eq_of_not_isUpper (by simp [hupper])] at h
    exact haddress h

/-- An address between brackets that passes is one that is near. -/
theorem address_is_near {v : Ipv6Addr} (hparse : parse_ipv6 host = some v)
    (hlocal : host_is_local host = true) : Near (.ipv6 v) := by
  obtain ⟨hchars, hcolon⟩ := parse_ipv6_chars hparse
  have htrim : trim_brackets (trim host) = host := by
    apply trimmed_host
    intro c hc
    exact address_kept (hchars _ (List.mem_map_of_mem hc))
  have hcases := local_cases (by rw [htrim]) hlocal
  rw [← parse_ipv6_lower] at hparse
  generalize host.map Char.toLower = h at *
  have hfour : parse_ipv4 h = none := by
    by_contra hsome
    obtain ⟨v4, hv4⟩ := Option.ne_none_iff_exists'.mp hsome
    exact absurd (parse_ipv4_chars hv4 ':' hcolon) (by decide)
  have hip : parse_ip h = some (.V6 v) := by
    unfold parse_ip
    rw [hfour, hparse]
    rfl
  have hletter : ∀ suffix : String, 'l' ∈ suffix.toList → ends_with h suffix = true → False := by
    intro suffix hl hends
    have hmem := (List.isSuffixOf_iff_suffix.mp hends).subset hl
    exact absurd (hchars 'l' hmem) (by decide)
  rcases hcases with (hname | hends | hends | hends | ⟨-, hno⟩) | ⟨v4, hv4, -⟩ | ⟨v6, hv6, hnear⟩
  · exact absurd (hchars 'l' (by rw [hname]; decide)) (by decide)
  · exact (hletter _ (by decide) hends).elim
  · exact (hletter _ (by decide) hends).elim
  · exact (hletter _ (by decide) hends).elim
  · exact (hno hcolon).elim
  · rw [hip] at hv4
    cases hv4
  · rw [hip] at hv6
    cases hv6
    exact hnear

end Local

/-! ## The gate -/

/-- What is trimmed is white space. -/
theorem around_trim (cs : List Char) : ∃ before,
    cs = before ++ (trim cs ++ cs.rtakeWhile is_whitespace) ∧ ∀ c ∈ before, is_whitespace c = true := by
  refine ⟨(trim_end cs).takeWhile is_whitespace, ?_, fun c hc => List.mem_takeWhile_imp hc⟩
  have hstart := List.takeWhile_append_dropWhile (p := is_whitespace) (l := trim_end cs)
  have hend := List.rdropWhile_append_rtakeWhile (p := is_whitespace) (l := cs)
  unfold trim trim_start
  rw [← List.append_assoc, hstart]
  exact hend.symm

/-- A URL that the client reads has only blanks of ASCII before it. -/
theorem blanks_before {idna : List Char → Option (List Char)} {before rest : List Char} {host : Host}
    (hblank : ∀ c ∈ before, is_whitespace c = true)
    (h : client_host idna (before ++ rest) = some host) : ∀ c ∈ before, is_c0_or_space c = true := by
  have hsplit := List.takeWhile_append_dropWhile (p := is_c0_or_space) (l := before)
  cases hdrop : before.dropWhile is_c0_or_space with
  | nil =>
    rw [hdrop, List.append_nil] at hsplit
    rw [← hsplit]
    exact fun c hc => List.mem_takeWhile_imp hc
  | cons c more =>
    exfalso
    have hkeep : is_c0_or_space c = false := by
      have hhead := List.head?_dropWhile_not is_c0_or_space before
      rw [hdrop] at hhead
      simpa using hhead
    have hmem : c ∈ before := by
      rw [← hsplit, hdrop]
      simp
    have hletter : c.isAlpha = false := by
      by_contra hno
      rw [Bool.not_eq_false] at hno
      have hspace := hblank c hmem
      simp only [Char.isAlpha, Char.isUpper, Char.isLower, Bool.or_eq_true, Bool.and_eq_true,
        decide_eq_true_eq, ge_iff_le, UInt32.le_iff_toNat_le] at hno
      simp only [is_whitespace, Bool.or_eq_true, Bool.and_eq_true, beq_iff_eq,
        decide_eq_true_eq] at hspace
      change (65 ≤ c.toNat ∧ c.toNat ≤ 90) ∨ (97 ≤ c.toNat ∧ c.toNat ≤ 122) at hno
      omega
    rw [← hsplit, hdrop, List.append_assoc, List.cons_append,
      client_host_of_letter (fun d hd => List.mem_takeWhile_imp hd) hkeep hletter] at h
    cases h

/-- The client reads the host from the authority that the gate has read. -/
theorem client_host_spelled (idna : List Char → Option (List Char)) {url scheme rest : List Char}
    (h : Spelled url rest) (hscheme : scheme = "http".toList ∨ scheme = "https".toList)
    (htrim : trim url = scheme ++ "://".toList ++ rest) {reached : Host}
    (hreached : client_host idna url = some reached) :
    parse_host idna (split_port false (behind_at (rest.takeWhile (fun c => !ends_auth c)))).1 =
      some reached := by
  obtain ⟨before, haround, hblank⟩ := around_trim url
  have hbefore : ∀ c ∈ before, is_c0_or_space c = true := by
    rw [haround] at hreached
    exact blanks_before hblank hreached
  have hsplit := List.takeWhile_append_dropWhile (p := fun c => !ends_auth c) (l := rest)
  have hhost := h.host
  have hbackslash := h.backslash
  have hslash := h.slash
  have hstop : ∀ c ∈ (rest.dropWhile (fun c => !ends_auth c)).head?, ends_auth c = true := by
    intro c hc
    have hhead := List.head?_dropWhile_not (fun c => !ends_auth c) rest
    rw [hc] at hhead
    simpa using hhead
  -- With a path, the blanks behind it are in the path.
  obtain ⟨tail, after, htail, hafter, hurl⟩ : ∃ tail after : List Char,
      tail.head? = (rest.dropWhile (fun c => !ends_auth c)).head? ∧
      (∀ c ∈ after, is_c0_or_space c = true) ∧
      url = before ++ (scheme ++ "://".toList ++
        (rest.takeWhile (fun c => !ends_auth c) ++ tail)) ++ after := by
    cases hdrop : rest.dropWhile (fun c => !ends_auth c) with
    | nil =>
      refine ⟨[], url.rtakeWhile is_whitespace, rfl, ?_, ?_⟩
      · rcases h.behind with ⟨c, hc, hend⟩ | hafter
        · exfalso
          have hkeep := List.dropWhile_eq_nil_iff.mp hdrop c hc
          rw [hend] at hkeep
          cases hkeep
        · exact hafter
      · rw [hdrop] at hsplit
        rw [hsplit, ← htrim, List.append_assoc]
        exact haround
    | cons e more =>
      refine ⟨e :: (more ++ url.rtakeWhile is_whitespace), [], rfl, by simp, ?_⟩
      rw [hdrop] at hsplit
      rw [htrim, ← hsplit] at haround
      conv_lhs => rw [haround]
      simp
  generalize rest.dropWhile (fun c => !ends_auth c) = path at hstop htail hsplit
  have hkept : ∀ c ∈ rest.takeWhile (fun c => !ends_auth c), ends_auth c = false := by
    intro c hc
    simpa using List.mem_takeWhile_imp hc
  generalize rest.takeWhile (fun c => !ends_auth c) = auth at *
  rw [← htail] at hstop
  have hclient := @client_host_of_authority before after scheme auth tail idna hbefore hafter hscheme
    (by
      intro c hc
      have hkeep := hkept c hc
      unfold ends_auth at hkeep
      simp only [Bool.or_eq_false_iff] at hkeep
      have hne : c ≠ '\\' := fun heq => hbackslash (heq ▸ hc)
      simp [ends_authority, is_slash, hkeep.1.1, hkeep.1.2, hkeep.2, hne])
    (fun c hc => (hhost c hc).1)
    (by
      intro c hc
      have hend := hstop c hc
      unfold ends_auth at hend
      simp only [Bool.or_eq_true] at hend
      unfold ends_authority is_slash
      rcases hend with (hend | hend) | hend
      · simp [hend]
      · simp [hend]
      · simp [hend])
    (by
      intro hempty c hc
      rw [hempty, List.nil_append] at hsplit
      have hfirst : c ≠ '/' := by
        rintro rfl
        rw [← hsplit, ← htail, hc] at hslash
        exact hslash rfl
      have hend := hstop c hc
      unfold ends_auth at hend
      simp only [Bool.or_eq_true, beq_iff_eq] at hend
      rcases hend with (rfl | rfl) | rfl
      · exact (hfirst rfl).elim
      · decide
      · decide)
  rw [hurl, hclient] at hreached
  dsimp only at hreached
  split at hreached
  · cases hreached
  · exact hreached

/-- A URL that is spelled out and passes without the flag leads to a host that is near. -/
theorem passes_near (idna : List Char → Option (List Char)) (hkeeps : KeepsLabels idna)
    (url what : String) (hspelled : ∃ rest, Spelled url.toList rest)
    (hok : require_local_or_flag url false what = .ok ()) (reached : Host)
    (hreached : client_host idna url.toList = some reached) : Near reached := by
  obtain ⟨rest, h⟩ := hspelled
  obtain ⟨⟨scheme, hscheme, htrim⟩, host, hlocal, hhost⟩ := gate_passed h.scheme hok
  have hparse := client_host_spelled idna h hscheme htrim hreached
  have hclear := h.host
  have hplain := h.plain
  have hnumber := h.number
  unfold named at hplain hnumber
  generalize behind_at (rest.takeWhile (fun c => !ends_auth c)) = whole at *
  rcases hhost with ⟨more, hwhole, hclose⟩ | ⟨hopen, rfl⟩
  · -- An address between brackets.
    rw [hwhole, split_port_brackets hclose] at hparse
    obtain ⟨-, v, hv, rfl⟩ := parse_host_brackets hparse
    exact address_is_near hv hlocal
  -- A name, or a strict address.
  have hhead := split_port_head hopen
  have hcolon : ':' ∉ whole.takeWhile (· != ':') := by
    intro hmem
    exact absurd (List.mem_takeWhile_imp hmem) (by decide)
  have hspace : ∀ c ∈ whole.takeWhile (· != ':'), is_whitespace c = false := by
    intro c hc
    exact (hclear c ((List.takeWhile_prefix _).subset hc)).2
  -- Where the name has no brackets, it is what the client maps.
  have hraw : (∀ c ∈ whole.takeWhile (· != ':'), is_bracket c = false) →
      (split_port false whole).1 = whole.takeWhile (· != ':') := by
    intro hbrackets
    apply split_port_name
    intro hmem
    exact absurd (hbrackets _ hmem) (by decide)
  cases hall : (split_port false whole).1.all is_plain with
  | true =>
    rw [parse_host_name hhead (List.all_eq_true.mp hall)] at hparse
    split at hparse
    · cases hparse
    rename_i hfree
    rw [not_or] at hfree
    have hbrackets : ∀ c ∈ whole.takeWhile (· != ':'), is_bracket c = false := by
      intro c hc
      by_contra hno
      have hmem := name_sub false whole c hc
      unfold is_bracket at hno
      simp only [Bool.not_eq_false, Bool.or_eq_true, beq_iff_eq] at hno
      apply hfree.2
      rw [List.any_eq_true]
      rcases hno with rfl | rfl
      · exact ⟨'[', List.mem_map.mpr ⟨'[', hmem, by decide⟩, by decide⟩
      · exact ⟨']', List.mem_map.mpr ⟨']', hmem, by decide⟩, by decide⟩
    rw [hraw hbrackets] at hparse
    refine name_is_near (fun c hc => ⟨hspace c hc, hbrackets c hc⟩) hcolon hlocal ?_ hparse
    intro hdot
    apply hnumber
    intro hmem
    exact hdot (List.mem_map.mpr ⟨'.', hmem, by decide⟩)
  | false =>
    rcases hplain with hplain | ⟨hdot, hbrackets⟩
    · rw [List.all_eq_true.mpr fun c hc => hplain c (split_port_sub false whole c hc)] at hall
      cases hall
    · obtain ⟨mapped, hmapped, hreached⟩ := parse_host_mapped hhead hall hparse
      rw [hraw hbrackets] at hmapped hall
      exact mapped_is_near hkeeps (fun c hc => ⟨hspace c hc, hbrackets c hc⟩) hcolon hdot hall hlocal
        hmapped hreached

/-- Not all of them are private: the names of devices pass. -/
theorem a_device_name_passes : ¬ ∀ (idna : List Char → Option (List Char)) (url what : String)
    (reached : Host), require_local_or_flag url false what = .ok () →
      client_host idna url.toList = some reached → Listed reached := by
  intro h
  have hlisted := h (fun cs => some (cs.map Char.toLower)) "http://pad.local-user.devices/" "sync"
    (.domain "pad.local-user.devices".toList) (by decide +kernel) (by decide +kernel)
  rcases hlisted with h | h | ⟨h, -⟩
  · revert h
    decide
  · revert h
    decide
  · revert h
    decide

theorem a_printer_is_near : Near (.domain "printer.local".toList) := by
  have hkeeps : KeepsLabels (fun cs => some (cs.map Char.toLower)) := by
    intro front last mapped _ h
    cases h
    exact ⟨front.map Char.toLower, by simp⟩
  refine passes_near _ hkeeps " http://me@Printer.local:631/ipp" "setProvider" ?_ (by decide +kernel) _
    (by decide +kernel)
  have hhost := List.all_eq_true.mp (show "Printer.local:631".toList.all
    (fun c => decide (32 < c.toNat) && !is_whitespace c && is_plain c) = true by decide)
  simp only [Bool.and_eq_true, decide_eq_true_eq, Bool.not_eq_true'] at hhost
  exact ⟨"me@Printer.local:631/ipp".toList, ⟨"http".toList, by decide +kernel⟩, by decide,
    by decide +kernel, fun c hc => (hhost c hc).1, .inl ⟨'/', by decide, by decide⟩,
    .inl fun c hc => (hhost c hc).2, by decide +kernel⟩

end pai_core
