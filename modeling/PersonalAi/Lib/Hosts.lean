-- Hosts: addresses and their texts, and the host that a client of the URL standard connects to.
import Mathlib
import PersonalAi.Lib.Search

open text

namespace hosts

/-! ## Addresses -/

structure Ipv4Addr where
  a : UInt8
  b : UInt8
  c : UInt8
  d : UInt8
deriving DecidableEq, Repr

structure Ipv6Addr where
  segments : List UInt16
  eight : segments.length = 8
deriving DecidableEq

inductive IpAddr
  | V4 (addr : Ipv4Addr)
  | V6 (addr : Ipv6Addr)
deriving DecidableEq

def Ipv4Addr.is_loopback (v : Ipv4Addr) : Bool := v.a == 127

def Ipv4Addr.is_private (v : Ipv4Addr) : Bool :=
  v.a == 10 || (v.a == 172 && decide (16 ≤ v.b ∧ v.b ≤ 31)) || (v.a == 192 && v.b == 168)

def Ipv4Addr.is_link_local (v : Ipv4Addr) : Bool := v.a == 169 && v.b == 254

def Ipv4Addr.is_unspecified (v : Ipv4Addr) : Bool := decide (v = ⟨0, 0, 0, 0⟩)

def Ipv6Addr.first (v : Ipv6Addr) : UInt16 := v.segments.headD 0

def Ipv6Addr.is_loopback (v : Ipv6Addr) : Bool := decide (v.segments = [0, 0, 0, 0, 0, 0, 0, 1])

def Ipv6Addr.is_unspecified (v : Ipv6Addr) : Bool := decide (v.segments = List.replicate 8 0)

def Ipv6Addr.is_unicast_link_local (v : Ipv6Addr) : Bool := v.first &&& 0xffc0 == 0xfe80

/-! ## Their texts -/

/-- The value of a digit. -/
def digit_value (c : Char) : Option Nat :=
  if 48 ≤ c.toNat ∧ c.toNat ≤ 57 then some (c.toNat - 48)
  else if 97 ≤ c.toNat ∧ c.toNat ≤ 102 then some (c.toNat - 87)
  else if 65 ≤ c.toNat ∧ c.toNat ≤ 70 then some (c.toNat - 55)
  else none

/-- A number by its digits, behind what is read already. -/
def read_digits (radix : Nat) : Nat → List Char → Option Nat
  | n, [] => some n
  | n, c :: rest =>
    match digit_value c with
    | some d => if d < radix then read_digits radix (n * radix + d) rest else none
    | none => none

/-- One part of a dotted address: no more than three digits, and no zero before others. -/
def parse_octet (cs : List Char) : Option UInt8 :=
  if cs = [] ∨ 3 < cs.length ∨ (cs.head? = some '0' ∧ cs ≠ ['0']) then none
  else
    match read_digits 10 0 cs with
    | some n => if n < 256 then some (UInt8.ofNat n) else none
    | none => none

def parse_ipv4 (cs : List Char) : Option Ipv4Addr :=
  match (cs.splitOn '.').mapM parse_octet with
  | some [a, b, c, d] => some ⟨a, b, c, d⟩
  | _ => none

/-- One group of up to four hex digits. -/
def parse_group (cs : List Char) : Option UInt16 :=
  if cs = [] ∨ 4 < cs.length then none else (read_digits 16 0 cs).map UInt16.ofNat

/-- Groups, the last two of which may be written as a dotted address. -/
def parse_groups : List (List Char) → Option (List UInt16)
  | [] => some []
  | p :: rest =>
    match (if rest = [] then parse_ipv4 p else none) with
    | some v => some [v.a.toUInt16 * 256 + v.b.toUInt16, v.c.toUInt16 * 256 + v.d.toUInt16]
    | none =>
      match parse_group p with
      | some g => (parse_groups rest).map (g :: ·)
      | none => none

def Ipv6Addr.of (segments : List UInt16) : Option Ipv6Addr :=
  if h : segments.length = 8 then some ⟨segments, h⟩ else none

/-- What stands between colons; nothing is no group. -/
def colon_parts (cs : List Char) : List (List Char) := if cs = [] then [] else cs.splitOn ':'

/-- The text of an address; `::` stands for one or more groups of zeros, and hex digits count in
either case. -/
def parse_ipv6 (cs : List Char) : Option Ipv6Addr :=
  let cs := cs.map Char.toLower
  match split_once_str [':', ':'] cs with
  | none => (parse_groups (colon_parts cs)).bind Ipv6Addr.of
  | some (head, tail) =>
    match (colon_parts head).mapM parse_group, parse_groups (colon_parts tail) with
    | some h, some t =>
      if h.length + t.length ≤ 7 then
        Ipv6Addr.of (h ++ List.replicate (8 - (h.length + t.length)) 0 ++ t)
      else none
    | _, _ => none

def parse_ip (cs : List Char) : Option IpAddr :=
  match parse_ipv4 cs with
  | some v => some (.V4 v)
  | none => (parse_ipv6 cs).map .V6

theorem ipv4_of_ip {cs : List Char} {v : Ipv4Addr} (h : parse_ip cs = some (.V4 v)) :
    parse_ipv4 cs = some v := by
  unfold parse_ip at h
  split at h
  · rename_i w hw
    injection h with h
    injection h with h
    rw [hw, h]
  · obtain ⟨w, -, heq⟩ := Option.map_eq_some_iff.mp h
    cases heq

theorem ipv6_of_ip {cs : List Char} {v : Ipv6Addr} (h : parse_ip cs = some (.V6 v)) :
    parse_ipv6 cs = some v := by
  unfold parse_ip at h
  split at h
  · cases h
  · obtain ⟨w, hw, heq⟩ := Option.map_eq_some_iff.mp h
    injection heq with heq
    rw [hw, heq]

/-! ## The characters of addresses -/

/-- What is no letter is in the lower case where it was before. -/
theorem eq_of_toLower {c d : Char} (h : c.toLower = d) (hd : d.isLower = false) : c = d := by
  have hupper : ¬ c.isUpper := by
    intro hupper
    have hletter := Char.isLower_toLower_eq_isAlpha c
    rw [h, hd, Char.isAlpha, hupper] at hletter
    cases hletter
  rw [← h, Char.toLower_eq_of_not_isUpper hupper]

/-- A text in lower case stays as it is. -/
theorem lower_lower (cs : List Char) : (cs.map Char.toLower).map Char.toLower = cs.map Char.toLower := by
  simp

/-- What an address may be written with. -/
def IsAddressChar (c : Char) : Prop := digit_value c ≠ none ∨ c = '.' ∨ c = ':'

instance (c : Char) : Decidable (IsAddressChar c) := by
  unfold IsAddressChar
  infer_instance

theorem read_digits_chars {radix n m : Nat} {cs : List Char} (h : read_digits radix n cs = some m) :
    ∀ c ∈ cs, digit_value c ≠ none := by
  induction cs generalizing n with
  | nil => simp
  | cons c cs ih =>
    unfold read_digits at h
    split at h
    · rename_i d hd
      split at h
      · intro x hx
        rcases List.mem_cons.mp hx with rfl | hx
        · simp [hd]
        · exact ih h x hx
      · cases h
    · cases h

/-- Each part is read where all of them are. -/
theorem mapM_each {α β : Type} {f : α → Option β} {xs : List α} {ys : List β}
    (h : xs.mapM f = some ys) : ∀ x ∈ xs, f x ≠ none := by
  induction xs generalizing ys with
  | nil => simp
  | cons x xs ih =>
    rw [List.mapM_cons] at h
    rcases hx : f x with _ | y
    · rw [hx] at h
      cases h
    · rw [hx] at h
      rcases hxs : xs.mapM f with _ | ys'
      · rw [hxs] at h
        cases h
      · intro z hz
        rcases List.mem_cons.mp hz with rfl | hz
        · simp [hx]
        · exact ih hxs z hz

theorem parse_octet_read {cs : List Char} {v : UInt8} (h : parse_octet cs = some v) :
    ∃ n, read_digits 10 0 cs = some n ∧ n < 256 ∧ v = UInt8.ofNat n ∧ cs ≠ [] ∧
      (cs.head? = some '0' → cs = ['0']) := by
  unfold parse_octet at h
  split at h
  · cases h
  · rename_i hshape
    simp only [not_or, not_and, not_not] at hshape
    split at h
    · rename_i n hn
      split at h
      · rename_i hlt
        cases h
        exact ⟨n, hn, hlt, rfl, hshape.1, hshape.2.2⟩
      · cases h
    · cases h

theorem parse_ipv4_parts {cs : List Char} {v : Ipv4Addr} (h : parse_ipv4 cs = some v) :
    (cs.splitOn '.').mapM parse_octet = some [v.a, v.b, v.c, v.d] := by
  unfold parse_ipv4 at h
  split at h
  · rename_i hparts
    cases h
    exact hparts
  · cases h

theorem parse_ipv4_chars {cs : List Char} {v : Ipv4Addr} (h : parse_ipv4 cs = some v) :
    ∀ c ∈ cs, digit_value c ≠ none ∨ c = '.' := by
  intro c hc
  rcases mem_splitOn (c := '.') hc with hdot | ⟨p, hp, hc⟩
  · exact .inr hdot
  · obtain ⟨octet, hoctet⟩ :=
      Option.ne_none_iff_exists'.mp (mapM_each (parse_ipv4_parts h) p hp)
    obtain ⟨n, hn, -⟩ := parse_octet_read hoctet
    exact .inl (read_digits_chars hn c hc)

theorem parse_group_chars {cs : List Char} {g : UInt16} (h : parse_group cs = some g) :
    ∀ c ∈ cs, digit_value c ≠ none := by
  unfold parse_group at h
  split at h
  · cases h
  · obtain ⟨n, hn, -⟩ := Option.map_eq_some_iff.mp h
    exact read_digits_chars hn

theorem parse_groups_chars {ps : List (List Char)} {gs : List UInt16}
    (h : parse_groups ps = some gs) : ∀ p ∈ ps, ∀ c ∈ p, IsAddressChar c := by
  induction ps generalizing gs with
  | nil => simp
  | cons p ps ih =>
    unfold parse_groups at h
    split at h
    · rename_i v hv
      split at hv
      · rename_i hlast
        rw [hlast]
        intro q hq c hc
        rw [List.mem_singleton.mp hq] at hc
        rcases parse_ipv4_chars hv c hc with hdigit | hdot
        · exact .inl hdigit
        · exact .inr (.inl hdot)
      · cases hv
    · split at h
      · rename_i g hg
        obtain ⟨gs', hgs, -⟩ := Option.map_eq_some_iff.mp h
        intro q hq c hc
        rcases List.mem_cons.mp hq with rfl | hq
        · exact .inl (parse_group_chars hg c hc)
        · exact ih hgs q hq c hc
      · cases h

theorem chars_of_parts {cs : List Char} (h : ∀ p ∈ colon_parts cs, ∀ c ∈ p, IsAddressChar c) :
    ∀ c ∈ cs, IsAddressChar c := by
  intro c hc
  have hparts : colon_parts cs = cs.splitOn ':' := by
    unfold colon_parts
    rw [if_neg]
    rintro rfl
    cases hc
  rw [hparts] at h
  rcases mem_splitOn (c := ':') hc with hcolon | ⟨p, hp, hc⟩
  · exact .inr (.inr hcolon)
  · exact h p hp c hc

/-- An address of eight groups is written with digits, dots and colons, and has a colon. -/
theorem parse_ipv6_chars {cs : List Char} {v : Ipv6Addr} (h : parse_ipv6 cs = some v) :
    (∀ c ∈ cs.map Char.toLower, IsAddressChar c) ∧ ':' ∈ cs.map Char.toLower := by
  unfold parse_ipv6 at h
  generalize cs.map Char.toLower = cs at h ⊢
  dsimp only at h
  split at h
  · obtain ⟨gs, hgs, hof⟩ := Option.bind_eq_some_iff.mp h
    refine ⟨chars_of_parts (parse_groups_chars hgs), ?_⟩
    by_contra hcolon
    -- A single part is two groups at most.
    have hlength : gs.length ≤ 2 := by
      unfold colon_parts at hgs
      split at hgs
      · cases hgs
        simp
      · rw [List.splitOn_eq_singleton hcolon] at hgs
        unfold parse_groups at hgs
        split at hgs
        · cases hgs
          simp
        · split at hgs
          · cases hgs
            simp
          · cases hgs
    unfold Ipv6Addr.of at hof
    split at hof
    · omega
    · cases hof
  · rename_i head tail hsplit
    split at h
    · rename_i hd tl hhead htail
      obtain ⟨-, heq⟩ := split_once_str_append hsplit []
      have hheads : ∀ p ∈ colon_parts head, ∀ c ∈ p, IsAddressChar c := by
        intro p hp c hc
        obtain ⟨g, hg⟩ := Option.ne_none_iff_exists'.mp (mapM_each hhead p hp)
        exact .inl (parse_group_chars hg c hc)
      rw [heq]
      refine ⟨?_, by simp⟩
      intro c hc
      simp only [List.mem_append, List.mem_cons, List.not_mem_nil, or_false, or_self] at hc
      rcases hc with (hc | hc) | hc
      · exact chars_of_parts hheads c hc
      · exact .inr (.inr hc)
      · exact chars_of_parts (parse_groups_chars htail) c hc
    · cases h

/-- The case of the letters does not matter. -/
theorem parse_ipv6_lower (cs : List Char) : parse_ipv6 (cs.map Char.toLower) = parse_ipv6 cs := by
  unfold parse_ipv6
  rw [lower_lower]

/-! ## The client -/

inductive Host
  | domain (name : List Char)
  | ipv4 (addr : Ipv4Addr)
  | ipv6 (addr : Ipv6Addr)
deriving DecidableEq

def is_c0_or_space (c : Char) : Bool := decide (c.toNat ≤ 32)

def is_tab_or_newline (c : Char) : Bool := c == '\t' || c == '\n' || c == '\r'

/-- What the parser of the standard reads: without control characters and spaces around it, and
without tabs and newlines. -/
def clean (cs : List Char) : List Char :=
  ((cs.dropWhile is_c0_or_space).rdropWhile is_c0_or_space).filter (fun c => !is_tab_or_newline c)

def is_scheme_char (c : Char) : Bool := c.isAlphanum || c == '+' || c == '-' || c == '.'

def split_scheme (cs : List Char) : Option (List Char × List Char) :=
  match split_once ':' cs with
  | some (scheme, rest) =>
    if scheme.head?.any Char.isAlpha && scheme.all is_scheme_char then
      some (scheme.map Char.toLower, rest)
    else none
  | none => none

/-- In the URLs of the web a backslash counts as a slash. -/
def is_slash (c : Char) : Bool := c == '/' || c == '\\'

def ends_authority (c : Char) : Bool := is_slash c || c == '?' || c == '#'

/-- However many slashes there are, the authority is behind them. -/
def authority (cs : List Char) : List Char :=
  (cs.dropWhile is_slash).takeWhile (fun c => !ends_authority c)

/-- What is behind the last `@`, or all of it. -/
def behind_at (cs : List Char) : List Char := (cs.reverse.takeWhile (· != '@')).reverse

/-- The host, and the port behind the first colon that is not between brackets. -/
def split_port : Bool → List Char → List Char × Option (List Char)
  | _, [] => ([], none)
  | inside, c :: rest =>
    if c = ':' ∧ inside = false then ([], some rest)
    else
      let inside := if c = '[' then true else if c = ']' then false else inside
      let split := split_port inside rest
      (c :: split.1, split.2)

def is_port (cs : List Char) : Bool :=
  match read_digits 10 0 cs with
  | some n => decide (n < 65536)
  | none => false

/-- No domain holds these. -/
def is_forbidden (c : Char) : Bool :=
  decide (c.toNat ≤ 32) || c == '\x7f' || "#/:<>?@[\\]^|%".toList.contains c

/-- A number in one of the three radices that an address may be written in. -/
def parse_number (cs : List Char) : Option Nat :=
  match cs with
  | [] => none
  | '0' :: 'x' :: rest => read_digits 16 0 rest
  | '0' :: 'X' :: rest => read_digits 16 0 rest
  | '0' :: c :: rest => read_digits 8 0 (c :: rest)
  | _ => read_digits 10 0 cs

/-- The labels, without an empty one at the end. -/
def labels (cs : List Char) : List (List Char) :=
  let parts := cs.splitOn '.'
  if parts.getLast? = some [] ∧ parts.length ≠ 1 then parts.dropLast else parts

def ends_in_number (cs : List Char) : Bool :=
  match (labels cs).getLast? with
  | some last => (decide (last ≠ []) && last.all Char.isDigit) || (parse_number last).isSome
  | none => false

def Ipv4Addr.of (n : Nat) : Ipv4Addr :=
  ⟨UInt8.ofNat (n / 16777216), UInt8.ofNat (n / 65536), UInt8.ofNat (n / 256), UInt8.ofNat n⟩

/-- The numbers but the last are one byte each, and the last one is the rest. -/
def join_numbers (numbers : List Nat) : Option Ipv4Addr :=
  match numbers.getLast? with
  | none => none
  | some last =>
    let front := numbers.dropLast
    if 4 < numbers.length ∨ front.any (fun n => decide (255 < n)) ∨
        256 ^ (5 - numbers.length) ≤ last then none
    else some (Ipv4Addr.of
      (last + (front.zipIdx.map (fun p => p.1 * 256 ^ (3 - p.2))).sum))

def parse_numbers (cs : List Char) : Option Ipv4Addr :=
  ((labels cs).mapM parse_number).bind join_numbers

def is_plain (c : Char) : Bool := decide (c.toNat < 128) && c != '%'

/-- The mapping of a name goes label by label: letters and hyphens at its end stay, in lower case. -/
def KeepsLabels (idna : List Char → Option (List Char)) : Prop :=
  ∀ front last mapped, (∀ c ∈ last, c.isAlpha = true ∨ c = '-' ∨ c = '.') →
    idna (front ++ '.' :: last) = some mapped →
    ∃ front', mapped = front' ++ '.' :: last.map Char.toLower

section Client
-- What percent-decoding and the mapping of international names make of a host that needs them.
variable (idna : List Char → Option (List Char))

def parse_host (cs : List Char) : Option Host :=
  match cs with
  | '[' :: rest =>
    if rest.getLast? = some ']' then (parse_ipv6 rest.dropLast).map .ipv6 else none
  | _ =>
    match (if cs.all is_plain then some (cs.map Char.toLower) else idna cs) with
    | none => none
    | some name =>
      if name = [] ∨ name.any is_forbidden then none
      else if ends_in_number name then (parse_numbers name).map .ipv4
      else some (.domain name)

/-- The host that the client connects to, of the text of a URL for the web. -/
def client_host (url : List Char) : Option Host :=
  match split_scheme (clean url) with
  | none => none
  | some (scheme, rest) =>
    if scheme = "http".toList ∨ scheme = "https".toList then
      let split := split_port false (behind_at (authority rest))
      if split.1 = [] ∨ !split.2.all is_port then none else parse_host idna split.1
    else none

end Client

/-! ## Names and numbers -/

theorem labels_of {cs : List Char} {last : List Char}
    (h : (cs.splitOn '.').getLast? = some last) (hlast : last ≠ []) : labels cs = cs.splitOn '.' := by
  unfold labels
  rw [if_neg]
  rintro ⟨hempty, -⟩
  rw [h] at hempty
  cases hempty
  exact hlast rfl

/-- Where the last label is no number, the host is no address. -/
theorem not_number {cs l : List Char} (hsplit : (cs.splitOn '.').getLast? = some l) (hl : l ≠ [])
    (hdigits : l.all Char.isDigit = false) (hnumber : parse_number l = none) :
    ends_in_number cs = false := by
  unfold ends_in_number
  rw [labels_of hsplit hl, hsplit]
  simp [hdigits, hnumber]

theorem last_label (a b : List Char) (h : '.' ∉ b) :
    ((a ++ '.' :: b).splitOn '.').getLast? = some b := by
  rw [List.splitOn_append_cons_self, List.splitOn_eq_singleton h]
  simp

/-- The parts that are a byte in a strict address are the same numbers for the client. -/
theorem parse_number_octet {cs : List Char} {v : UInt8} (h : parse_octet cs = some v) :
    ∃ n, parse_number cs = some n ∧ n < 256 ∧ v = UInt8.ofNat n := by
  obtain ⟨n, hn, hlt, hv, hempty, hzero⟩ := parse_octet_read h
  refine ⟨n, ?_, hlt, hv⟩
  unfold parse_number
  split
  · exact (hempty rfl).elim
  · cases hzero rfl
  · cases hzero rfl
  · cases hzero rfl
  · exact hn

theorem of_numbers {a b c d : Nat} (hb : b < 256) (hc : c < 256) (hd : d < 256) :
    Ipv4Addr.of (d + (a * 16777216 + (b * 65536 + c * 256))) =
      ⟨UInt8.ofNat a, UInt8.ofNat b, UInt8.ofNat c, UInt8.ofNat d⟩ := by
  have hbyte : ∀ x y : Nat, x % 256 = y % 256 → UInt8.ofNat x = UInt8.ofNat y := by
    intro x y hxy
    apply UInt8.toNat_inj.mp
    rw [UInt8.toNat_ofNat', UInt8.toNat_ofNat']
    exact hxy
  unfold Ipv4Addr.of
  congr 1
  · apply hbyte
    omega
  · apply hbyte
    omega
  · apply hbyte
    omega
  · apply hbyte
    omega

theorem sum_of_three (f : Nat × Nat → Nat) (a b c : Nat) :
    ([a, b, c].zipIdx.map f).sum = f (a, 0) + (f (b, 1) + (f (c, 2) + 0)) := rfl

/-- Four numbers of a byte each are the address that they write out. -/
theorem join_four {a b c d : Nat} (ha : a < 256) (hb : b < 256) (hc : c < 256) (hd : d < 256) :
    join_numbers [a, b, c, d] =
      some ⟨UInt8.ofNat a, UInt8.ofNat b, UInt8.ofNat c, UInt8.ofNat d⟩ := by
  have hfits : ¬ (4 < [a, b, c, d].length ∨
      ([a, b, c, d].dropLast.any fun n => decide (255 < n)) = true ∨
      256 ^ (5 - [a, b, c, d].length) ≤ d) := by
    rintro (hlong | hlarge | hlast)
    · exact absurd hlong (Nat.lt_irrefl 4)
    · obtain ⟨n, hn, hlt⟩ := List.any_eq_true.mp hlarge
      have hlt := of_decide_eq_true hlt
      change n ∈ [a, b, c] at hn
      simp only [List.mem_cons, List.not_mem_nil, or_false] at hn
      rcases hn with rfl | rfl | rfl
      all_goals omega
    · change 256 ^ 1 ≤ d at hlast
      omega
  have hsum := @of_numbers a b c d hb hc hd
  unfold join_numbers
  simp only [List.getLast?_cons_cons, List.getLast?_singleton]
  rw [if_neg hfits, ← hsum]
  change some (Ipv4Addr.of (d + ([a, b, c].zipIdx.map _).sum)) = _
  rw [sum_of_three]
  norm_num

/-- A strict address is the same one for the client. -/
theorem parse_numbers_of_ipv4 {cs : List Char} {v : Ipv4Addr} (h : parse_ipv4 cs = some v) :
    ends_in_number cs = true ∧ parse_numbers cs = some v := by
  have hparts := parse_ipv4_parts h
  -- Four parts, each of them a number.
  rcases hsplit : cs.splitOn '.' with _ | ⟨p, _ | ⟨q, _ | ⟨r, _ | ⟨t, _ | ⟨u, rest⟩⟩⟩⟩⟩
  all_goals rw [hsplit] at hparts
  · cases hparts
  all_goals
    simp only [List.mapM_cons, List.mapM_nil, Option.bind_eq_bind, Option.bind_eq_some_iff,
      Option.pure_def, Option.some.injEq] at hparts
  · obtain ⟨_, _, _, rfl, heq⟩ := hparts
    cases heq
  · obtain ⟨_, _, _, ⟨_, _, _, rfl, rfl⟩, heq⟩ := hparts
    cases heq
  · obtain ⟨_, _, _, ⟨_, _, _, ⟨_, _, _, rfl, rfl⟩, rfl⟩, heq⟩ := hparts
    cases heq
  · obtain ⟨_, hp, _, ⟨_, hq, _, ⟨_, hr, _, ⟨_, ht, _, rfl, rfl⟩, rfl⟩, rfl⟩, heq⟩ := hparts
    injection heq with ha heq
    injection heq with hb heq
    injection heq with hc heq
    injection heq with hd _
    subst ha hb hc hd
    obtain ⟨a, hpa, ha, hva⟩ := parse_number_octet hp
    obtain ⟨b, hqb, hb, hvb⟩ := parse_number_octet hq
    obtain ⟨c, hrc, hc, hvc⟩ := parse_number_octet hr
    obtain ⟨d, htd, hd, hvd⟩ := parse_number_octet ht
    obtain ⟨_, _, _, _, hempty, _⟩ := parse_octet_read ht
    have hlabels : labels cs = [p, q, r, t] := by
      rw [@labels_of cs t (by rw [hsplit]; rfl) hempty, hsplit]
    refine ⟨?_, ?_⟩
    · unfold ends_in_number
      rw [hlabels]
      simp [htd]
    · have hnumbers : [p, q, r, t].mapM parse_number = some [a, b, c, d] := by
        simp [List.mapM_cons, hpa, hqb, hrc, htd]
      unfold parse_numbers
      rw [hlabels, hnumbers, Option.bind_some, join_four ha hb hc hd, ← hva, ← hvb, ← hvc, ← hvd]
  · obtain ⟨_, _, _, ⟨_, _, _, ⟨_, _, _, ⟨_, _, _, ⟨_, _, _, hrest, rfl⟩, rfl⟩, rfl⟩, rfl⟩, heq⟩ :=
      hparts
    simp at heq

/-! ## What the client reads -/

theorem rdropWhile_behind {p : Char → Bool} {x : List Char} (h : ∀ c ∈ x.getLast?, p c = false)
    (y : List Char) : (x ++ y).rdropWhile p = x ++ y.rdropWhile p := by
  induction y using List.reverseRecOn with
  | nil =>
    have hself : x.rdropWhile p = x := by
      apply List.rdropWhile_eq_self_iff.mpr
      intro hl
      simp [h _ (List.getLast_mem_getLast? hl)]
    rw [List.append_nil, hself]
    simp
  | append_singleton y c ih =>
    rw [← List.append_assoc]
    cases hc : p c with
    | true => rw [List.rdropWhile_concat_pos _ _ _ hc, List.rdropWhile_concat_pos _ _ _ hc, ih]
    | false =>
      rw [List.rdropWhile_concat_neg _ _ _ (by simp [hc]),
        List.rdropWhile_concat_neg _ _ _ (by simp [hc]), List.append_assoc]

theorem rdropWhile_all {p : Char → Bool} {x y : List Char} (h : ∀ c ∈ y, p c = true) :
    (x ++ y).rdropWhile p = x.rdropWhile p := by
  induction y using List.reverseRecOn with
  | nil => rw [List.append_nil]
  | append_singleton y c ih =>
    rw [← List.append_assoc, List.rdropWhile_concat_pos _ _ _ (h c (by simp))]
    exact ih fun x hx => h x (List.mem_append_left _ hx)

/-- The text has no `@`, or it goes to one and then on without another. -/
theorem behind_at_cases (cs : List Char) : '@' ∉ behind_at cs ∧
    (cs = behind_at cs ∨ ∃ user, cs = user ++ '@' :: behind_at cs) := by
  unfold behind_at
  have hfree : '@' ∉ (cs.reverse.takeWhile (· != '@')).reverse := by
    intro hmem
    have hne := List.mem_takeWhile_imp (List.mem_reverse.mp hmem)
    exact absurd hne (by decide)
  refine ⟨hfree, ?_⟩
  have hsplit := List.takeWhile_append_dropWhile (p := (· != '@')) (l := cs.reverse)
  rcases hdrop : cs.reverse.dropWhile (· != '@') with _ | ⟨c, rest⟩
  · left
    rw [hdrop, List.append_nil] at hsplit
    rw [hsplit, List.reverse_reverse]
  · right
    have hc : c = '@' := by
      have hhead := List.head?_dropWhile_not (· != '@') cs.reverse
      rw [hdrop] at hhead
      simpa using hhead
    rw [hdrop, hc] at hsplit
    refine ⟨rest.reverse, ?_⟩
    have hrev := congrArg List.reverse hsplit
    rw [List.reverse_append, List.reverse_cons, List.reverse_reverse] at hrev
    simpa using hrev.symm

theorem behind_at_append (a : List Char) {b : List Char} (h : '@' ∉ b) :
    behind_at (a ++ '@' :: b) = b := by
  have hrev : (a ++ '@' :: b).reverse = b.reverse ++ '@' :: a.reverse := by simp
  have hall : ∀ c ∈ b.reverse, (c != '@') = true := by
    intro c hc
    have hne : c ≠ '@' := fun heq => h (heq ▸ List.mem_reverse.mp hc)
    simpa using hne
  unfold behind_at
  rw [hrev, List.takeWhile_append_of_pos hall]
  simp

theorem filter_of_printable {cs : List Char} (h : ∀ c ∈ cs, 32 < c.toNat) :
    cs.filter (fun c => !is_tab_or_newline c) = cs := by
  apply List.filter_eq_self.mpr
  intro c hc
  have hlt := h c hc
  unfold is_tab_or_newline
  have hne : ∀ d : Char, d.toNat ≤ 32 → (c == d) = false := by
    intro d hd
    rw [beq_eq_false_iff_ne]
    rintro rfl
    omega
  rw [hne '\t' (by decide), hne '\n' (by decide), hne '\r' (by decide)]
  rfl

/-- Tabs and newlines do not change the host, where it has none itself. -/
theorem behind_at_filter {cs : List Char} (h : ∀ c ∈ behind_at cs, 32 < c.toNat) :
    behind_at (cs.filter (fun c => !is_tab_or_newline c)) = behind_at cs := by
  obtain ⟨hfree, hcases⟩ := behind_at_cases cs
  rcases hcases with heq | ⟨user, heq⟩
  · have hself : cs.filter (fun c => !is_tab_or_newline c) = cs := by
      apply filter_of_printable
      rw [heq]
      exact h
    rw [hself]
  · have hfilter : cs.filter (fun c => !is_tab_or_newline c) =
        user.filter (fun c => !is_tab_or_newline c) ++ '@' :: behind_at cs := by
      conv_lhs => rw [heq]
      rw [List.filter_append, List.filter_cons_of_pos (by decide), filter_of_printable h]
    rw [hfilter, behind_at_append _ hfree]

/-- What is around the URL goes, and behind its start what follows the last printable character. -/
theorem strip_around {before after start rest : List Char}
    (hbefore : ∀ c ∈ before, is_c0_or_space c = true) (hafter : ∀ c ∈ after, is_c0_or_space c = true)
    (hfirst : ∃ c ∈ start.head?, is_c0_or_space c = false)
    (hlast : ∀ c ∈ start.getLast?, is_c0_or_space c = false) :
    ((before ++ (start ++ rest) ++ after).dropWhile is_c0_or_space).rdropWhile is_c0_or_space =
      start ++ rest.rdropWhile is_c0_or_space := by
  obtain ⟨c, hc, hkeep⟩ := hfirst
  have hdrop : (before ++ (start ++ rest) ++ after).dropWhile is_c0_or_space =
      start ++ rest ++ after := by
    rw [List.append_assoc, List.dropWhile_append_of_pos hbefore]
    cases start with
    | nil => cases hc
    | cons x xs =>
      cases hc
      rw [List.cons_append, List.cons_append, List.dropWhile_cons_of_neg (by simp [hkeep])]
  rw [hdrop, rdropWhile_all hafter, rdropWhile_behind hlast]

theorem authority_of {auth tail : List Char} (hauth : ∀ c ∈ auth, ends_authority c = false)
    (htail : ∀ c ∈ tail.head?, ends_authority c = true)
    (hslash : auth = [] → ∀ c ∈ tail.head?, is_slash c = false) :
    authority ('/' :: '/' :: (auth ++ tail)) = auth := by
  have hdrop : (auth ++ tail).dropWhile is_slash = auth ++ tail := by
    apply List.dropWhile_eq_self_iff.mpr
    intro hl
    cases auth with
    | nil =>
      cases tail with
      | nil => simp at hl
      | cons e t => simp [hslash rfl e rfl]
    | cons c cs =>
      have hc := hauth c List.mem_cons_self
      unfold ends_authority at hc
      simp only [Bool.or_eq_false_iff] at hc
      simp [hc.1.1]
  have hstart : ('/' :: '/' :: (auth ++ tail)).dropWhile is_slash = auth ++ tail := by
    rw [List.dropWhile_cons_of_pos (by decide), List.dropWhile_cons_of_pos (by decide), hdrop]
  unfold authority
  rw [hstart, List.takeWhile_append_of_pos (by simpa using hauth)]
  cases tail with
  | nil => simp
  | cons e t => simp [htail e rfl]

theorem ends_authority_kept {e : Char} (h : ends_authority e = true) :
    is_c0_or_space e = false ∧ is_tab_or_newline e = false := by
  unfold ends_authority is_slash at h
  simp only [Bool.or_eq_true, beq_iff_eq] at h
  rcases h with ((h | h) | h) | h
  all_goals
    rw [h]
    decide

/-- Nothing is stripped from the end of an authority. -/
theorem authority_kept {auth : List Char} (hhost : ∀ c ∈ behind_at auth, 32 < c.toNat) :
    ∀ c ∈ auth.getLast?, is_c0_or_space c = false := by
  intro c hc
  obtain ⟨-, heq | ⟨user, heq⟩⟩ := behind_at_cases auth
  · have hmem : c ∈ behind_at auth := heq ▸ List.mem_of_getLast? hc
    have hlt := hhost c hmem
    simpa [is_c0_or_space] using hlt
  · rw [heq] at hc
    by_cases hempty : behind_at auth = []
    · rw [hempty] at hc
      have hat : c = '@' := by simpa using hc.symm
      rw [hat]
      decide
    · rw [List.getLast?_append_of_ne_nil _ (by simp), List.getLast?_cons_of_ne_nil hempty] at hc
      have hlt := hhost c (List.mem_of_getLast? hc)
      simpa [is_c0_or_space] using hlt

theorem clean_head {before : List Char} {c : Char} (hbefore : ∀ d ∈ before, is_c0_or_space d = true)
    (hc : is_c0_or_space c = false) (cs : List Char) :
    ∃ more, clean (before ++ c :: cs) = c :: more := by
  have hkept : is_tab_or_newline c = false := by
    by_contra hno
    rw [Bool.not_eq_false] at hno
    simp only [is_tab_or_newline, Bool.or_eq_true, beq_iff_eq] at hno
    rcases hno with (rfl | rfl) | rfl
    all_goals
      revert hc
      decide
  have hstrip : ([c] ++ cs).rdropWhile is_c0_or_space = [c] ++ cs.rdropWhile is_c0_or_space :=
    rdropWhile_behind (by simpa using hc) cs
  unfold clean
  rw [List.dropWhile_append_of_pos hbefore, List.dropWhile_cons_of_neg (by simp [hc])]
  rw [List.singleton_append] at hstrip
  rw [hstrip, List.singleton_append, List.filter_cons_of_pos (by simp [hkept])]
  exact ⟨_, rfl⟩

/-- A URL starts with a letter. -/
theorem client_host_of_letter {idna : List Char → Option (List Char)} {before : List Char} {c : Char}
    (hbefore : ∀ d ∈ before, is_c0_or_space d = true) (hc : is_c0_or_space c = false)
    (hletter : c.isAlpha = false) (cs : List Char) : client_host idna (before ++ c :: cs) = none := by
  obtain ⟨more, hclean⟩ := clean_head hbefore hc cs
  have hscheme : split_scheme (c :: more) = none := by
    unfold split_scheme split_once
    by_cases hcolon : c = ':'
    · rw [if_pos hcolon]
      rfl
    · rw [if_neg hcolon]
      cases split_once ':' more with
      | none => rfl
      | some p => simp [hletter]
  unfold client_host
  rw [hclean, hscheme]

section Spelled
variable {before after scheme auth tail : List Char}

/-- What the client reads of a URL that is spelled out: the tabs go, and the authority ends where
it did. -/
theorem clean_spelled (hbefore : ∀ c ∈ before, is_c0_or_space c = true)
    (hafter : ∀ c ∈ after, is_c0_or_space c = true)
    (hscheme : scheme = "http".toList ∨ scheme = "https".toList)
    (hhost : ∀ c ∈ behind_at auth, 32 < c.toNat)
    (htail : ∀ c ∈ tail.head?, ends_authority c = true) :
    ∃ more : List Char, more.head? = tail.head? ∧
      clean (before ++ (scheme ++ "://".toList ++ (auth ++ tail)) ++ after) =
        scheme ++ "://".toList ++ (auth.filter (fun c => !is_tab_or_newline c) ++ more) := by
  have hfirst : ∀ x : List Char, ∃ c ∈ (scheme ++ "://".toList ++ x).head?, is_c0_or_space c = false := by
    intro x
    rcases hscheme with rfl | rfl
    · exact ⟨'h', by simp, by decide⟩
    · exact ⟨'h', by simp, by decide⟩
  have hhead : (scheme ++ "://".toList).filter (fun c => !is_tab_or_newline c) =
      scheme ++ "://".toList := by
    rcases hscheme with rfl | rfl
    · decide
    · decide
  cases tail with
  | nil =>
    have hlast : ∀ c ∈ (scheme ++ "://".toList ++ auth).getLast?, is_c0_or_space c = false := by
      intro c hc
      by_cases hempty : auth = []
      · rw [hempty, List.append_nil, List.getLast?_append_of_ne_nil _ (by decide)] at hc
        have hc : c = '/' := by simpa using hc.symm
        rw [hc]
        decide
      · rw [List.getLast?_append_of_ne_nil _ hempty] at hc
        exact authority_kept hhost c hc
    have hstrip := @strip_around before after (scheme ++ "://".toList ++ auth) [] hbefore hafter
      (hfirst auth) hlast
    refine ⟨[], rfl, ?_⟩
    unfold clean
    rw [List.append_nil] at hstrip
    rw [List.append_nil, hstrip, List.rdropWhile_nil, List.append_nil, List.filter_append, hhead,
      List.append_nil]
  | cons e rest =>
    have he := ends_authority_kept (htail e rfl)
    have hlast : ∀ c ∈ (scheme ++ "://".toList ++ (auth ++ [e])).getLast?,
        is_c0_or_space c = false := by
      intro c hc
      rw [← List.append_assoc, List.getLast?_append_of_ne_nil _ (by simp)] at hc
      have hc : e = c := by simpa using hc
      exact hc ▸ he.1
    have hstrip := @strip_around before after (scheme ++ "://".toList ++ (auth ++ [e])) rest hbefore
      hafter (hfirst _) hlast
    have hshape : scheme ++ "://".toList ++ (auth ++ e :: rest) =
        scheme ++ "://".toList ++ (auth ++ [e]) ++ rest := by simp
    refine ⟨e :: (rest.rdropWhile is_c0_or_space).filter (fun c => !is_tab_or_newline c), rfl, ?_⟩
    unfold clean
    rw [hshape, hstrip, List.filter_append, List.filter_append, hhead, List.filter_append,
      List.filter_cons_of_pos (by simp [he.2])]
    simp

/-- The URL is spelled out: the client takes the host from behind the two slashes. -/
theorem client_host_of_authority (idna : List Char → Option (List Char))
    (hbefore : ∀ c ∈ before, is_c0_or_space c = true) (hafter : ∀ c ∈ after, is_c0_or_space c = true)
    (hscheme : scheme = "http".toList ∨ scheme = "https".toList)
    (hauth : ∀ c ∈ auth, ends_authority c = false) (hhost : ∀ c ∈ behind_at auth, 32 < c.toNat)
    (htail : ∀ c ∈ tail.head?, ends_authority c = true)
    (hslash : auth = [] → ∀ c ∈ tail.head?, is_slash c = false) :
    client_host idna (before ++ (scheme ++ "://".toList ++ (auth ++ tail)) ++ after) =
      (let split := split_port false (behind_at auth)
      if split.1 = [] ∨ !split.2.all is_port then none else parse_host idna split.1) := by
  obtain ⟨more, hmore, hclean⟩ := clean_spelled hbefore hafter hscheme hhost htail
  generalize hkept : auth.filter (fun c => !is_tab_or_newline c) = kept at hclean
  have hsplit : split_scheme (clean (before ++ (scheme ++ "://".toList ++ (auth ++ tail)) ++ after)) =
      some (scheme, '/' :: '/' :: (kept ++ more)) := by
    have hcolon : ':' ∉ scheme := by
      rcases hscheme with rfl | rfl
      · decide
      · decide
    have htext : scheme ++ "://".toList ++ (kept ++ more) =
        scheme ++ ':' :: '/' :: '/' :: (kept ++ more) := by simp
    rw [hclean, htext]
    unfold split_scheme
    rw [split_once_append _ _ _ hcolon]
    rcases hscheme with rfl | rfl
    · rfl
    · rfl
  have hauthority : authority ('/' :: '/' :: (kept ++ more)) = kept := by
    apply authority_of
    · intro c hc
      rw [← hkept] at hc
      exact hauth c (List.mem_of_mem_filter hc)
    · rw [hmore]
      exact htail
    · intro hempty
      rw [hmore]
      apply hslash
      -- Without an `@` the authority is the host itself.
      obtain ⟨-, heq | ⟨user, heq⟩⟩ := behind_at_cases auth
      · rw [heq] at hkept ⊢
        rw [← hempty, ← hkept, filter_of_printable hhost]
      · exfalso
        have hmem : '@' ∈ kept := by
          rw [← hkept]
          exact List.mem_filter.mpr ⟨by rw [heq]; simp, by decide⟩
        rw [hempty] at hmem
        cases hmem
  unfold client_host
  rw [hsplit]
  dsimp only
  rw [if_pos hscheme, hauthority, ← hkept, behind_at_filter hhost]

end Spelled

/-! ## The host of an authority -/

/-- Without brackets the host ends at the first colon. -/
theorem split_port_name {cs : List Char} (h : '[' ∉ cs.takeWhile (· != ':')) :
    (split_port false cs).1 = cs.takeWhile (· != ':') := by
  induction cs with
  | nil => rfl
  | cons c cs ih =>
    unfold split_port
    by_cases hc : c = ':'
    · rw [if_pos ⟨hc, rfl⟩, List.takeWhile_cons_of_neg (by simp [hc])]
    · rw [List.takeWhile_cons_of_pos (by simp [hc]), List.mem_cons, not_or] at h
      have hinside : (if c = '[' then true else if c = ']' then false else false) = false := by
        rw [if_neg (Ne.symm h.1)]
        split
        · rfl
        · rfl
      rw [if_neg (fun h => hc h.1), hinside, List.takeWhile_cons_of_pos (by simp [hc])]
      dsimp only
      rw [ih h.2]

/-- A colon between brackets does not end the host. -/
theorem name_sub (inside : Bool) (cs : List Char) :
    ∀ c ∈ cs.takeWhile (· != ':'), c ∈ (split_port inside cs).1 := by
  induction cs generalizing inside with
  | nil =>
    intro c hc
    cases hc
  | cons d cs ih =>
    intro c hc
    by_cases hd : d = ':'
    · rw [List.takeWhile_cons_of_neg (by simp [hd])] at hc
      cases hc
    · rw [List.takeWhile_cons_of_pos (by simp [hd])] at hc
      unfold split_port
      rw [if_neg (fun h => hd h.1)]
      rcases List.mem_cons.mp hc with rfl | hc
      · exact List.mem_cons_self
      · exact List.mem_cons_of_mem _ (ih _ c hc)

theorem split_port_sub (inside : Bool) (cs : List Char) : ∀ c ∈ (split_port inside cs).1, c ∈ cs := by
  induction cs generalizing inside with
  | nil =>
    intro c hc
    cases hc
  | cons d cs ih =>
    unfold split_port
    split
    · intro c hc
      cases hc
    · intro c hc
      rcases List.mem_cons.mp hc with rfl | hc
      · exact List.mem_cons_self
      · exact List.mem_cons_of_mem _ (ih _ c hc)

theorem split_port_head {cs : List Char} (h : cs.head? ≠ some '[') :
    (split_port false cs).1.head? ≠ some '[' := by
  cases cs with
  | nil => exact h
  | cons c cs =>
    unfold split_port
    split
    · simp
    · simpa using h

theorem split_port_inside {inner : List Char} (h : ']' ∉ inner) (rest : List Char) :
    split_port true (inner ++ ']' :: rest) =
      (inner ++ ']' :: (split_port false rest).1, (split_port false rest).2) := by
  induction inner with
  | nil => simp [split_port]
  | cons c inner ih =>
    simp only [List.mem_cons, not_or] at h
    have hinside : (if c = '[' then true else if c = ']' then false else true) = true := by
      rw [if_neg (Ne.symm h.1)]
      simp
    rw [List.cons_append, split_port, if_neg (by simp), hinside]
    dsimp only
    rw [ih h.2]
    rfl

/-- Between brackets the colons are the address's. -/
theorem split_port_brackets {inner : List Char} (h : ']' ∉ inner) (rest : List Char) :
    split_port false ('[' :: (inner ++ ']' :: rest)) =
      ('[' :: (inner ++ ']' :: (split_port false rest).1), (split_port false rest).2) := by
  rw [split_port, if_neg (by simp), if_pos rfl]
  dsimp only
  rw [split_port_inside h]

section Parse
variable {idna : List Char → Option (List Char)}

theorem parse_host_name {cs : List Char} (hopen : cs.head? ≠ some '[')
    (hplain : ∀ c ∈ cs, is_plain c = true) : parse_host idna cs =
      if cs.map Char.toLower = [] ∨ (cs.map Char.toLower).any is_forbidden then none
      else if ends_in_number (cs.map Char.toLower) then
        (parse_numbers (cs.map Char.toLower)).map .ipv4
      else some (.domain (cs.map Char.toLower)) := by
  unfold parse_host
  split
  · exact (hopen rfl).elim
  · rw [if_pos (List.all_eq_true.mpr hplain)]

theorem parse_host_mapped {cs : List Char} (hopen : cs.head? ≠ some '[')
    (hplain : cs.all is_plain = false) {host : Host} (h : parse_host idna cs = some host) :
    ∃ mapped, idna cs = some mapped ∧
      (if ends_in_number mapped then (parse_numbers mapped).map Host.ipv4
        else some (.domain mapped)) = some host := by
  unfold parse_host at h
  split at h
  · exact (hopen rfl).elim
  · rw [if_neg (by simp [hplain])] at h
    split at h
    · cases h
    · rename_i mapped hmapped
      split at h
      · cases h
      · exact ⟨mapped, hmapped, h⟩

theorem parse_host_brackets {inner rest : List Char} {host : Host}
    (h : parse_host idna ('[' :: (inner ++ ']' :: rest)) = some host) :
    rest = [] ∧ ∃ v, parse_ipv6 inner = some v ∧ host = .ipv6 v := by
  change (if (inner ++ ']' :: rest).getLast? = some ']' then
    (parse_ipv6 (inner ++ ']' :: rest).dropLast).map Host.ipv6 else none) = some host at h
  split at h
  · obtain ⟨v, hv, rfl⟩ := Option.map_eq_some_iff.mp h
    rcases List.eq_nil_or_concat rest with hrest | ⟨rest', c, hrest⟩
    · subst hrest
      rw [List.dropLast_concat] at hv
      exact ⟨rfl, v, hv, rfl⟩
    · -- A bracket is left in the address.
      exfalso
      have hdrop : (inner ++ ']' :: rest).dropLast = inner ++ ']' :: rest' := by
        have hshape : inner ++ ']' :: rest = (inner ++ ']' :: rest') ++ [c] := by simp [hrest]
        rw [hshape, List.dropLast_concat]
      rw [hdrop] at hv
      have haddress := (parse_ipv6_chars hv).1 ']' (List.mem_map.mpr ⟨']', by simp, by decide⟩)
      exact absurd haddress (by decide)
  · cases h

end Parse

end hosts
