-- Object keys as names of files and paths of a relay: `urlenc`, which writes a code point in
-- hex, and `urldec`, which reads two hex digits as a byte. ASCII keys come back, no other ones do.
import Mathlib.Data.Set.Basic
import PersonalAi.Lib.Chars
import PersonalAi.Lib.Framing

open text framing

namespace pai_sync.keys

/-- `{:02x}`. -/
def hex02 (n : Nat) : List Char :=
  if n < 16 then ['0', Nat.digitChar n] else Nat.toDigits 16 n

def urlenc_char (c : Char) : List Char :=
  if c.isAlphanum || c = '-' || c = '_' then [c] else '%' :: hex02 c.toNat

def urlenc (s : String) : String := String.ofList (s.toList.flatMap urlenc_char)

/-- `u8::from_str_radix(.., 16)` of a text of two bytes, which may have a plus. -/
def from_str_radix (h l : UInt8) : Option UInt8 :=
  if h = 0x2B then hexDigit l
  else (hexDigit h).bind fun x => (hexDigit l).map fun y => x * 16 + y

/-- The loop of `urldec`. The slice behind a percent sign panics, here `none`, where a character
goes on behind the two bytes. -/
def urldec_loop : Bytes → Option Bytes
  | [] => some []
  | b :: h :: l :: after =>
    if b = 0x25 then
      if after.head?.any continuation then none
      else
        match from_str_radix h l with
        | some v => (urldec_loop after).map (v :: ·)
        | none => (urldec_loop (h :: l :: after)).map (b :: ·)
    else (urldec_loop (h :: l :: after)).map (b :: ·)
  | b :: rest => (urldec_loop rest).map (b :: ·)

/-- The text that comes out is given by its bytes. -/
def urldec (s : String) : Option Bytes := (urldec_loop (utf8 s)).map from_utf8_lossy

/-! ## Files and paths -/

/-- `FolderTransport::path`, as the components of a path. -/
def FolderTransport.path (dir : List String) (key : String) : List String :=
  dir ++ [urlenc key ++ ".syncobj"]

def key_prefix : String := "/v1/objects/"

/-- The URL of an object, of which `base` is that of the relay. -/
def RelayTransport.url (base key : String) : String := base ++ key_prefix ++ urlenc key

/-! ## The loop -/

theorem loop_other {bs : Bytes} (h : 0x25 ∉ bs) (rest : Bytes) :
    urldec_loop (bs ++ rest) = (urldec_loop rest).map (bs ++ ·) := by
  induction bs with
  | nil => simp
  | cons b bs ih =>
    have hb : b ≠ 0x25 := fun heq => h (heq ▸ List.mem_cons_self)
    have hstep : urldec_loop (b :: (bs ++ rest)) = (urldec_loop (bs ++ rest)).map (b :: ·) := by
      rcases bs ++ rest with _ | ⟨x, _ | ⟨y, after⟩⟩
      · rfl
      · rfl
      · rw [urldec_loop, if_neg hb]
    rw [List.cons_append, hstep, ih fun hin => h (List.mem_cons_of_mem _ hin), Option.map_map]
    rfl

theorem loop_escape {h l v : UInt8} {after : Bytes} (hafter : after.head?.any continuation = false)
    (hv : from_str_radix h l = some v) :
    urldec_loop (0x25 :: h :: l :: after) = (urldec_loop after).map (v :: ·) := by
  rw [urldec_loop, if_pos rfl, hafter, hv]
  rfl

/-- A text does not begin in the middle of a character. -/
theorem encode_head (cs : List Char) : (encode cs).head?.any continuation = false := by
  rcases cs with _ | ⟨c, cs⟩
  · rfl
  · rcases utf8_shape c with ⟨hascii, henc⟩ | ⟨-, -, a, b, henc, -, hlead, -⟩ |
      ⟨-, a, b, d, more, henc, -, hlead, -, -⟩
    · have hall : ∀ n < 0x80, continuation (UInt8.ofNat n) = false := by decide
      simp [encode, henc, hall _ hascii]
    · simp [encode, henc, hlead]
    · simp [encode, henc, hlead]

/-! ## An encoded key -/

theorem hexDigit_digitChar : ∀ k < 16, (Nat.digitChar k).toNat < 0x80 ∧
    (Nat.digitChar k).toNat ≠ 0x25 ∧ (Nat.digitChar k).toNat ≠ 0x2B ∧
    hexDigit (UInt8.ofNat (Nat.digitChar k).toNat) = some (UInt8.ofNat k) := by
  decide

theorem encode_ascii {c : Char} (h : c.toNat < 0x80) (cs : List Char) :
    encode (c :: cs) = UInt8.ofNat c.toNat :: encode cs := by
  rcases utf8_shape c with ⟨-, henc⟩ | ⟨hlarge, -⟩ | ⟨hlarge, -⟩
  · simp [encode, henc]
  · omega
  · omega

/-- The hex of 16 and more begins with two digits, of which the code is made below 256. -/
theorem toDigits_two {n : Nat} (hn : 16 ≤ n) : ∃ k < 16, ∃ l < 16, ∃ more,
    Nat.toDigits 16 n = Nat.digitChar k :: Nat.digitChar l :: more ∧
      (∀ c ∈ more, ∃ j < 16, c = Nat.digitChar j) ∧ (n < 256 → more = [] ∧ k * 16 + l = n) ∧
      (256 ≤ n → more ≠ []) := by
  induction n using Nat.strong_induction_on with
  | _ n ih =>
    have hlast : Nat.toDigits 16 n = Nat.toDigits 16 (n / 16) ++ [Nat.digitChar (n % 16)] := by
      have h := Nat.toDigits_append_toDigits (b := 16) (n := n / 16) (d := n % 16) (by decide)
        (by omega) (Nat.mod_lt _ (by decide))
      rw [Nat.toDigits_of_lt_base (Nat.mod_lt _ (by decide)), Nat.div_add_mod] at h
      exact h.symm
    by_cases hsmall : n < 256
    · rw [Nat.toDigits_of_lt_base (show n / 16 < 16 by omega)] at hlast
      exact ⟨n / 16, by omega, n % 16, by omega, [], hlast, by simp, fun _ => ⟨rfl, by omega⟩,
        by omega⟩
    · obtain ⟨k, hk, l, hl, more, htop, hdigits, -⟩ := ih (n / 16) (by omega) (by omega)
      refine ⟨k, hk, l, hl, more ++ [Nat.digitChar (n % 16)], ?_, ?_, by omega, by simp⟩
      · rw [hlast, htop]
        rfl
      · intro c hc
        rcases List.mem_append.mp hc with hc | hc
        · exact hdigits c hc
        · exact ⟨n % 16, by omega, List.mem_singleton.mp hc⟩

theorem hex02_two (n : Nat) : ∃ k < 16, ∃ l < 16, ∃ more,
    hex02 n = Nat.digitChar k :: Nat.digitChar l :: more ∧
      (∀ c ∈ more, ∃ j < 16, c = Nat.digitChar j) ∧ (n < 256 → more = [] ∧ k * 16 + l = n) ∧
      (256 ≤ n → more ≠ []) := by
  unfold hex02
  split
  · rename_i h
    exact ⟨0, by decide, n, h, [], rfl, by simp, fun _ => ⟨rfl, by omega⟩, by omega⟩
  · rename_i h
    exact toDigits_two (by omega)

theorem unreserved_ascii {c : Char} (h : (c.isAlphanum || c = '-' || c = '_') = true) :
    c.toNat < 0x80 ∧ c.toNat ≠ 0x25 := by
  simp only [Bool.or_eq_true, decide_eq_true_eq] at h
  rcases h with (h | rfl) | rfl
  · change (decide (65 ≤ c.val ∧ c.val ≤ 90) || (decide (97 ≤ c.val) && decide (c.val ≤ 122)) ||
      (decide (48 ≤ c.val) && decide (c.val ≤ 57))) = true at h
    simp only [Bool.or_eq_true, Bool.and_eq_true, decide_eq_true_eq,
      UInt32.le_iff_toNat_le] at h
    change (((65 ≤ c.toNat ∧ c.toNat ≤ 90) ∨ (97 ≤ c.toNat ∧ c.toNat ≤ 122)) ∨
      (48 ≤ c.toNat ∧ c.toNat ≤ 57)) at h
    omega
  · decide
  · decide

theorem digits_ascii {ds : List Char} (h : ∀ c ∈ ds, ∃ j < 16, c = Nat.digitChar j) :
    0x25 ∉ encode ds ∧ ∀ a ∈ encode ds, a < 0x80 := by
  induction ds with
  | nil => simp
  | cons c ds ih =>
    obtain ⟨j, hj, rfl⟩ := h c List.mem_cons_self
    obtain ⟨hascii, hpercent, -, -⟩ := hexDigit_digitChar j hj
    obtain ⟨ihpercent, ihascii⟩ := ih fun c hc => h c (List.mem_cons_of_mem _ hc)
    have hbyte : (UInt8.ofNat (Nat.digitChar j).toNat).toNat = (Nat.digitChar j).toNat := by
      rw [UInt8.toNat_ofNat']
      omega
    rw [encode_ascii hascii]
    refine ⟨fun hin => ?_, fun a ha => ?_⟩
    · rcases List.mem_cons.mp hin with heq | hin
      · rw [← heq] at hbyte
        exact hpercent hbyte.symm
      · exact ihpercent hin
    · rcases List.mem_cons.mp ha with rfl | ha
      · rw [UInt8.lt_iff_toNat_lt, hbyte]
        exact hascii
      · exact ihascii a ha

/-- What `urldec` reads of an encoded key: a byte of a code below 256, and of a larger one a byte
and digits. -/
inductive Read : List Char → Bytes → Prop
  | nil : Read [] []
  | byte {c : Char} {cs : List Char} {d : Bytes} (hc : c.toNat < 256) (hd : Read cs d) :
      Read (c :: cs) (UInt8.ofNat c.toNat :: d)
  | wide {c : Char} {cs : List Char} {x d : Bytes} (hc : 256 ≤ c.toNat) (hx : ∃ a ∈ x, a < 0x80)
      (hd : Read cs d) : Read (c :: cs) (x ++ d)

theorem loop_urlenc_char (c : Char) {rest : Bytes} (hrest : rest.head?.any continuation = false) :
    ∃ x, urldec_loop (encode (urlenc_char c) ++ rest) = (urldec_loop rest).map (x ++ ·) ∧
      (c.toNat < 256 → x = [UInt8.ofNat c.toNat]) ∧ (256 ≤ c.toNat → ∃ a ∈ x, a < 0x80) := by
  unfold urlenc_char
  split
  · rename_i hplain
    obtain ⟨hascii, hpercent⟩ := unreserved_ascii hplain
    have henc : encode [c] = [UInt8.ofNat c.toNat] := encode_ascii hascii []
    refine ⟨[UInt8.ofNat c.toNat], ?_, fun _ => rfl, by omega⟩
    rw [henc]
    refine loop_other (fun hin => hpercent ?_) rest
    have hbyte := congrArg UInt8.toNat (List.mem_singleton.mp hin)
    rw [UInt8.toNat_ofNat'] at hbyte
    have : (0x25 : UInt8).toNat = 0x25 := rfl
    omega
  · obtain ⟨k, hk, l, hl, more, hhex, hdigits, hsmall, hlarge⟩ := hex02_two c.toNat
    obtain ⟨hpercent, hascii⟩ := digits_ascii hdigits
    obtain ⟨hk128, -, hkplus, hkvalue⟩ := hexDigit_digitChar k hk
    obtain ⟨hl128, -, -, hlvalue⟩ := hexDigit_digitChar l hl
    have hafter : (encode more ++ rest).head?.any continuation = false := by
      rcases hmore : encode more with _ | ⟨a, bs⟩
      · exact hrest
      · have ha := hascii a (by rw [hmore]; exact List.mem_cons_self)
        rcases hcont : continuation a with _ | _
        · simp [hcont]
        · exact absurd ha (continuation_high hcont)
    have hradix : from_str_radix (UInt8.ofNat (Nat.digitChar k).toNat)
        (UInt8.ofNat (Nat.digitChar l).toNat) = some (UInt8.ofNat k * 16 + UInt8.ofNat l) := by
      have hplus : UInt8.ofNat (Nat.digitChar k).toNat ≠ 0x2B := by
        intro heq
        have hbyte := congrArg UInt8.toNat heq
        rw [UInt8.toNat_ofNat'] at hbyte
        have : (0x2B : UInt8).toNat = 0x2B := rfl
        omega
      unfold from_str_radix
      rw [if_neg hplus, hkvalue, hlvalue]
      rfl
    refine ⟨(UInt8.ofNat k * 16 + UInt8.ofNat l) :: encode more, ?_, fun hc => ?_, fun hc => ?_⟩
    · rw [hhex, encode_ascii (by decide), encode_ascii hk128, encode_ascii hl128]
      have hloop := loop_escape hafter hradix
      rw [loop_other hpercent, Option.map_map] at hloop
      exact hloop
    · obtain ⟨rfl, hn⟩ := hsmall hc
      rw [← hn, UInt8.ofNat_add, UInt8.ofNat_mul]
      rfl
    · rcases hmore : encode more with _ | ⟨a, bs⟩
      · exact absurd (encode_eq_nil.mp hmore) (hlarge hc)
      · exact ⟨a, by simp, hascii a (by rw [hmore]; exact List.mem_cons_self)⟩

/-- The loop reads an encoded key without a panic. -/
theorem loop_urlenc (cs : List Char) :
    ∃ d, urldec_loop (encode (cs.flatMap urlenc_char)) = some d ∧ Read cs d := by
  induction cs with
  | nil => exact ⟨[], rfl, .nil⟩
  | cons c cs ih =>
    obtain ⟨d, hd, hread⟩ := ih
    obtain ⟨x, hx, hsmall, hlarge⟩ := loop_urlenc_char c (encode_head (cs.flatMap urlenc_char))
    refine ⟨x ++ d, ?_, ?_⟩
    · rw [List.flatMap_cons, encode_append, hx, hd]
      rfl
    · by_cases hc : c.toNat < 256
      · rw [hsmall hc]
        exact .byte hc hread
      · exact .wide (by omega) (hlarge (by omega)) hread

/-! ## What comes back -/

theorem Read.ascii {cs : List Char} {d : Bytes} (h : Read cs d) (hcs : ∀ c ∈ cs, c.toNat < 0x80) :
    d = encode cs := by
  induction h with
  | nil => rfl
  | byte hc hd ih =>
    rw [encode_ascii (hcs _ List.mem_cons_self), ih fun c hc => hcs c (List.mem_cons_of_mem _ hc)]
  | wide hc hx hd ih =>
    have := hcs _ List.mem_cons_self
    omega

theorem encode_cons (c : Char) (cs : List Char) :
    encode (c :: cs) = String.utf8EncodeChar c ++ encode cs := rfl

theorem ofNat_ascii {n : Nat} (hn : n < 256) : UInt8.ofNat n < 0x80 ↔ n < 0x80 := by
  rw [UInt8.lt_iff_toNat_lt, UInt8.toNat_ofNat', Nat.mod_eq_of_lt hn]
  rfl

theorem ascii_char (c : Char) :
    (String.utf8EncodeChar c).countP (· < 0x80) = if c.toNat < 0x80 then 1 else 0 := by
  split
  · rename_i hc
    have henc : String.utf8EncodeChar c = [UInt8.ofNat c.toNat] := by
      have := encode_ascii hc []
      rwa [encode_cons, encode_nil, List.append_nil] at this
    have hbyte := (ofNat_ascii (show c.toNat < 256 by omega)).mpr hc
    rw [henc, List.countP_cons_of_pos (by simpa using hbyte), List.countP_nil]
  · rename_i hc
    rw [List.countP_eq_zero]
    intro b hb hlt
    have hb128 : b.toNat < 128 := UInt8.lt_iff_toNat_lt.mp (of_decide_eq_true hlt)
    have := toNat_of_mem_utf8EncodeChar hb hb128
    omega

/-- A text has one byte of ASCII for each character of ASCII. -/
theorem ascii_of_encode (cs : List Char) :
    (encode cs).countP (· < 0x80) = cs.countP (fun c => c.toNat < 0x80) := by
  induction cs with
  | nil => rfl
  | cons c cs ih =>
    rw [encode_cons, List.countP_append, ih, List.countP_cons, ascii_char]
    simp only [decide_eq_true_eq]
    omega

/-- The digits of a large code are more ASCII than there was. -/
theorem Read.more_ascii {cs : List Char} {d : Bytes} (h : Read cs d) :
    cs.countP (fun c => c.toNat < 0x80) + cs.countP (fun c => 256 ≤ c.toNat) ≤
      d.countP (· < 0x80) := by
  induction h with
  | nil => exact Nat.le_refl _
  | byte hc hd ih =>
    rw [List.countP_cons, List.countP_cons, List.countP_cons]
    simp only [decide_eq_true_eq, ofNat_ascii hc]
    split <;> split <;> omega
  | wide hc hx hd ih =>
    obtain ⟨a, ha, hlt⟩ := hx
    have hpos : 0 < _ := List.countP_pos_iff.mpr
      (⟨a, ha, decide_eq_true hlt⟩ : ∃ a ∈ _, decide (a < (0x80 : UInt8)) = true)
    rw [List.countP_cons, List.countP_cons, List.countP_append]
    simp only [decide_eq_true_eq]
    split <;> omega

/-- Bytes for codes below 256 are one for a character, where a text has two. -/
theorem Read.length {cs : List Char} {d : Bytes} (h : Read cs d) (hcs : ∀ c ∈ cs, c.toNat < 256) :
    d.length = cs.length := by
  induction h with
  | nil => rfl
  | byte hc hd ih => simp [ih fun c hc => hcs c (List.mem_cons_of_mem _ hc)]
  | wide hc hx hd ih =>
    have := hcs _ List.mem_cons_self
    omega

theorem encode_length (cs : List Char) :
    cs.length + cs.countP (fun c => 0x80 ≤ c.toNat) ≤ (encode cs).length := by
  induction cs with
  | nil => exact Nat.le_refl _
  | cons c cs ih =>
    rw [encode_cons, List.length_append, List.countP_cons, List.length_cons]
    rcases utf8_shape c with ⟨hascii, henc⟩ | ⟨-, -, a, b, henc, -⟩ | ⟨-, a, b, d, more, henc, -⟩
    · rw [henc, if_neg (by simpa using hascii)]
      simp
      omega
    · rw [henc]
      split <;> simp <;> omega
    · rw [henc]
      split <;> simp <;> omega

/-- A text of codes below 256 has no lead byte of three. -/
theorem no_lead_of_three {cs : List Char} (hcs : ∀ c ∈ cs, c.toNat < 256) : 0xEF ∉ encode cs := by
  intro h
  obtain ⟨c, hc, hb⟩ := List.mem_flatMap.mp h
  have hsmall := hcs c hc
  have hval : c.val.toNat = c.toNat := rfl
  have hbyte : (0xEF : UInt8).toNat = 0xEF := rfl
  unfold String.utf8EncodeChar at hb
  simp only [hval] at hb
  rw [if_pos (show c.toNat ≤ 0x7ff by omega)] at hb
  split at hb
  · have := congrArg UInt8.toNat (List.mem_singleton.mp hb)
    rw [UInt8.toNat_ofNat', hbyte] at this
    omega
  · rcases List.mem_cons.mp hb with heq | hb
    · have := congrArg UInt8.toNat heq
      rw [UInt8.toNat_ofNat', hbyte] at this
      omega
    · have := congrArg UInt8.toNat (List.mem_singleton.mp hb)
      rw [UInt8.toNat_ofNat', hbyte] at this
      omega

theorem encode_all_ascii {cs : List Char} (hcs : ∀ c ∈ cs, c.toNat < 0x80) :
    ∀ b ∈ encode cs, b < 0x80 := by
  induction cs with
  | nil => simp
  | cons c cs ih =>
    have hc := hcs c List.mem_cons_self
    rw [encode_ascii hc]
    intro b hb
    rcases List.mem_cons.mp hb with rfl | hb
    · exact (ofNat_ascii (by omega)).mpr hc
    · exact ih (fun c hc => hcs c (List.mem_cons_of_mem _ hc)) b hb

/-- What is read of an encoded key is the key where the key is ASCII, and nowhere else. -/
theorem Read.lossy_iff {cs : List Char} {d : Bytes} (h : Read cs d) :
    from_utf8_lossy d = encode cs ↔ ∀ c ∈ cs, c.toNat < 0x80 := by
  constructor
  · intro hback
    -- digits of a large code would be ASCII that the key has not
    have hcount := h.more_ascii
    rw [← ascii_of_lossy, hback, ascii_of_encode] at hcount
    have hsmall : ∀ c ∈ cs, c.toNat < 256 := by
      intro c hc
      by_contra hlarge
      have hpos : 0 < cs.countP (fun c => 256 ≤ c.toNat) :=
        List.countP_pos_iff.mpr ⟨c, hc, by simpa using hlarge⟩
      omega
    -- and below 256 a byte would be two
    have hd : d = encode cs := by
      rw [← hback]
      exact (lossy_eq_self (hback ▸ no_lead_of_three hsmall)).symm
    have hlength := h.length hsmall
    have hlong := encode_length cs
    rw [← hd, hlength] at hlong
    intro c hc
    by_contra hhigh
    have hpos : 0 < cs.countP (fun c => 0x80 ≤ c.toNat) :=
      List.countP_pos_iff.mpr ⟨c, hc, by simpa using hhigh⟩
    omega
  · intro hcs
    rw [h.ascii hcs]
    exact lossy_of_ascii (encode_all_ascii hcs)

theorem urldec_urlenc (s : String) :
    urldec (urlenc s) = some (utf8 s) ↔ ∀ c ∈ s.toList, c.toNat < 0x80 := by
  obtain ⟨d, hloop, hread⟩ := loop_urlenc s.toList
  unfold urldec urlenc
  rw [utf8_eq_encode, utf8_eq_encode, String.toList_ofList, hloop, Option.map_some,
    Option.some.injEq]
  exact hread.lossy_iff

/-! ## Escapes that cut a character -/

/-- Behind a percent sign: the third byte is inside of a character. -/
def cut : List Char → Bool
  | a :: b :: _ => 0x800 ≤ a.toNat || (a.toNat < 0x80 && 0x80 ≤ b.toNat)
  | [a] => 0x800 ≤ a.toNat
  | [] => false

def bad_escape : List Char → Bool
  | [] => false
  | c :: rest => (c = '%' && cut rest) || bad_escape rest

theorem hexDigit_range {b v : UInt8} (h : hexDigit b = some v) : 48 ≤ b.toNat ∧ b.toNat ≤ 102 := by
  have hle : ∀ {x y : UInt8}, x ≤ y → x.toNat ≤ y.toNat := UInt8.le_iff_toNat_le.mp
  unfold hexDigit at h
  split at h
  · rename_i hin
    exact ⟨hle hin.1, (hle hin.2).trans (by decide)⟩
  · split at h
    · rename_i hin
      exact ⟨le_trans (by decide) (hle hin.1), (hle hin.2).trans (by decide)⟩
    · split at h
      · rename_i hin
        exact ⟨le_trans (by decide) (hle hin.1), hle hin.2⟩
      · cases h

/-- Two digits, or a plus and a digit, are ASCII and no percent sign. -/
theorem from_str_radix_ascii {h l v : UInt8} (hv : from_str_radix h l = some v) :
    (h.toNat < 0x80 ∧ h.toNat ≠ 0x25) ∧ l.toNat < 0x80 ∧ l.toNat ≠ 0x25 := by
  unfold from_str_radix at hv
  split at hv
  · rename_i hplus
    have hl := hexDigit_range hv
    have : h.toNat = 0x2B := congrArg UInt8.toNat hplus
    omega
  · obtain ⟨x, hx, hv⟩ := Option.bind_eq_some_iff.mp hv
    obtain ⟨y, hy, -⟩ := Option.map_eq_some_iff.mp hv
    have hh := hexDigit_range hx
    have hl := hexDigit_range hy
    omega

theorem bad_escape_cons {c : Char} (hc : c ≠ '%') (cs : List Char) :
    bad_escape (c :: cs) = bad_escape cs := by
  simp [bad_escape, hc]

theorem loop_cons {c : Char} (hc : c ≠ '%') (cs : List Char) :
    (urldec_loop (encode (c :: cs))).isNone = (urldec_loop (encode cs)).isNone := by
  have hbytes : 0x25 ∉ String.utf8EncodeChar c := by
    intro hin
    have := toNat_of_mem_utf8EncodeChar hin (by decide)
    exact hc (Char.toNat_inj.mp this)
  rw [encode_cons, loop_other hbytes]
  cases urldec_loop (encode cs) <;> rfl

/-- What stands behind a percent sign: less than two bytes, two characters of ASCII, one of two
bytes, or the beginning of a character that goes on. -/
inductive Behind : List Char → Prop
  | short {cs : List Char} (h : (encode cs).length < 2) (hcut : cut cs = false) : Behind cs
  | ascii {a b : Char} {cs : List Char} (ha : a.toNat < 0x80) (hb : b.toNat < 0x80) :
      Behind (a :: b :: cs)
  | pair {a : Char} {cs : List Char} {h l : UInt8} (ha : String.utf8EncodeChar a = [h, l])
      (hh : 0x80 ≤ h) (hcut : cut (a :: cs) = false) : Behind (a :: cs)
  | cut {cs : List Char} {h l x : UInt8} {more : Bytes} (hbytes : encode cs = h :: l :: x :: more)
      (hx : continuation x = true) (hcut : cut cs = true) : Behind cs

theorem behind (cs : List Char) : Behind cs := by
  rcases cs with _ | ⟨a, cs⟩
  · exact .short (by decide) rfl
  rcases utf8_shape a with ⟨hascii, henc⟩ | ⟨hhigh, hpair, h, l, henc, hh, -⟩ |
    ⟨hlarge, h, l, x, more, henc, -, -, -, hx⟩
  · rcases cs with _ | ⟨b, cs⟩
    · refine .short ?_ (decide_eq_false (by omega))
      simp [encode_cons, henc]
    · have hcut : 0x80 ≤ b.toNat → cut (a :: b :: cs) = true := by
        intro hb
        simp [cut, hb, hascii]
      rcases utf8_shape b with ⟨hb, -⟩ | ⟨hb, -, l, x, hencb, -, -, hx⟩ |
        ⟨hb, l, x, y, more, hencb, -, -, hx, -⟩
      · exact .ascii hascii hb
      · have hbytes : encode (a :: b :: cs) = UInt8.ofNat a.toNat :: l :: x :: encode cs := by
          rw [encode_cons, encode_cons, henc, hencb]
          rfl
        exact .cut hbytes hx (hcut hb)
      · have hbytes : encode (a :: b :: cs) =
            UInt8.ofNat a.toNat :: l :: x :: (y :: more ++ encode cs) := by
          rw [encode_cons, encode_cons, henc, hencb]
          rfl
        exact .cut hbytes hx (hcut (by omega))
  · refine .pair henc hh ?_
    rcases cs with _ | ⟨b, cs⟩
    · exact decide_eq_false (by omega)
    · simp [cut, Nat.not_lt.mpr hhigh, hpair]
  · have hbytes : encode (a :: cs) = h :: l :: x :: (more ++ encode cs) := by
      rw [encode_cons, henc]
      rfl
    refine .cut hbytes hx ?_
    rcases cs with _ | ⟨b, cs⟩
    · exact decide_eq_true hlarge
    · simp [cut, hlarge]

theorem loop_short {bs : Bytes} (h : bs.length < 2) :
    urldec_loop (0x25 :: bs) = (urldec_loop bs).map (0x25 :: ·) := by
  rcases bs with _ | ⟨x, _ | ⟨y, bs⟩⟩
  · rfl
  · rfl
  · simp only [List.length_cons] at h
    omega

/-- Two bytes that are no digits stay behind their percent sign. -/
theorem loop_no_digits {h l : UInt8} {after : Bytes} (hafter : after.head?.any continuation = false)
    (hradix : from_str_radix h l = none) :
    urldec_loop (0x25 :: h :: l :: after) = (urldec_loop (h :: l :: after)).map (0x25 :: ·) := by
  rw [urldec_loop, if_pos rfl, hafter, hradix]
  rfl

/-- The loop panics at a text with an escape that cuts a character, and nowhere else. -/
theorem loop_isNone (cs : List Char) : (urldec_loop (encode cs)).isNone = bad_escape cs := by
  induction hn : cs.length using Nat.strong_induction_on generalizing cs with
  | _ n ih =>
    subst hn
    rcases cs with _ | ⟨c, cs⟩
    · rfl
    by_cases hc : c = '%'
    · subst hc
      have hpercent : encode ('%' :: cs) = 0x25 :: encode cs := encode_ascii (by decide) cs
      have hbad : bad_escape ('%' :: cs) = (cut cs || bad_escape cs) := by simp [bad_escape]
      rw [hpercent, hbad]
      have hrest := ih _ (by simp) cs rfl
      cases behind cs with
      | short h hcut => rw [loop_short h, hcut, Option.isNone_map, hrest, Bool.false_or]
      | @ascii a b cs ha hb =>
        have hcut : cut (a :: b :: cs) = false := by
          simp [cut]
          omega
        rw [hcut, Bool.false_or]
        have hbytes : encode (a :: b :: cs) =
            UInt8.ofNat a.toNat :: UInt8.ofNat b.toNat :: encode cs := by
          rw [encode_ascii ha, encode_ascii hb]
        rw [hbytes] at hrest ⊢
        rcases hradix : from_str_radix (UInt8.ofNat a.toNat) (UInt8.ofNat b.toNat) with _ | v
        · rw [loop_no_digits (encode_head cs) hradix, Option.isNone_map, hrest]
        · have hdigits := from_str_radix_ascii hradix
          rw [UInt8.toNat_ofNat', UInt8.toNat_ofNat'] at hdigits
          have ha' : a ≠ '%' := by
            rintro rfl
            exact hdigits.1.2 rfl
          have hb' : b ≠ '%' := by
            rintro rfl
            exact hdigits.2.2 rfl
          rw [loop_escape (encode_head cs) hradix, Option.isNone_map, bad_escape_cons ha',
            bad_escape_cons hb']
          exact ih cs.length (by simp only [List.length_cons]; omega) cs rfl
      | @pair a cs h l ha hh hcut =>
        have hbytes : encode (a :: cs) = h :: l :: encode cs := by
          rw [encode_cons, ha]
          rfl
        have hradix : from_str_radix h l = none := by
          rcases hradix : from_str_radix h l with _ | v
          · rfl
          · have := (from_str_radix_ascii hradix).1.1
            have hle : (0x80 : UInt8).toNat ≤ h.toNat := UInt8.le_iff_toNat_le.mp hh
            exact absurd hle (by simpa using this)
        rw [hbytes] at hrest ⊢
        rw [loop_no_digits (encode_head cs) hradix, Option.isNone_map, hrest, hcut, Bool.false_or]
      | cut hbytes hx hcut =>
        rw [hbytes, hcut, urldec_loop, if_pos rfl]
        simp [hx]
    · rw [loop_cons hc, bad_escape_cons hc]
      exact ih _ (by simp) cs rfl

theorem urldec_isNone (s : String) : (urldec s).isNone = bad_escape s.toList := by
  unfold urldec
  rw [Option.isNone_map, utf8_eq_encode, loop_isNone]

/-! ## Files and URLs -/

/-- The keys come back from their names and have a file and a URL each, and a text is read without
a panic. -/
structure RoundTrip (dir : List String) (base : String) (keys : Set String) (text : String) : Prop where
  back : ∀ s ∈ keys, urldec (urlenc s) = some (utf8 s)
  files : ∀ s ∈ keys, ∀ t ∈ keys, FolderTransport.path dir s = FolderTransport.path dir t → s = t
  urls : ∀ s ∈ keys, ∀ t ∈ keys, RelayTransport.url base s = RelayTransport.url base t → s = t
  total : (urldec text).isSome = true

theorem path_inj {dir : List String} {s t : String}
    (h : FolderTransport.path dir s = FolderTransport.path dir t) : urlenc s = urlenc t := by
  have hname := List.singleton_inj.mp (List.append_cancel_left h)
  have hchars := congrArg String.toList hname
  rw [String.toList_append, String.toList_append] at hchars
  exact String.toList_inj.mp (List.append_cancel_right hchars)

theorem url_inj {base s t : String} (h : RelayTransport.url base s = RelayTransport.url base t) :
    urlenc s = urlenc t := by
  have hchars := congrArg String.toList h
  simp only [RelayTransport.url, String.toList_append] at hchars
  exact String.toList_inj.mp (List.append_cancel_left hchars)

/-- Keys round-trip, each with a file and a URL of its own, exactly where they are ASCII; a text is
read exactly where it has no escape that cuts a character. -/
theorem round_trip_iff (dir : List String) (base : String) (keys : Set String) (text : String) :
    RoundTrip dir base keys text ↔
      (∀ s ∈ keys, ∀ c ∈ s.toList, c.toNat < 0x80) ∧ bad_escape text.toList = false := by
  constructor
  · rintro ⟨hback, -, -, htotal⟩
    refine ⟨fun s hs => (urldec_urlenc s).mp (hback s hs), ?_⟩
    rw [← urldec_isNone, ← Option.not_isSome, htotal]
    rfl
  · rintro ⟨hascii, hescape⟩
    have hback : ∀ s ∈ keys, urldec (urlenc s) = some (utf8 s) :=
      fun s hs => (urldec_urlenc s).mpr (hascii s hs)
    have hinj : ∀ s ∈ keys, ∀ t ∈ keys, urlenc s = urlenc t → s = t := by
      intro s hs t ht heq
      have hsame := hback s hs
      rw [heq, hback t ht] at hsame
      exact (utf8_inj.mp (Option.some.inj hsame)).symm
    refine ⟨hback, fun s hs t ht h => hinj s hs t ht (path_inj h),
      fun s hs t ht h => hinj s hs t ht (url_inj h), ?_⟩
    rw [← Option.not_isNone, urldec_isNone, hescape]
    rfl

/-- An accented letter comes back as U+FFFD, two keys have one file, and a text is not read. -/
theorem keys_lost :
    ¬ RoundTrip ["sync"] "http://127.0.0.1:7900" {"é"} "" ∧
      ¬ RoundTrip ["sync"] "http://127.0.0.1:7900" {"⸭", ".2d"} "" ∧
      ¬ RoundTrip ["sync"] "http://127.0.0.1:7900" ∅ "%a€" := by
  refine ⟨fun h => ?_, fun h => ?_, fun h => ?_⟩
  · have hback := h.back "é" rfl
    revert hback
    decide
  · have hsame := h.files "⸭" (.inl rfl) ".2d" (.inr rfl) (by decide)
    revert hsame
    decide
  · have htotal := h.total
    revert htotal
    decide

end pai_sync.keys
