-- Text as the functions of `str` see it: a list of characters, with the
-- whitespace and the UTF-8 of Unicode.
import Mathlib.Data.List.DropRight
import PersonalAi.Lib.Text

namespace text

/-! ## The functions -/

/-- `char::is_whitespace`: the Unicode property `White_Space`. -/
def is_whitespace (c : Char) : Bool :=
  let n := c.toNat
  n == 0x20 || (9 ≤ n && n ≤ 13) || n == 0x85 || n == 0xA0 || n == 0x1680 ||
    (0x2000 ≤ n && n ≤ 0x200A) || n == 0x2028 || n == 0x2029 || n == 0x202F || n == 0x205F ||
    n == 0x3000

def trim_start (cs : List Char) : List Char := cs.dropWhile is_whitespace

def trim_end (cs : List Char) : List Char := cs.rdropWhile is_whitespace

def trim (cs : List Char) : List Char := trim_start (trim_end cs)

/-- `str::split_once`: what stands before and after the first `c`. -/
def split_once (c : Char) : List Char → Option (List Char × List Char)
  | [] => none
  | d :: rest =>
    if d = c then some ([], rest)
    else (split_once c rest).map (fun p => (d :: p.1, p.2))

/-- `str::rsplit_once`: what stands before and after the last `c`. -/
def rsplit_once (c : Char) (cs : List Char) : Option (List Char × List Char) :=
  (split_once c cs.reverse).map (fun p => (p.2.reverse, p.1.reverse))

/-- What stands before and after the first occurrence of `pat`, as `str::find`
finds it. -/
def split_once_str (pat : List Char) : List Char → Option (List Char × List Char)
  | [] => if pat = [] then some ([], []) else none
  | c :: rest =>
    if pat.isPrefixOf (c :: rest) then some ([], (c :: rest).drop pat.length)
    else (split_once_str pat rest).map (fun p => (c :: p.1, p.2))

def contains_str (pat cs : List Char) : Bool := (split_once_str pat cs).isSome

/-- The loop of `str::replace` for a pattern that is not empty, with the number
of characters left of the occurrence it is in. -/
def replace_from (pat new : List Char) : Nat → List Char → List Char
  | _, [] => []
  | skip + 1, _ :: rest => replace_from pat new skip rest
  | 0, c :: rest =>
    if pat.isPrefixOf (c :: rest) then new ++ replace_from pat new (pat.length - 1) rest
    else c :: replace_from pat new 0 rest

/-- `str::replace`: every occurrence, from left to right. -/
def replace (s pat new : String) : String :=
  String.ofList (replace_from pat.toList new.toList 0 s.toList)

/-- `str::strip_prefix`. -/
def strip_prefix (p s : String) : Option String :=
  if p.toList.isPrefixOf s.toList then some (String.ofList (s.toList.drop p.toList.length)) else none

/-- The first part of `str::split`. -/
def first_part (c : Char) (s : String) : String := String.ofList (s.toList.takeWhile (· ≠ c))

/-- The first item of `str::split_whitespace`. -/
def first_word (cs : List Char) : Option (List Char) :=
  match trim_start cs with
  | [] => none
  | rest => some (rest.takeWhile (fun c => !is_whitespace c))

def eq_ignore_ascii_case (a b : List Char) : Bool := a.map Char.toLower == b.map Char.toLower

/-- `str::parse` at `u16`: an optional plus sign, then decimal digits. -/
def parse_u16 (cs : List Char) : Option UInt16 :=
  let digits := match cs with
    | '+' :: rest => rest
    | _ => cs
  if digits = [] ∨ digits.any (fun c => !c.isDigit) then none
  else
    let n := Nat.ofDigitChars 10 digits 0
    if n < 65536 then some (UInt16.ofNat n) else none

/-- `str::parse` at `i64`: an optional sign, then decimal digits. -/
def parse_i64 (cs : List Char) : Option Int :=
  let (negative, digits) := match cs with
    | '+' :: rest => (false, rest)
    | '-' :: rest => (true, rest)
    | _ => (false, cs)
  if digits = [] ∨ digits.any (fun c => !c.isDigit) then none
  else
    let n : Int := Nat.ofDigitChars 10 digits 0
    let n := if negative then -n else n
    if -9223372036854775808 ≤ n ∧ n ≤ 9223372036854775807 then some n else none

/-- The UTF-8 bytes of a list of characters. -/
def encode (cs : List Char) : Bytes := cs.flatMap String.utf8EncodeChar

/-- `str::from_utf8`. -/
def from_utf8 (b : Bytes) : Option (List Char) := b.toByteArray.utf8Decode?.map Array.toList

/-! ## UTF-8 -/

theorem utf8_eq_encode (s : String) : utf8 s = encode s.toList := rfl

@[simp] theorem encode_nil : encode [] = [] := rfl

@[simp] theorem encode_append (a b : List Char) : encode (a ++ b) = encode a ++ encode b := by
  simp [encode]

@[simp] theorem encode_eq_nil {cs : List Char} : encode cs = [] ↔ cs = [] := by
  cases cs with
  | nil => simp
  | cons c cs => simp [encode]

@[simp] theorem from_utf8_encode (cs : List Char) : from_utf8 (encode cs) = some cs := by
  have h : (encode cs).toByteArray = cs.utf8Encode := rfl
  simp [from_utf8, h]

theorem encode_inj {a b : List Char} : encode a = encode b ↔ a = b := by
  constructor
  · intro h
    have hdecoded := congrArg from_utf8 h
    rw [from_utf8_encode, from_utf8_encode] at hdecoded
    exact Option.some.inj hdecoded
  · intro h
    rw [h]

theorem utf8_inj {s t : String} : utf8 s = utf8 t ↔ s = t := by
  rw [utf8_eq_encode, utf8_eq_encode, encode_inj, String.toList_inj]

theorem length_le_encode (cs : List Char) : cs.length ≤ (encode cs).length := by
  induction cs with
  | nil => exact Nat.le_refl _
  | cons c cs ih =>
    have hpos := Char.utf8Size_pos c
    have hsplit : encode (c :: cs) = String.utf8EncodeChar c ++ encode cs := rfl
    rw [hsplit, List.length_append, List.length_cons, String.length_utf8EncodeChar]
    omega

/-- An ASCII byte in the encoding of a character is the whole character. -/
theorem toNat_of_mem_utf8EncodeChar {c : Char} {b : UInt8} (h : b ∈ String.utf8EncodeChar c)
    (hb : b.toNat < 128) : c.toNat = b.toNat := by
  have hc : c.val.toNat = c.toNat := rfl
  unfold String.utf8EncodeChar at h
  simp only [hc] at h
  split_ifs at h <;> simp only [List.mem_cons, List.not_mem_nil, or_false] at h
  · subst h
    simp only [UInt8.toNat_ofNat']
    omega
  all_goals
    exfalso
    rcases h with rfl | rfl | rfl | rfl | h <;> simp only [UInt8.toNat_ofNat'] at hb <;> omega

/-- The encoding of a text has a line feed only where the text has one. -/
theorem lf_mem_encode {cs : List Char} (h : (10 : UInt8) ∈ encode cs) : '\n' ∈ cs := by
  simp only [encode, List.mem_flatMap] at h
  obtain ⟨c, hc, hb⟩ := h
  have hn : c.toNat = 10 := toNat_of_mem_utf8EncodeChar hb (by decide)
  have : c = '\n' := Char.toNat_inj.mp hn
  rwa [this] at hc

/-- The encoding of a text ends with a carriage return only when the text
does. -/
theorem getLast?_encode_cr {cs : List Char} (h : (encode cs).getLast? = some 13) :
    cs.getLast? = some '\r' := by
  rcases List.eq_nil_or_concat cs with rfl | ⟨init, c, rfl⟩
  · simp at h
  · have hmem : (13 : UInt8) ∈ String.utf8EncodeChar c := by
      have hc : encode [c] = String.utf8EncodeChar c := by simp [encode]
      rw [List.concat_eq_append, encode_append, hc,
        List.getLast?_append_of_ne_nil _ String.utf8EncodeChar_ne_nil] at h
      exact List.mem_of_getLast? h
    have hn : c.toNat = 13 := toNat_of_mem_utf8EncodeChar hmem (by decide)
    have : c = '\r' := Char.toNat_inj.mp hn
    simp [this]

/-! ## Trimming -/

theorem trim_eq_self {cs : List Char} (h : trim cs = cs) :
    trim_start cs = cs ∧ trim_end cs = cs := by
  have hend : trim_end cs = cs := by
    have hle : cs.length ≤ (trim_end cs).length := by
      calc cs.length = (trim cs).length := by rw [h]
        _ ≤ (trim_end cs).length := List.length_dropWhile_le _ _
    exact (List.rdropWhile_prefix is_whitespace cs).eq_of_length_le hle
  refine ⟨?_, hend⟩
  rwa [trim, hend] at h

/-- A text that trims to itself does not end with a carriage return. -/
theorem trimmed_no_cr {cs : List Char} (h : trim_end cs = cs) : cs.getLast? ≠ some '\r' := by
  intro hlast
  have hne : cs ≠ [] := by
    rintro rfl
    simp at hlast
  have hkeep := List.rdropWhile_eq_self_iff.mp h hne
  rw [List.getLast?_eq_getLast_of_ne_nil hne, Option.some.injEq] at hlast
  rw [hlast] at hkeep
  exact hkeep (by decide)

/-- The end of a text decides what `trim_end` does to the whole. -/
theorem trim_end_append {a b : List Char} (hb : b ≠ []) (h : trim_end b = b) :
    trim_end (a ++ b) = a ++ b := by
  refine List.rdropWhile_eq_self_iff.mpr ?_
  intro hl
  rw [List.getLast_append_of_ne_nil _ hb]
  exact List.rdropWhile_eq_self_iff.mp h hb

theorem trim_space_cons (cs : List Char) (h : trim cs = cs) (hne : cs ≠ []) :
    trim (' ' :: cs) = cs := by
  obtain ⟨hstart, hend⟩ := trim_eq_self h
  have hall : trim_end ([' '] ++ cs) = [' '] ++ cs := trim_end_append hne hend
  have hcons : ' ' :: cs = [' '] ++ cs := rfl
  rw [hcons, trim, hall]
  simp only [trim_start, List.cons_append, List.nil_append, List.dropWhile_cons]
  rw [if_pos (by decide)]
  exact hstart

theorem strip_prefix_eq_some {p s r : String} : strip_prefix p s = some r ↔ s = p ++ r := by
  unfold strip_prefix
  constructor
  · intro h
    split at h
    · rename_i hp
      obtain ⟨t, ht⟩ := List.isPrefixOf_iff_prefix.mp hp
      rw [Option.some.injEq, ← ht, List.drop_left] at h
      rw [← h, ← String.toList_inj, String.toList_append, String.toList_ofList, ht]
    · cases h
  · rintro rfl
    rw [String.toList_append, if_pos (List.isPrefixOf_iff_prefix.mpr (List.prefix_append _ _)),
      List.drop_left, String.ofList_toList]

@[simp] theorem strip_prefix_append (p s : String) : strip_prefix p (p ++ s) = some s :=
  strip_prefix_eq_some.mpr rfl

theorem strip_prefix_other {p q : String} (hp : ¬ p.toList <+: q.toList)
    (hq : ¬ q.toList <+: p.toList) (s : String) : strip_prefix p (q ++ s) = none := by
  unfold strip_prefix
  rw [if_neg]
  intro h
  rw [String.toList_append] at h
  exact (List.prefix_or_prefix_of_prefix (List.isPrefixOf_iff_prefix.mp h)
    (List.prefix_append _ _)).elim hp hq

theorem split_once_append (c : Char) (a b : List Char) (h : c ∉ a) :
    split_once c (a ++ c :: b) = some (a, b) := by
  induction a with
  | nil => simp [split_once]
  | cons d a ih =>
    simp only [List.mem_cons, not_or] at h
    simp only [List.cons_append, split_once, if_neg (Ne.symm h.1), ih h.2, Option.map_some]

theorem rsplit_once_append (c : Char) (a b : List Char) (h : c ∉ b) :
    rsplit_once c (a ++ c :: b) = some (a, b) := by
  have hrev : (a ++ c :: b).reverse = b.reverse ++ c :: a.reverse := by simp
  rw [rsplit_once, hrev, split_once_append c _ _ (by simpa using h)]
  simp

/-! ## Numbers -/

theorem not_whitespace_of_isDigit {c : Char} (h : c.isDigit) : is_whitespace c = false := by
  have hn : 48 ≤ c.toNat ∧ c.toNat ≤ 57 := by
    simp only [Char.isDigit, ge_iff_le, Bool.and_eq_true, decide_eq_true_eq,
      UInt32.le_iff_toNat_le] at h
    exact h
  simp only [is_whitespace, Bool.or_eq_false_iff, Bool.and_eq_false_iff, beq_eq_false_iff_ne,
    decide_eq_false_iff_not]
  omega

/-- A decimal numeral is all digits, and not empty. -/
theorem digits_of_nat (n : Nat) :
    (toString n).toList ≠ [] ∧ ∀ c ∈ (toString n).toList, c.isDigit := by
  have h : (toString n).toList = Nat.toDigits 10 n := by simp
  rw [h]
  exact ⟨Nat.toDigits_ne_nil, fun c hc => Nat.isDigit_of_mem_toDigits (by decide) (by decide) hc⟩

theorem trim_of_no_whitespace {cs : List Char} (h : ∀ c ∈ cs, is_whitespace c = false) :
    trim cs = cs := by
  have hend : trim_end cs = cs := by
    refine List.rdropWhile_eq_self_iff.mpr ?_
    intro hl
    simp [h _ (List.getLast_mem hl)]
  have hstart : trim_start cs = cs := by
    cases cs with
    | nil => rfl
    | cons c cs => simp [trim_start, h c (by simp)]
  rw [trim, hend, hstart]

theorem first_word_of_no_whitespace {cs : List Char} (hne : cs ≠ [])
    (h : ∀ c ∈ cs, is_whitespace c = false) : first_word cs = some cs := by
  have hstart : trim_start cs = cs := by
    cases cs with
    | nil => rfl
    | cons c cs => simp [trim_start, h c (by simp)]
  have hall : cs.takeWhile (fun c => !is_whitespace c) = cs := by
    rw [List.takeWhile_eq_self_iff]
    intro c hc
    simp [h c hc]
  unfold first_word
  rw [hstart]
  cases cs with
  | nil => exact absurd rfl hne
  | cons c cs => simp only [hall]

/-- `parse` reads back what `Display` wrote. -/
theorem parse_u16_toString (n : UInt16) : parse_u16 (toString n.toNat).toList = some n := by
  obtain ⟨hne, hdigit⟩ := digits_of_nat n.toNat
  have hplus : ∀ rest, (toString n.toNat).toList ≠ '+' :: rest := by
    intro rest h
    have := hdigit '+' (by rw [h]; simp)
    exact absurd this (by decide)
  have hany : (toString n.toNat).toList.any (fun c => !c.isDigit) = false := by
    rw [List.any_eq_false]
    intro c hc
    simp [hdigit c hc]
  unfold parse_u16
  split
  · rename_i rest h
    exact absurd h (hplus rest)
  · have hval : Nat.ofDigitChars 10 (toString n.toNat).toList 0 = n.toNat := by simp
    have hlt : n.toNat < 65536 := n.toNat_lt
    simp only [hne, hany, hval, hlt, Bool.false_eq_true, or_self, if_false, if_true]
    simp

/-! ## Lines of a text -/

/-- The lines of a text whose line ends are CR LF or LF. -/
def text_lines (cs : List Char) : List (List Char) :=
  (replace_from ['\r', '\n'] ['\n'] 0 cs).splitOn '\n'

/-- A line end stands nowhere but in front of a line feed. -/
theorem not_crlf {c : Char} {cs : List Char} (h : cs.head? ≠ some '\n') :
    List.isPrefixOf ['\r', '\n'] (c :: cs) = false := by
  cases cs with
  | nil => simp [List.isPrefixOf]
  | cons d cs =>
    simp only [List.head?_cons, ne_eq, Option.some.injEq] at h
    simp [List.isPrefixOf, Ne.symm h]

theorem replace_crlf_line {l : List Char} (h : '\n' ∉ l) (rest : List Char) :
    replace_from ['\r', '\n'] ['\n'] 0 (l ++ '\r' :: '\n' :: rest) =
      l ++ '\n' :: replace_from ['\r', '\n'] ['\n'] 0 rest := by
  induction l with
  | nil => simp [replace_from]
  | cons c l ih =>
    simp only [List.mem_cons, not_or] at h
    have hhead : (l ++ '\r' :: '\n' :: rest).head? ≠ some '\n' := by
      cases l with
      | nil => simp
      | cons d l =>
        simp only [List.mem_cons, not_or] at h
        simp [Ne.symm h.2.1]
    rw [List.cons_append, replace_from, not_crlf hhead, if_neg Bool.false_ne_true, ih h.2,
      List.cons_append]

theorem replace_crlf_last {l : List Char} (h : '\n' ∉ l) :
    replace_from ['\r', '\n'] ['\n'] 0 l = l := by
  induction l with
  | nil => rfl
  | cons c l ih =>
    simp only [List.mem_cons, not_or] at h
    have hhead : l.head? ≠ some '\n' := fun hd => h.2 (List.mem_of_mem_head? hd)
    rw [replace_from, not_crlf hhead, if_neg Bool.false_ne_true, ih h.2]

theorem replace_lf (cs : List Char) :
    replace_from ['\n'] ['\r', '\n'] 0 cs = ['\r', '\n'].intercalate (cs.splitOn '\n') := by
  induction cs with
  | nil => rfl
  | cons c cs ih =>
    obtain ⟨l, ls, hsplit⟩ := List.exists_cons_of_ne_nil (List.splitOn_ne_nil '\n' cs)
    rw [List.splitOn_cons_eq_if_modifyHead]
    by_cases hc : c = '\n'
    · subst hc
      simp [replace_from, ih, hsplit, List.intercalate_cons_cons]
    · simp only [replace_from, List.isPrefixOf, hc, beq_iff_eq, if_false, ih, hsplit]
      cases ls <;> simp [List.intercalate_cons_cons, Ne.symm hc]

theorem text_lines_line {l : List Char} (h : '\n' ∉ l) (rest : List Char) :
    text_lines (l ++ '\r' :: '\n' :: rest) = l :: text_lines rest := by
  rw [text_lines, replace_crlf_line h, List.splitOn_append_cons_self_of_not_mem h, text_lines]

theorem text_lines_last {l : List Char} (h : '\n' ∉ l) : text_lines l = [l] := by
  rw [text_lines, replace_crlf_last h, List.splitOn_eq_singleton h]

theorem text_lines_ne_nil (cs : List Char) : text_lines cs ≠ [] := List.splitOn_ne_nil _ _

theorem free_of_mem_splitOn {c : Char} {cs l : List Char} (h : l ∈ cs.splitOn c) : c ∉ l := by
  induction cs generalizing l with
  | nil =>
    simp only [List.splitOn_nil, List.mem_singleton] at h
    simp [h]
  | cons d cs ih =>
    obtain ⟨m, ms, hsplit⟩ := List.exists_cons_of_ne_nil (List.splitOn_ne_nil c cs)
    rw [List.splitOn_cons_eq_if_modifyHead, hsplit] at h
    split at h
    · rcases List.mem_cons.mp h with rfl | h
      · simp
      · apply ih
        rwa [hsplit]
    · rename_i hd
      simp only [List.modifyHead_cons, List.mem_cons] at h
      have hne : c ≠ d := by
        rintro rfl
        simp at hd
      rcases h with rfl | h
      · have hm : c ∉ m := ih (by simp [hsplit])
        simp [hne, hm]
      · apply ih
        simp [hsplit, h]

/-- A text in pieces with one character between them holds that one and those of the pieces. -/
theorem mem_of_intercalate {c x : Char} {ls : List (List Char)} (hx : x ∈ [c].intercalate ls) :
    x = c ∨ ∃ l ∈ ls, x ∈ l := by
  induction ls with
  | nil => cases hx
  | cons l ls ih =>
    cases ls with
    | nil =>
      rw [List.intercalate_singleton] at hx
      exact .inr ⟨l, List.mem_cons_self, hx⟩
    | cons m ls =>
      rw [List.intercalate_cons_cons, List.append_assoc, List.mem_append, List.mem_append,
        List.mem_singleton] at hx
      rcases hx with hx | hx | hx
      · exact .inr ⟨l, List.mem_cons_self, hx⟩
      · exact .inl hx
      · rcases ih hx with hx | ⟨p, hp, hx⟩
        · exact .inl hx
        · exact .inr ⟨p, List.mem_cons_of_mem _ hp, hx⟩

theorem mem_intercalate {c x : Char} {l : List Char} {ls : List (List Char)} (hl : l ∈ ls)
    (hx : x ∈ l) : x ∈ [c].intercalate ls := by
  induction ls with
  | nil => cases hl
  | cons m ls ih =>
    cases ls with
    | nil =>
      rw [List.mem_singleton] at hl
      rwa [List.intercalate_singleton, ← hl]
    | cons n ls =>
      rw [List.intercalate_cons_cons]
      rcases List.mem_cons.mp hl with rfl | hl
      · exact List.mem_append_left _ (List.mem_append_left _ hx)
      · exact List.mem_append_right _ (ih hl)

/-- A character of a text is the one that it is split at, or it is in one of the parts. -/
theorem mem_splitOn {c x : Char} {cs : List Char} (hx : x ∈ cs) :
    x = c ∨ ∃ l ∈ cs.splitOn c, x ∈ l := by
  apply mem_of_intercalate
  rwa [List.intercalate_splitOn]

theorem chars_of_splitOn {c x : Char} {cs l : List Char} (hl : l ∈ cs.splitOn c) (hx : x ∈ l) :
    x ∈ cs := by
  have hmem : x ∈ [c].intercalate (cs.splitOn c) := mem_intercalate hl hx
  rwa [List.intercalate_splitOn] at hmem

theorem free_of_mem_text_lines {cs l : List Char} (h : l ∈ text_lines cs) : '\n' ∉ l :=
  free_of_mem_splitOn h

/-- A text reads the same after its line ends are made CR LF. -/
theorem text_lines_intercalate {ls : List (List Char)} (hne : ls ≠ []) (h : ∀ l ∈ ls, '\n' ∉ l) :
    text_lines (['\r', '\n'].intercalate ls) = ls := by
  induction ls with
  | nil => exact absurd rfl hne
  | cons l ls ih =>
    simp only [List.forall_mem_cons] at h
    cases ls with
    | nil => rw [List.intercalate_singleton, text_lines_last h.1]
    | cons m ls =>
      have hrest := ih (by simp) h.2
      rw [List.intercalate_cons_cons, List.append_assoc]
      simp only [List.cons_append, List.nil_append]
      rw [text_lines_line h.1, hrest]

end text
