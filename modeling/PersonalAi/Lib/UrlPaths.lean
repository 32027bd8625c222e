-- The path of a URL for the web, as the parser of the URL standard reads it: the text behind the
-- authority, split at slashes, without its dot segments.
import PersonalAi.Lib.Hosts
import PersonalAi.Lib.Lower

open text hosts

namespace urls

/-! ## Percent-encoding -/

def hex_upper (n : Nat) : Char := (Nat.digitChar n).toUpper

def percent_byte (b : UInt8) : List Char := ['%', hex_upper (b.toNat / 16), hex_upper (b.toNat % 16)]

/-- The byte of a percent sign with two digits behind it. -/
def escaped (c : Char) (rest : List Char) : Option UInt8 :=
  if c ≠ '%' then none
  else
    match rest with
    | a :: b :: _ =>
      match digit_value a, digit_value b with
      | some x, some y => some (UInt8.ofNat (16 * x + y))
      | _, _ => none
    | _ => none

/-- The loop of the decoder, with the number of characters left of the escape it is in. -/
def decode_from : Nat → List Char → Bytes
  | _, [] => []
  | skip + 1, _ :: rest => decode_from skip rest
  | 0, c :: rest =>
    match escaped c rest with
    | some b => b :: decode_from 2 rest
    | none => String.utf8EncodeChar c ++ decode_from 0 rest

def percent_decode (cs : List Char) : Bytes := decode_from 0 cs

theorem digit_value_hex_upper {n : Nat} (h : n < 16) : digit_value (hex_upper n) = some n := by
  have hall : ∀ n < 16, digit_value (hex_upper n) = some n := by decide
  exact hall n h

/-- What is written as an escape is read as the byte. -/
theorem decode_percent_byte (b : UInt8) (rest : List Char) :
    percent_decode (percent_byte b ++ rest) = b :: percent_decode rest := by
  have hb : b.toNat < 256 := b.toNat_lt
  have hhigh := @digit_value_hex_upper (b.toNat / 16) (by omega)
  have hlow := @digit_value_hex_upper (b.toNat % 16) (by omega)
  have hvalue : UInt8.ofNat (16 * (b.toNat / 16) + b.toNat % 16) = b := by
    rw [Nat.div_add_mod, UInt8.ofNat_toNat]
  have hescaped : escaped '%' (hex_upper (b.toNat / 16) :: hex_upper (b.toNat % 16) :: rest) = some b := by
    simp [escaped, hhigh, hlow, hvalue]
  unfold percent_decode percent_byte
  rw [List.cons_append, List.cons_append, List.cons_append, List.nil_append, decode_from, hescaped]
  rfl

/-- A character that is no percent sign stands for itself. -/
theorem decode_plain {c : Char} (h : c ≠ '%') (rest : List Char) :
    percent_decode (c :: rest) = String.utf8EncodeChar c ++ percent_decode rest := by
  have hnone : escaped c rest = none := if_pos h
  unfold percent_decode
  rw [decode_from, hnone]

/-! ## Segments -/

def is_single_dot (seg : List Char) : Bool :=
  [".", "%2e"].any fun s => s.toList == seg.map Char.toLower

def is_double_dot (seg : List Char) : Bool :=
  ["..", ".%2e", "%2e.", "%2e%2e"].any fun s => s.toList == seg.map Char.toLower

def is_dot (seg : List Char) : Bool := is_single_dot seg || is_double_dot seg

/-- The characters that the parser of a path escapes. -/
def in_path_set (c : Char) : Bool :=
  decide (c.toNat ≤ 32) || decide (126 < c.toNat) || "\"#<>?^`\x7b\x7d".toList.contains c

def path_char (c : Char) : List Char :=
  if in_path_set c then (String.utf8EncodeChar c).flatMap percent_byte else [c]

/-- What a segment that another one follows does to a path. -/
def enter (path : List (List Char)) (seg : List Char) : List (List Char) :=
  if is_double_dot seg then path.dropLast else if is_single_dot seg then path else path ++ [seg]

/-- The segments of a path: the dot segments go, and a last one leaves an empty segment. -/
def walk : List (List Char) → List (List Char) → List (List Char)
  | path, [] => path
  | path, [last] => if is_dot last then enter path last ++ [[]] else path ++ [last]
  | path, seg :: rest => walk (enter path seg) rest

/-- The path of what stands behind the authority. -/
def read_path (cs : List Char) : List (List Char) :=
  let cs := cs.takeWhile fun c => c != '?' && c != '#'
  if cs = [] then [[]]
  else walk [] ((cs.splitOnP is_slash).tail.map fun seg => seg.flatMap path_char)

/-- The path that a client asks for, of the text of a URL for the web. -/
def client_path (url : List Char) : Option (List (List Char)) :=
  match split_scheme (clean url) with
  | none => none
  | some (scheme, rest) =>
    if scheme = "http".toList ∨ scheme = "https".toList then
      some (read_path ((rest.dropWhile is_slash).dropWhile fun c => !ends_authority c))
    else none

/-! ## Dots -/

theorem digit_value_toLower (c : Char) : digit_value c.toLower = digit_value c := by
  by_cases h : c.isUpper = true
  · obtain ⟨hlow, hhigh⟩ := isUpper_iff.mp h
    have hall : ∀ n < 26,
        digit_value (Char.ofNat (65 + n)).toLower = digit_value (Char.ofNat (65 + n)) := by decide
    have hc : Char.ofNat (65 + (c.toNat - 65)) = c := by
      rw [Nat.add_sub_cancel' hlow, Char.ofNat_toNat]
    rw [← hc]
    exact hall (c.toNat - 65) (by omega)
  · rw [Char.toLower_eq_of_not_isUpper h]

/-- The spellings of a dot are read as one. -/
theorem decode_dot_unit {spelled tail seg : List Char}
    (hspelled : spelled = ['.'] ∨ spelled = ['%', '2', 'e'])
    (h : seg.map Char.toLower = spelled ++ tail) :
    ∃ rest, percent_decode seg = 46 :: percent_decode rest ∧ rest.map Char.toLower = tail := by
  rcases hspelled with rfl | rfl
  · obtain ⟨c, rest, rfl, hc, htail⟩ := List.map_eq_cons_iff.mp h
    obtain rfl := eq_of_toLower hc (by decide)
    exact ⟨rest, decode_plain (by decide) rest, htail⟩
  · obtain ⟨p, cs, rfl, hp, h⟩ := List.map_eq_cons_iff.mp h
    obtain ⟨a, cs, rfl, ha, h⟩ := List.map_eq_cons_iff.mp h
    obtain ⟨b, rest, rfl, hb, htail⟩ := List.map_eq_cons_iff.mp h
    obtain rfl := eq_of_toLower hp (by decide)
    obtain rfl := eq_of_toLower ha (by decide)
    have hvalue : digit_value b = some 14 := by
      rw [← digit_value_toLower, hb]
      rfl
    have hescaped : escaped '%' ('2' :: b :: rest) = some 46 := by
      have htwo : digit_value '2' = some 2 := rfl
      simp [escaped, htwo, hvalue]
    refine ⟨rest, ?_, htail⟩
    unfold percent_decode
    rw [decode_from, hescaped]
    rfl

/-- A dot segment is read as one dot, or as two. -/
theorem decode_dot {seg : List Char} (h : is_dot seg = true) :
    percent_decode seg = utf8 "." ∨ percent_decode seg = utf8 ".." := by
  have hnil : ∀ rest : List Char, rest.map Char.toLower = [] → percent_decode rest = [] := by
    intro rest hrest
    rw [List.map_eq_nil_iff.mp hrest]
    rfl
  rcases Bool.or_eq_true_iff.mp h with hsingle | hdouble
  · obtain ⟨s, hs, heq⟩ := List.any_eq_true.mp hsingle
    have hspelled : s.toList = ['.'] ∨ s.toList = ['%', '2', 'e'] := by
      rcases List.mem_cons.mp hs with rfl | hs
      · exact .inl rfl
      · obtain rfl := List.mem_singleton.mp hs
        exact .inr rfl
    obtain ⟨rest, hread, hrest⟩ := decode_dot_unit hspelled
      ((beq_iff_eq.mp heq).symm.trans (List.append_nil _).symm)
    left
    rw [hread, hnil rest hrest]
    rfl
  · obtain ⟨s, hs, heq⟩ := List.any_eq_true.mp hdouble
    obtain ⟨first, second, hfirst, hsecond, hboth⟩ : ∃ first second : List Char,
        (first = ['.'] ∨ first = ['%', '2', 'e']) ∧ (second = ['.'] ∨ second = ['%', '2', 'e']) ∧
          s.toList = first ++ second := by
      simp only [List.mem_cons, List.not_mem_nil, or_false] at hs
      rcases hs with rfl | rfl | rfl | rfl
      · exact ⟨['.'], ['.'], .inl rfl, .inl rfl, rfl⟩
      · exact ⟨['.'], ['%', '2', 'e'], .inl rfl, .inr rfl, rfl⟩
      · exact ⟨['%', '2', 'e'], ['.'], .inr rfl, .inl rfl, rfl⟩
      · exact ⟨['%', '2', 'e'], ['%', '2', 'e'], .inr rfl, .inr rfl, rfl⟩
    obtain ⟨rest, hread, hrest⟩ := decode_dot_unit hfirst ((beq_iff_eq.mp heq).symm.trans hboth)
    obtain ⟨last, hread', hlast⟩ := decode_dot_unit hsecond (hrest.trans (List.append_nil _).symm)
    right
    rw [hread, hread', hnil last hlast]
    rfl

/-- Every spelling of a dot has a dot or a percent sign. -/
theorem sign_of_dot {seg : List Char} (h : is_dot seg = true) : ∃ c ∈ seg, c = '.' ∨ c = '%' := by
  obtain ⟨s, hs, heq⟩ : ∃ s ∈ [".", "%2e", "..", ".%2e", "%2e.", "%2e%2e"],
      s.toList = seg.map Char.toLower := by
    rcases Bool.or_eq_true_iff.mp h with h | h
    all_goals
      obtain ⟨s, hs, heq⟩ := List.any_eq_true.mp h
      refine ⟨s, ?_, beq_iff_eq.mp heq⟩
      simp only [List.mem_cons] at hs ⊢
      tauto
  have hall : [".", "%2e", "..", ".%2e", "%2e.", "%2e%2e"].all
      (fun s => s.toList.head?.any fun c => c == '.' || c == '%') = true := by decide
  have hhead := List.all_eq_true.mp hall s hs
  rw [heq] at hhead
  cases seg with
  | nil => cases hhead
  | cons c seg =>
    refine ⟨c, List.mem_cons_self, ?_⟩
    have hc : (c.toLower == '.' || c.toLower == '%') = true := hhead
    rw [Bool.or_eq_true, beq_iff_eq, beq_iff_eq] at hc
    exact hc.imp (fun h => eq_of_toLower h (by decide)) fun h => eq_of_toLower h (by decide)

/-! ## Walking -/

theorem enter_plain {seg : List Char} (h : is_dot seg = false) (path : List (List Char)) :
    enter path seg = path ++ [seg] := by
  obtain ⟨hsingle, hdouble⟩ := Bool.or_eq_false_iff.mp h
  rw [enter, hsingle, hdouble]
  rfl

theorem walk_cons (path : List (List Char)) (seg : List Char) {rest : List (List Char)}
    (h : rest ≠ []) : walk path (seg :: rest) = walk (enter path seg) rest := by
  cases rest with
  | nil => exact (h rfl).elim
  | cons next rest => rfl

theorem walk_last (path : List (List Char)) {seg : List Char} (h : is_dot seg = true) :
    walk path [seg] = enter path seg ++ [[]] := by
  rw [walk, if_pos h]

/-- A plain segment is a step down. -/
theorem walk_plain_cons {seg : List Char} (h : is_dot seg = false) (path rest : List (List Char)) :
    walk path (seg :: rest) = walk (path ++ [seg]) rest := by
  cases rest with
  | nil => exact if_neg (by simp [h])
  | cons next rest => rw [walk_cons _ _ (List.cons_ne_nil _ _), enter_plain h]

/-- Plain segments are a way down. -/
theorem walk_append (path : List (List Char)) {front : List (List Char)}
    (h : ∀ seg ∈ front, is_dot seg = false) (segs : List (List Char)) :
    walk path (front ++ segs) = walk (path ++ front) segs := by
  induction front generalizing path with
  | nil => rw [List.nil_append, List.append_nil]
  | cons seg front ih =>
    rw [List.cons_append, walk_plain_cons (h seg List.mem_cons_self),
      ih _ fun s hs => h s (List.mem_cons_of_mem _ hs), List.append_assoc]
    rfl

/-- A path without dot segments stays as it is. -/
theorem walk_plain (path : List (List Char)) {segs : List (List Char)}
    (h : ∀ seg ∈ segs, is_dot seg = false) : walk path segs = path ++ segs := by
  have hall := walk_append path h []
  rwa [List.append_nil] at hall

theorem enter_length_le (path : List (List Char)) (seg : List Char) :
    (enter path seg).length ≤ path.length + 1 := by
  unfold enter
  split
  · rw [List.length_dropLast]
    omega
  · split
    · omega
    · rw [List.length_append, List.length_singleton]

theorem enter_dot_length {seg : List Char} (h : is_dot seg = true) (path : List (List Char)) :
    (enter path seg).length ≤ path.length := by
  unfold enter
  split
  · rw [List.length_dropLast]
    omega
  · rename_i hdouble
    have hsingle : is_single_dot seg = true := by
      simpa [is_dot, hdouble] using h
    rw [if_pos hsingle]

theorem walk_length_le (path segs : List (List Char)) :
    (walk path segs).length ≤ path.length + segs.length := by
  induction segs generalizing path with
  | nil => exact Nat.le_refl _
  | cons seg segs ih =>
    cases segs with
    | nil =>
      rw [walk]
      split
      · rename_i hdot
        have := enter_dot_length hdot path
        rw [List.length_append, List.length_singleton, List.length_singleton]
        omega
      · rw [List.length_append]
    | cons next segs =>
      rw [walk_cons _ _ (List.cons_ne_nil _ _)]
      have hrest := ih (enter path seg)
      have := enter_length_le path seg
      rw [List.length_cons]
      omega

/-- A dot segment in front of others is missing behind the walk. -/
theorem walk_dot_length {seg : List Char} (h : is_dot seg = true) (path : List (List Char))
    {rest : List (List Char)} (hrest : rest ≠ []) :
    (walk path (seg :: rest)).length < path.length + (seg :: rest).length := by
  rw [walk_cons _ _ hrest, List.length_cons]
  have := walk_length_le (enter path seg) rest
  have := enter_dot_length h path
  omega

/-! ## A URL that is spelled out -/

/-- The characters that the parser of a path leaves as they are. -/
def PathChar (c : Char) : Prop := is_slash c = false ∧ in_path_set c = false

theorem PathChar.printable {c : Char} (h : PathChar c) : 32 < c.toNat := by
  have hset := h.2
  simp only [in_path_set, Bool.or_eq_false_iff, decide_eq_false_iff_not] at hset
  omega

theorem PathChar.digit {c : Char} (h : c.isDigit = true) : PathChar c := by
  have hall : (List.range 10).all (fun n =>
      !is_slash (Char.ofNat (48 + n)) && !in_path_set (Char.ofNat (48 + n))) = true := by decide
  have hn : 48 ≤ c.toNat ∧ c.toNat ≤ 57 := by
    simp only [Char.isDigit, ge_iff_le, Bool.and_eq_true, decide_eq_true_eq,
      UInt32.le_iff_toNat_le] at h
    exact h
  have hc : Char.ofNat (48 + (c.toNat - 48)) = c := by
    rw [Nat.add_sub_cancel' hn.1, Char.ofNat_toNat]
  have hone := List.all_eq_true.mp hall (c.toNat - 48) (List.mem_range.mpr (by omega))
  rw [hc, Bool.and_eq_true, Bool.not_eq_true', Bool.not_eq_true'] at hone
  exact hone

theorem PathChar.path {c : Char} (h : PathChar c) : (c != '?' && c != '#') = true := by
  have hset := h.2
  rw [Bool.and_eq_true, bne_iff_ne, bne_iff_ne]
  constructor
  all_goals
    rintro rfl
    exact absurd hset (by decide)

/-- A text of printable characters is read as it is. -/
theorem clean_printable {cs : List Char} (h : ∀ c ∈ cs, 32 < c.toNat) : clean cs = cs := by
  have hkept : ∀ c ∈ cs, is_c0_or_space c = false := by
    intro c hc
    have := h c hc
    simpa [is_c0_or_space] using this
  have hfront : cs.dropWhile is_c0_or_space = cs := by
    rw [List.dropWhile_eq_self_iff]
    intro hl
    rw [hkept _ (List.getElem_mem hl)]
    simp
  have hback : cs.rdropWhile is_c0_or_space = cs := by
    rw [List.rdropWhile_eq_self_iff]
    intro hl
    rw [hkept _ (List.getLast_mem hl)]
    simp
  rw [clean, hfront, hback, filter_of_printable h]

/-- Segments, each behind a slash. -/
def render (segs : List (List Char)) : List Char := segs.flatMap ('/' :: ·)

theorem split_render {segs : List (List Char)} (h : ∀ seg ∈ segs, ∀ c ∈ seg, is_slash c = false)
    {front : List Char} (hfront : ∀ c ∈ front, is_slash c = false) :
    (front ++ render segs).splitOnP is_slash = front :: segs := by
  induction segs generalizing front with
  | nil => exact (congrArg _ (List.append_nil front)).trans (List.splitOnP_eq_singleton hfront)
  | cons seg segs ih =>
    have hshape : front ++ render (seg :: segs) = front ++ '/' :: (seg ++ render segs) := rfl
    rw [hshape, List.splitOnP_append_cons_of_forall_mem hfront '/' (by decide),
      ih (fun s hs => h s (List.mem_cons_of_mem _ hs)) (h seg List.mem_cons_self)]

theorem mem_render {segs : List (List Char)} {c : Char} (h : c ∈ render segs) :
    c = '/' ∨ ∃ seg ∈ segs, c ∈ seg := by
  obtain ⟨seg, hseg, hc⟩ := List.mem_flatMap.mp h
  rcases List.mem_cons.mp hc with rfl | hc
  · exact .inl rfl
  · exact .inr ⟨seg, hseg, hc⟩

section Spelled
variable {segs : List (List Char)} (hplain : ∀ seg ∈ segs, ∀ c ∈ seg, PathChar c)
include hplain

theorem read_render (hne : segs ≠ []) : read_path (render segs) = walk [] segs := by
  have hall : ∀ c ∈ render segs, (c != '?' && c != '#') = true := by
    intro c hc
    rcases mem_render hc with rfl | ⟨seg, hseg, hin⟩
    · decide
    · exact (hplain seg hseg c hin).path
  have hempty : render segs ≠ [] := by
    cases segs with
    | nil => exact (hne rfl).elim
    | cons seg segs => exact List.cons_ne_nil _ _
  have hchars : segs.map (fun seg => seg.flatMap path_char) = segs := by
    refine (List.map_congr_left fun seg hseg => ?_).trans (List.map_id _)
    refine (List.flatMap_congr fun c hc => ?_).trans (List.flatMap_singleton' seg)
    exact if_neg (by simp [(hplain seg hseg c hc).2])
  have hsplit := @split_render segs (fun seg hseg c hc => (hplain seg hseg c hc).1) [] (by simp)
  rw [List.nil_append] at hsplit
  unfold read_path
  rw [List.takeWhile_eq_self_iff.mpr hall]
  dsimp only
  rw [if_neg hempty, hsplit, List.tail_cons, hchars]

/-- The text of a URL of printable characters is read as it is. -/
theorem clean_spelled_url {scheme auth : List Char}
    (hscheme : scheme = "http".toList ∨ scheme = "https".toList)
    (hauth : ∀ c ∈ auth, 32 < c.toNat) :
    clean (scheme ++ "://".toList ++ auth ++ render segs) =
      scheme ++ "://".toList ++ auth ++ render segs := by
  have hfirst : (scheme ++ "://".toList).all (fun c => decide (32 < c.toNat)) = true := by
    rcases hscheme with rfl | rfl <;> decide
  refine clean_printable fun c hc => ?_
  rw [List.mem_append, List.mem_append] at hc
  rcases hc with (hc | hc) | hc
  · exact of_decide_eq_true (List.all_eq_true.mp hfirst c hc)
  · exact hauth c hc
  · rcases mem_render hc with rfl | ⟨seg, hseg, hin⟩
    · decide
    · exact (hplain seg hseg c hin).printable

/-- What the client asks for, of a URL of printable characters. -/
theorem client_path_spelled {scheme auth : List Char}
    (hscheme : scheme = "http".toList ∨ scheme = "https".toList) (hauth : auth ≠ [])
    (hchars : ∀ c ∈ auth, ends_authority c = false ∧ 32 < c.toNat) (hne : segs ≠ []) :
    client_path (scheme ++ "://".toList ++ auth ++ render segs) = some (walk [] segs) := by
  have hsplit : split_scheme (scheme ++ "://".toList ++ auth ++ render segs) =
      some (scheme, '/' :: '/' :: (auth ++ render segs)) := by
    have hcolon : ':' ∉ scheme := by rcases hscheme with rfl | rfl <;> decide
    have hvalid : (scheme.head?.any Char.isAlpha && scheme.all is_scheme_char) = true ∧
        scheme.map Char.toLower = scheme := by rcases hscheme with rfl | rfl <;> decide
    have hshape : scheme ++ "://".toList ++ auth ++ render segs =
        scheme ++ ':' :: '/' :: '/' :: (auth ++ render segs) := by simp
    rw [hshape, split_scheme, split_once_append _ _ _ hcolon]
    dsimp only
    rw [if_pos hvalid.1, hvalid.2]
  have hslashes : ('/' :: '/' :: (auth ++ render segs)).dropWhile is_slash = auth ++ render segs := by
    rw [List.dropWhile_cons_of_pos (by decide), List.dropWhile_cons_of_pos (by decide)]
    cases auth with
    | nil => exact (hauth rfl).elim
    | cons c auth =>
      have hc := (hchars c List.mem_cons_self).1
      rw [ends_authority, Bool.or_eq_false_iff, Bool.or_eq_false_iff] at hc
      rw [List.cons_append, List.dropWhile_cons_of_neg (by simp [hc.1.1])]
  have hpath : (auth ++ render segs).dropWhile (fun c => !ends_authority c) = render segs := by
    rw [List.dropWhile_append_of_pos fun c hc => by simp [(hchars c hc).1]]
    cases segs with
    | nil => exact (hne rfl).elim
    | cons seg segs => exact List.dropWhile_cons_of_neg (by decide)
  unfold client_path
  rw [clean_spelled_url hplain hscheme fun c hc => (hchars c hc).2, hsplit]
  dsimp only
  rw [if_pos hscheme, hslashes, hpath, read_render hplain hne]

end Spelled

end urls
