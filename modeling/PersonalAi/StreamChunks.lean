-- The chunks of a streamed answer: which texts give the same deltas however they are cut. The
-- decoder decides by the length of what it has seen, so two kinds of text do not.
import PersonalAi.FinalStream

open text

namespace pai_agent

/-! ## Searching in a part of the text -/

/-- An occurrence is found in every part that holds it. -/
theorem find_take {pat s : List Char} {i n : Nat} (h : find pat s = some i)
    (hn : i + pat.length ≤ n) : find pat (s.take n) = some i := by
  unfold find at h ⊢
  obtain ⟨⟨a, b⟩, hsplit, rfl⟩ := Option.map_eq_some_iff.mp h
  obtain ⟨b', hcut⟩ := split_once_str_take hsplit hn
  rw [hcut]
  rfl

theorem find_key_open_quote_take {s : List Char} {key : String} {opening n : Nat}
    (h : find_key_open_quote s key = some opening) (hn : opening ≤ n) :
    find_key_open_quote (s.take n) key = some opening := by
  unfold find_key_open_quote at h ⊢
  dsimp only at h ⊢
  obtain ⟨kstart, hkey, h⟩ := Option.bind_eq_some_iff.mp h
  obtain ⟨colon, hcolon, h⟩ := Option.bind_eq_some_iff.mp h
  obtain ⟨q, hquote, rfl⟩ := Option.map_eq_some_iff.mp h
  rw [find_take hkey (by omega), Option.bind_some, List.drop_take,
    find_take hcolon (by simp only [List.length_singleton]; omega), Option.bind_some,
    List.drop_take, find_take hquote (by simp only [List.length_singleton]; omega)]
  rfl

theorem find_json_string_value_take {s value : List Char} {key : String} {stop n : Nat}
    (h : find_json_string_value s key = some (value, stop)) (hn : stop ≤ n) :
    find_json_string_value (s.take n) key = some (value, stop) := by
  unfold find_json_string_value at h ⊢
  obtain ⟨opening, hopen, h⟩ := Option.bind_eq_some_iff.mp h
  obtain ⟨close, hclose, hvalue⟩ := Option.map_eq_some_iff.mp h
  cases hvalue
  rw [find_key_open_quote_take hopen (by omega), Option.bind_some]
  dsimp only
  rw [List.drop_take, find_take hclose (by simp only [List.length_singleton]; omega), Option.map_some,
    List.take_take, Nat.min_eq_left (by omega)]

/-- The opening of the content is seen as soon as its quote is there. -/
theorem look_object_take {rest : List Char} {q n : Nat} (h : look_object rest = some (some q))
    (hn : q ≤ n) : look_object (rest.take n) = some (some q) := by
  unfold look_object at h ⊢
  obtain ⟨⟨value, stop⟩, hvalue, h⟩ := Option.bind_eq_some_iff.mp h
  dsimp only at h
  split at h
  · rename_i hfinal
    obtain ⟨opening, hopen, hq⟩ := Option.map_eq_some_iff.mp h
    cases hq
    rw [find_json_string_value_take hvalue (by omega), Option.bind_some]
    dsimp only
    rw [if_pos hfinal, List.drop_take, find_key_open_quote_take hopen (by omega)]
    rfl
  · cases h

/-- It is not seen before. -/
theorem look_object_early {rest : List Char} {q n : Nat} (h : look_object rest = some (some q))
    (hn : n < q) : look_object (rest.take n) = none := by
  rcases hearly : look_object (rest.take n) with _ | r
  · rfl
  · have hgrown := look_object_append hearly (rest.drop n)
    rw [List.take_append_drop, h] at hgrown
    cases hgrown
    have := look_object_le hearly
    rw [List.length_take] at this
    omega

/-! ## Contents without a character -/

/-- The value of hexadecimal digits, behind the digits before them. -/
def hex_value : Nat → List Char → Option Nat
  | acc, [] => some acc
  | acc, c :: rest => (to_digit_16 c).bind (fun d => hex_value (acc * 16 + d) rest)

/-- No character of a content stands here: the quote closes it or the text ends, but for escapes
that are cut off, broken, or of no character. -/
inductive Wordless : List Char → Prop
  | nil : Wordless []
  | quote (rest : List Char) : Wordless ('"' :: rest)
  | backslash : Wordless ['\\']
  | cut_off {digits : List Char} {n : Nat} (hvalue : hex_value 0 digits = some n)
      (hfew : digits.length < 4) : Wordless ('\\' :: 'u' :: digits)
  | broken {digits rest : List Char} {n : Nat} {c : Char} (hvalue : hex_value 0 digits = some n)
      (hfew : digits.length < 4) (hc : to_digit_16 c = none) (hrest : Wordless rest) :
      Wordless ('\\' :: 'u' :: (digits ++ c :: rest))
  | no_char {digits rest : List Char} {n : Nat} (hvalue : hex_value 0 digits = some n)
      (hfour : digits.length = 4) (hchar : from_u32 n = none) (hrest : Wordless rest) :
      Wordless ('\\' :: 'u' :: (digits ++ rest))

theorem hex_value_append (acc : Nat) (a b : List Char) :
    hex_value acc (a ++ b) = (hex_value acc a).bind (fun n => hex_value n b) := by
  induction a generalizing acc with
  | nil => rfl
  | cons c rest ih =>
    rcases hd : to_digit_16 c with _ | d
    · simp [hex_value, hd]
    · simp [hex_value, hd, ih]

/-- Digits that do not fill the escape. -/
theorem decode_digits {acc rem n : Nat} {digits : List Char} (h : hex_value acc digits = some n)
    (hfew : digits.length < rem) (rest : List Char) :
    decode (.Unicode rem acc) (digits ++ rest) = decode (.Unicode (rem - digits.length) n) rest := by
  induction digits generalizing acc rem with
  | nil =>
    cases h
    rfl
  | cons c digits ih =>
    obtain ⟨d, hd, h⟩ := Option.bind_eq_some_iff.mp h
    simp only [List.length_cons] at hfew ⊢
    rw [List.cons_append, decode_digit hd (by omega), ih h (by omega)]
    congr 2
    omega

/-- Digits that fill the escape. -/
theorem decode_four {n : Nat} {digits : List Char} (h : hex_value 0 digits = some n)
    (hfour : digits.length = 4) (rest : List Char) :
    decode (.Unicode 4 0) (digits ++ rest) = (decode .InContent rest).emit (from_u32 n).toList := by
  obtain rfl | ⟨front, c, rfl⟩ := List.eq_nil_or_concat' digits
  · cases hfour
  rw [hex_value_append] at h
  obtain ⟨m, hfront, hlast⟩ := Option.bind_eq_some_iff.mp h
  obtain ⟨d, hd, hvalue⟩ := Option.bind_eq_some_iff.mp hlast
  cases hvalue
  simp only [List.length_append, List.length_singleton] at hfour
  have hlength : front.length = 3 := by omega
  rw [List.append_assoc, decode_digits hfront (by omega), hlength]
  exact decode_last_digit hd m rest

/-- What a state has read of an escape already, in front of the rest. -/
def WordlessBehind : StreamParse → List Char → Prop
  | .InContent, rest => Wordless rest
  | .Escaped, rest => Wordless ('\\' :: rest)
  | .Unicode rem acc, rest => ∀ digits, hex_value 0 digits = some acc → digits.length + rem = 4 →
      0 < rem → Wordless ('\\' :: 'u' :: (digits ++ rest))
  | _, _ => True

theorem wordless_of_decode {state : StreamParse} {rest : List Char}
    (h : (decode state rest).out = []) : WordlessBehind state rest := by
  fun_induction decode state rest with
  | case1 rest => exact .quote rest
  | case2 rest _ ih => exact ih h
  | case3 => simp [Decoded.emit] at h
  | case4 rest ih =>
    have hbehind := ih h [] rfl rfl (by omega)
    exact hbehind
  | case5 => simp [Decoded.emit] at h
  | case6 acc c rest d hd acc' ih =>
    intro digits hvalue hlength _
    have hchar : from_u32 (acc * 16 + d) = none := by
      rcases hfrom : from_u32 (acc * 16 + d) with _ | ch
      · rfl
      · simp [Decoded.emit, acc', hfrom] at h
    have hwordless : Wordless rest := ih (by simpa [Decoded.emit, acc', hchar] using h)
    have happend : hex_value 0 (digits ++ [c]) = some (acc * 16 + d) := by
      rw [hex_value_append, hvalue]
      simp [hex_value, hd]
    have hno := Wordless.no_char happend (by simp; omega) hchar hwordless
    rwa [List.append_assoc] at hno
  | case7 rem acc c rest d hd acc' hrem ih =>
    intro digits hvalue hlength hpos
    have happend : hex_value 0 (digits ++ [c]) = some (acc * 16 + d) := by
      rw [hex_value_append, hvalue]
      simp [hex_value, hd]
    have hbehind := ih h (digits ++ [c]) happend (by simp; omega) (by omega)
    rwa [List.append_assoc] at hbehind
  | case8 rem acc c rest hd ih =>
    intro digits hvalue hlength hpos
    exact .broken hvalue (by omega) hd (ih h)
  | case9 state rest hcontent hescaped hunicode =>
    cases rest with
    | cons c rest =>
      cases state with
      | InContent => exact (hcontent c rest rfl rfl).elim
      | Escaped => exact (hescaped c rest rfl rfl).elim
      | Unicode rem acc => exact (hunicode rem acc c rest rfl rfl).elim
      | _ => trivial
    | nil =>
      cases state with
      | InContent => exact .nil
      | Escaped => exact .backslash
      | Unicode rem acc =>
        intro digits hvalue hlength hpos
        rw [List.append_nil]
        exact .cut_off hvalue (by omega)
      | _ => trivial

/-- The decoder gives nothing exactly where no character stands. -/
theorem decode_wordless {rest : List Char} : (decode .InContent rest).out = [] ↔ Wordless rest := by
  constructor
  · exact @wordless_of_decode .InContent rest
  · intro h
    induction h with
    | nil => rfl
    | quote => rfl
    | backslash => rfl
    | @cut_off digits n hvalue hfew =>
      have hread := decode_digits hvalue hfew []
      rw [List.append_nil] at hread
      rw [decode_backslash, decode_u, hread]
      rfl
    | broken hvalue hfew hc hrest ih =>
      rw [decode_backslash, decode_u, decode_digits hvalue hfew, decode_no_digit hc, ih]
    | no_char hvalue hfour hchar hrest ih =>
      rw [decode_backslash, decode_u, decode_four hvalue hfour, hchar]
      exact ih

/-- The decoder writes no more than it reads. -/
theorem decode_length (state : StreamParse) (rest : List Char) :
    (decode state rest).out.length ≤ rest.length := by
  fun_induction decode state rest with
  | case1 => simp
  | case2 _ _ ih => simp only [List.length_cons]; omega
  | case3 _ _ _ _ ih => simp only [Decoded.emit, List.length_append, List.length_cons]; simp; omega
  | case4 _ ih => simp only [List.length_cons]; omega
  | case5 _ _ _ ih => simp only [Decoded.emit, List.length_append, List.length_cons]; simp; omega
  | case6 acc c rest d hd acc' ih =>
    have hone : (from_u32 acc').toList.length ≤ 1 := by cases from_u32 acc' <;> simp
    simp only [Decoded.emit, List.length_append, List.length_cons]
    omega
  | case7 _ _ _ _ _ _ _ _ ih => simp only [List.length_cons]; omega
  | case8 _ _ _ _ _ ih => simp only [List.length_cons]; omega
  | case9 => simp

/-! ## The cuts of a text -/

/-- Neither length decides: the first brace stands within the first 64 bytes, and where a content
opens, at most 4096 bytes stand in front of its quote, or no character of it comes. -/
def Steady (text : List Char) : Prop :=
  ∀ i, find ['\x7b'] text = some i →
    byte_len (text.take i) < 64 ∧
      ∀ q, look_object (text.drop i) = some (some q) →
        byte_len (text.take (i + q - 1)) ≤ 4096 ∨ Wordless (text.drop (i + q))

/-- What comes of a verdict on the text. -/
def shown (text : List Char) : Verdict → List Char
  | .raw => text
  | .content q => (decode .InContent (text.drop q)).out
  | _ => []

theorem byte_len_prefix {a b : List Char} (h : a <+: b) : byte_len a ≤ byte_len b := by
  obtain ⟨t, rfl⟩ := h
  simp [byte_len, encode]

/-- The first brace of a part that holds one is that of the text. -/
theorem find_part {p text : List Char} {i : Nat} (hp : p <+: text)
    (h : find ['\x7b'] text = some i) :
    (p.length ≤ i → find ['\x7b'] p = none) ∧ (i < p.length → find ['\x7b'] p = some i) := by
  obtain ⟨t, rfl⟩ := hp
  constructor
  · intro hle
    rcases hfind : find ['\x7b'] p with _ | j
    · rfl
    · obtain ⟨hgrown, hj⟩ := find_append hfind t
      rw [h] at hgrown
      cases hgrown
      simp only [List.length_singleton] at hj
      omega
  · intro hlt
    have hpart := find_take h (n := p.length) (by simp only [List.length_singleton]; omega)
    rwa [List.take_left] at hpart

theorem find_of_part {p text : List Char} {i : Nat} (hp : p <+: text)
    (h : find ['\x7b'] p = some i) : find ['\x7b'] text = some i := by
  obtain ⟨t, rfl⟩ := hp
  exact (find_append h t).1

/-- The verdict on the chunks is that on some part of the text, or there is none yet. -/
theorem verdict_part (seen : List Char) (chunks : List (List Char)) (h : look seen = .waiting) :
    (verdict seen chunks = .waiting ∧ look (seen ++ chunks.flatten) = .waiting) ∨
      ∃ p, p <+: seen ++ chunks.flatten ∧ look p ≠ .waiting ∧ verdict seen chunks = look p := by
  induction chunks generalizing seen with
  | nil =>
    left
    rw [List.flatten_nil, List.append_nil]
    exact ⟨rfl, h⟩
  | cons chunk rest ih =>
    rw [List.flatten_cons, ← List.append_assoc]
    rcases hlook : look (seen ++ chunk) with _ | _ | _ | q
    · have hrest : verdict seen (chunk :: rest) = verdict (seen ++ chunk) rest := by
        rw [verdict, hlook]
      rw [hrest]
      exact ih _ hlook
    all_goals
      right
      refine ⟨seen ++ chunk, List.prefix_append _ _, by rw [hlook]; nofun, ?_⟩
      rw [verdict, hlook]

theorem emitted_shown (chunks : List (List Char)) :
    emitted chunks = shown chunks.flatten (verdict [] chunks) := by
  rw [emitted_eq]
  cases verdict [] chunks <;> rfl

/-- The first chunk decides as soon as it can. -/
theorem emitted_first {a b : List Char} (h : look a ≠ .waiting) :
    emitted [a, b] = shown (a ++ b) (look a) := by
  have hverdict : verdict [] [a, b] = look a := by
    rw [verdict, List.nil_append]
    rcases hlook : look a with _ | _ | _ | q
    · exact (h hlook).elim
    all_goals rfl
  rw [emitted_shown, hverdict]
  simp

theorem emitted_whole (text : List Char) : emitted [text] = shown text (look text) := by
  have hverdict : verdict [] [text] = look text := by
    rw [verdict, List.nil_append]
    rcases look text with _ | _ | _ | q <;> rfl
  rw [emitted_shown, hverdict]
  simp

theorem look_unbraced {p : List Char} (h : find ['\x7b'] p = none) :
    look p = if 64 ≤ byte_len p then .raw else .waiting := by
  unfold look
  rw [h]

/-- Behind the first brace the text itself decides, or its length. -/
def look_behind (p : List Char) (i : Nat) : Verdict :=
  match look_object (p.drop i) with
  | some (some q) => .content (i + q)
  | some none => .suppressed
  | none => if 4096 < byte_len p then .suppressed else .waiting

theorem look_braced {p : List Char} {i : Nat} (h : find ['\x7b'] p = some i) :
    look p = look_behind p i := by
  unfold look
  split
  · next hnone =>
    rw [h] at hnone
    cases hnone
  · next j hj =>
    rw [h] at hj
    cases hj
    rfl

theorem prefix_take {p text : List Char} (hp : p <+: text) {n : Nat} (hn : p.length ≤ n) :
    p <+: text.take n := by
  rw [List.prefix_iff_eq_take.mp hp]
  exact List.take_prefix_take_left hn

/-- In a steady text, what comes of the verdict on a part is what comes of that on the whole. -/
theorem shown_part {text p : List Char} (h : Steady text) (hp : p <+: text)
    (hlook : look p ≠ .waiting) : shown text (look p) = shown text (look text) := by
  have hbytes := byte_len_prefix hp
  rcases hfind : find ['\x7b'] p with _ | i
  · -- no brace so far: the part is long enough, so no brace comes
    have hlong : 64 ≤ byte_len p := by
      by_contra hshort
      apply hlook
      rw [look_unbraced hfind, if_neg hshort]
    have hnone : find ['\x7b'] text = none := by
      rcases hwhole : find ['\x7b'] text with _ | i
      · rfl
      · have hshort := (h i hwhole).1
        have hle : p.length ≤ i := by
          by_contra hlt
          rw [(find_part hp hwhole).2 (by omega)] at hfind
          cases hfind
        have := byte_len_prefix (prefix_take hp hle)
        omega
    rw [look_unbraced hfind, look_unbraced hnone, if_pos hlong, if_pos (by omega)]
  · have hwhole := find_of_part hp hfind
    rw [look_braced hfind] at hlook ⊢
    rw [look_braced hwhole]
    unfold look_behind at hlook ⊢
    rcases hobject : look_object (p.drop i) with _ | r
    · -- suppressed by its length
      have hlong : 4096 < byte_len p := by
        by_contra hshort
        rw [hobject] at hlook
        exact hlook (if_neg hshort)
      simp only [if_pos hlong, if_pos (Nat.lt_of_lt_of_le hlong hbytes)]
      rcases hlater : look_object (text.drop i) with _ | _ | q
      · rfl
      · rfl
      · rcases (h i hwhole).2 q hlater with hshort | hwordless
        · -- the quote stands in the part, where it was not seen
          have hq : i + q ≤ p.length := by
            by_contra hfew
            have := byte_len_prefix (prefix_take hp (n := i + q - 1) (by omega))
            omega
          have hseen := look_object_take hlater (n := p.length - i) (by omega)
          rw [← List.drop_take, ← List.prefix_iff_eq_take.mp hp, hobject] at hseen
          cases hseen
        · exact (decode_wordless.mpr hwordless).symm
    · obtain ⟨t, rfl⟩ := hp
      have hi := (find_append hfind t).2
      simp only [List.length_singleton] at hi
      rw [drop_append_le (by omega), look_object_append hobject t]
      cases r <;> rfl

/-- However a steady text is cut, the same comes of it. -/
theorem steady_emitted {text : List Char} (h : Steady text) {chunks : List (List Char)}
    (hflat : chunks.flatten = text) : emitted chunks = shown text (look text) := by
  rw [emitted_shown, hflat]
  have hnil : look [] = .waiting := rfl
  rcases verdict_part [] chunks hnil with ⟨hverdict, hlook⟩ | ⟨p, hp, hlook, hverdict⟩
  · rw [List.nil_append, hflat] at hlook
    rw [hverdict, hlook]
  · rw [List.nil_append, hflat] at hp
    rw [hverdict]
    exact shown_part h hp hlook

/-- Every way of cutting the text gives the same deltas. -/
def CutFree (text : List Char) : Prop :=
  ∀ a b : List (List Char), a.flatten = text → b.flatten = text → emitted a = emitted b

/-- Less comes of a text with a brace than the text, unless it is passed on as it is. -/
theorem shown_braced {text : List Char} {i : Nat} (h : find ['\x7b'] text = some i)
    (hi : 0 < i) : shown text (look text) ≠ text := by
  have hlength := (find_append h []).2
  simp only [List.length_singleton] at hlength
  have hne : text ≠ [] := by
    rintro rfl
    simp at hlength
  rw [look_braced h]
  unfold look_behind
  rcases look_object (text.drop i) with _ | _ | q
  · dsimp only
    split
    · exact hne.symm
    · exact hne.symm
  · exact hne.symm
  · intro hsame
    have hshort := decode_length .InContent (text.drop (i + q))
    have hlen := congrArg List.length hsame
    simp only [shown] at hlen
    rw [List.length_drop] at hshort
    omega

/-- **The chunks do not matter exactly for the steady texts.** A late brace makes the decoder pass
the text on or read it, and a late content makes it fall silent or speak, as the chunks fall. -/
theorem chunks_do_not_matter_iff_steady (text : List Char) : CutFree text ↔ Steady text := by
  constructor
  · intro hfree i hi
    have hwhole : ∀ {a b : List Char}, a ++ b = text → look a ≠ .waiting →
        shown text (look a) = shown text (look text) := by
      intro a b hab hlook
      have hcut := hfree [a, b] [text] (by simpa using hab) (by simp)
      rwa [emitted_first hlook, emitted_whole, hab] at hcut
    have hearly : byte_len (text.take i) < 64 := by
      by_contra hlate
      -- cut in front of the brace: the first chunk is taken for plain text
      have hnone : find ['\x7b'] (text.take i) = none := by
        apply (find_part (List.take_prefix i text) hi).1
        rw [List.length_take]
        omega
      have hraw : look (text.take i) = .raw := by
        rw [look_unbraced hnone, if_pos (by omega)]
      have hsame := hwhole (List.take_append_drop i text) (by rw [hraw]; rintro ⟨⟩)
      rw [hraw] at hsame
      refine shown_braced hi ?_ hsame.symm
      by_contra hzero
      obtain rfl : i = 0 := by omega
      simp [byte_len, encode] at hlate
    refine ⟨hearly, ?_⟩
    intro q hq
    by_contra hno
    push Not at hno
    obtain ⟨hlate, hspeaks⟩ := hno
    have hlt : i + 1 < i + q := by
      by_contra hle
      have := byte_len_prefix (List.take_prefix_take_left (l := text) (show i + q - 1 ≤ i by omega))
      omega
    -- cut in front of the quote: the first chunk is longer than a type may take
    have hlength := look_object_le hq
    rw [List.length_drop] at hlength
    have hbrace : find ['\x7b'] (text.take (i + q - 1)) = some i := by
      apply (find_part (List.take_prefix _ text) hi).2
      rw [List.length_take]
      omega
    have hnone : look_object ((text.take (i + q - 1)).drop i) = none := by
      rw [List.drop_take]
      exact look_object_early hq (by omega)
    have hsuppressed : look (text.take (i + q - 1)) = .suppressed := by
      rw [look_braced hbrace]
      unfold look_behind
      rw [hnone]
      exact if_pos hlate
    have hsame := hwhole (List.take_append_drop _ text) (by rw [hsuppressed]; rintro ⟨⟩)
    have hcontent : look text = .content (i + q) := by
      rw [look_braced hi]
      unfold look_behind
      rw [hq]
    rw [hsuppressed, hcontent] at hsame
    exact hspeaks (decode_wordless.mp hsame.symm)
  · intro h a b ha hb
    rw [steady_emitted h ha, steady_emitted h hb]

/-- Prose of 64 bytes in front of an answer. -/
def prose : List Char := List.replicate 64 '-'

def answer_json : List Char := "\x7b\"type\":\"final\",\"content\":\"hi\"\x7d".toList

theorem a_late_brace_is_read_or_passed_on : ¬ ∀ text, CutFree text := by
  intro h
  have hsame := h (prose ++ answer_json) [prose ++ answer_json] [prose, answer_json] (by simp)
    (by simp)
  have hread : emitted [prose ++ answer_json] = ['h', 'i'] := by decide +kernel
  have hraw : (emitted [prose, answer_json]).length = 95 := by decide +kernel
  rw [← hsame, hread] at hraw
  cases hraw

end pai_agent
