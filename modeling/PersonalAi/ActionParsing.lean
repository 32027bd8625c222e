-- The action in the text of a model (pai-inference lib.rs), with the byte positions and the counter of
-- 32 bits that the source looks for it with.
import PersonalAi.Lib.Slices
import PersonalAi.StreamAgreement

open json text pai_agent

/-! ## Values -/

namespace json

mutual

/-- How deeply arrays and objects are nested in a value. -/
def Value.nesting : Value → Nat
  | .array xs => items_nesting xs + 1
  | .object fields => fields_nesting fields + 1
  | _ => 0

def items_nesting : List Value → Nat
  | [] => 0
  | x :: rest => max x.nesting (items_nesting rest)

def fields_nesting : List (String × Value) → Nat
  | [] => 0
  | (_, v) :: rest => max v.nesting (fields_nesting rest)

end

/-- A float prints as digits, with signs, a point and an exponent. -/
def Number.Prints : Number → Prop
  | .Float text => ∀ c ∈ text.toList, c.isDigit ∨ c ∈ ['-', '+', '.', 'e', 'E']
  | _ => True

mutual

/-- All floats of a value print as floats. -/
def Value.Prints : Value → Prop
  | .number n => n.Prints
  | .array xs => items_print xs
  | .object fields => fields_print fields
  | _ => True

def items_print : List Value → Prop
  | [] => True
  | x :: rest => x.Prints ∧ items_print rest

def fields_print : List (String × Value) → Prop
  | [] => True
  | (_, v) :: rest => v.Prints ∧ fields_print rest

end

end json

namespace pai_inference

/-! ## The text of an action -/

/-- An action as it is written: the tag stands first. -/
def to_value : ModelAction → Value
  | .ToolCall name arguments =>
    .object [("type", .string "tool_call"), ("name", .string name), ("arguments", arguments)]
  | .Final content => .object [("type", .string "final"), ("content", .string content)]

/-- The arguments of a call, and of no call none. -/
def arguments_of : ModelAction → Value
  | .ToolCall _ arguments => arguments
  | .Final _ => .null

/-! ## The search -/

/-- A sum at `i32`, which wraps. -/
def wrap_i32 (n : Int) : Int := (n + 2147483648) % 4294967296 - 2147483648

section Search
variable (overflow_checks : Bool)

/-- In a build that checks overflow, the sum panics instead. -/
def add_i32 (a b : Int) : Option Int :=
  if overflow_checks ∧ wrap_i32 (a + b) ≠ a + b then none else some (wrap_i32 (a + b))

/-- The loop that looks for the end of the object, with the byte position it is at. It is `none`
where it panics. -/
def object_end : Nat → Int → Bool → Bool → List Char → Option (Option Nat)
  | _, _, _, _, [] => some none
  | i, depth, true, esc, c :: rest =>
    if esc then object_end (i + c.utf8Size) depth true false rest
    else if c = '\\' then object_end (i + c.utf8Size) depth true true rest
    else if c = '"' then object_end (i + c.utf8Size) depth false esc rest
    else object_end (i + c.utf8Size) depth true esc rest
  | i, depth, false, esc, c :: rest =>
    if c = '"' then object_end (i + c.utf8Size) depth true esc rest
    else if c = '\x7b' then
      match add_i32 overflow_checks depth 1 with
      | none => none
      | some depth => object_end (i + c.utf8Size) depth false esc rest
    else if c = '\x7d' then
      match add_i32 overflow_checks depth (-1) with
      | none => none
      | some depth =>
        if depth = 0 then some (some (i + 1))
        else object_end (i + c.utf8Size) depth false esc rest
    else object_end (i + c.utf8Size) depth false esc rest

/-- `str::find` of a character. -/
def find_byte (c : Char) (cs : List Char) : Option Nat :=
  (split_once c cs).map (fun p => (encode p.1).length)

/-- `&s[start..stop]`. -/
def slice (start stop : Nat) (cs : List Char) : Option (List Char) :=
  if stop < start then none else (slice_from start cs).bind (slice_to (stop - start))

/-- `serde_json` on the text of an object, and the shapes that small models emit. -/
def read_action (r : Reader) (json : List Char) : Option ModelAction :=
  (r.members json).bind (fun ms => (from_str_action ms).orElse (fun _ => bare_action ms))

/-- `parse_action`. The outer option is `none` where it panics. -/
def parse_action (r : Reader) (text : List Char) : Option (Option ModelAction) :=
  let trimmed := trim text
  match find_byte '\x7b' trimmed with
  | none => some none
  | some start =>
    match slice_from start trimmed with
    | none => none
    | some tail =>
      match object_end overflow_checks 0 0 false false tail with
      | none => none
      | some none => some none
      | some (some n) => (slice start (start + n) trimmed).map (read_action r)

end Search

/-- `serde_json` reads back what it wrote of an action. -/
def ReadsBack (r : Reader) (a : ModelAction) : Prop :=
  ∃ ms, r.members (to_value a).to_string.toList = some ms ∧
    (to_value a).as_object = some (ms.map fun m => (m.key, m.value))

/-- The nesting that `serde_json` reads: its counter starts at 128 and must not come to 0. -/
def RECURSION_LIMIT : Nat := 127

/-! ## What is passed over -/

section Passes
variable (overflow_checks : Bool)

/-- The loop is at the same depth behind this text as in front of it, out of all strings. -/
def Passes (depth : Int) (t : List Char) : Prop :=
  ∀ i rest, object_end overflow_checks i depth false false (t ++ rest) =
    object_end overflow_checks (i + (encode t).length) depth false false rest

variable {overflow_checks} {depth : Int}

theorem passes_nil : Passes overflow_checks depth [] := by
  intro i rest
  simp

theorem Passes.append {a b : List Char} (ha : Passes overflow_checks depth a)
    (hb : Passes overflow_checks depth b) : Passes overflow_checks depth (a ++ b) := by
  intro i rest
  rw [List.append_assoc, ha, hb, encode_append, List.length_append, Nat.add_assoc]

/-- Neither a quote nor a brace. -/
def is_plain (c : Char) : Bool := c ≠ '"' && c ≠ '\x7b' && c ≠ '\x7d'

theorem passes_plain {t : List Char} (h : t.all is_plain = true) :
    Passes overflow_checks depth t := by
  induction t with
  | nil => exact passes_nil
  | cons c t ih =>
    rw [List.all_cons, Bool.and_eq_true] at h
    intro i rest
    obtain ⟨⟨hquote, hopen⟩, hclose⟩ : (c ≠ '"' ∧ c ≠ '\x7b') ∧ c ≠ '\x7d' := by
      simpa [is_plain] using h.1
    rw [List.cons_append, object_end, if_neg hquote, if_neg hopen, if_neg hclose, ih h.2,
      encode_cons_length, Nat.add_assoc]

/-- A text goes on inside a string. -/
theorem in_string {t : List Char} (i : Nat) (h : t.all (fun c => c ≠ '"' ∧ c ≠ '\\') = true)
    (rest : List Char) :
    object_end overflow_checks i depth true false (t ++ rest) =
      object_end overflow_checks (i + (encode t).length) depth true false rest := by
  induction t generalizing i with
  | nil => simp
  | cons c t ih =>
    rw [List.all_cons, Bool.and_eq_true, decide_eq_true_eq] at h
    rw [List.cons_append, object_end, if_neg Bool.false_ne_true, if_neg h.1.2, if_neg h.1.1,
      ih _ h.2, encode_cons_length, Nat.add_assoc]

/-- A backslash takes the character behind it with it. -/
theorem in_escape (c : Char) {t : List Char} (i : Nat)
    (h : t.all (fun c => c ≠ '"' ∧ c ≠ '\\') = true) (rest : List Char) :
    object_end overflow_checks i depth true false ('\\' :: c :: t ++ rest) =
      object_end overflow_checks (i + (encode ('\\' :: c :: t)).length) depth true false rest := by
  rw [List.cons_append, List.cons_append, object_end, if_neg Bool.false_ne_true, if_pos rfl,
    object_end, if_pos rfl, in_string _ h, encode_cons_length, encode_cons_length, Nat.add_assoc,
    Nat.add_assoc]

theorem hex_digit_plain : ∀ n : Nat, hex_digit n ≠ '"' ∧ hex_digit n ≠ '\\' := by
  intro n
  have hall : ∀ m < 16, Nat.digitChar m ≠ '"' ∧ Nat.digitChar m ≠ '\\' := by decide
  exact hall _ (Nat.mod_lt _ (by decide))

theorem passes_escape (c : Char) (i : Nat) (rest : List Char) :
    object_end overflow_checks i depth true false (escape_char c ++ rest) =
      object_end overflow_checks (i + (encode (escape_char c)).length) depth true false rest := by
  have hnil : ([] : List Char).all (fun c => c ≠ '"' ∧ c ≠ '\\') = true := rfl
  unfold escape_char
  split_ifs with hquote hslash hlf hcr htab hbs hff hcode
  · exact in_escape '"' i hnil rest
  · exact in_escape '\\' i hnil rest
  · exact in_escape 'n' i hnil rest
  · exact in_escape 'r' i hnil rest
  · exact in_escape 't' i hnil rest
  · exact in_escape 'b' i hnil rest
  · exact in_escape 'f' i hnil rest
  · refine in_escape 'u' i ?_ rest
    simp [hex_digit_plain]
  · exact in_string i (by simp [hquote, hslash]) rest

theorem passes_quote (s : String) : Passes overflow_checks depth (quote s).toList := by
  have hinside : ∀ (cs : List Char) (i : Nat) (rest : List Char),
      object_end overflow_checks i depth true false (cs.flatMap escape_char ++ '"' :: rest) =
        object_end overflow_checks (i + (encode (cs.flatMap escape_char)).length + 1) depth false
          false rest := by
    intro cs
    induction cs with
    | nil =>
      intro i rest
      have hquote : ('"' : Char) ≠ '\\' := by decide
      have hone : ('"' : Char).utf8Size = 1 := by decide
      rw [List.flatMap_nil, List.nil_append, object_end, if_neg Bool.false_ne_true, if_neg hquote,
        if_pos rfl, hone]
      rfl
    | cons c cs ih =>
      intro i rest
      rw [List.flatMap_cons, List.append_assoc, passes_escape, ih, encode_append,
        List.length_append, Nat.add_assoc i]
  intro i rest
  have htext : (quote s).toList = '"' :: (s.toList.flatMap escape_char ++ ['"']) := by
    have hquote : "\"".toList = ['"'] := by decide
    simp only [quote, String.toList_append, String.toList_ofList, hquote, List.nil_append,
      List.cons_append]
  have hone : ('"' : Char).utf8Size = 1 := by decide
  rw [htext, List.cons_append, List.append_assoc, List.singleton_append, object_end, if_pos rfl,
    hinside, encode_cons_length, encode_append, List.length_append, hone]
  congr 1
  have hend : (encode ['"']).length = 1 := by decide
  rw [hend]
  omega

theorem passes_intercalate {parts : List (List Char)}
    (h : ∀ t ∈ parts, Passes overflow_checks depth t) :
    Passes overflow_checks depth ([','].intercalate parts) := by
  induction parts with
  | nil => exact passes_nil
  | cons t parts ih =>
    cases parts with
    | nil =>
      rw [List.intercalate_singleton]
      exact h t (by simp)
    | cons t' parts =>
      rw [List.intercalate_cons_cons]
      exact ((h t (by simp)).append (passes_plain (by decide))).append
        (ih (fun u hu => h u (List.mem_cons_of_mem _ hu)))

theorem wrap_i32_self {n : Int} (h : -2147483648 ≤ n) (h' : n < 2147483648) : wrap_i32 n = n := by
  unfold wrap_i32
  omega

theorem add_i32_self {a b : Int} (h : -2147483648 ≤ a + b) (h' : a + b < 2147483648) :
    add_i32 overflow_checks a b = some (a + b) := by
  rw [add_i32, wrap_i32_self h h', if_neg (by simp)]

/-- A text in braces is passed over as its inside is, one level deeper. -/
theorem passes_braces {t : List Char} (hpos : 1 ≤ depth) (hmax : depth + 1 < 2147483648)
    (h : Passes overflow_checks (depth + 1) t) :
    Passes overflow_checks depth ('\x7b' :: (t ++ ['\x7d'])) := by
  intro i rest
  have hopen : ('\x7b' : Char) ≠ '"' := by decide
  have hclose : ('\x7d' : Char) ≠ '"' ∧ ('\x7d' : Char) ≠ '\x7b' := by decide
  have hback : depth + 1 + -1 = depth := by omega
  have hcloses : (encode ['\x7d']).length = ('\x7d' : Char).utf8Size := by decide
  rw [List.cons_append, object_end, if_neg hopen, if_pos rfl, add_i32_self (by omega) hmax]
  dsimp only
  rw [List.append_assoc, h, List.singleton_append, object_end, if_neg hclose.1, if_neg hclose.2,
    if_pos rfl, add_i32_self (by omega) (by omega), hback]
  dsimp only
  rw [if_neg (by omega), encode_cons_length, encode_append, List.length_append, hcloses,
    Nat.add_assoc, Nat.add_assoc]

theorem plain_of_isDigit {c : Char} (h : c.isDigit = true) : is_plain c = true := by
  have hne : ∀ d : Char, d.isDigit = false → c ≠ d := by
    rintro d hd rfl
    rw [h] at hd
    cases hd
  simp [is_plain, hne '"' (by decide), hne '\x7b' (by decide), hne '\x7d' (by decide)]

theorem plain_nat (n : Nat) : (toString n).toList.all is_plain = true :=
  List.all_eq_true.mpr (fun c hc => plain_of_isDigit ((digits_of_nat n).2 c hc))

theorem plain_number {n : Number} (h : n.Prints) : n.to_string.toList.all is_plain = true := by
  cases n with
  | PosInt n => exact plain_nat n
  | NegInt n =>
    cases n with
    | ofNat n => exact plain_nat n
    | negSucc n =>
      have htext : Number.to_string (.NegInt (Int.negSucc n)) = "-" ++ toString (n + 1) := rfl
      have hsign : "-".toList.all is_plain = true := by decide
      rw [htext, String.toList_append, List.all_append, hsign, plain_nat]
      rfl
  | Float text =>
    refine List.all_eq_true.mpr (fun c hc => ?_)
    rcases h c hc with hdigit | hother
    · exact plain_of_isDigit hdigit
    · have hall : ['-', '+', '.', 'e', 'E'].all is_plain = true := by decide
      exact List.all_eq_true.mp hall c hother

mutual

/-- The text of a value is passed over. -/
theorem value_passes : ∀ (v : Value) {depth : Int}, 1 ≤ depth → depth + v.nesting < 2147483648 →
    v.Prints → Passes overflow_checks depth v.to_string.toList
  | .null, _, _, _, _ => passes_plain (by decide)
  | .bool b, _, _, _, _ => passes_plain (by cases b <;> decide)
  | .number _, _, _, _, hprints => passes_plain (plain_number hprints)
  | .string s, _, _, _, _ => passes_quote s
  | .array xs, depth, hpos, hmax, hprints => by
    rw [Value.nesting] at hmax
    have hitems := items_pass xs hpos (by omega) hprints
    have hopen : "[".toList.all is_plain = true := by decide
    have hclose : "]".toList.all is_plain = true := by decide
    have hcomma : ",".toList = [','] := by decide
    rw [Value.to_string, String.toList_append, String.toList_append, String.toList_intercalate,
      hcomma]
    exact ((passes_plain hopen).append (passes_intercalate hitems)).append (passes_plain hclose)
  | .object fields, depth, hpos, hmax, hprints => by
    rw [Value.nesting] at hmax
    have hdeeper : 1 ≤ depth + 1 := by omega
    have hfields := fields_pass fields hdeeper (by omega) hprints
    have hopen : "\x7b".toList = ['\x7b'] := by decide
    have hclose : "\x7d".toList = ['\x7d'] := by decide
    have hcomma : ",".toList = [','] := by decide
    rw [Value.to_string, String.toList_append, String.toList_append, String.toList_intercalate,
      hopen, hclose, hcomma, List.append_assoc, List.singleton_append]
    exact passes_braces hpos (by omega) (passes_intercalate hfields)

theorem items_pass : ∀ (xs : List Value) {depth : Int}, 1 ≤ depth →
    depth + items_nesting xs < 2147483648 → items_print xs →
    ∀ t ∈ (item_strings xs).map String.toList, Passes overflow_checks depth t
  | [], _, _, _, _ => by simp [item_strings]
  | x :: rest, depth, hpos, hmax, hprints => by
    rw [items_nesting] at hmax
    intro t ht
    rw [item_strings, List.map_cons] at ht
    rcases List.mem_cons.mp ht with rfl | ht
    · exact value_passes x hpos (by omega) hprints.1
    · exact items_pass rest hpos (by omega) hprints.2 t ht

theorem fields_pass : ∀ (fields : List (String × Value)) {depth : Int}, 1 ≤ depth →
    depth + fields_nesting fields < 2147483648 → fields_print fields →
    ∀ t ∈ (field_strings fields).map String.toList, Passes overflow_checks depth t
  | [], _, _, _, _ => by simp [field_strings]
  | (k, v) :: rest, depth, hpos, hmax, hprints => by
    rw [fields_nesting] at hmax
    intro t ht
    rw [field_strings, List.map_cons] at ht
    rcases List.mem_cons.mp ht with rfl | ht
    · have hcolon : ":".toList.all is_plain = true := by decide
      rw [String.toList_append, String.toList_append]
      exact ((passes_quote k).append (passes_plain hcolon)).append
        (value_passes v hpos (by omega) hprints.1)
    · exact fields_pass rest hpos (by omega) hprints.2 t ht

end

end Passes

/-! ## The action is found -/

variable {overflow_checks : Bool} {r : Reader}

/-- From its brace on, the text of an object ends where it was written to end. -/
theorem object_end_text {fields : List (String × Value)}
    (hnest : (Value.object fields).nesting < 2147483648) (hprints : (Value.object fields).Prints)
    (s : List Char) :
    object_end overflow_checks 0 0 false false ((Value.object fields).to_string.toList ++ s) =
      some (some (encode (Value.object fields).to_string.toList).length) := by
  rw [Value.nesting] at hnest
  have hone : (1 : Int) ≤ 1 := by omega
  have hbody := passes_intercalate (@fields_pass overflow_checks fields 1 hone (by omega) hprints)
  have htext : (Value.object fields).to_string.toList =
      '\x7b' :: ([','].intercalate ((field_strings fields).map String.toList) ++ ['\x7d']) := by
    have hopen : "\x7b".toList = ['\x7b'] := by decide
    have hclose : "\x7d".toList = ['\x7d'] := by decide
    have hcomma : ",".toList = [','] := by decide
    rw [Value.to_string, String.toList_append, String.toList_append, String.toList_intercalate,
      hopen, hclose, hcomma, List.append_assoc, List.singleton_append]
  have hopen : ('\x7b' : Char) ≠ '"' := by decide
  have hclose : ('\x7d' : Char) ≠ '"' ∧ ('\x7d' : Char) ≠ '\x7b' := by decide
  have hcloses : (encode ['\x7d']).length = 1 := by decide
  rw [htext, List.cons_append, object_end, if_neg hopen, if_pos rfl,
    add_i32_self (by omega) (by omega)]
  dsimp only
  rw [Int.zero_add, List.append_assoc, hbody, List.singleton_append, object_end, if_neg hclose.1,
    if_neg hclose.2, if_pos rfl, add_i32_self (by omega) (by omega)]
  dsimp only
  rw [if_pos (by omega), encode_cons_length, encode_append, List.length_append, hcloses,
    Nat.zero_add, Nat.add_assoc]

/-- What does not end with whitespace stays, whatever is trimmed behind it. -/
theorem trim_end_behind {a : List Char} (h : trim_end a = a) (s : List Char) :
    trim_end (a ++ s) = a ++ trim_end s := by
  unfold trim_end at h ⊢
  induction s using List.reverseRecOn with
  | nil => simpa using h
  | append_singleton s c ih =>
    rw [← List.append_assoc]
    by_cases hc : is_whitespace c = true
    · rw [List.rdropWhile_concat_pos _ _ _ hc, List.rdropWhile_concat_pos _ _ _ hc, ih]
    · rw [List.rdropWhile_concat_neg _ _ _ hc, List.rdropWhile_concat_neg _ _ _ hc,
        List.append_assoc]

/-- Trimming takes nothing of a part that begins and ends with a brace. -/
theorem trim_around {t : List Char} (hfirst : ∃ rest, t = '\x7b' :: rest) (hlast : trim_end t = t)
    (p s : List Char) : trim (p ++ (t ++ s)) = trim_start p ++ (t ++ trim_end s) := by
  have hend : trim_end (p ++ (t ++ s)) = p ++ (t ++ trim_end s) := by
    obtain ⟨rest, rfl⟩ := hfirst
    rw [← List.append_assoc, trim_end_behind (trim_end_append (by simp) hlast), List.append_assoc]
  rw [trim, hend]
  obtain ⟨rest, rfl⟩ := hfirst
  have hbrace : is_whitespace '\x7b' = false := by decide
  unfold trim_start
  rw [List.dropWhile_append]
  split
  · rename_i hnil
    rw [List.isEmpty_iff.mp hnil, List.nil_append, List.cons_append, List.dropWhile_cons, hbrace,
      if_neg Bool.false_ne_true]
  · rfl

theorem to_value_object (a : ModelAction) : ∃ fields, to_value a = .object fields := by
  cases a with
  | ToolCall name arguments => exact ⟨_, rfl⟩
  | Final content => exact ⟨_, rfl⟩

theorem object_ends (fields : List (String × Value)) :
    (∃ rest, (Value.object fields).to_string.toList = '\x7b' :: rest) ∧
      trim_end (Value.object fields).to_string.toList = (Value.object fields).to_string.toList := by
  have hopen : "\x7b".toList = ['\x7b'] := by decide
  have hclose : "\x7d".toList = ['\x7d'] := by decide
  rw [Value.to_string, String.toList_append, String.toList_append, hopen, hclose]
  exact ⟨⟨_, rfl⟩, trim_end_append (by simp) (by decide)⟩

/-- The first of the members, where the fields are known. -/
theorem members_cons {ms : List Member} {k : String} {v : Value} {fields : List (String × Value)}
    (h : ms.map (fun m => (m.key, m.value)) = (k, v) :: fields) :
    ∃ pos rest, ms = ⟨k, v, pos⟩ :: rest ∧ rest.map (fun m => (m.key, m.value)) = fields := by
  obtain ⟨⟨key, value, pos⟩, rest, rfl, hhead, hrest⟩ := List.map_eq_cons_iff.mp h
  obtain ⟨rfl, rfl⟩ := Prod.mk.inj hhead
  exact ⟨pos, rest, rfl, hrest⟩

/-- What `serde_json` gives back of an action is taken for that action. -/
theorem read_action_back {a : ModelAction} (h : ReadsBack r a) :
    read_action r (to_value a).to_string.toList = some a := by
  obtain ⟨ms, hms, hfields⟩ := h
  rw [read_action, hms, Option.bind_some]
  have hread : from_str_action ms = some a := by
    cases a with
    | ToolCall name arguments =>
      simp only [to_value, Value.as_object, Option.some.injEq] at hfields
      obtain ⟨i, behind_tag, rfl, htag⟩ := members_cons hfields.symm
      obtain ⟨j, behind_name, rfl, hname⟩ := members_cons htag
      obtain ⟨k, behind_args, rfl, hargs⟩ := members_cons hname
      obtain rfl := List.map_eq_nil_iff.mp hargs
      simp [from_str_action, only, Value.as_str]
    | Final content =>
      simp only [to_value, Value.as_object, Option.some.injEq] at hfields
      obtain ⟨i, behind_tag, rfl, htag⟩ := members_cons hfields.symm
      obtain ⟨j, behind_content, rfl, hcontent⟩ := members_cons htag
      obtain rfl := List.map_eq_nil_iff.mp hcontent
      simp [from_str_action, only, Value.as_str]
  rw [hread]
  rfl

/-- Nesting and floats of an action are those of its arguments. -/
theorem to_value_sound {a : ModelAction} (hnest : (arguments_of a).nesting < RECURSION_LIMIT)
    (hprints : (arguments_of a).Prints) :
    (to_value a).nesting < 2147483648 ∧ (to_value a).Prints := by
  have hlimit : RECURSION_LIMIT < 2147483647 := by decide
  cases a with
  | ToolCall name arguments =>
    simp only [arguments_of] at hnest hprints
    simp only [to_value, Value.nesting, fields_nesting, Value.Prints, fields_print, true_and]
    exact ⟨by omega, hprints, trivial⟩
  | Final content =>
    simp only [to_value, Value.nesting, fields_nesting, Value.Prints, fields_print, and_self]
    exact ⟨by omega, trivial⟩

theorem finds_action {a : ModelAction} (hnest : (arguments_of a).nesting < RECURSION_LIMIT)
    (hprints : (arguments_of a).Prints) (hback : ReadsBack r a) {p : List Char}
    (hp : '\x7b' ∉ p) (s : List Char) :
    parse_action overflow_checks r (p ++ ((to_value a).to_string.toList ++ s)) = some (some a) := by
  obtain ⟨hdeep, hfloats⟩ := to_value_sound hnest hprints
  obtain ⟨fields, hfields⟩ := to_value_object a
  have hread := read_action_back hback
  rw [hfields] at hdeep hfloats hread ⊢
  obtain ⟨hfirst, hlast⟩ := object_ends fields
  have hend := @object_end_text overflow_checks fields hdeep hfloats (trim_end s)
  generalize (Value.object fields).to_string.toList = t at hread hfirst hlast hend ⊢
  have hstart : '\x7b' ∉ trim_start p := fun h => hp (List.dropWhile_subset _ h)
  have hfind : find_byte '\x7b' (trim_start p ++ (t ++ trim_end s)) =
      some (encode (trim_start p)).length := by
    obtain ⟨rest, rfl⟩ := hfirst
    rw [find_byte, List.cons_append, split_once_append _ _ _ hstart]
    rfl
  have hslice : slice_from (encode (trim_start p)).length (trim_start p ++ (t ++ trim_end s)) =
      some (t ++ trim_end s) := by
    rw [slice_from, split_at_append]
    rfl
  have htake : slice_to (encode t).length (t ++ trim_end s) = some t := by
    rw [slice_to, split_at_append]
    rfl
  rw [parse_action, trim_around hfirst hlast]
  simp only [hfind, hslice, hend, slice, Nat.not_lt.mpr (Nat.le_add_right _ _), if_false,
    Option.bind_some, Nat.add_sub_cancel_left, htake, Option.map_some, hread]

/-! ## No panic -/

/-- A sum that wraps does not panic. -/
theorem add_i32_wraps (a b : Int) : add_i32 false a b = some (wrap_i32 (a + b)) := by
  rw [add_i32, if_neg (by simp)]

/-- The end that is found lies between two characters. -/
theorem object_end_within (i : Nat) (depth : Int) (in_str esc : Bool) (cs : List Char) :
    ∃ found, object_end false i depth in_str esc cs = some found ∧
      ∀ n ∈ found, ∃ a b, cs = a ++ b ∧ n = i + (encode a).length := by
  induction cs generalizing i depth in_str esc with
  | nil => exact ⟨none, by cases in_str <;> rfl, by simp⟩
  | cons c rest ih =>
    have hon : ∀ depth in_str esc, ∃ found,
        object_end false (i + c.utf8Size) depth in_str esc rest = some found ∧
          ∀ n ∈ found, ∃ a b, c :: rest = a ++ b ∧ n = i + (encode a).length := by
      intro depth in_str esc
      obtain ⟨found, hfound, hwithin⟩ := ih (i + c.utf8Size) depth in_str esc
      refine ⟨found, hfound, fun n hn => ?_⟩
      obtain ⟨a, b, rfl, rfl⟩ := hwithin n hn
      exact ⟨c :: a, b, rfl, by rw [encode_cons_length, Nat.add_assoc]⟩
    cases in_str with
    | true =>
      rw [object_end]
      split_ifs <;> exact hon _ _ _
    | false =>
      rw [object_end, add_i32_wraps, add_i32_wraps]
      split_ifs with hquote hopen hclose
      · exact hon _ _ _
      · exact hon _ _ _
      · dsimp only
        split_ifs
        · refine ⟨some (i + 1), rfl, fun n hn => ?_⟩
          have hone : (encode ['\x7d']).length = 1 := by decide
          cases hn
          exact ⟨['\x7d'], rest, by rw [hclose]; rfl, by rw [hone]⟩
        · exact hon _ _ _
      · exact hon _ _ _

/-- In a build that lets sums wrap, no text makes it panic. -/
theorem parse_action_returns (r : Reader) (text : List Char) :
    (parse_action false r text).isSome = true := by
  unfold parse_action
  dsimp only
  rcases hfind : find_byte '\x7b' (trim text) with _ | start
  · rfl
  · obtain ⟨⟨a, b⟩, hsplit, rfl⟩ := Option.map_eq_some_iff.mp hfind
    have htrim := (split_once_spec hsplit).1
    have hslice : slice_from (encode a).length (trim text) = some ('\x7b' :: b) := by
      rw [htrim, slice_from, split_at_append]
      rfl
    obtain ⟨found, hfound, hwithin⟩ := object_end_within 0 0 false false ('\x7b' :: b)
    dsimp only
    rw [hslice]
    dsimp only
    rw [hfound]
    rcases found with _ | n
    · rfl
    · obtain ⟨json, behind, hjson, rfl⟩ := hwithin n rfl
      have htake : slice_to (encode json).length ('\x7b' :: b) = some json := by
        rw [hjson, slice_to, split_at_append]
        rfl
      simp only [slice, Nat.not_lt.mpr (Nat.le_add_right _ _), if_false, hslice, Option.bind_some,
        Nat.zero_add, Nat.add_sub_cancel_left, htake, Option.map_some, Option.isSome_some]

/-! ## Characters and bytes -/

/-- The search over bytes ends where the search over characters does, while the counter has room. -/
theorem object_end_counts {depth : Int} (hpos : 1 ≤ depth) (in_str esc : Bool) {cs : List Char}
    (hroom : depth + cs.count '\x7b' < 2147483648) (i : Nat) :
    object_end overflow_checks i depth in_str esc cs =
      some ((pai_agent.object_end depth in_str esc cs).map
        (fun n => i + (encode (cs.take n)).length)) := by
  induction cs generalizing depth in_str esc i with
  | nil => cases in_str <;> rfl
  | cons c rest ih =>
    have hle : rest.count '\x7b' ≤ (c :: rest).count '\x7b' := List.count_le_count_cons
    have hon : ∀ {depth : Int} in_str esc, 1 ≤ depth → depth + rest.count '\x7b' < 2147483648 →
        object_end overflow_checks (i + c.utf8Size) depth in_str esc rest =
          some (((pai_agent.object_end depth in_str esc rest).map (· + 1)).map
            (fun n => i + (encode ((c :: rest).take n)).length)) := by
      intro depth in_str esc hpos hroom
      rw [ih hpos in_str esc hroom, Option.map_map]
      congr 2
      funext n
      simp only [Function.comp, List.take_succ_cons, encode_cons_length, Nat.add_assoc]
    cases in_str with
    | true =>
      rw [object_end, pai_agent.object_end]
      split_ifs with hesc hslash hquote
      · exact hon _ _ hpos (by omega)
      · exact hon _ _ hpos (by omega)
      · rw [Bool.not_eq_true _ |>.mp hesc]
        exact hon _ _ hpos (by omega)
      · rw [Bool.not_eq_true _ |>.mp hesc]
        exact hon _ _ hpos (by omega)
    | false =>
      rw [object_end, pai_agent.object_end]
      have hback : depth + -1 = depth - 1 := by omega
      split_ifs with hquote hopen hclose hzero
      · exact hon _ _ hpos (by omega)
      · subst hopen
        rw [List.count_cons_self] at hroom
        rw [add_i32_self (by omega) (by omega)]
        exact hon _ _ (by omega) (by omega)
      · have hone : (encode ['\x7d']).length = 1 := by decide
        rw [add_i32_self (by omega) (by omega), hback]
        dsimp only
        rw [if_pos hzero, hclose, Option.map_some, List.take_succ_cons, List.take_zero, hone]
      · rw [add_i32_self (by omega) (by omega), hback]
        dsimp only
        rw [if_neg hzero]
        exact hon _ _ (by omega) (by omega)
      · exact hon _ _ hpos (by omega)

/-- A pattern of one character is found where the character is. -/
theorem split_once_str_char (c : Char) (cs : List Char) :
    split_once_str [c] cs = split_once c cs := by
  induction cs with
  | nil => rfl
  | cons d cs ih =>
    rw [split_once_str, split_once, ih]
    by_cases hd : d = c
    · simp [hd]
    · simp [hd, Ne.symm hd]

/-- A text with fewer than 2^31 opening braces is read as the search over characters reads it, whether
overflow is checked or not. -/
theorem parse_action_eq (r : Reader) {text : List Char}
    (h : (trim text).count '\x7b' < 2147483648) :
    parse_action overflow_checks r text = some (pai_agent.parse_action r text) := by
  unfold parse_action pai_agent.parse_action object_text find find_byte
  dsimp only
  rw [split_once_str_char]
  rcases hsplit : split_once '\x7b' (trim text) with _ | ⟨a, b⟩
  · rfl
  · obtain ⟨htrim, -⟩ := split_once_spec hsplit
    have hslice : slice_from (encode a).length (trim text) = some ('\x7b' :: b) := by
      rw [htrim, slice_from, split_at_append]
      rfl
    have hdrop : (trim text).drop a.length = '\x7b' :: b := by
      rw [htrim, List.drop_left]
    have hroom : b.count '\x7b' + 1 < 2147483648 := by
      rw [htrim, List.count_append, List.count_cons_self] at h
      omega
    have hquote : ('\x7b' : Char) ≠ '"' := by decide
    have hbrace : (encode ['\x7b']).length = ('\x7b' : Char).utf8Size := by decide
    have hend : object_end overflow_checks 0 0 false false ('\x7b' :: b) =
        some ((pai_agent.object_end 0 false false ('\x7b' :: b)).map
          (fun n => (encode (('\x7b' :: b).take n)).length)) := by
      rw [object_end, pai_agent.object_end, if_neg hquote, if_neg hquote, if_pos rfl, if_pos rfl,
        add_i32_self (by omega) (by omega)]
      dsimp only
      rw [Int.zero_add, object_end_counts (by omega) _ _ (by omega), Option.map_map]
      congr 2
      funext n
      simp only [Function.comp, List.take_succ_cons, encode_cons_length, Nat.zero_add]
    simp only [Option.map_some, hslice, hend, Option.bind_some, hdrop]
    rcases pai_agent.object_end 0 false false ('\x7b' :: b) with _ | n
    · rfl
    · have htake : slice_to (encode (('\x7b' :: b).take n)).length ('\x7b' :: b) =
          some (('\x7b' :: b).take n) := slice_to_eq_some.mpr ⟨List.take_prefix _ _, rfl⟩
      simp only [Option.map_some, slice, Nat.not_lt.mpr (Nat.le_add_right _ _), if_false, hslice,
        Option.bind_some, Nat.add_sub_cancel_left, htake, read_action]

/-- An action is found between any text without an opening brace and any other text; and no text
makes the search panic. -/
theorem actions_are_found (r : Reader) :
    (∀ a p s, (arguments_of a).nesting < RECURSION_LIMIT → (arguments_of a).Prints →
        ReadsBack r a → '\x7b' ∉ p → ∀ overflow_checks,
        parse_action overflow_checks r (p ++ ((to_value a).to_string.toList ++ s)) =
          some (some a)) ∧
      ∀ text, (parse_action false r text).isSome = true :=
  ⟨fun _ _ s hnest hprints hback hp _ => finds_action hnest hprints hback hp s,
    parse_action_returns r⟩

/-- A call whose text has a brace and a quote in a string. -/
def write_note : ModelAction :=
  .ToolCall "notes.write" (.object [("text", .string "a \x7d and a \" inside")])

def note_members : List Member :=
  [⟨"type", .string "tool_call", 8⟩, ⟨"name", .string "notes.write", 27⟩,
    ⟨"arguments", .object [("text", .string "a \x7d and a \" inside")], 53⟩]

/-- A reader that reads this one call. -/
def note_reader : Reader where
  members cs := if cs = (to_value write_note).to_string.toList then some note_members else none

/-- A call with a brace in one of its strings is found in the middle of prose. -/
theorem a_call_in_prose_is_found :
    parse_action true note_reader ("Sure:\n".toList ++
      ((to_value write_note).to_string.toList ++ " Done. \x7b".toList)) =
        some (some write_note) := by
  have hprints : (arguments_of write_note).Prints := by
    simp [write_note, arguments_of, Value.Prints, fields_print]
  have hmembers : note_reader.members (to_value write_note).to_string.toList = some note_members := by
    simp [note_reader]
  have hback : ReadsBack note_reader write_note := ⟨note_members, hmembers, rfl⟩
  exact (actions_are_found note_reader).1 write_note _ _ (by decide) hprints hback (by decide) true

end pai_inference
