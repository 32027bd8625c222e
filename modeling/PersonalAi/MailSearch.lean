-- Searches in a mailbox (connectors/email imap.rs): the criteria that are written for a search, and
-- what a server reads of them.
import Mathlib.Data.List.Forall2
import PersonalAi.Lib.Calendar
import PersonalAi.Lib.Search

open text calendar

namespace pai_connector_email

/-- `EmailSearch`, whose `from` is `sender` here. -/
structure EmailSearch where
  query : Option String
  sender : Option String
  since : Option Time
  label : Option String
  unread_only : Bool
  limit : Nat

/-! ## The criteria -/

/-- Escapes a value for a quoted string. -/
def imap_quote (s : String) : String :=
  "\"" ++ replace (replace s "\\" "\\\\") "\"" "\\\"" ++ "\""

def MONTHS : List (List Char) :=
  ["Jan".toList, "Feb".toList, "Mar".toList, "Apr".toList, "May".toList, "Jun".toList, "Jul".toList,
    "Aug".toList, "Sep".toList, "Oct".toList, "Nov".toList, "Dec".toList]

/-- Month and day of a time. -/
def month_of (t : Time) : Nat := month (is_leap t.year) (ordinal t.day)

def day_of (t : Time) : Nat := month_day (is_leap t.year) (ordinal t.day)

/-- The format `%d-%b-%Y`. -/
def format_date (t : Time) : List Char :=
  digits 2 (day_of t) ++ '-' :: MONTHS.getD (month_of t - 1) [] ++ '-' :: year_text t.year

def parts (q : EmailSearch) : List String :=
  (if q.unread_only then ["UNSEEN"] else []) ++
  (q.sender.toList.map fun f => "FROM " ++ imap_quote f) ++
  (q.query.toList.map fun t => "TEXT " ++ imap_quote t) ++
  (q.since.toList.map fun d => "SINCE " ++ String.ofList (format_date d))

/-- The criteria of a search. The mailbox is selected before, by the label, and the limit cuts what
is found. -/
def search_query (q : EmailSearch) : String :=
  if (parts q).isEmpty then "ALL" else " ".intercalate (parts q)

/-! ## The grammar of a search -/

/-- The keys of a search: without an argument, with a string, and with a date. -/
inductive SearchKey
  | flag (name : String)
  | text (name : String) (value : List Char)
  | date (name : String) (day month year : Nat)
deriving DecidableEq

def FLAG_KEYS : List String :=
  ["ALL", "ANSWERED", "DELETED", "DRAFT", "FLAGGED", "NEW", "OLD", "RECENT", "SEEN", "UNANSWERED",
    "UNDELETED", "UNDRAFT", "UNFLAGGED", "UNSEEN"]

def TEXT_KEYS : List String := ["BCC", "BODY", "CC", "FROM", "SUBJECT", "TEXT", "TO"]

def DATE_KEYS : List String := ["BEFORE", "ON", "SENTBEFORE", "SENTON", "SENTSINCE", "SINCE"]

def is_letter (c : Char) : Bool :=
  (65 ≤ c.toNat && c.toNat ≤ 90) || (97 ≤ c.toNat && c.toNat ≤ 122)

/-- `TEXT-CHAR`: ASCII, but neither NUL nor an end of a line. -/
def is_text_char (c : Char) : Bool := 0 < c.toNat && c.toNat < 128 && c ≠ '\r' && c ≠ '\n'

/-- `ASTRING-CHAR`: what may stand in a string without quotes. -/
def is_astring_char (c : Char) : Bool :=
  32 < c.toNat && c.toNat < 127 && !(['(', ')', '\x7b', '%', '*', '"', '\\'].contains c)

/-- A quoted string, behind its first quote. -/
def read_quoted : List Char → Option (List Char × List Char)
  | [] => none
  | '"' :: rest => some ([], rest)
  | '\\' :: c :: rest =>
    if c = '"' ∨ c = '\\' then (read_quoted rest).map fun p => (c :: p.1, p.2) else none
  | c :: rest =>
    if is_text_char c ∧ c ≠ '\\' then (read_quoted rest).map fun p => (c :: p.1, p.2) else none

/-- A string. A literal is not read, as it holds the end of a line. -/
def read_astring : List Char → Option (List Char × List Char)
  | '"' :: rest => read_quoted rest
  | cs =>
    let s := cs.takeWhile is_astring_char
    if s = [] then none else some (s, cs.dropWhile is_astring_char)

/-- So many digits. -/
def read_digits (width : Nat) (cs : List Char) : Option (Nat × List Char) :=
  let ds := cs.take width
  if ds.length = width ∧ ds.all Char.isDigit then some (Nat.ofDigitChars 10 ds 0, cs.drop width)
  else none

/-- A dash that has to stand here. -/
def read_dash : List Char → Option (List Char)
  | '-' :: rest => some rest
  | _ => none

def read_month (cs : List Char) : Option (Nat × List Char) :=
  let i := MONTHS.findIdx (eq_ignore_ascii_case (cs.take 3))
  if i < MONTHS.length then some (i + 1, cs.drop 3) else none

/-- A date: a day of one or two digits, a month, and a year of four digits. -/
def read_date (cs : List Char) : Option ((Nat × Nat × Nat) × List Char) := do
  let (day, cs) ← (read_digits 2 cs).orElse fun _ => read_digits 1 cs
  let cs ← read_dash cs
  let (month, cs) ← read_month cs
  let cs ← read_dash cs
  let (year, cs) ← read_digits 4 cs
  return ((day, month, year), cs)

/-- A date may stand in quotes. -/
def read_date_argument : List Char → Option ((Nat × Nat × Nat) × List Char)
  | '"' :: rest =>
    match read_date rest with
    | some (d, '"' :: rest) => some (d, rest)
    | _ => none
  | cs => read_date cs

def named (word : List Char) (name : String) : Bool := eq_ignore_ascii_case name.toList word

def read_key (cs : List Char) : Option (SearchKey × List Char) :=
  let word := cs.takeWhile is_letter
  let rest := cs.dropWhile is_letter
  match FLAG_KEYS.find? (named word) with
  | some name => some (.flag name, rest)
  | none =>
    match rest with
    | ' ' :: rest =>
      match TEXT_KEYS.find? (named word) with
      | some name => (read_astring rest).map fun p => (.text name p.1, p.2)
      | none =>
        match DATE_KEYS.find? (named word) with
        | some name =>
          (read_date_argument rest).map fun p => (.date name p.1.1 p.1.2.1 p.1.2.2, p.2)
        | none => none
    | _ => none

/-- Keys with a blank between them, at most so many. -/
def read_keys : Nat → List Char → Option (List SearchKey)
  | 0, _ => none
  | fuel + 1, cs =>
    match read_key cs with
    | some (key, []) => some [key]
    | some (key, ' ' :: rest) => (read_keys fuel rest).map (key :: ·)
    | _ => none

def read_search (cs : List Char) : Option (List SearchKey) := read_keys (cs.length + 1) cs

/-! ## One search -/

def keys (q : EmailSearch) : List SearchKey :=
  (if q.unread_only then [.flag "UNSEEN"] else []) ++
  (q.sender.toList.map fun f => .text "FROM" f.toList) ++
  (q.query.toList.map fun t => .text "TEXT" t.toList) ++
  (q.since.toList.map fun d => .date "SINCE" (day_of d) (month_of d) d.year.toNat)

/-- The keys that are asked for. -/
def requested (q : EmailSearch) : List SearchKey :=
  if (keys q).isEmpty then [.flag "ALL"] else keys q

/-- The criteria stand on one line and are read as the keys that are asked for. -/
def OneSearch (q : EmailSearch) : Prop :=
  (∀ c ∈ ['\r', '\n', '\x00'], c ∉ (search_query q).toList) ∧
    read_search (search_query q).toList = some (requested q)

/-- The strings are ASCII without NUL and ends of lines, and the year has four digits. -/
def Sendable (q : EmailSearch) : Prop :=
  (∀ s ∈ q.sender.toList ++ q.query.toList, s.toList.all is_text_char = true) ∧
    ∀ d ∈ q.since, 0 ≤ d.year ∧ d.year ≤ 9999

/-! ## Strings -/

/-- A character as it stands in a quoted string. -/
def quoted_char (c : Char) : List Char := if c = '\\' ∨ c = '"' then ['\\', c] else [c]

theorem imap_quote_toList (s : String) :
    (imap_quote s).toList = '"' :: (s.toList.flatMap quoted_char ++ ['"']) := by
  have hchar : ∀ c : Char, (if c = '\\' then ['\\', '\\'] else [c]).flatMap
      (fun d => if d = '"' then ['\\', '"'] else [d]) = quoted_char c := by
    intro c
    by_cases hslash : c = '\\'
    · simp [hslash, quoted_char]
    · by_cases hquote : c = '"'
      · simp [hquote, quoted_char]
      · simp [hslash, hquote, quoted_char]
  have hslash : "\\".toList = ['\\'] := by decide
  have hslashes : "\\\\".toList = ['\\', '\\'] := by decide
  have hquote : "\"".toList = ['"'] := by decide
  have hescaped : "\\\"".toList = ['\\', '"'] := by decide
  simp only [imap_quote, replace, String.toList_append, String.toList_ofList, hslash, hslashes,
    hquote, hescaped, replace_from_char, List.flatMap_assoc, hchar, List.nil_append,
    List.cons_append]

/-- A quoted string is read back if all its characters may stand in one, and not at all otherwise. -/
theorem read_quoted_escaped (s rest : List Char) :
    read_quoted (s.flatMap quoted_char ++ '"' :: rest) =
      if s.all is_text_char then some (s, rest) else none := by
  induction s with
  | nil => simp [read_quoted]
  | cons c s ih =>
    rw [List.flatMap_cons, List.append_assoc, List.all_cons]
    by_cases hspecial : c = '\\' ∨ c = '"'
    · have hplain : is_text_char c = true := by
        rcases hspecial with rfl | rfl <;> decide
      rw [quoted_char, if_pos hspecial, List.cons_append, List.cons_append, List.nil_append,
        read_quoted, if_pos (Or.comm.mp hspecial), ih, hplain, Bool.true_and]
      by_cases hall : s.all is_text_char = true
      · rw [if_pos hall, if_pos hall]
        rfl
      · rw [if_neg hall, if_neg hall]
        rfl
    · have hne := not_or.mp hspecial
      rw [quoted_char, if_neg hspecial, List.singleton_append, read_quoted, ih]
      · by_cases hplain : is_text_char c = true
        · rw [if_pos ⟨hplain, hne.1⟩, hplain, Bool.true_and]
          by_cases hall : s.all is_text_char = true
          · rw [if_pos hall, if_pos hall]
            rfl
          · rw [if_neg hall, if_neg hall]
            rfl
        · rw [if_neg (fun h => hplain h.1), if_neg (by simp [hplain])]
      · exact hne.2
      · intro d rest' hc _
        exact hne.1 hc

/-! ## Dates -/

theorem read_digits_digits {width n : Nat} (h : n < 10 ^ width) (rest : List Char) :
    read_digits width (digits width n ++ rest) = some (n, rest) := by
  have htake : (digits width n ++ rest).take width = digits width n :=
    List.take_left' (digits_length width n)
  have hdrop : (digits width n ++ rest).drop width = rest :=
    List.drop_left' (digits_length width n)
  have hall : (digits width n).all Char.isDigit = true :=
    List.all_eq_true.mpr (fun c hc => digits_isDigit hc)
  simp only [read_digits, htake, hdrop, digits_length, hall, and_self, if_true, value_of_digits h]

theorem read_digits_sign {width : Nat} {c : Char} (h : c.isDigit = false) (cs : List Char) :
    read_digits (width + 1) (c :: cs) = none := by
  simp [read_digits, h]

theorem read_month_name {m : Nat} (hpos : 0 < m) (hm : m ≤ 12) (rest : List Char) :
    read_month (MONTHS.getD (m - 1) [] ++ rest) = some (m, rest) := by
  have hnames : ∀ i < 12, (MONTHS.getD i []).length = 3 ∧
      MONTHS.findIdx (eq_ignore_ascii_case (MONTHS.getD i [])) = i := by decide
  obtain ⟨hlen, hfind⟩ := hnames (m - 1) (by omega)
  have htwelve : MONTHS.length = 12 := rfl
  rw [read_month, List.take_left' hlen, List.drop_left' hlen, hfind, htwelve, if_pos (by omega)]
  congr
  omega

/-- A date is read back if its year has four digits, and not at all otherwise. -/
theorem read_date_format (t : Time) (rest : List Char) :
    read_date (format_date t ++ rest) =
      if 0 ≤ t.year ∧ t.year ≤ 9999 then some ((day_of t, month_of t, t.year.toNat), rest)
      else none := by
  obtain ⟨hpos, hmonth, -, hday⟩ := month_range (is_leap t.year) (ordinal t.day) (ordinal_spec _).2
  have htwo : day_of t < 10 ^ 2 := by
    rw [day_of]
    omega
  simp only [read_date, format_date, List.append_assoc, List.cons_append,
    read_digits_digits htwo, Option.orElse_some, Option.bind_eq_bind, Option.bind_some, read_dash,
    read_month_name (m := month_of t) hpos hmonth]
  by_cases hyear : 0 ≤ t.year ∧ t.year ≤ 9999
  · have hfour : t.year.toNat < 10 ^ 4 := by omega
    rw [if_pos hyear, year_text, if_pos hyear, read_digits_digits hfour]
    rfl
  · rw [if_neg hyear, year_text, if_neg hyear, List.cons_append, read_digits_sign]
    · rfl
    · split <;> rfl

/-- A date begins with a digit. -/
theorem read_date_argument_format (t : Time) (rest : List Char) :
    read_date_argument (format_date t ++ rest) = read_date (format_date t ++ rest) := by
  obtain ⟨c, ds, hdigits⟩ : ∃ c ds, digits 2 (day_of t) = c :: ds := by
    rcases hdigits : digits 2 (day_of t) with _ | ⟨c, ds⟩
    · have hlen := digits_length 2 (day_of t)
      rw [hdigits] at hlen
      cases hlen
    · exact ⟨c, ds, rfl⟩
  have hc : c ≠ '"' := by
    have hdigit : c.isDigit = true := @digits_isDigit 2 (day_of t) c (by simp [hdigits])
    rintro rfl
    cases hdigit
  rw [format_date, hdigits, List.cons_append, List.cons_append, read_date_argument]
  intro rest' h
  exact absurd (List.cons.inj h).1 hc

/-! ## Keys -/

/-- What stands behind a key. -/
def Boundary (rest : List Char) : Prop := rest = [] ∨ ∃ more, rest = ' ' :: more

theorem word_cut {word rest : List Char} (h : word.all is_letter = true) (hrest : Boundary rest) :
    (word ++ rest).takeWhile is_letter = word ∧ (word ++ rest).dropWhile is_letter = rest := by
  have hall : ∀ c ∈ word, is_letter c = true := List.all_eq_true.mp h
  rw [List.takeWhile_append_of_pos hall, List.dropWhile_append_of_pos hall]
  rcases hrest with rfl | ⟨more, rfl⟩
  · simp
  · have hblank : is_letter ' ' = false := by decide
    simp [hblank]

theorem read_flag {name : String} (h : name.toList.all is_letter = true)
    (hname : FLAG_KEYS.find? (named name.toList) = some name) {rest : List Char}
    (hrest : Boundary rest) : read_key (name.toList ++ rest) = some (.flag name, rest) := by
  obtain ⟨htake, hdrop⟩ := word_cut h hrest
  simp only [read_key, htake, hdrop, hname]

theorem read_text {name : String} (h : name.toList.all is_letter = true)
    (hflag : FLAG_KEYS.find? (named name.toList) = none)
    (hname : TEXT_KEYS.find? (named name.toList) = some name) (s : String) (rest : List Char) :
    read_key (name.toList ++ ' ' :: ((imap_quote s).toList ++ rest)) =
      if s.toList.all is_text_char then some (.text name s.toList, rest) else none := by
  obtain ⟨htake, hdrop⟩ := word_cut h (Or.inr ⟨(imap_quote s).toList ++ rest, rfl⟩)
  simp only [read_key, htake, hdrop, hflag, hname]
  rw [imap_quote_toList, List.cons_append, List.append_assoc, List.singleton_append, read_astring,
    read_quoted_escaped]
  by_cases hall : s.toList.all is_text_char = true
  · rw [if_pos hall, if_pos hall]
    rfl
  · rw [if_neg hall, if_neg hall]
    rfl

theorem read_since (t : Time) (rest : List Char) :
    read_key ("SINCE".toList ++ ' ' :: (format_date t ++ rest)) =
      if 0 ≤ t.year ∧ t.year ≤ 9999 then
        some (.date "SINCE" (day_of t) (month_of t) t.year.toNat, rest)
      else none := by
  have hword : "SINCE".toList.all is_letter = true := by decide
  obtain ⟨htake, hdrop⟩ := word_cut hword (Or.inr ⟨format_date t ++ rest, rfl⟩)
  have hflag : FLAG_KEYS.find? (named "SINCE".toList) = none := by decide
  have htext : TEXT_KEYS.find? (named "SINCE".toList) = none := by decide
  have hdate : DATE_KEYS.find? (named "SINCE".toList) = some "SINCE" := by decide
  simp only [read_key, htake, hdrop, hflag, htext, hdate, read_date_argument_format, read_date_format]
  split <;> rfl

/-! ## The whole of the criteria -/

/-- A part is read as this key, and everything behind it is left. -/
def ReadsAs (part : String) (key : SearchKey) : Prop :=
  ∀ rest, Boundary rest → read_key (part.toList ++ rest) = some (key, rest)

/-- A part is not read, whatever stands behind it. -/
def Unread (part : String) : Prop := ∀ rest, read_key (part.toList ++ rest) = none

theorem read_keys_join {ps : List String} {ks : List SearchKey} (h : List.Forall₂ ReadsAs ps ks)
    (hne : ps ≠ []) {fuel : Nat} (hfuel : ps.length ≤ fuel) :
    read_keys fuel ([' '].intercalate (ps.map String.toList)) = some ks := by
  induction h generalizing fuel with
  | nil => exact absurd rfl hne
  | @cons p k ps ks hp hps ih =>
    obtain ⟨fuel, rfl⟩ : ∃ n, fuel = n + 1 :=
      Nat.exists_eq_succ_of_ne_zero (by simp at hfuel; omega)
    rcases ps with _ | ⟨p', ps⟩
    · cases hps
      have hread := hp [] (Or.inl rfl)
      rw [List.append_nil] at hread
      simp only [List.map_cons, List.map_nil, List.intercalate_singleton, read_keys, hread]
    · have hread := hp _ (Or.inr ⟨[' '].intercalate ((p' :: ps).map String.toList), rfl⟩)
      have hrest := @ih (by simp) fuel (by simpa using hfuel)
      simp only [List.map_cons] at hread hrest ⊢
      rw [List.intercalate_cons_cons, List.append_assoc, List.singleton_append, read_keys, hread]
      simp only [hrest, Option.map_some]

theorem read_keys_fails {ps : List String} (h : ∀ p ∈ ps, (∃ k, ReadsAs p k) ∨ Unread p)
    (hfails : ∃ p ∈ ps, Unread p) (fuel : Nat) :
    read_keys fuel ([' '].intercalate (ps.map String.toList)) = none := by
  induction ps generalizing fuel with
  | nil => simp at hfails
  | cons p ps ih =>
    cases fuel with
    | zero => rfl
    | succ fuel =>
      obtain ⟨rest, hjoin, hrest⟩ : ∃ rest, [' '].intercalate ((p :: ps).map String.toList) =
          p.toList ++ rest ∧ (ps = [] ∧ rest = [] ∨
            rest = ' ' :: [' '].intercalate (ps.map String.toList)) := by
        rcases ps with _ | ⟨p', ps⟩
        · exact ⟨[], by simp, Or.inl ⟨rfl, rfl⟩⟩
        · refine ⟨' ' :: [' '].intercalate ((p' :: ps).map String.toList), ?_, Or.inr rfl⟩
          simp only [List.map_cons, List.intercalate_cons_cons, List.append_assoc,
            List.singleton_append]
      rw [hjoin]
      rcases h p (by simp) with ⟨k, hp⟩ | hp
      · -- this part is read, so it is one behind it that fails
        have hbehind : ∃ p' ∈ ps, Unread p' := by
          obtain ⟨p', hmem, hp'⟩ := hfails
          rcases List.mem_cons.mp hmem with rfl | hmem
          · have hread := hp [] (Or.inl rfl)
            rw [hp'] at hread
            cases hread
          · exact ⟨p', hmem, hp'⟩
        rcases hrest with ⟨rfl, -⟩ | rfl
        · simp at hbehind
        · have hnone := ih (fun p' hp' => h p' (List.mem_cons_of_mem _ hp')) hbehind fuel
          rw [read_keys, hp _ (Or.inr ⟨_, rfl⟩)]
          simp only [hnone, Option.map_none]
      · rw [read_keys, hp]

theorem text_part {name : String} (h : name.toList.all is_letter = true)
    (hflag : FLAG_KEYS.find? (named name.toList) = none)
    (hname : TEXT_KEYS.find? (named name.toList) = some name) (s : String) :
    if s.toList.all is_text_char then ReadsAs (name ++ " " ++ imap_quote s) (.text name s.toList)
    else Unread (name ++ " " ++ imap_quote s) := by
  have hpart : ∀ rest, (name ++ " " ++ imap_quote s).toList ++ rest =
      name.toList ++ ' ' :: ((imap_quote s).toList ++ rest) := by
    intro rest
    simp [String.toList_append]
  by_cases hall : s.toList.all is_text_char = true
  · rw [if_pos hall]
    intro rest _
    rw [hpart, read_text h hflag hname, if_pos hall]
  · rw [if_neg hall]
    intro rest
    rw [hpart, read_text h hflag hname, if_neg hall]

theorem since_part (t : Time) :
    if 0 ≤ t.year ∧ t.year ≤ 9999 then
      ReadsAs ("SINCE " ++ String.ofList (format_date t))
        (.date "SINCE" (day_of t) (month_of t) t.year.toNat)
    else Unread ("SINCE " ++ String.ofList (format_date t)) := by
  have hpart : ∀ rest, ("SINCE " ++ String.ofList (format_date t)).toList ++ rest =
      "SINCE".toList ++ ' ' :: (format_date t ++ rest) := by
    intro rest
    simp [String.toList_append]
  by_cases hyear : 0 ≤ t.year ∧ t.year ≤ 9999
  · rw [if_pos hyear]
    intro rest _
    rw [hpart, read_since, if_pos hyear]
  · rw [if_neg hyear]
    intro rest
    rw [hpart, read_since, if_neg hyear]

theorem from_part (f : String) :
    if f.toList.all is_text_char then ReadsAs ("FROM " ++ imap_quote f) (.text "FROM" f.toList)
    else Unread ("FROM " ++ imap_quote f) := by
  have hname : "FROM " = "FROM" ++ " " := by decide
  rw [hname]
  exact text_part (by decide) (by decide) (by decide) f

theorem query_part (f : String) :
    if f.toList.all is_text_char then ReadsAs ("TEXT " ++ imap_quote f) (.text "TEXT" f.toList)
    else Unread ("TEXT " ++ imap_quote f) := by
  have hname : "TEXT " = "TEXT" ++ " " := by decide
  rw [hname]
  exact text_part (by decide) (by decide) (by decide) f

theorem unseen_part : ReadsAs "UNSEEN" (.flag "UNSEEN") :=
  fun _ => read_flag (by decide) (by decide)

theorem forall₂_toList {α β γ : Type} {R : β → γ → Prop} {f : α → β} {g : α → γ} (o : Option α)
    (h : ∀ x ∈ o, R (f x) (g x)) : List.Forall₂ R (o.toList.map f) (o.toList.map g) := by
  cases o with
  | none => exact .nil
  | some x => exact .cons (h x rfl) .nil

variable {q : EmailSearch}

theorem parts_read (h : Sendable q) : List.Forall₂ ReadsAs (parts q) (keys q) := by
  obtain ⟨htexts, hyear⟩ := h
  refine List.rel_append (List.rel_append (List.rel_append ?_ ?_) ?_) ?_
  · split
    · exact .cons unseen_part .nil
    · exact .nil
  · refine forall₂_toList q.sender (fun f hf => ?_)
    have hpart := from_part f
    rwa [if_pos (htexts f (List.mem_append_left _ (Option.mem_toList.mpr hf)))] at hpart
  · refine forall₂_toList q.query (fun f hf => ?_)
    have hpart := query_part f
    rwa [if_pos (htexts f (List.mem_append_right _ (Option.mem_toList.mpr hf)))] at hpart
  · refine forall₂_toList q.since (fun d hd => ?_)
    have hpart := since_part d
    rwa [if_pos (hyear d hd)] at hpart

/-- Every part is read as something or not read at all. -/
theorem part_cases {p : String} (h : p ∈ parts q) : (∃ k, ReadsAs p k) ∨ Unread p := by
  simp only [parts, List.mem_append, List.mem_map, Option.mem_toList] at h
  rcases h with ((hunseen | ⟨f, -, rfl⟩) | ⟨f, -, rfl⟩) | ⟨d, -, rfl⟩
  · split at hunseen
    · rw [List.mem_singleton.mp hunseen]
      exact Or.inl ⟨_, unseen_part⟩
    · simp at hunseen
  · have hpart := from_part f
    split at hpart
    · exact Or.inl ⟨_, hpart⟩
    · exact Or.inr hpart
  · have hpart := query_part f
    split at hpart
    · exact Or.inl ⟨_, hpart⟩
    · exact Or.inr hpart
  · have hpart := since_part d
    split at hpart
    · exact Or.inl ⟨_, hpart⟩
    · exact Or.inr hpart

/-- A search that cannot be sent has a part that is not read. -/
theorem part_fails (h : ¬ Sendable q) : ∃ p ∈ parts q, Unread p := by
  by_contra hnone
  push Not at hnone
  apply h
  constructor
  · intro s hs
    by_contra hbad
    rcases List.mem_append.mp hs with hs | hs
    · have hpart := from_part s
      rw [if_neg hbad] at hpart
      refine hnone _ ?_ hpart
      simp only [parts, List.mem_append, List.mem_map]
      exact Or.inl (Or.inl (Or.inr ⟨s, hs, rfl⟩))
    · have hpart := query_part s
      rw [if_neg hbad] at hpart
      refine hnone _ ?_ hpart
      simp only [parts, List.mem_append, List.mem_map]
      exact Or.inl (Or.inr ⟨s, hs, rfl⟩)
  · intro d hd
    by_contra hbad
    have hpart := since_part d
    rw [if_neg hbad] at hpart
    refine hnone _ ?_ hpart
    simp only [parts, List.mem_append, List.mem_map]
    exact Or.inr ⟨d, Option.mem_toList.mpr hd, rfl⟩

theorem query_text (hne : parts q ≠ []) :
    (search_query q).toList = [' '].intercalate ((parts q).map String.toList) := by
  have hempty : (parts q).isEmpty = false := by simpa using hne
  have hblank : " ".toList = [' '] := by decide
  rw [search_query, hempty, if_neg Bool.false_ne_true, String.toList_intercalate, hblank]

/-- There are no more parts than characters. -/
theorem join_length (ps : List String) :
    ps.length ≤ ([' '].intercalate (ps.map String.toList)).length + 1 := by
  induction ps with
  | nil => simp
  | cons p ps ih =>
    cases ps with
    | nil => simp
    | cons p' ps =>
      simp only [List.map_cons] at ih ⊢
      rw [List.intercalate_cons_cons]
      simp only [List.length_cons, List.length_append] at ih ⊢
      omega

/-- The criteria are read as a whole exactly when every part of them can be sent. -/
theorem read_search_query (q : EmailSearch) :
    (Sendable q → read_search (search_query q).toList = some (requested q)) ∧
      (¬ Sendable q → read_search (search_query q).toList = none) := by
  constructor
  · intro h
    have hparts := parts_read h
    by_cases hnone : parts q = []
    · have hkeys : keys q = [] := by
        rw [hnone] at hparts
        exact List.forall₂_nil_left_iff.mp hparts
      have hread : read_search "ALL".toList = some [.flag "ALL"] := by decide
      rw [search_query, requested, hnone, hkeys]
      exact hread
    · have hkeys : (keys q).isEmpty = false := by
        rw [List.isEmpty_eq_false_iff, ← List.length_pos_iff, ← hparts.length_eq]
        exact List.length_pos_iff.mpr hnone
      rw [requested, hkeys, if_neg Bool.false_ne_true, query_text hnone]
      exact read_keys_join hparts hnone (join_length _)
  · intro h
    have hfails := part_fails h
    have hne : parts q ≠ [] := by
      obtain ⟨p, hp, -⟩ := hfails
      exact List.ne_nil_of_mem hp
    rw [query_text hne]
    exact read_keys_fails (fun p hp => part_cases hp) hfails _

/-! ## Characters -/

theorem quote_chars {s : String} (h : s.toList.all is_text_char = true) :
    (imap_quote s).toList.all is_text_char = true := by
  have hchar : ∀ c ∈ s.toList, (quoted_char c).all is_text_char = true := by
    intro c hc
    have hplain := List.all_eq_true.mp h c hc
    have hslash : is_text_char '\\' = true := by decide
    rw [quoted_char]
    split <;> simp [hplain, hslash]
  have hquote : is_text_char '"' = true := by decide
  rw [imap_quote_toList, List.all_cons, List.all_append, List.all_flatMap, hquote,
    List.all_eq_true.mpr hchar]
  simp [hquote]

theorem digits_chars (width n : Nat) : (digits width n).all is_text_char = true := by
  refine List.all_eq_true.mpr (fun c hc => ?_)
  have hdigit := digits_isDigit hc
  simp only [Char.isDigit, ge_iff_le, Bool.and_eq_true, decide_eq_true_eq,
    UInt32.le_iff_toNat_le] at hdigit
  have hcode : 48 ≤ c.toNat ∧ c.toNat ≤ 57 := hdigit
  have hcr : c ≠ '\r' := by
    rintro rfl
    exact absurd hcode.1 (by decide)
  have hlf : c ≠ '\n' := by
    rintro rfl
    exact absurd hcode.1 (by decide)
  simp only [is_text_char, Bool.and_eq_true, decide_eq_true_eq]
  exact ⟨⟨⟨by omega, by omega⟩, hcr⟩, hlf⟩

theorem date_chars (t : Time) : (format_date t).all is_text_char = true := by
  obtain ⟨-, hmonth, -, -⟩ := month_range (is_leap t.year) (ordinal t.day) (ordinal_spec _).2
  have hnames : ∀ i < 12, (MONTHS.getD i []).all is_text_char = true := by decide
  have hname := hnames (month_of t - 1) (by rw [month_of]; omega)
  have hyear : (year_text t.year).all is_text_char = true := by
    rw [year_text]
    split
    · exact digits_chars _ _
    · rw [List.all_cons, digits_chars]
      split <;> decide
  have hdash : is_text_char '-' = true := by decide
  simp only [format_date, List.all_append, List.all_cons, digits_chars, hname, hyear, hdash,
    Bool.and_self]

theorem part_chars (h : Sendable q) {p : String} (hp : p ∈ parts q) :
    p.toList.all is_text_char = true := by
  obtain ⟨htexts, -⟩ := h
  have hfrom : "FROM ".toList.all is_text_char = true := by decide
  have htext : "TEXT ".toList.all is_text_char = true := by decide
  have hsince : "SINCE ".toList.all is_text_char = true := by decide
  simp only [parts, List.mem_append, List.mem_map] at hp
  rcases hp with ((hunseen | ⟨f, hf, rfl⟩) | ⟨f, hf, rfl⟩) | ⟨d, -, rfl⟩
  · split at hunseen
    · rw [List.mem_singleton.mp hunseen]
      decide
    · simp at hunseen
  · rw [String.toList_append, List.all_append, hfrom,
      quote_chars (htexts f (List.mem_append_left _ hf))]
    rfl
  · rw [String.toList_append, List.all_append, htext,
      quote_chars (htexts f (List.mem_append_right _ hf))]
    rfl
  · rw [String.toList_append, List.all_append, hsince, String.toList_ofList, date_chars]
    rfl

theorem query_chars (h : Sendable q) : (search_query q).toList.all is_text_char = true := by
  by_cases hnone : parts q = []
  · rw [search_query, hnone]
    decide
  · rw [query_text hnone]
    refine List.all_eq_true.mpr (fun c hc => ?_)
    rcases mem_of_intercalate hc with rfl | ⟨l, hl, hcl⟩
    · decide
    · obtain ⟨p, hp, rfl⟩ := List.mem_map.mp hl
      exact List.all_eq_true.mp (part_chars h hp) c hcl

/-- A search stays one search if and only if its strings are ASCII without NUL and ends of lines, and
its year has four digits. -/
theorem one_search_iff (q : EmailSearch) : OneSearch q ↔ Sendable q := by
  obtain ⟨hreads, hfails⟩ := read_search_query q
  constructor
  · rintro ⟨-, hread⟩
    by_contra h
    rw [hfails h] at hread
    cases hread
  · intro h
    refine ⟨fun c hc hin => ?_, hreads h⟩
    have hplain := List.all_eq_true.mp (query_chars h) c hin
    have hbad : ['\r', '\n', '\x00'].all (fun c => !is_text_char c) = true := by decide
    have hnot := List.all_eq_true.mp hbad c hc
    rw [hplain] at hnot
    cases hnot

/-- A line end in a search text ends the command, and what is behind it is the next one. -/
theorem a_line_end_in_a_search :
    ¬ OneSearch { query := some "x\r\nA1 DELETE INBOX", sender := none, since := none, label := none,
                  unread_only := false, limit := 10 } := by
  rintro ⟨hline, -⟩
  exact hline '\r' (by decide) (by decide)

end pai_connector_email
