-- The CGI envelope of the apps crate (serve.rs): a web response travels as the
-- stdout of a run, a status line, headers, a blank line, then the body. The
-- laws say when the decoder gives back what the encoder took.
import PersonalAi.Lib.Chars

open text

namespace pai_apps.serve

/-! ## The source -/

structure ServeResponse where
  status : UInt16
  headers : List (String × String)
  body : Bytes
deriving DecidableEq, Repr

def CRLFCRLF : Bytes := [13, 10, 13, 10]

def LFLF : Bytes := [10, 10]

/-- The position of the first window of `haystack` that is `needle`. -/
def find_subslice : Bytes → Bytes → Option Nat
  | [], _ => none
  | b :: rest, needle =>
    if needle.isPrefixOf (b :: rest) then some 0 else (find_subslice rest needle).map (· + 1)

/-- What the loop over the header lines has read so far. -/
structure Head where
  status : UInt16
  headers : List (String × String)
  saw_ct : Bool
deriving DecidableEq, Repr

/-- One turn of the loop over the header lines. -/
def parse_line (h : Head) (line : Bytes) : Head :=
  let line := trim_end ((from_utf8 line).getD [])
  if line = [] then h
  else
    match split_once ':' line with
    | none => h
    | some (name, value) =>
      let name := trim name
      let value := trim value
      if eq_ignore_ascii_case name "status".toList then
        { h with status := ((first_word value).bind parse_u16).getD 200 }
      else
        { h with headers := h.headers ++ [(String.ofList name, String.ofList value)],
                 saw_ct := h.saw_ct || eq_ignore_ascii_case name "content-type".toList }

def text_plain : String × String := ("Content-Type", "text/plain")

/-- The part of `parse_cgi` behind the split into head and body. -/
def respond (head body : Bytes) : ServeResponse :=
  let h := (head.splitOn 10).foldl parse_line { status := 200, headers := [], saw_ct := false }
  { status := h.status, headers := if h.saw_ct then h.headers else h.headers ++ [text_plain],
    body := body }

def parse_cgi (stdout : Bytes) : ServeResponse :=
  match find_subslice stdout CRLFCRLF with
  | some i => respond (stdout.take i) (stdout.drop (i + 4))
  | none =>
    match find_subslice stdout LFLF with
    | some i => respond (stdout.take i) (stdout.drop (i + 2))
    | none => { status := 200, headers := [text_plain], body := stdout }

def cgi_bytes (resp : ServeResponse) : Bytes :=
  utf8 ("Status: " ++ toString resp.status.toNat ++ "\n") ++
    resp.headers.flatMap (fun h => utf8 (h.1 ++ ": " ++ h.2 ++ "\n")) ++ [10] ++ resp.body

/-! ## Searching for a blank line -/

theorem find_subslice_cons (b : UInt8) (rest needle : Bytes) :
    find_subslice (b :: rest) needle =
      if needle.isPrefixOf (b :: rest) then some 0
      else (find_subslice rest needle).map (· + 1) := rfl

/-- A find points at the needle, inside the haystack. -/
theorem find_subslice_some {haystack needle : Bytes} {i : Nat}
    (h : find_subslice haystack needle = some i) :
    needle <+: haystack.drop i ∧ i < haystack.length := by
  induction haystack generalizing i with
  | nil => simp [find_subslice] at h
  | cons b rest ih =>
    rw [find_subslice_cons] at h
    split at h
    · rename_i hpre
      cases h
      exact ⟨List.isPrefixOf_iff_prefix.mp hpre, by simp⟩
    · obtain ⟨j, hj, rfl⟩ := Option.map_eq_some_iff.mp h
      obtain ⟨hpre, hlt⟩ := ih hj
      exact ⟨by simpa using hpre, by simpa using hlt⟩

/-- The search fails only where no window is the needle. -/
theorem find_subslice_none {haystack needle : Bytes} (h : find_subslice haystack needle = none)
    (j : Nat) (hlt : j < haystack.length) : ¬ needle <+: haystack.drop j := by
  induction haystack generalizing j with
  | nil => simp at hlt
  | cons b rest ih =>
    rw [find_subslice_cons] at h
    split at h
    · cases h
    · rename_i hpre
      cases j with
      | zero => exact fun hj => hpre (List.isPrefixOf_iff_prefix.mpr hj)
      | succ j =>
        have := ih (Option.map_eq_none_iff.mp h) j (by simpa using hlt)
        simpa using this

/-! ## Where the encoder puts its blank line -/

/-- A line that an encoder may write: not empty, with no line feed and no
carriage return at its end. -/
def CleanLine (l : Bytes) : Prop := l ≠ [] ∧ (10 : UInt8) ∉ l ∧ l.getLast? ≠ some 13

/-- A clean line and its line feed hide no double carriage return. -/
theorem find_crlf_line (l rest : Bytes) (hlf : (10 : UInt8) ∉ l) (hcr : l.getLast? ≠ some 13) :
    find_subslice (l ++ 10 :: rest) CRLFCRLF =
      (find_subslice rest CRLFCRLF).map (· + (l.length + 1)) := by
  induction l with
  | nil =>
    rw [List.nil_append, find_subslice_cons, if_neg (by simp [CRLFCRLF])]
    simp
  | cons b l ih =>
    simp only [List.mem_cons, not_or] at hlf
    have hpre : ¬ CRLFCRLF.isPrefixOf (b :: (l ++ 10 :: rest)) = true := by
      cases l with
      | nil =>
        have hb : b ≠ 13 := by
          rintro rfl
          simp at hcr
        simp [CRLFCRLF, Ne.symm hb]
      | cons c l =>
        have hc : (10 : UInt8) ≠ c := by
          intro h
          exact hlf.2 (by simp [h])
        simp [CRLFCRLF, hc]
    have hcr' : l.getLast? ≠ some 13 := by
      cases l with
      | nil => simp
      | cons c l => simpa using hcr
    rw [List.cons_append, find_subslice_cons, if_neg hpre, ih hlf.2 hcr', Option.map_map]
    congr 1

/-- The search for a double line feed runs over a line to its end. -/
theorem find_lf_line (l rest : Bytes) (hlf : (10 : UInt8) ∉ l) :
    find_subslice (l ++ rest) LFLF = (find_subslice rest LFLF).map (· + l.length) := by
  induction l with
  | nil => simp
  | cons b l ih =>
    simp only [List.mem_cons, not_or] at hlf
    rw [List.cons_append, find_subslice_cons, if_neg (by simp [LFLF, hlf.1]), ih hlf.2,
      Option.map_map]
    congr 1

/-- The blank line behind the encoded lines is the first double line feed. -/
theorem find_lf_lines (ls : List Bytes) (hne : ls ≠ []) (hls : ∀ l ∈ ls, CleanLine l)
    (body : Bytes) :
    find_subslice ([10].intercalate ls ++ 10 :: 10 :: body) LFLF =
      some ([10].intercalate ls).length := by
  induction ls with
  | nil => exact absurd rfl hne
  | cons l ls ih =>
    have hl := hls l (by simp)
    cases ls with
    | nil =>
      rw [List.intercalate_singleton, find_lf_line _ _ hl.2.1, find_subslice_cons,
        if_pos (by simp [LFLF])]
      simp
    | cons m ls =>
      have hm := hls m (by simp)
      have htail := ih (by simp) (fun k hk => hls k (by simp [hk]))
      have hhead : ∃ c rest, [10].intercalate (m :: ls) = c :: rest ∧ c ≠ 10 := by
        cases m with
        | nil => exact absurd rfl hm.1
        | cons c m =>
          have hc : c ≠ 10 := by
            rintro rfl
            exact hm.2.1 (by simp)
          cases ls with
          | nil => exact ⟨c, m, by simp, hc⟩
          | cons k ls => exact ⟨c, m ++ [10] ++ [10].intercalate (k :: ls), by simp, hc⟩
      obtain ⟨c, rest, hcons, hc⟩ := hhead
      rw [List.intercalate_cons_cons, List.append_assoc, List.append_assoc,
        find_lf_line _ _ hl.2.1, List.singleton_append, find_subslice_cons, if_neg, htail]
      · simp only [Option.map_some, List.length_append, List.length_cons, List.length_nil]
        congr 1
        omega
      · rw [hcons]
        simp [LFLF, Ne.symm hc]

/-- The encoded lines hide no double carriage return: the first one is that of
the body. -/
theorem find_crlf_lines (ls : List Bytes) (hls : ∀ l ∈ ls, CleanLine l) (body : Bytes) :
    find_subslice ([10].intercalate ls ++ 10 :: 10 :: body) CRLFCRLF =
      (find_subslice body CRLFCRLF).map (· + ([10].intercalate ls).length + 2) := by
  have hblank : find_subslice (10 :: 10 :: body) CRLFCRLF =
      (find_subslice body CRLFCRLF).map (· + 2) := by
    rw [find_subslice_cons, if_neg (by simp [CRLFCRLF]), find_subslice_cons,
      if_neg (by simp [CRLFCRLF]), Option.map_map]
    rfl
  induction ls with
  | nil => simpa using hblank
  | cons l ls ih =>
    have hl := hls l (by simp)
    cases ls with
    | nil =>
      have hlast : find_subslice (10 :: body) CRLFCRLF =
          (find_subslice body CRLFCRLF).map (· + 1) := by
        rw [find_subslice_cons, if_neg (by simp [CRLFCRLF])]
      rw [List.intercalate_singleton, find_crlf_line _ _ hl.2.1 hl.2.2, hlast, Option.map_map]
      congr 1
      funext i
      simp only [Function.comp_apply]
      omega
    | cons m ls =>
      have htail := ih (fun k hk => hls k (by simp [hk]))
      rw [List.intercalate_cons_cons, List.append_assoc, List.append_assoc,
        List.singleton_append, find_crlf_line _ _ hl.2.1 hl.2.2, htail, Option.map_map]
      congr 1
      funext i
      simp only [Function.comp_apply, List.length_append, List.length_cons, List.length_nil]
      omega

/-! ## Reading the head back -/

/-- What `cgi_bytes` asks of a response: names and values are not empty, trimmed
and on one line, a name has no colon and is not `Status`, and one header is the
content type. -/
structure WellFormed (r : ServeResponse) : Prop where
  name_ne : ∀ h ∈ r.headers, h.1 ≠ ""
  name_trimmed : ∀ h ∈ r.headers, trim h.1.toList = h.1.toList
  name_line : ∀ h ∈ r.headers, '\n' ∉ h.1.toList
  name_colon : ∀ h ∈ r.headers, ':' ∉ h.1.toList
  name_status : ∀ h ∈ r.headers, h.1 ≠ "Status"
  value_ne : ∀ h ∈ r.headers, h.2 ≠ ""
  value_trimmed : ∀ h ∈ r.headers, trim h.2.toList = h.2.toList
  value_line : ∀ h ∈ r.headers, '\n' ∉ h.2.toList
  content_type : ∃ h ∈ r.headers, eq_ignore_ascii_case h.1.toList "content-type".toList = true

/-- One line of the head. -/
def line (name value : List Char) : List Char := name ++ ':' :: ' ' :: value

def status_name : List Char := ['S', 't', 'a', 't', 'u', 's']

def digits (r : ServeResponse) : List Char := (toString r.status.toNat).toList

def header_line (h : String × String) : List Char := line h.1.toList h.2.toList

/-- The lines of the head, as the encoder writes them. -/
def head_lines (r : ServeResponse) : List Bytes :=
  (line status_name (digits r) :: r.headers.map header_line).map encode

/-- What a line needs to come back as its name and its value. -/
structure LinePart (name value : List Char) : Prop where
  name_trimmed : trim name = name
  name_line : '\n' ∉ name
  name_colon : ':' ∉ name
  value_ne : value ≠ []
  value_trimmed : trim value = value
  value_line : '\n' ∉ value

theorem digits_not_whitespace (r : ServeResponse) :
    ∀ c ∈ digits r, is_whitespace c = false := by
  intro c hc
  exact not_whitespace_of_isDigit ((digits_of_nat _).2 c hc)

theorem status_part (r : ServeResponse) : LinePart status_name (digits r) where
  name_trimmed := by decide
  name_line := by decide
  name_colon := by decide
  value_ne := (digits_of_nat _).1
  value_trimmed := trim_of_no_whitespace (digits_not_whitespace r)
  value_line := fun h => absurd (digits_not_whitespace r _ h) (by decide)

theorem header_part {r : ServeResponse} (hr : WellFormed r) {h : String × String}
    (hh : h ∈ r.headers) : LinePart h.1.toList h.2.toList where
  name_trimmed := hr.name_trimmed h hh
  name_line := hr.name_line h hh
  name_colon := hr.name_colon h hh
  value_ne := by simpa using hr.value_ne h hh
  value_trimmed := hr.value_trimmed h hh
  value_line := hr.value_line h hh

theorem LinePart.trimmed {name value : List Char} (h : LinePart name value) :
    trim_end (line name value) = line name value := by
  have hsplit : line name value = (name ++ [':', ' ']) ++ value := by
    simp [line]
  rw [hsplit]
  exact trim_end_append h.value_ne (trim_eq_self h.value_trimmed).2

theorem LinePart.clean {name value : List Char} (h : LinePart name value) :
    CleanLine (encode (line name value)) := by
  refine ⟨by simp [line], ?_, ?_⟩
  · intro hmem
    have hlf := lf_mem_encode hmem
    simp only [line, List.mem_append, List.mem_cons] at hlf
    rcases hlf with hlf | hlf | hlf | hlf
    · exact h.name_line hlf
    · exact absurd hlf (by decide)
    · exact absurd hlf (by decide)
    · exact h.value_line hlf
  · intro hcr
    exact trimmed_no_cr h.trimmed (getLast?_encode_cr hcr)

/-- The decoder splits a line into its name and its value. -/
theorem LinePart.parse {name value : List Char} (h : LinePart name value) (acc : Head) :
    parse_line acc (encode (line name value)) =
      if eq_ignore_ascii_case name "status".toList then
        { acc with status := ((first_word value).bind parse_u16).getD 200 }
      else
        { acc with headers := acc.headers ++ [(String.ofList name, String.ofList value)],
                   saw_ct := acc.saw_ct || eq_ignore_ascii_case name "content-type".toList } := by
  have hsplit : split_once ':' (line name value) = some (name, ' ' :: value) :=
    split_once_append ':' _ _ h.name_colon
  have hvalue : trim (' ' :: value) = value := trim_space_cons _ h.value_trimmed h.value_ne
  have hne : line name value ≠ [] := by simp [line]
  simp only [parse_line, from_utf8_encode, Option.getD_some, h.trimmed, hne, if_false, hsplit,
    h.name_trimmed, hvalue]

theorem intercalate_lines (l : Bytes) (ls : List Bytes) :
    l ++ [10] ++ ls.flatMap (fun m => m ++ [10]) = [10].intercalate (l :: ls) ++ [10] := by
  induction ls generalizing l with
  | nil => simp
  | cons m ls ih =>
    rw [List.intercalate_cons_cons, List.flatMap_cons, List.append_assoc _ _ [10], ← ih m]

/-- A written line is the encoded line and a line feed. -/
theorem utf8_line (name value : List Char) (s : String)
    (h : s.toList = line name value ++ ['\n']) : utf8 s = encode (line name value) ++ [10] := by
  rw [utf8_eq_encode, h, encode_append]
  rfl

/-- The encoder writes the lines, a double line feed and the body. -/
theorem cgi_bytes_eq (r : ServeResponse) :
    cgi_bytes r = [10].intercalate (head_lines r) ++ 10 :: 10 :: r.body := by
  have hheaders : r.headers.flatMap (fun h => utf8 (h.1 ++ ": " ++ h.2 ++ "\n")) =
      ((r.headers.map header_line).map encode).flatMap (fun m => m ++ [10]) := by
    rw [List.flatMap_map, List.flatMap_map]
    congr 1
    funext h
    exact utf8_line _ _ _ (by simp [line])
  have hstatus : utf8 ("Status: " ++ toString r.status.toNat ++ "\n") =
      encode (line status_name (digits r)) ++ [10] :=
    utf8_line _ _ _ (by simp [line, status_name, digits])
  have hlines := intercalate_lines (encode (line status_name (digits r)))
    ((r.headers.map header_line).map encode)
  unfold cgi_bytes head_lines
  rw [hheaders, hstatus, hlines, List.map_cons, List.append_assoc, List.append_assoc]
  rfl

theorem head_lines_clean {r : ServeResponse} (hr : WellFormed r) :
    ∀ l ∈ head_lines r, CleanLine l := by
  intro l hl
  simp only [head_lines, List.map_cons, List.mem_cons, List.map_map, List.mem_map] at hl
  rcases hl with rfl | ⟨h, hh, rfl⟩
  · exact (status_part r).clean
  · exact (header_part hr hh).clean

/-- The name of a header reads as `status`, so the decoder takes its value for
the status code. -/
def is_status (h : String × String) : Bool :=
  eq_ignore_ascii_case h.1.toList "status".toList

def is_content_type (h : String × String) : Bool :=
  eq_ignore_ascii_case h.1.toList "content-type".toList

theorem parse_status_line (r : ServeResponse) (acc : Head) :
    parse_line acc (encode (line status_name (digits r))) = { acc with status := r.status } := by
  have hname : eq_ignore_ascii_case status_name "status".toList = true := by decide
  have hword : first_word (digits r) = some (digits r) :=
    first_word_of_no_whitespace (digits_of_nat _).1 (digits_not_whitespace r)
  have hvalue : parse_u16 (digits r) = some r.status := parse_u16_toString r.status
  rw [(status_part r).parse, if_pos hname, hword, Option.bind_some, hvalue, Option.getD_some]

theorem parse_header_line {r : ServeResponse} (hr : WellFormed r) {h : String × String}
    (hh : h ∈ r.headers) (acc : Head) :
    parse_line acc (encode (header_line h)) =
      if is_status h then
        { acc with status := ((first_word h.2.toList).bind parse_u16).getD 200 }
      else
        { acc with headers := acc.headers ++ [h], saw_ct := acc.saw_ct || is_content_type h } := by
  have hparse := (header_part hr hh).parse acc
  rw [String.ofList_toList, String.ofList_toList] at hparse
  exact hparse

/-- The loop over the header lines keeps the headers that do not read as
`status`. -/
theorem parse_header_lines {r : ServeResponse} (hr : WellFormed r) (hs : List (String × String))
    (hsub : ∀ h ∈ hs, h ∈ r.headers) (acc : Head) :
    let out := ((hs.map header_line).map encode).foldl parse_line acc
    out.headers = acc.headers ++ hs.filter (fun h => !is_status h) ∧
    out.saw_ct = (acc.saw_ct || (hs.filter (fun h => !is_status h)).any is_content_type) ∧
    (hs.any is_status = false → out.status = acc.status) := by
  induction hs generalizing acc with
  | nil => simp
  | cons h hs ih =>
    have hsub' : ∀ k ∈ hs, k ∈ r.headers := fun k hk => hsub k (by simp [hk])
    simp only [List.map_cons, List.foldl_cons, parse_header_line hr (hsub h (by simp))]
    by_cases hst : is_status h = true
    · obtain ⟨h1, h2, _⟩ := ih hsub' { acc with
        status := ((first_word h.2.toList).bind parse_u16).getD 200 }
      rw [if_pos hst]
      refine ⟨by simpa [hst] using h1, by simpa [hst] using h2, ?_⟩
      simp [hst]
    · obtain ⟨h1, h2, h3⟩ := ih hsub' { acc with
        headers := acc.headers ++ [h], saw_ct := acc.saw_ct || is_content_type h }
      rw [if_neg hst]
      refine ⟨by simpa [hst] using h1, by simpa [hst, Bool.or_assoc] using h2, ?_⟩
      intro hany
      refine h3 ?_
      simpa [hst] using hany

/-- What the decoder makes of an encoded head, whatever the body. -/
theorem respond_head {r : ServeResponse} (hr : WellFormed r) (body : Bytes) :
    let out := respond ([10].intercalate (head_lines r)) body
    out.headers = r.headers.filter (fun h => !is_status h) ∧ out.body = body ∧
      (r.headers.any is_status = false → out.status = r.status) := by
  have hsplit : ([10].intercalate (head_lines r)).splitOn 10 = head_lines r :=
    List.splitOn_intercalate 10 (fun l hl => (head_lines_clean hr l hl).2.1)
      (by simp [head_lines])
  have hct : (r.headers.filter (fun h => !is_status h)).any is_content_type = true := by
    obtain ⟨h, hh, hname⟩ := hr.content_type
    refine List.any_eq_true.mpr ⟨h, ?_, hname⟩
    refine List.mem_filter.mpr ⟨hh, ?_⟩
    have hlower : h.1.toList.map Char.toLower = "content-type".toList.map Char.toLower := by
      simpa [eq_ignore_ascii_case] using hname
    simp only [is_status, eq_ignore_ascii_case, hlower]
    decide
  obtain ⟨h1, h2, h3⟩ := parse_header_lines hr r.headers (fun h hh => hh)
    { status := r.status, headers := [], saw_ct := false }
  simp only [respond, hsplit]
  unfold head_lines
  rw [List.map_cons, List.foldl_cons, parse_status_line]
  rw [hct] at h2
  refine ⟨?_, trivial, h3⟩
  rw [h2]
  simpa using h1

/-! ## The round trip -/

/-- The bytes hold a double carriage return and line feed somewhere. -/
def HasCrlf (b : Bytes) : Prop := CRLFCRLF <:+: b

theorem find_crlf_isSome {b : Bytes} : (∃ i, find_subslice b CRLFCRLF = some i) ↔ HasCrlf b := by
  constructor
  · rintro ⟨i, hi⟩
    exact (find_subslice_some hi).1.isInfix.trans (List.drop_suffix i b).isInfix
  · rintro ⟨pre, post, hb⟩
    cases hf : find_subslice b CRLFCRLF with
    | some i => exact ⟨i, rfl⟩
    | none =>
      exfalso
      refine find_subslice_none hf pre.length ?_ ⟨post, ?_⟩
      · rw [← hb]
        simp [CRLFCRLF]
      · rw [← hb, List.append_assoc]
        simp

/-- Without a double carriage return in the body, the decoder cuts at the blank
line of the encoder. -/
theorem parse_cgi_clean {r : ServeResponse} (hr : WellFormed r) (hbody : ¬ HasCrlf r.body) :
    parse_cgi (cgi_bytes r) = respond ([10].intercalate (head_lines r)) r.body := by
  have hnone : find_subslice r.body CRLFCRLF = none := by
    cases hf : find_subslice r.body CRLFCRLF with
    | none => rfl
    | some i => exact absurd (find_crlf_isSome.mp ⟨i, hf⟩) hbody
  have hcrlf := find_crlf_lines (head_lines r) (head_lines_clean hr) r.body
  have hlf := find_lf_lines (head_lines r) (by simp [head_lines]) (head_lines_clean hr) r.body
  rw [hnone, Option.map_none] at hcrlf
  have hdrop : ([10].intercalate (head_lines r) ++ 10 :: 10 :: r.body).drop
      (([10].intercalate (head_lines r)).length + 2) = r.body := by
    rw [← List.drop_drop, List.drop_left]
    rfl
  unfold parse_cgi
  rw [cgi_bytes_eq, hcrlf, hlf]
  simp only [List.take_left, hdrop]

/-- With a double carriage return in the body, the decoder cuts there. -/
theorem parse_cgi_cuts_body {r : ServeResponse} (hr : WellFormed r) (hbody : HasCrlf r.body) :
    (parse_cgi (cgi_bytes r)).body.length < r.body.length := by
  obtain ⟨i, hi⟩ := find_crlf_isSome.mpr hbody
  have hlt := (find_subslice_some hi).2
  have hcrlf := find_crlf_lines (head_lines r) (head_lines_clean hr) r.body
  rw [hi, Option.map_some] at hcrlf
  unfold parse_cgi
  rw [cgi_bytes_eq, hcrlf]
  simp only [respond, List.length_drop, List.length_append, List.length_cons]
  omega

/-- The split of the output at its first blank line, be it a double line feed
or a double carriage return and line feed. -/
def first_blank_line : Bytes → Option (Bytes × Bytes)
  | [] => none
  | b :: rest =>
    if CRLFCRLF.isPrefixOf (b :: rest) then some ([], (b :: rest).drop 4)
    else if LFLF.isPrefixOf (b :: rest) then some ([], (b :: rest).drop 2)
    else (first_blank_line rest).map (fun p => (b :: p.1, p.2))

/-- The decoder as its comment has it: the headers end at the first blank
line. -/
def parse_at_first_blank_line (stdout : Bytes) : ServeResponse :=
  match first_blank_line stdout with
  | some (head, body) => respond head body
  | none => { status := 200, headers := [text_plain], body := stdout }

/-- The split loses nothing but the blank line. -/
theorem first_blank_line_some {s head body : Bytes} (h : first_blank_line s = some (head, body)) :
    s = head ++ CRLFCRLF ++ body ∨ s = head ++ LFLF ++ body := by
  induction s generalizing head with
  | nil => simp [first_blank_line] at h
  | cons b rest ih =>
    simp only [first_blank_line] at h
    split_ifs at h with hcr hlf
    · left
      obtain ⟨t, ht⟩ := List.isPrefixOf_iff_prefix.mp hcr
      rw [← ht] at h ⊢
      simp only [CRLFCRLF, Option.some.injEq, Prod.mk.injEq] at h ⊢
      obtain ⟨rfl, rfl⟩ := h
      rfl
    · right
      obtain ⟨t, ht⟩ := List.isPrefixOf_iff_prefix.mp hlf
      rw [← ht] at h ⊢
      simp only [LFLF, Option.some.injEq, Prod.mk.injEq] at h ⊢
      obtain ⟨rfl, rfl⟩ := h
      rfl
    · obtain ⟨⟨head', body'⟩, hp, heq⟩ := Option.map_eq_some_iff.mp h
      simp only [Prod.mk.injEq] at heq
      obtain ⟨rfl, rfl⟩ := heq
      rcases ih hp with hs | hs
      · left
        rw [hs]
        rfl
      · right
        rw [hs]
        rfl

/-- A double line feed stands before the first double carriage return. -/
def LfBlankFirst (stdout : Bytes) : Prop :=
  ∃ i j, find_subslice stdout LFLF = some i ∧ find_subslice stdout CRLFCRLF = some j ∧ i < j

/-- The first blank line, from the two searches of the decoder. -/
theorem first_blank_line_eq (s : Bytes) :
    first_blank_line s =
      match find_subslice s CRLFCRLF, find_subslice s LFLF with
      | none, none => none
      | some i, none => some (s.take i, s.drop (i + 4))
      | none, some j => some (s.take j, s.drop (j + 2))
      | some i, some j =>
        if j < i then some (s.take j, s.drop (j + 2)) else some (s.take i, s.drop (i + 4)) := by
  induction s with
  | nil => rfl
  | cons b rest ih =>
    simp only [first_blank_line, find_subslice_cons]
    by_cases hcr : CRLFCRLF.isPrefixOf (b :: rest) = true
    · rw [if_pos hcr, if_pos hcr]
      rcases (if LFLF.isPrefixOf (b :: rest) = true then some 0
        else (find_subslice rest LFLF).map (· + 1)) with _ | j <;> simp
    · rw [if_neg hcr, if_neg hcr]
      by_cases hlf : LFLF.isPrefixOf (b :: rest) = true
      · rw [if_pos hlf, if_pos hlf]
        rcases find_subslice rest CRLFCRLF with _ | i <;> simp
      · rw [if_neg hlf, if_neg hlf, ih]
        rcases find_subslice rest CRLFCRLF with _ | i <;>
          rcases find_subslice rest LFLF with _ | j <;> simp
        split_ifs <;> simp

/-- The decoder keeps to the first blank line unless a double line feed comes
before the first double carriage return: that it finds second. -/
theorem parse_cgi_first_blank_line (stdout : Bytes) :
    parse_cgi stdout = parse_at_first_blank_line stdout ↔ ¬ LfBlankFirst stdout := by
  unfold parse_cgi parse_at_first_blank_line LfBlankFirst
  rw [first_blank_line_eq]
  rcases hcr : find_subslice stdout CRLFCRLF with _ | i
  · rcases find_subslice stdout LFLF with _ | j <;> simp
  · rcases hlf : find_subslice stdout LFLF with _ | j
    · simp
    · by_cases hlt : j < i
      · simp only [hlt, if_true]
        constructor
        · intro heq
          exfalso
          have hlen := congrArg (fun r => r.body.length) heq
          simp only [respond, List.length_drop] at hlen
          have hi := (find_subslice_some hcr).1.length_le
          simp only [CRLFCRLF, List.length_cons, List.length_nil, List.length_drop] at hi
          omega
        · intro hno
          exact absurd ⟨j, i, rfl, rfl, hlt⟩ hno
      · simp [hlt]

/-- The round trip holds exactly when the body has no blank line with carriage
returns and no header reads as a status. An output is cut at its first blank
line exactly when no double line feed comes before the first double carriage
return. -/
theorem the_envelope_round_trips_without_a_crlf_blank_line {r : ServeResponse}
    (hr : WellFormed r) (stdout : Bytes) :
    (parse_cgi (cgi_bytes r) = r ↔ ¬ HasCrlf r.body ∧ ∀ h ∈ r.headers, is_status h = false) ∧
      (parse_cgi stdout = parse_at_first_blank_line stdout ↔ ¬ LfBlankFirst stdout) := by
  refine ⟨?_, parse_cgi_first_blank_line stdout⟩
  constructor
  · intro heq
    have hbody : ¬ HasCrlf r.body := by
      intro hb
      have hlt := parse_cgi_cuts_body hr hb
      rw [heq] at hlt
      exact absurd hlt (lt_irrefl _)
    refine ⟨hbody, ?_⟩
    obtain ⟨hheaders, _, _⟩ := respond_head hr r.body
    rw [← parse_cgi_clean hr hbody, heq] at hheaders
    intro h hh
    have := List.filter_eq_self.mp hheaders.symm h hh
    simpa using this
  · rintro ⟨hbody, hnames⟩
    obtain ⟨hheaders, hb, hstatus⟩ := respond_head hr r.body
    have hkeep : r.headers.filter (fun h => !is_status h) = r.headers := by
      refine List.filter_eq_self.mpr ?_
      intro h hh
      simp [hnames h hh]
    have hany : r.headers.any is_status = false := by
      rw [List.any_eq_false]
      intro h hh
      simp [hnames h hh]
    rw [hkeep] at hheaders
    rw [parse_cgi_clean hr hbody]
    calc respond ([10].intercalate (head_lines r)) r.body
        = ⟨(respond ([10].intercalate (head_lines r)) r.body).status,
            (respond ([10].intercalate (head_lines r)) r.body).headers,
            (respond ([10].intercalate (head_lines r)) r.body).body⟩ := rfl
      _ = ⟨r.status, r.headers, r.body⟩ := by rw [hheaders, hb, hstatus hany]
      _ = r := rfl

/-- A page whose body holds a blank line with carriage returns. -/
def pageWithCrlf : ServeResponse :=
  { status := 200, headers := [("Content-Type", "text/html")], body := [104, 13, 10, 13, 10, 105] }

theorem pageWithCrlf_wellFormed : WellFormed pageWithCrlf where
  name_ne := by decide
  name_trimmed := by decide
  name_line := by decide
  name_colon := by decide
  name_status := by decide
  value_ne := by decide
  value_trimmed := by decide
  value_line := by decide
  content_type := by decide

theorem a_crlf_blank_line_in_the_body_becomes_the_separator :
    ¬ ((∀ r, WellFormed r → parse_cgi (cgi_bytes r) = r) ∧
      ∀ stdout, parse_cgi stdout = parse_at_first_blank_line stdout) := by
  rintro ⟨hall, _⟩
  have hcrlf : HasCrlf pageWithCrlf.body := ⟨[104], [105], rfl⟩
  have hlt := parse_cgi_cuts_body pageWithCrlf_wellFormed hcrlf
  rw [hall pageWithCrlf pageWithCrlf_wellFormed] at hlt
  exact absurd hlt (lt_irrefl _)

/-- A page that comes back whole. -/
def plainPage : ServeResponse :=
  { status := 404, headers := [("Content-Type", "text/html")], body := [104, 10, 10, 105] }

theorem plain_page_round_trips : parse_cgi (cgi_bytes plainPage) = plainPage := by
  have hwell : WellFormed plainPage := ⟨by decide, by decide, by decide, by decide, by decide,
    by decide, by decide, by decide, by decide⟩
  have hround := the_envelope_round_trips_without_a_crlf_blank_line hwell (cgi_bytes plainPage)
  refine hround.1.mpr ⟨?_, ?_⟩
  · rintro ⟨pre, post, h⟩
    have := List.mem_append_right pre (by simp [CRLFCRLF] : (13 : UInt8) ∈ CRLFCRLF)
    have hmem : (13 : UInt8) ∈ plainPage.body := by
      rw [← h]
      exact List.mem_append_left post this
    exact absurd hmem (by decide)
  · decide

end pai_apps.serve
