-- The decoder of streamed answers (pai-agent lib.rs): what it makes of the chunks of
-- a text, and that the chunk boundaries matter for two of its decisions only.
import PersonalAi.Lib.Search
import PersonalAi.ModelLoop

open text

namespace pai_agent

/-! ## The decoder

Positions count characters. -/

inductive StreamParse
  | Scanning
  | InContent
  | Escaped
  | Unicode (rem : Nat) (acc : Nat)
  | Done
  | Suppressed
  | Raw
deriving DecidableEq, Repr

structure FinalStream where
  buf : List Char
  pos : Nat
  state : StreamParse
deriving DecidableEq, Repr

def FinalStream.new : FinalStream := { buf := [], pos := 0, state := .Scanning }

/-- `str::find`: where the first occurrence begins. -/
def find (pat s : List Char) : Option Nat := (split_once_str pat s).map (fun p => p.1.length)

/-- The position behind the quote that opens the string under a key. -/
def find_key_open_quote (s : List Char) (key : String) : Option Nat :=
  let pat := '"' :: key.toList ++ ['"']
  (find pat s).bind (fun kstart =>
    let after := s.drop (kstart + pat.length)
    (find [':'] after).bind (fun colon =>
      (find ['"'] (after.drop (colon + 1))).map (fun q =>
        kstart + pat.length + colon + 1 + q + 1)))

/-- The string under a key, and the position behind its closing quote. -/
def find_json_string_value (s : List Char) (key : String) : Option (List Char × Nat) :=
  (find_key_open_quote s key).bind (fun opening =>
    let rest := s.drop opening
    (find ['"'] rest).map (fun close => (rest.take close, opening + close + 1)))

/-- The number of bytes. -/
def byte_len (cs : List Char) : Nat := (encode cs).length

/-- `scan` from the first brace on. -/
def FinalStream.scan_object (f : FinalStream) : FinalStream × Bool :=
  let rest := f.buf.drop f.pos
  match find_json_string_value rest "type" with
  | some (value, stop) =>
    if value = "final".toList then
      match find_key_open_quote (rest.drop stop) "content" with
      | some opening => ({ f with pos := f.pos + (stop + opening), state := .InContent }, true)
      | none =>
        if 4096 < byte_len f.buf then ({ f with state := .Suppressed }, true) else (f, false)
    else ({ f with state := .Suppressed }, true)
  | none => if 4096 < byte_len f.buf then ({ f with state := .Suppressed }, true) else (f, false)

/-- False when more input is needed. -/
def FinalStream.scan (f : FinalStream) : FinalStream × Bool :=
  if f.pos = 0 then
    match find ['\x7b'] f.buf with
    | some i => { f with pos := i }.scan_object
    | none => if 64 ≤ byte_len f.buf then ({ f with state := .Raw }, true) else (f, false)
  else f.scan_object

/-- `char::to_digit` at base 16. -/
def to_digit_16 (c : Char) : Option Nat :=
  if '0' ≤ c ∧ c ≤ '9' then some (c.toNat - 48)
  else if 'a' ≤ c ∧ c ≤ 'f' then some (c.toNat - 87)
  else if 'A' ≤ c ∧ c ≤ 'F' then some (c.toNat - 55)
  else none

/-- `char::from_u32`. -/
def from_u32 (n : Nat) : Option Char := if n.isValidChar then some (Char.ofNat n) else none

/-- What a character stands for behind a backslash. -/
def unescape_char (c : Char) : Char :=
  if c = 'b' then Char.ofNat 8
  else if c = 'f' then Char.ofNat 12
  else if c = 'n' then '\n'
  else if c = 'r' then '\r'
  else if c = 't' then '\t'
  else c

/-- What a stretch of text gives: the state behind it, what is left unread, and the
decoded text. -/
structure Decoded where
  state : StreamParse
  unread : List Char
  out : List Char
deriving DecidableEq, Repr

def Decoded.emit (c : List Char) (d : Decoded) : Decoded := { d with out := c ++ d.out }

/-- The turns of the loop in `push` that read one character each. -/
def decode : StreamParse → List Char → Decoded
  | .InContent, c :: rest =>
    if c = '"' then { state := .Done, unread := rest, out := [] }
    else if c = '\\' then decode .Escaped rest
    else (decode .InContent rest).emit [c]
  | .Escaped, c :: rest =>
    if c = 'u' then decode (.Unicode 4 0) rest
    else (decode .InContent rest).emit [unescape_char c]
  | .Unicode rem acc, c :: rest =>
    match to_digit_16 c with
    | some d =>
      let acc := acc * 16 + d
      if rem = 1 then (decode .InContent rest).emit (from_u32 acc).toList
      else decode (.Unicode (rem - 1) acc) rest
    | none => decode .InContent rest
  | state, rest => { state := state, unread := rest, out := [] }

/-- The turns of the loop behind those of `scan`. -/
def FinalStream.drain (f : FinalStream) : FinalStream × Option (List Char) :=
  match f.state with
  | .Raw => ({ f with pos := f.buf.length }, some (f.buf.drop f.pos))
  | _ =>
    let d := decode f.state (f.buf.drop f.pos)
    ({ f with pos := f.buf.length - d.unread.length, state := d.state },
      if d.out = [] then none else some d.out)

/-- Feed a chunk; the decoded text to emit, if there is any. -/
def FinalStream.push (f : FinalStream) (chunk : List Char) : FinalStream × Option (List Char) :=
  let f := { f with buf := f.buf ++ chunk }
  if f.state = .Scanning then
    match f.scan with
    | (f, false) => (f, none)
    | (f, true) => f.drain
  else f.drain

/-- The deltas of some chunks, one after the other. -/
def FinalStream.feed : FinalStream → List (List Char) → List Char
  | _, [] => []
  | f, chunk :: rest => (f.push chunk).2.getD [] ++ (f.push chunk).1.feed rest

/-- What is emitted of a text that comes in these chunks. -/
def emitted (chunks : List (List Char)) : List Char := FinalStream.new.feed chunks

/-- The decoder behind some chunks. -/
def FinalStream.behind (chunks : List (List Char)) : FinalStream :=
  chunks.foldl (fun f chunk => (f.push chunk).1) FinalStream.new

/-! ## Searching -/

/-- An occurrence stays the first one when the text grows. -/
theorem find_append {pat s : List Char} {i : Nat} (h : find pat s = some i) (t : List Char) :
    find pat (s ++ t) = some i ∧ i + pat.length ≤ s.length := by
  unfold find at h ⊢
  obtain ⟨⟨a, b⟩, hsplit, rfl⟩ := Option.map_eq_some_iff.mp h
  obtain ⟨happend, hs⟩ := split_once_str_append hsplit t
  refine ⟨by rw [happend]; rfl, ?_⟩
  rw [hs]
  simp

theorem drop_append_le {s : List Char} {n : Nat} (h : n ≤ s.length) (t : List Char) :
    (s ++ t).drop n = s.drop n ++ t := List.drop_append_of_le_length h

theorem find_key_open_quote_append {s : List Char} {key : String} {opening : Nat}
    (h : find_key_open_quote s key = some opening) (t : List Char) :
    find_key_open_quote (s ++ t) key = some opening ∧ opening ≤ s.length := by
  unfold find_key_open_quote at h ⊢
  dsimp only at h ⊢
  obtain ⟨kstart, hkey, h⟩ := Option.bind_eq_some_iff.mp h
  obtain ⟨colon, hcolon, h⟩ := Option.bind_eq_some_iff.mp h
  obtain ⟨q, hquote, rfl⟩ := Option.map_eq_some_iff.mp h
  obtain ⟨hkey', hkeyle⟩ := find_append hkey t
  obtain ⟨hcolon', hcolonle⟩ := find_append hcolon t
  rw [List.length_drop] at hcolonle
  simp only [List.length_singleton] at hcolonle
  have hcolonle' : colon + 1 ≤ (s.drop (kstart + ('"' :: key.toList ++ ['"']).length)).length := by
    rw [List.length_drop]
    exact hcolonle
  obtain ⟨hquote', hquotele⟩ := find_append hquote t
  simp only [List.length_drop, List.length_singleton] at hquotele
  refine ⟨?_, by omega⟩
  rw [hkey', Option.bind_some, drop_append_le hkeyle, hcolon', Option.bind_some,
    drop_append_le hcolonle', hquote']
  rfl

theorem find_json_string_value_append {s value : List Char} {key : String} {stop : Nat}
    (h : find_json_string_value s key = some (value, stop)) (t : List Char) :
    find_json_string_value (s ++ t) key = some (value, stop) ∧ stop ≤ s.length := by
  unfold find_json_string_value at h ⊢
  obtain ⟨opening, hopen, h⟩ := Option.bind_eq_some_iff.mp h
  obtain ⟨close, hclose, hvalue⟩ := Option.map_eq_some_iff.mp h
  cases hvalue
  obtain ⟨hopen', hopenle⟩ := find_key_open_quote_append hopen t
  obtain ⟨hclose', hclosele⟩ := find_append hclose t
  have hlength : close + 1 ≤ s.length - opening := by
    simpa using hclosele
  refine ⟨?_, by omega⟩
  rw [hopen', Option.bind_some]
  dsimp only
  rw [drop_append_le hopenle, hclose', Option.map_some,
    List.take_append_of_le_length (by rw [List.length_drop]; omega)]

/-! ## Decoding in stretches -/

theorem decode_backslash (rest : List Char) :
    decode .InContent ('\\' :: rest) = decode .Escaped rest := rfl

theorem decode_plain {c : Char} (hquote : c ≠ '"') (hslash : c ≠ '\\') (rest : List Char) :
    decode .InContent (c :: rest) = (decode .InContent rest).emit [c] :=
  (if_neg hquote).trans (if_neg hslash)

theorem decode_u (rest : List Char) :
    decode .Escaped ('u' :: rest) = decode (.Unicode 4 0) rest := rfl

theorem decode_escape {c : Char} (hu : c ≠ 'u') (rest : List Char) :
    decode .Escaped (c :: rest) = (decode .InContent rest).emit [unescape_char c] := if_neg hu

theorem decode_unicode (rem acc : Nat) (c : Char) (rest : List Char) :
    decode (.Unicode rem acc) (c :: rest) =
      match to_digit_16 c with
      | some d =>
        if rem = 1 then (decode .InContent rest).emit (from_u32 (acc * 16 + d)).toList
        else decode (.Unicode (rem - 1) (acc * 16 + d)) rest
      | none => decode .InContent rest :=
  rfl

theorem decode_last_digit {c : Char} {d : Nat} (hd : to_digit_16 c = some d) (acc : Nat)
    (rest : List Char) : decode (.Unicode 1 acc) (c :: rest) =
      (decode .InContent rest).emit (from_u32 (acc * 16 + d)).toList := by
  rw [decode_unicode, hd]
  rfl

theorem decode_digit {c : Char} {d rem : Nat} (hd : to_digit_16 c = some d) (hrem : rem ≠ 1)
    (acc : Nat) (rest : List Char) : decode (.Unicode rem acc) (c :: rest) =
      decode (.Unicode (rem - 1) (acc * 16 + d)) rest := by
  rw [decode_unicode, hd]
  exact if_neg hrem

theorem decode_no_digit {c : Char} (hd : to_digit_16 c = none) (rem acc : Nat) (rest : List Char) :
    decode (.Unicode rem acc) (c :: rest) = decode .InContent rest := by
  rw [decode_unicode, hd]

theorem decode_done (rest : List Char) :
    decode .Done rest = { state := .Done, unread := rest, out := [] } := by
  cases rest <;> rfl

/-- What is left unread is an end of the text. -/
theorem decode_unread (state : StreamParse) (rest : List Char) :
    (decode state rest).unread <:+ rest := by
  fun_induction decode state rest with
  | case1 => exact List.suffix_cons _ _
  | case2 _ _ ih => exact ih.trans (List.suffix_cons _ _)
  | case3 _ _ _ _ ih => exact ih.trans (List.suffix_cons _ _)
  | case4 _ ih => exact ih.trans (List.suffix_cons _ _)
  | case5 _ _ _ ih => exact ih.trans (List.suffix_cons _ _)
  | case6 _ _ _ _ _ _ ih => exact ih.trans (List.suffix_cons _ _)
  | case7 _ _ _ _ _ _ _ _ ih => exact ih.trans (List.suffix_cons _ _)
  | case8 _ _ _ _ _ ih => exact ih.trans (List.suffix_cons _ _)
  | case9 => exact List.suffix_refl _

/-- A text may be decoded in two stretches. -/
theorem decode_append (state : StreamParse) (a b : List Char) :
    (decode state (a ++ b)).out = (decode state a).out ++
      (decode (decode state a).state ((decode state a).unread ++ b)).out := by
  fun_induction decode state a with
  | case1 rest => exact (congrArg Decoded.out (decode_done (rest ++ b))).symm
  | case2 rest _ ih => exact ih
  | case3 c rest hquote hslash ih =>
    rw [List.cons_append, decode_plain hquote hslash]
    exact congrArg ([c] ++ ·) ih
  | case4 rest ih => exact ih
  | case5 c rest hu ih =>
    rw [List.cons_append, decode_escape hu]
    exact congrArg ([unescape_char c] ++ ·) ih
  | case6 acc c rest d hd _ ih =>
    rw [List.cons_append, decode_last_digit hd]
    refine (congrArg ((from_u32 (acc * 16 + d)).toList ++ ·) ih).trans ?_
    exact (List.append_assoc _ _ _).symm
  | case7 rem acc c rest d hd _ hrem ih =>
    rw [List.cons_append, decode_digit hd hrem]
    exact ih
  | case8 rem acc c rest hd ih =>
    rw [List.cons_append, decode_no_digit hd]
    exact ih
  | case9 state rest => rfl

/-- Nothing more comes of what is left unread. -/
theorem decode_idle (state : StreamParse) (rest : List Char) :
    decode (decode state rest).state (decode state rest).unread =
      { state := (decode state rest).state, unread := (decode state rest).unread, out := [] } := by
  fun_induction decode state rest with
  | case1 => exact decode_done _
  | case2 _ _ ih => exact ih
  | case3 _ _ _ _ ih => exact ih
  | case4 _ ih => exact ih
  | case5 _ _ _ ih => exact ih
  | case6 _ _ _ _ _ _ ih => exact ih
  | case7 _ _ _ _ _ _ _ _ ih => exact ih
  | case8 _ _ _ _ _ ih => exact ih
  | case9 state rest h h' h'' => rw [decode] <;> assumption

/-! ## What the chunks decide -/

/-- What `scan` makes of the text so far. -/
inductive Verdict
  | waiting
  | raw
  | suppressed
  | content (q : Nat)
deriving DecidableEq, Repr

/-- The position behind the quote that opens the content, behind a type that is
`final`: none without it, or with another type. -/
def look_object (rest : List Char) : Option (Option Nat) :=
  (find_json_string_value rest "type").bind (fun p =>
    if p.1 = "final".toList then
      (find_key_open_quote (rest.drop p.2) "content").map (fun opening => some (p.2 + opening))
    else some none)

/-- More text does not change it. -/
theorem look_object_append {rest : List Char} {r : Option Nat} (h : look_object rest = some r)
    (t : List Char) : look_object (rest ++ t) = some r := by
  unfold look_object at h ⊢
  obtain ⟨⟨value, stop⟩, hvalue, h⟩ := Option.bind_eq_some_iff.mp h
  obtain ⟨hvalue', hstop⟩ := find_json_string_value_append hvalue t
  rw [hvalue', Option.bind_some]
  dsimp only at h ⊢
  split at h
  · rename_i hfinal
    obtain ⟨opening, hopen, hr⟩ := Option.map_eq_some_iff.mp h
    rw [if_pos hfinal, drop_append_le hstop, (find_key_open_quote_append hopen t).1]
    exact congrArg some hr
  · rename_i hother
    rw [if_neg hother]
    exact h

theorem look_object_le {rest : List Char} {q : Nat} (h : look_object rest = some (some q)) :
    q ≤ rest.length := by
  unfold look_object at h
  obtain ⟨⟨value, stop⟩, hvalue, h⟩ := Option.bind_eq_some_iff.mp h
  dsimp only at h
  split at h
  · obtain ⟨opening, hopen, hq⟩ := Option.map_eq_some_iff.mp h
    have hstop := (find_json_string_value_append hvalue []).2
    have hle := (find_key_open_quote_append hopen []).2
    rw [List.length_drop] at hle
    cases hq
    omega
  · cases h

def look (buf : List Char) : Verdict :=
  match find ['\x7b'] buf with
  | none => if 64 ≤ byte_len buf then .raw else .waiting
  | some i =>
    match look_object (buf.drop i) with
    | some (some q) => .content (i + q)
    | some none => .suppressed
    | none => if 4096 < byte_len buf then .suppressed else .waiting

/-- The content begins inside the text. -/
theorem look_le {buf : List Char} {q : Nat} (h : look buf = .content q) : q ≤ buf.length := by
  unfold look at h
  rcases hfind : find ['\x7b'] buf with _ | i
  · rw [hfind] at h
    dsimp only at h
    split at h <;> cases h
  · rw [hfind] at h
    dsimp only at h
    have hi := (find_append hfind []).2
    rcases hobject : look_object (buf.drop i) with _ | _ | p
    · rw [hobject] at h
      dsimp only at h
      split at h <;> cases h
    · rw [hobject] at h
      cases h
    · rw [hobject] at h
      cases h
      have hp := look_object_le hobject
      rw [List.length_drop] at hp
      rw [List.length_singleton] at hi
      omega

/-- The first verdict, over the text as the chunks make it grow. -/
def verdict : List Char → List (List Char) → Verdict
  | _, [] => .waiting
  | seen, chunk :: rest =>
    match look (seen ++ chunk) with
    | .waiting => verdict (seen ++ chunk) rest
    | v => v

/-- A decoder that scans: the position is the first brace, once there is one. -/
def Scans (f : FinalStream) : Prop :=
  f.state = .Scanning ∧ (f.pos = 0 ∨ find ['\x7b'] f.buf = some f.pos)

theorem scan_object_look {f : FinalStream} :
    f.scan_object =
      match look_object (f.buf.drop f.pos) with
      | some (some q) => ({ f with pos := f.pos + q, state := .InContent }, true)
      | some none => ({ f with state := .Suppressed }, true)
      | none => if 4096 < byte_len f.buf then ({ f with state := .Suppressed }, true) else (f, false) := by
  unfold FinalStream.scan_object look_object
  dsimp only
  rcases find_json_string_value (f.buf.drop f.pos) "type" with _ | ⟨value, stop⟩
  · rfl
  · dsimp only
    by_cases hfinal : value = "final".toList
    · rw [if_pos hfinal, Option.bind_some]
      dsimp only
      rw [if_pos hfinal]
      rcases find_key_open_quote ((f.buf.drop f.pos).drop stop) "content" with _ | opening
      · rfl
      · rfl
    · rw [if_neg hfinal, Option.bind_some]
      dsimp only
      rw [if_neg hfinal]

/-- What `scan` does is its verdict on the text so far. -/
theorem scan_look {f : FinalStream} (h : Scans f) :
    match look f.buf with
    | .waiting => (f.scan.2 = false ∧ Scans f.scan.1 ∧ f.scan.1.buf = f.buf)
    | .raw => f.pos = 0 ∧ f.scan = ({ f with state := .Raw }, true)
    | .suppressed => ∃ pos, f.scan = ({ f with pos := pos, state := .Suppressed }, true)
    | .content q => f.scan = ({ f with pos := q, state := .InContent }, true) := by
  have hscan : f.scan = match find ['\x7b'] f.buf with
      | some i => { f with pos := i }.scan_object
      | none => if 64 ≤ byte_len f.buf then ({ f with state := .Raw }, true) else (f, false) := by
    unfold FinalStream.scan
    by_cases hpos : f.pos = 0
    · rw [if_pos hpos]
    · rw [if_neg hpos, h.2.resolve_left hpos]
  unfold look
  rw [hscan]
  rcases hfind : find ['\x7b'] f.buf with _ | i
  · have hpos : f.pos = 0 := by
      refine h.2.resolve_right ?_
      rw [hfind]
      nofun
    by_cases hlong : 64 ≤ byte_len f.buf
    · simp only [if_pos hlong]
      exact ⟨hpos, trivial⟩
    · simp only [if_neg hlong]
      exact ⟨trivial, h, trivial⟩
  · dsimp only
    rw [scan_object_look]
    rcases look_object (f.buf.drop i) with _ | _ | q
    · by_cases hlong : 4096 < byte_len f.buf
      · simp only [if_pos hlong]
        exact ⟨i, rfl⟩
      · simp only [if_neg hlong]
        exact ⟨trivial, ⟨h.1, .inr hfind⟩, trivial⟩
    · exact ⟨i, rfl⟩
    · rfl

/-! ## What is emitted -/

/-- A decoder that has decoded what it could of the text so far. -/
structure Drained (f : FinalStream) : Prop where
  scanned : f.state ≠ .Scanning
  decodes : f.state ≠ .Raw
  pos : f.pos ≤ f.buf.length
  idle : (decode f.state (f.buf.drop f.pos)).out = []

theorem drain_decode {f : FinalStream} (h : f.state ≠ .Raw) :
    f.drain = ({ f with pos := f.buf.length - (decode f.state (f.buf.drop f.pos)).unread.length,
                        state := (decode f.state (f.buf.drop f.pos)).state },
      if (decode f.state (f.buf.drop f.pos)).out = [] then none
      else some (decode f.state (f.buf.drop f.pos)).out) := by
  unfold FinalStream.drain
  split
  · rename_i hraw
    exact (h hraw).elim
  · rfl

theorem getD_out (out : List Char) : (if out = [] then none else some out).getD [] = out := by
  split
  · rename_i h
    rw [h]
    rfl
  · rfl

/-- The states that decoding leads to. -/
theorem decode_state {state : StreamParse} (hscan : state ≠ .Scanning) (hraw : state ≠ .Raw)
    (rest : List Char) :
    (decode state rest).state ≠ .Scanning ∧ (decode state rest).state ≠ .Raw := by
  fun_induction decode state rest with
  | case1 => exact ⟨nofun, nofun⟩
  | case2 _ _ ih => exact ih nofun nofun
  | case3 _ _ _ _ ih => exact ih nofun nofun
  | case4 _ ih => exact ih nofun nofun
  | case5 _ _ _ ih => exact ih nofun nofun
  | case6 _ _ _ _ _ _ ih => exact ih nofun nofun
  | case7 _ _ _ _ _ _ _ _ ih => exact ih nofun nofun
  | case8 _ _ _ _ _ ih => exact ih nofun nofun
  | case9 => exact ⟨hscan, hraw⟩

/-- A drained decoder decodes the rest of the text as one stretch. -/
theorem drain_feed {f : FinalStream} (hscan : f.state ≠ .Scanning) (hraw : f.state ≠ .Raw)
    (chunks : List (List Char))
    (hrest : ∀ g, Drained g → g.feed chunks =
      (decode g.state (g.buf.drop g.pos ++ chunks.flatten)).out) :
    f.drain.2.getD [] ++ f.drain.1.feed chunks =
      (decode f.state (f.buf.drop f.pos ++ chunks.flatten)).out := by
  have hsuffix : (decode f.state (f.buf.drop f.pos)).unread <:+ f.buf :=
    (decode_unread f.state (f.buf.drop f.pos)).trans (List.drop_suffix f.pos f.buf)
  have hunread : f.buf.drop (f.buf.length - (decode f.state (f.buf.drop f.pos)).unread.length) =
      (decode f.state (f.buf.drop f.pos)).unread := (List.suffix_iff_eq_drop.mp hsuffix).symm
  rw [drain_decode hraw, decode_append]
  dsimp only
  rw [getD_out, hrest]
  · dsimp only
    rw [hunread]
  · obtain ⟨hscan', hraw'⟩ := decode_state hscan hraw (f.buf.drop f.pos)
    refine { scanned := hscan', decodes := hraw', pos := Nat.sub_le _ _, idle := ?_ }
    dsimp only
    rw [hunread, decode_idle]

theorem drained_feed {f : FinalStream} (h : Drained f) (chunks : List (List Char)) :
    f.feed chunks = (decode f.state (f.buf.drop f.pos ++ chunks.flatten)).out := by
  induction chunks generalizing f with
  | nil =>
    rw [List.flatten_nil, List.append_nil, h.idle]
    rfl
  | cons chunk rest ih =>
    unfold FinalStream.feed FinalStream.push
    dsimp only
    rw [if_neg h.scanned]
    refine (drain_feed (f := { f with buf := f.buf ++ chunk }) h.scanned h.decodes rest
      (fun g hg => ih hg)).trans ?_
    dsimp only
    rw [List.flatten_cons, ← List.append_assoc, drop_append_le h.pos]

theorem raw_feed {f : FinalStream} (hstate : f.state = .Raw) (hpos : f.pos = f.buf.length)
    (chunks : List (List Char)) : f.feed chunks = chunks.flatten := by
  induction chunks generalizing f with
  | nil => rfl
  | cons chunk rest ih =>
    have hnot : f.state ≠ .Scanning := by
      rw [hstate]
      nofun
    unfold FinalStream.feed FinalStream.push FinalStream.drain
    dsimp only
    rw [if_neg hnot, hstate]
    dsimp only
    rw [ih rfl rfl, hpos, List.drop_left, Option.getD_some, List.flatten_cons]

/-- Once suppressed, a decoder stays silent. -/
theorem decode_suppressed (rest : List Char) :
    decode .Suppressed rest = { state := .Suppressed, unread := rest, out := [] } := by
  cases rest <;> rfl

/-- What a scanning decoder emits of the rest of a text. -/
theorem scans_feed {f : FinalStream} (h : Scans f) (hseen : look f.buf = .waiting)
    (chunks : List (List Char)) :
    f.feed chunks =
      match verdict f.buf chunks with
      | .raw => f.buf ++ chunks.flatten
      | .content q => (decode .InContent ((f.buf ++ chunks.flatten).drop q)).out
      | _ => [] := by
  induction chunks generalizing f with
  | nil => rfl
  | cons chunk rest ih =>
    have hscans : Scans { f with buf := f.buf ++ chunk } := by
      refine ⟨h.1, h.2.imp id (fun hfind => ?_)⟩
      exact (find_append hfind chunk).1
    have hlook := scan_look hscans
    unfold FinalStream.feed FinalStream.push verdict
    dsimp only at hlook ⊢
    rw [if_pos h.1, List.flatten_cons, ← List.append_assoc]
    rcases hverdict : look (f.buf ++ chunk) with _ | _ | _ | q
    · rw [hverdict] at hlook
      obtain ⟨hfalse, hscans', hbuf⟩ := hlook
      rcases hscan : FinalStream.scan { f with buf := f.buf ++ chunk } with ⟨g, ready⟩
      rw [hscan] at hfalse hscans' hbuf
      dsimp only at hfalse hscans' hbuf ⊢
      subst hfalse
      have hrest := ih hscans' (by rw [hbuf]; exact hverdict)
      rw [hbuf] at hrest
      exact hrest
    · rw [hverdict] at hlook
      obtain ⟨hpos, hscan⟩ := hlook
      rw [hscan]
      unfold FinalStream.drain
      dsimp only
      rw [raw_feed rfl rfl, hpos]
      rfl
    · rw [hverdict] at hlook
      obtain ⟨pos, hscan⟩ := hlook
      rw [hscan]
      refine (drain_feed (f := { buf := f.buf ++ chunk, pos := pos, state := .Suppressed })
        StreamParse.noConfusion StreamParse.noConfusion rest
        (fun g hg => drained_feed hg rest)).trans ?_
      dsimp only
      rw [decode_suppressed]
    · rw [hverdict] at hlook
      rw [hlook]
      refine (drain_feed (f := { buf := f.buf ++ chunk, pos := q, state := .InContent })
        StreamParse.noConfusion StreamParse.noConfusion rest
        (fun g hg => drained_feed hg rest)).trans ?_
      dsimp only
      have hq : q ≤ (f.buf ++ chunk).length := look_le hverdict
      rw [drop_append_le hq]

/-- **The chunk boundaries decide no more than the verdict.** What is emitted of a text
is nothing, the text as it is, or the decoded end of the text behind one position. -/
theorem emitted_eq (chunks : List (List Char)) :
    emitted chunks =
      match verdict [] chunks with
      | .raw => chunks.flatten
      | .content q => (decode .InContent (chunks.flatten.drop q)).out
      | _ => [] :=
  scans_feed (f := FinalStream.new) ⟨rfl, .inl rfl⟩ rfl chunks

theorem feed_append (f : FinalStream) (a b : List (List Char)) :
    f.feed (a ++ b) = f.feed a ++ (a.foldl (fun f chunk => (f.push chunk).1) f).feed b := by
  induction a generalizing f with
  | nil => rfl
  | cons chunk rest ih =>
    rw [List.cons_append, FinalStream.feed, FinalStream.feed, ih, List.append_assoc]
    rfl

/-- Each chunk adds what `push` gives for it behind the chunks before it. -/
theorem emitted_snoc (seen : List (List Char)) (chunk : List Char) :
    emitted (seen ++ [chunk]) =
      emitted seen ++ ((FinalStream.behind seen).push chunk).2.getD [] := by
  unfold emitted FinalStream.behind
  rw [feed_append]
  simp [FinalStream.feed]

end pai_agent
