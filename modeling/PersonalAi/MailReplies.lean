-- The replies of an SMTP server (connectors/email smtp.rs): the lines of a connection, whose bytes
-- come in reads of any size, and the codes that are read off them.
import PersonalAi.Lib.Buffered
import PersonalAi.Lib.Slices
import PersonalAi.MailDrafts

open pai_core text buffered

namespace pai_connector_email.smtp

/-- What a `read` gives: bytes, which are none when the connection is closed, or what went wrong. -/
abbrev Read := Except String Bytes

/-- A connection, with the reads that are to come. -/
structure Dialog where
  buf : Bytes
  reads : List Read
deriving DecidableEq

def err (e : String) : Error := .Provider ("smtp: " ++ e)

/-- A line without the carriage return at its end. -/
def chomp (out : Bytes) : Bytes := if out.getLast? = some 13 then out.dropLast else out

/-- `String::from_utf8` on a line. -/
def line_text (out : Bytes) : Except Error (List Char) :=
  match from_utf8 (chomp out) with
  | some cs => .ok cs
  | none => .error (.Provider "smtp: non-UTF8 reply")

/-- `Dialog::line`. Behind the last read the connection is closed. -/
def line_from (buf : Bytes) : List Read → Except Error (List Char) × Dialog
  | [] =>
    match next 10 buf with
    | some (out, rest) => (line_text out, ⟨rest, []⟩)
    | none => (.error (.Provider "smtp: connection closed"), ⟨buf, []⟩)
  | r :: reads =>
    match next 10 buf with
    | some (out, rest) => (line_text out, ⟨rest, r :: reads⟩)
    | none =>
      match r with
      | .error e => (.error (err e), ⟨buf, reads⟩)
      | .ok [] => (.error (.Provider "smtp: connection closed"), ⟨buf, reads⟩)
      | .ok (b :: chunk) => line_from (buf ++ b :: chunk) reads

def Dialog.line (d : Dialog) : Except Error (List Char) × Dialog := line_from d.buf d.reads

section Reply
variable (debug : List Char → String)

def bad_reply (line : List Char) : Error := .Provider ("smtp: bad reply " ++ debug line)

/-- What one line says: a code that ends the reply, or that the reply goes on. It is `none` where
the slice panics. -/
def reply_line (line : List Char) : Option (Except Error (Option UInt16)) :=
  if (encode line).length < 4 then some (.error (bad_reply debug line))
  else
    (slice_to 3 line).map (fun head =>
      match parse_u16 head with
      | none => .error (bad_reply debug line)
      | some code => .ok (if (encode line)[3]? = some 32 then some code else none))

/-- The loop of `Dialog::reply`, in at most so many turns. It is `none` where it panics or the turns
run out. -/
def reply_within : Nat → Dialog → Option (Except Error UInt16 × Dialog)
  | 0, _ => none
  | turns + 1, d =>
    match d.line with
    | (.error e, d') => some (.error e, d')
    | (.ok line, d') =>
      match reply_line debug line with
      | none => none
      | some (.error e) => some (.error e, d')
      | some (.ok (some code)) => some (.ok code, d')
      | some (.ok none) => reply_within turns d'

/-- The bytes of the reads up to the first that brings none. -/
def arriving : List Read → Bytes
  | .ok (b :: chunk) :: reads => b :: chunk ++ arriving reads
  | _ => []

/-- All the bytes that the connection still gives. -/
def Dialog.pending (d : Dialog) : Bytes := d.buf ++ arriving d.reads

/-- The lines that still come with their end. -/
def Dialog.lines (d : Dialog) : List Bytes := (drain 10 d.pending).1

/-- `Dialog::reply`. Each turn takes a line. -/
def Dialog.reply (d : Dialog) : Option (Except Error UInt16 × Dialog) :=
  reply_within debug (d.lines.length + 1) d

/-- `Dialog::expect`. -/
def Dialog.expect (want : UInt16) (d : Dialog) : Option (Except Error Unit × Dialog) :=
  (d.reply debug).map (fun r =>
    (match r.1 with
      | .error e => .error e
      | .ok got =>
        if got ≠ want then
          .error (.Provider ("smtp: expected " ++ toString want ++ ", server replied " ++
            toString got))
        else .ok (),
      r.2))

end Reply

/-! ## What a reply is -/

/-- The fourth character of a line. -/
def fourth (out : Bytes) : Option Char := (from_utf8 (chomp out)).bind (·[3]?)

/-- The code in front of the fourth character. -/
def code_of (out : Bytes) : Option UInt16 :=
  (from_utf8 (chomp out)).bind (fun cs => parse_u16 (cs.take 3))

/-- From one state of the connection to another these bytes were taken, and no others. -/
def Takes (d : Dialog) (bytes : Bytes) (d' : Dialog) : Prop :=
  ∃ taken : List Bytes, d.reads = taken.map .ok ++ d'.reads ∧ d.buf ++ taken.flatten = bytes ++ d'.buf

/-- One reply was taken: lines that go on with a dash, and the line with the code. -/
def OneReply (d : Dialog) (code : UInt16) (d' : Dialog) : Prop :=
  ∃ more last, (∀ l ∈ more, 10 ∉ l ∧ fourth l = some '-') ∧ 10 ∉ last ∧ fourth last = some ' ' ∧
    code_of last = some code ∧ Takes d (buffered.wire 10 (more ++ [last])) d'

/-- A reply and nothing else, or an error; and no panic. -/
def ReadsOneReply (d : Dialog) : Option (Except Error UInt16 × Dialog) → Prop
  | none => False
  | some (.error _, _) => True
  | some (.ok code, d') => OneReply d code d'

/-- The line is long enough, and its third byte does not end a character. -/
def Splits (out : Bytes) : Prop :=
  ∃ cs, from_utf8 (chomp out) = some cs ∧ 4 ≤ (encode cs).length ∧
    ∀ n, (encode (cs.take n)).length ≠ 3

/-- A code and any character but a blank. -/
def GoesOn (out : Bytes) : Prop := code_of out ≠ none ∧ fourth out ≠ none ∧ fourth out ≠ some ' '

/-- A code and a blank. -/
def Ends (out : Bytes) : Prop := code_of out ≠ none ∧ fourth out = some ' '

/-- No line that is reached has its third byte inside a character, and where a line that ends the
reply is reached, those before it go on with a dash. -/
def Readable (ls : List Bytes) : Prop :=
  ∀ before l behind, ls = before ++ l :: behind → (∀ m ∈ before, GoesOn m) →
    ¬ Splits l ∧ (Ends l → ∀ m ∈ before, fourth m = some '-')

/-! ## Numbers in a slice -/

/-- A number is written in ASCII. -/
theorem ascii_of_parse_u16 {cs : List Char} {code : UInt16} (h : parse_u16 cs = some code) :
    ∀ c ∈ cs, c.utf8Size = 1 := by
  have hdigit : ∀ c : Char, c.isDigit = true → c.utf8Size = 1 := by
    intro c hc
    rw [Char.utf8Size_eq_one_iff]
    simp only [Char.isDigit, ge_iff_le, Bool.and_eq_true, decide_eq_true_eq] at hc
    exact UInt32.le_trans hc.2 (by decide)
  have hall : ∀ digits : List Char, ¬ (digits = [] ∨ digits.any (fun c => !c.isDigit) = true) →
      ∀ c ∈ digits, c.utf8Size = 1 := by
    intro digits hdigits c hc
    simp only [not_or, List.any_eq_true, Bool.not_eq_true', not_exists, not_and,
      Bool.not_eq_false] at hdigits
    exact hdigit c (hdigits.2 c hc)
  simp only [parse_u16, Option.ite_none_left_eq_some] at h
  have hdigits := h.1
  split at hdigits
  · intro c hc
    rcases List.mem_cons.mp hc with rfl | hc
    · decide
    · exact hall _ hdigits c hc
  · exact hall cs hdigits

theorem encode_ascii_length {cs : List Char} (h : ∀ c ∈ cs, c.utf8Size = 1) :
    (encode cs).length = cs.length := by
  induction cs with
  | nil => rfl
  | cons c cs ih =>
    rw [encode_cons_length, h c (by simp), ih (fun d hd => h d (List.mem_cons_of_mem _ hd)),
      List.length_cons, Nat.add_comm]

/-! ## Lines -/

theorem Takes.refl (d : Dialog) : Takes d [] d := ⟨[], by simp, by simp⟩

theorem Takes.trans {d d' d'' : Dialog} {a b : Bytes} (h : Takes d a d') (h' : Takes d' b d'') :
    Takes d (a ++ b) d'' := by
  obtain ⟨taken, hreads, hbuf⟩ := h
  obtain ⟨taken', hreads', hbuf'⟩ := h'
  refine ⟨taken ++ taken', by rw [hreads, hreads', List.map_append, List.append_assoc], ?_⟩
  rw [List.flatten_append, ← List.append_assoc, hbuf, List.append_assoc, hbuf', List.append_assoc]

/-- The bytes that were taken are known from the two states. -/
theorem Takes.unique {d d' : Dialog} {a b : Bytes} (ha : Takes d a d') (hb : Takes d b d') :
    a = b := by
  obtain ⟨taken, hreads, hbuf⟩ := ha
  obtain ⟨taken', hreads', hbuf'⟩ := hb
  have htaken : taken = taken' := by
    have h := List.append_cancel_right (hreads.symm.trans hreads')
    exact List.map_injective_iff.mpr (fun x y h => Except.ok.inj h) h
  rw [htaken] at hbuf
  exact List.append_cancel_right (hbuf.symm.trans hbuf')

theorem pending_of_next {buf out rest : Bytes} {reads : List Read}
    (h : next 10 buf = some (out, rest)) :
    (Dialog.mk buf reads).lines = out :: (Dialog.mk rest reads).lines ∧
      Takes ⟨buf, reads⟩ (out ++ [10]) ⟨rest, reads⟩ := by
  obtain ⟨rfl, hfree⟩ := next_eq_some h
  constructor
  · simp only [Dialog.lines, Dialog.pending, List.append_assoc, List.cons_append, drain_part hfree]
  · exact ⟨[], by simp, by simp⟩

theorem lines_of_no_next {buf : Bytes} {reads : List Read} (h : next 10 buf = none)
    (hreads : arriving reads = []) : (Dialog.mk buf reads).lines = [] := by
  rw [Dialog.lines, Dialog.pending, hreads, List.append_nil]
  exact next_eq_none.mp h

/-- A call of `line` takes the first of the lines that come, or it is an error and none comes. -/
theorem line_spec (d : Dialog) :
    (∃ e d', d.line = (.error e, d') ∧ d.lines = []) ∨
      ∃ out d', d.line = (line_text out, d') ∧ d.lines = out :: d'.lines ∧
        Takes d (out ++ [10]) d' := by
  obtain ⟨buf, reads⟩ := d
  rw [Dialog.line]
  dsimp only
  induction reads generalizing buf with
  | nil =>
    rcases hnext : next 10 buf with _ | ⟨out, rest⟩
    · left
      refine ⟨.Provider "smtp: connection closed", ⟨buf, []⟩, ?_, lines_of_no_next hnext rfl⟩
      simp [line_from, hnext]
    · right
      exact ⟨out, ⟨rest, []⟩, by simp [line_from, hnext], pending_of_next hnext⟩
  | cons r reads ih =>
    rcases hnext : next 10 buf with _ | ⟨out, rest⟩
    · rcases r with e | chunk
      · left
        exact ⟨err e, ⟨buf, reads⟩, by simp [line_from, hnext], lines_of_no_next hnext rfl⟩
      · rcases chunk with _ | ⟨b, chunk⟩
        · left
          refine ⟨.Provider "smtp: connection closed", ⟨buf, reads⟩, ?_, lines_of_no_next hnext rfl⟩
          simp [line_from, hnext]
        · have hline : line_from buf (.ok (b :: chunk) :: reads) =
              line_from (buf ++ b :: chunk) reads := by
            simp [line_from, hnext]
          have hlines : (Dialog.mk buf (.ok (b :: chunk) :: reads)).lines =
              (Dialog.mk (buf ++ b :: chunk) reads).lines := by
            simp [Dialog.lines, Dialog.pending, arriving]
          rw [hline, hlines]
          rcases ih (buf ++ b :: chunk) with hclosed | ⟨out, d', hout, hrest, htakes⟩
          · left
            exact hclosed
          · right
            refine ⟨out, d', hout, hrest, ?_⟩
            obtain ⟨taken, htaken, hbuf⟩ := htakes
            dsimp only at htaken hbuf
            exact ⟨(b :: chunk) :: taken, by simp [← htaken], by simpa using hbuf⟩
    · right
      exact ⟨out, ⟨rest, r :: reads⟩, by simp [line_from, hnext], pending_of_next hnext⟩

theorem free_of_mem_lines {d : Dialog} {l : Bytes} (h : l ∈ d.lines) : 10 ∉ l :=
  (drain_spec 10 d.pending).2.1 l h

/-! ## What a line says -/

variable {debug : List Char → String} {out : Bytes} {cs : List Char}

/-- In front of a code and a fourth character the slice is made. -/
theorem slice_of_code (h : parse_u16 (cs.take 3) ≠ none) (hfourth : cs[3]? ≠ none) :
    slice_to 3 cs = some (cs.take 3) ∧ 4 ≤ (encode cs).length ∧
      ((encode cs)[3]? = some 32 ↔ cs[3]? = some ' ') := by
  obtain ⟨code, hcode⟩ := Option.ne_none_iff_exists'.mp h
  obtain ⟨c, hc⟩ := Option.ne_none_iff_exists'.mp hfourth
  obtain ⟨hlt, hget⟩ := List.getElem?_eq_some_iff.mp hc
  have hhead : (encode (cs.take 3)).length = 3 := by
    rw [encode_ascii_length (ascii_of_parse_u16 hcode), List.length_take]
    omega
  have hsplit : cs = cs.take 3 ++ c :: cs.drop 4 := by
    rw [← hget, ← List.drop_eq_getElem_cons hlt, List.take_append_drop]
  have hcs : encode cs = encode (cs.take 3) ++ (String.utf8EncodeChar c ++ encode (cs.drop 4)) := by
    conv_lhs => rw [hsplit]
    simp [encode]
  refine ⟨slice_to_eq_some.mpr ⟨List.take_prefix 3 cs, hhead⟩, ?_, ?_⟩
  · have hpos := Char.utf8Size_pos c
    rw [hcs, List.length_append, List.length_append, String.length_utf8EncodeChar]
    omega
  · rw [hcs, List.getElem?_append_right (by omega), hhead, hc]
    obtain ⟨b, bs, hbytes⟩ := List.exists_cons_of_ne_nil (@String.utf8EncodeChar_ne_nil c)
    rw [hbytes, List.cons_append, List.getElem?_cons_zero, Option.some.injEq, Option.some.injEq]
    constructor
    · rintro rfl
      have hn : c.toNat = 32 :=
        toNat_of_mem_utf8EncodeChar (b := 32) (by rw [hbytes]; simp) (by decide)
      exact Char.toNat_inj.mp hn
    · rintro rfl
      have hblank : String.utf8EncodeChar ' ' = [32] := by decide
      rw [hblank] at hbytes
      exact (List.cons.inj hbytes).1.symm

/-- What the slice holds before a code is the first three characters. -/
theorem code_of_slice {head : List Char} {code : UInt16} (hlen : 4 ≤ (encode cs).length)
    (hslice : slice_to 3 cs = some head) (hcode : parse_u16 head = some code) :
    head = cs.take 3 ∧ cs[3]? ≠ none := by
  obtain ⟨hpre, hbytes⟩ := slice_to_eq_some.mp hslice
  have hthree : head.length = 3 := by
    rw [← encode_ascii_length (ascii_of_parse_u16 hcode), hbytes]
  have hhead : head = cs.take 3 := by
    rw [← hthree]
    exact List.prefix_iff_eq_take.mp hpre
  refine ⟨hhead, ?_⟩
  intro hend
  have hshort : cs.take 3 = cs := List.take_of_length_le (List.getElem?_eq_none_iff.mp hend)
  rw [← hshort, ← hhead, hbytes] at hlen
  omega

section LineKinds
variable (hcs : from_utf8 (chomp out) = some cs)
include hcs

theorem reply_line_code (code : UInt16) :
    (4 ≤ (encode cs).length ∧ ∃ head, slice_to 3 cs = some head ∧ parse_u16 head = some code) ↔
      code_of out = some code ∧ fourth out ≠ none := by
  rw [code_of, fourth, hcs, Option.bind_some, Option.bind_some]
  constructor
  · rintro ⟨hlen, head, hslice, hcode⟩
    obtain ⟨rfl, hfourth⟩ := code_of_slice hlen hslice hcode
    exact ⟨hcode, hfourth⟩
  · rintro ⟨hcode, hfourth⟩
    obtain ⟨hslice, hlen, -⟩ := slice_of_code (by simp [hcode]) hfourth
    exact ⟨hlen, _, hslice, hcode⟩

theorem reply_line_splits : reply_line debug cs = none ↔ Splits out := by
  simp only [reply_line, Splits, hcs, Option.some.injEq, exists_eq_left', ← slice_to_eq_none]
  split
  · rename_i hshort
    simp only [reduceCtorEq, false_iff, not_and]
    omega
  · rename_i hlong
    simp only [Option.map_eq_none_iff]
    constructor
    · intro h
      exact ⟨by omega, h⟩
    · exact And.right

/-- A line with a code, as the loop takes it. -/
theorem reply_line_of_code {code : UInt16} (hcode : code_of out = some code)
    (hfourth : fourth out ≠ none) :
    reply_line debug cs = some (.ok (if fourth out = some ' ' then some code else none)) := by
  obtain ⟨hlen, head, hslice, hparse⟩ := (reply_line_code hcs code).mpr ⟨hcode, hfourth⟩
  rw [code_of, hcs, Option.bind_some] at hcode
  rw [fourth, hcs, Option.bind_some] at hfourth ⊢
  obtain ⟨-, -, hblank⟩ := slice_of_code (by simp [hcode]) hfourth
  rw [reply_line, if_neg (by omega), hslice, Option.map_some, hparse]
  simp only [hblank]

/-- A line that is no error and no panic has a code. -/
theorem code_of_reply_line {r : Option UInt16} (h : reply_line debug cs = some (.ok r)) :
    ∃ code, code_of out = some code ∧ fourth out ≠ none := by
  rw [reply_line] at h
  split at h
  · cases h
  · rename_i hlong
    obtain ⟨head, hslice, hhead⟩ := Option.map_eq_some_iff.mp h
    split at hhead
    · cases hhead
    · rename_i code hparse
      exact ⟨code, (reply_line_code hcs code).mp ⟨by omega, head, hslice, hparse⟩⟩

end LineKinds

/-! ## Replies -/

variable {d : Dialog}

/-- One turn at a line that comes. -/
theorem reply_turn {l : Bytes} {ls : List Bytes} (h : d.lines = l :: ls) :
    ∃ d', d.line = (line_text l, d') ∧ d'.lines = ls ∧ Takes d (l ++ [10]) d' := by
  rcases line_spec d with ⟨e, d', -, hnone⟩ | ⟨out, d', hline, hlines, htakes⟩
  · rw [hnone] at h
    cases h
  · rw [hlines] at h
    obtain ⟨rfl, hrest⟩ := List.cons.inj h
    exact ⟨d', hline, hrest, htakes⟩

/-- A line with a code is text. -/
theorem line_text_of_code {l : Bytes} (h : code_of l ≠ none) :
    ∃ cs, from_utf8 (chomp l) = some cs ∧ line_text l = .ok cs := by
  rcases hcs : from_utf8 (chomp l) with _ | cs
  · rw [code_of, hcs] at h
    exact absurd rfl h
  · exact ⟨cs, rfl, by rw [line_text, hcs]⟩

/-- The lines with a code and no blank are passed over, whatever stands in the place of the blank. -/
theorem reply_passes {before rest : List Bytes} (turns : Nat) (h : d.lines = before ++ rest)
    (hgo : ∀ m ∈ before, GoesOn m) :
    ∃ d', d'.lines = rest ∧ Takes d (buffered.wire 10 before) d' ∧
      reply_within debug (before.length + turns) d = reply_within debug turns d' := by
  induction before generalizing d with
  | nil => exact ⟨d, h, Takes.refl d, by simp⟩
  | cons l before ih =>
    obtain ⟨d₁, hline, hlines, htakes⟩ := reply_turn h
    obtain ⟨hcode, hfourth, hblank⟩ := hgo l (by simp)
    obtain ⟨cs, hcs, htext⟩ := line_text_of_code hcode
    obtain ⟨code, hsome⟩ := Option.ne_none_iff_exists'.mp hcode
    have hgoes : reply_line debug cs = some (.ok none) := by
      rw [reply_line_of_code hcs hsome hfourth, if_neg hblank]
    obtain ⟨d', hrest, htakes', hreply⟩ := ih hlines (fun m hm => hgo m (List.mem_cons_of_mem _ hm))
    refine ⟨d', hrest, ?_, ?_⟩
    · rw [wire_cons, List.append_cons]
      exact htakes.trans htakes'
    · rw [List.length_cons, Nat.succ_add, reply_within, hline, htext]
      dsimp only
      rw [hgoes]
      exact hreply

/-- The lines that are passed over, and the first that is not. -/
theorem goes_on_cut (ls : List Bytes) :
    ∃ before rest, ls = before ++ rest ∧ (∀ m ∈ before, GoesOn m) ∧
      ∀ l ∈ rest.head?, ¬ GoesOn l := by
  induction ls with
  | nil => exact ⟨[], [], rfl, by simp, by simp⟩
  | cons l ls ih =>
    by_cases hl : GoesOn l
    · obtain ⟨before, rest, rfl, hgo, hstop⟩ := ih
      exact ⟨l :: before, rest, rfl, List.forall_mem_cons.mpr ⟨hl, hgo⟩, hstop⟩
    · exact ⟨[], l :: ls, rfl, by simp, by simpa using hl⟩

/-- What comes of a reply at the first line that is not passed over. -/
theorem reply_at {before behind : List Bytes} {l : Bytes} (h : d.lines = before ++ l :: behind)
    (hgo : ∀ m ∈ before, GoesOn m) :
    (Splits l → d.reply debug = none) ∧
      ∀ code, fourth l = some ' ' → code_of l = some code →
        ∃ d', d.reply debug = some (.ok code, d') ∧ Takes d (buffered.wire 10 (before ++ [l])) d' := by
  have hturns : d.lines.length + 1 = before.length + (behind.length + 1 + 1) := by
    rw [h, List.length_append, List.length_cons, Nat.add_assoc]
  obtain ⟨d₁, hlines, htakes, hreply⟩ := @reply_passes debug d before (l :: behind)
    (behind.length + 1 + 1) h hgo
  obtain ⟨d₂, hline, -, htakes'⟩ := reply_turn hlines
  rw [Dialog.reply, hturns, hreply, reply_within, hline]
  constructor
  · intro hsplits
    obtain ⟨cs, hcs, -⟩ := id hsplits
    have htext : line_text l = .ok cs := by rw [line_text, hcs]
    rw [htext]
    dsimp only
    rw [(reply_line_splits hcs).mpr hsplits]
  · intro code hblank hcode
    obtain ⟨cs, hcs, htext⟩ := line_text_of_code (l := l) (by simp [hcode])
    refine ⟨d₂, ?_, ?_⟩
    · rw [htext]
      dsimp only
      rw [reply_line_of_code hcs hcode (by simp [hblank]), if_pos hblank]
    · rw [wire_append, wire_cons, wire_nil]
      exact htakes.trans htakes'

/-- A session that is given what the replies come to goes on as it does on the connection. -/
theorem expect_on_replies {want : UInt16} {r : Except Error UInt16} {d' : Dialog}
    (h : d.reply debug = some (r, d')) (sent : Bytes) (replies : List (Except Error UInt16)) :
    d.expect debug want =
      match pai_connector_email.expect want ⟨sent, r :: replies⟩ with
      | .ok _ _ => some (.ok (), d')
      | .error e _ => some (.error e, d') := by
  rw [Dialog.expect, h, Option.map_some]
  rcases r with e | got
  · rfl
  · by_cases hgot : got = want
    · subst hgot
      simp [pai_connector_email.expect, pai_connector_email.reply, bind, EStateM.bind, pure,
        EStateM.pure]
    · simp only [pai_connector_email.expect, pai_connector_email.reply, bind, EStateM.bind, ne_eq, hgot,
        not_false_eq_true, if_true, if_false]
      rfl

/-- A reply of the server is read as one, if and only if no line that is reached has its third byte
inside a character and the lines before the last go on with a dash. -/
theorem reads_one_reply_iff (debug : List Char → String) (d : Dialog) :
    ReadsOneReply d (d.reply debug) ↔ Readable d.lines := by
  constructor
  · intro h before l behind hlines hgo
    obtain ⟨hsplits, hends⟩ := @reply_at debug d before behind l hlines hgo
    constructor
    · intro hl
      rw [hsplits hl] at h
      exact h
    · rintro ⟨hcode, hblank⟩
      obtain ⟨code, hcode⟩ := Option.ne_none_iff_exists'.mp hcode
      obtain ⟨d', hreply, htakes⟩ := hends code hblank hcode
      rw [hreply] at h
      obtain ⟨more, last, hmore, hlast, -, -, htakes'⟩ := h
      -- the bytes that were taken are cut into lines in one way
      have hfree : ∀ m ∈ before ++ [l], 10 ∉ m := by
        intro m hm
        apply free_of_mem_lines (d := d)
        rw [hlines]
        rcases List.mem_append.mp hm with hm | hm
        · exact List.mem_append_left _ hm
        · exact List.mem_append_right _ (by simpa using Or.inl (List.mem_singleton.mp hm))
      have hfree' : ∀ m ∈ more ++ [last], 10 ∉ m := by
        intro m hm
        rcases List.mem_append.mp hm with hm | hm
        · exact (hmore m hm).1
        · rwa [List.mem_singleton.mp hm]
      have heq := (wire_inj hfree hfree').mp (htakes.unique htakes')
      obtain ⟨hbefore, -⟩ := List.append_inj' heq rfl
      intro m hm
      exact (hmore m (hbefore ▸ hm)).2
  · intro h
    obtain ⟨before, rest, hlines, hgo, hstop⟩ := goes_on_cut d.lines
    obtain ⟨d₁, hrest, htakes, hreply⟩ :=
      @reply_passes debug d before rest (rest.length + 1) hlines hgo
    have hturns : d.lines.length + 1 = before.length + (rest.length + 1) := by
      rw [hlines, List.length_append, Nat.add_assoc]
    rw [Dialog.reply, hturns, hreply]
    rcases rest with _ | ⟨l, behind⟩
    · -- the connection ends before the reply does
      rcases line_spec d₁ with ⟨e, d₂, hline, -⟩ | ⟨out, d₂, -, hsome, -⟩
      · rw [reply_within, hline]
        trivial
      · rw [hrest] at hsome
        cases hsome
    · obtain ⟨d₂, hline, -, htakes'⟩ := reply_turn hrest
      rw [reply_within, hline]
      obtain ⟨hsplits, hends⟩ := h before l behind hlines hgo
      rcases hcs : from_utf8 (chomp l) with _ | cs
      · have htext : line_text l = .error (.Provider "smtp: non-UTF8 reply") := by
          rw [line_text, hcs]
        rw [htext]
        trivial
      · have htext : line_text l = .ok cs := by rw [line_text, hcs]
        rw [htext]
        dsimp only
        rcases hkind : reply_line debug cs with _ | e | r
        · exact hsplits ((reply_line_splits hcs).mp hkind)
        · trivial
        · obtain ⟨code, hcode, hfourth⟩ := code_of_reply_line hcs hkind
          rw [reply_line_of_code hcs hcode hfourth] at hkind
          by_cases hblank : fourth l = some ' '
          · rw [if_pos hblank] at hkind
            cases hkind
            have hdash := hends ⟨by simp [hcode], hblank⟩
            have hfree : ∀ m ∈ d.lines, 10 ∉ m := fun m hm => free_of_mem_lines hm
            rw [hlines] at hfree
            refine ⟨before, l, fun m hm => ⟨hfree m (List.mem_append_left _ hm), hdash m hm⟩,
              hfree l (by simp), hblank, hcode, ?_⟩
            rw [wire_append, wire_cons, wire_nil]
            exact htakes.trans htakes'
          · exact absurd ⟨by simp [hcode], hfourth, hblank⟩ (hstop l rfl)

/-- A letter of two bytes stands over the third byte, and the slice panics. -/
theorem a_letter_over_the_third_byte :
    ¬ ReadsOneReply ⟨[], [.ok (utf8 "25é\n")]⟩
      (Dialog.reply String.ofList ⟨[], [.ok (utf8 "25é\n")]⟩) := by
  have htext : line_text (utf8 "25é") = .ok ['2', '5', 'é'] := by
    have hchomp : chomp (utf8 "25é") = encode ['2', '5', 'é'] := by decide
    rw [line_text, hchomp, from_utf8_encode]
  have hline : (Dialog.mk [] [.ok (utf8 "25é\n")]).line = (line_text (utf8 "25é"), ⟨[], []⟩) := rfl
  have hslice : reply_line String.ofList ['2', '5', 'é'] = none := by decide
  rw [Dialog.reply, reply_within, hline, htext]
  dsimp only
  rw [hslice]
  exact id

end pai_connector_email.smtp
