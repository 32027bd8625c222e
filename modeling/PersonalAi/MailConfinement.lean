-- What a draft can put into an SMTP session and into the header of its message: the server hears
-- what was meant where the texts of the draft have no line end.
import PersonalAi.MailDrafts

open pai_core json text lines

namespace pai_connector_email

/-! ## Characters and bytes -/

theorem lf_of_mem {cs : List Char} (h : '\n' ∈ cs) : (10 : UInt8) ∈ encode cs := by
  simp only [encode, List.mem_flatMap]
  exact ⟨'\n', h, by decide⟩

theorem lf_mem_iff {cs : List Char} : (10 : UInt8) ∈ encode cs ↔ '\n' ∈ cs :=
  ⟨lf_mem_encode, lf_of_mem⟩

theorem encode_line (l rest : List Char) :
    encode (l ++ '\r' :: '\n' :: rest) = encode l ++ 13 :: 10 :: encode rest := by
  have hend : encode ('\r' :: '\n' :: rest) = 13 :: 10 :: encode rest := rfl
  rw [encode_append, hend]

@[simp] theorem utf8_append (a b : String) : utf8 (a ++ b) = utf8 a ++ utf8 b := by
  simp [utf8_eq_encode]

/-! ## Dots -/

/-- The bytes of a text start with a dot only where the text does. -/
theorem dot_of_head {l : List Char} (h : (encode l).head? = some 46) : ∃ rest, l = '.' :: rest := by
  cases l with
  | nil => simp at h
  | cons c rest =>
    have hne : String.utf8EncodeChar c ≠ [] := String.utf8EncodeChar_ne_nil
    obtain ⟨b, bs, hbs⟩ := List.exists_cons_of_ne_nil hne
    have hhead : encode (c :: rest) = b :: (bs ++ encode rest) := by
      rw [encode, List.flatMap_cons, hbs, List.cons_append]
      rfl
    rw [hhead, List.head?_cons, Option.some.injEq] at h
    have hmem : (46 : UInt8) ∈ String.utf8EncodeChar c := by simp [hbs, h]
    have hn : c.toNat = 46 := toNat_of_mem_utf8EncodeChar hmem (by decide)
    have hdot : c = '.' := Char.toNat_inj.mp hn
    exact ⟨rest, by rw [hdot]⟩

theorem stuffed_ne_dot (l : List Char) : encode (stuffed l) ≠ [46] := by
  unfold stuffed
  split
  · rename_i rest
    have hdots : encode ('.' :: '.' :: rest) = 46 :: 46 :: encode rest := rfl
    simp [hdots]
  · rename_i hnot
    intro h
    obtain ⟨rest, hrest⟩ := @dot_of_head l (by simp [h])
    exact hnot rest hrest

theorem unstuffed_stuffed (l : List Char) : unstuffed (encode (stuffed l)) = encode l := by
  unfold stuffed
  split
  · rename_i rest
    have hdots : encode ('.' :: '.' :: rest) = 46 :: encode ('.' :: rest) := rfl
    simp [unstuffed, hdots]
  · rename_i hnot
    unfold unstuffed
    apply if_neg
    intro h
    obtain ⟨rest, hrest⟩ := dot_of_head h
    exact hnot rest hrest

theorem lf_free_stuffed {l : List Char} (h : '\n' ∉ l) : (10 : UInt8) ∉ encode (stuffed l) := by
  rw [lf_mem_iff]
  unfold stuffed
  split
  · simpa using h
  · exact h

/-- The client ends a message only where it means to, whatever the message is. -/
theorem hears_message (got : List Bytes) (ls : List (List Char)) (rest : List Bytes) :
    hears (some got) ((ls.map fun l => encode (stuffed l)) ++ [46] :: rest) =
      .message (got ++ ls.map encode) :: hears none rest := by
  induction ls generalizing got with
  | nil => simp [hears]
  | cons l ls ih =>
    simp only [List.map_cons, List.cons_append]
    rw [hears, if_neg (stuffed_ne_dot l), unstuffed_stuffed, ih]
    simp

/-! ## The stream -/

theorem sent_line {l : Bytes} (h : Unbroken 13 10 l) (rest : Bytes) :
    sent_lines (l ++ 13 :: 10 :: rest) = l :: sent_lines rest :=
  complete_line (by decide) h rest

theorem sent_data (ls : List (List Char)) (h : ∀ l ∈ ls, '\n' ∉ l) (rest : Bytes) :
    sent_lines ((ls.flatMap fun l => encode (stuffed l) ++ [13, 10]) ++ 46 :: 13 :: 10 :: rest) =
      (ls.map fun l => encode (stuffed l)) ++ [46] :: sent_lines rest := by
  induction ls with
  | nil =>
    have hdot : Unbroken 13 10 ([46] : Bytes) := by simp [Unbroken]
    exact sent_line hdot rest
  | cons l ls ih =>
    simp only [List.forall_mem_cons] at h
    have hline : Unbroken 13 10 (encode (stuffed l)) := unbroken_of_free (lf_free_stuffed h.1)
    simp only [List.flatMap_cons, List.append_assoc, List.cons_append, List.nil_append,
      List.map_cons]
    rw [sent_line hline, ih h.2]

theorem encode_flatMap {α : Type} (f : α → List Char) (ls : List α) :
    encode (ls.flatMap f) = ls.flatMap fun l => encode (f l) := by
  simp only [encode, List.flatMap_assoc]

/-- The bytes of the data are the lines of the message, and a dot. -/
theorem data_block_bytes (msg : String) :
    utf8 (data_block msg) =
      ((text_lines msg.toList).flatMap fun l => encode (stuffed l) ++ [13, 10]) ++
        [46, 13, 10] := by
  have hend : encode ['.', '\r', '\n'] = [46, 13, 10] := rfl
  have hcrlf : encode ['\r', '\n'] = [13, 10] := rfl
  have hlines : (replace msg "\r\n" "\n").toList.splitOn '\n' = text_lines msg.toList := by
    rw [replace, String.toList_ofList]
    rfl
  rw [utf8_eq_encode, data_block, String.toList_ofList, encode_append, hend, hlines, encode_flatMap]
  simp only [encode_append, hcrlf]

/-- What the server hears of a session from DATA on. -/
theorem hears_data (msg : String) :
    hears none (sent_lines (DATA ++ 13 :: 10 :: (utf8 (data_block msg) ++
        (utf8 "QUIT" ++ [13, 10])))) =
      [.command DATA, .message ((text_lines msg.toList).map encode), .command (utf8 "QUIT")] := by
  have hdata : Unbroken 13 10 DATA := by decide
  have hquit : Unbroken 13 10 (utf8 "QUIT") := by decide
  have hrest : sent_lines (utf8 "QUIT" ++ [13, 10]) = [utf8 "QUIT"] := sent_line hquit []
  rw [sent_line hdata, data_block_bytes]
  simp only [List.append_assoc, List.cons_append, List.nil_append]
  rw [sent_data _ (fun l hl => free_of_mem_text_lines hl), hrest, hears, if_pos rfl, hears_message]
  have hne : utf8 "QUIT" ≠ DATA := by decide
  simp [hears]

/-- A command line that is heard is on one line. -/
theorem hears_commands {cmds : List Bytes} (hcmds : ∀ l ∈ cmds, l ≠ DATA) (rest : Bytes)
    (heard : List Event) :
    hears none (sent_lines ((cmds.flatMap fun l => l ++ [13, 10]) ++ rest)) =
        cmds.map Event.command ++ heard ↔
      (∀ l ∈ cmds, Unbroken 13 10 l) ∧ hears none (sent_lines rest) = heard := by
  induction cmds with
  | nil => simp
  | cons l cmds ih =>
    simp only [List.forall_mem_cons] at hcmds
    simp only [List.flatMap_cons, List.append_assoc, List.cons_append, List.nil_append,
      List.map_cons, List.forall_mem_cons]
    constructor
    · intro h
      have hl : Unbroken 13 10 l := by
        rcases hlines : sent_lines (l ++ 13 :: 10 :: ((cmds.flatMap fun l => l ++ [13, 10]) ++ rest))
          with _ | ⟨first, others⟩
        · rw [hlines] at h
          simp [hears] at h
        · rw [hlines, hears] at h
          simp only [List.cons.injEq, Event.command.injEq] at h
          have hmem : first ∈ sent_lines (l ++ 13 :: 10 ::
              ((cmds.flatMap fun l => l ++ [13, 10]) ++ rest)) := by simp [hlines]
          rw [← h.1]
          exact unbroken_of_mem_complete hmem
      rw [sent_line hl, hears, if_neg hcmds.1] at h
      simp only [List.cons.injEq, true_and] at h
      obtain ⟨hall, hrest⟩ := (ih hcmds.2).mp h
      exact ⟨⟨hl, hall⟩, hrest⟩
    · rintro ⟨⟨hl, hall⟩, hrest⟩
      rw [sent_line hl, hears, if_neg hcmds.1, (ih hcmds.2).mpr ⟨hall, hrest⟩]

/-! ## The session -/

theorem talk_bind {α β : Type} {x : Talk α} {f : α → Talk β} {d d' : Dialog} {b : β}
    (h : (x >>= f) d = .ok b d') : ∃ a e, x d = .ok a e ∧ f a e = .ok b d' := by
  simp only [bind, EStateM.bind] at h
  split at h
  · rename_i a e hx
    exact ⟨a, e, hx, h⟩
  · cases h

theorem reply_sent (d : Dialog) :
    (∃ code e, reply d = .ok code e ∧ e.sent = d.sent) ∨
      ∃ err e, reply d = .error err e ∧ e.sent = d.sent := by
  unfold reply
  split
  · exact .inr ⟨_, _, rfl, rfl⟩
  · exact .inl ⟨_, _, rfl, rfl⟩
  · exact .inr ⟨_, _, rfl, rfl⟩

theorem expect_sent (want : UInt16) (d : Dialog) :
    (∃ e, expect want d = .ok () e ∧ e.sent = d.sent) ∨
      ∃ err e, expect want d = .error err e ∧ e.sent = d.sent := by
  simp only [expect, bind, EStateM.bind]
  rcases reply_sent d with ⟨code, e, hreply, hsent⟩ | ⟨err, e, hreply, hsent⟩
  · rw [hreply]
    dsimp only
    split
    · exact .inr ⟨_, e, rfl, hsent⟩
    · exact .inl ⟨e, rfl, hsent⟩
  · rw [hreply]
    exact .inr ⟨err, e, rfl, hsent⟩

/-- A command goes out whole, whatever comes back. -/
theorem cmd_sent (line : String) (want : UInt16) (d : Dialog) :
    (∃ e, cmd line want d = .ok () e ∧ e.sent = d.sent ++ (utf8 line ++ [13, 10])) ∨
      ∃ err e, cmd line want d = .error err e ∧ e.sent = d.sent ++ (utf8 line ++ [13, 10]) := by
  have hcrlf : utf8 "\r\n" = [13, 10] := by decide
  have hcmd : cmd line want d = expect want
      { d with sent := d.sent ++ utf8 line ++ utf8 "\r\n" } := rfl
  rw [hcmd, hcrlf, ← List.append_assoc]
  exact expect_sent want _

theorem cmd_ok {d d' : Dialog} {line : String} {want : UInt16} {u : Unit}
    (h : cmd line want d = .ok u d') : d'.sent = d.sent ++ (utf8 line ++ [13, 10]) := by
  rcases cmd_sent line want d with ⟨e, hcmd, hsent⟩ | ⟨err, e, hcmd, hsent⟩
  · rw [hcmd] at h
    cases h
    exact hsent
  · rw [hcmd] at h
    cases h

def wire (cmds : List String) : Bytes := cmds.flatMap fun s => utf8 s ++ [13, 10]

theorem rcpt_all_sent {addrs : List EmailAddress} {d d' : Dialog} {u : Unit}
    (h : rcpt_all addrs d = .ok u d') :
    d'.sent = d.sent ++ wire (addrs.map fun a => "RCPT TO:<" ++ a.address ++ ">") := by
  induction addrs generalizing d with
  | nil =>
    cases h
    simp [wire]
  | cons a rest ih =>
    obtain ⟨_, e, hcmd, h⟩ := talk_bind h
    rw [ih h, cmd_ok hcmd]
    simp [wire]

section Session
variable {c : Crates} {ehlo user : String} {auth : SmtpAuth} {draft : Draft} {d d' : Dialog}

theorem authenticate_sent {u : Unit} (h : authenticate c user auth d = .ok u d') :
    d'.sent = d.sent ++ wire (auth_commands c user auth) := by
  unfold authenticate at h
  split at h
  · cases h
    simp [wire, auth_commands]
  · rw [cmd_ok h]
    simp [wire, auth_commands]
  · rw [cmd_ok h]
    simp [wire, auth_commands]

theorem quit_sent {u : Unit}
    (h : (tryCatch (cmd "QUIT" 221) fun _ => pure () : Talk Unit) d = .ok u d') :
    d'.sent = d.sent ++ (utf8 "QUIT" ++ [13, 10]) := by
  simp only [tryCatch, tryCatchThe, MonadExceptOf.tryCatch, EStateM.tryCatch] at h
  rcases cmd_sent "QUIT" 221 d with ⟨e, hcmd, hsent⟩ | ⟨err, e, hcmd, hsent⟩
  · rw [hcmd] at h
    cases h
    exact hsent
  · rw [hcmd] at h
    cases h
    exact hsent

/-- The bytes of a session that ends well. -/
theorem session_sent (h : session c ehlo user auth draft d = .ok () d') :
    d'.sent = d.sent ++ (wire (commands c ehlo user auth draft) ++
      (DATA ++ 13 :: 10 :: (utf8 (data_block (build_draft_message c draft user)) ++
        (utf8 "QUIT" ++ [13, 10])))) := by
  obtain ⟨_, e₁, hehlo, h⟩ := talk_bind h
  obtain ⟨_, e₂, hauth, h⟩ := talk_bind h
  obtain ⟨_, e₃, hmail, h⟩ := talk_bind h
  obtain ⟨_, e₄, hrcpt, h⟩ := talk_bind h
  dsimp only at h
  split at h
  · cases h
  · obtain ⟨_, e₅, hdata, h⟩ := talk_bind h
    obtain ⟨_, e₆, hwrite, h⟩ := talk_bind h
    obtain ⟨_, e₇, hdone, h⟩ := talk_bind h
    have hwritten : e₆.sent = e₅.sent ++ utf8 (data_block (build_draft_message c draft user)) := by
      cases hwrite
      rfl
    have hwaited : e₇.sent = e₆.sent := by
      rcases expect_sent 250 e₆ with ⟨e, hexpect, hsent⟩ | ⟨err, e, hexpect, hsent⟩
      · rw [hexpect] at hdone
        cases hdone
        exact hsent
      · rw [hexpect] at hdone
        cases hdone
    rw [quit_sent h, hwaited, hwritten, cmd_ok hdata, rcpt_all_sent hrcpt, cmd_ok hmail,
      authenticate_sent hauth, cmd_ok hehlo]
    cases auth <;> simp [wire, commands, auth_commands, DATA]

end Session

/-! ## The header -/

/-- A way to cut a text into lines, and the lines that it keeps whole. -/
structure Reads (Good : Bytes → Prop) (split : List Char → List Bytes) : Prop where
  good : LineClass 13 10 Good
  free : ∀ {l : Bytes}, 10 ∉ l → Good l
  piece : ∀ {cs p}, p ∈ split cs → Good p
  line : ∀ {l} (rest), Good (encode l) → split (l ++ '\r' :: '\n' :: rest) = encode l :: split rest
  body : ∀ {ls : List (List Char)}, ls ≠ [] → (∀ l ∈ ls, '\n' ∉ l) →
    split (['\r', '\n'].intercalate ls) = ls.map encode

/-- The lines of the data of a session. -/
theorem reads_data : Reads (10 ∉ ·) fun cs => (text_lines cs).map encode :=
  { good := free_class 13 10
    free := fun h => h
    piece := by
      intro cs p hp
      obtain ⟨l, hl, rfl⟩ := List.mem_map.mp hp
      rw [lf_mem_iff]
      exact free_of_mem_text_lines hl
    line := by
      intro l rest hl
      rw [lf_mem_iff] at hl
      rw [text_lines_line hl, List.map_cons]
    body := by
      intro ls hne hls
      rw [text_lines_intercalate hne hls] }

/-- The lines of a message as it is. -/
theorem reads_message : Reads (Unbroken 13 10) fun cs => crlf_lines (encode cs) :=
  { good := unbroken_class 13 10
    free := unbroken_of_free
    piece := fun hp => unbroken_of_mem_cut hp
    line := by
      intro l rest hl
      rw [encode_line]
      exact cut_line (by decide) hl _
    body := by
      intro ls hne hls
      induction ls with
      | nil => exact absurd rfl hne
      | cons l ls ih =>
        simp only [List.forall_mem_cons] at hls
        have hl : Unbroken 13 10 (encode l) := by
          apply unbroken_of_free
          rw [lf_mem_iff]
          exact hls.1
        cases ls with
        | nil =>
          rw [List.intercalate_singleton]
          exact cut_last hl
        | cons m ls =>
          rw [List.intercalate_cons_cons, List.append_assoc]
          simp only [List.cons_append, List.nil_append]
          rw [encode_line, crlf_lines, cut_line (by decide) hl, ← crlf_lines, ih (by simp) hls.2]
          rfl }

section Header
variable {Good : Bytes → Prop} {split : List Char → List Bytes} {c : Crates} {d : Draft}
  {from_addr : String}

/-- Texts with a separator between them. -/
theorem Reads.between (h : Reads Good split) {s : String} (hne : utf8 s ≠ []) (hcr : 13 ∉ utf8 s)
    (hlf : 10 ∉ utf8 s) (a b : String) :
    Good (utf8 (a ++ s ++ b)) ↔ Good (utf8 a) ∧ Good (utf8 b) := by
  rw [utf8_append, utf8_append]
  exact h.good.append hne hcr hlf

theorem Reads.behind (h : Reads Good split) {s : String} (hne : utf8 s ≠ []) (hcr : 13 ∉ utf8 s)
    (hlf : 10 ∉ utf8 s) (b : String) : Good (utf8 (s ++ b)) ↔ Good (utf8 b) := by
  have hboth := h.between hne hcr hlf "" b
  have hnone : Good (utf8 "") := h.good.none
  rw [String.empty_append] at hboth
  simpa [hnone] using hboth

theorem Reads.before (h : Reads Good split) {s : String} (hne : utf8 s ≠ []) (hcr : 13 ∉ utf8 s)
    (hlf : 10 ∉ utf8 s) (a : String) : Good (utf8 (a ++ s)) ↔ Good (utf8 a) := by
  have hboth := h.between hne hcr hlf a ""
  have hnone : Good (utf8 "") := h.good.none
  rw [String.append_empty] at hboth
  simpa [hnone] using hboth

theorem Reads.encode_addr (h : Reads Good split) (a : EmailAddress) :
    Good (utf8 (encode_addr a)) ↔ ∀ t ∈ a.texts, Good (utf8 t) := by
  unfold pai_connector_email.encode_addr EmailAddress.texts
  cases a.name with
  | none => simp
  | some n =>
    dsimp only
    rw [h.before (by decide) (by decide) (by decide), h.between (by decide) (by decide) (by decide)]
    simp

theorem Reads.address_list (h : Reads Good split) (addrs : List EmailAddress) :
    Good (utf8 (address_list addrs)) ↔ ∀ t ∈ addrs.flatMap EmailAddress.texts, Good (utf8 t) := by
  unfold pai_connector_email.address_list
  induction addrs with
  | nil =>
    have hnone : Good (utf8 "") := h.good.none
    simpa using hnone
  | cons a rest ih =>
    simp only [List.flatMap_cons, List.forall_mem_append]
    rw [← h.encode_addr a, ← ih]
    cases rest with
    | nil =>
      have hnone : Good (utf8 "") := h.good.none
      simp [hnone]
    | cons b rest =>
      simp only [List.map_cons]
      rw [String.intercalate_cons_cons, h.between (by decide) (by decide) (by decide)]

theorem Reads.one_line (h : Reads Good split) {s : String} (hs : OneLine s) : Good (utf8 s) := by
  apply h.free
  rw [utf8_eq_encode, lf_mem_iff]
  exact hs.2

theorem Reads.subject (h : Reads Good split) (subject : String) :
    Good (utf8 (subject_text c subject)) ↔
      ∀ t ∈ (if is_ascii subject then [subject] else []), Good (utf8 t) := by
  unfold subject_text
  split
  · simp
  · rw [h.before (by decide) (by decide) (by decide), h.behind (by decide) (by decide) (by decide)]
    simp [h.one_line (c.standard_line _)]

/-- The values of the header are in the class where the texts of the draft are. -/
theorem Reads.values (h : Reads Good split) :
    (∀ f ∈ header c d from_addr, Good (utf8 f.2)) ↔ ∀ t ∈ d.texts from_addr, Good (utf8 t) := by
  have hid : Good (utf8 ("<" ++ c.uuid ++ "@pai.local>")) := by
    rw [h.before (by decide) (by decide) (by decide), h.behind (by decide) (by decide) (by decide)]
    exact h.one_line c.uuid_line
  have hdate : Good (utf8 c.date) := h.one_line c.date_line
  have hversion : Good (utf8 "1.0") := h.free (by decide)
  have htype : Good (utf8 "text/plain; charset=\"UTF-8\"") := h.free (by decide)
  have hcc : (∀ f ∈ (if d.cc.isEmpty then [] else [("Cc", pai_connector_email.address_list d.cc)]),
      Good (utf8 f.2)) ↔ ∀ t ∈ d.cc.flatMap EmailAddress.texts, Good (utf8 t) := by
    rw [← h.address_list]
    cases hnil : d.cc with
    | nil =>
      have hnone : Good (utf8 "") := h.good.none
      simpa [pai_connector_email.address_list] using hnone
    | cons a rest => simp
  have hreply : (∀ f ∈ reply_fields d.in_reply_to, Good (utf8 f.2)) ↔
      ∀ t ∈ d.in_reply_to.toList, Good (utf8 t) := by
    cases d.in_reply_to <;> simp [reply_fields]
  unfold header Draft.texts
  simp only [List.forall_mem_append, List.forall_mem_cons, List.flatMap_append, List.cons_append,
    hcc, hreply, h.address_list, h.subject, hid, hdate, hversion, htype]
  simp only [List.not_mem_nil, false_imp_iff, implies_true, and_true]
  tauto

/-! ## The message -/

def field_text (f : String × String) : List Char := f.1.toList ++ ':' :: ' ' :: f.2.toList

theorem field_line (label name : String) (h : label = name ++ ": ") (v : String) :
    (label ++ v ++ "\r\n").toList = field_text (name, v) ++ ['\r', '\n'] := by
  have hcolon : ": ".toList = [':', ' '] := rfl
  have hcrlf : "\r\n".toList = ['\r', '\n'] := rfl
  simp [field_text, h, hcolon, hcrlf]

/-- The fields of the message, as they stand in it. -/
theorem subject_line (c : Crates) (subject : String) :
    (if is_ascii subject then "Subject: " ++ subject ++ "\r\n"
      else "Subject: =?UTF-8?B?" ++ c.standard (utf8 subject) ++ "?=\r\n").toList =
      field_text ("Subject", subject_text c subject) ++ ['\r', '\n'] := by
  have hline := field_line "Subject: " "Subject" rfl (subject_text c subject)
  rw [← hline]
  unfold subject_text
  have hlabel : "Subject: =?UTF-8?B?" = "Subject: " ++ "=?UTF-8?B?" := by decide
  have hend : "?=\r\n" = "?=" ++ "\r\n" := by decide
  split
  · rfl
  · simp only [hlabel, hend, String.append_assoc]

theorem cc_line (cc : List EmailAddress) :
    (if cc.isEmpty then "" else "Cc: " ++ address_list cc ++ "\r\n").toList =
      (if cc.isEmpty then [] else [("Cc", address_list cc)]).flatMap fun f =>
        field_text f ++ ['\r', '\n'] := by
  split
  · rfl
  · rw [field_line "Cc: " "Cc" rfl]
    simp

theorem reply_lines (in_reply_to : Option String) :
    (reply_text in_reply_to).toList =
      (reply_fields in_reply_to).flatMap fun f => field_text f ++ ['\r', '\n'] := by
  cases in_reply_to with
  | none => rfl
  | some rt =>
    have hmiddle : "\r\nReferences: " = "\r\n" ++ "References: " := by decide
    have hsplit : reply_text (some rt) =
        "In-Reply-To: " ++ rt ++ ("\r\n" ++ "References: ") ++ rt ++ "\r\n" :=
      congrArg (fun s => "In-Reply-To: " ++ rt ++ s ++ rt ++ "\r\n") hmiddle
    have hboth : reply_text (some rt) =
        "In-Reply-To: " ++ rt ++ "\r\n" ++ ("References: " ++ rt ++ "\r\n") := by
      rw [hsplit]
      simp only [String.append_assoc]
    rw [hboth, String.toList_append, field_line "In-Reply-To: " "In-Reply-To" rfl,
      field_line "References: " "References" rfl]
    simp [reply_fields]

/-- The message is its fields, an empty line, and the body with its line ends made CR LF. -/
theorem message_text (c : Crates) (d : Draft) (from_addr : String) :
    (build_draft_message c d from_addr).toList =
      ((header c d from_addr).flatMap fun f => field_text f ++ ['\r', '\n']) ++
        '\r' :: '\n' :: ['\r', '\n'].intercalate (text_lines d.body.toList) := by
  have hbody : (replace (replace d.body "\r\n" "\n") "\n" "\r\n").toList =
      ['\r', '\n'].intercalate (text_lines d.body.toList) := by
    simp only [replace, String.toList_ofList]
    exact replace_lf _
  have hid : ("Message-ID: <" ++ c.uuid ++ "@pai.local>\r\n").toList =
      field_text ("Message-ID", "<" ++ c.uuid ++ "@pai.local>") ++ ['\r', '\n'] := by
    have hlabel : "Message-ID: <" = "Message-ID: " ++ "<" := by decide
    have hend : "@pai.local>\r\n" = "@pai.local>" ++ "\r\n" := by decide
    rw [← field_line "Message-ID: " "Message-ID" rfl, hlabel, hend]
    simp only [String.append_assoc]
  have hend : "MIME-Version: 1.0\r\nContent-Type: text/plain; charset=\"UTF-8\"\r\n\r\n".toList =
      field_text ("MIME-Version", "1.0") ++ ['\r', '\n'] ++
        (field_text ("Content-Type", "text/plain; charset=\"UTF-8\"") ++ ['\r', '\n'] ++
          ['\r', '\n']) := rfl
  unfold build_draft_message header
  rw [String.toList_append, String.toList_append, String.toList_append, String.toList_append,
    String.toList_append, String.toList_append, String.toList_append, String.toList_append, hbody,
    hend, hid, field_line "From: " "From" rfl, field_line "To: " "To" rfl,
    field_line "Date: " "Date" rfl, subject_line, cc_line, reply_lines]
  simp only [List.flatMap_append, List.flatMap_cons, List.flatMap_nil, List.append_assoc,
    List.append_nil, List.cons_append, List.nil_append]

/-- The names of fields that a message can have. -/
def names : List String :=
  ["From", "To", "Cc", "Subject", "In-Reply-To", "References", "Date", "Message-ID",
    "MIME-Version", "Content-Type"]

theorem header_names : ∀ f ∈ header c d from_addr, f.1 ∈ names := by
  have hcc : ∀ f ∈ (if d.cc.isEmpty then [] else [("Cc", pai_connector_email.address_list d.cc)]),
      f.1 ∈ names := by
    split <;> simp [names]
  have hreply : ∀ f ∈ reply_fields d.in_reply_to, f.1 ∈ names := by
    cases d.in_reply_to <;> simp [reply_fields, names]
  unfold header
  intro f hf
  simp only [List.mem_append] at hf
  rcases hf with (((hf | hf) | hf) | hf) | hf
  · simp only [List.mem_cons, List.not_mem_nil, or_false] at hf
    rcases hf with rfl | rfl <;> simp [names]
  · exact hcc f hf
  · simp only [List.mem_singleton] at hf
    simp [hf, names]
  · exact hreply f hf
  · simp only [List.mem_cons, List.not_mem_nil, or_false] at hf
    rcases hf with rfl | rfl | rfl | rfl <;> simp [names]

/-- A name is plain text without a colon, and no blank stands in front of it. -/
theorem plain_name : ∀ n ∈ names, utf8 (n ++ ": ") ≠ [] ∧ 13 ∉ utf8 (n ++ ": ") ∧
    10 ∉ utf8 (n ++ ": ") ∧ 58 ∉ utf8 n ∧ (utf8 n).head?.any is_fold = false ∧ utf8 n ≠ [] := by
  decide

theorem field_bytes (f : String × String) :
    encode (field_text f) = utf8 f.1 ++ 58 :: 32 :: utf8 f.2 := by
  have hcolon : encode (':' :: ' ' :: f.2.toList) = 58 :: 32 :: utf8 f.2 := rfl
  rw [field_text, encode_append, hcolon]
  rfl

theorem field_of_bytes {f : String × String} (hname : f.1 ∈ names) :
    field_of (encode (field_text f)) = (utf8 f.1, utf8 f.2) := by
  obtain ⟨-, -, -, hcolon, -⟩ := plain_name f.1 hname
  have hpos : ∀ b ∈ utf8 f.1, decide (b ≠ 58) = true := by
    intro b hb
    apply decide_eq_true
    rintro rfl
    exact hcolon hb
  rw [field_bytes, field_of, List.takeWhile_append_of_pos hpos, List.dropWhile_append_of_pos hpos]
  simp

theorem Reads.field (h : Reads Good split) {f : String × String} (hname : f.1 ∈ names)
    (hvalue : Good (utf8 f.2)) : Good (encode (field_text f)) := by
  obtain ⟨hne, hcr, hlf, -⟩ := plain_name f.1 hname
  have hfield := (h.behind hne hcr hlf f.2).mpr hvalue
  have hcolon : utf8 ": " = [58, 32] := rfl
  rw [utf8_append, utf8_append, hcolon, List.append_assoc] at hfield
  rw [field_bytes]
  exact hfield

theorem Reads.fields (h : Reads Good split) {fs : List (String × String)}
    (hgood : ∀ f ∈ fs, Good (encode (field_text f))) (rest : List Char) :
    split ((fs.flatMap fun f => field_text f ++ ['\r', '\n']) ++ rest) =
      (fs.map fun f => encode (field_text f)) ++ split rest := by
  induction fs with
  | nil => simp
  | cons f fs ih =>
    simp only [List.forall_mem_cons] at hgood
    simp only [List.flatMap_cons, List.append_assoc, List.cons_append, List.nil_append,
      List.map_cons]
    rw [h.line _ hgood.1, ih hgood.2]

/-- A reader finds the draft in the message where the texts of the draft keep to their lines, and
nowhere else. -/
theorem Reads.mail_iff (h : Reads Good split) :
    read_mail (split (build_draft_message c d from_addr).toList) = mail_of c d from_addr ↔
      ∀ t ∈ d.texts from_addr, Good (utf8 t) := by
  rw [← @Reads.values Good split c d from_addr h]
  constructor
  · intro hmail f hf
    have hfields := congrArg Mail.fields hmail
    have hmem : (utf8 f.1, utf8 f.2) ∈ (mail_of c d from_addr).fields :=
      List.mem_map_of_mem hf
    rw [← hfields] at hmem
    obtain ⟨line, hline, heq⟩ := List.mem_map.mp hmem
    have hgood : Good line := by
      apply unfolded_good h.good (by decide) (by decide) _ line hline
      intro l hl
      exact h.piece ((List.takeWhile_prefix _).subset hl)
    have hvalue : utf8 f.2 = (line.dropWhile (· ≠ 58)).drop 2 := (congrArg Prod.snd heq).symm
    rw [hvalue]
    exact h.good.part
      ((List.drop_suffix _ _).trans (List.dropWhile_suffix _)).isInfix hgood
  · intro hvalues
    have hlines : ∀ f ∈ header c d from_addr, Good (encode (field_text f)) := fun f hf =>
      h.field (header_names f hf) (hvalues f hf)
    have hempty := @Reads.line Good split h [] (['\r', '\n'].intercalate (text_lines d.body.toList))
      h.good.none
    rw [List.nil_append, h.body (text_lines_ne_nil _) fun l hl => free_of_mem_text_lines hl] at hempty
    rw [message_text, h.fields hlines, hempty]
    have hpos : ∀ l ∈ (header c d from_addr).map (fun f => encode (field_text f)),
        decide (l ≠ []) = true := by
      intro l hl
      obtain ⟨f, hf, rfl⟩ := List.mem_map.mp hl
      simp [field_bytes]
    have hplain : ∀ l ∈ (header c d from_addr).map (fun f => encode (field_text f)),
        l.head?.any is_fold = false := by
      intro l hl
      obtain ⟨f, hf, rfl⟩ := List.mem_map.mp hl
      obtain ⟨-, -, -, -, hfold, hne⟩ := plain_name f.1 (header_names f hf)
      rw [field_bytes, List.head?_append_of_ne_nil _ hne]
      exact hfold
    unfold read_mail mail_of
    rw [List.takeWhile_append_of_pos hpos, List.dropWhile_append_of_pos hpos]
    simp only [encode_nil, List.takeWhile_cons, List.dropWhile_cons, ne_eq, not_true, decide_false,
      Bool.false_eq_true, if_false, List.append_nil, List.tail_cons, Mail.mk.injEq, and_true]
    rw [unfolded_plain hplain, List.map_map]
    apply List.map_congr_left
    intro f hf
    exact field_of_bytes (header_names f hf)

end Header

/-! ## A session and its draft -/

/-- The host of the account and its token have no CR LF, and the texts of the draft no LF. -/
structure Lined (ehlo user : String) (auth : SmtpAuth) (d : Draft) : Prop where
  host : Unbroken 13 10 (utf8 ehlo)
  token : ∀ t, auth = .Xoauth2 t → Unbroken 13 10 (utf8 t)
  texts : ∀ t ∈ d.texts user, '\n' ∉ t.toList

section Confinement
variable {c : Crates} {ehlo user : String} {auth : SmtpAuth} {d : Draft}

theorem labelled_ne_data {label : String} {b : UInt8} {bs : Bytes} (h : utf8 label = b :: bs)
    (hb : b ≠ 68) (s : String) : utf8 (label ++ s) ≠ DATA := by
  have hdata : DATA = [68, 65, 84, 65] := by decide
  rw [utf8_append, h, hdata]
  simp [hb]

theorem commands_ne_data : ∀ s ∈ commands c ehlo user auth d, utf8 s ≠ DATA := by
  intro s hs
  simp only [commands, List.mem_append, List.mem_singleton, List.mem_map] at hs
  rcases hs with ((rfl | hs) | rfl) | ⟨a, -, rfl⟩
  · exact labelled_ne_data rfl (by decide) _
  · cases auth with
    | None => simp [auth_commands] at hs
    | Plain pass =>
      simp only [auth_commands, List.mem_singleton] at hs
      rw [hs]
      exact labelled_ne_data rfl (by decide) _
    | Xoauth2 t =>
      simp only [auth_commands, List.mem_singleton] at hs
      rw [hs]
      exact labelled_ne_data rfl (by decide) _
  · rw [String.append_assoc]
    exact labelled_ne_data rfl (by decide) _
  · rw [String.append_assoc]
    exact labelled_ne_data rfl (by decide) _

/-- Which of the commands are on one line. -/
theorem commands_unbroken :
    (∀ s ∈ commands c ehlo user auth d, Unbroken 13 10 (utf8 s)) ↔
      Unbroken 13 10 (utf8 ehlo) ∧ (∀ t, auth = .Xoauth2 t → Unbroken 13 10 (utf8 t)) ∧
        Unbroken 13 10 (utf8 user) ∧ ∀ a ∈ d.to_addrs ++ d.cc, Unbroken 13 10 (utf8 a.address) := by
  have hauth : (∀ s ∈ auth_commands c user auth, Unbroken 13 10 (utf8 s)) ↔
      ∀ t, auth = .Xoauth2 t → Unbroken 13 10 (utf8 t) := by
    cases auth with
    | None => simp [auth_commands]
    | Plain pass =>
      have hline := reads_message.one_line (c.standard_line (utf8 ("\x00" ++ user ++ "\x00" ++ pass)))
      have hplain := (@Reads.behind _ _ reads_message "AUTH PLAIN " (by decide) (by decide)
        (by decide) _).mpr hline
      constructor
      · rintro - t ⟨⟩
      · rintro - s hs
        simp only [auth_commands, List.mem_singleton] at hs
        rw [hs]
        exact hplain
    | Xoauth2 t =>
      simp only [auth_commands, List.mem_singleton, forall_eq, SmtpAuth.Xoauth2.injEq,
        forall_eq']
      exact reads_message.behind (by decide) (by decide) (by decide) t
  have hbracket : ∀ {label : String} (s : String), utf8 label ≠ [] → 13 ∉ utf8 label →
      10 ∉ utf8 label → (Unbroken 13 10 (utf8 (label ++ s ++ ">")) ↔ Unbroken 13 10 (utf8 s)) := by
    intro label s hne hcr hlf
    rw [reads_message.before (by decide) (by decide) (by decide),
      reads_message.behind hne hcr hlf]
  simp only [commands, List.forall_mem_append, List.forall_mem_singleton, List.forall_mem_map,
    hauth, hbracket _ (by decide : utf8 "MAIL FROM:<" ≠ []) (by decide) (by decide),
    hbracket _ (by decide : utf8 "RCPT TO:<" ≠ []) (by decide) (by decide),
    @Reads.behind _ _ reads_message "EHLO " (by decide) (by decide) (by decide)]
  tauto

theorem address_mem_texts {a : EmailAddress} (h : a ∈ d.to_addrs ++ d.cc) :
    a.address ∈ d.texts user := by
  have hmem : a.address ∈ (d.to_addrs ++ d.cc).flatMap EmailAddress.texts :=
    List.mem_flatMap.mpr ⟨a, h, by simp [EmailAddress.texts]⟩
  unfold Draft.texts
  exact List.mem_append_left _ (List.mem_append_left _ (List.mem_cons_of_mem _ hmem))

theorem confined_iff {sent : Bytes}
    (hsent : sent = wire (commands c ehlo user auth d) ++
      (DATA ++ 13 :: 10 :: (utf8 (data_block (build_draft_message c d user)) ++
        (utf8 "QUIT" ++ [13, 10])))) :
    Confined c ehlo user auth d sent ↔ Lined ehlo user auth d := by
  have hwire : wire (commands c ehlo user auth d) =
      ((commands c ehlo user auth d).map utf8).flatMap fun l => l ++ [13, 10] := by
    simp [wire, List.flatMap_map]
  have hne : ∀ l ∈ (commands c ehlo user auth d).map utf8, l ≠ DATA := by
    simpa using @commands_ne_data c ehlo user auth d
  have htexts : (∀ t ∈ d.texts user, 10 ∉ utf8 t) ↔ ∀ t ∈ d.texts user, '\n' ∉ t.toList := by
    simp only [utf8_eq_encode, lf_mem_iff]
  have hheard : ∀ m, (hears none (sent_lines sent) =
      (commands c ehlo user auth d).map (fun s => Event.command (utf8 s)) ++
        [.command DATA, .message m, .command (utf8 "QUIT")] ↔
      (∀ s ∈ commands c ehlo user auth d, Unbroken 13 10 (utf8 s)) ∧
        m = (text_lines (build_draft_message c d user).toList).map encode) := by
    intro m
    have hiff := hears_commands hne (DATA ++ 13 :: 10 ::
      (utf8 (data_block (build_draft_message c d user)) ++ (utf8 "QUIT" ++ [13, 10])))
      [.command DATA, .message m, .command (utf8 "QUIT")]
    rw [← hwire, ← hsent, hears_data, List.map_map, List.forall_mem_map] at hiff
    simpa [Function.comp_def, eq_comm] using hiff
  unfold Confined
  simp only [hheard, and_assoc, exists_and_left]
  constructor
  · rintro ⟨hcommands, m, hm, hmail⟩
    rw [hm] at hmail
    obtain ⟨hhost, htoken, -⟩ := commands_unbroken.mp hcommands
    exact ⟨hhost, htoken, htexts.mp (reads_data.mail_iff.mp hmail)⟩
  · rintro ⟨hhost, htoken, hlines⟩
    have hfree := htexts.mpr hlines
    refine ⟨commands_unbroken.mpr ⟨hhost, htoken, ?_, ?_⟩, _, rfl, reads_data.mail_iff.mpr hfree⟩
    · apply unbroken_of_free
      apply hfree
      simp [Draft.texts]
    · intro a ha
      apply unbroken_of_free
      exact hfree _ (address_mem_texts ha)

end Confinement

/-- A draft adds no command and no header field exactly where its texts have no line end: to a
session that ends well, and to the message that is stored as a draft. -/
theorem a_draft_adds_nothing_where_its_texts_are_lines (c : Crates) (ehlo user from_addr : String)
    (auth : SmtpAuth) (d : Draft) {dialog dialog' : Dialog} (hfresh : dialog.sent = [])
    (h : session c ehlo user auth d dialog = .ok () dialog') :
    (Confined c ehlo user auth d dialog'.sent ↔ Lined ehlo user auth d) ∧
    (read_mail (crlf_lines (utf8 (build_draft_message c d from_addr))) = mail_of c d from_addr ↔
      ∀ t ∈ d.texts from_addr, Unbroken 13 10 (utf8 t)) := by
  have hsent := session_sent h
  rw [hfresh, List.nil_append] at hsent
  exact ⟨confined_iff hsent, reads_message.mail_iff⟩

/-! ### A letter -/

/-- The crates at one moment. No text of the letters below is encoded. -/
def noon_crates : Crates :=
  { standard := fun _ => "", standard_line := fun _ => by decide
    date := "Thu, 01 Jan 1970 12:00:00 +0000", date_line := by decide
    uuid := "00000000-0000-4000-8000-000000000001", uuid_line := by decide }

/-- A server that takes a letter to one recipient. -/
def willing : Dialog :=
  { sent := [], replies := [.ok 250, .ok 250, .ok 250, .ok 354, .ok 250, .ok 221] }

def letter : Draft :=
  { to_addrs := [{ name := some "You", address := "you@example.org" }], cc := []
    subject := "Hi", body := ".dots\n.\nend\n", in_reply_to := none }

theorem the_letter_is_sent : ∃ dialog',
    session noon_crates "smtp.example.org" "me@example.org" .None letter willing =
      .ok () dialog' ∧
    Confined noon_crates "smtp.example.org" "me@example.org" .None letter dialog'.sent := by
  have hends : ∃ dialog', session noon_crates "smtp.example.org" "me@example.org" .None letter
      willing = .ok () dialog' := ⟨_, rfl⟩
  obtain ⟨dialog', h⟩ := hends
  have hiff := a_draft_adds_nothing_where_its_texts_are_lines noon_crates "smtp.example.org"
    "me@example.org" "me@example.org" .None letter (by rfl) h
  refine ⟨dialog', h, hiff.1.mpr ⟨by decide, fun t ht => ?_, by decide⟩⟩
  cases ht

/-- The arguments of a tool call, with a recipient that goes on behind its end of line. -/
def forged_args : Value :=
  .object
    [("to", .array [.string "you@example.org>\r\nRCPT TO:<spy@example.org"]),
      ("subject", .string "Hi\nBcc: all@example.org"), ("body", .string "text")]

def forged : Draft :=
  { to_addrs := [{ name := none, address := "you@example.org>\r\nRCPT TO:<spy@example.org" }],
    cc := [], subject := "Hi\nBcc: all@example.org", body := "text", in_reply_to := none }

/-- The server hears a second recipient. -/
theorem a_recipient_adds_a_command :
    draft_args forged_args = .ok forged ∧
      ∃ dialog', session noon_crates "smtp.example.org" "me@example.org" .None forged willing =
          .ok () dialog' ∧
        Event.command (utf8 "RCPT TO:<spy@example.org>") ∈ hears none (sent_lines dialog'.sent) ∧
        ¬ Confined noon_crates "smtp.example.org" "me@example.org" .None forged dialog'.sent := by
  have hends : ∃ dialog', session noon_crates "smtp.example.org" "me@example.org" .None forged
      willing = .ok () dialog' := ⟨_, rfl⟩
  obtain ⟨dialog', h⟩ := hends
  have hspy : Event.command (utf8 "RCPT TO:<spy@example.org>") ∈
      hears none (sent_lines dialog'.sent) := by
    rw [session_sent h]
    decide +kernel
  refine ⟨rfl, dialog', h, hspy, fun hconfined => ?_⟩
  obtain ⟨m, hheard, -⟩ := hconfined
  have hmem : Event.command (utf8 "RCPT TO:<spy@example.org>") ∈
      (commands noon_crates "smtp.example.org" "me@example.org" .None forged).map
          (fun s => Event.command (utf8 s)) ++
        [.command DATA, .message m, .command (utf8 "QUIT")] := by
    rw [← hheard]
    exact hspy
  simp only [List.mem_append, List.mem_cons, reduceCtorEq, List.not_mem_nil, or_false,
    false_or] at hmem
  rcases hmem with hmem | hmem | hmem
  · revert hmem
    decide +kernel
  · revert hmem
    decide
  · revert hmem
    decide

end pai_connector_email
