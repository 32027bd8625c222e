-- Mail drafts (the email connector): a draft from the arguments of a tool, the message that is
-- built of it, and the SMTP session that sends it.
import PersonalAi.Core
import PersonalAi.Lib.Chars
import PersonalAi.Lib.Json
import PersonalAi.Lib.Lines

open pai_core json text lines

namespace pai_connector_email

structure EmailAddress where
  name : Option String
  address : String

/-- `Draft`, whose `to` is `to_addrs` here. -/
structure Draft where
  to_addrs : List EmailAddress
  cc : List EmailAddress
  subject : String
  body : String
  in_reply_to : Option String

/-! ## The arguments of a tool -/

def str_arg (args : Value) (k : String) : Except Error String :=
  match (args.index k).as_str with
  | some s => .ok s
  | none => .error (.InvalidInput ("missing '" ++ k ++ "'"))

def email_addr (v : Value) : List EmailAddress :=
  (v.as_array.getD []).filterMap fun e => e.as_str.map fun s => { name := none, address := s }

def draft_args (args : Value) : Except Error Draft := do
  let subject ← str_arg args "subject"
  let body ← str_arg args "body"
  return { to_addrs := email_addr (args.index "to"), cc := email_addr (args.index "cc"), subject, body,
           in_reply_to := (args.index "in_reply_to").as_str }

/-! ## The message -/

/-- A text on one line. -/
def OneLine (s : String) : Prop := '\r' ∉ s.toList ∧ '\n' ∉ s.toList

instance (s : String) : Decidable (OneLine s) := inferInstanceAs (Decidable (_ ∧ _))

/-- What the crates for base64, times and ids give to a message. Their texts stay on one line. -/
structure Crates where
  standard : Bytes → String
  standard_line : ∀ b, OneLine (standard b)
  date : String
  date_line : OneLine date
  uuid : String
  uuid_line : OneLine uuid

def is_ascii (s : String) : Bool := s.toList.all fun c => c.toNat < 128

def encode_addr (a : EmailAddress) : String :=
  match a.name with
  | some n => n ++ " <" ++ a.address ++ ">"
  | none => a.address

def address_list (addrs : List EmailAddress) : String := ", ".intercalate (addrs.map encode_addr)

def reply_text (in_reply_to : Option String) : String :=
  match in_reply_to with
  | some rt => "In-Reply-To: " ++ rt ++ "\r\nReferences: " ++ rt ++ "\r\n"
  | none => ""

section Message
variable (c : Crates)

def build_draft_message (d : Draft) (from_addr : String) : String :=
  "From: " ++ from_addr ++ "\r\n" ++
  ("To: " ++ address_list d.to_addrs ++ "\r\n") ++
  (if d.cc.isEmpty then "" else "Cc: " ++ address_list d.cc ++ "\r\n") ++
  (if is_ascii d.subject then "Subject: " ++ d.subject ++ "\r\n"
    else "Subject: =?UTF-8?B?" ++ c.standard (utf8 d.subject) ++ "?=\r\n") ++
  reply_text d.in_reply_to ++
  ("Date: " ++ c.date ++ "\r\n") ++
  ("Message-ID: <" ++ c.uuid ++ "@pai.local>\r\n") ++
  "MIME-Version: 1.0\r\nContent-Type: text/plain; charset=\"UTF-8\"\r\n\r\n" ++
  replace (replace d.body "\r\n" "\n") "\n" "\r\n"

/-- A line of the data, with a second dot in front of its first. -/
def stuffed (line : List Char) : List Char :=
  match line with
  | '.' :: rest => '.' :: '.' :: rest
  | line => line

def data_block (msg : String) : String :=
  String.ofList ((((replace msg "\r\n" "\n").toList.splitOn '\n').flatMap fun line =>
    stuffed line ++ ['\r', '\n']) ++ ['.', '\r', '\n'])

/-! ## The session -/

/-- A connection: the bytes of the client so far, and what comes of its waits for a reply, which
is a code or what went wrong on the way. -/
structure Dialog where
  sent : Bytes
  replies : List (Except Error UInt16)

abbrev Talk := EStateM Error Dialog

def write_all (bytes : Bytes) : Talk Unit := modify fun d => { d with sent := d.sent ++ bytes }

def reply : Talk UInt16 := fun d =>
  match d.replies with
  | [] => .error (.Provider "smtp: connection closed") d
  | .ok code :: rest => .ok code { d with replies := rest }
  | .error err :: rest => .error err { d with replies := rest }

def expect (want : UInt16) : Talk Unit := do
  let got ← reply
  if got ≠ want then
    throw (.Provider ("smtp: expected " ++ toString want ++ ", server replied " ++ toString got))

def cmd (line : String) (want : UInt16) : Talk Unit := do
  write_all (utf8 line)
  write_all (utf8 "\r\n")
  expect want

inductive SmtpAuth
  | None
  | Plain (pass : String)
  | Xoauth2 (b64_ir : String)

def rcpt_all : List EmailAddress → Talk Unit
  | [] => pure ()
  | a :: rest => do
    cmd ("RCPT TO:<" ++ a.address ++ ">") 250
    rcpt_all rest

/-- AUTH, for an account that has it. -/
def authenticate (user : String) (auth : SmtpAuth) : Talk Unit :=
  match auth with
  | .None => pure ()
  | .Plain pass =>
    cmd ("AUTH PLAIN " ++ c.standard (utf8 ("\x00" ++ user ++ "\x00" ++ pass))) 235
  | .Xoauth2 b64_ir => cmd ("AUTH XOAUTH2 " ++ b64_ir) 235

def session (ehlo user : String) (auth : SmtpAuth) (draft : Draft) : Talk Unit := do
  cmd ("EHLO " ++ ehlo) 250
  authenticate c user auth
  cmd ("MAIL FROM:<" ++ user ++ ">") 250
  rcpt_all (draft.to_addrs ++ draft.cc)
  if draft.to_addrs ++ draft.cc = [] then
    throw (.InvalidInput "draft has no recipients")
  cmd "DATA" 354
  write_all (utf8 (data_block (build_draft_message c draft user)))
  expect 250
  -- some servers drop without replying
  try cmd "QUIT" 221 catch _ => pure ()

end Message

/-! ## What the other end reads -/

inductive Event
  | command (line : Bytes)
  | message (lines : List Bytes)
deriving DecidableEq

def DATA : Bytes := utf8 "DATA"

/-- The client's bytes, cut at CR LF. -/
def crlf_lines (bytes : Bytes) : List Bytes := cut 13 10 bytes

def sent_lines (bytes : Bytes) : List Bytes := complete 13 10 bytes

def unstuffed (line : Bytes) : Bytes := if line.head? = some 46 then line.tail else line

/-- A server takes commands until DATA, and then the lines of a message until a dot. -/
def hears : Option (List Bytes) → List Bytes → List Event
  | _, [] => []
  | none, line :: rest => .command line :: hears (if line = DATA then some [] else none) rest
  | some got, line :: rest =>
    if line = [46] then .message got :: hears none rest
    else hears (some (got ++ [unstuffed line])) rest

structure Mail where
  fields : List (Bytes × Bytes)
  body : List Bytes
deriving DecidableEq

/-- The name of a field, and its value behind the colon and the blank. -/
def field_of (line : Bytes) : Bytes × Bytes :=
  (line.takeWhile (· ≠ 58), (line.dropWhile (· ≠ 58)).drop 2)

/-- A blank or a tab. -/
def is_fold (b : UInt8) : Bool := b == 32 || b == 9

/-- The header goes up to the first empty line, and its folded fields are unfolded. -/
def read_mail (ls : List Bytes) : Mail :=
  { fields := (unfolded is_fold (ls.takeWhile (· ≠ []))).map field_of
    body := (ls.dropWhile (· ≠ [])).tail }

/-! ## What they should read -/

def reply_fields (in_reply_to : Option String) : List (String × String) :=
  match in_reply_to with
  | some rt => [("In-Reply-To", rt), ("References", rt)]
  | none => []

section Meant
variable (c : Crates)

/-- A subject that is not ASCII stands as an encoded word. -/
def subject_text (subject : String) : String :=
  if is_ascii subject then subject else "=?UTF-8?B?" ++ c.standard (utf8 subject) ++ "?="

def header (d : Draft) (from_addr : String) : List (String × String) :=
  [("From", from_addr), ("To", address_list d.to_addrs)] ++
    (if d.cc.isEmpty then [] else [("Cc", address_list d.cc)]) ++
    [("Subject", subject_text c d.subject)] ++
    reply_fields d.in_reply_to ++
    [("Date", c.date), ("Message-ID", "<" ++ c.uuid ++ "@pai.local>"), ("MIME-Version", "1.0"),
      ("Content-Type", "text/plain; charset=\"UTF-8\"")]

/-- The generated fields with the draft's values, and the lines of the draft's body. -/
def mail_of (d : Draft) (from_addr : String) : Mail :=
  { fields := (header c d from_addr).map fun f => (utf8 f.1, utf8 f.2)
    body := (text_lines d.body.toList).map encode }

def auth_commands (user : String) (auth : SmtpAuth) : List String :=
  match auth with
  | .None => []
  | .Plain pass => ["AUTH PLAIN " ++ c.standard (utf8 ("\x00" ++ user ++ "\x00" ++ pass))]
  | .Xoauth2 b64_ir => ["AUTH XOAUTH2 " ++ b64_ir]

def commands (ehlo user : String) (auth : SmtpAuth) (d : Draft) : List String :=
  ["EHLO " ++ ehlo] ++ auth_commands c user auth ++ ["MAIL FROM:<" ++ user ++ ">"] ++
    (d.to_addrs ++ d.cc).map fun a => "RCPT TO:<" ++ a.address ++ ">"

/-- The server hears the commands of the session alone, and one message, which is the draft's. -/
def Confined (ehlo user : String) (auth : SmtpAuth) (d : Draft) (sent : Bytes) : Prop :=
  ∃ m, hears none (sent_lines sent) =
      (commands c ehlo user auth d).map (fun s => Event.command (utf8 s)) ++
        [.command DATA, .message m, .command (utf8 "QUIT")] ∧
    read_mail m = mail_of c d user

end Meant

def EmailAddress.texts (a : EmailAddress) : List String := a.name.toList ++ [a.address]

/-- The texts of a draft that come to stand in its header as they are. -/
def Draft.texts (d : Draft) (from_addr : String) : List String :=
  from_addr :: (d.to_addrs ++ d.cc).flatMap EmailAddress.texts ++
    (if is_ascii d.subject then [d.subject] else []) ++ d.in_reply_to.toList

end pai_connector_email
