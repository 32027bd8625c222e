-- What the sync engine moves (engine.rs, backup.rs, circle.rs, with the tables of
-- pai-storage): the rows, the plaintexts they travel as, and the object keys.
import Mathlib.Logic.Function.Basic
import PersonalAi.CrdtDocs
import PersonalAi.Lib.Chars
import PersonalAi.VaultRotation

open pai_core sealing table

namespace pai_sync.engine

open text

/-- Millis version of an instant: the rule that every kind uses. -/
def version_of (updated : Timestamp) : Nat := max (timestamp_millis updated) 1

/-! ## Last-writer-wins rows

A row is cut in three. `fixed` are the columns that an upsert leaves as they
are, `columns` those that it takes over, and the rest is sync metadata.
`updated_at` is what `COALESCE(updated_at, created_at)` reads. A JSON list or a
list of floats stands for the column that holds its text or bytes, a float for
its bits. -/

inductive RowKind
  | memory | conversation | document | task | workflow | notification
deriving DecidableEq, Repr

structure MemoryFixed where
  created_at : Timestamp
deriving DecidableEq

structure MemoryBody where
  scope : String
  content : String
  source : String
  confidence : UInt32
  importance : UInt32
  privacy : String
  entities : List String
  embedding : Option (List UInt32)
  conversation_id : Option String
deriving DecidableEq

structure MemoryColumns extends MemoryBody where
  share_circle : Option String
deriving DecidableEq

structure ConversationFixed where
  session_id : String
  created_at : Timestamp
deriving DecidableEq

structure ConversationBody where
  title : Option String
  sync_scope : String
  memory_scope : String
deriving DecidableEq

structure ConversationColumns where
  title : Option String
  memory_scope : String
deriving DecidableEq

/-- One section inside a synced document. -/
structure DocSection where
  section_ : Int
  text : String
  embedding : Option Bytes
deriving DecidableEq

structure DocumentFixed where
  created_at : Timestamp
deriving DecidableEq

/-- `blob_b64` is what the base64 text decodes to, or the decoder's message. -/
structure DocumentBody where
  title : Option String
  mime : String
  blob_b64 : String ⊕ Bytes
  trust : String
  sections : List DocSection
deriving DecidableEq

/-- Blobs are content-addressed: `blob` is the content that the column names. -/
structure DocumentColumns where
  title : Option String
  mime : String
  blob : Bytes
  trust : String
deriving DecidableEq

structure TaskFixed where
  agent_id : String
  created_at : Timestamp
deriving DecidableEq

structure TaskBody where
  title : String
  run_at : Option String
  state : String
  trigger_json : String
  payload_json : String
  result_json : Option String
  claimed_by : Option String
  lease_expires_at : Option String
deriving DecidableEq

structure WorkflowFixed where
  created_at : Timestamp
deriving DecidableEq

structure WorkflowBody where
  name : String
  definition_json : String
deriving DecidableEq

structure NotificationFixed where
  source : String
  channel : String
  created_at : Timestamp
deriving DecidableEq

structure NotificationBody where
  title : String
  body : String
  read_at : Option String
deriving DecidableEq

abbrev RowKind.Fixed : RowKind → Type
  | .memory => MemoryFixed
  | .conversation => ConversationFixed
  | .document => DocumentFixed
  | .task => TaskFixed
  | .workflow => WorkflowFixed
  | .notification => NotificationFixed

/-- What the payload of a kind carries besides the fixed columns. -/
abbrev RowKind.Body : RowKind → Type
  | .memory => MemoryBody
  | .conversation => ConversationBody
  | .document => DocumentBody
  | .task => TaskBody
  | .workflow => WorkflowBody
  | .notification => NotificationBody

abbrev RowKind.Columns : RowKind → Type
  | .memory => MemoryColumns
  | .conversation => ConversationColumns
  | .document => DocumentColumns
  | .task => TaskBody
  | .workflow => WorkflowBody
  | .notification => NotificationBody

instance (k : RowKind) : DecidableEq k.Fixed :=
  match k with
  | .memory => inferInstanceAs (DecidableEq MemoryFixed)
  | .conversation => inferInstanceAs (DecidableEq ConversationFixed)
  | .document => inferInstanceAs (DecidableEq DocumentFixed)
  | .task => inferInstanceAs (DecidableEq TaskFixed)
  | .workflow => inferInstanceAs (DecidableEq WorkflowFixed)
  | .notification => inferInstanceAs (DecidableEq NotificationFixed)

instance (k : RowKind) : DecidableEq k.Body :=
  match k with
  | .memory => inferInstanceAs (DecidableEq MemoryBody)
  | .conversation => inferInstanceAs (DecidableEq ConversationBody)
  | .document => inferInstanceAs (DecidableEq DocumentBody)
  | .task => inferInstanceAs (DecidableEq TaskBody)
  | .workflow => inferInstanceAs (DecidableEq WorkflowBody)
  | .notification => inferInstanceAs (DecidableEq NotificationBody)

instance (k : RowKind) : DecidableEq k.Columns :=
  match k with
  | .memory => inferInstanceAs (DecidableEq MemoryColumns)
  | .conversation => inferInstanceAs (DecidableEq ConversationColumns)
  | .document => inferInstanceAs (DecidableEq DocumentColumns)
  | .task => inferInstanceAs (DecidableEq TaskBody)
  | .workflow => inferInstanceAs (DecidableEq WorkflowBody)
  | .notification => inferInstanceAs (DecidableEq NotificationBody)

structure Row (k : RowKind) where
  fixed : k.Fixed
  columns : k.Columns
  sync_scope : String
  updated_at : Timestamp
  deleted : Bool
deriving DecidableEq

/-- Versioned plaintext of one row of a kind. -/
structure RowPayload (k : RowKind) where
  v : Nat
  id : String
  fixed : k.Fixed
  body : k.Body
  updated_at : Timestamp
deriving DecidableEq

/-! ## The other tables -/

structure MessageRow where
  conversation_id : String
  role : String
  trust : String
  created_at : Timestamp
  content_json : String
deriving DecidableEq

/-- Versioned plaintext of one message row. -/
structure MessagePayload extends MessageRow where
  v : Nat
  id : String
deriving DecidableEq

/-- A row of `document_sections`, under its document. -/
structure SectionRow extends DocSection where
  page : Option Int
  heading : Option String
deriving DecidableEq

/-- One file, its base64 as what it decodes to or the decoder's message. -/
structure AppFileEntry where
  path : String
  b64 : String ⊕ Bytes
deriving DecidableEq

/-- Versioned plaintext of one app package; `auth` is the text of `auth.json`. -/
structure AppPayload where
  v : Nat
  id : String
  name : String
  version : String
  runtime : String
  updated_at : Timestamp
  signature_b64 : String ⊕ Bytes
  files : List AppFileEntry
  active_device : Option String
  auth : Option String
deriving DecidableEq

structure AppRow where
  name : String
  version : String
  runtime : String
  updated_at : Timestamp
  deleted : Bool
  active_device : Option String
deriving DecidableEq

/-- The directory `apps/<id>`: the package and what the app keeps beside it. -/
structure AppDir where
  files : List AppFileEntry
  signature : String ⊕ Bytes
  auth : Option String
  data : Option (List AppFileEntry)
deriving DecidableEq

structure BackupPayload where
  v : Nat
  app_id : String
  writer : String
  created_at : Timestamp
  package : AppPayload
  data_files : List AppFileEntry
  migrate_to : Option String
deriving DecidableEq

/-- A row of `app_backups`; its `path` is always that of the pak of its key. -/
structure BackupRow where
  created_at : Timestamp
  pushed_at : Option Timestamp
  deleted : Bool
deriving DecidableEq

/-- The payload of an `acrdt` object: the complete field-set of its writer. -/
structure CrdtDocPayload where
  v : Nat
  app : String
  doc : String
  writer : String
  fields : crdt.Fields
  updated_at : Timestamp
deriving DecidableEq

/-- Grant payload inside a `ckg/<circle>/<device>` object; `key` is hex. -/
structure CircleGrant where
  v : Nat
  circle : String
  key : String
  sender : String
deriving DecidableEq

structure CircleRow where
  created_by : String
  deleted : Bool
deriving DecidableEq

/-! ## Objects -/

/-- What an opened object holds. `text` is any other text. -/
inductive Plain
  | empty
  | row (k : RowKind) (p : RowPayload k)
  | message (p : MessagePayload)
  | app (p : AppPayload)
  | backup (p : BackupPayload)
  | crdt (p : CrdtDocPayload)
  | grant (g : CircleGrant)
  | text (raw : String)
deriving DecidableEq

/-- The keys that objects are sealed under. -/
inductive SealKey
  | vault (key : VaultKey)
  | circle (key : Bytes)
  | peer (key : WrapKey)
deriving DecidableEq

abbrev Object := SyncObject (Blob SealKey String Plain)

/-- What `list` says of an object. -/
structure SyncObjectMeta where
  key : String
  version : Nat
  writer : DeviceId
  updated_at : Timestamp
  tombstone : Bool
deriving DecidableEq

def header (o : Object) : SyncObjectMeta :=
  { key := o.key, version := o.version, writer := o.writer, updated_at := o.updated_at,
    tombstone := o.tombstone }

/-! ## Object keys -/

def CONV_PREFIX : String := "conv/"
def MSG_PREFIX : String := "msg/"
def DOC_PREFIX : String := "doc/"
def TASK_PREFIX : String := "task/"
def WF_PREFIX : String := "wf/"
def NTF_PREFIX : String := "ntf/"
def MEMORY_PREFIX : String := "memory/"
def CKG_PREFIX : String := "ckg/"
def APP_PREFIX : String := "app/"
def BKP_PREFIX : String := "bkp/"
def ACRDT_PREFIX : String := "acrdt/"

def RowKind.PREFIX : RowKind → String
  | .memory => MEMORY_PREFIX
  | .conversation => CONV_PREFIX
  | .document => DOC_PREFIX
  | .task => TASK_PREFIX
  | .workflow => WF_PREFIX
  | .notification => NTF_PREFIX

/-- The branches of `apply_obj`, each with what is left of the key. -/
inductive ObjectKey
  | row (k : RowKind) (id : String)
  | app (id : String)
  | backup (rest : String)
  | crdt (rest : String)
  | message (id : String)
  | other
deriving DecidableEq

/-- The chain of `strip_prefix` in `apply_obj`. -/
def branches : List (String × (String → ObjectKey)) :=
  [(MEMORY_PREFIX, .row .memory), (CONV_PREFIX, .row .conversation), (DOC_PREFIX, .row .document),
    (TASK_PREFIX, .row .task), (WF_PREFIX, .row .workflow), (NTF_PREFIX, .row .notification),
    (APP_PREFIX, .app), (BKP_PREFIX, .backup), (ACRDT_PREFIX, .crdt), (MSG_PREFIX, .message)]

def parse_key (key : String) : ObjectKey :=
  (branches.findSome? (fun b => ( strip_prefix b.1 key).map b.2)).getD .other

/-- Apply order on pull: conversations before their messages, grants first. -/
def kind_rank (key : String) : Option Nat :=
  match first_part '/' key with
  | "ckg" => some 0
  | "conv" => some 1
  | "msg" => some 2
  | "doc" => some 3
  | "task" => some 4
  | "wf" => some 5
  | "memory" => some 6
  | "ntf" => some 7
  | "app" => some 8
  | "bkp" => some 9
  | "acrdt" => some 10
  | _ => none

/-- The text of a key that a branch is for. -/
def ObjectKey.Names : ObjectKey → String → Prop
  | .row k id, s => s = k.PREFIX ++ id
  | .app id, s => s = APP_PREFIX ++ id
  | .backup rest, s => s = BKP_PREFIX ++ rest
  | .crdt rest, s => s = ACRDT_PREFIX ++ rest
  | .message id, s => s = MSG_PREFIX ++ id
  | .other, _ => True

theorem names_parse_key (key : String) : (parse_key key).Names key := by
  unfold parse_key
  rcases h : branches.findSome? _ with _ | found
  · trivial
  · obtain ⟨b, hb, hfound⟩ := List.exists_of_findSome?_eq_some h
    obtain ⟨rest, hrest, rfl⟩ := Option.map_eq_some_iff.mp hfound
    rw [strip_prefix_eq_some.mp hrest]
    have each : ∀ b ∈ branches, (b.2 rest).Names (b.1 ++ rest) := by
      simp [branches, ObjectKey.Names, RowKind.PREFIX]
    exact each b hb

@[simp] theorem parse_row (k : RowKind) (id : String) : parse_key (k.PREFIX ++ id) = .row k id := by
  cases k <;>
  · unfold parse_key branches RowKind.PREFIX
    simp (disch := decide) [List.findSome?, strip_prefix_other]

@[simp] theorem parse_message (id : String) : parse_key (MSG_PREFIX ++ id) = .message id := by
  unfold parse_key branches
  simp (disch := decide) [List.findSome?, strip_prefix_other]

@[simp] theorem parse_app (id : String) : parse_key (APP_PREFIX ++ id) = .app id := by
  unfold parse_key branches
  simp (disch := decide) [List.findSome?, strip_prefix_other]

@[simp] theorem parse_backup (rest : String) : parse_key (BKP_PREFIX ++ rest) = .backup rest := by
  unfold parse_key branches
  simp (disch := decide) [List.findSome?, strip_prefix_other]

@[simp] theorem parse_crdt (rest : String) : parse_key (ACRDT_PREFIX ++ rest) = .crdt rest := by
  unfold parse_key branches
  simp (disch := decide) [List.findSome?, strip_prefix_other]

def RowKind.rank : RowKind → Nat
  | .memory => 6
  | .conversation => 1
  | .document => 3
  | .task => 4
  | .workflow => 5
  | .notification => 7

theorem kind_rank_row (k : RowKind) (id : String) : kind_rank (k.PREFIX ++ id) = some k.rank := by
  cases k <;>
  · unfold kind_rank first_part
    rw [String.toList_append]
    rfl

theorem kind_rank_message (id : String) : kind_rank (MSG_PREFIX ++ id) = some 2 := by
  unfold kind_rank first_part
  rw [String.toList_append]
  rfl

end pai_sync.engine
