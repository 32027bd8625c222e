-- What one pulled object does to the local store: the apply paths of engine.rs,
-- backup.rs, crdt.rs and circle.rs. Disk and database never fail here.
import PersonalAi.AppRegistry
import PersonalAi.SyncRows

open pai_core sealing table text

namespace pai_sync.engine

/-- The tables and the directories of one device that sync reads and writes, but
for the mirror `sync_objects`: no apply path looks at that. The files under
`data/crdt/` stand with their documents. -/
structure Db where
  rows : (k : RowKind) → Table String (Row k)
  messages : Table String MessageRow
  document_sections : Table String (List SectionRow)
  blobs : List Bytes
  apps : Table String AppRow
  app_backups : Table (String × String) BackupRow
  docs : crdt.Docs
  circles : Table String CircleRow
  sync_peers : List SyncPeer
  app_dirs : Table String AppDir
  paks : Table (String × String) BackupPayload
  circle_keys : Table String Bytes

/-- A new store with these peers. -/
def Db.fresh (peers : List SyncPeer) : Db :=
  { rows := fun _ => ∅, messages := ∅, document_sections := ∅, blobs := [], apps := ∅,
    app_backups := ∅, docs := ∅, circles := ∅, sync_peers := peers,
    app_dirs := ∅, paks := ∅, circle_keys := ∅ }

def Db.row (db : Db) (k : RowKind) (id : String) : Option (Row k) := (db.rows k).lookup id

def Db.set_rows (db : Db) (k : RowKind) (t : Table String (Row k)) : Db :=
  { db with rows := Function.update db.rows k t }

/-- The outcome of an apply path: the store it leaves, and its result. -/
abbrev Applied := Db × Except Error Unit

def done (db : Db) : Applied := (db, .ok ())

def refuse (db : Db) (msg : String) : Applied := (db, .error (.Sync msg))

inductive StageOutcome
  | Installed (signer : DeviceId)
  | Rejected (msg : String)

/-- What stands outside this model: serde's message for a text that is not the
payload expected, the verdict on a staged package (its layout, its manifest and
its signature), from the peers and the id it should have, the text of a restored
document, and the clock. -/
structure Env where
  serde_error : Plain → String
  stage_verdict : List SyncPeer → AppPayload → String → Except Error StageOutcome
  doc_text : Bytes → crdt.DocText
  now_ms : Int

/-! ## Rows -/

/-- `SELECT updated_at >= ?2 … WHERE id=?1`, false without a row. -/
def dominated {k : RowKind} (t : Table String (Row k)) (id : String) (remote : Timestamp) : Bool :=
  match t.lookup id with
  | some row => decide (remote ≤ row.updated_at)
  | none => false

/-- `ON CONFLICT(id) DO UPDATE SET`: the fixed columns and the scope stay. -/
def overwrite {k : RowKind} (old new : Row k) : Row k :=
  { new with fixed := old.fixed, sync_scope := old.sync_scope }

/-- `INSERT … ON CONFLICT(id) DO UPDATE SET …`. -/
def upsert {k : RowKind} (t : Table String (Row k)) (id : String) (new : Row k) :
    Table String (Row k) :=
  match t.lookup id with
  | some old => t.insert id (overwrite old new)
  | none => t.insert id new

/-- The same with `WHERE excluded.updated_at > updated_at`; `set` is what the
update makes of the old row. -/
def upsert_newer {k : RowKind} (set : Row k → Row k → Row k) (t : Table String (Row k))
    (id : String) (new : Row k) : Table String (Row k) :=
  match t.lookup id with
  | some old => if old.updated_at < new.updated_at then t.insert id (set old new) else t
  | none => t.insert id new

/-- `UPDATE … SET deleted=1, updated_at=?2 WHERE id=?1 AND updated_at < ?2`. -/
def bury {k : RowKind} (t : Table String (Row k)) (id : String) (remote : Timestamp) :
    Table String (Row k) :=
  match t.lookup id with
  | some old =>
    if old.updated_at < remote then
      t.insert id { old with deleted := true, updated_at := remote }
    else t
  | none => t

/-- The columns that a payload fills in. -/
def columns_of : (k : RowKind) → k.Body → Option String → k.Columns
  | .memory, b, circle => { b with share_circle := circle }
  | .conversation, b, _ => { title := b.title, memory_scope := b.memory_scope }
  | .document, b, _ =>
    { title := b.title, mime := b.mime, blob := b.blob_b64.elim (fun _ => []) id, trust := b.trust }
  | .task, b, _ => b
  | .workflow, b, _ => b
  | .notification, b, _ => b

/-- The scope of an inserted row: only a conversation brings its own. -/
def scope_of : (k : RowKind) → k.Body → String
  | .conversation, b => b.sync_scope
  | _, _ => "synchronized"

/-- The row that a payload inserts. -/
def row_of {k : RowKind} (p : RowPayload k) (circle : Option String) : Row k :=
  { fixed := p.fixed, columns := columns_of k p.body circle, sync_scope := scope_of k p.body,
    updated_at := p.updated_at, deleted := false }

def unsupported (v : Nat) : String := "unsupported payload v" ++ toString v

def apply_memory (db : Db) (p : RowPayload .memory) (circle : Option String) : Applied :=
  if p.v ≠ 1 then refuse db (unsupported p.v)
  else if dominated (db.rows .memory) p.id p.updated_at then done db
  else done (db.set_rows .memory (upsert (db.rows .memory) p.id (row_of p circle)))

def apply_tombstone (db : Db) (id : String) (remote_updated : Timestamp) : Applied :=
  done (db.set_rows .memory (bury (db.rows .memory) id remote_updated))

/-- The session row that this stubs is read by nothing here. -/
def apply_conversation (db : Db) (p : RowPayload .conversation) : Applied :=
  if p.v ≠ 1 then refuse db (unsupported p.v)
  else
    done (db.set_rows .conversation (upsert_newer
      (fun old new => { overwrite old new with sync_scope := new.sync_scope })
      (db.rows .conversation) p.id (row_of p none)))

/-- Mark it deleted and drop its messages. -/
def apply_conv_tombstone (db : Db) (id : String) (remote_updated : Timestamp) : Applied :=
  let db := db.set_rows .conversation (bury (db.rows .conversation) id remote_updated)
  done { db with messages := retain (fun _ m => decide (m.conversation_id ≠ id)) db.messages }

/-- The parts of `apply_task`, `apply_workflow` and `apply_notification`. -/
def apply_newer (k : RowKind) (db : Db) (p : RowPayload k) : Applied :=
  if p.v ≠ 1 then refuse db (unsupported p.v)
  else done (db.set_rows k (upsert_newer overwrite (db.rows k) p.id (row_of p none)))

def apply_task (db : Db) (p : RowPayload .task) : Applied := apply_newer .task db p

def apply_workflow (db : Db) (p : RowPayload .workflow) : Applied := apply_newer .workflow db p

def apply_notification (db : Db) (p : RowPayload .notification) : Applied :=
  apply_newer .notification db p

def apply_task_tombstone (db : Db) (id : String) (remote_updated : Timestamp) : Applied :=
  done (db.set_rows .task (bury (db.rows .task) id remote_updated))

def apply_wf_tombstone (db : Db) (id : String) (remote_updated : Timestamp) : Applied :=
  done (db.set_rows .workflow (bury (db.rows .workflow) id remote_updated))

def apply_ntf_tombstone (db : Db) (id : String) (remote_updated : Timestamp) : Applied :=
  done (db.set_rows .notification (bury (db.rows .notification) id remote_updated))

def put_blob (db : Db) (bytes : Bytes) : Db :=
  if bytes ∈ db.blobs then db else { db with blobs := bytes :: db.blobs }

/-- A section as the payload brings it: its page and heading stay behind. -/
def section_row (s : DocSection) : SectionRow := { s with page := none, heading := none }

def apply_document (db : Db) (p : RowPayload .document) : Applied :=
  if p.v ≠ 1 then refuse db (unsupported p.v)
  else if dominated (db.rows .document) p.id p.updated_at then done db
  else
    match p.body.blob_b64 with
    | .inl e => refuse db ("bad document blob: " ++ e)
    | .inr bytes =>
      let db := put_blob db bytes
      let db := db.set_rows .document
        (upsert_newer overwrite (db.rows .document) p.id (row_of p none))
      done { db with document_sections :=
        db.document_sections.insert p.id (p.body.sections.map section_row) }

/-- Drop the sections, keep the row. -/
def apply_doc_tombstone (db : Db) (id : String) (remote_updated : Timestamp) : Applied :=
  let db := { db with document_sections := db.document_sections.erase id }
  done (db.set_rows .document (bury (db.rows .document) id remote_updated))

/-- Messages only land under a live conversation, and the first one stays. -/
def apply_message (db : Db) (p : MessagePayload) : Applied :=
  if p.v ≠ 1 then refuse db (unsupported p.v)
  else
    match db.row .conversation p.conversation_id with
    | none => done db
    | some c =>
      if c.deleted then done db
      else if (db.messages.lookup p.id).isSome then done db
      else done { db with messages := db.messages.insert p.id p.toMessageRow }

/-! ## Apps and their backups -/

/-- The files of a package take the place of the old ones; `data/` and
`auth.json` stay. -/
def install_trusted (db : Db) (app_id : String) (p : AppPayload) : Db :=
  let old := db.app_dirs.lookup app_id
  let dir : AppDir :=
    { files := p.files, signature := p.signature_b64, auth := old.bind AppDir.auth,
      data := old.bind AppDir.data }
  { db with app_dirs := db.app_dirs.insert app_id dir }

def stage_verify_install (env : Env) (db : Db) (p : AppPayload) (expect_id : String) :
    Db × Except Error StageOutcome :=
  match env.stage_verdict db.sync_peers p expect_id with
  | .ok (.Installed signer) => (install_trusted db expect_id p, .ok (.Installed signer))
  | verdict => (db, verdict)

/-- Change the directory of an app, if there is one. -/
def edit_dir (db : Db) (app_id : String) (f : AppDir → AppDir) : Db :=
  match db.app_dirs.lookup app_id with
  | some dir => { db with app_dirs := db.app_dirs.insert app_id (f dir) }
  | none => db

/-- The document files of an app are these, and no others. -/
def set_doc_files (docs : crdt.Docs) (app_id : String) (files : List (String × crdt.DocFile)) :
    crdt.Docs :=
  let bare := docs.entries.foldl (fun docs e =>
    if e.1.1 = app_id then docs.insert e.1 { e.2 with file := none } else docs) docs
  files.foldl (fun docs f =>
    docs.insert (app_id, f.1) { crdt.doc_of docs app_id f.1 with file := some f.2 }) bare

/-- `data/` is moved aside. -/
def deactivate_data (db : Db) (app_id : String) : Db :=
  let db := edit_dir db app_id (fun dir => { dir with data := none })
  { db with docs := set_doc_files db.docs app_id [] }

def save_auth (db : Db) (app_id : String) (auth : Option String) : Db :=
  match auth with
  | some text => edit_dir db app_id (fun dir => { dir with auth := some text })
  | none => db

def app_row (p : AppPayload) (active_device : Option String) : AppRow :=
  { name := p.name, version := p.version, runtime := p.runtime, updated_at := p.updated_at,
    deleted := false, active_device := active_device }

/-- The documents whose cells arrived before the package land now; one that does
not merge ends the loop, and is only warned about. -/
def land_docs (env : Env) (db : Db) (app_id : String) : Db :=
  let names := crdt.docs_of db.docs app_id
    (fun _ d => d.cells.entries.any (fun e => !e.2.entries.isEmpty))
  { db with docs := crdt.materialize_all env.now_ms db.docs app_id names }

def apply_app (env : Env) (me : DeviceId) (db : Db) (p : AppPayload) : Applied :=
  if p.v ≠ 1 then refuse db ("unsupported app payload v" ++ toString p.v)
  else
    match stage_verify_install env db p p.id with
    | (db, .error e) => (db, .error e)
    | (db, .ok (.Rejected _)) => done db
    | (db, .ok (.Installed _)) =>
      let db := { db with apps := db.apps.insert p.id (app_row p p.active_device) }
      let elsewhere := match p.active_device with
        | some active => decide (active ≠ me.to_string)
        | none => false
      let db := if elsewhere then deactivate_data db p.id else db
      done (save_auth (land_docs env db p.id) p.id p.auth)

/-- `AppRegistry::remove`; its errors are dropped. -/
def remove_app_dir (db : Db) (id : String) : Db :=
  match pai_apps.check_app_id id with
  | .ok () =>
    { db with app_dirs := db.app_dirs.erase id, docs := set_doc_files db.docs id [] }
  | .error _ => db

def apply_app_tombstone (db : Db) (id : String) (updated_at : Timestamp) : Applied :=
  let db := match db.apps.lookup id with
    | some row =>
      { db with apps := db.apps.insert id { row with deleted := true, updated_at := updated_at } }
    | none => db
  done (remove_app_dir db id)

def is_paired (db : Db) (writer : String) : Bool :=
  db.sync_peers.any (fun p => decide (p.device_id.to_string = writer))

def decode_files : List AppFileEntry → Except Error (List (String × Bytes))
  | [] => .ok []
  | f :: rest =>
    match f.b64 with
    | .inl e => .error (.Sync ("bad backup file b64: " ++ e))
    | .inr bytes => (decode_files rest).map (fun files => (f.path, bytes) :: files)

def app_error : pai_apps.AppError → String
  | .Manifest msg => "manifest.toml: " ++ msg
  | .Layout msg => "package layout: " ++ msg
  | .Storage msg => "storage provisioning: " ++ msg
  | .Io msg => "io: " ++ msg
  | .BadSignature msg => "signature verification failed: " ++ msg
  | .NotSigned => "signature.bin missing — package is not signed"
  | .NoManifest _ => "manifest.toml not found"
  | .Core e => "core: " ++ e.to_string

/-- The document that a file of `data/` holds. -/
def doc_of_path (path : String) : Option String :=
  ( strip_prefix "crdt/" path).bind (fun rest =>
    ( strip_prefix "nosj." (String.ofList rest.toList.reverse)).bind (fun name =>
      if '/' ∈ name.toList then none else some (String.ofList name.toList.reverse)))

def restored_docs (env : Env) (decoded : List (String × Bytes)) : List (String × crdt.DocFile) :=
  decoded.filterMap (fun f => (doc_of_path f.1).map (fun name =>
    (name, { text := env.doc_text f.2, mtime_ms := env.now_ms })))

/-- Replace `data/` by the files of a backup. -/
def restore_data (env : Env) (db : Db) (app_id : String) (files : List AppFileEntry)
    (decoded : List (String × Bytes)) : Applied :=
  match pai_apps.check_app_id app_id, pai_apps.check_all (decoded.map Prod.fst) with
  | .error e, _ => refuse db ("restore data: " ++ app_error e)
  | .ok (), .error e => refuse db ("restore data: " ++ app_error e)
  | .ok (), .ok () =>
    if (db.app_dirs.lookup app_id).isSome then
      let db := edit_dir db app_id (fun dir => { dir with data := some files })
      done { db with docs := set_doc_files db.docs app_id (restored_docs env decoded) }
    else refuse db ("restore data: package layout: app " ++ app_id ++ " not installed")

/-- An existing row keeps its placement. -/
def restored_row (apps : Table String AppRow) (app_id : String) (p : AppPayload) : AppRow :=
  match apps.lookup app_id with
  | some old => app_row p old.active_device
  | none => app_row p p.active_device

/-- Restore from the backup of one writer; a full device id selects that one. -/
def restore_unchecked (env : Env) (db : Db) (app_id writer : String) : Applied :=
  match (db.app_backups.lookup (app_id, writer)).filter (fun row => !row.deleted),
    db.paks.lookup (app_id, writer) with
  | none, _ => (db, .error (.NotFound ("no backup for " ++ app_id)))
  | some _, none => (db, .error (.Storage "No such file or directory (os error 2)"))
  | some _, some p =>
    if p.v ≠ 1 then refuse db ("unsupported backup v" ++ toString p.v)
    else if p.app_id ≠ app_id then
      refuse db ("backup app mismatch: row says " ++ app_id ++ ", payload says " ++ p.app_id)
    else
      match stage_verify_install env db p.package app_id with
      | (db, .error e) => (db, .error e)
      | (db, .ok (.Rejected e)) => refuse db ("backup package failed verification: " ++ e)
      | (db, .ok (.Installed _)) =>
        let db := save_auth db app_id p.package.auth
        let db := { db with apps := db.apps.insert app_id (restored_row db.apps app_id p.package) }
        match decode_files p.data_files with
        | .error e => (db, .error e)
        | .ok decoded => restore_data env db app_id p.data_files decoded

/-- Store a received pak; one that names this device as the new home of the app
is restored, and a restore that fails is only warned about. -/
def apply_backup (env : Env) (me : DeviceId) (db : Db) (app_id writer : String)
    (obj_writer : DeviceId) (p : BackupPayload) : Applied :=
  if p.v ≠ 1 then refuse db ("unsupported backup v" ++ toString p.v)
  else if p.app_id ≠ app_id ∨ p.writer ≠ writer ∨ obj_writer.to_string ≠ writer then done db
  else if !is_paired db writer then done db
  else
    match pai_apps.check_all [app_id, writer] with
    | .error e => refuse db ("backup path: " ++ app_error e)
    | .ok () =>
      let row : BackupRow :=
        { created_at := p.created_at, pushed_at := some p.created_at, deleted := false }
      let db :=
        { db with paks := db.paks.insert (app_id, writer) p,
                  app_backups := db.app_backups.insert (app_id, writer) row }
      if p.migrate_to = some me.to_string then done (restore_unchecked env db app_id writer).1
      else done db

/-- Drop the pak and mark its row deleted. -/
def apply_backup_tombstone (db : Db) (app_id writer : String) : Applied :=
  let app_backups := match db.app_backups.lookup (app_id, writer) with
    | some row => db.app_backups.insert (app_id, writer) { row with deleted := true }
    | none => db.app_backups
  done { db with app_backups := app_backups, paks := db.paks.erase (app_id, writer) }

/-! ## CRDT documents -/

def installed (db : Db) (app_id : String) : Bool := (db.app_dirs.lookup app_id).isSome

/-- Replace the cells of a writer, and write the merged document. -/
def replace_and_materialize (env : Env) (db : Db) (app_id doc writer : String)
    (fields : crdt.Fields) : Applied :=
  let (d, result) := crdt.replace_and_materialize (installed db app_id) env.now_ms
    (crdt.doc_of db.docs app_id doc) writer fields
  ({ db with docs := db.docs.insert (app_id, doc) d }, result)

def apply_crdt (env : Env) (db : Db) (app_id doc writer : String) (obj : Object) (raw : Plain) :
    Applied :=
  if obj.writer.to_string ≠ writer then done db
  else if !is_paired db writer then done db
  else if obj.tombstone then replace_and_materialize env db app_id doc writer sorted_map.empty
  else
    match raw with
    | .crdt p =>
      if p.v ≠ 1 ∨ p.app ≠ app_id ∨ p.doc ≠ doc ∨ p.writer ≠ writer then done db
      else replace_and_materialize env db app_id doc writer p.fields
    | _ => refuse db ("bad crdt payload: " ++ env.serde_error raw)

/-! ## Circles -/

def adopt_circle_key (db : Db) (name : String) (key : Bytes) : Applied :=
  match db.circle_keys.lookup name with
  | some existing =>
    if existing = key then done db
    else refuse db ("circle '" ++ name ++ "' key conflict — leave the circle before re-joining")
  | none => done { db with circle_keys := db.circle_keys.insert name key }

def record_membership (db : Db) (name : String) (by_ : String) : Db :=
  match db.circles.lookup name with
  | some row => { db with circles := db.circles.insert name { row with deleted := false } }
  | none => { db with circles := db.circles.insert name { created_by := by_, deleted := false } }

def apply_grant (db : Db) (g : CircleGrant) : Applied :=
  if g.v ≠ 1 then refuse db ("unsupported grant v" ++ toString g.v)
  else
    match hex_decode g.key with
    | .error e => refuse db ("bad circle grant key: " ++ e.to_string)
    | .ok key =>
      if key.length ≠ 32 then refuse db "circle grant key wrong length"
      else
        match adopt_circle_key db g.circle key with
        | (db, .error e) => (db, .error e)
        | (db, .ok ()) => done (record_membership db g.circle g.sender)

/-! ## Dispatch -/

def RowKind.noun : RowKind → String
  | .memory => "memory"
  | .conversation => "conversation"
  | .document => "document"
  | .task => "task"
  | .workflow => "workflow"
  | .notification => "notification"

def apply_row_tombstone : RowKind → Db → String → Timestamp → Applied
  | .memory => apply_tombstone
  | .conversation => apply_conv_tombstone
  | .document => apply_doc_tombstone
  | .task => apply_task_tombstone
  | .workflow => apply_wf_tombstone
  | .notification => apply_ntf_tombstone

def apply_row : (k : RowKind) → Db → RowPayload k → Option String → Applied
  | .memory, db, p, circle => apply_memory db p circle
  | .conversation, db, p, _ => apply_conversation db p
  | .document, db, p, _ => apply_document db p
  | .task, db, p, _ => apply_task db p
  | .workflow, db, p, _ => apply_workflow db p
  | .notification, db, p, _ => apply_notification db p

/-- A float that is neither infinite nor a NaN, by its bits. -/
def finite (bits : UInt32) : Bool := decide (bits.toNat / 2 ^ 23 % 256 ≠ 255)

/-- serde writes any other float as `null`, and reads no float from that. -/
def reads_back : (k : RowKind) → k.Body → Bool
  | .memory, b => finite b.confidence && finite b.importance && (b.embedding.getD []).all finite
  | _, _ => true

/-- The payload of a kind, if the text is one. -/
def Plain.as_row (k : RowKind) : Plain → Option (RowPayload k)
  | .row k' p =>
    if h : k' = k then
      if reads_back k' p.body then some (h ▸ p) else none
    else none
  | _ => none

/-- Dispatch one opened object; `circle` is the circle whose key opened it. -/
def apply_obj (env : Env) (me : DeviceId) (db : Db) (obj : Object) (raw : Plain)
    (circle : Option String) : Applied :=
  match parse_key obj.key with
  | .row k id =>
    if obj.tombstone then apply_row_tombstone k db id obj.updated_at
    else
      match raw.as_row k with
      | some p => apply_row k db p circle
      | none => refuse db ("bad " ++ k.noun ++ " payload: " ++ env.serde_error raw)
  | .app id =>
    if obj.tombstone then apply_app_tombstone db id obj.updated_at
    else
      match raw with
      | .app p => apply_app env me db p
      | _ => refuse db ("bad app payload: " ++ env.serde_error raw)
  | .backup rest =>
    match split_once '/' rest.toList with
    | none => done db
    | some (app_id, writer) =>
      if obj.tombstone then
        apply_backup_tombstone db (String.ofList app_id) (String.ofList writer)
      else
        match raw with
        | .backup p =>
          apply_backup env me db (String.ofList app_id) (String.ofList writer) obj.writer p
        | _ => refuse db ("bad backup payload: " ++ env.serde_error raw)
  | .crdt rest =>
    match rest.splitOn "/" with
    | [app_id, doc, writer] => apply_crdt env db app_id doc writer obj raw
    | _ => done db
  | .message _ =>
    if obj.tombstone then done db
    else
      match raw with
      | .message p => apply_message db p
      | _ => refuse db ("bad message payload: " ++ env.serde_error raw)
  | .other => done db

end pai_sync.engine
