-- What the sync does to files: a staged package and its installation (engine.rs), a backup that
-- is received or restored (backup.rs), and the file of a document (crdt.rs). The file system is a
-- parameter; the store never fails.
import PersonalAi.RegistryConfinement
import PersonalAi.SyncApply

open pai_core pai_apps paths program sealing table text json

namespace pai_sync.files

open engine (Db StageOutcome AppPayload AppFileEntry BackupPayload Object Plain app_error restored_row)

/-- What stands around the sync code: the file system, `AppPackage::load` up to the check of its
manifest, the signer that `verify_any_key` finds among these keys, the local device keys, and
serde's readers, writers and messages. -/
structure Host (W : Type) where
  fs : FileSystem W
  load : Path → W → Except AppError AppPackage
  verify_any_key : AppPackage → List (DeviceId × EdKey) → W → Except AppError DeviceId
  devices : List (DeviceId × EdKey)
  read_pak : Bytes → Except String BackupPayload
  pak_bytes : BackupPayload → Bytes
  doc_bytes : sorted_map.SortedMap String json.Value → Bytes
  serde_error : Plain → String

/-- A disk and a store; of the store's tables `app_dirs` and `paks` stand on the disk. -/
abbrev Site (W : Type) := W × Db

/-- The name of a staging directory. -/
structure Staging where
  uuid : String
  is_name : IsName (".staging-" ++ uuid)

section Programs
variable {W : Type} (h : Host W)

/-- The file system beside a store. -/
def Host.disk : FileSystem (Site W) where
  path_exists p s := h.fs.path_exists p s.1
  is_dir p s := h.fs.is_dir p s.1
  is_file p s := h.fs.is_file p s.1
  read p s := h.fs.read p s.1
  read_dir p s := h.fs.read_dir p s.1
  call op s := let (r, w) := h.fs.call op s.1; (r, (w, s.2))
  batch_paths := h.fs.batch_paths

abbrev Sync (W α : Type) := Prog (Site W) FsOp Error α

def store_err : AppError → Error
  | .Io msg => .Storage msg
  | e => .Storage (app_error e)

def io {α : Type} (p : Fs (Site W) α) : Sync W α := program.map_err store_err p

/-- An error of the registry under the words of the sync. -/
def context {α : Type} (words : String) (p : Fs (Site W) α) : Sync W α :=
  program.map_err (fun e => .Sync (words ++ ": " ++ app_error e)) p

def decoded (words : String) (b64 : String ⊕ Bytes) : Sync W Bytes :=
  match b64 with
  | .inl e => fail (.Sync (words ++ ": " ++ e))
  | .inr bytes => pure bytes

def set_store (f : Db → Db) : Sync W Unit := consult (fun s => (.ok (), (s.1, f s.2)))

/-- What an attempt gave, as its own outcome. -/
def outcome {α : Type} (r : Except Error α) : Sync W α :=
  match r with
  | .ok a => pure a
  | .error e => fail e

/-! ## Packages -/

def stage_file (stage : Path) (f : AppFileEntry) : Sync W Unit := do
  context "app file path" (demand (fun _ => check_rel_path f.path))
  let file := join stage f.path
  io (run h.disk (.create_dir_all (parent file)))
  let bytes ← decoded "bad app file b64" f.b64
  io (write_below h.disk stage f.path bytes)

def stage_files (stage : Path) (p : AppPayload) : Sync W Unit := do
  let sig ← decoded "bad app signature b64" p.signature_b64
  io (run h.disk (.write (join stage "signature.bin") sig))
  forEach p.files (stage_file h stage)

/-- The keys that a package may be signed with: those of the local devices and of all peers. -/
def candidates (db : Db) : List (DeviceId × EdKey) :=
  h.devices ++ db.sync_peers.map (fun p => (p.device_id, p.ed_pubkey))

def verify_and_install (reg : AppRegistry) (stage : Path) (expect_id : String) :
    Sync W StageOutcome := do
  let pkg ← context "bad synced package" (demand (fun s => h.load stage s.1))
  context "bad synced package" (demand (fun _ => pkg.manifest.validate))
  if pkg.manifest.app_id ≠ expect_id then
    fail (.Sync ("app id mismatch: key says " ++ expect_id ++ ", manifest says " ++
      pkg.manifest.app_id))
  else
    match ← ask (fun s => h.verify_any_key pkg (candidates h s.2) s.1) with
    | .error e => return .Rejected (app_error e)
    | .ok signer => do
      let _ ← context "app install" (reg.install_trusted h.disk pkg true)
      return .Installed signer

def stage_verify_install (reg : AppRegistry) (staging : Staging) (p : AppPayload)
    (expect_id : String) : Sync W StageOutcome := do
  let stage := join reg.root (".staging-" ++ staging.uuid)
  io (run h.disk (.create_dir_all stage))
  let staged ← attempt (stage_files h stage p)
  let result ← attempt (do
    outcome staged
    verify_and_install h reg stage expect_id)
  ignore (io (run h.disk (.remove_dir_all stage)))
  outcome result

/-! ## Backups -/

def data_dir (reg : AppRegistry) : Path := reg.data_dir.map FileName.text

def pak_path (reg : AppRegistry) (app_id writer : String) : Path :=
  join (data_dir reg) ("backups/" ++ app_id ++ "/" ++ writer ++ ".pak")

/-- `AppAuth::save`. -/
def save_auth (reg : AppRegistry) (app_id : String) (auth : String) : Fs (Site W) Unit := do
  let dir := join reg.root app_id
  run h.disk (.create_dir_all dir)
  run h.disk (.write (join dir "auth.json") (utf8 auth))

/-- An error of it is only warned about. -/
def restore_auth (reg : AppRegistry) (app_id : String) (auth : Option String) : Sync W Unit :=
  match auth with
  | some text => ignore (io (save_auth h reg app_id text))
  | none => pure ()

def decode_files : List AppFileEntry → Sync W (List (String × Bytes))
  | [] => return []
  | f :: rest => do
    let bytes ← decoded "bad backup file b64" f.b64
    let files ← decode_files rest
    return (f.path, bytes) :: files

/-- Restore from the backup of one writer. -/
def restore_unchecked (reg : AppRegistry) (staging : Staging) (app_id writer : String) :
    Sync W BackupPayload := do
  match ← ask (fun s => (s.2.app_backups.lookup (app_id, writer)).filter (fun row => !row.deleted))
    with
  | none => fail (.NotFound ("no backup for " ++ app_id))
  | some _ => do
    let raw ← io (demand (h.disk.read (pak_path reg app_id writer)))
    let p ← demand (fun _ => (h.read_pak raw).mapError (fun e => .Sync ("bad backup pak: " ++ e)))
    if p.v ≠ 1 then fail (.Sync ("unsupported backup v" ++ toString p.v))
    else if p.app_id ≠ app_id then
      fail (.Sync ("backup app mismatch: row says " ++ app_id ++ ", payload says " ++ p.app_id))
    else
      match ← stage_verify_install h reg staging p.package app_id with
      | .Rejected e => fail (.Sync ("backup package failed verification: " ++ e))
      | .Installed _ => do
        restore_auth h reg app_id p.package.auth
        set_store (fun db =>
          { db with apps := db.apps.insert app_id (restored_row db.apps app_id p.package) })
        let files ← decode_files p.data_files
        context "restore data" (reg.restore_data h.disk app_id files)
        return p

def record_pak (app_id writer : String) (p : BackupPayload) (db : Db) : Db :=
  let row : engine.BackupRow :=
    { created_at := p.created_at, pushed_at := some p.created_at, deleted := false }
  { db with app_backups := db.app_backups.insert (app_id, writer) row }

def drop_pak (app_id writer : String) (db : Db) : Db :=
  match db.app_backups.lookup (app_id, writer) with
  | some row =>
    let row := { row with deleted := true }
    { db with app_backups := db.app_backups.insert (app_id, writer) row }
  | none => db

/-- `backup::apply`: store a received pak. -/
def apply_backup (reg : AppRegistry) (staging : Staging) (me : DeviceId) (app_id writer : String)
    (obj_writer : DeviceId) (p : BackupPayload) : Sync W Unit := do
  if p.v ≠ 1 then fail (.Sync ("unsupported backup v" ++ toString p.v))
  else if p.app_id ≠ app_id ∨ p.writer ≠ writer ∨ obj_writer.to_string ≠ writer then pure ()
  else if ← ask (fun s => !engine.is_paired s.2 writer) then pure ()
  else
    context "backup path" (demand (fun _ => check_all [app_id, writer]))
    let abs := pak_path reg app_id writer
    io (run h.disk (.create_dir_all (parent abs)))
    io (run h.disk (.write abs (h.pak_bytes p)))
    set_store (record_pak app_id writer p)
    doWhen (p.migrate_to = some me.to_string)
      (ignore (restore_unchecked h reg staging app_id writer))

/-- `backup::apply_tombstone`. -/
def apply_backup_tombstone (reg : AppRegistry) (app_id writer : String) : Sync W Unit := do
  set_store (drop_pak app_id writer)
  ignore (io (run h.disk (.remove_file (pak_path reg app_id writer))))

/-! ## Documents -/

def crdt_dir (reg : AppRegistry) (app_id : String) : Path :=
  join (join (join reg.root app_id) "data") "crdt"

def edit_doc (app_id doc : String) (f : crdt.Doc → crdt.Doc) (db : Db) : Db :=
  { db with docs := db.docs.insert (app_id, doc) (f (crdt.doc_of db.docs app_id doc)) }

def materialize (reg : AppRegistry) (app_id doc : String) : Sync W Unit := do
  if ← ask (h.disk.is_dir (join reg.root app_id)) then
    let merged ← demand (fun s => crdt.winners (crdt.doc_of s.2.docs app_id doc))
    let bytes := h.doc_bytes (crdt.plain merged)
    let dir := crdt_dir reg app_id
    let path := join dir (doc ++ ".json")
    if ← ask (fun s => decide (h.disk.read path s = .ok bytes)) then pure ()
    else
      io (run h.disk (.create_dir_all dir))
      io (run h.disk (.write path bytes))
      set_store (edit_doc app_id doc (fun d => { d with view := merged }))
  else pure ()

/-- `crdt::apply`. -/
def apply_crdt (reg : AppRegistry) (app_id doc writer : String) (obj : Object) (raw : Plain) :
    Sync W Unit := do
  let replaced (fields : crdt.Fields) : Sync W Unit := do
    set_store (edit_doc app_id doc (fun d => crdt.replace_cells d writer fields))
    materialize h reg app_id doc
  if obj.writer.to_string ≠ writer then pure ()
  else if ← ask (fun s => !engine.is_paired s.2 writer) then pure ()
  else if obj.tombstone then replaced sorted_map.empty
  else
    match raw with
    | .crdt p =>
      if p.v ≠ 1 ∨ p.app ≠ app_id ∨ p.doc ≠ doc ∨ p.writer ≠ writer then pure ()
      else replaced p.fields
    | _ => fail (.Sync ("bad crdt payload: " ++ h.serde_error raw))

/-! ## Keys -/

/-- The key of a backup or of a document, as its segments: `splitn(2, '/')` and `split('/')`. -/
inductive Key
  | bkp (app_id writer : String) (happ : '/' ∉ app_id.toList)
  | acrdt (app_id doc writer : String) (happ : '/' ∉ app_id.toList) (hdoc : '/' ∉ doc.toList)

/-- The branches of `apply_obj` for these keys. -/
def apply_obj (reg : AppRegistry) (staging : Staging) (me : DeviceId) (key : Key) (obj : Object)
    (raw : Plain) : Sync W Unit :=
  match key with
  | .bkp app_id writer _ =>
    if obj.tombstone then apply_backup_tombstone h reg app_id writer
    else
      match raw with
      | .backup p => apply_backup h reg staging me app_id writer obj.writer p
      | _ => fail (.Sync ("bad backup payload: " ++ h.serde_error raw))
  | .acrdt app_id doc writer _ _ => apply_crdt h reg app_id doc writer obj raw

end Programs

end pai_sync.files
