-- The registry of installed apps (the apps crate): one directory for each app
-- id, and helper directories next to it. The file system is a parameter.
import PersonalAi.Core
import PersonalAi.Lib.Chars
import PersonalAi.Lib.Paths
import PersonalAi.Lib.Program

open text paths program

namespace pai_apps

/-! ## Manifests and app ids -/

inductive AppError
  | NoManifest (dir : Path)
  | Manifest (msg : String)
  | Layout (msg : String)
  | NotSigned
  | BadSignature (msg : String)
  | Storage (msg : String)
  | Io (msg : String)
  | Core (e : pai_core.Error)
deriving DecidableEq, Repr

structure AppSection where
  name : String
  version : String
  entrypoint : String
  id : Option String

inductive StorageKind
  | Sqlite | Kv | Files | None
deriving DecidableEq, Repr

structure StorageSpec where
  type : StorageKind
  path : Option String

structure PermissionsSpec where
  files : List String

structure MigrationSpec where
  auto_migrate : Bool

structure AppManifest where
  app : AppSection
  storage : StorageSpec
  permissions : PermissionsSpec
  migration : MigrationSpec

/-- The lower case of a character. Of the characters that are not ASCII only the
two with an ASCII letter in their lower case are told apart: `slugify` makes a
dash of every other one. -/
def lowercase (c : Char) : List Char :=
  if c = '\u212A' then ['k']
  else if c = '\u0130' then ['i', '\u0307']
  else [c.toLower]

def is_ascii_alphanumeric (c : Char) : Bool := c.isAlphanum

/-- Lower case, with every run of other characters as one dash, and no dash at
an end. -/
def slugify (name : String) : String :=
  let slug := (name.toList.flatMap lowercase).map (fun c => if is_ascii_alphanumeric c then c else '-')
  let out := slug.foldl (fun out c => if c = '-' ∧ out.getLast? = some '-' then out else out ++ [c]) []
  String.ofList ((out.dropWhile (· == '-')).rdropWhile (· == '-'))

def AppManifest.app_id (m : AppManifest) : String :=
  match m.app.id with
  | some id => id
  | none => slugify m.app.name

def app_id_char (c : Char) : Bool := is_ascii_alphanumeric c || c == '.' || c == '-' || c == '_'

def check_app_id (id : String) : Except AppError Unit :=
  if id = "" ∨ !id.toList.all app_id_char then
    .error (.Manifest ("app id \"" ++ id ++ "\" must be non-empty [a-zA-Z0-9._-]"))
  else .ok ()

/-- Reject absolute paths and paths that go up. -/
def check_rel_path (p : String) : Except AppError Unit :=
  if is_absolute p then .error (.Layout ("absolute path \"" ++ p ++ "\""))
  else if ".." ∈ components p then .error (.Layout ("unsafe path \"" ++ p ++ "\""))
  else .ok ()

def check_all (ps : List String) : Except AppError Unit := ps.forM check_rel_path

def AppManifest.validate (m : AppManifest) : Except AppError Unit := do
  if trim m.app.name.toList = [] then throw (.Manifest "app.name is required")
  if trim m.app.version.toList = [] then throw (.Manifest "app.version is required")
  check_rel_path m.app.entrypoint
  check_all m.storage.path.toList
  check_all m.permissions.files
  check_app_id m.app_id

/-! ## The file system -/

/-- What stands in a directory. A link is followed by `is_dir` and `is_file`, and
not by `file_type`; what is neither a file nor a directory nor a link to one is
`other`. -/
inductive Tree
  | file
  | dir (entries : List (FileName × Tree))
  | link (target : Tree)
  | other

/-- The calls that change the file system. -/
inductive FsOp
  | create_dir_all (p : Path)
  | remove_dir_all (p : Path)
  | remove_file (p : Path)
  | rename (src dst : Path)
  | copy (src dst : Path)
  | write (p : Path) (bytes : Bytes)
  | open_db (p : Path)
  | execute_batch (db : Path) (sql : Bytes)
deriving DecidableEq, Repr

/-- A file system on a type of worlds: how it answers, and what a call makes of
it. `batch_paths` are the files that SQLite writes for a batch on a database. -/
structure FileSystem (W : Type) where
  path_exists : Path → W → Bool
  is_dir : Path → W → Bool
  is_file : Path → W → Bool
  read : Path → W → Except AppError Bytes
  read_dir : Path → W → Except AppError Tree
  call : FsOp → W → Except AppError Unit × W
  batch_paths : Path → Bytes → List Path

/-- The paths that a call creates, moves, overwrites or deletes. -/
def FileSystem.touched {W : Type} (fs : FileSystem W) : FsOp → List Path
  | .create_dir_all p => [p]
  | .remove_dir_all p => [p]
  | .remove_file p => [p]
  | .rename src dst => [src, dst]
  | .copy _ dst => [dst]
  | .write p _ => [p]
  | .open_db p => [p]
  | .execute_batch db sql => fs.batch_paths db sql

section Ops
variable {W : Type} (fs : FileSystem W)

abbrev Fs (W α : Type) := Prog W FsOp AppError α

def run (op : FsOp) : Fs W Unit := perform op (fs.call op)

/-- `std::fs::write` at a path whose text is joined to a directory. -/
def write_below (dir : Path) (rel : String) (bytes : Bytes) : Fs W Unit := do
  demand (fun _ => if names_file rel then .ok () else .error (.Io "Is a directory (os error 21)"))
  run fs (.write (join dir rel) bytes)

mutual
def copy_tree (src dst : Path) : Tree → Fs W Unit
  | .dir entries => copy_entries src dst entries
  | _ => fail (.Io "Not a directory")

def copy_entries (src dst : Path) : List (FileName × Tree) → Fs W Unit
  | [] => pure ()
  | (name, .dir entries) :: rest => do
    run fs (.create_dir_all (dst ++ [name.text]))
    copy_tree (src ++ [name.text]) (dst ++ [name.text]) (.dir entries)
    copy_entries src dst rest
  | (name, _) :: rest => do
    run fs (.copy (src ++ [name.text]) (dst ++ [name.text]))
    copy_entries src dst rest
end

/-- Copy a directory into `dst`; files that stand there are overwritten. -/
def copy_merge (src dst : Path) : Fs W Unit := do
  run fs (.create_dir_all dst)
  let tree ← demand (fs.read_dir src)
  copy_tree fs src dst tree

mutual
/-- The files of a tree, by their path from its root. -/
def walk (rel : Path) : Tree → List Path
  | .file => [rel]
  | .dir entries => walk_entries rel entries
  | .link target => walk rel target
  | .other => []

def walk_entries (rel : Path) : List (FileName × Tree) → List Path
  | [] => []
  | (name, tree) :: rest => walk (rel ++ [name.text]) tree ++ walk_entries rel rest
end

def collect_files (dir : Path) : Fs W (List Path) := do
  let tree ← demand (fs.read_dir dir)
  match tree with
  | .dir entries => return walk_entries [] entries
  | _ => fail (.Io "Not a directory")

/-! ## Packages -/

/-- The path of a packaged file from the directory of its package. -/
structure RelPath where
  names : List FileName
  nonempty : names ≠ []

def RelPath.path (r : RelPath) : Path := r.names.map FileName.text

def RelPath.text (r : RelPath) : String := "/".intercalate r.path

/-- A loaded package. `verify` is the outcome of the check of its signature. -/
structure AppPackage where
  dir : Path
  manifest : AppManifest
  files : List RelPath
  verify : Except AppError Unit

def path_text (p : Path) : String := "\"/" ++ "/".intercalate p ++ "\""

def AppPackage.install_to (pkg : AppPackage) (dest : Path) : Fs W Unit := do
  if ← ask (fs.path_exists dest) then
    fail (.Layout (path_text dest ++ " already exists"))
  else
    run fs (.create_dir_all dest)
    forEach pkg.files fun rel => do
      demand (fun _ => check_rel_path rel.text)
      run fs (.create_dir_all (parent (dest ++ rel.path)))
      run fs (.copy (pkg.dir ++ rel.path) (dest ++ rel.path))
    let sig := join pkg.dir "signature.bin"
    doWhen (← ask (fs.is_file sig)) (run fs (.copy sig (join dest "signature.bin")))

def storage_error (context : String) : AppError → AppError
  | .Io e => .Storage (context ++ ": " ++ e)
  | e => e

/-- A program whose errors are given another context. -/
def map_err {α : Type} (f : AppError → AppError) (p : Fs W α) : Fs W α := do
  match ← attempt p with
  | .ok a => return a
  | .error e => fail (f e)

def provision_storage (app_dir : Path) (manifest : AppManifest) : Fs W Unit :=
  let data := join app_dir "data"
  match manifest.storage.type with
  | .None => pure ()
  | .Sqlite => do
    run fs (.create_dir_all data)
    let db := join data "data.db"
    map_err (storage_error ("open " ++ path_text db)) (run fs (.open_db db))
    match manifest.migration.auto_migrate, manifest.storage.path with
    | true, some schema => do
      let sql ← demand (fs.read (join app_dir schema))
      map_err (storage_error ("apply " ++ schema)) (run fs (.execute_batch db sql))
    | _, _ => pure ()
  | .Kv => run fs (.create_dir_all data)
  | .Files => run fs (.create_dir_all data)

/-! ## The registry -/

/-- The registry under a data directory, which is given by its names. -/
structure AppRegistry where
  data_dir : List FileName

def AppRegistry.root (reg : AppRegistry) : Path := reg.data_dir.map FileName.text ++ ["apps"]

/-- Move a live directory out of the way, over what stands there. -/
def set_aside (live backup : Path) : Fs W Unit := do
  doWhen (← ask (fs.path_exists backup)) (run fs (.remove_dir_all backup))
  run fs (.rename live backup)

/-- Merge a directory that was set aside back into its place. -/
def merge_back (backup live : Path) : Fs W Unit := do
  copy_merge fs backup live
  run fs (.remove_dir_all backup)

def write_saved (saved : Except AppError Bytes) (p : Path) : Fs W Unit :=
  match saved with
  | .ok raw => run fs (.write p raw)
  | .error _ => pure ()

/-- The directories that belong to an id: its own, its live state, and where an
upgrade keeps that state meanwhile. -/
structure Places where
  dest : Path
  live : Path
  backup : Path
  logs : Path
  logs_bak : Path
  auth : Path

def AppRegistry.places (reg : AppRegistry) (id : String) : Places :=
  let dest := join reg.root id
  { dest := dest, live := join dest "data", backup := join reg.root ("." ++ id ++ ".data.bak"),
    logs := join dest "logs", logs_bak := join reg.root ("." ++ id ++ ".logs.bak"),
    auth := join dest "auth.json" }

/-- The second half of an upgrade: the new package, then the live state. -/
def reinstall (at_ : Places) (pkg : AppPackage) (auth_saved : Except AppError Bytes) :
    Fs W Unit := do
  pkg.install_to fs at_.dest
  doWhen (← ask (fs.is_dir at_.backup)) (merge_back fs at_.backup at_.live)
  doWhen (← ask (fs.is_dir at_.logs_bak)) (merge_back fs at_.logs_bak at_.logs)
  write_saved fs auth_saved at_.auth

/-- Put the live state back after a reinstall that failed. -/
def roll_back (at_ : Places) (auth_saved : Except AppError Bytes) : Fs W Unit := do
  ignore (run fs (.create_dir_all at_.dest))
  doWhen (← ask (fs.is_dir at_.backup)) (ignore (run fs (.rename at_.backup at_.live)))
  doWhen (← ask (fs.is_dir at_.logs_bak)) (ignore (run fs (.rename at_.logs_bak at_.logs)))
  ignore (write_saved fs auth_saved at_.auth)

/-- The branch of `place` for an app that is there already. -/
def upgrade_in_place (at_ : Places) (pkg : AppPackage) : Fs W Unit := do
  doWhen (← ask (fs.is_dir at_.live)) (set_aside fs at_.live at_.backup)
  let auth_saved ← ask (fs.read at_.auth)
  doWhen (← ask (fs.is_dir at_.logs)) (set_aside fs at_.logs at_.logs_bak)
  run fs (.remove_dir_all at_.dest)
  match ← attempt (reinstall fs at_ pkg auth_saved) with
  | .ok () => pure ()
  | .error e => do
    let kept ← ask fun w =>
      fs.is_dir at_.backup w || fs.is_dir at_.logs_bak w || auth_saved.toBool
    doWhen kept (roll_back fs at_ auth_saved)
    fail e

/-- The package into its directory, over what stands there if `upgrade` allows
it. -/
def put (at_ : Places) (pkg : AppPackage) (upgrade found : Bool) : Fs W Unit :=
  match found, upgrade with
  | true, false => fail (.Layout (path_text at_.dest ++ " already exists"))
  | true, true => upgrade_in_place fs at_ pkg
  | false, _ => pkg.install_to fs at_.dest

def AppRegistry.place (reg : AppRegistry) (pkg : AppPackage) (upgrade : Bool) : Fs W Path := do
  let at_ := reg.places pkg.manifest.app_id
  let found ← ask (fs.path_exists at_.dest)
  put fs at_ pkg upgrade found
  provision_storage fs at_.dest pkg.manifest
  return at_.dest

def AppRegistry.install (reg : AppRegistry) (pkg : AppPackage) (upgrade : Bool) : Fs W Path := do
  demand (fun _ => pkg.verify)
  reg.place fs pkg upgrade

def AppRegistry.install_trusted (reg : AppRegistry) (pkg : AppPackage) (upgrade : Bool) :
    Fs W Path :=
  reg.place fs pkg upgrade

def AppRegistry.remove (reg : AppRegistry) (app_id : String) : Fs W Bool := do
  demand (fun _ => check_app_id app_id)
  let dir := join reg.root app_id
  if ← ask (fs.is_dir dir) then
    run fs (.remove_dir_all dir)
    return true
  else
    return false

/-- The file of a snapshot under its portable name. -/
def snapshot_name (rel : Path) : String :=
  String.ofList (("/".intercalate rel).toList.map (fun c => if c = '\\' then '/' else c))

def read_files (data : Path) : List Path → Fs W (List (String × Bytes))
  | [] => return []
  | rel :: rest => do
    let bytes ← demand (fs.read (data ++ rel))
    let others ← read_files data rest
    return (snapshot_name rel, bytes) :: others

def AppRegistry.snapshot_data (reg : AppRegistry) (app_id : String) :
    Fs W (List (String × Bytes)) := do
  demand (fun _ => check_app_id app_id)
  let data := join (join reg.root app_id) "data"
  if ← ask (fs.is_dir data) then
    let rels ← collect_files fs data
    let out ← read_files fs data rels
    return out.mergeSort (fun a b => decide (a.1 ≤ b.1))
  else
    return []

def write_files (live : Path) (files : List (String × Bytes)) : Fs W Unit := do
  run fs (.create_dir_all live)
  forEach files fun f => do
    run fs (.create_dir_all (parent (join live f.1)))
    write_below fs live f.1 f.2

/-- The files of a backup in the place of a live directory, or the live
directory again if a write fails. -/
def swap_data (live rescue : Path) (files : List (String × Bytes)) : Fs W Unit := do
  doWhen (← ask (fs.is_dir live)) (set_aside fs live rescue)
  match ← attempt (write_files fs live files) with
  | .ok () => doWhen (← ask (fs.is_dir rescue)) (run fs (.remove_dir_all rescue))
  | .error e => do
    ignore (run fs (.remove_dir_all live))
    doWhen (← ask (fs.is_dir rescue)) (ignore (run fs (.rename rescue live)))
    fail e

def AppRegistry.restore_data (reg : AppRegistry) (app_id : String)
    (files : List (String × Bytes)) : Fs W Unit := do
  demand (fun _ => check_app_id app_id)
  demand (fun _ => check_all (files.map Prod.fst))
  let dest := join reg.root app_id
  if ← ask (fs.is_dir dest) then
    swap_data fs (join dest "data") (join reg.root ("." ++ app_id ++ ".data.rescue")) files
  else
    fail (.Layout ("app " ++ app_id ++ " not installed"))

/-- A moment as `%Y%m%d%H%M%S` prints it. -/
structure Stamp where
  text : String
  digits : ∀ c ∈ text.toList, c.isDigit

def AppRegistry.deactivate_data (reg : AppRegistry) (app_id : String) (now : Stamp) :
    Fs W (Option Path) := do
  demand (fun _ => check_app_id app_id)
  let live := join (join reg.root app_id) "data"
  if ← ask (fs.is_dir live) then
    let rescue := join reg.root ("." ++ app_id ++ ".data.inactive-" ++ now.text)
    run fs (.rename live rescue)
    return some rescue
  else
    return none

end Ops

end pai_apps
