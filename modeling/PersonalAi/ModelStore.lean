-- Model files (the models crate): packs of files in directories, a record for each slug in the
-- table, and the calls that download, copy, adopt and remove.
import PersonalAi.Core
import PersonalAi.Lib.Paths
import PersonalAi.Lib.Program
import PersonalAi.Lib.Runs
import PersonalAi.Lib.Table

open pai_core paths program runs table text

namespace pai_models

/-! ## Manifests -/

/-- What of a manifest decides about files and records. -/
structure ModelManifest where
  slug : String
  url : Option String
  sha256 : Option String
  filename : String
deriving DecidableEq

structure ModelPackIndex where
  format : Nat
  models : List ModelManifest
deriving DecidableEq

def PACK_INDEX_FILE : String := "index.json"

def builtin_catalog : List ModelManifest :=
  [ { slug := "smollm2-135m-instruct-q4"
      url := some ("https://huggingface.co/HuggingFaceTB/smollm2-135m-instruct-gguf/resolve/main/" ++
        "smollm2-135m-instruct-q4_0.gguf")
      sha256 := none
      filename := "smollm2-135m-instruct-q4_0.gguf" },
    { slug := "smollm2-360m-instruct-q4"
      url := some ("https://huggingface.co/HuggingFaceTB/smollm2-360m-instruct-gguf/resolve/main/" ++
        "smollm2-360m-instruct-q4_0.gguf")
      sha256 := none
      filename := "smollm2-360m-instruct-q4_0.gguf" },
    { slug := "qwen2.5-0.5b-instruct-q4_k_m"
      url := some ("https://huggingface.co/Qwen/Qwen2.5-0.5B-Instruct-GGUF/resolve/main/" ++
        "qwen2.5-0.5b-instruct-q4_k_m.gguf")
      sha256 := none
      filename := "qwen2.5-0.5b-instruct-q4_k_m.gguf" },
    { slug := "qwen2.5-1.5b-instruct-q4_k_m"
      url := some ("https://huggingface.co/Qwen/Qwen2.5-1.5B-Instruct-GGUF/resolve/main/" ++
        "qwen2.5-1.5b-instruct-q4_k_m.gguf")
      sha256 := none
      filename := "qwen2.5-1.5b-instruct-q4_k_m.gguf" } ]

structure HfRef where
  repo : String
  file : String
  revision : String

def HfRef.resolve_url (r : HfRef) : String :=
  "https://huggingface.co/" ++ r.repo ++ "/resolve/" ++ r.revision ++ "/" ++ r.file

/-- The manifest of a file on the hub, with the hash of its headers. The revision is part of the
URL, and the directory in the repository is part of the slug. -/
def HfRef.manifest_for (r : HfRef) (linked_etag : Option String) : ModelManifest :=
  { slug := "hf:" ++ r.repo ++ ":" ++ r.file
    url := some r.resolve_url
    sha256 := linked_etag.map fun tag =>
      String.ofList ((tag.toList.dropWhile (· = '"')).rdropWhile (· = '"'))
    filename := match rsplit_once '/' r.file.toList with
      | some (_, name) => String.ofList name
      | none => r.file }

/-! ## The device -/

structure Row where
  installed : Bool
  path : Option Path
  sha256 : Option String
deriving DecidableEq

/-- The files and directories of a device, and its table of models. `pins` is a note of the
model: the hash that the manifest of the last installation or adoption of a slug pins. `faults`
is what the disk does at the coming calls: it works, or it fails and may leave something in the
file that is being written. -/
structure Device where
  files : Table Path Bytes
  dirs : List Path
  rows : Table String Row
  pins : Table String (Option String)
  faults : List (Option (Option Bytes))

abbrev Call := Prog Device Empty Error

namespace Device
variable (w : Device)

def is_dir (p : Path) : Bool := decide (resolve p ∈ w.dirs)

def file (p : Path) : Option Bytes := w.files.lookup (resolve p)

def is_file (p : Path) : Bool := (w.file p).isSome

def put (p : Path) (content : Bytes) : Device :=
  { w with files := w.files.insert (resolve p) content }

def drop (p : Path) : Device := { w with files := w.files.erase (resolve p) }

/-- A file can be made here. -/
def writable (p : Path) : Bool := !w.is_dir p && w.is_dir (parent (resolve p))

/-- What the disk does now, and the device behind it. -/
def next : Option (Option Bytes) × Device :=
  match w.faults with
  | [] => (none, w)
  | f :: rest => (f, { w with faults := rest })

def write (p : Path) (content : Bytes) : Except Error Unit × Device :=
  let (fault, w) := w.next
  if !w.writable p then (.error (.Storage "write"), w)
  else
    match fault with
    | none => (.ok (), w.put p content)
    | some none => (.error (.Storage "write"), w)
    | some (some left) => (.error (.Storage "write"), w.put p left)

def rename (old new : Path) : Except Error Unit × Device :=
  let (fault, w) := w.next
  match fault, w.file old with
  | none, some content =>
    if w.writable new then (.ok (), (w.drop old).put new content)
    else (.error (.Storage "rename"), w)
  | _, _ => (.error (.Storage "rename"), w)

/-- `fs::copy` opens the target empty, also when it is the source. -/
def copied (source target : Path) (content : Bytes) : Bytes :=
  if resolve source = resolve target then [] else content

def copy (source target : Path) : Except Error Unit × Device :=
  match w.file source with
  | some content => w.write target (copied source target content)
  | none => (.error (.Storage "copy"), w)

def remove_file (p : Path) : Except Error Unit × Device :=
  let (fault, w) := w.next
  match fault, w.file p with
  | none, some _ => (.ok (), w.drop p)
  | _, _ => (.error (.Storage "remove"), w)

def read (p : Path) : Except Error Bytes × Device :=
  let (fault, w) := w.next
  match fault, w.file p with
  | none, some content => (.ok content, w)
  | _, _ => (.error (.Storage "read"), w)

def create_dir_all (p : Path) : Except Error Unit × Device :=
  let (fault, w) := w.next
  let needed := (resolve p).inits
  if fault.isNone && !needed.any (fun q => (w.files.lookup q).isSome) then
    (.ok (), { w with dirs := needed ++ w.dirs })
  else (.error (.Storage "create"), w)

def installed_path (slug : String) : Option Path :=
  (w.rows.lookup slug).bind fun row => if row.installed then row.path else none

/-- What of the record of a slug still exists. -/
def found (slug : String) : Option Path :=
  (w.installed_path slug).filter (fun cur => w.is_file cur || w.is_dir cur)

end Device

/-! ## Pack indexes -/

section Manager
variable (sha256 : Bytes → String) (to_vec_pretty : ModelPackIndex → Bytes)
  (from_slice : Bytes → Option ModelPackIndex)

def file_sha256 (p : Path) : Call String := do
  let content ← consult (·.read p)
  return sha256 content

def read_pack_index (dir : Path) : Call (Option ModelPackIndex) := do
  match ← attempt (consult (·.read (dir ++ [PACK_INDEX_FILE]))) with
  | .ok bytes => return from_slice bytes
  | .error _ => return none

def index_tmp (dir : Path) : Path := with_extension (dir ++ [PACK_INDEX_FILE]) "tmp"

def write_pack_index (dir : Path) (index : ModelPackIndex) : Call Unit := do
  consult (·.write (index_tmp dir) (to_vec_pretty index))
  consult (·.rename (index_tmp dir) (dir ++ [PACK_INDEX_FILE]))

def upsert_pack_index (dir : Path) (m : ModelManifest) : Call Unit := do
  let idx := (← read_pack_index from_slice dir).getD { format := 1, models := [] }
  write_pack_index to_vec_pretty dir
    { idx with models := idx.models.filter (fun e => decide (e.slug ≠ m.slug)) ++ [m] }

def remove_from_pack_index (dir : Path) (slug : String) : Call Unit := do
  match ← read_pack_index from_slice dir with
  | some idx =>
    let kept := idx.models.filter (fun e => decide (e.slug ≠ slug))
    doWhen (kept.length != idx.models.length)
      (ignore (write_pack_index to_vec_pretty dir { idx with models := kept }))
  | none => return ()

/-! ## The table -/

/-- The table itself does not fail here. -/
def update (f : Device → Device) : Call Unit := consult fun w => (.ok (), f w)

def Device.enter (w : Device) (m : ModelManifest) : Device :=
  if (w.rows.lookup m.slug).isSome then w
  else { w with rows := w.rows.insert m.slug { installed := false, path := none, sha256 := m.sha256 } }

def register (m : ModelManifest) : Call Unit := update (·.enter m)

def Device.mark (w : Device) (slug : String) (path : Path) (digest : String)
    (pin : Option String) : Device :=
  { w with
    rows := w.rows.insert slug { installed := true, path := some path, sha256 := some digest }
    pins := w.pins.insert slug pin }

/-- `pin` is for the note of the model alone. -/
def mark_installed (slug : String) (path : Path) (digest : String) (pin : Option String) : Call Unit :=
  update fun w => if (w.rows.lookup slug).isSome then w.mark slug path digest pin else w

/-! ## The calls -/

def pinned (m : ModelManifest) (digest : String) : Bool :=
  match m.sha256 with
  | some expected => decide (digest = expected)
  | none => true

def part_of (dest : Path) : Path := with_extension dest "part"

def place (slug : String) (manifest : ModelManifest) (bytes : Bytes) (dest_dir : Path) : Call Path := do
  consult (·.create_dir_all dest_dir)
  let dest := join dest_dir manifest.filename
  let digest := sha256 bytes
  if !pinned manifest digest then
    fail (.Provider ("sha256 mismatch for " ++ slug ++ ": got " ++ digest))
  else
    consult (·.write (part_of dest) bytes)
    consult (·.rename (part_of dest) dest)
    mark_installed slug dest digest manifest.sha256
    upsert_pack_index to_vec_pretty from_slice dest_dir manifest
    return dest

def copy_to (slug : String) (manifest : ModelManifest) (src dest_dir : Path) : Call Path := do
  consult (·.create_dir_all dest_dir)
  let dest := join dest_dir manifest.filename
  consult (·.copy src (part_of dest))
  let digest ← file_sha256 sha256 (part_of dest)
  if !pinned manifest digest then
    ignore (consult (·.remove_file (part_of dest)))
    fail (.Provider ("sha256 mismatch copying " ++ slug ++ ": got " ++ digest))
  else
    consult (·.rename (part_of dest) dest)
    mark_installed slug dest digest manifest.sha256
    upsert_pack_index to_vec_pretty from_slice dest_dir manifest
    return dest

/-- `download` is what the URL gives, or an error. -/
def install_to (slug : String) (manifest : ModelManifest) (dest_dir : Path)
    (download : Except String Bytes) : Call Path := do
  let dest := join dest_dir manifest.filename
  match ← ask (fun w => w.found slug) with
  | some cur =>
    if cur = dest then return cur
    else copy_to sha256 to_vec_pretty from_slice slug manifest cur dest_dir
  | none =>
    match manifest.url with
    | none => fail (.InvalidInput (slug ++ " has no download URL"))
    | some _ =>
      consult (·.create_dir_all dest_dir)
      match download with
      | .error e => fail (.Provider e)
      | .ok bytes => place sha256 to_vec_pretty from_slice slug manifest bytes dest_dir

structure ScannedModel where
  slug : String
  path : Path
  pack_root : Path

def adopt (manifest : ModelManifest) (path pack_root : Path) : Call (Option ScannedModel) := do
  if ← ask (fun w => !w.is_file path) then return none
  else
    let digest ← file_sha256 sha256 path
    if !pinned manifest digest then return none
    else
      register manifest
      mark_installed manifest.slug path digest manifest.sha256
      return some { slug := manifest.slug, path, pack_root }

def adopt_all (pack_root : Path) : List (ModelManifest × Path) → Call (List ScannedModel)
  | [] => return []
  | (m, path) :: rest => do
    let adopted ← adopt sha256 m path pack_root
    let found ← adopt_all pack_root rest
    return adopted.toList ++ found

/-- `listed` is what `read_dir` gives: the names, in some order. -/
def scan_root (listed : Path → Option (List String)) (root : Path) : Call (List ScannedModel) := do
  if ← ask (fun w => !w.is_dir root) then return []
  else
    match ← read_pack_index from_slice root with
    | some idx => adopt_all sha256 root (idx.models.map fun m => (m, join root m.filename))
    | none =>
      let names := (listed root).getD []
      adopt_all sha256 root (names.filterMap fun name =>
        (builtin_catalog.find? (fun m => m.filename = name)).map fun m => (m, root ++ [name]))

def scan_roots (listed : Path → Option (List String)) : List Path → Call (List ScannedModel)
  | [] => return []
  | root :: rest => do
    let here ← scan_root sha256 from_slice listed root
    let found ← scan_roots listed rest
    return here ++ found

def Device.unmark (w : Device) (slug : String) : Device :=
  match w.rows.lookup slug with
  | some row => { w with rows := w.rows.insert slug { row with installed := false, path := none } }
  | none => w

def uninstall (slug : String) : Call Unit := do
  match ← ask (fun w => w.installed_path slug) with
  | some path =>
    ignore (consult (·.remove_file path))
    doWhen (decide (path ≠ [])) (remove_from_pack_index to_vec_pretty from_slice (parent path) slug)
  | none => pure ()
  update (·.unmark slug)

inductive Act
  | register (m : ModelManifest)
  | install (slug : String) (m : ModelManifest) (dest_dir : Path) (download : Except String Bytes)
      (faults : List (Option (Option Bytes)))
  | copy (slug : String) (m : ModelManifest) (src dest_dir : Path) (faults : List (Option (Option Bytes)))
  | scan (roots : List Path) (listed : Path → Option (List String))
      (faults : List (Option (Option Bytes)))
  | uninstall (slug : String) (faults : List (Option (Option Bytes)))
  -- someone else removes a file
  | vanish (p : Path)

def Device.step (w : Device) : Act → Device
  | .register m => ((register m).outcome w).2
  | .install slug m dest_dir download faults =>
    ((install_to sha256 to_vec_pretty from_slice slug m dest_dir download).outcome
      { w with faults }).2
  | .copy slug m src dest_dir faults =>
    ((copy_to sha256 to_vec_pretty from_slice slug m src dest_dir).outcome { w with faults }).2
  | .scan roots listed faults =>
    ((scan_roots sha256 from_slice listed roots).outcome { w with faults }).2
  | .uninstall slug faults =>
    ((uninstall to_vec_pretty from_slice slug).outcome { w with faults }).2
  | .vanish p => w.drop p

end Manager

end pai_models
