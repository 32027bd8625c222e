-- Runs of an installed wasm app: what a run preopens to the guest, what it may leave in the
-- app's directory, and what that does to the signed package.
import Mathlib.Logic.Relation
import PersonalAi.PackageSignature

open text

namespace pai_apps.signing.run

/-! ## What a run preopens -/

/-- The manifest with the runtime and the HTTP opt-in, which the registry does not look at. -/
structure RunManifest extends AppManifest where
  runtime : AppRuntime
  serve : Bool

/-- The part that the signature check reads. -/
def RunManifest.signed (m : RunManifest) : Manifest :=
  { runtime := m.runtime, entrypoint := m.app.entrypoint }

def DATA : Name := ⟨utf8 "data", by decide⟩

def LOGS : Name := ⟨utf8 "logs", by decide⟩

/-- What stands at a path: of a directory only that it is one. -/
inductive Kind
  | file (content : Option Bytes)
  | dir
  | closed_dir
  | other
deriving DecidableEq

def Node.shape : Node → Kind
  | .file content => .file content
  | .dir _ => .dir
  | .closed_dir => .closed_dir
  | .other => .other

def kind (root : Node) (p : RelPath) : Option Kind := (root.at_ p).map Node.shape

/-- The installed directory that a permission of the manifest opens. -/
def open_dir (root : Node) (rel : String) : Except AppError RelPath :=
  match RelPath.of rel with
  | none => .error (.Layout ("permissioned dir \"" ++ rel ++ "\" missing in package"))
  | some p =>
    match kind root p with
    | some .dir => .ok p
    | some .closed_dir => .error (.Layout ("preopen \"" ++ rel ++ "\": permission denied"))
    | _ => .error (.Layout ("permissioned dir \"" ++ rel ++ "\" missing in package"))

/-- `create_dir_all` and the opening of `data/`, for an app with storage. -/
def open_data (root : Node) (m : AppManifest) : Except AppError (List RelPath) :=
  if m.storage.type = .None then .ok []
  else
    match kind root [DATA] with
    | none | some .dir => .ok [[DATA]]
    | some .closed_dir => .error (.Layout "preopen data: permission denied")
    | _ => .error (.Io "create_dir_all")

/-- The bytes of the guest. -/
def read_wasm (root : Node) (m : RunManifest) : Except AppError Bytes :=
  if m.runtime ≠ .Wasm then
    .error (.Layout "only wasm packages are executable — native/web are not run")
  else
    match (RelPath.of m.app.entrypoint).map root.read with
    | some (.ok bytes) => .ok bytes
    | _ => .error (.Layout ("entrypoint \"" ++ m.app.entrypoint ++ "\""))

/-- The start of `AppPackage::run`, up to the guest: the directories it may write in. -/
def preopens (root : Node) (m : RunManifest) : Except AppError (List RelPath) := do
  let _ ← read_wasm root m
  let dirs ← m.permissions.files.mapM (open_dir root)
  let data ← open_data root m.toAppManifest
  pure (dirs ++ data)

/-- The directories that a guest gets: none when the run ends before it. -/
def granted (root : Node) (m : RunManifest) : List RelPath := (preopens root m).toOption.getD []

/-! ## What a run leaves -/

/-- The path is below one of the directories. -/
def Below (dirs : List RelPath) (p : RelPath) : Prop := ∃ d ∈ dirs, d <+: p ∧ d ≠ p

/-- A file that `logs::record` or `pai_fetch` writes, or that a later record prunes. -/
def RunLog (p : RelPath) : Prop :=
  ∃ n, p = [LOGS, n] ∧ (n.bytes = utf8 "fetch.log" ∨ ∃ stem, stem ≠ [] ∧ n.bytes = stem ++ utf8 ".json")

/-- A file that can be read, or nothing. -/
def FileOrNone : Option Kind → Prop
  | none | some (.file _) => True
  | _ => False

/-- One run with these directories preopened. The guest does as it likes below them. The host
makes `data/` and `logs/`, and writes and prunes its logs. -/
structure Leaves (dirs : List RelPath) (before after : PackageDir) : Prop where
  kept : ∀ p, ¬ Below dirs p → ¬ RunLog p → p ≠ [DATA] → p ≠ [LOGS] →
    kind after.root p = kind before.root p
  made : ∀ p, ¬ Below dirs p → p = [DATA] ∨ p = [LOGS] →
    kind after.root p = kind before.root p ∨
      (kind before.root p = none ∧ kind after.root p = some .dir)
  logged : ∀ p, ¬ Below dirs p → RunLog p →
    kind after.root p = kind before.root p ∨
      (FileOrNone (kind before.root p) ∧ FileOrNone (kind after.root p))
  listable : ∀ p, kind after.root p = some .closed_dir → kind before.root p = some .closed_dir

section App
variable (sha256 : Bytes → Bytes) (toml : List Char → Except AppError RunManifest) (dir : paths.Path)

/-- `AppManifest::parse`: `toml` is a parameter. -/
def parse (chars : List Char) : Except AppError RunManifest := do
  let m ← toml chars
  m.toAppManifest.validate
  pure m

/-- `AppPackage::load`. -/
def load_app (root : Node) : Except AppError AppPackage :=
  load sha256 (fun chars => (parse toml chars).map RunManifest.signed) dir root

/-- The manifest of a directory that loads, as its package has it: a web bundle without an
entrypoint serves `index.html`. -/
def manifest_of (root : Node) : Except AppError RunManifest := do
  let bytes ← read_manifest dir root
  match from_utf8 bytes with
  | none => throw (.Manifest "manifest.toml is not utf-8")
  | some chars => parse toml chars

/-- One run of the app: the registry loads the package, which runs in its directory. -/
def Runs (before after : PackageDir) : Prop :=
  ∃ pkg m, load_app sha256 toml dir before.root = .ok pkg ∧ manifest_of toml dir before.root = .ok m ∧
    Leaves (granted before.root m) before after

/-- A sequence of runs. -/
def Reaches : PackageDir → PackageDir → Prop := Relation.ReflTransGen (Runs sha256 toml dir)

end App

/-! ## What the claim is about -/

/-- The files that the digest covers are byte for byte the same. -/
def Intact (before after : Node) : Prop :=
  ∀ p, included p = true → ∀ c, kind after p = some (.file c) ↔ kind before p = some (.file c)

def Reserved (p : RelPath) : Prop := ∃ n ∈ p.head?, n.bytes ∈ RESERVED_DIRS

/-- The run gives the guest directories of runtime state only, and neither they nor the logs
hold the entrypoint that the package needs to load. -/
structure Harmless (root : Node) (m : RunManifest) : Prop where
  reserved : ∀ d ∈ granted root m, Reserved d
  entrypoint : m.runtime ≠ .Native →
    ∀ p, RelPath.of (web_entrypoint m.signed).entrypoint = some p →
      ¬ Below (granted root m) p ∧ ¬ RunLog p

/-! ## Reading by kind -/

theorem kind_file {root : Node} {p : RelPath} {c : Option Bytes} :
    kind root p = some (.file c) ↔ root.at_ p = some (.file c) := by
  unfold kind
  rcases root.at_ p with _ | n
  · simp
  · cases n <;> simp [Node.shape]

theorem at_append (root : Node) (p q : RelPath) :
    root.at_ (p ++ q) = (root.at_ p).bind (fun n => n.at_ q) := by
  induction p generalizing root with
  | nil => simp [Node.at_]
  | cons name p ih =>
    cases root with
    | dir entries =>
      simp only [List.cons_append, Node.at_]
      rcases lookup name entries with _ | n
      · rfl
      · exact ih n
    | _ => simp [Node.at_]

theorem kind_closed {root : Node} {p : RelPath} :
    kind root p = some .closed_dir ↔ root.at_ p = some .closed_dir := by
  unfold kind
  rcases root.at_ p with _ | n
  · simp
  · cases n <;> simp [Node.shape]

theorem kind_dir {root : Node} {p : RelPath} :
    kind root p = some .dir ↔ ∃ entries, root.at_ p = some (.dir entries) := by
  unfold kind
  rcases root.at_ p with _ | n
  · simp
  · cases n <;> simp [Node.shape]

/-- At the path both trees have the same file, or neither has one. -/
def SameFile (a b : Node) (p : RelPath) : Prop :=
  ∀ c, kind b p = some (.file c) ↔ kind a p = some (.file c)

variable {a b : Node} {p : RelPath}

theorem same_file_of_kind (h : kind b p = kind a p) : SameFile a b p := fun c => by rw [h]

theorem SameFile.read (h : SameFile a b p) : b.read p = a.read p := by
  cases ha : a.read p with
  | ok bytes => exact read_eq_ok.mpr (kind_file.mp ((h _).mpr (kind_file.mpr (read_eq_ok.mp ha))))
  | error e =>
    have herror : ∀ n : Node, ∀ e, n.read p = .error e → e = .Io "read" := by
      intro n e he
      unfold Node.read at he
      split at he
      · cases he
      · cases he
        rfl
    cases hb : b.read p with
    | ok bytes =>
      have hread := read_eq_ok.mpr (kind_file.mp ((h _).mp (kind_file.mpr (read_eq_ok.mp hb))))
      rw [ha] at hread
      cases hread
    | error e' => rw [herror a e ha, herror b e' hb]

theorem is_file_iff : a.is_file p = true ↔ ∃ c, kind a p = some (.file c) := by
  unfold Node.is_file
  constructor
  · intro h
    split at h
    · rename_i c hat
      exact ⟨c, kind_file.mpr hat⟩
    · cases h
  · rintro ⟨c, hc⟩
    rw [kind_file.mp hc]

theorem SameFile.is_file (h : SameFile a b p) : b.is_file p = a.is_file p := by
  rw [Bool.eq_iff_iff, is_file_iff, is_file_iff]
  exact exists_congr h

/-! ## The walk reads every directory or fails -/

mutual
theorem collect_ok (at_ : RelPath) : ∀ {n : Node}, WellFormed n →
    (∀ p, n.at_ p ≠ some .closed_dir) → ∃ fs, collect at_ n = .ok fs
  | .file _, _, _ => ⟨_, rfl⟩
  | .other, _, _ => ⟨_, rfl⟩
  | .closed_dir, _, h => absurd rfl (h [])
  | .dir entries, hwf, h => by
    apply collect_entries_ok at_ (by simpa [WellFormed] using hwf)
    intro name n hlook p hp
    exact h (name :: p) (by simp [Node.at_, hlook, hp])

theorem collect_entries_ok (at_ : RelPath) : ∀ {entries : List (Name × Node)},
    WellFormedEntries entries →
    (∀ name n, lookup name entries = some n → ∀ p, n.at_ p ≠ some .closed_dir) →
    ∃ fs, collect_entries at_ entries = .ok fs
  | [], _, _ => ⟨_, rfl⟩
  | e :: entries, hwf, h => by
    obtain ⟨hfree, hnode, hentries⟩ := hwf
    obtain ⟨inner, hinner⟩ := collect_ok (at_ ++ [e.1]) hnode (h e.1 e.2 (by simp [lookup]))
    have hrest : ∀ name n, lookup name entries = some n → ∀ p, n.at_ p ≠ some .closed_dir := by
      intro name n hlook
      have hne : e.1 ≠ name := by
        rintro rfl
        rw [hfree] at hlook
        cases hlook
      exact h name n (by simp [lookup, hne, hlook])
    obtain ⟨more, hmore⟩ := collect_entries_ok at_ hentries hrest
    exact ⟨inner ++ more, by simp [collect_entries, hinner, hmore, bind, Except.bind, pure, Except.pure]⟩
end

mutual
theorem collect_open (at_ : RelPath) : ∀ {n : Node} {fs : List RelPath},
    collect at_ n = .ok fs → ∀ p, n.at_ p ≠ some .closed_dir
  | .file _, _, _, p => by cases p <;> simp [Node.at_]
  | .other, _, _, p => by cases p <;> simp [Node.at_]
  | .closed_dir, _, h, _ => by cases h
  | .dir _, _, _, [] => by simp [Node.at_]
  | .dir entries, _, h, name :: p => by
    intro hat
    simp only [Node.at_, Option.bind_eq_some_iff] at hat
    obtain ⟨n, hlook, hat⟩ := hat
    exact collect_entries_open at_ (by simpa [collect] using h) name n hlook p hat

theorem collect_entries_open (at_ : RelPath) : ∀ {entries : List (Name × Node)}
    {fs : List RelPath}, collect_entries at_ entries = .ok fs →
    ∀ name n, lookup name entries = some n → ∀ p, n.at_ p ≠ some .closed_dir
  | [], _, _, _, _, hlook, _ => by cases hlook
  | e :: entries, _, h, name, n, hlook, p => by
    simp only [collect_entries, bind, Except.bind] at h
    split at h
    · cases h
    rename_i inner hinner
    split at h
    · cases h
    rename_i more hmore
    by_cases hname : e.1 = name
    · simp only [lookup, hname, if_true, Option.some.injEq] at hlook
      subst hlook
      exact collect_open _ hinner p
    · simp only [lookup, hname, if_false] at hlook
      exact collect_entries_open at_ hmore name n hlook p
end

/-! ## Directories that load alike -/

theorem collect_of_files {d : PackageDir} {files : List RelPath} (h : package_files d.root = .ok files) :
    kind d.root [] = some .dir ∧ ∀ p, kind d.root p ≠ some .closed_dir := by
  simp only [package_files, bind, Except.bind] at h
  split at h
  · cases h
  rename_i found hfound
  unfold collect_files at hfound
  split at hfound
  · rename_i entries hroot
    have hopen := collect_open [] (n := .dir entries) (by simpa [collect] using hfound)
    rw [hroot]
    exact ⟨rfl, fun p hp => hopen p (kind_closed.mp hp)⟩
  · cases hfound

theorem files_of_collect {d : PackageDir} (hroot : kind d.root [] = some .dir)
    (hopen : ∀ p, kind d.root p ≠ some .closed_dir) : ∃ files, package_files d.root = .ok files := by
  obtain ⟨entries, hat⟩ := kind_dir.mp hroot
  have hdir : d.root = .dir entries := Option.some.inj hat
  obtain ⟨found, hfound⟩ := collect_ok [] d.well_formed (fun p hp => hopen p (kind_closed.mpr hp))
  rw [hdir] at hfound ⊢
  have hcollect : collect_files (.dir entries) = .ok found := by
    simpa [collect, collect_files] using hfound
  refine ⟨(found.filter included).insertionSort before, ?_⟩
  simp only [package_files, bind, Except.bind, hcollect, pure, Except.pure]

/-- A directory whose package files are intact has the same list of them. -/
theorem package_files_eq {A B : PackageDir} {files : List RelPath} (h : package_files A.root = .ok files)
    (hintact : Intact A.root B.root) (hroot : kind B.root [] = some .dir)
    (hopen : ∀ p, kind B.root p ≠ some .closed_dir) : package_files B.root = .ok files := by
  obtain ⟨files', h'⟩ := files_of_collect hroot hopen
  obtain ⟨found, hnodup, hsort, hmem⟩ := package_files_spec h
  obtain ⟨found', hnodup', hsort', hmem'⟩ := package_files_spec h'
  rw [h', hsort, hsort', sorted_eq hnodup' hnodup]
  intro p
  rw [hmem, hmem']
  refine and_congr_right fun hinc => exists_congr fun c => ?_
  rw [← kind_file, ← kind_file]
  exact hintact p hinc c

theorem records_eq {files : List RelPath} (h : ∀ p ∈ files, b.read p = a.read p) :
    records b files = records a files := by
  induction files with
  | nil => rfl
  | cons p files ih =>
    have hrest := ih (fun q hq => h q (List.mem_cons_of_mem p hq))
    simp only [records] at hrest ⊢
    rw [List.mapM_cons, List.mapM_cons, hrest, h p List.mem_cons_self]

section Load
variable {sha256 : Bytes → Bytes} {toml : List Char → Except AppError RunManifest} {dir : paths.Path}

/-- What a load reads. -/
structure Parts (sha256 : Bytes → Bytes) (toml : List Char → Except AppError RunManifest)
    (dir : paths.Path) (root : Node) (pkg : AppPackage) (m : RunManifest) : Prop where
  place : pkg.dir = dir ∧ pkg.root = root
  read : root.read MANIFEST = .ok pkg.manifest_bytes
  manifest : ∃ chars, from_utf8 pkg.manifest_bytes = some chars ∧ parse toml chars = .ok m
  signed : pkg.manifest = web_entrypoint m.signed
  entrypoint : check_entrypoint root pkg.manifest = .ok ()
  files : package_files root = .ok pkg.files
  digest : digest_files sha256 root pkg.files = .ok pkg.content_digest

theorem read_manifest_ok {root : Node} {bytes : Bytes} :
    read_manifest dir root = .ok bytes ↔ root.read MANIFEST = .ok bytes := by
  unfold read_manifest
  cases h : root.read MANIFEST <;> simp

theorem load_parts {root : Node} {pkg : AppPackage} (h : load_app sha256 toml dir root = .ok pkg) :
    ∃ m, manifest_of toml dir root = .ok m ∧ Parts sha256 toml dir root pkg m := by
  simp only [load_app, load, bind, Except.bind, pure, Except.pure] at h
  split at h
  · cases h
  rename_i bytes hbytes
  cases htext : from_utf8 bytes with
  | none => simp [htext, throw, throwThe, MonadExceptOf.throw] at h
  | some chars =>
  simp only [htext] at h
  cases hparse : parse toml chars with
  | error e => simp [hparse, Except.map] at h
  | ok m =>
  simp only [hparse, Except.map] at h
  split at h
  · cases h
  rename_i hentry
  split at h
  · cases h
  rename_i files hfiles
  split at h
  · cases h
  rename_i digest hdigest
  cases h
  refine ⟨m, ?_, ⟨rfl, rfl⟩, read_manifest_ok.mp hbytes, ⟨chars, htext, hparse⟩, rfl, hentry,
    hfiles, hdigest⟩
  simp only [manifest_of, bind, Except.bind, hbytes, htext, hparse]

theorem parts_load {root : Node} {pkg : AppPackage} {m : RunManifest}
    (h : Parts sha256 toml dir root pkg m) : load_app sha256 toml dir root = .ok pkg := by
  obtain ⟨⟨rfl, rfl⟩, hread, ⟨chars, htext, hparse⟩, hsigned, hentry, hfiles, hdigest⟩ := h
  have hbytes := (@read_manifest_ok pkg.dir _ _).mpr hread
  simp only [load_app, load, bind, Except.bind, pure, Except.pure, hbytes, htext, hparse, Except.map,
    ← hsigned, hentry, hfiles, hdigest]

theorem parts_manifest {root : Node} {pkg : AppPackage} {m : RunManifest}
    (h : Parts sha256 toml dir root pkg m) : manifest_of toml dir root = .ok m := by
  obtain ⟨chars, htext, hparse⟩ := h.manifest
  simp only [manifest_of, bind, Except.bind, read_manifest_ok.mpr h.read, htext, hparse]

/-- The directory still is what the package was loaded from. -/
structure Kept (m : RunManifest) (A B : PackageDir) : Prop where
  intact : Intact A.root B.root
  signature : SameFile A.root B.root SIGNATURE
  root : kind B.root [] = some .dir
  listable : ∀ p, kind B.root p ≠ some .closed_dir
  entrypoint : m.runtime ≠ .Native →
    ∀ p, RelPath.of (web_entrypoint m.signed).entrypoint = some p → A.root.is_file p = true →
      B.root.is_file p = true

theorem MANIFEST_included : included MANIFEST = true := by decide

theorem entrypoint_ok {m : Manifest} (h : check_entrypoint a m = .ok ()) (hnative : m.runtime ≠ .Native) :
    ∃ p, RelPath.of m.entrypoint = some p ∧ a.is_file p = true := by
  unfold check_entrypoint at h
  rcases hp : RelPath.of m.entrypoint with _ | p
  · cases hr : m.runtime <;> simp [hp, hr] at h hnative
  · refine ⟨p, rfl, ?_⟩
    cases hr : m.runtime <;> simp_all

theorem entrypoint_kept {m : Manifest} (h : check_entrypoint a m = .ok ())
    (hkept : m.runtime ≠ .Native → ∀ p, RelPath.of m.entrypoint = some p → a.is_file p = true →
      b.is_file p = true) : check_entrypoint b m = .ok () := by
  by_cases hnative : m.runtime = .Native
  · simp [check_entrypoint, hnative]
  · obtain ⟨p, hp, hfile⟩ := entrypoint_ok h hnative
    have hb := hkept hnative p hp hfile
    unfold check_entrypoint
    cases hr : m.runtime <;> simp [hp, hb]

theorem signed_runtime (m : RunManifest) : (web_entrypoint m.signed).runtime = m.runtime := by
  unfold web_entrypoint
  split <;> rfl

/-- Such a directory loads as the same package. -/
theorem Parts.kept {A B : PackageDir} {pkg : AppPackage} {m : RunManifest}
    (h : Parts sha256 toml dir A.root pkg m) (hkept : Kept m A B) :
    Parts sha256 toml dir B.root { pkg with root := B.root } m := by
  have hfiles := package_files_eq h.files hkept.intact hkept.root hkept.listable
  have hreads : ∀ p ∈ pkg.files, B.root.read p = A.root.read p := by
    obtain ⟨found, -, hsort, hmem⟩ := package_files_spec h.files
    intro p hp
    rw [hsort, List.mem_insertionSort, hmem] at hp
    exact SameFile.read (hkept.intact p hp.1)
  refine ⟨⟨h.place.1, rfl⟩, ?_, h.manifest, h.signed, ?_, hfiles, ?_⟩
  · rw [SameFile.read (hkept.intact MANIFEST MANIFEST_included)]
    exact h.read
  · refine entrypoint_kept h.entrypoint ?_
    rw [h.signed, signed_runtime]
    exact hkept.entrypoint
  · have hdigest := h.digest
    simp only [digest_files, digest_stream, records_eq hreads] at hdigest ⊢
    exact hdigest

theorem Kept.verify {m : RunManifest} {A B : PackageDir} (hkept : Kept m A B) {pkg : AppPackage}
    (hroot : pkg.root = A.root) (ids : Scheme) (candidates : List (Bytes × Bytes)) :
    ({ pkg with root := B.root }).verify_any_key ids candidates = pkg.verify_any_key ids candidates := by
  simp only [AppPackage.verify_any_key, AppPackage.signing_payload, hroot, hkept.signature.is_file,
    hkept.signature.read]

/-! ## A harmless run -/

theorem not_reserved_of_included (h : included p = true) : ¬ Reserved p := by
  rintro ⟨n, hn, hbytes⟩
  simp only [included, Bool.and_eq_true, decide_eq_true_eq] at h
  exact h.2 n hn hbytes

theorem signature_not_reserved : ¬ Reserved SIGNATURE := by
  rintro ⟨n, hn, hbytes⟩
  cases hn
  exact absurd hbytes (by decide)

/-- Below a directory of runtime state is runtime state. -/
theorem reserved_of_below {dirs : List RelPath} (hdirs : ∀ d ∈ dirs, Reserved d) (h : Below dirs p) :
    Reserved p := by
  obtain ⟨d, hd, ⟨rest, rfl⟩, -⟩ := h
  obtain ⟨n, hn, hbytes⟩ := hdirs d hd
  cases d with
  | nil => cases hn
  | cons first d => exact ⟨n, hn, hbytes⟩

theorem reserved_of_log (h : RunLog p) : Reserved p := by
  obtain ⟨n, rfl, -⟩ := h
  exact ⟨LOGS, rfl, by decide⟩

/-- What is no runtime state stands after a harmless run as before. -/
theorem Leaves.keeps {dirs : List RelPath} {A B : PackageDir} (h : Leaves dirs A B)
    (hdirs : ∀ d ∈ dirs, Reserved d) (hp : ¬ Reserved p) : kind B.root p = kind A.root p := by
  apply h.kept p
  · exact fun hbelow => hp (reserved_of_below hdirs hbelow)
  · exact fun hlog => hp (reserved_of_log hlog)
  · rintro rfl
    exact hp ⟨DATA, rfl, by decide⟩
  · rintro rfl
    exact hp ⟨LOGS, rfl, by decide⟩

/-- A file outside the guest's directories and the logs stays a file. -/
theorem Leaves.keeps_file {dirs : List RelPath} {A B : PackageDir} (h : Leaves dirs A B)
    (hbelow : ¬ Below dirs p) (hlog : ¬ RunLog p) (hfile : A.root.is_file p = true) :
    B.root.is_file p = true := by
  obtain ⟨c, hc⟩ := is_file_iff.mp hfile
  refine is_file_iff.mpr ⟨c, ?_⟩
  by_cases hmade : p = [DATA] ∨ p = [LOGS]
  · rcases h.made p hbelow hmade with heq | ⟨hnone, -⟩
    · rw [heq, hc]
    · rw [hnone] at hc
      cases hc
  · rw [not_or] at hmade
    rw [h.kept p hbelow hlog hmade.1 hmade.2, hc]

theorem Leaves.kept_of_harmless {A B : PackageDir} {pkg : AppPackage} {m : RunManifest}
    (hparts : Parts sha256 toml dir A.root pkg m) (hharmless : Harmless A.root m)
    (h : Leaves (granted A.root m) A B) : Kept m A B := by
  obtain ⟨hroot, hopen⟩ := collect_of_files hparts.files
  refine ⟨fun p hp => ?_, ?_, ?_, fun p hp => hopen p (h.listable p hp), fun hnative p hof hfile => ?_⟩
  · exact same_file_of_kind (h.keeps hharmless.reserved (not_reserved_of_included hp))
  · exact same_file_of_kind (h.keeps hharmless.reserved signature_not_reserved)
  · rw [h.keeps hharmless.reserved (by rintro ⟨n, hn, -⟩; cases hn), hroot]
  · obtain ⟨hbelow, hlog⟩ := hharmless.entrypoint hnative p hof
    exact h.keeps_file hbelow hlog hfile

/-! ## One change of a tree -/

/-- The entries with this one at the name, or none. -/
def put (name : Name) (n : Option Node) (entries : List (Name × Node)) : List (Name × Node) :=
  (n.map (fun n => (name, n))).toList ++ entries.filter (fun e => e.1 ≠ name)

/-- The tree with this at the name in the directory, or nothing. -/
def change : Node → RelPath → Name → Option Node → Node
  | .dir entries, [], name, n => .dir (put name n entries)
  | .dir entries, first :: rest, name, n =>
    match lookup first entries with
    | some child => .dir (put first (some (change child rest name n)) entries)
    | none => .dir entries
  | root, _, _, _ => root

/-- Without the entries of a name, that name finds nothing, and every other what it did. -/
theorem lookup_filter (name other : Name) (entries : List (Name × Node)) :
    lookup other (entries.filter (fun e => e.1 ≠ name)) =
      if other = name then none else lookup other entries := by
  induction entries with
  | nil => simp [lookup]
  | cons e entries ih =>
    by_cases he : e.1 = name
    · rw [List.filter_cons_of_neg (by simp [he]), ih]
      split
      · rfl
      · rename_i hother
        have hne : e.1 ≠ other := fun h => hother (h.symm.trans he)
        simp [lookup, hne]
    · rw [List.filter_cons_of_pos (by simp [he])]
      by_cases hother : other = name
      · subst hother
        simpa [lookup, he] using ih
      · simp only [lookup, ih, if_neg hother]

theorem lookup_put (name other : Name) (n : Option Node) (entries : List (Name × Node)) :
    lookup other (put name n entries) = if other = name then n else lookup other entries := by
  unfold put
  by_cases h : other = name
  · subst h
    rcases n with _ | n
    · simpa using lookup_filter other other entries
    · simp [lookup]
  · rcases n with _ | n
    · simpa [h] using lookup_filter name other entries
    · have hne : ¬ name = other := fun heq => h heq.symm
      simpa [h, hne, lookup] using lookup_filter name other entries

theorem well_formed_filter (name : Name) {entries : List (Name × Node)}
    (h : WellFormedEntries entries) : WellFormedEntries (entries.filter (fun e => e.1 ≠ name)) := by
  induction entries with
  | nil => trivial
  | cons e entries ih =>
    obtain ⟨hfree, hnode, hentries⟩ := h
    by_cases he : e.1 = name
    · rw [List.filter_cons_of_neg (by simp [he])]
      exact ih hentries
    · rw [List.filter_cons_of_pos (by simp [he])]
      exact ⟨by rw [lookup_filter, if_neg he, hfree], hnode, ih hentries⟩

theorem well_formed_put (name : Name) {n : Option Node} {entries : List (Name × Node)}
    (hn : ∀ m ∈ n, WellFormed m) (h : WellFormedEntries entries) :
    WellFormedEntries (put name n entries) := by
  rcases n with _ | n
  · exact well_formed_filter name h
  · have hfree := lookup_filter name name entries
    rw [if_pos rfl] at hfree
    exact ⟨hfree, hn n rfl, well_formed_filter name h⟩

theorem well_formed_lookup {name : Name} {n : Node} {entries : List (Name × Node)}
    (h : WellFormedEntries entries) (hlook : lookup name entries = some n) : WellFormed n := by
  induction entries with
  | nil => cases hlook
  | cons e entries ih =>
    obtain ⟨-, hnode, hentries⟩ := h
    by_cases he : e.1 = name
    · simp only [lookup, he, if_true, Option.some.injEq] at hlook
      exact hlook ▸ hnode
    · simp only [lookup, he, if_false] at hlook
      exact ih hentries hlook

theorem change_well_formed {n : Option Node} (hn : ∀ m ∈ n, WellFormed m) (name : Name)
    (d : RelPath) {root : Node} (h : WellFormed root) : WellFormed (change root d name n) := by
  induction d generalizing root with
  | nil =>
    cases root with
    | dir entries => exact well_formed_put name hn h
    | _ => exact h
  | cons first rest ih =>
    cases root with
    | dir entries =>
      unfold change
      split
      · rename_i child hlook
        refine well_formed_put first ?_ h
        rintro m ⟨⟩
        exact ih (well_formed_lookup h hlook)
      · exact h
    | _ => exact h

/-- At the changed path stands what was put there. -/
theorem change_at (n : Option Node) (name : Name) (rest d : RelPath) {root : Node}
    {entries : List (Name × Node)} (hdir : root.at_ d = some (.dir entries)) :
    (change root d name n).at_ (d ++ name :: rest) = n.bind (fun m => m.at_ rest) := by
  induction d generalizing root with
  | nil =>
    cases hdir
    simp [change, Node.at_, lookup_put]
  | cons first d ih =>
    cases root with
    | dir es =>
      simp only [Node.at_, Option.bind_eq_some_iff] at hdir
      obtain ⟨child, hlook, hdir⟩ := hdir
      simp only [change, hlook, List.cons_append, Node.at_, lookup_put, if_true, Option.bind_some]
      exact ih hdir
    | _ => simp [Node.at_] at hdir

/-- What stands elsewhere is of the same kind as before. -/
theorem change_kind (n : Option Node) (name : Name) (d q : RelPath) {root : Node}
    (hq : ¬ (d ++ [name]) <+: q) : kind (change root d name n) q = kind root q := by
  induction d generalizing root q with
  | nil =>
    cases root with
    | dir entries =>
      cases q with
      | nil => rfl
      | cons other q =>
        have hne : other ≠ name := by
          rintro rfl
          exact hq ⟨q, rfl⟩
        simp [change, kind, Node.at_, lookup_put, hne]
    | _ => rfl
  | cons first d ih =>
    cases root with
    | dir entries =>
      unfold change
      split
      · rename_i child hlook
        cases q with
        | nil => rfl
        | cons other q =>
          by_cases hother : other = first
          · subst hother
            have hsub : ¬ (d ++ [name]) <+: q := by
              rintro ⟨rest, rfl⟩
              exact hq ⟨rest, rfl⟩
            have hchild := @ih q child hsub
            simpa [kind, Node.at_, lookup_put, hlook] using hchild
          · simp [kind, Node.at_, lookup_put, hother]
      · rfl
    | _ => rfl

/-! ## A run that is not harmless -/

def POKE : Name := ⟨utf8 "guest.txt", by decide⟩

theorem below_of_child {dirs : List RelPath} {d : RelPath} (hd : d ∈ dirs) {name : Name}
    (h : (d ++ [name]) <+: p) : Below dirs p := by
  obtain ⟨rest, rfl⟩ := h
  exact ⟨d, hd, ⟨name :: rest, by simp⟩, by simp⟩

theorem below_of_starts {dirs : List RelPath} {q : RelPath} (h : Below dirs q) (hp : q <+: p) :
    Below dirs p := by
  obtain ⟨d, hd, hq, hne⟩ := h
  refine ⟨d, hd, hq.trans hp, ?_⟩
  rintro rfl
  exact hne (hq.eq_of_length (le_antisymm hq.length_le hp.length_le))

/-- The directory with one thing put or removed at a name. -/
def PackageDir.change (A : PackageDir) (d : RelPath) (name : Name) (n : Option Node)
    (hn : ∀ m ∈ n, WellFormed m) : PackageDir where
  root := run.change A.root d name n
  well_formed := change_well_formed hn name d A.well_formed

/-- What a guest may do to a file below one of its directories. -/
theorem guest_leaves {dirs : List RelPath} {A : PackageDir} {d : RelPath} {name : Name}
    {entries : List (Name × Node)} (hdir : A.root.at_ d = some (.dir entries))
    (hbelow : Below dirs (d ++ [name])) (content : Option (Option Bytes)) :
    Leaves dirs A (PackageDir.change A d name (content.map Node.file)
      (by rintro m hm; obtain ⟨c, -, rfl⟩ := Option.map_eq_some_iff.mp hm; trivial)) := by
  have helse : ∀ p, ¬ Below dirs p →
      kind (change A.root d name (content.map Node.file)) p = kind A.root p := by
    intro p hp
    exact change_kind _ name d p (fun hprefix => hp (below_of_starts hbelow hprefix))
  refine ⟨fun p hp _ _ _ => helse p hp, fun p hp _ => .inl (helse p hp),
    fun p hp _ => .inl (helse p hp), fun p hclosed => ?_⟩
  by_cases hprefix : (d ++ [name]) <+: p
  · obtain ⟨rest, rfl⟩ := hprefix
    have hat := kind_closed.mp hclosed
    simp only [PackageDir.change, List.append_assoc, List.cons_append, List.nil_append,
      change_at _ name rest d hdir] at hat
    rcases content with _ | c
    · cases hat
    · cases rest <;> simp [Node.at_] at hat
  · rw [← change_kind (content.map Node.file) name d p hprefix]
    exact hclosed

/-- A later record prunes a run log. -/
theorem host_leaves {dirs : List RelPath} {A : PackageDir} {name : Name}
    {entries : List (Name × Node)} (hdir : A.root.at_ [LOGS] = some (.dir entries))
    (hlog : RunLog [LOGS, name]) (hfile : A.root.is_file [LOGS, name] = true) :
    Leaves dirs A (PackageDir.change A [LOGS] name none (by rintro m ⟨⟩)) := by
  obtain ⟨c, hc⟩ := is_file_iff.mp hfile
  have hat : ∀ rest, kind (change A.root [LOGS] name none) ([LOGS, name] ++ rest) = none := by
    intro rest
    have hgone := change_at none name rest [LOGS] hdir
    simp only [List.singleton_append] at hgone
    simp [kind, hgone]
  have helse : ∀ p, p ≠ [LOGS, name] → kind (change A.root [LOGS] name none) p = kind A.root p := by
    intro p hp
    by_cases hprefix : [LOGS, name] <+: p
    · -- nothing is below a file
      obtain ⟨rest, rfl⟩ := hprefix
      cases rest with
      | nil => exact absurd rfl hp
      | cons first rest =>
        rw [hat, kind, at_append, kind_file.mp hc]
        rfl
    · exact change_kind none name [LOGS] p hprefix
  refine ⟨fun p _ hno _ _ => helse p (fun h => hno (h ▸ hlog)), fun p _ hp => .inl (helse p ?_),
    fun p _ _ => ?_, fun p hclosed => ?_⟩
  · rcases hp with rfl | rfl <;> simp
  · by_cases hp : p = [LOGS, name]
    · subst hp
      have hnone := hat []
      simp only [List.append_nil] at hnone
      exact .inr ⟨by rw [hc]; trivial, by simp only [PackageDir.change]; rw [hnone]; trivial⟩
    · exact .inl (helse p hp)
  · by_cases hp : p = [LOGS, name]
    · subst hp
      have hnone := hat []
      simp only [List.append_nil] at hnone
      simp only [PackageDir.change] at hclosed
      rw [hnone] at hclosed
      cases hclosed
    · rwa [← helse p hp]

theorem open_dir_spec {root : Node} {rel : String} {d : RelPath} (h : open_dir root rel = .ok d) :
    RelPath.of rel = some d ∧ kind root d = some .dir := by
  unfold open_dir at h
  split at h
  · cases h
  · rename_i p hof
    split at h
    · rename_i hkind
      cases h
      exact ⟨hof, hkind⟩
    · cases h
    · cases h

/-- Each directory that is opened was named, and is there. -/
theorem open_dirs_spec {root : Node} {rels : List String} {dirs : List RelPath}
    (h : rels.mapM (open_dir root) = .ok dirs) :
    ∀ d ∈ dirs, ∃ rel ∈ rels, RelPath.of rel = some d ∧ kind root d = some .dir := by
  induction rels generalizing dirs with
  | nil =>
    cases h
    simp
  | cons rel rels ih =>
    simp only [List.mapM_cons, bind, Except.bind, pure, Except.pure] at h
    split at h
    · cases h
    rename_i first hfirst
    split at h
    · cases h
    rename_i rest hrest
    cases h
    intro d hd
    rcases List.mem_cons.mp hd with rfl | hd
    · exact ⟨rel, List.mem_cons_self, open_dir_spec hfirst⟩
    · obtain ⟨other, hother, hopened⟩ := ih hrest d hd
      exact ⟨other, List.mem_cons_of_mem rel hother, hopened⟩

theorem preopens_spec {root : Node} {m : RunManifest} {dirs : List RelPath}
    (h : preopens root m = .ok dirs) : ∃ opened data,
      m.permissions.files.mapM (open_dir root) = .ok opened ∧
        open_data root m.toAppManifest = .ok data ∧ dirs = opened ++ data := by
  simp only [preopens, bind, Except.bind, pure, Except.pure] at h
  split at h
  · cases h
  split at h
  · cases h
  rename_i opened hopened
  split at h
  · cases h
  rename_i data hdata
  cases h
  exact ⟨opened, data, hopened, hdata, rfl⟩

theorem open_data_reserved {root : Node} {m : AppManifest} {data : List RelPath}
    (h : open_data root m = .ok data) : ∀ d ∈ data, Reserved d := by
  intro d hd
  have hone : d = [DATA] := by
    unfold open_data at h
    split at h
    · cases h
      cases hd
    · split at h
      all_goals cases h
      all_goals exact List.mem_singleton.mp hd
  exact ⟨DATA, by rw [hone]; rfl, by decide⟩

/-- A guest's directory is runtime state, or one that the manifest names and that is there. -/
theorem granted_spec {root : Node} {m : RunManifest} {d : RelPath} (hd : d ∈ granted root m) :
    Reserved d ∨
      ∃ rel ∈ m.permissions.files, RelPath.of rel = some d ∧ kind root d = some .dir := by
  cases hpre : preopens root m with
  | error e =>
    rw [granted, hpre] at hd
    cases hd
  | ok dirs =>
    rw [granted, hpre] at hd
    obtain ⟨opened, data, hopened, hdata, rfl⟩ := preopens_spec hpre
    rcases List.mem_append.mp hd with hd | hd
    · exact .inr (open_dirs_spec hopened d hd)
    · exact .inl (open_data_reserved hdata d hd)

theorem granted_dir {root : Node} {m : RunManifest} {d : RelPath} (hd : d ∈ granted root m)
    (hreserved : ¬ Reserved d) : ∃ entries, root.at_ d = some (.dir entries) := by
  rcases granted_spec hd with hown | ⟨rel, -, -, hkind⟩
  · exact absurd hown hreserved
  · exact kind_dir.mp hkind

/-! ## All runs of an app -/

theorem Kept.refl {A : PackageDir} {pkg : AppPackage} {m : RunManifest}
    (h : Parts sha256 toml dir A.root pkg m) : Kept m A A :=
  have ⟨hroot, hopen⟩ := collect_of_files h.files
  ⟨fun _ _ _ => .rfl, fun _ => .rfl, hroot, hopen, fun _ _ _ hfile => hfile⟩

theorem Intact.trans {c : Node} (hab : Intact a b) (hbc : Intact b c) : Intact a c :=
  fun p hp content => (hbc p hp content).trans (hab p hp content)

theorem Kept.trans {m : RunManifest} {A B C : PackageDir} (hab : Kept m A B) (hbc : Kept m B C) :
    Kept m A C where
  intact := hab.intact.trans hbc.intact
  signature content := (hbc.signature content).trans (hab.signature content)
  root := hbc.root
  listable := hbc.listable
  entrypoint hnative p hof hfile := hbc.entrypoint hnative p hof (hab.entrypoint hnative p hof hfile)

/-- Every run that starts in a directory that loads is harmless. -/
def AllHarmless (sha256 : Bytes → Bytes) (toml : List Char → Except AppError RunManifest)
    (dir : paths.Path) (A : PackageDir) : Prop :=
  ∀ B, Reaches sha256 toml dir A B → ∀ pkg m, load_app sha256 toml dir B.root = .ok pkg →
    manifest_of toml dir B.root = .ok m → Harmless B.root m

theorem runs_kept {A : PackageDir} {pkg : AppPackage} {m : RunManifest}
    (hparts : Parts sha256 toml dir A.root pkg m) (hall : AllHarmless sha256 toml dir A)
    {B : PackageDir} (h : Reaches sha256 toml dir A B) : Kept m A B := by
  induction h with
  | refl => exact Kept.refl hparts
  | @tail B C hreach hrun ih =>
    have hB := hparts.kept ih
    obtain ⟨pkg', m', hload, hmanifest, hleaves⟩ := hrun
    have hm : m' = m := Except.ok.inj (hmanifest.symm.trans (parts_manifest hB))
    subst hm
    exact ih.trans (hleaves.kept_of_harmless hB (hall B hreach _ _ hload hmanifest))

/-- Bytes that are not those of the entry. -/
def other_bytes : Option Kind → Bytes
  | some (.file (some bytes)) => bytes ++ [0]
  | _ => []

/-- A guest with a directory of package content can change what is signed. -/
theorem guest_breaks {A : PackageDir} {pkg : AppPackage} {m : RunManifest} {d : RelPath}
    (hload : load_app sha256 toml dir A.root = .ok pkg) (hmanifest : manifest_of toml dir A.root = .ok m)
    (hd : d ∈ granted A.root m) (hreserved : ¬ Reserved d) :
    ∃ B, Runs sha256 toml dir A B ∧ ¬ Intact A.root B.root := by
  obtain ⟨entries, hdir⟩ := granted_dir hd hreserved
  let fresh := other_bytes (kind A.root (d ++ [POKE]))
  have hbelow : Below (granted A.root m) (d ++ [POKE]) := below_of_child hd (List.prefix_refl _)
  have hleaves := guest_leaves hdir hbelow (some (some fresh))
  refine ⟨_, ⟨pkg, m, hload, hmanifest, hleaves⟩, fun hintact => ?_⟩
  have hincluded : included (d ++ [POKE]) = true := by
    cases d with
    | nil => decide
    | cons first d =>
      have hne : first :: (d ++ [POKE]) ≠ SIGNATURE := by simp [SIGNATURE]
      have hfree : first.bytes ∉ RESERVED_DIRS := fun h => hreserved ⟨first, rfl, h⟩
      simp [included, hfree, hne]
  have hput : kind (change A.root d POKE (some (.file (some fresh)))) (d ++ [POKE]) =
      some (.file (some fresh)) := by
    rw [kind, change_at _ POKE [] d hdir]
    rfl
  have hold := (hintact _ hincluded (some fresh)).mp hput
  have hsame : fresh = fresh ++ [0] := by
    have hfresh : fresh = other_bytes (kind A.root (d ++ [POKE])) := rfl
    rw [hold] at hfresh
    exact hfresh
  simpa using congrArg List.length hsame

theorem parent_dir {A : PackageDir} {files : List RelPath} (hfiles : package_files A.root = .ok files)
    (hfile : A.root.is_file p = true) : ∃ d name entries, p = d ++ [name] ∧
      A.root.at_ d = some (.dir entries) := by
  obtain ⟨c, hc⟩ := is_file_iff.mp hfile
  rcases List.eq_nil_or_concat' p with rfl | ⟨d, name, rfl⟩
  · rw [(collect_of_files hfiles).1] at hc
    cases hc
  · have hat := kind_file.mp hc
    rw [at_append] at hat
    obtain ⟨n, hn, hat⟩ := Option.bind_eq_some_iff.mp hat
    cases n with
    | dir entries => exact ⟨d, name, entries, rfl, hn⟩
    | _ => simp [Node.at_] at hat

/-- A directory without its entrypoint does not load. -/
theorem entrypoint_lost {A B : PackageDir} {pkg pkg' : AppPackage} {m : RunManifest} {p : RelPath}
    (hA : Parts sha256 toml dir A.root pkg m) (hnative : m.runtime ≠ .Native)
    (hof : RelPath.of (web_entrypoint m.signed).entrypoint = some p) (hgone : kind B.root p = none)
    (hintact : Intact A.root B.root) : load_app sha256 toml dir B.root ≠ .ok pkg' := by
  intro hload
  obtain ⟨m', -, hB⟩ := load_parts hload
  have hbytes : pkg'.manifest_bytes = pkg.manifest_bytes := by
    have hread := SameFile.read (hintact MANIFEST MANIFEST_included)
    rw [hA.read, hB.read] at hread
    exact Except.ok.inj hread
  obtain ⟨chars, htext, hparse⟩ := hA.manifest
  obtain ⟨chars', htext', hparse'⟩ := hB.manifest
  rw [hbytes, htext] at htext'
  cases htext'
  have hm : m' = m := Except.ok.inj (hparse'.symm.trans hparse)
  subst hm
  have hentry := hB.entrypoint
  rw [hB.signed] at hentry
  obtain ⟨q, hq, hfile⟩ := entrypoint_ok hentry (by rwa [signed_runtime])
  rw [hof] at hq
  cases hq
  obtain ⟨c, hc⟩ := is_file_iff.mp hfile
  rw [hgone] at hc
  cases hc

/-- A run that is not harmless can leave a directory with other content, or one that no
longer loads. -/
theorem harmful_breaks {A : PackageDir} {pkg : AppPackage} {m : RunManifest}
    (hload : load_app sha256 toml dir A.root = .ok pkg) (hmanifest : manifest_of toml dir A.root = .ok m)
    (hharm : ¬ Harmless A.root m) : ∃ B, Runs sha256 toml dir A B ∧
      ¬ (Intact A.root B.root ∧ ∃ pkg', load_app sha256 toml dir B.root = .ok pkg') := by
  obtain ⟨m', hm', hparts⟩ := load_parts hload
  have hm : m' = m := Except.ok.inj (hm'.symm.trans hmanifest)
  subst hm
  by_cases hreserved : ∀ d ∈ granted A.root m', Reserved d
  · have hentry : ¬ (m'.runtime ≠ .Native → ∀ p,
        RelPath.of (web_entrypoint m'.signed).entrypoint = some p →
          ¬ Below (granted A.root m') p ∧ ¬ RunLog p) := fun h => hharm ⟨hreserved, h⟩
    simp only [not_forall] at hentry
    obtain ⟨hnative, p, hof, htouched⟩ := hentry
    have hfile : A.root.is_file p = true := by
      have hok := hparts.entrypoint
      rw [hparts.signed] at hok
      obtain ⟨q, hq, hfile⟩ := entrypoint_ok hok (by rwa [signed_runtime])
      rw [hof] at hq
      cases hq
      exact hfile
    -- the entrypoint is removed, by the guest or with an old log
    obtain ⟨B, hruns, hgone⟩ : ∃ B, Runs sha256 toml dir A B ∧ kind B.root p = none := by
      obtain ⟨d, name, entries, rfl, hdir⟩ := parent_dir hparts.files hfile
      have hgone : kind (change A.root d name none) (d ++ [name]) = none := by
        rw [kind, change_at none name [] d hdir]
        rfl
      by_cases hbelow : Below (granted A.root m') (d ++ [name])
      · exact ⟨_, ⟨pkg, m', hload, hmanifest, guest_leaves hdir hbelow none⟩, hgone⟩
      · have hlog : RunLog (d ++ [name]) := by
          by_contra hlog
          exact htouched ⟨hbelow, hlog⟩
        obtain ⟨n, hn, -⟩ := id hlog
        obtain ⟨rfl, hname⟩ := @List.append_inj' _ d _ [LOGS] _ hn rfl
        exact ⟨_, ⟨pkg, m', hload, hmanifest, host_leaves hdir hlog hfile⟩, hgone⟩
    refine ⟨B, hruns, ?_⟩
    rintro ⟨hintact, pkg', hload'⟩
    exact entrypoint_lost hparts hnative hof hgone hintact hload'
  · simp only [not_forall] at hreserved
    obtain ⟨d, hd, hno⟩ := hreserved
    obtain ⟨B, hruns, hbroken⟩ := guest_breaks hload hmanifest hd hno
    exact ⟨B, hruns, fun h => hbroken h.1⟩

/-- A manifest whose permissions name runtime state only, with an entrypoint that is none. -/
theorem harmless_of_manifest {m : RunManifest}
    (hfiles : ∀ rel ∈ m.permissions.files, ∀ p, RelPath.of rel = some p → Reserved p)
    (hentry : ∀ p, RelPath.of (web_entrypoint m.signed).entrypoint = some p → ¬ Reserved p)
    (root : Node) : Harmless root m := by
  have hgranted : ∀ d ∈ granted root m, Reserved d := by
    intro d hd
    rcases granted_spec hd with hown | ⟨rel, hrel, hof, -⟩
    · exact hown
    · exact hfiles rel hrel d hof
  refine ⟨hgranted, fun _ p hof => ⟨fun hbelow => ?_, fun hlog => ?_⟩⟩
  · exact hentry p hof (reserved_of_below hgranted hbelow)
  · exact hentry p hof (reserved_of_log hlog)

end Load

/-! ## Two apps -/

def app_toml (files : String) : String :=
  "[app]\nname = \"Demo\"\nversion = \"1.0.0\"\n[permissions]\nfiles = [\"" ++ files ++ "\"]\n"

def demo_manifest (files : String) : RunManifest where
  app := { name := "Demo", version := "1.0.0", entrypoint := default_entrypoint, id := none }
  storage := { type := .Sqlite, path := none }
  permissions := { files := [files] }
  migration := { auto_migrate := true }
  runtime := .Wasm
  serve := false

def demo_toml_of (files : String) (chars : List Char) : Except AppError RunManifest :=
  if chars = (app_toml files).toList then .ok (demo_manifest files) else .error (.Manifest "bad toml")

theorem manifest_is_name : IsName (utf8 "manifest.toml") := by decide

theorem wasm_is_name : IsName (utf8 "app.wasm") := by decide

theorem signature_is_name : IsName (utf8 "signature.bin") := by decide

def FILES : Name := ⟨utf8 "files", by decide⟩

def README : Name := ⟨utf8 "readme", by decide⟩

def app_entries (files : String) (sig readme : Bytes) : List (Name × Node) :=
  [file "manifest.toml" manifest_is_name (utf8 (app_toml files)),
    file "app.wasm" wasm_is_name [1], file "signature.bin" signature_is_name sig,
    (FILES, .dir [(README, .file (some readme))])]

def app_dir (files : String) (sig readme : Bytes) : PackageDir where
  root := .dir (app_entries files sig readme)
  well_formed :=
    ⟨rfl, trivial, rfl, trivial, rfl, trivial, rfl, ⟨rfl, trivial, trivial⟩, trivial⟩

/-- The app as installed, signed by the demo scheme. -/
def installed (files : String) : PackageDir :=
  match load_app demo_sha256 (demo_toml_of files) [] (app_dir files [] [65]).root with
  | .ok pkg => app_dir files (demo_ids.sign [] pkg.signing_payload) [65]
  | .error _ => app_dir files [] [65]

theorem installed_dir (files : String) : ∃ sig, installed files = app_dir files sig [65] := by
  unfold installed
  split
  · exact ⟨_, rfl⟩
  · exact ⟨_, rfl⟩

def verified (files : String) (root : Node) : Option Bytes :=
  match load_app demo_sha256 (demo_toml_of files) [] root with
  | .ok pkg => (pkg.verify_any_key demo_ids [([1], [2])]).toOption
  | .error _ => none

theorem verified_spec {files : String} {root : Node} {signer : Bytes}
    (h : verified files root = some signer) :
    ∃ pkg, load_app demo_sha256 (demo_toml_of files) [] root = .ok pkg ∧
      pkg.verify_any_key demo_ids [([1], [2])] = .ok signer := by
  unfold verified at h
  split at h
  · rename_i pkg hload
    cases hverify : pkg.verify_any_key demo_ids [([1], [2])] with
    | error e =>
      rw [hverify] at h
      cases h
    | ok id =>
      rw [hverify] at h
      cases h
      exact ⟨pkg, hload, hverify⟩
  · cases h

theorem demo_manifest_of {files : String} {root : Node} {m : RunManifest}
    (h : manifest_of (demo_toml_of files) [] root = .ok m) : m = demo_manifest files := by
  simp only [manifest_of, bind, Except.bind] at h
  split at h
  · cases h
  split at h
  · cases h
  simp only [parse, demo_toml_of, bind, Except.bind, pure, Except.pure] at h
  split at h
  · cases h
  rename_i m' hm'
  split at hm'
  · split at h
    · cases h
    · cases hm'
      exact (Except.ok.inj h).symm
  · cases hm'

theorem inbox_harmless (root : Node) : Harmless root (demo_manifest "data/inbox") := by
  apply harmless_of_manifest
  · intro rel hrel p hof
    cases List.mem_singleton.mp hrel
    have hp : p = [DATA, ⟨utf8 "inbox", by decide⟩] := Option.some.inj (hof.symm.trans (by decide))
    exact ⟨DATA, by rw [hp]; rfl, by decide⟩
  · intro p hof
    have hp : p = [⟨utf8 "app.wasm", by decide⟩] := Option.some.inj (hof.symm.trans (by decide))
    rintro ⟨n, hn, hbytes⟩
    rw [hp] at hn
    cases hn
    exact absurd hbytes (by decide)

end pai_apps.signing.run
