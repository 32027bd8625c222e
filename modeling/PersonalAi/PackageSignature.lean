-- What the signature of an app package covers (the apps crate): the manifest, and
-- a digest of the stream of all files with their paths.
import Mathlib.Data.List.Sort
import Mathlib.Data.List.Lex
import Mathlib.Order.Defs.LinearOrder
import PersonalAi.AppRegistry
import PersonalAi.Lib.Framing

open framing text

namespace pai_apps.signing

/-! ## A package directory -/

/-- The name of a directory entry: bytes that need not be text, without NUL and slash. -/
def IsName (b : Bytes) : Prop := b ≠ [] ∧ b ≠ [46] ∧ b ≠ [46, 46] ∧ 0 ∉ b ∧ 47 ∉ b

instance (b : Bytes) : Decidable (IsName b) := by
  unfold IsName
  infer_instance

structure Name where
  bytes : Bytes
  is_name : IsName bytes
deriving DecidableEq

/-- A path below the package. -/
abbrev RelPath := List Name

/-- What a path leads to, with links followed: a file, whose bytes may not be
readable, a directory, which may not be listable, or what is neither. -/
inductive Node
  | file (content : Option Bytes)
  | dir (entries : List (Name × Node))
  | closed_dir
  | other

def lookup (name : Name) : List (Name × Node) → Option Node
  | [] => none
  | e :: rest => if e.1 = name then some e.2 else lookup name rest

def Node.at_ : Node → RelPath → Option Node
  | n, [] => some n
  | .dir entries, name :: rest => (lookup name entries).bind (fun n => n.at_ rest)
  | _, _ :: _ => none

def Node.is_file (n : Node) (p : RelPath) : Bool :=
  match n.at_ p with
  | some (.file _) => true
  | _ => false

/-- `fs::read`. -/
def Node.read (n : Node) (p : RelPath) : Except AppError Bytes :=
  match n.at_ p with
  | some (.file (some bytes)) => .ok bytes
  | _ => .error (.Io "read")

mutual
/-- No directory lists a name twice. -/
def WellFormed : Node → Prop
  | .dir entries => WellFormedEntries entries
  | _ => True

def WellFormedEntries : List (Name × Node) → Prop
  | [] => True
  | e :: rest => lookup e.1 rest = none ∧ WellFormed e.2 ∧ WellFormedEntries rest
end

/-- A package directory. -/
structure PackageDir where
  root : Node
  well_formed : WellFormed root

/-! ## Loading and signing -/

inductive AppRuntime
  | Wasm | Native | Web
deriving DecidableEq

/-- Of the manifest, what `load` looks at. -/
structure Manifest where
  runtime : AppRuntime
  entrypoint : String
deriving DecidableEq

def default_entrypoint : String := "app.wasm"

def Name.of (b : Bytes) : Option Name := if h : IsName b then some ⟨b, h⟩ else none

def RelPath.of (s : String) : Option RelPath :=
  (paths.components s).mapM (fun c => Name.of (utf8 c))

def MANIFEST : RelPath := [⟨utf8 "manifest.toml", by decide⟩]

def SIGNATURE : RelPath := [⟨utf8 "signature.bin", by decide⟩]

def RESERVED_DIRS : List Bytes := [utf8 "data", utf8 "logs", utf8 "auth.json"]

mutual
/-- The files behind one entry, in the order of the listing. -/
def collect (at_ : RelPath) : Node → Except AppError (List RelPath)
  | .file _ => .ok [at_]
  | .dir entries => collect_entries at_ entries
  | .closed_dir => .error (.Io "read_dir")
  | .other => .ok []

def collect_entries (at_ : RelPath) : List (Name × Node) → Except AppError (List RelPath)
  | [] => .ok []
  | e :: rest => do
    let inner ← collect (at_ ++ [e.1]) e.2
    let more ← collect_entries at_ rest
    pure (inner ++ more)
end

def collect_files : Node → Except AppError (List RelPath)
  | .dir entries => collect_entries [] entries
  | _ => .error (.Io "read_dir")

/-- The test of `retain`: neither the signature nor runtime state. -/
def included (p : RelPath) : Bool :=
  decide (p ≠ SIGNATURE) && decide (∀ n ∈ p.head?, n.bytes ∉ RESERVED_DIRS)

/-- Paths compare name by name, and names byte by byte. -/
def key (p : RelPath) : List (List Nat) := p.map (fun n => n.bytes.map UInt8.toNat)

def before (p q : RelPath) : Prop := key p ≤ key q

instance : DecidableRel before := fun _ _ => inferInstanceAs (Decidable (_ ≤ _))

/-- The bytes of a path. -/
def path_bytes : RelPath → Bytes
  | [] => []
  | [n] => n.bytes
  | n :: rest => n.bytes ++ 47 :: path_bytes rest

def to_string_lossy (p : RelPath) : Bytes := from_utf8_lossy (path_bytes p)

/-- The files, each as `digest_files` feeds it: the text of its path, and its bytes. -/
def records (root : Node) (files : List RelPath) : Except AppError (List (Bytes × Bytes)) :=
  files.mapM (fun rel => do
    let content ← root.read rel
    pure (to_string_lossy rel, content))

/-- The bytes fed to the hash. -/
def digest_stream (root : Node) (files : List RelPath) : Except AppError Bytes := do
  let rs ← records root files
  pure (stream 0 rs)

structure AppPackage where
  dir : paths.Path
  root : Node
  manifest : Manifest
  manifest_bytes : Bytes
  content_digest : Bytes
  files : List RelPath

section Load
variable (sha256 : Bytes → Bytes) (parse : List Char → Except AppError Manifest)

/-- SHA-256 of the stream. -/
def digest_files (root : Node) (files : List RelPath) : Except AppError Bytes := do
  let bytes ← digest_stream root files
  pure (sha256 bytes)

/-- Web bundles that do not name an entrypoint serve index.html. -/
def web_entrypoint (m : Manifest) : Manifest :=
  if m.runtime = .Web ∧ m.entrypoint = default_entrypoint then { m with entrypoint := "index.html" }
  else m

def check_entrypoint (root : Node) (m : Manifest) : Except AppError Unit :=
  let present := match RelPath.of m.entrypoint with
    | some p => root.is_file p
    | none => false
  match m.runtime with
  | .Native => .ok ()
  | .Wasm =>
    if present then .ok ()
    else .error (.Layout ("entrypoint \"" ++ m.entrypoint ++ "\" missing for wasm runtime"))
  | .Web =>
    if present then .ok ()
    else .error (.Layout ("entrypoint \"" ++ m.entrypoint ++ "\" missing for web runtime"))

def read_manifest (dir : paths.Path) (root : Node) : Except AppError Bytes :=
  match root.read MANIFEST with
  | .ok bytes => .ok bytes
  | .error _ => .error (.NoManifest dir)

/-- The files in the digest, in sorted order. -/
def package_files (root : Node) : Except AppError (List RelPath) := do
  let files ← collect_files root
  pure ((files.filter included).insertionSort before)

/-- `AppManifest::parse` is a parameter: of the manifest two fields count here. -/
def load (dir : paths.Path) (root : Node) : Except AppError AppPackage := do
  let manifest_bytes ← read_manifest dir root
  let chars ← match from_utf8 manifest_bytes with
    | some chars => pure chars
    | none => throw (.Manifest "manifest.toml is not utf-8")
  let parsed ← parse chars
  let manifest := web_entrypoint parsed
  check_entrypoint root manifest
  let files ← package_files root
  let content_digest ← digest_files sha256 root files
  pure { dir, root, manifest, manifest_bytes, content_digest, files }

def AppPackage.signing_payload (pkg : AppPackage) : Bytes := pkg.manifest_bytes ++ pkg.content_digest

/-- Ed25519 under the keys of the devices: signing with a secret key, and the check
against a public key. -/
structure Scheme where
  sign : Bytes → Bytes → Bytes
  verify_with_key : Bytes → Bytes → Bytes → Except AppError Bool

def first_signer (ids : Scheme) (payload sig : Bytes) (count : Nat) :
    List (Bytes × Bytes) → Except AppError Bytes
  | [] => .error (.BadSignature ("no candidate (of " ++ toString count ++ ") produced this signature"))
  | (id, key) :: rest => do
    let good ← ids.verify_with_key key payload sig
    if good then pure id else first_signer ids payload sig count rest

/-- The candidate device that signed the package. -/
def AppPackage.verify_any_key (ids : Scheme) (pkg : AppPackage) (candidates : List (Bytes × Bytes)) :
    Except AppError Bytes := do
  if !pkg.root.is_file SIGNATURE then throw .NotSigned
  let sig ← pkg.root.read SIGNATURE
  first_signer ids pkg.signing_payload sig candidates.length candidates

end Load

/-! ## What the walk finds -/

mutual
/-- The walk finds each file behind an entry once. -/
theorem collect_spec (at_ : RelPath) {fs : List RelPath} : ∀ {n : Node}, WellFormed n →
    collect at_ n = .ok fs →
    fs.Nodup ∧ ∀ q, q ∈ fs ↔ ∃ rest c, q = at_ ++ rest ∧ n.at_ rest = some (.file c)
  | .file c, _, h => by
    simp only [collect, Except.ok.injEq] at h
    subst h
    refine ⟨by simp, fun q => ?_⟩
    constructor
    · intro hq
      exact ⟨[], c, by simpa using hq, rfl⟩
    · rintro ⟨rest, c', rfl, hat⟩
      cases rest with
      | nil => simp
      | cons name rest => simp [Node.at_] at hat
  | .dir entries, hwf, h => by
    obtain ⟨hnodup, hmem⟩ := collect_entries_spec at_ (by simpa [WellFormed] using hwf)
      (by simpa [collect] using h)
    refine ⟨hnodup, fun q => (hmem q).trans ?_⟩
    constructor
    · rintro ⟨name, rest, node, c, rfl, hlook, hat⟩
      exact ⟨name :: rest, c, rfl, by simp [Node.at_, hlook, hat]⟩
    · rintro ⟨rest, c, rfl, hat⟩
      cases rest with
      | nil => simp [Node.at_] at hat
      | cons name rest =>
        simp only [Node.at_, Option.bind_eq_some_iff] at hat
        obtain ⟨node, hlook, hat⟩ := hat
        exact ⟨name, rest, node, c, rfl, hlook, hat⟩
  | .closed_dir, _, h => by simp [collect] at h
  | .other, _, h => by
    simp only [collect, Except.ok.injEq] at h
    subst h
    refine ⟨by simp, fun q => ?_⟩
    constructor
    · intro hq
      simp at hq
    · rintro ⟨rest, c, rfl, hat⟩
      cases rest <;> simp [Node.at_] at hat

theorem collect_entries_spec (at_ : RelPath) {fs : List RelPath} :
    ∀ {entries : List (Name × Node)}, WellFormedEntries entries →
    collect_entries at_ entries = .ok fs →
    fs.Nodup ∧ ∀ q, q ∈ fs ↔ ∃ name rest node c,
      q = at_ ++ name :: rest ∧ lookup name entries = some node ∧ node.at_ rest = some (.file c)
  | [], _, h => by
    simp only [collect_entries, Except.ok.injEq] at h
    subst h
    simp [lookup]
  | e :: entries, hwf, h => by
    simp only [WellFormedEntries] at hwf
    obtain ⟨hfree, hnode, hentries⟩ := hwf
    simp only [collect_entries, bind, Except.bind] at h
    split at h
    · cases h
    rename_i inner hinner
    split at h
    · cases h
    rename_i more hmore
    simp only [pure, Except.pure, Except.ok.injEq] at h
    subst h
    obtain ⟨hnd, hin⟩ := collect_spec (at_ ++ [e.1]) hnode hinner
    obtain ⟨hnd', hin'⟩ := collect_entries_spec at_ hentries hmore
    refine ⟨List.nodup_append.mpr ⟨hnd, hnd', ?_⟩, fun q => ?_⟩
    · -- a path of the entry goes through its name, the others do not
      rintro q hq q' hq' rfl
      obtain ⟨rest, c, rfl, _⟩ := (hin q).mp hq
      obtain ⟨name, rest', node, c', heq, hlook, _⟩ := (hin' _).mp hq'
      have hname : e.1 = name := by
        simp only [List.append_assoc, List.cons_append, List.nil_append,
          List.append_cancel_left_eq, List.cons.injEq] at heq
        exact heq.1
      rw [← hname, hfree] at hlook
      cases hlook
    · rw [List.mem_append, hin, hin']
      constructor
      · rintro (⟨rest, c, rfl, hat⟩ | ⟨name, rest, node, c, rfl, hlook, hat⟩)
        · exact ⟨e.1, rest, e.2, c, by simp, by simp [lookup], hat⟩
        · refine ⟨name, rest, node, c, rfl, ?_, hat⟩
          have hne : e.1 ≠ name := by
            rintro rfl
            rw [hfree] at hlook
            cases hlook
          simp [lookup, hne, hlook]
      · rintro ⟨name, rest, node, c, rfl, hlook, hat⟩
        by_cases hname : e.1 = name
        · simp only [lookup, hname, if_true, Option.some.injEq] at hlook
          subst hname hlook
          exact Or.inl ⟨rest, c, by simp, hat⟩
        · simp only [lookup, hname, if_false] at hlook
          exact Or.inr ⟨name, rest, node, c, rfl, hlook, hat⟩
end

/-! ## The order of the files -/

theorem key_injective : Function.Injective key := by
  have hbytes : Function.Injective (fun n : Name => n.bytes.map UInt8.toNat) := by
    intro n m h
    have := List.map_injective_iff.mpr (fun _ _ => UInt8.toNat_inj.mp) h
    cases n
    cases m
    simpa using this
  exact List.map_injective_iff.mpr hbytes

instance : Std.Total before := ⟨fun _ _ => le_total _ _⟩

instance : IsTrans RelPath before := ⟨fun _ _ _ => le_trans⟩

instance : Std.Antisymm before := ⟨fun _ _ h h' => key_injective (le_antisymm h h')⟩

/-- Sorting makes one list of the same files in any order. -/
theorem sorted_eq {ps qs : List RelPath} (hps : ps.Nodup) (hqs : qs.Nodup)
    (h : ∀ p, p ∈ ps ↔ p ∈ qs) : ps.insertionSort before = qs.insertionSort before := by
  have hperm : ps.Perm qs := (List.perm_ext_iff_of_nodup hps hqs).mpr h
  apply List.Perm.eq_of_pairwise' (List.pairwise_insertionSort before ps)
    (List.pairwise_insertionSort before qs)
  have hsort := List.perm_insertionSort before
  exact ((hsort ps).trans hperm).trans (hsort qs).symm

/-! ## What the digest reads -/

theorem path_bytes_no_nul (p : RelPath) : (0 : UInt8) ∉ path_bytes p := by
  induction p with
  | nil => simp [path_bytes]
  | cons n rest ih =>
    have hn : (0 : UInt8) ∉ n.bytes := n.is_name.2.2.2.1
    cases rest with
    | nil => simpa [path_bytes] using hn
    | cons m rest => simpa [path_bytes, hn] using ih

theorem lossy_no_nul (p : RelPath) : (0 : UInt8) ∉ to_string_lossy p :=
  fun h => path_bytes_no_nul p (nul_of_lossy h)

/-- The bytes of a file that can be read. -/
def content (root : Node) (p : RelPath) : Bytes := ((root.read p).toOption).getD []

theorem read_eq_ok {root : Node} {p : RelPath} {bytes : Bytes} :
    root.read p = .ok bytes ↔ root.at_ p = some (.file (some bytes)) := by
  unfold Node.read
  split
  · rename_i b hat
    simp [hat]
  · rename_i hno
    constructor
    · intro h
      cases h
    · intro h
      exact absurd h (hno bytes)

theorem content_eq {root : Node} {p : RelPath} {bytes : Bytes} (h : root.read p = .ok bytes) :
    content root p = bytes := by
  simp [content, h, Except.toOption]

/-- The records of files that are all read. -/
theorem records_spec {root : Node} {files : List RelPath} {rs : List (Bytes × Bytes)}
    (h : records root files = .ok rs) :
    rs = files.map (fun p => (to_string_lossy p, content root p)) ∧
      ∀ p ∈ files, root.read p = .ok (content root p) := by
  induction files generalizing rs with
  | nil =>
    simp only [records, List.mapM_nil, pure, Except.pure, Except.ok.injEq] at h
    subst h
    simp
  | cons p files ih =>
    simp only [records, List.mapM_cons, bind, Except.bind] at h
    cases hread : root.read p with
    | error e => simp [hread] at h
    | ok bytes =>
      simp only [hread, pure, Except.pure] at h
      split at h
      · cases h
      rename_i more hmore
      simp only [Except.ok.injEq] at h
      subst h
      obtain ⟨hrs, hall⟩ := ih hmore
      refine ⟨by simp [hrs, content_eq hread], ?_⟩
      intro q hq
      rcases List.mem_cons.mp hq with rfl | hq
      · rw [content_eq hread, hread]
      · exact hall q hq

/-- What a package that loads says. -/
structure Loaded (sha256 : Bytes → Bytes) (d : PackageDir) (pkg : AppPackage) (fed : Bytes) :
    Prop where
  root : pkg.root = d.root
  manifest : d.root.read MANIFEST = .ok pkg.manifest_bytes
  files : package_files d.root = .ok pkg.files
  hashed : digest_stream d.root pkg.files = .ok fed
  digest : pkg.content_digest = sha256 fed

theorem load_spec {sha256 : Bytes → Bytes} {parse : List Char → Except AppError Manifest}
    {dir : paths.Path} {d : PackageDir} {pkg : AppPackage}
    (h : load sha256 parse dir d.root = .ok pkg) : ∃ fed, Loaded sha256 d pkg fed := by
  simp only [load, bind, Except.bind, pure, Except.pure] at h
  split at h
  · cases h
  rename_i manifest_bytes hmanifest
  cases htext : from_utf8 manifest_bytes with
  | none => simp [htext, throw, throwThe, MonadExceptOf.throw] at h
  | some chars =>
  simp only [htext] at h
  split at h
  · cases h
  split at h
  · cases h
  split at h
  · cases h
  rename_i files hfiles
  split at h
  · cases h
  rename_i digest hdigest
  simp only [Except.ok.injEq] at h
  subst h
  simp only [digest_files, bind, Except.bind, pure, Except.pure] at hdigest
  split at hdigest
  · cases hdigest
  rename_i fed hfed
  simp only [Except.ok.injEq] at hdigest
  refine ⟨fed, rfl, ?_, hfiles, hfed, hdigest.symm⟩
  unfold read_manifest at hmanifest
  split at hmanifest
  · rename_i bytes hread
    rw [hread, hmanifest]
  · cases hmanifest

/-- The file is in the package, and no runtime state. -/
def Holds (root : Node) (p : RelPath) (bytes : Bytes) : Prop :=
  included p = true ∧ root.at_ p = some (.file (some bytes))

def SameFiles (m n : Node) : Prop := ∀ p bytes, Holds m p bytes ↔ Holds n p bytes

/-- The files of a package are the sorted ones of those that the walk finds. -/
theorem package_files_spec {d : PackageDir} {files : List RelPath}
    (h : package_files d.root = .ok files) :
    ∃ found : List RelPath, found.Nodup ∧ files = found.insertionSort before ∧
      ∀ p, p ∈ found ↔ included p = true ∧ ∃ c, d.root.at_ p = some (.file c) := by
  obtain ⟨root, hwf⟩ := d
  simp only [package_files, bind, Except.bind, pure, Except.pure] at h
  split at h
  · cases h
  rename_i found hfound
  simp only [Except.ok.injEq] at h
  have hcollect : collect [] root = .ok found := by
    cases root with
    | dir entries => exact hfound
    | file c => cases hfound
    | closed_dir => cases hfound
    | other => cases hfound
  obtain ⟨hnodup, hmem⟩ := collect_spec [] hwf hcollect
  refine ⟨found.filter included, hnodup.filter _, h.symm, fun p => ?_⟩
  rw [List.mem_filter, hmem]
  constructor
  · rintro ⟨⟨rest, c, rfl, hat⟩, hinc⟩
    exact ⟨hinc, c, hat⟩
  · rintro ⟨hinc, c, hat⟩
    exact ⟨⟨p, c, rfl, hat⟩, hinc⟩

section Pair
variable {sha256 : Bytes → Bytes} {A B : PackageDir} {a b : AppPackage} {s t : Bytes}

theorem Loaded.records (h : Loaded sha256 A a s) :
    s = stream 0 (a.files.map (fun p => (to_string_lossy p, content A.root p))) ∧
      ∀ p ∈ a.files, A.root.read p = .ok (content A.root p) := by
  have hfed := h.hashed
  simp only [digest_stream, bind, Except.bind, pure, Except.pure] at hfed
  split at hfed
  · cases hfed
  rename_i rs hrs
  simp only [Except.ok.injEq] at hfed
  obtain ⟨rfl, hall⟩ := records_spec hrs
  exact ⟨hfed.symm, hall⟩

theorem Loaded.holds (h : Loaded sha256 A a s) (p : RelPath) (bytes : Bytes) :
    Holds A.root p bytes ↔ p ∈ a.files ∧ content A.root p = bytes := by
  obtain ⟨found, _, hsort, hmem⟩ := package_files_spec h.files
  have hfiles : p ∈ a.files ↔ p ∈ found := by
    rw [hsort, List.mem_insertionSort]
  constructor
  · rintro ⟨hinc, hat⟩
    exact ⟨hfiles.mpr ((hmem p).mpr ⟨hinc, _, hat⟩), content_eq (read_eq_ok.mpr hat)⟩
  · rintro ⟨hp, rfl⟩
    exact ⟨((hmem p).mp (hfiles.mp hp)).1, read_eq_ok.mp (h.records.2 p hp)⟩

/-- The same files make the same sorted list of them. -/
theorem same_files_iff (ha : Loaded sha256 A a s) (hb : Loaded sha256 B b t) :
    SameFiles A.root B.root ↔
      a.files = b.files ∧ ∀ p ∈ a.files, content A.root p = content B.root p := by
  constructor
  · intro h
    have hboth : ∀ p, p ∈ a.files ↔ p ∈ b.files := by
      intro p
      constructor
      · intro hp
        have hA := (ha.holds p _).mpr ⟨hp, rfl⟩
        exact ((hb.holds p _).mp ((h p _).mp hA)).1
      · intro hp
        have hB := (hb.holds p _).mpr ⟨hp, rfl⟩
        exact ((ha.holds p _).mp ((h p _).mpr hB)).1
    obtain ⟨fa, hnda, hsa, _⟩ := package_files_spec ha.files
    obtain ⟨fb, hndb, hsb, _⟩ := package_files_spec hb.files
    refine ⟨?_, fun p hp => ?_⟩
    · rw [hsa, hsb] at hboth ⊢
      exact sorted_eq hnda hndb (by simpa using hboth)
    · have hA := (ha.holds p _).mpr ⟨hp, rfl⟩
      exact ((hb.holds p _).mp ((h p _).mp hA)).2.symm
  · rintro ⟨hfiles, hcontent⟩ p bytes
    rw [ha.holds, hb.holds, ← hfiles]
    constructor
    · rintro ⟨hp, rfl⟩
      exact ⟨hp, (hcontent p hp).symm⟩
    · rintro ⟨hp, rfl⟩
      exact ⟨hp, hcontent p hp⟩

/-- How often the separator stands in each file, in the order of the digest. -/
def nuls (root : Node) (files : List RelPath) : List Nat :=
  files.map (fun p => (content root p).count 0)

/-- Nothing in the streams of the two packages can be taken for something else: file
by file the contents have equally many NULs, and names in the same place that read
alike are one name. -/
structure Unambiguous (a b : AppPackage) : Prop where
  nuls_eq : nuls a.root a.files = nuls b.root b.files
  names : ∀ r ∈ a.files.zip b.files, to_string_lossy r.1 = to_string_lossy r.2 → r.1 = r.2

/-- Paths that read alike one by one are the same paths where no two names are
taken for one another. -/
theorem files_eq_of_readings {ps qs : List RelPath}
    (h : ps.map to_string_lossy = qs.map to_string_lossy)
    (hnames : ∀ r ∈ ps.zip qs, to_string_lossy r.1 = to_string_lossy r.2 → r.1 = r.2) : ps = qs := by
  induction ps generalizing qs with
  | nil =>
    cases qs with
    | nil => rfl
    | cons q qs => cases h
  | cons p ps ih =>
    cases qs with
    | nil => cases h
    | cons q qs =>
      simp only [List.map_cons, List.cons.injEq] at h
      have hpq : p = q := hnames (p, q) (by simp) h.1
      have hrest := ih h.2 (fun r hr => hnames r (by simp [hr]))
      rw [hpq, hrest]

theorem same_files_of_stream (ha : Loaded sha256 A a s) (hb : Loaded sha256 B b t) (hst : s = t) :
    SameFiles A.root B.root ↔ Unambiguous a b := by
  rw [same_files_iff ha hb]
  constructor
  · rintro ⟨hfiles, hcontent⟩
    refine ⟨?_, ?_⟩
    · rw [ha.root, hb.root, nuls, nuls, ← hfiles]
      apply List.map_congr_left
      intro p hp
      rw [hcontent p hp]
    · rw [hfiles]
      intro r hr _
      rw [List.zip_eq_zipWith, List.zipWith_self] at hr
      obtain ⟨p, _, rfl⟩ := List.mem_map.mp hr
      rfl
  · intro hu
    have hsep : separators 0 (a.files.map (fun p => (to_string_lossy p, content A.root p))) =
        separators 0 (b.files.map (fun p => (to_string_lossy p, content B.root p))) := by
      have := hu.nuls_eq
      rw [ha.root, hb.root] at this
      simpa [separators, nuls, Function.comp_def] using this
    have hfree : ∀ (ps : List RelPath) (f : RelPath → Bytes),
        ∀ r ∈ ps.map (fun p => (to_string_lossy p, f p)), (0 : UInt8) ∉ r.1 := by
      intro ps f r hr
      obtain ⟨p, _, rfl⟩ := List.mem_map.mp hr
      exact lossy_no_nul p
    have hrecords := stream_inj (hfree a.files (content A.root)) (hfree b.files (content B.root)) hsep
      (by rw [← ha.records.1, ← hb.records.1, hst])
    have hreadings : a.files.map to_string_lossy = b.files.map to_string_lossy := by
      have := congrArg (List.map Prod.fst) hrecords
      simpa [Function.comp_def] using this
    have hfiles := files_eq_of_readings hreadings hu.names
    refine ⟨hfiles, fun p hp => ?_⟩
    rw [← hfiles] at hrecords
    have := List.map_inj_left.mp hrecords p hp
    exact (Prod.mk.inj this).2

end Pair

/-! ## What the signature binds -/

/-- No key takes a signature for another text than it was made for. -/
def Scheme.Ideal (ids : Scheme) : Prop :=
  ∀ secret payload key payload', ids.verify_with_key key payload' (ids.sign secret payload) = .ok true →
    payload' = payload

theorem first_signer_ok {ids : Scheme} {payload sig : Bytes} {count : Nat}
    {candidates : List (Bytes × Bytes)} {id : Bytes}
    (h : first_signer ids payload sig count candidates = .ok id) :
    ∃ key, ids.verify_with_key key payload sig = .ok true := by
  induction candidates with
  | nil => cases h
  | cons c rest ih =>
    simp only [first_signer, bind, Except.bind] at h
    split at h
    · cases h
    rename_i good hgood
    cases good with
    | true => exact ⟨c.2, hgood⟩
    | false => exact ih h

/-- A package that verifies with a signature has the payload that it was made for. -/
theorem verified_payload {ids : Scheme} (hids : ids.Ideal) {pkg : AppPackage}
    {candidates : List (Bytes × Bytes)} {id secret payload : Bytes}
    (hsig : pkg.root.read SIGNATURE = .ok (ids.sign secret payload))
    (h : pkg.verify_any_key ids candidates = .ok id) : pkg.signing_payload = payload := by
  simp only [AppPackage.verify_any_key, bind, Except.bind, hsig] at h
  split at h
  · cases h
  · obtain ⟨key, hkey⟩ := first_signer_ok h
    exact hids secret payload key _ hkey

/-! ## Two packages of one stream -/

def demo_toml : String := "[app]\nname = \"Demo\"\nversion = \"1.0.0\"\nruntime = \"web\"\n"

def demo_parse (chars : List Char) : Except AppError Manifest :=
  if chars = demo_toml.toList then .ok { runtime := .Web, entrypoint := default_entrypoint }
  else .error (.Manifest "bad toml")

def demo_sha256 (bytes : Bytes) : Bytes := (bytes ++ List.replicate 32 0).take 32

/-- A signature that says its text. -/
def demo_ids : Scheme where
  sign _ payload := payload
  verify_with_key _ payload sig := .ok (decide (sig = payload))

def file (name : String) (h : IsName (utf8 name)) (bytes : Bytes) : Name × Node :=
  (⟨utf8 name, h⟩, .file (some bytes))

def demo_entries (rest : List (Name × Node)) : List (Name × Node) :=
  file "manifest.toml" (by decide) (utf8 demo_toml) :: file "index.html" (by decide) [] :: rest

/-- One file, with NULs around the name of a second one in its content. -/
def one_file : PackageDir where
  root := .dir (demo_entries [file "z1" (by decide) [120, 0, 122, 50, 0, 121]])
  well_formed := by
    simp only [demo_entries, WellFormed, WellFormedEntries, file]
    decide

def one_file_signature : Bytes :=
  match load demo_sha256 demo_parse [] one_file.root with
  | .ok pkg => demo_ids.sign [] pkg.signing_payload
  | .error _ => []

/-- The two files, under the signature of the first package. -/
def two_files : PackageDir where
  root := .dir (demo_entries [file "z1" (by decide) [120], file "z2" (by decide) [121],
    file "signature.bin" (by decide) one_file_signature])
  well_formed := by
    simp only [demo_entries, WellFormed, WellFormedEntries, file]
    decide

/-- Both load, as packages of which a test holds. -/
theorem both_load (x y : Except AppError AppPackage) (test : AppPackage → AppPackage → Bool)
    (h : x.toOption.bind (fun a => y.toOption.map (test a)) = some true) :
    ∃ a b, x = .ok a ∧ y = .ok b ∧ test a b = true := by
  cases x with
  | error e => cases h
  | ok a =>
    cases y with
    | error e => cases h
    | ok b => exact ⟨a, b, rfl, rfl, Option.some.inj h⟩

/-- One manifest, one stream, and the signature of the first package in the second. -/
theorem two_packages : ∃ a b,
    load demo_sha256 demo_parse [] one_file.root = .ok a ∧
    load demo_sha256 demo_parse [] two_files.root = .ok b ∧
    a.manifest_bytes = b.manifest_bytes ∧
    digest_stream a.root a.files = digest_stream b.root b.files ∧
    b.root.read SIGNATURE = .ok (demo_ids.sign [] a.signing_payload) ∧
    b.verify_any_key demo_ids [([1], [2])] = .ok [1] := by
  obtain ⟨a, b, ha, hb, htest⟩ := both_load (load demo_sha256 demo_parse [] one_file.root)
    (load demo_sha256 demo_parse [] two_files.root)
    (fun a b => decide (a.manifest_bytes = b.manifest_bytes ∧
      digest_stream a.root a.files = digest_stream b.root b.files ∧
      b.root.read SIGNATURE = .ok (demo_ids.sign [] a.signing_payload) ∧
      b.verify_any_key demo_ids [([1], [2])] = .ok [1])) (by decide +kernel)
  exact ⟨a, b, ha, hb, of_decide_eq_true htest⟩

/-- Packages of one manifest and one stream have the same files exactly when nothing
in the stream can be taken for something else, and so for a package that verifies
with the signature of another one. -/
theorem the_signature_binds_the_files_when_the_streams_are_unambiguous
    {sha256 : Bytes → Bytes} {parse : List Char → Except AppError Manifest}
    {dirA dirB : paths.Path} {A B : PackageDir} {a b : AppPackage}
    (ha : load sha256 parse dirA A.root = .ok a) (hb : load sha256 parse dirB B.root = .ok b) :
    (a.manifest_bytes = b.manifest_bytes →
      digest_stream a.root a.files = digest_stream b.root b.files →
      (SameFiles a.root b.root ↔ Unambiguous a b)) ∧
    (∀ (ids : Scheme) (secret id : Bytes) (candidates : List (Bytes × Bytes)), ids.Ideal →
      (∀ bytes, (sha256 bytes).length = 32) →
      (∀ s t, digest_stream a.root a.files = .ok s → digest_stream b.root b.files = .ok t →
        sha256 s = sha256 t → s = t) →
      b.root.read SIGNATURE = .ok (ids.sign secret a.signing_payload) →
      b.verify_any_key ids candidates = .ok id →
      (SameFiles a.root b.root ↔ Unambiguous a b)) := by
  obtain ⟨s, la⟩ := load_spec ha
  obtain ⟨t, lb⟩ := load_spec hb
  have hstream : s = t → (SameFiles a.root b.root ↔ Unambiguous a b) := by
    rw [la.root, lb.root]
    exact same_files_of_stream la lb
  refine ⟨?_, ?_⟩
  · intro _ hfed
    rw [la.root, lb.root, la.hashed, lb.hashed] at hfed
    exact hstream (Except.ok.inj hfed)
  · intro ids secret id candidates hids hlen hhash hsig hverify
    have hpayload := verified_payload hids hsig hverify
    have hdigest : b.content_digest = a.content_digest := by
      apply List.append_inj_right' hpayload
      rw [la.digest, lb.digest, hlen, hlen]
    apply hstream
    apply hhash s t (la.root ▸ la.hashed) (lb.root ▸ lb.hashed)
    rw [← la.digest, ← lb.digest, hdigest]

theorem a_content_reads_as_a_second_file : ∃ a b,
    load demo_sha256 demo_parse [] one_file.root = .ok a ∧
    load demo_sha256 demo_parse [] two_files.root = .ok b ∧
    a.manifest_bytes = b.manifest_bytes ∧
    digest_stream a.root a.files = digest_stream b.root b.files ∧
    b.verify_any_key demo_ids [([1], [2])] = .ok [1] ∧ ¬ SameFiles a.root b.root := by
  obtain ⟨a, b, ha, hb, hmanifest, hfed, -, hverify⟩ := two_packages
  refine ⟨a, b, ha, hb, hmanifest, hfed, hverify, fun hsame => ?_⟩
  obtain ⟨_, la⟩ := load_spec ha
  obtain ⟨_, lb⟩ := load_spec hb
  rw [la.root, lb.root] at hsame
  -- z1 with all its bytes is in the first package only
  have htwo := (hsame [⟨utf8 "z1", by decide⟩] [120, 0, 122, 50, 0, 121]).mp ⟨by decide, rfl⟩
  have hread := read_eq_ok.mpr htwo.2
  exact absurd hread (by decide)

/-- The theorem at those two packages, of which the second verifies with the
signature of the first. -/
theorem the_signature_of_one_file_at_two : ∃ a b,
    load demo_sha256 demo_parse [] one_file.root = .ok a ∧
    load demo_sha256 demo_parse [] two_files.root = .ok b ∧
    b.verify_any_key demo_ids [([1], [2])] = .ok [1] ∧
    (SameFiles a.root b.root ↔ Unambiguous a b) := by
  obtain ⟨a, b, ha, hb, -, hfed, hsig, hverify⟩ := two_packages
  refine ⟨a, b, ha, hb, hverify, ?_⟩
  apply (the_signature_binds_the_files_when_the_streams_are_unambiguous ha hb).2 demo_ids [] [1]
    [([1], [2])] ?_ ?_ ?_ hsig hverify
  · intro secret payload key payload' h
    simp only [demo_ids, Except.ok.injEq, decide_eq_true_eq] at h
    exact h.symm
  · intro bytes
    simp [demo_sha256]
  · intro s t hs ht _
    rw [hs, ht] at hfed
    exact Except.ok.inj hfed

end pai_apps.signing
