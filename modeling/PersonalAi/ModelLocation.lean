-- Finding an installed model again (the models crate): the recorded path, and a scan of the packs on
-- drives that come and go. The law says when a copy that the manager has placed is found.
import PersonalAi.ModelIntegrity

open pai_core paths program runs table text

namespace pai_models

/-! ## The call -/

section Locate
variable (sha256 : Bytes → String) (from_slice : Bytes → Option ModelPackIndex)
  (listed : Path → Option (List String))

/-- The recorded path where something is still there, else what a scan of the packs records. -/
def locate_roots (slug : String) (roots : List Path) : Call (Option Path) := do
  match ← ask (fun w => w.found slug) with
  | some p => return some p
  | none =>
    let found ← scan_roots sha256 from_slice listed roots
    if found.any (fun s => s.slug = slug) then ask (fun w => w.installed_path slug)
    else return none

end Locate

namespace location

/-! ## Runs -/

/-- A copy that the manager has placed: of which slug, under which name, and its hash. -/
structure Placed where
  slug : String
  filename : String
  digest : String
deriving DecidableEq

/-- A device, and a note of the copies that were placed, which no code keeps. -/
structure World where
  device : Device
  placed : List Placed

/-- `install` is `install_to` with the local directory. -/
inductive Act
  | register (m : ModelManifest)
  | install_to (slug : String) (m : ModelManifest) (dest_dir : Path)
      (download : Except String Bytes) (faults : List (Option (Option Bytes)))
  | scan_roots (roots : List Path) (listed : Path → Option (List String))
      (faults : List (Option (Option Bytes)))
  | locate (slug : String) (roots : List Path) (listed : Path → Option (List String))
      (faults : List (Option (Option Bytes)))
  -- drives come and go: what is there now
  | drives (files : Table Path Bytes) (dirs : List Path)

section Runs
variable (sha256 : Bytes → String) (to_vec_pretty : ModelPackIndex → Bytes)
  (from_slice : Bytes → Option ModelPackIndex) (model_dir : Path)

def noted (slug : String) (m : ModelManifest) (run : Except Error Path × Device) : List Placed :=
  match run with
  | (.ok dest, w) =>
    ((w.file dest).map fun content => ⟨slug, m.filename, sha256 content⟩).toList
  | (.error _, _) => []

def located (w : Device) (slug : String) (roots : List Path) (listed : Path → Option (List String))
    (faults : List (Option (Option Bytes))) : Except Error (Option Path) × Device :=
  (locate_roots sha256 from_slice listed slug roots).outcome { w with faults }

def step (w : World) : Act → World
  | .register m => { w with device := w.device.enter m }
  | .install_to slug m dest_dir download faults =>
    let run := (install_to sha256 to_vec_pretty from_slice slug m dest_dir download).outcome
      { w.device with faults }
    { device := run.2, placed := noted sha256 slug m run ++ w.placed }
  | .scan_roots roots listed faults =>
    { w with
      device := ((pai_models.scan_roots sha256 from_slice listed roots).outcome
        { w.device with faults }).2 }
  | .locate slug roots listed faults =>
    { w with device := (located sha256 from_slice w.device slug roots listed faults).2 }
  | .drives files dirs => { w with device := { w.device with files, dirs } }

/-! ## What is wanted -/

/-- A copy of the slug that the manager has placed is in the local directory or on a pack root that
can be reached. -/
def Remains (w : World) (slug : String) (roots : List Path) : Prop :=
  ∃ c ∈ w.placed, c.slug = slug ∧ ∃ dir ∈ model_dir :: roots.filter w.device.is_dir,
    ∃ content, w.device.file (join dir c.filename) = some content ∧ sha256 content = c.digest

/-- The call gives the path of a file that is there. -/
def Finds (run : Except Error (Option Path) × Device) : Prop :=
  ∃ p, run.1 = .ok (some p) ∧ run.2.is_file p = true

def Safe (w : World) : Act → Prop
  | .locate slug roots listed faults => Remains sha256 model_dir w slug roots →
    Finds (located sha256 from_slice w.device slug roots listed faults)
  | _ => True

/-! ## When it holds -/

/-- What a scan tries in a pack: what the index lists, or what the catalog has of the names. -/
def candidates (w : Device) (listed : Path → Option (List String)) (root : Path) :
    List (ModelManifest × Path) :=
  if w.is_dir root then
    match (w.file (root ++ [PACK_INDEX_FILE])).bind from_slice with
    | some idx => idx.models.map fun m => (m, join root m.filename)
    | none => ((listed root).getD []).filterMap fun name =>
      (builtin_catalog.find? (fun m => m.filename = name)).map fun m => (m, root ++ [name])
  else []

/-- The file is there, and has the hash that the manifest pins. -/
def adoptable (w : Device) (c : ModelManifest × Path) : Bool :=
  match w.file c.2 with
  | some content => pinned c.1 (sha256 content)
  | none => false

/-- A pack that can be reached lists the slug with a file that is there. -/
def InPack (w : Device) (listed : Path → Option (List String)) (roots : List Path) (slug : String) :
    Prop :=
  ∃ root ∈ roots, ∃ c ∈ candidates from_slice w listed root, c.1.slug = slug ∧
    adoptable sha256 w c = true

/-- The record is of a file that is there, or of nothing, and then a pack has the slug and the disk
does not fail. -/
def Clear (w : World) : Act → Prop
  | .locate slug roots listed faults => Remains sha256 model_dir w slug roots →
    (∃ p, w.device.installed_path slug = some p ∧ w.device.is_file p = true) ∨
      (w.device.found slug = none ∧ faults = [] ∧ InPack sha256 from_slice w.device listed roots slug)
  | _ => True

end Runs

/-! ## Scans -/

section Scans
variable {sha256 : Bytes → String} {from_slice : Bytes → Option ModelPackIndex}
  {listed : Path → Option (List String)} {w w' w'' : Device} {slug : String}

theorem next_calm (h : w.faults = []) : w.next = (none, w) := by
  unfold Device.next
  rw [h]

theorem read_calm (h : w.faults = []) (p : Path) :
    w.read p = ((w.file p).elim (.error (.Storage "read")) .ok, w) := by
  unfold Device.read
  rw [next_calm h]
  cases hfile : w.file p <;> simp [hfile]

/-- What an adoption leaves of a device. -/
def taken (sha256 : Bytes → String) (w : Device) (c : ModelManifest × Path) : Device :=
  match w.file c.2 with
  | some content =>
    if pinned c.1 (sha256 content) then
      (w.enter c.1).mark c.1.slug c.2 (sha256 content) c.1.sha256
    else w
  | none => w

theorem enter_some (w : Device) (m : ModelManifest) :
    ((w.enter m).rows.lookup m.slug).isSome = true := by
  unfold Device.enter
  split
  · assumption
  · simp

theorem adopt_outcome (h : w.faults = []) (m : ModelManifest) (path pack_root : Path) :
    (adopt sha256 m path pack_root).outcome w =
      (.ok (if adoptable sha256 w (m, path) then some ⟨m.slug, path, pack_root⟩ else none),
        taken sha256 w (m, path)) := by
  unfold adopt
  rw [outcome_bind_ok (outcome_ask _ w)]
  cases hfile : w.file path with
  | none =>
    simp [Device.is_file, adoptable, taken, hfile]
  | some content =>
    have hread : (file_sha256 sha256 path).outcome w = (.ok (sha256 content), w) := by
      have hbytes : (consult (fun d => d.read path) : Call Bytes).outcome w = (.ok content, w) := by
        rw [outcome_consult, read_calm h, hfile]
        rfl
      unfold file_sha256
      rw [outcome_bind_ok hbytes]
      rfl
    simp only [Device.is_file, hfile, Option.isSome_some, Bool.not_true, Bool.false_eq_true, if_false]
    rw [outcome_bind_ok hread]
    by_cases hpinned : pinned m (sha256 content) = true
    · have hmark : (mark_installed m.slug path (sha256 content) m.sha256).outcome (w.enter m) =
          (.ok (), (w.enter m).mark m.slug path (sha256 content) m.sha256) := by
        simp [mark_installed, update, enter_some]
      have henter : (register m).outcome w = (.ok (), w.enter m) := rfl
      rw [hpinned]
      simp only [Bool.not_true, Bool.false_eq_true, if_false]
      rw [outcome_bind_ok henter, outcome_bind_ok hmark]
      simp [adoptable, taken, hfile, hpinned]
    · simp [adoptable, taken, hfile, hpinned]

/-- What a scan leaves: the same files, a record of a file that is there for each slug that it hit,
and the other records as they were. -/
structure Scanned (w w' : Device) (hit : String → Prop) : Prop where
  files : w'.files = w.files
  dirs : w'.dirs = w.dirs
  faults : w'.faults = w.faults
  path : ∀ slug, hit slug → ∃ p, w'.installed_path slug = some p ∧ w.is_file p = true
  kept : ∀ slug, ¬ hit slug → w'.installed_path slug = w.installed_path slug

theorem Scanned.is_file {hit : String → Prop} (h : Scanned w w' hit) (p : Path) :
    w'.is_file p = w.is_file p := by
  unfold Device.is_file Device.file
  rw [h.files]

theorem scanned_nothing (w : Device) : Scanned w w fun _ => False :=
  ⟨rfl, rfl, rfl, fun _ h => h.elim, fun _ _ => rfl⟩

theorem Scanned.then {hit hit' : String → Prop} (h : Scanned w w' hit) (h' : Scanned w' w'' hit') :
    Scanned w w'' fun slug => hit slug ∨ hit' slug := by
  refine ⟨h'.files.trans h.files, h'.dirs.trans h.dirs, h'.faults.trans h.faults, ?_, ?_⟩
  · intro slug hslug
    by_cases hlater : hit' slug
    · obtain ⟨p, hp, hfile⟩ := h'.path slug hlater
      exact ⟨p, hp, (h.is_file p).symm.trans hfile⟩
    · obtain ⟨p, hp, hfile⟩ := h.path slug (hslug.resolve_right hlater)
      exact ⟨p, (h'.kept slug hlater).trans hp, hfile⟩
  · intro slug hslug
    rw [not_or] at hslug
    rw [h'.kept slug hslug.2, h.kept slug hslug.1]

theorem Scanned.congr {hit hit' : String → Prop} (h : Scanned w w' hit)
    (heq : ∀ slug, hit slug ↔ hit' slug) : Scanned w w' hit' :=
  ⟨h.files, h.dirs, h.faults, fun slug hs => h.path slug ((heq slug).mpr hs),
    fun slug hs => h.kept slug fun hh => hs ((heq slug).mp hh)⟩

theorem enter_installed_path (w : Device) (m : ModelManifest) (t : String) :
    (w.enter m).installed_path t = w.installed_path t := by
  unfold Device.enter
  split
  · rfl
  · rename_i hnew
    have hnone : w.rows.lookup m.slug = none := by simpa using hnew
    simp only [Device.installed_path, lookup_insert_if]
    split
    · rename_i ht
      rw [ht, hnone]
      rfl
    · rfl

theorem enter_scanned (w : Device) (m : ModelManifest) : Scanned w (w.enter m) fun _ => False := by
  refine ⟨?_, ?_, ?_, fun _ h => h.elim, fun t _ => enter_installed_path w m t⟩
  all_goals
    unfold Device.enter
    split <;> rfl

theorem taken_scanned (w : Device) (c : ModelManifest × Path) :
    Scanned w (taken sha256 w c) fun slug => c.1.slug = slug ∧ adoptable sha256 w c = true := by
  unfold taken adoptable
  cases hfile : w.file c.2 with
  | none => exact (scanned_nothing w).congr (by simp)
  | some content =>
    dsimp only
    split
    · rename_i hpinned
      have hentered := enter_scanned w c.1
      refine ⟨hentered.files, hentered.dirs, hentered.faults, fun slug hslug => ?_, fun slug hslug => ?_⟩
      · refine ⟨c.2, ?_, by simp [Device.is_file, hfile]⟩
        rw [Device.mark_installed_path, if_pos hslug.1.symm]
      · rw [Device.mark_installed_path, if_neg]
        · exact enter_installed_path w c.1 slug
        · exact fun hs => hslug ⟨hs.symm, hpinned⟩
    · rename_i hpinned
      exact (scanned_nothing w).congr (by simp [hpinned])

/-- Which slugs a scan of these files hits. -/
def Hits (sha256 : Bytes → String) (w : Device) (cs : List (ModelManifest × Path)) (slug : String) :
    Prop :=
  ∃ c ∈ cs, c.1.slug = slug ∧ adoptable sha256 w c = true

theorem adoptable_congr (h : w'.files = w.files) (c : ModelManifest × Path) :
    adoptable sha256 w' c = adoptable sha256 w c := by
  unfold adoptable Device.file
  rw [h]

theorem adopt_all_scanned (h : w.faults = []) (pack_root : Path) (cs : List (ModelManifest × Path)) :
    ∃ found w', (adopt_all sha256 pack_root cs).outcome w = (.ok found, w') ∧
      Scanned w w' (Hits sha256 w cs) ∧
      ∀ slug, found.any (fun s => s.slug = slug) = true ↔ Hits sha256 w cs slug := by
  induction cs generalizing w with
  | nil => exact ⟨[], w, rfl, (scanned_nothing w).congr (by simp [Hits]), by simp [Hits]⟩
  | cons c rest ih =>
    obtain ⟨m, path⟩ := c
    have hfirst := @taken_scanned sha256 w (m, path)
    obtain ⟨found, w', hrest, hscanned, hfound⟩ := ih (hfirst.faults.trans h)
    have hhits (slug : String) : Hits sha256 w ((m, path) :: rest) slug ↔
        (m.slug = slug ∧ adoptable sha256 w (m, path) = true) ∨
          Hits sha256 (taken sha256 w (m, path)) rest slug := by
      simp only [Hits, List.exists_mem_cons_iff, adoptable_congr hfirst.files]
    refine ⟨(if adoptable sha256 w (m, path) then some ⟨m.slug, path, pack_root⟩ else none).toList ++
      found, w', ?_, (hfirst.then hscanned).congr fun slug => (hhits slug).symm, fun slug => ?_⟩
    · rw [adopt_all, outcome_bind_ok (adopt_outcome h m path pack_root), outcome_bind_ok hrest]
      rfl
    · rw [List.any_append, Bool.or_eq_true, hfound slug, hhits slug]
      split <;> simp [*]

theorem read_pack_index_calm (h : w.faults = []) (dir : Path) :
    (read_pack_index from_slice dir).outcome w =
      (.ok ((w.file (dir ++ [PACK_INDEX_FILE])).bind from_slice), w) := by
  unfold read_pack_index
  rw [outcome_bind, outcome_attempt, outcome_consult, read_calm h]
  cases w.file (dir ++ [PACK_INDEX_FILE]) <;> rfl

theorem scan_root_scanned (h : w.faults = []) (root : Path) :
    ∃ found w', (scan_root sha256 from_slice listed root).outcome w = (.ok found, w') ∧
      Scanned w w' (Hits sha256 w (candidates from_slice w listed root)) ∧
      ∀ slug, found.any (fun s => s.slug = slug) = true ↔
        Hits sha256 w (candidates from_slice w listed root) slug := by
  unfold scan_root candidates
  rw [outcome_bind_ok (outcome_ask _ w)]
  by_cases hdir : w.is_dir root = true
  · rw [if_neg (by simp [hdir]), if_pos hdir, outcome_bind_ok (read_pack_index_calm h root)]
    cases (w.file (root ++ [PACK_INDEX_FILE])).bind from_slice with
    | some idx => exact adopt_all_scanned h root _
    | none => exact adopt_all_scanned h root _
  · rw [if_pos (by simp [hdir]), if_neg hdir]
    exact ⟨[], w, rfl, (scanned_nothing w).congr (by simp [Hits]), by simp [Hits]⟩

theorem scan_roots_scanned (h : w.faults = []) (roots : List Path) :
    ∃ found w', (pai_models.scan_roots sha256 from_slice listed roots).outcome w = (.ok found, w') ∧
      Scanned w w' (InPack sha256 from_slice w listed roots) ∧
      ∀ slug, found.any (fun s => s.slug = slug) = true ↔
        InPack sha256 from_slice w listed roots slug := by
  induction roots generalizing w with
  | nil => exact ⟨[], w, rfl, (scanned_nothing w).congr (by simp [InPack]), by simp [InPack]⟩
  | cons root rest ih =>
    obtain ⟨here, w₁, hroot, hfirst, hhere⟩ :=
      @scan_root_scanned sha256 from_slice listed w h root
    obtain ⟨found, w₂, hrest, hscanned, hfound⟩ := ih (hfirst.faults.trans h)
    have hpack (slug : String) : InPack sha256 from_slice w listed (root :: rest) slug ↔
        Hits sha256 w (candidates from_slice w listed root) slug ∨
          InPack sha256 from_slice w₁ listed rest slug := by
      have hcandidates (root : Path) :
          candidates from_slice w₁ listed root = candidates from_slice w listed root := by
        unfold candidates Device.is_dir Device.file
        rw [hfirst.files, hfirst.dirs]
      simp only [InPack, Hits, List.exists_mem_cons_iff, adoptable_congr hfirst.files, hcandidates]
    refine ⟨here ++ found, w₂, ?_, (hfirst.then hscanned).congr fun slug => (hpack slug).symm,
      fun slug => ?_⟩
    · rw [pai_models.scan_roots, outcome_bind_ok hroot, outcome_bind_ok hrest]
      rfl
    · rw [List.any_append, Bool.or_eq_true, hhere slug, hfound slug, hpack slug]

/-- Where the disk does not fail, a file is found just when the record is of one, or of nothing and
a pack has the slug. -/
theorem finds_iff {slug : String} {roots : List Path} (h : w.faults = []) :
    Finds ((locate_roots sha256 from_slice listed slug roots).outcome w) ↔
      (∃ p, w.installed_path slug = some p ∧ w.is_file p = true) ∨
        (w.found slug = none ∧ InPack sha256 from_slice w listed roots slug) := by
  unfold locate_roots
  rw [outcome_bind_ok (outcome_ask _ w)]
  cases hfound : w.found slug with
  | some p =>
    obtain ⟨hpath, -⟩ := Option.filter_eq_some_iff.mp hfound
    simp only [outcome_pure, Finds, hpath]
    simp
  | none =>
    obtain ⟨found, w', hscan, hscanned, hany⟩ :=
      @scan_roots_scanned sha256 from_slice listed w h roots
    have hgone : ¬ ∃ p, w.installed_path slug = some p ∧ w.is_file p = true := by
      rintro ⟨p, hp, hfile⟩
      rw [Device.found, hp] at hfound
      simp [hfile] at hfound
    simp only [outcome_bind_ok hscan, hgone, false_or, true_and]
    by_cases hpack : InPack sha256 from_slice w listed roots slug
    · obtain ⟨p, hp, hfile⟩ := hscanned.path slug hpack
      rw [if_pos ((hany slug).mpr hpack)]
      simp only [hpack, iff_true]
      exact ⟨p, by rw [outcome_ask, hp], by rw [outcome_ask, hscanned.is_file, hfile]⟩
    · rw [if_neg (fun hs => hpack ((hany slug).mp hs))]
      simp [hpack, Finds]

end Scans

section Runs
variable {sha256 : Bytes → String} {to_vec_pretty : ModelPackIndex → Bytes}
  {from_slice : Bytes → Option ModelPackIndex} {model_dir : Path}

theorem step_safe (w : World) (act : Act) (h : Clear sha256 from_slice model_dir w act) :
    Safe sha256 from_slice model_dir w act := by
  cases act with
  | locate slug roots listed faults =>
    intro hremains
    rcases h hremains with ⟨p, hp, hfile⟩ | ⟨hnone, hfaults, hpack⟩
    · have hfound : ({ w.device with faults } : Device).found slug = some p := by
        change (w.device.installed_path slug).filter _ = some p
        rw [hp, Option.filter_eq_some_iff]
        exact ⟨rfl, by rw [Bool.or_eq_true]; exact .inl hfile⟩
      unfold located locate_roots
      rw [outcome_bind_ok (outcome_ask _ _), hfound]
      exact ⟨p, rfl, hfile⟩
    · subst hfaults
      exact (finds_iff rfl).mpr (.inr ⟨hnone, hpack⟩)
  | register m => trivial
  | install_to slug m dest_dir download faults => trivial
  | scan_roots roots listed faults => trivial
  | drives files dirs => trivial

/-- The disk does not fail while a model is located. -/
def Calm : Act → Prop
  | .locate _ _ _ faults => faults = []
  | _ => True

theorem clear_of_safe (w : World) {act : Act} (hcalm : Calm act)
    (h : Safe sha256 from_slice model_dir w act) : Clear sha256 from_slice model_dir w act := by
  cases act with
  | locate slug roots listed faults =>
    obtain rfl : faults = [] := hcalm
    intro hremains
    rcases (finds_iff rfl).mp (h hremains) with hrecord | ⟨hnone, hpack⟩
    · exact .inl hrecord
    · exact .inr ⟨hnone, rfl, hpack⟩
  | register m => trivial
  | install_to slug m dest_dir download faults => trivial
  | scan_roots roots listed faults => trivial
  | drives files dirs => trivial

/-- In every run, whatever drives come and go: a model of which a copy remains is found at each call
at which its record is of a file, or of nothing and a pack has it; and where the disk does not fail,
at no other. -/
theorem models_stay_located (w : World) (acts : List Act) :
    (Along (step sha256 to_vec_pretty from_slice) (Clear sha256 from_slice model_dir) w acts →
      Along (step sha256 to_vec_pretty from_slice) (Safe sha256 from_slice model_dir) w acts) ∧
    ((∀ act ∈ acts, Calm act) →
      Along (step sha256 to_vec_pretty from_slice) (Safe sha256 from_slice model_dir) w acts →
      Along (step sha256 to_vec_pretty from_slice) (Clear sha256 from_slice model_dir) w acts) :=
  ⟨along_mono fun w act _ => step_safe w act,
    fun hcalm => along_mono fun w act hact => clear_of_safe w (hcalm act hact)⟩

end Runs

/-! ## A drive that comes and goes -/

open Device (alpha text_hash show_index read_index pack)

def model_dir : Path := ["data", "models"]

def nothing : World := ⟨Device.fresh ∅ [], []⟩

/-- The files of the local directory, and with the drive those of its pack. -/
def local_files : Table Path Bytes :=
  ((∅ : Table Path Bytes).insert (model_dir ++ ["model.gguf"]) [65]).insert
    (model_dir ++ [PACK_INDEX_FILE]) (show_index ⟨1, [alpha]⟩)

def with_drive : Table Path Bytes :=
  (local_files.insert (pack ++ ["model.gguf"]) [65]).insert (pack ++ [PACK_INDEX_FILE])
    (show_index ⟨1, [alpha]⟩)

/-- A model is installed, a drive with a pack of it is plugged in and scanned, and it is located. -/
def plugged : List Act :=
  [.register alpha, .install_to alpha.slug alpha model_dir (.ok [65]) [],
    .drives with_drive (model_dir.inits ++ pack.inits),
    .scan_roots [pack] (fun _ => none) [], .locate alpha.slug [pack] (fun _ => none) []]

/-- The drive is taken out. -/
def unplugged : List Act :=
  plugged ++ [.drives local_files model_dir.inits, .locate alpha.slug [] (fun _ => none) []]

theorem a_plugged_model_is_found :
    Along (step text_hash show_index read_index) (Safe text_hash read_index model_dir) nothing
      plugged := by
  refine (models_stay_located nothing plugged).1 ⟨trivial, trivial, trivial, trivial, ?_, trivial⟩
  exact fun _ => .inl ⟨pack ++ ["model.gguf"], by decide +kernel, by decide +kernel⟩

/-- The record is of the file on the drive, and the copy in the local directory is not looked for. -/
theorem a_local_copy_is_not_found :
    ¬ ∀ (sha256 : Bytes → String) (to_vec_pretty : ModelPackIndex → Bytes)
      (from_slice : Bytes → Option ModelPackIndex) (model_dir : Path) (w : World) (acts : List Act),
      Along (step sha256 to_vec_pretty from_slice) (Safe sha256 from_slice model_dir) w acts := by
  intro hall
  have hsafe := hall text_hash show_index read_index model_dir nothing unplugged
  have hlast : Safe text_hash read_index model_dir
      (run (step text_hash show_index read_index) nothing (unplugged.take 6))
      (.locate alpha.slug [] (fun _ => none) []) := hsafe.2.2.2.2.2.2.1
  have hremains : Remains text_hash model_dir
      (run (step text_hash show_index read_index) nothing (unplugged.take 6)) alpha.slug [] :=
    ⟨⟨alpha.slug, "model.gguf", "A"⟩, by decide +kernel, rfl, model_dir, List.mem_cons_self, [65],
      by decide +kernel, by decide +kernel⟩
  obtain ⟨p, hp, -⟩ := hlast hremains
  have hnone : (located text_hash read_index
      (run (step text_hash show_index read_index) nothing (unplugged.take 6)).device alpha.slug []
        (fun _ => none) []).1.toOption = some none := by decide +kernel
  rw [hp] at hnone
  cases hnone

end location

end pai_models
