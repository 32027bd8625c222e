-- Packs on foreign drives (the models crate): the file names of an index are joined into paths,
-- kept in the table, and used by later calls. The law says when no call reaches outside the
-- directories that the calls are given.
import PersonalAi.ModelLocation

open pai_core paths program runs table text

namespace pai_models.confinement

/-! ## Places -/

/-- The place is below the directory, and not the directory itself. -/
def Under (root place : Path) : Prop := resolve root <+: place ∧ place ≠ resolve root

instance (root place : Path) : Decidable (Under root place) := by
  unfold Under
  infer_instance

/-- The place is below one of these directories. -/
def Within (roots : List Path) (place : Path) : Prop := ∃ root ∈ roots, Under root place

theorem resolve_concat (p : Path) (c : String) : resolve (p ++ [c]) = step (resolve p) c := by
  simp [resolve]

theorem under_name {root place : Path} (h : resolve root <+: place) (name : String) :
    Under root (place ++ [name]) := by
  refine ⟨h.trans (List.prefix_append place [name]), fun heq => ?_⟩
  have hle := h.length_le
  have hlen := congrArg List.length heq
  rw [List.length_append, List.length_singleton] at hlen
  omega

/-- Behind a directory at or below the root, any name but `..` is below it. -/
theorem under_child {root dir : Path} (h : resolve root <+: resolve dir) {name : String}
    (hname : name ≠ "..") : Under root (resolve (dir ++ [name])) := by
  rw [resolve_concat, step, if_neg hname]
  exact under_name h name

/-- The directory that a path names its last component in is not above the root. -/
theorem prefix_parent {root p : Path} (h : Under root (resolve p)) :
    resolve root <+: resolve (parent p) := by
  rcases List.eq_nil_or_concat p with rfl | ⟨dir, c, rfl⟩
  · exact h.1
  · obtain ⟨hpre, hne⟩ := h
    rw [List.concat_eq_append] at hpre hne ⊢
    rw [parent, List.dropLast_concat]
    rw [resolve_concat, step] at hpre hne
    split at hpre
    · exact hpre.trans (List.dropLast_prefix _)
    · rename_i hname
      rw [if_neg hname] at hne
      exact (List.prefix_concat_iff.mp hpre).resolve_left (Ne.symm hne)

theorem with_extension_ne_dots (stem : String) {extension : String} (h : 2 ≤ extension.length) :
    stem ++ "." ++ extension ≠ ".." := by
  intro heq
  have hlen := congrArg String.length heq
  rw [String.length_append, String.length_append] at hlen
  have hdot : ".".length = 1 := by decide
  have hdots : "..".length = 2 := by decide
  omega

theorem under_with_extension {root p : Path} (h : Under root (resolve p)) {extension : String}
    (hlen : 2 ≤ extension.length) : Under root (resolve (with_extension p extension)) := by
  unfold with_extension
  split
  · exact under_child (prefix_parent h) (with_extension_ne_dots _ hlen)
  · exact h

theorem under_index {root dir : Path} (h : resolve root <+: resolve dir) :
    Under root (resolve (dir ++ [PACK_INDEX_FILE])) := under_child h (by decide)

theorem under_index_tmp {root dir : Path} (h : resolve root <+: resolve dir) :
    Under root (resolve (index_tmp dir)) := under_with_extension (under_index h) (by decide)

theorem Within.of_under {roots : List Path} {root place : Path} (hroot : root ∈ roots)
    (h : Under root place) : Within roots place := ⟨root, hroot, h⟩

/-! ## Runs -/

inductive Act
  | call (act : pai_models.Act)
  -- drives come and go, and others change what is on them: what is there now
  | drives (files : Table Path Bytes) (dirs : List Path)

/-- The directories that a call is given: where it installs, and the packs that it scans. -/
def given : Act → List Path
  | .call (.install _ _ dest_dir _ _) => [dest_dir]
  | .call (.copy _ _ _ dest_dir _) => [dest_dir]
  | .call (.scan roots _ _) => roots
  | _ => []

section Runs
variable (sha256 : Bytes → String) (to_vec_pretty : ModelPackIndex → Bytes)
  (from_slice : Bytes → Option ModelPackIndex)

def step (w : Device) : Act → Device
  | .call act => w.step sha256 to_vec_pretty from_slice act
  | .drives files dirs => { w with files, dirs }

/-! ## What is wanted -/

/-- Every file that the call has made, changed or removed is below one of the directories. -/
def Spares (roots : List Path) (w w' : Device) : Prop :=
  ∀ place, w'.files.lookup place ≠ w.files.lookup place → Within roots place

/-- A scan reports files of its own packs, and records no others. -/
def Adopts (w : Device) (roots : List Path) (run : Except Error (List ScannedModel) × Device) : Prop :=
  (∀ found, run.1 = .ok found → ∀ s ∈ found, s.pack_root ∈ roots ∧ Under s.pack_root (resolve s.path)) ∧
    ∀ slug p, run.2.installed_path slug = some p →
      w.installed_path slug = some p ∨ Within roots (resolve p)

def Confined (roots : List Path) (w : Device) : Act → Prop
  | .drives _ _ => True
  | .call (.vanish _) => True
  | .call (.scan packs listed faults) =>
    Adopts w packs ((scan_roots sha256 from_slice listed packs).outcome { w with faults }) ∧
      Spares roots w (w.step sha256 to_vec_pretty from_slice (.scan packs listed faults))
  | .call act => Spares roots w (w.step sha256 to_vec_pretty from_slice act)

/-! ## When it holds -/

/-- What the index of a pack lists, and where. -/
def entries (w : Device) (root : Path) : List (ModelManifest × Path) :=
  match (w.file (root ++ [PACK_INDEX_FILE])).bind from_slice with
  | some idx => idx.models.map fun m => (m, join root m.filename)
  | none => []

/-- The file name of an installation leads below its directory, and so does that of every entry of
a scanned pack that can be adopted. -/
def Clear (w : Device) : Act → Prop
  | .call (.install _ m dest_dir _ _) => Under dest_dir (resolve (join dest_dir m.filename))
  | .call (.copy _ m _ dest_dir _) => Under dest_dir (resolve (join dest_dir m.filename))
  | .call (.scan roots _ _) => ∀ root ∈ roots, ∀ c ∈ entries from_slice w root,
    location.adoptable sha256 w c = true → Under root (resolve c.2)
  | _ => True

end Runs

instance (sha256 : Bytes → String) (from_slice : Bytes → Option ModelPackIndex) (w : Device) :
    (act : Act) → Decidable (Clear sha256 from_slice w act)
  | .call (.install ..) => inferInstanceAs (Decidable (Under _ _))
  | .call (.copy ..) => inferInstanceAs (Decidable (Under _ _))
  | .call (.scan ..) => inferInstanceAs (Decidable (∀ _ ∈ _, ∀ _ ∈ _, _ → _))
  | .call (.register _) => .isTrue trivial
  | .call (.uninstall ..) => .isTrue trivial
  | .call (.vanish _) => .isTrue trivial
  | .drives .. => .isTrue trivial

/-! ## Calls that write -/

section Writes
variable {roots : List Path} {w₀ w w' : Device} {p : Path}

/-- Outside of the directories nothing has changed, and no record leads there. -/
structure Still (roots : List Path) (w₀ w : Device) : Prop where
  files : Spares roots w₀ w
  paths : ∀ slug p, w.installed_path slug = some p → Within roots (resolve p)

theorem spares_refl (w : Device) : Spares roots w w := fun _ h => (h rfl).elim

theorem Still.untouched (h : Still roots w₀ w) (h' : Device.Untouched w w') : Still roots w₀ w' := by
  refine ⟨fun place hplace => h.files place ?_, fun slug p hp => h.paths slug p ?_⟩
  · rwa [h'.files] at hplace
  · rwa [Device.installed_path, h'.rows] at hp

theorem Still.put (h : Still roots w₀ w) (hp : Within roots (resolve p)) (content : Bytes) :
    Still roots w₀ (w.put p content) := by
  refine ⟨fun place hplace => ?_, h.paths⟩
  simp only [Device.put, lookup_insert_if] at hplace
  split at hplace
  · rename_i hat
    rwa [hat]
  · exact h.files place hplace

theorem Still.drop (h : Still roots w₀ w) (hp : Within roots (resolve p)) :
    Still roots w₀ (w.drop p) := by
  refine ⟨fun place hplace => ?_, h.paths⟩
  simp only [Device.drop, lookup_erase_if] at hplace
  split at hplace
  · rename_i hat
    rwa [hat]
  · exact h.files place hplace

theorem Still.enter (h : Still roots w₀ w) (m : ModelManifest) : Still roots w₀ (w.enter m) := by
  refine ⟨fun place hplace => h.files place ?_, fun slug p hp => h.paths slug p ?_⟩
  · rwa [(location.enter_scanned w m).files] at hplace
  · rwa [location.enter_installed_path] at hp

theorem Still.mark (h : Still roots w₀ w) (hp : Within roots (resolve p)) (slug digest : String)
    (pin : Option String) : Still roots w₀ (w.mark slug p digest pin) := by
  refine ⟨h.files, fun t q hq => ?_⟩
  rw [Device.mark_installed_path] at hq
  split at hq
  · cases hq
    exact hp
  · exact h.paths t q hq

theorem Still.unmark (h : Still roots w₀ w) (slug : String) : Still roots w₀ (w.unmark slug) := by
  unfold Device.unmark
  split
  · refine ⟨h.files, fun t q hq => ?_⟩
    simp only [Device.installed_path, lookup_insert_if] at hq
    split at hq
    · cases hq
    · exact h.paths t q hq
  · exact h

theorem ends_write (hp : Within roots (resolve p)) (content : Bytes) :
    Ends (Still roots w₀) (consult (·.write p content) : Call Unit) (fun _ => Still roots w₀)
      (Still roots w₀) := by
  have hrun : ∀ w, Still roots w₀ w → Still roots w₀ (w.write p content).2 := by
    intro w hw
    obtain ⟨v, hv, h | h | ⟨left, h⟩⟩ := Device.write_cases w p content
    · rw [h]
      exact (hw.untouched hv).put hp content
    · rw [h]
      exact hw.untouched hv
    · rw [h]
      exact (hw.untouched hv).put hp left
  refine ends_consult (fun w a w' hw h => ?_) (fun w e w' hw h => ?_)
  all_goals
    have hstill := hrun w hw
    rwa [h] at hstill

theorem ends_rename {old new : Path} (hold : Within roots (resolve old))
    (hnew : Within roots (resolve new)) :
    Ends (Still roots w₀) (consult (·.rename old new) : Call Unit) (fun _ => Still roots w₀)
      (Still roots w₀) := by
  have hrun : ∀ w, Still roots w₀ w → Still roots w₀ (w.rename old new).2 := by
    intro w hw
    obtain ⟨v, hv, ⟨content, -, h⟩ | h⟩ := Device.rename_cases w old new
    · rw [h]
      exact ((hw.untouched hv).drop hold).put hnew content
    · rw [h]
      exact hw.untouched hv
  refine ends_consult (fun w a w' hw h => ?_) (fun w e w' hw h => ?_)
  all_goals
    have hstill := hrun w hw
    rwa [h] at hstill

theorem ends_copy {src target : Path} (htarget : Within roots (resolve target)) :
    Ends (Still roots w₀) (consult (·.copy src target) : Call Unit) (fun _ => Still roots w₀)
      (Still roots w₀) := by
  intro w hw
  rcases hfile : w.file src with _ | content
  · have hrun : w.copy src target = (.error (.Storage "copy"), w) := by simp [Device.copy, hfile]
    rw [outcome_consult, hrun]
    refine ⟨fun a w' h => (by cases h), ?_⟩
    rintro e w' h
    cases h
    exact hw
  · have hrun : w.copy src target = w.write target (Device.copied src target content) := by
      simp [Device.copy, hfile]
    rw [outcome_consult, hrun]
    exact ends_write htarget _ w hw

end Writes

/-! ## Functions that write -/

section Functions
variable {sha256 : Bytes → String} {to_vec_pretty : ModelPackIndex → Bytes}
  {from_slice : Bytes → Option ModelPackIndex} {listed : Path → Option (List String)}
  {roots : List Path} {root dir : Path} {m : ModelManifest} {slug : String} {w₀ w w' : Device}

theorem ends_file_sha256 (p : Path) :
    Ends (Still roots w₀) (file_sha256 sha256 p) (fun _ => Still roots w₀) (Still roots w₀) :=
  ends_mono (Device.ends_file_sha256 fun _ _ hv h => h.untouched hv) (fun _ h => h)
    (fun _ _ h => h.1) (fun _ h => h)

theorem ends_read_pack_index (dir : Path) :
    Ends (Still roots w₀) (read_pack_index from_slice dir) (fun _ => Still roots w₀)
      (Still roots w₀) :=
  ends_mono (Device.ends_read_pack_index fun _ _ hv h => h.untouched hv) (fun _ h => h)
    (fun _ _ h => h.1) (fun _ h => h)

theorem ends_write_pack_index (hroot : root ∈ roots) (hdir : resolve root <+: resolve dir)
    (index : ModelPackIndex) :
    Ends (Still roots w₀) (write_pack_index to_vec_pretty dir index) (fun _ => Still roots w₀)
      (Still roots w₀) := by
  have htmp : Within roots (resolve (index_tmp dir)) := .of_under hroot (under_index_tmp hdir)
  have hindex : Within roots (resolve (dir ++ [PACK_INDEX_FILE])) :=
    .of_under hroot (under_index hdir)
  exact ends_bind (ends_write htmp _) fun _ => ends_rename htmp hindex

theorem ends_upsert_pack_index (hroot : root ∈ roots) (hdir : resolve root <+: resolve dir)
    (m : ModelManifest) :
    Ends (Still roots w₀) (upsert_pack_index to_vec_pretty from_slice dir m)
      (fun _ => Still roots w₀) (Still roots w₀) :=
  ends_bind (ends_read_pack_index dir) fun _ => ends_write_pack_index hroot hdir _

theorem ends_remove_from_pack_index (hroot : root ∈ roots) (hdir : resolve root <+: resolve dir)
    (slug : String) :
    Ends (Still roots w₀) (remove_from_pack_index to_vec_pretty from_slice dir slug)
      (fun _ => Still roots w₀) (Still roots w₀) := by
  refine ends_bind (ends_read_pack_index dir) fun found => ?_
  rcases found with _ | idx
  · exact ends_pure fun _ h => h
  · simp only [doWhen]
    split
    · exact ends_ignore (ends_write_pack_index hroot hdir _)
    · exact ends_pure fun _ h => h

theorem ends_mark_installed {dest : Path} (hdest : Within roots (resolve dest)) (digest : String)
    (pin : Option String) :
    Ends (Still roots w₀) (mark_installed slug dest digest pin) (fun _ => Still roots w₀)
      (Still roots w₀) := by
  refine ends_consult ?_ (fun w e w' _ hrun => by cases hrun)
  intro w a w' hw hrun
  cases hrun
  dsimp only
  split
  · exact hw.mark hdest slug digest pin
  · exact hw

theorem ends_finish (hroot : root ∈ roots) {dest : Path} (hdest : Under root (resolve dest))
    (digest : String) :
    Ends (Still roots w₀)
      (do
        consult (·.rename (part_of dest) dest)
        mark_installed slug dest digest m.sha256
        upsert_pack_index to_vec_pretty from_slice root m
        return dest : Call Path)
      (fun _ => Still roots w₀) (Still roots w₀) := by
  have hpart : Under root (resolve (part_of dest)) := under_with_extension hdest (by decide)
  refine ends_bind (ends_rename (.of_under hroot hpart) (.of_under hroot hdest)) fun _ => ?_
  refine ends_bind (ends_mark_installed (.of_under hroot hdest) digest m.sha256) fun _ => ?_
  exact ends_bind (ends_upsert_pack_index hroot (List.prefix_refl _) m) fun _ =>
    ends_pure fun _ h => h

theorem ends_place (hroot : root ∈ roots) (hdest : Under root (resolve (join root m.filename)))
    (bytes : Bytes) :
    Ends (Still roots w₀) (place sha256 to_vec_pretty from_slice slug m bytes root)
      (fun _ => Still roots w₀) (Still roots w₀) := by
  have hpart : Under root (resolve (part_of (join root m.filename))) :=
    under_with_extension hdest (by decide)
  refine ends_bind (Device.ends_create_dir_all fun _ _ hv h => h.untouched hv) fun _ => ?_
  dsimp only
  split
  · exact ends_fail fun _ h => h
  · refine ends_bind (ends_write (.of_under hroot hpart) bytes) fun _ => ?_
    exact ends_finish hroot hdest _

theorem ends_copy_to (hroot : root ∈ roots) (hdest : Under root (resolve (join root m.filename)))
    (src : Path) :
    Ends (Still roots w₀) (copy_to sha256 to_vec_pretty from_slice slug m src root)
      (fun _ => Still roots w₀) (Still roots w₀) := by
  have hpart : Under root (resolve (part_of (join root m.filename))) :=
    under_with_extension hdest (by decide)
  refine ends_bind (Device.ends_create_dir_all fun _ _ hv h => h.untouched hv) fun _ => ?_
  refine ends_bind (ends_copy (.of_under hroot hpart)) fun _ => ?_
  refine ends_bind (ends_file_sha256 _) fun digest => ?_
  split
  · refine ends_bind (ends_ignore (Device.ends_remove_file (fun _ _ hv h => h.untouched hv)
      fun _ h => h.drop (.of_under hroot hpart))) fun _ => ends_fail fun _ h => h
  · exact ends_finish hroot hdest digest

theorem ends_install_to (hroot : root ∈ roots)
    (hdest : Under root (resolve (join root m.filename))) (download : Except String Bytes) :
    Ends (Still roots w₀) (install_to sha256 to_vec_pretty from_slice slug m root download)
      (fun _ => Still roots w₀) (Still roots w₀) := by
  refine ends_bind (ends_ask (Q := fun _ => Still roots w₀) fun _ h => h) fun here => ?_
  rcases here with _ | cur
  · rcases hurl : m.url with _ | url
    · exact ends_fail fun _ h => h
    · refine ends_bind (Device.ends_create_dir_all fun _ _ hv h => h.untouched hv) fun _ => ?_
      rcases download with e | bytes
      · exact ends_fail fun _ h => h
      · exact ends_place hroot hdest bytes
  · dsimp only
    split
    · exact ends_pure fun _ h => h
    · exact ends_copy_to hroot hdest cur

/-- The removed file and the index of its directory are where the record says. -/
theorem ends_uninstall (slug : String) :
    Ends (Still roots w₀) (uninstall to_vec_pretty from_slice slug) (fun _ => Still roots w₀)
      (Still roots w₀) := by
  have hunmark : ∀ u : Unit, Ends (Still roots w₀) (update (·.unmark slug))
      (fun _ => Still roots w₀) (Still roots w₀) := by
    refine fun _ => ends_consult ?_ (fun w e w' _ hrun => by cases hrun)
    intro w a w' hw hrun
    cases hrun
    exact hw.unmark slug
  refine ends_bind (ends_ask (Q := fun found w => Still roots w₀ w ∧
    ∀ path, found = some path → Within roots (resolve path)) fun w h => ⟨h, h.paths slug⟩)
    fun found => ?_
  rcases found with _ | path
  · exact ends_mono (hunmark ()) (fun _ h => h.1) (fun _ _ h => h) (fun _ h => h)
  · rintro w ⟨hw, hpath⟩
    obtain ⟨root, hroot, hunder⟩ := hpath path rfl
    refine ends_bind (ends_ignore (Device.ends_remove_file (fun _ _ hv h => h.untouched hv)
      fun _ h => h.drop (.of_under hroot hunder))) (fun _ => ?_) w hw
    refine ends_bind (Q := fun _ => Still roots w₀) ?_ hunmark
    unfold doWhen
    split
    · exact ends_remove_from_pack_index hroot (prefix_parent hunder) slug
    · exact ends_pure fun _ h => h

/-! ## Scans -/

/-- The same files, and new records of files of the packs only. -/
structure Scanned (packs : List Path) (w₀ w : Device) : Prop where
  files : w.files = w₀.files
  paths : ∀ slug p, w.installed_path slug = some p →
    w₀.installed_path slug = some p ∨ Within packs (resolve p)

/-- Everything that was found is below the pack it was found in. -/
def Mine (packs : List Path) (found : List ScannedModel) : Prop :=
  ∀ s ∈ found, s.pack_root ∈ packs ∧ Under s.pack_root (resolve s.path)

variable {packs : List Path}

theorem Scanned.untouched (h : Scanned packs w₀ w) (h' : Device.Untouched w w') :
    Scanned packs w₀ w' := by
  refine ⟨h'.files.trans h.files, fun slug p hp => h.paths slug p ?_⟩
  rwa [Device.installed_path, h'.rows] at hp

theorem Scanned.enter (h : Scanned packs w₀ w) (m : ModelManifest) : Scanned packs w₀ (w.enter m) := by
  refine ⟨(location.enter_scanned w m).files.trans h.files, fun slug p hp => h.paths slug p ?_⟩
  rwa [location.enter_installed_path] at hp

theorem Scanned.mark (h : Scanned packs w₀ w) {p : Path} (hp : Within packs (resolve p))
    (slug digest : String) (pin : Option String) : Scanned packs w₀ (w.mark slug p digest pin) := by
  refine ⟨h.files, fun t q hq => ?_⟩
  rw [Device.mark_installed_path] at hq
  split at hq
  · cases hq
    exact .inr hp
  · exact h.paths t q hq

theorem ends_adopt (hroot : root ∈ packs) {path : Path}
    (hpath : location.adoptable sha256 w₀ (m, path) = true → Under root (resolve path)) :
    Ends (Scanned packs w₀) (adopt sha256 m path root)
      (fun r w => Scanned packs w₀ w ∧ Mine packs r.toList) (Scanned packs w₀) := by
  have hnone : Mine packs (none : Option ScannedModel).toList := by simp [Mine]
  refine ends_bind (ends_ask (Q := fun _ => Scanned packs w₀) fun _ h => h) fun missing => ?_
  split
  · exact ends_pure fun _ h => ⟨h, hnone⟩
  · refine ends_bind (Device.ends_file_sha256 fun _ _ hv h => h.untouched hv) fun digest => ?_
    split
    · exact ends_pure fun _ h => ⟨h.1, hnone⟩
    · rename_i hdigest
      have hpinned : pinned m digest = true := by simpa using hdigest
      rintro w ⟨hw, content, hcontent, rfl⟩
      have hunder : Under root (resolve path) := by
        apply hpath
        rw [← location.adoptable_congr hw.files]
        simp only [location.adoptable, hcontent, hpinned]
      refine ends_bind (Q := fun _ => Scanned packs w₀) ?_ (fun _ => ?_) w hw
      · exact ends_consult (fun w a w' hw hrun => by cases hrun; exact hw.enter m)
          (fun w e w' _ hrun => by cases hrun)
      · refine ends_bind (Q := fun _ => Scanned packs w₀) ?_ fun _ => ends_pure fun w hw => ⟨hw, ?_⟩
        · refine ends_consult ?_ (fun w e w' _ hrun => by cases hrun)
          intro w a w' hw hrun
          cases hrun
          dsimp only
          split
          · exact hw.mark (.of_under hroot hunder) _ _ _
          · exact hw
        · simpa [Mine] using And.intro hroot hunder

theorem ends_adopt_all (hroot : root ∈ packs) (cs : List (ModelManifest × Path))
    (hcs : ∀ c ∈ cs, location.adoptable sha256 w₀ c = true → Under root (resolve c.2)) :
    Ends (Scanned packs w₀) (adopt_all sha256 root cs)
      (fun found w => Scanned packs w₀ w ∧ Mine packs found) (Scanned packs w₀) := by
  induction cs with
  | nil => exact ends_pure fun _ h => ⟨h, by simp [Mine]⟩
  | cons c rest ih =>
    rw [List.forall_mem_cons] at hcs
    refine ends_bind (ends_adopt hroot hcs.1) fun adopted => ?_
    rintro w ⟨hw, hadopted⟩
    refine ends_bind (ih hcs.2) (fun found => ends_pure ?_) w hw
    rintro w ⟨hw, hfound⟩
    exact ⟨hw, List.forall_mem_append.mpr ⟨hadopted, hfound⟩⟩

/-- The catalog names files of the pack itself. -/
theorem catalog_under (root : Path) (names : List String) :
    ∀ c ∈ names.filterMap (fun name =>
      (builtin_catalog.find? (fun m => m.filename = name)).map fun m => (m, root ++ [name])),
      Under root (resolve c.2) := by
  intro c hc
  obtain ⟨name, -, hname⟩ := List.mem_filterMap.mp hc
  obtain ⟨m, hm, rfl⟩ := Option.map_eq_some_iff.mp hname
  have hmem := List.mem_of_find?_eq_some hm
  have hsame := List.find?_some hm
  have hnames : ∀ m ∈ builtin_catalog, m.filename ≠ ".." := by decide
  refine under_child (List.prefix_refl _) ?_
  have hfile := hnames m hmem
  rwa [show m.filename = name by simpa using hsame] at hfile

theorem ends_scan_root (hroot : root ∈ packs)
    (h : ∀ c ∈ entries from_slice w₀ root, location.adoptable sha256 w₀ c = true →
      Under root (resolve c.2)) :
    Ends (Scanned packs w₀) (scan_root sha256 from_slice listed root)
      (fun found w => Scanned packs w₀ w ∧ Mine packs found) (Scanned packs w₀) := by
  refine ends_bind (ends_ask (Q := fun _ => Scanned packs w₀) fun _ h => h) fun missing => ?_
  split
  · exact ends_pure fun _ h => ⟨h, by simp [Mine]⟩
  · refine ends_bind (Device.ends_read_pack_index fun _ _ hv h => h.untouched hv) fun found => ?_
    rcases found with _ | idx
    · exact ends_mono (ends_adopt_all hroot _ fun c hc _ => catalog_under root _ c hc)
        (fun _ h => h.1) (fun _ _ h => h) (fun _ h => h)
    · rintro w ⟨hw, hidx⟩
      obtain ⟨bytes, hbytes, hread⟩ := hidx idx rfl
      refine ends_adopt_all hroot _ (fun c hc => h c ?_) w hw
      have hfile : w₀.file (root ++ [PACK_INDEX_FILE]) = some bytes := by
        rwa [Device.file, hw.files] at hbytes
      rw [entries, hfile, Option.bind_some, hread]
      exact hc

theorem ends_scan_roots (roots : List Path) (hsub : ∀ root ∈ roots, root ∈ packs)
    (h : ∀ root ∈ roots, ∀ c ∈ entries from_slice w₀ root, location.adoptable sha256 w₀ c = true →
      Under root (resolve c.2)) :
    Ends (Scanned packs w₀) (scan_roots sha256 from_slice listed roots)
      (fun found w => Scanned packs w₀ w ∧ Mine packs found) (Scanned packs w₀) := by
  induction roots with
  | nil => exact ends_pure fun _ h => ⟨h, by simp [Mine]⟩
  | cons root rest ih =>
    rw [List.forall_mem_cons] at hsub h
    refine ends_bind (ends_scan_root hsub.1 h.1) fun here => ?_
    rintro w ⟨hw, hhere⟩
    refine ends_bind (ih hsub.2 h.2) (fun found => ends_pure ?_) w hw
    rintro w ⟨hw, hfound⟩
    exact ⟨hw, List.forall_mem_append.mpr ⟨hhere, hfound⟩⟩

/-! ## One step -/

/-- Every record leads below one of the directories. -/
def Recorded (roots : List Path) (w : Device) : Prop :=
  ∀ slug p, w.installed_path slug = some p → Within roots (resolve p)

theorem Recorded.still (h : Recorded roots w) (faults : List (Option (Option Bytes))) :
    Still roots w { w with faults } := ⟨spares_refl w, h⟩

/-- A call that writes only below the directories. -/
theorem still_step {call : Call α} (hrecorded : Recorded roots w)
    (faults : List (Option (Option Bytes)))
    (h : Ends (Still roots w) call (fun _ => Still roots w) (Still roots w)) :
    Still roots w (call.outcome { w with faults }).2 :=
  ends_outcome h (hrecorded.still faults)

theorem scan_step (hrecorded : Recorded roots w) (hgiven : ∀ root ∈ packs, root ∈ roots)
    (h : ∀ root ∈ packs, ∀ c ∈ entries from_slice w root, location.adoptable sha256 w c = true →
      Under root (resolve c.2)) (faults : List (Option (Option Bytes))) :
    Adopts w packs ((scan_roots sha256 from_slice listed packs).outcome { w with faults }) ∧
      Still roots w ((scan_roots sha256 from_slice listed packs).outcome { w with faults }).2 := by
  have hends := @ends_scan_roots sha256 from_slice listed w packs packs (fun _ h => h) h
  have hat : Scanned packs w { w with faults } := ⟨rfl, fun _ _ hp => .inl hp⟩
  have hscanned := ends_outcome (ends_mono hends (fun _ h => h) (fun _ _ h => h.1) fun _ h => h) hat
  refine ⟨⟨fun found hfound => ?_, hscanned.paths⟩, fun place hplace => ?_, fun slug p hp => ?_⟩
  · have hrun : (scan_roots sha256 from_slice listed packs).outcome { w with faults } =
        (.ok found, _) := Prod.ext hfound rfl
    exact ((hends _ hat).1 _ _ hrun).2
  · exact (hplace (by rw [hscanned.files])).elim
  · rcases hscanned.paths slug p hp with hold | ⟨root, hroot, hunder⟩
    · exact hrecorded slug p hold
    · exact ⟨root, hgiven root hroot, hunder⟩

theorem clear_step {act : Act} (hrecorded : Recorded roots w)
    (hgiven : ∀ root ∈ given act, root ∈ roots) (h : Clear sha256 from_slice w act) :
    Confined sha256 to_vec_pretty from_slice roots w act ∧
      Recorded roots (step sha256 to_vec_pretty from_slice w act) := by
  cases act with
  | drives files dirs => exact ⟨trivial, hrecorded⟩
  | call act =>
    cases act with
    | register m =>
      have hstill : Still roots w (w.enter m) := (hrecorded.still w.faults).enter m
      exact ⟨hstill.files, hstill.paths⟩
    | install slug m dest_dir download faults =>
      have hstill := still_step hrecorded faults (@ends_install_to sha256 to_vec_pretty from_slice
        roots dest_dir m slug w (hgiven dest_dir List.mem_cons_self) h download)
      exact ⟨hstill.files, hstill.paths⟩
    | copy slug m src dest_dir faults =>
      have hstill := still_step hrecorded faults (@ends_copy_to sha256 to_vec_pretty from_slice
        roots dest_dir m slug w (hgiven dest_dir List.mem_cons_self) h src)
      exact ⟨hstill.files, hstill.paths⟩
    | scan packs listed faults =>
      obtain ⟨hadopts, hstill⟩ := scan_step hrecorded hgiven h faults
      exact ⟨⟨hadopts, hstill.files⟩, hstill.paths⟩
    | uninstall slug faults =>
      have hstill := still_step hrecorded faults
        (@ends_uninstall to_vec_pretty from_slice roots w slug)
      exact ⟨hstill.files, hstill.paths⟩
    | vanish p => exact ⟨trivial, hrecorded⟩

end Functions

/-! ## Runs of a pack -/

/-- In every run whose installations and packs name files below their directories, whatever the
disk does: a scan takes only what is in its packs, and no call touches a file outside of the
directories that the calls are given. -/
theorem clear_runs_are_confined (sha256 : Bytes → String) (to_vec_pretty : ModelPackIndex → Bytes)
    (from_slice : Bytes → Option ModelPackIndex) (files : Table Path Bytes) (dirs : List Path)
    {acts : List Act}
    (hclear : Along (step sha256 to_vec_pretty from_slice) (Clear sha256 from_slice)
      (Device.fresh files dirs) acts) :
    Along (step sha256 to_vec_pretty from_slice)
      (Confined sha256 to_vec_pretty from_slice (acts.flatMap given)) (Device.fresh files dirs)
      acts := by
  have hstart : Recorded (acts.flatMap given) (Device.fresh files dirs) := by
    intro slug p hp
    simp [Device.installed_path, Device.fresh] at hp
  have hgiven : Along (step sha256 to_vec_pretty from_slice)
      (fun w act => Clear sha256 from_slice w act ∧ ∀ root ∈ given act, root ∈ acts.flatMap given)
      (Device.fresh files dirs) acts :=
    along_mono (fun w act hact h => ⟨h, fun root hroot => List.mem_flatMap.mpr ⟨act, hact, hroot⟩⟩)
      hclear
  refine @along_of_invariant _ _ _ (Recorded (acts.flatMap given)) _ _ ?_ ?_ _ hstart _ hgiven
  · exact fun w act hrecorded h => (clear_step hrecorded h.2 h.1).2
  · exact fun w act hrecorded h => (clear_step hrecorded h.2 h.1).1

/-! ## A pack that names a file of the user -/

def drive : Path := ["media", "drive"]

def document : Path := ["home", "ada", "thesis.txt"]

def entry (filename : String) : ModelManifest :=
  { slug := "m", url := none, sha256 := none, filename }

/-- The pack lists this file name under one slug. -/
def pack_of (filename : String) (bytes : Bytes) : Option ModelPackIndex :=
  if bytes = [73] then some { format := 1, models := [entry filename] } else none

/-- The files that are there: the index, a model in the pack, and the document. -/
def laid_out : Table Path Bytes :=
  ((∅ : Table Path Bytes).insert (drive ++ [PACK_INDEX_FILE]) [73]).insert
    (drive ++ ["m.gguf"]) [77] |>.insert document [84]

def plugged : List Act :=
  [.call (.scan [drive] (fun _ => none) []), .call (.uninstall "m" [])]

theorem a_pack_of_its_own_file :
    Along (step Device.text_hash Device.show_index (pack_of "m.gguf"))
        (Confined Device.text_hash Device.show_index (pack_of "m.gguf") (plugged.flatMap given))
        (Device.fresh laid_out [drive]) plugged ∧
      (run (step Device.text_hash Device.show_index (pack_of "m.gguf"))
        (Device.fresh laid_out [drive]) plugged).file (drive ++ ["m.gguf"]) = none :=
  ⟨clear_runs_are_confined Device.text_hash Device.show_index (pack_of "m.gguf") laid_out [drive]
    (by decide +kernel), by decide +kernel⟩

/-- The index names a document of the user, up from the drive: a scan adopts it, and taking the
model away deletes it. -/
theorem a_pack_deletes_a_document :
    ¬ (∀ acts, Along (step Device.text_hash Device.show_index (pack_of "../../home/ada/thesis.txt"))
        (Confined Device.text_hash Device.show_index (pack_of "../../home/ada/thesis.txt")
          (acts.flatMap given)) (Device.fresh laid_out [drive]) acts) ∧
      (run (step Device.text_hash Device.show_index (pack_of "../../home/ada/thesis.txt"))
        (Device.fresh laid_out [drive]) plugged).file document = none := by
  have hgone : (run (step Device.text_hash Device.show_index (pack_of "../../home/ada/thesis.txt"))
      (Device.fresh laid_out [drive]) plugged).file document = none := by decide +kernel
  refine ⟨fun h => ?_, hgone⟩
  obtain ⟨-, hremoved, -⟩ := h plugged
  obtain ⟨root, hroot, hunder⟩ := hremoved document (by decide +kernel)
  have houtside : ∀ root ∈ plugged.flatMap given, ¬ Under root document := by decide
  exact houtside root hroot hunder

end pai_models.confinement
