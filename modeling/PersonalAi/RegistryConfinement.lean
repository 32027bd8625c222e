-- The laws of the app registry: for an id that is neither a dot, two dots nor
-- the name of a helper directory, the registry touches nothing but the files of
-- that id.
import PersonalAi.AppRegistry

open text paths program

namespace pai_apps

/-! ## The region of an id -/

/-- What the registry puts behind an id to name a helper directory. -/
def IsEnding (e : String) : Prop :=
  e = ".data.bak" ∨ e = ".logs.bak" ∨ e = ".data.rescue" ∨ ∃ now : Stamp, e = ".data.inactive-" ++ now.text

/-- `h` is the name of a helper directory of the id. -/
def Helper (id h : String) : Prop := ∃ e, IsEnding e ∧ h = "." ++ id ++ e

/-- The place belongs to the id: it is the directory of the id or lies in it, or
in a helper directory of the id. -/
def Within (reg : AppRegistry) (id : String) (place : Path) : Prop :=
  reg.root ++ [id] <+: place ∨ ∃ h, Helper id h ∧ reg.root ++ [h] <+: place

/-- The path is written as one of the id: it never goes up behind the directory
of the id or a helper directory. -/
def Inside (reg : AppRegistry) (id : String) (p : Path) : Prop :=
  ∃ top rest, (top = id ∨ Helper id top) ∧ IsName top ∧ Down rest ∧ p = reg.root ++ [top] ++ rest

theorem root_down (reg : AppRegistry) : Down reg.root :=
  down_append (down_names reg.data_dir) (by unfold Down; decide)

theorem Inside.within {reg : AppRegistry} {id : String} {p : Path} (h : Inside reg id p) :
    Within reg id (resolve p) := by
  obtain ⟨top, rest, htop, hname, hrest, rfl⟩ := h
  have hdown : Down [top] := by
    intro hmem
    exact hname.2.2.1 (List.mem_singleton.mp hmem).symm
  rw [resolve_down _ (down_append (down_append (root_down reg) hdown) hrest)]
  rcases htop with rfl | hhelper
  · exact Or.inl (List.prefix_append _ _)
  · exact Or.inr ⟨top, hhelper, List.prefix_append _ _⟩

theorem Inside.append {reg : AppRegistry} {id : String} {p q : Path} (h : Inside reg id p)
    (hq : Down q) : Inside reg id (p ++ q) := by
  obtain ⟨top, rest, htop, hname, hrest, rfl⟩ := h
  exact ⟨top, rest ++ q, htop, hname, down_append hrest hq, by simp⟩

theorem Inside.child {reg : AppRegistry} {id : String} {p : Path} (h : Inside reg id p)
    (name : FileName) : Inside reg id (p ++ [name.text]) :=
  h.append (down_names [name])

theorem Inside.join_name {reg : AppRegistry} {id : String} {p : Path} (h : Inside reg id p)
    {s : String} (hs : IsName s) : Inside reg id (join p s) := by
  rw [paths.join_name p hs]
  exact h.child ⟨s, hs⟩

/-- The parent of a path inside is inside, but for the top directory. -/
theorem Inside.parent {reg : AppRegistry} {id : String} {p q : Path} (h : Inside reg id p)
    (hq : Down q) (hne : q ≠ []) : Inside reg id (parent (p ++ q)) := by
  unfold paths.parent
  rw [List.dropLast_append_of_ne_nil hne]
  exact h.append (down_dropLast hq)

theorem accepted_chars {id : String} (h : check_app_id id = .ok ()) :
    id ≠ "" ∧ ∀ c ∈ id.toList, app_id_char c = true := by
  unfold check_app_id at h
  split at h
  · cases h
  · rename_i hno
    simp only [not_or] at hno
    exact ⟨hno.1, by simpa using hno.2⟩

theorem accepted_no_slash {id : String} (h : check_app_id id = .ok ()) : '/' ∉ id.toList := by
  intro hmem
  exact absurd ((accepted_chars h).2 '/' hmem) (by decide)

theorem accepted_name {id : String} (h : check_app_id id = .ok ()) (hdot : id ≠ ".")
    (hdots : id ≠ "..") : IsName id :=
  ⟨(accepted_chars h).1, hdot, hdots, accepted_no_slash h⟩

theorem ending_no_slash {e : String} (h : IsEnding e) : '/' ∉ e.toList ∧ 2 ≤ e.toList.length := by
  rcases h with rfl | rfl | rfl | ⟨now, rfl⟩
  · decide
  · decide
  · decide
  · constructor
    · intro hmem
      rw [String.toList_append, List.mem_append] at hmem
      rcases hmem with hmem | hmem
      · exact absurd hmem (by decide)
      · exact absurd (now.digits '/' hmem) (by decide)
    · rw [String.toList_append, List.length_append]
      have : 2 ≤ ".data.inactive-".toList.length := by decide
      omega

theorem helper_name {id e : String} (hid : '/' ∉ id.toList) (he : IsEnding e) :
    IsName ("." ++ id ++ e) := by
  obtain ⟨hslash, hlen⟩ := ending_no_slash he
  have hlong : 3 ≤ ("." ++ id ++ e).toList.length := by
    simp only [String.toList_append, List.length_append]
    have : (".".toList).length = 1 := by decide
    omega
  have hne : ∀ s : String, s.toList.length < 3 → "." ++ id ++ e ≠ s := by
    intro s hs heq
    rw [heq] at hlong
    omega
  refine ⟨hne _ (by decide), hne _ (by decide), hne _ (by decide), ?_⟩
  simp only [String.toList_append, List.mem_append, not_or]
  exact ⟨⟨by decide, hid⟩, hslash⟩

theorem inside_own (reg : AppRegistry) {id : String} (h : IsName id) :
    Inside reg id (join reg.root id) := by
  rw [paths.join_name _ h]
  exact ⟨id, [], Or.inl rfl, h, by simp [Down], by simp⟩

theorem inside_helper (reg : AppRegistry) {id e : String} (h : IsName id) (he : IsEnding e) :
    Inside reg id (join reg.root ("." ++ id ++ e)) := by
  have hname := helper_name h.2.2.2 he
  rw [paths.join_name _ hname]
  exact ⟨"." ++ id ++ e, [], Or.inr ⟨e, he, rfl⟩, hname, by simp [Down], by simp⟩

/-! ## What the operations touch -/

/-- SQLite keeps to the directory of the database: the database, its journal and
its log. -/
def BatchesBeside {W : Type} (fs : FileSystem W) : Prop :=
  ∀ db sql, ∀ p ∈ fs.batch_paths db sql, ∃ name : FileName, p = parent db ++ [name.text]

/-- Every path that the call touches is one of the id. -/
def Safe {W : Type} (fs : FileSystem W) (reg : AppRegistry) (id : String) (op : FsOp) : Prop :=
  ∀ p ∈ fs.touched op, Inside reg id p

/-- The program touches only paths of the id, whatever the file system
answers. -/
def Stays {W α : Type} (fs : FileSystem W) (reg : AppRegistry) (id : String) (p : Fs W α) : Prop :=
  Emits (fun tr => ∀ op ∈ tr, Safe fs reg id op) p

section Stays
variable {W : Type} {fs : FileSystem W} {reg : AppRegistry} {id : String}

theorem stays_run {op : FsOp} (h : Safe fs reg id op) : Stays fs reg id (run fs op) :=
  emits_perform _ (by simpa using h)

theorem stays_bind {α β : Type} {p : Fs W α} {f : α → Fs W β} (hp : Stays fs reg id p)
    (hf : ∀ a, Stays fs reg id (f a)) : Stays fs reg id (p >>= f) :=
  emits_bind (additive_forall _) hp hf

theorem stays_pure {α : Type} (a : α) : Stays fs reg id (pure a : Fs W α) :=
  emits_pure (additive_forall _) a

theorem stays_fail {α : Type} (e : AppError) : Stays fs reg id (fail e : Fs W α) :=
  emits_fail (additive_forall _) e

theorem stays_ask {α : Type} (f : W → α) : Stays fs reg id (ask f : Fs W α) :=
  emits_ask (additive_forall _) f

theorem stays_demand {α : Type} (f : W → Except AppError α) :
    Stays fs reg id (demand f : Fs W α) :=
  emits_demand (additive_forall _) f

theorem stays_when (c : Bool) {p : Fs W Unit} (h : Stays fs reg id p) :
    Stays fs reg id (doWhen c p) :=
  emits_when (additive_forall _) c h

theorem stays_ignore {α : Type} {p : Fs W α} (h : Stays fs reg id p) :
    Stays fs reg id (ignore p) :=
  emits_ignore (additive_forall _) h

theorem stays_forEach {β : Type} (xs : List β) {f : β → Fs W Unit}
    (h : ∀ x ∈ xs, Stays fs reg id (f x)) : Stays fs reg id (forEach xs f) :=
  emits_forEach (additive_forall _) xs h

theorem safe_create {p : Path} (h : Inside reg id p) : Safe fs reg id (.create_dir_all p) := by
  simpa [Safe, FileSystem.touched] using h

theorem safe_remove {p : Path} (h : Inside reg id p) : Safe fs reg id (.remove_dir_all p) := by
  simpa [Safe, FileSystem.touched] using h

theorem safe_rename {p q : Path} (hp : Inside reg id p) (hq : Inside reg id q) :
    Safe fs reg id (.rename p q) := by
  simpa [Safe, FileSystem.touched] using ⟨hp, hq⟩

theorem safe_copy (src : Path) {p : Path} (h : Inside reg id p) :
    Safe fs reg id (.copy src p) := by
  simpa [Safe, FileSystem.touched] using h

theorem safe_write {p : Path} (h : Inside reg id p) (b : Bytes) :
    Safe fs reg id (.write p b) := by
  simpa [Safe, FileSystem.touched] using h

theorem safe_open {p : Path} (h : Inside reg id p) : Safe fs reg id (.open_db p) := by
  simpa [Safe, FileSystem.touched] using h

theorem stays_write_below {dir : Path} {rel : String} (h : Inside reg id (join dir rel))
    (b : Bytes) : Stays fs reg id (write_below fs dir rel b) :=
  stays_bind (stays_demand _) fun _ => stays_run (safe_write h b)

mutual
/-- Copying a tree into a directory of the id touches only paths of the id. -/
theorem stays_copy_tree (src dst : Path) (h : Inside reg id dst) :
    ∀ tree, Stays fs reg id (copy_tree fs src dst tree)
  | .dir entries => by
    unfold copy_tree
    exact stays_copy_entries src dst h entries
  | .file => stays_fail _
  | .link _ => stays_fail _
  | .other => stays_fail _

theorem stays_copy_entries (src dst : Path) (h : Inside reg id dst) :
    ∀ entries, Stays fs reg id (copy_entries fs src dst entries)
  | [] => stays_pure ()
  | (name, .dir entries) :: rest => by
    unfold copy_entries
    exact stays_bind (stays_run (safe_create (h.child name))) fun _ =>
      stays_bind (stays_copy_tree _ _ (h.child name) (.dir entries)) fun _ =>
        stays_copy_entries src dst h rest
  | (name, .file) :: rest => by
    unfold copy_entries
    exact stays_bind (stays_run (safe_copy _ (h.child name))) fun _ =>
      stays_copy_entries src dst h rest
  | (name, .link _) :: rest => by
    unfold copy_entries
    exact stays_bind (stays_run (safe_copy _ (h.child name))) fun _ =>
      stays_copy_entries src dst h rest
  | (name, .other) :: rest => by
    unfold copy_entries
    exact stays_bind (stays_run (safe_copy _ (h.child name))) fun _ =>
      stays_copy_entries src dst h rest
end

theorem stays_copy_merge (src : Path) {dst : Path} (h : Inside reg id dst) :
    Stays fs reg id (copy_merge fs src dst) :=
  stays_bind (stays_run (safe_create h)) fun _ =>
    stays_bind (stays_demand _) fun tree => stays_copy_tree src dst h tree

theorem stays_set_aside {live backup : Path} (hl : Inside reg id live)
    (hb : Inside reg id backup) : Stays fs reg id (set_aside fs live backup) :=
  stays_bind (stays_ask _) fun _ =>
    stays_bind (stays_when _ (stays_run (safe_remove hb))) fun _ =>
      stays_run (safe_rename hl hb)

theorem stays_merge_back {live backup : Path} (hl : Inside reg id live)
    (hb : Inside reg id backup) : Stays fs reg id (merge_back fs backup live) :=
  stays_bind (stays_copy_merge backup hl) fun _ => stays_run (safe_remove hb)

theorem stays_write_saved (saved : Except AppError Bytes) {p : Path} (h : Inside reg id p) :
    Stays fs reg id (write_saved fs saved p) := by
  unfold write_saved
  split
  · exact stays_run (safe_write h _)
  · exact stays_pure ()

theorem RelPath.down (r : RelPath) : Down r.path := down_names r.names

theorem RelPath.path_ne (r : RelPath) : r.path ≠ [] := by
  simpa [RelPath.path] using r.nonempty

theorem stays_install_to (pkg : AppPackage) {dest : Path} (h : Inside reg id dest) :
    Stays fs reg id (pkg.install_to fs dest) := by
  unfold AppPackage.install_to
  refine stays_bind (stays_ask _) fun found => ?_
  split
  · exact stays_fail _
  · refine stays_bind (stays_run (safe_create h)) fun _ => ?_
    refine stays_bind (stays_forEach _ ?_) fun _ => ?_
    · intro rel _
      refine stays_bind (stays_demand _) fun _ => ?_
      exact stays_bind (stays_run (safe_create (h.parent rel.down rel.path_ne))) fun _ =>
        stays_run (safe_copy _ (h.append rel.down))
    · refine stays_bind (stays_ask _) fun _ => stays_when _ (stays_run (safe_copy _ ?_))
      exact h.join_name (by decide)

theorem stays_map_err {α : Type} (f : AppError → AppError) {p : Fs W α}
    (h : Stays fs reg id p) : Stays fs reg id (map_err f p) := by
  unfold map_err
  refine stays_bind (emits_attempt h) fun r => ?_
  split
  · exact stays_pure _
  · exact stays_fail _

theorem stays_provision (hsql : BatchesBeside fs) {dest : Path} (h : Inside reg id dest)
    (manifest : AppManifest) : Stays fs reg id (provision_storage fs dest manifest) := by
  have hdata : Inside reg id (join dest "data") := h.join_name (by decide)
  have hdb : Inside reg id (join (join dest "data") "data.db") := hdata.join_name (by decide)
  have hbatch : ∀ sql, Safe fs reg id (.execute_batch (join (join dest "data") "data.db") sql) := by
    intro sql p hp
    obtain ⟨name, rfl⟩ := hsql _ _ p hp
    have hparent : parent (join (join dest "data") "data.db") = join dest "data" := by
      rw [paths.join_name (join dest "data") (by decide : IsName "data.db")]
      simp [parent]
    rw [hparent]
    exact hdata.child name
  unfold provision_storage
  dsimp only
  split
  · exact stays_pure ()
  · refine stays_bind (stays_run (safe_create hdata)) fun _ => ?_
    refine stays_bind (stays_map_err _ (stays_run (safe_open hdb))) fun _ => ?_
    split
    · exact stays_bind (stays_demand _) fun sql =>
        stays_map_err _ (stays_run (hbatch sql))
    · exact stays_pure ()
  · exact stays_run (safe_create hdata)
  · exact stays_run (safe_create hdata)

end Stays

/-! ## The operations of the registry -/

section Registry
variable {W : Type} (fs : FileSystem W) (reg : AppRegistry) {id : String}

theorem stays_remove (hid : IsName id) : Stays fs reg id (reg.remove fs id) := by
  unfold AppRegistry.remove
  refine stays_bind (stays_demand _) fun _ => stays_bind (stays_ask _) fun found => ?_
  split
  · exact stays_bind (stays_run (safe_remove (inside_own reg hid))) fun _ => stays_pure true
  · exact stays_pure false

/-- The places of an id are inside. -/
structure PlacesInside (reg : AppRegistry) (id : String) (p : Places) : Prop where
  dest : Inside reg id p.dest
  live : Inside reg id p.live
  backup : Inside reg id p.backup
  logs : Inside reg id p.logs
  logs_bak : Inside reg id p.logs_bak
  auth : Inside reg id p.auth

theorem places_inside (hid : IsName id) : PlacesInside reg id (reg.places id) where
  dest := inside_own reg hid
  live := (inside_own reg hid).join_name (by decide : IsName "data")
  backup := inside_helper reg hid (Or.inl rfl)
  logs := (inside_own reg hid).join_name (by decide : IsName "logs")
  logs_bak := inside_helper reg hid (Or.inr (Or.inl rfl))
  auth := (inside_own reg hid).join_name (by decide : IsName "auth.json")

theorem stays_reinstall {at_ : Places} (h : PlacesInside reg id at_) (pkg : AppPackage)
    (auth_saved : Except AppError Bytes) : Stays fs reg id (reinstall fs at_ pkg auth_saved) :=
  stays_bind (stays_install_to pkg h.dest) fun _ => stays_bind (stays_ask _) fun _ =>
    stays_bind (stays_when _ (stays_merge_back h.live h.backup)) fun _ =>
      stays_bind (stays_ask _) fun _ =>
        stays_bind (stays_when _ (stays_merge_back h.logs h.logs_bak)) fun _ =>
          stays_write_saved auth_saved h.auth

theorem stays_roll_back {at_ : Places} (h : PlacesInside reg id at_)
    (auth_saved : Except AppError Bytes) : Stays fs reg id (roll_back fs at_ auth_saved) := by
  have hdata : Stays fs reg id (ignore (run fs (.rename at_.backup at_.live))) :=
    stays_ignore (stays_run (safe_rename h.backup h.live))
  have hlogs : Stays fs reg id (ignore (run fs (.rename at_.logs_bak at_.logs))) :=
    stays_ignore (stays_run (safe_rename h.logs_bak h.logs))
  unfold roll_back
  refine stays_bind (stays_ignore (stays_run (safe_create h.dest))) fun _ => ?_
  refine stays_bind (stays_ask _) fun _ => stays_bind (stays_when _ hdata) fun _ => ?_
  refine stays_bind (stays_ask _) fun _ => stays_bind (stays_when _ hlogs) fun _ => ?_
  exact stays_ignore (stays_write_saved auth_saved h.auth)

theorem stays_upgrade_in_place {at_ : Places} (h : PlacesInside reg id at_) (pkg : AppPackage) :
    Stays fs reg id (upgrade_in_place fs at_ pkg) := by
  unfold upgrade_in_place
  refine stays_bind (stays_ask _) fun _ => ?_
  refine stays_bind (stays_when _ (stays_set_aside h.live h.backup)) fun _ => ?_
  refine stays_bind (stays_ask _) fun auth_saved => stays_bind (stays_ask _) fun _ => ?_
  refine stays_bind (stays_when _ (stays_set_aside h.logs h.logs_bak)) fun _ => ?_
  refine stays_bind (stays_run (safe_remove h.dest)) fun _ => ?_
  refine stays_bind (emits_attempt (stays_reinstall fs reg h pkg auth_saved)) fun r => ?_
  split
  · exact stays_pure ()
  · exact stays_bind (stays_ask _) fun kept =>
      stays_bind (stays_when _ (stays_roll_back fs reg h auth_saved)) fun _ => stays_fail _

theorem stays_place (hsql : BatchesBeside fs) (pkg : AppPackage) (hpkg : pkg.manifest.app_id = id)
    (hid : IsName id) (upgrade : Bool) : Stays fs reg id (reg.place fs pkg upgrade) := by
  subst hpkg
  have h := places_inside reg hid
  refine stays_bind (stays_ask _) fun found => stays_bind ?_ fun _ =>
    stays_bind (stays_provision hsql h.dest _) fun _ => stays_pure _
  unfold put
  split
  · exact stays_fail _
  · exact stays_upgrade_in_place fs reg h pkg
  · exact stays_install_to pkg h.dest

theorem stays_read_files (data : Path) (rels : List Path) :
    Stays fs reg id (read_files fs data rels) := by
  induction rels with
  | nil => exact stays_pure []
  | cons rel rest ih =>
    exact stays_bind (stays_demand _) fun _ => stays_bind ih fun _ => stays_pure _

theorem stays_snapshot_data : Stays fs reg id (reg.snapshot_data fs id) := by
  unfold AppRegistry.snapshot_data
  refine stays_bind (stays_demand _) fun _ => stays_bind (stays_ask _) fun found => ?_
  split
  · refine stays_bind ?_ fun rels =>
      stays_bind (stays_read_files fs reg _ rels) fun _ => stays_pure _
    unfold collect_files
    refine stays_bind (stays_demand _) fun tree => ?_
    split
    · exact stays_pure _
    · exact stays_fail _
  · exact stays_pure []

/-- A path that `check_rel_path` lets through never goes up. -/
theorem checked_rel_path {p : String} (h : check_rel_path p = .ok ()) (base : Path) :
    Down (components p) ∧ join base p = base ++ components p := by
  unfold check_rel_path at h
  split_ifs at h with habs hup
  exact ⟨hup, by simp [join, habs]⟩

theorem check_all_ok {ps : List String} (h : check_all ps = .ok ()) :
    ∀ p ∈ ps, check_rel_path p = .ok () := by
  induction ps with
  | nil => simp
  | cons p ps ih =>
    change (check_rel_path p >>= fun _ => check_all ps) = _ at h
    rcases hp : check_rel_path p with e | ⟨⟩
    · rw [hp] at h
      cases h
    · rw [hp] at h
      intro q hq
      rcases List.mem_cons.mp hq with rfl | hq
      · exact hp
      · exact ih h q hq

theorem stays_write_files {live : Path} (hlive : ∀ q, Down q → Inside reg id (live ++ q))
    (hparent : Inside reg id (parent live)) (files : List (String × Bytes))
    (hfiles : ∀ f ∈ files, check_rel_path f.1 = .ok ()) :
    Stays fs reg id (write_files fs live files) := by
  have hself : Inside reg id live := by simpa using hlive [] (by simp [Down])
  refine stays_bind (stays_run (safe_create hself)) fun _ => stays_forEach _ ?_
  intro f hf
  obtain ⟨hdown, hjoin⟩ := checked_rel_path (hfiles f hf) live
  have hto : Inside reg id (join live f.1) := by
    rw [hjoin]
    exact hlive _ hdown
  have hup : Inside reg id (parent (join live f.1)) := by
    rw [hjoin]
    by_cases hne : components f.1 = []
    · rw [hne, List.append_nil]
      exact hparent
    · exact hself.parent hdown hne
  exact stays_bind (stays_run (safe_create hup)) fun _ => stays_write_below hto _

theorem stays_restore_data (hid : IsName id) (files : List (String × Bytes)) :
    Stays fs reg id (reg.restore_data fs id files) := by
  have hown := inside_own reg hid
  have hlive := hown.join_name (by decide : IsName "data")
  have hrescue := inside_helper reg hid (Or.inr (Or.inr (Or.inl rfl)) : IsEnding ".data.rescue")
  have hparent : Inside reg id (parent (join (join reg.root id) "data")) := by
    rw [paths.join_name _ (by decide : IsName "data")]
    simpa [parent] using hown
  unfold AppRegistry.restore_data
  refine stays_bind (stays_demand _) fun _ => ?_
  refine emits_bind_gives (additive_forall _) (stays_demand _) fun _ hchecked => ?_
  obtain ⟨_, hchecked⟩ := gives_demand hchecked
  have hfiles : ∀ f ∈ files, check_rel_path f.1 = .ok () := fun f hf =>
    check_all_ok hchecked f.1 (List.mem_map_of_mem hf)
  refine stays_bind (stays_ask _) fun found => ?_
  split
  · unfold swap_data
    refine stays_bind (stays_ask _) fun _ => ?_
    refine stays_bind (stays_when _ (stays_set_aside hlive hrescue)) fun _ => ?_
    refine stays_bind (emits_attempt
      (stays_write_files fs reg (fun q hq => hlive.append hq) hparent files hfiles)) fun r => ?_
    split
    · exact stays_bind (stays_ask _) fun _ => stays_when _ (stays_run (safe_remove hrescue))
    · refine stays_bind (stays_ignore (stays_run (safe_remove hlive))) fun _ => ?_
      exact stays_bind (stays_ask _) fun _ =>
        stays_bind (stays_when _ (stays_ignore (stays_run (safe_rename hrescue hlive)))) fun _ =>
          stays_fail _
  · exact stays_fail _

theorem stays_deactivate_data (hid : IsName id) (now : Stamp) :
    Stays fs reg id (reg.deactivate_data fs id now) := by
  have hlive := (inside_own reg hid).join_name (by decide : IsName "data")
  have hrescue := inside_helper reg hid
    (Or.inr (Or.inr (Or.inr ⟨now, rfl⟩)) : IsEnding (".data.inactive-" ++ now.text))
  rw [← String.append_assoc] at hrescue
  unfold AppRegistry.deactivate_data
  refine stays_bind (stays_demand _) fun _ => stays_bind (stays_ask _) fun found => ?_
  split
  · exact stays_bind (stays_run (safe_rename hlive hrescue)) fun _ => stays_pure _
  · exact stays_pure none

end Registry

/-! ## Confinement -/

/-- The calls of the registry that name an app. -/
inductive Call
  | place (pkg : AppPackage) (upgrade : Bool)
  | remove (id : String)
  | snapshot_data (id : String)
  | restore_data (id : String) (files : List (String × Bytes))
  | deactivate_data (id : String) (now : Stamp)

def Call.app_id : Call → String
  | .place pkg _ => pkg.manifest.app_id
  | .remove id => id
  | .snapshot_data id => id
  | .restore_data id _ => id
  | .deactivate_data id _ => id

/-- The calls to the file system that one call of the registry makes. -/
def AppRegistry.ops {W : Type} (reg : AppRegistry) (fs : FileSystem W) (w : W) : Call → List FsOp
  | .place pkg upgrade => (reg.place fs pkg upgrade).trace w
  | .remove id => (reg.remove fs id).trace w
  | .snapshot_data id => (reg.snapshot_data fs id).trace w
  | .restore_data id files => (reg.restore_data fs id files).trace w
  | .deactivate_data id now => (reg.deactivate_data fs id now).trace w

/-- Everything that the call creates, moves, overwrites or deletes belongs to
its id. -/
def Confined {W : Type} (reg : AppRegistry) (fs : FileSystem W) (w : W) (call : Call) : Prop :=
  ∀ op ∈ reg.ops fs w call, ∀ p ∈ fs.touched op, Within reg call.app_id (resolve p)

/-- The directory of the id is not the registry, not the data directory, and not
a helper directory of any id that the registry accepts. -/
def OwnDirectory (reg : AppRegistry) (id : String) : Prop :=
  let dir := resolve (join reg.root id)
  dir ≠ reg.root ∧ dir ≠ reg.data_dir.map FileName.text ∧
    ∀ other h, check_app_id other = .ok () → Helper other h → dir ≠ reg.root ++ [h]

/-- The id reads as a helper directory: a dot, something, and an ending. -/
def HelperShaped (id : String) : Prop := ∃ other e, other ≠ "" ∧ IsEnding e ∧ id = "." ++ other ++ e

/-- A part of an accepted id that is not empty is accepted too. -/
theorem accepted_part {other e : String} (h : check_app_id ("." ++ other ++ e) = .ok ())
    (hne : other ≠ "") : check_app_id other = .ok () := by
  have hchars : ∀ c ∈ other.toList, app_id_char c = true := by
    intro c hc
    refine (accepted_chars h).2 c ?_
    simp [String.toList_append, hc]
  unfold check_app_id
  rw [if_neg]
  rintro (hempty | hall)
  · exact hne hempty
  · rw [List.all_eq_true.mpr hchars] at hall
    cases hall

/-- For an id that is no dots, the directory of the id is the child of the
registry of that name. -/
theorem resolve_own (reg : AppRegistry) {id : String} (h : IsName id) :
    resolve (join reg.root id) = reg.root ++ [id] := by
  rw [paths.join_name _ h, resolve_down]
  refine down_append (root_down reg) ?_
  intro hmem
  exact h.2.2.1 (List.mem_singleton.mp hmem).symm

theorem resolve_dot (reg : AppRegistry) : resolve (join reg.root ".") = reg.root := by
  have hjoin : join reg.root "." = reg.root := by
    have hc : components "." = [] := by decide
    simp [join, hc, is_absolute]
  rw [hjoin, resolve_down _ (root_down reg)]

theorem resolve_dots (reg : AppRegistry) :
    resolve (join reg.root "..") = reg.data_dir.map FileName.text := by
  have hjoin : join reg.root ".." = reg.root ++ [".."] := by
    have hc : components ".." = [".."] := by decide
    simp [join, hc, is_absolute]
  rw [hjoin, resolve_up _ (root_down reg)]
  simp [AppRegistry.root]

theorem own_directory_iff (reg : AppRegistry) {id : String} (hid : check_app_id id = .ok ()) :
    OwnDirectory reg id ↔ id ≠ "." ∧ id ≠ ".." ∧ ¬ HelperShaped id := by
  constructor
  · rintro ⟨hroot, hdata, hhelper⟩
    have hdot : id ≠ "." := by
      rintro rfl
      exact hroot (resolve_dot reg)
    have hdots : id ≠ ".." := by
      rintro rfl
      exact hdata (resolve_dots reg)
    refine ⟨hdot, hdots, ?_⟩
    rintro ⟨other, e, hne, he, rfl⟩
    refine hhelper other _ (accepted_part hid hne) ⟨e, he, rfl⟩ ?_
    exact resolve_own reg (accepted_name hid hdot hdots)
  · rintro ⟨hdot, hdots, hshape⟩
    have hown := resolve_own reg (accepted_name hid hdot hdots)
    refine ⟨?_, ?_, ?_⟩
    · rw [hown]
      intro heq
      have := congrArg List.length heq
      simp at this
    · rw [hown]
      intro heq
      have := congrArg List.length heq
      simp only [AppRegistry.root, List.length_append, List.length_map, List.length_cons,
        List.length_nil] at this
      omega
    · intro other h hother hhelper
      rw [hown]
      intro heq
      have hid' : id = h := by simpa using heq
      obtain ⟨e, he, rfl⟩ := hhelper
      exact hshape ⟨other, e, (accepted_chars hother).1, he, hid'⟩

/-- A manifest that `validate` accepts names its app by an accepted id. -/
theorem validated_id {m : AppManifest} (h : m.validate = .ok ()) :
    check_app_id m.app_id = .ok () := by
  unfold AppManifest.validate at h
  by_cases hname : trim m.app.name.toList = []
  · simp only [hname, if_true] at h
    cases h
  by_cases hversion : trim m.app.version.toList = []
  · simp only [hname, if_false, hversion, if_true] at h
    cases h
  simp only [hname, if_false, hversion] at h
  rcases h1 : check_rel_path m.app.entrypoint with e | ⟨⟩
  · rw [h1] at h
    cases h
  rcases h2 : check_all m.storage.path.toList with e | ⟨⟩
  · rw [h1, h2] at h
    cases h
  rcases h3 : check_all m.permissions.files with e | ⟨⟩
  · rw [h1, h2, h3] at h
    cases h
  rw [h1, h2, h3] at h
  exact h

/-- A file system on which every directory is there and every call succeeds. -/
def plainFs : FileSystem Unit :=
  { path_exists := fun _ _ => true, is_dir := fun _ _ => true, is_file := fun _ _ => true,
    read := fun _ _ => .ok [], read_dir := fun _ _ => .ok (.dir []),
    call := fun _ w => (.ok (), w), batch_paths := fun db _ => [parent db ++ ["data.db"]] }

theorem plainFs_batches : BatchesBeside plainFs := by
  intro db sql p hp
  exact ⟨⟨"data.db", by decide⟩, List.mem_singleton.mp hp⟩

def homeRegistry : AppRegistry := { data_dir := [⟨"home", by decide⟩] }

end pai_apps
