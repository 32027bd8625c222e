-- Where the files of received backups and documents lie: under `backups/`, in the `crdt/` of
-- their own app, and for a migration in the directories of the app that moves.
import PersonalAi.SyncFiles

open pai_core pai_apps paths program sealing table text

namespace pai_sync.files

open engine (Db StageOutcome AppPayload AppFileEntry BackupPayload Object Plain)

/-! ## The files of a key -/

/-- The object is a backup that names this device as the new home of its app. -/
def MovesHere (me : DeviceId) (obj : Object) (raw : Plain) : Prop :=
  obj.tombstone = false ∧ ∃ p, raw = .backup p ∧ p.migrate_to = some me.to_string

def stage_dir (reg : AppRegistry) (staging : Staging) : Path :=
  reg.root ++ [".staging-" ++ staging.uuid]

/-- The place is for files of the key: it lies under `backups/` or in the documents of its app, or
the app moves here and it belongs to the app or to the staging directory. -/
def Key.Owns (reg : AppRegistry) (staging : Staging) (me : DeviceId) (obj : Object) (raw : Plain)
    (key : Key) (place : Path) : Prop :=
  data_dir reg ++ ["backups"] <+: place ∨
    match key with
    | .acrdt app_id _ _ _ _ => IsName app_id ∧ reg.root ++ [app_id, "data", "crdt"] <+: place
    | .bkp app_id _ _ => MovesHere me obj raw ∧
      ((IsName app_id ∧ Within reg app_id place) ∨ stage_dir reg staging <+: place)

/-- All that the call creates, writes or deletes is in the region. A directory on the way to the
staging directory stands already. -/
def Keeps {W : Type} (h : Host W) (reg : AppRegistry) (staging : Staging) (R : Path → Prop)
    (op : FsOp) : Prop :=
  (∀ p ∈ h.disk.touched op, R (resolve p)) ∨
    ∃ p, op = .create_dir_all p ∧ resolve p <+: stage_dir reg staging

/-- Whatever the disk, the store and the object, applying it touches only files of the key. -/
def Key.Confined (reg : AppRegistry) (staging : Staging) (me : DeviceId) (key : Key) : Prop :=
  ∀ (W : Type) (h : Host W), BatchesBeside h.fs → ∀ (s : Site W) (obj : Object) (raw : Plain),
    ∀ op ∈ (apply_obj h reg staging me key obj raw).trace s,
      Keeps h reg staging (key.Owns reg staging me obj raw) op

/-- What the segments have to be: the app of a document is a name; no pak of the app `.` can
arrive; and once the `..` in the path of a pak have taken back the names before them, none is left
over, or the names behind them are those they took. -/
def Key.Stays (reg : AppRegistry) : Key → Prop
  | .acrdt app_id _ _ _ _ => IsName app_id
  | .bkp app_id writer _ =>
    (app_id = "." → check_rel_path writer ≠ .ok ()) ∧
      let base := data_dir reg ++ ["backups"]
      let rest := cancelled (components app_id ++ components (writer ++ ".pak"))
      base.drop (base.length - rest.1) <+: rest.2

/-! ## Paths -/

section Paths
variable (reg : AppRegistry)

theorem data_dir_down : Down (data_dir reg) := down_names reg.data_dir

theorem backups_down : Down (data_dir reg ++ ["backups"]) :=
  down_append (data_dir_down reg) (by simp [Down])

theorem root_eq : reg.root = data_dir reg ++ ["apps"] := rfl

theorem pak_path_eq (app_id writer : String) : pak_path reg app_id writer =
    data_dir reg ++ ["backups"] ++ (components app_id ++ components (writer ++ ".pak")) := by
  have htext : "backups/" ++ app_id ++ "/" ++ writer ++ ".pak" =
      "backups" ++ "/" ++ app_id ++ "/" ++ (writer ++ ".pak") := by
    apply String.toList_injective
    simp
  have hrel : is_absolute ("backups" ++ "/" ++ app_id ++ "/" ++ (writer ++ ".pak")) = false := by
    unfold is_absolute
    simp
  unfold pak_path join
  rw [htext, hrel, components_slash, components_slash]
  have hname : components "backups" = ["backups"] := by decide
  rw [hname]
  simp

/-- A text without a slash is one name behind an ending of three characters or more. -/
theorem name_with_ending {name ending : String} (hname : '/' ∉ name.toList)
    (hending : '/' ∉ ending.toList) (hlong : 3 ≤ ending.toList.length) :
    IsName (name ++ ending) := by
  have hne : ∀ s : String, s.toList.length < 3 → name ++ ending ≠ s := by
    intro s hs heq
    rw [← heq, String.toList_append, List.length_append] at hs
    omega
  refine ⟨hne "" (by decide), hne "." (by decide), hne ".." (by decide), ?_⟩
  rw [String.toList_append, List.mem_append, not_or]
  exact ⟨hname, hending⟩

/-- The path of a pak is the directories that its writer names, and one more name. -/
theorem pak_components (writer : String) : ∃ dirs name, IsName name ∧
    components (writer ++ ".pak") = dirs ++ [name] ∧ ∀ c ∈ dirs, c ∈ components writer := by
  have hflat : ∀ name : String, '/' ∉ name.toList → IsName (name ++ ".pak") := fun name h =>
    name_with_ending h (by decide) (by decide)
  by_cases hslash : '/' ∈ writer.toList
  · obtain ⟨last, before, hsplit, hlast⟩ := List.eq_append_cons_of_mem
      (List.mem_reverse.mpr hslash)
    have hwriter : writer = String.ofList before.reverse ++ "/" ++ String.ofList last.reverse := by
      apply String.toList_injective
      have hback := congrArg List.reverse hsplit
      simpa using hback
    have hname := hflat (String.ofList last.reverse) (by simpa using hlast)
    refine ⟨components (String.ofList before.reverse), _, hname, ?_, ?_⟩
    · conv_lhs => rw [hwriter, String.append_assoc]
      rw [components_slash, components_name hname]
    · intro c hc
      rw [hwriter, components_slash]
      exact List.mem_append_left _ hc
  · exact ⟨[], _, hflat writer hslash, components_name (hflat writer hslash), by simp⟩

/-- A writer without `..` gives a path without. -/
theorem pak_name_down {writer : String} (h : Down (components writer)) :
    Down (components (writer ++ ".pak")) := by
  obtain ⟨dirs, name, hname, heq, hdirs⟩ := pak_components writer
  rw [heq]
  apply down_append
  · exact fun hmem => h (hdirs _ hmem)
  · exact fun hmem => hname.2.2.1 (List.mem_singleton.mp hmem).symm

end Paths

/-! ## What the parts touch -/

section Parts
variable {W : Type} {h : Host W} {reg : AppRegistry} {staging : Staging} {R : Path → Prop}

/-- The program keeps to the region, whatever the disk answers. -/
def KeepsTo {ε α : Type} (h : Host W) (reg : AppRegistry) (staging : Staging) (R : Path → Prop)
    (p : Prog (Site W) FsOp ε α) : Prop :=
  Emits (fun tr => ∀ op ∈ tr, Keeps h reg staging R op) p

theorem keeps_run {op : FsOp} (hop : Keeps h reg staging R op) :
    KeepsTo h reg staging R (run h.disk op) :=
  emits_perform _ (by simpa using hop)

theorem keeps_one {op : FsOp} {p : Path} (htouched : h.disk.touched op = [p])
    (hp : R (resolve p)) : Keeps h reg staging R op := by
  left
  intro q hq
  rw [htouched, List.mem_singleton] at hq
  rw [hq]
  exact hp

theorem keeps_stays {α : Type} {id : String} {p : Fs (Site W) α} (hp : Stays h.disk reg id p)
    (hR : ∀ place, Within reg id place → R place) : KeepsTo h reg staging R p := by
  intro w op hop
  left
  intro q hq
  exact hR _ (hp w op hop q hq).within

theorem keeps_bind {ε α β : Type} {p : Prog (Site W) FsOp ε α} {f : α → Prog (Site W) FsOp ε β}
    (hp : KeepsTo h reg staging R p) (hf : ∀ a, KeepsTo h reg staging R (f a)) :
    KeepsTo h reg staging R (p >>= f) :=
  emits_bind (additive_forall _) hp hf

theorem keeps_pure {ε α : Type} (a : α) :
    KeepsTo h reg staging R (pure a : Prog (Site W) FsOp ε α) := emits_pure (additive_forall _) a

theorem keeps_fail {ε α : Type} (e : ε) :
    KeepsTo h reg staging R (fail e : Prog (Site W) FsOp ε α) := emits_fail (additive_forall _) e

theorem keeps_ask {ε α : Type} (f : Site W → α) :
    KeepsTo h reg staging R (ask f : Prog (Site W) FsOp ε α) := emits_ask (additive_forall _) f

theorem keeps_demand {ε α : Type} (f : Site W → Except ε α) :
    KeepsTo h reg staging R (demand f : Prog (Site W) FsOp ε α) :=
  emits_demand (additive_forall _) f

theorem keeps_ignore {ε α : Type} {p : Prog (Site W) FsOp ε α} (hp : KeepsTo h reg staging R p) :
    KeepsTo h reg staging R (ignore p) := emits_ignore (additive_forall _) hp

theorem keeps_io {α : Type} {p : Fs (Site W) α} (hp : KeepsTo h reg staging R p) :
    KeepsTo h reg staging R (io p) := emits_map_err _ hp

theorem keeps_context {α : Type} (words : String) {p : Fs (Site W) α}
    (hp : KeepsTo h reg staging R p) : KeepsTo h reg staging R (context words p) :=
  emits_map_err _ hp

theorem keeps_set_store (f : Db → Db) : KeepsTo h reg staging R (set_store f : Sync W Unit) :=
  emits_consult (additive_forall _) _

theorem keeps_decoded (words : String) (b64 : String ⊕ Bytes) :
    KeepsTo h reg staging R (decoded words b64 : Sync W Bytes) := by
  cases b64 with
  | inl e => exact keeps_fail _
  | inr bytes => exact keeps_pure _

theorem keeps_outcome {α : Type} (r : Except Error α) :
    KeepsTo h reg staging R (outcome r : Sync W α) := by
  cases r with
  | error e => exact keeps_fail _
  | ok a => exact keeps_pure _

/-! ### A staged package -/

theorem stage_down (reg : AppRegistry) (staging : Staging) : Down (stage_dir reg staging) := by
  apply down_append (root_down reg)
  intro hmem
  exact staging.is_name.2.2.1 (List.mem_singleton.mp hmem).symm

theorem keeps_stage_file (hstage : ∀ place, stage_dir reg staging <+: place → R place)
    (f : AppFileEntry) : KeepsTo h reg staging R (stage_file h (stage_dir reg staging) f) := by
  unfold stage_file
  refine emits_bind_gives (additive_forall _) (keeps_context _ (keeps_demand _)) ?_
  intro _ hchecked
  have hpath : check_rel_path f.path = .ok () := by
    obtain ⟨s, hs⟩ := hchecked
    change (check_rel_path f.path).mapError _ = .ok () at hs
    cases hcheck : check_rel_path f.path with
    | error e =>
      rw [hcheck] at hs
      cases hs
    | ok u => rfl
  obtain ⟨hdown, hjoin⟩ := checked_rel_path hpath (stage_dir reg staging)
  dsimp only
  rw [hjoin]
  have hplace : ∀ q, Down q → R (resolve (stage_dir reg staging ++ q)) := by
    intro q hq
    rw [resolve_down _ (down_append (stage_down reg staging) hq)]
    exact hstage _ (List.prefix_append _ _)
  have hparent : Keeps h reg staging R
      (.create_dir_all (parent (stage_dir reg staging ++ components f.path))) := by
    by_cases hempty : components f.path = []
    · right
      refine ⟨_, rfl, ?_⟩
      rw [hempty, List.append_nil]
      have hroot : parent (stage_dir reg staging) = reg.root := by simp [parent, stage_dir]
      rw [hroot, resolve_down _ (root_down reg)]
      exact List.prefix_append _ _
    · apply keeps_one rfl
      unfold parent
      rw [List.dropLast_append_of_ne_nil hempty]
      exact hplace _ (down_dropLast hdown)
  refine keeps_bind (keeps_io (keeps_run hparent)) fun _ => ?_
  refine keeps_bind (keeps_decoded _ _) fun bytes => ?_
  apply keeps_io
  refine keeps_bind (keeps_demand _) fun _ => ?_
  apply keeps_run
  apply keeps_one rfl
  rw [hjoin]
  exact hplace _ hdown

theorem stage_join (reg : AppRegistry) (staging : Staging) :
    join reg.root (".staging-" ++ staging.uuid) = stage_dir reg staging :=
  join_name _ staging.is_name

/-- Staging and installing a package touches the staging directory and what belongs to the id. -/
theorem keeps_stage_verify_install (hsql : BatchesBeside h.fs) {id : String}
    (hstage : ∀ place, stage_dir reg staging <+: place → R place)
    (hid : check_app_id id = .ok () → IsName id)
    (hown : IsName id → ∀ place, Within reg id place → R place) (p : AppPayload) :
    KeepsTo h reg staging R (stage_verify_install h reg staging p id) := by
  have hat : ∀ q, Down q → R (resolve (stage_dir reg staging ++ q)) := by
    intro q hq
    rw [resolve_down _ (down_append (stage_down reg staging) hq)]
    exact hstage _ (List.prefix_append _ _)
  have hself : R (resolve (stage_dir reg staging)) := by
    simpa using hat [] (by simp [Down])
  have hfiles : KeepsTo h reg staging R (stage_files h (stage_dir reg staging) p) := by
    refine keeps_bind (keeps_decoded _ _) fun sig => ?_
    refine keeps_bind (keeps_io (keeps_run (keeps_one rfl ?_))) fun _ => ?_
    · rw [join_name _ (by decide : IsName "signature.bin")]
      exact hat ["signature.bin"] (by simp [Down])
    · exact emits_forEach (additive_forall _) _ fun f _ => keeps_stage_file hstage f
  have hinstall : KeepsTo h reg staging R
      (verify_and_install h reg (stage_dir reg staging) id) := by
    unfold verify_and_install
    refine keeps_bind (keeps_context _ (keeps_demand _)) fun pkg => ?_
    refine emits_bind_gives (additive_forall _) (keeps_context _ (keeps_demand _)) ?_
    intro _ hvalid
    have hvalid : pkg.manifest.validate = .ok () := by
      obtain ⟨s, hs⟩ := hvalid
      change (pkg.manifest.validate).mapError _ = .ok () at hs
      cases hcheck : pkg.manifest.validate with
      | error e =>
        rw [hcheck] at hs
        cases hs
      | ok u => rfl
    by_cases hname : pkg.manifest.app_id = id
    · rw [if_neg (by simp [hname])]
      refine keeps_bind (keeps_ask _) fun verdict => ?_
      cases verdict with
      | error e => exact keeps_pure _
      | ok signer =>
        have hidname : IsName id := by
          apply hid
          rw [← hname]
          exact validated_id hvalid
        refine keeps_bind (keeps_context _ (keeps_stays ?_ (hown hidname))) fun _ => keeps_pure _
        exact stays_place h.disk reg hsql pkg hname hidname true
    · rw [if_pos hname]
      exact keeps_fail _
  unfold stage_verify_install
  dsimp only
  rw [stage_join]
  refine keeps_bind (keeps_io (keeps_run (keeps_one rfl hself))) fun _ => ?_
  refine keeps_bind (emits_attempt hfiles) fun staged => ?_
  refine keeps_bind (emits_attempt (keeps_bind (keeps_outcome _) fun _ => hinstall)) fun result => ?_
  refine keeps_bind (keeps_ignore (keeps_io (keeps_run (keeps_one rfl hself)))) fun _ => ?_
  exact keeps_outcome _

theorem keeps_decode_files (files : List AppFileEntry) :
    KeepsTo h reg staging R (decode_files files : Sync W _) := by
  induction files with
  | nil => exact keeps_pure []
  | cons f rest ih =>
    exact keeps_bind (keeps_decoded _ _) fun _ => keeps_bind ih fun _ => keeps_pure _

theorem gives_map_err {ε ε' α : Type} {f : ε → ε'} {p : Prog (Site W) FsOp ε α} {a : α}
    (hgives : Gives (program.map_err f p) a) : Gives p a := by
  obtain ⟨s, hs⟩ := hgives
  refine ⟨s, ?_⟩
  change (p s).1.mapError f = .ok a at hs
  cases hrun : (p s).1 with
  | error e =>
    rw [hrun] at hs
    cases hs
  | ok b =>
    rw [hrun] at hs
    cases hs
    rfl

theorem gives_attempt {ε α : Type} {p : Prog (Site W) FsOp ε α} {a : α}
    (hgives : Gives (attempt p) (.ok a)) : Gives p a := by
  obtain ⟨s, hs⟩ := hgives
  refine ⟨s, ?_⟩
  change Except.ok (p s).1 = Except.ok (Except.ok a) at hs
  injection hs

theorem gives_outcome {α : Type} {r : Except Error α} {a : α}
    (hgives : Gives (outcome r : Sync W α) a) : r = .ok a := by
  obtain ⟨s, hs⟩ := hgives
  cases r with
  | error e => cases hs
  | ok b =>
    cases hs
    rfl

/-- What is installed names the id in a manifest that is valid. -/
theorem gives_installed {p : AppPayload} {id : String} {signer : DeviceId}
    (hgives : Gives (stage_verify_install h reg staging p id) (.Installed signer)) :
    check_app_id id = .ok () := by
  unfold stage_verify_install at hgives
  obtain ⟨_, -, hgives⟩ := gives_bind hgives
  obtain ⟨staged, -, hgives⟩ := gives_bind hgives
  obtain ⟨result, hresult, hgives⟩ := gives_bind hgives
  obtain ⟨_, -, hgives⟩ := gives_bind hgives
  rw [gives_outcome hgives] at hresult
  obtain ⟨_, -, hverify⟩ := gives_bind (gives_attempt hresult)
  unfold verify_and_install at hverify
  obtain ⟨pkg, -, hverify⟩ := gives_bind hverify
  obtain ⟨_, hvalid, hverify⟩ := gives_bind hverify
  obtain ⟨_, hvalid⟩ := gives_demand (gives_map_err hvalid)
  by_cases hname : pkg.manifest.app_id = id
  · rw [← hname]
    exact validated_id hvalid
  · rw [if_pos hname] at hverify
    obtain ⟨s, hs⟩ := hverify
    cases hs

theorem keeps_restore_unchecked (hsql : BatchesBeside h.fs) {id : String}
    (hstage : ∀ place, stage_dir reg staging <+: place → R place)
    (hid : check_app_id id = .ok () → IsName id)
    (hown : IsName id → ∀ place, Within reg id place → R place) (writer : String) :
    KeepsTo h reg staging R (restore_unchecked h reg staging id writer) := by
  unfold restore_unchecked
  refine keeps_bind (keeps_ask _) fun row => ?_
  cases row with
  | none => exact keeps_fail _
  | some row =>
    refine keeps_bind (keeps_io (keeps_demand _)) fun raw => ?_
    refine keeps_bind (keeps_demand _) fun p => ?_
    by_cases hv : p.v = 1
    · rw [if_neg (by simp [hv])]
      by_cases happ : p.app_id = id
      · rw [if_neg (by simp [happ])]
        refine emits_bind_gives (additive_forall _)
          (keeps_stage_verify_install hsql hstage hid hown p.package) ?_
        intro verdict hverdict
        cases verdict with
        | Rejected e => exact keeps_fail _
        | Installed signer =>
          have hname := hid (gives_installed hverdict)
          have hwithin := hown hname
          refine keeps_bind ?_ fun _ => keeps_bind (keeps_set_store _) fun _ =>
            keeps_bind (keeps_decode_files _) fun files =>
              keeps_bind (keeps_context _ (keeps_stays ?_ hwithin)) fun _ => keeps_pure _
          · unfold restore_auth
            cases p.package.auth with
            | none => exact keeps_pure ()
            | some auth =>
              apply keeps_ignore
              apply keeps_io
              have hdir := inside_own reg hname
              apply keeps_stays _ hwithin
              exact stays_bind (stays_run (safe_create hdir)) fun _ =>
                stays_run (safe_write (hdir.join_name (by decide : IsName "auth.json")) _)
          · exact stays_restore_data h.disk reg hname files
      · rw [if_pos happ]
        exact keeps_fail _
    · rw [if_pos hv]
      exact keeps_fail _

/-! ### Paks and documents -/

theorem keeps_apply_backup {me obj_writer : DeviceId}
    {app_id writer : String} {p : BackupPayload}
    (hpaks : ∀ place, data_dir reg ++ ["backups"] <+: place → R place)
    (hmoves : p.migrate_to = some me.to_string → check_rel_path app_id = .ok () →
      check_rel_path writer = .ok () →
      KeepsTo h reg staging R (restore_unchecked h reg staging app_id writer)) :
    KeepsTo h reg staging R (apply_backup h reg staging me app_id writer obj_writer p) := by
  unfold apply_backup
  split
  · exact keeps_fail _
  · split
    · exact keeps_pure ()
    · refine keeps_bind (keeps_ask _) fun unpaired => ?_
      split
      · exact keeps_pure ()
      · refine emits_bind_gives (additive_forall _) (keeps_context _ (keeps_demand _)) ?_
        intro _ hchecked
        obtain ⟨_, hchecked⟩ := gives_demand (gives_map_err hchecked)
        have happ := check_all_ok hchecked app_id (by simp)
        have hwriter := check_all_ok hchecked writer (by simp)
        have hdown : Down (components app_id ++ components (writer ++ ".pak")) :=
          down_append (checked_rel_path happ []).1 (pak_name_down (checked_rel_path hwriter []).1)
        have hplace : ∀ q, Down q → R (resolve (data_dir reg ++ ["backups"] ++ q)) := by
          intro q hq
          rw [resolve_down _ (down_append (backups_down reg) hq)]
          exact hpaks _ (List.prefix_append _ _)
        have hparent : R (resolve (parent (pak_path reg app_id writer))) := by
          have hne : components app_id ++ components (writer ++ ".pak") ≠ [] := by
            obtain ⟨dirs, name, -, heq, -⟩ := pak_components writer
            simp [heq]
          rw [pak_path_eq]
          unfold parent
          rw [List.dropLast_append_of_ne_nil hne]
          exact hplace _ (down_dropLast hdown)
        have hself : R (resolve (pak_path reg app_id writer)) := by
          rw [pak_path_eq]
          exact hplace _ hdown
        refine keeps_bind (keeps_io (keeps_run (keeps_one rfl hparent))) fun _ => ?_
        refine keeps_bind (keeps_io (keeps_run (keeps_one rfl hself))) fun _ => ?_
        refine keeps_bind (keeps_set_store _) fun _ => ?_
        by_cases hhere : p.migrate_to = some me.to_string
        · exact emits_when (additive_forall _) _ (keeps_ignore (hmoves hhere happ hwriter))
        · rw [decide_eq_false hhere]
          exact keeps_pure ()

theorem keeps_materialize {app_id doc : String} (happ : IsName app_id) (hdoc : '/' ∉ doc.toList)
    (hdocs : ∀ place, reg.root ++ [app_id, "data", "crdt"] <+: place → R place) :
    KeepsTo h reg staging R (materialize h reg app_id doc) := by
  have hdir : crdt_dir reg app_id = reg.root ++ [app_id, "data", "crdt"] := by
    unfold crdt_dir
    rw [join_name _ happ, join_name _ (by decide : IsName "data"),
      join_name _ (by decide : IsName "crdt")]
    simp
  have hdown : Down (crdt_dir reg app_id) := by
    rw [hdir]
    apply down_append (root_down reg)
    have hname : app_id ≠ ".." := happ.2.2.1
    simp [Down, Ne.symm hname]
  have hplace : ∀ q, Down q → R (resolve (crdt_dir reg app_id ++ q)) := by
    intro q hq
    rw [resolve_down _ (down_append hdown hq), hdir]
    exact hdocs _ (List.prefix_append _ _)
  have hname : IsName (doc ++ ".json") := name_with_ending hdoc (by decide) (by decide)
  unfold materialize
  refine keeps_bind (keeps_ask _) fun installed => ?_
  split
  · refine keeps_bind (keeps_demand _) fun merged => ?_
    dsimp only
    refine keeps_bind (keeps_ask _) fun same => ?_
    split
    · exact keeps_pure ()
    · refine keeps_bind (keeps_io (keeps_run (keeps_one rfl ?_))) fun _ => ?_
      · simpa using hplace [] (by simp [Down])
      · refine keeps_bind (keeps_io (keeps_run (keeps_one rfl ?_))) fun _ => keeps_set_store _
        rw [join_name _ hname]
        apply hplace
        intro hmem
        exact hname.2.2.1 (List.mem_singleton.mp hmem).symm
  · exact keeps_pure ()

theorem keeps_apply_crdt {app_id doc writer : String} (happ : IsName app_id)
    (hdoc : '/' ∉ doc.toList)
    (hdocs : ∀ place, reg.root ++ [app_id, "data", "crdt"] <+: place → R place) (obj : Object)
    (raw : Plain) : KeepsTo h reg staging R (apply_crdt h reg app_id doc writer obj raw) := by
  have hreplaced : ∀ fields : crdt.Fields, KeepsTo h reg staging R (do
      set_store (edit_doc app_id doc (fun d => crdt.replace_cells d writer fields))
      materialize h reg app_id doc) := fun fields =>
    keeps_bind (keeps_set_store _) fun _ => keeps_materialize happ hdoc hdocs
  unfold apply_crdt
  dsimp only
  split
  · exact keeps_pure ()
  · refine keeps_bind (keeps_ask _) fun unpaired => ?_
    split
    · exact keeps_pure ()
    · split
      · exact hreplaced _
      · split
        · split
          · exact keeps_pure ()
          · exact hreplaced _
        · exact keeps_fail _

end Parts

/-! ## Keys that stay -/

section Keys
variable {reg : AppRegistry} {staging : Staging} {me : DeviceId}

theorem pak_stays_iff (app_id writer : String) :
    data_dir reg ++ ["backups"] <+: resolve (pak_path reg app_id writer) ↔
      (let base := data_dir reg ++ ["backups"]
       let rest := cancelled (components app_id ++ components (writer ++ ".pak"))
       base.drop (base.length - rest.1) <+: rest.2) := by
  rw [pak_path_eq]
  exact prefix_resolve_iff (backups_down reg) _

theorem confined_of_stays {key : Key} (hkey : key.Stays reg) : key.Confined reg staging me := by
  intro W h hsql s obj raw
  cases key with
  | acrdt app_id doc writer happ hdoc =>
    have hname : IsName app_id := hkey
    exact keeps_apply_crdt hname hdoc (fun place hplace => .inr ⟨hname, hplace⟩) obj raw s
  | bkp app_id writer happ =>
    obtain ⟨hdot, hpak⟩ := hkey
    unfold apply_obj
    cases htomb : obj.tombstone with
    | true =>
      dsimp only
      rw [if_pos rfl]
      have hkeeps : KeepsTo h reg staging
          ((Key.bkp app_id writer happ).Owns reg staging me obj raw)
          (apply_backup_tombstone h reg app_id writer) := by
        refine keeps_bind (keeps_set_store _) fun _ => keeps_ignore (keeps_io (keeps_run ?_))
        apply keeps_one rfl
        exact .inl ((pak_stays_iff app_id writer).mpr hpak)
      exact hkeeps s
    | false =>
      dsimp only
      rw [if_neg (by simp)]
      cases raw with
      | backup p =>
        refine keeps_apply_backup (fun place hplace => .inl hplace) ?_ s
        intro hhere hchecked hwriter
        have hmoves : MovesHere me obj (.backup p) := ⟨htomb, p, rfl, hhere⟩
        apply keeps_restore_unchecked hsql
        · exact fun place hplace => .inr ⟨hmoves, .inr hplace⟩
        · intro hid
          apply accepted_name hid
          · exact fun heq => hdot heq hwriter
          · rintro rfl
            cases hchecked
        · exact fun hname place hplace => .inr ⟨hmoves, .inl ⟨hname, hplace⟩⟩
      | _ => exact keeps_fail _ s

/-! ### Keys that do not -/

/-- The manifest of an app that is called by a dot. -/
def dot_manifest : AppManifest where
  app := { name := "Dot", version := "1", entrypoint := "app.wasm", id := some "." }
  storage := { type := .None, path := none }
  permissions := { files := [] }
  migration := { auto_migrate := false }

def dot_payload : AppPayload :=
  { v := 1, id := ".", name := "Dot", version := "1", runtime := "wasm", updated_at := 1,
    signature_b64 := .inr [], files := [], active_device := none, auth := none }

def dot_pak (me : DeviceId) (writer : String) : BackupPayload :=
  { v := 1, app_id := ".", writer := writer, created_at := 1, package := dot_payload,
    data_files := [], migrate_to := some me.to_string }

/-- Every call succeeds, and every staged package is the signed one of the dot. -/
def plain_host (p : BackupPayload) : Host Unit where
  fs := plainFs
  load stage _ := .ok { dir := stage, manifest := dot_manifest, files := [], verify := .ok () }
  verify_any_key _ _ _ := .ok ⟨"phone"⟩
  devices := []
  read_pak _ := .ok p
  pak_bytes _ := []
  doc_bytes _ := [1]
  serde_error _ := "expected value"

/-- A store that is paired with the writer. -/
def paired_site (writer : String) : Site Unit :=
  ((), Db.fresh [⟨⟨writer⟩, ⟨⟨writer⟩⟩, ⟨⟨writer⟩⟩⟩])

def object_of (writer : String) (tombstone : Bool) : Object :=
  { key := "", ciphertext := .junk, version := 1, writer := ⟨writer⟩, updated_at := 1,
    tombstone := tombstone }

theorem paired_site_pairs (writer : String) :
    engine.is_paired (paired_site writer).2 writer = true := by
  simp [engine.is_paired, paired_site, Db.fresh, DeviceId.to_string]

/-- The directory of no app is outside. -/
theorem apps_outside {app_id place : Path} (h : place = data_dir reg ++ app_id)
    (hne : app_id.head? ≠ some "backups") : ¬ data_dir reg ++ ["backups"] <+: place := by
  rw [h, List.prefix_append_right_inj]
  intro hpre
  obtain ⟨rest, rfl⟩ := hpre
  exact hne rfl

/-- An upgrade of the dot removes the directory of all apps. -/
theorem install_of_the_dot (w : Site Unit) (p : BackupPayload) :
    .remove_dir_all (join reg.root ".") ∈ (reg.install_trusted (plain_host p).disk
      { dir := stage_dir reg staging, manifest := dot_manifest, files := [], verify := .ok () }
      true).trace w := by
  let at_ := reg.places "."
  have htrace : (reg.install_trusted (plain_host p).disk
      { dir := stage_dir reg staging, manifest := dot_manifest, files := [], verify := .ok () }
      true).trace w =
      [.remove_dir_all at_.backup, .rename at_.live at_.backup, .remove_dir_all at_.logs_bak,
        .rename at_.logs at_.logs_bak, .remove_dir_all at_.dest, .create_dir_all at_.dest,
        .rename at_.backup at_.live, .rename at_.logs_bak at_.logs, .write at_.auth []] := rfl
  rw [htrace]
  simp [at_, AppRegistry.places]

theorem dot_is_valid : dot_manifest.validate = .ok () ∧ dot_manifest.app_id = "." := by
  decide +kernel

/-- A staged package of the dot is installed over the directory of all apps. -/
theorem dot_is_installed (p : BackupPayload) (w : Site Unit) :
    .remove_dir_all (join reg.root ".") ∈
      (stage_verify_install (plain_host p) reg staging dot_payload ".").trace w := by
  let pkg : AppPackage :=
    { dir := stage_dir reg staging, manifest := dot_manifest, files := [], verify := .ok () }
  have hload : (context "bad synced package"
      (demand fun s => (plain_host p).load (stage_dir reg staging) s.1) :
      Sync Unit AppPackage).outcome w = (.ok pkg, w) := rfl
  have hvalid : (context "bad synced package" (demand fun _ => pkg.manifest.validate) :
      Sync Unit Unit).outcome w = (.ok (), w) := by
    have hmanifest : pkg.manifest.validate = .ok () := dot_is_valid.1
    unfold context
    rw [hmanifest]
    rfl
  have hname : pkg.manifest.app_id = "." := dot_is_valid.2
  have hinstall : FsOp.remove_dir_all (join reg.root ".") ∈ (context "app install"
      (reg.install_trusted (plain_host p).disk pkg true) : Sync Unit Path).trace w :=
    install_of_the_dot w p
  have hverify : FsOp.remove_dir_all (join reg.root ".") ∈
      (verify_and_install (plain_host p) reg (stage_dir reg staging) ".").trace w := by
    unfold verify_and_install
    refine mem_trace_right hload (mem_trace_right hvalid ?_)
    rw [if_neg (by simp [hname])]
    refine mem_trace_right (v := w) rfl ?_
    exact mem_trace_left hinstall _
  unfold stage_verify_install
  dsimp only
  rw [stage_join]
  refine mem_trace_right (v := w) rfl (mem_trace_right (v := w) rfl ?_)
  refine mem_trace_left ?_ _
  have hboth : FsOp.remove_dir_all (join reg.root ".") ∈ ((outcome (.ok ()) : Sync Unit Unit) >>=
      fun _ => verify_and_install (plain_host p) reg (stage_dir reg staging) ".").trace w :=
    mem_trace_right (p := outcome (.ok ())) (v := w) rfl hverify
  exact hboth

theorem dot_pak_arrives {writer : String} (hwriter : check_rel_path writer = .ok ()) :
    .remove_dir_all (join reg.root ".") ∈
      (apply_backup (plain_host (dot_pak me writer)) reg staging me "." writer ⟨writer⟩
        (dot_pak me writer)).trace (paired_site writer) := by
  have hpaired := paired_site_pairs writer
  have hpaths : (context "backup path" (demand fun _ => check_all [".", writer]) :
      Sync Unit Unit).outcome (paired_site writer) = (.ok (), paired_site writer) := by
    have hall : check_all [".", writer] = .ok () := by
      change (check_rel_path "." >>= fun _ => check_all [writer]) = _
      have hdot : check_rel_path "." = .ok () := by decide +kernel
      rw [hdot]
      change (check_rel_path writer >>= fun _ => check_all []) = _
      rw [hwriter]
      rfl
    unfold context
    rw [hall]
    rfl
  generalize hsite : paired_site writer = w at *
  let w' : Site Unit := (w.1, record_pak "." writer (dot_pak me writer) w.2)
  have hrow : ((w'.2.app_backups.lookup (".", writer)).filter fun row => !row.deleted) =
      some { created_at := 1, pushed_at := some 1, deleted := false } := by
    dsimp only [w', record_pak]
    rw [AList.lookup_insert]
    rfl
  have hrestore : FsOp.remove_dir_all (join reg.root ".") ∈
      (restore_unchecked (plain_host (dot_pak me writer)) reg staging "." writer).trace w' := by
    unfold restore_unchecked
    rw [trace_ask_bind, hrow]
    refine mem_trace_right (v := w') rfl (mem_trace_right (v := w') rfl ?_)
    rw [if_neg (by simp [dot_pak]), if_neg (by simp [dot_pak])]
    exact mem_trace_left (dot_is_installed _ w') _
  unfold apply_backup
  rw [if_neg (by simp [dot_pak]), if_neg (by simp [dot_pak, DeviceId.to_string])]
  rw [trace_ask_bind, hpaired]
  refine mem_trace_right hpaths (mem_trace_right (v := w) rfl (mem_trace_right (v := w) rfl ?_))
  refine mem_trace_right (v := w') rfl ?_
  have hhere : decide ((dot_pak me writer).migrate_to = some me.to_string) = true := by
    simp [dot_pak]
  have hattempt : FsOp.remove_dir_all (join reg.root ".") ∈
      (attempt (restore_unchecked (plain_host (dot_pak me writer)) reg staging "." writer)).trace w' :=
    hrestore
  rw [hhere]
  exact mem_trace_left hattempt _

/-- A withdrawal of a document is written where its app leads. -/
theorem withdrawal_writes (app_id doc writer : String) (obj : Object)
    (hobj : obj = object_of writer true) :
    .create_dir_all (crdt_dir reg app_id) ∈
      (apply_crdt (plain_host (dot_pak me writer)) reg app_id doc writer obj .empty).trace
        (paired_site writer) := by
  have hpaired := paired_site_pairs writer
  have hmerged : crdt.winners (crdt.doc_of (edit_doc app_id doc
      (fun d => crdt.replace_cells d writer sorted_map.empty) (paired_site writer).2).docs
      app_id doc) = .ok sorted_map.empty := by
    unfold edit_doc crdt.doc_of
    dsimp only
    rw [AList.lookup_insert]
    rfl
  generalize paired_site writer = w at *
  let v : Site Unit := (w.1, edit_doc app_id doc
    (fun d => crdt.replace_cells d writer sorted_map.empty) w.2)
  have hdemand : (demand fun s => crdt.winners (crdt.doc_of s.2.docs app_id doc) :
      Sync Unit _).outcome v = (.ok sorted_map.empty, v) := by
    rw [outcome_demand, hmerged]
  subst hobj
  unfold apply_crdt
  dsimp only
  rw [if_neg (by simp [object_of, DeviceId.to_string]), trace_ask_bind, hpaired]
  refine mem_trace_right (v := v) rfl ?_
  unfold materialize
  rw [trace_ask_bind]
  refine mem_trace_right hdemand ?_
  dsimp only
  rw [trace_ask_bind]
  exact mem_trace_left (by exact List.mem_singleton.mpr rfl) _

theorem no_name {app_id : String} (hslash : '/' ∉ app_id.toList) (h : ¬ IsName app_id) :
    app_id = "" ∨ app_id = "." ∨ app_id = ".." := by
  by_contra hno
  simp only [not_or] at hno
  exact h ⟨hno.1, hno.2.1, hno.2.2, hslash⟩

/-- Where the documents of an app lead whose id is no name. -/
theorem crdt_dir_of_no_name {app_id : String} (h : app_id = "" ∨ app_id = "." ∨ app_id = "..") :
    resolve (crdt_dir reg app_id) = data_dir reg ++ ["apps", "data", "crdt"] ∨
      resolve (crdt_dir reg app_id) = data_dir reg ++ ["data", "crdt"] := by
  have hdir : crdt_dir reg app_id = join reg.root app_id ++ ["data", "crdt"] := by
    unfold crdt_dir
    rw [join_name _ (by decide : IsName "data"), join_name _ (by decide : IsName "crdt")]
    simp
  have hrest : Down ["data", "crdt"] := by simp [Down]
  have hflat : ∀ s : String, components s = [] → is_absolute s = false →
      resolve (join reg.root s ++ ["data", "crdt"]) = data_dir reg ++ ["apps", "data", "crdt"] := by
    intro s hs habs
    simp only [join, hs, habs]
    rw [resolve_down]
    · simp [root_eq]
    · simpa using down_append (root_down reg) hrest
  rw [hdir]
  rcases h with rfl | rfl | rfl
  · exact .inl (hflat "" (by decide) (by decide))
  · exact .inl (hflat "." (by decide) (by decide))
  · right
    have hup : join reg.root ".." = reg.root ++ [".."] := by
      have hc : components ".." = [".."] := by decide
      simp [join, hc, is_absolute]
    have hresolve : resolve (reg.root ++ [".."]) = data_dir reg := by
      rw [resolve_up _ (root_down reg)]
      simp [root_eq]
    unfold resolve at hresolve ⊢
    rw [hup, List.foldl_append, hresolve, foldl_step_down _ _ hrest]

/-- Applying the objects of a key stays with the files of the key exactly where its app is a name,
for a document, and its pak lies under `backups/`, for a backup that is no pak of the dot. -/
theorem objects_keep_to_their_files_where_the_key_stays (reg : AppRegistry) (staging : Staging)
    (me : DeviceId) (key : Key) : key.Confined reg staging me ↔ key.Stays reg := by
  refine ⟨?_, confined_of_stays⟩
  intro hconfined
  cases key with
  | acrdt app_id doc writer happ hdoc =>
    by_contra hname
    have hname : ¬ IsName app_id := hname
    have hwrites := @withdrawal_writes reg me app_id doc writer _ rfl
    have hkeeps := hconfined Unit _ plainFs_batches (paired_site writer) (object_of writer true)
      .empty _ hwrites
    have hplace := @crdt_dir_of_no_name reg _ (no_name happ hname)
    rcases hkeeps with hall | ⟨p, heq, hway⟩
    · rcases hall (crdt_dir reg app_id) List.mem_cons_self with hbackups | ⟨hown, -⟩
      · rcases hplace with hplace | hplace
        · exact apps_outside hplace (by simp) hbackups
        · exact apps_outside hplace (by simp) hbackups
      · exact hname hown
    · injection heq with heq
      rw [← heq, stage_dir, root_eq, List.append_assoc] at hway
      rcases hplace with hplace | hplace
      · rw [hplace] at hway
        have hlength := hway.length_le
        simp only [List.length_append, List.length_cons, List.length_nil] at hlength
        omega
      · rw [hplace, List.prefix_append_right_inj] at hway
        obtain ⟨rest, hrest⟩ := hway
        injection hrest with hhead
        exact absurd hhead (by decide)
  | bkp app_id writer happ =>
    constructor
    · rintro rfl hwriter
      have hremoves := @dot_pak_arrives reg staging me _ hwriter
      have hkeeps := hconfined Unit (plain_host (dot_pak me writer)) plainFs_batches
        (paired_site writer) (object_of writer false) (.backup (dot_pak me writer)) _ hremoves
      rcases hkeeps with hall | ⟨p, heq, -⟩
      · have hown := hall (join reg.root ".") List.mem_cons_self
        rw [resolve_dot] at hown
        rcases hown with hbackups | ⟨-, ⟨hname, -⟩ | hstage⟩
        · exact apps_outside (root_eq reg) (by simp) hbackups
        · exact hname.2.1 rfl
        · have hlength := hstage.length_le
          simp only [stage_dir, List.length_append, List.length_cons, List.length_nil] at hlength
          omega
      · cases heq
    · have hremoves : FsOp.remove_file (pak_path reg app_id writer) ∈
          (apply_backup_tombstone (plain_host (dot_pak me writer)) reg app_id writer).trace
            (paired_site writer) := by
        unfold apply_backup_tombstone
        refine mem_trace_right rfl ?_
        exact mem_trace_left (List.mem_singleton.mpr rfl) _
      have hkeeps := hconfined Unit (plain_host (dot_pak me writer)) plainFs_batches
        (paired_site writer) (object_of writer true) .empty _ hremoves
      rcases hkeeps with hall | ⟨p, heq, -⟩
      · rcases hall (pak_path reg app_id writer) List.mem_cons_self with hbackups | ⟨hmoves, -⟩
        · exact (pak_stays_iff app_id writer).mp hbackups
        · cases hmoves.1
      · cases heq

/-- The tombstone of `bkp/../x` deletes `x.pak` beside `backups/`. -/
theorem a_tombstone_deletes_beside_the_backups :
    let key := Key.bkp ".." "x" (by decide)
    let staging : Staging := ⟨"1", by decide⟩
    let pak := pak_path homeRegistry ".." "x"
    .remove_file pak ∈ (apply_obj (plain_host (dot_pak ⟨"laptop"⟩ "phone")) homeRegistry staging
        ⟨"laptop"⟩ key (object_of "phone" true) .empty).trace (paired_site "phone") ∧
      resolve pak = ["home", "x.pak"] ∧ ¬ key.Confined homeRegistry staging ⟨"laptop"⟩ := by
  intro key staging pak
  have hplace : resolve pak = ["home", "x.pak"] := by decide +kernel
  have hremoves : FsOp.remove_file pak ∈ (apply_obj (plain_host (dot_pak ⟨"laptop"⟩ "phone"))
      homeRegistry staging ⟨"laptop"⟩ key (object_of "phone" true) .empty).trace
      (paired_site "phone") := by
    have htrace : (apply_obj (plain_host (dot_pak ⟨"laptop"⟩ "phone")) homeRegistry staging
        ⟨"laptop"⟩ key (object_of "phone" true) .empty).trace (paired_site "phone") =
        [.remove_file pak] := rfl
    rw [htrace]
    exact List.mem_singleton.mpr rfl
  refine ⟨hremoves, hplace, ?_⟩
  intro hconfined
  rcases hconfined Unit _ plainFs_batches _ _ _ _ hremoves with hall | ⟨p, heq, -⟩
  · have hown := hall pak List.mem_cons_self
    rw [hplace] at hown
    rcases hown with hbackups | ⟨hmoves, -⟩
    · exact absurd hbackups (by decide)
    · cases hmoves.1
  · cases heq

end Keys

end pai_sync.files
