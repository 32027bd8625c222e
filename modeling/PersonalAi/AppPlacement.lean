-- Where an app lives (backup.rs, and the command `apps migrate`): snapshots, the claims
-- that move the placement, and what a turn of a pull does to the apps.
import PersonalAi.CrdtShipping
import PersonalAi.RowEffects

open pai_core sealing table text pai_sync.engine

namespace pai_sync.backup

/-! ## Snapshots -/

/-- `SELECT active_device FROM apps WHERE id=?1`; no row reads as no placement. -/
def active_device (db : Db) (app_id : String) : Option String :=
  (db.apps.lookup app_id).bind AppRow.active_device

/-- Some other device, when the apps row names it. -/
def active_elsewhere (db : Db) (device : DeviceId) (app_id : String) : Option String :=
  (active_device db app_id).filter (fun a => decide (a ≠ device.to_string))

structure Manifest where
  name : String
  version : String
  runtime : String

/-- What stands outside this model: the package loader, and the files under `data/`. -/
structure Shelf where
  load : AppDir → Except String Manifest
  snapshot_data : Db → String → Except String (List AppFileEntry)

/-- `app_payload_for`, with the manifest's names. -/
def package_of (app_id : String) (m : Manifest) (dir : AppDir) (now : Timestamp)
    (active : Option String) : AppPayload :=
  { v := 1, id := app_id, name := m.name, version := m.version, runtime := m.runtime,
    updated_at := now, signature_b64 := dir.signature, files := dir.files,
    active_device := active, auth := dir.auth }

def create (shelf : Shelf) (device : DeviceId) (db : Db) (app_id : String)
    (migrate_to : Option DeviceId) (now : Timestamp) : Applied :=
  match active_elsewhere db device app_id with
  | some other => refuse db ("app " ++ app_id ++ " is active on " ++ other ++ " — migrate it here first")
  | none =>
    match db.app_dirs.lookup app_id with
    | none => (db, .error (.NotFound ("app " ++ app_id ++ " not installed")))
    | some dir =>
      match shelf.load dir with
      | .error e => refuse db ("load app for backup: " ++ e)
      | .ok m =>
        match shelf.snapshot_data db app_id with
        | .error e => refuse db ("snapshot data: " ++ e)
        | .ok data_files =>
          let payload : BackupPayload :=
            { v := 1, app_id := app_id, writer := device.to_string, created_at := now,
              package := package_of app_id m dir now (active_device db app_id),
              data_files := data_files, migrate_to := migrate_to.map DeviceId.to_string }
          let row : BackupRow := { created_at := now, pushed_at := none, deleted := false }
          done { db with
            paks := db.paks.insert (app_id, device.to_string) payload,
            app_backups := db.app_backups.insert (app_id, device.to_string) row }

/-! ## Claims -/

/-- `UPDATE apps SET active_device=?2, updated_at=?3 WHERE id=?1`, for rows with `p`. -/
def place (db : Db) (app_id : String) (p : AppRow → Bool) (target : DeviceId) (now : Timestamp) : Db :=
  match (db.apps.lookup app_id).filter p with
  | some row =>
    { db with
      apps := db.apps.insert app_id
        { row with active_device := some target.to_string, updated_at := now } }
  | none => db

/-- Behind which of its steps `apps migrate` stops: the snapshot, the new placement, or the
last one. -/
inductive Stop
  | Snapshot | Placed | Deactivated
deriving DecidableEq, Repr

/-- `apps migrate`, with the clock of its snapshot and of its placement. -/
def migrate (shelf : Shelf) (device : DeviceId) (db : Db) (app_id : String) (target : DeviceId)
    (snapshot_at placed_at : Timestamp) (stop : Stop) : Applied :=
  match create shelf device db app_id (some target) snapshot_at with
  | (db, .error e) => (db, .error e)
  | (db, .ok ()) =>
    let placed := place db app_id (fun _ => true) target placed_at
    match stop with
    | .Snapshot => done db
    | .Placed => done placed
    | .Deactivated => done (deactivate_data placed app_id)

/-- Point `active_device` at this device. -/
def claim_active (db : Db) (device : DeviceId) (app_id : String) (now : Timestamp) : Applied :=
  match (db.apps.lookup app_id).filter (fun row => !row.deleted) with
  | some _ => done (place db app_id (fun row => !row.deleted) device now)
  | none => (db, .error (.NotFound ("app " ++ app_id ++ " not installed")))

/-- `ORDER BY created_at DESC LIMIT 1`: the writer of the newest backup. -/
def newest_backup (db : Db) (app_id : String) : Option String :=
  let rows := db.app_backups.entries.filter (fun b => b.1.1 = app_id && !b.2.deleted)
  (rows.insertionSort (fun a b => b.2.created_at ≤ a.2.created_at)).head?.map (fun b => b.1.2)

/-- Restore the newest backup; the result is its pak. -/
def restore (env : Env) (device : DeviceId) (db : Db) (app_id : String) :
    Db × Except Error BackupPayload :=
  match active_elsewhere db device app_id with
  | some other =>
    (db, .error (.Sync ("app " ++ app_id ++ " is active on " ++ other ++ " — migrate it here first")))
  | none =>
    match newest_backup db app_id with
    | none => (db, .error (.NotFound ("no backup for " ++ app_id)))
    | some writer =>
      match restore_unchecked env db app_id writer, db.paks.lookup (app_id, writer) with
      | (after, .ok ()), some p => (after, .ok p)
      | (after, .ok ()), none => (after, .error (.NotFound ("no backup for " ++ app_id)))
      | (after, .error e), _ => (after, .error e)

inductive RescueOutcome
  | Restored (writer : String) (created_at : Timestamp)
  | ClaimedNoBackup
  | ClaimedRestoreFailed (msg : String)

/-- Claim the placement here, then restore the newest backup. -/
def rescue (env : Env) (device : DeviceId) (db : Db) (app_id : String) (now : Timestamp) :
    Db × Except Error RescueOutcome :=
  match claim_active db device app_id now with
  | (db, .error e) => (db, .error e)
  | (db, .ok ()) =>
    match restore env device db app_id with
    | (db, .ok p) => (db, .ok (.Restored p.writer p.created_at))
    | (db, .error (.NotFound _)) => (db, .ok .ClaimedNoBackup)
    | (db, .error e) => (db, .ok (.ClaimedRestoreFailed e.to_string))

/-! ## What a turn leaves alone -/

/-- The apps, their directories and their backups are what they were. -/
structure SameApps (db db' : Db) : Prop where
  apps : db'.apps = db.apps
  app_dirs : db'.app_dirs = db.app_dirs
  app_backups : db'.app_backups = db.app_backups
  paks : db'.paks = db.paks
  sync_peers : db'.sync_peers = db.sync_peers

theorem same_apps (db : Db) : SameApps db db := ⟨rfl, rfl, rfl, rfl, rfl⟩

variable {k : RowKind}

theorem apply_row_same {p : RowPayload k} (db : Db) (circle : Option String) :
    SameApps db (apply_row k db p circle).1 := by
  obtain ⟨rows, sections, blobs, heq, -⟩ := @apply_row_frame k p db circle
  rw [heq]
  exact ⟨rfl, rfl, rfl, rfl, rfl⟩

theorem apply_row_tombstone_same (k : RowKind) (db : Db) (id : String) (t : Timestamp) :
    SameApps db (apply_row_tombstone k db id t).1 := by
  cases k <;> exact ⟨rfl, rfl, rfl, rfl, rfl⟩

theorem apply_message_same (db : Db) (p : MessagePayload) : SameApps db (apply_message db p).1 := by
  unfold apply_message
  split
  · exact same_apps db
  · split
    · exact same_apps db
    · split
      · exact same_apps db
      · split <;> exact ⟨rfl, rfl, rfl, rfl, rfl⟩

theorem apply_crdt_same (env : Env) (db : Db) (app_id doc writer : String) (obj : Object) (raw : Plain) :
    SameApps db (apply_crdt env db app_id doc writer obj raw).1 := by
  have hmaterialize : ∀ fields,
      SameApps db (replace_and_materialize env db app_id doc writer fields).1 :=
    fun fields => ⟨rfl, rfl, rfl, rfl, rfl⟩
  unfold apply_crdt
  split
  · exact same_apps db
  · split
    · exact same_apps db
    · split
      · exact hmaterialize _
      · split
        · split
          · exact same_apps db
          · exact hmaterialize _
        · exact same_apps db

theorem apply_grant_same (db : Db) (g : CircleGrant) : SameApps db (apply_grant db g).1 := by
  unfold apply_grant adopt_circle_key record_membership
  split
  · exact same_apps db
  · split
    · exact same_apps db
    · split
      · exact same_apps db
      · split
        · rename_i heq
          split at heq
          · split at heq
            · cases heq
            · cases heq
              exact same_apps db
          · cases heq
        · rename_i heq
          split at heq
          · split at heq
            · cases heq
              split <;> exact ⟨rfl, rfl, rfl, rfl, rfl⟩
            · cases heq
          · cases heq
            split <;> exact ⟨rfl, rfl, rfl, rfl, rfl⟩

/-! ## What the apply paths do to one app -/

theorem edit_dir_lookup (db : Db) (app_id : String) (f : AppDir → AppDir) (i : String) :
    (edit_dir db app_id f).app_dirs.lookup i =
      if i = app_id then (db.app_dirs.lookup app_id).map f else db.app_dirs.lookup i := by
  unfold edit_dir
  split
  · rename_i dir hdir
    dsimp only
    rw [lookup_insert_if, hdir]
    rfl
  · rename_i hnone
    split
    · rename_i heq
      rw [heq, hnone]
      rfl
    · rfl

/-- Only the directory of one app changes. -/
structure SameButDir (app_id : String) (db db' : Db) : Prop where
  apps : db'.apps = db.apps
  dirs : ∀ i, i ≠ app_id → db'.app_dirs.lookup i = db.app_dirs.lookup i
  app_backups : db'.app_backups = db.app_backups
  paks : db'.paks = db.paks
  sync_peers : db'.sync_peers = db.sync_peers

theorem edit_dir_same (db : Db) (app_id : String) (f : AppDir → AppDir) :
    SameButDir app_id db (edit_dir db app_id f) := by
  refine ⟨?_, ?_, ?_, ?_, ?_⟩
  · unfold edit_dir
    split <;> rfl
  · intro i hi
    rw [edit_dir_lookup, if_neg hi]
  · unfold edit_dir
    split <;> rfl
  · unfold edit_dir
    split <;> rfl
  · unfold edit_dir
    split <;> rfl

theorem SameButDir.trans {app_id : String} {a b c : Db} (hab : SameButDir app_id a b)
    (hbc : SameButDir app_id b c) : SameButDir app_id a c :=
  ⟨hbc.apps.trans hab.apps, fun i hi => (hbc.dirs i hi).trans (hab.dirs i hi),
    hbc.app_backups.trans hab.app_backups, hbc.paks.trans hab.paks,
    hbc.sync_peers.trans hab.sync_peers⟩

theorem install_same (db : Db) (app_id : String) (p : AppPayload) :
    SameButDir app_id db (install_trusted db app_id p) :=
  ⟨rfl, fun _ hi => AList.lookup_insert_ne hi, rfl, rfl, rfl⟩

theorem deactivate_same (db : Db) (app_id : String) :
    SameButDir app_id db (deactivate_data db app_id) :=
  let h := edit_dir_same db app_id (fun dir => { dir with data := none })
  ⟨h.apps, h.dirs, h.app_backups, h.paks, h.sync_peers⟩

theorem deactivate_lookup (db : Db) (app_id : String) :
    (deactivate_data db app_id).app_dirs.lookup app_id =
      (db.app_dirs.lookup app_id).map (fun dir => { dir with data := none }) := by
  change (edit_dir db app_id _).app_dirs.lookup app_id = _
  rw [edit_dir_lookup, if_pos rfl]

theorem save_auth_same (db : Db) (app_id : String) (auth : Option String) :
    SameButDir app_id db (save_auth db app_id auth) := by
  unfold save_auth
  split
  · exact edit_dir_same db app_id _
  · exact ⟨rfl, fun _ _ => rfl, rfl, rfl, rfl⟩

/-- A directory with these files, this signature and this data. -/
def DirIs (dir : Option AppDir) (p : AppPayload) (data : Option (List AppFileEntry)) : Prop :=
  ∃ d, dir = some d ∧ d.files = p.files ∧ d.signature = p.signature_b64 ∧ d.data = data

theorem install_lookup (db : Db) (app_id : String) (p : AppPayload) :
    DirIs ((install_trusted db app_id p).app_dirs.lookup app_id) p
      ((db.app_dirs.lookup app_id).bind AppDir.data) :=
  ⟨_, AList.lookup_insert _, rfl, rfl, rfl⟩

theorem DirIs.edit {db : Db} {app_id : String} {p : AppPayload}
    {data data' : Option (List AppFileEntry)} (h : DirIs (db.app_dirs.lookup app_id) p data)
    {f : AppDir → AppDir} (hfiles : ∀ d, (f d).files = d.files)
    (hsignature : ∀ d, (f d).signature = d.signature)
    (hdata : ∀ d : AppDir, d.data = data → (f d).data = data') :
    DirIs ((edit_dir db app_id f).app_dirs.lookup app_id) p data' := by
  obtain ⟨d, hdir, hf, hs, hd⟩ := h
  refine ⟨f d, ?_, (hfiles d).trans hf, (hsignature d).trans hs, hdata d hd⟩
  rw [edit_dir_lookup, if_pos rfl, hdir]
  rfl

theorem DirIs.save_auth {db : Db} {app_id : String} {p : AppPayload}
    {data : Option (List AppFileEntry)} (h : DirIs (db.app_dirs.lookup app_id) p data)
    (auth : Option String) :
    DirIs ((save_auth db app_id auth).app_dirs.lookup app_id) p data := by
  unfold engine.save_auth
  split
  · exact h.edit (fun _ => rfl) (fun _ => rfl) (fun _ hd => hd)
  · exact h

/-- The package is accepted, and the row is the payload's. -/
structure TakesApp (me : DeviceId) (db : Db) (p : AppPayload) (db' : Db) : Prop where
  apps : db'.apps = db.apps.insert p.id (app_row p p.active_device)
  dirs : ∀ i, i ≠ p.id → db'.app_dirs.lookup i = db.app_dirs.lookup i
  dir : DirIs (db'.app_dirs.lookup p.id) p
    (if p.active_device.any (fun a => decide (a ≠ me.to_string)) then none
      else (db.app_dirs.lookup p.id).bind AppDir.data)
  app_backups : db'.app_backups = db.app_backups
  paks : db'.paks = db.paks
  sync_peers : db'.sync_peers = db.sync_peers

/-- The package passes on this device. -/
def Accepts (env : Env) (db : Db) (p : AppPayload) (app_id : String) : Prop :=
  ∃ signer, env.stage_verdict db.sync_peers p app_id = .ok (.Installed signer)

theorem land_docs_same (env : Env) (db : Db) (app_id : String) :
    SameButDir app_id db (land_docs env db app_id) :=
  ⟨rfl, fun _ _ => rfl, rfl, rfl, rfl⟩

/-- What `apply_app` does behind the row. -/
theorem behind_the_row (env : Env) {db : Db} {p : AppPayload} {data : Option (List AppFileEntry)}
    (hdir : DirIs (db.app_dirs.lookup p.id) p data) (elsewhere : Bool) :
    let moved := if elsewhere then deactivate_data db p.id else db
    let after := save_auth (land_docs env moved p.id) p.id p.auth
    SameButDir p.id db after ∧
      DirIs (after.app_dirs.lookup p.id) p (if elsewhere then none else data) := by
  intro moved after
  have hmoved : SameButDir p.id db moved ∧
      DirIs (moved.app_dirs.lookup p.id) p (if elsewhere then none else data) := by
    cases elsewhere with
    | false => exact ⟨⟨rfl, fun _ _ => rfl, rfl, rfl, rfl⟩, hdir⟩
    | true =>
      refine ⟨deactivate_same db p.id, ?_⟩
      obtain ⟨d, hd, hfiles, hsignature, -⟩ := hdir
      exact ⟨{ d with data := none }, by
        change (deactivate_data db p.id).app_dirs.lookup p.id = _
        rw [deactivate_lookup, hd]
        rfl, hfiles, hsignature, rfl⟩
  have hlanded : DirIs ((land_docs env moved p.id).app_dirs.lookup p.id) p
      (if elsewhere then none else data) := hmoved.2
  exact ⟨(hmoved.1.trans (land_docs_same env moved p.id)).trans (save_auth_same _ p.id p.auth),
    hlanded.save_auth p.auth⟩

theorem apply_app_accepted {env : Env} {db : Db} {p : AppPayload} (me : DeviceId) (hv : p.v = 1)
    (haccepts : Accepts env db p p.id) :
    (apply_app env me db p).2 = .ok () ∧ TakesApp me db p (apply_app env me db p).1 := by
  obtain ⟨signer, hverdict⟩ := haccepts
  have helsewhere : (match p.active_device with
      | some active => decide (active ≠ me.to_string)
      | none => false) = p.active_device.any (fun a => decide (a ≠ me.to_string)) := by
    cases p.active_device <;> rfl
  have hinstall := install_same db p.id p
  let placed : Db :=
    { install_trusted db p.id p with apps := db.apps.insert p.id (app_row p p.active_device) }
  have hdir : DirIs (placed.app_dirs.lookup p.id) p ((db.app_dirs.lookup p.id).bind AppDir.data) :=
    install_lookup db p.id p
  obtain ⟨hsame, hdata⟩ := behind_the_row env hdir
    (p.active_device.any (fun a => decide (a ≠ me.to_string)))
  have hresult : apply_app env me db p = done (save_auth (land_docs env
      (if p.active_device.any (fun a => decide (a ≠ me.to_string)) then deactivate_data placed p.id
        else placed) p.id) p.id p.auth) := by
    unfold apply_app stage_verify_install
    rw [if_neg (by simp [hv]), hverdict]
    dsimp only
    rw [← helsewhere]
    rfl
  rw [hresult]
  exact ⟨rfl, hsame.apps, fun i hi => (hsame.dirs i hi).trans (hinstall.dirs i hi), hdata,
    hsame.app_backups.trans hinstall.app_backups, hsame.paks.trans hinstall.paks,
    hsame.sync_peers.trans hinstall.sync_peers⟩

theorem apply_app_cases (env : Env) (me : DeviceId) (db : Db) (p : AppPayload) :
    SameApps db (apply_app env me db p).1 ∨
      (p.v = 1 ∧ Accepts env db p p.id ∧ TakesApp me db p (apply_app env me db p).1) := by
  by_cases hv : p.v = 1
  · cases hverdict : env.stage_verdict db.sync_peers p p.id with
    | error e =>
      refine .inl ?_
      unfold apply_app stage_verify_install
      rw [if_neg (by simp [hv]), hverdict]
      exact same_apps db
    | ok outcome =>
      cases outcome with
      | Installed signer =>
        exact .inr ⟨hv, ⟨signer, hverdict⟩, (apply_app_accepted me hv ⟨signer, hverdict⟩).2⟩
      | Rejected msg =>
        refine .inl ?_
        unfold apply_app stage_verify_install
        rw [if_neg (by simp [hv]), hverdict]
        exact same_apps db
  · refine .inl ?_
    unfold apply_app
    rw [if_pos hv]
    exact same_apps db

/-- The tombstone of an app: its row is buried, and its directory may go. -/
theorem apply_app_tombstone_cases (db : Db) (id : String) (t : Timestamp) :
    let after := (apply_app_tombstone db id t).1
    (∀ i, after.apps.lookup i = if i = id then
        (db.apps.lookup id).map (fun row => { row with deleted := true, updated_at := t })
      else db.apps.lookup i) ∧
    (∀ i, after.app_dirs.lookup i = db.app_dirs.lookup i ∨ (i = id ∧ after.app_dirs.lookup i = none)) ∧
    after.app_backups = db.app_backups ∧ after.paks = db.paks ∧ after.sync_peers = db.sync_peers := by
  intro after
  have hremove : ∀ db : Db, (remove_app_dir db id).apps = db.apps ∧
      (∀ i, (remove_app_dir db id).app_dirs.lookup i = db.app_dirs.lookup i ∨
        (i = id ∧ (remove_app_dir db id).app_dirs.lookup i = none)) ∧
      (remove_app_dir db id).app_backups = db.app_backups ∧ (remove_app_dir db id).paks = db.paks ∧
      (remove_app_dir db id).sync_peers = db.sync_peers := by
    intro db
    unfold remove_app_dir
    split
    · refine ⟨rfl, fun i => ?_, rfl, rfl, rfl⟩
      dsimp only
      rw [lookup_erase_if]
      split
      · rename_i hi
        exact .inr ⟨hi, rfl⟩
      · exact .inl rfl
    · exact ⟨rfl, fun i => .inl rfl, rfl, rfl, rfl⟩
  let buried : Db := match db.apps.lookup id with
    | some row =>
      { db with apps := db.apps.insert id { row with deleted := true, updated_at := t } }
    | none => db
  have hafter : after = remove_app_dir buried id := rfl
  have hburied : (∀ i, buried.apps.lookup i = if i = id then
        (db.apps.lookup id).map (fun row => { row with deleted := true, updated_at := t })
      else db.apps.lookup i) ∧ buried.app_dirs = db.app_dirs ∧
      buried.app_backups = db.app_backups ∧ buried.paks = db.paks ∧
      buried.sync_peers = db.sync_peers := by
    dsimp only [buried]
    split
    · rename_i row hrow
      refine ⟨fun i => ?_, rfl, rfl, rfl, rfl⟩
      dsimp only
      rw [lookup_insert_if, hrow]
      rfl
    · rename_i hnone
      refine ⟨fun i => ?_, rfl, rfl, rfl, rfl⟩
      split
      · rename_i hi
        rw [hi, hnone]
        rfl
      · rfl
  obtain ⟨happs, hdirs, hbackups, hpaks, hpeers⟩ := hremove buried
  refine ⟨fun i => ?_, fun i => ?_, ?_, ?_, ?_⟩
  · rw [hafter, happs]
    exact hburied.1 i
  · rw [hafter, ← hburied.2.1]
    exact hdirs i
  · exact hbackups.trans hburied.2.2.1
  · exact hpaks.trans hburied.2.2.2.1
  · exact hpeers.trans hburied.2.2.2.2

/-- A backup's package is accepted, and takes the row over but for its placement. -/
structure RestoresApp (env : Env) (db : Db) (app_id : String) (p : BackupPayload) (db' : Db) :
    Prop where
  accepts : Accepts env db p.package app_id
  apps : db'.apps = db.apps.insert app_id (restored_row db.apps app_id p.package)
  dirs : ∀ i, i ≠ app_id → db'.app_dirs.lookup i = db.app_dirs.lookup i
  dir : ∃ data, DirIs (db'.app_dirs.lookup app_id) p.package data
  app_backups : db'.app_backups = db.app_backups
  paks : db'.paks = db.paks
  sync_peers : db'.sync_peers = db.sync_peers

theorem restore_data_same (env : Env) (db : Db) (app_id : String) (files : List AppFileEntry)
    (decoded : List (String × Bytes)) :
    SameButDir app_id db (restore_data env db app_id files decoded).1 := by
  have hself : SameButDir app_id db db := ⟨rfl, fun _ _ => rfl, rfl, rfl, rfl⟩
  unfold restore_data
  split
  · exact hself
  · exact hself
  · split
    · exact ⟨(edit_dir_same db app_id _).apps, (edit_dir_same db app_id _).dirs,
        (edit_dir_same db app_id _).app_backups, (edit_dir_same db app_id _).paks,
        (edit_dir_same db app_id _).sync_peers⟩
    · exact hself

theorem DirIs.restore_data {env : Env} {db : Db} {app_id : String} {p : AppPayload}
    {data : Option (List AppFileEntry)} (h : DirIs (db.app_dirs.lookup app_id) p data)
    (files : List AppFileEntry) (decoded : List (String × Bytes)) :
    ∃ data', DirIs ((restore_data env db app_id files decoded).1.app_dirs.lookup app_id) p data' := by
  unfold engine.restore_data
  split
  · exact ⟨data, h⟩
  · exact ⟨data, h⟩
  · split
    · exact ⟨some files, h.edit (fun _ => rfl) (fun _ => rfl) (fun _ _ => rfl)⟩
    · exact ⟨data, h⟩

/-- The backup that a restore from a writer finds. -/
def Finds (db : Db) (app_id writer : String) (p : BackupPayload) : Prop :=
  ((db.app_backups.lookup (app_id, writer)).any (fun row => !row.deleted)) = true ∧
    db.paks.lookup (app_id, writer) = some p ∧ p.v = 1 ∧ p.app_id = app_id

/-- Either nothing of the apps changes, and the restore has failed, or the row of the backup
is there. -/
theorem restore_unchecked_cases (env : Env) (db : Db) (app_id writer : String) :
    ((restore_unchecked env db app_id writer).1 = db ∧
        (restore_unchecked env db app_id writer).2 ≠ .ok ()) ∨
      ∃ p, Finds db app_id writer p ∧
        RestoresApp env db app_id p (restore_unchecked env db app_id writer).1 := by
  unfold restore_unchecked
  split
  · exact .inl ⟨rfl, by simp⟩
  · exact .inl ⟨rfl, by simp⟩
  · rename_i row p hrow hpak
    split
    · exact .inl ⟨rfl, by simp [refuse]⟩
    · rename_i hv
      split
      · exact .inl ⟨rfl, by simp [refuse]⟩
      · rename_i hid
        have hv : p.v = 1 := by simpa using hv
        have hid : p.app_id = app_id := by simpa using hid
        have hfinds : Finds db app_id writer p := by
          refine ⟨?_, hpak, hv, hid⟩
          obtain ⟨hsome, hlive⟩ := Option.filter_eq_some_iff.mp hrow
          rw [hsome]
          exact hlive
        unfold stage_verify_install
        cases hverdict : env.stage_verdict db.sync_peers p.package app_id with
        | error e => exact .inl ⟨rfl, by simp⟩
        | ok outcome =>
          cases outcome with
          | Rejected msg => exact .inl ⟨rfl, by simp [refuse]⟩
          | Installed signer =>
            refine .inr ⟨p, hfinds, ?_⟩
            dsimp only
            have hinstall := install_same db app_id p.package
            have hauth := hinstall.trans (save_auth_same _ app_id p.package.auth)
            have hdir := (install_lookup db app_id p.package).save_auth p.package.auth
            generalize save_auth (install_trusted db app_id p.package) app_id p.package.auth = authed
              at hauth hdir
            have happs : authed.apps = db.apps := hauth.apps
            let placed : Db :=
              { authed with
                apps := authed.apps.insert app_id (restored_row authed.apps app_id p.package) }
            have hplaced : RestoresApp env db app_id p placed := by
              refine ⟨⟨signer, hverdict⟩, ?_, hauth.dirs, ⟨_, hdir⟩, hauth.app_backups, hauth.paks,
                hauth.sync_peers⟩
              change authed.apps.insert app_id (restored_row authed.apps app_id p.package) = _
              rw [happs]
            cases decode_files p.data_files with
            | error e => exact hplaced
            | ok decoded =>
              have hsame := restore_data_same env placed app_id p.data_files decoded
              obtain ⟨data, hdata⟩ := hplaced.dir
              exact ⟨hplaced.accepts, hsame.apps.trans hplaced.apps,
                fun i hi => (hsame.dirs i hi).trans (hplaced.dirs i hi),
                hdata.restore_data p.data_files decoded,
                hsame.app_backups.trans hplaced.app_backups, hsame.paks.trans hplaced.paks,
                hsame.sync_peers.trans hplaced.sync_peers⟩

/-- The store with a pak that was received. -/
def stored (db : Db) (app_id writer : String) (p : BackupPayload) : Db :=
  { db with
    paks := db.paks.insert (app_id, writer) p,
    app_backups := db.app_backups.insert (app_id, writer)
      { created_at := p.created_at, pushed_at := some p.created_at, deleted := false } }

theorem apply_backup_cases (env : Env) (me : DeviceId) (db : Db) (app_id writer : String)
    (obj_writer : DeviceId) (p : BackupPayload) :
    SameApps db (apply_backup env me db app_id writer obj_writer p).1 ∨
      ((p.v = 1 ∧ p.app_id = app_id ∧ p.writer = writer ∧ obj_writer.to_string = writer) ∧
        (apply_backup env me db app_id writer obj_writer p).1 =
          if p.migrate_to = some me.to_string then
            (restore_unchecked env (stored db app_id writer p) app_id writer).1
          else stored db app_id writer p) := by
  unfold apply_backup
  split
  · exact .inl (same_apps db)
  · rename_i hv
    split
    · exact .inl (same_apps db)
    · rename_i hnames
      split
      · exact .inl (same_apps db)
      · split
        · exact .inl (same_apps db)
        · have hv : p.v = 1 := by simpa using hv
          have hnames : p.app_id = app_id ∧ p.writer = writer ∧ obj_writer.to_string = writer := by
            simpa using hnames
          refine .inr ⟨⟨hv, hnames⟩, ?_⟩
          dsimp only
          split
          · rfl
          · rfl

/-! ## One turn -/

/-- An object that a turn applies to the apps. -/
inductive AppTurn (e : SyncEngine) (db : Db) (o : Object) : Db → Prop
  | other {db' : Db} (h : SameApps db db') : AppTurn e db o db'
  | app {id : String} {p : AppPayload} {circle : Option String} (key : parse_key o.key = .app id)
      (live : o.tombstone = false) (opens : open_scoped e db o = some (.app p, circle)) :
      AppTurn e db o (apply_app e.env e.device db p).1
  | gone {id : String} (key : parse_key o.key = .app id) :
      AppTurn e db o (apply_app_tombstone db id o.updated_at).1
  | restored {rest app_id writer : List Char} {p : BackupPayload} {circle : Option String}
      (key : parse_key o.key = .backup (String.ofList rest))
      (split : split_once '/' rest = some (app_id, writer)) (live : o.tombstone = false)
      (opens : open_scoped e db o = some (.backup p, circle)) :
      AppTurn e db o (apply_backup e.env e.device db (String.ofList app_id) (String.ofList writer)
        o.writer p).1
  | dropped {app_id writer : String} : AppTurn e db o (apply_backup_tombstone db app_id writer).1

theorem obj_turn {e : SyncEngine} {db : Db} {o : Object} {raw : Plain} {circle : Option String}
    (hopen : open_scoped e db o = some (raw, circle)) :
    AppTurn e db o (apply_obj e.env e.device db o raw circle).1 := by
  unfold apply_obj
  split
  · split
    · exact .other (apply_row_tombstone_same _ _ _ _)
    · split
      · exact .other (apply_row_same _ _)
      · exact .other (same_apps db)
  · rename_i id hkey
    split
    · exact .gone hkey
    · rename_i hlive
      split
      · exact .app hkey (by simpa using hlive) hopen
      · exact .other (same_apps db)
  · rename_i rest hkey
    split
    · exact .other (same_apps db)
    · rename_i app_id writer hsplit
      split
      · exact .dropped
      · rename_i hlive
        split
        · exact .restored (by rwa [String.ofList_toList]) hsplit (by simpa using hlive) hopen
        · exact .other (same_apps db)
  · split
    · exact .other (apply_crdt_same _ _ _ _ _ _ _)
    · exact .other (same_apps db)
  · split
    · exact .other (same_apps db)
    · split
      · exact .other (apply_message_same _ _)
      · exact .other (same_apps db)
  · exact .other (same_apps db)

theorem app_turn (e : SyncEngine) (db : Db) (o : Object) :
    AppTurn e db o (open_and_apply e db o).1 := by
  unfold open_and_apply
  split
  · split
    · split
      · exact .other (same_apps db)
      · exact .other (same_apps db)
      · rename_i g _
        have hgrant := apply_grant_same db g
        rcases hresult : apply_grant db g with ⟨db', err | _⟩
        · rw [hresult] at hgrant
          exact .other hgrant
        · rw [hresult] at hgrant
          exact .other hgrant
    · exact .other (same_apps db)
  · split
    · exact .other (same_apps db)
    · rename_i raw circle hopen
      have hturn := obj_turn hopen
      rcases hresult : apply_obj e.env e.device db o raw circle with ⟨db', err | _⟩
      · rwa [hresult] at hturn
      · rwa [hresult] at hturn

/-! ## What a push ships of the apps -/

/-- What push ships of an apps row. -/
structure ShipsApp (e : SyncEngine) (db : Db) (id : String) (row : AppRow) (o : Outgoing) : Prop where
  there : db.apps.lookup id = some row
  sealed_under : o.sealed_under = .vault e.vault
  version : o.version = version_of row.updated_at
  updated : o.updated_at = row.updated_at
  tombstone : o.tombstone = row.deleted
  live : row.deleted = false →
    ∃ dir, db.app_dirs.lookup id = some dir ∧ o.raw = .app (app_payload_for id row dir)

/-- What push ships of a backup. -/
structure ShipsBackup (e : SyncEngine) (db : Db) (app_id : String) (o : Outgoing) : Prop where
  key : o.key = BKP_PREFIX ++ app_id ++ "/" ++ e.device.to_string
  sealed_under : o.sealed_under = .vault e.vault
  live : o.tombstone = false →
    ∃ p, db.paks.lookup (app_id, e.device.to_string) = some p ∧ o.raw = .backup p

/-- What is no row and no message is an app or a backup. -/
theorem outgoing_apps_or_backups {e : SyncEngine} {db : Db} {o : Outgoing} (h : o ∈ outgoing e db)
    (hrow : ∀ k id, parse_key o.key ≠ .row k id) (hmessage : ∀ id, parse_key o.key ≠ .message id) :
    o ∈ outgoing_apps e db ∨ o ∈ outgoing_backups e db := by
  have hrows : ∀ k, o ∉ outgoing_rows e db k := by
    intro k hmem
    obtain ⟨id, row, -, -, ho⟩ := mem_outgoing_rows hmem
    exact hrow k id (by rw [outgoing_row_key ho, parse_row])
  unfold outgoing at h
  simp only [List.mem_append] at h
  rcases h with (((((((h | h) | h) | h) | h) | h) | h) | h) | h
  · exact absurd h (hrows .memory)
  · exact absurd h (hrows .conversation)
  · obtain ⟨entry, -, hm⟩ := List.mem_filterMap.mp h
    split at hm
    · cases hm
    · split at hm
      · cases hm
        exact absurd (parse_message entry.1) (hmessage entry.1)
      · cases hm
  · exact absurd h (hrows .document)
  · exact absurd h (hrows .task)
  · exact absurd h (hrows .workflow)
  · exact absurd h (hrows .notification)
  · exact .inl h
  · exact .inr h

theorem backup_key_parses (app_id writer : String) :
    parse_key (BKP_PREFIX ++ app_id ++ "/" ++ writer) = .backup (app_id ++ "/" ++ writer) := by
  rw [← parse_backup]
  simp only [String.append_assoc]

theorem outgoing_of_app {e : SyncEngine} {db : Db} {o : Outgoing} {id : String}
    (h : o ∈ outgoing e db) (hkey : parse_key o.key = .app id) : ∃ row, ShipsApp e db id row o := by
  rcases outgoing_apps_or_backups h (by simp [hkey]) (by simp [hkey]) with happ | hbackup
  · obtain ⟨⟨id', row⟩, hentry, ha⟩ := List.mem_filterMap.mp happ
    obtain ⟨raw, hraw, rfl⟩ := Option.map_eq_some_iff.mp ha
    dsimp only at hkey hraw
    rw [parse_app] at hkey
    cases hkey
    refine ⟨row, lookup_eq_some.mpr hentry, rfl, rfl, rfl, rfl, ?_⟩
    intro hlive
    rw [if_neg (by simp [hlive])] at hraw
    obtain ⟨dir, hdir, rfl⟩ := Option.map_eq_some_iff.mp hraw
    exact ⟨dir, hdir, rfl⟩
  · obtain ⟨b, -, hb⟩ := List.mem_filterMap.mp hbackup
    split at hb
    · cases hb
    · obtain ⟨raw, -, rfl⟩ := Option.map_eq_some_iff.mp hb
      dsimp only at hkey
      rw [backup_key_parses] at hkey
      cases hkey

theorem outgoing_of_backup {e : SyncEngine} {db : Db} {o : Outgoing} {rest : String}
    (h : o ∈ outgoing e db) (hkey : parse_key o.key = .backup rest) :
    ∃ app_id, ShipsBackup e db app_id o := by
  rcases outgoing_apps_or_backups h (by simp [hkey]) (by simp [hkey]) with happ | hbackup
  · obtain ⟨a, -, ha⟩ := List.mem_filterMap.mp happ
    obtain ⟨raw, -, rfl⟩ := Option.map_eq_some_iff.mp ha
    dsimp only at hkey
    rw [parse_app] at hkey
    cases hkey
  · obtain ⟨⟨⟨app_id, writer⟩, row⟩, hentry, hb⟩ := List.mem_filterMap.mp hbackup
    split at hb
    · cases hb
    · rename_i hwriter
      have hwriter : writer = e.device.to_string := by simpa using hwriter
      subst hwriter
      obtain ⟨raw, hraw, rfl⟩ := Option.map_eq_some_iff.mp hb
      refine ⟨app_id, rfl, rfl, ?_⟩
      intro hlive
      dsimp only at hlive hraw
      rw [if_neg (by simp [hlive])] at hraw
      obtain ⟨p, hp, rfl⟩ := Option.map_eq_some_iff.mp hraw
      exact ⟨p, hp, rfl⟩

/-- What a list of objects leaves on the transport was there, or is one of them. -/
theorem ship_stored (e : SyncEngine) (troubles : Nat → Option Trouble) (s : Site) (out : SyncOutcome)
    (items : List (Site → Outgoing)) {key : String} {o : Object}
    (h : (ship e troubles s out items).1.remote.lookup key = some o) :
    s.remote.lookup key = some o ∨ ∃ item ∈ items, ∃ s', o = (item s').object e.device := by
  induction items generalizing s out with
  | nil => exact .inl h
  | cons item rest ih =>
    have hone : ∀ s₁ : Site, s₁ = (push_sealed e troubles s out (item s)).1 →
        s₁.remote.lookup key = some o →
        s.remote.lookup key = some o ∨ o = (item s).object e.device := by
      rintro s₁ rfl hlookup
      by_cases hkey : (item s).key = key
      · unfold push_sealed at hlookup
        have hinsert : (s.remote.insert ((item s).object e.device).key ((item s).object e.device)).lookup
            key = some o → o = (item s).object e.device := by
          intro hin
          rw [show ((item s).object e.device).key = key from hkey, AList.lookup_insert] at hin
          cases hin
          rfl
        split at hlookup
        · exact .inl hlookup
        · dsimp only at hlookup
          split at hlookup
          · exact .inl hlookup
          · exact .inr (hinsert hlookup)
          · exact .inr (hinsert hlookup)
          · exact .inr (hinsert hlookup)
      · rw [push_sealed_remote e troubles s out hkey] at hlookup
        exact .inl hlookup
    unfold ship at h
    rcases hpush : push_sealed e troubles s out (item s) with ⟨s₁, err | out₁⟩
    · rw [hpush] at h
      rcases hone s₁ (by rw [hpush]) h with hold | hnew
      · exact .inl hold
      · exact .inr ⟨item, List.mem_cons_self, s, hnew⟩
    · rw [hpush] at h
      rcases ih s₁ out₁ h with hbefore | ⟨x, hx, s', hnew⟩
      · rcases hone s₁ (by rw [hpush]) hbefore with hold | hnew
        · exact .inl hold
        · exact .inr ⟨item, List.mem_cons_self, s, hnew⟩
      · exact .inr ⟨x, List.mem_cons_of_mem _ hx, s', hnew⟩

/-- What a push leaves on the transport: what was there, what it makes of the store, and
documents. -/
theorem push_stored (e : SyncEngine) (now : Timestamp) (troubles : Nat → Option Trouble) (s : Site)
    {key : String} {o : Object} (h : (push e now troubles s).1.remote.lookup key = some o) :
    s.remote.lookup key = some o ∨ (∃ x ∈ outgoing e s.db, o = x.object e.device) ∨
      ∃ rest, parse_key o.key = .crdt rest := by
  have hrows : ∀ s', s' = (ship e troubles s { SyncOutcome.zero with skipped := left_out e s.db }
      ((outgoing e s.db).map (fun o _ => o))).1 → s'.remote.lookup key = some o →
      s.remote.lookup key = some o ∨ (∃ x ∈ outgoing e s.db, o = x.object e.device) ∨
        ∃ rest, parse_key o.key = .crdt rest := by
    rintro s' rfl hlookup
    rcases ship_stored e troubles s _ _ hlookup with hold | ⟨item, hitem, s', hnew⟩
    · exact .inl hold
    · obtain ⟨x, hx, rfl⟩ := List.mem_map.mp hitem
      exact .inr (.inl ⟨x, hx, hnew⟩)
  unfold push at h
  rcases hship : ship e troubles s { SyncOutcome.zero with skipped := left_out e s.db }
    ((outgoing e s.db).map (fun o _ => o)) with ⟨s₁, err | out⟩
  · rw [hship] at h
    exact hrows s₁ (by rw [hship]) h
  · rw [hship] at h
    dsimp only at h
    unfold push_app_crdts at h
    split at h
    · exact hrows s₁ (by rw [hship]) h
    · rcases ship_stored e troubles _ out _ h with hold | ⟨item, hitem, s', hnew⟩
      · exact hrows s₁ (by rw [hship]) hold
      · obtain ⟨c, -, rfl⟩ := List.mem_map.mp hitem
        refine .inr (.inr ⟨c.app ++ "/" ++ c.doc ++ "/" ++ e.device.to_string, ?_⟩)
        rw [hnew]
        exact crdt_key_parses e.device c.app c.doc

/-- A push changes nothing of the store but the cells of documents. -/
theorem push_same (e : SyncEngine) (now : Timestamp) (troubles : Nat → Option Trouble) (s : Site) :
    SameApps s.db (push e now troubles s).1.db := by
  have hdb : (ship e troubles s { SyncOutcome.zero with skipped := left_out e s.db }
    ((outgoing e s.db).map (fun o _ => o))).1.db = s.db := ship_db ..
  unfold push
  rcases hship : ship e troubles s { SyncOutcome.zero with skipped := left_out e s.db }
    ((outgoing e s.db).map (fun o _ => o)) with ⟨s₁, err | out⟩
  · rw [hship] at hdb
    dsimp only at hdb ⊢
    rw [hdb]
    exact same_apps s.db
  · rw [hship] at hdb
    dsimp only at hdb ⊢
    rw [← hdb]
    unfold push_app_crdts
    split
    · exact ⟨rfl, rfl, rfl, rfl, rfl⟩
    · rw [ship_db]
      exact ⟨rfl, rfl, rfl, rfl, rfl⟩

end pai_sync.backup
