-- Devices that share an app through one folder and move it among them (backup.rs, `apps
-- migrate`): what each pull and each push of a device does to the app's row.
import PersonalAi.MigrationRuns
import PersonalAi.RowConvergence

open pai_core sealing table text pai_sync.engine

namespace pai_sync.backup

/-! ## Devices with an app -/

/-- The devices, and the package that all of them have installed and accept. -/
structure Homes extends Fleet where
  shelf : Shelf
  app : String
  files : List AppFileEntry
  signature : String ⊕ Bytes
  accepts : ∀ d ∈ devices, ∀ p : AppPayload, p.files = files → p.signature_b64 = signature →
    ∃ signer, (env d).stage_verdict (peers d) p app = .ok (.Installed signer)

/-- What a device does: a routine backup, a migration to some device, a rescue, a push, or a
pull of the folder. -/
inductive Step
  | create (d : DeviceId) (now : Timestamp)
  | migrate (d target : DeviceId) (snapshot_at placed_at : Timestamp)
  | rescue (d : DeviceId) (now : Timestamp)
  | push (d : DeviceId) (now : Timestamp)
  | pull (d : DeviceId) (listing : List Object)

def Step.device : Step → DeviceId
  | .create d _ | .migrate d _ _ _ | .rescue d _ | .push d _ | .pull d _ => d

/-- The clock readings of a step. -/
def Step.clock : Step → List Timestamp
  | .create _ now | .rescue _ now | .push _ now => [now]
  | .migrate _ _ snapshot_at placed_at => [snapshot_at, placed_at]
  | .pull _ _ => []

/-- The clock is one for all, and never reads the same time twice. -/
def Ticks (steps : List Step) : Prop := (steps.flatMap Step.clock).Pairwise (· < ·)

/-- What a step does to the store of its device, but for a push and a pull. -/
def Homes.command (c : Homes) (db : Db) : Step → Db
  | .create d now => (backup.create c.shelf d db c.app none now).1
  | .migrate d target snapshot_at placed_at =>
    (backup.migrate c.shelf d db c.app target snapshot_at placed_at .Deactivated).1
  | .rescue d now => (backup.rescue (c.env d) d db c.app now).1
  | .push _ _ | .pull _ _ => db

def Homes.step (c : Homes) (n : Net) : Step → Net
  | .push d now => n.put d (engine.push (c.engine_of d) now (fun _ => none) (n.site d)).1
  | .pull d listing =>
    n.put d { n.site d with
      toLocal := (engine.pull (c.engine_of d) (n.locals d) (View.of listing)).1 }
  | a =>
    n.put a.device { n.site a.device with
      toLocal := { n.locals a.device with db := c.command (n.locals a.device).db a } }

def Homes.run (c : Homes) (n : Net) (steps : List Step) : Net := steps.foldl c.step n

/-- A condition on every step of a run and the state before it. -/
def Homes.Along (c : Homes) (P : Net → Step → Prop) : Net → List Step → Prop
  | _, [] => True
  | n, a :: steps => P n a ∧ c.Along P (c.step n a) steps

/-- The device takes part, and a pull sees the folder, in any order. -/
def Homes.Takes (c : Homes) (n : Net) (a : Step) : Prop :=
  a.device ∈ c.devices ∧
    match a with
    | .pull _ listing => listing.Perm n.stored
    | _ => True

/-- The device that a step gives the app to, where it goes through. -/
def Homes.claim (c : Homes) (n : Net) : Step → Option DeviceId
  | .migrate d target snapshot_at placed_at =>
    if (backup.migrate c.shelf d (n.locals d).db c.app target snapshot_at placed_at .Deactivated).2.isOk
    then some target else none
  | .rescue d now =>
    if (backup.rescue (c.env d) d (n.locals d).db c.app now).2.isOk then some d else none
  | _ => none

/-- The target of the latest claim of a run. -/
def Homes.latest (c : Homes) : Net → List Step → Option DeviceId → Option DeviceId
  | _, [], before => before
  | n, a :: steps, before => c.latest (c.step n a) steps ((c.claim n a).or before)

/-- No push changes anything any more, and no pull, which goes through. -/
def Homes.Quiet (c : Homes) (n : Net) : Prop :=
  ∀ d ∈ c.devices,
    (∃ now, (engine.push (c.engine_of d) now (fun _ => none) (n.site d)).1 = n.site d) ∧
    ∃ listing out, listing.Perm n.stored ∧
      engine.pull (c.engine_of d) (n.locals d) (View.of listing) = (n.locals d, .ok out)

/-! ## The condition -/

/-- The row of the app. -/
def row_of_app (c : Homes) (n : Net) (d : DeviceId) : Option AppRow := (n.locals d).db.apps.lookup c.app

def Homes.key (c : Homes) : String := APP_PREFIX ++ c.app

/-- The version is above every device's row and above the object in the folder. -/
def Above (c : Homes) (n : Net) (version : Nat) : Prop :=
  (∀ d ∈ c.devices, ∀ row, row_of_app c n d = some row → version_of row.updated_at < version) ∧
    ∀ o, n.remote.lookup c.key = some o → o.version < version

/-- The device's row has a version that its mirror has not. -/
def Unshipped (c : Homes) (n : Net) (d : DeviceId) (row : AppRow) : Prop :=
  row_of_app c n d = some row ∧ mirror_version (n.locals d) c.key < version_of row.updated_at

/-- A claim leaves the newest row, also the one that a rescue takes from its backup; a push
covers no newer object; a pull leaves a row that is not shipped, unless it brings an object as
new. -/
def Homes.Clean (c : Homes) (n : Net) : Step → Prop
  | .create _ _ => True
  | .migrate d _ _ placed_at =>
    active_elsewhere (n.locals d).db d c.app = none → Above c n (version_of placed_at)
  | .rescue d now =>
    Above c n (version_of now) ∧
      ∀ writer p, newest_backup (n.locals d).db c.app = some writer →
        (n.locals d).db.paks.lookup (c.app, writer) = some p →
        Above c n (version_of p.package.updated_at)
  | .push d _ =>
    ∀ row, Unshipped c n d row →
      ∀ o, n.remote.lookup c.key = some o → o.version ≤ version_of row.updated_at
  | .pull d listing =>
    ∀ row, Unshipped c n d row →
      let objects := pending (c.engine_of d) (n.locals d) (View.of listing)
      (∀ o ∈ objects, o.key = c.key → version_of row.updated_at ≤ o.version) ∧
        ((∃ o ∈ objects, flagged (c.engine_of d) c.app o = true) → ∃ o ∈ objects, o.key = c.key)

/-! ## A device with the app -/

/-- The package, with the row of some device. -/
structure Brings (c : Homes) (o : Object) (p : AppPayload) : Prop where
  opens : open_with (.vault c.vault) o.key o.ciphertext = some (.app p)
  live : o.tombstone = false
  v : p.v = 1
  id : p.id = c.app
  files : p.files = c.files
  signature : p.signature_b64 = c.signature
  version : o.version = version_of p.updated_at

/-- The backup holds the package. -/
def Packed (c : Homes) (p : BackupPayload) : Prop :=
  p.package.files = c.files ∧ p.package.signature_b64 = c.signature

/-- The live pak of a `bkp/` object. -/
def pak_of (vault : VaultKey) (o : Object) : Option BackupPayload :=
  match parse_key o.key, o.tombstone, open_with (.vault vault) o.key o.ciphertext with
  | .backup _, false, some (.backup p) => some p
  | _, _, _ => none

/-- An object as the devices seal it. -/
structure Honest (c : Homes) (o : Object) : Prop where
  source : ∀ e : SyncEngine, e.vault = c.vault → FromSource e o
  app : o.key = c.key → ∃ p, Brings c o p
  packed : ∀ p, pak_of c.vault o = some p → p.app_id = c.app → Packed c p

/-- The app is installed on the device. -/
structure Fit (c : Homes) (d : DeviceId) (db : Db) : Prop where
  peers : db.sync_peers = c.peers d
  row : ∃ row, db.apps.lookup c.app = some row ∧ row.deleted = false
  dir : ∃ dir, db.app_dirs.lookup c.app = some dir ∧ dir.files = c.files ∧
    dir.signature = c.signature
  packed : ∀ key p, db.paks.lookup key = some p → p.app_id = c.app → Packed c p

/-- The paks that the device wrote were there before. -/
def OwnPaks (d : DeviceId) (db db' : Db) : Prop :=
  ∀ id p, db'.paks.lookup (id, d.to_string) = some p → db.paks.lookup (id, d.to_string) = some p

variable {c : Homes} {d : DeviceId} {db db' : Db}

theorem key_parses (c : Homes) : parse_key c.key = .app c.app := parse_app c.app

theorem Fit.accepts (h : Fit c d db) (hd : d ∈ c.devices) {p : AppPayload} (hfiles : p.files = c.files)
    (hsignature : p.signature_b64 = c.signature) : Accepts (c.env d) db p c.app := by
  obtain ⟨signer, hverdict⟩ := c.accepts d hd p hfiles hsignature
  exact ⟨signer, by rw [h.peers]; exact hverdict⟩

theorem Fit.same (h : Fit c d db) (hsame : SameApps db db') : Fit c d db' where
  peers := hsame.sync_peers.trans h.peers
  row := by rw [hsame.apps]; exact h.row
  dir := by rw [hsame.app_dirs]; exact h.dir
  packed := by rw [hsame.paks]; exact h.packed

/-- Nothing of the app changes but for its row, which stays live. -/
theorem Fit.keeps (h : Fit c d db) (hpeers : db'.sync_peers = db.sync_peers)
    (hrow : ∃ row, db'.apps.lookup c.app = some row ∧ row.deleted = false)
    (hdir : db'.app_dirs.lookup c.app = db.app_dirs.lookup c.app)
    (hpaks : ∀ key p, db'.paks.lookup key = some p → p.app_id = c.app →
      db.paks.lookup key = some p ∨ Packed c p) : Fit c d db' where
  peers := hpeers.trans h.peers
  row := hrow
  dir := by rw [hdir]; exact h.dir
  packed := by
    intro key p hp hid
    rcases hpaks key p hp hid with hold | hnew
    · exact h.packed key p hold hid
    · exact hnew

theorem Fit.takes {me : DeviceId} (h : Fit c d db) {p : AppPayload} (htakes : TakesApp me db p db')
    (hp : p.id = c.app → p.files = c.files ∧ p.signature_b64 = c.signature) : Fit c d db' := by
  refine ⟨htakes.sync_peers.trans h.peers, ?_, ?_, by rw [htakes.paks]; exact h.packed⟩
  · rw [htakes.apps]
    by_cases hid : c.app = p.id
    · rw [hid, AList.lookup_insert]
      exact ⟨_, rfl, rfl⟩
    · rw [AList.lookup_insert_ne hid]
      exact h.row
  · by_cases hid : c.app = p.id
    · obtain ⟨dir, hdir, hfiles, hsignature, -⟩ := htakes.dir
      obtain ⟨hpfiles, hpsignature⟩ := hp hid.symm
      rw [hid]
      exact ⟨dir, hdir, hfiles.trans hpfiles, hsignature.trans hpsignature⟩
    · rw [htakes.dirs c.app hid]
      exact h.dir

theorem Fit.restores (h : Fit c d db) {env : Env} {app_id : String} {p : BackupPayload}
    (hrestores : RestoresApp env db app_id p db') (hp : app_id = c.app → Packed c p) : Fit c d db' := by
  refine ⟨hrestores.sync_peers.trans h.peers, ?_, ?_, by rw [hrestores.paks]; exact h.packed⟩
  · rw [hrestores.apps]
    by_cases hid : c.app = app_id
    · rw [hid, AList.lookup_insert]
      refine ⟨_, rfl, ?_⟩
      unfold restored_row
      split <;> rfl
    · rw [AList.lookup_insert_ne hid]
      exact h.row
  · by_cases hid : c.app = app_id
    · obtain ⟨data, dir, hdir, hfiles, hsignature, -⟩ := hrestores.dir
      obtain ⟨hpfiles, hpsignature⟩ := hp hid.symm
      rw [hid]
      exact ⟨dir, hdir, hfiles.trans hpfiles, hsignature.trans hpsignature⟩
    · rw [hrestores.dirs c.app hid]
      exact h.dir

theorem pak_of_eq {vault : VaultKey} {o : Object} {rest : String} {p : BackupPayload}
    (hkey : parse_key o.key = .backup rest) (hlive : o.tombstone = false)
    (hopen : open_with (.vault vault) o.key o.ciphertext = some (.backup p)) :
    pak_of vault o = some p := by
  unfold pak_of
  rw [hkey, hlive, hopen]

/-! ## One turn of a pull -/

/-- What the turn of an object does that is not the app's own. -/
inductive OtherTurn (c : Homes) (d : DeviceId) (db : Db) (o : Object) (db' : Db) : Prop
  | same (row : db'.apps.lookup c.app = db.apps.lookup c.app)
  | restored {p : BackupPayload} {old new : AppRow} (pak : pak_of c.vault o = some p)
      (id : p.app_id = c.app) (flag : p.migrate_to = some d.to_string)
      (was : db.apps.lookup c.app = some old) (now : db'.apps.lookup c.app = some new)
      (active : new.active_device = old.active_device)
      (updated : new.updated_at = p.package.updated_at)

theorem other_turn (hfit : Fit c d db) {o : Object} (ho : Honest c o) (hkey : o.key ≠ c.key)
    (hwriter : o.writer ≠ d) :
    let after := (open_and_apply (c.engine_of d) db o).1
    Fit c d after ∧ OwnPaks d db after ∧ OtherTurn c d db o after := by
  intro after
  have hturn : AppTurn (c.engine_of d) db o after := app_turn (c.engine_of d) db o
  have hsource := ho.source (c.engine_of d) rfl
  clear_value after
  have hother : ∀ id, parse_key o.key = .app id → c.app ≠ id := by
    rintro id hparse rfl
    have hname := names_parse_key o.key
    rw [hparse] at hname
    exact hkey hname
  have hkeeps : ∀ db' : Db, SameApps db db' → Fit c d db' ∧ OwnPaks d db db' ∧ OtherTurn c d db o db' := by
    intro db' hsame
    refine ⟨hfit.same hsame, fun id p hp => ?_, .same (by rw [hsame.apps])⟩
    rwa [hsame.paks] at hp
  cases hturn with
  | other hsame => exact hkeeps _ hsame
  | @app id p circle hparse hlive hopen =>
    obtain ⟨raw, hraw, hpayload⟩ := hsource.app id hparse
    have hsame := open_scoped_of_vault hraw hopen
    subst hsame
    obtain ⟨q, hq, -, hid⟩ := hpayload hlive
    rw [Plain.app.injEq] at hq
    subst hq hid
    rcases apply_app_cases (c.engine_of d).env (c.engine_of d).device db p with hsame | ⟨-, -, htakes⟩
    · exact hkeeps _ hsame
    · refine ⟨hfit.takes htakes (fun h => absurd h.symm (hother _ hparse)), fun i q hq => ?_,
        .same ?_⟩
      · rwa [htakes.paks] at hq
      · rw [htakes.apps]
        exact AList.lookup_insert_ne (hother _ hparse)
  | @gone id hparse =>
    obtain ⟨happs, hdirs, -, hpaks, hpeers⟩ := apply_app_tombstone_cases db id o.updated_at
    have hrow := (happs c.app).trans (if_neg (hother _ hparse))
    refine ⟨hfit.keeps hpeers (by rw [hrow]; exact hfit.row) ?_ (fun key q hq _ => .inl ?_),
      fun i q hq => ?_, .same hrow⟩
    · rcases hdirs c.app with hsame | ⟨hid, -⟩
      · exact hsame
      · exact absurd hid (hother _ hparse)
    · rwa [hpaks] at hq
    · rwa [hpaks] at hq
  | @restored rest app_id writer p circle hparse hsplit hlive hopen =>
    obtain ⟨raw, hraw⟩ := hsource.bkp _ hparse
    have hsame := open_scoped_of_vault hraw hopen
    subst hsame
    have hpak : pak_of c.vault o = some p := pak_of_eq hparse hlive hraw
    rcases apply_backup_cases (c.engine_of d).env (c.engine_of d).device db (String.ofList app_id)
      (String.ofList writer) o.writer p with hsame | ⟨⟨-, hid, -, howner⟩, hresult⟩
    · exact hkeeps _ hsame
    · let held := stored db (String.ofList app_id) (String.ofList writer) p
      have hheld : Fit c d held := by
        refine hfit.keeps rfl hfit.row rfl (fun key q hq happ => ?_)
        change (db.paks.insert _ p).lookup key = some q at hq
        rw [lookup_insert_if] at hq
        split at hq
        · cases hq
          exact .inr (ho.packed p hpak happ)
        · exact .inl hq
      have hown : OwnPaks d db held := by
        intro i q hq
        have hne : (i, d.to_string) ≠ (String.ofList app_id, String.ofList writer) := by
          intro heq
          rw [Prod.mk.injEq, ← howner] at heq
          exact hwriter (congrArg DeviceId.mk heq.2).symm
        change (db.paks.insert _ p).lookup (i, d.to_string) = some q at hq
        rwa [AList.lookup_insert_ne hne] at hq
      rw [hresult]
      split
      · rename_i hflag
        rcases restore_unchecked_cases (c.engine_of d).env held (String.ofList app_id)
          (String.ofList writer) with ⟨hunchanged, -⟩ | ⟨q, hfinds, hrestores⟩
        · rw [hunchanged]
          exact ⟨hheld, hown, .same rfl⟩
        · have hq : q = p := by
            have hlookup := hfinds.2.1
            change (db.paks.insert _ p).lookup _ = some q at hlookup
            rw [AList.lookup_insert, Option.some.injEq] at hlookup
            exact hlookup.symm
          subst hq
          refine ⟨hheld.restores hrestores (fun happ => ho.packed q hpak (hid.trans happ)), ?_, ?_⟩
          · intro i x hx
            rw [hrestores.paks] at hx
            exact hown i x hx
          · by_cases happ : c.app = String.ofList app_id
            · obtain ⟨old, hold, -⟩ := hfit.row
              have hrow : restored_row held.apps c.app q.package = app_row q.package old.active_device := by
                unfold restored_row
                rw [show held.apps.lookup c.app = some old from hold]
              have hnew : (restore_unchecked (c.engine_of d).env held (String.ofList app_id)
                  (String.ofList writer)).1.apps.lookup c.app =
                  some (app_row q.package old.active_device) := by
                rw [hrestores.apps, ← happ, hrow]
                exact AList.lookup_insert _
              exact .restored hpak (hid.trans happ.symm) hflag hold hnew rfl rfl
            · refine .same ?_
              rw [hrestores.apps]
              exact AList.lookup_insert_ne happ
      · exact ⟨hheld, hown, .same rfl⟩
  | @dropped app_id writer =>
    have hpaks : ∀ key q, (apply_backup_tombstone db app_id writer).1.paks.lookup key = some q →
        db.paks.lookup key = some q := by
      intro key q hq
      change (db.paks.erase (app_id, writer)).lookup key = some q at hq
      rw [lookup_erase_if] at hq
      split at hq
      · cases hq
      · exact hq
    exact ⟨hfit.keeps rfl hfit.row rfl (fun key q hq _ => .inl (hpaks key q hq)),
      fun i q hq => hpaks _ q hq, .same rfl⟩

/-- The turn of the app's own object goes through, and the row is what it says. -/
theorem own_turn (hfit : Fit c d db) (hd : d ∈ c.devices) {o : Object} {p : AppPayload}
    (hkey : o.key = c.key) (hp : Brings c o p) :
    ∃ after, open_and_apply (c.engine_of d) db o = (after, .ok true) ∧ Fit c d after ∧
      OwnPaks d db after ∧ after.apps.lookup c.app = some (app_row p p.active_device) := by
  obtain ⟨hok, htakes⟩ := @apply_app_accepted (c.env d) db p d hp.v
    (by rw [hp.id]; exact hfit.accepts hd hp.files hp.signature)
  have hgrant : ( strip_prefix CKG_PREFIX o.key).isSome = false := by
    rw [hkey, show c.key = APP_PREFIX ++ c.app from rfl, strip_prefix_other (by decide) (by decide)]
    rfl
  have hparse : parse_key o.key = .app c.app := by rw [hkey, key_parses]
  have hraw : open_with (.vault (c.engine_of d).vault) o.key o.ciphertext = some (.app p) := hp.opens
  refine ⟨(apply_app (c.env d) d db p).1, ?_, ?_, ?_, ?_⟩
  · unfold open_and_apply open_scoped apply_obj
    rw [hgrant, hraw, hparse, hp.live]
    rcases happly : apply_app (c.env d) d db p with ⟨after, err | _⟩
    · rw [happly] at hok
      cases hok
    · simp only [Bool.false_eq_true, if_false]
      rw [show apply_app (c.engine_of d).env (c.engine_of d).device db p = (after, .ok ()) from happly]
  · exact hfit.takes htakes (fun _ => ⟨hp.files, hp.signature⟩)
  · intro i q hq
    rwa [htakes.paks] at hq
  · rw [htakes.apps, hp.id]
    exact AList.lookup_insert _

/-! ## A whole pull -/

/-- What a pull of these objects makes of the row and of the mirror: the versions that it
brings are up to the bound. -/
inductive Pulled (c : Homes) (d : DeviceId) (l : Local) (objects : List Object) (bound : Nat)
    (r : Local × Except Error SyncOutcome) : Prop
  | stays (row : r.1.db.apps.lookup c.app = l.db.apps.lookup c.app)
      (mirror : mirror_version r.1 c.key = mirror_version l c.key)
      (none_left : r.2.isOk = true → ∀ o ∈ objects, o.key ≠ c.key)
  | restored {old new : AppRow} (brought : ∃ o ∈ objects, flagged (c.engine_of d) c.app o = true)
      (alone : ∀ o ∈ objects, o.key ≠ c.key) (was : l.db.apps.lookup c.app = some old)
      (now : r.1.db.apps.lookup c.app = some new) (active : new.active_device = old.active_device)
      (updated : version_of new.updated_at ≤ bound)
      (mirror : mirror_version r.1 c.key = mirror_version l c.key)
  | took {o : Object} {p : AppPayload} {new : AppRow} (mem : o ∈ objects) (key : o.key = c.key)
      (brings : Brings c o p) (now : r.1.db.apps.lookup c.app = some new)
      (active : new.active_device = p.active_device) (updated : version_of new.updated_at ≤ bound)
      (mirror : mirror_version r.1 c.key = o.version)

/-- No object brings a version of the app above the bound. -/
def Bounded (c : Homes) (bound : Nat) (o : Object) : Prop :=
  (o.key = c.key → o.version ≤ bound) ∧
    ∀ p, pak_of c.vault o = some p → p.app_id = c.app → p.migrate_to.isSome →
      version_of p.package.updated_at ≤ bound

theorem pak_of_key {vault : VaultKey} {o : Object} {p : BackupPayload} (h : pak_of vault o = some p) :
    ∃ rest, parse_key o.key = .backup rest := by
  unfold pak_of at h
  split at h
  · rename_i rest _ hkey _ _
    exact ⟨rest, hkey⟩
  · cases h

theorem flagged_of_pak {o : Object} {p : BackupPayload} (h : pak_of c.vault o = some p)
    (hid : p.app_id = c.app) (hflag : p.migrate_to = some d.to_string) :
    flagged (c.engine_of d) c.app o = true := by
  unfold pak_of at h
  split at h
  · rename_i rest q hkey hlive hopen
    cases h
    unfold flagged
    rw [show (c.engine_of d).vault = c.vault from rfl, hkey, hlive, hopen]
    simp [hid, hflag, show (c.engine_of d).device = d from rfl]
  · cases h

variable {bound : Nat} {l : Local}

/-- An object that is not the app's own, before the others. -/
theorem Pulled.behind {l' : Local} {o : Object} {rest : List Object}
    {r : Local × Except Error SyncOutcome} (hkey : o.key ≠ c.key) (hbound : Bounded c bound o)
    (hmirror : mirror_version l' c.key = mirror_version l c.key) (hturn : OtherTurn c d l.db o l'.db)
    (horder : ∀ p, pak_of c.vault o = some p → ∀ x ∈ rest, x.key ≠ c.key)
    (h : Pulled c d l' rest bound r) : Pulled c d l (o :: rest) bound r := by
  have halone : (∀ x ∈ rest, x.key ≠ c.key) → ∀ x ∈ o :: rest, x.key ≠ c.key := by
    intro hrest x hx
    rcases List.mem_cons.mp hx with rfl | hx
    · exact hkey
    · exact hrest x hx
  cases hturn with
  | same hrow =>
    cases h with
    | stays hrow' hmirror' hleft =>
      exact .stays (hrow'.trans hrow) (hmirror'.trans hmirror) (fun hok => halone (hleft hok))
    | restored hbrought hnone hwas hnow hactive hupdated hmirror' =>
      obtain ⟨x, hx, hflag⟩ := hbrought
      exact .restored ⟨x, List.mem_cons_of_mem _ hx, hflag⟩ (halone hnone) (hrow ▸ hwas) hnow hactive
        hupdated (hmirror'.trans hmirror)
    | took hmem hxkey hbrings hnow hactive hupdated hmirror' =>
      exact .took (List.mem_cons_of_mem _ hmem) hxkey hbrings hnow hactive hupdated hmirror'
  | @restored p old new hpak hid hflag hwas hnow hactive hupdated =>
    -- the app's object would have come before this backup
    have hnone := horder p hpak
    have hbrought : ∃ x ∈ o :: rest, flagged (c.engine_of d) c.app x = true :=
      ⟨o, List.mem_cons_self, flagged_of_pak hpak hid hflag⟩
    have hle : version_of new.updated_at ≤ bound := by
      rw [hupdated]
      exact hbound.2 p hpak hid (by rw [hflag]; rfl)
    cases h with
    | stays hrow' hmirror' _ =>
      exact .restored hbrought (halone hnone) hwas (hrow'.trans hnow) hactive hle
        (hmirror'.trans hmirror)
    | restored _ _ hwas' hnow' hactive' hupdated' hmirror' =>
      rw [hnow, Option.some.injEq] at hwas'
      subst hwas'
      exact .restored hbrought (halone hnone) hwas hnow' (hactive'.trans hactive) hupdated'
        (hmirror'.trans hmirror)
    | took hmem hxkey _ _ _ _ _ => exact absurd hxkey (hnone _ hmem)

/-- The app's own object, before the others. -/
theorem Pulled.own {l' : Local} {o : Object} {p : AppPayload} {rest : List Object}
    {r : Local × Except Error SyncOutcome} (hkey : o.key = c.key) (hbound : Bounded c bound o)
    (hp : Brings c o p) (hrow : l'.db.apps.lookup c.app = some (app_row p p.active_device))
    (hmirror : mirror_version l' c.key = o.version) (hrest : ∀ x ∈ rest, x.key ≠ c.key)
    (h : Pulled c d l' rest bound r) : Pulled c d l (o :: rest) bound r := by
  have hmem : o ∈ o :: rest := List.mem_cons_self
  cases h with
  | stays hrow' hmirror' _ =>
    refine .took hmem hkey hp (hrow'.trans hrow) rfl ?_ (hmirror'.trans hmirror)
    exact hp.version ▸ hbound.1 hkey
  | restored _ _ hwas hnow hactive hupdated hmirror' =>
    rw [hrow, Option.some.injEq] at hwas
    subst hwas
    exact .took hmem hkey hp hnow hactive hupdated (hmirror'.trans hmirror)
  | took hx hxkey _ _ _ _ _ => exact absurd hxkey (hrest _ hx)

theorem OwnPaks.trans {a b e : Db} (hab : OwnPaks d a b) (hbe : OwnPaks d b e) : OwnPaks d a e :=
  fun id p hp => hab id p (hbe id p hp)

theorem mirror_version_set_other (l : Local) {o : Object} {key : String} (h : o.key ≠ key) :
    mirror_version (set_mirror l o) key = mirror_version l key := by
  rw [mirror_version_set, if_neg (Ne.symm h)]

theorem pulled (hd : d ∈ c.devices) {objects : List Object}
    (hhonest : ∀ o ∈ objects, Honest c o ∧ o.writer ≠ d ∧ Bounded c bound o)
    (hkeys : (objects.map SyncObject.key).Nodup)
    (horder : objects.Pairwise (fun a b =>
      ∀ id rest, parse_key b.key = .app id → parse_key a.key ≠ .backup rest))
    (hfit : Fit c d l.db) (out : SyncOutcome) :
    let r := apply_pending (c.engine_of d) l out objects
    Fit c d r.1.db ∧ OwnPaks d l.db r.1.db ∧ Pulled c d l objects bound r := by
  induction objects generalizing l out with
  | nil => exact ⟨hfit, fun _ _ hp => hp, .stays rfl rfl (fun _ => by simp)⟩
  | cons o rest ih =>
    intro r
    obtain ⟨ho, hwriter, hbound⟩ := hhonest o List.mem_cons_self
    have hrest := fun x hx => hhonest x (List.mem_cons_of_mem o hx)
    rw [List.map_cons, List.nodup_cons] at hkeys
    rw [List.pairwise_cons] at horder
    by_cases hkey : o.key = c.key
    · obtain ⟨p, hp⟩ := ho.app hkey
      obtain ⟨after, hresult, hafter, hown, hrow⟩ := own_turn hfit hd hkey hp
      have hr : r = apply_pending (c.engine_of d) (set_mirror { l with db := after } o)
          { out with pulled := out.pulled + 1 } rest := by
        change apply_pending _ _ _ (o :: rest) = _
        rw [apply_pending, pull_one, hresult]
      obtain ⟨hfit', hown', hpulled⟩ := ih hrest hkeys.2 horder.2
        (l := set_mirror { l with db := after } o) hafter { out with pulled := out.pulled + 1 }
      rw [← hr] at hfit' hown' hpulled
      refine ⟨hfit', hown.trans hown', hpulled.own hkey hbound hp hrow ?_ ?_⟩
      · rw [mirror_version_set, if_pos hkey.symm]
      · intro x hx hxkey
        exact hkeys.1 (List.mem_map.mpr ⟨x, hx, hxkey.trans hkey.symm⟩)
    · obtain ⟨hafter, hown, hturn⟩ := other_turn hfit ho hkey hwriter
      have hnone : ∀ p, pak_of c.vault o = some p → ∀ x ∈ rest, x.key ≠ c.key := by
        intro p hpak x hx hxkey
        obtain ⟨tail, hbackup⟩ := pak_of_key hpak
        exact horder.1 x hx c.app tail (by rw [hxkey, key_parses]) hbackup
      have hbehind : ∀ l' : Local, l'.db = (open_and_apply (c.engine_of d) l.db o).1 →
          mirror_version l' c.key = mirror_version l c.key →
          Pulled c d l' rest bound r → Pulled c d l (o :: rest) bound r := by
        intro l' hdb hmirror h
        exact h.behind hkey hbound hmirror (hdb ▸ hturn) hnone
      rcases hresult : open_and_apply (c.engine_of d) l.db o with ⟨after, err | _ | _⟩
      · have hr : r = ({ l with db := after }, .error err) := by
          change apply_pending _ _ _ (o :: rest) = _
          rw [apply_pending, pull_one, hresult]
        rw [hresult] at hafter hown
        refine ⟨hr ▸ hafter, hr ▸ hown, hbehind { l with db := after } (by rw [hresult]) rfl ?_⟩
        rw [hr]
        exact .stays rfl rfl (fun hok => by cases hok)
      · have hr : r = apply_pending (c.engine_of d) { l with db := after }
            { out with skipped := out.skipped + 1 } rest := by
          change apply_pending _ _ _ (o :: rest) = _
          rw [apply_pending, pull_one, hresult]
        rw [hresult] at hafter hown
        obtain ⟨hfit', hown', hpulled⟩ := ih hrest hkeys.2 horder.2 (l := { l with db := after }) hafter
          { out with skipped := out.skipped + 1 }
        rw [← hr] at hfit' hown' hpulled
        exact ⟨hfit', hown.trans hown', hbehind { l with db := after } (by rw [hresult]) rfl hpulled⟩
      · have hr : r = apply_pending (c.engine_of d) (set_mirror { l with db := after } o)
            { out with pulled := out.pulled + 1 } rest := by
          change apply_pending _ _ _ (o :: rest) = _
          rw [apply_pending, pull_one, hresult]
        rw [hresult] at hafter hown
        obtain ⟨hfit', hown', hpulled⟩ := ih hrest hkeys.2 horder.2
          (l := set_mirror { l with db := after } o) hafter { out with pulled := out.pulled + 1 }
        rw [← hr] at hfit' hown' hpulled
        exact ⟨hfit', hown.trans hown', hbehind (set_mirror { l with db := after } o)
          (by rw [hresult]; rfl) (mirror_version_set_other { l with db := after } hkey) hpulled⟩

/-! ## What a push leaves -/

/-- The site with one more object shipped. -/
def shipped (e : SyncEngine) (s : Site) (x : Outgoing) : Site :=
  { toLocal := set_mirror s.toLocal (x.object e.device),
    remote := s.remote.insert x.key (x.object e.device) }

theorem shipped_lookup (e : SyncEngine) (s : Site) (x : Outgoing) (key : String) :
    (shipped e s x).remote.lookup key =
      if key = x.key then some (x.object e.device) else s.remote.lookup key :=
  lookup_insert_if s.remote x.key key (x.object e.device)

theorem shipped_mirror (e : SyncEngine) (s : Site) (x : Outgoing) (key : String) :
    mirror_version (shipped e s x).toLocal key =
      if key = x.key then x.version else mirror_version s.toLocal key :=
  mirror_version_set s.toLocal (x.object e.device) key

/-- What each shipped object keeps, a list of them keeps. -/
theorem ship_keeps {e : SyncEngine} {I : Site → Prop} {items : List (Site → Outgoing)}
    (h : ∀ item ∈ items, ∀ s, I s → ¬ (item s).version ≤ mirror_version s.toLocal (item s).key →
      I (shipped e s (item s))) {s : Site} (hs : I s) (out : SyncOutcome) :
    I (ship e (fun _ => none) s out items).1 := by
  induction items generalizing s out with
  | nil => exact hs
  | cons item rest ih =>
    have hrest := fun x hx => h x (List.mem_cons_of_mem item hx)
    unfold ship push_sealed
    by_cases hold : (item s).version ≤ mirror_version s.toLocal (item s).key
    · rw [if_pos hold]
      exact ih hrest hs _
    · rw [if_neg hold]
      exact ih hrest (h item List.mem_cons_self s hs hold) _

/-- The documents, behind the rows. -/
theorem push_app_crdts_keeps {e : SyncEngine} {I : Site → Prop} (now : Timestamp)
    (hdocs : ∀ item s, I s → I (shipped e s (outgoing_doc e now item s)))
    (hstore : ∀ s docs, I s → I { s with db := { s.db with docs := docs } }) {s : Site} (hs : I s)
    (out : SyncOutcome) : I (push_app_crdts e now (fun _ => none) s out).1 := by
  unfold push_app_crdts
  split
  · exact hstore s _ hs
  · refine ship_keeps ?_ (hstore s _ hs) out
    intro f hf s' hs' _
    obtain ⟨item, -, rfl⟩ := List.mem_map.mp hf
    exact hdocs item s' hs'

theorem push_keeps {e : SyncEngine} {I : Site → Prop} (now : Timestamp) {s : Site}
    (hrows : ∀ x ∈ outgoing e s.db, ∀ s', I s' → ¬ x.version ≤ mirror_version s'.toLocal x.key →
      I (shipped e s' x))
    (hdocs : ∀ item s', I s' → I (shipped e s' (outgoing_doc e now item s')))
    (hstore : ∀ s' docs, I s' → I { s' with db := { s'.db with docs := docs } }) (hs : I s) :
    I (push e now (fun _ => none) s).1 := by
  have hship : I (ship e (fun _ => none) s { SyncOutcome.zero with skipped := left_out e s.db }
      ((outgoing e s.db).map (fun o _ => o))).1 := by
    refine ship_keeps ?_ hs _
    intro f hf s' hs' hnew
    obtain ⟨x, hx, rfl⟩ := List.mem_map.mp hf
    exact hrows x hx s' hs' hnew
  unfold push
  rcases hresult : ship e (fun _ => none) s { SyncOutcome.zero with skipped := left_out e s.db }
    ((outgoing e s.db).map (fun o _ => o)) with ⟨s₁, err | out⟩
  · rw [hresult] at hship
    exact hship
  · rw [hresult] at hship
    exact push_app_crdts_keeps now hdocs hstore hship out

theorem doc_key_ne {e : SyncEngine} {x : Outgoing} (hx : x ∈ outgoing e db) (now : Timestamp)
    (item : crdt.Collected) (s : Site) : x.key ≠ (outgoing_doc e now item s).key := by
  intro hkey
  apply outgoing_key hx
  rw [hkey]
  exact crdt_key_parses e.device item.app item.doc

/-- A push leaves the mirror of what it ships at the version or above. -/
theorem push_reaches {e : SyncEngine} (now : Timestamp) {s : Site} {x : Outgoing}
    (hx : x ∈ outgoing e s.db) :
    x.version ≤ mirror_version (push e now (fun _ => none) s).1.toLocal x.key := by
  obtain ⟨s₁, out, hship, -, hreached⟩ := ship_mirrors e s
    { SyncOutcome.zero with skipped := left_out e s.db } (outgoing e s.db)
  unfold push
  rw [hship]
  refine push_app_crdts_keeps (I := fun s' => x.version ≤ mirror_version s'.toLocal x.key) now ?_
    (fun _ _ h => h) (hreached x hx) out
  intro item s' hs'
  rw [shipped_mirror, if_neg (doc_key_ne hx now item s')]
  exact hs'

/-- The one object of a key: a push ships it, unless the mirror has its version. -/
theorem push_slot {e : SyncEngine} (now : Timestamp) {s : Site} {x : Outgoing}
    (hx : x ∈ outgoing e s.db) (honly : ∀ y ∈ outgoing e s.db, y.key = x.key → y = x) :
    let after := (push e now (fun _ => none) s).1
    (x.version ≤ mirror_version s.toLocal x.key ∧
        after.remote.lookup x.key = s.remote.lookup x.key ∧
        mirror_version after.toLocal x.key = mirror_version s.toLocal x.key) ∨
      (mirror_version s.toLocal x.key < x.version ∧
        after.remote.lookup x.key = some (x.object e.device) ∧
        mirror_version after.toLocal x.key = x.version) := by
  intro after
  have hreached : x.version ≤ mirror_version after.toLocal x.key := push_reaches now hx
  have hslot : (after.remote.lookup x.key = s.remote.lookup x.key ∧
        mirror_version after.toLocal x.key = mirror_version s.toLocal x.key) ∨
      (mirror_version s.toLocal x.key < x.version ∧
        after.remote.lookup x.key = some (x.object e.device) ∧
        mirror_version after.toLocal x.key = x.version) := by
    refine push_keeps (I := fun s' => (s'.remote.lookup x.key = s.remote.lookup x.key ∧
        mirror_version s'.toLocal x.key = mirror_version s.toLocal x.key) ∨
      (mirror_version s.toLocal x.key < x.version ∧
        s'.remote.lookup x.key = some (x.object e.device) ∧
        mirror_version s'.toLocal x.key = x.version)) now ?_ ?_ (fun _ _ h => h) (.inl ⟨rfl, rfl⟩)
    · intro y hy s' hs' hnew
      rw [shipped_lookup, shipped_mirror]
      by_cases hkey : y.key = x.key
      · have hsame := honly y hy hkey
        subst hsame
        rw [if_pos rfl, if_pos rfl]
        rcases hs' with ⟨-, hmirror⟩ | ⟨-, -, hmirror⟩
        · exact .inr ⟨by omega, rfl, rfl⟩
        · omega
      · rw [if_neg (Ne.symm hkey), if_neg (Ne.symm hkey)]
        exact hs'
    · intro item s' hs'
      have hkey := doc_key_ne hx now item s'
      rw [shipped_lookup, shipped_mirror, if_neg hkey, if_neg hkey]
      exact hs'
  rcases hslot with ⟨hremote, hmirror⟩ | hnew
  · exact .inl ⟨hmirror ▸ hreached, hremote, hmirror⟩
  · exact .inr hnew

/-- A key that nothing is shipped under. -/
theorem push_leaves {e : SyncEngine} (now : Timestamp) {s : Site} {key : String}
    (hrows : ∀ x ∈ outgoing e s.db, x.key ≠ key) (hdoc : ∀ rest, parse_key key ≠ .crdt rest) :
    let after := (push e now (fun _ => none) s).1
    after.remote.lookup key = s.remote.lookup key ∧
      mirror_version after.toLocal key = mirror_version s.toLocal key := by
  have hother : ∀ (s' : Site) (x : Outgoing), x.key ≠ key →
      (s'.remote.lookup key = s.remote.lookup key ∧
        mirror_version s'.toLocal key = mirror_version s.toLocal key) →
      (shipped e s' x).remote.lookup key = s.remote.lookup key ∧
        mirror_version (shipped e s' x).toLocal key = mirror_version s.toLocal key := by
    intro s' x hne hs'
    rwa [shipped_lookup, shipped_mirror, if_neg (Ne.symm hne), if_neg (Ne.symm hne)]
  refine push_keeps (I := fun s' => s'.remote.lookup key = s.remote.lookup key ∧
    mirror_version s'.toLocal key = mirror_version s.toLocal key) now
    (fun x hx s' hs' _ => hother s' x (hrows x hx) hs') (fun item s' hs' => hother s' _ ?_ hs')
    (fun _ _ h => h) ⟨rfl, rfl⟩
  intro hkey
  apply hdoc
  rw [← hkey]
  exact crdt_key_parses e.device item.app item.doc

/-- A push stores each object under its key. -/
theorem push_keyed (e : SyncEngine) (now : Timestamp) {s : Site}
    (h : ∀ key o, s.remote.lookup key = some o → o.key = key) :
    ∀ key o, (push e now (fun _ => none) s).1.remote.lookup key = some o → o.key = key := by
  have hone : ∀ (s' : Site) (x : Outgoing), (∀ key o, s'.remote.lookup key = some o → o.key = key) →
      ∀ key o, (shipped e s' x).remote.lookup key = some o → o.key = key := by
    intro s' x hs' key o ho
    rw [shipped_lookup] at ho
    split at ho
    · rename_i hkey
      cases ho
      exact hkey.symm
    · exact hs' key o ho
  exact push_keeps (I := fun s' => ∀ key o, s'.remote.lookup key = some o → o.key = key) now
    (fun x _ s' hs' _ => hone s' x hs') (fun item s' hs' => hone s' _ hs') (fun _ _ hs' => hs') h

/-- What push makes of the app, and nothing else has its key. -/
theorem app_outgoing (hfit : Fit c d db) {row : AppRow} (hrow : db.apps.lookup c.app = some row) :
    ∃ x ∈ outgoing (c.engine_of d) db, x.key = c.key ∧ x.version = version_of row.updated_at ∧
      (∀ y ∈ outgoing (c.engine_of d) db, y.key = c.key → y = x) ∧
      ∃ p, Brings c (x.object d) p ∧ p.active_device = row.active_device := by
  obtain ⟨row', hrow', hlive⟩ := hfit.row
  rw [hrow, Option.some.injEq] at hrow'
  subst hrow'
  obtain ⟨dir, hdir, hfiles, hsignature⟩ := hfit.dir
  let x : Outgoing :=
    { key := c.key, sealed_under := .vault c.vault, raw := .app (app_payload_for c.app row dir),
      version := version_of row.updated_at, updated_at := row.updated_at, tombstone := false }
  have hmem : x ∈ outgoing_apps (c.engine_of d) db := by
    refine List.mem_filterMap.mpr ⟨⟨c.app, row⟩, lookup_eq_some.mp hrow, ?_⟩
    dsimp only
    rw [hlive, if_neg Bool.false_ne_true, hdir]
    rfl
  refine ⟨x, by unfold outgoing; simp [hmem], rfl, rfl, fun y hy hkey => ?_,
    app_payload_for c.app row dir, ⟨?_, rfl, rfl, rfl, ?_, ?_, rfl⟩, rfl⟩
  · obtain ⟨row', hships⟩ := outgoing_of_app hy (by rw [hkey, key_parses])
    have hsame := hships.there
    rw [hrow, Option.some.injEq] at hsame
    subst hsame
    obtain ⟨dir', hdir', hraw⟩ := hships.live hlive
    rw [hdir, Option.some.injEq] at hdir'
    subst hdir'
    obtain ⟨key, sealed_under, raw, version, updated_at, tombstone⟩ := y
    have hkeys := hships.sealed_under
    have hversion := hships.version
    have hupdated := hships.updated
    have htombstone := hships.tombstone.trans hlive
    dsimp only at hkey hkeys hversion hupdated htombstone hraw
    subst hkey hkeys hversion hupdated htombstone hraw
    rfl
  · exact open_seal _ _ _
  · exact hfiles
  · exact hsignature

/-- The pak in a `bkp/` object of a device is its own. -/
theorem pak_of_outgoing {x : Outgoing} (hx : x ∈ outgoing (c.engine_of d) db) {p : BackupPayload}
    (hpak : pak_of c.vault (x.object d) = some p) : ∃ id, db.paks.lookup (id, d.to_string) = some p := by
  obtain ⟨rest, hkey⟩ := pak_of_key hpak
  obtain ⟨app_id, hships⟩ := outgoing_of_backup hx hkey
  unfold pak_of at hpak
  split at hpak
  · rename_i _ q _ hlive hopen
    cases hpak
    obtain ⟨p', hp', hraw⟩ := hships.live hlive
    have hseal : open_with (.vault c.vault) (x.object d).key (x.object d).ciphertext = some x.raw := by
      unfold Outgoing.object
      rw [hships.sealed_under]
      exact open_seal _ _ _
    rw [hseal, hraw, Option.some.injEq, Plain.backup.injEq] at hopen
    subst hopen
    exact ⟨app_id, hp'⟩
  · cases hpak

theorem outgoing_honest (hfit : Fit c d db) {x : Outgoing} (hx : x ∈ outgoing (c.engine_of d) db) :
    Honest c (x.object d) := by
  refine ⟨fun e he => (outgoing_from_source (e := c.engine_of d) he hx d).1, fun hkey => ?_,
    fun p hpak hid => ?_⟩
  · obtain ⟨row, hrow, -⟩ := hfit.row
    obtain ⟨x', -, -, -, honly, p, hp, -⟩ := app_outgoing hfit hrow
    rw [honly x hx hkey]
    exact ⟨p, hp⟩
  · obtain ⟨id, hlookup⟩ := pak_of_outgoing hx hpak
    exact hfit.packed _ p hlookup hid

theorem doc_honest (c : Homes) {o : Object} {rest : String} (hkey : parse_key o.key = .crdt rest) :
    Honest c o ∧ pak_of c.vault o = none := by
  have hnone : pak_of c.vault o = none := by
    unfold pak_of
    rw [hkey]
  refine ⟨⟨fun e _ => (crdt_from_source e hkey).1, fun happ => ?_, fun p hpak => ?_⟩, hnone⟩
  · rw [happ, key_parses] at hkey
    cases hkey
  · rw [hnone] at hpak
    cases hpak

end pai_sync.backup
