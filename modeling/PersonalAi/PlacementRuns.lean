-- Devices that share an app through one folder: what each row, each mirror and each object
-- tells of the latest claim, over any run of backups, migrations, rescues, pushes and pulls.
import PersonalAi.PlacementTurns

open pai_core sealing table text pai_sync.engine

namespace pai_sync.backup

variable {c : Homes} {d : DeviceId} {db db' : Db} {l : Local}

/-! ## The devices and the folder -/

/-- The version of the app in the folder. -/
def folder_version (c : Homes) (n : Net) : Nat :=
  ((n.remote.lookup c.key).map SyncObject.version).getD 0

/-- The version of the app that the device has shipped or taken last. -/
def held_version (c : Homes) (n : Net) (d : DeviceId) : Nat := mirror_version (n.locals d) c.key

/-- The app is on all devices, and the folder is as new as their mirrors; a backup that is
flagged for another device is no newer than what goes out with it. -/
structure Homes.Sound (c : Homes) (n : Net) : Prop where
  fit : ∀ d ∈ c.devices, Fit c d (n.locals d).db
  mirrors : ∀ d ∈ c.devices, held_version c n d ≤ folder_version c n
  objects : ∀ key o, n.remote.lookup key = some o → o.key = key ∧ Honest c o
  writer : ∀ o, n.remote.lookup c.key = some o → o.writer ∈ c.devices →
    o.version ≤ held_version c n o.writer
  flags : ∀ key o p, n.remote.lookup key = some o → pak_of c.vault o = some p → p.app_id = c.app →
    p.migrate_to.isSome → version_of p.package.updated_at ≤ folder_version c n
  paks : ∀ d ∈ c.devices, ∀ id p, (n.locals d).db.paks.lookup (id, d.to_string) = some p →
    p.app_id = c.app → p.migrate_to.isSome → ∀ row, row_of_app c n d = some row →
    version_of p.package.updated_at ≤ max (version_of row.updated_at) (held_version c n d)

/-- What the device tells of a claim: it knows it, it has made it and not shipped it, or its
row and its mirror are older. -/
inductive Standing (c : Homes) (n : Net) (claimer target : DeviceId) (version : Nat) (d : DeviceId)
    (row : AppRow) : Prop
  | knows (active : row.active_device = some target.to_string) (held : held_version c n d = version)
      (old : version_of row.updated_at ≤ version)
  | claims (self : d = claimer) (active : row.active_device = some target.to_string)
      (newest : version_of row.updated_at = version) (unshipped : held_version c n d < version)
  | behind (other : d ≠ claimer) (old : version_of row.updated_at < version)
      (held : held_version c n d < version)

/-- The claim of this version is the latest one. -/
structure Follows (c : Homes) (n : Net) (claimer target : DeviceId) (version : Nat) : Prop where
  member : claimer ∈ c.devices
  positive : 0 < version
  folder : ∀ o, n.remote.lookup c.key = some o → o.version < version ∨
    (o.version = version ∧ o.writer = claimer ∧
      ∃ p, Brings c o p ∧ p.active_device = some target.to_string)
  devices : ∀ d ∈ c.devices, ∀ row, row_of_app c n d = some row → Standing c n claimer target version d row

theorem folder_version_of {n : Net} {o : Object} (h : n.remote.lookup c.key = some o) :
    folder_version c n = o.version := by
  unfold folder_version
  rw [h]
  rfl

variable {n : Net}

theorem Homes.Sound.keyed {n : Net} (h : c.Sound n) : n.Keyed :=
  fun key o hlookup => (h.objects key o hlookup).1

theorem wanted_writer {e : SyncEngine} {l : Local} {o : Object} (h : wanted e l o ≠ none) :
    o.writer ≠ e.device := by
  intro hwriter
  apply h
  unfold wanted
  split
  · rfl
  · rw [if_pos hwriter]

/-- The app's object is wanted, or it is the device's own, or the mirror has its version. -/
theorem app_wanted {o : Object} (hkey : o.key = c.key) (d : DeviceId) (l : Local) :
    wanted (c.engine_of d) l o ≠ none ∨ o.writer = d ∨ o.version ≤ mirror_version l c.key := by
  have hrank : kind_rank o.key = some 8 := by rw [hkey]; exact app_rank (key_parses c)
  rw [← hkey]
  exact wanted_or_mirrored (c.engine_of d) l hrank

/-! ### A device after a pull -/

/-- The device's row and mirror are what they were; or a flagged backup has taken its row,
which it had shipped, to an older time; or both are those of the object in the folder. -/
inductive Moved (c : Homes) (n : Net) (d : DeviceId) (l' : Local) : Prop
  | stays (row : l'.db.apps.lookup c.app = row_of_app c n d)
      (mirror : mirror_version l' c.key = held_version c n d)
  | restored {old new : AppRow} (was : row_of_app c n d = some old)
      (now : l'.db.apps.lookup c.app = some new) (active : new.active_device = old.active_device)
      (shipped : version_of old.updated_at ≤ held_version c n d)
      (updated : version_of new.updated_at ≤ held_version c n d)
      (mirror : mirror_version l' c.key = held_version c n d)
  | took {o : Object} {p : AppPayload} {new : AppRow} (folder : n.remote.lookup c.key = some o)
      (writer : o.writer ≠ d) (brings : Brings c o p) (now : l'.db.apps.lookup c.app = some new)
      (active : new.active_device = p.active_device) (updated : version_of new.updated_at ≤ o.version)
      (mirror : mirror_version l' c.key = o.version) (newer : held_version c n d ≤ o.version)
      (covers : ∀ old, row_of_app c n d = some old → version_of old.updated_at ≤ o.version)

theorem pull_pulled (h : c.Sound n) (hd : d ∈ c.devices) {listing : List Object}
    (hperm : listing.Perm n.stored) :
    let r := engine.pull (c.engine_of d) (n.locals d) (View.of listing)
    Fit c d r.1.db ∧ OwnPaks d (n.locals d).db r.1.db ∧
      Pulled c d (n.locals d) (pending (c.engine_of d) (n.locals d) (View.of listing))
        (folder_version c n) r := by
  obtain ⟨hmem, hkeys⟩ := h.keyed.mem_pending (c.engine_of d) (n.locals d) hperm
  have hhonest : ∀ o ∈ pending (c.engine_of d) (n.locals d) (View.of listing),
      Honest c o ∧ o.writer ≠ d ∧ Bounded c (folder_version c n) o := by
    intro o ho
    obtain ⟨hlookup, hwanted⟩ := (hmem o).mp ho
    refine ⟨(h.objects _ o hlookup).2, wanted_writer hwanted, fun hkey => ?_,
      fun p hpak hid hflag => h.flags _ o p hlookup hpak hid hflag⟩
    rw [folder_version_of (hkey ▸ hlookup)]
  exact pulled hd hhonest hkeys (pending_ordered (c.engine_of d) (n.locals d) listing).2 (h.fit d hd) _

theorem pull_moved (h : c.Sound n) (hd : d ∈ c.devices) {listing : List Object}
    (hperm : listing.Perm n.stored) (hclean : c.Clean n (.pull d listing)) :
    let after := (engine.pull (c.engine_of d) (n.locals d) (View.of listing)).1
    Fit c d after.db ∧ OwnPaks d (n.locals d).db after.db ∧ Moved c n d after := by
  obtain ⟨hmem, -⟩ := h.keyed.mem_pending (c.engine_of d) (n.locals d) hperm
  obtain ⟨hfit, hown, hpulled⟩ := pull_pulled h hd hperm
  refine ⟨hfit, hown, ?_⟩
  cases hpulled with
  | stays hrow hmirror _ => exact .stays hrow hmirror
  | @restored old new hbrought halone hwas hnow hactive hupdated hmirror =>
    have hshipped : version_of old.updated_at ≤ held_version c n d := by
      refine Nat.le_of_not_lt (fun hunshipped => ?_)
      obtain ⟨o, ho, hkey⟩ := (hclean old ⟨hwas, hunshipped⟩).2 hbrought
      exact halone o ho hkey
    -- the object in the folder is not wanted, so the mirror is as new
    have hfolder : folder_version c n ≤ held_version c n d := by
      unfold folder_version
      cases hlookup : n.remote.lookup c.key with
      | none => exact Nat.zero_le _
      | some o =>
        have hkey := (h.objects _ o hlookup).1
        rcases app_wanted hkey d (n.locals d) with hwanted | hwriter | hseen
        · exact absurd hkey (halone o ((hmem o).mpr ⟨by rw [hkey]; exact hlookup, hwanted⟩))
        · subst hwriter
          exact h.writer o hlookup hd
        · exact hseen
    exact .restored hwas hnow hactive hshipped (Nat.le_trans hupdated hfolder) hmirror
  | @took o p new ho hkey hp hnow hactive hupdated hmirror =>
    obtain ⟨hlookup, hwanted⟩ := (hmem o).mp ho
    rw [hkey] at hlookup
    have hversion := folder_version_of (c := c) hlookup
    rw [hversion] at hupdated
    have hnewer : held_version c n d ≤ o.version := hversion ▸ h.mirrors d hd
    refine .took hlookup (wanted_writer hwanted) hp hnow hactive hupdated hmirror hnewer ?_
    intro old hold
    by_cases hunshipped : held_version c n d < version_of old.updated_at
    · exact (hclean old ⟨hold, hunshipped⟩).1 o ho hkey
    · omega

/-! ### The devices after a pull -/

theorem row_put (c : Homes) (n : Net) (d : DeviceId) (s : Site) :
    row_of_app c (n.put d s) d = s.db.apps.lookup c.app := by
  unfold row_of_app
  rw [n.put_self]

theorem row_put_other (c : Homes) (n : Net) {d d' : DeviceId} (h : d' ≠ d) (s : Site) :
    row_of_app c (n.put d s) d' = row_of_app c n d' := by
  unfold row_of_app
  rw [n.put_other h]

theorem held_put (c : Homes) (n : Net) (d : DeviceId) (s : Site) :
    held_version c (n.put d s) d = mirror_version s.toLocal c.key := by
  unfold held_version
  rw [n.put_self]

theorem held_put_other (c : Homes) (n : Net) {d d' : DeviceId} (h : d' ≠ d) (s : Site) :
    held_version c (n.put d s) d' = held_version c n d' := by
  unfold held_version
  rw [n.put_other h]

/-- One device changes, and not the folder: what is left to show. -/
theorem Homes.Sound.put (h : c.Sound n) {l : Local} (hfit : Fit c d l.db)
    (hmirror : held_version c n d ≤ mirror_version l c.key)
    (hfolder : mirror_version l c.key ≤ folder_version c n)
    (hpaks : ∀ id p, l.db.paks.lookup (id, d.to_string) = some p → p.app_id = c.app →
      p.migrate_to.isSome → ∀ row, l.db.apps.lookup c.app = some row →
      version_of p.package.updated_at ≤ max (version_of row.updated_at) (mirror_version l c.key)) :
    c.Sound (n.put d { n.site d with toLocal := l }) := by
  refine ⟨fun d' hd' => ?_, fun d' hd' => ?_, h.objects, fun o ho hwriter => ?_, h.flags,
    fun d' hd' id p hp hid hflag row hrow => ?_⟩
  · by_cases hsame : d' = d
    · subst hsame
      rw [n.put_self]
      exact hfit
    · rw [n.put_other hsame]
      exact h.fit d' hd'
  · by_cases hsame : d' = d
    · subst hsame
      rw [held_put]
      exact hfolder
    · rw [held_put_other c n hsame]
      exact h.mirrors d' hd'
  · have hold := h.writer o ho hwriter
    by_cases hsame : o.writer = d
    · rw [hsame] at hold
      rw [hsame, held_put]
      exact Nat.le_trans hold hmirror
    · rw [held_put_other c n hsame]
      exact hold
  · by_cases hsame : d' = d
    · subst hsame
      rw [n.put_self] at hp
      rw [row_put] at hrow
      rw [held_put]
      exact hpaks id p hp hid hflag row hrow
    · rw [n.put_other hsame] at hp
      rw [row_put_other c n hsame] at hrow
      rw [held_put_other c n hsame]
      exact h.paks d' hd' id p hp hid hflag row hrow

theorem Homes.Sound.moved (h : c.Sound n) (hd : d ∈ c.devices) {l : Local} (hfit : Fit c d l.db)
    (hown : OwnPaks d (n.locals d).db l.db) (hmoved : Moved c n d l) :
    c.Sound (n.put d { n.site d with toLocal := l }) := by
  have hmirrors := h.mirrors d hd
  have hpaks := fun id p hp => h.paks d hd id p (hown id p hp)
  cases hmoved with
  | stays hrow hmirror =>
    refine h.put hfit (by omega) (by omega) (fun id p hp hid hflag row hlookup => ?_)
    rw [hmirror]
    exact hpaks id p hp hid hflag row (hrow ▸ hlookup)
  | @restored old new hwas hnow hactive hshipped hupdated hmirror =>
    refine h.put hfit (by omega) (by omega) (fun id p hp hid hflag row hlookup => ?_)
    have hle := hpaks id p hp hid hflag old hwas
    omega
  | @took o p new hlookup hwriter hp hnow hactive hupdated hmirror hnewer hcovers =>
    have hversion := folder_version_of (c := c) hlookup
    obtain ⟨old, hold, -⟩ := (h.fit d hd).row
    refine h.put hfit (by omega) (by omega) (fun id q hq hid hflag row _ => ?_)
    have hle := hpaks id q hq hid hflag old hold
    have hcover := hcovers old hold
    omega

/-- What a device tells of a claim is about its row and the version of its mirror. -/
theorem Standing.kept {n n' : Net} {claimer target : DeviceId} {version : Nat} {row : AppRow}
    (hheld : held_version c n' d = held_version c n d)
    (h : Standing c n claimer target version d row) : Standing c n' claimer target version d row := by
  cases h with
  | knows hactive hknown hold => exact .knows hactive (hheld.trans hknown) hold
  | claims hself hactive hnewest hunshipped =>
    exact .claims hself hactive hnewest (hheld ▸ hunshipped)
  | behind hother hold hbehind => exact .behind hother hold (hheld ▸ hbehind)

/-- A device changes that keeps to what is said of the claim. -/
theorem Follows.put {claimer target : DeviceId} {version : Nat}
    (h : Follows c n claimer target version) {l : Local}
    (hdevice : ∀ row, l.db.apps.lookup c.app = some row →
      Standing c (n.put d { n.site d with toLocal := l }) claimer target version d row) :
    Follows c (n.put d { n.site d with toLocal := l }) claimer target version := by
  refine ⟨h.member, h.positive, h.folder, fun d' hd' row hrow => ?_⟩
  by_cases hsame : d' = d
  · subst hsame
    rw [row_put] at hrow
    exact hdevice row hrow
  · rw [row_put_other c n hsame] at hrow
    have hheld := held_put_other c n hsame { n.site d with toLocal := l }
    exact (h.devices d' hd' row hrow).kept hheld

theorem Follows.moved {claimer target : DeviceId} {version : Nat}
    (h : Follows c n claimer target version) (hd : d ∈ c.devices) {l : Local}
    (hfit : ∃ row, row_of_app c n d = some row) (hmoved : Moved c n d l) :
    Follows c (n.put d { n.site d with toLocal := l }) claimer target version := by
  refine h.put (fun row hrow => ?_)
  have hheld := held_put c n d { n.site d with toLocal := l }
  change held_version c _ d = mirror_version l c.key at hheld
  cases hmoved with
  | stays hsame hmirror =>
    rw [hmirror] at hheld
    rw [hsame] at hrow
    exact (h.devices d hd row hrow).kept hheld
  | @restored old new hwas hnow hactive' hshipped hupdated hmirror =>
    rw [hmirror] at hheld
    rw [hnow, Option.some.injEq] at hrow
    subst hrow
    cases h.devices d hd old hwas with
    | knows hactive hknown hold =>
      exact .knows (hactive'.trans hactive) (hheld.trans hknown) (hknown ▸ hupdated)
    | claims hself hactive hnewest hunshipped => omega
    | behind hother hold hbehind =>
      exact .behind hother (Nat.lt_of_le_of_lt hupdated hbehind) (hheld ▸ hbehind)
  | @took o p new hlookup hwriter hp hnow hactive' hupdated hmirror hnewer hcovers =>
    rw [hmirror] at hheld
    rw [hnow, Option.some.injEq] at hrow
    subst hrow
    obtain ⟨old, hold⟩ := hfit
    have hcover := hcovers old hold
    rcases h.folder o hlookup with hless | ⟨hequal, hself, q, hq, hactive⟩
    · -- an older object: only a device that is behind takes it
      cases h.devices d hd old hold with
      | knows _ hknown _ => omega
      | claims _ _ hnewest _ => omega
      | behind hother _ _ =>
        exact .behind hother (Nat.lt_of_le_of_lt hupdated hless) (hheld ▸ hless)
    · have hsame : q = p := by
        have hopens := hq.opens.symm.trans hp.opens
        rw [Option.some.injEq, Plain.app.injEq] at hopens
        exact hopens
      subst hsame
      exact .knows (hactive'.trans hactive) (hheld.trans hequal) (hequal ▸ hupdated)

/-! ### Backups, migrations and rescues -/

theorem create_spec (shelf : Shelf) (device : DeviceId) (db : Db) (app_id : String)
    (migrate_to : Option DeviceId) (now : Timestamp) :
    (∃ e, create shelf device db app_id migrate_to now = (db, .error e)) ∨
      ∃ dir p row, active_elsewhere db device app_id = none ∧
        db.app_dirs.lookup app_id = some dir ∧ p.app_id = app_id ∧
        p.package.files = dir.files ∧ p.package.signature_b64 = dir.signature ∧
        p.package.updated_at = now ∧ p.migrate_to = migrate_to.map DeviceId.to_string ∧
        create shelf device db app_id migrate_to now = done { db with
          paks := db.paks.insert (app_id, device.to_string) p,
          app_backups := db.app_backups.insert (app_id, device.to_string) row } := by
  unfold create
  split
  · exact .inl ⟨_, rfl⟩
  · rename_i hhere
    split
    · exact .inl ⟨_, rfl⟩
    · rename_i dir hdir
      split
      · exact .inl ⟨_, rfl⟩
      · split
        · exact .inl ⟨_, rfl⟩
        · exact .inr ⟨dir, _, _, hhere, hdir, rfl, rfl, rfl, rfl, rfl, rfl⟩

theorem place_spec {db : Db} {app_id : String} {row : AppRow} (hrow : db.apps.lookup app_id = some row)
    {p : AppRow → Bool} (hp : p row = true) (target : DeviceId) (now : Timestamp) :
    place db app_id p target now = { db with
      apps := db.apps.insert app_id
        { row with active_device := some target.to_string, updated_at := now } } := by
  unfold place
  rw [hrow, Option.filter_some, if_pos hp]

/-- Nothing of the app changes but for its row. -/
theorem Fit.placed (h : Fit c d db) {row : AppRow} (hlive : row.deleted = false) :
    Fit c d { db with apps := db.apps.insert c.app row } :=
  h.keeps rfl ⟨row, AList.lookup_insert _, hlive⟩ rfl (fun _ _ hp _ => .inl hp)

theorem Fit.deactivated (h : Fit c d db) : Fit c d (deactivate_data db c.app) := by
  have hsame := deactivate_same db c.app
  refine ⟨hsame.sync_peers.trans h.peers, by rw [hsame.apps]; exact h.row, ?_,
    by rw [hsame.paks]; exact h.packed⟩
  obtain ⟨dir, hdir, hfiles, hsignature⟩ := h.dir
  rw [deactivate_lookup, hdir]
  exact ⟨_, rfl, hfiles, hsignature⟩

theorem Fit.created (h : Fit c d db) {key : String × String} {p : BackupPayload} {row : BackupRow}
    (hp : p.app_id = c.app → Packed c p) :
    Fit c d { db with paks := db.paks.insert key p, app_backups := db.app_backups.insert key row } := by
  refine h.keeps rfl h.row rfl (fun key' q hq hid => ?_)
  change (db.paks.insert key p).lookup key' = some q at hq
  rw [lookup_insert_if] at hq
  split at hq
  · cases hq
    exact .inr (hp hid)
  · exact .inl hq

theorem restore_cases (env : Env) (device : DeviceId) (db : Db) (app_id : String) :
    (restore env device db app_id).1 = db ∨ ∃ writer, newest_backup db app_id = some writer ∧
      (restore env device db app_id).1 = (restore_unchecked env db app_id writer).1 := by
  unfold restore
  split
  · exact .inl rfl
  · split
    · exact .inl rfl
    · rename_i writer hwriter
      refine .inr ⟨writer, hwriter, ?_⟩
      rcases restore_unchecked env db app_id writer with ⟨after, err | _⟩
      · rfl
      · cases db.paks.lookup (app_id, writer) <;> rfl

/-- A rescue goes through, behind its claim or behind the restore of the newest backup. -/
theorem rescue_spec {env : Env} {device : DeviceId} {app_id : String} {row : AppRow}
    (hrow : db.apps.lookup app_id = some row) (hlive : row.deleted = false) (now : Timestamp) :
    let placed : Db := { db with
      apps := db.apps.insert app_id
        { row with active_device := some device.to_string, updated_at := now } }
    (rescue env device db app_id now).2.isOk = true ∧
      ((rescue env device db app_id now).1 = placed ∨
        ∃ writer, newest_backup db app_id = some writer ∧
          (rescue env device db app_id now).1 = (restore_unchecked env placed app_id writer).1) := by
  intro placed
  have hclaim : claim_active db device app_id now = done placed := by
    unfold claim_active
    rw [hrow, Option.filter_some, if_pos (by simp [hlive])]
    dsimp only
    rw [place_spec hrow (by simp [hlive])]
  have hresult : (rescue env device db app_id now).2.isOk = true ∧
      (rescue env device db app_id now).1 = (restore env device placed app_id).1 := by
    unfold rescue
    rw [hclaim]
    unfold done
    dsimp only
    rcases restore env device placed app_id with ⟨after, err | p⟩
    · cases err <;> exact ⟨rfl, rfl⟩
    · exact ⟨rfl, rfl⟩
  rw [hresult.2]
  exact ⟨hresult.1, restore_cases env device placed app_id⟩

/-- The device's row is what it was; or it is that of a claim, above all the others. What it
has flagged since is no newer. -/
inductive Commanded (c : Homes) (n : Net) (d : DeviceId) (db' : Db) : Option DeviceId → Prop
  | stays (row : db'.apps.lookup c.app = row_of_app c n d)
      (paks : ∀ id p, db'.paks.lookup (id, d.to_string) = some p → p.migrate_to.isSome →
        (n.locals d).db.paks.lookup (id, d.to_string) = some p) : Commanded c n d db' none
  | claims {target : DeviceId} {new : AppRow} (now : db'.apps.lookup c.app = some new)
      (active : new.active_device = some target.to_string)
      (above : Above c n (version_of new.updated_at))
      (paks : ∀ id p, db'.paks.lookup (id, d.to_string) = some p → p.migrate_to.isSome →
        (n.locals d).db.paks.lookup (id, d.to_string) = some p ∨
          version_of p.package.updated_at ≤ version_of new.updated_at) :
      Commanded c n d db' (some target)

theorem create_commanded (hfit : Fit c d (n.locals d).db) (now : Timestamp) :
    let after := (create c.shelf d (n.locals d).db c.app none now).1
    Fit c d after ∧ Commanded c n d after none := by
  intro after
  rcases create_spec c.shelf d (n.locals d).db c.app none now with
    ⟨err, hresult⟩ | ⟨dir, p, row, -, hdir, hid, hfiles, hsignature, -, hflag, hresult⟩
  · have hafter : after = (n.locals d).db := congrArg Prod.fst hresult
    rw [hafter]
    exact ⟨hfit, .stays rfl (fun _ _ hp _ => hp)⟩
  · have hafter := congrArg Prod.fst hresult
    change after = _ at hafter
    obtain ⟨dir', hdir', hdfiles, hdsignature⟩ := hfit.dir
    rw [hdir, Option.some.injEq] at hdir'
    subst hdir'
    rw [hafter]
    refine ⟨hfit.created (fun _ => ⟨hfiles.trans hdfiles, hsignature.trans hdsignature⟩),
      .stays rfl (fun id q hq hsome => ?_)⟩
    change ((n.locals d).db.paks.insert (c.app, d.to_string) p).lookup (id, d.to_string) = some q at hq
    rw [lookup_insert_if] at hq
    split at hq
    · cases hq
      rw [hflag] at hsome
      cases hsome
    · exact hq

theorem migrate_commanded (hfit : Fit c d (n.locals d).db) {target : DeviceId}
    {snapshot_at placed_at : Timestamp} (hclock : snapshot_at < placed_at)
    (hclean : c.Clean n (.migrate d target snapshot_at placed_at)) :
    let result := backup.migrate c.shelf d (n.locals d).db c.app target snapshot_at placed_at .Deactivated
    Fit c d result.1 ∧ Commanded c n d result.1 (if result.2.isOk then some target else none) := by
  intro result
  rcases create_spec c.shelf d (n.locals d).db c.app (some target) snapshot_at with
    ⟨err, hmade⟩ | ⟨dir, p, row, hhere, hdir, hid, hfiles, hsignature, hsnapshot, -, hmade⟩
  · have hresult : result = ((n.locals d).db, .error err) := by
      change backup.migrate _ _ _ _ _ _ _ _ = _
      unfold backup.migrate
      rw [hmade]
    rw [hresult]
    exact ⟨hfit, .stays rfl (fun _ _ hp _ => hp)⟩
  · obtain ⟨old, hold, hlive⟩ := hfit.row
    obtain ⟨dir', hdir', hdfiles, hdsignature⟩ := hfit.dir
    rw [hdir, Option.some.injEq] at hdir'
    subst hdir'
    let made : Db := { (n.locals d).db with
      paks := (n.locals d).db.paks.insert (c.app, d.to_string) p,
      app_backups := (n.locals d).db.app_backups.insert (c.app, d.to_string) row }
    let new : AppRow := { old with active_device := some target.to_string, updated_at := placed_at }
    let placed : Db := { made with apps := made.apps.insert c.app new }
    have hwas : made.apps.lookup c.app = some old := hold
    have hlast : new.deleted = false := hlive
    have hplace : place made c.app (fun _ => true) target placed_at = placed :=
      @place_spec made c.app old hwas (fun _ => true) rfl target placed_at
    have hresult : result = done (deactivate_data placed c.app) := by
      change backup.migrate _ _ _ _ _ _ _ _ = _
      unfold backup.migrate
      rw [hmade]
      change done (deactivate_data (place made c.app (fun _ => true) target placed_at) c.app) = _
      rw [hplace]
    have hmadefit : Fit c d made :=
      hfit.created (fun _ => ⟨hfiles.trans hdfiles, hsignature.trans hdsignature⟩)
    have hnow : (deactivate_data placed c.app).apps.lookup c.app = some new := by
      rw [(deactivate_same placed c.app).apps]
      exact AList.lookup_insert _
    rw [hresult]
    refine ⟨(hmadefit.placed hlast).deactivated, .claims hnow rfl (hclean hhere) (fun id q hq hsome => ?_)⟩
    · change (deactivate_data placed c.app).paks.lookup (id, d.to_string) = some q at hq
      rw [(deactivate_same placed c.app).paks] at hq
      change ((n.locals d).db.paks.insert (c.app, d.to_string) p).lookup (id, d.to_string) = some q at hq
      rw [lookup_insert_if] at hq
      split at hq
      · cases hq
        rw [hsnapshot]
        exact .inr (version_of_mono (Nat.le_of_lt hclock))
      · exact .inl hq

theorem rescue_commanded (hfit : Fit c d (n.locals d).db) {now : Timestamp}
    (hclean : c.Clean n (.rescue d now)) :
    let result := backup.rescue (c.env d) d (n.locals d).db c.app now
    Fit c d result.1 ∧ Commanded c n d result.1 (if result.2.isOk then some d else none) := by
  intro result
  obtain ⟨old, hold, hlive⟩ := hfit.row
  let new : AppRow := { old with active_device := some d.to_string, updated_at := now }
  let placed : Db := { (n.locals d).db with apps := (n.locals d).db.apps.insert c.app new }
  obtain ⟨hok, hresult⟩ : result.2.isOk = true ∧ (result.1 = placed ∨
      ∃ writer, newest_backup (n.locals d).db c.app = some writer ∧
        result.1 = (restore_unchecked (c.env d) placed c.app writer).1) := rescue_spec hold hlive now
  have hlast : new.deleted = false := hlive
  have hplaced : Fit c d placed := hfit.placed hlast
  have hthere : placed.apps.lookup c.app = some new := AList.lookup_insert _
  have hclaims : Fit c d placed ∧ Commanded c n d placed (some d) :=
    ⟨hplaced, .claims hthere rfl hclean.1 (fun _ _ hp _ => .inl hp)⟩
  rw [hok, if_pos rfl]
  rcases hresult with hafter | ⟨writer, hwriter, hafter⟩
  · rw [hafter]
    exact hclaims
  · rw [hafter]
    rcases restore_unchecked_cases (c.env d) placed c.app writer with
      ⟨hsame, -⟩ | ⟨p, ⟨-, hpak, -, hid⟩, hrestores⟩
    · rw [hsame]
      exact hclaims
    · have hrow : restored_row placed.apps c.app p.package =
          app_row p.package (some d.to_string) := by
        unfold restored_row
        rw [hthere]
      have hnow : (restore_unchecked (c.env d) placed c.app writer).1.apps.lookup c.app =
          some (app_row p.package (some d.to_string)) := by
        rw [hrestores.apps, hrow]
        exact AList.lookup_insert _
      refine ⟨hplaced.restores hrestores (fun _ => hfit.packed _ p hpak hid),
        .claims hnow rfl (hclean.2 writer p hwriter hpak) (fun id q hq _ => .inl ?_)⟩
      rwa [hrestores.paks] at hq

theorem Homes.Sound.commanded (h : c.Sound n) (hd : d ∈ c.devices) {db' : Db} {claim : Option DeviceId}
    (hfit : Fit c d db') (hcommanded : Commanded c n d db' claim) :
    c.Sound (n.put d { n.site d with toLocal := { n.locals d with db := db' } }) := by
  have hfolder := h.mirrors d hd
  refine h.put (l := { n.locals d with db := db' }) hfit (Nat.le_refl _) hfolder
    (fun id p hp hid hflag row hrow => ?_)
  change version_of p.package.updated_at ≤ max (version_of row.updated_at) (held_version c n d)
  cases hcommanded with
  | stays hsame hpaks =>
    exact h.paks d hd id p (hpaks id p hp hflag) hid hflag row (hsame ▸ hrow)
  | @claims target new hnow hactive habove hpaks =>
    rw [hnow, Option.some.injEq] at hrow
    subst hrow
    rcases hpaks id p hp hflag with hold | hnewer
    · obtain ⟨old, hwas, -⟩ := (h.fit d hd).row
      have hle := h.paks d hd id p hold hid hflag old hwas
      have hless := habove.1 d hd old hwas
      omega
    · omega

/-- What is said of the latest claim stays, where a command claims nothing. -/
theorem Follows.commanded {claimer target : DeviceId} {version : Nat}
    (h : Follows c n claimer target version) (hd : d ∈ c.devices) {db' : Db}
    (hcommanded : Commanded c n d db' none) :
    Follows c (n.put d { n.site d with toLocal := { n.locals d with db := db' } }) claimer target
      version := by
  refine h.put (l := { n.locals d with db := db' }) (fun row hrow => ?_)
  have hheld := held_put c n d { n.site d with toLocal := { n.locals d with db := db' } }
  change held_version c _ d = held_version c n d at hheld
  cases hcommanded with
  | stays hsame _ =>
    rw [hsame] at hrow
    exact (h.devices d hd row hrow).kept hheld

theorem Above.folder {version : Nat} (h : Above c n version) (hpositive : 0 < version) :
    folder_version c n < version := by
  unfold folder_version
  cases hlookup : n.remote.lookup c.key with
  | none => exact hpositive
  | some o => exact h.2 o hlookup

/-- A claim is the latest one, whatever was said before. -/
theorem Homes.Sound.claimed (h : c.Sound n) (hd : d ∈ c.devices) {db' : Db} {target : DeviceId}
    (hcommanded : Commanded c n d db' (some target)) :
    ∃ version, Follows c (n.put d { n.site d with toLocal := { n.locals d with db := db' } }) d target
      version := by
  cases hcommanded with
  | @claims _ new hnow hactive habove _ =>
    obtain ⟨old, hold, -⟩ := (h.fit d hd).row
    have hpositive : 0 < version_of new.updated_at := Nat.zero_lt_of_lt (habove.1 d hd old hold)
    have hfolder := habove.folder hpositive
    refine ⟨version_of new.updated_at, hd, hpositive, fun o ho => .inl (habove.2 o ho),
      fun d' hd' row hrow => ?_⟩
    have hmirror := h.mirrors d' hd'
    by_cases hsame : d' = d
    · subst hsame
      have hheld := held_put c n d' { n.site d' with toLocal := { n.locals d' with db := db' } }
      change held_version c _ d' = held_version c n d' at hheld
      rw [row_put] at hrow
      change db'.apps.lookup c.app = some row at hrow
      rw [hnow, Option.some.injEq] at hrow
      subst hrow
      exact .claims rfl hactive rfl (by omega)
    · have hheld := held_put_other c n hsame
        { n.site d with toLocal := { n.locals d with db := db' } }
      rw [row_put_other c n hsame] at hrow
      exact .behind hsame (habove.1 d' hd' row hrow) (by omega)

/-! ### A push -/

/-- The mirror has the row's version and nothing happens to the app, or the row goes out. -/
inductive Pushed (c : Homes) (n : Net) (d : DeviceId) (row : AppRow) (after : Site) : Prop
  | stays (old : version_of row.updated_at ≤ held_version c n d)
      (remote : after.remote.lookup c.key = n.remote.lookup c.key)
      (mirror : mirror_version after.toLocal c.key = held_version c n d)
  | ships {o : Object} {p : AppPayload} (new : held_version c n d < version_of row.updated_at)
      (remote : after.remote.lookup c.key = some o) (writer : o.writer = d)
      (version : o.version = version_of row.updated_at) (brings : Brings c o p)
      (active : p.active_device = row.active_device)
      (mirror : mirror_version after.toLocal c.key = version_of row.updated_at)

theorem push_pushed (hfit : Fit c d (n.locals d).db) {row : AppRow} (hrow : row_of_app c n d = some row)
    (now : Timestamp) :
    Pushed c n d row (engine.push (c.engine_of d) now (fun _ => none) (n.site d)).1 := by
  obtain ⟨x, hx, hkey, hversion, honly, p, hp, hactive⟩ := app_outgoing hfit hrow
  have hslot := push_slot (e := c.engine_of d) now (s := n.site d) hx
    (fun y hy hsame => honly y hy (hsame.trans hkey))
  rw [hkey, hversion] at hslot
  rcases hslot with ⟨hold, hremote, hmirror⟩ | ⟨hnew, hremote, hmirror⟩
  · exact .stays hold hremote hmirror
  · exact .ships hnew hremote rfl hversion hp hactive hmirror

theorem Homes.Sound.push (h : c.Sound n) (hd : d ∈ c.devices) (now : Timestamp)
    (hclean : c.Clean n (.push d now)) :
    c.Sound (n.put d (engine.push (c.engine_of d) now (fun _ => none) (n.site d)).1) := by
  have hfit := h.fit d hd
  obtain ⟨row, hrow, -⟩ := hfit.row
  have hpushed := push_pushed hfit hrow now
  have hsame := push_same (c.engine_of d) now (fun _ => none) (n.site d)
  have hkeyed := push_keyed (c.engine_of d) now (s := n.site d) (fun key o ho => (h.objects key o ho).1)
  have hstored := fun key o => @push_stored (c.engine_of d) now (fun _ => none) (n.site d) key o
  generalize (engine.push (c.engine_of d) now (fun _ => none) (n.site d)).1 = after
    at hpushed hsame hkeyed hstored
  have hheld := held_put c n d after
  have hmirrors := h.mirrors d hd
  -- the mirror and the folder after it, as versions
  obtain ⟨hgrows, hfolder, hreached, hrowheld⟩ :
      held_version c n d ≤ held_version c (n.put d after) d ∧
      folder_version c n ≤ folder_version c (n.put d after) ∧
      held_version c (n.put d after) d ≤ folder_version c (n.put d after) ∧
      version_of row.updated_at ≤ held_version c (n.put d after) d := by
    cases hpushed with
    | stays hold hremote hmirror =>
      have hsamefolder : folder_version c (n.put d after) = folder_version c n := by
        unfold folder_version
        rw [n.put_remote, hremote]
      omega
    | @ships o p hnew hremote hwriter hversion hp hactive hmirror =>
      have hnewfolder : folder_version c (n.put d after) = o.version := folder_version_of hremote
      have hcovers : folder_version c n ≤ version_of row.updated_at := by
        unfold folder_version
        cases hlookup : n.remote.lookup c.key with
        | none => exact Nat.zero_le _
        | some o' => exact hclean row ⟨hrow, hnew⟩ o' hlookup
      omega
  refine ⟨fun d' hd' => ?_, fun d' hd' => ?_, fun key o ho => ⟨hkeyed key o ho, ?_⟩,
    fun o ho hwriter => ?_,
    fun key o p ho hpak hid hflag => ?_, fun d' hd' id p hp hid hflag row' hrow' => ?_⟩
  · by_cases hself : d' = d
    · subst hself
      rw [n.put_self]
      exact hfit.same hsame
    · rw [n.put_other hself]
      exact h.fit d' hd'
  · by_cases hself : d' = d
    · subst hself
      exact hreached
    · rw [held_put_other c n hself]
      exact Nat.le_trans (h.mirrors d' hd') hfolder
  · rcases hstored key o ho with hold | ⟨x, hx, rfl⟩ | ⟨rest, hdoc⟩
    · exact (h.objects key o hold).2
    · exact outgoing_honest hfit hx
    · exact (doc_honest c hdoc).1
  · change after.remote.lookup c.key = some o at ho
    cases hpushed with
    | stays _ hremote hmirror =>
      rw [hremote] at ho
      have hold := h.writer o ho hwriter
      by_cases hself : o.writer = d
      · rw [hself] at hold ⊢
        exact Nat.le_trans hold hgrows
      · rw [held_put_other c n hself]
        exact hold
    | ships _ hremote hself hversion _ _ hmirror =>
      rw [hremote, Option.some.injEq] at ho
      subst ho
      rw [hself, held_put, hmirror, hversion]
  · rcases hstored key o ho with hold | ⟨x, hx, rfl⟩ | ⟨rest, hdoc⟩
    · exact Nat.le_trans (h.flags key o p hold hpak hid hflag) hfolder
    · obtain ⟨id, hlookup⟩ := pak_of_outgoing hx hpak
      have hle := h.paks d hd id p hlookup hid hflag row hrow
      omega
    · rw [(doc_honest c hdoc).2] at hpak
      cases hpak
  · by_cases hself : d' = d
    · subst hself
      rw [n.put_self, hsame.paks] at hp
      rw [row_put, hsame.apps] at hrow'
      have hle := h.paks d' hd' id p hp hid hflag row' hrow'
      omega
    · rw [n.put_other hself] at hp
      rw [row_put_other c n hself] at hrow'
      rw [held_put_other c n hself]
      exact h.paks d' hd' id p hp hid hflag row' hrow'

theorem Follows.push {claimer target : DeviceId} {version : Nat}
    (h : Follows c n claimer target version) (hd : d ∈ c.devices) (hfit : Fit c d (n.locals d).db)
    (now : Timestamp) :
    Follows c (n.put d (engine.push (c.engine_of d) now (fun _ => none) (n.site d)).1) claimer target
      version := by
  obtain ⟨row, hrow, -⟩ := hfit.row
  have hpushed := push_pushed hfit hrow now
  have hsame := push_same (c.engine_of d) now (fun _ => none) (n.site d)
  generalize (engine.push (c.engine_of d) now (fun _ => none) (n.site d)).1 = after at hpushed hsame
  have hheld := held_put c n d after
  have hothers : ∀ d' ∈ c.devices, d' ≠ d → ∀ row', row_of_app c (n.put d after) d' = some row' →
      Standing c (n.put d after) claimer target version d' row' := by
    intro d' hd' hself row' hrow'
    rw [row_put_other c n hself] at hrow'
    have hold := held_put_other c n hself after
    exact (h.devices d' hd' row' hrow').kept hold
  have hsamerow : ∀ row', row_of_app c (n.put d after) d = some row' → row' = row := by
    intro row' hrow'
    rw [row_put, hsame.apps] at hrow'
    exact Option.some.inj (hrow'.symm.trans hrow)
  have hstanding := h.devices d hd row hrow
  cases hpushed with
  | stays hold hremote hmirror =>
    rw [hmirror] at hheld
    refine ⟨h.member, h.positive, fun o ho => h.folder o (hremote ▸ ho), fun d' hd' row' hrow' => ?_⟩
    by_cases hself : d' = d
    · subst hself
      rw [hsamerow row' hrow']
      exact hstanding.kept hheld
    · exact hothers d' hd' hself row' hrow'
  | @ships o p hnew hremote hwriter hversion hp hactive' hmirror =>
    rw [hmirror] at hheld
    refine ⟨h.member, h.positive, fun o' ho' => ?_, fun d' hd' row' hrow' => ?_⟩
    · change after.remote.lookup c.key = some o' at ho'
      rw [hremote, Option.some.injEq] at ho'
      subst ho'
      cases hstanding with
      | knows _ hknown hle => omega
      | claims hclaimer hactive hnewest _ =>
        exact .inr ⟨hversion.trans hnewest, hwriter.trans hclaimer, p, hp, hactive'.trans hactive⟩
      | behind _ hless _ => exact .inl (hversion ▸ hless)
    · by_cases hself : d' = d
      · subst hself
        rw [hsamerow row' hrow']
        cases hstanding with
        | knows _ hknown hle => omega
        | claims _ hactive hnewest _ =>
          exact .knows hactive (hheld.trans hnewest) (Nat.le_of_eq hnewest)
        | behind hother hless _ => exact .behind hother hless (hheld ▸ hless)
      · exact hothers d' hd' hself row' hrow'

/-! ## Every run -/

/-- Before the first step: the app is on all devices, no backup of it is flagged, and the
folder is as new as the mirrors. -/
structure Homes.Start (c : Homes) (n : Net) : Prop where
  fit : ∀ d ∈ c.devices, Fit c d (n.locals d).db
  mirrors : ∀ d ∈ c.devices, held_version c n d ≤ folder_version c n
  objects : ∀ key o, n.remote.lookup key = some o → o.key = key ∧ Honest c o
  writer : ∀ o, n.remote.lookup c.key = some o → o.writer ∈ c.devices →
    o.version ≤ held_version c n o.writer
  no_flags : ∀ key o p, n.remote.lookup key = some o → pak_of c.vault o = some p →
    p.app_id = c.app → p.migrate_to = none
  no_paks : ∀ d ∈ c.devices, ∀ key p, (n.locals d).db.paks.lookup key = some p → p.app_id = c.app →
    p.migrate_to = none

theorem Homes.Start.sound (h : c.Start n) : c.Sound n where
  fit := h.fit
  mirrors := h.mirrors
  objects := h.objects
  writer := h.writer
  flags := by
    intro key o p ho hpak hid hflag
    rw [h.no_flags key o p ho hpak hid] at hflag
    cases hflag
  paks := by
    intro d hd id p hp hid hflag
    rw [h.no_paks d hd _ p hp hid] at hflag
    cases hflag

/-- One step: what is said of the latest claim stays, unless the step is the next one. -/
theorem Homes.Sound.step (h : c.Sound n) {a : Step} (hclock : a.clock.Pairwise (· < ·))
    (htakes : c.Takes n a) (hclean : c.Clean n a) :
    c.Sound (c.step n a) ∧
      (c.claim n a = none → ∀ claimer target version, Follows c n claimer target version →
        Follows c (c.step n a) claimer target version) ∧
      ∀ target, c.claim n a = some target → ∃ version, Follows c (c.step n a) a.device target version := by
  obtain ⟨hd, hlisting⟩ := htakes
  have hcommand : ∀ db' : Db, Fit c a.device db' → Commanded c n a.device db' (c.claim n a) →
      c.step n a = n.put a.device { n.site a.device with
        toLocal := { n.locals a.device with db := db' } } →
      c.Sound (c.step n a) ∧
      (c.claim n a = none → ∀ claimer target version, Follows c n claimer target version →
        Follows c (c.step n a) claimer target version) ∧
      ∀ target, c.claim n a = some target →
        ∃ version, Follows c (c.step n a) a.device target version := by
    intro db' hfit hcommanded hstep
    rw [hstep]
    refine ⟨h.commanded hd hfit hcommanded, fun hnone claimer target version hfollows => ?_,
      fun target hsome => ?_⟩
    · rw [hnone] at hcommanded
      exact hfollows.commanded hd hcommanded
    · rw [hsome] at hcommanded
      exact h.claimed hd hcommanded
  cases a with
  | create d now =>
    obtain ⟨hfit, hcommanded⟩ := create_commanded (h.fit d hd) now
    exact hcommand _ hfit hcommanded rfl
  | migrate d target snapshot_at placed_at =>
    have hless : snapshot_at < placed_at := by simpa [Step.clock] using hclock
    obtain ⟨hfit, hcommanded⟩ := migrate_commanded (h.fit d hd) hless hclean
    exact hcommand _ hfit hcommanded rfl
  | rescue d now =>
    obtain ⟨hfit, hcommanded⟩ := rescue_commanded (h.fit d hd) hclean
    exact hcommand _ hfit hcommanded rfl
  | push d now =>
    refine ⟨h.push hd now hclean, fun _ claimer target version hfollows => ?_, fun target hsome => ?_⟩
    · exact hfollows.push hd (h.fit d hd) now
    · cases hsome
  | pull d listing =>
    obtain ⟨hfit, hown, hmoved⟩ := pull_moved h hd hlisting hclean
    obtain ⟨row, hrow, -⟩ := (h.fit d hd).row
    refine ⟨h.moved hd hfit hown hmoved, fun _ claimer target version hfollows => ?_,
      fun target hsome => ?_⟩
    · exact hfollows.moved hd ⟨row, hrow⟩ hmoved
    · cases hsome

theorem Ticks.cons {a : Step} {steps : List Step} (h : Ticks (a :: steps)) :
    a.clock.Pairwise (· < ·) ∧ Ticks steps := by
  unfold Ticks at h
  rw [List.flatMap_cons, List.pairwise_append] at h
  exact ⟨h.1, h.2.1⟩

theorem Homes.Sound.run {steps : List Step} (h : c.Sound n) (hticks : Ticks steps)
    (htakes : c.Along c.Takes n steps) (hclean : c.Along c.Clean n steps) {before : Option DeviceId}
    (hbefore : ∀ target, before = some target → ∃ claimer version, Follows c n claimer target version) :
    c.Sound (c.run n steps) ∧ ∀ target, c.latest n steps before = some target →
      ∃ claimer version, Follows c (c.run n steps) claimer target version := by
  induction steps generalizing n before with
  | nil => exact ⟨h, hbefore⟩
  | cons a steps ih =>
    obtain ⟨hsound, hstays, hclaims⟩ := h.step hticks.cons.1 htakes.1 hclean.1
    refine ih hsound hticks.cons.2 htakes.2 hclean.2 (fun target htarget => ?_)
    cases hclaim : c.claim n a with
    | none =>
      rw [hclaim] at htarget
      obtain ⟨claimer, version, hfollows⟩ := hbefore target htarget
      exact ⟨claimer, version, hstays hclaim claimer target version hfollows⟩
    | some made =>
      rw [hclaim] at htarget
      have hsame : made = target := Option.some.inj htarget
      subst hsame
      obtain ⟨version, hfollows⟩ := hclaims made hclaim
      exact ⟨a.device, version, hfollows⟩

/-! ### When nothing changes any more -/

/-- The claim has gone out. -/
theorem Follows.shipped {claimer target : DeviceId} {version : Nat} (h : c.Sound n)
    (hfollows : Follows c n claimer target version) (hquiet : c.Quiet n) :
    ∃ o, n.remote.lookup c.key = some o ∧ o.version = version ∧ o.writer = claimer := by
  obtain ⟨row, hrow, -⟩ := (h.fit claimer hfollows.member).row
  have hheld : held_version c n claimer = version := by
    cases hfollows.devices claimer hfollows.member row hrow with
    | knows _ hknown _ => exact hknown
    | claims _ _ hnewest hunshipped =>
      obtain ⟨now, hsame⟩ := (hquiet claimer hfollows.member).1
      cases push_pushed (h.fit claimer hfollows.member) hrow now with
      | stays hold _ _ => omega
      | ships _ _ _ _ _ _ hmirror =>
        rw [hsame] at hmirror
        change held_version c n claimer = _ at hmirror
        omega
    | behind hother _ _ => exact absurd rfl hother
  have hfolder := h.mirrors claimer hfollows.member
  have hpositive := hfollows.positive
  unfold folder_version at hfolder
  cases hlookup : n.remote.lookup c.key with
  | none =>
    rw [hlookup] at hfolder
    change _ ≤ 0 at hfolder
    omega
  | some o =>
    rw [hlookup] at hfolder
    change _ ≤ o.version at hfolder
    rcases hfollows.folder o hlookup with hless | ⟨hequal, hself, -⟩
    · omega
    · exact ⟨o, rfl, hequal, hself⟩

theorem Follows.settles {claimer target : DeviceId} {version : Nat} (h : c.Sound n)
    (hfollows : Follows c n claimer target version) (hquiet : c.Quiet n) (hd : d ∈ c.devices) :
    active_device (n.locals d).db c.app = some target.to_string := by
  obtain ⟨row, hrow, -⟩ := (h.fit d hd).row
  have hactive : row.active_device = some target.to_string := by
    cases hfollows.devices d hd row hrow with
    | knows hactive _ _ => exact hactive
    | claims _ hactive _ _ => exact hactive
    | behind hother _ hbehind =>
      -- the claim is in the folder, and this device's pull would take it
      obtain ⟨o, hlookup, hversion, hwriter⟩ := hfollows.shipped h hquiet
      obtain ⟨listing, out, hperm, hpull⟩ := (hquiet d hd).2
      have hkey := (h.objects _ o hlookup).1
      have hpending : o ∈ pending (c.engine_of d) (n.locals d) (View.of listing) := by
        refine ((h.keyed.mem_pending (c.engine_of d) (n.locals d) hperm).1 o).mpr ⟨hkey.symm ▸ hlookup, ?_⟩
        rcases app_wanted hkey d (n.locals d) with hwanted | hself | hseen
        · exact hwanted
        · exact absurd (hself.symm.trans hwriter) hother
        · exact absurd hseen (Nat.not_le_of_lt (hversion ▸ hbehind))
      obtain ⟨-, -, hpulled⟩ := pull_pulled h hd hperm
      rw [hpull] at hpulled
      cases hpulled with
      | stays _ _ hleft => exact absurd hkey (hleft rfl o hpending)
      | restored _ halone _ _ _ _ _ => exact absurd hkey (halone o hpending)
      | @took o' p new hmem hkey' _ _ _ _ hmirror =>
        have hlookup' := (((h.keyed.mem_pending (c.engine_of d) (n.locals d) hperm).1 o').mp hmem).1
        rw [hkey', hlookup, Option.some.injEq] at hlookup'
        subst hlookup'
        change held_version c n d = _ at hmirror
        omega
  unfold active_device
  rw [show (n.locals d).db.apps.lookup c.app = some row from hrow]
  exact hactive

/-! ### The next push of a rescuer -/

/-- The folder has the device's own object, which gives the app to it. -/
def ShippedBy (c : Homes) (n : Net) (d : DeviceId) : Prop :=
  ∃ o p, n.remote.lookup c.key = some o ∧ o.writer = d ∧
    app_payload (c.engine_of d) o = some p ∧ p.active_device = some d.to_string

theorem claim_ships (h : c.Sound n) (hd : d ∈ c.devices) {row : AppRow}
    (hunshipped : Unshipped c n d row) (hactive : row.active_device = some d.to_string)
    (now : Timestamp) : ShippedBy c (c.step n (.push d now)) d := by
  cases push_pushed (h.fit d hd) hunshipped.1 now with
  | stays hold _ _ => exact absurd hold (Nat.not_le_of_lt hunshipped.2)
  | @ships o p _ hremote hwriter _ hp hactive' _ =>
    have hkey : o.key = c.key := push_keyed (c.engine_of d) now (s := n.site d)
      (fun key o ho => (h.objects key o ho).1) c.key o hremote
    have hpayload : app_payload (c.engine_of d) o = some p := by
      unfold app_payload
      rw [hkey, key_parses, ← hkey, hp.live, show (c.engine_of d).vault = c.vault from rfl, hp.opens]
    exact ⟨o, p, hremote, hwriter, hpayload, hactive'.trans hactive⟩

theorem rescued_unshipped (h : c.Sound n) {now : Timestamp} (hd : d ∈ c.devices)
    (hclean : c.Clean n (.rescue d now)) :
    ∃ row, Unshipped c (c.step n (.rescue d now)) d row ∧ row.active_device = some d.to_string := by
  obtain ⟨old, hold, hlive⟩ := (h.fit d hd).row
  obtain ⟨-, hcommanded⟩ := rescue_commanded (h.fit d hd) hclean
  have hok := (@rescue_spec (n.locals d).db (c.env d) d c.app old hold hlive now).1
  rw [hok, if_pos rfl] at hcommanded
  cases hcommanded with
  | @claims _ new hnow hactive habove _ =>
    have hfolder := habove.folder (Nat.zero_lt_of_lt (habove.1 d hd old hold))
    have hmirror := h.mirrors d hd
    refine ⟨new, ⟨?_, ?_⟩, hactive⟩
    · exact (row_put c n d _).trans hnow
    · refine Nat.lt_of_le_of_lt ?_ (Nat.lt_of_le_of_lt hmirror hfolder)
      exact Nat.le_of_eq (held_put c n d _)

/-- The steps of the others leave a device alone. -/
theorem run_others {steps : List Step} (h : ∀ a ∈ steps, a.device ≠ d) :
    (c.run n steps).locals d = n.locals d := by
  induction steps generalizing n with
  | nil => rfl
  | cons a steps ih =>
    have hne : d ≠ a.device := Ne.symm (h a List.mem_cons_self)
    change (c.run (c.step n a) steps).locals d = _
    rw [ih (fun b hb => h b (List.mem_cons_of_mem a hb))]
    cases a <;> exact n.put_other hne _

theorem Along.append {P : Net → Step → Prop} {before after : List Step} :
    c.Along P n (before ++ after) ↔ c.Along P n before ∧ c.Along P (c.run n before) after := by
  induction before generalizing n with
  | nil => exact ⟨fun h => ⟨trivial, h⟩, fun h => h.2⟩
  | cons a before ih =>
    change P n a ∧ c.Along P (c.step n a) (before ++ after) ↔
      (P n a ∧ c.Along P (c.step n a) before) ∧ c.Along P (c.run (c.step n a) before) after
    rw [ih, and_assoc]

/-- Devices that share an app, in every run in which each claim leaves the newest row (also
the one that a rescue takes from a backup), no push covers a newer object, and no pull takes
an older one over a row that has not gone out: when nothing changes any more, every row names
the target of the latest claim, and the next push of a rescuer ships its claim. -/
theorem placement_settles_on_the_latest_claim_when_claims_stay_the_newest (c : Homes) {n : Net}
    (hstart : c.Start n) {steps : List Step} (hticks : Ticks steps)
    (htakes : c.Along c.Takes n steps) (hclean : c.Along c.Clean n steps) :
    (c.Quiet (c.run n steps) → ∀ target, c.latest n steps none = some target →
      ∀ d ∈ c.devices, active_device ((c.run n steps).locals d).db c.app = some target.to_string) ∧
    ∀ before d now between, steps = before ++ .rescue d now :: between →
      (∀ a ∈ between, a.device ≠ d) →
      ∀ later, ShippedBy c (c.step (c.run n steps) (.push d later)) d := by
  have hnothing : ∀ target, (none : Option DeviceId) = some target →
      ∃ claimer version, Follows c n claimer target version := by
    intro target h
    cases h
  obtain ⟨hsound, hlatest⟩ := hstart.sound.run hticks htakes hclean hnothing
  refine ⟨fun hquiet target htarget d hd => ?_, ?_⟩
  · obtain ⟨claimer, version, hfollows⟩ := hlatest target htarget
    exact hfollows.settles hsound hquiet hd
  · rintro before d now between rfl hothers later
    obtain ⟨htakes_before, htakes_rescue, htakes_between⟩ := Along.append.mp htakes
    obtain ⟨hclean_before, hclean_rescue, -⟩ := Along.append.mp hclean
    have hticks_before : Ticks before := by
      unfold Ticks at hticks ⊢
      rw [List.flatMap_append, List.pairwise_append] at hticks
      exact hticks.1
    obtain ⟨hmid, -⟩ := hstart.sound.run hticks_before htakes_before hclean_before hnothing
    have hd : d ∈ c.devices := htakes_rescue.1
    obtain ⟨row, hunshipped, hactive⟩ := rescued_unshipped hmid hd hclean_rescue
    have hrun : c.run n (before ++ .rescue d now :: between) =
        c.run (c.step (c.run n before) (.rescue d now)) between := List.foldl_append
    have hsame := @run_others c d (c.step (c.run n before) (.rescue d now)) between hothers
    have hstill : Unshipped c (c.run n (before ++ .rescue d now :: between)) d row := by
      unfold Unshipped row_of_app
      rw [hrun, hsame]
      exact hunshipped
    exact claim_ships hsound hd hstill hactive later

/-! ### Notes on a laptop and a phone -/

def notes_homes : Homes where
  vault := ⟨0, 0⟩
  devices := [⟨"laptop"⟩, ⟨"phone"⟩]
  env := fun _ => notes_env
  peers := fun d =>
    if d = ⟨"laptop"⟩ then [⟨⟨"phone"⟩, ⟨⟨"phone"⟩⟩, ⟨⟨"phone"⟩⟩⟩]
    else [⟨⟨"laptop"⟩, ⟨⟨"laptop"⟩⟩, ⟨⟨"laptop"⟩⟩⟩]
  shelf := notes_move.shelf
  app := "notes"
  files := []
  signature := .inr []
  accepts := fun _ _ _ _ _ => ⟨_, rfl⟩

def notes_net : Net where
  locals := fun d =>
    { db :=
        { Db.fresh (notes_homes.peers d) with
          apps := AList.singleton "notes"
            { name := "Notes", version := "1.0.0", runtime := "wasm", updated_at := 1000000,
              deleted := false, active_device := none },
          app_dirs := AList.singleton "notes"
            { files := [], signature := .inr [], auth := none,
              data := some [{ path := "todo.txt", b64 := .inr [1] }] } },
      sync_objects := ∅ }
  remote := ∅

theorem notes_fit : notes_homes.Start notes_net where
  fit := fun _ _ => ⟨rfl, ⟨_, rfl, rfl⟩, ⟨_, rfl, rfl, rfl⟩, fun _ _ hp => by cases hp⟩
  mirrors := fun _ _ => Nat.le_refl _
  objects := fun _ _ ho => by cases ho
  writer := fun _ ho => by cases ho
  no_flags := fun _ _ _ ho => by cases ho
  no_paks := fun _ _ _ _ hp => by cases hp

/-- The laptop hands its notes to the phone, which pulls them. -/
def notes_moved : List Step :=
  let shipped := [.migrate ⟨"laptop"⟩ ⟨"phone"⟩ 2000000 3000000, .push ⟨"laptop"⟩ 4000000]
  shipped ++ [.pull ⟨"phone"⟩ (notes_homes.run notes_net shipped).stored]

theorem notes_take : notes_homes.Along notes_homes.Takes notes_net notes_moved :=
  ⟨⟨by decide, trivial⟩, ⟨by decide, trivial⟩, ⟨by decide, List.Perm.refl _⟩, trivial⟩

theorem notes_clean : notes_homes.Along notes_homes.Clean notes_net notes_moved := by
  have hmigrate : notes_homes.Clean notes_net (.migrate ⟨"laptop"⟩ ⟨"phone"⟩ 2000000 3000000) := by
    refine fun _ => ⟨fun d _ row hrow => ?_, fun o ho => by cases ho⟩
    cases hrow
    decide
  have hpush : notes_homes.Clean (notes_homes.run notes_net (notes_moved.take 1))
      (.push ⟨"laptop"⟩ 4000000) := by
    intro row _ o ho
    cases ho
  have hpull : notes_homes.Clean (notes_homes.run notes_net (notes_moved.take 2))
      (.pull ⟨"phone"⟩ (notes_homes.run notes_net (notes_moved.take 2)).stored) := by
    rintro row ⟨hrow, -⟩
    cases hrow
    constructor
    · decide +kernel
    · decide +kernel
  exact ⟨hmigrate, hpush, hpull, trivial⟩

theorem notes_moved_quiet : notes_homes.Quiet (notes_homes.run notes_net notes_moved) := by
  intro d hd
  have hd : d = ⟨"laptop"⟩ ∨ d = ⟨"phone"⟩ := by simpa [notes_homes] using hd
  rcases hd with rfl | rfl
  · exact ⟨⟨7000000, rfl⟩, _, _, List.Perm.refl _, rfl⟩
  · exact ⟨⟨7000000, rfl⟩, _, _, List.Perm.refl _, rfl⟩

/-- Both rows name the phone. -/
theorem notes_settle_on_the_phone :
    let settled := notes_homes.run notes_net notes_moved
    active_device (settled.locals ⟨"laptop"⟩).db "notes" = some "phone" ∧
      active_device (settled.locals ⟨"phone"⟩).db "notes" = some "phone" := by
  have hsettles := (placement_settles_on_the_latest_claim_when_claims_stay_the_newest notes_homes
    notes_fit (by unfold Ticks; decide) notes_take notes_clean).1 notes_moved_quiet ⟨"phone"⟩
    (by decide +kernel)
  exact ⟨hsettles ⟨"laptop"⟩ (by decide), hsettles ⟨"phone"⟩ (by decide)⟩

/-- The laptop rescues the notes, from the backup that it made for the phone, and pushes. -/
def notes_rescued : List Step :=
  notes_moved ++ [.rescue ⟨"laptop"⟩ 5000000, .push ⟨"laptop"⟩ 6000000]

theorem notes_rescued_quiet : notes_homes.Quiet (notes_homes.run notes_net notes_rescued) := by
  intro d hd
  have hd : d = ⟨"laptop"⟩ ∨ d = ⟨"phone"⟩ := by simpa [notes_homes] using hd
  rcases hd with rfl | rfl
  · exact ⟨⟨7000000, rfl⟩, _, _, List.Perm.refl _, rfl⟩
  · exact ⟨⟨7000000, rfl⟩, _, _, List.Perm.refl _, rfl⟩

/-- The restored row has the time of the backup, which the mirror has behind it: the claim
stays on the laptop, and the phone's row names the phone. -/
theorem a_rescue_from_an_old_backup_does_not_go_out :
    ¬ (∀ (c : Homes) (n : Net), c.Start n → ∀ steps, Ticks steps → c.Along c.Takes n steps →
        c.Quiet (c.run n steps) → ∀ target, c.latest n steps none = some target →
        ∀ d ∈ c.devices, active_device ((c.run n steps).locals d).db c.app = some target.to_string) ∧
    ¬ (∀ (c : Homes) (n : Net), c.Start n → ∀ before d now, Ticks (before ++ [.rescue d now]) →
        c.Along c.Takes n (before ++ [.rescue d now]) →
        (∃ writer created_at, (rescue (c.env d) d ((c.run n before).locals d).db c.app now).2 =
          .ok (.Restored writer created_at)) →
        ∀ later, now < later →
          ShippedBy c (c.step (c.run n (before ++ [.rescue d now])) (.push d later)) d) := by
  have htakes : notes_homes.Along notes_homes.Takes notes_net notes_rescued :=
    Along.append.mpr ⟨notes_take, ⟨by decide, trivial⟩, ⟨by decide, trivial⟩, trivial⟩
  constructor
  · intro h
    have hphone := h notes_homes notes_net notes_fit notes_rescued (by unfold Ticks; decide) htakes
      notes_rescued_quiet ⟨"laptop"⟩ (by decide +kernel) ⟨"phone"⟩ (by decide)
    revert hphone
    decide +kernel
  · intro h
    obtain ⟨o, p, ho, -, hp, hactive⟩ := h notes_homes notes_net notes_fit notes_moved ⟨"laptop"⟩ 5000000
      (by unfold Ticks; decide) (Along.append.mpr ⟨notes_take, ⟨by decide, trivial⟩, trivial⟩)
      ⟨_, _, rfl⟩ 6000000 (by decide)
    have hnames : ((notes_homes.run notes_net notes_rescued).remote.lookup "app/notes").bind
        (fun o => (app_payload (notes_homes.engine_of ⟨"laptop"⟩) o).bind AppPayload.active_device) =
        some "phone" := by
      decide +kernel
    have hthere : (notes_homes.run notes_net notes_rescued).remote.lookup "app/notes" = some o := ho
    rw [hthere, Option.bind_some, hp, Option.bind_some, hactive] at hnames
    revert hnames
    decide

end pai_sync.backup
