-- A migration that may stop anywhere (backup.rs, `apps migrate`): where the app lives
-- while its new home pulls the objects of the old one in any batches.
import PersonalAi.AppPlacement
import PersonalAi.PullIsolation

open pai_core sealing table text pai_sync.engine

namespace pai_sync.backup

/-! ## Two devices -/

/-- The old home of an app and the new one. -/
structure Move where
  source : SyncEngine
  target : SyncEngine
  shelf : Shelf
  app : String
  same_vault : target.vault = source.vault
  apart : target.device.to_string ≠ source.device.to_string

/-- The old home with the transport as it leaves it, the new one, and every object that
the old one has put on the transport so far. -/
structure World where
  source : Site
  target : Local
  sent : List Object

/-- The old home migrates the app, stopping somewhere, or pushes; the new one pulls a batch
of what it sees, and may stop behind any of its objects. -/
inductive Act
  | migrate (snapshot_at placed_at : Timestamp) (stop : Stop)
  | push (now : Timestamp) (troubles : Nat → Option Trouble)
  | pull (batch : List Object) (turns : Nat)

def World.objects (m : Move) (w : World) (batch : List Object) (turns : Nat) : List Object :=
  (pending m.target w.target (View.of batch)).take turns

def Move.step (m : Move) (w : World) : Act → World
  | .migrate snapshot_at placed_at stop =>
    let after :=
      migrate m.shelf m.source.device w.source.db m.app m.target.device snapshot_at placed_at stop
    { w with source := { w.source with db := after.1 } }
  | .push now troubles =>
    let after := (engine.push m.source now troubles w.source).1
    { w with source := after, sent := w.sent ++ after.remote.entries.map Sigma.snd }
  | .pull batch turns =>
    let after := apply_pending m.target w.target SyncOutcome.zero (w.objects m batch turns)
    { w with target := after.1 }

def Move.run (m : Move) (w : World) (acts : List Act) : World := acts.foldl m.step w

/-- A condition on every step of a run and the world before it. -/
def Move.Along (m : Move) (P : World → Act → Prop) : World → List Act → Prop
  | _, [] => True
  | w, a :: acts => P w a ∧ m.Along P (m.step w a) acts

/-- A batch holds what was on the transport at some time, in any order. -/
def World.Sees (w : World) : Act → Prop
  | .pull batch _ => ∀ o ∈ batch, o ∈ w.sent
  | _ => True

/-! ## Where the app lives -/

def holds_data (db : Db) (app_id : String) : Bool :=
  (db.app_dirs.lookup app_id).any (fun dir => dir.data.isSome)

/-- The device holds live data, and its apps row lets the app run there. -/
def runs_here (db : Db) (device : DeviceId) (app_id : String) : Bool :=
  holds_data db app_id && (active_elsewhere db device app_id).isNone

/-- Both devices run the app. -/
def World.split (m : Move) (w : World) : Bool :=
  runs_here w.source.db m.source.device m.app && runs_here w.target.db m.target.device m.app

/-- The turn restores a backup of the app that is flagged for this device. -/
def restores (e : SyncEngine) (db : Db) (o : Object) (app : String) : Bool :=
  match parse_key o.key, open_scoped e db o with
  | .backup rest, some (.backup p, _) =>
    match split_once '/' rest.toList with
    | none => false
    | some (app_id, writer) =>
      let app_id := String.ofList app_id
      let writer := String.ofList writer
      !o.tombstone && p.v = 1 && p.app_id = app_id && p.writer = writer &&
        o.writer.to_string = writer && is_paired db writer &&
        (pai_apps.check_all [app_id, writer]).isOk && p.migrate_to = some e.device.to_string &&
        app_id = app && (restore_unchecked e.env (stored db app_id writer p) app_id writer).2.isOk
  | _, _ => false

/-- The objects that a loop comes to, each with the store that it finds. -/
def came_to (e : SyncEngine) : Db → List Object → List (Object × Db)
  | _, [] => []
  | db, o :: rest =>
    (o, db) :: match open_and_apply e db o with
      | (_, .error _) => []
      | (db, .ok _) => came_to e db rest

/-- Each restore of a flagged backup finds a row that names the new home. -/
def World.Named (m : Move) (w : World) : Act → Prop
  | .pull batch turns =>
    ∀ a ∈ came_to m.target w.target.db (w.objects m batch turns),
      restores m.target a.2 a.1 m.app = true →
        active_device a.2 m.app = some m.target.device.to_string
  | _ => True

/-! ## What a batch brings -/

/-- The live payload of an `app/` object. -/
def app_payload (e : SyncEngine) (o : Object) : Option AppPayload :=
  match parse_key o.key, o.tombstone, open_with (.vault e.vault) o.key o.ciphertext with
  | .app _, false, some (.app p) => some p
  | _, _, _ => none

/-- A backup of the app that is flagged for this device. -/
def flagged (e : SyncEngine) (app : String) (o : Object) : Bool :=
  match parse_key o.key, o.tombstone, open_with (.vault e.vault) o.key o.ciphertext with
  | .backup _, false, some (.backup p) => p.app_id = app && p.migrate_to = some e.device.to_string
  | _, _, _ => false

def accepted (env : Env) (db : Db) (p : AppPayload) : Bool :=
  match env.stage_verdict db.sync_peers p p.id with
  | .ok (.Installed _) => true
  | _ => false

/-- A batch that brings a flagged backup brings the `app/` object too, and that names the
new home; or the row names it already, and the batch brings nothing else. -/
def World.in_order (m : Move) (w : World) : Act → Bool
  | .pull batch turns =>
    let objects := w.objects m batch turns
    let apps := (objects.filterMap (app_payload m.target)).filter (fun p => p.id = m.app)
    !objects.any (flagged m.target m.app) ||
      apps.all (fun p => p.active_device = some m.target.device.to_string) &&
        (apps.any (accepted m.target.env w.target.db) ||
          active_device w.target.db m.app = some m.target.device.to_string)
  | _ => true

/-! ## The old home -/

section Source
variable {db : Db} {app : String}

theorem SameApps.active {db' : Db} (h : SameApps db db') (app : String) :
    active_device db' app = active_device db app := by
  unfold active_device
  rw [h.apps]

theorem SameApps.holds {db' : Db} (h : SameApps db db') (app : String) :
    holds_data db' app = holds_data db app := by
  unfold holds_data
  rw [h.app_dirs]

/-- A snapshot leaves rows and directories alone. -/
theorem create_cases (shelf : Shelf) (device : DeviceId) (db : Db) (app_id : String)
    (migrate_to : Option DeviceId) (now : Timestamp) :
    (create shelf device db app_id migrate_to now).1.apps = db.apps ∧
      (create shelf device db app_id migrate_to now).1.app_dirs = db.app_dirs ∧
      ((active_elsewhere db device app_id).isSome →
        ∃ e, create shelf device db app_id migrate_to now = (db, .error e)) := by
  unfold create
  split
  · exact ⟨rfl, rfl, fun _ => ⟨_, rfl⟩⟩
  · rename_i hnone
    refine ⟨?_, ?_, fun hsome => by simp [hnone] at hsome⟩
    · split
      · rfl
      · split
        · rfl
        · split <;> rfl
    · split
      · rfl
      · split
        · rfl
        · split <;> rfl

theorem place_active (db : Db) (app_id : String) (target : DeviceId) (now : Timestamp) :
    active_device (place db app_id (fun _ => true) target now) app_id = some target.to_string ∨
      place db app_id (fun _ => true) target now = db := by
  unfold place
  split
  · refine .inl ?_
    unfold active_device
    dsimp only
    rw [AList.lookup_insert]
    rfl
  · exact .inr rfl

/-- A migration leaves the store behind one of its steps. -/
theorem migrate_cases (shelf : Shelf) (device : DeviceId) (db : Db) (app_id : String)
    (target : DeviceId) (snapshot_at placed_at : Timestamp) (stop : Stop) :
    let after := (migrate shelf device db app_id target snapshot_at placed_at stop).1
    let made := (create shelf device db app_id (some target) snapshot_at).1
    after = made ∨ after = place made app_id (fun _ => true) target placed_at ∨
      after = deactivate_data (place made app_id (fun _ => true) target placed_at) app_id := by
  unfold migrate
  rcases create shelf device db app_id (some target) snapshot_at with ⟨made, err | _⟩
  · exact .inl rfl
  · cases stop with
    | Snapshot => exact .inl rfl
    | Placed => exact .inr (.inl rfl)
    | Deactivated => exact .inr (.inr rfl)

theorem deactivated_active (db : Db) (app_id : String) :
    active_device (deactivate_data db app_id) app_id = active_device db app_id :=
  congrArg (fun t => (t.lookup app_id).bind AppRow.active_device) (deactivate_same db app_id).apps

theorem deactivated_holds (db : Db) (app_id : String) :
    holds_data (deactivate_data db app_id) app_id = false := by
  unfold holds_data
  rw [deactivate_lookup, Option.any_map]
  cases db.app_dirs.lookup app_id <;> rfl

/-- A migration that stops anywhere gives the app to the new home, or leaves its placement. -/
theorem migrate_home (shelf : Shelf) (device : DeviceId) (db : Db) (app_id : String)
    (target : DeviceId) (snapshot_at placed_at : Timestamp) (stop : Stop) :
    let after := (migrate shelf device db app_id target snapshot_at placed_at stop).1
    active_device after app_id = some target.to_string ∨
      (active_device after app_id = active_device db app_id ∧
        (holds_data after app_id = true → holds_data db app_id = true)) := by
  intro after
  let made := (create shelf device db app_id (some target) snapshot_at).1
  have hafter : after = made ∨ after = place made app_id (fun _ => true) target placed_at ∨
      after = deactivate_data (place made app_id (fun _ => true) target placed_at) app_id :=
    migrate_cases shelf device db app_id target snapshot_at placed_at stop
  obtain ⟨happs, hdirs, -⟩ :
      made.apps = db.apps ∧ made.app_dirs = db.app_dirs ∧ _ :=
    create_cases shelf device db app_id (some target) snapshot_at
  clear_value after made
  have hactive : active_device made app_id = active_device db app_id := by
    unfold active_device
    rw [happs]
  have hholds : holds_data made app_id = true → holds_data db app_id = true := by
    unfold holds_data
    rw [hdirs]
    exact id
  rcases hafter with hmade | hplaced | hdone
  · exact .inr (hmade ▸ ⟨hactive, hholds⟩)
  · rcases place_active made app_id target placed_at with hthere | hsame
    · exact .inl (hplaced ▸ hthere)
    · exact .inr ((hplaced.trans hsame) ▸ ⟨hactive, hholds⟩)
  · have hstill := deactivated_active (place made app_id (fun _ => true) target placed_at) app_id
    have hempty := deactivated_holds (place made app_id (fun _ => true) target placed_at) app_id
    rw [← hdone] at hstill hempty
    rcases place_active made app_id target placed_at with hthere | hsame
    · exact .inl (hstill.trans hthere)
    · rw [hsame] at hstill
      exact .inr ⟨hstill.trans hactive, fun htrue => by rw [hempty] at htrue; cases htrue⟩

/-- An app that lives elsewhere is not migrated. -/
theorem migrate_elsewhere {shelf : Shelf} {device : DeviceId} {app_id : String}
    (helsewhere : (active_elsewhere db device app_id).isSome) (target : DeviceId)
    (snapshot_at placed_at : Timestamp) (stop : Stop) :
    (migrate shelf device db app_id target snapshot_at placed_at stop).1 = db := by
  obtain ⟨-, -, hrefuses⟩ := create_cases shelf device db app_id (some target) snapshot_at
  obtain ⟨err, herr⟩ := hrefuses helsewhere
  unfold migrate
  rw [herr]

end Source

/-! ## The objects of the old home -/

/-- An `app/` or a `bkp/` object as the old home seals it. -/
structure FromSource (e : SyncEngine) (o : Object) : Prop where
  app : ∀ id, parse_key o.key = .app id → ∃ raw,
    open_with (.vault e.vault) o.key o.ciphertext = some raw ∧
      (o.tombstone = false → ∃ p, raw = .app p ∧ p.v = 1 ∧ p.id = id)
  bkp : ∀ rest, parse_key o.key = .backup rest → ∃ raw,
    open_with (.vault e.vault) o.key o.ciphertext = some raw

theorem open_scoped_of_vault {e : SyncEngine} {db : Db} {o : Object} {raw raw' : Plain}
    {circle : Option String} (h : open_with (.vault e.vault) o.key o.ciphertext = some raw)
    (hopen : open_scoped e db o = some (raw', circle)) : raw' = raw := by
  unfold open_scoped at hopen
  rw [h] at hopen
  cases hopen
  rfl

/-- What push makes of the store is as the old home seals it, with the placement that it
has. -/
theorem outgoing_from_source {e e' : SyncEngine} (hvault : e'.vault = e.vault) {db : Db}
    {x : Outgoing} (hx : x ∈ outgoing e db) (writer : DeviceId) :
    FromSource e' (x.object writer) ∧ ∀ p app, app_payload e' (x.object writer) = some p →
      p.id = app → p.active_device = active_device db app := by
  have hopen : x.sealed_under = .vault e.vault →
      open_with (.vault e'.vault) (x.object writer).key (x.object writer).ciphertext = some x.raw := by
    intro hsealed
    unfold Outgoing.object
    rw [hvault, hsealed, open_seal]
  refine ⟨⟨fun id hkey => ?_, fun rest hkey => ?_⟩, fun p app hp happ => ?_⟩
  · obtain ⟨row, hships⟩ := outgoing_of_app hx hkey
    refine ⟨x.raw, hopen hships.sealed_under, fun hlive => ?_⟩
    obtain ⟨dir, -, hraw⟩ := hships.live (hships.tombstone.symm.trans hlive)
    exact ⟨_, hraw, rfl, rfl⟩
  · obtain ⟨app_id, hships⟩ := outgoing_of_backup hx hkey
    exact ⟨x.raw, hopen hships.sealed_under⟩
  · unfold app_payload at hp
    split at hp
    · rename_i id q hkey hlive hraw
      cases hp
      obtain ⟨row, hships⟩ := outgoing_of_app hx hkey
      obtain ⟨dir, -, hships_raw⟩ := hships.live (hships.tombstone.symm.trans hlive)
      rw [hopen hships.sealed_under, hships_raw, Option.some.injEq, Plain.app.injEq] at hraw
      subst hraw
      subst happ
      unfold active_device
      change row.active_device = (db.apps.lookup id).bind _
      rw [hships.there]
      rfl
    · cases hp

/-- A document is no app and no backup. -/
theorem crdt_from_source (e : SyncEngine) {o : Object} {rest : String}
    (hkey : parse_key o.key = .crdt rest) :
    FromSource e o ∧ app_payload e o = none := by
  refine ⟨⟨fun id h => ?_, fun rest' h => ?_⟩, ?_⟩
  · rw [hkey] at h
    cases h
  · rw [hkey] at h
    cases h
  · unfold app_payload
    rw [hkey]

/-! ## The order of a pull -/

theorem app_rank {key id : String} (h : parse_key key = .app id) : kind_rank key = some 8 := by
  have hname := names_parse_key key
  rw [h] at hname
  rw [show key = APP_PREFIX ++ id from hname]
  unfold kind_rank first_part
  rw [String.toList_append]
  rfl

theorem backup_rank {key rest : String} (h : parse_key key = .backup rest) :
    kind_rank key = some 9 := by
  have hname := names_parse_key key
  rw [h] at hname
  rw [show key = BKP_PREFIX ++ rest from hname]
  unfold kind_rank first_part
  rw [String.toList_append]
  rfl

theorem mem_fetched {e : SyncEngine} {l : Local} {objects : List Object} {a : Nat × Object}
    (h : a ∈ (View.of objects).list.filterMap (fetch e l (View.of objects))) :
    a.2 ∈ objects ∧ kind_rank a.2.key = some a.1 := by
  obtain ⟨meta_, -, hfetch⟩ := List.mem_filterMap.mp h
  unfold fetch at hfetch
  split at hfetch
  · cases hfetch
  · rename_i rank hrank
    split at hfetch
    · cases hfetch
    · split at hfetch
      · cases hfetch
      · obtain ⟨o, ho, rfl⟩ := Option.map_eq_some_iff.mp hfetch
        have hkey : o.key = meta_.key := by simpa using List.find?_some ho
        exact ⟨List.mem_of_find?_eq_some ho, hkey ▸ hrank⟩

/-- A pull applies apps before backups, and only what it sees. -/
theorem pending_ordered (e : SyncEngine) (l : Local) (objects : List Object) :
    (∀ o ∈ pending e l (View.of objects), o ∈ objects) ∧
      (pending e l (View.of objects)).Pairwise (fun a b =>
        ∀ id rest, parse_key b.key = .app id → parse_key a.key ≠ .backup rest) := by
  have hsorted := List.pairwise_insertionSort before_or_with
    ((View.of objects).list.filterMap (fetch e l (View.of objects)))
  have hmem : ∀ a, a ∈ ((View.of objects).list.filterMap (fetch e l (View.of objects))).insertionSort
      before_or_with → a.2 ∈ objects ∧ kind_rank a.2.key = some a.1 :=
    fun a ha => mem_fetched ((List.mem_insertionSort _).mp ha)
  refine ⟨fun o ho => ?_, ?_⟩
  · obtain ⟨a, ha, rfl⟩ := List.mem_map.mp ho
    exact (hmem a ha).1
  · unfold pending
    rw [List.pairwise_map]
    refine hsorted.imp_of_mem (fun {a b} ha hb hle id rest happ hbackup => ?_)
    have happ := (hmem b hb).2.symm.trans (app_rank happ)
    have hback := (hmem a ha).2.symm.trans (backup_rank hbackup)
    rw [Option.some.injEq] at happ hback
    unfold before_or_with at hle
    omega

/-! ## One turn of the new home -/

/-- The app is where it was, and holds no data that it did not hold. -/
structure Stays (app : String) (db db' : Db) : Prop where
  active : active_device db' app = active_device db app
  data : holds_data db' app = true → holds_data db app = true

theorem SameApps.stays {db db' : Db} (h : SameApps db db') (app : String) : Stays app db db' :=
  ⟨h.active app, fun hholds => (h.holds app).symm.trans hholds⟩

theorem stays_of_lookup {app : String} {db db' : Db}
    (happs : db'.apps.lookup app = db.apps.lookup app)
    (hdirs : db'.app_dirs.lookup app = db.app_dirs.lookup app) : Stays app db db' := by
  refine ⟨?_, fun hholds => ?_⟩
  · unfold active_device
    rw [happs]
  · unfold holds_data at hholds ⊢
    rwa [hdirs] at hholds

/-- What one turn does to the app. -/
inductive HomeTurn (e : SyncEngine) (app : String) (db : Db) (o : Object) (db' : Db) : Prop
  | stays (h : Stays app db db')
  | takes {p : AppPayload} (payload : app_payload e o = some p) (id : p.id = app)
      (active : active_device db' app = p.active_device)
      (data : holds_data db' app = true →
        holds_data db app = true ∧ p.active_device.any (fun a => decide (a ≠ e.device.to_string)) = false)
  | restores (flagged : flagged e app o = true)
      (active : ∀ a, active_device db app = some a → active_device db' app = some a)

theorem takes_home {e : SyncEngine} {db db' : Db} {o : Object} {p : AppPayload}
    (h : TakesApp e.device db p db') (hp : app_payload e o = some p) (app : String) :
    HomeTurn e app db o db' := by
  by_cases hid : p.id = app
  · subst hid
    refine .takes hp rfl ?_ (fun hholds => ?_)
    · unfold active_device
      rw [h.apps, AList.lookup_insert]
      rfl
    · obtain ⟨d, hd, -, -, hdata⟩ := h.dir
      unfold holds_data at hholds ⊢
      rw [hd, Option.any_some, hdata] at hholds
      cases helse : p.active_device.any (fun a => decide (a ≠ e.device.to_string)) with
      | true =>
        rw [helse] at hholds
        cases hholds
      | false =>
        rw [helse, if_neg Bool.false_ne_true] at hholds
        refine ⟨?_, rfl⟩
        cases hdir : db.app_dirs.lookup p.id with
        | none => simp [hdir] at hholds
        | some dir => simpa [hdir] using hholds
  · refine .stays (stays_of_lookup ?_ (h.dirs app (Ne.symm hid)))
    rw [h.apps]
    exact AList.lookup_insert_ne (Ne.symm hid)

theorem restore_home {env : Env} {db : Db} {app_id writer app : String} :
    (app_id ≠ app → Stays app db (restore_unchecked env db app_id writer).1) ∧
      (app_id = app → ∀ a, active_device db app = some a →
        active_device (restore_unchecked env db app_id writer).1 app = some a) := by
  rcases restore_unchecked_cases env db app_id writer with ⟨hsame, -⟩ | ⟨p, -, hrestores⟩
  · rw [hsame]
    exact ⟨fun _ => stays_of_lookup rfl rfl, fun _ a ha => ha⟩
  · refine ⟨fun hne => stays_of_lookup ?_ (hrestores.dirs app (Ne.symm hne)), ?_⟩
    · rw [hrestores.apps]
      exact AList.lookup_insert_ne (Ne.symm hne)
    · rintro rfl a ha
      unfold active_device at ha ⊢
      rw [hrestores.apps, AList.lookup_insert]
      unfold restored_row
      obtain ⟨row, hrow, hactive⟩ := Option.bind_eq_some_iff.mp ha
      rw [hrow]
      exact hactive

theorem home_turn {e : SyncEngine} {db : Db} {o : Object} (hsource : FromSource e o) (app : String) :
    HomeTurn e app db o (open_and_apply e db o).1 ∧
      (open_and_apply e db o).1.sync_peers = db.sync_peers := by
  have hturn := app_turn e db o
  generalize (open_and_apply e db o).1 = after at hturn ⊢
  cases hturn with
  | other h => exact ⟨.stays (h.stays app), h.sync_peers⟩
  | @app id p circle hkey hlive hopen =>
    obtain ⟨raw, hraw, hpayload⟩ := hsource.app id hkey
    have hsame := open_scoped_of_vault hraw hopen
    subst hsame
    have hp : app_payload e o = some p := by
      unfold app_payload
      rw [hkey, hlive, hraw]
    rcases apply_app_cases e.env e.device db p with hsame | ⟨-, -, htakes⟩
    · exact ⟨.stays (hsame.stays app), hsame.sync_peers⟩
    · exact ⟨takes_home htakes hp app, htakes.sync_peers⟩
  | @gone id hkey =>
    obtain ⟨happs, hdirs, -, -, hpeers⟩ := apply_app_tombstone_cases db id o.updated_at
    refine ⟨.stays ⟨?_, fun hholds => ?_⟩, hpeers⟩
    · unfold active_device
      rw [happs app]
      split
      · rename_i hid
        rw [hid]
        cases db.apps.lookup id <;> rfl
      · rfl
    · unfold holds_data at hholds ⊢
      rcases hdirs app with hsame | ⟨-, hnone⟩
      · rwa [hsame] at hholds
      · rw [hnone] at hholds
        cases hholds
  | @restored rest app_id writer p circle hkey hsplit hlive hopen =>
    obtain ⟨raw, hraw⟩ := hsource.bkp _ hkey
    have hsame := open_scoped_of_vault hraw hopen
    subst hsame
    rcases apply_backup_cases e.env e.device db (String.ofList app_id) (String.ofList writer) o.writer p
      with hsame | ⟨⟨-, hid, -, -⟩, hresult⟩
    · exact ⟨.stays (hsame.stays app), hsame.sync_peers⟩
    · rw [hresult]
      have hstored : Stays app db (stored db (String.ofList app_id) (String.ofList writer) p) :=
        stays_of_lookup rfl rfl
      split
      · rename_i hflag
        have hpeers : (restore_unchecked e.env (stored db (String.ofList app_id) (String.ofList writer) p)
            (String.ofList app_id) (String.ofList writer)).1.sync_peers = db.sync_peers := by
          rcases restore_unchecked_cases e.env (stored db (String.ofList app_id) (String.ofList writer) p)
            (String.ofList app_id) (String.ofList writer) with ⟨hsame, -⟩ | ⟨q, -, hrestores⟩
          · rw [hsame]
            rfl
          · exact hrestores.sync_peers
        refine ⟨?_, hpeers⟩
        obtain ⟨hother, hsame⟩ := @restore_home e.env
          (stored db (String.ofList app_id) (String.ofList writer) p) (String.ofList app_id)
          (String.ofList writer) app
        by_cases happ : String.ofList app_id = app
        · refine .restores ?_ (hsame happ)
          unfold flagged
          rw [hkey, hlive, hraw]
          simp [hid, happ, hflag]
        · exact .stays ⟨(hother happ).active, (hother happ).data⟩
      · exact ⟨.stays hstored, rfl⟩
  | dropped => exact ⟨.stays (stays_of_lookup rfl rfl), rfl⟩

/-! ## A batch -/

theorem payload_source {e : SyncEngine} {o : Object} (hsource : FromSource e o) {p : AppPayload}
    (hp : app_payload e o = some p) : parse_key o.key = .app p.id ∧ p.v = 1 ∧ o.tombstone = false := by
  unfold app_payload at hp
  split at hp
  · rename_i id q hkey hlive hraw
    cases hp
    obtain ⟨raw, hraw', hpayload⟩ := hsource.app id hkey
    rw [hraw, Option.some.injEq] at hraw'
    obtain ⟨p', hp', hv, hid⟩ := hpayload hlive
    rw [← hraw', Plain.app.injEq] at hp'
    subst hp' hid
    exact ⟨hkey, hv, hlive⟩
  · cases hp

/-- An accepted package that comes to its turn is what the row then says. -/
theorem accepted_turn {e : SyncEngine} {db : Db} {o : Object} (hsource : FromSource e o)
    {p : AppPayload} (hp : app_payload e o = some p) (haccepted : accepted e.env db p = true) :
    active_device (open_and_apply e db o).1 p.id = p.active_device := by
  obtain ⟨hkey, hv, hlive⟩ := payload_source hsource hp
  obtain ⟨raw, hraw, hpayload⟩ := hsource.app p.id hkey
  have hsame : raw = .app p := by
    unfold app_payload at hp
    rw [hkey, hlive, hraw] at hp
    split at hp
    · rename_i heq
      cases hp
      cases heq
      rfl
    · cases hp
  subst hsame
  have haccepts : Accepts e.env db p p.id := by
    unfold accepted at haccepted
    split at haccepted
    · rename_i signer hverdict
      exact ⟨signer, hverdict⟩
    · cases haccepted
  have htakes := (apply_app_accepted e.device hv haccepts).2
  have hgrant : ( strip_prefix CKG_PREFIX o.key).isSome = false := by
    have hname := names_parse_key o.key
    rw [hkey] at hname
    rw [show o.key = APP_PREFIX ++ p.id from hname, strip_prefix_other (by decide) (by decide)]
    rfl
  have hresult : (open_and_apply e db o).1 = (apply_app e.env e.device db p).1 := by
    unfold open_and_apply open_scoped apply_obj
    rw [hgrant, hraw, hkey, hlive]
    dsimp only
    rcases apply_app e.env e.device db p with ⟨after, err | _⟩ <;> rfl
  rw [hresult]
  unfold active_device
  rw [htakes.apps, AList.lookup_insert]
  rfl

theorem mem_came_to {e : SyncEngine} {objects : List Object} {db : Db} {a : Object × Db}
    (h : a ∈ came_to e db objects) : a.1 ∈ objects := by
  induction objects generalizing db with
  | nil => cases h
  | cons o rest ih =>
    unfold came_to at h
    rcases List.mem_cons.mp h with rfl | h
    · exact List.mem_cons_self
    · rcases hresult : open_and_apply e db o with ⟨after, err | applied⟩
      · rw [hresult] at h
        cases h
      · rw [hresult] at h
        exact List.mem_cons_of_mem _ (ih h)

theorem restores_backup {e : SyncEngine} {db : Db} {o : Object} {app : String}
    (h : restores e db o app = true) : ∃ rest, parse_key o.key = .backup rest := by
  unfold restores at h
  split at h
  · rename_i rest _ _ hkey _
    exact ⟨rest, hkey⟩
  · cases h

/-- A batch whose `app/` objects name the new home, and that has one where the row does not:
its backups find the row as it should be. -/
theorem batch_named {e : SyncEngine} {app : String} {objects : List Object} {db : Db}
    (hsource : ∀ o ∈ objects, FromSource e o)
    (hnames : ∀ o ∈ objects, ∀ p, app_payload e o = some p → p.id = app →
      p.active_device = some e.device.to_string)
    (horder : objects.Pairwise (fun a b =>
      ∀ id rest, parse_key b.key = .app id → parse_key a.key ≠ .backup rest))
    (hthere : active_device db app = some e.device.to_string ∨
      ∃ o ∈ objects, ∃ p, app_payload e o = some p ∧ p.id = app ∧ accepted e.env db p = true) :
    ∀ a ∈ came_to e db objects, restores e a.2 a.1 app = true →
      active_device a.2 app = some e.device.to_string := by
  induction objects generalizing db with
  | nil =>
    intro a ha
    cases ha
  | cons o rest ih =>
    intro a ha hrestores
    rw [List.pairwise_cons] at horder
    unfold came_to at ha
    rcases List.mem_cons.mp ha with rfl | ha
    · -- a backup comes behind the apps, so that none of them is left
      rcases hthere with hthere | ⟨x, hx, p, hp, -, -⟩
      · exact hthere
      · obtain ⟨tail, hbackup⟩ := restores_backup hrestores
        rcases List.mem_cons.mp hx with rfl | hx
        · rw [(payload_source (hsource x hx) hp).1] at hbackup
          cases hbackup
        · exact absurd hbackup (horder.1 x hx p.id tail
            (payload_source (hsource x (List.mem_cons_of_mem _ hx)) hp).1)
    · obtain ⟨hturn, hpeers⟩ := @home_turn e db o (hsource o List.mem_cons_self) app
      have hstill : active_device db app = some e.device.to_string →
          active_device (open_and_apply e db o).1 app = some e.device.to_string := by
        intro hhere
        cases hturn with
        | stays h => exact h.active.trans hhere
        | takes hp hid hactive _ => exact hactive.trans (hnames o List.mem_cons_self _ hp hid)
        | restores _ hkeeps => exact hkeeps _ hhere
      have hnext : active_device (open_and_apply e db o).1 app = some e.device.to_string ∨
          ∃ x ∈ rest, ∃ p, app_payload e x = some p ∧ p.id = app ∧
            accepted e.env (open_and_apply e db o).1 p = true := by
        rcases hthere with hthere | ⟨x, hx, p, hp, hid, haccepted⟩
        · exact .inl (hstill hthere)
        · rcases List.mem_cons.mp hx with rfl | hx
          · refine .inl ?_
            rw [← hid, accepted_turn (hsource x List.mem_cons_self) hp haccepted]
            exact hnames x List.mem_cons_self p hp hid
          · refine .inr ⟨x, hx, p, hp, hid, ?_⟩
            unfold accepted at haccepted ⊢
            rwa [hpeers]
      rcases hresult : open_and_apply e db o with ⟨after, err | applied⟩
      · rw [hresult] at ha
        cases ha
      · rw [hresult] at ha hnext
        exact ih (fun x hx => hsource x (List.mem_cons_of_mem _ hx))
          (fun x hx => hnames x (List.mem_cons_of_mem _ hx)) horder.2 hnext a ha hrestores

/-- What each turn keeps, a pull keeps. -/
theorem apply_pending_keeps {e : SyncEngine} {I : Db → Prop} {objects : List Object}
    (h : ∀ o ∈ objects, ∀ db, I db → I (open_and_apply e db o).1) {l : Local} (hl : I l.db)
    (out : SyncOutcome) : I (apply_pending e l out objects).1.db := by
  induction objects generalizing l out with
  | nil => exact hl
  | cons o rest ih =>
    have hone := h o List.mem_cons_self l.db hl
    have hrest := fun x hx => h x (List.mem_cons_of_mem o hx)
    unfold apply_pending pull_one
    rcases hresult : open_and_apply e l.db o with ⟨after, err | _ | _⟩
    · rw [hresult] at hone
      exact hone
    · rw [hresult] at hone
      exact ih hrest (l := { l with db := after }) hone _
    · rw [hresult] at hone
      exact ih hrest (l := set_mirror { l with db := after } o) hone _

/-! ## The invariant -/

/-- Nothing is on the transport yet, the new home is not one, and the app does not run on
both; where no home is named, the new one holds no data. -/
structure Move.Start (m : Move) (w : World) : Prop where
  sent : w.sent = []
  remote : w.source.remote = ∅
  target : active_device w.target.db m.app ≠ some m.target.device.to_string
  one : w.split m = false
  unplaced : active_device w.source.db m.app = none → holds_data w.target.db m.app = false

/-- The new home of an app that is still with the old one: it does not run the app, or the
old home does not, and it will not be told that the app has no home. -/
structure Calm (m : Move) (source target : Db) : Prop where
  elsewhere : active_device target m.app ≠ some m.target.device.to_string
  one : runs_here source m.source.device m.app = false ∨ holds_data target m.app = false ∨
    ((active_elsewhere target m.target.device m.app).isSome ∧ active_device source m.app ≠ none)

/-- The objects on the transport tell what the old home's row says. -/
def World.Told (m : Move) (w : World) (o : Object) : Prop :=
  ∀ p, app_payload m.target o = some p → p.id = m.app →
    p.active_device = active_device w.source.db m.app

/-- The old home's row names the new one, or the migration has not got so far. -/
structure World.Sound (m : Move) (w : World) : Prop where
  sent : ∀ o ∈ w.sent, FromSource m.target o
  remote : ∀ key o, w.source.remote.lookup key = some o → FromSource m.target o
  phase : active_device w.source.db m.app = some m.target.device.to_string ∨
    (Calm m w.source.db w.target.db ∧ (∀ o ∈ w.sent, w.Told m o) ∧
      ∀ key o, w.source.remote.lookup key = some o → w.Told m o)

theorem Move.Start.sound {m : Move} {w : World} (h : m.Start w) : w.Sound m := by
  have hnothing : ∀ key o, w.source.remote.lookup key ≠ some o := by
    intro key o hlookup
    rw [h.remote] at hlookup
    cases hlookup
  refine ⟨fun o ho => ?_, fun key o ho => absurd ho (hnothing key o),
    .inr ⟨⟨h.target, ?_⟩, fun o ho => ?_, fun key o ho => absurd ho (hnothing key o)⟩⟩
  · rw [h.sent] at ho
    cases ho
  · have hone := h.one
    unfold World.split at hone
    rw [Bool.and_eq_false_iff] at hone
    rcases hone with hsource | htarget
    · exact .inl hsource
    · unfold runs_here at htarget
      rw [Bool.and_eq_false_iff] at htarget
      rcases htarget with hdata | helse
      · exact .inr (.inl hdata)
      · cases hplace : active_device w.source.db m.app with
        | none => exact .inr (.inl (h.unplaced hplace))
        | some a =>
          refine .inr (.inr ⟨?_, by simp⟩)
          simpa using helse
  · rw [h.sent] at ho
    cases ho

/-- Where the old home's row names the new one, it does not run the app. -/
theorem not_split_of_named {m : Move} {w : World}
    (h : active_device w.source.db m.app = some m.target.device.to_string) : w.split m = false := by
  have helsewhere : active_elsewhere w.source.db m.source.device m.app =
      some m.target.device.to_string := by
    unfold active_elsewhere
    rw [h, Option.filter_some, if_pos (by simpa using m.apart)]
  unfold World.split runs_here
  rw [helsewhere]
  simp

theorem Calm.not_split {m : Move} {w : World} (h : Calm m w.source.db w.target.db) :
    w.split m = false := by
  unfold World.split
  rcases h.one with hsource | hdata | ⟨helse, -⟩
  · rw [hsource, Bool.false_and]
  · unfold runs_here
    rw [hdata, Bool.false_and, Bool.and_false]
  · unfold runs_here
    obtain ⟨a, ha⟩ := Option.isSome_iff_exists.mp helse
    rw [ha]
    simp

/-- The old home changes, but not its placement. -/
theorem Calm.source {m : Move} {source source' target : Db} (h : Calm m source target)
    (hactive : active_device source' m.app = active_device source m.app)
    (hholds : holds_data source' m.app = true → holds_data source m.app = true) :
    Calm m source' target := by
  refine ⟨h.elsewhere, ?_⟩
  rcases h.one with hsource | hdata | ⟨helse, hplaced⟩
  · refine .inl ?_
    unfold runs_here active_elsewhere at hsource ⊢
    rw [hactive]
    rw [Bool.and_eq_false_iff] at hsource ⊢
    refine hsource.imp (fun hnot => ?_) id
    cases hholds' : holds_data source' m.app with
    | false => rfl
    | true => rw [hholds hholds'] at hnot; cases hnot
  · exact .inr (.inl hdata)
  · exact .inr (.inr ⟨helse, hactive ▸ hplaced⟩)

theorem World.Sound.migrate {m : Move} {w : World} (h : w.Sound m) (snapshot_at placed_at : Timestamp)
    (stop : Stop) : (m.step w (.migrate snapshot_at placed_at stop)).Sound m := by
  refine ⟨h.sent, h.remote, ?_⟩
  rcases h.phase with hnamed | ⟨hcalm, hsent, hremote⟩
  · refine .inl ?_
    have helsewhere : (active_elsewhere w.source.db m.source.device m.app).isSome := by
      unfold active_elsewhere
      rw [hnamed, Option.filter_some, if_pos (by simpa using m.apart)]
      rfl
    change active_device (backup.migrate _ _ _ _ _ _ _ _).1 m.app = _
    rw [migrate_elsewhere helsewhere]
    exact hnamed
  · rcases migrate_home m.shelf m.source.device w.source.db m.app m.target.device snapshot_at placed_at
      stop with hnamed | ⟨hactive, hholds⟩
    · exact .inl hnamed
    · refine .inr ⟨hcalm.source hactive hholds, fun o ho p hp hid => ?_, fun key o ho p hp hid => ?_⟩
      · exact (hsent o ho p hp hid).trans hactive.symm
      · exact (hremote key o ho p hp hid).trans hactive.symm

theorem World.Sound.push {m : Move} {w : World} (h : w.Sound m) (now : Timestamp)
    (troubles : Nat → Option Trouble) : (m.step w (.push now troubles)).Sound m := by
  have hsame := push_same m.source now troubles w.source
  have hstored : ∀ key o, (engine.push m.source now troubles w.source).1.remote.lookup key = some o →
      w.source.remote.lookup key = some o ∨ (FromSource m.target o ∧ w.Told m o) := by
    intro key o ho
    rcases push_stored m.source now troubles w.source ho with hold | ⟨x, hx, rfl⟩ | ⟨rest, hkey⟩
    · exact .inl hold
    · obtain ⟨hsource, htold⟩ := outgoing_from_source m.same_vault hx m.source.device
      exact .inr ⟨hsource, fun p hp hid => htold p m.app hp hid⟩
    · obtain ⟨hsource, hnone⟩ := crdt_from_source m.target hkey
      refine .inr ⟨hsource, fun p hp _ => ?_⟩
      rw [hnone] at hp
      cases hp
  change World.Sound m
    { w with source := (engine.push m.source now troubles w.source).1,
             sent := w.sent ++
               (engine.push m.source now troubles w.source).1.remote.entries.map Sigma.snd }
  generalize (engine.push m.source now troubles w.source).1 = after at hsame hstored ⊢
  have hactive := hsame.active m.app
  have hentry : ∀ o ∈ after.remote.entries.map Sigma.snd, ∃ key, after.remote.lookup key = some o := by
    intro o ho
    obtain ⟨⟨key, o⟩, hmem, rfl⟩ := List.mem_map.mp ho
    exact ⟨key, lookup_eq_some.mpr hmem⟩
  have hremote : ∀ key o, after.remote.lookup key = some o → FromSource m.target o := by
    intro key o ho
    rcases hstored key o ho with hold | hnew
    · exact h.remote key o hold
    · exact hnew.1
  refine ⟨fun o ho => ?_, hremote, ?_⟩
  · rcases List.mem_append.mp ho with hold | hnew
    · exact h.sent o hold
    · obtain ⟨key, hkey⟩ := hentry o hnew
      exact hremote key o hkey
  · rcases h.phase with hnamed | ⟨hcalm, hsent, htold⟩
    · exact .inl (hactive.trans hnamed)
    · have hstill : ∀ key o, after.remote.lookup key = some o → w.Told m o := by
        intro key o ho
        rcases hstored key o ho with hold | hnew
        · exact htold key o hold
        · exact hnew.2
      refine .inr ⟨hcalm.source hactive (fun hholds => (hsame.holds m.app).symm.trans hholds),
        fun o ho p hp hid => ?_, fun key o ho p hp hid => ?_⟩
      · refine Eq.trans ?_ hactive.symm
        rcases List.mem_append.mp ho with hold | hnew
        · exact hsent o hold p hp hid
        · obtain ⟨key, hkey⟩ := hentry o hnew
          exact hstill key o hkey p hp hid
      · exact (hstill key o ho p hp hid).trans hactive.symm

/-- A turn over an object that tells what the old home's row says, and that is no flagged
backup. -/
theorem Calm.turn {m : Move} {source target : Db} (h : Calm m source target) {o : Object}
    (hsource : FromSource m.target o)
    (htold : ∀ p, app_payload m.target o = some p → p.id = m.app →
      p.active_device = active_device source m.app)
    (hplace : active_device source m.app ≠ some m.target.device.to_string)
    (hflagged : flagged m.target m.app o = false) :
    Calm m source (open_and_apply m.target target o).1 := by
  cases (@home_turn m.target target o hsource m.app).1 with
  | stays hstays =>
    refine ⟨by rw [hstays.active]; exact h.elsewhere, ?_⟩
    rcases h.one with hsource | hdata | ⟨helse, hplaced⟩
    · exact .inl hsource
    · refine .inr (.inl ?_)
      cases hafter : holds_data (open_and_apply m.target target o).1 m.app with
      | false => rfl
      | true => rw [hstays.data hafter] at hdata; cases hdata
    · refine .inr (.inr ⟨?_, hplaced⟩)
      unfold active_elsewhere at helse ⊢
      rwa [hstays.active]
  | @takes p hp hid hactive hdata =>
    have htells : p.active_device = active_device source m.app := htold p hp hid
    refine ⟨by rw [hactive, htells]; exact hplace, ?_⟩
    cases hafter : holds_data (open_and_apply m.target target o).1 m.app with
    | false => exact .inr (.inl rfl)
    | true =>
      -- the data stayed, so the object names no other device: there is no home
      obtain ⟨hheld, hhere⟩ := hdata hafter
      have hnone : active_device source m.app = none := by
        cases hsome : active_device source m.app with
        | none => rfl
        | some a =>
          rw [htells, hsome, Option.any_some, decide_eq_false_iff_not, not_not] at hhere
          exact absurd (hsome.trans (congrArg some hhere)) hplace
      rcases h.one with hsource | hempty | ⟨-, hplaced⟩
      · exact .inl hsource
      · rw [hempty] at hheld
        cases hheld
      · exact absurd hnone hplaced
  | restores hflag _ =>
    rw [hflagged] at hflag
    cases hflag

/-- The objects of a batch, and what the condition says of them. -/
theorem batch_names {m : Move} {w : World} {batch : List Object} {turns : Nat}
    (hcond : w.in_order m (.pull batch turns) = true)
    (hflagged : (w.objects m batch turns).any (flagged m.target m.app) = true) :
    (∀ o ∈ w.objects m batch turns, ∀ p, app_payload m.target o = some p → p.id = m.app →
        p.active_device = some m.target.device.to_string) ∧
      (active_device w.target.db m.app = some m.target.device.to_string ∨
        ∃ o ∈ w.objects m batch turns, ∃ p, app_payload m.target o = some p ∧ p.id = m.app ∧
          accepted m.target.env w.target.db p = true) := by
  unfold World.in_order at hcond
  simp only [hflagged, Bool.not_true, Bool.false_or, Bool.and_eq_true, Bool.or_eq_true,
    List.all_eq_true, List.any_eq_true, List.mem_filter, List.mem_filterMap, decide_eq_true_eq] at hcond
  refine ⟨fun o ho p hp hid => hcond.1 p ⟨⟨o, ho, hp⟩, hid⟩, ?_⟩
  rcases hcond.2 with ⟨p, ⟨⟨o, ho, hp⟩, hid⟩, haccepted⟩ | hnamed
  · exact .inr ⟨o, ho, p, hp, hid, haccepted⟩
  · exact .inl hnamed

theorem World.Sound.objects {m : Move} {w : World} (h : w.Sound m) {batch : List Object} {turns : Nat}
    (hsees : w.Sees (.pull batch turns)) :
    ∀ o ∈ w.objects m batch turns, o ∈ w.sent ∧ FromSource m.target o := by
  intro o ho
  have hmem : o ∈ w.sent :=
    hsees o ((pending_ordered m.target w.target batch).1 o (List.mem_of_mem_take ho))
  exact ⟨hmem, h.sent o hmem⟩

theorem World.Sound.pull {m : Move} {w : World} (h : w.Sound m) {batch : List Object} {turns : Nat}
    (hsees : w.Sees (.pull batch turns)) (hcond : w.in_order m (.pull batch turns) = true) :
    (m.step w (.pull batch turns)).Sound m := by
  refine ⟨h.sent, h.remote, ?_⟩
  by_cases hnamed : active_device w.source.db m.app = some m.target.device.to_string
  · exact .inl hnamed
  rcases h.phase with hthere | ⟨hcalm, hsent, hremote⟩
  · exact absurd hthere hnamed
  refine .inr ⟨?_, hsent, hremote⟩
  have hnone : ∀ o ∈ w.objects m batch turns, flagged m.target m.app o = false := by
    intro o ho
    cases hflag : flagged m.target m.app o with
    | false => rfl
    | true =>
      -- a batch in order would name the new home, which the old one does not
      obtain ⟨hnames, hthere⟩ := batch_names hcond (List.any_eq_true.mpr ⟨o, ho, hflag⟩)
      rcases hthere with hthere | ⟨x, hx, p, hp, hid, -⟩
      · exact absurd hthere hcalm.elsewhere
      · have htells := hsent x (h.objects hsees x hx).1 p hp hid
        exact absurd (htells.symm.trans (hnames x hx p hp hid)) hnamed
  exact apply_pending_keeps (I := Calm m w.source.db)
    (fun o ho db hdb => hdb.turn (h.objects hsees o ho).2 (hsent o (h.objects hsees o ho).1) hnamed
      (hnone o ho)) hcalm _

theorem World.Sound.step {m : Move} {w : World} (h : w.Sound m) (a : Act) (hsees : w.Sees a)
    (hcond : w.in_order m a = true) : (m.step w a).Sound m := by
  cases a with
  | migrate snapshot_at placed_at stop => exact h.migrate snapshot_at placed_at stop
  | push now troubles => exact h.push now troubles
  | pull batch turns => exact h.pull hsees hcond

theorem flagged_of_restores {e : SyncEngine} {db : Db} {o : Object} (hsource : FromSource e o)
    {app : String} (h : restores e db o app = true) : flagged e app o = true := by
  unfold restores at h
  split at h
  · rename_i rest p circle hkey hopen
    obtain ⟨raw, hraw⟩ := hsource.bkp rest hkey
    have hsame := open_scoped_of_vault hraw hopen
    subst hsame
    split at h
    · cases h
    · simp only [Bool.and_eq_true, decide_eq_true_eq, Bool.not_eq_true'] at h
      obtain ⟨⟨⟨⟨⟨⟨⟨⟨⟨hlive, -⟩, hid⟩, -⟩, -⟩, -⟩, -⟩, hflag⟩, happ⟩, -⟩ := h
      unfold flagged
      rw [hkey, hlive, hraw]
      simp [hid, happ, hflag]
  · cases h

/-- In a batch that is in order a flagged backup finds the row that names the new home. -/
theorem World.Sound.named {m : Move} {w : World} (h : w.Sound m) (a : Act) (hsees : w.Sees a)
    (hcond : w.in_order m a = true) : w.Named m a := by
  cases a with
  | migrate snapshot_at placed_at stop => trivial
  | push now troubles => trivial
  | pull batch turns =>
    intro a ha hrestores
    have hsource := fun o ho => (h.objects hsees o ho).2
    have hmem : a.1 ∈ w.objects m batch turns := mem_came_to ha
    obtain ⟨hnames, hthere⟩ := batch_names hcond
      (List.any_eq_true.mpr ⟨a.1, hmem, flagged_of_restores (hsource a.1 hmem) hrestores⟩)
    exact batch_named hsource hnames
      ((pending_ordered m.target w.target batch).2.sublist (List.take_sublist turns _)) hthere a ha
      hrestores

theorem World.Sound.run {m : Move} {w : World} (h : w.Sound m) (acts : List Act)
    (hsees : m.Along (fun w a => w.Sees a) w acts)
    (hcond : m.Along (fun w a => w.in_order m a = true) w acts) :
    (m.run w acts).Sound m ∧ m.Along (fun w a => w.Named m a) w acts := by
  induction acts generalizing w with
  | nil => exact ⟨h, trivial⟩
  | cons a acts ih =>
    obtain ⟨hrun, hnamed⟩ := ih (h.step a hsees.1 hcond.1) hsees.2 hcond.2
    exact ⟨hrun, h.named a hsees.1 hcond.1, hnamed⟩

/-! ## Every run -/

/-- A migration that may stop behind any of its steps, pushes of the old home and pulls of
the new one, each with any batch: when the batches that bring the flagged backup are in order,
it is restored under a row that names the new home, and the app never runs on both devices. -/
theorem a_migration_does_not_split_an_app_when_batches_are_in_order (m : Move) {w : World}
    (hstart : m.Start w) (acts : List Act) (hsees : m.Along (fun w a => w.Sees a) w acts)
    (hcond : m.Along (fun w a => w.in_order m a = true) w acts) :
    m.Along (fun w a => w.Named m a) w acts ∧ (m.run w acts).split m = false := by
  obtain ⟨hsound, hnamed⟩ := hstart.sound.run acts hsees hcond
  refine ⟨hnamed, ?_⟩
  rcases hsound.phase with hthere | ⟨hcalm, -, -⟩
  · exact not_split_of_named hthere
  · exact hcalm.not_split

/-! ### Notes move from the laptop to the phone -/

def notes_env : Env where
  serde_error := fun _ => "expected value"
  stage_verdict := fun _ _ _ => .ok (.Installed ⟨"laptop"⟩)
  doc_text := fun _ => .invalid (.Sync "expected value")
  now_ms := 0

def notes_move : Move where
  source := { device := ⟨"laptop"⟩, vault := ⟨0, 0⟩, env := notes_env }
  target := { device := ⟨"phone"⟩, vault := ⟨0, 0⟩, env := notes_env }
  shelf :=
    { load := fun _ => .ok { name := "Notes", version := "1.0.0", runtime := "wasm" },
      snapshot_data := fun db app_id => .ok (((db.app_dirs.lookup app_id).bind AppDir.data).getD []) }
  app := "notes"
  same_vault := rfl
  apart := by decide

def notes_world : World where
  source :=
    { db :=
        { Db.fresh [] with
          apps := AList.singleton "notes"
            { name := "Notes", version := "1.0.0", runtime := "wasm", updated_at := 1000000,
              deleted := false, active_device := none },
          app_dirs := AList.singleton "notes"
            { files := [], signature := .inr [], auth := none,
              data := some [{ path := "todo.txt", b64 := .inr [1] }] } },
      sync_objects := ∅, remote := ∅ }
  target := { db := Db.fresh [⟨⟨"laptop"⟩, ⟨⟨"laptop"⟩⟩, ⟨⟨"laptop"⟩⟩⟩], sync_objects := ∅ }
  sent := []

/-- The laptop migrates its notes, stopping where it says, and pushes; the phone pulls all of it. -/
def notes_acts (stop : Stop) : List Act :=
  let shipped := [.migrate 2000000 3000000 stop, .push 4000000 (fun _ => none)]
  let batch := (notes_move.run notes_world shipped).sent
  shipped ++ [.pull batch batch.length]

theorem notes_start : notes_move.Start notes_world where
  sent := rfl
  remote := rfl
  target := by decide
  one := by decide +kernel
  unplaced := by decide +kernel

theorem notes_seen (stop : Stop) :
    notes_move.Along (fun w a => w.Sees a) notes_world (notes_acts stop) :=
  ⟨trivial, trivial, fun _ ho => ho, trivial⟩

theorem notes_move_to_the_phone :
    notes_move.Along (fun w a => w.Named notes_move a) notes_world (notes_acts .Deactivated) ∧
      (notes_move.run notes_world (notes_acts .Deactivated)).split notes_move = false :=
  a_migration_does_not_split_an_app_when_batches_are_in_order notes_move notes_start
    (notes_acts .Deactivated) (notes_seen .Deactivated)
    ⟨rfl, rfl, by decide +kernel, trivial⟩

/-- The snapshot goes out with the flag and no claim of the phone; the phone restores it,
and the laptop has not stopped. -/
theorem a_snapshot_alone_splits_an_app :
    ¬ (∀ (m : Move) (w : World), m.Start w → ∀ acts, m.Along (fun w a => w.Sees a) w acts →
        m.Along (fun w a => w.Named m a) w acts) ∧
    ¬ (∀ (m : Move) (w : World), m.Start w → ∀ acts, m.Along (fun w a => w.Sees a) w acts →
        (m.run w acts).split m = false) := by
  constructor
  · intro h
    obtain ⟨-, -, hnamed, -⟩ := h notes_move notes_world notes_start (notes_acts .Snapshot)
      (notes_seen .Snapshot)
    have hfalse : ¬ ∀ a ∈ came_to notes_move.target notes_world.target.db
        (notes_world.objects notes_move (notes_move.run notes_world
          [.migrate 2000000 3000000 .Snapshot, .push 4000000 (fun _ => none)]).sent 2),
        restores notes_move.target a.2 a.1 notes_move.app = true →
          active_device a.2 notes_move.app = some notes_move.target.device.to_string := by
      decide +kernel
    exact hfalse hnamed
  · intro h
    have hsplit := h notes_move notes_world notes_start (notes_acts .Snapshot) (notes_seen .Snapshot)
    revert hsplit
    decide +kernel

end pai_sync.backup
