-- Rows and vault keys (rotate.rs, engine.rs): devices that edit and sync rows while they pair
-- and rotate, what each object is sealed under, and what each device holds of a row.
import PersonalAi.PlacementTurns

open pai_core sealing table text pai_sync.engine pai_sync.backup

namespace pai_sync.rotate

/-! ## Devices, keys and rows -/

/-- The devices that sync through one folder, with what stands outside each of them. -/
structure Mesh where
  devices : List DeviceId
  env : DeviceId → Env

/-- The keys and the peers of the devices with the rotation objects, and their stores with the
folder. The engine skips the rotation objects, so they stand apart. -/
structure World where
  system : System
  net : Net

/-- A device writes a row or deletes it softly, pushes or pulls; or some device takes a step
of a pairing or of a rotation. -/
inductive Act
  | edit (d : DeviceId) (k : RowKind) (id : String) (row : Row k)
  | push (d : DeviceId) (now : Timestamp)
  | pull (d : DeviceId) (listing : List Object)
  | turn (a : Step)

def Mesh.engine_of (c : Mesh) (d : DeviceId) (vault : VaultKey) : SyncEngine :=
  { device := d, vault := vault, env := c.env d }

/-- A document comes with its blob. -/
def blobs_of : (k : RowKind) → k.Columns → List Bytes
  | .document, columns => [columns.blob]
  | _, _ => []

def write (db : Db) (k : RowKind) (id : String) (row : Row k) : Db :=
  { db.set_rows k ((db.rows k).insert id row) with blobs := blobs_of k row.columns ++ db.blobs }

/-- A device without a vault key neither pushes nor pulls. -/
def Mesh.step (c : Mesh) (w : World) : Act → World
  | .edit d k id row =>
    { w with
      net := w.net.put d
        { w.net.site d with
          toLocal := { w.net.locals d with db := write (w.net.locals d).db k id row } } }
  | .push d now =>
    match (w.system.devices d).vault with
    | none => w
    | some vault =>
      { w with
        net := w.net.put d (engine.push (c.engine_of d vault) now (fun _ => none) (w.net.site d)).1 }
  | .pull d listing =>
    match (w.system.devices d).vault with
    | none => w
    | some vault =>
      { w with
        net := w.net.put d
          { w.net.site d with
            toLocal := (engine.pull (c.engine_of d vault) (w.net.locals d) (View.of listing)).1 } }
  | .turn a => { w with system := w.system.step a }

def Mesh.run (c : Mesh) (w : World) (acts : List Act) : World := acts.foldl c.step w

/-- A condition on every step of a run and the state before it. -/
def Mesh.Along (c : Mesh) (P : World → Act → Prop) : World → List Act → Prop
  | _, [] => True
  | w, a :: acts => P w a ∧ c.Along P (c.step w a) acts

/-- Nothing is written yet; keys and peers are as they may be. -/
def fresh (system : System) (peers : DeviceId → List SyncPeer) : World :=
  { system := system,
    net := { locals := fun d => { db := Db.fresh (peers d), sync_objects := ∅ }, remote := ∅ } }

/-- A row is synchronized, and under the vault key; a pull sees the folder, in any order. -/
def Mesh.Takes (c : Mesh) (w : World) : Act → Prop
  | .edit d k _ row =>
    d ∈ c.devices ∧ row.sync_scope = "synchronized" ∧ circle_of k row.columns = none
  | .push d _ => d ∈ c.devices
  | .pull d listing => d ∈ c.devices ∧ listing.Perm w.net.stored
  | .turn _ => True

/-- No push changes anything any more, and no pull, which goes through. -/
def Mesh.Quiet (c : Mesh) (w : World) (vault : VaultKey) : Prop :=
  ∀ d ∈ c.devices,
    (∃ now, (engine.push (c.engine_of d vault) now (fun _ => none) (w.net.site d)).1 = w.net.site d) ∧
    ∃ listing out, listing.Perm w.net.stored ∧
      engine.pull (c.engine_of d vault) (w.net.locals d) (View.of listing) =
        (w.net.locals d, .ok out)

/-- Every device holds this vault key. -/
def Mesh.Shares (c : Mesh) (w : World) (vault : VaultKey) : Prop :=
  ∀ d ∈ c.devices, (w.system.devices d).vault = some vault

/-- The object opens under the vault key. -/
def Readable (vault : VaultKey) (o : Object) : Prop :=
  (open_with (.vault vault) o.key o.ciphertext).isSome = true

/-- The row shows the edit. -/
structure Same {k : RowKind} (edit row : Row k) : Prop where
  updated : row.updated_at = edit.updated_at
  deleted : row.deleted = edit.deleted
  columns : edit.deleted = false → row.columns = edit.columns

/-- The edit is held; of a deletion, nothing need be held at all. -/
def Holds {k : RowKind} (edit : Row k) (held : Option (Row k)) : Prop :=
  (held = none ∧ edit.deleted = true) ∨ ∃ row, held = some row ∧ Same edit row

/-! ## The condition -/

/-- The version is above all that is held and stored of the row. -/
def Newest (c : Mesh) (w : World) (k : RowKind) (id : String) (version : Nat) : Prop :=
  (∀ d ∈ c.devices, ∀ row, (w.net.locals d).db.row k id = some row →
      version_of row.updated_at < version) ∧
    ∀ o, w.net.remote.lookup (k.PREFIX ++ id) = some o → o.version < version

/-- An edit of the row is its newest, and a push of the row covers nothing newer. -/
def Mesh.Clean (c : Mesh) (k : RowKind) (id : String) (w : World) : Act → Prop
  | .edit _ k' id' row => k' = k ∧ id' = id → Newest c w k id (version_of row.updated_at)
  | .push d _ =>
    ∀ row, (w.net.locals d).db.row k id = some row →
      mirror_version (w.net.locals d) (k.PREFIX ++ id) < version_of row.updated_at →
      ∀ o, w.net.remote.lookup (k.PREFIX ++ id) = some o → o.version ≤ version_of row.updated_at
  | _ => True

/-- The step takes another vault key into use on the device. -/
def Rekeys (s : System) (a : Step) (d : DeviceId) : Prop :=
  ∃ vault, (s.devices d).vault = some vault ∧ ((s.step a).devices d).vault ≠ some vault

/-- What is held is as new as the object. -/
def Reached {k : RowKind} (o : Object) (held : Option (Row k)) : Prop :=
  (held = none ∧ o.tombstone = true) ∨ ∃ row, held = some row ∧ o.updated_at ≤ row.updated_at

/-- The device that wrote the object of the row changes its key when all devices have it. -/
def Mesh.HandsOver (c : Mesh) (k : RowKind) (id : String) (w : World) : Act → Prop
  | .turn a =>
    ∀ o, w.net.remote.lookup (k.PREFIX ++ id) = some o → Rekeys w.system a o.writer →
      ∀ d ∈ c.devices, Reached o ((w.net.locals d).db.row k id)
  | _ => True

/-- A device changes its key when it has no object in the folder. -/
def LeavesNone (w : World) : Act → Prop
  | .turn a => ∀ key o, w.net.remote.lookup key = some o → ¬ Rekeys w.system a o.writer
  | _ => True

/-! ## Rows and their objects -/

/-- All rows of the store are synchronized under the vault key, with their blobs, and it has
nothing else to push. -/
structure Kept (db : Db) : Prop where
  scope : ∀ k id row, db.row k id = some row →
    row.sync_scope = "synchronized" ∧ circle_of k row.columns = none
  blobs : ∀ k id row, db.row k id = some row → ∀ b ∈ blobs_of k row.columns, b ∈ db.blobs
  messages : db.messages.entries = []
  apps : db.apps.entries = []
  backups : db.app_backups.entries = []

/-- The object of a row, as a device with this vault key seals it. -/
structure Sent (vault : VaultKey) {k : RowKind} (id : String) (row : Row k) (o : Object) : Prop where
  key : o.key = k.PREFIX ++ id
  version : o.version = version_of row.updated_at
  updated : o.updated_at = row.updated_at
  tombstone : o.tombstone = row.deleted
  scope : row.sync_scope = "synchronized"
  circle : circle_of k row.columns = none
  readable : ∀ vault', Readable vault' o ↔ vault' = vault
  no_circle : ∀ key, open_with (.circle key) o.key o.ciphertext = none
  opens : ∀ e : SyncEngine, e.vault = vault →
    (∃ change, change_of e o = some change ∧ engine.Finds id row change) ∨
      ∀ db, ∃ err, open_and_apply e db o = (db, .error err)

variable {c : Mesh} {w : World} {d : DeviceId} {db : Db} {k : RowKind} {id : String}

theorem Kept.key (h : Kept db) (e : SyncEngine) {row : Row k} (hrow : db.row k id = some row) :
    row_key e db k row = some (.vault e.vault) := by
  by_cases hk : k = .document
  · subst hk
    have hblob : row.columns.blob ∈ db.blobs := h.blobs _ id row hrow _ (List.mem_singleton_self _)
    exact if_pos (.inr hblob)
  · exact row_key_vault hk e db (h.scope k id row hrow).2

theorem has_blob_payload (db : Db) (k : RowKind) (id : String) (row : Row k) :
    has_blob k (payload_of db k id row).body = true := by
  cases k <;> rfl

/-- What push makes of a row is its object, under the key of the device. -/
theorem sent_of_ships {e : SyncEngine} (h : Kept db) {x : Outgoing} (hships : Ships e db k id x)
    (writer : DeviceId) :
    ∃ row, db.row k id = some row ∧ Sent e.vault id row (x.object writer) := by
  obtain ⟨row, hrow, hscope, hout⟩ := hships
  have hcircle := (h.scope k id row hrow).2
  refine ⟨row, hrow, ?_⟩
  unfold outgoing_row at hout
  rw [h.key e hrow, Option.map_some, Option.some.injEq] at hout
  subst hout
  refine { key := rfl, version := rfl, updated := rfl, tombstone := rfl, scope := hscope,
           circle := hcircle, readable := fun vault' => ?_, no_circle := fun key => ?_,
           opens := fun e' hvault => ?_ }
  · unfold Readable Outgoing.object
    by_cases hsame : vault' = e.vault
    · simp [hsame, open_seal]
    · have hother : SealKey.vault e.vault ≠ .vault vault' := fun heq => hsame (SealKey.vault.inj heq).symm
      simp [open_other hother, hsame]
  · exact open_other SealKey.noConfusion _ _
  · cases hdeleted : row.deleted with
    | true =>
      refine .inl ⟨.tomb k id row.updated_at, ?_, ?_⟩
      · unfold change_of Outgoing.object
        dsimp only
        rw [parse_row, hvault, open_seal]
      · unfold engine.Finds
        rw [hdeleted, if_pos rfl]
    | false =>
      have hself := row_of_payload db id hscope hdeleted
      rw [hcircle] at hself
      cases hreads : reads_back k (payload_of db k id row).body with
      | true =>
        refine .inl ⟨.live k (payload_of db k id row) ⟨rfl, has_blob_payload db k id row⟩, ?_, ?_⟩
        · unfold change_of Outgoing.object
          dsimp only
          rw [parse_row, hvault, open_seal, if_neg Bool.false_ne_true]
          dsimp only
          rw [as_row_self, if_pos hreads, Option.bind_some]
          exact dif_pos ⟨rfl, rfl, has_blob_payload db k id row⟩
        · unfold engine.Finds
          rw [hdeleted, if_neg Bool.false_ne_true]
          exact ⟨_, _, rfl, rfl, hself⟩
      | false =>
        -- a float that is no number: every device refuses it
        refine .inr (fun db' => ?_)
        obtain ⟨err, hobj⟩ : ∃ err, apply_obj e'.env e'.device db'
            { key := k.PREFIX ++ id,
              ciphertext := seal_with (.vault e.vault) (k.PREFIX ++ id) (.row k (payload_of db k id row)),
              version := version_of row.updated_at, writer := writer, updated_at := row.updated_at,
              tombstone := false }
            (.row k (payload_of db k id row)) none = (db', .error err) := by
          refine ⟨.Sync ("bad " ++ k.noun ++ " payload: " ++
            e'.env.serde_error (.row k (payload_of db k id row))), ?_⟩
          unfold apply_obj
          dsimp only
          rw [parse_row]
          dsimp only
          rw [if_neg Bool.false_ne_true, as_row_self, hreads, if_neg Bool.false_ne_true]
          rfl
        refine ⟨err, ?_⟩
        unfold open_and_apply open_scoped Outgoing.object
        dsimp only
        rw [show ( strip_prefix CKG_PREFIX (k.PREFIX ++ id)).isSome = false from
          congrArg Option.isSome (no_grant (.row k id)), hvault, open_seal, if_neg Bool.false_ne_true]
        dsimp only
        rw [if_neg Bool.false_ne_true, hobj]

/-! ## One turn of a pull -/

/-- What the object of a row makes of the row that the store has. -/
def brought {k : RowKind} (row : Row k) (old : Option (Row k)) : Option (Row k) :=
  if row.deleted then buried row.updated_at old
  else match old with
    | none => some row
    | some old => if old.updated_at < row.updated_at then some (settle k old row) else some old

/-- The turn of an object: it does not open, it is refused, or its row is brought. -/
theorem Sent.turn {vault : VaultKey} {row : Row k} {o : Object} (h : Sent vault id row o)
    (e : SyncEngine) (db : Db) :
    (open_and_apply e db o = (db, .ok false) ∧ ¬ Readable e.vault o) ∨
      (∃ err, open_and_apply e db o = (db, .error err)) ∨
      (e.vault = vault ∧ ∃ change, engine.Finds id row change ∧
        open_and_apply e db o = (change.apply db, .ok true)) := by
  by_cases hvault : e.vault = vault
  · rcases h.opens e hvault with ⟨change, hchange, hfinds⟩ | hrefused
    · exact .inr (.inr ⟨hvault, change, hfinds, turn_change hchange db⟩)
    · exact .inr (.inl (hrefused db))
  · have hclosed : ¬ Readable e.vault o := fun hreads => hvault ((h.readable e.vault).mp hreads)
    refine .inl ⟨?_, hclosed⟩
    have hnone : open_with (.vault e.vault) o.key o.ciphertext = none :=
      Option.not_isSome_iff_eq_none.mp hclosed
    have hscoped : open_scoped e db o = none := by
      unfold open_scoped
      rw [hnone]
      dsimp only
      rw [List.findSome?_eq_none_iff]
      intro name _
      cases db.circle_keys.lookup name with
      | none => rfl
      | some key =>
        rw [Option.bind_some, h.no_circle key]
        rfl
    unfold open_and_apply
    rw [show ( strip_prefix CKG_PREFIX o.key).isSome = false from
      h.key ▸ congrArg Option.isSome (no_grant (.row k id)), if_neg Bool.false_ne_true, hscoped]

/-- What is applied is the row, of whatever row the object is. -/
theorem Sent.applied {e : SyncEngine} {row : Row k} {o : Object} (h : Sent e.vault id row o)
    {db db' : Db} (hturn : open_and_apply e db o = (db', .ok true)) :
    db'.row k id = brought row (db.row k id) := by
  rcases h.turn e db with ⟨hskip, -⟩ | ⟨err, hrefused⟩ | ⟨-, change, hfinds, happlied⟩
  · rw [hskip] at hturn
    cases hturn
  · rw [hrefused] at hturn
    cases hturn
  · rw [happlied] at hturn
    cases hturn
    exact hfinds.row db

theorem settle_same_columns {k : RowKind} (old new : Row k) : Same new (settle k old new) := by
  cases k <;> exact ⟨rfl, rfl, fun _ => rfl⟩

/-- A row that is as new stays. -/
theorem brought_older {k : RowKind} {row old : Row k} (h : row.updated_at ≤ old.updated_at) :
    brought row (some old) = some old := by
  unfold brought
  cases row.deleted with
  | true =>
    rw [if_pos rfl]
    unfold buried
    rw [Option.map_some, if_neg (Nat.not_lt_of_le h)]
  | false =>
    rw [if_neg Bool.false_ne_true]
    exact if_neg (Nat.not_lt_of_le h)

/-- A row that is brought in is the edit, or the row was as new already. -/
theorem brought_cases {k : RowKind} (row : Row k) (old : Option (Row k)) :
    (brought row old = none ∧ old = none ∧ row.deleted = true) ∨
      (∃ new, brought row old = some new ∧ Same row new) ∨
      ∃ kept, brought row old = old ∧ old = some kept ∧ row.updated_at ≤ kept.updated_at := by
  cases old with
  | none =>
    unfold brought
    cases hdeleted : row.deleted with
    | true => exact .inl ⟨rfl, rfl, rfl⟩
    | false => exact .inr (.inl ⟨row, rfl, rfl, rfl, fun _ => rfl⟩)
  | some old =>
    right
    by_cases hnewer : old.updated_at < row.updated_at
    · left
      unfold brought
      cases hdeleted : row.deleted with
      | true =>
        rw [if_pos rfl]
        refine ⟨{ old with deleted := true, updated_at := row.updated_at }, ?_, rfl, hdeleted.symm,
          fun hlive => absurd (hlive.symm.trans hdeleted) Bool.false_ne_true⟩
        unfold buried
        rw [Option.map_some, if_pos hnewer]
      | false =>
        rw [if_neg Bool.false_ne_true]
        exact ⟨settle k old row, if_pos hnewer, settle_same_columns old row⟩
    · exact .inr ⟨old, brought_older (Nat.le_of_not_lt hnewer), rfl, Nat.le_of_not_lt hnewer⟩

/-- A row that is brought in stays under the vault key. -/
theorem brought_scope {k : RowKind} {row : Row k} {old : Option (Row k)}
    (hscope : row.sync_scope = "synchronized") (hcircle : circle_of k row.columns = none)
    (hold : ∀ r, old = some r → r.sync_scope = "synchronized" ∧ circle_of k r.columns = none)
    {new : Row k} (h : brought row old = some new) :
    new.sync_scope = "synchronized" ∧ circle_of k new.columns = none := by
  unfold brought at h
  cases old with
  | none =>
    split at h
    · cases h
    · cases h
      exact ⟨hscope, hcircle⟩
  | some old =>
    obtain ⟨holdscope, holdcircle⟩ := hold old rfl
    split at h
    · unfold buried at h
      rw [Option.map_some, Option.some.injEq] at h
      subst h
      split <;> exact ⟨holdscope, holdcircle⟩
    · dsimp only at h
      split at h
      · cases h
        cases k with
        | conversation => exact ⟨hscope, hcircle⟩
        | memory | document | task | workflow | notification => exact ⟨holdscope, hcircle⟩
      · cases h
        exact ⟨holdscope, holdcircle⟩

/-- A document comes with its blob, or it was there with it. -/
theorem finds_blob {id : String} {row : Row .document} {change : Change}
    (h : engine.Finds id row change) {db : Db}
    (hold : ∀ r, db.row .document id = some r → r.columns.blob ∈ db.blobs) {new : Row .document}
    (hnew : (change.apply db).row .document id = some new) :
    new.columns.blob ∈ (change.apply db).blobs := by
  rw [h.row] at hnew
  rw [Change.mem_blobs]
  unfold engine.Finds at h
  split at h
  · rename_i hdeleted
    rw [if_pos hdeleted] at hnew
    obtain ⟨old, hrow, rfl⟩ := Option.map_eq_some_iff.mp hnew
    left
    split <;> exact hold old hrow
  · rename_i hlive
    rw [if_neg hlive] at hnew
    obtain ⟨p, good, rfl, rfl, rfl⟩ := h
    obtain ⟨bytes, hbytes⟩ := Sum.isRight_iff.mp (show p.body.blob_b64.isRight from good.2)
    have hblob : (engine.row_of p none).columns.blob = bytes := by
      change (columns_of .document p.body none).blob = bytes
      unfold columns_of
      dsimp only
      rw [hbytes]
      rfl
    have hbrings : (∀ r, db.row .document p.id = some r → r.updated_at < p.updated_at) →
        (Change.live .document p good).Brings db bytes := by
      intro holder
      refine ⟨p, good, rfl, hbytes, ?_⟩
      rw [Bool.eq_false_iff, Ne, dominated_iff]
      rintro ⟨r, hr, hle⟩
      exact absurd (holder r hr) (Nat.not_lt_of_le hle)
    cases hrow : db.row .document p.id with
    | none =>
      rw [hrow] at hnew
      cases hnew
      rw [hblob]
      exact .inr (hbrings (fun r hr => by rw [hrow] at hr; cases hr))
    | some old =>
      rw [hrow] at hnew
      dsimp only at hnew
      split at hnew
      · rename_i hnewer
        cases hnew
        have hsettled : (settle .document old (engine.row_of p none)).columns.blob = bytes := hblob
        rw [hsettled]
        refine .inr (hbrings (fun r hr => ?_))
        rw [hrow] at hr
        cases hr
        exact hnewer
      · cases hnew
        exact .inl (hold _ hrow)

/-- The store stays as it is kept. -/
theorem Kept.brings {vault : VaultKey} (h : Kept db) {row : Row k} {o : Object}
    (hsent : Sent vault id row o) {change : Change} (hfinds : engine.Finds id row change) :
    Kept (change.apply db) := by
  have hother : ∀ k' id', ¬ (k' = k ∧ id' = id) → (change.apply db).row k' id' = db.row k' id' :=
    fun k' id' hne => change.row_other (by rw [hfinds.key]; exact row_key_ne.mpr hne) db
  obtain ⟨hmessages, happs, hbackups⟩ := hfinds.rest db
  refine ⟨fun k' id' new hnew => ?_, fun k' id' new hnew b hb => ?_, hmessages h.messages, ?_, ?_⟩
  · by_cases hsame : k' = k ∧ id' = id
    · obtain ⟨rfl, rfl⟩ := hsame
      rw [hfinds.row] at hnew
      exact brought_scope hsent.scope hsent.circle (h.scope k' id') hnew
    · rw [hother k' id' hsame] at hnew
      exact h.scope k' id' new hnew
  · by_cases hsame : k' = k ∧ id' = id
    · obtain ⟨rfl, rfl⟩ := hsame
      cases k' with
      | document =>
        rw [List.mem_singleton.mp hb]
        exact finds_blob hfinds (fun r hr => h.blobs .document id' r hr _ (List.mem_singleton_self _)) hnew
      | memory | conversation | task | workflow | notification => cases hb
    · rw [hother k' id' hsame] at hnew
      exact (Change.mem_blobs change db b).mpr (.inl (h.blobs k' id' new hnew b hb))
  · exact (congrArg AList.entries happs).trans h.apps
  · exact (congrArg AList.entries hbackups).trans h.backups

/-! ## A pull -/

/-- The object is that of some row. -/
def OfRow (o : Object) : Prop :=
  ∃ (vault : VaultKey) (k : RowKind) (id : String) (row : Row k), Sent vault id row o

/-- What a pull leaves of a row: nothing has changed, and where the pull went through, no
object of the row opens; or it has brought one. -/
inductive Pulled (e : SyncEngine) (k : RowKind) (id : String) (l : Local) (objects : List Object)
    (r : Local × Except Error SyncOutcome) : Prop
  | stays (row : r.1.db.row k id = l.db.row k id)
      (mirror : mirror_version r.1 (k.PREFIX ++ id) = mirror_version l (k.PREFIX ++ id))
      (closed : r.2.isOk = true → ∀ o ∈ objects, o.key = k.PREFIX ++ id → ¬ Readable e.vault o)
  | took {o : Object} {row : Row k} (there : o ∈ objects) (sent : Sent e.vault id row o)
      (brings : ∀ row', Sent e.vault id row' o → r.1.db.row k id = brought row' (l.db.row k id))
      (mirror : mirror_version r.1 (k.PREFIX ++ id) = o.version)

/-- A turn that leaves the row and its mirror alone, ahead of the others. -/
theorem Pulled.behind {e : SyncEngine} {l l' : Local} {o : Object} {rest : List Object}
    {r : Local × Except Error SyncOutcome} (h : Pulled e k id l' rest r)
    (hrow : l'.db.row k id = l.db.row k id)
    (hmirror : mirror_version l' (k.PREFIX ++ id) = mirror_version l (k.PREFIX ++ id))
    (hclosed : o.key = k.PREFIX ++ id → ¬ Readable e.vault o) : Pulled e k id l (o :: rest) r := by
  cases h with
  | stays hsame hstill hnone =>
    refine .stays (hsame.trans hrow) (hstill.trans hmirror) (fun hok x hx hkey => ?_)
    rcases List.mem_cons.mp hx with rfl | hx
    · exact hclosed hkey
    · exact hnone hok x hx hkey
  | took hthere hsent hbrings htook =>
    refine .took (List.mem_cons_of_mem o hthere) hsent (fun row' hrow' => ?_) htook
    rw [hbrings row' hrow', hrow]

/-- A run of turns, over objects with a key each. -/
theorem pulled {e : SyncEngine} (k : RowKind) (id : String) {objects : List Object}
    (hrows : ∀ o ∈ objects, OfRow o) (hkeys : (objects.map SyncObject.key).Nodup) {l : Local}
    (h : Kept l.db) (out : SyncOutcome) :
    let r := apply_pending e l out objects
    Kept r.1.db ∧ Pulled e k id l objects r := by
  induction objects generalizing l out with
  | nil => exact ⟨h, .stays rfl rfl (fun _ o ho => by cases ho)⟩
  | cons o rest ih =>
    intro r
    obtain ⟨vault, k', id', row, hsent⟩ := hrows o List.mem_cons_self
    have hrest := fun x hx => hrows x (List.mem_cons_of_mem o hx)
    rw [List.map_cons, List.nodup_cons] at hkeys
    rcases hsent.turn e l.db with ⟨hturn, hclosed⟩ | ⟨err, hturn⟩ | ⟨hvault, change, hfinds, hturn⟩
    · have hr : r = apply_pending e l { out with skipped := out.skipped + 1 } rest := by
        change apply_pending e l out (o :: rest) = _
        rw [apply_pending, pull_one, hturn]
      rw [hr]
      obtain ⟨hkept, hpulled⟩ := ih hrest hkeys.2 h { out with skipped := out.skipped + 1 }
      exact ⟨hkept, hpulled.behind rfl rfl (fun _ => hclosed)⟩
    · have hr : r = (l, .error err) := by
        change apply_pending e l out (o :: rest) = _
        rw [apply_pending, pull_one, hturn]
      rw [hr]
      exact ⟨h, .stays rfl rfl (fun hok => by cases hok)⟩
    · let l' : Local := set_mirror { l with db := change.apply l.db } o
      have hr : r = apply_pending e l' { out with pulled := out.pulled + 1 } rest := by
        change apply_pending e l out (o :: rest) = _
        rw [apply_pending, pull_one, hturn]
      rw [hr]
      obtain ⟨hkept, hpulled⟩ := ih hrest hkeys.2 (l := l') (h.brings hsent hfinds)
        { out with pulled := out.pulled + 1 }
      refine ⟨hkept, ?_⟩
      by_cases hsame : k = k' ∧ id = id'
      · obtain ⟨rfl, rfl⟩ := hsame
        subst hvault
        cases hpulled with
        | stays hrow hmirror _ =>
          refine .took List.mem_cons_self hsent (fun row' hsent' => ?_) (hmirror.trans ?_)
          · rw [hrow]
            exact hsent'.applied hturn
          · rw [mirror_version_set, if_pos hsent.key.symm]
        | @took x _ hx hxsent _ _ =>
          exact absurd (List.mem_map.mpr ⟨x, hx, hxsent.key.trans hsent.key.symm⟩) hkeys.1
      · have hne : o.key ≠ k.PREFIX ++ id := hsent.key ▸ row_key_ne.mpr hsame
        refine hpulled.behind ?_ (mirror_version_set_other _ hne) (fun hkey => absurd hkey hne)
        exact change.row_other (by rw [hfinds.key, ← hsent.key]; exact hne) l.db

end pai_sync.rotate
