-- The sync engine (engine.rs): push seals what changed here and ships it, pull
-- opens what others shipped and applies it.
import PersonalAi.SyncApply

open pai_core sealing table text

namespace pai_sync.engine

/-! ## The engine -/

/-- An engine: its device, the vault key it was opened with, and what stands
outside. -/
structure SyncEngine where
  device : DeviceId
  vault : VaultKey
  env : Env

structure SyncOutcome where
  pushed : Nat
  pulled : Nat
  skipped : Nat
deriving DecidableEq, Repr

def SyncOutcome.zero : SyncOutcome := { pushed := 0, pulled := 0, skipped := 0 }

/-! ## The local mirror -/

/-- The local state: the store, and the objects that were pushed or applied
last. -/
structure Local where
  db : Db
  sync_objects : Table String Object

def mirror (l : Local) (key : String) : Option (Nat × Timestamp) :=
  (l.sync_objects.lookup key).map (fun o => (o.version, o.updated_at))

def mirror_version (l : Local) (key : String) : Nat := ((mirror l key).map Prod.fst).getD 0

def set_mirror (l : Local) (o : Object) : Local :=
  { l with sync_objects := l.sync_objects.insert o.key o }

/-! ## Pull -/

/-- What a transport shows: its listing, and the object under a key. -/
structure View where
  list : List SyncObjectMeta
  pull : String → Option Object

/-- The transport that holds these objects. -/
def View.of (objects : List Object) : View :=
  { list := objects.map header, pull := fun key => objects.find? (fun o => decide (o.key = key)) }

/-- The listed object is not newer than the mirror. -/
def seen (l : Local) (m : SyncObjectMeta) : Bool :=
  match mirror l m.key with
  | none => false
  | some (v, t) => decide (m.version < v ∨ (m.version = v ∧ m.updated_at ≤ t))

/-- The object that a listed entry brings to the pull, with its rank. -/
def fetch (e : SyncEngine) (l : Local) (view : View) (m : SyncObjectMeta) :
    Option (Nat × Object) :=
  match kind_rank m.key with
  | none => none
  | some rank =>
    if m.writer = e.device then none
    else if seen l m then none
    else (view.pull m.key).map (fun o => (rank, o))

/-- Apply order: by rank, then by time. -/
def before_or_with (a b : Nat × Object) : Prop :=
  a.1 < b.1 ∨ (a.1 = b.1 ∧ a.2.updated_at ≤ b.2.updated_at)

instance : DecidableRel before_or_with := fun a b =>
  inferInstanceAs (Decidable (a.1 < b.1 ∨ (a.1 = b.1 ∧ a.2.updated_at ≤ b.2.updated_at)))

/-- What a pull will apply, in its order. -/
def pending (e : SyncEngine) (l : Local) (view : View) : List Object :=
  ((view.list.filterMap (fetch e l view)).insertionSort before_or_with).map Prod.snd

/-- The names of the circles that this device is in, in order. -/
def list_circles (db : Db) : List String :=
  (db.circles.entries.filterMap (fun e => if e.2.deleted then none else some e.1)).insertionSort
    (· ≤ ·)

/-- Open an object under the vault key, or else under a circle key: the circle
comes from the key that opens it. -/
def open_scoped (e : SyncEngine) (db : Db) (o : Object) : Option (Plain × Option String) :=
  match open_with (.vault e.vault) o.key o.ciphertext with
  | some raw => some (raw, none)
  | none =>
    (list_circles db).findSome? (fun name =>
      (db.circle_keys.lookup name).bind (fun key =>
        (open_with (.circle key) o.key o.ciphertext).map (fun raw => (raw, some name))))

/-- Open a grant under the first peer key that does. -/
def open_grant (e : SyncEngine) (db : Db) (o : Object) : Except Error (Option CircleGrant) :=
  match db.sync_peers.findSome? (fun p =>
      open_with (.peer (peer_key ⟨e.device⟩ p.agree_pubkey)) o.key o.ciphertext) with
  | none => .ok none
  | some (.grant g) => .ok (some g)
  | some raw => .error (.Sync ("bad circle grant: " ++ e.env.serde_error raw))

/-- The grant is addressed to this device. -/
def addressed (e : SyncEngine) (key : String) : Bool :=
  ("/" ++ e.device.to_string).toList.isSuffixOf key.toList

/-- Open an object and apply it to the store: whether it was applied. -/
def open_and_apply (e : SyncEngine) (db : Db) (o : Object) : Db × Except Error Bool :=
  if ( strip_prefix CKG_PREFIX o.key).isSome then
    if addressed e o.key then
      match open_grant e db o with
      | .error err => (db, .error err)
      | .ok none => (db, .ok false)
      | .ok (some g) =>
        match apply_grant db g with
        | (db, .error err) => (db, .error err)
        | (db, .ok ()) => (db, .ok true)
    else (db, .ok false)
  else
    match open_scoped e db o with
    | none => (db, .ok false)
    | some (raw, circle) =>
      match apply_obj e.env e.device db o raw circle with
      | (db, .error err) => (db, .error err)
      | (db, .ok ()) => (db, .ok true)

/-- One turn of the apply loop: what was applied goes to the mirror. -/
def pull_one (e : SyncEngine) (l : Local) (o : Object) : Local × Except Error Bool :=
  match open_and_apply e l.db o with
  | (db, .ok true) => (set_mirror { l with db := db } o, .ok true)
  | (db, result) => ({ l with db := db }, result)

/-- The apply loop. An error ends it. -/
def apply_pending (e : SyncEngine) : Local → SyncOutcome → List Object →
    Local × Except Error SyncOutcome
  | l, out, [] => (l, .ok out)
  | l, out, o :: rest =>
    match pull_one e l o with
    | (l, .error err) => (l, .error err)
    | (l, .ok true) => apply_pending e l { out with pulled := out.pulled + 1 } rest
    | (l, .ok false) => apply_pending e l { out with skipped := out.skipped + 1 } rest

/-- Pull the objects that are newer than the mirror, and apply them. -/
def pull (e : SyncEngine) (l : Local) (view : View) : Local × Except Error SyncOutcome :=
  let objects := pending e l view
  apply_pending e l
    { SyncOutcome.zero with skipped := view.list.length - objects.length } objects

/-! ## Push -/

/-- What push makes of one row. -/
structure Outgoing where
  key : String
  sealed_under : SealKey
  raw : Plain
  version : Nat
  updated_at : Timestamp
  tombstone : Bool

/-- A device and the objects on the transport, one for each key. -/
structure Site extends Local where
  remote : Table String Object

/-- What goes wrong with one object: the transport refuses it, and may have
stored it all the same, or the mirror cannot be written. -/
inductive Trouble
  | refused (stored : Bool) (e : Error)
  | unmirrored (e : Error)

def Outgoing.object (o : Outgoing) (writer : DeviceId) : Object :=
  { key := o.key, ciphertext := seal_with o.sealed_under o.key o.raw, version := o.version,
    writer := writer, updated_at := o.updated_at, tombstone := o.tombstone }

/-- Seal, push and mirror one object, unless the mirror has the version. -/
def push_sealed (e : SyncEngine) (troubles : Nat → Option Trouble) (s : Site) (out : SyncOutcome)
    (o : Outgoing) : Site × Except Error SyncOutcome :=
  if o.version ≤ mirror_version s.toLocal o.key then (s, .ok { out with skipped := out.skipped + 1 })
  else
    let obj := o.object e.device
    let stored := { s with remote := s.remote.insert obj.key obj }
    match troubles out.pushed with
    | some (.refused false err) => (s, .error err)
    | some (.refused true err) => (stored, .error err)
    | some (.unmirrored err) => (stored, .error err)
    | none =>
      ({ stored with toLocal := set_mirror s.toLocal obj }, .ok { out with pushed := out.pushed + 1 })

/-- A list of objects, up to the first trouble. -/
def ship (e : SyncEngine) (troubles : Nat → Option Trouble) : Site → SyncOutcome →
    List (Site → Outgoing) → Site × Except Error SyncOutcome
  | s, out, [] => (s, .ok out)
  | s, out, o :: rest =>
    match push_sealed e troubles s out (o s) with
    | (s, .error err) => (s, .error err)
    | (s, .ok out) => ship e troubles s out rest

/-! ### Rows -/

def body_of : (k : RowKind) → k.Columns → List DocSection → k.Body
  | .memory, c, _ => c.toMemoryBody
  | .conversation, c, _ =>
    { title := c.title, sync_scope := "synchronized", memory_scope := c.memory_scope }
  | .document, c, sections =>
    { title := c.title, mime := c.mime, blob_b64 := .inr c.blob, trust := c.trust,
      sections := sections }
  | .task, c, _ => c
  | .workflow, c, _ => c
  | .notification, c, _ => c

/-- The sections of a document, in order. -/
def sections_of (db : Db) (id : String) : List SectionRow :=
  ((db.document_sections.lookup id).getD []).insertionSort (fun a b => a.section_ ≤ b.section_)

def payload_of (db : Db) (k : RowKind) (id : String) (row : Row k) : RowPayload k :=
  { v := 1, id := id, fixed := row.fixed,
    body := body_of k row.columns ((sections_of db id).map SectionRow.toDocSection),
    updated_at := row.updated_at }

/-- The key that a memory is sealed under: that of its circle, if this device
still has it, or the vault key. -/
def memory_key (e : SyncEngine) (db : Db) (circle : Option String) : Option SealKey :=
  match circle with
  | none => some (.vault e.vault)
  | some c => (db.circle_keys.lookup c).map .circle

/-- The key that a row is sealed under, or none for a row that is skipped: a
memory without its circle key, a live document without its blob. -/
def row_key (e : SyncEngine) (db : Db) : (k : RowKind) → Row k → Option SealKey
  | .memory, row => memory_key e db row.columns.share_circle
  | .document, row =>
    if row.deleted ∨ row.columns.blob ∈ db.blobs then some (.vault e.vault) else none
  | _, _ => some (.vault e.vault)

def outgoing_row (e : SyncEngine) (db : Db) (k : RowKind) (id : String) (row : Row k) :
    Option Outgoing :=
  (row_key e db k row).map (fun key =>
    { key := k.PREFIX ++ id, sealed_under := key,
      raw := if row.deleted then .empty else .row k (payload_of db k id row),
      version := version_of row.updated_at, updated_at := row.updated_at,
      tombstone := row.deleted })

/-- The synchronized rows of a kind. -/
def synchronized_rows (db : Db) (k : RowKind) : List (String × Row k) :=
  (db.rows k).entries.filterMap (fun e =>
    if e.2.sync_scope = "synchronized" then some (e.1, e.2) else none)

def outgoing_rows (e : SyncEngine) (db : Db) (k : RowKind) : List Outgoing :=
  (synchronized_rows db k).filterMap (fun r => outgoing_row e db k r.1 r.2)

def outgoing_message (e : SyncEngine) (id : String) (m : MessageRow) : Outgoing :=
  { key := MSG_PREFIX ++ id, sealed_under := .vault e.vault,
    raw := .message { m with v := 1, id := id }, version := version_of m.created_at,
    updated_at := m.created_at, tombstone := false }

/-- Messages under synchronized, live conversations. -/
def outgoing_messages (e : SyncEngine) (db : Db) : List Outgoing :=
  db.messages.entries.filterMap (fun m =>
    match db.row .conversation m.2.conversation_id with
    | none => none
    | some c =>
      if c.sync_scope = "synchronized" ∧ ¬ c.deleted then some (outgoing_message e m.1 m.2)
      else none)

/-! ### Apps -/

def app_payload_for (id : String) (row : AppRow) (dir : AppDir) : AppPayload :=
  { v := 1, id := id, name := row.name, version := row.version, runtime := row.runtime,
    updated_at := row.updated_at, signature_b64 := dir.signature, files := dir.files,
    active_device := row.active_device, auth := dir.auth }

/-- Rows without a package directory are skipped. -/
def outgoing_apps (e : SyncEngine) (db : Db) : List Outgoing :=
  db.apps.entries.filterMap (fun a =>
    let raw := if a.2.deleted then some .empty
      else (db.app_dirs.lookup a.1).map (fun dir => .app (app_payload_for a.1 a.2 dir))
    raw.map (fun raw =>
      { key := APP_PREFIX ++ a.1, sealed_under := .vault e.vault, raw := raw,
        version := version_of a.2.updated_at, updated_at := a.2.updated_at,
        tombstone := a.2.deleted }))

/-- Only the backups that this device wrote; rows without a pak are skipped. -/
def outgoing_backups (e : SyncEngine) (db : Db) : List Outgoing :=
  db.app_backups.entries.filterMap (fun b =>
    if b.1.2 ≠ e.device.to_string then none
    else
      let raw := if b.2.deleted then some .empty else (db.paks.lookup b.1).map .backup
      raw.map (fun raw =>
        { key := BKP_PREFIX ++ b.1.1 ++ "/" ++ b.1.2, sealed_under := .vault e.vault, raw := raw,
          version := version_of b.2.created_at, updated_at := b.2.created_at,
          tombstone := b.2.deleted }))

/-! ### CRDT documents -/

def crdt_key (me : DeviceId) (app_id doc : String) : String :=
  ACRDT_PREFIX ++ app_id ++ "/" ++ doc ++ "/" ++ me.to_string

def crdt_payload (e : SyncEngine) (now : Timestamp) (c : crdt.Collected) : CrdtDocPayload :=
  { v := 1, app := c.app, doc := c.doc, writer := e.device.to_string,
    fields := c.published.fields, updated_at := now }

/-- The version strictly beats the mirror. -/
def outgoing_doc (e : SyncEngine) (now : Timestamp) (c : crdt.Collected) (s : Site) : Outgoing :=
  let key := crdt_key e.device c.app c.doc
  { key := key, sealed_under := .vault e.vault, raw := .crdt (crdt_payload e now c),
    version := max c.published.hint_ms.toNat (mirror_version s.toLocal key + 1), updated_at := now,
    tombstone := false }

def live_apps (db : Db) : List String :=
  db.apps.entries.filterMap (fun a => if a.2.deleted then none else some a.1)

/-- `collect` has recorded the cells of all documents before the first object is
pushed. -/
def push_app_crdts (e : SyncEngine) (now : Timestamp) (troubles : Nat → Option Trouble) (s : Site)
    (out : SyncOutcome) : Site × Except Error SyncOutcome :=
  match crdt.collect e.device.to_string (installed s.db) e.env.now_ms s.db.docs
      (live_apps s.db) with
  | (docs, .error err) => ({ s with db := { s.db with docs := docs } }, .error err)
  | (docs, .ok items) =>
    ship e troubles { s with db := { s.db with docs := docs } } out
      (items.map (outgoing_doc e now))

/-! ### All of it -/

/-- What push ships before the documents, in its order. Shipping changes none of
the tables that this reads. -/
def outgoing (e : SyncEngine) (db : Db) : List Outgoing :=
  outgoing_rows e db .memory ++ outgoing_rows e db .conversation ++ outgoing_messages e db ++
    outgoing_rows e db .document ++ outgoing_rows e db .task ++ outgoing_rows e db .workflow ++
    outgoing_rows e db .notification ++ outgoing_apps e db ++ outgoing_backups e db

/-- What push ships of a row. -/
def Ships (e : SyncEngine) (db : Db) (k : RowKind) (id : String) (o : Outgoing) : Prop :=
  ∃ row, db.row k id = some row ∧ row.sync_scope = "synchronized" ∧
    outgoing_row e db k id row = some o

theorem outgoing_row_key {e : SyncEngine} {db : Db} {k : RowKind} {id : String} {row : Row k}
    {o : Outgoing} (h : outgoing_row e db k id row = some o) : o.key = k.PREFIX ++ id := by
  obtain ⟨key, -, rfl⟩ := Option.map_eq_some_iff.mp h
  rfl

theorem mem_outgoing_rows {e : SyncEngine} {db : Db} {k : RowKind} {o : Outgoing}
    (h : o ∈ outgoing_rows e db k) : ∃ id, Ships e db k id o := by
  obtain ⟨⟨id, row⟩, hrow, ho⟩ := List.mem_filterMap.mp h
  obtain ⟨entry, hentry, hsync⟩ := List.mem_filterMap.mp hrow
  split at hsync
  · rename_i hscope
    cases hsync
    exact ⟨entry.1, entry.2, lookup_eq_some.mpr hentry, hscope, ho⟩
  · cases hsync

/-- All that push ships before the documents: rows, messages under live
conversations, apps and backups. -/
theorem outgoing_cases {e : SyncEngine} {db : Db} {o : Outgoing} (h : o ∈ outgoing e db) :
    (∃ k id, Ships e db k id o) ∨
      (∃ id m c, db.messages.lookup id = some m ∧
        db.row .conversation m.conversation_id = some c ∧ c.deleted = false ∧
        o = outgoing_message e id m) ∨
      (∃ id, o.key = APP_PREFIX ++ id) ∨ ∃ rest, o.key = BKP_PREFIX ++ rest := by
  have hrows : ∀ k, o ∈ outgoing_rows e db k → ∃ k id, Ships e db k id o :=
    fun k hmem => ⟨k, mem_outgoing_rows hmem⟩
  unfold outgoing at h
  simp only [List.mem_append] at h
  rcases h with (((((((h | h) | h) | h) | h) | h) | h) | h) | h
  · exact .inl (hrows .memory h)
  · exact .inl (hrows .conversation h)
  · obtain ⟨entry, hentry, hm⟩ := List.mem_filterMap.mp h
    split at hm
    · cases hm
    · rename_i c hc
      split at hm
      · rename_i hlive
        cases hm
        exact .inr (.inl ⟨entry.1, entry.2, c, lookup_eq_some.mpr hentry, hc,
          by simpa using hlive.2, rfl⟩)
      · cases hm
  · exact .inl (hrows .document h)
  · exact .inl (hrows .task h)
  · exact .inl (hrows .workflow h)
  · exact .inl (hrows .notification h)
  · obtain ⟨a, -, ha⟩ := List.mem_filterMap.mp h
    obtain ⟨raw, -, rfl⟩ := Option.map_eq_some_iff.mp ha
    exact .inr (.inr (.inl ⟨a.1, rfl⟩))
  · obtain ⟨b, -, hb⟩ := List.mem_filterMap.mp h
    split at hb
    · cases hb
    · obtain ⟨raw, -, rfl⟩ := Option.map_eq_some_iff.mp hb
      exact .inr (.inr (.inr ⟨b.1.1 ++ "/" ++ b.1.2, by simp [String.append_assoc]⟩))

/-- The rows that are skipped for want of a key, a blob, a package or a pak. -/
def left_out (e : SyncEngine) (db : Db) : Nat :=
  let rows := fun k => (synchronized_rows db k).length - (outgoing_rows e db k).length
  rows .memory + rows .document + (db.apps.entries.length - (outgoing_apps e db).length) +
    ((db.app_backups.entries.filter (fun b => decide (b.1.2 = e.device.to_string))).length -
      (outgoing_backups e db).length)

/-- Seal what changed here and ship it. -/
def push (e : SyncEngine) (now : Timestamp) (troubles : Nat → Option Trouble) (s : Site) :
    Site × Except Error SyncOutcome :=
  match ship e troubles s { SyncOutcome.zero with skipped := left_out e s.db }
      ((outgoing e s.db).map (fun o _ => o)) with
  | (s, .error err) => (s, .error err)
  | (s, .ok out) => push_app_crdts e now troubles s out

end pai_sync.engine
