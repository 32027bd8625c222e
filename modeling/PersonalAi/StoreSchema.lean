-- The schema of the store (pai-storage): the migrations, and what a later open
-- makes of one that stopped between two statements.
import PersonalAi.Core
import PersonalAi.Lib.Scripts
import PersonalAi.Lib.Table

open pai_core scripts table

namespace pai_storage

/-! ## Statements -/

/-- A column: its name, and how it is declared. -/
abbrev Column := String × String

structure TableDef where
  columns : List Column
  constraints : List String
deriving DecidableEq

/-- The statements of the migrations. Virtual tables, indexes and triggers are all
made with `IF NOT EXISTS`; `Copy` is `UPDATE table SET target = source`. -/
inductive Statement
  | CreateTable (if_not_exists : Bool) (name : String) (columns : List Column)
      (constraints : List String)
  | CreateVirtualTable (name column : String)
  | CreateIndex (name on_table : String) (columns : List String)
  | CreateTrigger (name on_table : String)
  | AddColumn (to_table : String) (column : Column)
  | Copy (in_table target source : String)
deriving DecidableEq

/-- A database, without its rows: of those the migrations read and write one alone,
the `schema_version` of `meta`. -/
structure Schema where
  tables : Table String TableDef
  indexes : List String
  triggers : List String
  version : Option Nat

/-- A new database file. -/
def Schema.fresh : Schema := { tables := ∅, indexes := [], triggers := [], version := none }

/-- What SQLite refuses a statement with. -/
inductive SqlError
  | TableExists (name : String)
  | NoSuchTable (name : String)
  | DuplicateColumn (name : String)
  | NoSuchColumn (name : String)
deriving DecidableEq

def SqlError.to_string : SqlError → String
  | .TableExists name => "table " ++ name ++ " already exists"
  | .NoSuchTable name => "no such table: " ++ name
  | .DuplicateColumn name => "duplicate column name: " ++ name
  | .NoSuchColumn name => "no such column: " ++ name

def store_err (e : SqlError) : Error := .Storage e.to_string

def TableDef.has (d : TableDef) (column : String) : Bool :=
  d.columns.any (fun c => decide (c.1 = column))

def Statement.exec (db : Schema) : Statement → Except SqlError Schema
  | .CreateTable if_not_exists name columns constraints =>
    if (db.tables.lookup name).isSome then
      if if_not_exists then .ok db else .error (.TableExists name)
    else .ok { db with tables := db.tables.insert name { columns, constraints } }
  | .CreateVirtualTable name column =>
    if (db.tables.lookup name).isSome then .ok db
    else .ok { db with tables := db.tables.insert name { columns := [(column, "")], constraints := [] } }
  | .CreateIndex name on_table columns =>
    match db.tables.lookup on_table with
    | none => .error (.NoSuchTable on_table)
    | some d =>
      if name ∈ db.indexes then .ok db
      else
        match columns.find? (fun c => !d.has c) with
        | some c => .error (.NoSuchColumn c)
        | none => .ok { db with indexes := name :: db.indexes }
  | .CreateTrigger name on_table =>
    match db.tables.lookup on_table with
    | none => .error (.NoSuchTable on_table)
    | some _ =>
      if name ∈ db.triggers then .ok db else .ok { db with triggers := name :: db.triggers }
  | .AddColumn to_table column =>
    match db.tables.lookup to_table with
    | none => .error (.NoSuchTable to_table)
    | some d =>
      if d.has column.1 then .error (.DuplicateColumn column.1)
      else
        .ok { db with tables :=
          db.tables.insert to_table { d with columns := d.columns ++ [column] } }
  | .Copy in_table target source =>
    match db.tables.lookup in_table with
    | none => .error (.NoSuchTable in_table)
    | some d =>
      if !d.has target then .error (.NoSuchColumn target)
      else if !d.has source then .error (.NoSuchColumn source)
      else .ok db

/-! ## The migrations -/

def V1 : List Statement :=
  [.CreateTable true "users" [("id", "TEXT PRIMARY KEY"), ("display_name", "TEXT NOT NULL"),
      ("created_at", "TEXT NOT NULL")] [],
   .CreateTable true "devices" [("id", "TEXT PRIMARY KEY"),
      ("owner", "TEXT NOT NULL REFERENCES users(id)"), ("name", "TEXT NOT NULL"),
      ("platform", "TEXT NOT NULL"), ("public_key", "BLOB NOT NULL"),
      ("registered_at", "TEXT NOT NULL"), ("last_seen_at", "TEXT NOT NULL"),
      ("capabilities_json", "TEXT NOT NULL")] [],
   .CreateTable true "sessions" [("id", "TEXT PRIMARY KEY"),
      ("user_id", "TEXT NOT NULL REFERENCES users(id)"),
      ("device_id", "TEXT NOT NULL REFERENCES devices(id)"), ("started_at", "TEXT NOT NULL"),
      ("ended_at", "TEXT")] [],
   .CreateTable true "conversations" [("id", "TEXT PRIMARY KEY"),
      ("session_id", "TEXT NOT NULL REFERENCES sessions(id)"), ("title", "TEXT"),
      ("created_at", "TEXT NOT NULL"), ("sync_scope", "TEXT NOT NULL DEFAULT 'device_local'")] [],
   .CreateTable true "messages" [("id", "TEXT PRIMARY KEY"),
      ("conversation_id", "TEXT NOT NULL REFERENCES conversations(id)"),
      ("role", "TEXT NOT NULL"), ("trust", "TEXT NOT NULL"), ("created_at", "TEXT NOT NULL"),
      ("content_json", "TEXT NOT NULL")] [],
   .CreateIndex "idx_messages_conversation" "messages" ["conversation_id", "created_at"],
   .CreateTable true "models" [("id", "TEXT PRIMARY KEY"), ("slug", "TEXT NOT NULL UNIQUE"),
      ("family", "TEXT NOT NULL"), ("provider", "TEXT NOT NULL"),
      ("capabilities_json", "TEXT NOT NULL"), ("context_length", "INTEGER NOT NULL"),
      ("quantization", "TEXT"), ("size_bytes", "INTEGER NOT NULL"),
      ("requirements_json", "TEXT NOT NULL"), ("local", "INTEGER NOT NULL"), ("license", "TEXT"),
      ("installed", "INTEGER NOT NULL DEFAULT 0"), ("path", "TEXT"), ("sha256", "TEXT")] [],
   .CreateTable true "memories" [("id", "TEXT PRIMARY KEY"), ("type", "TEXT NOT NULL"),
      ("content", "TEXT NOT NULL"), ("source", "TEXT NOT NULL"), ("created_at", "TEXT NOT NULL"),
      ("updated_at", "TEXT NOT NULL"), ("confidence", "REAL NOT NULL"),
      ("importance", "REAL NOT NULL"), ("privacy_level", "TEXT NOT NULL"),
      ("entities_json", "TEXT NOT NULL"), ("embedding", "BLOB"),
      ("deleted", "INTEGER NOT NULL DEFAULT 0"),
      ("sync_scope", "TEXT NOT NULL DEFAULT 'synchronized'")] [],
   .CreateIndex "idx_memories_type" "memories" ["type", "deleted"],
   .CreateVirtualTable "memories_fts" "content",
   .CreateTrigger "memories_ai" "memories",
   .CreateTrigger "memories_ad" "memories",
   .CreateTrigger "memories_au" "memories",
   .CreateTable true "memory_relationships" [
      ("from_id", "TEXT NOT NULL REFERENCES memories(id)"), ("to_id", "TEXT NOT NULL"),
      ("rel_type", "TEXT NOT NULL"), ("confidence", "REAL NOT NULL DEFAULT 1.0")]
      ["PRIMARY KEY (from_id, to_id, rel_type)"],
   .CreateTable true "audit_events" [("id", "TEXT PRIMARY KEY"), ("at", "TEXT NOT NULL"),
      ("device_id", "TEXT"), ("agent_id", "TEXT"), ("run_id", "TEXT"),
      ("conversation_id", "TEXT"), ("kind", "TEXT NOT NULL"), ("tool", "TEXT"),
      ("detail_json", "TEXT NOT NULL"), ("outcome", "TEXT NOT NULL")] [],
   .CreateIndex "idx_audit_at" "audit_events" ["at"],
   .CreateTable true "tasks" [("id", "TEXT PRIMARY KEY"), ("title", "TEXT NOT NULL"),
      ("agent_id", "TEXT NOT NULL"), ("created_at", "TEXT NOT NULL"), ("run_at", "TEXT"),
      ("state", "TEXT NOT NULL"), ("sync_scope", "TEXT NOT NULL DEFAULT 'synchronized'")] [],
   .CreateTable true "sync_objects" [("key", "TEXT PRIMARY KEY"),
      ("ciphertext", "BLOB NOT NULL"), ("version", "INTEGER NOT NULL"),
      ("writer", "TEXT NOT NULL"), ("updated_at", "TEXT NOT NULL"),
      ("tombstone", "INTEGER NOT NULL DEFAULT 0")] [],
   .CreateTable true "documents" [("id", "TEXT PRIMARY KEY"), ("title", "TEXT"),
      ("mime", "TEXT NOT NULL"), ("blob", "TEXT NOT NULL"), ("created_at", "TEXT NOT NULL"),
      ("trust", "TEXT NOT NULL")] [],
   .CreateTable true "document_sections" [("document_id", "TEXT NOT NULL"),
      ("section", "INTEGER NOT NULL"), ("text", "TEXT NOT NULL")] [],
   .CreateVirtualTable "documents_fts" "text",
   .CreateTable true "meta" [("key", "TEXT PRIMARY KEY"), ("value", "TEXT NOT NULL")] []]

def V2 : List Statement :=
  [.AddColumn "memories" ("conversation_id", "TEXT"),
   .AddColumn "conversations" ("memory_scope", "TEXT NOT NULL DEFAULT 'shared'"),
   .CreateIndex "idx_memories_conversation" "memories" ["conversation_id", "deleted"],
   .CreateTable true "agent_runs" [("id", "TEXT PRIMARY KEY"), ("agent_id", "TEXT"),
      ("conversation_id", "TEXT"), ("started_at", "TEXT NOT NULL"), ("ended_at", "TEXT"),
      ("state", "TEXT NOT NULL"), ("step", "INTEGER NOT NULL DEFAULT 0"),
      ("input", "TEXT NOT NULL DEFAULT ''"), ("checkpoint_json", "TEXT")] [],
   .CreateIndex "idx_agent_runs_open" "agent_runs" ["ended_at", "state"],
   .CreateTable true "policies" [("permission", "TEXT PRIMARY KEY"), ("policy", "TEXT NOT NULL"),
      ("updated_at", "TEXT NOT NULL")] []]

def V3 : List Statement :=
  [.AddColumn "devices" ("key_storage", "TEXT NOT NULL DEFAULT 'file'"),
   .AddColumn "document_sections" ("embedding", "BLOB")]

def V4 : List Statement :=
  [.CreateTable true "sync_peers" [("device_id", "TEXT PRIMARY KEY"), ("name", "TEXT NOT NULL"),
      ("platform", "TEXT NOT NULL"), ("ed_pubkey", "BLOB NOT NULL"),
      ("agree_pubkey", "BLOB NOT NULL"), ("paired_at", "TEXT NOT NULL")] []]

def V5 : List Statement :=
  [.AddColumn "conversations" ("updated_at", "TEXT"),
   .Copy "conversations" "updated_at" "created_at",
   .AddColumn "conversations" ("deleted", "INTEGER NOT NULL DEFAULT 0"),
   .AddColumn "documents" ("sync_scope", "TEXT NOT NULL DEFAULT 'device_local'"),
   .AddColumn "documents" ("updated_at", "TEXT"),
   .Copy "documents" "updated_at" "created_at",
   .AddColumn "documents" ("deleted", "INTEGER NOT NULL DEFAULT 0")]

def V6 : List Statement :=
  [.AddColumn "tasks" ("updated_at", "TEXT"),
   .Copy "tasks" "updated_at" "created_at",
   .AddColumn "tasks" ("deleted", "INTEGER NOT NULL DEFAULT 0"),
   .AddColumn "tasks" ("trigger_json", "TEXT NOT NULL DEFAULT '\x7b\"kind\":\"manual\"\x7d'"),
   .AddColumn "tasks" ("payload_json", "TEXT NOT NULL DEFAULT '\x7b\x7d'"),
   .AddColumn "tasks" ("result_json", "TEXT"),
   .AddColumn "tasks" ("claimed_by", "TEXT"),
   .AddColumn "tasks" ("lease_expires_at", "TEXT")]

def V7 : List Statement :=
  [.CreateTable false "workflows" [("id", "TEXT PRIMARY KEY"), ("name", "TEXT NOT NULL"),
      ("definition_json", "TEXT NOT NULL"),
      ("sync_scope", "TEXT NOT NULL DEFAULT 'synchronized'"), ("created_at", "TEXT NOT NULL"),
      ("updated_at", "TEXT NOT NULL"), ("deleted", "INTEGER NOT NULL DEFAULT 0")] [],
   .CreateTable false "workflow_runs" [("id", "TEXT PRIMARY KEY"),
      ("workflow_id", "TEXT NOT NULL REFERENCES workflows(id)"),
      ("input", "TEXT NOT NULL DEFAULT ''"), ("status", "TEXT NOT NULL"),
      ("step_index", "INTEGER NOT NULL DEFAULT 0"),
      ("outputs_json", "TEXT NOT NULL DEFAULT '\x7b\x7d'"), ("error", "TEXT"),
      ("started_at", "TEXT NOT NULL"), ("finished_at", "TEXT")] []]

def V8 : List Statement :=
  [.CreateTable false "notifications" [("id", "TEXT PRIMARY KEY"), ("title", "TEXT NOT NULL"),
      ("body", "TEXT NOT NULL"), ("source", "TEXT NOT NULL DEFAULT ''"),
      ("channel", "TEXT NOT NULL DEFAULT 'inbox'"), ("created_at", "TEXT NOT NULL"),
      ("read_at", "TEXT"), ("sync_scope", "TEXT NOT NULL DEFAULT 'synchronized'"),
      ("updated_at", "TEXT NOT NULL"), ("deleted", "INTEGER NOT NULL DEFAULT 0")] []]

def V9 : List Statement :=
  [.AddColumn "memories" ("share_circle", "TEXT"),
   .CreateTable false "circles" [("name", "TEXT PRIMARY KEY"),
      ("created_by", "TEXT NOT NULL DEFAULT ''"), ("created_at", "TEXT NOT NULL"),
      ("deleted", "INTEGER NOT NULL DEFAULT 0")] []]

def V10 : List Statement :=
  [.CreateTable false "apps" [("id", "TEXT PRIMARY KEY"), ("name", "TEXT NOT NULL"),
      ("version", "TEXT NOT NULL"), ("runtime", "TEXT NOT NULL DEFAULT 'wasm'"),
      ("installed_at", "TEXT NOT NULL"), ("updated_at", "TEXT NOT NULL"),
      ("deleted", "INTEGER NOT NULL DEFAULT 0")] []]

def V11 : List Statement :=
  [.CreateTable false "app_backups" [("app_id", "TEXT NOT NULL"), ("writer", "TEXT NOT NULL"),
      ("created_at", "TEXT NOT NULL"), ("path", "TEXT NOT NULL"), ("pushed_at", "TEXT"),
      ("deleted", "INTEGER NOT NULL DEFAULT 0")] ["PRIMARY KEY (app_id, writer)"]]

def V12 : List Statement :=
  [.AddColumn "apps" ("active_device", "TEXT")]

def V13 : List Statement :=
  [.CreateTable false "app_crdt_cells" [("app_id", "TEXT NOT NULL"), ("doc", "TEXT NOT NULL"),
      ("writer", "TEXT NOT NULL"), ("field", "TEXT NOT NULL"), ("value_json", "TEXT"),
      ("t_ms", "INTEGER NOT NULL"), ("tombstone", "INTEGER NOT NULL DEFAULT 0")]
      ["PRIMARY KEY (app_id, doc, writer, field)"],
   .CreateTable false "app_crdt_view" [("app_id", "TEXT NOT NULL"), ("doc", "TEXT NOT NULL"),
      ("field", "TEXT NOT NULL"), ("value_json", "TEXT NOT NULL"), ("t_ms", "INTEGER NOT NULL")]
      ["PRIMARY KEY (app_id, doc, field)"]]

def V14 : List Statement :=
  [.CreateTable false "media_jobs" [("id", "TEXT PRIMARY KEY"), ("kind", "TEXT NOT NULL"),
      ("prompt", "TEXT NOT NULL"), ("params_json", "TEXT"), ("state", "TEXT NOT NULL"),
      ("requester", "TEXT"), ("worker", "TEXT"), ("result_blob", "TEXT"), ("error", "TEXT"),
      ("created_at", "TEXT NOT NULL"), ("updated_at", "TEXT NOT NULL")] []]

def V15 : List Statement :=
  [.AddColumn "document_sections" ("page", "INTEGER"),
   .AddColumn "document_sections" ("heading", "TEXT")]

def MIGRATIONS : List (List Statement) :=
  [V1, V2, V3, V4, V5, V6, V7, V8, V9, V10, V11, V12, V13, V14, V15]

/-- What `migrate` sends to SQLite: the statements of a batch, and behind a batch
its number for `schema_version`. -/
inductive Command
  | Sql (s : Statement)
  | PutVersion (n : Nat)
deriving DecidableEq

def Command.exec : Command → Schema → Except SqlError Schema
  | .Sql s, db => s.exec db
  | .PutVersion n, db =>
    if (db.tables.lookup "meta").isSome then .ok { db with version := some n }
    else .error (.NoSuchTable "meta")

/-- The commands for the batches from the `i`-th on. -/
def commands : Nat → List (List Statement) → List Command
  | _, [] => []
  | i, batch :: rest => batch.map .Sql ++ .PutVersion (i + 1) :: commands (i + 1) rest

/-- The `schema_version`, 0 when there is no such row, or no table for it. -/
def current (db : Schema) : Nat := db.version.getD 0

/-- All that a migration of this database sends, each command durable by itself. -/
def program (db : Schema) : List Command := commands (current db) (MIGRATIONS.drop (current db))

/-- `Store::migrate`, as far as an open depends on it: the database it leaves, and
its result. -/
def migrate (db : Schema) : Schema × Except Error Unit :=
  match execute Command.exec db (program db) with
  | (db, .ok ()) => (db, .ok ())
  | (db, .error e) => (db, .error (store_err e))

/-- The database that a migration leaves when the process stops behind so many
commands. -/
def stopped (db : Schema) (commands : Nat) : Schema :=
  (execute Command.exec db ((program db).take commands)).1

/-- The database of a release with so many migrations. -/
def at_version (v : Nat) : Schema :=
  (execute Command.exec Schema.fresh (commands 0 (MIGRATIONS.take v))).1

/-! ## What a statement leaves behind -/

/-- The statement does nothing and does not fail where it was executed before. -/
def Statement.repeatable : Statement → Bool
  | .CreateTable if_not_exists _ _ _ => if_not_exists
  | .AddColumn _ _ => false
  | _ => true

/-- The table has the column. -/
def Schema.Has (db : Schema) (name column : String) : Prop :=
  ∃ d, db.tables.lookup name = some d ∧ d.has column = true

def Schema.HasTable (db : Schema) (name : String) : Prop := (db.tables.lookup name).isSome

def Statement.InEffect : Statement → Schema → Prop
  | .CreateTable _ name _ _, db => db.HasTable name
  | .CreateVirtualTable name _, db => db.HasTable name
  | .CreateIndex name on_table _, db => name ∈ db.indexes ∧ db.HasTable on_table
  | .CreateTrigger name on_table, db => name ∈ db.triggers ∧ db.HasTable on_table
  | .AddColumn to_table column, db => db.Has to_table column.1
  | .Copy in_table target source, db => db.Has in_table target ∧ db.Has in_table source

/-- Nothing that the database has is missing from the other one. -/
structure Grows (a b : Schema) : Prop where
  tables : ∀ name, a.HasTable name → b.HasTable name
  columns : ∀ name column, a.Has name column → b.Has name column
  indexes : ∀ name ∈ a.indexes, name ∈ b.indexes
  triggers : ∀ name ∈ a.triggers, name ∈ b.triggers

theorem grows_refl (a : Schema) : Grows a a :=
  { tables := fun _ h => h, columns := fun _ _ h => h, indexes := fun _ h => h,
    triggers := fun _ h => h }

/-- A table is new, or keeps the columns that it had. -/
theorem grows_table {db : Schema} {name : String} {d : TableDef}
    (h : ∀ old, db.tables.lookup name = some old → ∀ c, old.has c = true → d.has c = true) :
    Grows db { db with tables := db.tables.insert name d } := by
  refine { tables := ?_, columns := ?_, indexes := fun _ h => h, triggers := fun _ h => h }
  · intro other hother
    unfold Schema.HasTable at *
    dsimp only
    rw [lookup_insert_if]
    split
    · rfl
    · exact hother
  · rintro other column ⟨old, hold, hcolumn⟩
    unfold Schema.Has
    dsimp only
    rw [lookup_insert_if]
    split
    · rename_i hsame
      subst hsame
      exact ⟨d, rfl, h old hold column hcolumn⟩
    · exact ⟨old, hold, hcolumn⟩

theorem has_append (d : TableDef) (column : Column) (name : String) :
    TableDef.has { d with columns := d.columns ++ [column] } name =
      (d.has name || decide (column.1 = name)) := by
  unfold TableDef.has
  simp [List.any_append]

/-- A table that was not there is there, beside the others. -/
theorem grows_new {db : Schema} {name : String} {d : TableDef}
    (hnot : ¬ (db.tables.lookup name).isSome = true) :
    Schema.HasTable { db with tables := db.tables.insert name d } name ∧
      Grows db { db with tables := db.tables.insert name d } := by
  refine ⟨by simp [Schema.HasTable], grows_table ?_⟩
  intro old hold
  rw [hold] at hnot
  exact (hnot rfl).elim

/-- What a statement makes of a database: the effect of it is there, and all that
was there before. -/
theorem exec_spec {s : Statement} {a b : Schema} (h : s.exec a = .ok b) :
    s.InEffect b ∧ Grows a b := by
  cases s with
  | CreateTable if_not_exists name columns constraints =>
    dsimp only [Statement.exec] at h
    split at h
    · rename_i hthere
      split at h <;> cases h
      exact ⟨hthere, grows_refl a⟩
    · rename_i hnot
      cases h
      exact grows_new hnot
  | CreateVirtualTable name column =>
    dsimp only [Statement.exec] at h
    split at h
    · rename_i hthere
      cases h
      exact ⟨hthere, grows_refl a⟩
    · rename_i hnot
      cases h
      exact grows_new hnot
  | CreateIndex name on_table columns =>
    dsimp only [Statement.exec] at h
    split at h
    · cases h
    · rename_i d hd
      have htable : a.HasTable on_table := by simp [Schema.HasTable, hd]
      split at h
      · rename_i hthere
        cases h
        exact ⟨⟨hthere, htable⟩, grows_refl a⟩
      · split at h <;> cases h
        refine ⟨⟨List.mem_cons_self, htable⟩, ?_⟩
        exact { grows_refl a with indexes := fun _ h => List.mem_cons_of_mem _ h }
  | CreateTrigger name on_table =>
    dsimp only [Statement.exec] at h
    split at h
    · cases h
    · rename_i d hd
      have htable : a.HasTable on_table := by simp [Schema.HasTable, hd]
      split at h
      · rename_i hthere
        cases h
        exact ⟨⟨hthere, htable⟩, grows_refl a⟩
      · cases h
        refine ⟨⟨List.mem_cons_self, htable⟩, ?_⟩
        exact { grows_refl a with triggers := fun _ h => List.mem_cons_of_mem _ h }
  | AddColumn to_table column =>
    dsimp only [Statement.exec] at h
    split at h
    · cases h
    · rename_i d hd
      split at h <;> cases h
      refine ⟨⟨_, AList.lookup_insert _, by simp [has_append]⟩, grows_table ?_⟩
      intro old hold c hc
      rw [hd] at hold
      cases hold
      simp [has_append, hc]
  | Copy in_table target source =>
    dsimp only [Statement.exec] at h
    split at h
    · cases h
    · rename_i d hd
      split at h
      · cases h
      · rename_i htarget
        split at h <;> cases h
        rename_i hsource
        exact ⟨⟨⟨d, hd, by simpa using htarget⟩, ⟨d, hd, by simpa using hsource⟩⟩, grows_refl a⟩

theorem in_effect_grows {s : Statement} {a b : Schema} (h : Grows a b) (heffect : s.InEffect a) :
    s.InEffect b := by
  cases s with
  | CreateTable if_not_exists name columns constraints => exact h.tables _ heffect
  | CreateVirtualTable name column => exact h.tables _ heffect
  | CreateIndex name on_table columns => exact ⟨h.indexes _ heffect.1, h.tables _ heffect.2⟩
  | CreateTrigger name on_table => exact ⟨h.triggers _ heffect.1, h.tables _ heffect.2⟩
  | AddColumn to_table column => exact h.columns _ _ heffect
  | Copy in_table target source => exact ⟨h.columns _ _ heffect.1, h.columns _ _ heffect.2⟩

theorem exec_again {s : Statement} {a : Schema} (heffect : s.InEffect a)
    (hagain : s.repeatable = true) : s.exec a = .ok a := by
  cases s with
  | CreateTable if_not_exists name columns constraints =>
    have hthere : (a.tables.lookup name).isSome = true := heffect
    have hif : if_not_exists = true := hagain
    dsimp only [Statement.exec]
    rw [if_pos hthere, if_pos hif]
  | CreateVirtualTable name column =>
    have hthere : (a.tables.lookup name).isSome = true := heffect
    dsimp only [Statement.exec]
    rw [if_pos hthere]
  | CreateIndex name on_table columns =>
    obtain ⟨d, hd⟩ := Option.isSome_iff_exists.mp heffect.2
    dsimp only [Statement.exec]
    rw [hd]
    exact if_pos heffect.1
  | CreateTrigger name on_table =>
    obtain ⟨d, hd⟩ := Option.isSome_iff_exists.mp heffect.2
    dsimp only [Statement.exec]
    rw [hd]
    exact if_pos heffect.1
  | AddColumn to_table column => cases hagain
  | Copy in_table target source =>
    obtain ⟨⟨d, hd, htarget⟩, d', hd', hsource⟩ := heffect
    rw [hd] at hd'
    cases hd'
    dsimp only [Statement.exec]
    rw [hd]
    simp [htarget, hsource]

theorem exec_refused {s : Statement} {a : Schema} (heffect : s.InEffect a)
    (honce : s.repeatable = false) : ∃ e, s.exec a = .error e := by
  cases s with
  | CreateTable if_not_exists name columns constraints =>
    have hthere : (a.tables.lookup name).isSome = true := heffect
    have hif : if_not_exists = false := honce
    dsimp only [Statement.exec]
    rw [if_pos hthere, hif]
    exact ⟨_, rfl⟩
  | AddColumn to_table column =>
    obtain ⟨d, hd, hcolumn⟩ := heffect
    dsimp only [Statement.exec]
    rw [hd]
    exact ⟨_, if_pos hcolumn⟩
  | CreateVirtualTable | CreateIndex | CreateTrigger | Copy => cases honce

/-- The statements as a dialect: tables, columns, indexes and triggers stay. -/
def sqlite : Dialect Schema Statement SqlError where
  exec s db := s.exec db
  repeatable := Statement.repeatable
  InEffect := Statement.InEffect
  takes h := (exec_spec h).1
  lasts heffect h := in_effect_grows (exec_spec h).2 heffect
  again := exec_again
  refuses := exec_refused

theorem exec_version {s : Statement} {a b : Schema} (h : s.exec a = .ok b) :
    b.version = a.version := by
  cases s with
  | CreateTable | CreateVirtualTable | CreateIndex | CreateTrigger | AddColumn | Copy =>
    dsimp only [Statement.exec] at h
    repeat' split at h
    all_goals cases h
    all_goals rfl

/-! ## Where a migration stops -/

theorem execute_sql (db : Schema) (p : List Statement) :
    execute Command.exec db (p.map .Sql) = execute sqlite.exec db p := by
  induction p generalizing db with
  | nil => rfl
  | cons s rest ih =>
    rw [List.map_cons, execute_cons, execute_cons]
    have hsame : Command.exec (.Sql s) db = sqlite.exec s db := rfl
    rw [hsame]
    rcases sqlite.exec s db with e | b
    · rfl
    · exact ih b

theorem execute_version {p : List Statement} {a b : Schema}
    (h : execute sqlite.exec a p = (b, .ok ())) : current b = current a := by
  induction p generalizing a with
  | nil =>
    cases h
    rfl
  | cons s rest ih =>
    obtain ⟨c, hc, hrest⟩ := execute_cons_ok.mp h
    rw [ih hrest]
    unfold current
    rw [exec_version hc]

theorem put_version {n : Nat} {a b : Schema} (h : Command.exec (.PutVersion n) a = .ok b) :
    current b = n := by
  dsimp only [Command.exec] at h
  split at h <;> cases h
  rfl

theorem commands_append (i : Nat) (ms ns : List (List Statement)) :
    commands i (ms ++ ns) = commands i ms ++ commands (i + ms.length) ns := by
  induction ms generalizing i with
  | nil => rfl
  | cons batch rest ih =>
    rw [List.cons_append]
    dsimp only [commands]
    rw [ih, List.append_assoc, List.cons_append, List.length_cons]
    have hlen : i + 1 + rest.length = i + (rest.length + 1) := by omega
    rw [hlen]

/-- One batch that goes through: its statements do, and behind them its number is
the version. -/
theorem execute_batch {i : Nat} {batch : List Statement} {rest : List (List Statement)}
    {a c : Schema} (h : execute Command.exec a (commands i (batch :: rest)) = (c, .ok ())) :
    ∃ b d, execute sqlite.exec a batch = (b, .ok ()) ∧
      Command.exec (.PutVersion (i + 1)) b = .ok d ∧
      execute Command.exec d (commands (i + 1) rest) = (c, .ok ()) := by
  obtain ⟨b, hbatch, hrest⟩ := execute_append_ok.mp h
  obtain ⟨d, hput, hmore⟩ := execute_cons_ok.mp hrest
  rw [execute_sql] at hbatch
  exact ⟨b, d, hbatch, hput, hmore⟩

theorem version_behind {i : Nat} {ms : List (List Statement)} {a c : Schema}
    (hversion : current a = i) (h : execute Command.exec a (commands i ms) = (c, .ok ())) :
    current c = i + ms.length := by
  induction ms generalizing i a with
  | nil =>
    cases h
    exact hversion
  | cons batch rest ih =>
    obtain ⟨b, d, -, hput, hmore⟩ := execute_batch h
    rw [ih (put_version hput) hmore, List.length_cons]
    omega

/-- The statements that were executed since the version was written last. -/
def outstanding (executed : List Command) : List Statement :=
  executed.foldl (fun done c =>
    match c with
    | .Sql s => done ++ [s]
    | .PutVersion _ => []) []

theorem outstanding_sql (p : List Statement) : outstanding (p.map .Sql) = p := by
  have hgrow : ∀ done : List Statement, (p.map Command.Sql).foldl (fun done c =>
      match c with
      | .Sql s => done ++ [s]
      | .PutVersion _ => []) done = done ++ p := by
    induction p with
    | nil => intro done; simp
    | cons s rest ih =>
      intro done
      rw [List.map_cons, List.foldl_cons, ih]
      simp
  exact (hgrow []).trans (List.nil_append p)

theorem outstanding_put (p : List Command) (n : Nat) (q : List Command) :
    outstanding (p ++ .PutVersion n :: q) = outstanding q := by
  unfold outstanding
  rw [List.foldl_append, List.foldl_cons]

/-- Where a migration that would go through is stopped, a later one begins with the
statements that are outstanding, and they are all that it repeats. -/
theorem stop_splits {i : Nat} {ms : List (List Statement)} {a c : Schema}
    (hversion : current a = i) (h : execute Command.exec a (commands i ms) = (c, .ok ()))
    (n : Nat) :
    ∃ a' b q, execute Command.exec a ((commands i ms).take n) = (b, .ok ()) ∧
      i ≤ current b ∧
      commands (current b) (ms.drop (current b - i)) =
        (outstanding ((commands i ms).take n)).map .Sql ++ q ∧
      execute sqlite.exec a' (outstanding ((commands i ms).take n)) = (b, .ok ()) ∧
      execute Command.exec b q = (c, .ok ()) := by
  induction ms generalizing i a n with
  | nil =>
    cases h
    refine ⟨c, c, [], ?_, Nat.le_of_eq hversion.symm, ?_, ?_, rfl⟩
    · simp [commands, execute]
    · simp [commands, outstanding]
    · simp [commands, outstanding, execute]
  | cons batch rest ih =>
    obtain ⟨b, d, hbatch, hput, hmore⟩ := execute_batch h
    by_cases hn : n ≤ batch.length
    · -- inside this batch: the version is still the old one
      have htake : (commands i (batch :: rest)).take n = (batch.take n).map .Sql := by
        dsimp only [commands]
        rw [List.take_append_of_le_length (by simpa using hn), List.map_take]
      have hcut : execute sqlite.exec a (batch.take n ++ batch.drop n) = (b, .ok ()) := by
        rw [List.take_append_drop]
        exact hbatch
      obtain ⟨e, hpart, hleft⟩ := execute_append_ok.mp hcut
      have he : current e = i := (execute_version hpart).trans hversion
      rw [htake, outstanding_sql, execute_sql]
      refine ⟨a, e, (batch.drop n).map .Sql ++ .PutVersion (i + 1) :: commands (i + 1) rest,
        hpart, Nat.le_of_eq he.symm, ?_, hpart, ?_⟩
      · rw [he, Nat.sub_self, List.drop_zero, ← List.append_assoc, ← List.map_append,
          List.take_append_drop]
        rfl
      · rw [execute_append_ok]
        refine ⟨b, ?_, execute_cons_ok.mpr ⟨d, hput, hmore⟩⟩
        rw [execute_sql]
        exact hleft
    · -- behind this batch
      have htake : (commands i (batch :: rest)).take n =
          batch.map .Sql ++ .PutVersion (i + 1) ::
            (commands (i + 1) rest).take (n - batch.length - 1) := by
        dsimp only [commands]
        have hlen : n - (batch.map Command.Sql).length = (n - batch.length - 1) + 1 := by
          rw [List.length_map]
          omega
        rw [List.take_append, hlen, List.take_succ_cons,
          List.take_of_length_le (by rw [List.length_map]; omega)]
      obtain ⟨a', e, q, hstop, hle, hcommands, hdone, hrest⟩ :=
        ih (put_version hput) hmore (n - batch.length - 1)
      rw [htake, outstanding_put]
      refine ⟨a', e, q, ?_, by omega, ?_, hdone, hrest⟩
      · rw [execute_append_ok]
        refine ⟨b, ?_, execute_cons_ok.mpr ⟨d, hput, hstop⟩⟩
        rw [execute_sql]
        exact hbatch
      · have hdrop : current e - i = current e - (i + 1) + 1 := by omega
        rw [hdrop, List.drop_succ_cons]
        exact hcommands

/-! ## Any version, any stop -/

/-- All migrations go through on a new file. -/
theorem fresh_migrates :
    ∃ c, execute Command.exec Schema.fresh (commands 0 MIGRATIONS) = (c, .ok ()) := by
  have hok : (execute Command.exec Schema.fresh (commands 0 MIGRATIONS)).2 = .ok () := by
    decide +kernel
  exact ⟨_, Prod.ext rfl hok⟩

/-- A database of any release has that version, and migrates. -/
theorem at_version_migrates {v : Nat} (hv : v ≤ MIGRATIONS.length) :
    current (at_version v) = v ∧
      ∃ c, execute Command.exec (at_version v) (program (at_version v)) = (c, .ok ()) := by
  obtain ⟨c, hc⟩ := fresh_migrates
  rw [← List.take_append_drop v MIGRATIONS, commands_append] at hc
  obtain ⟨b, hb, hrest⟩ := execute_append_ok.mp hc
  have hlen : (MIGRATIONS.take v).length = v := by
    rw [List.length_take]
    omega
  have hat : at_version v = b := by
    unfold at_version
    rw [hb]
  have hcurrent : current b = v := by
    rw [version_behind (i := 0) rfl hb, hlen, Nat.zero_add]
  rw [hlen, Nat.zero_add] at hrest
  rw [hat]
  refine ⟨hcurrent, c, ?_⟩
  unfold program
  rw [hcurrent]
  exact hrest

/-- A migrated database has nothing left to migrate. -/
theorem migrate_again {db : Schema} (h : (migrate db).2 = .ok ()) :
    migrate (migrate db).1 = ((migrate db).1, .ok ()) := by
  have hdone : ∃ c, execute Command.exec db (program db) = (c, .ok ()) := by
    unfold migrate at h
    rcases hrun : execute Command.exec db (program db) with ⟨c, e | _⟩
    · rw [hrun] at h
      cases h
    · exact ⟨c, rfl⟩
  obtain ⟨c, hc⟩ := hdone
  have hleft : (migrate db).1 = c := by
    unfold migrate
    rw [hc]
  have hnone : program c = [] := by
    unfold program
    have hbehind := version_behind rfl hc
    rw [List.length_drop] at hbehind
    rw [List.drop_of_length_le (by omega)]
    rfl
  rw [hleft]
  unfold migrate
  rw [hnone]
  rfl

/-- **A stopped migration resumes when all that is outstanding can be repeated.**
From a database of any version, stopped behind any number of statements, a later
open goes through to the same tables and the last version exactly when, since the
version was written last, no column was added and no table was made without
`IF NOT EXISTS`. -/
theorem a_stopped_migration_resumes_when_what_it_did_is_repeatable {v : Nat}
    (hv : v ≤ MIGRATIONS.length) (stop : Nat) :
    (∃ db, migrate (stopped (at_version v) stop) = (db, .ok ()) ∧
        db.tables = (migrate (at_version v)).1.tables ∧ db.version = some MIGRATIONS.length) ↔
      ∀ s ∈ outstanding ((program (at_version v)).take stop), s.repeatable = true := by
  obtain ⟨hcurrent, c, hc⟩ := at_version_migrates hv
  have hwhole : migrate (at_version v) = (c, .ok ()) := by
    unfold migrate
    rw [hc]
  have hprogram : program (at_version v) = commands v (MIGRATIONS.drop v) := by
    unfold program
    rw [hcurrent]
  rw [hprogram] at hc ⊢
  obtain ⟨a', b, q, hstop, hle, hcommands, hdone, hrest⟩ := stop_splits hcurrent hc stop
  have hstopped : stopped (at_version v) stop = b := by
    unfold stopped
    rw [hprogram, hstop]
  have hlater : program b =
      (outstanding ((commands v (MIGRATIONS.drop v)).take stop)).map .Sql ++ q := by
    unfold program
    have hdrop : v + (current b - v) = current b := by omega
    rw [← hcommands, List.drop_drop, hdrop]
  have hfinal : c.version = some MIGRATIONS.length := by
    have hbehind := version_behind hcurrent hc
    rw [List.length_drop] at hbehind
    have hall : v + (MIGRATIONS.length - v) = MIGRATIONS.length := by omega
    rw [hall] at hbehind
    unfold current at hbehind
    rcases hversion : c.version with _ | n
    · rw [hversion] at hbehind
      cases hbehind
    · rw [hversion] at hbehind
      exact congrArg some hbehind
  rw [hstopped, hwhole]
  have hok : ∀ db, migrate b = (db, .ok ()) ↔ execute Command.exec b (program b) = (db, .ok ()) := by
    intro db
    unfold migrate
    rcases execute Command.exec b (program b) with ⟨db', e | _⟩ <;> simp
  constructor
  · rintro ⟨db, hdb, -, -⟩
    rw [hok, hlater, execute_append_ok] at hdb
    obtain ⟨b', hagain, -⟩ := hdb
    rw [execute_sql] at hagain
    exact ((sqlite.again_iff hdone).mp hagain).1
  · intro hrepeat
    refine ⟨c, ?_, rfl, hfinal⟩
    rw [hok, hlater, execute_append_ok]
    refine ⟨b, ?_, hrest⟩
    rw [execute_sql]
    exact (sqlite.again_iff hdone).mpr ⟨hrepeat, rfl⟩

/-- The first column of the second migration is there, and its version is not: every
later open fails. -/
theorem an_added_column_is_added_again :
    (migrate (stopped (at_version 1) 1)).2 =
        .error (.Storage "duplicate column name: conversation_id") ∧
      ¬ ∃ db, migrate (stopped (at_version 1) 1) = (db, .ok ()) ∧
        db.tables = (migrate (at_version 1)).1.tables ∧ db.version = some MIGRATIONS.length := by
  have hfails : (migrate (stopped (at_version 1) 1)).2 =
      .error (.Storage "duplicate column name: conversation_id") := by decide +kernel
  refine ⟨hfails, ?_⟩
  rintro ⟨db, hdb, -, -⟩
  rw [hdb] at hfails
  cases hfails

/-- The peers' table of the fourth migration is there, and its version is not. -/
theorem a_peers_table_is_not_made_again :
    ∃ db, migrate (stopped (at_version 3) 1) = (db, .ok ()) ∧
      db.tables = (migrate (at_version 3)).1.tables ∧ db.version = some MIGRATIONS.length :=
  (a_stopped_migration_resumes_when_what_it_did_is_repeatable (by decide) 1).mpr
    (by decide +kernel)

end pai_storage
