-- Encrypting the store at rest (pai-storage): the files that the migration renames,
-- and what the next open finds when it stops on the way.
import PersonalAi.Lib.Program
import PersonalAi.StoreSchema

open pai_core program text

namespace pai_storage

variable {Row : Type}

/-! ## Files -/

/-- A SQLCipher key. -/
abbrev EncryptionKey := Bytes

/-- What a database file and its WAL hold: the schema, and the rows of all tables. -/
structure Database (Row : Type) where
  schema : Schema
  rows : List Row

def Database.empty : Database Row := { schema := Schema.fresh, rows := [] }

/-- A file: of no bytes, as `Connection::open` makes a missing one, a plaintext
database, or one under a key. -/
inductive File (Row : Type)
  | blank
  | plain (d : Database Row)
  | sealed (key : EncryptionKey) (d : Database Row)

/-- The files of the data directory that an open looks at: `personal-ai.db`, and the
same with the extensions `enc`, `plaintext-bak`, `wal` and `shm`. -/
structure Files (Row : Type) where
  db : Option (File Row)
  enc : Option (File Row)
  bak : Option (File Row)
  wal : Option (File Row)
  shm : Option (File Row)

/-- The renames of the migration: the database away, the encrypted one in, and the
way back when that fails. -/
inductive Rename
  | Away | In | Back
deriving DecidableEq

/-- The file operations of the migration. Each comes at most once in a run. -/
inductive FileOp
  | RemoveEnc | RemoveBak | Attach | Export | Move (r : Rename) | RemoveWal | RemoveShm | DropBak
deriving DecidableEq

/-- The disk of a process: it stops right before one of the operations, or never,
and one of the renames may fail, with the error that the system gives. -/
structure Disk (Row : Type) where
  files : Files Row
  stop : Option FileOp
  failing : Option (Rename × String)

/-- A process that nothing disturbs. -/
abbrev undisturbed (files : Files Row) : Disk Row := { files, stop := none, failing := none }

inductive Halt
  | Stopped
  | Failed (e : Error)

abbrev Process (Row α : Type) := Prog (Disk Row) Empty Halt α

/-- One operation on the files. -/
def file_op (op : FileOp) (f : Files Row → Files Row) : Process Row Unit := consult (fun w =>
  if w.stop = some op then (.error .Stopped, w) else (.ok (), { w with files := f w.files }))

/-- A rename may fail, and then changes nothing. -/
def move (r : Rename) (f : Files Row → Files Row) : Process Row Unit := consult (fun w =>
  if w.stop = some (.Move r) then (.error .Stopped, w)
  else
    match w.failing with
    | some (r', msg) =>
      if r' = r then (.error (.Failed (.Storage msg)), w)
      else (.ok (), { w with files := f w.files })
    | none => (.ok (), { w with files := f w.files }))

/-- `let _ =`: an error is dropped, but a process that stops has stopped. -/
def best_effort (p : Process Row Unit) : Process Row Unit := do
  let result ← attempt p
  match result with
  | .error .Stopped => fail .Stopped
  | _ => pure ()

/-! ## Store::open -/

/-- What a connection without a key reads in a file; of a file under a key it reads
nothing. -/
def File.content : Option (File Row) → Database Row
  | some (.plain d) => d
  | _ => Database.empty

/-- Leftovers go, and the plaintext database is exported into an encrypted one. -/
def export_encrypted (key : EncryptionKey) : Process Row Unit := do
  file_op .RemoveEnc (fun fs => { fs with enc := none })
  file_op .RemoveBak (fun fs => { fs with bak := none })
  file_op .Attach (fun fs => { fs with enc := some (.sealed key Database.empty) })
  file_op .Export (fun fs => { fs with enc := some (.sealed key (File.content fs.db)) })

/-- The database goes to the backup and the encrypted one takes its place; where that
fails, the backup comes back. -/
def swap_files : Process Row Unit := do
  move .Away (fun fs => { fs with db := none, bak := fs.db })
  let moved ← attempt (move .In (fun fs => { fs with enc := none, db := fs.enc }))
  match moved with
  | .error .Stopped => fail .Stopped
  | .error (.Failed e) => do
    best_effort (move .Back (fun fs => { fs with bak := none, db := fs.bak }))
    fail (.Failed e)
  | .ok () => pure ()

def remove_leftovers : Process Row Unit := do
  best_effort (file_op .RemoveWal (fun fs => { fs with wal := none }))
  best_effort (file_op .RemoveShm (fun fs => { fs with shm := none }))
  best_effort (file_op .DropBak (fun fs => { fs with bak := none }))

/-- Copy a plaintext database into an encrypted one and swap with a backup. -/
def migrate_to_encrypted (key : EncryptionKey) : Process Row Unit := do
  export_encrypted key
  swap_files
  remove_leftovers

/-- There is a database, and it reads without a key. -/
def plaintext_there (fs : Files Row) : Bool :=
  match fs.db with
  | some (.sealed _ _) => false
  | some _ => true
  | none => false

/-- A connection makes a missing file. -/
def connect : Process Row Unit := consult (fun w =>
  (.ok (), { w with files := { w.files with db := some (w.files.db.getD .blank) } }))

/-- The probe of the schema table, under the key that was set. -/
def probe (key : Option EncryptionKey) : Process Row (Database Row) := demand (fun w =>
  match w.files.db, key with
  | some .blank, _ => .ok Database.empty
  | some (.plain d), none => .ok d
  | some (.sealed k d), some k' =>
    if k = k' then .ok d
    else .error (.Failed (.Storage "cannot read store: bad or missing key"))
  | _, _ => .error (.Failed (.Storage "cannot read store: bad or missing key")))

def file_of (key : Option EncryptionKey) (d : Database Row) : File Row :=
  match key with
  | some k => .sealed k d
  | none => .plain d

/-- The schema migrations. No statement of them takes a row away. -/
def migrate_schema (key : Option EncryptionKey) (d : Database Row) :
    Process Row (Database Row) := consult (fun w =>
  let after : Database Row := { d with schema := (migrate d.schema).1 }
  let w := { w with files := { w.files with db := some (file_of key after) } }
  match (migrate d.schema).2 with
  | .error e => (.error (.Failed e), w)
  | .ok () => (.ok after, w))

/-- The connection, and the store behind it. -/
def connect_store (key : Option EncryptionKey) : Process Row (Database Row) := do
  connect
  let d ← probe key
  migrate_schema key d

/-- `Store::open`: creating and migrating the store where needed. -/
def open_store (key : Option EncryptionKey) : Process Row (Database Row) := do
  match key with
  | none => connect_store none
  | some k => do
    let plaintext ← ask (fun w => plaintext_there w.files)
    doWhen plaintext (migrate_to_encrypted k)
    connect_store (some k)

/-! ## Single operations -/

section operations
variable {files : Files Row} {stop : Option FileOp} {failing : Option (Rename × String)}

theorem move_stopped {r : Rename} (h : stop = some (.Move r)) (f : Files Row → Files Row) :
    (move r f).outcome ⟨files, stop, failing⟩ = (.error .Stopped, ⟨files, stop, failing⟩) := by
  unfold move
  rw [outcome_consult, if_pos h]

theorem move_failed {r : Rename} {msg : String} (hstop : stop ≠ some (.Move r))
    (h : failing = some (r, msg)) (f : Files Row → Files Row) :
    (move r f).outcome ⟨files, stop, failing⟩ =
      (.error (.Failed (.Storage msg)), ⟨files, stop, failing⟩) := by
  subst h
  unfold move
  rw [outcome_consult, if_neg hstop]
  exact if_pos rfl

theorem move_done {r : Rename} (hstop : stop ≠ some (.Move r))
    (h : failing.map Prod.fst ≠ some r) (f : Files Row → Files Row) :
    (move r f).outcome ⟨files, stop, failing⟩ = (.ok (), ⟨f files, stop, failing⟩) := by
  unfold move
  rw [outcome_consult, if_neg hstop]
  rcases failing with _ | ⟨r', msg⟩
  · rfl
  · have hne : r' ≠ r := by simpa using h
    exact if_neg hne

theorem file_op_stopped {op : FileOp} (h : stop = some op) (f : Files Row → Files Row) :
    (file_op op f).outcome ⟨files, stop, failing⟩ = (.error .Stopped, ⟨files, stop, failing⟩) := by
  unfold file_op
  rw [outcome_consult, if_pos h]

theorem file_op_done {op : FileOp} (h : stop ≠ some op) (f : Files Row → Files Row) :
    (file_op op f).outcome ⟨files, stop, failing⟩ = (.ok (), ⟨f files, stop, failing⟩) := by
  unfold file_op
  rw [outcome_consult, if_neg h]

end operations

/-- The operation leaves the database file alone, and the disk as it fares. -/
def Spares (p : Process Row Unit) : Prop := ∀ w, (p.outcome w).2.files.db = w.files.db ∧
  (p.outcome w).2.stop = w.stop ∧ (p.outcome w).2.failing = w.failing

theorem spares_file_op (op : FileOp) {f : Files Row → Files Row} (hf : ∀ fs, (f fs).db = fs.db) :
    Spares (file_op op f) := by
  intro w
  unfold file_op
  rw [outcome_consult]
  split
  · exact ⟨rfl, rfl, rfl⟩
  · exact ⟨hf w.files, rfl, rfl⟩

theorem outcome_best_effort (p : Process Row Unit) (w : Disk Row) :
    (best_effort p).outcome w =
      match p.outcome w with
      | (.error .Stopped, w') => (.error .Stopped, w')
      | (_, w') => (.ok (), w') := by
  unfold best_effort
  rw [outcome_bind_ok (outcome_attempt p w)]
  rcases p.outcome w with ⟨(_ | e) | _, w'⟩ <;> rfl

theorem spares_best_effort {p : Process Row Unit} (hp : Spares p) : Spares (best_effort p) := by
  intro w
  have hw := hp w
  rw [outcome_best_effort]
  rcases hrun : p.outcome w with ⟨(_ | e) | _, w'⟩
  all_goals
    rw [hrun] at hw
    exact hw

theorem spares_bind {p q : Process Row Unit} (hp : Spares p) (hq : Spares q) :
    Spares (p >>= fun _ => q) := by
  intro w
  have hpw := hp w
  rw [outcome_bind]
  rcases hrun : p.outcome w with ⟨e | _, w'⟩
  · rw [hrun] at hpw
    exact hpw
  · rw [hrun] at hpw
    obtain ⟨hdb, hstop, hfailing⟩ := hq w'
    exact ⟨hdb.trans hpw.1, hstop.trans hpw.2.1, hfailing.trans hpw.2.2⟩

/-! ## Where the migration stops -/

/-- The process stops while neither the plaintext database nor the encrypted one is
in place: between the two renames, or when the second one has failed, before the way
back. -/
def Gap (stop : Option FileOp) (failing : Option (Rename × String)) : Prop :=
  (stop = some (.Move .In) ∧ failing.map Prod.fst ≠ some .Away) ∨
    (stop = some (.Move .Back) ∧ failing.map Prod.fst = some .In)

section stops
variable (files : Files Row) (stop : Option FileOp) (failing : Option (Rename × String))

/-- The export ends with the encrypted copy, or the process stops in it. -/
theorem export_spec (key : EncryptionKey) :
    ∃ after : Files Row, after.db = files.db ∧
      (((export_encrypted key).outcome ⟨files, stop, failing⟩ = (.ok (), ⟨after, stop, failing⟩) ∧
          after.enc = some (.sealed key (File.content files.db))) ∨
        ((export_encrypted key).outcome ⟨files, stop, failing⟩ =
            (.error .Stopped, ⟨after, stop, failing⟩) ∧ ¬ Gap stop failing)) := by
  have hsafe : ∀ op, stop = some op → (∀ r, op ≠ .Move r) → ¬ Gap stop failing := by
    rintro op hstop hop (⟨hin, -⟩ | ⟨hback, -⟩)
    · rw [hstop] at hin
      exact hop .In (by injection hin)
    · rw [hstop] at hback
      exact hop .Back (by injection hback)
  unfold export_encrypted
  by_cases h1 : stop = some .RemoveEnc
  · refine ⟨files, rfl, .inr ⟨?_, hsafe _ h1 (fun _ => FileOp.noConfusion)⟩⟩
    exact outcome_bind_error (file_op_stopped h1 _) _
  rw [outcome_bind_ok (file_op_done h1 _)]
  by_cases h2 : stop = some .RemoveBak
  · refine ⟨{ files with enc := none }, rfl, .inr ⟨?_, hsafe _ h2 (fun _ => FileOp.noConfusion)⟩⟩
    exact outcome_bind_error (file_op_stopped h2 _) _
  rw [outcome_bind_ok (file_op_done h2 _)]
  by_cases h3 : stop = some .Attach
  · refine ⟨{ files with enc := none, bak := none }, rfl,
      .inr ⟨?_, hsafe _ h3 (fun _ => FileOp.noConfusion)⟩⟩
    exact outcome_bind_error (file_op_stopped h3 _) _
  rw [outcome_bind_ok (file_op_done h3 _)]
  by_cases h4 : stop = some .Export
  · refine ⟨{ files with enc := some (.sealed key Database.empty), bak := none }, rfl,
      .inr ⟨?_, hsafe _ h4 (fun _ => FileOp.noConfusion)⟩⟩
    exact file_op_stopped h4 _
  · refine ⟨{ files with enc := some (.sealed key (File.content files.db)), bak := none }, rfl,
      .inl ⟨?_, rfl⟩⟩
    exact file_op_done h4 _

/-- The swap: in the gap the database is away; else it is the old one, and the swap
has not gone through, or the new one. -/
theorem swap_spec {f g : File Row} (hdb : files.db = some f) (henc : files.enc = some g) :
    ∃ r after, swap_files.outcome ⟨files, stop, failing⟩ = (r, ⟨after, stop, failing⟩) ∧
      ((Gap stop failing ∧ after.db = none ∧ after.bak = some f ∧ ∃ e, r = .error e) ∨
        (¬ Gap stop failing ∧ after.db = some f ∧ ∃ e, r = .error e) ∨
        (¬ Gap stop failing ∧ after.db = some g)) := by
  unfold swap_files
  by_cases haway : stop = some (.Move .Away)
  · refine ⟨_, files, outcome_bind_error (move_stopped haway _) _, .inr (.inl ⟨?_, hdb, ?_⟩)⟩
    · simp [Gap, haway]
    · exact ⟨_, rfl⟩
  by_cases hfail : failing.map Prod.fst = some .Away
  · obtain ⟨⟨r, msg⟩, hfailing, hr⟩ := Option.map_eq_some_iff.mp hfail
    cases hr
    refine ⟨_, files, outcome_bind_error (move_failed haway hfailing _) _,
      .inr (.inl ⟨?_, hdb, ?_⟩)⟩
    · simp [Gap, hfail]
    · exact ⟨_, rfl⟩
  rw [outcome_bind_ok (move_done haway hfail _)]
  by_cases hin : stop = some (.Move .In)
  · -- the process stops between the renames
    refine ⟨.error .Stopped, { files with db := none, bak := files.db }, ?_,
      .inl ⟨.inl ⟨hin, hfail⟩, rfl, hdb, ⟨_, rfl⟩⟩⟩
    rw [outcome_bind_ok (outcome_attempt _ _), move_stopped hin]
    rfl
  by_cases hfailin : failing.map Prod.fst = some .In
  · -- the second rename fails, and the backup comes back
    obtain ⟨⟨r, msg⟩, hfailing, hr⟩ := Option.map_eq_some_iff.mp hfailin
    cases hr
    rw [outcome_bind_ok (outcome_attempt _ _), move_failed hin hfailing]
    dsimp only
    by_cases hback : stop = some (.Move .Back)
    · refine ⟨.error .Stopped, { files with db := none, bak := files.db }, ?_,
        .inl ⟨.inr ⟨hback, hfailin⟩, rfl, hdb, ⟨_, rfl⟩⟩⟩
      apply outcome_bind_error
      rw [outcome_best_effort, move_stopped hback]
    · have hnotback : failing.map Prod.fst ≠ some .Back := by simp [hfailing]
      refine ⟨.error (.Failed (.Storage msg)), { files with bak := none, db := files.db }, ?_,
        .inr (.inl ⟨?_, hdb, ⟨_, rfl⟩⟩)⟩
      · rw [outcome_bind, outcome_best_effort, move_done hback hnotback]
        rfl
      · simp [Gap, hin, hback]
  · refine ⟨.ok (), { files with enc := none, bak := files.db, db := files.enc }, ?_,
      .inr (.inr ⟨?_, henc⟩)⟩
    · rw [outcome_bind_ok (outcome_attempt _ _), move_done hin hfailin]
      rfl
    · simp [Gap, hin, hfailin]

end stops

theorem spares_leftovers : Spares (remove_leftovers : Process Row Unit) := by
  apply spares_bind
  · exact spares_best_effort (spares_file_op _ (fun _ => rfl))
  apply spares_bind
  · exact spares_best_effort (spares_file_op _ (fun _ => rfl))
  · exact spares_best_effort (spares_file_op _ (fun _ => rfl))

/-- The migration: in the gap the plaintext database is in the backup, and nothing is
in its place. -/
theorem migrate_spec (key : EncryptionKey) {files : Files Row} (stop : Option FileOp)
    (failing : Option (Rename × String)) {d : Database Row} (hdb : files.db = some (.plain d)) :
    ∃ r w', (migrate_to_encrypted key).outcome ⟨files, stop, failing⟩ = (r, w') ∧
      ((Gap stop failing ∧ w'.files.db = none ∧ w'.files.bak = some (.plain d) ∧ ∃ e, r = .error e) ∨
        (¬ Gap stop failing ∧ w'.files.db = some (.plain d) ∧ ∃ e, r = .error e) ∨
        (¬ Gap stop failing ∧ w'.files.db = some (.sealed key d))) := by
  unfold migrate_to_encrypted
  obtain ⟨exported, hdb₁, ⟨hexport, henc⟩ | ⟨hexport, hgap⟩⟩ := export_spec files stop failing key
  · rw [hdb] at henc hdb₁
    obtain ⟨r, swapped, hswap, hcases⟩ := swap_spec exported stop failing hdb₁ henc
    rw [outcome_bind_ok hexport]
    rcases r with e | _
    · rw [outcome_bind_error hswap]
      exact ⟨_, _, rfl, hcases⟩
    · rw [outcome_bind_ok hswap]
      refine ⟨_, _, rfl, .inr (.inr ?_)⟩
      rcases hcases with ⟨-, -, -, e, he⟩ | ⟨-, -, e, he⟩ | h
      · cases he
      · cases he
      · exact ⟨h.1, (spares_leftovers _).1.trans h.2⟩
  · refine ⟨_, _, outcome_bind_error hexport _, .inr (.inl ⟨hgap, ?_, ⟨_, rfl⟩⟩)⟩
    exact hdb₁.trans hdb

/-! ## The next open -/

/-- A migration that nothing disturbs goes through. -/
theorem migrate_undisturbed (key : EncryptionKey) (fs : Files Row) :
    (migrate_to_encrypted key).outcome (undisturbed fs) = (.ok (), undisturbed
      { db := some (.sealed key (File.content fs.db)), enc := none, bak := none, wal := none,
        shm := none }) := rfl

/-- A connection to an encrypted store reads its rows, and leaves them there. -/
theorem connect_spec (key : EncryptionKey) {w : Disk Row} {d : Database Row}
    (hdb : w.files.db = some (.sealed key d)) (hopens : (migrate d.schema).2 = .ok ()) :
    ∃ after w', (connect_store (some key)).outcome w = (.ok after, w') ∧ after.rows = d.rows ∧
      w'.files.db = some (.sealed key after) ∧ (migrate after.schema).2 = .ok () := by
  have hconnect : (connect : Process Row Unit).outcome w = (.ok (), w) := by
    obtain ⟨⟨db, enc, bak, wal, shm⟩, stop, failing⟩ := w
    cases hdb
    rfl
  have hprobe : (probe (some key)).outcome w = (.ok d, w) := by
    unfold probe
    rw [outcome_demand, hdb]
    simp
  have hschema : (migrate_schema (some key) d).outcome w =
      (.ok { d with schema := (migrate d.schema).1 },
        { w with files := { w.files with
          db := some (.sealed key { d with schema := (migrate d.schema).1 }) } }) := by
    unfold migrate_schema
    rw [outcome_consult, hopens]
    rfl
  unfold connect_store
  rw [outcome_bind_ok hconnect, outcome_bind_ok hprobe, hschema]
  refine ⟨_, _, rfl, rfl, rfl, ?_⟩
  rw [migrate_again hopens]

/-- The database is in its place, as it was or under the key. -/
def InPlace (key : EncryptionKey) (rows : List Row) (fs : Files Row) : Prop :=
  ∃ d : Database Row, d.rows = rows ∧ (migrate d.schema).2 = .ok () ∧
    (fs.db = some (.plain d) ∨ fs.db = some (.sealed key d))

theorem open_plain {fs : Files Row} {d : Database Row} (hdb : fs.db = some (.plain d))
    (key : EncryptionKey) (stop : Option FileOp) (failing : Option (Rename × String)) :
    (open_store (some key)).outcome ⟨fs, stop, failing⟩ =
      (migrate_to_encrypted key >>= fun _ => connect_store (some key)).outcome
        ⟨fs, stop, failing⟩ := by
  unfold open_store
  rw [outcome_bind_ok (outcome_ask _ _)]
  unfold plaintext_there
  dsimp only
  rw [hdb]
  rfl

theorem open_sealed {fs : Files Row} {d : Database Row} {key : EncryptionKey}
    (hdb : fs.db = some (.sealed key d)) (stop : Option FileOp)
    (failing : Option (Rename × String)) :
    (open_store (some key)).outcome ⟨fs, stop, failing⟩ =
      (connect_store (some key)).outcome ⟨fs, stop, failing⟩ := by
  unfold open_store
  rw [outcome_bind_ok (outcome_ask _ _)]
  unfold plaintext_there
  dsimp only
  rw [hdb]
  rfl

/-- An open that nothing disturbs finds the database that is in its place. -/
theorem open_in_place {key : EncryptionKey} {rows : List Row} {fs : Files Row}
    (h : InPlace key rows fs) :
    ∃ d w', (open_store (some key)).outcome (undisturbed fs) = (.ok d, w') ∧ d.rows = rows := by
  obtain ⟨d, rfl, hopens, hdb | hdb⟩ := h
  · rw [open_plain hdb, outcome_bind_ok (migrate_undisturbed key fs)]
    obtain ⟨after, w', hconnect, hrows, -⟩ := connect_spec key
      (w := undisturbed { db := some (.sealed key (File.content fs.db)), enc := none, bak := none,
                          wal := none, shm := none }) rfl (by rw [hdb]; exact hopens)
    rw [hdb] at hrows
    exact ⟨after, w', hconnect, hrows⟩
  · obtain ⟨after, w', hconnect, hrows, -⟩ := connect_spec (w := undisturbed fs) key hdb hopens
    rw [open_sealed hdb]
    exact ⟨after, w', hconnect, hrows⟩

/-- The open would begin with an empty database, and there is another one with rows. -/
def StartsEmpty (fs : Files Row) : Prop :=
  (fs.db = none ∨ fs.db = some .blank) ∧
    ∃ d : Database Row, d.rows ≠ [] ∧ (fs.bak = some (.plain d) ∨ ∃ key, fs.enc = some (.sealed key d))

theorem migrate_schema_rows {key : Option EncryptionKey} {d after : Database Row}
    {w w' : Disk Row} (h : (migrate_schema key d).outcome w = (.ok after, w')) :
    after.rows = d.rows := by
  unfold migrate_schema at h
  rw [outcome_consult] at h
  dsimp only at h
  split at h
  · cases h
  · cases h
    rfl

/-- An open without a database makes an empty one. -/
theorem open_missing (key : EncryptionKey) {fs : Files Row} (hdb : fs.db = none)
    {after : Database Row} {w : Disk Row}
    (h : (open_store (some key)).outcome (undisturbed fs) = (.ok after, w)) : after.rows = [] := by
  have hconnect : (open_store (some key)).outcome (undisturbed fs) =
      (connect_store (some key)).outcome (undisturbed fs) := by
    unfold open_store
    rw [outcome_bind_ok (outcome_ask _ _)]
    unfold plaintext_there
    dsimp only
    rw [hdb]
    rfl
  have hblank : connect.outcome (undisturbed fs) =
      (.ok (), undisturbed { fs with db := some .blank }) := by
    unfold connect
    rw [outcome_consult]
    dsimp only
    rw [hdb]
    rfl
  have hprobe : (probe (some key)).outcome (undisturbed { fs with db := some .blank }) =
      (.ok Database.empty, undisturbed { fs with db := some .blank }) := rfl
  rw [hconnect] at h
  unfold connect_store at h
  rw [outcome_bind_ok hblank, outcome_bind_ok hprobe] at h
  exact migrate_schema_rows h

/-- **No row is lost unless the process stops between the renames.** A plaintext
database with rows is opened with a key, by a process that may stop before any file
operation of the migration, and for which one of the renames may fail. The next open
with the key has all rows, and never begins with an empty database, exactly when the
process did not stop in the gap. -/
theorem no_row_is_lost_unless_the_process_stops_between_the_renames (key : EncryptionKey)
    {d : Database Row} (hrows : d.rows ≠ []) (hopens : (migrate d.schema).2 = .ok ())
    {fs : Files Row} (hdb : fs.db = some (.plain d)) (stop : Option FileOp)
    (failing : Option (Rename × String)) :
    let left := ((open_store (some key)).outcome ⟨fs, stop, failing⟩).2.files
    ((∃ after w, (open_store (some key)).outcome (undisturbed left) = (.ok after, w) ∧
        after.rows = d.rows) ∧ ¬ StartsEmpty left) ↔ ¬ Gap stop failing := by
  intro left
  have hleft : left = ((migrate_to_encrypted key >>= fun _ => connect_store (some key)).outcome
      ⟨fs, stop, failing⟩).2.files := by
    rw [← open_plain hdb]
  have hsound : InPlace key d.rows left → (∃ after w, (open_store (some key)).outcome
      (undisturbed left) = (.ok after, w) ∧ after.rows = d.rows) ∧ ¬ StartsEmpty left := by
    intro h
    refine ⟨open_in_place h, ?_⟩
    obtain ⟨d', -, -, hdb' | hdb'⟩ := h
    all_goals
      rintro ⟨hmissing | hblank, -⟩
      · rw [hdb'] at hmissing
        cases hmissing
      · rw [hdb'] at hblank
        cases hblank
  obtain ⟨r, w', hmigrate, hcases⟩ := migrate_spec key stop failing hdb
  rcases hcases with ⟨hgap, hmissing, -, e, rfl⟩ | ⟨hnogap, hkept, e, rfl⟩ | ⟨hnogap, hsealed⟩
  · -- in the gap there is no database
    rw [outcome_bind_error hmigrate] at hleft
    constructor
    · rintro ⟨⟨after, w, hopen, hsame⟩, -⟩
      have hnone : left.db = none := by rw [hleft, hmissing]
      rw [open_missing key hnone hopen] at hsame
      exact (hrows hsame.symm).elim
    · exact fun hnogap => (hnogap hgap).elim
  · -- the migration did not go through
    rw [outcome_bind_error hmigrate] at hleft
    refine ⟨fun _ => hnogap, fun _ => hsound ⟨d, rfl, hopens, .inl ?_⟩⟩
    rw [hleft, hkept]
  · refine ⟨fun _ => hnogap, fun _ => hsound ?_⟩
    rcases r with e | _
    · rw [outcome_bind_error hmigrate] at hleft
      refine ⟨d, rfl, hopens, .inr ?_⟩
      rw [hleft, hsealed]
    · obtain ⟨after, w'', hconnect, hsame, hafter, hagain⟩ := connect_spec key hsealed hopens
      rw [outcome_bind_ok hmigrate, hconnect] at hleft
      refine ⟨after, hsame, hagain, .inr ?_⟩
      rw [hleft, hafter]

/-! ### A store of two rows -/

def two_rows : Files Nat :=
  { db := some (.plain { schema := Schema.fresh, rows := [1, 2] }), enc := none, bak := none,
    wal := none, shm := none }

def store_key : EncryptionKey := [7]

/-- The process stops behind the first rename: the next open makes an empty store
beside the backup with the rows. -/
theorem a_stop_between_the_renames_loses_the_rows :
    let left := ((open_store (some store_key)).outcome ⟨two_rows, some (.Move .In), none⟩).2.files
    StartsEmpty left ∧
      (∃ after w, (open_store (some store_key)).outcome (undisturbed left) = (.ok after, w) ∧
        after.rows = []) ∧
      ¬ ∃ after w, (open_store (some store_key)).outcome (undisturbed left) = (.ok after, w) ∧
        after.rows = [1, 2] := by
  intro left
  have hmissing : left.db = none := rfl
  have hbak : left.bak = two_rows.db := rfl
  have hopen : ((open_store (some store_key)).outcome (undisturbed left)).1.isOk = true := by
    decide +kernel
  refine ⟨⟨.inl hmissing, _, List.cons_ne_nil 1 [2], .inl hbak⟩, ?_, ?_⟩
  · rcases hrun : (open_store (some store_key)).outcome (undisturbed left) with ⟨e | after, w⟩
    · rw [hrun] at hopen
      cases hopen
    · exact ⟨after, w, rfl, open_missing store_key hmissing hrun⟩
  · rintro ⟨after, w, hrun, hrows⟩
    rw [open_missing store_key hmissing hrun] at hrows
    cases hrows

theorem fresh_opens : (migrate Schema.fresh).2 = .ok () := by decide +kernel

/-- The process stops in the middle of the export. -/
theorem a_stop_in_the_export_keeps_the_rows :
    let left := ((open_store (some store_key)).outcome ⟨two_rows, some .Export, none⟩).2.files
    (∃ after w, (open_store (some store_key)).outcome (undisturbed left) = (.ok after, w) ∧
      after.rows = [1, 2]) ∧ ¬ StartsEmpty left :=
  (@no_row_is_lost_unless_the_process_stops_between_the_renames _ store_key
    { schema := Schema.fresh, rows := [1, 2] } (List.cons_ne_nil 1 [2]) fresh_opens
    two_rows rfl (some .Export) none).mpr (by simp [Gap])

end pai_storage
