-- What the apply paths do to one row, and what they leave alone.
import PersonalAi.SyncApply

open pai_core sealing table text

namespace pai_sync.engine

variable {k : RowKind} {db : Db}

@[simp] theorem row_set_rows (db : Db) (k : RowKind) (t : Table String (Row k)) (id : String) :
    (db.set_rows k t).row k id = t.lookup id := by
  unfold Db.row Db.set_rows
  dsimp only
  rw [Function.update_self]

/-! ## Last writer wins -/

/-- What an update takes over of the new row: a conversation takes the scope too. -/
def settle : (k : RowKind) → Row k → Row k → Row k
  | .conversation, old, new => { overwrite old new with sync_scope := new.sync_scope }
  | _, old, new => overwrite old new

/-- The row behind a payload: the newer one. -/
def landed (p : RowPayload k) (circle : Option String) : Option (Row k) → Option (Row k)
  | none => some (row_of p circle)
  | some old =>
    if old.updated_at < p.updated_at then some (settle k old (row_of p circle)) else some old

/-- The row behind a tombstone. -/
def buried (t : Timestamp) (old : Option (Row k)) : Option (Row k) :=
  old.map (fun row =>
    if row.updated_at < t then { row with deleted := true, updated_at := t } else row)

theorem lookup_upsert_newer (set : Row k → Row k → Row k) (t : Table String (Row k))
    (id : String) (new : Row k) (id' : String) :
    (upsert_newer set t id new).lookup id' =
      if id' = id then
        match t.lookup id with
        | none => some new
        | some old => if old.updated_at < new.updated_at then some (set old new) else some old
      else t.lookup id' := by
  unfold upsert_newer
  rcases hold : t.lookup id with _ | old
  · exact lookup_insert_if t id id' new
  · dsimp only
    by_cases hnewer : old.updated_at < new.updated_at
    · rw [if_pos hnewer, if_pos hnewer, lookup_insert_if]
    · rw [if_neg hnewer, if_neg hnewer]
      by_cases hid : id' = id
      · rw [if_pos hid, hid, hold]
      · rw [if_neg hid]

theorem lookup_upsert (t : Table String (Row k)) (id : String) (new : Row k) (id' : String) :
    (upsert t id new).lookup id' =
      if id' = id then
        match t.lookup id with
        | none => some new
        | some old => some (overwrite old new)
      else t.lookup id' := by
  unfold upsert
  rcases t.lookup id with _ | old
  · exact lookup_insert_if t id id' new
  · exact lookup_insert_if t id id' _

theorem lookup_bury (t : Table String (Row k)) (id : String) (remote : Timestamp) (id' : String) :
    (bury t id remote).lookup id' =
      if id' = id then buried remote (t.lookup id) else t.lookup id' := by
  unfold bury buried
  rcases hold : t.lookup id with _ | old
  · by_cases hid : id' = id
    · rw [if_pos hid, hid, hold]
      rfl
    · rw [if_neg hid]
  · dsimp only
    by_cases hnewer : old.updated_at < remote
    · rw [if_pos hnewer, lookup_insert_if]
      simp [hnewer]
    · rw [if_neg hnewer]
      by_cases hid : id' = id
      · rw [if_pos hid, hid, hold]
        simp [hnewer]
      · rw [if_neg hid]

/-! ## The apply paths -/

/-- A document brings its blob as base64. -/
def has_blob : (k : RowKind) → k.Body → Bool
  | .document, b => b.blob_b64.isRight
  | _, _ => true

/-- One row is set, and no other one changes. -/
structure Sets (k : RowKind) (id : String) (new : Option (Row k)) (db db' : Db) : Prop where
  row : db'.row k id = new
  others : ∀ k' id', ¬ (k' = k ∧ id' = id) → db'.row k' id' = db.row k' id'

theorem sets_table {id : String} {new : Option (Row k)} {db' : Db} {t : Table String (Row k)}
    (hrows : db'.rows = Function.update db.rows k t)
    (ht : ∀ id', t.lookup id' = if id' = id then new else db.row k id') : Sets k id new db db' := by
  unfold Db.row at ht
  constructor
  · unfold Db.row
    rw [hrows, Function.update_self, ht, if_pos rfl]
  · intro k' id' hother
    unfold Db.row
    rw [hrows]
    by_cases hk : k' = k
    · subst hk
      rw [Function.update_self, ht, if_neg (fun hid => hother ⟨rfl, hid⟩)]
    · rw [Function.update_of_ne hk]

theorem sets_self (k : RowKind) (id : String) (db : Db) : Sets k id (db.row k id) db db :=
  ⟨rfl, fun _ _ _ => rfl⟩

/-- The update of the row in the table of a kind that compares times by itself. -/
theorem landed_upsert_newer (p : RowPayload k) (db : Db) (id' : String) :
    (upsert_newer (settle k) (db.rows k) p.id (row_of p none)).lookup id' =
      if id' = p.id then landed p none (db.row k p.id) else db.row k id' := by
  rw [lookup_upsert_newer]
  unfold Db.row landed
  rcases (db.rows k).lookup p.id with _ | old <;> rfl

theorem dominated_iff (t : Table String (Row k)) (id : String) (remote : Timestamp) :
    dominated t id remote = true ↔ ∃ old, t.lookup id = some old ∧ remote ≤ old.updated_at := by
  unfold dominated
  rcases t.lookup id with _ | old <;> simp

/-- A dominated payload changes nothing. -/
theorem landed_dominated {p : RowPayload k} {circle : Option String}
    (h : dominated (db.rows k) p.id p.updated_at = true) :
    landed p circle (db.row k p.id) = db.row k p.id := by
  obtain ⟨old, hold, hle⟩ := (dominated_iff _ _ _).mp h
  unfold Db.row landed
  rw [hold]
  exact if_neg (Nat.not_lt.mpr hle)

theorem apply_memory_sets {p : RowPayload .memory} (hv : p.v = 1) (db : Db)
    (circle : Option String) :
    Sets .memory p.id (landed p circle (db.row .memory p.id)) db (apply_memory db p circle).1 := by
  unfold apply_memory
  rw [if_neg (by simp [hv])]
  by_cases hdominated : dominated (db.rows .memory) p.id p.updated_at = true
  · rw [if_pos hdominated, landed_dominated hdominated]
    exact sets_self _ _ _
  · rw [if_neg hdominated]
    refine sets_table rfl (fun id' => ?_)
    rw [lookup_upsert]
    rw [dominated_iff] at hdominated
    unfold Db.row landed
    rcases hold : (db.rows .memory).lookup p.id with _ | old
    · rfl
    · have hnewer : old.updated_at < p.updated_at :=
        Nat.lt_of_not_le (fun hle => hdominated ⟨old, hold, hle⟩)
      dsimp only
      rw [if_pos hnewer]
      rfl

theorem apply_document_sets {p : RowPayload .document} (hv : p.v = 1)
    (hblob : p.body.blob_b64.isRight = true) (db : Db) :
    Sets .document p.id (landed p none (db.row .document p.id)) db (apply_document db p).1 := by
  obtain ⟨bytes, hbytes⟩ := Sum.isRight_iff.mp hblob
  have hput : (put_blob db bytes).rows = db.rows := by
    unfold put_blob
    split <;> rfl
  unfold apply_document
  rw [if_neg (by simp [hv])]
  by_cases hdominated : dominated (db.rows .document) p.id p.updated_at = true
  · rw [if_pos hdominated, landed_dominated hdominated]
    exact sets_self _ _ _
  · rw [if_neg hdominated, hbytes]
    refine sets_table ?_ (landed_upsert_newer p db)
    unfold done Db.set_rows
    dsimp only
    rw [hput]
    rfl

/-- The apply path of a payload of the version that we know: it goes through, and
lands in its row. -/
theorem apply_row_sets {p : RowPayload k} (hv : p.v = 1) (hblob : has_blob k p.body = true) (db : Db)
    (circle : Option String) :
    Sets k p.id (landed p circle (db.row k p.id)) db (apply_row k db p circle).1 := by
  cases k with
  | memory => exact apply_memory_sets hv db circle
  | document => exact apply_document_sets hv hblob db
  | conversation =>
    have hgood : ¬ p.v ≠ 1 := by simp [hv]
    unfold apply_row apply_conversation
    dsimp only
    rw [if_neg hgood]
    exact sets_table rfl (landed_upsert_newer p db)
  | task =>
    have hgood : ¬ p.v ≠ 1 := by simp [hv]
    unfold apply_row apply_task apply_newer
    dsimp only
    rw [if_neg hgood]
    exact sets_table rfl (landed_upsert_newer p db)
  | workflow =>
    have hgood : ¬ p.v ≠ 1 := by simp [hv]
    unfold apply_row apply_workflow apply_newer
    dsimp only
    rw [if_neg hgood]
    exact sets_table rfl (landed_upsert_newer p db)
  | notification =>
    have hgood : ¬ p.v ≠ 1 := by simp [hv]
    unfold apply_row apply_notification apply_newer
    dsimp only
    rw [if_neg hgood]
    exact sets_table rfl (landed_upsert_newer p db)

theorem apply_tombstone_sets (k : RowKind) (db : Db) (id : String) (t : Timestamp) :
    Sets k id (buried t (db.row k id)) db (apply_row_tombstone k db id t).1 := by
  cases k <;> exact sets_table rfl (lookup_bury _ id t)

/-- It goes through, and leaves the messages alone. -/
theorem apply_row_ok {p : RowPayload k} (hv : p.v = 1) (hblob : has_blob k p.body = true) (db : Db)
    (circle : Option String) :
    (apply_row k db p circle).2 = .ok () ∧
      (apply_row k db p circle).1.messages = db.messages := by
  have hgood : ¬ p.v ≠ 1 := by simp [hv]
  cases k with
  | memory =>
    unfold apply_row apply_memory
    dsimp only
    rw [if_neg hgood]
    split <;> exact ⟨rfl, rfl⟩
  | document =>
    obtain ⟨bytes, hbytes⟩ := Sum.isRight_iff.mp (show p.body.blob_b64.isRight from hblob)
    unfold apply_row apply_document put_blob
    dsimp only
    rw [if_neg hgood, hbytes]
    dsimp only
    split
    · exact ⟨rfl, rfl⟩
    · split <;> exact ⟨rfl, rfl⟩
  | conversation =>
    unfold apply_row apply_conversation
    dsimp only
    rw [if_neg hgood]
    exact ⟨rfl, rfl⟩
  | task =>
    unfold apply_row apply_task apply_newer
    dsimp only
    rw [if_neg hgood]
    exact ⟨rfl, rfl⟩
  | workflow =>
    unfold apply_row apply_workflow apply_newer
    dsimp only
    rw [if_neg hgood]
    exact ⟨rfl, rfl⟩
  | notification =>
    unfold apply_row apply_notification apply_newer
    dsimp only
    rw [if_neg hgood]
    exact ⟨rfl, rfl⟩

/-- The tombstone of a conversation takes its messages along. -/
theorem apply_tombstone_ok (k : RowKind) (db : Db) (id : String) (t : Timestamp) :
    (apply_row_tombstone k db id t).2 = .ok () ∧
      ∀ i, (apply_row_tombstone k db id t).1.messages.lookup i =
        (db.messages.lookup i).filter (fun m =>
          !decide (k = .conversation ∧ m.conversation_id = id)) := by
  cases k with
  | conversation =>
    refine ⟨rfl, ?_⟩
    intro i
    have hretain := lookup_retain (fun _ (m : MessageRow) => decide (m.conversation_id ≠ id))
      db.messages i
    change (retain (fun _ (m : MessageRow) => decide (m.conversation_id ≠ id)) db.messages).lookup i = _
    rw [hretain]
    simp
  | memory | document | task | workflow | notification =>
    refine ⟨rfl, fun i => ?_⟩
    change db.messages.lookup i = _
    cases db.messages.lookup i <;> simp [Option.filter]

/-- A row changes the rows, and a document also the sections and the blobs; nothing else. -/
theorem apply_row_frame {p : RowPayload k} (db : Db) (circle : Option String) :
    ∃ rows sections blobs, (apply_row k db p circle).1 =
        { db with rows := rows, document_sections := sections, blobs := blobs } ∧
      (k ≠ .document → sections = db.document_sections ∧ blobs = db.blobs) := by
  have hnothing : ∃ rows sections blobs, db =
        { db with rows := rows, document_sections := sections, blobs := blobs } ∧
      (k ≠ .document → sections = db.document_sections ∧ blobs = db.blobs) :=
    ⟨_, _, _, rfl, fun _ => ⟨rfl, rfl⟩⟩
  cases k with
  | memory =>
    unfold apply_row apply_memory
    dsimp only
    split
    · exact hnothing
    · split
      · exact hnothing
      · exact ⟨_, _, _, rfl, fun _ => ⟨rfl, rfl⟩⟩
  | document =>
    unfold apply_row apply_document put_blob
    dsimp only
    split
    · exact hnothing
    · split
      · exact hnothing
      · split
        · exact hnothing
        · split
          · exact ⟨_, _, _, rfl, fun h => (h rfl).elim⟩
          · exact ⟨_, _, _, rfl, fun h => (h rfl).elim⟩
  | conversation =>
    unfold apply_row apply_conversation
    dsimp only
    split
    · exact hnothing
    · exact ⟨_, _, _, rfl, fun _ => ⟨rfl, rfl⟩⟩
  | task =>
    unfold apply_row apply_task apply_newer
    dsimp only
    split
    · exact hnothing
    · exact ⟨_, _, _, rfl, fun _ => ⟨rfl, rfl⟩⟩
  | workflow =>
    unfold apply_row apply_workflow apply_newer
    dsimp only
    split
    · exact hnothing
    · exact ⟨_, _, _, rfl, fun _ => ⟨rfl, rfl⟩⟩
  | notification =>
    unfold apply_row apply_notification apply_newer
    dsimp only
    split
    · exact hnothing
    · exact ⟨_, _, _, rfl, fun _ => ⟨rfl, rfl⟩⟩

/-- No row brings an app or a backup. -/
theorem apply_row_apps {p : RowPayload k} (db : Db) (circle : Option String) :
    (apply_row k db p circle).1.apps = db.apps ∧
      (apply_row k db p circle).1.app_backups = db.app_backups := by
  obtain ⟨rows, sections, blobs, heq, -⟩ := @apply_row_frame k p db circle
  rw [heq]
  exact ⟨rfl, rfl⟩

/-! ## Documents -/

theorem mem_put_blob {b bytes : Bytes} : b ∈ (put_blob db bytes).blobs ↔ b ∈ db.blobs ∨ b = bytes := by
  unfold put_blob
  split
  · rename_i h
    exact ⟨.inl, fun h' => h'.elim id (fun heq => heq ▸ h)⟩
  · rw [List.mem_cons, or_comm]

/-- A document that is not dominated brings its sections and its blob. -/
theorem apply_document_brings {p : RowPayload .document} {bytes : Bytes} (hv : p.v = 1)
    (hbytes : p.body.blob_b64 = .inr bytes) (db : Db) :
    (∀ id, (apply_document db p).1.document_sections.lookup id =
        if id = p.id ∧ dominated (db.rows .document) p.id p.updated_at = false then
          some (p.body.sections.map section_row)
        else db.document_sections.lookup id) ∧
      ∀ b, b ∈ (apply_document db p).1.blobs ↔
        b ∈ db.blobs ∨ (b = bytes ∧ dominated (db.rows .document) p.id p.updated_at = false) := by
  have hsections : (put_blob db bytes).document_sections = db.document_sections := by
    unfold put_blob
    split <;> rfl
  unfold apply_document
  rw [if_neg (by simp [hv])]
  cases hdominated : dominated (db.rows .document) p.id p.updated_at with
  | true =>
    rw [if_pos rfl]
    refine ⟨fun id => ?_, fun b => ?_⟩
    · simp [done]
    · simp [done]
  | false =>
    rw [if_neg Bool.false_ne_true, hbytes]
    refine ⟨fun id => ?_, fun b => ?_⟩
    · change ((put_blob db bytes).document_sections.insert p.id _).lookup id = _
      rw [lookup_insert_if, hsections]
      simp
    · change b ∈ (put_blob db bytes).blobs ↔ _
      rw [mem_put_blob]
      simp

/-- The other kinds bring neither. -/
theorem apply_row_no_document {p : RowPayload k} (hk : k ≠ .document) (db : Db)
    (circle : Option String) :
    (apply_row k db p circle).1.document_sections = db.document_sections ∧
      (apply_row k db p circle).1.blobs = db.blobs := by
  obtain ⟨rows, sections, blobs, heq, hsame⟩ := @apply_row_frame k p db circle
  rw [heq]
  exact hsame hk

/-- The tombstone of a document drops its sections, and no tombstone a blob. -/
theorem apply_tombstone_document (k : RowKind) (db : Db) (id : String) (t : Timestamp) :
    (∀ id', (apply_row_tombstone k db id t).1.document_sections.lookup id' =
        if k = .document ∧ id' = id then none else db.document_sections.lookup id') ∧
      (apply_row_tombstone k db id t).1.blobs = db.blobs := by
  cases k with
  | document =>
    refine ⟨fun id' => ?_, rfl⟩
    change (db.document_sections.erase id).lookup id' = _
    rw [lookup_erase_if]
    simp
  | memory | conversation | task | workflow | notification =>
    refine ⟨fun id' => ?_, rfl⟩
    rw [if_neg (fun h => RowKind.noConfusion h.1)]
    rfl

/-! ## Messages -/

/-- The row of a live conversation. -/
def live (c : Option (Row .conversation)) : Bool := c.any (fun row => !row.deleted)

/-- A message lands under a live conversation, unless there is one with its id. -/
theorem apply_message_lands {p : MessagePayload} (hv : p.v = 1) (db : Db) :
    (apply_message db p).2 = .ok () ∧ (apply_message db p).1.rows = db.rows ∧
      (apply_message db p).1.document_sections = db.document_sections ∧
      (apply_message db p).1.blobs = db.blobs ∧
      ∀ i, (apply_message db p).1.messages.lookup i =
        if i = p.id ∧ db.messages.lookup i = none ∧ live (db.row .conversation p.conversation_id) then
          some p.toMessageRow
        else db.messages.lookup i := by
  unfold apply_message
  rw [if_neg (by simp [hv])]
  rcases hconv : db.row .conversation p.conversation_id with _ | c
  · refine ⟨rfl, rfl, rfl, rfl, fun i => ?_⟩
    simp [live, done]
  · dsimp only
    cases hdeleted : c.deleted with
    | true =>
      refine ⟨rfl, rfl, rfl, rfl, fun i => ?_⟩
      simp [live, done, hdeleted]
    | false =>
      rw [if_neg Bool.false_ne_true]
      by_cases hsome : (db.messages.lookup p.id).isSome
      · rw [if_pos hsome]
        refine ⟨rfl, rfl, rfl, rfl, fun i => ?_⟩
        rw [if_neg]
        · rfl
        · rintro ⟨rfl, hnone, -⟩
          rw [hnone] at hsome
          cases hsome
      · rw [if_neg hsome]
        refine ⟨rfl, rfl, rfl, rfl, fun i => ?_⟩
        rw [Option.not_isSome_iff_eq_none] at hsome
        change (db.messages.insert p.id p.toMessageRow).lookup i = _
        rw [lookup_insert_if]
        by_cases hi : i = p.id
        · subst hi
          simp [live, hdeleted, hsome]
        · simp [hi]

end pai_sync.engine
