-- What a tombstone changes that is not newer than the row it is for: the row stays, and what
-- hangs on it goes all the same.
import PersonalAi.RowEffects

open pai_core sealing table views text

namespace pai_sync.engine

/-! ## The state of a device -/

/-- Two stores with the same contents. The full-text entries go with their sections. -/
structure SameState (a b : Db) : Prop where
  row : ∀ k id, b.row k id = a.row k id
  messages : ∀ id, b.messages.lookup id = a.messages.lookup id
  sections : ∀ id, (b.document_sections.lookup id).getD [] = (a.document_sections.lookup id).getD []
  blobs : b.blobs = a.blobs
  apps : ∀ id, b.apps.lookup id = a.apps.lookup id
  backups : ∀ key, b.app_backups.lookup key = a.app_backups.lookup key
  docs : ∀ key, b.docs.lookup key = a.docs.lookup key
  circles : ∀ name, b.circles.lookup name = a.circles.lookup name
  peers : b.sync_peers = a.sync_peers
  dirs : ∀ id, b.app_dirs.lookup id = a.app_dirs.lookup id
  paks : ∀ key, b.paks.lookup key = a.paks.lookup key
  keys : ∀ name, b.circle_keys.lookup name = a.circle_keys.lookup name

/-- The kinds of rows that have tombstones. -/
inductive Buried
  | row (k : RowKind)
  | app

def Buried.key (b : Buried) (id : String) : String :=
  match b with
  | .row k => k.PREFIX ++ id
  | .app => APP_PREFIX ++ id

/-- The time of the local row. -/
def Buried.local_updated (b : Buried) (db : Db) (id : String) : Option Timestamp :=
  match b with
  | .row k => (db.row k id).map Row.updated_at
  | .app => (db.apps.lookup id).map AppRow.updated_at

/-- Nothing hangs on the row that its tombstone would take along: a conversation has no message
and a document no section, and the row of an app is already buried at that time and its id has
no directory. -/
def Buried.Bare (b : Buried) (db : Db) (id : String) (t : Timestamp) : Prop :=
  match b with
  | .row .conversation => ∀ i m, db.messages.lookup i = some m → m.conversation_id ≠ id
  | .row .document => (db.document_sections.lookup id).getD [] = []
  | .row _ => True
  | .app =>
    (∀ row, db.apps.lookup id = some row → row.deleted = true ∧ row.updated_at = t) ∧
      (pai_apps.check_app_id id = .ok () → db.app_dirs.lookup id = none ∧
        ∀ doc d, db.docs.lookup (id, doc) = some d → d.file = none)

/-! ## Rows -/

variable {db : Db} {id : String} {t : Timestamp}

/-- A tombstone that is not newer leaves the row as it is. -/
theorem buried_old {k : RowKind} {row : Row k} (h : t ≤ row.updated_at) :
    buried t (some row) = some row := by
  simp only [buried, Option.map_some, Option.some.injEq]
  rw [if_neg (Nat.not_lt.mpr h)]

theorem tombstone_rows {k : RowKind} {row : Row k} (hrow : db.row k id = some row)
    (hold : t ≤ row.updated_at) (k' : RowKind) (id' : String) :
    (apply_row_tombstone k db id t).1.row k' id' = db.row k' id' := by
  have hsets := apply_tombstone_sets k db id t
  by_cases hsame : k' = k ∧ id' = id
  · obtain ⟨rfl, rfl⟩ := hsame
    rw [hsets.row, hrow, buried_old hold]
  · exact hsets.others k' id' hsame

/-- The tables that no tombstone of a row looks at. -/
theorem tombstone_others (k : RowKind) (db : Db) (id : String) (t : Timestamp) :
    ∃ rows messages document_sections, (apply_row_tombstone k db id t).1 =
      { db with rows, messages, document_sections } := by
  cases k <;> exact ⟨_, _, _, rfl⟩

theorem filter_keeps {α : Type} {o : Option α} {p : α → Bool} (h : ∀ a, o = some a → p a = true) :
    o.filter p = o := by
  cases o with
  | none => rfl
  | some a => exact if_pos (h a rfl)

theorem tombstone_state {k : RowKind} {row : Row k} (hrow : db.row k id = some row)
    (hold : t ≤ row.updated_at) :
    SameState db (apply_row_tombstone k db id t).1 ↔ (Buried.row k).Bare db id t := by
  have hmessages := (apply_tombstone_ok k db id t).2
  have hsections := (apply_tombstone_document k db id t).1
  have hrows := tombstone_rows hrow hold
  obtain ⟨rows, messages, sections, hothers⟩ := tombstone_others k db id t
  have hstate : SameState db (apply_row_tombstone k db id t).1 ↔
      (∀ i, (apply_row_tombstone k db id t).1.messages.lookup i = db.messages.lookup i) ∧
        ∀ i, ((apply_row_tombstone k db id t).1.document_sections.lookup i).getD [] =
          (db.document_sections.lookup i).getD [] := by
    constructor
    · intro h
      exact ⟨h.messages, h.sections⟩
    · rintro ⟨hm, hs⟩
      rw [hothers] at hrows hm hs ⊢
      exact ⟨hrows, hm, hs, rfl, fun _ => rfl, fun _ => rfl, fun _ => rfl, fun _ => rfl, rfl,
        fun _ => rfl, fun _ => rfl, fun _ => rfl⟩
  rw [hstate]
  cases k with
  | conversation =>
    constructor
    · rintro ⟨hm, -⟩ i m hi rfl
      have hgone := hmessages i
      rw [hm i, hi] at hgone
      simp [Option.filter] at hgone
    · intro hbare
      refine ⟨fun i => ?_, fun i => ?_⟩
      · rw [hmessages i]
        apply filter_keeps
        intro m hm
        simp [hbare i m hm]
      · rw [hsections i]
        simp
  | document =>
    constructor
    · rintro ⟨-, hs⟩
      have hgone := hs id
      rw [hsections id, if_pos ⟨rfl, rfl⟩] at hgone
      exact hgone.symm
    · intro hbare
      refine ⟨fun i => ?_, fun i => ?_⟩
      · rw [hmessages i]
        apply filter_keeps
        simp
      · rw [hsections i]
        by_cases hi : i = id
        · rw [if_pos ⟨rfl, hi⟩, hi]
          exact hbare.symm
        · rw [if_neg (fun h => hi h.2)]
  | memory | task | workflow | notification =>
    refine ⟨fun _ => trivial, fun _ => ⟨fun i => ?_, fun i => ?_⟩⟩
    · rw [hmessages i]
      apply filter_keeps
      simp
    · rw [hsections i]
      simp

/-! ## Apps -/

/-- The documents of an app lose their files, and the others keep theirs. -/
theorem lookup_bare_docs (docs : crdt.Docs) (app_id : String) (key : String × String) :
    (set_doc_files docs app_id []).lookup key =
      if key.1 = app_id then (docs.lookup key).map fun d => { d with file := none }
      else docs.lookup key := by
  have hfold : ∀ (l : List (Sigma fun _ : String × String => crdt.Doc)) (s : crdt.Docs),
      (∀ e ∈ l, docs.lookup e.1 = some e.2) →
      (l.foldl (fun docs e =>
          if e.1.1 = app_id then docs.insert e.1 { e.2 with file := none } else docs) s).lookup key =
        if key.1 = app_id ∧ key ∈ l.map (fun e => e.1) then
          (docs.lookup key).map fun d => { d with file := none }
        else s.lookup key := by
    intro l
    induction l with
    | nil => simp
    | cons e l ih =>
      intro s hl
      simp only [List.forall_mem_cons] at hl
      rw [List.foldl_cons, ih _ hl.2]
      by_cases hin : key.1 = app_id ∧ key ∈ l.map (fun e => e.1)
      · rw [if_pos hin, if_pos ⟨hin.1, List.mem_cons_of_mem _ hin.2⟩]
      · rw [if_neg hin]
        by_cases he : e.1.1 = app_id
        · rw [if_pos he, lookup_insert_if]
          by_cases hkey : key = e.1
          · rw [if_pos hkey, if_pos ⟨hkey ▸ he, by simp [hkey]⟩, hkey, hl.1]
            rfl
          · rw [if_neg hkey, if_neg]
            rintro ⟨happ, hmem⟩
            rcases List.mem_cons.mp hmem with h | h
            · exact hkey h
            · exact hin ⟨happ, h⟩
        · rw [if_neg he, if_neg]
          rintro ⟨happ, hmem⟩
          rcases List.mem_cons.mp hmem with h | h
          · have hkey : key = e.1 := h
            exact he (hkey ▸ happ)
          · exact hin ⟨happ, h⟩
  have hall : ∀ e ∈ docs.entries, docs.lookup e.1 = some e.2 := fun e he =>
    lookup_eq_some.mpr he
  unfold set_doc_files
  rw [List.foldl_nil, hfold docs.entries docs hall]
  by_cases happ : key.1 = app_id
  · rw [if_pos happ]
    by_cases hin : key ∈ docs.entries.map (fun e => e.1)
    · rw [if_pos ⟨happ, hin⟩]
    · rw [if_neg (fun h => hin h.2)]
      have hnone : docs.lookup key = none := by
        apply AList.lookup_eq_none.mpr
        exact hin
      rw [hnone]
      rfl
  · rw [if_neg happ, if_neg (fun h => happ h.1)]

theorem app_tombstone_state {row : AppRow} (hrow : db.apps.lookup id = some row) :
    SameState db (apply_app_tombstone db id t).1 ↔ Buried.app.Bare db id t := by
  have happs : ∀ i, (apply_app_tombstone db id t).1.apps.lookup i =
      if i = id then some { row with deleted := true, updated_at := t } else db.apps.lookup i := by
    intro i
    unfold apply_app_tombstone remove_app_dir
    rw [hrow]
    dsimp only [done]
    split <;> exact lookup_insert_if _ _ _ _
  have hrowsame : (∀ i, (apply_app_tombstone db id t).1.apps.lookup i = db.apps.lookup i) ↔
      ∀ r, db.apps.lookup id = some r → r.deleted = true ∧ r.updated_at = t := by
    constructor
    · intro h r hr
      have hid := h id
      rw [happs, if_pos rfl, hr, Option.some.injEq] at hid
      rw [← hid]
      exact ⟨rfl, rfl⟩
    · intro h i
      rw [happs]
      split
      · rename_i hi
        obtain ⟨hdeleted, hupdated⟩ := h row hrow
        rw [hi, hrow, ← hdeleted, ← hupdated]
      · rfl
  have hdirs : ∀ i, (apply_app_tombstone db id t).1.app_dirs.lookup i =
      if pai_apps.check_app_id id = .ok () ∧ i = id then none else db.app_dirs.lookup i := by
    intro i
    unfold apply_app_tombstone remove_app_dir
    rw [hrow]
    dsimp only [done]
    split
    · rename_i hok
      simp only [hok, true_and]
      exact lookup_erase_if _ _ _
    · rename_i hok
      simp [hok]
  have hdocs : ∀ key, (apply_app_tombstone db id t).1.docs.lookup key =
      if pai_apps.check_app_id id = .ok () ∧ key.1 = id then
        (db.docs.lookup key).map fun d => { d with file := none }
      else db.docs.lookup key := by
    intro key
    unfold apply_app_tombstone remove_app_dir
    rw [hrow]
    dsimp only [done]
    split
    · rename_i hok
      simp only [hok, true_and]
      exact lookup_bare_docs _ _ _
    · rename_i hok
      simp [hok]
  have hothers : ∃ apps app_dirs docs, (apply_app_tombstone db id t).1 =
      { db with apps, app_dirs, docs } := by
    unfold apply_app_tombstone remove_app_dir
    rw [hrow]
    dsimp only [done]
    split <;> exact ⟨_, _, _, rfl⟩
  constructor
  · intro h
    refine ⟨hrowsame.mp h.apps, fun hok => ⟨?_, fun doc d hd => ?_⟩⟩
    · have hdir := h.dirs id
      rw [hdirs, if_pos ⟨hok, rfl⟩] at hdir
      exact hdir.symm
    · have hdoc := h.docs (id, doc)
      rw [hdocs, if_pos ⟨hok, rfl⟩, hd, Option.map_some, Option.some.injEq] at hdoc
      rw [← hdoc]
  · rintro ⟨hbare, hempty⟩
    have hsame := hrowsame.mpr hbare
    have hdirsame : ∀ i, (apply_app_tombstone db id t).1.app_dirs.lookup i =
        db.app_dirs.lookup i := by
      intro i
      rw [hdirs]
      split
      · rename_i hi
        rw [hi.2, (hempty hi.1).1]
      · rfl
    have hdocsame : ∀ key, (apply_app_tombstone db id t).1.docs.lookup key = db.docs.lookup key := by
      rintro ⟨app, doc⟩
      rw [hdocs]
      split
      · rename_i hi
        obtain ⟨hok, rfl⟩ := hi
        cases hd : db.docs.lookup (app, doc) with
        | none => rfl
        | some d =>
          have hfile := (hempty hok).2 doc d hd
          rw [Option.map_some, ← hfile]
      · rfl
    obtain ⟨apps, app_dirs, docs, heq⟩ := hothers
    rw [heq] at hsame hdirsame hdocsame ⊢
    exact ⟨fun _ _ => rfl, fun _ => rfl, fun _ => rfl, rfl, hsame, fun _ => rfl, hdocsame,
      fun _ => rfl, rfl, hdirsame, fun _ => rfl, fun _ => rfl⟩

/-! ## The object -/

/-- The tombstone of a row that is as new leaves the store as it is exactly where nothing hangs on
the row. -/
theorem a_dominated_tombstone_changes_nothing_where_the_row_is_bare (env : Env) (me : DeviceId)
    (db : Db) (obj : Object) (raw : Plain) (circle : Option String) (b : Buried) (id : String)
    (hkey : obj.key = b.key id) (htomb : obj.tombstone = true) {local_time : Timestamp}
    (hlocal : b.local_updated db id = some local_time) (hold : obj.updated_at ≤ local_time) :
    SameState db (apply_obj env me db obj raw circle).1 ↔ b.Bare db id obj.updated_at := by
  unfold apply_obj
  rw [hkey]
  cases b with
  | row k =>
    obtain ⟨row, hrow, rfl⟩ := Option.map_eq_some_iff.mp hlocal
    simp only [Buried.key, parse_row, htomb, if_true]
    exact tombstone_state hrow hold
  | app =>
    obtain ⟨row, hrow, rfl⟩ := Option.map_eq_some_iff.mp hlocal
    simp only [Buried.key, parse_app, htomb, if_true]
    exact app_tombstone_state hrow

/-! ### A conversation that was edited after it was deleted elsewhere -/

def plain_env : Env where
  serde_error := fun _ => "expected value"
  stage_verdict := fun _ _ _ => .ok (.Rejected "signature")
  doc_text := fun _ => .invalid (.Sync "expected value")
  now_ms := 0

def edited_chat : Row .conversation :=
  { fixed := { session_id := "s", created_at := 0 }
    columns := { title := some "Trip", memory_scope := "shared" }
    sync_scope := "synchronized", updated_at := 20, deleted := false }

/-- The store has the conversation, and no message. -/
def quiet_store : Db :=
  (Db.fresh []).set_rows .conversation ((∅ : Table String (Row .conversation)).insert "c" edited_chat)

def chat_message : MessageRow :=
  { conversation_id := "c", role := "user", trust := "user", created_at := 20,
    content_json := "[]" }

def chat_store : Db :=
  { quiet_store with messages := (∅ : Table String MessageRow).insert "m" chat_message }

/-- The tombstone of the conversation, older than the edit. -/
def old_tombstone : Object :=
  { key := "conv/c", ciphertext := .junk, version := 10, writer := ⟨"phone"⟩, updated_at := 10,
    tombstone := true }

theorem the_quiet_store_stays :
    SameState quiet_store (apply_obj plain_env ⟨"laptop"⟩ quiet_store old_tombstone .empty none).1 := by
  have hlocal : (Buried.row .conversation).local_updated quiet_store "c" = some 20 := by
    decide +kernel
  refine (a_dominated_tombstone_changes_nothing_where_the_row_is_bare plain_env ⟨"laptop"⟩
    quiet_store old_tombstone .empty none (.row .conversation) "c" (by decide) rfl hlocal
    (by decide)).mpr ?_
  intro i m hm
  cases hm

/-- The message goes, and the conversation stays. -/
theorem an_old_tombstone_takes_the_messages :
    (Buried.row .conversation).local_updated chat_store "c" = some 20 ∧
      ((apply_obj plain_env ⟨"laptop"⟩ chat_store old_tombstone .empty none).1.messages.lookup "m")
        = none ∧
      ¬ SameState chat_store
        (apply_obj plain_env ⟨"laptop"⟩ chat_store old_tombstone .empty none).1 := by
  have hgone : (apply_obj plain_env ⟨"laptop"⟩ chat_store old_tombstone .empty none).1.messages.lookup
      "m" = none := by decide +kernel
  refine ⟨by decide +kernel, hgone, fun h => ?_⟩
  have hkept := h.messages "m"
  rw [hgone] at hkept
  cases hkept

end pai_sync.engine
