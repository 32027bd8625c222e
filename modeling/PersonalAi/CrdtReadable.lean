-- When a document of cells can be read at all: the cells that neither show a value nor hide one,
-- what an applied object does to them, and runs of objects, writes of the app and collects.
import PersonalAi.CrdtEdits
import PersonalAi.CrdtShipping
import PersonalAi.Lib.Runs
import PersonalAi.TombstoneFrames

open pai_core json sealing table sorted_map

namespace pai_sync.crdt

/-! ## Reading a document -/

/-- The merge of a document succeeds exactly where no field goes to a cell that is neither a value
nor a tombstone. -/
theorem winners_ok_iff {d : Doc} :
    (∃ merged, winners d = .ok merged) ↔ ∀ field w c, Leads d field w c → c.no_value = false := by
  have hmissing : ∀ field, missing_value d field = true ↔
      ∃ w c, Leads d field w c ∧ c.no_value = true := by
    intro field
    unfold missing_value
    constructor
    · intro h
      split at h
      · rename_i w t hwin
        exact ⟨w, _, winner_eq_some.mp hwin, rfl⟩
      · cases h
    · rintro ⟨w, c, hlead, hno⟩
      rw [winner_eq_some.mpr hlead]
      cases c with
      | Value v t => cases hno
      | Tomb dead t =>
        cases dead with
        | true => cases hno
        | false => rfl
  unfold winners
  constructor
  · intro h field w c hlead
    by_contra hno
    have hfield : field ∈ all_fields d := mem_all_fields.mpr ⟨w, c, hlead.1⟩
    have hany : (all_fields d).any (missing_value d) = true := by
      apply List.any_eq_true.mpr
      exact ⟨field, hfield, (hmissing field).mpr ⟨w, c, hlead, by simpa using hno⟩⟩
    rw [hany] at h
    obtain ⟨merged, hmerged⟩ := h
    cases hmerged
  · intro h
    have hany : (all_fields d).any (missing_value d) = false := by
      apply List.any_eq_false.mpr
      intro field _ hmiss
      obtain ⟨w, c, hlead, hno⟩ := (hmissing field).mp hmiss
      simp [h field w c hlead] at hno
    rw [hany]
    exact ⟨_, rfl⟩

theorem our_cells_ok_iff {d : Doc} {me : String} :
    (∃ ours, our_cells d me = .ok ours) ↔
      ∀ field c, cell_of d me field = some c → c.no_value = false := by
  unfold our_cells
  constructor
  · intro h field c hc
    by_contra hno
    have hany : (own d me).entries.any (fun e => e.2.no_value) = true := by
      apply List.any_eq_true.mpr
      rw [← own_get] at hc
      exact ⟨(field, c), get_eq_some.mp hc, by simpa using hno⟩
    rw [hany] at h
    obtain ⟨ours, hours⟩ := h
    cases hours
  · intro h
    have hany : (own d me).entries.any (fun e => e.2.no_value) = false := by
      apply List.any_eq_false.mpr
      rintro ⟨field, c⟩ hmem hno
      have hc := get_eq_some.mpr hmem
      rw [own_get] at hc
      simp [h field c hc] at hno
    rw [hany]
    exact ⟨_, rfl⟩

/-- The readers of this device all succeed on the document. -/
def Readable (me : String) (d : Doc) : Prop :=
  (∃ merged, winners d = .ok merged) ∧ ∃ ours, our_cells d me = .ok ours

theorem readable_of_sound {d : Doc} (h : Sound d) (me : String) : Readable me d := by
  obtain ⟨merged, hmerged, -⟩ := winners_sound h
  exact ⟨⟨merged, hmerged⟩, _, our_cells_sound h me⟩

theorem readable_cells {d d' : Doc} (h : d'.cells = d.cells) (me : String) :
    Readable me d' ↔ Readable me d := by
  have hleads : ∀ field w c, Leads d' field w c ↔ Leads d field w c := by
    intro field w c
    unfold Leads
    simp only [cell_of_cells h]
  unfold Readable
  rw [winners_ok_iff, winners_ok_iff, our_cells_ok_iff, our_cells_ok_iff]
  simp only [hleads, cell_of_cells h]

/-- A document is materialised, its cells as they were, unless its merge fails. -/
theorem materialize_cases (installed : Bool) (now_ms : Int) (d : Doc) :
    (∃ d', materialize installed now_ms d = .ok d' ∧ d'.cells = d.cells) ∨
      ∃ e, materialize installed now_ms d = .error e ∧ winners d = .error e := by
  unfold materialize
  cases installed with
  | false => exact .inl ⟨d, rfl, rfl⟩
  | true =>
    cases hwin : winners d with
    | error e => exact .inr ⟨e, rfl, rfl⟩
    | ok merged =>
      left
      by_cases hsame : d.file.map DocFile.text = some (.object (plain merged) true)
      · exact ⟨d, by simp [hsame], rfl⟩
      · exact ⟨_, if_neg hsame, rfl⟩

/-- A pass after which the document can be read succeeds. -/
theorem pass_readable (installed : Bool) (now_ms : Int) (d : Doc) (writer me : String)
    (fields : Fields) :
    ((replace_and_materialize installed now_ms d writer fields).2 = .ok () ∧
        Readable me (replace_and_materialize installed now_ms d writer fields).1) ↔
      Readable me (replace_cells d writer fields) := by
  unfold replace_and_materialize
  dsimp only
  rcases materialize_cases installed now_ms (replace_cells d writer fields) with
    ⟨d', hok, hcells⟩ | ⟨e, herror, hwin⟩
  · rw [hok]
    dsimp only
    rw [readable_cells hcells]
    simp
  · rw [herror]
    constructor
    · rintro ⟨hok, -⟩
      cases hok
    · rintro ⟨⟨merged, hmerged⟩, -⟩
      rw [hwin] at hmerged
      cases hmerged

/-- The cell of a writer for a field once these fields are those of one writer. -/
def cell_among (d : Doc) (writer : String) (fields : Fields) (w field : String) : Option Cell :=
  if w = writer then fields.get field else cell_of d w field

/-- With these fields in the place of those of the writer, no field of the document goes to a cell
`{"d": false, "t": …}`, and this device has none of its own. -/
structure Representable (me : String) (d : Doc) (writer : String) (fields : Fields) : Prop where
  leading : ∀ field w c, cell_among d writer fields w field = some c →
    (∀ w' c', cell_among d writer fields w' field = some c' → ¬ Beats (w', c') (w, c)) →
    c.no_value = false
  own : ∀ field c, cell_among d writer fields me field = some c → c.no_value = false

theorem readable_replace {me : String} {d : Doc} {writer : String} {fields : Fields} :
    Readable me (replace_cells d writer fields) ↔ Representable me d writer fields := by
  have hcell : ∀ w field, cell_of (replace_cells d writer fields) w field =
      cell_among d writer fields w field := fun w field => cell_of_replace d writer fields w field
  unfold Readable
  rw [winners_ok_iff, our_cells_ok_iff]
  unfold Leads
  simp only [hcell, and_imp]
  exact ⟨fun h => ⟨h.1, h.2⟩, fun h => ⟨h.leading, h.own⟩⟩

/-! ## Collects -/

def AllSound (docs : Docs) : Prop := ∀ app_id doc, Sound (doc_of docs app_id doc)

theorem AllSound.insert {docs : Docs} (h : AllSound docs) {d : Doc} (hd : Sound d)
    (app_id doc : String) : AllSound (docs.insert (app_id, doc) d) := by
  intro app' doc'
  rw [doc_of_insert]
  split
  · exact hd
  · exact h app' doc'

theorem pass_keeps {d : Doc} (hd : Sound d) {fields : Fields} (hf : SoundFields fields)
    (installed : Bool) (now_ms : Int) (writer : String) :
    (replace_and_materialize installed now_ms d writer fields).2 = .ok () ∧
      Sound (replace_and_materialize installed now_ms d writer fields).1 := by
  cases installed with
  | false => exact ⟨rfl, sound_replace hd hf writer⟩
  | true =>
    obtain ⟨d', m, hpass, hs, -⟩ := pass_sound hd hf now_ms writer
    rw [hpass]
    exact ⟨rfl, hs⟩

/-- A turn keeps a document sound, and fails only on a file that is no document. -/
theorem turn_keeps {d : Doc} (hd : Sound d) (me : String) (installed : Bool) (now_ms : Int)
    (on_disk : Bool) :
    Sound (collect_one me installed now_ms on_disk d).1 ∧
      ∀ e, (collect_one me installed now_ms on_disk d).2 = .error e → collect_doc d = .error e := by
  unfold collect_one
  cases hread : collect_doc d with
  | error e =>
    refine ⟨hd, ?_⟩
    intro e' he
    cases he
    rfl
  | ok read =>
    obtain ⟨same, hsame⟩ : ∃ same,
        unchanged me on_disk d (read.getD sorted_map.empty) = .ok same := by
      unfold unchanged
      cases on_disk with
      | false => exact ⟨false, rfl⟩
      | true => exact ⟨_, by rw [our_cells_sound hd]; rfl⟩
    dsimp only
    rw [hsame]
    cases same with
    | true => exact ⟨hd, fun e he => by cases he⟩
    | false =>
      obtain ⟨hok, hs⟩ := pass_keeps hd (collect_doc_sound hread) installed now_ms me
      dsimp only
      split
      · rename_i d' e hpass
        rw [hpass] at hok
        cases hok
      · rename_i d' hpass
        rw [hpass] at hs
        exact ⟨hs, fun e he => by cases he⟩

theorem collect_docs_keeps (me : String) (installed : Bool) (now_ms : Int) (app_id : String)
    (present : List String) {docs : Docs} (h : AllSound docs) (turns : List String) :
    AllSound (collect_docs me installed now_ms app_id present docs turns).1 := by
  induction turns generalizing docs with
  | nil => exact h
  | cons doc rest ih =>
    have hturn := (turn_keeps (h app_id doc) me installed now_ms (decide (doc ∈ present))).1
    unfold collect_docs
    split
    · rename_i d e hone
      rw [hone] at hturn
      exact h.insert hturn app_id doc
    · rename_i d out hone
      rw [hone] at hturn
      have hrest := ih (h.insert hturn app_id doc)
      split
      · rename_i docs' e hmore
        rw [hmore] at hrest
        exact hrest
      · rename_i docs' more hmore
        rw [hmore] at hrest
        exact hrest

theorem collect_keeps (me : String) (installed : String → Bool) (now_ms : Int) {docs : Docs}
    (h : AllSound docs) (apps : List String) :
    AllSound (collect me installed now_ms docs apps).1 := by
  induction apps generalizing docs with
  | nil => exact h
  | cons app_id rest ih =>
    have hdocs := collect_docs_keeps me (installed app_id) now_ms app_id (on_disk docs app_id) h
      (on_disk docs app_id ++ published docs app_id me)
    unfold collect
    dsimp only
    split
    · rename_i docs' e hsome
      rw [hsome] at hdocs
      exact hdocs
    · rename_i docs' out hsome
      rw [hsome] at hdocs
      have hrest := ih hdocs
      split
      · rename_i st e hmore
        rw [hmore] at hrest
        exact hrest
      · rename_i st more hmore
        rw [hmore] at hrest
        exact hrest

end pai_sync.crdt

namespace pai_sync.engine

/-! ## Objects -/

/-- The object passes the checks of `apply` on its writer and its key, and brings these fields. -/
inductive Brings (db : Db) (app_id doc writer : String) : Object → Plain → crdt.Fields → Prop
  | payload {obj : Object} {p : CrdtDocPayload} (hwriter : obj.writer.to_string = writer)
      (hpaired : is_paired db writer = true) (hlive : obj.tombstone = false) (hv : p.v = 1)
      (happ : p.app = app_id) (hdoc : p.doc = doc) (hname : p.writer = writer) :
      Brings db app_id doc writer obj (.crdt p) p.fields
  | withdrawal {obj : Object} {raw : Plain} (hwriter : obj.writer.to_string = writer)
      (hpaired : is_paired db writer = true) (htomb : obj.tombstone = true) :
      Brings db app_id doc writer obj raw sorted_map.empty

theorem apply_brings {db : Db} {app_id doc writer : String} {obj : Object} {raw : Plain}
    {fields : crdt.Fields} (h : Brings db app_id doc writer obj raw fields) (env : Env) :
    apply_crdt env db app_id doc writer obj raw =
      replace_and_materialize env db app_id doc writer fields := by
  unfold apply_crdt
  cases h with
  | payload hwriter hpaired hlive hv happ hdoc hname =>
    rw [if_neg (by simp [hwriter]), if_neg (by simp [hpaired]), if_neg (by simp [hlive])]
    dsimp only
    rw [if_neg (by simp [hv, happ, hdoc, hname])]
  | withdrawal hwriter hpaired htomb =>
    rw [if_neg (by simp [hwriter]), if_neg (by simp [hpaired]), if_pos htomb]

/-- An object that fails the checks is dropped. -/
theorem apply_payload (env : Env) (db : Db) (app_id doc writer : String) (obj : Object)
    (p : CrdtDocPayload) :
    (∃ fields, Brings db app_id doc writer obj (.crdt p) fields ∧
        (fields = p.fields ∨ fields = sorted_map.empty)) ∨
      apply_crdt env db app_id doc writer obj (.crdt p) = done db := by
  unfold apply_crdt
  by_cases hwriter : obj.writer.to_string = writer
  · by_cases hpaired : is_paired db writer = true
    · cases htomb : obj.tombstone with
      | true => exact .inl ⟨_, .withdrawal hwriter hpaired htomb, .inr rfl⟩
      | false =>
        by_cases hkey : p.v ≠ 1 ∨ p.app ≠ app_id ∨ p.doc ≠ doc ∨ p.writer ≠ writer
        · right
          rw [if_neg (by simp [hwriter]), if_neg (by simp [hpaired]), if_neg (by simp)]
          exact if_pos hkey
        · simp only [ne_eq, not_or, not_not] at hkey
          obtain ⟨hv, happ, hdoc, hname⟩ := hkey
          exact .inl ⟨_, .payload hwriter hpaired htomb hv happ hdoc hname, .inl rfl⟩
    · right
      rw [if_neg (by simp [hwriter])]
      exact if_pos (by simpa using hpaired)
  · exact .inr (if_pos hwriter)

/-! ## Runs -/

/-- What happens to the documents of a device. -/
inductive DocAct
  | apply (env : Env) (app_id doc writer : String) (obj : Object) (p : CrdtDocPayload)
  | write (app_id doc : String) (file : Option crdt.DocFile)
  | collect (apps : List String) (now_ms : Int)

/-- The app leaves this file, or none. -/
def write_doc (db : Db) (app_id doc : String) (file : Option crdt.DocFile) : Db :=
  { db with docs :=
      db.docs.insert (app_id, doc) { crdt.doc_of db.docs app_id doc with file := file } }

def doc_step (me : DeviceId) (db : Db) : DocAct → Db
  | .apply env app_id doc writer obj p => (apply_crdt env db app_id doc writer obj (.crdt p)).1
  | .write app_id doc file => write_doc db app_id doc file
  | .collect apps now_ms =>
    { db with docs := (crdt.collect me.to_string (installed db) now_ms db.docs apps).1 }

/-- The cells that an object brings are all values and tombstones. -/
def DocAct.plain_cells : DocAct → Prop
  | .apply _ _ _ _ _ p => crdt.SoundFields p.fields
  | _ => True

/-- An object is applied without an error, and all documents can be read after each act. -/
def ReadsOn (me : DeviceId) (db : Db) (a : DocAct) : Prop :=
  (∀ app_id doc, crdt.Readable me.to_string (crdt.doc_of (doc_step me db a).docs app_id doc)) ∧
    match a with
    | .apply env app_id doc writer obj p =>
      (apply_crdt env db app_id doc writer obj (.crdt p)).2 = .ok ()
    | _ => True

theorem doc_step_keeps {me : DeviceId} {db : Db} {a : DocAct} (h : crdt.AllSound db.docs)
    (ha : a.plain_cells) : crdt.AllSound (doc_step me db a).docs ∧ ReadsOn me db a := by
  have hall : crdt.AllSound (doc_step me db a).docs →
      ∀ app_id doc, crdt.Readable me.to_string (crdt.doc_of (doc_step me db a).docs app_id doc) :=
    fun hs app_id doc => crdt.readable_of_sound (hs app_id doc) _
  cases a with
  | write app_id doc file =>
    have hs : crdt.AllSound (write_doc db app_id doc file).docs := by
      apply h.insert
      exact h app_id doc
    exact ⟨hs, hall hs, trivial⟩
  | collect apps now_ms =>
    have hs := crdt.collect_keeps me.to_string (installed db) now_ms h apps
    exact ⟨hs, hall hs, trivial⟩
  | apply env app_id doc writer obj p =>
    rcases apply_payload env db app_id doc writer obj p with ⟨fields, hbrings, hfields⟩ | hdropped
    · have hf : crdt.SoundFields fields := by
        rcases hfields with rfl | rfl
        · exact ha
        · intro field c hc
          simp at hc
      obtain ⟨hok, hsound⟩ := crdt.pass_keeps (h app_id doc) hf (installed db app_id) env.now_ms
        writer
      have heq := apply_brings hbrings env
      have hs : crdt.AllSound (doc_step me db (.apply env app_id doc writer obj p)).docs := by
        dsimp only [doc_step]
        rw [heq]
        exact h.insert hsound app_id doc
      refine ⟨hs, hall hs, ?_⟩
      dsimp only
      rw [heq]
      exact hok
    · have hs : crdt.AllSound (doc_step me db (.apply env app_id doc writer obj p)).docs := by
        dsimp only [doc_step]
        rw [hdropped]
        exact h
      refine ⟨hs, hall hs, ?_⟩
      dsimp only
      rw [hdropped]
      rfl

/-- An accepted object is applied and leaves a document that this device can read exactly where no
field goes to a cell `{"d": false}` and this device has none of its own; from documents without
such cells, objects without them never make one unreadable, whatever the app writes and however
often this device collects. -/
theorem a_payload_stays_readable_where_no_empty_cell_leads (me : DeviceId) :
    (∀ (env : Env) (db : Db) (app_id doc writer : String) (obj : Object) (raw : Plain)
        (fields : crdt.Fields), Brings db app_id doc writer obj raw fields →
      (((apply_crdt env db app_id doc writer obj raw).2 = .ok () ∧
          crdt.Readable me.to_string
            (crdt.doc_of (apply_crdt env db app_id doc writer obj raw).1.docs app_id doc)) ↔
        crdt.Representable me.to_string (crdt.doc_of db.docs app_id doc) writer fields)) ∧
    ∀ (db : Db) (acts : List DocAct), crdt.AllSound db.docs → (∀ a ∈ acts, a.plain_cells) →
      runs.Along (doc_step me) (ReadsOn me) db acts := by
  constructor
  · intro env db app_id doc writer obj raw fields hbrings
    rw [apply_brings hbrings, ← crdt.readable_replace,
      ← crdt.pass_readable (installed db app_id) env.now_ms]
    unfold replace_and_materialize
    dsimp only
    rw [crdt.doc_of_insert, if_pos rfl]
  · intro db acts hstart hacts
    induction acts generalizing db with
    | nil => trivial
    | cons a rest ih =>
      obtain ⟨hnext, hreads⟩ := @doc_step_keeps me _ _ hstart (hacts a List.mem_cons_self)
      exact ⟨hreads, ih _ hnext fun b hb => hacts b (List.mem_cons_of_mem _ hb)⟩

/-! ### A cell that says it is no tombstone -/

/-- A device with the app, that is paired with the phone. -/
def notes_store : Db :=
  { Db.fresh [⟨⟨"phone"⟩, ⟨⟨"phone"⟩⟩, ⟨⟨"phone"⟩⟩⟩] with
    app_dirs := (∅ : Table String AppDir).insert "notes"
      { files := [], signature := .inr [], auth := none, data := none } }

def note_object : Object :=
  { key := "acrdt/notes/d/phone", ciphertext := .junk, version := 1, writer := ⟨"phone"⟩,
    updated_at := 1, tombstone := false }

def note_payload (c : crdt.Cell) : CrdtDocPayload :=
  { v := 1, app := "notes", doc := "d", writer := "phone",
    fields := tabulate ["a"] (fun _ => some c), updated_at := 1 }

theorem note_brings (c : crdt.Cell) : Brings notes_store "notes" "d" "phone" note_object
    (.crdt (note_payload c)) (note_payload c).fields :=
  .payload rfl rfl rfl rfl rfl rfl rfl

theorem note_plain (v : Nat) (t : Int) :
    crdt.SoundFields (note_payload (.Value (crdt.number v) t)).fields :=
  crdt.one_sound "a" v t

theorem no_documents : crdt.AllSound notes_store.docs := by
  intro app_id doc w field c hc
  cases hc

/-- A value arrives, the app writes its file, and this device collects it. -/
theorem a_value_stays_readable :
    ((apply_crdt plain_env notes_store "notes" "d" "phone" note_object
        (.crdt (note_payload (.Value (crdt.number 1) 1)))).2 = .ok () ∧
      crdt.Readable "laptop" (crdt.doc_of (apply_crdt plain_env notes_store "notes" "d" "phone"
        note_object (.crdt (note_payload (.Value (crdt.number 1) 1)))).1.docs "notes" "d")) ∧
      runs.Along (doc_step ⟨"laptop"⟩) (ReadsOn ⟨"laptop"⟩) notes_store
        [.apply plain_env "notes" "d" "phone" note_object (note_payload (.Value (crdt.number 1) 1)),
          .write "notes" "d" none, .collect ["notes"] 5] := by
  have hboth := a_payload_stays_readable_where_no_empty_cell_leads ⟨"laptop"⟩
  have hcell : ∀ w field c, crdt.cell_among (crdt.doc_of notes_store.docs "notes" "d") "phone"
      (note_payload (.Value (crdt.number 1) 1)).fields w field = some c → c.no_value = false := by
    intro w field c hc
    unfold crdt.cell_among at hc
    split at hc
    · exact note_plain 1 1 field c hc
    · exact no_documents _ _ w field c hc
  constructor
  · exact (hboth.1 _ _ _ _ _ _ _ _ (note_brings _)).mpr
      ⟨fun field w c hc _ => hcell w field c hc, fun field c hc => hcell _ field c hc⟩
  · apply hboth.2 _ _ no_documents
    intro a ha
    simp only [List.mem_cons, List.not_mem_nil, or_false] at ha
    rcases ha with rfl | rfl | rfl
    · exact note_plain 1 1
    · trivial
    · trivial

/-- The cell `{"d": false, "t": 1}` on the empty table: the object passes every check, its apply
fails, and so does each later one that brings it again. -/
theorem an_empty_cell_is_never_applied :
    Brings notes_store "notes" "d" "phone" note_object (.crdt (note_payload (.Tomb false 1)))
        (note_payload (.Tomb false 1)).fields ∧
      (let failed := apply_crdt plain_env notes_store "notes" "d" "phone" note_object
        (.crdt (note_payload (.Tomb false 1)))
      failed.2 = .error (.Sync "crdt value cell missing value") ∧
        crdt.winners (crdt.doc_of failed.1.docs "notes" "d") =
          .error (.Sync "crdt value cell missing value") ∧
        (apply_crdt plain_env failed.1 "notes" "d" "phone" note_object
          (.crdt (note_payload (.Tomb false 1)))).2 =
            .error (.Sync "crdt value cell missing value")) := by
  refine ⟨note_brings _, ?_, ?_, ?_⟩ <;> decide +kernel

end pai_sync.engine
