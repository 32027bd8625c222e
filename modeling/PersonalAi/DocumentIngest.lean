-- The ingest of a document (pai-documents). Its row goes into the table before its text is read and
-- its sections are put in, each with a statement of its own, so that an error behind the row leaves
-- the row, and the sections so far.
import Mathlib.Data.List.Sort
import PersonalAi.DocumentText

open pai_core text

namespace pai_documents

structure DocumentId where
  text : String
deriving DecidableEq

structure DocumentRow where
  id : DocumentId
  title : Option String
  mime : String
  blob : String
  created_at : Timestamp
  updated_at : Timestamp
  trust : String
  deleted : Bool
  sync_scope : String
deriving DecidableEq

structure SectionRow where
  document_id : DocumentId
  section_ : UInt32
  text : Text
  embedding : Option Bytes
  page : Option UInt32
  heading : Option String
deriving DecidableEq

/-- The tables of documents. A section and its text in the index have a row id. -/
structure Tables where
  documents : List DocumentRow
  document_sections : List (Nat × SectionRow)
  documents_fts : List (Nat × Text)
deriving DecidableEq

/-- The statements of an ingest, with the number of the section. -/
inductive Statement
  | document
  | section_ (i : Nat)
  | index (i : Nat)

/-- What an ingest rests on: the formats, the embedder as bytes, the blob directory, and which
statement fails, with what error. -/
structure Backend where
  formats : Formats
  embed : Text → Option Bytes
  put_blob : Bytes → Except Error String
  fails : Statement → Option String

section Ingest
variable (b : Backend)

def insert_document (row : DocumentRow) (t : Tables) : Except Error Unit × Tables :=
  match b.fails .document with
  | some e => (.error (.Storage e), t)
  | none =>
    if row.id ∈ t.documents.map fun r => r.id then
      (.error (.Storage "UNIQUE constraint failed: documents.id"), t)
    else (.ok (), { t with documents := t.documents ++ [row] })

/-- The row id behind the largest one. -/
def next_rowid (t : Tables) : Nat := (t.document_sections.map Prod.fst).foldl max 0 + 1

/-- Two statements in one call of the store, but in no transaction. -/
def insert_section (id : DocumentId) (i : Nat) (s : Section) (t : Tables) : Except Error Unit × Tables :=
  match b.fails (.section_ i) with
  | some e => (.error (.Storage e), t)
  | none =>
    let rowid := next_rowid t
    let row : SectionRow :=
      { document_id := id, section_ := s.index, text := s.text, embedding := b.embed s.text,
        page := s.page, heading := s.heading }
    let t := { t with document_sections := t.document_sections ++ [(rowid, row)] }
    match b.fails (.index i) with
    | some e => (.error (.Storage e), t)
    | none => (.ok (), { t with documents_fts := t.documents_fts ++ [(rowid, s.text)] })

def insert_sections (id : DocumentId) : Nat → List Section → Tables → Except Error Unit × Tables
  | _, [], t => (.ok (), t)
  | i, s :: rest, t =>
    match insert_section b id i s t with
    | (.error e, t) => (.error e, t)
    | (.ok (), t) => insert_sections id (i + 1) rest t

/-- `now` and `fresh` are the time and the new id of the call. -/
def ingest (now : Timestamp) (fresh : DocumentId) (bytes : Bytes) (mime : String)
    (title : Option String) (t : Tables) : Except Error DocumentId × Tables :=
  match b.put_blob bytes with
  | .error e => (.error e, t)
  | .ok blob =>
    let row : DocumentRow :=
      { id := fresh, title, mime, blob, created_at := now, updated_at := now, trust := "untrusted",
        deleted := false, sync_scope := "device_local" }
    match insert_document b row t with
    | (.error e, t) => (.error e, t)
    | (.ok (), t) =>
      match extract b.formats mime bytes with
      | .error e => (.error e, t)
      | .ok sections =>
        match insert_sections b fresh 0 sections t with
        | (.error e, t) => (.error e, t)
        | (.ok (), t) => (.ok fresh, t)

end Ingest

/-- The documents that are not deleted, the newest first, with the number of their sections. -/
def list (t : Tables) : List (DocumentRow × Nat) :=
  ((t.documents.filter fun d => !d.deleted).insertionSort
    (fun a b => b.created_at ≤ a.created_at)).map fun d =>
      (d, t.document_sections.countP fun s => s.2.document_id = d.id)

/-! ## What an error leaves -/

section Errors
variable {b : Backend} {now : Timestamp} {fresh id : DocumentId} {bytes : Bytes} {mime : String}
  {title : Option String} {t : Tables} {s : Section} {i : Nat}

/-- The row of the document gets into its table. -/
def RowGetsIn (b : Backend) (fresh : DocumentId) (bytes : Bytes) (t : Tables) : Prop :=
  (∃ blob, b.put_blob bytes = .ok blob) ∧ b.fails .document = none ∧
    fresh ∉ t.documents.map fun r => r.id

/-- The text is read, and no statement for a section fails. -/
def SectionsGetIn (b : Backend) (bytes : Bytes) (mime : String) : Prop :=
  ∃ sections, extract b.formats mime bytes = .ok sections ∧ ∀ i < sections.length,
    b.fails (.section_ i) = none ∧ b.fails (.index i) = none

/-- A section does not change the documents, and is in where none of its statements fails. -/
theorem insert_section_spec (id : DocumentId) (i : Nat) (s : Section) (t : Tables) :
    (insert_section b id i s t).2.documents = t.documents ∧
      ((insert_section b id i s t).1 = .ok () ↔
        b.fails (.section_ i) = none ∧ b.fails (.index i) = none) := by
  unfold insert_section
  rcases hsection : b.fails (.section_ i) with _ | e
  · rcases hindex : b.fails (.index i) with _ | e <;> simp
  · simp

theorem insert_sections_spec (id : DocumentId) (i : Nat) (sections : List Section) (t : Tables) :
    (insert_sections b id i sections t).2.documents = t.documents ∧
      ((insert_sections b id i sections t).1 = .ok () ↔ ∀ k < sections.length,
        b.fails (.section_ (i + k)) = none ∧ b.fails (.index (i + k)) = none) := by
  induction sections generalizing i t with
  | nil => simp [insert_sections]
  | cons s rest ih =>
    obtain ⟨hsame, hok⟩ := insert_section_spec (b := b) id i s t
    unfold insert_sections
    rcases hstep : insert_section b id i s t with ⟨_ | ⟨⟩, t'⟩
    · rw [hstep] at hsame hok
      refine ⟨hsame, ⟨fun hok' => ?_, fun hall => hok.mpr (hall 0 (by simp))⟩⟩
      cases hok'
    · rw [hstep] at hsame hok
      obtain ⟨hrest, hall⟩ := ih (i + 1) t'
      refine ⟨hrest.trans hsame, hall.trans ⟨fun hback k hk => ?_, fun hback k hk => ?_⟩⟩
      · rcases k with _ | k
        · exact hok.mp rfl
        · have hlater := hback k (by simpa using hk)
          rwa [Nat.add_assoc, Nat.add_comm 1 k] at hlater
      · have hlater := hback (k + 1) (by simpa using hk)
        rwa [Nat.add_comm k 1, ← Nat.add_assoc] at hlater

/-- The ingest of a document whose row gets in: the documents have it, whatever comes behind. -/
theorem ingest_row (h : RowGetsIn b fresh bytes t) :
    (∃ row : DocumentRow, row.id = fresh ∧ row.deleted = false ∧
      (ingest b now fresh bytes mime title t).2.documents = t.documents ++ [row]) ∧
      ((∃ e, (ingest b now fresh bytes mime title t).1 = .error e) ↔ ¬ SectionsGetIn b bytes mime) := by
  obtain ⟨⟨blob, hblob⟩, hstatement, hnew⟩ := h
  unfold ingest insert_document SectionsGetIn
  simp only [hblob, hstatement, if_neg hnew]
  rcases hextract : extract b.formats mime bytes with e | sections
  · exact ⟨⟨_, rfl, rfl, rfl⟩, by simp⟩
  · obtain ⟨hsame, hok⟩ := insert_sections_spec (b := b) fresh 0 sections
      { t with documents := t.documents ++ [
        { id := fresh, title, mime, blob, created_at := now, updated_at := now, trust := "untrusted",
          deleted := false, sync_scope := "device_local" }] }
    simp only [Nat.zero_add] at hok
    simp only [Except.ok.injEq, exists_eq_left', ← hok]
    split
    · rename_i e t' hsections
      rw [hsections] at hsame ⊢
      exact ⟨⟨_, rfl, rfl, hsame⟩, by simp⟩
    · rename_i t' hsections
      rw [hsections] at hsame ⊢
      exact ⟨⟨_, rfl, rfl, hsame⟩, by simp⟩

/-- Without its row an ingest does nothing. -/
theorem ingest_no_row (h : ¬ RowGetsIn b fresh bytes t) :
    (ingest b now fresh bytes mime title t).2 = t := by
  unfold RowGetsIn at h
  unfold ingest insert_document
  rcases hblob : b.put_blob bytes with e | blob
  · rfl
  rcases hstatement : b.fails .document with _ | e
  · by_cases hnew : fresh ∈ t.documents.map fun r => r.id
    · simp only [if_pos hnew]
    · exact absurd ⟨⟨blob, hblob⟩, hstatement, hnew⟩ h
  · rfl

/-- A failed ingest leaves the tables as they were. -/
def LeavesNothing (b : Backend) (now : Timestamp) (fresh : DocumentId) (bytes : Bytes) (mime : String)
    (title : Option String) (t : Tables) : Prop :=
  ∀ e, (ingest b now fresh bytes mime title t).1 = .error e →
    (ingest b now fresh bytes mime title t).2 = t

/-- A document whose row is in is listed, also when its text could not be read. -/
theorem ingest_listed (h : RowGetsIn b fresh bytes t) :
    ∃ d ∈ list (ingest b now fresh bytes mime title t).2, d.1.id = fresh := by
  obtain ⟨⟨row, hid, hlive, hdocuments⟩, -⟩ := @ingest_row b now fresh bytes mime title t h
  refine ⟨_, List.mem_map_of_mem ((List.mem_insertionSort _).mpr (List.mem_filter.mpr ⟨?_, ?_⟩)), hid⟩
  · rw [hdocuments]
    exact List.mem_append_right _ (List.mem_singleton_self row)
  · rw [hlive]
    rfl

/-- A failed ingest leaves nothing exactly where its row does not get in, or where all behind the
row succeeds. -/
theorem leaves_nothing_iff (b : Backend) (now : Timestamp) (fresh : DocumentId) (bytes : Bytes)
    (mime : String) (title : Option String) (t : Tables) :
    LeavesNothing b now fresh bytes mime title t ↔
      (RowGetsIn b fresh bytes t → SectionsGetIn b bytes mime) := by
  constructor
  · intro hleaves hrow
    by_contra hfail
    obtain ⟨⟨row, -, -, hdocuments⟩, herror⟩ := ingest_row hrow
    obtain ⟨e, he⟩ := herror.mpr hfail
    rw [hleaves e he] at hdocuments
    simpa using congrArg List.length hdocuments
  · intro h e he
    by_cases hrow : RowGetsIn b fresh bytes t
    · exact absurd (h hrow) ((ingest_row hrow).2.mp ⟨e, he⟩)
    · exact ingest_no_row hrow

end Errors

/-! ### A file that is no PDF -/

/-- All statements succeed, and no file is a PDF or an archive. -/
def no_pdf : Backend :=
  { formats :=
      { extract_text_by_pages := fun _ => .error "PDF error: invalid file header"
        zip_archive := fun _ => .error "invalid Zip archive", read_events := fun _ => [] }
    embed := fun _ => none, put_blob := fun _ => .ok "8d74beec1be996322ad76813bafb92d4"
    fails := fun _ => none }

def no_documents : Tables := { documents := [], document_sections := [], documents_fts := [] }

theorem broken_pdf_is_listed :
    ¬ LeavesNothing no_pdf 7 ⟨"1"⟩ [37, 80, 68, 70] "application/pdf" (some "report.pdf")
        no_documents ∧
      (list (ingest no_pdf 7 ⟨"1"⟩ [37, 80, 68, 70] "application/pdf" (some "report.pdf")
        no_documents).2).map (fun d => (d.1.title, d.2)) = [(some "report.pdf", 0)] := by
  refine ⟨fun h => ?_, by decide⟩
  have hsame := h (.InvalidInput "pdf: PDF error: invalid file header") rfl
  revert hsame
  decide

end pai_documents
