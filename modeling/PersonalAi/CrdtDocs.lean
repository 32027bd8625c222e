-- App CRDT documents (pai-sync, crdt.rs): the cells of each writer, the merge of
-- them, and the file of a document that the app and the sync share.
import Mathlib.Data.String.Basic
import PersonalAi.Core
import PersonalAi.Lib.Json
import PersonalAi.Lib.SortedMap
import PersonalAi.Lib.Table

open pai_core json table sorted_map

namespace pai_sync.crdt

/-! ## Cells -/

/-- One field cell. -/
inductive Cell
  | Value (v : json.Value) (t : Int)
  | Tomb (d : Bool) (t : Int)
deriving DecidableEq

def Cell.t : Cell → Int
  | .Value _ t => t
  | .Tomb _ t => t

def Cell.is_tomb : Cell → Bool
  | .Tomb d _ => d
  | .Value _ _ => false

def Cell.value : Cell → Option json.Value
  | .Value v _ => some v
  | .Tomb _ _ => none

/-- The field-set of one writer. -/
abbrev Fields := SortedMap String Cell

/-- A value that is `{"v": …, "t": int}` or `{"d": true, "t": int}` is a cell, with
or without other fields. -/
def as_cell (raw : json.Value) : Option Cell :=
  match raw.get "v", raw.get "d", (raw.get "t").bind Value.as_i64 with
  | some v, _, some t => some (.Value v t)
  | none, some (.bool true), some t => some (.Tomb true t)
  | _, _, _ => none

/-! ## Documents -/

/-- The text of a document file: an object, with whether its bytes are the very
ones that `materialize` writes for it, or a text that is no object, with the
error it gives. -/
inductive DocText
  | object (fields : SortedMap String Value) (pretty : Bool)
  | invalid (e : Error)
deriving DecidableEq

structure DocFile where
  text : DocText
  mtime_ms : Int
deriving DecidableEq

/-- What one device keeps of a document: the cells by writer, the view rows of
the last write, and the file. -/
structure Doc where
  cells : Table String Fields
  view : SortedMap String (Value × Int)
  file : Option DocFile

def Doc.empty : Doc := { cells := ∅, view := sorted_map.empty, file := none }

/-- The cell of a field as it is normalised: a cell as it stands, a plain value
with the time of the view when it is unchanged, and else that of the file. -/
def normalize (view : SortedMap String (Value × Int)) (mtime_ms : Int) (field : String)
    (raw : Value) : Cell :=
  match as_cell raw with
  | some c => c
  | none =>
    match view.get field with
    | some (pv, pt) => .Value raw (if pv = raw then pt else mtime_ms)
    | none => .Value raw mtime_ms

/-- Read and normalise the file into the field-set of a writer. -/
def collect_doc (d : Doc) : Except Error (Option Fields) :=
  match d.file with
  | none => .ok none
  | some f =>
    match f.text with
    | .invalid e => .error e
    | .object fields _ =>
      .ok (some (fields.filterMap (fun field raw => some (normalize d.view f.mtime_ms field raw))))

/-- Replace the cells of one writer: the object is all of its view. -/
def replace_cells (d : Doc) (writer : String) (fields : Fields) : Doc :=
  { d with cells := d.cells.insert writer fields }

/-! ## The merge -/

/-- `ORDER BY t_ms DESC, writer ASC`: the first one wins the field. -/
def Beats (a b : String × Cell) : Prop := b.2.t < a.2.t ∨ (a.2.t = b.2.t ∧ a.1 < b.1)

instance : DecidableRel Beats := fun a b =>
  inferInstanceAs (Decidable (b.2.t < a.2.t ∨ (a.2.t = b.2.t ∧ a.1 < b.1)))

/-- The cells of a field, each with its writer. -/
def candidates (d : Doc) (field : String) : List (String × Cell) :=
  d.cells.entries.filterMap (fun e => (e.2.get field).map (fun c => (e.1, c)))

/-- The first of the order. -/
def first_of : List (String × Cell) → Option (String × Cell)
  | [] => none
  | a :: rest =>
    match first_of rest with
    | none => some a
    | some b => if Beats b a then some b else some a

/-- The cell that wins a field, with its writer. -/
def winner (d : Doc) (field : String) : Option (String × Cell) := first_of (candidates d field)

/-- The fields that some writer has a cell for. -/
def all_fields (d : Doc) : List String := d.cells.entries.flatMap (fun e => e.2.keys)

/-- A winner that is neither a value nor a tombstone. -/
def missing_value (d : Doc) (field : String) : Bool :=
  match winner d field with
  | some (_, .Tomb false _) => true
  | _ => false

/-- What a field shows: the value and the time of the winner, unless that is a
tombstone. -/
def shown (d : Doc) (field : String) : Option (Value × Int) :=
  match winner d field with
  | some (_, .Value v t) => some (v, t)
  | _ => none

/-- The merged document, each value with its time. -/
def winners (d : Doc) : Except Error (SortedMap String (Value × Int)) :=
  if (all_fields d).any (missing_value d) then .error (.Sync "crdt value cell missing value")
  else .ok (tabulate (all_fields d) (shown d))

/-- The plain document of a merge. -/
def plain (merged : SortedMap String (Value × Int)) : SortedMap String Value :=
  merged.filterMap (fun _ e => some e.1)

/-- Rewrite the file and the view rows from the cells, when the bytes differ. An
app that is not installed keeps its cells only. -/
def materialize (installed : Bool) (now_ms : Int) (d : Doc) : Except Error Doc :=
  if !installed then .ok d
  else
    match winners d with
    | .error e => .error e
    | .ok merged =>
      if d.file.map DocFile.text = some (.object (plain merged) true) then .ok d
      else
        .ok { d with view := merged,
                     file := some { text := .object (plain merged) true, mtime_ms := now_ms } }

/-- The outcome of a pass over a document: the document it leaves, and its
result. The cells stay replaced when the merge fails. -/
def replace_and_materialize (installed : Bool) (now_ms : Int) (d : Doc) (writer : String)
    (fields : Fields) : Doc × Except Error Unit :=
  let d := replace_cells d writer fields
  match materialize installed now_ms d with
  | .ok d => (d, .ok ())
  | .error e => (d, .error e)

/-! ## Collecting -/

/-- A row without a value that is no tombstone. -/
def Cell.no_value : Cell → Bool
  | .Tomb d _ => !d
  | .Value _ _ => false

/-- The cells of this device in the table. -/
def own (d : Doc) (me : String) : Fields := (d.cells.lookup me).getD sorted_map.empty

/-- Our last published field-set. -/
def our_cells (d : Doc) (me : String) : Except Error Fields :=
  if (own d me).entries.any (fun e => e.2.no_value) then
    .error (.Sync "crdt value cell missing value")
  else .ok (own d me)

/-- What a pass over a document publishes: the field-set, and the hint for its
version. -/
structure Published where
  fields : Fields
  hint_ms : Int
deriving DecidableEq

/-- The greatest time of the cells, or now when there are none. -/
def updated_ms (now_ms : Int) (fields : Fields) : Int :=
  ((fields.entries.map (fun e => e.2.t)).max?).getD now_ms

/-- Nothing changed since the last publication; a vanished file always counts as
a change. -/
def unchanged (me : String) (on_disk : Bool) (d : Doc) (fields : Fields) : Except Error Bool :=
  if on_disk then (our_cells d me).map (fun ours => decide (fields = ours)) else .ok false

/-- One turn of the loop over the documents. A vanished file gives the empty
field-set: a withdrawal. -/
def collect_one (me : String) (installed : Bool) (now_ms : Int) (on_disk : Bool) (d : Doc) :
    Doc × Except Error (Option Published) :=
  match collect_doc d with
  | .error e => (d, .error e)
  | .ok read =>
    let fields := read.getD sorted_map.empty
    match unchanged me on_disk d fields with
    | .error e => (d, .error e)
    | .ok true => (d, .ok none)
    | .ok false =>
      match replace_and_materialize installed now_ms d me fields with
      | (d, .error e) => (d, .error e)
      | (d, .ok ()) =>
        (d, .ok (some { fields := fields, hint_ms := max (updated_ms now_ms fields) 1 }))

/-! ## All documents of a device -/

/-- The documents by app and name. -/
abbrev Docs := Table (String × String) Doc

def doc_of (st : Docs) (app_id doc : String) : Doc := (st.lookup (app_id, doc)).getD Doc.empty

/-- The names that a document file may have, without `.json`. -/
def doc_name_ok (name : String) : Bool :=
  name.toList ≠ [] && '/' ∉ name.toList && '\\' ∉ name.toList && name.toList.head? ≠ some '.'

/-- The documents of an app that the test holds of, in order. -/
def docs_of (st : Docs) (app_id : String) (p : String → Doc → Bool) : List String :=
  ordered (st.entries.filterMap (fun e =>
    if e.1.1 = app_id ∧ p e.1.2 e.2 then some e.1.2 else none))

/-- The documents present on disk. -/
def on_disk (st : Docs) (app_id : String) : List String :=
  docs_of st app_id (fun name d => doc_name_ok name && d.file.isSome)

/-- The documents that this device has cells for. -/
def published (st : Docs) (app_id me : String) : List String :=
  docs_of st app_id (fun _ d => !(own d me).entries.isEmpty)

/-- A document to publish. -/
structure Collected where
  app : String
  doc : String
  published : Published
deriving DecidableEq

def collect_docs (me : String) (installed : Bool) (now_ms : Int) (app_id : String)
    (present : List String) : Docs → List String → Docs × Except Error (List Collected)
  | st, [] => (st, .ok [])
  | st, doc :: rest =>
    match collect_one me installed now_ms (decide (doc ∈ present)) (doc_of st app_id doc) with
    | (d, .error e) => (st.insert (app_id, doc) d, .error e)
    | (d, .ok out) =>
      match collect_docs me installed now_ms app_id present (st.insert (app_id, doc) d) rest with
      | (st, .error e) => (st, .error e)
      | (st, .ok more) =>
        (st, .ok ((out.map (fun p => { app := app_id, doc := doc, published := p })).toList ++ more))

/-- The documents of the installed apps whose published cells would differ. A
document that is on disk and was published before has two turns. -/
def collect (me : String) (installed : String → Bool) (now_ms : Int) :
    Docs → List String → Docs × Except Error (List Collected)
  | st, [] => (st, .ok [])
  | st, app_id :: rest =>
    let present := on_disk st app_id
    let turns := present ++ published st app_id me
    match collect_docs me (installed app_id) now_ms app_id present st turns with
    | (st, .error e) => (st, .error e)
    | (st, .ok out) =>
      match collect me installed now_ms st rest with
      | (st, .error e) => (st, .error e)
      | (st, .ok more) => (st, .ok (out ++ more))

/-- Write all documents of an app from their cells: the package has landed. -/
def materialize_all (now_ms : Int) (st : Docs) (app_id : String) : List String → Docs
  | [] => st
  | doc :: rest =>
    match materialize true now_ms (doc_of st app_id doc) with
    | .error _ => st
    | .ok d => materialize_all now_ms (st.insert (app_id, doc) d) app_id rest

end pai_sync.crdt
