-- The times of an app's own cells over a run: what the view rows and the file's time make of a
-- field that the app changed, and when that is later than the cell published before.
import PersonalAi.CrdtEdits
import PersonalAi.Lib.Runs

open pai_core json table sorted_map

namespace pai_sync.crdt

/-! ## A document that is watched -/

/-- A document of a device; what its file showed before the write of the app that stands in it,
if one does; and a time that nothing on the document is past. -/
structure Watch where
  doc : Doc
  base : Option (SortedMap String Value)
  top : Int

/-- An object of a writer is applied, the app writes the file, or a collect takes its turn. -/
inductive WatchAct
  | apply (writer : String) (fields : Fields) (now_ms : Int)
  | write (fields : SortedMap String Value) (pretty : Bool) (mtime_ms : Int)
  | turn (on_disk : Bool) (now_ms : Int)

def latest (t : Int) (fields : Fields) : Int := fields.entries.foldl (fun m e => max m e.2.t) t

def file_time (t : Int) (d : Doc) : Int := ((d.file.map DocFile.mtime_ms).elim t (max t))

def watch_step (me : String) (s : Watch) : WatchAct → Watch
  | .apply writer fields now_ms =>
    let d := pull_fields now_ms writer fields s.doc
    { doc := d, base := if d.file = s.doc.file then s.base else none,
      top := file_time (latest s.top fields) d }
  | .write fields pretty mtime_ms =>
    { doc := app_write s.doc fields pretty mtime_ms, base := some (file_fields s.doc),
      top := max s.top mtime_ms }
  | .turn on_disk now_ms =>
    let d := (collect_one me true now_ms on_disk s.doc).1
    { doc := d, base := none, top := file_time s.top d }

/-- The app changed the field to this value, which is not that of the published cell. -/
structure Edited (me : String) (s : Watch) (field : String) (v : Value) (c : Cell) : Prop where
  changed : ∃ fields, s.base = some fields ∧ fields.get field ≠ some v
  reads : (file_fields s.doc).get field = some v
  published : cell_of s.doc me field = some c
  differs : c.value ≠ some v

/-- What a collect publishes for a field that the app changed is later than what it published
before. -/
def Forward (me : String) (s : Watch) : WatchAct → Prop
  | .turn on_disk now_ms => ∀ p, (collect_one me true now_ms on_disk s.doc).2 = .ok (some p) →
    ∀ field v c, Edited me s field v c → ∃ t, p.fields.get field = some (.Value v t) ∧ c.t < t
  | _ => True

/-- The view row of the field is later than the cell, where it has this value, and else the file
is. -/
structure Fresh (d : Doc) (field : String) (v : Value) (c : Cell) : Prop where
  row : ∀ t, d.view.get field = some (v, t) → c.t < t
  file : (∀ t, d.view.get field ≠ some (v, t)) → ∀ f, d.file = some f → c.t < f.mtime_ms

/-- Wherever the collect publishes, that holds of all fields that the app changed. -/
def FreshEdits (me : String) (s : Watch) : WatchAct → Prop
  | .turn on_disk now_ms => (∃ p, (collect_one me true now_ms on_disk s.doc).2 = .ok (some p)) →
    ∀ field v c, Edited me s field v c → Fresh s.doc field v c
  | _ => True

def PlainValues (fields : SortedMap String Value) : Prop :=
  ∀ field v, fields.get field = some v → as_cell v = none

/-- The app writes plain values. -/
def PlainWrite : WatchAct → Prop
  | .write fields _ _ => PlainValues fields
  | _ => True

/-! ## One turn -/

theorem file_fields_file {d d' : Doc} (h : d'.file = d.file) : file_fields d' = file_fields d := by
  unfold file_fields
  rw [h]

/-- What a turn publishes is what it reads from the file. -/
theorem published_reads {me : String} {now_ms : Int} {on_disk : Bool} {d : Doc} {p : Published}
    (h : (collect_one me true now_ms on_disk d).2 = .ok (some p)) :
    ∃ read, collect_doc d = .ok read ∧ p.fields = read.getD sorted_map.empty := by
  unfold collect_one at h
  split at h
  · cases h
  · rename_i read hread
    refine ⟨read, hread, ?_⟩
    dsimp only at h
    split at h
    · cases h
    · cases h
    · split at h
      · cases h
      · cases h
        rfl

/-- A plain value is published with the time of its view row, or else that of the file. -/
theorem published_plain {me : String} {now_ms : Int} {on_disk : Bool} {d : Doc} {p : Published}
    (h : (collect_one me true now_ms on_disk d).2 = .ok (some p)) {field : String} {v : Value}
    (hreads : (file_fields d).get field = some v) (hplain : as_cell v = none) :
    ∃ f t, d.file = some f ∧ p.fields.get field = some (.Value v t) ∧
      (d.view.get field = some (v, t) ∨
        (∀ t', d.view.get field ≠ some (v, t')) ∧ t = f.mtime_ms) := by
  obtain ⟨read, hread, hfields⟩ := published_reads h
  cases read with
  | none =>
    unfold collect_doc at hread
    split at hread
    · rename_i hfile
      unfold file_fields at hreads
      rw [hfile] at hreads
      simp at hreads
    · split at hread <;> cases hread
  | some fields =>
    obtain ⟨f, raw, pretty, hfile, htext, hget⟩ := collect_doc_get hread
    have hraw : file_fields d = raw := file_fields_of hfile htext
    have hcell : p.fields.get field = some (normalize d.view f.mtime_ms field v) := by
      rw [hfields, Option.getD_some, hget, ← hraw, hreads, Option.map_some]
    unfold normalize at hcell
    rw [hplain] at hcell
    dsimp only at hcell
    split at hcell
    · rename_i pv pt hview
      by_cases hsame : pv = v
      · rw [if_pos hsame] at hcell
        exact ⟨f, pt, hfile, hcell, .inl (by rw [hview, hsame])⟩
      · rw [if_neg hsame] at hcell
        refine ⟨f, f.mtime_ms, hfile, hcell, .inr ⟨?_, rfl⟩⟩
        intro t' ht'
        rw [hview] at ht'
        cases ht'
        exact hsame rfl
    · rename_i hview
      refine ⟨f, f.mtime_ms, hfile, hcell, .inr ⟨?_, rfl⟩⟩
      intro t' ht'
      rw [hview] at ht'
      cases ht'

theorem forward_iff_fresh {me : String} {now_ms : Int} {on_disk : Bool} {d : Doc} {p : Published}
    (h : (collect_one me true now_ms on_disk d).2 = .ok (some p)) {field : String} {v : Value}
    (hreads : (file_fields d).get field = some v) (hplain : as_cell v = none) (c : Cell) :
    (∃ t, p.fields.get field = some (.Value v t) ∧ c.t < t) ↔ Fresh d field v c := by
  obtain ⟨f, t, hfile, hpub, htime⟩ := published_plain h hreads hplain
  constructor
  · rintro ⟨t', hpub', hlt⟩
    rw [hpub] at hpub'
    cases hpub'
    rcases htime with hrow | ⟨hno, rfl⟩
    · refine ⟨fun t' ht' => ?_, fun hno => absurd hrow (hno t)⟩
      rw [hrow] at ht'
      cases ht'
      exact hlt
    · refine ⟨fun t' ht' => absurd ht' (hno t'), fun _ f' hf' => ?_⟩
      rw [hfile] at hf'
      cases hf'
      exact hlt
  · intro hfresh
    refine ⟨t, hpub, ?_⟩
    rcases htime with hrow | ⟨hno, rfl⟩
    · exact hfresh.row t hrow
    · exact hfresh.file hno f hfile

/-! ## The write that stands in the file -/

/-- The file that the app wrote has plain values. -/
def Watch.Plain (s : Watch) : Prop := s.base.isSome → PlainValues (file_fields s.doc)

theorem Watch.Plain.step {me : String} {s : Watch} {a : WatchAct} (h : s.Plain)
    (ha : PlainWrite a) : (watch_step me s a).Plain := by
  cases a with
  | apply writer fields now_ms =>
    unfold watch_step Watch.Plain
    dsimp only
    split
    · rename_i hfile
      rw [file_fields_file hfile]
      exact h
    · intro hbase
      cases hbase
  | write fields pretty mtime_ms => exact fun _ => ha
  | turn on_disk now_ms =>
    intro hbase
    cases hbase

theorem forward_iff {me : String} {s : Watch} (h : s.Plain) (a : WatchAct) :
    Forward me s a ↔ FreshEdits me s a := by
  cases a with
  | apply writer fields now_ms => exact Iff.rfl
  | write fields pretty mtime_ms => exact Iff.rfl
  | turn on_disk now_ms =>
    have hplain : ∀ field v c, Edited me s field v c → as_cell v = none := by
      intro field v c hedit
      obtain ⟨fields, hbase, -⟩ := hedit.changed
      exact h (by rw [hbase]; rfl) field v hedit.reads
    constructor
    · rintro hforward ⟨p, hp⟩ field v c hedit
      apply (forward_iff_fresh hp hedit.reads (hplain field v c hedit) c).mp
      exact hforward p hp field v c hedit
    · intro hfresh p hp field v c hedit
      apply (forward_iff_fresh hp hedit.reads (hplain field v c hedit) c).mpr
      exact hfresh ⟨p, hp⟩ field v c hedit

/-! ## What a pass and a turn leave -/

/-- A pass replaces the cells of its writer, and writes both the view and the file or neither. -/
theorem pass_leaves (installed : Bool) (now_ms : Int) (d : Doc) (writer : String) (fields : Fields) :
    let d' := (replace_and_materialize installed now_ms d writer fields).1
    d'.cells = (replace_cells d writer fields).cells ∧
      ((d'.view = d.view ∧ d'.file = d.file) ∨
        ∃ merged, winners (replace_cells d writer fields) = .ok merged ∧ d'.view = merged ∧
          d'.file = some { text := .object (plain merged) true, mtime_ms := now_ms }) := by
  unfold replace_and_materialize materialize
  cases installed with
  | false => exact ⟨rfl, .inl ⟨rfl, rfl⟩⟩
  | true =>
    dsimp only [Bool.not_true]
    cases hwin : winners (replace_cells d writer fields) with
    | error e => exact ⟨rfl, .inl ⟨rfl, rfl⟩⟩
    | ok merged =>
      by_cases hsame : (replace_cells d writer fields).file.map DocFile.text =
          some (.object (plain merged) true)
      · simp only [hsame, if_true]
        exact ⟨rfl, .inl ⟨rfl, rfl⟩⟩
      · simp only [hsame, if_false]
        exact ⟨rfl, .inr ⟨merged, rfl, rfl, rfl⟩⟩

/-- A turn leaves the document, or is a pass with what it reads. -/
theorem turn_leaves (me : String) (now_ms : Int) (on_disk : Bool) (d : Doc) :
    (collect_one me true now_ms on_disk d).1 = d ∨
      ∃ read, collect_doc d = .ok read ∧ (collect_one me true now_ms on_disk d).1 =
        (replace_and_materialize true now_ms d me (read.getD sorted_map.empty)).1 := by
  unfold collect_one
  split
  · exact .inl rfl
  · rename_i read hread
    dsimp only
    split
    · exact .inl rfl
    · exact .inl rfl
    · right
      refine ⟨read, hread, ?_⟩
      split <;> rename_i hpass <;> rw [hpass]

theorem winners_get {d : Doc} {merged : SortedMap String (Value × Int)}
    (h : winners d = .ok merged) {field : String} {v : Value} {t : Int}
    (hget : merged.get field = some (v, t)) : ∃ w, Leads d field w (.Value v t) := by
  unfold winners at h
  split at h
  · cases h
  · cases h
    rw [get_tabulate] at hget
    split at hget
    · exact shown_eq_some.mp hget
    · cases hget

theorem foldl_max_le (l : List (String × Cell)) (t : Int) :
    t ≤ l.foldl (fun m e => max m e.2.t) t ∧
      ∀ e ∈ l, e.2.t ≤ l.foldl (fun m e => max m e.2.t) t := by
  induction l generalizing t with
  | nil => simp
  | cons e l ih =>
    obtain ⟨hstart, hrest⟩ := ih (max t e.2.t)
    simp only [List.foldl_cons, List.forall_mem_cons]
    exact ⟨by omega, by omega, hrest⟩

theorem latest_le (t : Int) (fields : Fields) : t ≤ latest t fields ∧
    ∀ field c, fields.get field = some c → c.t ≤ latest t fields := by
  obtain ⟨hstart, hall⟩ := foldl_max_le fields.entries t
  exact ⟨hstart, fun field c hc => hall (field, c) (get_eq_some.mp hc)⟩

theorem file_time_le (t : Int) (d : Doc) : t ≤ file_time t d ∧
    ∀ f, d.file = some f → f.mtime_ms ≤ file_time t d := by
  unfold file_time
  cases d.file with
  | none => simp
  | some f =>
    refine ⟨?_, ?_⟩
    · simp
    · intro f' hf'
      cases hf'
      simp

/-! ## Clocks that agree -/

/-- The values of cells are plain. -/
def PlainCells (fields : Fields) : Prop :=
  ∀ field c, fields.get field = some c → ∀ v, c.value = some v → as_cell v = none

/-- Every cell and view row and the file are no later than this time, and their values plain. -/
structure Within (top : Int) (d : Doc) : Prop where
  cells : ∀ w field c, cell_of d w field = some c →
    c.t ≤ top ∧ ∀ v, c.value = some v → as_cell v = none
  view : ∀ field v t, d.view.get field = some (v, t) → t ≤ top
  file : ∀ f, d.file = some f → f.mtime_ms ≤ top
  text : PlainValues (file_fields d)

/-- Nothing is past the top, and a write of the app that stands is later than all own cells. -/
structure Watch.Timely (me : String) (s : Watch) : Prop where
  within : Within s.top s.doc
  edit : s.base.isSome → ∀ f, s.doc.file = some f → ∀ field c, cell_of s.doc me field = some c →
    c.t < f.mtime_ms

/-- The app's writes are later than all before, cells of other devices among it, and no turn that
publishes finds a field changed to the value of a view row that is older than the published
cell. -/
def InTime (me : String) (s : Watch) : WatchAct → Prop
  | .apply writer fields _ => writer ≠ me ∧ PlainCells fields
  | .write fields _ mtime_ms => PlainValues fields ∧ s.top < mtime_ms
  | .turn on_disk now_ms => (∃ p, (collect_one me true now_ms on_disk s.doc).2 = .ok (some p)) →
    ∀ field v c, Edited me s field v c → ∀ t, s.doc.view.get field = some (v, t) → c.t < t

theorem Within.mono {top top' : Int} {d : Doc} (h : Within top d) (hle : top ≤ top') :
    Within top' d where
  cells w field c hc := by
    obtain ⟨ht, hv⟩ := h.cells w field c hc
    exact ⟨by omega, hv⟩
  view field v t hrow := by
    have ht := h.view field v t hrow
    omega
  file f hf := by
    have ht := h.file f hf
    omega
  text := h.text

/-- A pass with plain cells up to a time stays within the time of the file it leaves. -/
theorem Within.pass {top : Int} {d : Doc} (h : Within top d) {fields : Fields}
    (hplain : PlainCells fields) (htimes : ∀ field c, fields.get field = some c → c.t ≤ top)
    (installed : Bool) (now_ms : Int) (writer : String) :
    let d' := (replace_and_materialize installed now_ms d writer fields).1
    Within (file_time top d') d' := by
  obtain ⟨hcells, hrest⟩ := pass_leaves installed now_ms d writer fields
  generalize (replace_and_materialize installed now_ms d writer fields).1 = d' at hcells hrest
  obtain ⟨hle, hfile⟩ := file_time_le top d'
  have hreplaced : ∀ w field c, cell_of (replace_cells d writer fields) w field = some c →
      c.t ≤ top ∧ ∀ v, c.value = some v → as_cell v = none := by
    intro w field c hc
    rw [cell_of_replace] at hc
    split at hc
    · exact ⟨htimes field c hc, hplain field c hc⟩
    · exact h.cells w field c hc
  have hcell : ∀ w field c, cell_of d' w field = some c →
      c.t ≤ file_time top d' ∧ ∀ v, c.value = some v → as_cell v = none := by
    intro w field c hc
    rw [cell_of_cells hcells] at hc
    obtain ⟨ht, hv⟩ := hreplaced w field c hc
    exact ⟨by omega, hv⟩
  rcases hrest with ⟨hview, hsame⟩ | ⟨merged, hwin, hview, hnew⟩
  · refine ⟨hcell, ?_, hfile, ?_⟩
    · intro field v t hrow
      rw [hview] at hrow
      have ht := h.view field v t hrow
      omega
    · rw [file_fields_file hsame]
      exact h.text
  · refine ⟨hcell, ?_, hfile, ?_⟩
    · intro field v t hrow
      rw [hview] at hrow
      obtain ⟨w, hlead⟩ := winners_get hwin hrow
      have ht := (hreplaced w field _ hlead.1).1
      simp only [Cell.t] at ht
      omega
    · intro field v hv
      have hprinted : Printed d' (plain merged) := by
        unfold Printed
        rw [hnew]
        rfl
      rw [printed_fields hprinted] at hv
      unfold plain at hv
      rw [get_filterMap] at hv
      obtain ⟨e, he, heq⟩ := Option.bind_eq_some_iff.mp hv
      cases heq
      obtain ⟨w, hlead⟩ := winners_get hwin he
      exact (hreplaced w field _ hlead.1).2 _ rfl

/-- What a turn reads is plain cells no later than the view and the file. -/
theorem Within.reads {top : Int} {d : Doc} (h : Within top d) {read : Option Fields}
    (hread : collect_doc d = .ok read) :
    PlainCells (read.getD sorted_map.empty) ∧
      ∀ field c, (read.getD sorted_map.empty).get field = some c → c.t ≤ top := by
  cases read with
  | none => exact ⟨fun field c hc => by simp at hc, fun field c hc => by simp at hc⟩
  | some fields =>
    obtain ⟨f, raw, pretty, hfile, htext, hget⟩ := collect_doc_get hread
    have hraw : file_fields d = raw := file_fields_of hfile htext
    have hone : ∀ field c, fields.get field = some c →
        ∃ v t, c = .Value v t ∧ as_cell v = none ∧ t ≤ top := by
      intro field c hc
      rw [hget] at hc
      obtain ⟨v, hv, rfl⟩ := Option.map_eq_some_iff.mp hc
      have hplain := h.text field v (hraw ▸ hv)
      have hmtime := h.file f hfile
      unfold normalize
      rw [hplain]
      dsimp only
      split
      · rename_i pv pt hrow
        have hpt := h.view field pv pt hrow
        refine ⟨v, _, rfl, hplain, ?_⟩
        split
        · exact hpt
        · exact hmtime
      · exact ⟨v, _, rfl, hplain, hmtime⟩
    refine ⟨?_, ?_⟩
    · intro field c hc v hv
      obtain ⟨v', t, rfl, hplain, -⟩ := hone field c hc
      cases hv
      exact hplain
    · intro field c hc
      obtain ⟨v, t, rfl, -, ht⟩ := hone field c hc
      exact ht

theorem Watch.Timely.step {me : String} {s : Watch} {a : WatchAct} (h : s.Timely me)
    (ha : InTime me s a) : (watch_step me s a).Timely me := by
  cases a with
  | apply writer fields now_ms =>
    obtain ⟨hwriter, hplain⟩ := ha
    obtain ⟨hle, htimes⟩ := latest_le s.top fields
    refine ⟨(h.within.mono hle).pass hplain htimes true now_ms writer, ?_⟩
    unfold watch_step
    dsimp only
    split
    · rename_i hsame
      intro hbase f hf field c hc
      rw [hsame] at hf
      have hcells := (pass_leaves true now_ms s.doc writer fields).1
      have hcell : cell_of s.doc me field = some c := by
        have hreplaced := cell_of_replace s.doc writer fields me field
        rw [if_neg (Ne.symm hwriter)] at hreplaced
        rw [← hreplaced, ← cell_of_cells hcells]
        exact hc
      exact h.edit hbase f hf field c hcell
    · intro hbase
      cases hbase
  | write fields pretty mtime_ms =>
    obtain ⟨hplain, hlater⟩ := ha
    have hle : s.top ≤ max s.top mtime_ms := by omega
    have hmono := h.within.mono hle
    refine ⟨⟨hmono.cells, hmono.view, ?_, hplain⟩, ?_⟩
    · intro f hf
      cases hf
      unfold watch_step
      dsimp only
      omega
    · intro _ f hf field c hc
      cases hf
      have ht := (h.within.cells me field c hc).1
      dsimp only
      omega
  | turn on_disk now_ms =>
    refine ⟨?_, fun hbase => by cases hbase⟩
    unfold watch_step
    dsimp only
    rcases turn_leaves me now_ms on_disk s.doc with hsame | ⟨read, hread, hpass⟩
    · rw [hsame]
      exact h.within.mono (file_time_le s.top s.doc).1
    · rw [hpass]
      obtain ⟨hplain, htimes⟩ := h.within.reads hread
      exact h.within.pass hplain htimes true now_ms me

theorem forward_in_time {me : String} {s : Watch} {a : WatchAct} (h : s.Timely me)
    (ha : InTime me s a) : Forward me s a := by
  have hplain : s.Plain := fun _ => h.within.text
  apply (forward_iff hplain a).mpr
  cases a with
  | apply writer fields now_ms => trivial
  | write fields pretty mtime_ms => trivial
  | turn on_disk now_ms =>
    intro hpublishes field v c hedit
    refine ⟨ha hpublishes field v c hedit, ?_⟩
    intro _ f hf
    obtain ⟨fields, hbase, -⟩ := hedit.changed
    exact h.edit (by rw [hbase]; rfl) f hf field c hedit.published

/-! ## Runs -/

/-- Over every run in which the app writes plain values, what each collect publishes for a field
that the app changed is later than what it published before exactly where, each time, the view row
with that value is later than the published cell, and the file is where there is none. Where the
writes are later than all the cells before, only the view rows are left to ask for. -/
theorem times_move_forward_where_no_view_row_is_stale (me : String) :
    (∀ (s : Watch) (acts : List WatchAct), s.Plain → (∀ a ∈ acts, PlainWrite a) →
      (runs.Along (watch_step me) (Forward me) s acts ↔
        runs.Along (watch_step me) (FreshEdits me) s acts)) ∧
    ∀ (s : Watch) (acts : List WatchAct), s.Timely me →
      runs.Along (watch_step me) (InTime me) s acts →
      runs.Along (watch_step me) (Forward me) s acts := by
  constructor
  · intro s acts hs hacts
    induction acts generalizing s with
    | nil => exact Iff.rfl
    | cons a rest ih =>
      have hnext : (watch_step me s a).Plain := hs.step (hacts a List.mem_cons_self)
      apply and_congr (forward_iff hs a)
      exact ih _ hnext fun b hb => hacts b (List.mem_cons_of_mem _ hb)
  · intro s acts hs hruns
    have hkeeps : ∀ s a, s.Timely me → InTime me s a → (watch_step me s a).Timely me :=
      fun s a hs ha => hs.step ha
    apply runs.along_of_invariant hkeeps _ hs hruns
    intro s a hs ha
    exact forward_in_time hs ha

/-! ### A value that changes back -/

def unwatched : Watch := { doc := Doc.empty, base := none, top := 0 }

/-- The app writes 1 in one line, then 2; each time the collect rewrites the file. -/
def compact_edits : List WatchAct :=
  [.write (one_raw "a" 1) false 10, .turn true 11, .write (one_raw "a" 2) false 20, .turn true 21]

/-- The app writes 1 in one line, then 2 and again 1 in the very bytes of `materialize`. -/
def pretty_edits : List WatchAct :=
  [.write (one_raw "a" 1) false 10, .turn true 11, .write (one_raw "a" 2) true 20, .turn true 21,
    .write (one_raw "a" 1) true 30]

theorem unwatched_timely : unwatched.Timely "laptop" where
  within :=
    { cells := fun w field c hc => by cases hc
      view := fun field v t hrow => by cases hrow
      file := fun f hf => by cases hf
      text := fun field v hv => by cases hv }
  edit := fun hbase => by cases hbase

theorem one_raw_get {field : String} {n : Nat} {name : String} {v : Value}
    (h : (one_raw name n).get field = some v) : field = name ∧ v = number n := by
  unfold one_raw at h
  rw [get_tabulate] at h
  split at h
  · rename_i hmem
    cases h
    exact ⟨by simpa using hmem, rfl⟩
  · cases h

theorem one_raw_plain (name : String) (n : Nat) : PlainValues (one_raw name n) := by
  intro field v hv
  obtain ⟨-, rfl⟩ := one_raw_get hv
  rfl

theorem plain_writes : ∀ a ∈ compact_edits, PlainWrite a := by
  intro a ha
  simp only [compact_edits, List.mem_cons, List.not_mem_nil, or_false] at ha
  rcases ha with rfl | rfl | rfl | rfl
  · exact one_raw_plain "a" 1
  · trivial
  · exact one_raw_plain "a" 2
  · trivial

theorem compact_edits_in_time : runs.Along (watch_step "laptop") (InTime "laptop") unwatched
    compact_edits := by
  refine ⟨⟨one_raw_plain "a" 1, by decide⟩, ?_, ⟨one_raw_plain "a" 2, by decide +kernel⟩, ?_,
    trivial⟩
  · intro _ field v c hedit
    cases hedit.published
  · intro _ field v c hedit t hrow
    obtain ⟨rfl, rfl⟩ := one_raw_get hedit.reads
    have hview : (watch_step "laptop" (watch_step "laptop" (watch_step "laptop" unwatched
        (.write (one_raw "a" 1) false 10)) (.turn true 11))
        (.write (one_raw "a" 2) false 20)).doc.view.get "a" = some (number 1, 10) := by
      decide +kernel
    rw [hview] at hrow
    cases hrow

theorem compact_edits_move_forward :
    (runs.Along (watch_step "laptop") (Forward "laptop") unwatched compact_edits ↔
        runs.Along (watch_step "laptop") (FreshEdits "laptop") unwatched compact_edits) ∧
      runs.Along (watch_step "laptop") (Forward "laptop") unwatched compact_edits := by
  have hboth := times_move_forward_where_no_view_row_is_stale "laptop"
  exact ⟨hboth.1 _ _ (fun hbase => by cases hbase) plain_writes,
    hboth.2 _ _ unwatched_timely compact_edits_in_time⟩

/-- The 2 of time 20 is followed by a 1 of time 10: the view row is still that of the first
write. -/
theorem a_value_that_changes_back_goes_back_in_time :
    let s := runs.run (watch_step "laptop") unwatched pretty_edits
    Edited "laptop" s "a" (number 1) (.Value (number 2) 20) ∧
      (∃ p, (collect_one "laptop" true 31 true s.doc).2 = .ok (some p) ∧
        p.fields.get "a" = some (.Value (number 1) 10)) ∧
      ¬ Forward "laptop" s (.turn true 31) := by
  have hedit : Edited "laptop" (runs.run (watch_step "laptop") unwatched pretty_edits) "a"
      (number 1) (.Value (number 2) 20) := by
    refine ⟨⟨one_raw "a" 2, ?_, ?_⟩, ?_, ?_, ?_⟩ <;> decide +kernel
  have hpublished : (collect_one "laptop" true 31 true
      (runs.run (watch_step "laptop") unwatched pretty_edits).doc).2 =
      .ok (some { fields := one "a" 1 10, hint_ms := 10 }) := by
    decide +kernel
  have hold : (one "a" 1 10).get "a" = some (.Value (number 1) 10) := by decide
  refine ⟨hedit, ⟨_, hpublished, hold⟩, ?_⟩
  intro hforward
  obtain ⟨t, ht, hlt⟩ := hforward _ hpublished _ _ _ hedit
  rw [hold] at ht
  cases ht
  simp only [Cell.t] at hlt
  omega

end pai_sync.crdt
