-- What becomes of an app's own writes to a document: an edit that a pull finds
-- before the next collect, and a tombstone over many collects and pulls.
import PersonalAi.CrdtMerge

open pai_core json table sorted_map

namespace pai_sync.crdt

/-! ## What a file says of a field -/

/-- What a field of a file asserts, whatever its time: nothing, a tombstone, or a
value. -/
def reading (raw : Option Value) : Option (Option Value) :=
  raw.map (fun r =>
    match as_cell r with
    | some c => c.value
    | none => some r)

/-- The same of a cell. -/
def content (c : Option Cell) : Option (Option Value) := c.map Cell.value

theorem content_normalize (view : SortedMap String (Value × Int)) (mtime_ms : Int)
    (field : String) (raw : Option Value) :
    content (raw.map (normalize view mtime_ms field)) = reading raw := by
  cases raw with
  | none => rfl
  | some r =>
    unfold content reading normalize
    simp only [Option.map_some]
    cases as_cell r with
    | some c => rfl
    | none =>
      cases view.get field with
      | none => rfl
      | some e => rfl

/-- What a turn of a collect reads is what the file asserts. -/
theorem collect_doc_content {d : Doc} {read : Option Fields} (h : collect_doc d = .ok read)
    (field : String) :
    content ((read.getD sorted_map.empty).get field) = reading ((file_fields d).get field) := by
  cases read with
  | none =>
    have hnone : d.file = none := by
      unfold collect_doc at h
      split at h
      · assumption
      · split at h <;> cases h
    unfold file_fields
    rw [hnone]
    rfl
  | some fields =>
    obtain ⟨f, raw, pretty, hfile, htext, hget⟩ := collect_doc_get h
    have hraw : file_fields d = raw := file_fields_of hfile htext
    rw [Option.getD_some, hget, content_normalize, hraw]

/-- A turn over a sound document with a readable file records what it reads, and
the file stays as it is or shows the leading values. -/
theorem turn_sound {d : Doc} (hd : Sound d) (me : String) (now_ms : Int) (on_disk : Bool)
    {read : Option Fields} (h : collect_doc d = .ok read) :
    ∃ d' out, collect_one me true now_ms on_disk d = (d', .ok out) ∧ Sound d' ∧
      own d' me = read.getD sorted_map.empty ∧
      (d' = d ∨ d'.cells = (replace_cells d me (read.getD sorted_map.empty)).cells ∧
        ∃ m, Printed d' m ∧ ∀ field, m.get field =
          (shown (replace_cells d me (read.getD sorted_map.empty)) field).map Prod.fst) := by
  obtain ⟨same, hunchanged, hown⟩ : ∃ same,
      unchanged me on_disk d (read.getD sorted_map.empty) = .ok same ∧
        (same = true → read.getD sorted_map.empty = own d me) := by
    unfold unchanged
    cases on_disk with
    | false => exact ⟨false, rfl, fun h => by cases h⟩
    | true => exact ⟨_, by rw [our_cells_sound hd]; rfl, by simp⟩
  unfold collect_one
  rw [h]
  dsimp only
  rw [hunchanged]
  cases same with
  | true => exact ⟨d, none, rfl, hd, (hown rfl).symm, .inl rfl⟩
  | false =>
    obtain ⟨d', m, hpass, hs, hcells, hprinted, hm, _⟩ :=
      pass_sound hd (collect_doc_sound h) now_ms me
    dsimp only
    rw [hpass]
    refine ⟨d', _, rfl, hs, ?_, .inr ⟨hcells, m, hprinted, hm⟩⟩
    unfold own
    rw [hcells]
    unfold replace_cells
    rw [AList.lookup_insert]
    rfl

/-! ## An edit before a pull -/

/-- The app writes the file. -/
def app_write (d : Doc) (fields : SortedMap String Value) (pretty : Bool) (mtime_ms : Int) : Doc :=
  { d with file := some { text := .object fields pretty, mtime_ms := mtime_ms } }

/-- The time of an edit: that of the cell it reads as, and for a field that the
app took out the time of the write. -/
def edit_time (d : Doc) (fields : SortedMap String Value) (mtime_ms : Int) (field : String) : Int :=
  match fields.get field with
  | some raw => (normalize d.view mtime_ms field raw).t
  | none => mtime_ms

/-- A cell of another device is later than this. -/
def Outrun (d : Doc) (me field : String) (t : Int) : Prop :=
  ∃ w c, w ≠ me ∧ cell_of d w field = some c ∧ t < c.t

/-- The leading cell of a field asserts this. -/
def LeadAsserts (d : Doc) (field : String) (r : Option (Option Value)) : Prop :=
  (∃ w v t, Leads d field w (.Value v t) ∧ reading (some v) = r) ∨
    ((∀ w v t, ¬ Leads d field w (.Value v t)) ∧ r = none)

theorem leadAsserts_iff (d : Doc) (field : String) (r : Option (Option Value)) :
    LeadAsserts d field r ↔ reading ((shown d field).map Prod.fst) = r := by
  unfold LeadAsserts
  rcases hshown : shown d field with _ | ⟨v, t⟩
  · have hnone : ∀ w v t, ¬ Leads d field w (.Value v t) := by
      intro w v t hlead
      have := shown_eq_some.mpr ⟨w, hlead⟩
      rw [hshown] at this
      cases this
    constructor
    · rintro (⟨w, v, t, hlead, _⟩ | ⟨_, rfl⟩)
      · exact (hnone w v t hlead).elim
      · rfl
    · intro h
      exact .inr ⟨hnone, h.symm⟩
  · obtain ⟨w, hlead⟩ := shown_eq_some.mp hshown
    constructor
    · rintro (⟨w', v', t', hlead', rfl⟩ | ⟨hnone, _⟩)
      · have heq := (leads_unique hlead hlead').2
        cases heq
        rfl
      · exact (hnone w v t hlead).elim
    · intro h
      exact .inl ⟨w, v, t, hlead, h⟩

/-- An app edits the file after a collect; before the next one, a pull brings the
cells of a peer. The pull rewrites the file from the cells alone, so a field that
the app changed is published, or loses to a later cell of a peer, exactly when
the leading cell already asserts what the app wrote, or such a later cell is
there. -/
theorem an_edit_before_a_pull_survives_when_the_cells_already_assert_it {d : Doc} (hd : Sound d)
    (me writer : String) (edited : SortedMap String Value) (pretty : Bool)
    (mtime_ms now_ms later_ms : Int) {fields : Fields} (hfields : SoundFields fields) :
    let pulled := (replace_and_materialize true now_ms (app_write d edited pretty mtime_ms) writer
      fields).1
    let collected := (collect_one me true later_ms true pulled).1
    ∀ field, edited.get field ≠ (file_fields d).get field →
      ((content ((own collected me).get field) = reading (edited.get field) ∨
          Outrun pulled me field (edit_time d edited mtime_ms field)) ↔
        (LeadAsserts (replace_cells d writer fields) field (reading (edited.get field)) ∨
          ∃ w c, w ≠ me ∧ edit_time d edited mtime_ms field < c.t ∧
            (if w = writer then fields.get field else cell_of d w field) = some c)) := by
  intro pulled collected field _
  have hsound : Sound (app_write d edited pretty mtime_ms) := hd
  obtain ⟨d₁, m, hpass, hs₁, hcells, hprinted, hm, _⟩ := pass_sound hsound hfields now_ms writer
  have hpulled : pulled = d₁ := congrArg Prod.fst hpass
  obtain ⟨read, hread⟩ := printed_readable hprinted
  obtain ⟨d₂, out, hturn, _, hown, _⟩ := turn_sound hs₁ me later_ms true hread
  have hcollected : collected = d₂ := by
    change (collect_one me true later_ms true pulled).1 = d₂
    rw [hpulled, hturn]
  have hcontent : content ((own collected me).get field) =
      reading ((shown (replace_cells d writer fields) field).map Prod.fst) := by
    rw [hcollected, hown, collect_doc_content hread, printed_fields hprinted, hm]
    rfl
  have houtrun : Outrun pulled me field (edit_time d edited mtime_ms field) ↔
      ∃ w c, w ≠ me ∧ edit_time d edited mtime_ms field < c.t ∧
        (if w = writer then fields.get field else cell_of d w field) = some c := by
    unfold Outrun
    simp only [hpulled, cell_of_cells hcells, cell_of_replace]
    constructor
    · rintro ⟨w, c, hw, hc, hlt⟩
      exact ⟨w, c, hw, hlt, hc⟩
    · rintro ⟨w, c, hw, hlt, hc⟩
      exact ⟨w, c, hw, hc, hlt⟩
  rw [hcontent, leadAsserts_iff, houtrun]

/-! ### A note that is edited before a pull -/

def number (n : Nat) : Value := .number (.PosInt n)

def one (field : String) (v : Nat) (t : Int) : Fields :=
  tabulate [field] (fun _ => some (.Value (number v) t))

def one_raw (field : String) (v : Nat) : SortedMap String Value :=
  tabulate [field] (fun _ => some (number v))

/-- The laptop's note after a collect: its field at 1, from time 10. -/
def note : Doc :=
  { cells := (∅ : Table String Fields).insert "laptop" (one "a" 1 10), view := sorted_map.empty,
    file := some { text := .object (one_raw "a" 1) true, mtime_ms := 10 } }

/-- A check of the cells that decides soundness. -/
def Doc.sound (d : Doc) : Bool :=
  d.cells.entries.all (fun e => e.2.entries.all (fun c => !c.2.no_value))

theorem sound_of_check {d : Doc} (h : d.sound = true) : Sound d := by
  intro w field c hc
  obtain ⟨fields, hlookup, hget⟩ := Option.bind_eq_some_iff.mp hc
  have hrow := List.all_eq_true.mp h ⟨w, fields⟩ (lookup_eq_some.mp hlookup)
  have hcell := List.all_eq_true.mp hrow (field, c) (get_eq_some.mp hget)
  simpa using hcell

theorem note_sound : Sound note := sound_of_check (by decide)

theorem one_sound (field : String) (v : Nat) (t : Int) : SoundFields (one field v t) := by
  intro f c hc
  unfold one at hc
  rw [get_tabulate] at hc
  split at hc
  · cases hc
    rfl
  · cases hc

/-- The app writes 2 at time 20; the phone's object is about another field, and
yet the pull puts the 1 back, which the next collect publishes again. -/
theorem a_pull_takes_the_edit_back :
    let pulled := (replace_and_materialize true 30 (app_write note (one_raw "a" 2) true 20) "phone"
      (one "b" 5 15)).1
    let collected := (collect_one "laptop" true 40 true pulled).1
    (file_fields pulled).get "a" = some (number 1) ∧
      (own collected "laptop").get "a" = some (.Value (number 1) 10) ∧
      ¬ (content ((own collected "laptop").get "a") = reading ((one_raw "a" 2).get "a") ∨
        Outrun pulled "laptop" "a" (edit_time note (one_raw "a" 2) 20 "a")) := by
  refine ⟨by decide, by decide, ?_⟩
  rintro (h | ⟨w, c, hw, hc, _⟩)
  · exact absurd h (by decide)
  · have hcells : cell_of (replace_cells (app_write note (one_raw "a" 2) true 20) "phone"
        (one "b" 5 15)) w "a" = some c := hc
    rw [cell_of_replace] at hcells
    split at hcells
    · cases hcells
    · have hlookup : note.cells.lookup w = none := by
        unfold note
        rw [lookup_insert_if, if_neg hw]
        rfl
      have hnone : cell_of (app_write note (one_raw "a" 2) true 20) w "a" = none := by
        unfold cell_of app_write
        rw [hlookup]
        rfl
      rw [hnone] at hcells
      cases hcells

/-- The phone wrote the same 2 at time 15: the edit stays. -/
theorem the_same_edit_on_the_phone_stays :
    let pulled := (replace_and_materialize true 30 (app_write note (one_raw "a" 2) true 20) "phone"
      (one "a" 2 15)).1
    let collected := (collect_one "laptop" true 40 true pulled).1
    content ((own collected "laptop").get "a") = reading ((one_raw "a" 2).get "a") ∨
      Outrun pulled "laptop" "a" (edit_time note (one_raw "a" 2) 20 "a") := by
  have h := an_edit_before_a_pull_survives_when_the_cells_already_assert_it note_sound "laptop"
    "phone" (one_raw "a" 2) true 20 30 40 (one_sound "a" 2 15) "a" (by decide)
  exact h.mpr (.inl ((leadAsserts_iff _ _ _).mpr (by decide)))

/-! ## A tombstone over a run -/

/-- One turn of a collect for this document. A document that is neither on disk
nor published has none. -/
def turn (me : String) (now_ms : Int) (d : Doc) : Doc :=
  if d.file.isSome || !(own d me).entries.isEmpty then
    (collect_one me true now_ms d.file.isSome d).1
  else d

/-- A pulled object of a writer. -/
def pull_fields (now_ms : Int) (writer : String) (fields : Fields) (d : Doc) : Doc :=
  (replace_and_materialize true now_ms d writer fields).1

/-- The field-set has a tombstone for the field, not older than this. -/
def Buried (fields : Fields) (field : String) (since : Int) : Prop :=
  ∃ t, since ≤ t ∧ fields.get field = some (.Tomb true t)

/-- What a turn would read has the tombstone. -/
def ReadsTomb (d : Doc) (field : String) (since : Int) : Prop :=
  ∀ read, collect_doc d = .ok read → Buried (read.getD sorted_map.empty) field since

/-- No cell of another writer beats the tombstone. -/
def Unbeaten (d : Doc) (me field : String) (since : Int) : Prop :=
  ∀ w c, w ≠ me → cell_of d w field = some c → ¬ Beats (w, c) (me, .Tomb true since)

/-- The documents that a device reaches from the collect that publishes a
tombstone: by turns of collects that find it in the file, and by pulls of cells
that do not beat it. Before each step the app may have written the file. -/
inductive Tended (me field : String) (since : Int) : Doc → Prop
  | published {d : Doc} {read : Option Fields} (now_ms : Int) (hsound : Sound d)
      (hothers : Unbeaten d me field since) (hread : collect_doc d = .ok read)
      (htomb : Buried (read.getD sorted_map.empty) field since) :
      Tended me field since (turn me now_ms d)
  | collected {d : Doc} (now_ms : Int) (file : Option DocFile) (run : Tended me field since d)
      (htomb : ReadsTomb { d with file := file } field since) :
      Tended me field since (turn me now_ms { d with file := file })
  | pulled {d : Doc} (now_ms : Int) (file : Option DocFile) {writer : String} {fields : Fields}
      (run : Tended me field since d) (hwriter : writer ≠ me) (hfields : SoundFields fields)
      (hbeats : ∀ c, fields.get field = some c → ¬ Beats (writer, c) (me, .Tomb true since)) :
      Tended me field since (pull_fields now_ms writer fields { d with file := file })

/-- The device's tombstone stands, nothing beats it, and the file gives the field
no value. -/
structure Sticks (me field : String) (since : Int) (d : Doc) : Prop where
  sound : Sound d
  own : Buried (own d me) field since
  others : Unbeaten d me field since
  file : (reading ((file_fields d).get field)).join = none

theorem beats_later {w me : String} {c : Cell} {since t : Int} (ht : since ≤ t)
    (h : ¬ Beats (w, c) (me, .Tomb true since)) : ¬ Beats (w, c) (me, .Tomb true t) := by
  unfold Beats at *
  rintro (hlt | ⟨heq, hw⟩)
  · apply h
    left
    simp only [Cell.t] at *
    omega
  · simp only [Cell.t] at *
    by_cases hs : since = t
    · exact h (.inr ⟨by omega, hw⟩)
    · exact h (.inl (by omega))

/-- Under the tombstone the merge shows nothing. -/
theorem shown_buried {d : Doc} {me field : String} {since : Int}
    (hown : Buried (own d me) field since) (hothers : Unbeaten d me field since) :
    shown d field = none := by
  obtain ⟨t, ht, hget⟩ := hown
  rw [own_get] at hget
  have hlead : Leads d field me (.Tomb true t) := by
    refine ⟨hget, ?_⟩
    intro w c hc
    by_cases hw : w = me
    · subst hw
      have hsame := hget.symm.trans hc
      cases hsame
      exact beats_irrefl _
    · exact beats_later ht (hothers w c hw hc)
  unfold shown
  rw [winner_eq_some.mpr hlead]

theorem reading_of_tomb {d : Doc} {field : String} {since : Int} {read : Option Fields}
    (hread : collect_doc d = .ok read)
    (htomb : Buried (read.getD sorted_map.empty) field since) :
    (reading ((file_fields d).get field)).join = none := by
  obtain ⟨t, _, hget⟩ := htomb
  rw [← collect_doc_content hread, hget]
  rfl

/-- A turn that finds the tombstone in the file keeps it. -/
theorem turn_sticks {d : Doc} {me field : String} {since : Int} (now_ms : Int) (hsound : Sound d)
    (hothers : Unbeaten d me field since) {read : Option Fields} (hread : collect_doc d = .ok read)
    (htomb : Buried (read.getD sorted_map.empty) field since) :
    Sticks me field since (turn me now_ms d) := by
  have hfile : d.file.isSome := by
    cases read with
    | none =>
      obtain ⟨t, _, hget⟩ := htomb
      rw [Option.getD_none, get_empty] at hget
      cases hget
    | some fields =>
      obtain ⟨f, _, _, hf, _⟩ := collect_doc_get hread
      rw [hf]
      rfl
  obtain ⟨d', out, hturn, hs, hown, hstep⟩ := turn_sound hsound me now_ms d.file.isSome hread
  have hd' : turn me now_ms d = d' := by
    have hcond : (d.file.isSome || !(own d me).entries.isEmpty) = true := by
      rw [hfile]
      rfl
    unfold turn
    rw [if_pos hcond, hturn]
  rw [hd']
  have hburied : Buried (own d' me) field since := by
    rw [hown]
    exact htomb
  have hcellsUnbeaten : Unbeaten d' me field since := by
    rcases hstep with rfl | ⟨hcells, _⟩
    · exact hothers
    · intro w c hw hc
      rw [cell_of_cells hcells, cell_of_replace, if_neg hw] at hc
      exact hothers w c hw hc
  refine ⟨hs, hburied, hcellsUnbeaten, ?_⟩
  rcases hstep with rfl | ⟨hcells, m, hprinted, hm⟩
  · exact reading_of_tomb hread htomb
  · have hshown : shown d' field = none := shown_buried hburied hcellsUnbeaten
    have hsame : shown (replace_cells d me (read.getD sorted_map.empty)) field = shown d' field := by
      unfold shown winner candidates
      rw [hcells]
    rw [printed_fields hprinted, hm, hsame, hshown]
    rfl

/-- A pull of cells that do not beat the tombstone keeps it, whatever the app
wrote before. -/
theorem pull_sticks {d : Doc} {me field writer : String} {since : Int} {fields : Fields}
    (now_ms : Int) (h : Sticks me field since d) (file : Option DocFile) (hwriter : writer ≠ me)
    (hfields : SoundFields fields)
    (hbeats : ∀ c, fields.get field = some c → ¬ Beats (writer, c) (me, .Tomb true since)) :
    Sticks me field since (pull_fields now_ms writer fields { d with file := file }) := by
  have hsound : Sound { d with file := file } := h.sound
  obtain ⟨d', m, hpass, hs, hcells, hprinted, hm, _⟩ := pass_sound hsound hfields now_ms writer
  have hd' : pull_fields now_ms writer fields { d with file := file } = d' :=
    congrArg Prod.fst hpass
  rw [hd']
  have hburied : Buried (own d' me) field since := by
    obtain ⟨t, ht, hget⟩ := h.own
    refine ⟨t, ht, ?_⟩
    rw [own_get, cell_of_cells hcells, cell_of_replace, if_neg (Ne.symm hwriter)]
    rw [own_get] at hget
    exact hget
  have hothers : Unbeaten d' me field since := by
    intro w c hw hc
    rw [cell_of_cells hcells, cell_of_replace] at hc
    split at hc
    · rename_i heq
      subst heq
      exact hbeats c hc
    · exact h.others w c hw hc
  refine ⟨hs, hburied, hothers, ?_⟩
  have hshown : shown (replace_cells { d with file := file } writer fields) field =
      shown d' field := by
    unfold shown winner candidates
    rw [hcells]
  rw [printed_fields hprinted, hm, hshown, shown_buried hburied hothers]
  rfl

/-- A tombstone that a device published stands, and its file gives the field no
value, in every document that it reaches by turns of collects that find the
tombstone in the file and by pulls of cells that do not beat it. Materialising
takes the tombstone out of the file, so for such a turn the app has to write it
again. -/
theorem a_tended_tombstone_sticks {me field : String} {since : Int} {d : Doc}
    (run : Tended me field since d) :
    Buried (own d me) field since ∧ (reading ((file_fields d).get field)).join = none := by
  have hsticks : Sticks me field since d := by
    induction run with
    | published now_ms hsound hothers hread htomb =>
      exact turn_sticks now_ms hsound hothers hread htomb
    | @collected d now_ms file run htomb ih =>
      have hsound : Sound { d with file := file } := ih.sound
      have hothers : Unbeaten { d with file := file } me field since := ih.others
      rcases hread : collect_doc { d with file := file } with e | read
      · -- a text that is no object ends the turn before it changes anything
        have hfile : ∃ f, file = some f ∧ ∃ e, f.text = .invalid e := by
          unfold collect_doc at hread
          split at hread
          · cases hread
          · rename_i f hf
            split at hread
            · rename_i e' htext
              exact ⟨f, hf, e', htext⟩
            · cases hread
        obtain ⟨f, rfl, e', htext⟩ := hfile
        have hturn : turn me now_ms { d with file := some f } = { d with file := some f } := by
          unfold turn collect_one
          rw [hread]
          simp
        rw [hturn]
        refine ⟨hsound, ih.own, hothers, ?_⟩
        unfold file_fields
        rw [Option.map_some, htext]
        rfl
      · exact turn_sticks now_ms hsound hothers hread (htomb read hread)
    | pulled now_ms file run hwriter hfields hbeats ih =>
      exact pull_sticks now_ms ih file hwriter hfields hbeats
  exact ⟨hsticks.own, hsticks.file⟩

/-! ### A note that is buried -/

/-- The JSON text of an explicit tombstone. -/
def tomb_raw (t : Nat) : Value :=
  .object [("d", .bool true), ("t", .number (.PosInt t))]

/-- The app buries the field at time 20; the phone has an older value. -/
def buried_note : Doc :=
  { cells := (∅ : Table String Fields).insert "phone" (one "a" 1 3), view := sorted_map.empty,
    file := some
      { text := .object (tabulate ["a"] (fun _ => some (tomb_raw 20))) true, mtime_ms := 20 } }

/-- The second collect withdraws the tombstone that the first one published, and
the phone's older value comes back into the file. -/
theorem the_second_collect_digs_the_field_up :
    let first := turn "laptop" 30 buried_note
    let second := turn "laptop" 40 first
    (own first "laptop").get "a" = some (.Tomb true 20) ∧
      (own second "laptop").get "a" = none ∧
      (file_fields second).get "a" = some (number 1) := by
  decide

theorem the_first_collect_buries_the_field :
    Buried (own (turn "laptop" 30 buried_note) "laptop") "a" 20 ∧
      (reading ((file_fields (turn "laptop" 30 buried_note)).get "a")).join = none := by
  have hothers : Unbeaten buried_note "laptop" "a" 20 := by
    intro w c hw hc
    obtain ⟨fields, hlookup, hget⟩ := Option.bind_eq_some_iff.mp hc
    unfold buried_note at hlookup
    dsimp only at hlookup
    rw [lookup_insert_if] at hlookup
    split at hlookup
    · cases hlookup
      unfold one at hget
      rw [get_tabulate] at hget
      cases hget
      subst w
      decide
    · cases hlookup
  have hread : collect_doc buried_note =
      .ok (some (tabulate ["a"] (fun _ => some (.Tomb true 20)))) := by decide
  exact a_tended_tombstone_sticks (.published 30 (sound_of_check (by decide)) hothers hread
    ⟨20, by omega, by decide⟩)

end pai_sync.crdt
