-- What a merge of cells says: each field goes to its leading cell, and a pass over
-- a document leaves a file that shows just that.
import PersonalAi.CrdtDocs

open pai_core json table sorted_map

namespace pai_sync.crdt

/-- The cell of a writer for a field. -/
def cell_of (d : Doc) (writer field : String) : Option Cell :=
  (d.cells.lookup writer).bind (fun fields => fields.get field)

/-- The cell of this writer leads the field: no other cell of it beats this one. -/
def Leads (d : Doc) (field writer : String) (c : Cell) : Prop :=
  cell_of d writer field = some c ∧
    ∀ w' c', cell_of d w' field = some c' → ¬ Beats (w', c') (writer, c)

theorem mem_candidates {d : Doc} {field w : String} {c : Cell} :
    (w, c) ∈ candidates d field ↔ cell_of d w field = some c := by
  unfold candidates cell_of
  rw [List.mem_filterMap, Option.bind_eq_some_iff]
  constructor
  · rintro ⟨e, he, heq⟩
    obtain ⟨c', hc', hpair⟩ := Option.map_eq_some_iff.mp heq
    cases hpair
    exact ⟨e.2, lookup_eq_some.mpr he, hc'⟩
  · rintro ⟨fields, hlookup, hget⟩
    exact ⟨⟨w, fields⟩, lookup_eq_some.mp hlookup, by rw [hget]; rfl⟩

/-! ## The leading cell -/

theorem beats_trans {a b c : String × Cell} (hab : Beats a b) (hbc : Beats b c) : Beats a c := by
  unfold Beats at *
  rcases hab with hab | ⟨hab, hw⟩
  · rcases hbc with hbc | ⟨hbc, _⟩
    · left; omega
    · left; omega
  · rcases hbc with hbc | ⟨hbc, hw'⟩
    · left; omega
    · exact .inr ⟨by omega, lt_trans hw hw'⟩

theorem beats_irrefl (a : String × Cell) : ¬ Beats a a := by
  unfold Beats
  rintro (h | ⟨_, h⟩)
  · omega
  · exact lt_irrefl _ h

/-- Of two cells of different writers one beats the other. -/
theorem beats_total {a b : String × Cell} (hw : a.1 ≠ b.1) : Beats a b ∨ Beats b a := by
  unfold Beats
  rcases lt_trichotomy a.2.t b.2.t with h | h | h
  · exact .inr (.inl h)
  · rcases lt_or_gt_of_ne hw with hlt | hlt
    · exact .inl (.inr ⟨h, hlt⟩)
    · exact .inr (.inr ⟨h.symm, hlt⟩)
  · exact .inl (.inl h)

theorem first_of_isSome {l : List (String × Cell)} (h : l ≠ []) : (first_of l).isSome := by
  cases l with
  | nil => exact (h rfl).elim
  | cons a rest =>
    unfold first_of
    split
    · rfl
    · split <;> rfl

theorem first_of_spec {l : List (String × Cell)} {a : String × Cell} (h : first_of l = some a) :
    a ∈ l ∧ ∀ b ∈ l, ¬ Beats b a := by
  induction l generalizing a with
  | nil => cases h
  | cons x rest ih =>
    unfold first_of at h
    split at h
    · rename_i hnone
      cases h
      have hrest : rest = [] := by
        by_contra hne
        have := first_of_isSome hne
        rw [hnone] at this
        cases this
      subst hrest
      simp [beats_irrefl]
    · rename_i b hb
      obtain ⟨hmem, hbest⟩ := ih hb
      split at h
      · rename_i hbx
        cases h
        refine ⟨List.mem_cons_of_mem _ hmem, ?_⟩
        intro y hy
        rcases List.mem_cons.mp hy with rfl | hy
        · exact fun hyb => beats_irrefl _ (beats_trans hyb hbx)
        · exact hbest y hy
      · rename_i hbx
        cases h
        refine ⟨List.mem_cons_self, ?_⟩
        intro y hy
        rcases List.mem_cons.mp hy with rfl | hy
        · exact beats_irrefl _
        · intro hyx
          -- `y` beats `x`, and `b` does not: so `y` is not `b`'s writer, and beats it too
          by_cases hw : y.1 = b.1
          · unfold Beats at hyx hbx hbest
            have := hbest y hy
            rw [hw] at hyx this
            rcases hyx with hyx | ⟨hyx, hlt⟩
            · apply this
              left
              omega
            · exact hbx (by
                rcases lt_trichotomy b.2.t y.2.t with h | h | h
                · exact absurd (.inl h) this
                · exact .inr ⟨by omega, hlt⟩
                · exact .inl (by omega))
          · rcases beats_total hw with hyb | hby
            · exact hbest y hy hyb
            · exact hbx (beats_trans hby hyx)

/-- At most one cell leads. -/
theorem leads_unique {d : Doc} {field w w' : String} {c c' : Cell} (h : Leads d field w c)
    (h' : Leads d field w' c') : w = w' ∧ c = c' := by
  by_cases hw : w = w'
  · subst hw
    have := h.1.symm.trans h'.1
    exact ⟨rfl, by injection this⟩
  · rcases beats_total (a := (w, c)) (b := (w', c')) hw with hb | hb
    · exact (h'.2 w c h.1 hb).elim
    · exact (h.2 w' c' h'.1 hb).elim

theorem winner_eq_some {d : Doc} {field w : String} {c : Cell} :
    winner d field = some (w, c) ↔ Leads d field w c := by
  have hforward : ∀ w c, winner d field = some (w, c) → Leads d field w c := by
    intro w c h
    obtain ⟨hmem, hbest⟩ := first_of_spec h
    exact ⟨mem_candidates.mp hmem, fun w' c' hc' => hbest _ (mem_candidates.mpr hc')⟩
  refine ⟨hforward w c, ?_⟩
  intro h
  have hne : candidates d field ≠ [] := by
    intro hnil
    have := mem_candidates.mpr h.1
    rw [hnil] at this
    cases this
  obtain ⟨⟨w', c'⟩, hwin⟩ := Option.isSome_iff_exists.mp (first_of_isSome hne)
  have hwin : winner d field = some (w', c') := hwin
  obtain ⟨rfl, rfl⟩ := leads_unique h (hforward w' c' hwin)
  exact hwin

theorem shown_eq_some {d : Doc} {field : String} {v : Value} {t : Int} :
    shown d field = some (v, t) ↔ ∃ w, Leads d field w (.Value v t) := by
  unfold shown
  constructor
  · intro h
    split at h
    · rename_i w v' t' hwin
      cases h
      exact ⟨w, winner_eq_some.mp hwin⟩
    · cases h
  · rintro ⟨w, h⟩
    rw [winner_eq_some.mpr h]

theorem mem_all_fields {d : Doc} {field : String} :
    field ∈ all_fields d ↔ ∃ w c, cell_of d w field = some c := by
  unfold all_fields cell_of
  rw [List.mem_flatMap]
  constructor
  · rintro ⟨e, he, hkey⟩
    obtain ⟨c, hc⟩ := Option.isSome_iff_exists.mp (mem_keys.mp hkey)
    exact ⟨e.1, c, by rw [lookup_eq_some.mpr he]; exact hc⟩
  · rintro ⟨w, c, h⟩
    obtain ⟨fields, hlookup, hget⟩ := Option.bind_eq_some_iff.mp h
    exact ⟨⟨w, fields⟩, lookup_eq_some.mp hlookup, mem_keys.mpr (by rw [hget]; rfl)⟩

/-! ## Sound cells -/

/-- Every cell is a value or a tombstone: what a collect publishes is. -/
def Sound (d : Doc) : Prop := ∀ w field c, cell_of d w field = some c → c.no_value = false

def SoundFields (fields : Fields) : Prop :=
  ∀ field c, fields.get field = some c → c.no_value = false

theorem cell_of_replace (d : Doc) (writer : String) (fields : Fields) (w field : String) :
    cell_of (replace_cells d writer fields) w field =
      if w = writer then fields.get field else cell_of d w field := by
  unfold cell_of replace_cells
  rw [lookup_insert_if]
  split <;> rfl

theorem own_get (d : Doc) (me field : String) : (own d me).get field = cell_of d me field := by
  unfold own cell_of
  cases d.cells.lookup me <;> rfl

theorem sound_replace {d : Doc} (h : Sound d) {fields : Fields} (hf : SoundFields fields)
    (writer : String) : Sound (replace_cells d writer fields) := by
  intro w field c hc
  rw [cell_of_replace] at hc
  split at hc
  · exact hf field c hc
  · exact h w field c hc

theorem as_cell_sound {raw : Value} {c : Cell} (h : as_cell raw = some c) : c.no_value = false := by
  unfold as_cell at h
  split at h
  · cases h
    rfl
  · cases h
    rfl
  · cases h

theorem normalize_sound (view : SortedMap String (Value × Int)) (mtime_ms : Int) (field : String)
    (raw : Value) : (normalize view mtime_ms field raw).no_value = false := by
  unfold normalize
  split
  · rename_i c hc
    exact as_cell_sound hc
  · split <;> rfl

theorem collect_doc_get {d : Doc} {fields : Fields} (h : collect_doc d = .ok (some fields)) :
    ∃ f raw pretty, d.file = some f ∧ f.text = .object raw pretty ∧
      ∀ field, fields.get field = (raw.get field).map (normalize d.view f.mtime_ms field) := by
  unfold collect_doc at h
  split at h
  · cases h
  · rename_i f hfile
    split at h
    · cases h
    · rename_i raw pretty htext
      cases h
      refine ⟨f, raw, pretty, hfile, htext, ?_⟩
      intro field
      rw [get_filterMap]
      cases raw.get field <;> rfl

theorem collect_doc_sound {d : Doc} {read : Option Fields} (h : collect_doc d = .ok read) :
    SoundFields (read.getD sorted_map.empty) := by
  cases read with
  | none =>
    intro field c hc
    rw [Option.getD_none, get_empty] at hc
    cases hc
  | some fields =>
    intro field c hc
    obtain ⟨f, raw, pretty, _, _, hget⟩ := collect_doc_get h
    rw [Option.getD_some, hget] at hc
    obtain ⟨r, _, rfl⟩ := Option.map_eq_some_iff.mp hc
    exact normalize_sound _ _ _ _

/-- Sound cells always merge, and each field shows its leading value. -/
theorem winners_sound {d : Doc} (h : Sound d) :
    ∃ merged, winners d = .ok merged ∧ ∀ field, merged.get field = shown d field := by
  have hok : (all_fields d).any (missing_value d) = false := by
    rw [List.any_eq_false]
    intro field _
    unfold missing_value
    split
    · rename_i w t hwin
      have := h w field _ (winner_eq_some.mp hwin).1
      cases this
    · decide
  refine ⟨tabulate (all_fields d) (shown d), by unfold winners; rw [hok]; rfl, ?_⟩
  intro field
  rw [get_tabulate]
  split
  · rfl
  · rename_i hnot
    symm
    rw [Option.eq_none_iff_forall_not_mem]
    rintro ⟨v, t⟩ hshown
    obtain ⟨w, hw⟩ := shown_eq_some.mp hshown
    exact hnot (mem_all_fields.mpr ⟨w, _, hw.1⟩)

theorem our_cells_sound {d : Doc} (h : Sound d) (me : String) : our_cells d me = .ok (own d me) := by
  have hok : (own d me).entries.any (fun e => e.2.no_value) = false := by
    rw [List.any_eq_false]
    rintro ⟨field, c⟩ hmem
    have hc := get_eq_some.mpr hmem
    rw [own_get] at hc
    rw [h me field c hc]
    decide
  unfold our_cells
  rw [hok]
  rfl

/-! ## Materialising -/

/-- The object in the file, empty where there is none. -/
def file_fields (d : Doc) : SortedMap String Value :=
  match d.file.map DocFile.text with
  | some (.object fields _) => fields
  | _ => sorted_map.empty

theorem file_fields_of {d : Doc} {f : DocFile} {raw : SortedMap String Value} {pretty : Bool}
    (hfile : d.file = some f) (htext : f.text = .object raw pretty) : file_fields d = raw := by
  unfold file_fields
  rw [hfile, Option.map_some, htext]

/-- The file holds this object, in the bytes that `materialize` writes. -/
def Printed (d : Doc) (fields : SortedMap String Value) : Prop :=
  d.file.map DocFile.text = some (.object fields true)

theorem printed_fields {d : Doc} {fields : SortedMap String Value} (h : Printed d fields) :
    file_fields d = fields := by
  unfold file_fields
  rw [h]

theorem printed_readable {d : Doc} {fields : SortedMap String Value} (h : Printed d fields) :
    ∃ read, collect_doc d = .ok (some read) := by
  obtain ⟨f, hfile, htext⟩ := Option.map_eq_some_iff.mp h
  unfold collect_doc
  rw [hfile]
  dsimp only
  rw [htext]
  exact ⟨_, rfl⟩

/-- Materialising leaves the cells alone, and a file that shows the leading
values. -/
theorem materialize_sound {d : Doc} (h : Sound d) (now_ms : Int) :
    ∃ d' m, materialize true now_ms d = .ok d' ∧ d'.cells = d.cells ∧ Printed d' m ∧
      (∀ field, m.get field = (shown d field).map Prod.fst) ∧
      (d' = d ∨ (∀ field, d'.view.get field = shown d field) ∧
        d'.file.map DocFile.mtime_ms = some now_ms) := by
  obtain ⟨merged, hmerged, hget⟩ := winners_sound h
  have hplain : ∀ field, (plain merged).get field = (shown d field).map Prod.fst := by
    intro field
    unfold plain
    rw [get_filterMap, hget]
    cases shown d field <;> rfl
  unfold materialize
  rw [hmerged]
  dsimp only
  by_cases hsame : d.file.map DocFile.text = some (.object (plain merged) true)
  · rw [if_pos hsame]
    exact ⟨d, _, rfl, rfl, hsame, hplain, .inl rfl⟩
  · rw [if_neg hsame]
    exact ⟨_, _, rfl, rfl, rfl, hplain, .inr ⟨hget, rfl⟩⟩

theorem cell_of_cells {d d' : Doc} (h : d'.cells = d.cells) (w field : String) :
    cell_of d' w field = cell_of d w field := by
  unfold cell_of
  rw [h]

theorem sound_cells {d d' : Doc} (h : d'.cells = d.cells) (hs : Sound d) : Sound d' := by
  intro w field c hc
  rw [cell_of_cells h] at hc
  exact hs w field c hc

/-- One pass over a sound document: the cells of one writer change, and the file
shows the leading values of the new cells. -/
theorem pass_sound {d : Doc} (h : Sound d) {fields : Fields} (hf : SoundFields fields)
    (now_ms : Int) (writer : String) :
    ∃ d' m, replace_and_materialize true now_ms d writer fields = (d', .ok ()) ∧ Sound d' ∧
      d'.cells = (replace_cells d writer fields).cells ∧ Printed d' m ∧
      (∀ field, m.get field = (shown (replace_cells d writer fields) field).map Prod.fst) ∧
      (d' = replace_cells d writer fields ∨
        (∀ field, d'.view.get field = shown (replace_cells d writer fields) field) ∧
        d'.file.map DocFile.mtime_ms = some now_ms) := by
  have hs := sound_replace h hf writer
  obtain ⟨d', m, hok, hcells, hprinted, hm, hview⟩ := materialize_sound hs now_ms
  refine ⟨d', m, ?_, sound_cells hcells hs, hcells, hprinted, hm, hview⟩
  unfold replace_and_materialize
  dsimp only
  rw [hok]

end pai_sync.crdt
