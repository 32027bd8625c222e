-- Documents that one device alone writes: a collect and a materialize leave the plain values as the
-- app wrote them, and take every value that reads as a cell apart.
import PersonalAi.CrdtReadable
import PersonalAi.CrdtShipping
import PersonalAi.CrdtTimes

open pai_core json table sorted_map

namespace pai_sync.crdt

/-! ## One writer -/

/-- All cells are those of this device. -/
def SoleWriter (me : String) (d : Doc) : Prop := ∀ w field c, cell_of d w field = some c → w = me

/-- The file shows this object, and a collect would read of it just what is recorded. -/
structure Kept (me : String) (raw : SortedMap String Value) (d : Doc) : Prop where
  sole : SoleWriter me d
  sound : Sound d
  shows : ∃ f pretty, d.file = some f ∧ f.text = .object raw pretty
  reads : collect_doc d = .ok (some (own d me))

theorem SoleWriter.cells {me : String} {d d' : Doc} (h : SoleWriter me d)
    (hcells : d'.cells = d.cells) : SoleWriter me d' := by
  intro w field c hc
  rw [cell_of_cells hcells] at hc
  exact h w field c hc

theorem SoleWriter.replace {me : String} {d : Doc} (h : SoleWriter me d) (fields : Fields) :
    SoleWriter me (replace_cells d me fields) := by
  intro w field c hc
  rw [cell_of_replace] at hc
  split at hc
  · assumption
  · exact h w field c hc

/-- Where one device writes alone, its own cell is what a field shows. -/
theorem shown_sole {me : String} {d : Doc} (h : SoleWriter me d) {field : String} {v : Value}
    {t : Int} : shown d field = some (v, t) ↔ (own d me).get field = some (.Value v t) := by
  rw [shown_eq_some, own_get]
  constructor
  · rintro ⟨w, hcell, -⟩
    rw [← h w field _ hcell]
    exact hcell
  · intro hcell
    refine ⟨me, hcell, ?_⟩
    intro w c hc hbeats
    obtain rfl := h w field c hc
    obtain rfl := Option.some.inj (hc.symm.trans hcell)
    exact beats_irrefl _ hbeats

/-- A plain value is normalised to a cell with this value. -/
theorem normalize_plain {view : SortedMap String (Value × Int)} {mtime_ms : Int} {field : String}
    {v : Value} (h : as_cell v = none) : ∃ t, normalize view mtime_ms field v = .Value v t := by
  unfold normalize
  rw [h]
  cases view.get field with
  | none => exact ⟨_, rfl⟩
  | some e => exact ⟨_, rfl⟩

theorem normalize_row {view : SortedMap String (Value × Int)} {mtime_ms : Int} {field : String}
    {v : Value} {t : Int} (h : as_cell v = none) (hrow : view.get field = some (v, t)) :
    normalize view mtime_ms field v = .Value v t := by
  unfold normalize
  rw [h, hrow]
  simp

/-! ## Plain documents -/

/-- What is recorded of a plain document is its values. -/
theorem Kept.own_get {me : String} {raw : SortedMap String Value} {d : Doc} (h : Kept me raw d)
    (hplain : PlainValues raw) (field : String) :
    (raw.get field = none ∧ (own d me).get field = none) ∨
      ∃ v t, raw.get field = some v ∧ (own d me).get field = some (.Value v t) := by
  obtain ⟨f, raw', pretty', hfile', htext', hget⟩ := collect_doc_get h.reads
  obtain ⟨g, pretty, hfile, htext⟩ := h.shows
  obtain rfl : g = f := Option.some.inj (hfile.symm.trans hfile')
  obtain ⟨rfl, -⟩ : raw = raw' ∧ pretty = pretty' := by
    have := htext.symm.trans htext'
    cases this
    exact ⟨rfl, rfl⟩
  cases hraw : raw.get field with
  | none => exact .inl ⟨rfl, by rw [hget, hraw]; rfl⟩
  | some v =>
    obtain ⟨t, ht⟩ := normalize_plain (hplain field v hraw)
    exact .inr ⟨v, t, rfl, by rw [hget, hraw, Option.map_some, ht]⟩

theorem Kept.materialize {me : String} {raw : SortedMap String Value} {d d' : Doc}
    (h : Kept me raw d) (hplain : PlainValues raw) {now_ms : Int}
    (hok : materialize true now_ms d = .ok d') : Kept me raw d' := by
  obtain ⟨merged, hmerged, hget⟩ := winners_sound h.sound
  have hraw : plain merged = raw := by
    apply ext_get
    intro field
    unfold plain
    rw [get_filterMap, hget]
    rcases h.own_get hplain field with ⟨hnone, hown⟩ | ⟨v, t, hsome, hown⟩
    · rw [hnone]
      cases hshown : shown d field with
      | none => rfl
      | some e =>
        rw [(shown_sole h.sole).mp hshown] at hown
        cases hown
    · rw [hsome, (shown_sole h.sole).mpr hown]
      rfl
  unfold crdt.materialize at hok
  rw [hmerged] at hok
  simp only [Bool.not_true, Bool.false_eq_true, if_false, hraw] at hok
  split at hok
  · cases hok
    exact h
  · cases hok
    refine ⟨h.sole.cells rfl, sound_cells rfl h.sound, ⟨_, true, rfl, rfl⟩, ?_⟩
    unfold collect_doc
    simp only [Except.ok.injEq, Option.some.injEq]
    apply ext_get
    intro field
    rw [get_filterMap]
    rcases h.own_get hplain field with ⟨hnone, hown⟩ | ⟨v, t, hsome, hown⟩
    · rw [hnone]
      exact hown.symm
    · have hrow : merged.get field = some (v, t) := by rw [hget, (shown_sole h.sole).mpr hown]
      rw [hsome, Option.bind_some, normalize_row (hplain field v hsome) hrow]
      exact hown.symm

/-- A turn finds nothing new where the document is kept. -/
theorem Kept.turn {me : String} {raw : SortedMap String Value} {d : Doc} (h : Kept me raw d)
    (now_ms : Int) : collect_one me true now_ms true d = (d, .ok none) := by
  unfold collect_one unchanged
  rw [h.reads]
  simp [our_cells_sound h.sound, Except.map]

/-- A turn over a document that one device writes: either the file reads as what is recorded, or it
is recorded anew and written from that. -/
theorem sole_turn {me : String} {d d' : Doc} {f : DocFile} {raw : SortedMap String Value}
    {pretty : Bool} {now_ms : Int} {out : Option Published} (hsole : SoleWriter me d)
    (hfile : d.file = some f) (htext : f.text = .object raw pretty)
    (hturn : collect_one me true now_ms true d = (d', .ok out)) :
    ∃ recorded, Kept me raw recorded ∧
      (d' = recorded ∨ materialize true now_ms recorded = .ok d') := by
  obtain ⟨fields, hread⟩ : ∃ fields, collect_doc d = .ok (some fields) := by
    unfold collect_doc
    rw [hfile]
    dsimp only
    rw [htext]
    exact ⟨_, rfl⟩
  have hreads : ∀ c : Doc, c.file = d.file → c.view = d.view → collect_doc c = .ok (some fields) := by
    intro c hcfile hcview
    rw [← hread]
    unfold collect_doc
    rw [hcfile, hcview]
  unfold collect_one unchanged at hturn
  rw [hread] at hturn
  simp only [Option.getD_some, if_true] at hturn
  rcases hours : our_cells d me with e | ours
  · simp [hours, Except.map] at hturn
  · rw [hours] at hturn
    obtain rfl := our_cells_ok hours
    have hown := our_cells_ok_iff.mp ⟨_, hours⟩
    by_cases hsame : fields = own d me
    · simp only [Except.map, hsame, decide_true] at hturn
      cases hturn
      refine ⟨d, ⟨hsole, ?_, ⟨f, pretty, hfile, htext⟩, by rw [hread, hsame]⟩, .inl rfl⟩
      intro w field c hc
      obtain rfl := hsole w field c hc
      exact hown field c hc
    · simp only [Except.map, hsame, decide_false] at hturn
      unfold replace_and_materialize at hturn
      dsimp only at hturn
      have hnew := hsole.replace fields
      refine ⟨replace_cells d me fields, ⟨hnew, ?_, ⟨f, pretty, hfile, htext⟩, ?_⟩, ?_⟩
      · intro w field c hc
        obtain rfl := hnew w field c hc
        rw [cell_of_replace, if_pos rfl] at hc
        exact collect_doc_sound hread field c hc
      · rw [own_replace]
        exact hreads _ rfl rfl
      · right
        split at hturn
        · rename_i hpass
          cases hturn
        · rename_i hpass
          cases hturn
          split at hpass
          · cases hpass
            assumption
          · cases hpass

/-- So the document is kept where its values are plain. -/
theorem plain_turn {me : String} {d d' : Doc} {f : DocFile} {raw : SortedMap String Value}
    {pretty : Bool} {now_ms : Int} {out : Option Published} (hsole : SoleWriter me d)
    (hfile : d.file = some f) (htext : f.text = .object raw pretty) (hplain : PlainValues raw)
    (hturn : collect_one me true now_ms true d = (d', .ok out)) : Kept me raw d' := by
  obtain ⟨recorded, hkept, rfl | hmaterialize⟩ := sole_turn hsole hfile htext hturn
  · exact hkept
  · exact hkept.materialize hplain hmaterialize

theorem Kept.turns {me : String} {raw : SortedMap String Value} {d : Doc} (h : Kept me raw d)
    (now_ms : Int) (n : Nat) : take_turns me true now_ms true n d = (d, .ok []) := by
  induction n with
  | zero => rfl
  | succ n ih =>
    rw [take_turns_succ, h.turn]
    dsimp only
    rw [ih]
    rfl

/-! ## Values that read as cells -/

/-- The value of a cell is a part of what reads as the cell. -/
theorem as_cell_part {raw w : Value} {c : Cell} (h : as_cell raw = some c) (hw : c.value = some w) :
    sizeOf w < sizeOf raw := by
  have hpart : raw.get "v" = some w := by
    unfold as_cell at h
    split at h
    · rename_i hv _
      cases h
      cases hw
      exact hv
    · cases h
      cases hw
    · cases h
  cases raw with
  | object fields =>
    obtain ⟨before, after, hfields, -⟩ := List.lookup_eq_some_iff.mp hpart
    have hmem : ("v", w) ∈ fields := by rw [hfields]; simp
    have hlt := List.sizeOf_lt_of_mem hmem
    simp only [Prod.mk.sizeOf_spec, Value.object.sizeOf_spec] at hlt ⊢
    omega
  | _ => cases hpart

/-- The field shows this value or a part of it, and a part of it is recorded. -/
structure Eaten (me field : String) (v : Value) (d : Doc) : Prop where
  sole : SoleWriter me d
  sound : Sound d
  shows : ∃ f raw pretty, d.file = some f ∧ f.text = .object raw pretty ∧
    ∀ w, raw.get field = some w → w = v ∨ sizeOf w < sizeOf v
  recorded : ∀ w t, (own d me).get field = some (.Value w t) → sizeOf w < sizeOf v

/-- Materialising a document writes what is recorded. -/
theorem Eaten.materialize {me field : String} {v : Value} {d d' : Doc} (h : Eaten me field v d)
    {now_ms : Int} (hok : materialize true now_ms d = .ok d') :
    Eaten me field v d' ∧ ∀ w, (file_fields d').get field = some w → sizeOf w < sizeOf v := by
  obtain ⟨d'', m, hok', hcells, hprinted, hm, -⟩ := materialize_sound h.sound now_ms
  obtain rfl : d'' = d' := Except.ok.inj (hok'.symm.trans hok)
  have hpart : ∀ w, m.get field = some w → sizeOf w < sizeOf v := by
    intro w hw
    rw [hm] at hw
    obtain ⟨⟨w', t⟩, hshown, rfl⟩ := Option.map_eq_some_iff.mp hw
    exact h.recorded w' t ((shown_sole h.sole).mp hshown)
  obtain ⟨f, hfile, htext⟩ := Option.map_eq_some_iff.mp hprinted
  refine ⟨⟨h.sole.cells hcells, sound_cells hcells h.sound,
    ⟨f, m, true, hfile, htext, fun w hw => .inr (hpart w hw)⟩, ?_⟩, ?_⟩
  · rw [own_cells hcells]
    exact h.recorded
  · rw [printed_fields hprinted]
    exact hpart

/-- A turn over a document that shows a value which reads as a cell, or a part of it. -/
theorem eating_turn {me field : String} {v : Value} {d d' : Doc} {f : DocFile}
    {raw : SortedMap String Value} {pretty : Bool} {now_ms : Int} {out : Option Published}
    (hsole : SoleWriter me d) (hfile : d.file = some f) (htext : f.text = .object raw pretty)
    (hraw : ∀ w, raw.get field = some w → w = v ∨ sizeOf w < sizeOf v) (hcell : as_cell v ≠ none)
    (hturn : collect_one me true now_ms true d = (d', .ok out)) : Eaten me field v d' := by
  obtain ⟨recorded, hkept, hcases⟩ := sole_turn hsole hfile htext hturn
  have heaten : Eaten me field v recorded := by
    obtain ⟨g, pretty', hgfile, hgtext⟩ := hkept.shows
    refine ⟨hkept.sole, hkept.sound, ⟨g, raw, pretty', hgfile, hgtext, hraw⟩, ?_⟩
    intro w t hown
    obtain ⟨g', raw', pretty'', hgfile', hgtext', hget⟩ := collect_doc_get hkept.reads
    obtain rfl : g = g' := Option.some.inj (hgfile.symm.trans hgfile')
    obtain ⟨rfl, -⟩ := DocText.object.inj (hgtext.symm.trans hgtext')
    rw [hget] at hown
    obtain ⟨r, hr, hnormal⟩ := Option.map_eq_some_iff.mp hown
    cases hc : as_cell r with
    | some c =>
      have hpart : sizeOf w < sizeOf r := by
        unfold normalize at hnormal
        rw [hc] at hnormal
        dsimp only at hnormal
        exact as_cell_part hc (by rw [hnormal]; rfl)
      rcases hraw r hr with rfl | hlt
      · exact hpart
      · omega
    | none =>
      obtain ⟨t', ht'⟩ := normalize_plain hc
      rw [ht'] at hnormal
      cases hnormal
      rcases hraw _ hr with rfl | hlt
      · exact absurd hc hcell
      · exact hlt
  rcases hcases with rfl | hmaterialize
  · exact heaten
  · exact (heaten.materialize hmaterialize).1

theorem Eaten.turns {me field : String} {v : Value} {d d' : Doc} (h : Eaten me field v d)
    (hcell : as_cell v ≠ none) {now_ms : Int} {n : Nat} {outs : List Published}
    (hturns : take_turns me true now_ms true n d = (d', .ok outs)) : Eaten me field v d' := by
  induction n generalizing d outs with
  | zero =>
    cases hturns
    exact h
  | succ n ih =>
    rw [take_turns_succ] at hturns
    obtain ⟨f, raw, pretty, hfile, htext, hraw⟩ := h.shows
    rcases hone : collect_one me true now_ms true d with ⟨d₁, e | out⟩
    · rw [hone] at hturns
      cases hturns
    · rw [hone] at hturns
      dsimp only at hturns
      have hfirst := eating_turn h.sole hfile htext hraw hcell hone
      rcases hrest : take_turns me true now_ms true n d₁ with ⟨d₂, e | more⟩
      · rw [hrest] at hturns
        cases hturns
      · rw [hrest] at hturns
        cases hturns
        exact ih hfirst hrest

/-! ## Collecting, materialising and collecting again -/

/-- The two keys of a cell and no others. -/
def ExactCell (v : Value) : Prop :=
  as_cell v ≠ none ∧ ∃ fields, v = .object fields ∧ fields.length = 2

section Collects
variable {me app_id doc : String} {inst : String → Bool} {apps : List String} {st st₁ st₃ : Docs}
  {out₁ out₂ : List Collected} {now₁ now₂ now₃ : Int} {d₂ : Doc}

/-- The turns of a document that is on disk, the first one apart. -/
theorem first_turn {d d' : Doc} {outs : List Published} {now_ms : Int}
    (hpresent : is_present doc d = true)
    (h : take_turns me true now_ms (is_present doc d) (turns_of me doc d) d = (d', .ok outs)) :
    ∃ d₁ out n more, collect_one me true now_ms true d = (d₁, .ok out) ∧
      take_turns me true now_ms true n d₁ = (d', .ok more) := by
  unfold turns_of at h
  rw [hpresent, if_pos rfl, Nat.add_comm, take_turns_succ] at h
  rcases hone : collect_one me true now_ms true d with ⟨d₁, e | out⟩
  · rw [hone] at h
    cases h
  · rw [hone] at h
    dsimp only at h
    rcases hrest : take_turns me true now_ms true (if is_published me d = true then 1 else 0) d₁ with
      ⟨d₂, e | more⟩
    · rw [hrest] at h
      cases h
    · rw [hrest] at h
      cases h
      exact ⟨d₁, out, _, more, rfl, hrest⟩

/-- **Collecting leaves a document as the app wrote it exactly where none of its values reads as a
cell.** The collect goes over all documents of all apps, then this one is materialised, and the
collect is made again. -/
theorem collecting_keeps_the_document_iff (happs : apps.Nodup) (happ : app_id ∈ apps)
    (hinst : inst app_id = true) (hname : doc_name_ok doc = true) {f : DocFile}
    {raw : SortedMap String Value} {pretty : Bool} (hsole : SoleWriter me (doc_of st app_id doc))
    (hfile : (doc_of st app_id doc).file = some f) (htext : f.text = .object raw pretty)
    (h₁ : collect me inst now₁ st apps = (st₁, .ok out₁))
    (h₂ : materialize true now₂ (doc_of st₁ app_id doc) = .ok d₂)
    (h₃ : collect me inst now₃ (st₁.insert (app_id, doc) d₂) apps = (st₃, .ok out₂)) :
    (file_fields d₂ = raw ∧ outs_of out₂ app_id doc = []) ↔
      ∀ field v, raw.get field = some v → as_cell v = none := by
  have hturns := (collect_spec happs h₁ app_id doc).1 happ
  rw [hinst] at hturns
  have hpresent : is_present doc (doc_of st app_id doc) = true := by
    unfold is_present
    rw [hname, hfile]
    rfl
  obtain ⟨d₁, out, n, more, hone, hrest⟩ := first_turn hpresent hturns
  constructor
  · rintro ⟨hkept, -⟩ field v hv
    by_contra hcell
    have hfirst := eating_turn hsole hfile htext
      (fun w hw => .inl (Option.some.inj (hw.symm.trans hv))) hcell hone
    obtain ⟨-, hpart⟩ := (hfirst.turns hcell hrest).materialize h₂
    rw [hkept] at hpart
    exact absurd (hpart v hv) (Nat.lt_irrefl _)
  · intro hplain
    have hfirst := plain_turn hsole hfile htext hplain hone
    rw [hfirst.turns now₁ n] at hrest
    obtain ⟨rfl, -⟩ := Prod.mk.inj hrest
    have hkept := hfirst.materialize hplain h₂
    obtain ⟨g, pretty', hgfile, hgtext⟩ := hkept.shows
    refine ⟨file_fields_of hgfile hgtext, ?_⟩
    have hagain := (collect_spec happs h₃ app_id doc).1 happ
    rw [doc_of_insert, if_pos rfl, hinst] at hagain
    rw [turns_settled hagain]
    unfold Settled is_present
    rw [hname, hgfile]
    exact hkept.reads

end Collects

/-! ### A list with one item -/

/-- The store of a desk computer with a list that the app wrote just now. -/
def listed (raw : SortedMap String Value) : Docs :=
  (∅ : Docs).insert ("notes", "list")
    { cells := ∅, view := sorted_map.empty,
      file := some { text := .object raw false, mtime_ms := 10 } }

theorem listed_sole (raw : SortedMap String Value) :
    SoleWriter "desk" (doc_of (listed raw) "notes" "list") := by
  intro w field c hc
  unfold listed at hc
  rw [doc_of_insert, if_pos rfl] at hc
  cases hc

/-- The two collects of the list, and what is materialised between them. -/
def first_collect (raw : SortedMap String Value) : Docs :=
  (collect "desk" (fun _ => true) 20 (listed raw) ["notes"]).1

def materialized (raw : SortedMap String Value) : Doc :=
  ((materialize true 30 (doc_of (first_collect raw) "notes" "list")).toOption).getD Doc.empty

theorem a_plain_list_is_kept : file_fields (materialized (one_raw "item" 1)) = one_raw "item" 1 ∧
    outs_of [] "notes" "list" = [] :=
  (collecting_keeps_the_document_iff (by simp) (by simp) rfl (by decide)
    (listed_sole (one_raw "item" 1)) rfl rfl
    (Prod.ext rfl rfl : collect "desk" (fun _ => true) 20 (listed (one_raw "item" 1)) ["notes"] =
      (first_collect (one_raw "item" 1), .ok _))
    (rfl : materialize true 30 _ = .ok (materialized (one_raw "item" 1)))
    (Prod.ext rfl rfl : collect "desk" (fun _ => true) 40 _ ["notes"] = (_, .ok _))).mpr
    (one_raw_plain "item" 1)

/-- A value with the keys of a cell and a third one. -/
def three_keys : SortedMap String Value :=
  tabulate ["item"] (fun _ =>
    some (.object [("t", number 5), ("v", number 1), ("x", number 2)]))

theorem three_keys_inexact (field : String) (v : Value) (hv : three_keys.get field = some v) :
    ¬ ExactCell v := by
  rintro ⟨-, fields, rfl, hlen⟩
  unfold three_keys at hv
  rw [get_tabulate] at hv
  split at hv
  · cases hv
    cases hlen
  · cases hv

theorem a_third_key_is_lost :
    ¬ ∀ (me app_id doc : String) (inst : String → Bool) (apps : List String) (st st₁ st₃ : Docs)
      (out₁ out₂ : List Collected) (now₁ now₂ now₃ : Int) (d₂ : Doc) (f : DocFile)
      (raw : SortedMap String Value) (pretty : Bool), apps.Nodup → app_id ∈ apps →
      inst app_id = true → doc_name_ok doc = true → SoleWriter me (doc_of st app_id doc) →
      (doc_of st app_id doc).file = some f → f.text = .object raw pretty →
      (∀ field v, raw.get field = some v → ¬ ExactCell v) →
      collect me inst now₁ st apps = (st₁, .ok out₁) →
      materialize true now₂ (doc_of st₁ app_id doc) = .ok d₂ →
      collect me inst now₃ (st₁.insert (app_id, doc) d₂) apps = (st₃, .ok out₂) →
      file_fields d₂ = raw ∧ outs_of out₂ app_id doc = [] := by
  intro h
  have hkept := h "desk" "notes" "list" (fun _ => true) ["notes"] (listed three_keys)
    (first_collect three_keys) _ _ _ 20 30 40 (materialized three_keys) _ three_keys false (by simp)
    (by simp) rfl (by decide) (listed_sole three_keys) rfl rfl three_keys_inexact
    (Prod.ext rfl rfl) rfl (Prod.ext rfl rfl)
  have hfirst := congrArg (fun fields => fields.get "item") hkept.1
  exact absurd hfirst (by decide)

end pai_sync.crdt
