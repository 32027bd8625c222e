-- What a collect puts out for each document, and what becomes of it when the push
-- behind it fails.
import PersonalAi.CrdtMerge
import PersonalAi.SyncEngine

open pai_core json table sorted_map sealing text

namespace pai_sync.crdt

/-! ## The turns of one document -/

/-- So many turns of the loop for one document. -/
def take_turns (me : String) (installed : Bool) (now_ms : Int) (on_disk : Bool) :
    Nat → Doc → Doc × Except Error (List Published)
  | 0, d => (d, .ok [])
  | n + 1, d =>
    match collect_one me installed now_ms on_disk d with
    | (d, .error e) => (d, .error e)
    | (d, .ok out) =>
      match take_turns me installed now_ms on_disk n d with
      | (d, .error e) => (d, .error e)
      | (d, .ok more) => (d, .ok (out.toList ++ more))

theorem take_turns_succ (me : String) (installed : Bool) (now_ms : Int) (on_disk : Bool) (n : Nat)
    (d : Doc) :
    take_turns me installed now_ms on_disk (n + 1) d =
      match collect_one me installed now_ms on_disk d with
      | (d, .error e) => (d, .error e)
      | (d, .ok out) =>
        match take_turns me installed now_ms on_disk n d with
        | (d, .error e) => (d, .error e)
        | (d, .ok more) => (d, .ok (out.toList ++ more)) := rfl

@[simp] theorem doc_of_insert (st : Docs) (k : String × String) (d : Doc) (app_id doc : String) :
    doc_of (st.insert k d) app_id doc = if (app_id, doc) = k then d else doc_of st app_id doc := by
  unfold doc_of
  rw [lookup_insert_if]
  split <;> rfl

/-- What was collected for a document. -/
def outs_of (out : List Collected) (app_id doc : String) : List Published :=
  (out.filter (fun c => decide (c.app = app_id ∧ c.doc = doc))).map Collected.published

theorem outs_of_append (a b : List Collected) (app_id doc : String) :
    outs_of (a ++ b) app_id doc = outs_of a app_id doc ++ outs_of b app_id doc := by
  unfold outs_of
  rw [List.filter_append, List.map_append]

theorem outs_of_turn (out : Option Published) (app_id name app_id' doc : String) :
    outs_of ((out.map (fun p => ({ app := app_id, doc := name, published := p } : Collected))).toList)
        app_id' doc = if app_id = app_id' ∧ name = doc then out.toList else [] := by
  unfold outs_of
  cases out with
  | none => simp
  | some p => by_cases h : app_id = app_id' ∧ name = doc <;> simp [h]

/-- The loop over the documents of an app gives each document its turns. -/
theorem collect_docs_spec {me : String} {inst : Bool} {now_ms : Int} {app_id : String}
    {present : List String} {names : List String} {st st' : Docs} {out : List Collected}
    (h : collect_docs me inst now_ms app_id present st names = (st', .ok out)) (doc : String) :
    take_turns me inst now_ms (decide (doc ∈ present)) (names.count doc) (doc_of st app_id doc) =
        (doc_of st' app_id doc, .ok (outs_of out app_id doc)) ∧
      ∀ app' doc', app' ≠ app_id →
        doc_of st' app' doc' = doc_of st app' doc' ∧ outs_of out app' doc' = [] := by
  induction names generalizing st out with
  | nil =>
    cases h
    exact ⟨rfl, fun _ _ _ => ⟨rfl, rfl⟩⟩
  | cons name rest ih =>
    unfold collect_docs at h
    rcases hone : collect_one me inst now_ms (decide (name ∈ present)) (doc_of st app_id name) with
      ⟨d, e | turn⟩
    · rw [hone] at h
      cases h
    · rw [hone] at h
      dsimp only at h
      rcases hrest : collect_docs me inst now_ms app_id present (st.insert (app_id, name) d) rest with
        ⟨st₁, e | more⟩
      · rw [hrest] at h
        cases h
      · rw [hrest] at h
        cases h
        obtain ⟨hturns, hother⟩ := ih hrest
        constructor
        · rw [outs_of_append, outs_of_turn]
          by_cases hname : name = doc
          · subst hname
            rw [doc_of_insert, if_pos rfl] at hturns
            rw [List.count_cons_self]
            unfold take_turns
            rw [hone]
            dsimp only
            rw [hturns]
            simp
          · rw [doc_of_insert, if_neg (by simpa using fun h => hname h.symm)] at hturns
            rw [List.count_cons_of_ne hname, hturns]
            simp [hname]
        · intro app' doc' happ
          obtain ⟨hdoc, houts⟩ := hother app' doc' happ
          rw [doc_of_insert, if_neg (by simp [happ])] at hdoc
          rw [outs_of_append, outs_of_turn, houts]
          exact ⟨hdoc, by simp [Ne.symm happ]⟩

theorem mem_docs_of {st : Docs} {app_id doc : String} {p : String → Doc → Bool}
    (hempty : p doc Doc.empty = false) :
    doc ∈ docs_of st app_id p ↔ p doc (doc_of st app_id doc) = true := by
  unfold docs_of doc_of
  rw [mem_ordered, List.mem_filterMap]
  constructor
  · rintro ⟨⟨⟨a, n⟩, d⟩, hmem, heq⟩
    dsimp only at heq
    split at heq
    · rename_i hp
      cases heq
      obtain ⟨rfl, hp⟩ := hp
      rw [lookup_eq_some.mpr hmem]
      exact hp
    · cases heq
  · intro h
    rcases hlookup : st.lookup (app_id, doc) with _ | d
    · rw [hlookup, Option.getD_none, hempty] at h
      cases h
    · rw [hlookup, Option.getD_some] at h
      exact ⟨⟨(app_id, doc), d⟩, lookup_eq_some.mp hlookup, by simp [h]⟩

theorem count_docs_of {st : Docs} {app_id doc : String} {p : String → Doc → Bool}
    (hempty : p doc Doc.empty = false) :
    (docs_of st app_id p).count doc = if p doc (doc_of st app_id doc) then 1 else 0 := by
  have hnodup : (docs_of st app_id p).Nodup := (ordered_sorted _).imp (fun h => ne_of_lt h)
  rw [hnodup.count]
  simp only [mem_docs_of hempty]

/-- The document is present on disk. -/
def is_present (doc : String) (d : Doc) : Bool := doc_name_ok doc && d.file.isSome

/-- This device has cells for it. -/
def is_published (me : String) (d : Doc) : Bool := !(own d me).entries.isEmpty

/-- How many turns a collect gives a document. -/
def turns_of (me doc : String) (d : Doc) : Nat :=
  (if is_present doc d then 1 else 0) + (if is_published me d then 1 else 0)

/-- A collect that goes through gives each document of a live app its turns, and
leaves the others alone. -/
theorem collect_spec {me : String} {inst : String → Bool} {now_ms : Int} {apps : List String}
    {st st' : Docs} {out : List Collected} (happs : apps.Nodup)
    (h : collect me inst now_ms st apps = (st', .ok out)) (app_id doc : String) :
    (app_id ∈ apps →
        take_turns me (inst app_id) now_ms (is_present doc (doc_of st app_id doc))
          (turns_of me doc (doc_of st app_id doc)) (doc_of st app_id doc) =
            (doc_of st' app_id doc, .ok (outs_of out app_id doc))) ∧
      (app_id ∉ apps →
        doc_of st' app_id doc = doc_of st app_id doc ∧ outs_of out app_id doc = []) := by
  induction apps generalizing st out with
  | nil =>
    cases h
    exact ⟨by simp, fun _ => ⟨rfl, rfl⟩⟩
  | cons a rest ih =>
    unfold collect at h
    rcases hdocs : collect_docs me (inst a) now_ms a (on_disk st a) st
        (on_disk st a ++ published st a me) with ⟨st₁, e | mine⟩
    · simp only [hdocs] at h
      cases h
    · simp only [hdocs] at h
      rcases hrest : collect me inst now_ms st₁ rest with ⟨st₂, e | more⟩
      · rw [hrest] at h
        cases h
      · rw [hrest] at h
        cases h
        obtain ⟨hnot, hnodup⟩ := List.nodup_cons.mp happs
        obtain ⟨hin, hout⟩ := ih hnodup hrest
        rw [outs_of_append]
        constructor
        · intro hmem
          by_cases happ : app_id = a
          · subst happ
            obtain ⟨hsame, hnil⟩ := hout hnot
            have hturns := (collect_docs_spec hdocs doc).1
            have hpresent : decide (doc ∈ on_disk st app_id) =
                is_present doc (doc_of st app_id doc) := by
              unfold on_disk is_present
              rw [Bool.eq_iff_iff, decide_eq_true_iff]
              exact mem_docs_of (by simp [Doc.empty])
            have hcount : (on_disk st app_id ++ published st app_id me).count doc =
                turns_of me doc (doc_of st app_id doc) := by
              unfold on_disk published turns_of is_present is_published
              rw [List.count_append, count_docs_of (by simp [Doc.empty]),
                count_docs_of (by simp [own, Doc.empty, sorted_map.empty])]
            rw [hpresent, hcount] at hturns
            rw [hsame, hnil, List.append_nil]
            exact hturns
          · have hrestmem : app_id ∈ rest := (List.mem_cons.mp hmem).resolve_left happ
            obtain ⟨hdoc, houts⟩ := (collect_docs_spec hdocs doc).2 app_id doc happ
            have := hin hrestmem
            rw [hdoc] at this
            rw [houts, List.nil_append]
            exact this
        · intro hmem
          rw [List.mem_cons, not_or] at hmem
          obtain ⟨hne, hrestmem⟩ := hmem
          obtain ⟨hdoc, houts⟩ := (collect_docs_spec hdocs doc).2 app_id doc hne
          obtain ⟨hsame, hnil⟩ := hout hrestmem
          exact ⟨hsame.trans hdoc, by rw [houts, hnil]; rfl⟩

/-! ## The last object of a document -/

theorem own_cells {d d' : Doc} (h : d'.cells = d.cells) (me : String) : own d' me = own d me := by
  unfold own
  rw [h]

theorem own_replace (d : Doc) (me : String) (fields : Fields) :
    own (replace_cells d me fields) me = fields := by
  unfold own replace_cells
  dsimp only
  rw [AList.lookup_insert]
  rfl

theorem materialize_cells {inst : Bool} {now_ms : Int} {d d' : Doc}
    (h : materialize inst now_ms d = .ok d') : d'.cells = d.cells := by
  unfold materialize at h
  split at h
  · cases h
    rfl
  · split at h
    · cases h
    · split at h <;> cases h <;> rfl

/-- A turn that puts nothing out changes nothing; one that does records what it
puts out. -/
theorem collect_one_out {me : String} {inst on_disk : Bool} {now_ms : Int} {d d' : Doc}
    {out : Option Published}
    (h : collect_one me inst now_ms on_disk d = (d', .ok out)) :
    (out = none ∧ d' = d) ∨ ∃ p, out = some p ∧ own d' me = p.fields := by
  unfold collect_one at h
  split at h
  · cases h
  · dsimp only at h
    split at h
    · cases h
    · cases h
      exact .inl ⟨rfl, rfl⟩
    · split at h
      · cases h
      · rename_i hpass
        cases h
        refine .inr ⟨_, rfl, ?_⟩
        unfold replace_and_materialize at hpass
        dsimp only at hpass
        split at hpass
        · rename_i hmat
          cases hpass
          rw [own_cells (materialize_cells hmat), own_replace]
        · cases hpass

/-- The same of all turns: the last object that was put out is what was recorded. -/
theorem take_turns_out {me : String} {inst on_disk : Bool} {now_ms : Int} {n : Nat} {d d' : Doc}
    {outs : List Published} (h : take_turns me inst now_ms on_disk n d = (d', .ok outs)) :
    (outs = [] ∧ d' = d) ∨ ∃ p, outs.getLast? = some p ∧ own d' me = p.fields := by
  induction n generalizing d outs with
  | zero =>
    cases h
    exact .inl ⟨rfl, rfl⟩
  | succ n ih =>
    unfold take_turns at h
    rcases hone : collect_one me inst now_ms on_disk d with ⟨d₁, e | out⟩
    · rw [hone] at h
      cases h
    · rw [hone] at h
      dsimp only at h
      rcases hrest : take_turns me inst now_ms on_disk n d₁ with ⟨d₂, e | more⟩
      · rw [hrest] at h
        cases h
      · rw [hrest] at h
        cases h
        rcases ih hrest with ⟨rfl, rfl⟩ | ⟨p, hlast, hown⟩
        · rcases collect_one_out hone with ⟨rfl, rfl⟩ | ⟨p, rfl, hown⟩
          · exact .inl ⟨rfl, rfl⟩
          · exact .inr ⟨p, rfl, hown⟩
        · refine .inr ⟨p, ?_, hown⟩
          rw [List.getLast?_append, hlast]
          rfl

/-- The document has nothing to publish: its file reads as the recorded cells, or
it has neither file nor cells. -/
def Settled (me doc : String) (d : Doc) : Prop :=
  if is_present doc d then collect_doc d = .ok (some (own d me)) else is_published me d = false

theorem our_cells_ok {d : Doc} {me : String} {ours : Fields} (h : our_cells d me = .ok ours) :
    ours = own d me := by
  unfold our_cells at h
  split at h <;> cases h
  rfl

/-- A settled document puts nothing out, and any other one does. -/
theorem turns_settled {me doc : String} {inst : Bool} {now_ms : Int} {d d' : Doc}
    {outs : List Published}
    (h : take_turns me inst now_ms (is_present doc d) (turns_of me doc d) d = (d', .ok outs)) :
    outs = [] ↔ Settled me doc d := by
  unfold Settled
  unfold turns_of at h
  cases hpresent : is_present doc d with
  | false =>
    rw [hpresent] at h
    cases hpublished : is_published me d with
    | false =>
      rw [hpublished] at h
      cases h
      simp
    | true =>
      rw [hpublished] at h
      have hnone : ∀ d₁, collect_one me inst now_ms false d ≠ (d₁, .ok none) := by
        intro d₁ hone
        unfold collect_one unchanged at hone
        split at hone
        · cases hone
        · dsimp only at hone
          rw [if_neg Bool.false_ne_true] at hone
          dsimp only at hone
          split at hone <;> cases hone
      rcases hone : collect_one me inst now_ms false d with ⟨d₁, e | _ | p⟩
      · simp [take_turns, hone] at h
      · exact (hnone d₁ hone).elim
      · simp [take_turns, hone] at h
        simp [← h.2]
  | true =>
    rw [hpresent] at h
    rw [if_pos rfl]
    rw [if_pos rfl, Nat.add_comm] at h
    have hread : ∃ f, d.file = some f := by
      unfold is_present at hpresent
      rw [Bool.and_eq_true] at hpresent
      exact Option.isSome_iff_exists.mp hpresent.2
    -- what the first turn makes of the file
    have hone : (∃ d₁ e, collect_one me inst now_ms true d = (d₁, .error e)) ∨
        (collect_one me inst now_ms true d = (d, .ok none) ∧ collect_doc d = .ok (some (own d me))) ∨
        ((∃ d₁ p, collect_one me inst now_ms true d = (d₁, .ok (some p))) ∧
          collect_doc d ≠ .ok (some (own d me))) := by
      unfold collect_one
      rcases hdoc : collect_doc d with e | _ | fields
      · exact .inl ⟨d, e, rfl⟩
      · obtain ⟨f, hf⟩ := hread
        unfold collect_doc at hdoc
        rw [hf] at hdoc
        dsimp only at hdoc
        split at hdoc <;> cases hdoc
      · dsimp only
        unfold unchanged
        rw [if_pos rfl]
        rcases hours : our_cells d me with e | ours
        · exact .inl ⟨d, e, rfl⟩
        · rw [our_cells_ok hours, Option.getD_some]
          by_cases hsame : fields = own d me
          · exact .inr (.inl ⟨by simp [Except.map, hsame], by rw [hsame]⟩)
          · simp only [Except.map, decide_eq_false hsame]
            rcases hpass : replace_and_materialize inst now_ms d me fields with ⟨d₁, e | _⟩
            · exact .inl ⟨d₁, e, rfl⟩
            · exact .inr (.inr ⟨⟨d₁, _, rfl⟩, by simp [hsame]⟩)
    rcases hone with ⟨d₁, e, hone⟩ | ⟨hone, hsame⟩ | ⟨⟨d₁, p, hone⟩, hsame⟩
    · rw [take_turns_succ, hone] at h
      cases h
    · have hnil : ∀ n, take_turns me inst now_ms true n d = (d, .ok []) := by
        intro n
        induction n with
        | zero => rfl
        | succ n ih =>
          rw [take_turns_succ, hone]
          dsimp only
          rw [ih]
          rfl
      rw [hnil] at h
      cases h
      simp [hsame]
    · rw [take_turns_succ, hone] at h
      dsimp only at h
      rcases hrest : take_turns me inst now_ms true (if is_published me d = true then 1 else 0) d₁ with
        ⟨d₂, e | more⟩
      · rw [hrest] at h
        cases h
      · rw [hrest] at h
        cases h
        simp [hsame]

/-! ## Names

A document file has a name without a slash, and cells of this device come from
its files alone. -/

/-- This device has cells only for documents whose names are file names. -/
def Named (me : String) (st : Docs) : Prop :=
  ∀ app_id doc, is_published me (doc_of st app_id doc) → doc_name_ok doc

theorem no_slash {name : String} (h : doc_name_ok name) : '/' ∉ name.toList := by
  unfold doc_name_ok at h
  simp only [Bool.and_eq_true, decide_eq_true_eq] at h
  exact h.1.1.2

/-- The loop over the documents changes those of its names alone, also when an
error ends it. -/
theorem collect_docs_names {me : String} {inst : Bool} {now_ms : Int} {app_id : String}
    {present names : List String} (st : Docs) {app' doc' : String}
    (h : ¬ (app' = app_id ∧ doc' ∈ names)) :
    doc_of (collect_docs me inst now_ms app_id present st names).1 app' doc' =
      doc_of st app' doc' := by
  induction names generalizing st with
  | nil => rfl
  | cons name rest ih =>
    have hrest : ¬ (app' = app_id ∧ doc' ∈ rest) :=
      fun hmem => h ⟨hmem.1, List.mem_cons_of_mem _ hmem.2⟩
    have hname : (app', doc') ≠ (app_id, name) := by
      intro heq
      cases heq
      exact h ⟨rfl, List.mem_cons_self⟩
    unfold collect_docs
    rcases collect_one me inst now_ms (decide (name ∈ present)) (doc_of st app_id name) with
      ⟨d, e | turn⟩
    · dsimp only
      rw [doc_of_insert, if_neg hname]
    · dsimp only
      have hkeep := ih (st.insert (app_id, name) d) hrest
      rw [doc_of_insert, if_neg hname] at hkeep
      rcases hdocs : collect_docs me inst now_ms app_id present (st.insert (app_id, name) d) rest with
        ⟨st₁, e | more⟩
      · rw [hdocs] at hkeep
        exact hkeep
      · rw [hdocs] at hkeep
        exact hkeep

theorem turn_named {me : String} {st : Docs} (h : Named me st) {app_id doc : String}
    (hturn : doc ∈ on_disk st app_id ++ published st app_id me) : doc_name_ok doc := by
  rcases List.mem_append.mp hturn with hmem | hmem
  · have := (mem_docs_of (by simp [Doc.empty])).mp hmem
    rw [Bool.and_eq_true] at this
    exact this.1
  · exact h app_id doc
      ((mem_docs_of (by simp [own, Doc.empty, sorted_map.empty])).mp hmem)

theorem collect_named {me : String} {inst : String → Bool} {now_ms : Int} {apps : List String}
    {st : Docs} (h : Named me st) : Named me (collect me inst now_ms st apps).1 := by
  induction apps generalizing st with
  | nil => exact h
  | cons a rest ih =>
    have hdocs : Named me (collect_docs me (inst a) now_ms a (on_disk st a) st
        (on_disk st a ++ published st a me)).1 := by
      intro app_id doc hpub
      by_cases hmem : app_id = a ∧ doc ∈ on_disk st a ++ published st a me
      · exact turn_named h hmem.2
      · rw [collect_docs_names st hmem] at hpub
        exact h app_id doc hpub
    unfold collect
    dsimp only
    rcases hstep : collect_docs me (inst a) now_ms a (on_disk st a) st
        (on_disk st a ++ published st a me) with ⟨st₁, e | mine⟩
    · rw [hstep] at hdocs
      exact hdocs
    · rw [hstep] at hdocs
      have hrest := ih hdocs
      dsimp only at hrest ⊢
      rcases hmore : collect me inst now_ms st₁ rest with ⟨st₂, e | more⟩
      · rw [hmore] at hrest
        exact hrest
      · rw [hmore] at hrest
        exact hrest

/-- Everything that is collected has a file name. -/
theorem collected_named {me : String} {inst : String → Bool} {now_ms : Int} {apps : List String}
    {st st' : Docs} {out : List Collected} (h : Named me st) (happs : apps.Nodup)
    (hcollect : collect me inst now_ms st apps = (st', .ok out)) {c : Collected} (hc : c ∈ out) :
    doc_name_ok c.doc := by
  have hne : outs_of out c.app c.doc ≠ [] := by
    unfold outs_of
    intro hnil
    have hmem : c ∈ out.filter (fun x => decide (x.app = c.app ∧ x.doc = c.doc)) := by simp [hc]
    rw [List.map_eq_nil_iff.mp hnil] at hmem
    cases hmem
  obtain ⟨hlive, hdead⟩ := collect_spec happs hcollect c.app c.doc
  by_cases happ : c.app ∈ apps
  · have hturns := hlive happ
    by_contra hname
    have hpresent : is_present c.doc (doc_of st c.app c.doc) = false := by
      unfold is_present
      simp [hname]
    have hpublished : is_published me (doc_of st c.app c.doc) = false := by
      rw [Bool.eq_false_iff]
      exact fun hpub => hname (h _ _ hpub)
    have hzero : turns_of me c.doc (doc_of st c.app c.doc) = 0 := by
      unfold turns_of
      rw [hpresent, hpublished]
      rfl
    rw [hzero] at hturns
    have houts : (.ok [] : Except Error (List Published)) = .ok (outs_of out c.app c.doc) :=
      congrArg Prod.snd hturns
    injection houts with houts
    exact hne houts.symm
  · exact (hne (hdead happ).2).elim

end pai_sync.crdt

namespace pai_sync.engine

open crdt

/-! ## What the transport carries -/

/-- The transport's object for a document carries these cells of this device. -/
def Carries (e : SyncEngine) (remote : Table String Object) (app_id doc : String)
    (fields : Fields) : Prop :=
  ∃ o p, remote.lookup (crdt_key e.device app_id doc) = some o ∧
    open_with (.vault e.vault) o.key o.ciphertext = some (.crdt p) ∧ o.tombstone = false ∧
    p.v = 1 ∧ p.app = app_id ∧ p.doc = doc ∧ p.writer = e.device.to_string ∧ p.fields = fields

/-- A list ends in one way at a mark that its ends do not have. -/
theorem append_cons_inj_right {a b x y : List Char} {c : Char} (hx : c ∉ x) (hy : c ∉ y)
    (h : a ++ c :: x = b ++ c :: y) : a = b ∧ x = y := by
  have hrev := congrArg List.reverse h
  simp only [List.reverse_append, List.reverse_cons, List.append_assoc, List.singleton_append]
    at hrev
  have hsplit := congrArg (split_once c) hrev
  rw [split_once_append c _ _ (by simpa using hx), split_once_append c _ _ (by simpa using hy)]
    at hsplit
  simp only [Option.some.injEq, Prod.mk.injEq, List.reverse_inj] at hsplit
  exact ⟨hsplit.2, hsplit.1⟩

theorem crdt_key_inj {me : DeviceId} {a b x y : String} (hx : '/' ∉ x.toList) (hy : '/' ∉ y.toList)
    (h : crdt_key me a x = crdt_key me b y) : a = b ∧ x = y := by
  unfold crdt_key at h
  have hlist := congrArg String.toList h
  simp only [String.toList_append, List.append_assoc, List.append_cancel_left_eq] at hlist
  have hcut : a.toList ++ '/' :: x.toList = b.toList ++ '/' :: y.toList := by
    have hassoc : ∀ u v : List Char, u ++ ("/".toList ++ (v ++ ("/".toList ++ me.to_string.toList))) =
        (u ++ '/' :: v) ++ ("/".toList ++ me.to_string.toList) := by
      intro u v
      simp
    rw [hassoc, hassoc] at hlist
    exact List.append_cancel_right hlist
  obtain ⟨hab, hxy⟩ := append_cons_inj_right hx hy hcut
  exact ⟨String.ext hab, String.ext hxy⟩

theorem carries_own {e : SyncEngine} {s : Site} (now : Timestamp) (c : Collected)
    (remote : Table String Object) :
    Carries e (remote.insert (crdt_key e.device c.app c.doc)
      ((outgoing_doc e now c s).object e.device)) c.app c.doc c.published.fields := by
  refine ⟨_, crdt_payload e now c, AList.lookup_insert _, ?_, rfl, rfl, rfl, rfl, rfl, rfl⟩
  unfold Outgoing.object outgoing_doc
  simp [open_with, seal_with]

theorem carries_slot {e : SyncEngine} {a b : Table String Object} {app_id doc : String}
    {fields : Fields}
    (h : a.lookup (crdt_key e.device app_id doc) = b.lookup (crdt_key e.device app_id doc)) :
    Carries e a app_id doc fields ↔ Carries e b app_id doc fields := by
  unfold Carries
  rw [h]

/-! ## Shipping -/

theorem push_sealed_db (e : SyncEngine) (troubles : Nat → Option Trouble) (s : Site)
    (out : SyncOutcome) (o : Outgoing) : (push_sealed e troubles s out o).1.db = s.db := by
  unfold push_sealed
  split
  · rfl
  · dsimp only
    split <;> rfl

theorem push_sealed_remote (e : SyncEngine) (troubles : Nat → Option Trouble) (s : Site)
    (out : SyncOutcome) {o : Outgoing} {key : String} (h : o.key ≠ key) :
    (push_sealed e troubles s out o).1.remote.lookup key = s.remote.lookup key := by
  have hinsert : (s.remote.insert o.key (o.object e.device)).lookup key = s.remote.lookup key :=
    AList.lookup_insert_ne (Ne.symm h)
  unfold push_sealed
  split
  · rfl
  · dsimp only
    split
    · rfl
    · exact hinsert
    · exact hinsert
    · exact hinsert

theorem ship_db (e : SyncEngine) (troubles : Nat → Option Trouble) (s : Site) (out : SyncOutcome)
    (items : List (Site → Outgoing)) : (ship e troubles s out items).1.db = s.db := by
  induction items generalizing s out with
  | nil => rfl
  | cons o rest ih =>
    have hone := push_sealed_db e troubles s out (o s)
    unfold ship
    rcases hpush : push_sealed e troubles s out (o s) with ⟨s₁, err | out₁⟩
    · rw [hpush] at hone
      exact hone
    · rw [hpush] at hone
      exact (ih s₁ out₁).trans hone

/-- Shipping leaves the keys alone that no object has. -/
theorem ship_remote (e : SyncEngine) (troubles : Nat → Option Trouble) (s : Site)
    (out : SyncOutcome) {items : List (Site → Outgoing)} {key : String}
    (h : ∀ o ∈ items, ∀ s, (o s).key ≠ key) :
    (ship e troubles s out items).1.remote.lookup key = s.remote.lookup key := by
  induction items generalizing s out with
  | nil => rfl
  | cons o rest ih =>
    have hone := push_sealed_remote e troubles s out (h o List.mem_cons_self s)
    unfold ship
    rcases hpush : push_sealed e troubles s out (o s) with ⟨s₁, err | out₁⟩
    · rw [hpush] at hone
      exact hone
    · rw [hpush] at hone
      exact (ih s₁ out₁ (fun o ho => h o (List.mem_cons_of_mem _ ho))).trans hone

/-- The documents that a push stores on the transport: those up to the first
trouble, and with it the one that is stored all the same. -/
def reached (troubles : Nat → Option Trouble) : Nat → List Collected → List Collected
  | _, [] => []
  | n, c :: rest =>
    match troubles n with
    | none => c :: reached troubles (n + 1) rest
    | some (.refused false _) => []
    | some (.refused true _) => [c]
    | some (.unmirrored _) => [c]

theorem reached_all (n : Nat) (items : List Collected) : reached (fun _ => none) n items = items := by
  induction items generalizing n with
  | nil => rfl
  | cons c rest ih =>
    unfold reached
    rw [ih]

/-- The version of a document beats the mirror, so nothing skips it. -/
theorem push_doc (e : SyncEngine) (now : Timestamp) (troubles : Nat → Option Trouble) (s : Site)
    (out : SyncOutcome) (c : Collected) :
    let r := push_sealed e troubles s out (outgoing_doc e now c s)
    let stored := s.remote.insert (crdt_key e.device c.app c.doc)
      ((outgoing_doc e now c s).object e.device)
    (troubles out.pushed = none →
      r.2 = .ok { out with pushed := out.pushed + 1 } ∧ r.1.remote = stored) ∧
    (∀ err, troubles out.pushed = some (.refused false err) →
      r.2 = .error err ∧ r.1.remote = s.remote) ∧
    ∀ err, (troubles out.pushed = some (.refused true err) ∨
        troubles out.pushed = some (.unmirrored err)) →
      r.2 = .error err ∧ r.1.remote = stored := by
  have hbeats : ¬ (outgoing_doc e now c s).version ≤
      mirror_version s.toLocal (outgoing_doc e now c s).key := by
    unfold outgoing_doc
    dsimp only
    omega
  unfold push_sealed
  rw [if_neg hbeats]
  dsimp only
  refine ⟨fun h => ?_, fun err h => ?_, fun err h => ?_⟩
  · rw [h]
    exact ⟨rfl, rfl⟩
  · rw [h]
    exact ⟨rfl, rfl⟩
  · rcases h with h | h <;>
    · rw [h]
      exact ⟨rfl, rfl⟩

theorem outs_of_cons (c : Collected) (rest : List Collected) (app_id doc : String) :
    outs_of (c :: rest) app_id doc =
      (if c.app = app_id ∧ c.doc = doc then [c.published] else []) ++ outs_of rest app_id doc := by
  unfold outs_of
  by_cases hc : c.app = app_id ∧ c.doc = doc
  · rw [List.filter_cons_of_pos (by simpa using hc), if_pos hc]
    rfl
  · rw [List.filter_cons_of_neg (by simpa using hc), if_neg hc]
    rfl

/-- The transport's slot of a document, as the objects that reached it leave it. -/
def Slot (e : SyncEngine) (app_id doc : String) (outs : List Published)
    (remote remote' : Table String Object) : Prop :=
  (outs = [] → remote'.lookup (crdt_key e.device app_id doc) =
      remote.lookup (crdt_key e.device app_id doc)) ∧
    ∀ p, outs.getLast? = some p → Carries e remote' app_id doc p.fields

/-- One more object in front: what comes behind it decides, if anything does. -/
theorem slot_cons {e : SyncEngine} (now : Timestamp) {c : Collected} {s : Site}
    {rest : List Collected} {remote' : Table String Object} {app_id doc : String}
    (hc : '/' ∉ c.doc.toList) (hdoc : '/' ∉ doc.toList)
    (h : Slot e app_id doc (outs_of rest app_id doc)
      (s.remote.insert (crdt_key e.device c.app c.doc) ((outgoing_doc e now c s).object e.device))
      remote') :
    Slot e app_id doc (outs_of (c :: rest) app_id doc) s.remote remote' := by
  obtain ⟨hkeep, hlast⟩ := h
  rw [outs_of_cons]
  by_cases hmine : c.app = app_id ∧ c.doc = doc
  · rw [if_pos hmine]
    obtain ⟨rfl, rfl⟩ := hmine
    refine ⟨fun hnil => by simp at hnil, fun p hp => ?_⟩
    rcases hrest : outs_of rest c.app c.doc with _ | ⟨q, more⟩
    · rw [hrest] at hp
      cases hp
      rw [carries_slot (hkeep hrest)]
      exact carries_own now c s.remote
    · apply hlast
      rw [hrest] at hp ⊢
      exact hp
  · rw [if_neg hmine, List.nil_append]
    refine ⟨fun hnil => ?_, hlast⟩
    rw [hkeep hnil, AList.lookup_insert_ne]
    intro hkey
    obtain ⟨happ, hname⟩ := crdt_key_inj hdoc hc hkey
    exact hmine ⟨happ.symm, hname.symm⟩

/-- Behind a push of documents, the transport has the last object of each that
reached it, and its other keys are as they were. -/
theorem ship_docs (e : SyncEngine) (now : Timestamp) (troubles : Nat → Option Trouble)
    {items : List Collected} (s : Site) (out : SyncOutcome)
    (hnames : ∀ c ∈ items, '/' ∉ c.doc.toList) (app_id : String) {doc : String}
    (hdoc : '/' ∉ doc.toList) :
    Slot e app_id doc (outs_of (reached troubles out.pushed items) app_id doc) s.remote
      (ship e troubles s out (items.map (outgoing_doc e now))).1.remote := by
  have hself : ∀ remote, Slot e app_id doc (outs_of [] app_id doc) remote remote :=
    fun _ => ⟨fun _ => rfl, fun p hp => by cases hp⟩
  induction items generalizing s out with
  | nil => exact hself s.remote
  | cons c rest ih =>
    obtain ⟨hfine, hrefused, hstored⟩ := push_doc e now troubles s out c
    have hrest := fun s out => ih s out (fun c hc => hnames c (List.mem_cons_of_mem _ hc))
    have hc := hnames c List.mem_cons_self
    rw [List.map_cons]
    unfold ship reached
    rcases hpush : push_sealed e troubles s out (outgoing_doc e now c s) with ⟨s₁, result⟩
    rw [hpush] at hfine hrefused hstored
    rcases htrouble : troubles out.pushed with _ | ⟨_ | _, err⟩ | err
    · obtain ⟨rfl, hremote⟩ := hfine htrouble
      apply slot_cons now hc hdoc
      rw [← hremote]
      exact hrest s₁ { out with pushed := out.pushed + 1 }
    · obtain ⟨rfl, hremote⟩ := hrefused err htrouble
      exact hremote ▸ hself s₁.remote
    · obtain ⟨rfl, hremote⟩ := hstored err (.inl htrouble)
      apply slot_cons now hc hdoc
      rw [← hremote]
      exact hself s₁.remote
    · obtain ⟨rfl, hremote⟩ := hstored err (.inr htrouble)
      apply slot_cons now hc hdoc
      rw [← hremote]
      exact hself s₁.remote

/-- No row, message, app or backup has the key of a document. -/
theorem outgoing_key {e : SyncEngine} {db : Db} {o : Outgoing} (h : o ∈ outgoing e db)
    (rest : String) : parse_key o.key ≠ .crdt rest := by
  rcases outgoing_cases h with ⟨k, id, row, -, -, hrow⟩ | ⟨id, m, c, -, -, -, rfl⟩ | ⟨id, hkey⟩ |
    ⟨tail, hkey⟩
  · rw [outgoing_row_key hrow, parse_row]
    exact ObjectKey.noConfusion
  · rw [show (outgoing_message e id m).key = MSG_PREFIX ++ id from rfl, parse_message]
    exact ObjectKey.noConfusion
  · rw [hkey, parse_app]
    exact ObjectKey.noConfusion
  · rw [hkey, parse_backup]
    exact ObjectKey.noConfusion

theorem live_apps_nodup (db : Db) : (live_apps db).Nodup := by
  have hkeys : (db.apps.entries.map Sigma.fst).Nodup := db.apps.nodupKeys
  unfold live_apps
  refine List.Nodup.sublist ?_ hkeys
  induction db.apps.entries with
  | nil => exact List.Sublist.refl _
  | cons a rest ih =>
    rw [List.map_cons, List.filterMap_cons]
    split
    · exact ih.cons _
    · rename_i name hname
      split at hname
      · cases hname
      · cases hname
        exact ih.cons_cons _

theorem crdt_key_parses (me : DeviceId) (app_id doc : String) :
    parse_key (crdt_key me app_id doc) = .crdt (app_id ++ "/" ++ doc ++ "/" ++ me.to_string) := by
  rw [← parse_crdt]
  unfold crdt_key
  simp only [String.append_assoc]

/-- A push of documents, met by trouble or not, leaves the documents as the
collect does. -/
theorem push_app_crdts_docs (e : SyncEngine) (now : Timestamp) (troubles : Nat → Option Trouble)
    (s : Site) (out : SyncOutcome) :
    (push_app_crdts e now troubles s out).1.db.docs =
      (collect e.device.to_string (installed s.db) e.env.now_ms s.db.docs (live_apps s.db)).1 := by
  unfold push_app_crdts
  rcases collect e.device.to_string (installed s.db) e.env.now_ms s.db.docs (live_apps s.db) with
    ⟨docs, err | items⟩
  · rfl
  · dsimp only
    rw [ship_db]

/-- A push of documents leaves the transport with what reached it of each. -/
theorem push_app_crdts_slot {e : SyncEngine} (now : Timestamp) (troubles : Nat → Option Trouble)
    {s : Site} (out : SyncOutcome) {docs : Docs} {items : List Collected}
    (hnamed : Named e.device.to_string s.db.docs)
    (hcollect : collect e.device.to_string (installed s.db) e.env.now_ms s.db.docs
      (live_apps s.db) = (docs, .ok items)) (app_id : String) {doc : String}
    (hdoc : doc_name_ok doc) :
    Slot e app_id doc (outs_of (reached troubles out.pushed items) app_id doc) s.remote
      (push_app_crdts e now troubles s out).1.remote := by
  have hnames : ∀ c ∈ items, '/' ∉ c.doc.toList :=
    fun c hc => no_slash (collected_named hnamed (live_apps_nodup _) hcollect hc)
  unfold push_app_crdts
  rw [hcollect]
  exact ship_docs e now troubles { s with db := { s.db with docs := docs } } out hnames app_id
    (no_slash hdoc)

/-- The rows that are shipped leave the documents on the transport alone. -/
theorem ship_rows_remote (e : SyncEngine) (troubles : Nat → Option Trouble) (s : Site)
    (out : SyncOutcome) (app_id doc : String) :
    (ship e troubles s out ((outgoing e s.db).map (fun o _ => o))).1.remote.lookup
        (crdt_key e.device app_id doc) = s.remote.lookup (crdt_key e.device app_id doc) := by
  apply ship_remote
  intro f hf _ hkey
  obtain ⟨o, ho, rfl⟩ := List.mem_map.mp hf
  apply outgoing_key ho
  rw [show o.key = _ from hkey]
  exact crdt_key_parses e.device app_id doc

/-- What a push without trouble does for one document: the document has its turns,
and the transport has the last object that they put out. -/
theorem push_doc_spec {e : SyncEngine} {now : Timestamp} {s s' : Site} {out : SyncOutcome}
    (hnamed : Named e.device.to_string s.db.docs)
    (h : push e now (fun _ => none) s = (s', .ok out)) (app_id : String) {doc : String}
    (hdoc : doc_name_ok doc) :
    ∃ outs : List Published,
      (app_id ∈ live_apps s.db →
        take_turns e.device.to_string (installed s.db app_id) e.env.now_ms
          (is_present doc (doc_of s.db.docs app_id doc))
          (turns_of e.device.to_string doc (doc_of s.db.docs app_id doc))
          (doc_of s.db.docs app_id doc) = (doc_of s'.db.docs app_id doc, .ok outs)) ∧
      (app_id ∉ live_apps s.db →
        doc_of s'.db.docs app_id doc = doc_of s.db.docs app_id doc ∧ outs = []) ∧
      Slot e app_id doc outs s.remote s'.remote := by
  unfold push at h
  have hrows_db := ship_db e (fun _ => none) s
    { SyncOutcome.zero with skipped := left_out e s.db } ((outgoing e s.db).map (fun o _ => o))
  have hrows_remote := ship_rows_remote e (fun _ => none) s
    { SyncOutcome.zero with skipped := left_out e s.db } app_id doc
  rcases hrows : ship e (fun _ => none) s { SyncOutcome.zero with skipped := left_out e s.db }
      ((outgoing e s.db).map (fun o _ => o)) with ⟨s₁, err | out₁⟩
  · rw [hrows] at h
    cases h
  · rw [hrows] at h hrows_db hrows_remote
    dsimp only at h hrows_db hrows_remote
    rw [← hrows_db] at hnamed ⊢
    have hdocs := push_app_crdts_docs e now (fun _ => none) s₁ out₁
    rcases hcollect : collect e.device.to_string (installed s₁.db) e.env.now_ms s₁.db.docs
        (live_apps s₁.db) with ⟨docs, err | items⟩
    · unfold push_app_crdts at h
      rw [hcollect] at h
      cases h
    · have hslot := push_app_crdts_slot now (fun _ => none) out₁ hnamed hcollect app_id hdoc
      rw [h, reached_all] at hslot
      rw [h, hcollect] at hdocs
      obtain ⟨hlive, hdead⟩ := collect_spec (live_apps_nodup _) hcollect app_id doc
      dsimp only at hdocs
      rw [hdocs]
      exact ⟨_, hlive, hdead, fun hnil => (hslot.1 hnil).trans hrows_remote, hslot.2⟩

/-! ## After a failed push -/

/-- **A failed push of documents is made up for when the transport already has
what was recorded, or the file reads otherwise.** The collect of the failed push
has recorded the cells of all documents, so the next one passes over those whose
file reads as recorded. -/
theorem a_failed_document_is_shipped_again_when_its_file_reads_otherwise {e : SyncEngine}
    {env : Env} {now₀ now₁ : Timestamp} {troubles : Nat → Option Trouble} {s₀ s₁ s s₂ : Site}
    {out₀ out₂ : SyncOutcome} {err : Error} (hnamed : Named e.device.to_string s₀.db.docs)
    (hfailed : push_app_crdts e now₀ troubles s₀ out₀ = (s₁, .error err))
    (hdocs : s.db.docs = s₁.db.docs) (hremote : s.remote = s₁.remote)
    (hpush : push { e with env := env } now₁ (fun _ => none) s = (s₂, .ok out₂))
    (app_id : String) {doc : String} (hdoc : doc_name_ok doc) :
    Carries e s₂.remote app_id doc (own (doc_of s₂.db.docs app_id doc) e.device.to_string) ↔
      Carries e s₁.remote app_id doc (own (doc_of s₁.db.docs app_id doc) e.device.to_string) ∨
        (app_id ∈ live_apps s.db ∧
          ¬ Settled e.device.to_string doc (doc_of s₁.db.docs app_id doc)) := by
  have hnamed₁ : Named e.device.to_string s₁.db.docs := by
    have hcollected := push_app_crdts_docs e now₀ troubles s₀ out₀
    rw [hfailed] at hcollected
    rw [hcollected]
    exact collect_named hnamed
  rw [← hdocs] at hnamed₁ ⊢
  rw [← hremote]
  obtain ⟨outs, hlive, hdead, hkeep, hlast⟩ := push_doc_spec (e := { e with env := env })
    hnamed₁ hpush app_id hdoc
  -- nothing is put out exactly for a settled document, and for an app that is gone
  have hnil : outs = [] → doc_of s₂.db.docs app_id doc = doc_of s.db.docs app_id doc := by
    intro hnil
    by_cases happ : app_id ∈ live_apps s.db
    · rcases take_turns_out (hlive happ) with ⟨-, hsame⟩ | ⟨p, hp, -⟩
      · exact hsame
      · rw [hnil] at hp
        cases hp
    · exact (hdead happ).1
  have hput : outs ≠ [] ↔ app_id ∈ live_apps s.db ∧
      ¬ Settled e.device.to_string doc (doc_of s.db.docs app_id doc) := by
    by_cases happ : app_id ∈ live_apps s.db
    · rw [Ne, turns_settled (hlive happ)]
      simp [happ]
    · simp [(hdead happ).2, happ]
  rw [← hput]
  by_cases houts : outs = []
  · rw [hnil houts, carries_slot (e := e) (hkeep houts)]
    simp [houts]
  · simp only [houts, ne_eq, not_false_eq_true, or_true, iff_true]
    have happ := (hput.mp houts).1
    rcases take_turns_out (hlive happ) with ⟨hempty, -⟩ | ⟨p, hp, hown⟩
    · exact (houts hempty).elim
    · rw [hown]
      exact hlast p hp

/-! ### A list that the transport refuses -/

/-- The engine of a desk computer, where no package verifies. -/
def desk : SyncEngine :=
  { device := ⟨"desk"⟩, vault := ⟨0, 0⟩,
    env :=
      { serde_error := fun _ => "expected value", now_ms := 40,
        stage_verdict := fun _ _ _ => .ok (.Rejected "signature"),
        doc_text := fun _ => .invalid (.Sync "expected value") } }

/-- A document that the app wrote and that nothing has collected. -/
def fresh_list : Doc :=
  { cells := ∅, view := sorted_map.empty,
    file := some
      { text := .object (tabulate ["a"] (fun _ => some (.number (.PosInt 1)))) false, mtime_ms := 10 } }

def notes_row : AppRow :=
  { name := "Notes", version := "1.0.0", runtime := "wasm", updated_at := 1000000, deleted := false,
    active_device := none }

def desk_site : Site :=
  { db := { Db.fresh [] with apps := (∅ : Table String AppRow).insert "notes" notes_row,
                             docs := (∅ : Docs).insert ("notes", "list") fresh_list },
    sync_objects := ∅, remote := ∅ }

def desk_push (troubles : Nat → Option Trouble) : Site × Except Error SyncOutcome :=
  push_app_crdts desk 50 troubles desk_site SyncOutcome.zero

/-- The transport refuses the list; the next push ships nothing of it. -/
theorem a_refused_list_is_not_shipped_again :
    let failed := desk_push (fun _ => some (.refused false (.Sync "offline")))
    let later := push desk 60 (fun _ => none) failed.1
    failed.2 = .error (.Sync "offline") ∧ later.2.isOk ∧
      (own (doc_of later.1.db.docs "notes" "list") "desk").keys = ["a"] ∧
      later.1.remote.lookup (crdt_key desk.device "notes" "list") = none := by
  decide

theorem desk_named : Named "desk" desk_site.db.docs := by
  intro app_id doc hpub
  unfold desk_site at hpub
  dsimp only at hpub
  rw [doc_of_insert] at hpub
  split at hpub
  · cases hpub
  · cases hpub

/-- The list that was stored before the mirror failed stays what was recorded. -/
theorem a_stored_list_is_what_was_recorded :
    let failed := (desk_push (fun _ => some (.unmirrored (.Sync "locked")))).1
    let later := (push desk 60 (fun _ => none) failed).1
    Carries desk later.remote "notes" "list" (own (doc_of later.db.docs "notes" "list") "desk") := by
  intro failed later
  have hfailed : push_app_crdts desk 50 (fun _ => some (.unmirrored (.Sync "locked"))) desk_site
      SyncOutcome.zero = (failed, .error (.Sync "locked")) := Prod.ext rfl (by decide)
  have hlater : push { desk with env := desk.env } 60 (fun _ => none) failed =
      (later, .ok { SyncOutcome.zero with skipped := 1 }) := Prod.ext rfl (by decide)
  refine (a_failed_document_is_shipped_again_when_its_file_reads_otherwise (e := desk) desk_named
    hfailed rfl rfl hlater "notes" (show doc_name_ok "list" by decide)).mpr (.inl ?_)
  let recorded : Published := ⟨own (doc_of failed.db.docs "notes" "list") "desk", 10⟩
  exact ⟨_, crdt_payload desk 50 ⟨"notes", "list", recorded⟩, rfl, by decide, rfl, rfl, rfl, rfl, rfl,
    rfl⟩

end pai_sync.engine
