-- A row that one device pushes and another one pulls: which of its columns arrive.
import PersonalAi.PullIsolation
import PersonalAi.RowEffects

open pai_core sealing table text

namespace pai_sync.engine

/-! ## What travels -/

/-- A synced row: one of a kind, or a message. -/
inductive Item
  | row (k : RowKind) (id : String)
  | message (id : String)

def Item.key : Item → String
  | .row k id => k.PREFIX ++ id
  | .message id => MSG_PREFIX ++ id

/-- The store has no such row. -/
def Item.Lacks (db : Db) : Item → Prop
  | .row k id => db.row k id = none
  | .message id => db.messages.lookup id = none

/-- Both stores show the same: the row in all its columns, for a document its
sections in their order too, and its blob. -/
def Item.SameIn (here there : Db) : Item → Prop
  | .row .document id =>
    there.row .document id = here.row .document id ∧ sections_of there id = sections_of here id ∧
      ∀ row, here.row .document id = some row → row.columns.blob ∈ there.blobs
  | .row k id => there.row k id = here.row k id
  | .message id => there.messages.lookup id = here.messages.lookup id

/-- The payload has room for all of it: the sections have neither page nor heading,
and the floats are finite. -/
def Item.Fits (here : Db) : Item → Prop
  | .row .document id =>
    ∀ s ∈ (here.document_sections.lookup id).getD [], s.page = none ∧ s.heading = none
  | .row .memory id => ∀ row, here.row .memory id = some row →
      reads_back .memory row.columns.toMemoryBody
  | _ => True

/-- The store is ready for it: of its circles, the memory's one is the first with
that key, and the message's conversation is live. -/
def Item.Welcome (here there : Db) : Item → Prop
  | .row .memory id => ∀ row circle, here.row .memory id = some row →
      row.columns.share_circle = some circle →
      (list_circles there).find? (fun name =>
        decide (there.circle_keys.lookup name = here.circle_keys.lookup circle)) = some circle
  | .message id => ∀ m, here.messages.lookup id = some m →
      ∃ c, there.row .conversation m.conversation_id = some c ∧ c.deleted = false
  | _ => True

/-! ## What push makes of it -/

theorem outgoing_of_row {e : SyncEngine} {db : Db} {o : Outgoing} {k : RowKind} {id : String}
    (h : o ∈ outgoing e db) (hkey : o.key = k.PREFIX ++ id) : Ships e db k id o := by
  have hparse : parse_key o.key = .row k id := by rw [hkey, parse_row]
  rcases outgoing_cases h with ⟨k', id', row, hrow, hscope, ho⟩ | ⟨id', m, c, -, -, -, rfl⟩ |
    ⟨id', hother⟩ | ⟨rest, hother⟩
  · rw [outgoing_row_key ho, parse_row] at hparse
    cases hparse
    exact ⟨row, hrow, hscope, ho⟩
  · rw [show (outgoing_message e id' m).key = MSG_PREFIX ++ id' from rfl, parse_message] at hparse
    cases hparse
  · rw [hother, parse_app] at hparse
    cases hparse
  · rw [hother, parse_backup] at hparse
    cases hparse

theorem outgoing_of_message {e : SyncEngine} {db : Db} {o : Outgoing} {id : String}
    (h : o ∈ outgoing e db) (hkey : o.key = MSG_PREFIX ++ id) :
    ∃ m, db.messages.lookup id = some m ∧ o = outgoing_message e id m := by
  have hparse : parse_key o.key = .message id := by rw [hkey, parse_message]
  rcases outgoing_cases h with ⟨k, id', row, -, -, ho⟩ | ⟨id', m, c, hm, -, -, rfl⟩ |
    ⟨id', hother⟩ | ⟨rest, hother⟩
  · rw [outgoing_row_key ho, parse_row] at hparse
    cases hparse
  · rw [show (outgoing_message e id' m).key = MSG_PREFIX ++ id' from rfl, parse_message] at hparse
    cases hparse
    exact ⟨m, hm, rfl⟩
  · rw [hother, parse_app] at hparse
    cases hparse
  · rw [hother, parse_backup] at hparse
    cases hparse

/-! ## What the turn makes of it -/

/-- The circle that a row belongs to: memories alone have one. -/
def circle_of : (k : RowKind) → k.Columns → Option String
  | .memory, c => c.share_circle
  | _, _ => none

/-- The row that a payload brings is the row that it was made of. -/
theorem row_of_payload (db : Db) {k : RowKind} (id : String) {row : Row k}
    (hscope : row.sync_scope = "synchronized") (hlive : row.deleted = false) :
    row_of (payload_of db k id row) (circle_of k row.columns) = row := by
  obtain ⟨fixed, columns, scope, updated, deleted⟩ := row
  dsimp only at hscope hlive
  subst hscope hlive
  cases k <;> rfl

/-- A row that the store lacks is inserted as the payload brings it. -/
theorem apply_row_new {k : RowKind} {db : Db} {p : RowPayload k} (hv : p.v = 1)
    (hblob : has_blob k p.body = true) (hnew : db.row k p.id = none) (circle : Option String) :
    (apply_row k db p circle).1.row k p.id = some (row_of p circle) := by
  rw [(apply_row_sets hv hblob db circle).row, hnew]
  rfl

/-- A document that the store lacks comes with its blob, and with its sections as
the payload has them. -/
theorem apply_document_new {db : Db} {p : RowPayload .document} {bytes : Bytes} (hv : p.v = 1)
    (hbytes : p.body.blob_b64 = .inr bytes) (hnew : db.row .document p.id = none) :
    let after := (apply_document db p).1
    after.row .document p.id = some (row_of p none) ∧ bytes ∈ after.blobs ∧
      after.document_sections.lookup p.id = some (p.body.sections.map section_row) := by
  have hdominated : dominated (db.rows .document) p.id p.updated_at = false := by
    rw [Bool.eq_false_iff, Ne, dominated_iff]
    rintro ⟨old, hold, -⟩
    unfold Db.row at hnew
    rw [hnew] at hold
    cases hold
  have hblob : has_blob .document p.body = true := by
    change p.body.blob_b64.isRight = true
    rw [hbytes]
    rfl
  obtain ⟨hsections, hblobs⟩ := apply_document_brings hv hbytes db
  refine ⟨apply_row_new hv hblob hnew none, ?_, ?_⟩
  · exact (hblobs bytes).mpr (.inr ⟨rfl, hdominated⟩)
  · rw [hsections, if_pos ⟨rfl, hdominated⟩]

/-! ### Opening -/

theorem open_scoped_vault {e : SyncEngine} (db : Db) {o : Outgoing} (writer : DeviceId)
    (h : o.sealed_under = .vault e.vault) :
    open_scoped e db (o.object writer) = some (o.raw, none) := by
  unfold open_scoped Outgoing.object
  rw [h]
  simp

theorem open_other {x y : SealKey} (h : y ≠ x) (key : String) (raw : Plain) :
    open_with x key (seal_with y key raw) = none := by
  simp [open_with, seal_with, h]

/-- A circle key is named by the first circle that has it. -/
theorem open_scoped_circle (e : SyncEngine) (db : Db) {o : Outgoing} (writer : DeviceId)
    {key : Bytes} (h : o.sealed_under = .circle key) :
    open_scoped e db (o.object writer) =
      ((list_circles db).find? (fun name => decide (db.circle_keys.lookup name = some key))).map
        (fun name => (o.raw, some name)) := by
  unfold open_scoped Outgoing.object
  dsimp only
  rw [h, open_other SealKey.noConfusion]
  dsimp only
  induction list_circles db with
  | nil => rfl
  | cons name rest ih =>
    rw [List.findSome?_cons, List.find?_cons]
    rcases hname : db.circle_keys.lookup name with _ | found
    · simpa using ih
    · by_cases hfound : found = key
      · subst hfound
        simp
      · have hkeys : SealKey.circle key ≠ .circle found := fun h => hfound (SealKey.circle.inj h).symm
        simpa [open_other hkeys, hfound] using ih

theorem no_grant (item : Item) : strip_prefix CKG_PREFIX item.key = none := by
  unfold Item.key
  cases item with
  | row k id => cases k <;> exact strip_prefix_other (by decide) (by decide) id
  | message id => exact strip_prefix_other (by decide) (by decide) id

/-- What the turn of an object leaves: nothing changes when it does not open. -/
theorem turn_store {e : SyncEngine} {db : Db} {o : Outgoing} {writer : DeviceId} {item : Item}
    (hkey : o.key = item.key) :
    (open_and_apply e db (o.object writer)).1 =
      match open_scoped e db (o.object writer) with
      | none => db
      | some (raw, circle) => (apply_obj e.env e.device db (o.object writer) raw circle).1 := by
  have hgrant : ( strip_prefix CKG_PREFIX (o.object writer).key).isSome = false := by
    rw [show (o.object writer).key = item.key from hkey, no_grant]
    rfl
  unfold open_and_apply
  rw [hgrant, if_neg Bool.false_ne_true]
  rcases open_scoped e db (o.object writer) with _ | ⟨raw, circle⟩
  · rfl
  · dsimp only
    rcases apply_obj e.env e.device db (o.object writer) raw circle with ⟨db', err | _⟩
    · rfl
    · rfl

theorem as_row_self {k : RowKind} (p : RowPayload k) :
    (Plain.row k p).as_row k = if reads_back k p.body then some p else none := by
  simp [Plain.as_row]

/-- The apply path of a live row object. -/
theorem apply_obj_row {env : Env} {me : DeviceId} {db : Db} {obj : Object} {k : RowKind} {id : String}
    (hkey : obj.key = k.PREFIX ++ id) (hlive : obj.tombstone = false) (p : RowPayload k)
    (circle : Option String) :
    (apply_obj env me db obj (.row k p) circle).1 =
      if reads_back k p.body then (apply_row k db p circle).1 else db := by
  unfold apply_obj
  rw [hkey, parse_row]
  dsimp only
  rw [hlive, if_neg Bool.false_ne_true, as_row_self]
  by_cases hreads : reads_back k p.body
  · rw [if_pos hreads, if_pos hreads]
  · rw [if_neg hreads, if_neg hreads]
    rfl

/-! ### Each kind -/

theorem outgoing_row_spec {e : SyncEngine} {db : Db} {k : RowKind} {id : String} {row : Row k}
    {o : Outgoing} (h : outgoing_row e db k id row = some o) (hlive : o.tombstone = false) :
    row.deleted = false ∧ o.raw = .row k (payload_of db k id row) ∧
      row_key e db k row = some o.sealed_under := by
  obtain ⟨key, hkey, rfl⟩ := Option.map_eq_some_iff.mp h
  have hdeleted : row.deleted = false := hlive
  refine ⟨hdeleted, ?_, hkey⟩
  dsimp only
  rw [hdeleted, if_neg Bool.false_ne_true]

/-- The sections of a document are in order, and stay so without their pages. -/
theorem sections_of_payload (sections : List SectionRow)
    (hsorted : sections.Pairwise (fun a b => a.section_ ≤ b.section_)) :
    ((sections.map SectionRow.toDocSection).map section_row).insertionSort
        (fun a b => a.section_ ≤ b.section_) =
      sections.map (fun s => section_row s.toDocSection) := by
  rw [List.map_map]
  apply List.Pairwise.insertionSort_eq
  rw [List.pairwise_map]
  exact hsorted

theorem map_section_row {sections : List SectionRow} :
    sections.map (fun s => section_row s.toDocSection) = sections ↔
      ∀ s ∈ sections, s.page = none ∧ s.heading = none := by
  conv_lhs => rhs; rw [← List.map_id sections]
  rw [List.map_inj_left]
  refine forall₂_congr (fun s _ => ?_)
  obtain ⟨base, page, heading⟩ := s
  unfold section_row
  simp [eq_comm]

/-- A row of a kind other than memory and document arrives as it is. -/
theorem row_trip {a b : SyncEngine} (hvault : b.vault = a.vault) {here db : Db} {k : RowKind}
    {id : String} {o : Outgoing} (hk : k ≠ .memory ∧ k ≠ .document) (hships : Ships a here k id o)
    (hlive : o.tombstone = false) (hnew : db.row k id = none) :
    (open_and_apply b db (o.object a.device)).1.row k id = here.row k id := by
  obtain ⟨row, hrow, hscope, ho⟩ := hships
  obtain ⟨hdeleted, hraw, hsealed⟩ := outgoing_row_spec ho hlive
  have hkey : o.key = (Item.row k id).key := outgoing_row_key ho
  have hunder : o.sealed_under = .vault b.vault := by
    rw [hvault]
    cases k <;> first | exact (hk.1 rfl).elim |
      exact (hk.2 rfl).elim | exact (Option.some.inj hsealed).symm
  have hreads : reads_back k (payload_of here k id row).body = true := by
    cases k <;> first | exact (hk.1 rfl).elim | rfl
  have hcircle : circle_of k row.columns = none := by
    cases k <;> first | exact (hk.1 rfl).elim | rfl
  rw [turn_store hkey, open_scoped_vault db a.device hunder, hraw]
  dsimp only
  rw [apply_obj_row hkey hlive, if_pos hreads, hrow]
  have hself := row_of_payload here id hscope hdeleted
  rw [hcircle] at hself
  have hnew' : db.row k (payload_of here k id row).id = none := hnew
  have hblob : has_blob k (payload_of here k id row).body = true := by
    cases k <;> first | exact (hk.2 rfl).elim | rfl
  exact (apply_row_new rfl hblob hnew' none).trans (congrArg some hself)

/-- A document arrives with its blob; its sections arrive without their pages. -/
theorem document_trip {a b : SyncEngine} (hvault : b.vault = a.vault) {here db : Db} {id : String}
    {o : Outgoing} (hships : Ships a here .document id o) (hlive : o.tombstone = false)
    (hnew : db.row .document id = none) :
    (Item.row .document id).SameIn here (open_and_apply b db (o.object a.device)).1 ↔
      (Item.row .document id).Fits here := by
  obtain ⟨row, hrow, hscope, ho⟩ := hships
  obtain ⟨hdeleted, hraw, hsealed⟩ := outgoing_row_spec ho hlive
  have hkey : o.key = (Item.row .document id).key := outgoing_row_key ho
  have hunder : o.sealed_under = .vault b.vault := by
    change (if row.deleted ∨ row.columns.blob ∈ here.blobs then some (SealKey.vault a.vault) else none) =
      some o.sealed_under at hsealed
    split at hsealed
    · rw [hvault]
      exact (Option.some.inj hsealed).symm
    · cases hsealed
  have hnew' : db.row .document (payload_of here .document id row).id = none := hnew
  obtain ⟨hrow', hblob, hsections⟩ := apply_document_new rfl rfl hnew'
  have hafter : (open_and_apply b db (o.object a.device)).1 =
      (apply_document db (payload_of here .document id row)).1 := by
    rw [turn_store hkey, open_scoped_vault db a.device hunder, hraw]
    dsimp only
    rw [apply_obj_row hkey hlive]
    rfl
  have hsorted : (sections_of here id).Pairwise (fun a b => a.section_ ≤ b.section_) :=
    List.pairwise_insertionSort (fun a b : SectionRow => a.section_ ≤ b.section_) _
  have hthere : sections_of (apply_document db (payload_of here .document id row)).1 id =
      (sections_of here id).map (fun s => section_row s.toDocSection) := by
    have hsections' : (apply_document db (payload_of here .document id row)).1.document_sections.lookup
        id = some (((sections_of here id).map SectionRow.toDocSection).map section_row) := hsections
    unfold sections_of at hsections' ⊢
    rw [hsections', Option.getD_some]
    exact sections_of_payload (sections_of here id) hsorted
  have hmem : ∀ s, s ∈ sections_of here id ↔ s ∈ (here.document_sections.lookup id).getD [] := by
    intro s
    unfold sections_of
    exact List.mem_insertionSort _
  unfold Item.SameIn Item.Fits
  dsimp only
  rw [hafter, hthere, map_section_row]
  simp only [hmem]
  constructor
  · exact fun h => h.2.1
  · intro h
    refine ⟨?_, h, ?_⟩
    · rw [hrow]
      exact hrow'.trans (congrArg some (row_of_payload here id hscope hdeleted))
    · intro row' h'
      rw [hrow] at h'
      cases h'
      exact hblob

/-- A memory arrives when its floats do, under the circle that the store finds. -/
theorem memory_trip {a b : SyncEngine} (hvault : b.vault = a.vault) {here db : Db} {id : String}
    {o : Outgoing} (hships : Ships a here .memory id o) (hlive : o.tombstone = false)
    (hnew : db.row .memory id = none) :
    (Item.row .memory id).SameIn here (open_and_apply b db (o.object a.device)).1 ↔
      (Item.row .memory id).Fits here ∧ (Item.row .memory id).Welcome here db := by
  obtain ⟨row, hrow, hscope, ho⟩ := hships
  obtain ⟨hdeleted, hraw, hsealed⟩ := outgoing_row_spec ho hlive
  have hkey : o.key = (Item.row .memory id).key := outgoing_row_key ho
  have hnew' : db.row .memory (payload_of here .memory id row).id = none := hnew
  -- what the turn leaves when the object opens for a circle
  have hopens : ∀ circle, open_scoped b db (o.object a.device) = some (o.raw, circle) →
      ((open_and_apply b db (o.object a.device)).1.row .memory id = here.row .memory id ↔
        reads_back .memory row.columns.toMemoryBody ∧ circle = row.columns.share_circle) := by
    intro circle hopen
    rw [turn_store hkey, hopen, hraw, hrow]
    dsimp only
    rw [apply_obj_row hkey hlive]
    by_cases hreads : reads_back .memory row.columns.toMemoryBody
    · rw [if_pos (show reads_back .memory (payload_of here .memory id row).body from hreads)]
      have happly := apply_row_new rfl rfl hnew' circle
      rw [show (apply_row .memory db (payload_of here .memory id row) circle).1.row .memory id =
        some (row_of (payload_of here .memory id row) circle) from happly]
      have hself := row_of_payload here id hscope hdeleted
      constructor
      · intro h
        refine ⟨hreads, ?_⟩
        have hcolumns := congrArg (fun r : Row .memory => r.columns.share_circle) (Option.some.inj h)
        exact hcolumns
      · rintro ⟨-, rfl⟩
        exact congrArg some hself
    · rw [if_neg (show ¬ reads_back .memory (payload_of here .memory id row).body from hreads), hnew]
      simp [hreads]
  have hfits : (Item.row .memory id).Fits here ↔ reads_back .memory row.columns.toMemoryBody := by
    unfold Item.Fits
    dsimp only
    rw [hrow]
    simp
  change (open_and_apply b db (o.object a.device)).1.row .memory id = here.row .memory id ↔ _
  rw [hfits]
  change memory_key a here row.columns.share_circle = some o.sealed_under at hsealed
  unfold memory_key at hsealed
  rcases hshared : row.columns.share_circle with _ | circle
  · rw [hshared] at hsealed
    have hunder : o.sealed_under = .vault b.vault := by
      rw [hvault]
      exact (Option.some.inj hsealed).symm
    have hwelcome : (Item.row .memory id).Welcome here db := by
      intro row' circle h' hcircle
      rw [hrow] at h'
      cases h'
      rw [hshared] at hcircle
      cases hcircle
    rw [hopens none (open_scoped_vault db a.device hunder), hshared]
    exact ⟨fun h => ⟨h.1, hwelcome⟩, fun h => ⟨h.1, rfl⟩⟩
  · rw [hshared] at hsealed
    obtain ⟨key, hcirclekey, hunder⟩ := Option.map_eq_some_iff.mp hsealed
    have hwelcome : (Item.row .memory id).Welcome here db ↔
        (list_circles db).find? (fun name => decide (db.circle_keys.lookup name = some key)) =
          some circle := by
      constructor
      · intro h
        rw [← hcirclekey]
        exact h row circle hrow hshared
      · intro h row' circle' h' hcircle
        rw [hrow] at h'
        cases h'
        rw [hshared] at hcircle
        cases hcircle
        rw [hcirclekey]
        exact h
    rw [hwelcome]
    have hscoped := open_scoped_circle b db a.device hunder.symm
    rcases hfind : (list_circles db).find? (fun name =>
        decide (db.circle_keys.lookup name = some key)) with _ | found
    · rw [hfind] at hscoped
      rw [turn_store hkey, hscoped]
      simp [hnew, hrow]
    · rw [hfind] at hscoped
      rw [hopens (some found) hscoped, hshared]

/-- A message arrives under a live conversation. -/
theorem message_trip {a b : SyncEngine} (hvault : b.vault = a.vault) {here db : Db} {id : String}
    {m : MessageRow} (hm : here.messages.lookup id = some m) (hnew : db.messages.lookup id = none) :
    (Item.message id).SameIn here
        (open_and_apply b db ((outgoing_message a id m).object a.device)).1 ↔
      (Item.message id).Welcome here db := by
  have hkey : (outgoing_message a id m).key = (Item.message id).key := rfl
  have hunder : (outgoing_message a id m).sealed_under = .vault b.vault := by
    rw [hvault]
    rfl
  have hopen := open_scoped_vault db a.device hunder
  have hafter : (open_and_apply b db ((outgoing_message a id m).object a.device)).1 =
      (apply_message db { m with v := 1, id := id }).1 := by
    rw [turn_store hkey, hopen]
    unfold apply_obj
    rw [show ((outgoing_message a id m).object a.device).key = MSG_PREFIX ++ id from rfl, parse_message]
    rfl
  unfold Item.SameIn Item.Welcome
  dsimp only
  rw [hafter, hm]
  simp only [Option.some.injEq, forall_eq']
  unfold apply_message
  simp only [ne_eq, not_true_eq_false, if_false]
  rcases hconv : db.row .conversation m.conversation_id with _ | c
  · simp [done, hnew]
  · dsimp only
    cases hdeleted : c.deleted with
    | true => simp [done, hnew, hdeleted]
    | false => simp [done, hnew, hdeleted]

/-! ## The trip -/

/-- **A synced row arrives as it is when its payload has room for it.** Whatever else
the transport holds, a pull comes to the object that push made of a live row, and
when the store lacks the row by then, the turn leaves the same row, with all that
belongs to it, exactly when the payload has room for all of it and the store is
ready for it. The payload of a document has no room for the page and the heading
of a section. -/
theorem a_synced_row_arrives_whole_when_its_payload_has_room {a b : SyncEngine}
    (hvault : b.vault = a.vault) (hdevice : a.device ≠ b.device) {s s' : Site}
    {out out' : SyncOutcome} {o : Outgoing} {item : Item} (ho : o ∈ outgoing a s.db)
    (hkey : o.key = item.key) (hlive : o.tombstone = false)
    (hnewer : mirror_version s.toLocal o.key < o.version)
    (hpush : push_sealed a (fun _ => none) s out o = (s', .ok out')) {x : Object}
    (hslot : s'.remote.lookup o.key = some x) {objects : List Object}
    (hkeys : (objects.map SyncObject.key).Nodup) (hx : x ∈ objects) {l : Local}
    (hunseen : seen l (header x) = false) :
    ∃ before behind, pending b l (View.of objects) = before ++ x :: behind ∧
      ∀ db, store_behind b l.db before = some db → item.Lacks db →
        (item.SameIn s.db (open_and_apply b db x).1 ↔ item.Fits s.db ∧ item.Welcome s.db db) := by
  obtain rfl : x = o.object a.device := by
    unfold push_sealed at hpush
    rw [if_neg (Nat.not_le.mpr hnewer)] at hpush
    cases hpush
    rw [show s.remote.insert (o.object a.device).key (o.object a.device) =
      s.remote.insert o.key (o.object a.device) from rfl, AList.lookup_insert] at hslot
    exact (Option.some.inj hslot).symm
  obtain ⟨p, q, rfl⟩ := List.append_of_mem hx
  have hwanted : wanted b l (o.object a.device) ≠ none := by
    have hrank : kind_rank (o.object a.device).key ≠ none := by
      rw [show (o.object a.device).key = item.key from hkey]
      cases item with
      | row k id => simp [Item.key, kind_rank_row]
      | message id => simp [Item.key, kind_rank_message]
    unfold wanted
    split
    · rename_i h
      exact (hrank h).elim
    · rw [show (o.object a.device).writer = a.device from rfl, if_neg hdevice, hunseen]
      simp
  rcases pending_beside b l hkeys with ⟨hnone, _⟩ | ⟨before, behind, hsplit, _⟩
  · exact (hwanted hnone).elim
  refine ⟨before, behind, hsplit, ?_⟩
  intro db _ hnew
  cases item with
  | row k id =>
    have hships := outgoing_of_row ho hkey
    cases k with
    | memory => exact memory_trip hvault hships hlive hnew
    | document =>
      rw [document_trip hvault hships hlive hnew]
      simp [Item.Welcome]
    | conversation | task | workflow | notification =>
      exact ⟨fun _ => ⟨trivial, trivial⟩, fun _ =>
        row_trip hvault ⟨by decide, by decide⟩ hships hlive hnew⟩
  | message id =>
    obtain ⟨m, hm, rfl⟩ := outgoing_of_message ho hkey
    rw [message_trip hvault hm hnew]
    simp [Item.Fits]

/-! ### A book with pages -/

/-- The laptop's peer, with the same vault key. -/
def phone : SyncEngine := { laptop with device := ⟨"phone"⟩ }

def book : Row .document :=
  { fixed := { created_at := 1000000 },
    columns := { title := some "Tea", mime := "application/pdf", blob := [7], trust := "user" },
    sync_scope := "synchronized", updated_at := 1000000, deleted := false }

/-- A phone that has the book, with one section on a page. -/
def phone_site (page : Option Int) : Site :=
  { db :=
      { Db.fresh [] with
        rows := Function.update (Db.fresh []).rows .document
          ((∅ : Table String (Row .document)).insert "b" book)
        blobs := [[7]],
        document_sections := (∅ : Table String (List SectionRow)).insert "b"
          [{ section_ := 0, text := "Green tea", embedding := none, page := page, heading := none }] },
    sync_objects := ∅, remote := ∅ }

def book_out (page : Option Int) : Outgoing :=
  { key := "doc/b", sealed_under := .vault ⟨0, 0⟩,
    raw := .row .document (payload_of (phone_site page).db .document "b" book),
    version := version_of 1000000, updated_at := 1000000, tombstone := false }

theorem book_outgoing (page : Option Int) : book_out page ∈ outgoing phone (phone_site page).db := by
  unfold outgoing
  simp only [List.mem_append]
  refine .inl (.inl (.inl (.inl (.inl (.inr ?_)))))
  exact List.mem_singleton.mpr rfl

/-- The section arrives without its page. -/
theorem the_page_stays_on_the_phone :
    let pushed := push_sealed phone (fun _ => none) (phone_site (some 3)) SyncOutcome.zero
      (book_out (some 3))
    let pulled := pull laptop laptop_empty (View.of (pushed.1.remote.entries.map Sigma.snd))
    pulled.2 = .ok { SyncOutcome.zero with pulled := 1 } ∧
      pulled.1.db.row .document "b" = some book ∧
      (sections_of (phone_site (some 3)).db "b").map SectionRow.page = [some 3] ∧
      (sections_of pulled.1.db "b").map SectionRow.page = [none] := by
  decide

/-- Without pages the book arrives whole. -/
theorem a_book_without_pages_arrives_whole :
    (Item.row .document "b").SameIn (phone_site none).db
      (open_and_apply laptop laptop_empty.db ((book_out none).object phone.device)).1 := by
  have hpush : push_sealed phone (fun _ => none) (phone_site none) SyncOutcome.zero (book_out none) =
      (_, .ok _) := rfl
  have hkey : (book_out none).key = (Item.row .document "b").key := rfl
  have hkeys : ([(book_out none).object phone.device].map SyncObject.key).Nodup :=
    List.nodup_singleton _
  have hunseen : seen laptop_empty (header ((book_out none).object phone.device)) = false := rfl
  obtain ⟨before, behind, hpending, htrip⟩ := a_synced_row_arrives_whole_when_its_payload_has_room
    (a := phone) (b := laptop) rfl (by decide) (book_outgoing none) hkey rfl (by decide) hpush rfl hkeys
    List.mem_cons_self hunseen
  have hbefore : before = [] := by
    have hlength := congrArg List.length hpending
    rw [List.length_append, List.length_cons] at hlength
    have hone : (pending laptop laptop_empty
        (View.of [(book_out none).object phone.device])).length = 1 := rfl
    rw [hone] at hlength
    exact List.length_eq_zero_iff.mp (by omega)
  subst hbefore
  refine (htrip laptop_empty.db rfl rfl).mpr ⟨?_, trivial⟩
  intro section_ hsection
  rw [List.mem_singleton.mp hsection]
  exact ⟨rfl, rfl⟩

end pai_sync.engine
