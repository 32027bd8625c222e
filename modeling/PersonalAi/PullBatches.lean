-- Objects that become visible in batches: what the pulls between them make of the
-- store, against one pull of all.
import PersonalAi.RowTrips

open pai_core sealing table text sorting views

namespace pai_sync.engine

/-! ## What a well-formed object brings -/

/-- What an object of another device does: a live row, the tombstone of a row, or a
message, of the version that we know. -/
inductive Change
  | live (k : RowKind) (p : RowPayload k) (good : p.v = 1 ∧ has_blob k p.body = true)
  | tomb (k : RowKind) (id : String) (updated_at : Timestamp)
  | message (p : MessagePayload) (good : p.v = 1)

def Change.key : Change → String
  | .live k p _ => k.PREFIX ++ p.id
  | .tomb k id _ => k.PREFIX ++ id
  | .message p _ => MSG_PREFIX ++ p.id

/-- What an object brings, when it is sealed with the vault key for its own key. -/
def change_of (e : SyncEngine) (o : Object) : Option Change :=
  match parse_key o.key, o.tombstone, open_with (.vault e.vault) o.key o.ciphertext with
  | .row k id, true, some _ => some (.tomb k id o.updated_at)
  | .row k id, false, some raw =>
    (raw.as_row k).bind (fun p =>
      if h : p.id = id ∧ p.v = 1 ∧ has_blob k p.body = true then some (.live k p h.2) else none)
  | .message id, false, some (.message p) =>
    if h : p.id = id ∧ p.v = 1 then some (.message p h.2) else none
  | _, _, _ => none

/-- An object that another device pushed: a row of any kind, its tombstone, or a
message. -/
def WellFormed (e : SyncEngine) (o : Object) : Prop :=
  o.writer ≠ e.device ∧ (change_of e o).isSome

def Change.apply (db : Db) : Change → Db
  | .live k p _ => (apply_row k db p none).1
  | .tomb k id t => (apply_row_tombstone k db id t).1
  | .message p _ => (apply_message db p).1

theorem change_key {e : SyncEngine} {o : Object} {c : Change} (h : change_of e o = some c) :
    c.key = o.key := by
  have hnames := names_parse_key o.key
  unfold change_of at h
  split at h
  · rename_i k id _ hparse _ _
    cases h
    rw [hparse] at hnames
    exact hnames.symm
  · rename_i k id raw hparse _ _
    rw [hparse] at hnames
    obtain ⟨p, -, hp⟩ := Option.bind_eq_some_iff.mp h
    split at hp
    · rename_i hok
      cases hp
      exact (congrArg (k.PREFIX ++ ·) hok.1).trans hnames.symm
    · cases hp
  · rename_i id p hparse _ _
    rw [hparse] at hnames
    split at h
    · rename_i hok
      cases h
      exact (congrArg (MSG_PREFIX ++ ·) hok.1).trans hnames.symm
    · cases h
  · cases h

theorem turn_of_ok (r : Applied) : r.2 = .ok () →
    (match r with
      | (db, .error err) => (db, .error err)
      | (db, .ok ()) => (db, .ok true) : Db × Except Error Bool) = (r.1, .ok true) := by
  obtain ⟨db, result⟩ := r
  intro h
  cases h
  rfl

/-- The turn of a well-formed object is its change. -/
theorem turn_change {e : SyncEngine} {o : Object} {c : Change} (h : change_of e o = some c)
    (db : Db) : open_and_apply e db o = (c.apply db, .ok true) := by
  have hgrant : ( strip_prefix CKG_PREFIX o.key).isSome = false := by
    rw [← change_key h]
    cases c with
    | live k p _ => exact congrArg Option.isSome (no_grant (.row k p.id))
    | tomb k id t => exact congrArg Option.isSome (no_grant (.row k id))
    | message p _ => exact congrArg Option.isSome (no_grant (.message p.id))
  unfold change_of at h
  unfold open_and_apply open_scoped
  rw [hgrant, if_neg Bool.false_ne_true]
  split at h
  · rename_i k id raw hparse htomb hopen
    cases h
    rw [hopen]
    dsimp only
    have happly : apply_obj e.env e.device db o raw none = apply_row_tombstone k db id o.updated_at := by
      unfold apply_obj
      rw [hparse, htomb]
      rfl
    rw [happly]
    exact turn_of_ok _ (apply_tombstone_ok k db id o.updated_at).1
  · rename_i k id raw hparse htomb hopen
    obtain ⟨p, hrow, hp⟩ := Option.bind_eq_some_iff.mp h
    split at hp
    · rename_i hgood
      cases hp
      rw [hopen]
      dsimp only
      have happly : apply_obj e.env e.device db o raw none = apply_row k db p none := by
        unfold apply_obj
        rw [hparse, htomb]
        dsimp only
        rw [if_neg Bool.false_ne_true, hrow]
      rw [happly]
      exact turn_of_ok _ (apply_row_ok hgood.2.1 hgood.2.2 db none).1
    · cases hp
  · rename_i id p hparse htomb hopen
    split at h
    · rename_i hgood
      cases h
      rw [hopen]
      dsimp only
      have happly : apply_obj e.env e.device db o (.message p) none = apply_message db p := by
        unfold apply_obj
        rw [hparse, htomb]
        rfl
      rw [happly]
      exact turn_of_ok _ (apply_message_lands hgood.2 db).1
    · cases h
  · cases h

/-! ## Pulls in a row -/

/-- One pull behind each batch that becomes visible. -/
def pulls (e : SyncEngine) : Local → List Object → List (List Object) → Local
  | l, _, [] => l
  | l, visible, batch :: rest =>
    pulls e (pull e l (View.of (visible ++ batch))).1 (visible ++ batch) rest

/-- What a pull takes of a batch, in its order. -/
def taken (e : SyncEngine) (l : Local) (batch : List Object) : List Object :=
  ((batch.filterMap (wanted e l)).insertionSort before_or_with).map Prod.snd

def changes (e : SyncEngine) (objects : List Object) : List Change :=
  objects.filterMap (change_of e)

/-- The loop over well-formed objects makes their changes and mirrors them all. -/
theorem apply_pending_changes {e : SyncEngine} {objects : List Object}
    (hwell : ∀ o ∈ objects, (change_of e o).isSome) (l : Local) (out : SyncOutcome) :
    (apply_pending e l out objects).1 =
      { db := (changes e objects).foldl Change.apply l.db,
        sync_objects := objects.foldl (fun m o => m.insert o.key o) l.sync_objects } := by
  induction objects generalizing l out with
  | nil => rfl
  | cons o rest ih =>
    obtain ⟨c, hc⟩ := Option.isSome_iff_exists.mp (hwell o List.mem_cons_self)
    have hrest := ih (fun o ho => hwell o (List.mem_cons_of_mem _ ho))
      (set_mirror { l with db := c.apply l.db } o) { out with pulled := out.pulled + 1 }
    unfold apply_pending pull_one
    rw [turn_change hc]
    unfold changes
    rw [List.filterMap_cons, hc]
    exact hrest

theorem mirrored_other {objects : List Object} (m : Table String Object) {key : String}
    (h : ∀ o ∈ objects, o.key ≠ key) :
    (objects.foldl (fun m o => m.insert o.key o) m).lookup key = m.lookup key :=
  foldl_view_eq (fun m => m.lookup key) _ objects
    (fun _ o ho => AList.lookup_insert_ne (Ne.symm (h o ho))) m

theorem mirrored_self {objects : List Object} (m : Table String Object)
    (hkeys : (objects.map SyncObject.key).Nodup) {o : Object} (ho : o ∈ objects) :
    (objects.foldl (fun m o => m.insert o.key o) m).lookup o.key = some o := by
  obtain ⟨a, b, rfl⟩ := List.append_of_mem ho
  rw [List.map_append, List.map_cons, List.nodup_append] at hkeys
  have hb : ∀ x ∈ b, x.key ≠ o.key := by
    intro x hx heq
    apply (List.nodup_cons.mp hkeys.2.1).1
    rw [← heq]
    exact List.mem_map_of_mem hx
  rw [List.foldl_append, List.foldl_cons, mirrored_other _ hb]
  exact AList.lookup_insert _

theorem wanted_congr {e : SyncEngine} {l l' : Local} {o : Object}
    (h : l'.sync_objects.lookup o.key = l.sync_objects.lookup o.key) :
    wanted e l' o = wanted e l o := by
  unfold wanted seen mirror header
  dsimp only
  rw [h]

/-- What the mirror holds is not wanted again. -/
theorem wanted_mirrored {e : SyncEngine} {l : Local} {o : Object}
    (h : l.sync_objects.lookup o.key = some o) : wanted e l o = none := by
  have hseen : seen l (header o) = true := by
    unfold seen mirror header
    dsimp only
    rw [h]
    simp
  unfold wanted
  rw [hseen]
  split
  · rfl
  · split <;> rfl

/-- An object of a kind that is in use is wanted, or the device wrote it, or the mirror has its
version. -/
theorem wanted_or_mirrored (e : SyncEngine) (l : Local) {o : Object} {rank : Nat}
    (hrank : kind_rank o.key = some rank) :
    wanted e l o ≠ none ∨ o.writer = e.device ∨ o.version ≤ mirror_version l o.key := by
  by_cases hwriter : o.writer = e.device
  · exact .inr (.inl hwriter)
  cases hseen : seen l (header o) with
  | false =>
    refine .inl ?_
    unfold wanted
    rw [hrank, hseen]
    dsimp only
    rw [if_neg hwriter]
    simp
  | true =>
    refine .inr (.inr ?_)
    unfold seen at hseen
    rw [show (header o).key = o.key from rfl] at hseen
    split at hseen
    · cases hseen
    · rename_i v t hmirror
      have hle : (header o).version ≤ v := by
        have hor := of_decide_eq_true hseen
        omega
      unfold mirror_version
      rw [hmirror]
      exact hle

theorem mem_taken {e : SyncEngine} {l : Local} {batch : List Object} {o : Object} :
    o ∈ taken e l batch ↔ o ∈ batch ∧ wanted e l o ≠ none := by
  unfold taken
  rw [List.mem_map]
  simp only [List.mem_insertionSort, List.mem_filterMap]
  constructor
  · rintro ⟨x, ⟨o', ho', hx⟩, rfl⟩
    rw [(wanted_some hx).1]
    exact ⟨ho', by rw [hx]; simp⟩
  · rintro ⟨hmem, hwanted⟩
    obtain ⟨x, hx⟩ := Option.ne_none_iff_exists'.mp hwanted
    exact ⟨x, ⟨o, hmem, hx⟩, (wanted_some hx).1⟩

/-- The objects that are taken, in any order, are those of the batch that are wanted. -/
theorem taken_perm (e : SyncEngine) (l : Local) (batch : List Object) :
    (taken e l batch).Perm (batch.filter (fun o => (wanted e l o).isSome)) := by
  unfold taken
  refine ((List.perm_insertionSort before_or_with _).map Prod.snd).trans (List.Perm.of_eq ?_)
  induction batch with
  | nil => rfl
  | cons o rest ih =>
    rw [List.filterMap_cons]
    rcases hwanted : wanted e l o with _ | x
    · rw [List.filter_cons_of_neg (by simp [hwanted])]
      exact ih
    · rw [List.filter_cons_of_pos (by simp [hwanted]), List.map_cons, ih, (wanted_some hwanted).1]

theorem taken_nodup {e : SyncEngine} {l : Local} {batch : List Object}
    (h : (batch.map SyncObject.key).Nodup) : ((taken e l batch).map SyncObject.key).Nodup := by
  rw [((taken_perm e l batch).map SyncObject.key).nodup_iff]
  exact h.sublist (List.filter_sublist.map _)

theorem taken_congr {e : SyncEngine} {l l' : Local} {batch : List Object}
    (h : ∀ o ∈ batch, wanted e l' o = wanted e l o) : taken e l' batch = taken e l batch := by
  unfold taken
  rw [List.filterMap_congr h]

theorem taken_append {e : SyncEngine} {l : Local} {visible batch : List Object}
    (h : ∀ o ∈ visible, wanted e l o = none) : taken e l (visible ++ batch) = taken e l batch := by
  have hnone : visible.filterMap (wanted e l) = [] := by
    rw [List.filterMap_eq_nil_iff]
    exact h
  unfold taken
  rw [List.filterMap_append, hnone, List.nil_append]

/-- One pull of well-formed objects. -/
theorem pull_changes {e : SyncEngine} {l : Local} {objects : List Object}
    (hkeys : (objects.map SyncObject.key).Nodup)
    (hwell : ∀ o ∈ objects, (change_of e o).isSome) :
    (pull e l (View.of objects)).1 =
      { db := (changes e (taken e l objects)).foldl Change.apply l.db,
        sync_objects := (taken e l objects).foldl (fun m o => m.insert o.key o) l.sync_objects } := by
  unfold pull
  rw [pending_of e l hkeys]
  exact apply_pending_changes (fun o ho => hwell o (mem_taken.mp ho).1) l _

/-- The store behind the pulls: each batch brings what the first mirror wants of it. -/
theorem pulls_changes {e : SyncEngine} (l₀ : Local) {l : Local} {visible : List Object}
    {batches : List (List Object)}
    (hkeys : ((visible ++ batches.flatten).map SyncObject.key).Nodup)
    (hwell : ∀ o ∈ visible ++ batches.flatten, WellFormed e o)
    (hseen : ∀ o ∈ visible, wanted e l o = none)
    (hsame : ∀ o ∈ batches.flatten, wanted e l o = wanted e l₀ o) :
    (pulls e l visible batches).db =
      (changes e (batches.map (taken e l₀)).flatten).foldl Change.apply l.db := by
  induction batches generalizing l visible with
  | nil => rfl
  | cons batch rest ih =>
    rw [List.flatten_cons, ← List.append_assoc] at hkeys hwell
    have hkeys' : ((visible ++ batch).map SyncObject.key).Nodup := by
      rw [List.map_append] at hkeys
      exact (List.nodup_append.mp hkeys).1
    have hbatch : ∀ o ∈ batch, wanted e l o = wanted e l₀ o :=
      fun o ho => hsame o (by rw [List.flatten_cons]; exact List.mem_append_left _ ho)
    have htaken : taken e l (visible ++ batch) = taken e l₀ batch :=
      (taken_append hseen).trans (taken_congr hbatch)
    have hpull := pull_changes (l := l) hkeys' (fun o ho => (hwell o (List.mem_append_left _ ho)).2)
    rw [htaken] at hpull
    have htakenkeys : ((taken e l₀ batch).map SyncObject.key).Nodup := by
      apply taken_nodup
      exact hkeys'.sublist ((List.sublist_append_right visible batch).map _)
    -- What the batch does not bring is wanted as before.
    have hkept : ∀ o : Object, (∀ x ∈ taken e l₀ batch, x.key ≠ o.key) →
        wanted e (pull e l (View.of (visible ++ batch))).1 o = wanted e l o := by
      intro o hother
      apply wanted_congr
      rw [hpull]
      exact mirrored_other _ hother
    have hnext : ∀ o ∈ visible ++ batch,
        wanted e (pull e l (View.of (visible ++ batch))).1 o = none := by
      intro o ho
      by_cases hmem : o ∈ taken e l₀ batch
      · apply wanted_mirrored
        rw [hpull]
        exact mirrored_self _ htakenkeys hmem
      · have hother : ∀ x ∈ taken e l₀ batch, x.key ≠ o.key := by
          intro x hx heq
          apply hmem
          have hxmem : x ∈ visible ++ batch := List.mem_append_right _ (mem_taken.mp hx).1
          rwa [← List.inj_on_of_nodup_map hkeys' hxmem ho heq]
        rw [hkept o hother]
        rcases List.mem_append.mp ho with hvisible | hin
        · exact hseen o hvisible
        · rw [hbatch o hin]
          by_contra hwanted
          exact hmem (mem_taken.mpr ⟨hin, hwanted⟩)
    have hrest : ∀ o ∈ rest.flatten,
        wanted e (pull e l (View.of (visible ++ batch))).1 o = wanted e l₀ o := by
      intro o ho
      have hother : ∀ x ∈ taken e l₀ batch, x.key ≠ o.key := by
        intro x hx heq
        rw [List.map_append, List.nodup_append] at hkeys
        exact hkeys.2.2 _ (List.mem_map_of_mem (List.mem_append_right _ (mem_taken.mp hx).1)) _
          (List.mem_map_of_mem ho) heq
      rw [hkept o hother]
      exact hsame o (by rw [List.flatten_cons]; exact List.mem_append_right _ ho)
    unfold pulls
    rw [ih hkeys hwell hnext hrest, hpull, List.map_cons, List.flatten_cons]
    unfold changes
    rw [List.filterMap_append, List.foldl_append]

/-! ## What changes what -/

theorem row_key_ne {k k' : RowKind} {id id' : String} :
    k.PREFIX ++ id ≠ k'.PREFIX ++ id' ↔ ¬ (k' = k ∧ id' = id) := by
  constructor
  · rintro h ⟨rfl, rfl⟩
    exact h rfl
  · intro h heq
    have hparse := congrArg parse_key heq
    rw [parse_row, parse_row] at hparse
    cases hparse
    exact h ⟨rfl, rfl⟩

theorem message_key_ne (k : RowKind) (id i : String) : k.PREFIX ++ id ≠ MSG_PREFIX ++ i := by
  intro heq
  have hparse := congrArg parse_key heq
  rw [parse_row, parse_message] at hparse
  cases hparse

/-- A row depends on the change under its key alone. -/
theorem Change.row_other {c : Change} {k : RowKind} {id : String} (h : c.key ≠ k.PREFIX ++ id)
    (db : Db) : (c.apply db).row k id = db.row k id := by
  cases c with
  | live k' p good => exact (apply_row_sets good.1 good.2 db none).others k id (row_key_ne.mp h)
  | tomb k' id' t => exact (apply_tombstone_sets k' db id' t).others k id (row_key_ne.mp h)
  | message p good =>
    unfold Change.apply Db.row
    rw [(apply_message_lands good db).2.1]

theorem Change.row_same {c : Change} {k : RowKind} {id : String} (h : c.key = k.PREFIX ++ id)
    {db db' : Db} (hrow : db.row k id = db'.row k id) :
    (c.apply db).row k id = (c.apply db').row k id := by
  cases c with
  | live k' p good =>
    obtain ⟨rfl, rfl⟩ := not_not.mp (fun hne => row_key_ne.mpr hne h)
    exact ((apply_row_sets good.1 good.2 db none).row.trans (by rw [hrow])).trans
      (apply_row_sets good.1 good.2 db' none).row.symm
  | tomb k' id' t =>
    obtain ⟨rfl, rfl⟩ := not_not.mp (fun hne => row_key_ne.mpr hne h)
    exact ((apply_tombstone_sets k db id t).row.trans (by rw [hrow])).trans
      (apply_tombstone_sets k db' id t).row.symm
  | message p good => exact (message_key_ne k id p.id h.symm).elim

/-- The sections of a document depend on the change under its key alone. -/
theorem Change.sections_other {c : Change} {id : String} (h : c.key ≠ DOC_PREFIX ++ id) (db : Db) :
    (c.apply db).document_sections.lookup id = db.document_sections.lookup id := by
  have hkey : c.key ≠ RowKind.document.PREFIX ++ id := h
  cases c with
  | live k p good =>
    unfold Change.apply
    dsimp only
    by_cases hk : k = .document
    · subst hk
      obtain ⟨bytes, hbytes⟩ := Sum.isRight_iff.mp (show p.body.blob_b64.isRight from good.2)
      have hid : id ≠ p.id := fun heq => row_key_ne.mp hkey ⟨rfl, heq⟩
      rw [show (apply_row .document db p none).1 = (apply_document db p).1 from rfl,
        (apply_document_brings good.1 hbytes db).1, if_neg (fun hnew => hid hnew.1)]
    · rw [(apply_row_no_document hk db none).1]
  | tomb k id' t =>
    have hother : ¬ (k = .document ∧ id = id') := fun hsame => row_key_ne.mp hkey ⟨hsame.1.symm, hsame.2⟩
    exact ((apply_tombstone_document k db id' t).1 id).trans (if_neg hother)
  | message p good =>
    unfold Change.apply
    rw [(apply_message_lands good db).2.2.1]

theorem Change.sections_same {c : Change} {id : String} (h : c.key = DOC_PREFIX ++ id) {db db' : Db}
    (hrow : db.row .document id = db'.row .document id)
    (hsections : db.document_sections.lookup id = db'.document_sections.lookup id) :
    (c.apply db).document_sections.lookup id = (c.apply db').document_sections.lookup id := by
  have hkey : c.key = RowKind.document.PREFIX ++ id := h
  cases c with
  | live k p good =>
    obtain ⟨rfl, rfl⟩ := not_not.mp (fun hne => row_key_ne.mpr hne hkey)
    obtain ⟨bytes, hbytes⟩ := Sum.isRight_iff.mp (show p.body.blob_b64.isRight from good.2)
    have hdominated : dominated (db.rows .document) p.id p.updated_at =
        dominated (db'.rows .document) p.id p.updated_at := by
      unfold Db.row at hrow
      unfold dominated
      rw [hrow]
    unfold Change.apply
    dsimp only
    rw [show (apply_row .document db p none).1 = (apply_document db p).1 from rfl,
      show (apply_row .document db' p none).1 = (apply_document db' p).1 from rfl,
      (apply_document_brings good.1 hbytes db).1, (apply_document_brings good.1 hbytes db').1,
      hdominated, hsections]
  | tomb k id' t =>
    obtain ⟨rfl, rfl⟩ := not_not.mp (fun hne => row_key_ne.mpr hne hkey)
    unfold Change.apply
    dsimp only
    rw [(apply_tombstone_document .document db id t).1, (apply_tombstone_document .document db' id t).1,
      if_pos ⟨rfl, rfl⟩, if_pos ⟨rfl, rfl⟩]
  | message p good => exact (message_key_ne .document id p.id hkey.symm).elim

/-- The change brings the blob: a document that is not dominated. -/
def Change.Brings (c : Change) (db : Db) (b : Bytes) : Prop :=
  ∃ (p : RowPayload .document) (good : _), c = .live .document p good ∧ p.body.blob_b64 = .inr b ∧
    dominated (db.rows .document) p.id p.updated_at = false

theorem Change.mem_blobs (c : Change) (db : Db) (b : Bytes) :
    b ∈ (c.apply db).blobs ↔ b ∈ db.blobs ∨ c.Brings db b := by
  cases c with
  | live k p good =>
    unfold Change.apply Change.Brings
    dsimp only
    by_cases hk : k = .document
    · subst hk
      obtain ⟨bytes, hbytes⟩ := Sum.isRight_iff.mp (show p.body.blob_b64.isRight from good.2)
      rw [show (apply_row .document db p none).1 = (apply_document db p).1 from rfl,
        (apply_document_brings good.1 hbytes db).2]
      refine or_congr_right ⟨?_, ?_⟩
      · rintro ⟨rfl, hnew⟩
        exact ⟨p, good, rfl, hbytes, hnew⟩
      · rintro ⟨q, _, heq, hq, hnew⟩
        cases heq
        rw [hbytes] at hq
        cases hq
        exact ⟨rfl, hnew⟩
    · rw [(apply_row_no_document hk db none).2]
      refine ⟨.inl, ?_⟩
      rintro (hmem | ⟨q, _, heq, -⟩)
      · exact hmem
      · cases heq
        exact (hk rfl).elim
  | tomb k id t =>
    unfold Change.apply Change.Brings
    dsimp only
    rw [(apply_tombstone_document k db id t).2]
    refine ⟨.inl, ?_⟩
    rintro (hmem | ⟨q, _, heq, -⟩)
    · exact hmem
    · cases heq
  | message p good =>
    unfold Change.apply Change.Brings
    dsimp only
    rw [(apply_message_lands good db).2.2.2.1]
    refine ⟨.inl, ?_⟩
    rintro (hmem | ⟨q, _, heq, -⟩)
    · exact hmem
    · cases heq

/-- The tombstone of a conversation takes its messages along. -/
def Change.kills (c : Change) (conversation_id : String) : Bool :=
  match c with
  | .tomb .conversation id _ => decide (conversation_id = id)
  | _ => false

theorem filter_all {α : Type} (m : Option α) : m.filter (fun _ => true) = m := by
  cases m <;> rfl

theorem Change.message_other {c : Change} {i : String} (h : c.key ≠ MSG_PREFIX ++ i) (db : Db) :
    (c.apply db).messages.lookup i =
      (db.messages.lookup i).filter (fun m => !c.kills m.conversation_id) := by
  cases c with
  | live k p good =>
    unfold Change.apply Change.kills
    dsimp only
    exact (congrArg (AList.lookup i) (apply_row_ok good.1 good.2 db none).2).trans (filter_all _).symm
  | tomb k id t =>
    unfold Change.apply
    dsimp only
    rw [(apply_tombstone_ok k db id t).2]
    cases k <;> simp [Change.kills]
  | message p good =>
    unfold Change.apply Change.kills
    dsimp only
    have hid : ¬ i = p.id := fun hid => h (by rw [hid]; rfl)
    exact (((apply_message_lands good db).2.2.2.2 i).trans (if_neg (fun hnew => hid hnew.1))).trans
      (filter_all _).symm

/-! ## Changes in any order -/

theorem row_perm {cs cs' : List Change} (h : cs.Perm cs') (hnodup : (cs.map Change.key).Nodup)
    (db : Db) (k : RowKind) (id : String) :
    (cs.foldl Change.apply db).row k id = (cs'.foldl Change.apply db).row k id := by
  have hone : ∀ l : List Change, (l.foldl Change.apply db).row k id =
      ((l.filter (fun c => decide (c.key = k.PREFIX ++ id))).foldl Change.apply db).row k id := by
    intro l
    refine foldl_view_filter (fun db => db.row k id) Change.apply _ ?_ ?_ l rfl
    · intro db db' c hc hrow
      exact c.row_same (by simpa using hc) hrow
    · intro db c hc
      exact c.row_other (by simpa using hc) db
  rw [hone cs, hone cs', filter_key_perm h hnodup]

theorem row_untouched {cs : List Change} {k : RowKind} {id : String}
    (h : ∀ c ∈ cs, c.key ≠ k.PREFIX ++ id) (db : Db) :
    (cs.foldl Change.apply db).row k id = db.row k id :=
  foldl_view_eq (fun db => db.row k id) Change.apply cs (fun db c hc => c.row_other (h c hc) db) db

theorem sections_perm {cs cs' : List Change} (h : cs.Perm cs') (hnodup : (cs.map Change.key).Nodup)
    (db : Db) (id : String) :
    (cs.foldl Change.apply db).document_sections.lookup id =
      (cs'.foldl Change.apply db).document_sections.lookup id := by
  let view : Db → Option (Row .document) × Option (List SectionRow) :=
    fun db => (db.row .document id, db.document_sections.lookup id)
  have hone : ∀ l : List Change, view (l.foldl Change.apply db) =
      view ((l.filter (fun c => decide (c.key = DOC_PREFIX ++ id))).foldl Change.apply db) := by
    intro l
    refine foldl_view_filter view Change.apply _ ?_ ?_ l rfl
    · intro db db' c hc hview
      have hkey : c.key = DOC_PREFIX ++ id := by simpa using hc
      obtain ⟨hrow, hsections⟩ := Prod.mk.inj hview
      exact Prod.ext (c.row_same (k := .document) hkey hrow) (c.sections_same hkey hrow hsections)
    · intro db c hc
      have hkey : c.key ≠ DOC_PREFIX ++ id := by simpa using hc
      exact Prod.ext (c.row_other (k := .document) hkey db) (c.sections_other hkey db)
  have hviews : view (cs.foldl Change.apply db) = view (cs'.foldl Change.apply db) := by
    rw [hone cs, hone cs', filter_key_perm h hnodup]
  exact congrArg Prod.snd hviews

/-- Whether a change brings a blob is settled by the store before all of them. -/
theorem mem_blobs_changes {cs : List Change} (hnodup : (cs.map Change.key).Nodup) (db : Db)
    (b : Bytes) :
    b ∈ (cs.foldl Change.apply db).blobs ↔ b ∈ db.blobs ∨ ∃ c ∈ cs, c.Brings db b := by
  induction cs generalizing db with
  | nil => simp
  | cons c rest ih =>
    obtain ⟨hc, hrest⟩ := List.nodup_cons.mp hnodup
    rw [List.foldl_cons, ih hrest, c.mem_blobs, or_assoc]
    refine or_congr_right ?_
    have hlater : ∀ x ∈ rest, x.Brings (c.apply db) b ↔ x.Brings db b := by
      intro x hx
      refine exists_congr (fun p => exists_congr (fun good => and_congr_right (fun heq =>
        and_congr_right (fun _ => ?_))))
      have hkey : c.key ≠ RowKind.document.PREFIX ++ p.id := by
        intro hsame
        apply hc
        rw [hsame]
        have hx' : x.key = RowKind.document.PREFIX ++ p.id := by
          rw [heq]
          rfl
        rw [← hx']
        exact List.mem_map_of_mem hx
      have hrow := c.row_other hkey db
      unfold Db.row at hrow
      unfold dominated
      rw [hrow]
    constructor
    · rintro (hbrings | ⟨x, hx, hbrings⟩)
      · exact ⟨c, List.mem_cons_self, hbrings⟩
      · exact ⟨x, List.mem_cons_of_mem _ hx, (hlater x hx).mp hbrings⟩
    · rintro ⟨x, hx, hbrings⟩
      rcases List.mem_cons.mp hx with rfl | hx
      · exact .inl hbrings
      · exact .inr ⟨x, hx, (hlater x hx).mpr hbrings⟩

/-- Without a message of that id among the changes, the tombstones decide. -/
theorem message_kept {cs : List Change} {i : String} (h : ∀ c ∈ cs, c.key ≠ MSG_PREFIX ++ i)
    (db : Db) :
    (cs.foldl Change.apply db).messages.lookup i =
      (db.messages.lookup i).filter (fun m => !cs.any (fun c => c.kills m.conversation_id)) := by
  induction cs generalizing db with
  | nil => exact (filter_all _).symm
  | cons c rest ih =>
    rw [List.foldl_cons, ih (fun x hx => h x (List.mem_cons_of_mem _ hx)),
      c.message_other (h c List.mem_cons_self), Option.filter_filter]
    congr 1
    funext m
    rw [List.any_cons, Bool.not_or, Bool.and_comm]

/-! ## A message among the batches -/

/-- The objects that the mirror has not seen. -/
def fresh (e : SyncEngine) (l : Local) (objects : List Object) : List Object :=
  objects.filter (fun o => (wanted e l o).isSome)

/-- The row of a conversation behind some objects. -/
def conversation_behind (e : SyncEngine) (l : Local) (objects : List Object)
    (conversation_id : String) : Option (Row .conversation) :=
  ((changes e (fresh e l objects)).foldl Change.apply l.db).row .conversation conversation_id

/-- The tombstone of a conversation is among some objects. -/
def falls (e : SyncEngine) (l : Local) (objects : List Object) (conversation_id : String) : Bool :=
  (changes e (fresh e l objects)).any (fun c => c.kills conversation_id)

theorem falls_append (e : SyncEngine) (l : Local) (a b : List Object) (conversation_id : String) :
    falls e l (a ++ b) conversation_id = (falls e l a conversation_id || falls e l b conversation_id) := by
  unfold falls fresh changes
  rw [List.filter_append, List.filterMap_append, List.any_append]

theorem kills_key {c : Change} {conversation_id : String} (h : c.kills conversation_id = true) :
    c.key = RowKind.conversation.PREFIX ++ conversation_id := by
  unfold Change.kills at h
  split at h
  · rw [of_decide_eq_true h]
    rfl
  · cases h

theorem changes_keys {e : SyncEngine} (objects : List Object) :
    ((changes e objects).map Change.key).Sublist (objects.map SyncObject.key) := by
  induction objects with
  | nil => exact List.Sublist.refl _
  | cons o rest ih =>
    unfold changes
    rw [List.filterMap_cons]
    rcases hc : change_of e o with _ | c
    · exact ih.cons _
    · rw [List.map_cons, List.map_cons, change_key hc]
      exact ih.cons_cons _

/-- Behind a message, a batch has no conversation any more. -/
theorem behind_message {e : SyncEngine} {l : Local} {batch a b : List Object} {o : Object}
    {p : MessagePayload} {good : p.v = 1} (hsplit : taken e l batch = a ++ o :: b)
    (ho : change_of e o = some (.message p good)) {c : Change} (hc : c ∈ changes e b) (id : String) :
    c.key ≠ RowKind.conversation.PREFIX ++ id := by
  intro hkey
  obtain ⟨x, hx, hchange⟩ := List.mem_filterMap.mp hc
  have hsorted := List.pairwise_insertionSort before_or_with (batch.filterMap (wanted e l))
  have hranks : (taken e l batch).Pairwise (fun y z => ∀ r s, kind_rank y.key = some r →
      kind_rank z.key = some s → r ≤ s) := by
    unfold taken
    rw [List.pairwise_map]
    refine hsorted.imp_of_mem (fun {y z} hy hz hyz r s hr hs => ?_)
    have hrank : ∀ w ∈ (batch.filterMap (wanted e l)).insertionSort before_or_with,
        kind_rank w.2.key = some w.1 := by
      intro w hw
      rw [List.mem_insertionSort, List.mem_filterMap] at hw
      obtain ⟨v, -, hv⟩ := hw
      rw [(wanted_some hv).1]
      exact (wanted_some hv).2
    rw [hrank y hy] at hr
    rw [hrank z hz] at hs
    cases hr
    cases hs
    exact hyz.elim (fun h => Nat.le_of_lt h) (fun h => Nat.le_of_eq h.1)
  rw [hsplit, List.pairwise_append] at hranks
  have hle := (List.pairwise_cons.mp hranks.2.1).1 x hx 2 1
    (by rw [← change_key ho]; exact kind_rank_message p.id)
    (by rw [← change_key hchange, hkey]; exact kind_rank_row .conversation id)
  omega

theorem message_split {x y : List Change} {p : MessagePayload} {good : p.v = 1}
    (hnodup : ((x ++ .message p good :: y).map Change.key).Nodup) (db : Db) :
    ((x ++ .message p good :: y).foldl Change.apply db).messages.lookup p.id =
      let kept := (db.messages.lookup p.id).filter
        (fun m => !x.any (fun c => c.kills m.conversation_id))
      (if kept = none ∧
          live ((x.foldl Change.apply db).row .conversation p.conversation_id) = true then
          some p.toMessageRow
        else kept).filter (fun m => !y.any (fun c => c.kills m.conversation_id)) := by
  rw [List.map_append, List.map_cons, List.nodup_append] at hnodup
  obtain ⟨-, hy, hx⟩ := hnodup
  have hx' : ∀ c ∈ x, c.key ≠ MSG_PREFIX ++ p.id := by
    intro c hc
    exact hx _ (List.mem_map_of_mem hc) _ List.mem_cons_self
  have hy' : ∀ c ∈ y, c.key ≠ MSG_PREFIX ++ p.id := by
    intro c hc heq
    apply (List.nodup_cons.mp hy).1
    rw [show (Change.message p good).key = c.key from heq.symm]
    exact List.mem_map_of_mem hc
  rw [List.foldl_append, List.foldl_cons, message_kept hy']
  have hturn := (apply_message_lands good (x.foldl Change.apply db)).2.2.2.2 p.id
  rw [message_kept hx'] at hturn
  rw [show (Change.message p good).apply (x.foldl Change.apply db) =
    (apply_message (x.foldl Change.apply db) p).1 from rfl, hturn]
  simp

/-- What a message makes of the row of its id: the one that was kept so far stays, and
else it lands under a live conversation; a later tombstone takes either. -/
def message_behind (e : SyncEngine) (l : Local) (upto rest : List Object) (p : MessagePayload) :
    Option MessageRow :=
  let kept := (l.db.messages.lookup p.id).filter (fun m => !falls e l upto m.conversation_id)
  (if kept = none ∧ live (conversation_behind e l upto p.conversation_id) = true then
      some p.toMessageRow
    else kept).filter (fun m => !falls e l rest m.conversation_id)

theorem taken_flatten (e : SyncEngine) (l : Local) (batches : List (List Object)) :
    (batches.map (taken e l)).flatten.Perm (fresh e l batches.flatten) := by
  induction batches with
  | nil => exact List.Perm.refl _
  | cons batch rest ih =>
    unfold fresh
    rw [List.map_cons, List.flatten_cons, List.flatten_cons, List.filter_append]
    exact (taken_perm e l batch).append ih

theorem changes_perm {e : SyncEngine} {a b : List Object} (h : a.Perm b) :
    (changes e a).Perm (changes e b) := h.filterMap _

theorem changes_append (e : SyncEngine) (a b : List Object) :
    changes e (a ++ b) = changes e a ++ changes e b := List.filterMap_append

theorem fresh_keys {e : SyncEngine} {l : Local} {objects : List Object}
    (h : (objects.map SyncObject.key).Nodup) :
    ((changes e (fresh e l objects)).map Change.key).Nodup :=
  (h.sublist (List.filter_sublist.map _)).sublist (changes_keys _)

/-- The message behind the pulls, from the batch it comes in. -/
theorem pulls_message {e : SyncEngine} (l : Local) (earlier : List (List Object))
    (batch : List Object) (later : List (List Object))
    (hkeys : ((earlier ++ batch :: later).flatten.map SyncObject.key).Nodup)
    (hwell : ∀ o ∈ (earlier ++ batch :: later).flatten, WellFormed e o) {o : Object}
    (ho : o ∈ batch) {p : MessagePayload} {good : p.v = 1}
    (hchange : change_of e o = some (.message p good)) (hfresh : wanted e l o ≠ none) :
    (pulls e l [] (earlier ++ batch :: later)).db.messages.lookup p.id =
      message_behind e l (earlier.flatten ++ batch) later.flatten p := by
  rw [pulls_changes l (by simpa using hkeys) (by simpa using hwell) (by simp)
    (fun _ _ => rfl)]
  obtain ⟨a, b, hsplit⟩ := List.append_of_mem (mem_taken.mpr ⟨ho, hfresh⟩)
  have hobjects : ((earlier ++ batch :: later).map (taken e l)).flatten =
      ((earlier.map (taken e l)).flatten ++ a) ++ o :: (b ++ (later.map (taken e l)).flatten) := by
    rw [List.map_append, List.map_cons, List.flatten_append, List.flatten_cons, hsplit]
    simp
  have hcons : ∀ tail, changes e (o :: tail) = .message p good :: changes e tail := by
    intro tail
    unfold changes
    rw [List.filterMap_cons, hchange]
  have hchanges : changes e ((earlier ++ batch :: later).map (taken e l)).flatten =
      changes e ((earlier.map (taken e l)).flatten ++ a) ++
        .message p good :: (changes e b ++ changes e (later.map (taken e l)).flatten) := by
    rw [hobjects, changes_append, hcons, changes_append e b]
  have hnodup : ((changes e ((earlier ++ batch :: later).map (taken e l)).flatten).map
      Change.key).Nodup := by
    have hperm := (changes_perm (e := e) (taken_flatten e l (earlier ++ batch :: later))).map Change.key
    exact hperm.nodup_iff.mpr (fresh_keys hkeys)
  -- the objects up to the batch are those before the message, the message, and the
  -- rest of the batch, which holds no conversation
  have hupto : (changes e (fresh e l (earlier.flatten ++ batch))).Perm
      (changes e ((earlier.map (taken e l)).flatten ++ a) ++ .message p good :: changes e b) := by
    have hbatches := taken_flatten e l (earlier ++ [batch])
    rw [List.flatten_append, List.flatten_singleton, List.map_append, List.flatten_append,
      List.map_singleton, List.flatten_singleton, hsplit] at hbatches
    refine (changes_perm hbatches.symm).trans (List.Perm.of_eq ?_)
    rw [← List.append_assoc, changes_append, hcons]
  have hrest : (changes e (fresh e l later.flatten)).Perm
      (changes e (later.map (taken e l)).flatten) := changes_perm (taken_flatten e l later).symm
  have hbehind : ∀ c ∈ changes e b, ∀ id, c.key ≠ RowKind.conversation.PREFIX ++ id :=
    fun c hc id => behind_message hsplit hchange hc id
  have hspared : ∀ id, (changes e b).any (fun c => c.kills id) = false := by
    intro id
    rw [List.any_eq_false]
    exact fun c hc hkills => hbehind c hc id (kills_key hkills)
  have hfalls : ∀ id, (changes e ((earlier.map (taken e l)).flatten ++ a)).any (fun c => c.kills id) =
      falls e l (earlier.flatten ++ batch) id := by
    intro id
    unfold falls
    rw [hupto.any_eq, List.any_append, List.any_cons, hspared id]
    simp [Change.kills]
  have hfallsrest : ∀ id, (changes e b ++ changes e (later.map (taken e l)).flatten).any
      (fun c => c.kills id) = falls e l later.flatten id := by
    intro id
    unfold falls
    rw [List.any_append, hspared id, Bool.false_or, hrest.any_eq]
  have hconversation :
      ((changes e ((earlier.map (taken e l)).flatten ++ a)).foldl Change.apply l.db).row .conversation
          p.conversation_id =
        conversation_behind e l (earlier.flatten ++ batch) p.conversation_id := by
    have hkeys' : ((earlier.flatten ++ batch).map SyncObject.key).Nodup := by
      rw [List.flatten_append, List.flatten_cons, ← List.append_assoc, List.map_append] at hkeys
      exact (List.nodup_append.mp hkeys).1
    have hspares : ∀ c ∈ Change.message p good :: changes e b,
        c.key ≠ RowKind.conversation.PREFIX ++ p.conversation_id := by
      intro c hc
      rcases List.mem_cons.mp hc with rfl | hc
      · exact fun heq => message_key_ne .conversation p.conversation_id p.id heq.symm
      · exact hbehind c hc p.conversation_id
    unfold conversation_behind
    rw [row_perm hupto (fresh_keys hkeys'), List.foldl_append]
    exact (row_untouched hspares _).symm
  rw [hchanges] at hnodup ⊢
  rw [message_split hnodup]
  unfold message_behind
  simp only [hfalls, hfallsrest, hconversation]

/-! ## The order of arrival -/

/-- Two stores hold the same rows, messages, sections and blobs. -/
def SameStore (a b : Db) : Prop :=
  (∀ k id, a.row k id = b.row k id) ∧ (∀ i, a.messages.lookup i = b.messages.lookup i) ∧
    (∀ id, a.document_sections.lookup id = b.document_sections.lookup id) ∧
    ∀ bytes, bytes ∈ a.blobs ↔ bytes ∈ b.blobs

/-- The message comes in time: when its batch is pulled, its conversation is live and
no later tombstone takes it, exactly if it is live behind all the objects. Where the
store holds a message with that id that a later tombstone takes, the conversation of
the new one is not live in the end. -/
def InTime (e : SyncEngine) (l : Local) (upto rest : List Object) (p : MessagePayload) : Prop :=
  let in_the_end := live (conversation_behind e l (upto ++ rest) p.conversation_id) = true
  match (l.db.messages.lookup p.id).filter (fun m => !falls e l upto m.conversation_id) with
  | some m => falls e l rest m.conversation_id = true → ¬ in_the_end
  | none =>
    (live (conversation_behind e l upto p.conversation_id) = true ∧
        falls e l rest p.conversation_id = false) ↔ in_the_end

theorem landing_iff (f : MessageRow → Bool) (m : MessageRow) (now in_the_end : Bool) :
    (if now = true then some m else none).filter (fun m => !f m) =
        (if in_the_end = true then some m else none) ↔
      ((now = true ∧ f m = false) ↔ in_the_end = true) := by
  cases hf : f m <;> cases now <;> cases in_the_end <;> simp [hf]

theorem keeping_iff (f : MessageRow → Bool) (kept m : MessageRow) (in_the_end : Bool) :
    (some kept).filter (fun m => !f m) =
        (if f kept = true ∧ in_the_end = true then some m else (some kept).filter (fun m => !f m)) ↔
      (f kept = true → ¬ in_the_end = true) := by
  have hfilter : (some kept).filter (fun m => !f m) = if f kept = true then none else some kept := by
    cases hf : f kept <;> simp [hf]
  rw [hfilter]
  cases f kept <;> cases in_the_end <;> simp

theorem inTime_iff (e : SyncEngine) (l : Local) (upto rest : List Object) (p : MessagePayload) :
    message_behind e l upto rest p = message_behind e l (upto ++ rest) [] p ↔
      InTime e l upto rest p := by
  have hnothing : ∀ id, falls e l [] id = false := fun _ => rfl
  unfold message_behind InTime
  simp only [hnothing, Bool.not_false, filter_all, falls_append]
  rcases hkept : (l.db.messages.lookup p.id).filter (fun m => !falls e l upto m.conversation_id) with
    _ | m
  · have hnone : (l.db.messages.lookup p.id).filter
        (fun m => !(falls e l upto m.conversation_id || falls e l rest m.conversation_id)) = none := by
      simp only [Bool.not_or, ← Option.filter_filter, hkept, Option.filter_none]
    simp only [hkept, hnone, true_and]
    exact landing_iff (fun m => falls e l rest m.conversation_id) p.toMessageRow _ _
  · have hsome : (l.db.messages.lookup p.id).filter
        (fun m => !(falls e l upto m.conversation_id || falls e l rest m.conversation_id)) =
        (some m).filter (fun m => !falls e l rest m.conversation_id) := by
      simp only [Bool.not_or, ← Option.filter_filter, hkept]
    have hfalls : (some m).filter (fun m => !falls e l rest m.conversation_id) = none ↔
        falls e l rest m.conversation_id = true := by simp
    simp only [hkept, hsome, reduceCtorEq, false_and, if_false, hfalls]
    exact keeping_iff (fun m => falls e l rest m.conversation_id) m p.toMessageRow _

/-- A message that no fresh object brings depends on the tombstones alone. -/
theorem message_unbrought {e : SyncEngine} {l : Local} {objects : List Object} {i : String}
    (h : ∀ o ∈ objects, ∀ p good, change_of e o = some (.message p good) → wanted e l o ≠ none →
      p.id ≠ i) {cs : List Change} (hcs : cs.Perm (changes e (fresh e l objects))) (db : Db) :
    (cs.foldl Change.apply db).messages.lookup i =
      (db.messages.lookup i).filter (fun m => !falls e l objects m.conversation_id) := by
  have hother : ∀ c ∈ cs, c.key ≠ MSG_PREFIX ++ i := by
    intro c hc heq
    obtain ⟨o, ho, hchange⟩ := List.mem_filterMap.mp (hcs.mem_iff.mp hc)
    obtain ⟨hmem, hfresh⟩ := List.mem_filter.mp ho
    cases c with
    | live k p good => exact message_key_ne k p.id i heq
    | tomb k id t => exact message_key_ne k id i heq
    | message p good =>
      refine h o hmem p good hchange (by simpa [Option.isSome_iff_ne_none] using hfresh) ?_
      have hparse := congrArg parse_key heq
      unfold Change.key at hparse
      rw [parse_message, parse_message] at hparse
      exact ObjectKey.message.inj hparse
  rw [message_kept hother]
  unfold falls
  simp only [hcs.any_eq]

/-- **Batches give what one pull gives exactly when the messages come in time.** For
any well-formed objects of other devices, any store and any way to make them visible
in batches, one pull behind each batch leaves the same rows, messages, sections and
blobs as one pull of all the objects, exactly when each message that the mirror has
not seen comes in time. -/
theorem batches_give_what_one_pull_gives_when_messages_come_in_time {e : SyncEngine} (l : Local)
    {batches : List (List Object)} (hkeys : (batches.flatten.map SyncObject.key).Nodup)
    (hwell : ∀ o ∈ batches.flatten, WellFormed e o) :
    SameStore (pulls e l [] batches).db (pull e l (View.of batches.flatten)).1.db ↔
      ∀ earlier batch later, batches = earlier ++ batch :: later → ∀ o ∈ batch, ∀ p good,
        change_of e o = some (.message p good) → wanted e l o ≠ none →
          InTime e l (earlier.flatten ++ batch) later.flatten p := by
  have hbatches : (pulls e l [] batches).db =
      (changes e (batches.map (taken e l)).flatten).foldl Change.apply l.db :=
    pulls_changes l (by simpa using hkeys) (by simpa using hwell) (by simp) (fun _ _ => rfl)
  have hone : (pull e l (View.of batches.flatten)).1.db =
      (changes e (taken e l batches.flatten)).foldl Change.apply l.db := by
    rw [pull_changes hkeys (fun o ho => (hwell o ho).2)]
  have hperm := changes_perm (e := e) (taken_flatten e l batches)
  have hperm' := changes_perm (e := e) (taken_perm e l batches.flatten)
  have hboth : (changes e (batches.map (taken e l)).flatten).Perm
      (changes e (taken e l batches.flatten)) := hperm.trans hperm'.symm
  have hnodup : ((changes e (batches.map (taken e l)).flatten).map Change.key).Nodup :=
    (hperm.map Change.key).nodup_iff.mpr (fresh_keys hkeys)
  have hnodup' : ((changes e (taken e l batches.flatten)).map Change.key).Nodup :=
    (hboth.map Change.key).nodup_iff.mp hnodup
  -- each message of a batch, with what both ways make of it
  have hmessage : ∀ earlier batch later, batches = earlier ++ batch :: later → ∀ o ∈ batch,
      ∀ p good, change_of e o = some (.message p good) → wanted e l o ≠ none →
      ((pulls e l [] batches).db.messages.lookup p.id =
          (pull e l (View.of batches.flatten)).1.db.messages.lookup p.id ↔
        InTime e l (earlier.flatten ++ batch) later.flatten p) := by
    intro earlier batch later hsplit o ho p good hchange hfresh
    have hflatten : batches.flatten = (earlier.flatten ++ batch) ++ later.flatten := by
      rw [hsplit, List.flatten_append, List.flatten_cons, List.append_assoc]
    have hmem : o ∈ batches.flatten := by
      rw [hflatten]
      exact List.mem_append_left _ (List.mem_append_right _ ho)
    have hmany := pulls_message l earlier batch later (hsplit ▸ hkeys) (hsplit ▸ hwell) ho hchange hfresh
    have hall := pulls_message l [] batches.flatten [] (by simpa using hkeys) (by simpa using hwell)
      hmem hchange hfresh
    rw [← hsplit] at hmany
    change (pull e l (View.of batches.flatten)).1.db.messages.lookup p.id =
      message_behind e l batches.flatten [] p at hall
    rw [hmany, hall, hflatten]
    exact inTime_iff e l _ _ p
  constructor
  · intro hsame earlier batch later hsplit o ho p good hchange hfresh
    exact (hmessage earlier batch later hsplit o ho p good hchange hfresh).mp (hsame.2.1 p.id)
  · intro hintime
    refine ⟨fun k id => ?_, fun i => ?_, fun id => ?_, fun bytes => ?_⟩
    · rw [hbatches, hone]
      exact row_perm hboth hnodup l.db k id
    · by_cases hbrought : ∃ o ∈ batches.flatten, ∃ p good, change_of e o = some (.message p good) ∧
          wanted e l o ≠ none ∧ p.id = i
      · obtain ⟨o, ho, p, good, hchange, hfresh, rfl⟩ := hbrought
        obtain ⟨batch, hbatch, hmem⟩ := List.mem_flatten.mp ho
        obtain ⟨earlier, later, hsplit⟩ := List.append_of_mem hbatch
        exact (hmessage earlier batch later hsplit o hmem p good hchange hfresh).mpr
          (hintime earlier batch later hsplit o hmem p good hchange hfresh)
      · have hnone : ∀ o ∈ batches.flatten, ∀ p good, change_of e o = some (.message p good) →
            wanted e l o ≠ none → p.id ≠ i :=
          fun o ho p good hchange hfresh hid => hbrought ⟨o, ho, p, good, hchange, hfresh, hid⟩
        rw [hbatches, hone, message_unbrought hnone hperm, message_unbrought hnone hperm']
    · rw [hbatches, hone]
      exact sections_perm hboth hnodup l.db id
    · rw [hbatches, hone, mem_blobs_changes hnodup, mem_blobs_changes hnodup']
      simp only [hboth.mem_iff]

/-! ### A message ahead of its conversation -/

def chat_payload : RowPayload .conversation :=
  { v := 1, id := "c", fixed := { session_id := "s", created_at := 1000000 }, updated_at := 1000000,
    body := { title := none, sync_scope := "synchronized", memory_scope := "shared" } }

def hello_payload : MessagePayload :=
  { v := 1, id := "m", conversation_id := "c", role := "user", trust := "user",
    created_at := 1000000, content_json := "hello" }

def chat_object : Object := from_phone "conv/c" (.row .conversation chat_payload)

def hello_object : Object := from_phone "msg/m" (.message hello_payload)

/-- The message is pulled first: it is dropped, and never pulled again. -/
theorem a_message_ahead_of_its_conversation_is_lost :
    (∀ o ∈ [hello_object, chat_object], o.writer ≠ laptop.device ∧ (change_of laptop o).isSome) ∧
      ((pull laptop laptop_empty (View.of [hello_object, chat_object])).1.db.messages.lookup "m").isSome ∧
      (pulls laptop laptop_empty [] [[hello_object], [chat_object]]).db.messages.lookup "m" = none := by
  decide

theorem chat_well : ∀ o ∈ [[chat_object], [hello_object]].flatten, WellFormed laptop o := by
  unfold WellFormed
  decide

/-- The other way round it arrives. -/
theorem a_message_behind_its_conversation_arrives :
    SameStore (pulls laptop laptop_empty [] [[chat_object], [hello_object]]).db
      (pull laptop laptop_empty (View.of [[chat_object], [hello_object]].flatten)).1.db := by
  refine (batches_give_what_one_pull_gives_when_messages_come_in_time laptop_empty (by decide)
    chat_well).mpr ?_
  intro earlier batch later hsplit o ho p good hchange _
  rcases earlier with _ | ⟨first, _ | ⟨second, tail⟩⟩
  · cases hsplit
    rw [List.mem_singleton.mp ho] at hchange
    cases hchange
  · cases hsplit
    rw [List.mem_singleton.mp ho] at hchange
    cases hchange
    exact ⟨fun _ => by decide, fun _ => ⟨by decide, by decide⟩⟩
  · rw [List.cons_append, List.cons_append, List.cons.injEq, List.cons.injEq] at hsplit
    cases tail <;> cases hsplit.2.2

end pai_sync.engine
