-- Rows under vault keys that change: what each row, each mirror and the folder tell of the
-- newest edit of a row, over any run of edits, pushes, pulls, pairings and rotations.
import PersonalAi.RotationAgreement
import PersonalAi.RotationRows

open pai_core sealing table text pai_sync.engine pai_sync.backup

namespace pai_sync.rotate

variable {c : Mesh} {w : World} {d : DeviceId} {k : RowKind} {id : String}

/-! ## The devices and the folder -/

/-- The version of the row in the folder. -/
def folder_version (remote : Table String Object) (k : RowKind) (id : String) : Nat :=
  ((remote.lookup (k.PREFIX ++ id)).map SyncObject.version).getD 0

/-- What the device has of the row. -/
def World.held (w : World) (d : DeviceId) (k : RowKind) (id : String) : Option (Row k) :=
  (w.net.locals d).db.row k id

/-- The version of the row that the device has shipped or taken last. -/
def World.mirrored (w : World) (d : DeviceId) (k : RowKind) (id : String) : Nat :=
  mirror_version (w.net.locals d) (k.PREFIX ++ id)

/-- Every store is kept, and every object is that of a row. -/
structure Stored (w : World) : Prop where
  kept : ∀ d, Kept (w.net.locals d).db
  objects : ∀ key o, w.net.remote.lookup key = some o → o.key = key ∧ OfRow o

/-- The folder is as new as the mirrors. -/
def Backed (c : Mesh) (k : RowKind) (id : String) (w : World) : Prop :=
  ∀ d ∈ c.devices, w.mirrored d k id ≤ folder_version w.net.remote k id

/-- What the device has of an edit: it has it, it has made it and not shipped it, or its row
and its mirror are older. -/
inductive Standing {k : RowKind} (editor : DeviceId) (edit : Row k) (d : DeviceId)
    (held : Option (Row k)) (mirror : Nat) : Prop
  | knows (holds : Holds edit held) (same : mirror = version_of edit.updated_at)
  | makes (self : d = editor) (holds : held = some edit) (old : mirror < version_of edit.updated_at)
  | behind (other : d ≠ editor)
      (older : ∀ row, held = some row → version_of row.updated_at < version_of edit.updated_at)
      (old : mirror < version_of edit.updated_at)

/-- The edit is the newest of the row; its object opens under the key of its editor, or all
devices have it. -/
structure Follows (c : Mesh) {k : RowKind} (id : String) (editor : DeviceId) (edit : Row k)
    (w : World) : Prop where
  member : editor ∈ c.devices
  folder : ∀ o, w.net.remote.lookup (k.PREFIX ++ id) = some o →
    o.version < version_of edit.updated_at ∨
      (o.version = version_of edit.updated_at ∧ o.writer = editor ∧
        ∃ vault, Sent vault id edit o ∧
          ((w.system.devices editor).vault = some vault ∨ ∀ d ∈ c.devices, Holds edit (w.held d k id)))
  devices : ∀ d ∈ c.devices, Standing editor edit d (w.held d k id) (w.mirrored d k id)

theorem folder_version_of {remote : Table String Object} {o : Object}
    (h : remote.lookup (k.PREFIX ++ id) = some o) : folder_version remote k id = o.version := by
  unfold folder_version
  rw [h]
  rfl

theorem Same.refl {k : RowKind} (edit : Row k) : Same edit edit := ⟨rfl, rfl, fun _ => rfl⟩

theorem Holds.self {k : RowKind} (edit : Row k) : Holds edit (some edit) := .inr ⟨edit, rfl, .refl edit⟩

theorem Stored.keyed (h : Stored w) : w.net.Keyed :=
  fun key o hlookup => (h.objects key o hlookup).1

/-- The object of a row is wanted, or the device wrote it, or the mirror has its version. -/
theorem row_wanted (e : SyncEngine) (l : Local) {o : Object} (hkey : o.key = k.PREFIX ++ id) :
    wanted e l o ≠ none ∨ o.writer = e.device ∨ o.version ≤ mirror_version l (k.PREFIX ++ id) := by
  have hrank : kind_rank o.key = some k.rank := by rw [hkey, kind_rank_row]
  rw [← hkey]
  exact wanted_or_mirrored e l hrank

/-- What is wanted is as new as the mirror. -/
theorem wanted_newer {e : SyncEngine} {l : Local} {o : Object} (h : wanted e l o ≠ none) :
    mirror_version l o.key ≤ o.version := by
  refine Nat.le_of_not_lt (fun hless => h ?_)
  have hseen : seen l (header o) = true := by
    unfold mirror_version at hless
    unfold seen
    dsimp only [header]
    cases hmirror : mirror l o.key with
    | none =>
      rw [hmirror] at hless
      exact absurd hless (Nat.not_lt_zero _)
    | some m =>
      rw [hmirror] at hless
      exact decide_eq_true (.inl hless)
  unfold wanted
  split
  · rfl
  · rw [hseen, if_pos rfl]
    split <;> rfl

/-! ## A device takes an object -/

variable {editor : DeviceId} {edit : Row k} {held : Option (Row k)} {mirror : Nat}

theorem older_of_version {row : Row k} (h : version_of row.updated_at < version_of edit.updated_at) :
    row.updated_at < edit.updated_at :=
  Nat.lt_of_not_le (fun hle => Nat.not_lt_of_le (version_of_mono hle) h)

/-- A row of an earlier version than the edit's is brought. -/
theorem Standing.takes_older (h : Standing editor edit d held mirror) {row : Row k} {version : Nat}
    (hversion : version = version_of row.updated_at) (hless : version < version_of edit.updated_at)
    (hnewer : mirror ≤ version) : Standing editor edit d (brought row held) version := by
  have hold : row.updated_at < edit.updated_at := older_of_version (hversion ▸ hless)
  cases h with
  | knows hholds hsame => omega
  | makes hself hholds _ =>
    subst hholds
    exact .makes hself (brought_older (Nat.le_of_lt hold)) hless
  | behind hother holder hbehind =>
    refine .behind hother (fun new hnew => ?_) hless
    rcases brought_cases row held with ⟨hnone, -, -⟩ | ⟨new', hnew', hsame⟩ | ⟨kept, hkept, hheld, -⟩
    · rw [hnone] at hnew
      cases hnew
    · rw [hnew', Option.some.injEq] at hnew
      subst hnew
      rw [hsame.updated, ← hversion]
      exact hless
    · rw [hkept] at hnew
      exact holder new hnew

/-- The edit itself is brought. -/
theorem Standing.takes_edit (h : Standing editor edit d held mirror) : Holds edit (brought edit held) := by
  rcases brought_cases edit held with ⟨hnone, -, hdeleted⟩ | ⟨new, hnew, hsame⟩ | ⟨kept, hkept, hheld, hle⟩
  · exact .inl ⟨hnone, hdeleted⟩
  · exact .inr ⟨new, hnew, hsame⟩
  · rw [hkept]
    cases h with
    | knows hholds _ => exact hholds
    | makes _ hholds _ =>
      rw [hholds]
      exact .self edit
    | behind _ holder _ =>
      exact absurd (version_of_mono hle) (Nat.not_le_of_lt (holder kept hheld))

/-! ## One device changes -/

def World.put (w : World) (d : DeviceId) (s : Site) : World := { w with net := w.net.put d s }

@[simp] theorem World.held_put (w : World) (d : DeviceId) (s : Site) (k : RowKind) (id : String) :
    (w.put d s).held d k id = s.db.row k id := by
  unfold World.held World.put
  rw [w.net.put_self]

theorem World.held_put_other (w : World) {d d' : DeviceId} (h : d' ≠ d) (s : Site) (k : RowKind)
    (id : String) : (w.put d s).held d' k id = w.held d' k id := by
  unfold World.held World.put
  rw [w.net.put_other h]

@[simp] theorem World.mirrored_put (w : World) (d : DeviceId) (s : Site) (k : RowKind) (id : String) :
    (w.put d s).mirrored d k id = mirror_version s.toLocal (k.PREFIX ++ id) := by
  unfold World.mirrored World.put
  rw [w.net.put_self]

theorem World.mirrored_put_other (w : World) {d d' : DeviceId} (h : d' ≠ d) (s : Site) (k : RowKind)
    (id : String) : (w.put d s).mirrored d' k id = w.mirrored d' k id := by
  unfold World.mirrored World.put
  rw [w.net.put_other h]

theorem Stored.put (h : Stored w) {s : Site} (hkept : Kept s.db)
    (hobjects : ∀ key o, s.remote.lookup key = some o → w.net.remote.lookup key = some o ∨
      o.key = key ∧ OfRow o) : Stored (w.put d s) := by
  refine ⟨fun d' => ?_, fun key o ho => ?_⟩
  · by_cases hsame : d' = d
    · subst hsame
      unfold World.put
      rw [w.net.put_self]
      exact hkept
    · unfold World.put
      rw [w.net.put_other hsame]
      exact h.kept d'
  · rcases hobjects key o ho with hold | hnew
    · exact h.objects key o hold
    · exact hnew

theorem Backed.put (h : Backed c k id w) {s : Site}
    (hfolder : folder_version w.net.remote k id ≤ folder_version s.remote k id)
    (hmirror : mirror_version s.toLocal (k.PREFIX ++ id) ≤ folder_version s.remote k id) :
    Backed c k id (w.put d s) := by
  intro d' hd'
  by_cases hsame : d' = d
  · subst hsame
    rw [w.mirrored_put]
    exact hmirror
  · rw [w.mirrored_put_other hsame]
    exact Nat.le_trans (h d' hd') hfolder

/-- One device changes, and not the folder: what is left to show. -/
theorem Follows.put (h : Follows c id editor edit w) {l : Local}
    (hstanding : d ∈ c.devices →
      Standing editor edit d (l.db.row k id) (mirror_version l (k.PREFIX ++ id)))
    (hholds : d ∈ c.devices → ∀ o, w.net.remote.lookup (k.PREFIX ++ id) = some o →
      o.version = version_of edit.updated_at → Holds edit (w.held d k id) → Holds edit (l.db.row k id)) :
    Follows c id editor edit (w.put d { w.net.site d with toLocal := l }) := by
  refine ⟨h.member, fun o ho => ?_, fun d' hd' => ?_⟩
  · rcases h.folder o ho with hless | ⟨hequal, hwriter, vault, hsent, hreads⟩
    · exact .inl hless
    · refine .inr ⟨hequal, hwriter, vault, hsent, hreads.imp_right (fun hall d' hd' => ?_)⟩
      by_cases hsame : d' = d
      · subst hsame
        rw [w.held_put]
        exact hholds hd' o ho hequal (hall d' hd')
      · rw [w.held_put_other hsame]
        exact hall d' hd'
  · by_cases hsame : d' = d
    · subst hsame
      rw [w.held_put, w.mirrored_put]
      exact hstanding hd'
    · rw [w.held_put_other hsame, w.mirrored_put_other hsame]
      exact h.devices d' hd'

/-! ### A pull -/

theorem Stored.pull_pulled (h : Stored w) (e : SyncEngine) (d : DeviceId) {listing : List Object}
    (hperm : listing.Perm w.net.stored) (k : RowKind) (id : String) :
    let r := engine.pull e (w.net.locals d) (View.of listing)
    Kept r.1.db ∧
      Pulled e k id (w.net.locals d) (pending e (w.net.locals d) (View.of listing)) r := by
  obtain ⟨hmem, hkeys⟩ := h.keyed.mem_pending e (w.net.locals d) hperm
  exact pulled k id (fun o ho => (h.objects o.key o ((hmem o).mp ho).1).2) hkeys (h.kept d) _

theorem Stored.pull (h : Stored w) (e : SyncEngine) (d : DeviceId) {listing : List Object}
    (hperm : listing.Perm w.net.stored) :
    Stored (w.put d
      { w.net.site d with toLocal := (engine.pull e (w.net.locals d) (View.of listing)).1 }) :=
  h.put (h.pull_pulled e d hperm .memory "").1 (fun _ _ ho => .inl ho)

theorem Backed.pull (h : Backed c k id w) (hstored : Stored w) (e : SyncEngine) (hd : d ∈ c.devices)
    {listing : List Object} (hperm : listing.Perm w.net.stored) :
    Backed c k id (w.put d
      { w.net.site d with toLocal := (engine.pull e (w.net.locals d) (View.of listing)).1 }) := by
  obtain ⟨-, hpulled⟩ := hstored.pull_pulled e d hperm k id
  refine h.put (Nat.le_refl _) ?_
  cases hpulled with
  | stays _ hmirror _ =>
    change mirror_version (engine.pull e (w.net.locals d) (View.of listing)).1 _ ≤ _
    rw [hmirror]
    exact h d hd
  | @took o row hthere hsent _ hmirror =>
    change mirror_version (engine.pull e (w.net.locals d) (View.of listing)).1 _ ≤ _
    have hlookup := (((hstored.keyed.mem_pending e (w.net.locals d) hperm).1 o).mp hthere).1
    rw [hsent.key] at hlookup
    rw [hmirror]
    exact Nat.le_of_eq (folder_version_of hlookup).symm

/-- A pull brings what the folder has of the edit, or something older. -/
theorem Follows.pull (h : Follows c id editor edit w) (hstored : Stored w) (e : SyncEngine)
    {listing : List Object} (hperm : listing.Perm w.net.stored) :
    Follows c id editor edit (w.put d
      { w.net.site d with toLocal := (engine.pull e (w.net.locals d) (View.of listing)).1 }) := by
  obtain ⟨-, hpulled⟩ := hstored.pull_pulled e d hperm k id
  cases hpulled with
  | stays hrow hmirror _ =>
    refine h.put (fun hd => ?_) (fun _ _ _ _ hholds => ?_)
    · rw [hrow, hmirror]
      exact h.devices d hd
    · rw [hrow]
      exact hholds
  | @took o row hthere hsent hbrings hmirror =>
    obtain ⟨hlookup, hwanted⟩ := ((hstored.keyed.mem_pending e (w.net.locals d) hperm).1 o).mp hthere
    have hnewer := wanted_newer hwanted
    rw [hsent.key] at hlookup hnewer
    rcases h.folder o hlookup with hless | ⟨hequal, -, vault, hedit, -⟩
    · refine h.put (fun hd => ?_) (fun _ o' ho' hversion _ => ?_)
      · rw [hbrings row hsent, hmirror]
        exact (h.devices d hd).takes_older hsent.version hless hnewer
      · rw [hlookup, Option.some.injEq] at ho'
        subst ho'
        omega
    · -- the object opens under one vault key only
      have hvault : e.vault = vault := (hedit.readable e.vault).mp ((hsent.readable e.vault).mpr rfl)
      subst hvault
      refine h.put (fun hd => ?_) (fun hd _ _ _ _ => ?_)
      · rw [hbrings edit hedit, hmirror]
        exact .knows (h.devices d hd).takes_edit hequal
      · rw [hbrings edit hedit]
        exact (h.devices d hd).takes_edit

/-! ### A push -/

theorem Kept.push_db {e : SyncEngine} {s : Site} (h : Kept s.db) (now : Timestamp) :
    (push e now (fun _ => none) s).1.db = s.db := by
  obtain ⟨s', out, hship, -, -⟩ := ship_mirrors e s
    { SyncOutcome.zero with skipped := left_out e s.db } (outgoing e s.db)
  rw [push_without_apps now h.apps hship]
  have hdb := ship_db e (fun _ => none) s { SyncOutcome.zero with skipped := left_out e s.db }
    ((outgoing e s.db).map (fun o _ => o))
  rwa [hship] at hdb

/-- The objects that a push leaves: those that were there, and those of the rows. -/
theorem Kept.push_objects {e : SyncEngine} {s : Site} (h : Kept s.db) (now : Timestamp) {key : String}
    {o : Object} (ho : (push e now (fun _ => none) s).1.remote.lookup key = some o) :
    s.remote.lookup key = some o ∨ (o.writer = e.device ∧
      ∃ (k : RowKind) (id : String) (row : Row k), Sent e.vault id row o) := by
  obtain ⟨s', out, hship, -, -⟩ := ship_mirrors e s
    { SyncOutcome.zero with skipped := left_out e s.db } (outgoing e s.db)
  rw [push_without_apps now h.apps hship, show s' = (ship e (fun _ => none) s
    { SyncOutcome.zero with skipped := left_out e s.db } ((outgoing e s.db).map (fun o _ => o))).1 from
      congrArg Prod.fst hship.symm] at ho
  rcases ship_stored e (fun _ => none) s _ _ ho with hold | ⟨item, hitem, s₁, rfl⟩
  · exact .inl hold
  · obtain ⟨x, hx, rfl⟩ := List.mem_map.mp hitem
    obtain ⟨k, id, hships⟩ := outgoing_only_rows e h.messages h.apps h.backups hx
    obtain ⟨row, -, hsent⟩ := sent_of_ships h hships e.device
    exact .inr ⟨rfl, k, id, row, hsent⟩

theorem Stored.push (h : Stored w) (e : SyncEngine) (d : DeviceId) (now : Timestamp) :
    Stored (w.put d (engine.push e now (fun _ => none) (w.net.site d)).1) := by
  have hkept : Kept (w.net.site d).db := h.kept d
  refine h.put ?_ (fun key o ho => ?_)
  · rw [hkept.push_db]
    exact hkept
  · rcases hkept.push_objects now ho with hold | ⟨-, k, id, row, hsent⟩
    · exact .inl hold
    · have hkey := push_keyed e now (s := w.net.site d) (fun key o ho => (h.objects key o ho).1) key o ho
      exact .inr ⟨hkey, e.vault, k, id, row, hsent⟩

/-- What a push does to the object of a row and to its mirror: nothing, or the row goes out. -/
inductive Pushed (e : SyncEngine) (k : RowKind) (id : String) (s after : Site) : Prop
  | stays (old : ∀ row, s.db.row k id = some row →
        version_of row.updated_at ≤ mirror_version s.toLocal (k.PREFIX ++ id))
      (remote : after.remote.lookup (k.PREFIX ++ id) = s.remote.lookup (k.PREFIX ++ id))
      (mirror : mirror_version after.toLocal (k.PREFIX ++ id) =
        mirror_version s.toLocal (k.PREFIX ++ id))
  | ships {row : Row k} {o : Object} (there : s.db.row k id = some row)
      (new : mirror_version s.toLocal (k.PREFIX ++ id) < version_of row.updated_at)
      (remote : after.remote.lookup (k.PREFIX ++ id) = some o) (writer : o.writer = e.device)
      (sent : Sent e.vault id row o)
      (mirror : mirror_version after.toLocal (k.PREFIX ++ id) = version_of row.updated_at)

theorem Kept.pushed {s : Site} (h : Kept s.db) (e : SyncEngine) (now : Timestamp) (k : RowKind)
    (id : String) : Pushed e k id s (push e now (fun _ => none) s).1 := by
  cases hrow : s.db.row k id with
  | none =>
    have hnone : ∀ x ∈ outgoing e s.db, x.key ≠ k.PREFIX ++ id := by
      intro x hx hkey
      obtain ⟨row, hthere, -⟩ := outgoing_of_row hx hkey
      rw [hrow] at hthere
      cases hthere
    obtain ⟨hremote, hmirror⟩ := push_leaves now hnone (fun rest hdoc => by
      rw [parse_row] at hdoc
      cases hdoc)
    exact .stays (fun row hthere => by rw [hrow] at hthere; cases hthere) hremote hmirror
  | some row =>
    obtain ⟨x, hx⟩ : ∃ x, outgoing_row e s.db k id row = some x := by
      unfold outgoing_row
      rw [h.key e hrow]
      exact ⟨_, rfl⟩
    have hships : Ships e s.db k id x := ⟨row, hrow, (h.scope k id row hrow).1, hx⟩
    have hkey : x.key = k.PREFIX ++ id := outgoing_row_key hx
    obtain ⟨row', hrow', hsent⟩ := sent_of_ships h hships e.device
    rw [hrow, Option.some.injEq] at hrow'
    subst hrow'
    have hversion : x.version = version_of row.updated_at := hsent.version
    have honly : ∀ y ∈ outgoing e s.db, y.key = x.key → y = x := by
      intro y hy hsame
      obtain ⟨row', hthere, -, hout⟩ := outgoing_of_row hy (hsame.trans hkey)
      rw [hrow, Option.some.injEq] at hthere
      subst hthere
      exact Option.some.inj (hout.symm.trans hx)
    have hslot := push_slot (e := e) now (s := s) (ships_mem hships) honly
    rw [hkey, hversion] at hslot
    rcases hslot with ⟨hold, hremote, hmirror⟩ | ⟨hnew, hremote, hmirror⟩
    · refine .stays (fun row' hthere => ?_) hremote hmirror
      rw [hrow, Option.some.injEq] at hthere
      subst hthere
      exact hold
    · exact .ships hrow hnew hremote rfl hsent hmirror

theorem Backed.push (h : Backed c k id w) (hstored : Stored w) (e : SyncEngine) (hd : d ∈ c.devices)
    (now : Timestamp) (hclean : c.Clean k id w (.push d now)) :
    Backed c k id (w.put d (engine.push e now (fun _ => none) (w.net.site d)).1) := by
  have hpushed := Kept.pushed (s := w.net.site d) (hstored.kept d) e now k id
  have hbacked := h d hd
  cases hpushed with
  | stays _ hremote hmirror =>
    have hfolder : folder_version (engine.push e now (fun _ => none) (w.net.site d)).1.remote k id =
        folder_version w.net.remote k id := by
      unfold folder_version
      rw [hremote]
      rfl
    refine h.put (Nat.le_of_eq hfolder.symm) ?_
    rw [hfolder, hmirror]
    exact hbacked
  | @ships row o hthere hnew hremote hwriter hsent hmirror =>
    have hfolder := folder_version_of hremote
    rw [hsent.version] at hfolder
    refine h.put ?_ (Nat.le_of_eq (hmirror.trans hfolder.symm))
    rw [hfolder]
    cases hlookup : w.net.remote.lookup (k.PREFIX ++ id) with
    | none =>
      unfold folder_version
      rw [hlookup]
      exact Nat.zero_le _
    | some o' =>
      rw [folder_version_of hlookup]
      exact hclean row hthere hnew o' hlookup

/-- A push ships the edit under its editor's key, or something that is older. -/
theorem Follows.push (h : Follows c id editor edit w) (hstored : Stored w) (hd : d ∈ c.devices)
    {vault : VaultKey} (hvault : (w.system.devices d).vault = some vault) (now : Timestamp) :
    Follows c id editor edit
      (w.put d (engine.push (c.engine_of d vault) now (fun _ => none) (w.net.site d)).1) := by
  have hkept : Kept (w.net.site d).db := hstored.kept d
  have hdb := hkept.push_db (e := c.engine_of d vault) now
  have hheld : ∀ d', (w.put d (engine.push (c.engine_of d vault) now (fun _ => none)
      (w.net.site d)).1).held d' k id = w.held d' k id := by
    intro d'
    by_cases hsame : d' = d
    · subst hsame
      rw [w.held_put, hdb]
      rfl
    · exact w.held_put_other hsame _ k id
  have hstanding := h.devices d hd
  have hpushed := hkept.pushed (c.engine_of d vault) now k id
  generalize (engine.push (c.engine_of d vault) now (fun _ => none) (w.net.site d)).1 = after
    at hheld hpushed
  have hself : Standing editor edit d (w.held d k id) (mirror_version after.toLocal (k.PREFIX ++ id)) →
      ∀ d' ∈ c.devices,
        Standing editor edit d' ((w.put d after).held d' k id) ((w.put d after).mirrored d' k id) := by
    intro hnew d' hd'
    rw [hheld]
    by_cases hsame : d' = d
    · subst hsame
      rw [w.mirrored_put]
      exact hnew
    · rw [w.mirrored_put_other hsame]
      exact h.devices d' hd'
  cases hpushed with
  | stays _ hremote hmirror =>
    refine ⟨h.member, fun o ho => ?_, hself (hmirror ▸ hstanding)⟩
    rcases h.folder o (hremote ▸ ho) with hless | ⟨hequal, hwriter, vault', hsent, hreads⟩
    · exact .inl hless
    · refine .inr ⟨hequal, hwriter, vault', hsent, hreads.imp_right (fun hall d' hd' => ?_)⟩
      rw [hheld]
      exact hall d' hd'
  | @ships row o hthere hnew hremote hwriter hsent hmirror =>
    have hthere : w.held d k id = some row := hthere
    have hnew : w.mirrored d k id < version_of row.updated_at := hnew
    have hslot : ∀ o', (w.put d after).net.remote.lookup (k.PREFIX ++ id) = some o' → o' = o :=
      fun o' ho' => Option.some.inj (ho'.symm.trans hremote)
    rw [hmirror] at hself
    cases hstanding with
    | knows hholds hsame =>
      rcases hholds with ⟨hnone, -⟩ | ⟨row', hrow', hedit⟩
      · rw [hnone] at hthere
        cases hthere
      · rw [hthere, Option.some.injEq] at hrow'
        rw [hrow', hedit.updated] at hnew
        omega
    | makes heditor hholds _ =>
      rw [hholds, Option.some.injEq] at hthere
      subst hthere heditor
      refine ⟨h.member, fun o' ho' => ?_, hself (.knows ?_ rfl)⟩
      · rw [hslot o' ho']
        exact .inr ⟨hsent.version, hwriter, vault, hsent, .inl hvault⟩
      · rw [hholds]
        exact .self _
    | behind hother holder _ =>
      have hless := holder row hthere
      refine ⟨h.member, fun o' ho' => .inl ?_, hself (.behind hother holder hless)⟩
      rw [hslot o' ho', hsent.version]
      exact hless

/-! ### An edit -/

theorem write_sets (db : Db) (k : RowKind) (id : String) (row : Row k) :
    Sets k id (some row) db (write db k id row) :=
  sets_table rfl (fun id' => lookup_insert_if (db.rows k) id id' row)

theorem Kept.write {db : Db} (h : Kept db) {row : Row k} (hscope : row.sync_scope = "synchronized")
    (hcircle : circle_of k row.columns = none) : Kept (write db k id row) := by
  have hsets := write_sets db k id row
  refine ⟨fun k' id' row' hrow' => ?_, fun k' id' row' hrow' b hb => ?_, h.messages, h.apps, h.backups⟩
  · by_cases hsame : k' = k ∧ id' = id
    · obtain ⟨rfl, rfl⟩ := hsame
      rw [hsets.row, Option.some.injEq] at hrow'
      subst hrow'
      exact ⟨hscope, hcircle⟩
    · exact h.scope k' id' row' ((hsets.others k' id' hsame).symm.trans hrow')
  · refine List.mem_append.mpr ?_
    by_cases hsame : k' = k ∧ id' = id
    · obtain ⟨rfl, rfl⟩ := hsame
      rw [hsets.row, Option.some.injEq] at hrow'
      subst hrow'
      exact .inl hb
    · exact .inr (h.blobs k' id' row' ((hsets.others k' id' hsame).symm.trans hrow') b hb)

/-- The device with the row written. -/
def World.edited (w : World) (d : DeviceId) (k : RowKind) (id : String) (row : Row k) : World :=
  w.put d
    { w.net.site d with
      toLocal := { w.net.locals d with db := write (w.net.locals d).db k id row } }

theorem Stored.edited (h : Stored w) (d : DeviceId) {row : Row k}
    (hscope : row.sync_scope = "synchronized") (hcircle : circle_of k row.columns = none) :
    Stored (w.edited d k id row) :=
  h.put ((h.kept d).write hscope hcircle) (fun _ _ ho => .inl ho)

theorem Backed.edited (h : Backed c k id w) (hd : d ∈ c.devices) (k' : RowKind) (id' : String)
    (row : Row k') : Backed c k id (w.edited d k' id' row) :=
  h.put (Nat.le_refl _) (h d hd)

/-- Another row is written. -/
theorem Follows.edited (h : Follows c id editor edit w) (d : DeviceId) {k' : RowKind} {id' : String}
    (row : Row k') (hother : ¬ (k' = k ∧ id' = id)) :
    Follows c id editor edit (w.edited d k' id' row) := by
  have hheld : (write (w.net.locals d).db k' id' row).row k id = w.held d k id :=
    (write_sets (w.net.locals d).db k' id' row).others k id
      (fun hsame => hother ⟨hsame.1.symm, hsame.2.symm⟩)
  refine h.put (fun hd => ?_) (fun _ _ _ _ hholds => ?_)
  · dsimp only
    rw [hheld]
    exact h.devices d hd
  · dsimp only
    rw [hheld]
    exact hholds

/-- The row is written anew. -/
theorem Newest.follows (h : Newest c w k id (version_of edit.updated_at)) (hbacked : Backed c k id w)
    (hd : d ∈ c.devices) : Follows c id d edit (w.edited d k id edit) := by
  have hmirror : ∀ d' ∈ c.devices, w.mirrored d' k id < version_of edit.updated_at := by
    intro d' hd'
    refine Nat.lt_of_le_of_lt (hbacked d' hd') ?_
    cases hlookup : w.net.remote.lookup (k.PREFIX ++ id) with
    | none =>
      unfold folder_version
      rw [hlookup]
      exact Nat.lt_of_lt_of_le Nat.zero_lt_one (Nat.le_max_right _ _)
    | some o =>
      rw [folder_version_of hlookup]
      exact h.2 o hlookup
  refine ⟨hd, fun o ho => .inl (h.2 o ho), fun d' hd' => ?_⟩
  unfold World.edited
  by_cases hsame : d' = d
  · subst hsame
    rw [w.held_put, w.mirrored_put]
    exact .makes rfl (write_sets (w.net.locals d').db k id edit).row (hmirror d' hd')
  · rw [w.held_put_other hsame, w.mirrored_put_other hsame]
    exact .behind hsame (h.1 d' hd') (hmirror d' hd')

/-! ### A pairing or a rotation -/

theorem Standing.reached (h : Standing editor edit d held mirror) {vault : VaultKey} {o : Object}
    (hsent : Sent vault id edit o) (hreached : Reached o held) : Holds edit held := by
  cases h with
  | knows hholds _ => exact hholds
  | makes _ hholds _ =>
    rw [hholds]
    exact .self edit
  | behind _ holder _ =>
    rcases hreached with ⟨hnone, htombstone⟩ | ⟨row, hrow, hle⟩
    · exact .inl ⟨hnone, hsent.tombstone.symm.trans htombstone⟩
    · rw [hsent.updated] at hle
      exact absurd (version_of_mono hle) (Nat.not_le_of_lt (holder row hrow))

theorem Follows.turned (h : Follows c id editor edit w) {a : Step}
    (hover : c.HandsOver k id w (.turn a)) :
    Follows c id editor edit { w with system := w.system.step a } := by
  refine ⟨h.member, fun o ho => ?_, h.devices⟩
  rcases h.folder o ho with hless | ⟨hequal, hwriter, vault, hsent, hreads⟩
  · exact .inl hless
  refine .inr ⟨hequal, hwriter, vault, hsent, ?_⟩
  rcases hreads with hvault | hall
  · by_cases hkeeps : ((w.system.step a).devices editor).vault = some vault
    · exact .inl hkeeps
    · refine .inr (fun d hd => ?_)
      exact (h.devices d hd).reached hsent (hover o ho (hwriter ▸ ⟨vault, hvault, hkeeps⟩) d hd)
  · exact .inr hall

/-! ## Runs -/

theorem Stored.step (h : Stored w) {a : Act} (htakes : c.Takes w a) : Stored (c.step w a) := by
  cases a with
  | edit d k id row => exact h.edited d htakes.2.1 htakes.2.2
  | push d now =>
    unfold Mesh.step
    dsimp only
    cases (w.system.devices d).vault with
    | none => exact h
    | some vault => exact h.push (c.engine_of d vault) d now
  | pull d listing =>
    unfold Mesh.step
    dsimp only
    cases (w.system.devices d).vault with
    | none => exact h
    | some vault => exact h.pull (c.engine_of d vault) d htakes.2
  | turn a => exact ⟨h.kept, h.objects⟩

theorem Backed.step (h : Backed c k id w) (hstored : Stored w) {a : Act} (htakes : c.Takes w a)
    (hclean : c.Clean k id w a) : Backed c k id (c.step w a) := by
  cases a with
  | edit d k' id' row => exact h.edited htakes.1 k' id' row
  | push d now =>
    unfold Mesh.step
    dsimp only
    cases (w.system.devices d).vault with
    | none => exact h
    | some vault => exact h.push hstored (c.engine_of d vault) htakes now hclean
  | pull d listing =>
    unfold Mesh.step
    dsimp only
    cases (w.system.devices d).vault with
    | none => exact h
    | some vault => exact h.pull hstored (c.engine_of d vault) htakes.1 htakes.2
  | turn a => exact h

theorem Follows.step (h : Follows c id editor edit w) (hstored : Stored w) {a : Act}
    (htakes : c.Takes w a) (hover : c.HandsOver k id w a)
    (hlast : ∀ d row, a ≠ .edit d k id row) : Follows c id editor edit (c.step w a) := by
  cases a with
  | edit d k' id' row =>
    refine h.edited d row ?_
    rintro ⟨rfl, rfl⟩
    exact hlast d row rfl
  | push d now =>
    unfold Mesh.step
    dsimp only
    cases hvault : (w.system.devices d).vault with
    | none => exact h
    | some vault => exact h.push hstored htakes hvault now
  | pull d listing =>
    unfold Mesh.step
    dsimp only
    cases (w.system.devices d).vault with
    | none => exact h
    | some vault => exact h.pull hstored (c.engine_of d vault) htakes.2
  | turn a => exact h.turned hover

theorem Along.append {P : World → Act → Prop} {before after : List Act} :
    c.Along P w (before ++ after) ↔ c.Along P w before ∧ c.Along P (c.run w before) after := by
  induction before generalizing w with
  | nil => exact ⟨fun h => ⟨trivial, h⟩, fun h => h.2⟩
  | cons a before ih =>
    change P w a ∧ c.Along P (c.step w a) (before ++ after) ↔
      (P w a ∧ c.Along P (c.step w a) before) ∧ c.Along P (c.run (c.step w a) before) after
    rw [ih, and_assoc]

theorem Stored.run (h : Stored w) {acts : List Act} (htakes : c.Along c.Takes w acts) :
    Stored (c.run w acts) := by
  induction acts generalizing w with
  | nil => exact h
  | cons a acts ih => exact ih (h.step htakes.1) htakes.2

theorem Backed.run (h : Backed c k id w) (hstored : Stored w) {acts : List Act}
    (htakes : c.Along c.Takes w acts) (hclean : c.Along (c.Clean k id) w acts) :
    Backed c k id (c.run w acts) := by
  induction acts generalizing w with
  | nil => exact h
  | cons a acts ih =>
    exact ih (h.step hstored htakes.1 hclean.1) (hstored.step htakes.1) htakes.2 hclean.2

theorem Follows.run (h : Follows c id editor edit w) (hstored : Stored w) {acts : List Act}
    (htakes : c.Along c.Takes w acts) (hover : c.Along (c.HandsOver k id) w acts)
    (hlast : ∀ d row, Act.edit d k id row ∉ acts) : Follows c id editor edit (c.run w acts) := by
  induction acts generalizing w with
  | nil => exact h
  | cons a acts ih =>
    have hstep := h.step hstored htakes.1 hover.1 (fun d row ha => hlast d row (ha ▸ List.mem_cons_self))
    exact ih hstep (hstored.step htakes.1) htakes.2 hover.2
      (fun d row hmem => hlast d row (List.mem_cons_of_mem a hmem))

theorem fresh_stored (system : System) (peers : DeviceId → List SyncPeer) :
    Stored (fresh system peers) where
  kept := fun _ =>
    { scope := fun _ _ _ h => (nomatch h), blobs := fun _ _ _ h => (nomatch h), messages := rfl,
      apps := rfl, backups := rfl }
  objects := fun _ _ h => (nomatch h)

/-! ### The keys of the objects -/

/-- Every object is sealed under the key that its writer has. -/
def Current (c : Mesh) (w : World) : Prop :=
  ∀ key o, w.net.remote.lookup key = some o → o.writer ∈ c.devices ∧
    ∃ (vault : VaultKey) (k : RowKind) (id : String) (row : Row k), Sent vault id row o ∧
      (w.system.devices o.writer).vault = some vault

theorem Current.step (h : Current c w) (hstored : Stored w) {a : Act} (htakes : c.Takes w a)
    (hleaves : LeavesNone w a) : Current c (c.step w a) := by
  cases a with
  | edit d k id row => exact h
  | push d now =>
    unfold Mesh.step
    dsimp only
    cases hvault : (w.system.devices d).vault with
    | none => exact h
    | some vault =>
      intro key o ho
      have hkept : Kept (w.net.site d).db := hstored.kept d
      rcases hkept.push_objects now ho with hold | ⟨hwriter, k, id, row, hsent⟩
      · exact h key o hold
      · rw [hwriter]
        exact ⟨htakes, vault, k, id, row, hsent, hvault⟩
  | pull d listing =>
    unfold Mesh.step
    dsimp only
    cases (w.system.devices d).vault with
    | none => exact h
    | some vault => exact h
  | turn a =>
    intro key o ho
    obtain ⟨hwriter, vault, k, id, row, hsent, hvault⟩ := h key o ho
    refine ⟨hwriter, vault, k, id, row, hsent, ?_⟩
    by_contra hchanged
    exact hleaves key o ho ⟨vault, hvault, hchanged⟩

theorem Current.run (h : Current c w) (hstored : Stored w) {acts : List Act}
    (htakes : c.Along c.Takes w acts) (hleaves : c.Along LeavesNone w acts) :
    Current c (c.run w acts) := by
  induction acts generalizing w with
  | nil => exact h
  | cons a acts ih =>
    exact ih (h.step hstored htakes.1 hleaves.1) (hstored.step htakes.1) htakes.2 hleaves.2

/-! ## When nothing changes any more -/

/-- The edit has gone out. -/
theorem Follows.shipped {vault : VaultKey} (h : Follows c id editor edit w) (hstored : Stored w)
    (hbacked : Backed c k id w) (hquiet : c.Quiet w vault) :
    ∃ o, w.net.remote.lookup (k.PREFIX ++ id) = some o ∧ o.version = version_of edit.updated_at := by
  have hmirror : w.mirrored editor k id = version_of edit.updated_at := by
    cases h.devices editor h.member with
    | knows _ hsame => exact hsame
    | makes _ hholds hold =>
      obtain ⟨now, hsite⟩ := (hquiet editor h.member).1
      have hpushed := Kept.pushed (s := w.net.site editor) (hstored.kept editor)
        (c.engine_of editor vault) now k id
      rw [hsite] at hpushed
      cases hpushed with
      | stays hshipped _ _ => exact absurd (hshipped edit hholds) (Nat.not_le_of_lt hold)
      | ships _ hnew _ _ _ hmirror => exact absurd hmirror (Nat.ne_of_lt hnew)
    | behind hother _ _ => exact absurd rfl hother
  have hfolder := hbacked editor h.member
  rw [hmirror] at hfolder
  cases hlookup : w.net.remote.lookup (k.PREFIX ++ id) with
  | none =>
    unfold folder_version at hfolder
    rw [hlookup] at hfolder
    exact absurd (Nat.le_max_right _ 1) (Nat.not_le_of_lt (Nat.lt_succ_of_le hfolder))
  | some o =>
    rw [folder_version_of hlookup] at hfolder
    rcases h.folder o hlookup with hless | ⟨hequal, -⟩
    · omega
    · exact ⟨o, rfl, hequal⟩

theorem Follows.settles {vault : VaultKey} (h : Follows c id editor edit w) (hstored : Stored w)
    (hbacked : Backed c k id w) (hshares : c.Shares w vault) (hquiet : c.Quiet w vault)
    (hd : d ∈ c.devices) : Holds edit (w.held d k id) := by
  cases h.devices d hd with
  | knows hholds _ => exact hholds
  | makes _ hholds _ =>
    rw [hholds]
    exact .self edit
  | behind hother _ hbehind =>
    obtain ⟨o, hlookup, hversion⟩ := h.shipped hstored hbacked hquiet
    rcases h.folder o hlookup with hless | ⟨-, hwriter, vault', hsent, hreads⟩
    · omega
    rcases hreads with hvault | hall
    · -- the object opens, and this device's pull would take it
      rw [hshares editor h.member, Option.some.injEq] at hvault
      subst hvault
      obtain ⟨listing, out, hperm, hpull⟩ := (hquiet d hd).2
      have hpending : o ∈ pending (c.engine_of d vault) (w.net.locals d) (View.of listing) := by
        refine ((hstored.keyed.mem_pending _ _ hperm).1 o).mpr ⟨hsent.key.symm ▸ hlookup, ?_⟩
        rcases row_wanted (c.engine_of d vault) (w.net.locals d) hsent.key with hwanted | hself | hseen
        · exact hwanted
        · exact absurd (hself.symm.trans hwriter) hother
        · exact absurd hseen (Nat.not_le_of_lt (hversion ▸ hbehind))
      obtain ⟨-, hpulled⟩ := hstored.pull_pulled (c.engine_of d vault) d hperm k id
      rw [hpull] at hpulled
      cases hpulled with
      | stays _ _ hclosed =>
        exact absurd ((hsent.readable vault).mpr rfl) (hclosed rfl o hpending hsent.key)
      | @took o' row hthere hrow _ hmirror =>
        have hlookup' := (((hstored.keyed.mem_pending _ _ hperm).1 o').mp hthere).1
        rw [hrow.key, hlookup, Option.some.injEq] at hlookup'
        subst hlookup'
        exact absurd (hmirror.trans hversion) (Nat.ne_of_lt hbehind)
    · exact hall d hd

/-- **A rotation loses no row that all devices have.** Take any history of edits, pushes,
pulls, pairings and rotations of any devices, at whose end all devices hold one vault key. When
no push and no pull changes anything any more, all devices have the last edit of a row, if each
edit of it was the newest, no push of it covered anything newer, and all devices had it
whenever the writer of its object changed its key. And all objects open under the common key,
if no device had an object in the folder when it changed its key. -/
theorem a_rotation_loses_no_row_that_all_devices_have (c : Mesh) (system : System)
    (peers : DeviceId → List SyncPeer) {acts : List Act} {vault : VaultKey}
    (htakes : c.Along c.Takes (fresh system peers) acts)
    (hshares : c.Shares (c.run (fresh system peers) acts) vault) :
    (∀ k id, c.Along (c.Clean k id) (fresh system peers) acts →
      c.Along (c.HandsOver k id) (fresh system peers) acts →
      c.Quiet (c.run (fresh system peers) acts) vault →
      ∀ before editor edit after, acts = before ++ .edit editor k id edit :: after →
        (∀ d row, Act.edit d k id row ∉ after) →
        ∀ d ∈ c.devices, Holds edit ((c.run (fresh system peers) acts).held d k id)) ∧
    (c.Along LeavesNone (fresh system peers) acts →
      ∀ key o, (c.run (fresh system peers) acts).net.remote.lookup key = some o → Readable vault o) := by
  have hfresh := fresh_stored system peers
  constructor
  · rintro k id hclean hover hquiet before editor edit after rfl hlast d hd
    obtain ⟨htakes_before, htakes_edit, htakes_after⟩ := Along.append.mp htakes
    obtain ⟨hclean_before, hclean_edit, -⟩ := Along.append.mp hclean
    obtain ⟨-, -, hover_after⟩ := Along.append.mp hover
    have hbacked : Backed c k id (fresh system peers) := fun _ _ => Nat.zero_le _
    have hedited := Newest.follows (hclean_edit ⟨rfl, rfl⟩)
      (hbacked.run hfresh htakes_before hclean_before) htakes_edit.1
    have hstored := (hfresh.run htakes_before).step htakes_edit
    have hfollows := hedited.run hstored htakes_after hover_after hlast
    have hrun : c.run (fresh system peers) (before ++ .edit editor k id edit :: after) =
        c.run ((c.run (fresh system peers) before).edited editor k id edit) after := List.foldl_append
    rw [← hrun] at hfollows
    exact hfollows.settles (hfresh.run htakes) (hbacked.run hfresh htakes hclean) hshares hquiet hd
  · intro hleaves key o ho
    have hcurrent : Current c (fresh system peers) := fun _ _ h => (nomatch h)
    obtain ⟨hwriter, vault', k, id, row, hsent, hvault⟩ :=
      hcurrent.run hfresh htakes hleaves key o ho
    rw [hshares o.writer hwriter, Option.some.injEq] at hvault
    exact (hsent.readable vault).mpr hvault

/-! ### A memory on a laptop and a phone -/

def pair : Mesh := { devices := [pai_sync.laptop, pai_sync.phone], env := fun _ => engine.laptop.env }

/-- Both devices are paired, and nothing is written yet. -/
def pair_start : World := fresh (mesh pair.devices) (fun _ => [])

def tea_pushed : List Act :=
  [.edit pai_sync.laptop .memory "m" (memory_at 1 "likes tea"), .push pai_sync.laptop 0]

/-- The phone pulls what is in the folder. -/
def phone_pulls (acts : List Act) : List Act :=
  acts ++ [.pull pai_sync.phone (pair.run pair_start acts).net.stored]

/-- The laptop takes a new key into use, which the phone adopts. -/
def rotated : List Act :=
  [.turn (.push_rotation pai_sync.laptop 5 7),
    .turn (.adopt_rotations pai_sync.phone [⟨pai_sync.phone, pai_sync.laptop⟩])]

theorem mem_pair : d ∈ pair.devices ↔ d = pai_sync.laptop ∨ d = pai_sync.phone := by
  simp [pair]

theorem laptop_in_pair : pai_sync.laptop ∈ pair.devices := mem_pair.mpr (.inl rfl)

theorem phone_in_pair : pai_sync.phone ∈ pair.devices := mem_pair.mpr (.inr rfl)

/-- Where the folder is empty, an edit is the newest of a row that is not there. -/
theorem tea_clean (k : RowKind) (id : String) (h : ∀ d ∈ pair.devices, ∀ k id, w.held d k id = none)
    (hremote : w.net.remote = ∅) : pair.Along (pair.Clean k id) w tea_pushed := by
  refine ⟨?_, ?_, trivial⟩
  · rintro ⟨rfl, rfl⟩
    refine ⟨fun d hd row hrow => ?_, fun o ho => ?_⟩
    · rw [show (w.net.locals d).db.row .memory "m" = none from h d hd .memory "m"] at hrow
      cases hrow
    · rw [hremote] at ho
      cases ho
  · intro row _ _ o ho
    change w.net.remote.lookup (k.PREFIX ++ id) = some o at ho
    rw [hremote] at ho
    cases ho

/-- The phone has the memory when the laptop changes its key; and a memory that is pushed
behind the change is under the new key. -/
theorem tea_stays_with_both :
    Holds (memory_at 1 "likes tea")
        ((pair.run pair_start (phone_pulls tea_pushed ++ rotated)).held pai_sync.phone .memory "m") ∧
      ∀ key o, (pair.run pair_start (phone_pulls (rotated ++ tea_pushed))).net.remote.lookup key = some o →
        Readable ⟨5, 7⟩ o := by
  have hempty : ∀ d ∈ pair.devices, ∀ k id, pair_start.held d k id = none := fun _ _ _ _ => rfl
  have hpulls : pair.Along pair.Takes pair_start (phone_pulls tea_pushed) :=
    Along.append.mpr ⟨⟨⟨laptop_in_pair, rfl, rfl⟩, laptop_in_pair, trivial⟩,
      ⟨phone_in_pair, .refl _⟩, trivial⟩
  have htakes : pair.Along pair.Takes pair_start (phone_pulls tea_pushed ++ rotated) :=
    Along.append.mpr ⟨hpulls, trivial, trivial, trivial⟩
  have hclean : pair.Along (pair.Clean .memory "m") pair_start (phone_pulls tea_pushed ++ rotated) :=
    Along.append.mpr ⟨Along.append.mpr ⟨tea_clean .memory "m" hempty rfl, trivial, trivial⟩,
      trivial, trivial, trivial⟩
  -- both devices have the memory at either turn
  have hreached : ∀ o,
      (pair.run pair_start (phone_pulls tea_pushed)).net.remote.lookup "memory/m" = some o →
      ∀ d ∈ pair.devices,
        Reached o ((pair.run pair_start (phone_pulls tea_pushed)).held d .memory "m") := by
    intro o ho d hd
    cases ho
    rcases mem_pair.mp hd with rfl | rfl
    · exact .inr ⟨memory_at 1 "likes tea", rfl, Nat.le_refl _⟩
    · exact .inr ⟨memory_at 1 "likes tea", rfl, Nat.le_refl _⟩
  have hover : pair.Along (pair.HandsOver .memory "m") pair_start (phone_pulls tea_pushed ++ rotated) :=
    Along.append.mpr ⟨⟨trivial, trivial, trivial, trivial⟩, fun o ho _ => hreached o ho,
      fun o ho _ => hreached o ho, trivial⟩
  have hshares : pair.Shares (pair.run pair_start (phone_pulls tea_pushed ++ rotated)) ⟨5, 7⟩ := by
    intro d hd
    rcases mem_pair.mp hd with rfl | rfl
    · rfl
    · rfl
  have hquiet : pair.Quiet (pair.run pair_start (phone_pulls tea_pushed ++ rotated)) ⟨5, 7⟩ := by
    intro d hd
    rcases mem_pair.mp hd with rfl | rfl
    · exact ⟨⟨0, rfl⟩, _, _, .refl _, rfl⟩
    · exact ⟨⟨0, rfl⟩, _, _, .refl _, rfl⟩
  have htakes' : pair.Along pair.Takes pair_start (phone_pulls (rotated ++ tea_pushed)) :=
    Along.append.mpr ⟨⟨trivial, trivial, ⟨laptop_in_pair, rfl, rfl⟩, laptop_in_pair, trivial⟩,
      ⟨phone_in_pair, .refl _⟩, trivial⟩
  have hshares' : pair.Shares (pair.run pair_start (phone_pulls (rotated ++ tea_pushed))) ⟨5, 7⟩ := by
    intro d hd
    rcases mem_pair.mp hd with rfl | rfl
    · rfl
    · rfl
  have hleaves : pair.Along LeavesNone pair_start (phone_pulls (rotated ++ tea_pushed)) :=
    Along.append.mpr ⟨⟨fun _ _ ho => (nomatch ho), fun _ _ ho => (nomatch ho), trivial, trivial, trivial⟩,
      trivial, trivial⟩
  constructor
  · refine (a_rotation_loses_no_row_that_all_devices_have pair (mesh pair.devices) (fun _ => []) htakes
      hshares).1 .memory "m" hclean hover hquiet [] pai_sync.laptop (memory_at 1 "likes tea") _ rfl ?_
      pai_sync.phone phone_in_pair
    intro d row hmem
    simp [rotated] at hmem
  · exact (a_rotation_loses_no_row_that_all_devices_have pair (mesh pair.devices) (fun _ => []) htakes'
      hshares').2 hleaves

/-- A run of connected devices that come to share a vault key and have nothing left to do,
where no edit and no push is late. -/
structure Settled (c : Mesh) (system : System) (peers : DeviceId → List SyncPeer) (acts : List Act)
    (vault : VaultKey) : Prop where
  start : Start system
  takes : c.Along c.Takes (fresh system peers) acts
  clean : ∀ k id, c.Along (c.Clean k id) (fresh system peers) acts
  connected : ∀ d ∈ c.devices, ∀ d' ∈ c.devices,
    (c.run (fresh system peers) acts).system.Connected d d'
  shares : c.Shares (c.run (fresh system peers) acts) vault
  quiet : c.Quiet (c.run (fresh system peers) acts) vault

theorem tea_settled : Settled pair (mesh pair.devices) (fun _ => []) (tea_pushed ++ rotated) ⟨5, 7⟩ where
  start := mesh_start pair.devices
  takes := Along.append.mpr ⟨⟨⟨laptop_in_pair, rfl, rfl⟩, laptop_in_pair, trivial⟩,
    trivial, trivial, trivial⟩
  clean := fun k id => Along.append.mpr
    ⟨tea_clean k id (w := pair_start) (fun _ _ _ _ => rfl) rfl, trivial, trivial, trivial⟩
  connected := by
    have hpaired :
      (pair.run pair_start (tea_pushed ++ rotated)).system.Paired pai_sync.laptop pai_sync.phone :=
      ⟨⟨pai_sync.row_of pai_sync.phone, by decide +kernel, rfl⟩,
        ⟨pai_sync.row_of pai_sync.laptop, by decide +kernel, rfl⟩⟩
    intro d hd d' hd'
    rcases mem_pair.mp hd with rfl | rfl <;> rcases mem_pair.mp hd' with rfl | rfl
    · exact .refl
    · exact .single hpaired
    · exact .single ⟨hpaired.2, hpaired.1⟩
    · exact .refl
  shares := by
    intro d hd
    rcases mem_pair.mp hd with rfl | rfl
    · rfl
    · rfl
  quiet := by
    intro d hd
    rcases mem_pair.mp hd with rfl | rfl
    · exact ⟨⟨0, rfl⟩, _, _, .refl _, rfl⟩
    · exact ⟨⟨0, rfl⟩, _, _, .refl _, rfl⟩

/-- The laptop changes its key before the phone has pulled: the memory stays in the folder
under the old key, and the mirror keeps the laptop from shipping it again. -/
theorem a_rotation_strands_a_pushed_memory :
    ¬ (∀ (c : Mesh) system peers acts vault, Settled c system peers acts vault →
        ∀ before editor k id (edit : Row k) after, acts = before ++ .edit editor k id edit :: after →
          (∀ d row, Act.edit d k id row ∉ after) →
          ∀ d ∈ c.devices, Holds edit ((c.run (fresh system peers) acts).held d k id)) ∧
    ¬ (∀ (c : Mesh) system peers acts vault, Settled c system peers acts vault →
        ∀ key o, (c.run (fresh system peers) acts).net.remote.lookup key = some o → Readable vault o) := by
  constructor
  · intro h
    have hholds := h pair _ _ _ _ tea_settled []
      pai_sync.laptop .memory "m" (memory_at 1 "likes tea") _ rfl
      (fun d row hmem => by simp [rotated] at hmem) pai_sync.phone phone_in_pair
    have hnone :
      (pair.run pair_start (tea_pushed ++ rotated)).held pai_sync.phone .memory "m" = none := rfl
    rcases hholds with ⟨-, hdeleted⟩ | ⟨row, hrow, -⟩
    · exact absurd hdeleted (by decide)
    · cases hnone.symm.trans hrow
  · intro h
    obtain ⟨o, ho⟩ : ∃ o, (pair.run pair_start (tea_pushed ++ rotated)).net.remote.lookup "memory/m" =
        some o := ⟨_, rfl⟩
    have hclosed : ((pair.run pair_start (tea_pushed ++ rotated)).net.remote.lookup "memory/m").any
        (fun o => (open_with (SealKey.vault ⟨5, 7⟩) o.key o.ciphertext).isSome) = false := by
      decide +kernel
    rw [ho, Option.any_some] at hclosed
    exact Bool.false_ne_true (hclosed.symm.trans (h pair _ _ _ _ tea_settled "memory/m" o ho))

end pai_sync.rotate
