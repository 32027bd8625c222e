-- Devices that edit rows and sync them through one folder: where each row, each
-- mirror and each object comes from, over any run.
import PersonalAi.CrdtShipping
import PersonalAi.PullBatches

open pai_core sealing table text

namespace pai_sync.engine

/-! ## Devices around a folder -/

/-- The devices that share a vault key, with what stands outside each of them. -/
structure Fleet where
  vault : VaultKey
  devices : List DeviceId
  env : DeviceId → Env
  peers : DeviceId → List SyncPeer

def Fleet.engine_of (c : Fleet) (d : DeviceId) : SyncEngine :=
  { device := d, vault := c.vault, env := c.env d }

/-- The devices' states, and the folder between them. -/
structure Net where
  locals : DeviceId → Local
  remote : Table String Object

/-- Nothing is written yet. -/
def Fleet.start (c : Fleet) : Net :=
  { locals := fun d => { db := Db.fresh (c.peers d), sync_objects := ∅ }, remote := ∅ }

/-- A device creates a row, edits it, or deletes it softly: the row that it leaves. -/
structure Edit where
  device : DeviceId
  k : RowKind
  id : String
  row : Row k

inductive Act
  | edit (e : Edit)
  | push (d : DeviceId) (now : Timestamp)
  | pull (d : DeviceId) (listing : List Object)

/-- A device, with the folder in front of it. -/
def Net.site (n : Net) (d : DeviceId) : Site := { toLocal := n.locals d, remote := n.remote }

def Net.put (n : Net) (d : DeviceId) (s : Site) : Net :=
  { locals := Function.update n.locals d s.toLocal, remote := s.remote }

def Local.write (l : Local) (e : Edit) : Local :=
  { l with db := l.db.set_rows e.k ((l.db.rows e.k).insert e.id e.row) }

def Fleet.step (c : Fleet) (n : Net) : Act → Net
  | .edit e => n.put e.device { n.site e.device with toLocal := (n.locals e.device).write e }
  | .push d now => n.put d (push (c.engine_of d) now (fun _ => none) (n.site d)).1
  | .pull d listing =>
    n.put d { n.site d with toLocal := (pull (c.engine_of d) (n.locals d) (View.of listing)).1 }

def Fleet.run (c : Fleet) (n : Net) (acts : List Act) : Net := acts.foldl c.step n

def Act.edits : Act → List Edit
  | .edit e => [e]
  | _ => []

/-- The edits of a history, in its order. -/
def edits_of (acts : List Act) : List Edit := acts.flatMap Act.edits

/-- The objects in the folder, in the order it lists them. -/
def Net.stored (n : Net) : List Object := n.remote.entries.map Sigma.snd

/-- Each object is in the folder under its own key. -/
def Net.Keyed (n : Net) : Prop := ∀ key o, n.remote.lookup key = some o → o.key = key

section Keyed
variable {n : Net} {listing : List Object}

theorem Net.Keyed.stored (h : n.Keyed) {o : Object} :
    o ∈ n.stored ↔ n.remote.lookup o.key = some o := by
  constructor
  · intro ho
    obtain ⟨⟨key, o'⟩, hentry, rfl⟩ := List.mem_map.mp ho
    have hlookup : n.remote.lookup key = some o' := lookup_eq_some.mpr hentry
    rw [show o'.key = key from h key o' hlookup]
    exact hlookup
  · intro ho
    exact List.mem_map.mpr ⟨⟨o.key, o⟩, lookup_eq_some.mp ho, rfl⟩

theorem Net.Keyed.listed (h : n.Keyed) (hlisting : listing.Perm n.stored) :
    (listing.map SyncObject.key).Nodup := by
  have hkeys : n.stored.map SyncObject.key = n.remote.entries.map Sigma.fst := by
    unfold Net.stored
    rw [List.map_map]
    exact List.map_congr_left (fun entry hentry => h entry.1 entry.2 (lookup_eq_some.mpr hentry))
  rw [(hlisting.map SyncObject.key).nodup_iff, hkeys]
  exact n.remote.nodupKeys

/-- What a pull applies: the objects in the folder that the device wants. -/
theorem Net.Keyed.mem_pending (h : n.Keyed) (e : SyncEngine) (l : Local)
    (hlisting : listing.Perm n.stored) :
    (∀ o, o ∈ pending e l (View.of listing) ↔
      n.remote.lookup o.key = some o ∧ wanted e l o ≠ none) ∧
      ((pending e l (View.of listing)).map SyncObject.key).Nodup := by
  have hkeys := h.listed hlisting
  rw [show pending e l (View.of listing) = taken e l listing from pending_of _ _ hkeys]
  refine ⟨fun o => ?_, taken_nodup hkeys⟩
  rw [mem_taken, hlisting.mem_iff, h.stored]

end Keyed

/-! ## Histories -/

/-- A device may take the step behind these edits. The clock is one for all: an
edit's millisecond is above those before it. A row is synchronized under the vault
key, and what an upsert leaves alone is never edited. A pull sees the folder, in any
order. -/
def Fleet.Takes (c : Fleet) (es : List Edit) (n : Net) : Act → Prop
  | .edit e => e.device ∈ c.devices ∧ e.k ≠ .document ∧ e.row.sync_scope = "synchronized" ∧
      circle_of e.k e.row.columns = none ∧
      (∀ a ∈ es, timestamp_millis a.row.updated_at < timestamp_millis e.row.updated_at) ∧
      ∀ d row, Edit.mk d e.k e.id row ∈ es → row.fixed = e.row.fixed
  | .push d _ => d ∈ c.devices
  | .pull d listing => d ∈ c.devices ∧ listing.Perm n.stored

/-- The edit has a version of its own: not both the first and the second millisecond
of the clock are versions. A live memory's floats are finite. -/
def Edit.Travels (es : List Edit) (e : Edit) : Prop :=
  (∀ a ∈ es, version_of a.row.updated_at < version_of e.row.updated_at) ∧
    (e.row.deleted = false → reads_back e.k (body_of e.k e.row.columns []) = true)

/-- No row that the device would ship now is older than the object in the folder. -/
def Site.Covers (s : Site) : Prop :=
  ∀ k id row, s.db.row k id = some row →
    mirror_version s.toLocal (k.PREFIX ++ id) < version_of row.updated_at →
    ∀ o, s.remote.lookup (k.PREFIX ++ id) = some o → o.version ≤ version_of row.updated_at

/-- The step meets the condition: an edit travels, and a push covers nothing newer. -/
def Act.Clean (es : List Edit) (n : Net) : Act → Prop
  | .edit e => e.Travels es
  | .push d _ => (n.site d).Covers
  | .pull _ _ => True

/-- Each step of the history, in the state that it finds. -/
def Fleet.Along (c : Fleet) (P : List Edit → Net → Act → Prop) : List Edit → Net → List Act → Prop
  | _, _, [] => True
  | es, n, a :: rest => P es n a ∧ c.Along P (es ++ a.edits) (c.step n a) rest

/-- No push and no pull changes anything any more. -/
def Fleet.Quiet (c : Fleet) (n : Net) : Prop :=
  ∀ d ∈ c.devices,
    (∃ now, (push (c.engine_of d) now (fun _ => none) (n.site d)).1 = n.site d) ∧
    ∃ listing, listing.Perm n.stored ∧
      (pull (c.engine_of d) (n.locals d) (View.of listing)).1 = n.locals d

/-- The row as its users see it: a deleted one is gone. -/
def shown {k : RowKind} (row : Option (Row k)) : Option (Row k) := row.filter (fun r => !r.deleted)

/-! ## What a row, an object and a mirror come from -/

/-- The row is that of an edit; of a deletion, it has what counts. -/
structure Shows {k : RowKind} (w row : Row k) : Prop where
  updated : row.updated_at = w.updated_at
  deleted : row.deleted = w.deleted
  fixed : row.fixed = w.fixed
  scope : row.sync_scope = "synchronized"
  circle : circle_of k row.columns = none
  same : w.deleted = false → row = w

/-- The device holds the row, from that time or later. -/
def Local.Has (l : Local) (k : RowKind) (id : String) (t : Timestamp) : Prop :=
  ∃ row, l.db.row k id = some row ∧ t ≤ row.updated_at

/-- What an engine of the fleet finds in the object of an edit. -/
def Finds {k : RowKind} (id : String) (w : Row k) (c : Change) : Prop :=
  if w.deleted then c = .tomb k id w.updated_at
  else ∃ p good, c = .live k p good ∧ p.id = id ∧ row_of p none = w

/-- The object of an edit. -/
structure Tells (vault : VaultKey) {k : RowKind} (id : String) (w : Row k) (o : Object) : Prop where
  key : o.key = k.PREFIX ++ id
  version : o.version = version_of w.updated_at
  updated : o.updated_at = w.updated_at
  opens : ∀ e : SyncEngine, e.vault = vault → ∃ c, change_of e o = some c ∧ Finds id w c

/-- Each row and each mirror of a device comes from an edit; the folder and the
device are as new as its mirror. -/
structure Local.Sound (es : List Edit) (remote : Table String Object) (l : Local) : Prop where
  rows : ∀ k id row, l.db.row k id = some row → ∃ d w, Edit.mk d k id w ∈ es ∧ Shows w row
  mirror : ∀ key o, l.sync_objects.lookup key = some o → ∃ d k id w, Edit.mk d k id w ∈ es ∧
    key = k.PREFIX ++ id ∧ o.version = version_of w.updated_at ∧ o.updated_at = w.updated_at ∧
    (∃ s, remote.lookup key = some s ∧ w.updated_at ≤ s.updated_at) ∧
    ((l.db.row k id = none ∧ w.deleted = true) ∨ l.Has k id w.updated_at)
  messages : l.db.messages.entries = []
  apps : l.db.apps.entries = []
  backups : l.db.app_backups.entries = []

/-- The edits of a history that goes well. -/
structure Edits (es : List Edit) : Prop where
  versions : es.Pairwise (fun a b => version_of a.row.updated_at < version_of b.row.updated_at)
  fixed : ∀ d d' k id w w', Edit.mk d k id w ∈ es → Edit.mk d' k id w' ∈ es → w.fixed = w'.fixed
  kind : ∀ e ∈ es, e.k ≠ .document
  scope : ∀ e ∈ es, e.row.sync_scope = "synchronized"
  circle : ∀ e ∈ es, circle_of e.k e.row.columns = none
  floats : ∀ e ∈ es, e.row.deleted = false → reads_back e.k (body_of e.k e.row.columns []) = true

/-- Where everything comes from, and who keeps it. -/
structure Net.Sound (c : Fleet) (es : List Edit) (n : Net) : Prop where
  edits : Edits es
  locals : ∀ d, (n.locals d).Sound es n.remote
  kept : ∀ d k id w, Edit.mk d k id w ∈ es → (n.locals d).Has k id w.updated_at
  slots : ∀ key o, n.remote.lookup key = some o → ∃ d k id w, Edit.mk d k id w ∈ es ∧
    key = k.PREFIX ++ id ∧ Tells c.vault id w o ∧ (n.locals o.writer).Has k id w.updated_at

/-! ## Edits -/

theorem version_of_mono {a b : Timestamp} (h : a ≤ b) : version_of a ≤ version_of b := by
  unfold version_of timestamp_millis
  have hdiv := Nat.div_le_div_right (c := 1000000) h
  omega

variable {es : List Edit}

/-- Two edits with one version are one edit. -/
theorem Edits.unique (h : Edits es) {d d' : DeviceId} {k : RowKind} {id : String} {w w' : Row k}
    (hw : Edit.mk d k id w ∈ es) (hw' : Edit.mk d' k id w' ∈ es)
    (hversion : version_of w.updated_at = version_of w'.updated_at) : w = w' := by
  have hnodup : (es.map (fun e => version_of e.row.updated_at)).Nodup := by
    unfold List.Nodup
    rw [List.pairwise_map]
    exact h.versions.imp Nat.ne_of_lt
  have hsame := List.inj_on_of_nodup_map hnodup hw hw' hversion
  cases hsame
  rfl

/-- Versions are ordered as the times are. -/
theorem Edits.le (h : Edits es) {d d' : DeviceId} {k : RowKind} {id : String} {w w' : Row k}
    (hw : Edit.mk d k id w ∈ es) (hw' : Edit.mk d' k id w' ∈ es)
    (hversion : version_of w.updated_at ≤ version_of w'.updated_at) :
    w.updated_at ≤ w'.updated_at := by
  rcases Nat.le_total w.updated_at w'.updated_at with hle | hle
  · exact hle
  · have hsame : w = w' := h.unique hw hw' (Nat.le_antisymm hversion (version_of_mono hle))
    rw [hsame]

theorem Edits.shows (h : Edits es) {d : DeviceId} {k : RowKind} {id : String} {w : Row k}
    (hw : Edit.mk d k id w ∈ es) : Shows w w :=
  { updated := rfl, deleted := rfl, fixed := rfl, scope := h.scope _ hw, circle := h.circle _ hw,
    same := fun _ => rfl }

/-- The newest edit of a row is the one that a row as new as it shows. -/
theorem Edits.newest (h : Edits es) {d d' : DeviceId} {k : RowKind} {id : String} {w w' : Row k}
    (hw : Edit.mk d k id w ∈ es) (hw' : Edit.mk d' k id w' ∈ es)
    (hnewest : ∀ b v, Edit.mk b k id v ∈ es → v.updated_at ≤ w.updated_at)
    (hle : w.updated_at ≤ w'.updated_at) : w' = w := by
  have hequal : w'.updated_at = w.updated_at := Nat.le_antisymm (hnewest d' w' hw') hle
  exact h.unique hw' hw (by rw [hequal])

/-! ## One applied object -/

/-- A settled row is the new one, where the fixed columns and the scope agree. -/
theorem settle_same {k : RowKind} {old new : Row k} (hfixed : old.fixed = new.fixed)
    (hscope : old.sync_scope = new.sync_scope) : settle k old new = new := by
  obtain ⟨fixed, columns, scope, updated, deleted⟩ := new
  dsimp only at hfixed hscope
  cases k <;> simp [settle, overwrite, hfixed, hscope]

/-- What the change of an edit makes of the row. -/
theorem Finds.row {k : RowKind} {id : String} {w : Row k} {c : Change} (h : Finds id w c) (db : Db) :
    (c.apply db).row k id =
      if w.deleted then buried w.updated_at (db.row k id)
      else match db.row k id with
        | none => some w
        | some old => if old.updated_at < w.updated_at then some (settle k old w) else some old := by
  unfold Finds at h
  split at h
  · rename_i hdeleted
    subst h
    rw [if_pos hdeleted]
    exact (apply_tombstone_sets k db id w.updated_at).row
  · rename_i hlive
    obtain ⟨p, good, rfl, rfl, rfl⟩ := h
    rw [if_neg hlive]
    refine (apply_row_sets good.1 good.2 db none).row.trans ?_
    unfold landed
    cases db.row k p.id <;> rfl

theorem Finds.key {k : RowKind} {id : String} {w : Row k} {c : Change} (h : Finds id w c) :
    c.key = k.PREFIX ++ id := by
  unfold Finds at h
  split at h
  · subst h
    rfl
  · obtain ⟨p, good, rfl, rfl, -⟩ := h
    rfl

/-- Neither messages nor apps nor backups come from a row. -/
theorem Finds.rest {k : RowKind} {id : String} {w : Row k} {c : Change} (h : Finds id w c) (db : Db) :
    (db.messages.entries = [] → (c.apply db).messages.entries = []) ∧
      (c.apply db).apps = db.apps ∧ (c.apply db).app_backups = db.app_backups := by
  unfold Finds at h
  split at h
  · subst h
    refine ⟨fun hnone => ?_, ?_, ?_⟩
    · cases k with
      | conversation =>
        change db.messages.entries.filter _ = []
        rw [hnone]
        rfl
      | memory | document | task | workflow | notification => exact hnone
    · cases k <;> rfl
    · cases k <;> rfl
  · obtain ⟨p, good, rfl, -, -⟩ := h
    refine ⟨fun hnone => ?_, ?_⟩
    · exact (congrArg AList.entries (apply_row_ok good.1 good.2 db none).2).trans hnone
    · exact apply_row_apps db none

/-- A row that comes from an edit comes from one behind the object of another edit;
it is as new as both. -/
theorem Finds.lands (hedits : Edits es) {d : DeviceId} {k : RowKind} {id : String} {w : Row k}
    (hw : Edit.mk d k id w ∈ es) {c : Change} (h : Finds id w c) {db : Db}
    (hrow : ∀ row, db.row k id = some row → ∃ d' w', Edit.mk d' k id w' ∈ es ∧ Shows w' row) :
    (∀ row, (c.apply db).row k id = some row →
        (∃ d' w', Edit.mk d' k id w' ∈ es ∧ Shows w' row) ∧ w.updated_at ≤ row.updated_at ∧
          ∀ old, db.row k id = some old → old.updated_at ≤ row.updated_at) ∧
      ((c.apply db).row k id = none → db.row k id = none ∧ w.deleted = true) := by
  rw [h.row]
  rcases hold : db.row k id with _ | old
  · cases hdeleted : w.deleted with
    | true => simp [buried]
    | false =>
      rw [if_neg Bool.false_ne_true]
      refine ⟨?_, fun hnone => by cases hnone⟩
      rintro row hsome
      cases hsome
      exact ⟨⟨d, w, hw, hedits.shows hw⟩, Nat.le_refl _, fun old h => by cases h⟩
  · obtain ⟨d', w', hw', hshows⟩ := hrow old hold
    have hkeeps : ¬ old.updated_at < w.updated_at →
        (∃ d' w', Edit.mk d' k id w' ∈ es ∧ Shows w' old) ∧ w.updated_at ≤ old.updated_at ∧
          ∀ old', some old = some old' → old'.updated_at ≤ old.updated_at := by
      intro hnot
      refine ⟨⟨d', w', hw', hshows⟩, Nat.le_of_not_lt hnot, ?_⟩
      intro old' hsame
      cases hsame
      exact Nat.le_refl _
    have hfixed : old.fixed = w.fixed := hshows.fixed.trans (hedits.fixed d' d k id w' w hw' hw)
    cases hdeleted : w.deleted with
    | true =>
      rw [if_pos rfl]
      refine ⟨?_, fun hnone => by cases hnone⟩
      intro row hsome
      unfold buried at hsome
      rw [Option.map_some, Option.some.injEq] at hsome
      subst hsome
      split
      · rename_i hnewer
        refine ⟨⟨d, w, hw, ?_⟩, Nat.le_refl _, ?_⟩
        · exact { updated := rfl, deleted := hdeleted.symm, fixed := hfixed, scope := hshows.scope,
                  circle := hshows.circle, same := fun hlive => by rw [hdeleted] at hlive; cases hlive }
        · intro old' hsame
          cases hsame
          exact Nat.le_of_lt hnewer
      · rename_i hnot
        exact hkeeps hnot
    | false =>
      rw [if_neg Bool.false_ne_true]
      dsimp only
      split
      · rename_i hnewer
        refine ⟨?_, fun hnone => by cases hnone⟩
        intro row hsome
        rw [settle_same hfixed (hshows.scope.trans (hedits.scope _ hw).symm)] at hsome
        cases hsome
        refine ⟨⟨d, w, hw, hedits.shows hw⟩, Nat.le_refl _, ?_⟩
        intro old' hsame
        cases hsame
        exact Nat.le_of_lt hnewer
      · rename_i hnot
        refine ⟨?_, fun hnone => by cases hnone⟩
        intro row hsome
        cases hsome
        exact hkeeps hnot

/-! ## One device changes -/

/-- What a device holds stays, or gives way to something newer. -/
def Grows (l l' : Local) : Prop := ∀ k id t, l.Has k id t → l'.Has k id t

/-- An object in the folder stays, or gives way to a newer one. -/
def FolderGrows (remote remote' : Table String Object) : Prop :=
  ∀ key s, remote.lookup key = some s →
    ∃ s', remote'.lookup key = some s' ∧ s.updated_at ≤ s'.updated_at

theorem Local.Has.le {l : Local} {k : RowKind} {id : String} {t t' : Timestamp} (h : l.Has k id t)
    (hle : t' ≤ t) : l.Has k id t' := by
  obtain ⟨row, hrow, hrowle⟩ := h
  exact ⟨row, hrow, Nat.le_trans hle hrowle⟩

theorem Local.Sound.folder {remote remote' : Table String Object} {l : Local}
    (h : l.Sound es remote) (hgrows : FolderGrows remote remote') : l.Sound es remote' := by
  refine { h with mirror := ?_ }
  intro key o ho
  obtain ⟨d, k, id, w, hw, hkey, hversion, hupdated, ⟨s, hs, hle⟩, hhas⟩ := h.mirror key o ho
  obtain ⟨s', hs', hle'⟩ := hgrows key s hs
  exact ⟨d, k, id, w, hw, hkey, hversion, hupdated, ⟨s', hs', Nat.le_trans hle hle'⟩, hhas⟩

@[simp] theorem Net.put_self (n : Net) (d : DeviceId) (s : Site) : (n.put d s).locals d = s.toLocal :=
  Function.update_self ..

theorem Net.put_other (n : Net) {d d' : DeviceId} (h : d' ≠ d) (s : Site) :
    (n.put d s).locals d' = n.locals d' :=
  Function.update_of_ne h ..

@[simp] theorem Net.put_remote (n : Net) (d : DeviceId) (s : Site) : (n.put d s).remote = s.remote := rfl

@[simp] theorem Net.put_site (n : Net) (d : DeviceId) (s : Site) : (n.put d s).site d = s := by
  unfold Net.site
  simp

@[simp] theorem Net.put_put (n : Net) (d : DeviceId) (s s' : Site) :
    (n.put d s).put d s' = n.put d s' := by
  unfold Net.put
  simp

@[simp] theorem Net.put_same (n : Net) (d : DeviceId) : n.put d (n.site d) = n := by
  unfold Net.put Net.site
  simp

theorem Net.grows (n : Net) {d : DeviceId} {s : Site} (h : Grows (n.locals d) s.toLocal)
    (d' : DeviceId) : Grows (n.locals d') ((n.put d s).locals d') := by
  by_cases hd : d' = d
  · subst hd
    rw [n.put_self]
    exact h
  · rw [n.put_other hd]
    exact fun _ _ _ hhas => hhas

/-- A device changes, and maybe the folder: what is left to show. -/
theorem Net.Sound.put {c : Fleet} {n : Net} (h : n.Sound c es) {d : DeviceId} {s : Site}
    (hlocal : s.toLocal.Sound es s.remote) (hgrows : Grows (n.locals d) s.toLocal)
    (hfolder : FolderGrows n.remote s.remote)
    (hslots : ∀ key o, s.remote.lookup key = some o → n.remote.lookup key ≠ some o →
      ∃ d' k id w, Edit.mk d' k id w ∈ es ∧ key = k.PREFIX ++ id ∧ Tells c.vault id w o ∧
        o.writer = d ∧ s.toLocal.Has k id w.updated_at) : (n.put d s).Sound c es := by
  refine ⟨h.edits, ?_, ?_, ?_⟩
  · intro d'
    by_cases hd : d' = d
    · subst hd
      rw [n.put_self]
      exact hlocal
    · rw [n.put_other hd]
      exact (h.locals d').folder hfolder
  · intro d' k id w hw
    exact n.grows hgrows d' k id _ (h.kept d' k id w hw)
  · intro key o ho
    by_cases hold : n.remote.lookup key = some o
    · obtain ⟨d', k, id, w, hw, hkey, htells, hhas⟩ := h.slots key o hold
      exact ⟨d', k, id, w, hw, hkey, htells, n.grows hgrows o.writer k id _ hhas⟩
    · obtain ⟨d', k, id, w, hw, hkey, htells, hwriter, hhas⟩ := hslots key o ho hold
      refine ⟨d', k, id, w, hw, hkey, htells, ?_⟩
      rw [hwriter, n.put_self]
      exact hhas

/-! ## A pull -/

/-- One turn of a pull over an object of the folder. -/
theorem Net.Sound.turn {c : Fleet} {n : Net} (h : n.Sound c es) (d : DeviceId) {o : Object}
    (ho : n.remote.lookup o.key = some o) :
    ∃ l, pull_one (c.engine_of d) (n.locals d) o = (l, .ok true) ∧
      (n.put d { n.site d with toLocal := l }).Sound c es := by
  obtain ⟨d', k, id, w, hw, hkey, htells, -⟩ := h.slots o.key o ho
  obtain ⟨change, hchange, hfinds⟩ := htells.opens (c.engine_of d) rfl
  have hsound := h.locals d
  obtain ⟨hlands, hnone⟩ := hfinds.lands h.edits hw (hsound.rows k id)
  obtain ⟨hmessages, happs, hbackups⟩ := hfinds.rest (n.locals d).db
  have hother : ∀ k' id', k.PREFIX ++ id ≠ k'.PREFIX ++ id' →
      (change.apply (n.locals d).db).row k' id' = (n.locals d).db.row k' id' :=
    fun k' id' hne => change.row_other (by rw [hfinds.key]; exact hne) _
  let l : Local := set_mirror { n.locals d with db := change.apply (n.locals d).db } o
  have hgrows : Grows (n.locals d) l := by
    rintro k' id' t ⟨row, hrow, hle⟩
    by_cases hsame : k.PREFIX ++ id = k'.PREFIX ++ id'
    · obtain ⟨rfl, rfl⟩ := not_not.mp (fun hne => row_key_ne.mpr hne hsame)
      rcases hafter : (change.apply (n.locals d).db).row k' id' with _ | row'
      · rw [(hnone hafter).1] at hrow
        cases hrow
      · exact ⟨row', hafter, Nat.le_trans hle ((hlands row' hafter).2.2 row hrow)⟩
    · exact ⟨row, (hother k' id' hsame).trans hrow, hle⟩
  refine ⟨l, ?_, h.put ?_ hgrows
    (fun key s hs => ⟨s, hs, Nat.le_refl _⟩) (fun key o' ho' hne => (hne ho').elim)⟩
  · unfold pull_one
    rw [turn_change hchange]
  · refine { rows := ?_, mirror := ?_, messages := hmessages hsound.messages, apps := ?_, backups := ?_ }
    · intro k' id' row hrow
      by_cases hsame : k.PREFIX ++ id = k'.PREFIX ++ id'
      · obtain ⟨rfl, rfl⟩ := not_not.mp (fun hne => row_key_ne.mpr hne hsame)
        exact (hlands row hrow).1
      · exact hsound.rows k' id' row ((hother k' id' hsame).symm.trans hrow)
    · intro key o' ho'
      change ((n.locals d).sync_objects.insert o.key o).lookup key = some o' at ho'
      rw [lookup_insert_if] at ho'
      split at ho'
      · rename_i hsame
        cases ho'
        refine ⟨d', k, id, w, hw, hsame.trans hkey, htells.version, htells.updated, ?_, ?_⟩
        · exact ⟨o, hsame ▸ ho, Nat.le_of_eq htells.updated.symm⟩
        · rcases hafter : (change.apply (n.locals d).db).row k id with _ | row
          · exact .inl ⟨hafter, (hnone hafter).2⟩
          · exact .inr ⟨row, hafter, (hlands row hafter).2.1⟩
      · rename_i hdiffers
        obtain ⟨d'', k', id', w', hw', hkey', hversion, hupdated, hslot, hhas⟩ :=
          hsound.mirror key o' ho'
        refine ⟨d'', k', id', w', hw', hkey', hversion, hupdated, hslot, ?_⟩
        refine hhas.imp (fun hgone => ⟨?_, hgone.2⟩) (hgrows k' id' _)
        exact (hother k' id' (fun heq => hdiffers (by rw [hkey', hkey, heq]))).trans hgone.1
    · exact (congrArg AList.entries happs).trans hsound.apps
    · exact (congrArg AList.entries hbackups).trans hsound.backups

theorem Net.Sound.turns {c : Fleet} {n : Net} (h : n.Sound c es) (d : DeviceId)
    {objects : List Object} (hobjects : ∀ o ∈ objects, n.remote.lookup o.key = some o)
    (out : SyncOutcome) :
    (n.put d { n.site d with
      toLocal := (apply_pending (c.engine_of d) (n.locals d) out objects).1 }).Sound c es := by
  induction objects generalizing n out with
  | nil =>
    change (n.put d (n.site d)).Sound c es
    rwa [n.put_same]
  | cons o rest ih =>
    obtain ⟨l, hturn, hsound⟩ := h.turn d (hobjects o List.mem_cons_self)
    have hrest := ih hsound (fun o' ho' => hobjects o' (List.mem_cons_of_mem _ ho'))
      { out with pulled := out.pulled + 1 }
    unfold apply_pending
    rw [hturn]
    simpa using hrest

theorem Net.Sound.keyed {c : Fleet} {n : Net} (h : n.Sound c es) : n.Keyed := by
  intro key o hlookup
  obtain ⟨d, k, id, w, -, hkey, htells, -⟩ := h.slots key o hlookup
  exact htells.key.trans hkey.symm

theorem Net.Sound.pull {c : Fleet} {n : Net} (h : n.Sound c es) (d : DeviceId)
    {listing : List Object} (hlisting : listing.Perm n.stored) :
    (c.step n (.pull d listing)).Sound c es := by
  refine h.turns d (fun o ho => ?_) _
  exact h.keyed.stored.mp (hlisting.mem_iff.mp (mem_pending (h.keyed.listed hlisting) ho))

/-! ## A push -/

theorem reads_back_body (k : RowKind) (columns : k.Columns) (sections : List DocSection) :
    reads_back k (body_of k columns sections) = reads_back k (body_of k columns []) := by
  cases k <;> rfl

/-- The key of a row that belongs to no circle, and has no blob. -/
theorem row_key_vault {k : RowKind} (hk : k ≠ .document) (e : SyncEngine) (db : Db) {row : Row k}
    (hcircle : circle_of k row.columns = none) : row_key e db k row = some (.vault e.vault) := by
  cases k with
  | document => exact (hk rfl).elim
  | memory =>
    have hnone : row.columns.share_circle = none := hcircle
    unfold row_key memory_key
    dsimp only
    rw [hnone]
  | conversation | task | workflow | notification => rfl

/-- What push ships of a row is the object of the edit that the row shows. -/
theorem outgoing_tells (hedits : Edits es) {e : SyncEngine} {db : Db} {d : DeviceId} {k : RowKind}
    {id : String} {w row : Row k} (hw : Edit.mk d k id w ∈ es) (hshows : Shows w row) {o : Outgoing}
    (ho : outgoing_row e db k id row = some o) (writer : DeviceId) :
    Tells e.vault id w (o.object writer) := by
  have hk : k ≠ .document := hedits.kind _ hw
  unfold outgoing_row at ho
  rw [row_key_vault hk e db hshows.circle, Option.map_some, Option.some.injEq] at ho
  subst ho
  refine { key := rfl, version := ?_, updated := hshows.updated, opens := ?_ }
  · exact congrArg version_of hshows.updated
  intro e' hvault
  unfold Finds change_of Outgoing.object
  dsimp only
  rw [parse_row, hvault, open_seal, hshows.deleted]
  cases hdeleted : w.deleted with
  | true =>
    rw [if_pos rfl]
    exact ⟨_, congrArg (fun t => some (Change.tomb k id t)) hshows.updated, rfl⟩
  | false =>
    rw [if_neg Bool.false_ne_true]
    have hrow : row = w := hshows.same hdeleted
    subst hrow
    have hreads : reads_back k (payload_of db k id row).body = true :=
      (reads_back_body k row.columns _).trans (hedits.floats _ hw hdeleted)
    have hblob : has_blob k (payload_of db k id row).body = true := by
      cases k <;> first | exact (hk rfl).elim | rfl
    have hself := row_of_payload db id hshows.scope hdeleted
    rw [hshows.circle] at hself
    dsimp only
    rw [as_row_self, if_pos hreads, Option.bind_some]
    refine ⟨.live k (payload_of db k id row) ⟨rfl, hblob⟩, dif_pos ⟨rfl, rfl, hblob⟩, ?_⟩
    rw [if_neg Bool.false_ne_true]
    exact ⟨_, _, rfl, rfl, hself⟩

/-- A row that is shipped over nothing newer. -/
theorem Net.Sound.shipped {c : Fleet} {n : Net} (h : n.Sound c es) (d : DeviceId) {o : Outgoing}
    {k : RowKind} {id : String} (hships : Ships (c.engine_of d) (n.locals d).db k id o)
    (hcovers : ∀ s, n.remote.lookup o.key = some s → s.version ≤ o.version) :
    (n.put d { toLocal := set_mirror (n.locals d) (o.object d),
               remote := n.remote.insert o.key (o.object d) }).Sound c es := by
  obtain ⟨row, hrow, hscope, ho⟩ := hships
  obtain ⟨d', w, hw, hshows⟩ := (h.locals d).rows k id row hrow
  have htells := outgoing_tells h.edits hw hshows ho d
  have hkey : o.key = k.PREFIX ++ id := outgoing_row_key ho
  have hhas : (n.locals d).Has k id w.updated_at := ⟨row, hrow, Nat.le_of_eq hshows.updated.symm⟩
  have hfolder : FolderGrows n.remote (n.remote.insert o.key (o.object d)) := by
    intro key s hs
    rw [lookup_insert_if]
    split
    · rename_i hsame
      subst hsame
      refine ⟨_, rfl, ?_⟩
      obtain ⟨d'', k', id', w', hw', hkey', htells', -⟩ := h.slots o.key s hs
      obtain ⟨rfl, rfl⟩ := not_not.mp (fun hne => row_key_ne.mpr hne (hkey.symm.trans hkey'))
      have hversion := hcovers s hs
      have holder := h.edits.le hw' hw (by
        rw [← htells'.version, ← htells.version]
        exact hversion)
      rw [htells'.updated, htells.updated]
      exact holder
    · exact ⟨s, hs, Nat.le_refl _⟩
  refine h.put ?_ (fun k' id' t hhas' => hhas') hfolder ?_
  · refine { rows := (h.locals d).rows, mirror := ?_, messages := (h.locals d).messages,
             apps := (h.locals d).apps, backups := (h.locals d).backups }
    intro key o' ho'
    change ((n.locals d).sync_objects.insert o.key (o.object d)).lookup key = some o' at ho'
    rw [lookup_insert_if] at ho'
    split at ho'
    · rename_i hsame
      cases ho'
      refine ⟨d', k, id, w, hw, hsame.trans hkey, htells.version, htells.updated, ?_, .inr hhas⟩
      refine ⟨o.object d, ?_, Nat.le_of_eq htells.updated.symm⟩
      rw [hsame]
      exact AList.lookup_insert _
    · exact (((h.locals d).folder hfolder)).mirror key o' ho'
  · intro key o' ho' hne
    rw [lookup_insert_if] at ho'
    split at ho'
    · rename_i hsame
      cases ho'
      exact ⟨d', k, id, w, hw, hsame.trans hkey, htells, rfl, hhas⟩
    · exact (hne ho').elim

theorem mirror_version_set (l : Local) (o : Object) (key : String) :
    mirror_version (set_mirror l o) key = if key = o.key then o.version else mirror_version l key := by
  unfold mirror_version mirror set_mirror
  dsimp only
  rw [lookup_insert_if]
  split <;> rfl

/-- Rows that are shipped in a row. -/
theorem Net.Sound.ships {c : Fleet} {n : Net} (h : n.Sound c es) (d : DeviceId)
    {outs : List Outgoing}
    (hships : ∀ o ∈ outs, ∃ k id, Ships (c.engine_of d) (n.locals d).db k id o)
    (hcovers : ∀ o ∈ outs, mirror_version (n.locals d) o.key < o.version →
      ∀ s, n.remote.lookup o.key = some s → s.version ≤ o.version) (out : SyncOutcome) :
    ∃ s out', ship (c.engine_of d) (fun _ => none) (n.site d) out (outs.map (fun o _ => o)) =
        (s, .ok out') ∧ (n.put d s).Sound c es := by
  induction outs generalizing n out with
  | nil => exact ⟨n.site d, out, rfl, by rwa [n.put_same]⟩
  | cons o rest ih =>
    rw [List.map_cons]
    unfold ship push_sealed
    by_cases hold : o.version ≤ mirror_version (n.locals d) o.key
    · rw [if_pos (show o.version ≤ mirror_version (n.site d).toLocal o.key from hold)]
      exact ih h (fun o' ho' => hships o' (List.mem_cons_of_mem _ ho'))
        (fun o' ho' => hcovers o' (List.mem_cons_of_mem _ ho')) _
    · rw [if_neg (show ¬ o.version ≤ mirror_version (n.site d).toLocal o.key from hold)]
      obtain ⟨k, id, hone⟩ := hships o List.mem_cons_self
      have hcover := hcovers o List.mem_cons_self (Nat.lt_of_not_le hold)
      have hshipped := h.shipped d hone hcover
      have hrest := ih hshipped (fun o' ho' => ?_) (fun o' ho' hnew s hs => ?_)
        { out with pushed := out.pushed + 1 }
      · simp only [n.put_site, n.put_put] at hrest
        exact hrest
      · rw [n.put_self]
        exact hships o' (List.mem_cons_of_mem _ ho')
      · rw [n.put_self] at hnew
        dsimp only at hnew
        rw [mirror_version_set] at hnew
        rw [n.put_remote] at hs
        dsimp only at hs
        rw [lookup_insert_if] at hs
        by_cases hsame : o'.key = o.key
        · rw [if_pos hsame] at hs
          rw [if_pos (show o'.key = (o.object d).key from hsame)] at hnew
          cases hs
          exact Nat.le_of_lt hnew
        · rw [if_neg hsame] at hs
          rw [if_neg (show ¬ o'.key = (o.object d).key from hsame)] at hnew
          exact hcovers o' (List.mem_cons_of_mem _ ho') hnew s hs

/-- Without messages, apps and backups, push ships rows only. -/
theorem outgoing_only_rows (e : SyncEngine) {db : Db} (hmessages : db.messages.entries = [])
    (happs : db.apps.entries = []) (hbackups : db.app_backups.entries = []) {o : Outgoing}
    (ho : o ∈ outgoing e db) : ∃ k id, Ships e db k id o := by
  have hnone : outgoing_messages e db = [] ∧ outgoing_apps e db = [] ∧ outgoing_backups e db = [] := by
    unfold outgoing_messages outgoing_apps outgoing_backups
    rw [hmessages, happs, hbackups]
    exact ⟨List.filterMap_nil, List.filterMap_nil, List.filterMap_nil⟩
  unfold outgoing at ho
  rw [hnone.1, hnone.2.1, hnone.2.2] at ho
  simp only [List.mem_append, List.not_mem_nil, or_false] at ho
  rcases ho with ((((ho | ho) | ho) | ho) | ho) | ho
  · exact ⟨.memory, mem_outgoing_rows ho⟩
  · exact ⟨.conversation, mem_outgoing_rows ho⟩
  · exact ⟨.document, mem_outgoing_rows ho⟩
  · exact ⟨.task, mem_outgoing_rows ho⟩
  · exact ⟨.workflow, mem_outgoing_rows ho⟩
  · exact ⟨.notification, mem_outgoing_rows ho⟩

/-- Without apps, there are no documents to push. -/
theorem push_without_apps {e : SyncEngine} {s s' : Site} {out : SyncOutcome} (now : Timestamp)
    (happs : s.db.apps.entries = [])
    (hship : ship e (fun _ => none) s { SyncOutcome.zero with skipped := left_out e s.db }
      ((outgoing e s.db).map (fun o _ => o)) = (s', .ok out)) :
    (push e now (fun _ => none) s).1 = s' := by
  have hdb : s'.db = s.db := by
    have hsame := ship_db e (fun _ => none) s { SyncOutcome.zero with skipped := left_out e s.db }
      ((outgoing e s.db).map (fun o _ => o))
    rwa [hship] at hsame
  have hlive : live_apps s'.db = [] := by
    unfold live_apps
    rw [hdb, happs, List.filterMap_nil]
  unfold push push_app_crdts
  rw [hship]
  dsimp only
  rw [hlive]
  rfl

theorem Net.Sound.push {c : Fleet} {n : Net} (h : n.Sound c es) (d : DeviceId) (now : Timestamp)
    (hcovers : (n.site d).Covers) : (c.step n (.push d now)).Sound c es := by
  have hrows : ∀ o ∈ outgoing (c.engine_of d) (n.locals d).db,
      ∃ k id, Ships (c.engine_of d) (n.locals d).db k id o :=
    fun o ho => outgoing_only_rows (c.engine_of d) (h.locals d).messages (h.locals d).apps
      (h.locals d).backups ho
  have hnewest : ∀ o ∈ outgoing (c.engine_of d) (n.locals d).db,
      mirror_version (n.locals d) o.key < o.version →
      ∀ s, n.remote.lookup o.key = some s → s.version ≤ o.version := by
    intro o ho hnew s hs
    obtain ⟨k, id, row, hrow, hscope, hout⟩ := hrows o ho
    obtain ⟨key, hkey, rfl⟩ := Option.map_eq_some_iff.mp hout
    exact hcovers k id row hrow hnew s hs
  obtain ⟨s, out, hship, hsound⟩ := h.ships d hrows hnewest
    { SyncOutcome.zero with skipped := left_out (c.engine_of d) (n.site d).db }
  have hpush := push_without_apps now (h.locals d).apps hship
  unfold Fleet.step
  dsimp only
  rwa [hpush]

/-! ## An edit -/

theorem write_row (l : Local) (d : DeviceId) (k : RowKind) (id : String) (row : Row k) :
    Sets k id (some row) l.db (l.write ⟨d, k, id, row⟩).db :=
  sets_table rfl (fun id' => lookup_insert_if (l.db.rows k) id id' row)

theorem Edits.snoc (h : Edits es) {e : Edit} (hkind : e.k ≠ .document)
    (hscope : e.row.sync_scope = "synchronized") (hcircle : circle_of e.k e.row.columns = none)
    (hfixed : ∀ d row, Edit.mk d e.k e.id row ∈ es → row.fixed = e.row.fixed) (htravels : e.Travels es) :
    Edits (es ++ [e]) := by
  have hmem : ∀ a, a ∈ es ++ [e] ↔ a ∈ es ∨ a = e := by simp
  refine { versions := ?_, fixed := ?_, kind := ?_, scope := ?_, circle := ?_, floats := ?_ }
  · rw [List.pairwise_append]
    refine ⟨h.versions, List.pairwise_singleton _ _, ?_⟩
    intro a ha b hb
    rw [List.mem_singleton.mp hb]
    exact htravels.1 a ha
  · intro d d' k id w w' hw hw'
    rcases (hmem _).mp hw with hin | rfl <;> rcases (hmem _).mp hw' with hin' | heq
    · exact h.fixed d d' k id w w' hin hin'
    · subst heq
      exact hfixed d w hin
    · exact (hfixed d' w' hin').symm
    · cases heq
      rfl
  · intro a ha
    rcases (hmem a).mp ha with ha | rfl
    · exact h.kind a ha
    · exact hkind
  · intro a ha
    rcases (hmem a).mp ha with ha | rfl
    · exact h.scope a ha
    · exact hscope
  · intro a ha
    rcases (hmem a).mp ha with ha | rfl
    · exact h.circle a ha
    · exact hcircle
  · intro a ha
    rcases (hmem a).mp ha with ha | rfl
    · exact h.floats a ha
    · exact htravels.2

/-- What a device holds has the edit's time or an earlier one. -/
theorem Net.Sound.edit {c : Fleet} {n : Net} (h : n.Sound c es) {e : Edit}
    (htakes : c.Takes es n (.edit e)) (htravels : e.Travels es) :
    (c.step n (.edit e)).Sound c (es ++ [e]) := by
  obtain ⟨d, k, id, row⟩ := e
  obtain ⟨-, hkind, hscope, hcircle, hclock, hfixed⟩ := htakes
  have hedits := h.edits.snoc hkind hscope hcircle hfixed htravels
  have hold : ∀ d' k' id' w, Edit.mk d' k' id' w ∈ es →
      Edit.mk d' k' id' w ∈ es ++ [⟨d, k, id, row⟩] :=
    fun _ _ _ _ hw => List.mem_append_left _ hw
  have hnew : Edit.mk d k id row ∈ es ++ [⟨d, k, id, row⟩] :=
    List.mem_append_right _ (List.mem_singleton_self _)
  have hsets := write_row (n.locals d) d k id row
  have hgrows : Grows (n.locals d) ((n.locals d).write ⟨d, k, id, row⟩) := by
    rintro k' id' t ⟨old, hrow, hle⟩
    by_cases hsame : k' = k ∧ id' = id
    · obtain ⟨rfl, rfl⟩ := hsame
      obtain ⟨d', w, hw, hshows⟩ := (h.locals d).rows k' id' old hrow
      refine ⟨row, hsets.row, Nat.le_trans hle ?_⟩
      rw [hshows.updated]
      exact hedits.le (hold _ _ _ _ hw) hnew (Nat.le_of_lt (htravels.1 _ hw))
    · exact ⟨old, (hsets.others k' id' hsame).trans hrow, hle⟩
  have hlater : ∀ d', (n.locals d').Sound (es ++ [⟨d, k, id, row⟩]) n.remote := by
    intro d'
    refine { h.locals d' with rows := ?_, mirror := ?_ }
    · intro k' id' row' hrow
      obtain ⟨d'', w, hw, hshows⟩ := (h.locals d').rows k' id' row' hrow
      exact ⟨d'', w, hold _ _ _ _ hw, hshows⟩
    · intro key o ho
      obtain ⟨d'', k', id', w, hw, hrest⟩ := (h.locals d').mirror key o ho
      exact ⟨d'', k', id', w, hold _ _ _ _ hw, hrest⟩
  refine { edits := hedits, locals := ?_, kept := ?_, slots := ?_ }
  · intro d'
    by_cases hd : d' = d
    · subst hd
      change ((n.put d' _).locals d').Sound _ n.remote
      rw [n.put_self]
      refine { rows := ?_, mirror := ?_, messages := (h.locals d').messages,
               apps := (h.locals d').apps, backups := (h.locals d').backups }
      · intro k' id' row' hrow
        by_cases hsame : k' = k ∧ id' = id
        · obtain ⟨rfl, rfl⟩ := hsame
          have heq : row = row' := Option.some.inj (hsets.row.symm.trans hrow)
          rw [← heq]
          exact ⟨d', row, hnew, hedits.shows hnew⟩
        · exact (hlater d').rows k' id' row' ((hsets.others k' id' hsame).symm.trans hrow)
      · intro key o ho
        obtain ⟨d'', k', id', w, hw, hkey, hversion, hupdated, hslot, hhas⟩ :=
          (hlater d').mirror key o ho
        refine ⟨d'', k', id', w, hw, hkey, hversion, hupdated, hslot, ?_⟩
        rcases hhas with ⟨hgone, hdeleted⟩ | hhas
        · by_cases hsame : k' = k ∧ id' = id
          · obtain ⟨rfl, rfl⟩ := hsame
            refine .inr ⟨row, hsets.row, ?_⟩
            rcases List.mem_append.mp hw with hw' | hw'
            · exact hedits.le hw hnew (Nat.le_of_lt (htravels.1 _ hw'))
            · cases List.mem_singleton.mp hw'
              exact Nat.le_refl _
          · exact .inl ⟨(hsets.others k' id' hsame).trans hgone, hdeleted⟩
        · exact .inr (hgrows k' id' _ hhas)
    · change ((n.put d _).locals d').Sound _ n.remote
      rw [n.put_other hd]
      exact hlater d'
  · intro d' k' id' w hw
    rcases List.mem_append.mp hw with hw | hw
    · exact n.grows hgrows d' k' id' _ (h.kept d' k' id' w hw)
    · have hself : ((c.step n (.edit ⟨d, k, id, row⟩)).locals d).Has k id row.updated_at := by
        unfold Fleet.step
        rw [n.put_self]
        exact ⟨row, hsets.row, Nat.le_refl _⟩
      cases List.mem_singleton.mp hw
      exact hself
  · intro key o ho
    obtain ⟨d', k', id', w, hw, hkey, htells, hhas⟩ := h.slots key o ho
    exact ⟨d', k', id', w, hold _ _ _ _ hw, hkey, htells, n.grows hgrows o.writer k' id' _ hhas⟩

/-! ## Runs -/

theorem Fleet.start_sound (c : Fleet) : c.start.Sound c [] := by
  have hlocal : ∀ d, (c.start.locals d).Sound [] ∅ :=
    fun d => { rows := fun _ _ _ h => (nomatch h), mirror := fun _ _ h => (nomatch h),
               messages := rfl, apps := rfl, backups := rfl }
  refine { edits := ?_, locals := hlocal, kept := ?_, slots := ?_ }
  · refine
      { versions := List.Pairwise.nil, fixed := ?_, kind := ?_, scope := ?_, circle := ?_,
        floats := ?_ }
    all_goals simp
  · intro d k id w hw
    cases hw
  · intro key o ho
    cases ho

theorem Fleet.run_sound {c : Fleet} {n : Net} {acts : List Act} (h : n.Sound c es)
    (htakes : c.Along c.Takes es n acts) (hclean : c.Along Act.Clean es n acts) :
    (c.run n acts).Sound c (es ++ edits_of acts) := by
  induction acts generalizing es n with
  | nil =>
    unfold edits_of
    rw [List.flatMap_nil, List.append_nil]
    exact h
  | cons a rest ih =>
    have hstep : (c.step n a).Sound c (es ++ a.edits) := by
      cases a with
      | edit e => exact h.edit htakes.1 hclean.1
      | push d now =>
        unfold Act.edits
        rw [List.append_nil]
        exact h.push d now hclean.1
      | pull d listing =>
        unfold Act.edits
        rw [List.append_nil]
        exact h.pull d htakes.1.2
    have hrest := ih hstep htakes.2 hclean.2
    unfold edits_of at hrest ⊢
    rw [List.append_assoc] at hrest
    exact hrest

end pai_sync.engine
