-- One refused object in a pull: when the others are applied as if it were not
-- there.
import PersonalAi.Lib.Sorting
import PersonalAi.SyncEngine

open pai_core sealing table text sorting

namespace pai_sync.engine

/-! ## What a pull applies -/

/-- The objects that a loop applies, each with the store that it leaves. -/
def applied_log (e : SyncEngine) : Db → List Object → List (Object × Db)
  | _, [] => []
  | db, o :: rest =>
    match open_and_apply e db o with
    | (_, .error _) => []
    | (db, .ok true) => (o, db) :: applied_log e db rest
    | (db, .ok false) => applied_log e db rest

def pull_log (e : SyncEngine) (l : Local) (view : View) : List (Object × Db) :=
  applied_log e l.db (pending e l view)

/-- The store behind these turns, or none where an error ended them. -/
def store_behind (e : SyncEngine) : Db → List Object → Option Db
  | db, [] => some db
  | db, o :: rest =>
    match open_and_apply e db o with
    | (_, .error _) => none
    | (db, .ok _) => store_behind e db rest

/-- The log is what the loop does: its objects go to the mirror, and when no error
ends the loop it counts them and leaves the store behind the turns. -/
theorem apply_pending_log (e : SyncEngine) (l : Local) (out : SyncOutcome)
    (objects : List Object) :
    (apply_pending e l out objects).1.sync_objects =
        (applied_log e l.db objects).foldl (fun m a => m.insert a.1.key a.1) l.sync_objects ∧
      ∀ out', (apply_pending e l out objects).2 = .ok out' →
        out'.pulled = out.pulled + (applied_log e l.db objects).length ∧
          store_behind e l.db objects = some (apply_pending e l out objects).1.db := by
  induction objects generalizing l out with
  | nil =>
    refine ⟨rfl, ?_⟩
    intro out' h
    cases h
    exact ⟨rfl, rfl⟩
  | cons o rest ih =>
    unfold apply_pending pull_one applied_log store_behind
    rcases open_and_apply e l.db o with ⟨db, err | _ | _⟩
    · refine ⟨rfl, ?_⟩
      intro out' h
      cases h
    · exact ih { l with db := db } _
    · obtain ⟨hmirror, hok⟩ := ih (set_mirror { l with db := db } o)
        { out with pulled := out.pulled + 1 }
      refine ⟨hmirror, ?_⟩
      intro out' h
      obtain ⟨hpulled, hstore⟩ := hok out' h
      refine ⟨?_, hstore⟩
      rw [hpulled, List.length_cons]
      exact Nat.add_right_comm _ _ _

theorem applied_log_cons (e : SyncEngine) (db : Db) (o : Object) (rest : List Object) :
    applied_log e db (o :: rest) =
      match open_and_apply e db o with
      | (_, .error _) => []
      | (db, .ok true) => (o, db) :: applied_log e db rest
      | (db, .ok false) => applied_log e db rest := rfl

theorem store_behind_cons (e : SyncEngine) (db : Db) (o : Object) (rest : List Object) :
    store_behind e db (o :: rest) =
      match open_and_apply e db o with
      | (_, .error _) => none
      | (db, .ok _) => store_behind e db rest := rfl

theorem applied_log_append (e : SyncEngine) (db : Db) (a b : List Object) :
    applied_log e db (a ++ b) = applied_log e db a ++
      (match store_behind e db a with
        | some db' => applied_log e db' b
        | none => []) := by
  induction a generalizing db with
  | nil => rfl
  | cons o a ih =>
    rw [List.cons_append, applied_log_cons, applied_log_cons, store_behind_cons]
    rcases open_and_apply e db o with ⟨db', err | _ | _⟩
    · rfl
    · exact ih db'
    · exact congrArg (List.cons (o, db')) (ih db')

theorem mem_applied_log {e : SyncEngine} {db : Db} {objects : List Object} {a : Object × Db}
    (h : a ∈ applied_log e db objects) : a.1 ∈ objects := by
  induction objects generalizing db with
  | nil => cases h
  | cons o rest ih =>
    unfold applied_log at h
    rcases hone : open_and_apply e db o with ⟨db', err | _ | _⟩
    · rw [hone] at h
      cases h
    · rw [hone] at h
      exact List.mem_cons_of_mem _ (ih h)
    · rw [hone] at h
      rcases List.mem_cons.mp h with rfl | h
      · exact List.mem_cons_self
      · exact List.mem_cons_of_mem _ (ih h)

/-- An object that does not open leaves the store as it is. -/
theorem open_and_apply_skip {e : SyncEngine} {db db' : Db} {o : Object}
    (h : open_and_apply e db o = (db', .ok false)) : db' = db := by
  unfold open_and_apply at h
  split at h
  · split at h
    · split at h
      · cases h
      · cases h
        rfl
      · split at h <;> cases h
    · cases h
      rfl
  · split at h
    · cases h
      rfl
    · split at h <;> cases h

/-! ## One more object in the listing -/

/-- The object that a pull wants of a transport that holds it. -/
def wanted (e : SyncEngine) (l : Local) (o : Object) : Option (Nat × Object) :=
  match kind_rank o.key with
  | none => none
  | some rank =>
    if o.writer = e.device then none
    else if seen l (header o) then none
    else some (rank, o)

theorem wanted_some {e : SyncEngine} {l : Local} {o : Object} {x : Nat × Object}
    (h : wanted e l o = some x) : x.2 = o ∧ kind_rank o.key = some x.1 := by
  unfold wanted at h
  split at h
  · cases h
  · rename_i rank hrank
    split at h
    · cases h
    · split at h
      · cases h
      · cases h
        exact ⟨rfl, hrank⟩

theorem fetch_of (e : SyncEngine) (l : Local) {objects : List Object}
    (hkeys : (objects.map SyncObject.key).Nodup) {o : Object} (ho : o ∈ objects) :
    fetch e l (View.of objects) (header o) = wanted e l o := by
  have hpull : (View.of objects).pull o.key = some o := by
    unfold View.of
    rw [List.find?_eq_some_iff_append]
    refine ⟨by simp, ?_⟩
    obtain ⟨a, b, rfl⟩ := List.append_of_mem ho
    refine ⟨a, b, rfl, ?_⟩
    intro x hx
    rw [List.map_append, List.map_cons, List.nodup_append] at hkeys
    have := hkeys.2.2 x.key (List.mem_map_of_mem hx) o.key List.mem_cons_self
    simpa using this
  unfold fetch wanted
  change (match kind_rank o.key with
    | none => none
    | some rank => if o.writer = e.device then none
      else if seen l (header o) then none
      else ((View.of objects).pull o.key).map (fun o => (rank, o))) = _
  rw [hpull]
  rfl

theorem pending_of (e : SyncEngine) (l : Local) {objects : List Object}
    (hkeys : (objects.map SyncObject.key).Nodup) :
    pending e l (View.of objects) =
      ((objects.filterMap (wanted e l)).insertionSort before_or_with).map Prod.snd := by
  have hfetch : (View.of objects).list.filterMap (fetch e l (View.of objects)) =
      objects.filterMap (wanted e l) := by
    change (objects.map header).filterMap (fetch e l (View.of objects)) = _
    rw [List.filterMap_map]
    exact List.filterMap_congr (fun o ho => fetch_of e l hkeys ho)
  unfold pending
  rw [hfetch]

instance : IsTrans (Nat × Object) before_or_with where
  trans := by
    rintro a b c (hab | ⟨hab, htab⟩) (hbc | ⟨hbc, htbc⟩)
    · exact .inl (Nat.lt_trans hab hbc)
    · exact .inl (hbc ▸ hab)
    · exact .inl (hab ▸ hbc)
    · exact .inr ⟨hab.trans hbc, Nat.le_trans htab htbc⟩

instance : Std.Total before_or_with where
  total := by
    intro a b
    rcases Nat.lt_trichotomy a.1 b.1 with h | h | h
    · exact .inl (.inl h)
    · rcases Nat.le_total a.2.updated_at b.2.updated_at with ht | ht
      · exact .inl (.inr ⟨h, ht⟩)
      · exact .inr (.inr ⟨h.symm, ht⟩)
    · exact .inr (.inl h)

/-- A wanted object stands somewhere among the others, and does not move them. -/
theorem pending_beside (e : SyncEngine) (l : Local) {a b : List Object} {o : Object}
    (hkeys : ((a ++ o :: b).map SyncObject.key).Nodup) :
    (wanted e l o = none ∧
        pending e l (View.of (a ++ o :: b)) = pending e l (View.of (a ++ b))) ∨
      ∃ before behind, pending e l (View.of (a ++ o :: b)) = before ++ o :: behind ∧
        pending e l (View.of (a ++ b)) = before ++ behind := by
  have hkeys' : ((a ++ b).map SyncObject.key).Nodup := by
    refine hkeys.sublist (List.Sublist.map _ ?_)
    exact List.Sublist.append_left (List.sublist_cons_self o b) a
  rw [pending_of e l hkeys, pending_of e l hkeys', List.filterMap_append, List.filterMap_append,
    List.filterMap_cons]
  rcases hwanted : wanted e l o with _ | ⟨rank, o'⟩
  · exact .inl ⟨rfl, rfl⟩
  · right
    obtain rfl : o' = o := (wanted_some hwanted).1
    obtain ⟨x, y, hwith, hwithout⟩ := insertionSort_beside (r := before_or_with) (rank, o')
      (a.filterMap (wanted e l)) (b.filterMap (wanted e l))
    refine ⟨x.map Prod.snd, y.map Prod.snd, ?_, ?_⟩
    · dsimp only
      rw [hwith, List.map_append, List.map_cons]
    · rw [hwithout, List.map_append]

/-! ## Isolation -/

/-- The turn of the object ends with an error. -/
def Stops (e : SyncEngine) (db : Db) (o : Object) : Prop :=
  ∃ err, (open_and_apply e db o).2 = .error err

/-- The object is refused: its turn ends with an error, or its apply path drops
it and leaves the store as it is. -/
def Refused (e : SyncEngine) (db : Db) (o : Object) : Prop :=
  Stops e db o ∨ (open_and_apply e db o).1 = db

/-- The object opens, or its turn ends with an error. -/
def has_turn (e : SyncEngine) (db : Db) (o : Object) : Bool :=
  match (open_and_apply e db o).2 with
  | .ok applied => applied
  | .error _ => true

/-- Nothing is applied exactly when the first object that opens is refused with an
error too, or none opens. -/
theorem applied_log_eq_nil {e : SyncEngine} {db : Db} {objects : List Object} :
    applied_log e db objects = [] ↔
      ∀ o, objects.find? (has_turn e db) = some o → Stops e db o := by
  induction objects with
  | nil => simp [applied_log]
  | cons o rest ih =>
    rw [applied_log_cons, List.find?_cons]
    rcases hone : open_and_apply e db o with ⟨db', err | _ | _⟩
    · have hturn : has_turn e db o = true := by
        unfold has_turn
        rw [hone]
      rw [hturn]
      constructor
      · intro _ x hx
        cases hx
        exact ⟨err, by rw [hone]⟩
      · intro _
        rfl
    · have hturn : has_turn e db o = false := by
        unfold has_turn
        rw [hone]
      rw [hturn, open_and_apply_skip hone]
      exact ih
    · have hturn : has_turn e db o = true := by
        unfold has_turn
        rw [hone]
      rw [hturn]
      constructor
      · intro h
        cases h
      · intro h
        obtain ⟨err, herr⟩ := h o rfl
        rw [hone] at herr
        cases herr

/-- The pull comes to the object, with this store and these objects behind it. -/
def ComesTo (e : SyncEngine) (l : Local) (view : View) (o : Object) (db : Db)
    (behind : List Object) : Prop :=
  ∃ before, pending e l view = before ++ o :: behind ∧ store_behind e l.db before = some db

theorem mem_pending {e : SyncEngine} {l : Local} {objects : List Object}
    (hkeys : (objects.map SyncObject.key).Nodup) {x : Object}
    (hx : x ∈ pending e l (View.of objects)) : x ∈ objects := by
  rw [pending_of e l hkeys, List.mem_map] at hx
  obtain ⟨⟨rank, y⟩, hy, rfl⟩ := hx
  rw [List.mem_insertionSort, List.mem_filterMap] at hy
  obtain ⟨z, hz, hwanted⟩ := hy
  have hsame : y = z := (wanted_some hwanted).1
  rw [hsame]
  exact hz

/-- The rest of a log leaves an object out that is not among the others. -/
theorem filter_log {e : SyncEngine} {db : Db} {objects : List Object} {key : String}
    (h : ∀ x ∈ objects, x.key ≠ key) :
    (applied_log e db objects).filter (fun x => decide (x.1.key ≠ key)) =
      applied_log e db objects := by
  rw [List.filter_eq_self]
  intro x hx
  exact decide_eq_true (h x.1 (mem_applied_log hx))

/-- The log behind a refused object is that of the others, or nothing when its
turn ends with an error. -/
theorem log_behind_refused {e : SyncEngine} {db : Db} {o : Object} {behind : List Object}
    (hrefused : Refused e db o) (hbehind : ∀ x ∈ behind, x.key ≠ o.key) :
    (Stops e db o ∧ applied_log e db (o :: behind) = []) ∨
      (¬ Stops e db o ∧
        (applied_log e db (o :: behind)).filter (fun x => decide (x.1.key ≠ o.key)) =
          applied_log e db behind) := by
  rw [applied_log_cons]
  rcases hone : open_and_apply e db o with ⟨db', err | applied⟩
  · exact .inl ⟨⟨err, by rw [hone]⟩, rfl⟩
  · right
    have hgoes : ¬ Stops e db o := by
      rintro ⟨err, h⟩
      rw [hone] at h
      cases h
    have hsame : db' = db := by
      have := hrefused.resolve_left hgoes
      rwa [hone] at this
    subst hsame
    refine ⟨hgoes, ?_⟩
    cases applied with
    | false => exact filter_log hbehind
    | true =>
      dsimp only
      rw [List.filter_cons_of_neg (by simp), filter_log hbehind]

/-- One pull of the others together with an object that is refused where the pull
comes to it applies each of the others as a pull of the others alone does, unless
the object's turn ends with an error while an object behind it would have been
applied: an error ends the whole pull. -/
theorem a_refused_object_leaves_the_others_alone_unless_it_ends_the_pull (e : SyncEngine)
    (l : Local) {a b : List Object} {o : Object}
    (hkeys : ((a ++ o :: b).map SyncObject.key).Nodup)
    (hrefused : ∀ db behind, ComesTo e l (View.of (a ++ o :: b)) o db behind → Refused e db o) :
    (pull_log e l (View.of (a ++ o :: b))).filter (fun x => decide (x.1.key ≠ o.key)) =
        pull_log e l (View.of (a ++ b)) ↔
      ∀ db behind, ComesTo e l (View.of (a ++ o :: b)) o db behind → Stops e db o →
        ∀ x, behind.find? (has_turn e db) = some x → Stops e db x := by
  have hothers : ((a ++ b).map SyncObject.key).Nodup :=
    hkeys.sublist (List.Sublist.map _ (List.Sublist.append_left (List.sublist_cons_self o b) a))
  have hkey : ∀ x ∈ a ++ b, x.key ≠ o.key := by
    rw [List.map_append, List.map_cons, List.nodup_middle, List.nodup_cons, ← List.map_append]
      at hkeys
    intro x hx heq
    exact hkeys.1 (List.mem_map.mpr ⟨x, hx, heq⟩)
  have hpending : ∀ x ∈ pending e l (View.of (a ++ b)), x.key ≠ o.key :=
    fun x hx => hkey x (mem_pending hothers hx)
  unfold pull_log
  rcases pending_beside e l hkeys with ⟨hnot, hsame⟩ | ⟨before, behind, hwith, hwithout⟩
  · -- the pull never comes to it
    rw [hsame, filter_log hpending]
    refine ⟨fun _ => ?_, fun _ => rfl⟩
    rintro db behind ⟨before, hsplit, _⟩
    rw [hsame] at hsplit
    exact (hpending o (by rw [hsplit]; simp) rfl).elim
  · rw [hwithout] at hpending
    have hbefore : ∀ x ∈ before, x.key ≠ o.key := fun x hx => hpending x (by simp [hx])
    have hbehind : ∀ x ∈ behind, x.key ≠ o.key := fun x hx => hpending x (by simp [hx])
    have hsplit : ∀ before' behind', pending e l (View.of (a ++ o :: b)) =
        before' ++ o :: behind' → before' = before ∧ behind' = behind := by
      intro before' behind' h
      rw [hwith] at h
      have hnot : o ∉ before := fun ho => hbefore o ho rfl
      have hnot' : o ∉ behind := fun ho => hbehind o ho rfl
      obtain ⟨h1, h2⟩ := List.append_cons_inj_of_notMem hnot hnot' |>.mp h
      exact ⟨h1.symm, h2.2.symm⟩
    rw [hwith, hwithout, applied_log_append, applied_log_append, List.filter_append,
      filter_log hbefore, List.append_cancel_left_eq]
    cases hstore : store_behind e l.db before with
    | none =>
      refine ⟨fun _ => ?_, fun _ => rfl⟩
      rintro db behind' ⟨before', h, hdb⟩
      rw [(hsplit _ _ h).1, hstore] at hdb
      cases hdb
    | some db =>
      have hcomes : ComesTo e l (View.of (a ++ o :: b)) o db behind := ⟨before, hwith, hstore⟩
      have honly : ∀ db' behind', ComesTo e l (View.of (a ++ o :: b)) o db' behind' →
          db' = db ∧ behind' = behind := by
        rintro db' behind' ⟨before', h, hdb⟩
        obtain ⟨hb, rfl⟩ := hsplit _ _ h
        rw [hb, hstore] at hdb
        cases hdb
        exact ⟨rfl, rfl⟩
      dsimp only
      rcases log_behind_refused (hrefused db behind hcomes) hbehind with ⟨hstops, hnil⟩ | ⟨hgoes, hlog⟩
      · rw [hnil, List.filter_nil, eq_comm, applied_log_eq_nil]
        constructor
        · intro h db' behind' hcomes' _
          obtain ⟨rfl, rfl⟩ := honly db' behind' hcomes'
          exact h
        · intro h
          exact h db behind hcomes hstops
      · rw [hlog]
        refine ⟨fun _ => ?_, fun _ => rfl⟩
        intro db' behind' hcomes' hstops
        obtain ⟨rfl, rfl⟩ := honly db' behind' hcomes'
        exact (hgoes hstops).elim

/-! ### A task from a newer phone -/

/-- The engine of a laptop, where no package verifies. -/
def laptop : SyncEngine :=
  { device := ⟨"laptop"⟩, vault := ⟨0, 0⟩,
    env :=
      { serde_error := fun _ => "expected value", now_ms := 0,
        stage_verdict := fun _ _ _ => .ok (.Rejected "signature"),
        doc_text := fun _ => .invalid (.Sync "expected value") } }

def laptop_empty : Local := { db := Db.fresh [], sync_objects := ∅ }

/-- An object of the phone, sealed with the vault key. -/
def from_phone (key : String) (raw : Plain) : Object :=
  { key := key, ciphertext := seal_with (.vault laptop.vault) key raw, version := 1,
    writer := ⟨"phone"⟩, updated_at := 1000000, tombstone := false }

def memory_payload (id : String) : RowPayload .memory :=
  { v := 1, id := id, fixed := { created_at := 1000000 }, updated_at := 1000000,
    body :=
      { scope := "semantic", content := "likes tea", source := "user", confidence := 0,
        importance := 0, privacy := "normal", entities := [], embedding := none,
        conversation_id := none } }

/-- The payload of a version that the laptop does not know. -/
def newer_task : RowPayload .task :=
  { v := 2, id := "t", fixed := { agent_id := "agent", created_at := 1000000 },
    updated_at := 1000000,
    body :=
      { title := "water", run_at := none, state := "scheduled", trigger_json := "", payload_json := "",
        result_json := none, claimed_by := none, lease_expires_at := none } }

def memory_object : Object := from_phone "memory/m" (.row .memory (memory_payload "m"))

def newer_task_object : Object := from_phone "task/t" (.row .task newer_task)

/-- The task's turn is an error, and the memory behind it is not applied. -/
theorem a_newer_task_keeps_the_memory_out :
    (open_scoped laptop laptop_empty.db newer_task_object).isSome ∧
      Stops laptop laptop_empty.db newer_task_object ∧
      (pull_log laptop laptop_empty (View.of [memory_object])).length = 1 ∧
      (pull_log laptop laptop_empty (View.of [newer_task_object, memory_object])).length = 0 :=
  ⟨by decide, ⟨.Sync "unsupported payload v2", by decide⟩, by decide, by decide⟩

/-- A backup under a key without a writer. -/
def stray_backup : Object := from_phone "bkp/notes" .empty

theorem a_stray_backup_leaves_the_memory_alone :
    (pull_log laptop laptop_empty (View.of [stray_backup, memory_object])).filter
        (fun x => decide (x.1.key ≠ stray_backup.key)) =
      pull_log laptop laptop_empty (View.of [memory_object]) := by
  have hturn : ∀ db, open_and_apply laptop db stray_backup = (db, .ok true) := fun _ => rfl
  refine (a_refused_object_leaves_the_others_alone_unless_it_ends_the_pull laptop laptop_empty
    (a := []) (b := [memory_object]) (o := stray_backup) (by decide) ?_).mpr ?_
  · intro db behind _
    exact .inr (by rw [hturn])
  · rintro db behind _ ⟨err, h⟩
    rw [hturn] at h
    cases h

end pai_sync.engine
