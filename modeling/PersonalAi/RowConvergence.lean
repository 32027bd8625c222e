-- Devices that sync through one folder until nothing changes any more: who holds the
-- newest edit of every row.
import Mathlib.Data.Set.Finite.Lemmas
import PersonalAi.RowRuns

open pai_core sealing table text

namespace pai_sync.engine

variable {es : List Edit}

/-! ## When nothing changes any more -/

/-- Shipping goes through, and leaves every mirror at the shipped version or above. -/
theorem ship_mirrors (e : SyncEngine) (s : Site) (out : SyncOutcome) (outs : List Outgoing) :
    ∃ s' out', ship e (fun _ => none) s out (outs.map (fun o _ => o)) = (s', .ok out') ∧
      (∀ key, mirror_version s.toLocal key ≤ mirror_version s'.toLocal key) ∧
      ∀ o ∈ outs, o.version ≤ mirror_version s'.toLocal o.key := by
  induction outs generalizing s out with
  | nil => exact ⟨s, out, rfl, fun _ => Nat.le_refl _, by simp⟩
  | cons o rest ih =>
    rw [List.map_cons]
    unfold ship push_sealed
    by_cases hold : o.version ≤ mirror_version s.toLocal o.key
    · rw [if_pos hold]
      obtain ⟨s', out', hship, hgrows, hshipped⟩ := ih s { out with skipped := out.skipped + 1 }
      refine ⟨s', out', hship, hgrows, ?_⟩
      intro o' ho'
      rcases List.mem_cons.mp ho' with rfl | ho'
      · exact Nat.le_trans hold (hgrows _)
      · exact hshipped o' ho'
    · rw [if_neg hold]
      have hone : ∀ key, mirror_version (set_mirror s.toLocal (o.object e.device)) key =
          if key = o.key then o.version else mirror_version s.toLocal key :=
        fun key => mirror_version_set s.toLocal (o.object e.device) key
      obtain ⟨s', out', hship, hgrows, hshipped⟩ := ih
        { toLocal := set_mirror s.toLocal (o.object e.device),
          remote := s.remote.insert o.key (o.object e.device) } { out with pushed := out.pushed + 1 }
      refine ⟨s', out', hship, fun key => Nat.le_trans ?_ (hgrows key), ?_⟩
      · dsimp only
        rw [hone]
        split
        · rename_i hsame
          rw [hsame]
          exact Nat.le_of_not_le hold
        · exact Nat.le_refl _
      · intro o' ho'
        rcases List.mem_cons.mp ho' with rfl | ho'
        · refine Nat.le_trans ?_ (hgrows _)
          dsimp only
          rw [hone, if_pos rfl]
        · exact hshipped o' ho'

theorem ships_mem {e : SyncEngine} {db : Db} {k : RowKind} {id : String} {o : Outgoing}
    (h : Ships e db k id o) : o ∈ outgoing e db := by
  obtain ⟨row, hrow, hscope, ho⟩ := h
  have hrows : o ∈ outgoing_rows e db k := by
    refine List.mem_filterMap.mpr ⟨(id, row), ?_, ho⟩
    exact List.mem_filterMap.mpr ⟨⟨id, row⟩, lookup_eq_some.mp hrow, if_pos hscope⟩
  unfold outgoing
  cases k <;> simp [hrows]

/-- A quiet push has nothing new to ship. -/
theorem Net.Sound.quiet_push {c : Fleet} {n : Net} (h : n.Sound c es) {d : DeviceId}
    {now : Timestamp}
    (hquiet : (engine.push (c.engine_of d) now (fun _ => none) (n.site d)).1 = n.site d)
    {k : RowKind} {id : String} {o : Outgoing}
    (hships : Ships (c.engine_of d) (n.locals d).db k id o) :
    o.version ≤ mirror_version (n.locals d) o.key := by
  obtain ⟨s, out, hship, -, hshipped⟩ := ship_mirrors (c.engine_of d) (n.site d)
    { SyncOutcome.zero with skipped := left_out (c.engine_of d) (n.site d).db }
    (outgoing (c.engine_of d) (n.site d).db)
  rw [push_without_apps now (h.locals d).apps hship] at hquiet
  subst hquiet
  exact hshipped o (ships_mem hships)

/-- A quiet pull wants nothing that is in the folder. -/
theorem Net.Sound.quiet_pull {c : Fleet} {n : Net} (h : n.Sound c es) {d : DeviceId}
    {listing : List Object} (hlisting : listing.Perm n.stored)
    (hquiet : (engine.pull (c.engine_of d) (n.locals d) (View.of listing)).1 = n.locals d)
    {o : Object} (ho : n.remote.lookup o.key = some o) :
    wanted (c.engine_of d) (n.locals d) o = none := by
  have hkeys := h.keyed.listed hlisting
  have hin : o ∈ listing := hlisting.mem_iff.mpr (h.keyed.stored.mpr ho)
  by_contra hwanted
  have htaken : o ∈ taken (c.engine_of d) (n.locals d) listing := mem_taken.mpr ⟨hin, hwanted⟩
  have hwell : ∀ o' ∈ listing, (change_of (c.engine_of d) o').isSome := by
    intro o' ho'
    obtain ⟨d', k, id, w, -, -, htells, -⟩ :=
      h.slots o'.key o' (h.keyed.stored.mp (hlisting.mem_iff.mp ho'))
    obtain ⟨change, hchange, -⟩ := htells.opens (c.engine_of d) rfl
    rw [hchange]
    rfl
  have hmirror := congrArg (fun l => l.sync_objects.lookup o.key) 
    (pull_changes (l := n.locals d) hkeys hwell)
  rw [hquiet] at hmirror
  apply hwanted
  exact wanted_mirrored (hmirror.trans (mirrored_self _ (taken_nodup hkeys) htaken))

/-- What a quiet net shows of the newest edit: the row, or, of a deletion, maybe
nothing at all. -/
theorem Net.Sound.quiet {c : Fleet} {n : Net} (h : n.Sound c es) (hquiet : c.Quiet n)
    {a : DeviceId} {k : RowKind} {id : String} {w : Row k} (hw : Edit.mk a k id w ∈ es)
    (ha : a ∈ c.devices) (hnewest : ∀ b v, Edit.mk b k id v ∈ es → v.updated_at ≤ w.updated_at)
    {d : DeviceId} (hd : d ∈ c.devices) :
    ((n.locals d).db.row k id = none ∧ w.deleted = true) ∨
      ∃ row, (n.locals d).db.row k id = some row ∧ Shows w row := by
  have hk : k ≠ .document := h.edits.kind _ hw
  -- a device that holds a row of that time or later holds the edit
  have hholds : ∀ d, (n.locals d).Has k id w.updated_at →
      ∃ row, (n.locals d).db.row k id = some row ∧ Shows w row := by
    rintro d ⟨row, hrow, hle⟩
    obtain ⟨d', w', hw', hshows⟩ := (h.locals d).rows k id row hrow
    rw [hshows.updated] at hle
    rw [h.edits.newest hw hw' hnewest hle] at hshows
    exact ⟨row, hrow, hshows⟩
  -- a mirror of that version or above it is that of the edit
  have hmirrored : ∀ d o, (n.locals d).sync_objects.lookup (k.PREFIX ++ id) = some o →
      version_of w.updated_at ≤ o.version →
      (∃ s, n.remote.lookup (k.PREFIX ++ id) = some s ∧ w.updated_at ≤ s.updated_at) ∧
        (((n.locals d).db.row k id = none ∧ w.deleted = true) ∨ (n.locals d).Has k id w.updated_at) := by
    intro d o ho hversion
    obtain ⟨d', k', id', w', hw', hkey, hversion', -, hslot, hhas⟩ := (h.locals d).mirror _ o ho
    obtain ⟨rfl, rfl⟩ := not_not.mp (fun hne => row_key_ne.mpr hne hkey)
    have hle := h.edits.le hw hw' (hversion'.symm ▸ hversion)
    rw [h.edits.newest hw hw' hnewest hle] at hslot hhas
    exact ⟨hslot, hhas⟩
  -- the editor has shipped it
  obtain ⟨row, hrow, hshows⟩ := hholds a (h.kept a k id w hw)
  have hslot : ∃ s, n.remote.lookup (k.PREFIX ++ id) = some s ∧ w.updated_at ≤ s.updated_at := by
    obtain ⟨⟨now, hpush⟩, -⟩ := hquiet a ha
    have hout : ∃ o, outgoing_row (c.engine_of a) (n.locals a).db k id row = some o := by
      unfold outgoing_row
      rw [row_key_vault hk _ _ hshows.circle]
      exact ⟨_, rfl⟩
    obtain ⟨o, ho⟩ := hout
    have hversion := h.quiet_push hpush ⟨row, hrow, hshows.scope, ho⟩
    have htells := outgoing_tells h.edits hw hshows ho a
    rw [outgoing_row_key ho, show o.version = version_of w.updated_at from htells.version] at hversion
    unfold mirror_version engine.mirror at hversion
    rcases hmirror : (n.locals a).sync_objects.lookup (k.PREFIX ++ id) with _ | o'
    · rw [hmirror] at hversion
      unfold version_of at hversion
      simp at hversion
    · rw [hmirror] at hversion
      exact (hmirrored a o' hmirror hversion).1
  obtain ⟨s, hs, hnewer⟩ := hslot
  obtain ⟨d', k', id', w', hw', hkey, htells, hwriter⟩ := h.slots _ s hs
  obtain ⟨rfl, rfl⟩ := not_not.mp (fun hne => row_key_ne.mpr hne hkey)
  rw [htells.updated] at hnewer
  have hsame := h.edits.newest hw hw' hnewest hnewer
  subst hsame
  -- and every other device has pulled it
  obtain ⟨-, listing, hlisting, hpull⟩ := hquiet d hd
  have hunwanted := h.quiet_pull hlisting hpull (o := s) (by rw [htells.key]; exact hs)
  unfold wanted at hunwanted
  rw [htells.key, kind_rank_row] at hunwanted
  dsimp only at hunwanted
  split at hunwanted
  · rename_i hself
    right
    apply hholds d
    rw [show d = s.writer from hself.symm]
    exact hwriter
  · split at hunwanted
    · rename_i hseen
      unfold seen engine.mirror header at hseen
      dsimp only at hseen
      rw [htells.key] at hseen
      rcases hmirror : (n.locals d).sync_objects.lookup (k'.PREFIX ++ id') with _ | o'
      · rw [hmirror] at hseen
        cases hseen
      · rw [hmirror] at hseen
        have hle : s.version ≤ o'.version := by
          rcases of_decide_eq_true hseen with hlt | ⟨heq, -⟩
          · exact Nat.le_of_lt hlt
          · exact Nat.le_of_eq heq
        rw [htells.version] at hle
        exact (hmirrored d o' hmirror hle).2.imp id (hholds d)
    · cases hunwanted

theorem shown_quiet {k : RowKind} {w : Row k} {held : Option (Row k)}
    (h : (held = none ∧ w.deleted = true) ∨ ∃ row, held = some row ∧ Shows w row) :
    shown held = shown (some w) := by
  unfold shown
  rcases h with ⟨rfl, hdeleted⟩ | ⟨row, rfl, hshows⟩
  · simp [Option.filter, hdeleted]
  · cases hdeleted : w.deleted with
    | true => simp [Option.filter, hdeleted, hshows.deleted]
    | false => rw [hshows.same hdeleted]

/-- Of the edits of a row, one is the newest. -/
theorem exists_newest {a : DeviceId} {k : RowKind} {id : String} {v : Row k}
    (h : Edit.mk a k id v ∈ es) : ∃ b w, Edit.mk b k id w ∈ es ∧
      ∀ b' w', Edit.mk b' k id w' ∈ es → w'.updated_at ≤ w.updated_at := by
  have hfinite : {e | e ∈ es ∧ e.k = k ∧ e.id = id}.Finite :=
    (List.finite_toSet es).subset (fun e he => he.1)
  obtain ⟨⟨b, k', id', w⟩, ⟨hw, rfl, rfl⟩, hmax⟩ :=
    Set.exists_max_image _ (fun e : Edit => e.row.updated_at) hfinite ⟨⟨a, k, id, v⟩, h, rfl, rfl⟩
  exact ⟨b, w, hw, fun b' w' hw' => hmax ⟨b', _, _, w'⟩ ⟨hw', rfl, rfl⟩⟩

theorem editors {c : Fleet} {n : Net} {acts : List Act} (h : c.Along c.Takes es n acts) :
    ∀ e ∈ edits_of acts, e.device ∈ c.devices := by
  induction acts generalizing es n with
  | nil => simp [edits_of]
  | cons a rest ih =>
    intro e he
    unfold edits_of at he
    rw [List.flatMap_cons, List.mem_append] at he
    rcases he with he | he
    · cases a with
      | edit e' =>
        rw [List.mem_singleton.mp he]
        exact h.1.1
      | push d now => cases he
      | pull d listing => cases he
    · exact ih h.2 e he

/-- **The newest edit wins when no push covers a newer object.** Take any history of
edits, pushes and pulls of any devices, in which each push only ships rows that are
at least as new as the objects they replace in the folder, and each edit travels.
When no push and no pull changes anything any more, all devices show the same rows,
and each is the row of its newest edit. -/
theorem the_newest_edit_wins_when_no_push_covers_a_newer_object (c : Fleet) {acts : List Act}
    (htakes : c.Along c.Takes [] c.start acts) (hclean : c.Along Act.Clean [] c.start acts)
    (hquiet : c.Quiet (c.run c.start acts)) :
    (∀ d ∈ c.devices, ∀ d' ∈ c.devices, ∀ k id,
        shown (((c.run c.start acts).locals d).db.row k id) =
          shown (((c.run c.start acts).locals d').db.row k id)) ∧
      ∀ a k id w, Edit.mk a k id w ∈ edits_of acts →
        (∀ b v, Edit.mk b k id v ∈ edits_of acts → v.updated_at ≤ w.updated_at) →
        ∀ d ∈ c.devices, shown (((c.run c.start acts).locals d).db.row k id) = shown (some w) := by
  have hsound : (c.run c.start acts).Sound c (edits_of acts) :=
    Fleet.run_sound c.start_sound htakes hclean
  have hwins : ∀ a k id w, Edit.mk a k id w ∈ edits_of acts →
      (∀ b v, Edit.mk b k id v ∈ edits_of acts → v.updated_at ≤ w.updated_at) →
      ∀ d ∈ c.devices, shown (((c.run c.start acts).locals d).db.row k id) = shown (some w) :=
    fun a k id w hw hnewest d hd =>
      shown_quiet (hsound.quiet hquiet hw (editors htakes _ hw) hnewest hd)
  refine ⟨?_, hwins⟩
  intro d hd d' hd' k id
  by_cases hedited : ∃ a v, Edit.mk a k id v ∈ edits_of acts
  · obtain ⟨a, v, hv⟩ := hedited
    obtain ⟨b, w, hw, hnewest⟩ := exists_newest hv
    rw [hwins b k id w hw hnewest d hd, hwins b k id w hw hnewest d' hd']
  · have hnone : ∀ d, ((c.run c.start acts).locals d).db.row k id = none := by
      intro d
      rw [Option.eq_none_iff_forall_not_mem]
      intro row hrow
      obtain ⟨a, w, hw, -⟩ := (hsound.locals d).rows k id row hrow
      exact hedited ⟨a, w, hw⟩
    rw [hnone d, hnone d']

/-! ### Two devices and one memory -/

def phone_id : DeviceId := ⟨"phone"⟩

/-- The laptop and the phone. -/
def duo : Fleet :=
  { vault := laptop.vault, devices := [laptop.device, phone_id], env := fun _ => laptop.env,
    peers := fun _ => [] }

/-- A memory, as it is at that millisecond. -/
def memory_at (ms : Nat) (content : String) : Row .memory :=
  { fixed := { created_at := 1000000 },
    columns := { (memory_payload "m").body with content := content, share_circle := none },
    sync_scope := "synchronized", updated_at := ms * 1000000, deleted := false }

def memory_edit (d : DeviceId) (ms : Nat) (content : String) : Edit :=
  { device := d, k := .memory, id := "m", row := memory_at ms content }

/-- What a device ships of it. -/
def memory_object_at (d : DeviceId) (ms : Nat) (content : String) : Object :=
  { key := "memory/m",
    ciphertext := seal_with (.vault laptop.vault) "memory/m"
      (.row .memory (payload_of (Db.fresh []) .memory "m" (memory_at ms content))),
    version := ms, writer := d, updated_at := ms * 1000000, tombstone := false }

def tea : Object := memory_object_at laptop.device 1 "likes tea"
def coffee : Object := memory_object_at phone_id 2 "likes coffee"
def mate : Object := memory_object_at laptop.device 3 "likes mate"

/-- Both devices have the memory and edit it; the laptop, which is later, pushes. -/
def both_edit : List Act :=
  [.edit (memory_edit laptop.device 1 "likes tea"), .push laptop.device 0, .pull phone_id [tea],
    .edit (memory_edit phone_id 2 "likes coffee"), .edit (memory_edit laptop.device 3 "likes mate"),
    .push laptop.device 0]

/-- The phone pushes before it pulls. -/
def push_first : List Act :=
  both_edit ++ [.push phone_id 0, .pull phone_id [coffee], .pull laptop.device [coffee]]

def pull_first : List Act :=
  both_edit ++ [.pull phone_id [mate], .push phone_id 0, .pull laptop.device [mate]]

theorem along_append (c : Fleet) (P : List Edit → Net → Act → Prop) (es : List Edit) (n : Net)
    (a b : List Act) : c.Along P es n (a ++ b) ↔
      c.Along P es n a ∧ c.Along P (es ++ edits_of a) (c.run n a) b := by
  induction a generalizing es n with
  | nil =>
    unfold edits_of
    rw [List.flatMap_nil, List.append_nil]
    exact ⟨fun h => ⟨trivial, h⟩, fun h => h.2⟩
  | cons x rest ih =>
    have hedits : es ++ edits_of (x :: rest) = (es ++ x.edits) ++ edits_of rest := by
      unfold edits_of
      rw [List.flatMap_cons, List.append_assoc]
    rw [hedits]
    exact (and_congr_right (fun _ => ih _ _)).trans and_assoc.symm

/-- A push that has nothing new to ship changes nothing. -/
theorem push_mirrored {e : SyncEngine} {s : Site} (now : Timestamp) (happs : s.db.apps.entries = [])
    (h : ∀ o ∈ outgoing e s.db, o.version ≤ mirror_version s.toLocal o.key) :
    (push e now (fun _ => none) s).1 = s := by
  have hship : ∀ (outs : List Outgoing) (out : SyncOutcome),
      (∀ o ∈ outs, o.version ≤ mirror_version s.toLocal o.key) →
      ∃ out', ship e (fun _ => none) s out (outs.map (fun o _ => o)) = (s, .ok out') := by
    intro outs
    induction outs with
    | nil => exact fun out _ => ⟨out, rfl⟩
    | cons o rest ih =>
      intro out hall
      rw [List.map_cons]
      unfold ship push_sealed
      rw [if_pos (hall o List.mem_cons_self)]
      exact ih _ (fun o' ho' => hall o' (List.mem_cons_of_mem _ ho'))
  obtain ⟨out, hout⟩ := hship _ { SyncOutcome.zero with skipped := left_out e s.db } h
  exact push_without_apps now happs hout

/-- A pull that wants nothing changes nothing. -/
theorem pull_nothing {e : SyncEngine} {l : Local} {view : View} (h : pending e l view = []) :
    (pull e l view).1 = l := by
  unfold pull
  rw [h]
  rfl

theorem phone_takes_part : phone_id ∈ duo.devices := by decide

theorem memory_takes {es : List Edit} {n : Net} {d : DeviceId} {ms : Nat} {content : String}
    (hd : d ∈ duo.devices) (hes : ∀ e ∈ es, ∃ d ms content, e = memory_edit d ms content)
    (hclock : ∀ a ∈ es, timestamp_millis a.row.updated_at < timestamp_millis (ms * 1000000)) :
    duo.Takes es n (.edit (memory_edit d ms content)) := by
  refine ⟨hd, RowKind.noConfusion, rfl, rfl, hclock, ?_⟩
  intro d' row hrow
  obtain ⟨d'', ms', content', heq⟩ := hes _ hrow
  cases heq
  rfl

theorem both_edit_takes : duo.Along duo.Takes [] duo.start both_edit := by
  refine ⟨memory_takes (by decide) (by simp) (by simp), ?_, ⟨?_, ?_⟩, ?_, ?_, ?_, trivial⟩
  · exact List.mem_cons_self
  · exact phone_takes_part
  · exact .of_eq (by decide)
  · exact memory_takes phone_takes_part (by simp [Act.edits, memory_edit]) (by decide)
  · refine memory_takes (by decide) ?_ (by decide)
    intro e he
    rcases List.mem_cons.mp he with rfl | he
    · exact ⟨_, _, _, rfl⟩
    · exact ⟨_, _, _, List.mem_singleton.mp he⟩
  · exact List.mem_cons_self

theorem push_first_takes : duo.Along duo.Takes [] duo.start push_first := by
  refine (along_append _ _ _ _ _ _).mpr ⟨both_edit_takes, ?_, ⟨?_, ?_⟩, ⟨?_, ?_⟩, trivial⟩
  · exact phone_takes_part
  · exact phone_takes_part
  · exact .of_eq (by decide)
  · exact List.mem_cons_self
  · exact .of_eq (by decide)

theorem pull_first_takes : duo.Along duo.Takes [] duo.start pull_first := by
  refine (along_append _ _ _ _ _ _).mpr ⟨both_edit_takes, ⟨?_, ?_⟩, ?_, ⟨?_, ?_⟩, trivial⟩
  · exact phone_takes_part
  · exact .of_eq (by decide)
  · exact phone_takes_part
  · exact List.mem_cons_self
  · exact .of_eq (by decide)

/-- The phone's push covers the laptop's newer memory, which then stays on the laptop. -/
theorem a_push_before_a_pull_covers_a_newer_memory :
    duo.Along duo.Takes [] duo.start push_first ∧
      duo.Quiet (duo.run duo.start push_first) ∧
      shown (((duo.run duo.start push_first).locals laptop.device).db.row .memory "m") =
        some (memory_at 3 "likes mate") ∧
      shown (((duo.run duo.start push_first).locals phone_id).db.row .memory "m") =
        some (memory_at 2 "likes coffee") := by
  refine ⟨push_first_takes, ?_, by decide, by decide⟩
  intro d hd
  rcases List.mem_cons.mp hd with rfl | hd
  · exact ⟨⟨0, push_mirrored 0 (by decide) (by decide)⟩, [coffee], .of_eq (by decide),
      pull_nothing (by decide)⟩
  · rw [List.mem_singleton.mp hd]
    exact ⟨⟨0, push_mirrored 0 (by decide) (by decide)⟩, [coffee], .of_eq (by decide),
      pull_nothing (by decide)⟩

theorem memory_travels {es : List Edit} {d : DeviceId} {ms : Nat} {content : String}
    (hversions : ∀ a ∈ es, version_of a.row.updated_at < version_of (ms * 1000000)) :
    (memory_edit d ms content).Travels es := by
  refine ⟨hversions, fun _ => ?_⟩
  change (finite 0 && finite 0 && ([] : List UInt32).all finite) = true
  decide

/-- A folder that holds the memory alone. -/
theorem covers_memory {s : Site} (x : Object) (row : Row .memory)
    (hremote : s.remote.entries = [⟨"memory/m", x⟩]) (hrow : s.db.row .memory "m" = some row)
    (h : mirror_version s.toLocal "memory/m" < version_of row.updated_at →
      x.version ≤ version_of row.updated_at) : s.Covers := by
  intro k id row' hrow' hnew o ho
  have hentry := lookup_eq_some.mp ho
  rw [hremote, List.mem_singleton] at hentry
  have hkey : k.PREFIX ++ id = RowKind.memory.PREFIX ++ "m" := congrArg Sigma.fst hentry
  obtain ⟨rfl, rfl⟩ := not_not.mp (fun hne => row_key_ne.mpr hne hkey.symm)
  cases hentry
  rw [hrow] at hrow'
  cases hrow'
  exact h hnew

theorem pull_first_clean : duo.Along Act.Clean [] duo.start pull_first := by
  refine (along_append _ _ _ _ _ _).mpr
    ⟨⟨?_, ?_, trivial, ?_, ?_, ?_, trivial⟩, trivial, ?_, trivial, trivial⟩
  · exact memory_travels (by simp)
  · intro k id row _ _ o ho
    cases ho
  · exact memory_travels (by decide)
  · exact memory_travels (by decide)
  · exact covers_memory tea (memory_at 3 "likes mate") (by decide) (by decide) (by decide)
  · exact covers_memory mate (memory_at 3 "likes mate") (by decide) (by decide) (by decide)

/-- Where the phone pulls first, both devices end up with the laptop's edit. -/
theorem a_pull_before_a_push_keeps_the_newest_memory :
    shown (((duo.run duo.start pull_first).locals phone_id).db.row .memory "m") =
      shown (some (memory_at 3 "likes mate")) := by
  refine (the_newest_edit_wins_when_no_push_covers_a_newer_object duo pull_first_takes
    pull_first_clean ?_).2 laptop.device .memory "m" (memory_at 3 "likes mate") ?_ ?_ phone_id (by decide)
  · intro d hd
    rcases List.mem_cons.mp hd with rfl | hd
    · exact ⟨⟨0, push_mirrored 0 (by decide) (by decide)⟩, [mate], .of_eq (by decide),
        pull_nothing (by decide)⟩
    · rw [List.mem_singleton.mp hd]
      exact ⟨⟨0, push_mirrored 0 (by decide) (by decide)⟩, [mate], .of_eq (by decide),
        pull_nothing (by decide)⟩
  · exact List.mem_cons_of_mem _ (List.mem_cons_of_mem _ List.mem_cons_self)
  · intro b v hv
    have hall : ∀ e ∈ edits_of pull_first, e.row.updated_at ≤ 3000000 := by decide
    exact hall _ hv

end pai_sync.engine
