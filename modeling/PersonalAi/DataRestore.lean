-- A snapshot of an app's data and its restore: which files come back, on the same device or on
-- another one.
import Mathlib.Data.List.Dedup
import Mathlib.Data.List.Sort
import PersonalAi.DataSwap

open text paths program disk

namespace pai_apps

/-! ## What a walk finds -/

theorem mem_names {d : Disk} {p : Path} {name : FileName} :
    name ∈ d.names p ↔ d.at_ (p ++ [name.text]) ≠ none := by
  unfold Disk.names
  rw [List.mem_filterMap]
  simp only [List.mem_dedup, List.mem_filterMap]
  constructor
  · rintro ⟨s, ⟨q, -, hq⟩, hs⟩
    split at hs
    · rename_i hname
      injection hs with hs
      subst hs
      split at hq
      · rename_i last hlast
        split at hq
        · rename_i hthere
          injection hq with hq
          subst hq
          have hparts : q = p ++ [last] := by
            rw [← hthere.1]
            exact (List.dropLast_append_getLast? last hlast).symm
          have hexists := hthere.2
          unfold Disk.exists_ at hexists
          rw [hparts] at hexists
          exact Option.isSome_iff_ne_none.mp hexists
        · cases hq
      · cases hq
    · cases hs
  · intro hthere
    refine ⟨name.text, ⟨p ++ [name.text], d.listed _ hthere, ?_⟩, ?_⟩
    · have hexists : d.exists_ (p ++ [name.text]) = true := Option.isSome_iff_ne_none.mpr hthere
      simp [hexists]
    · rw [dif_pos name.is_name]

theorem mem_walk_entries {rel q : Path} {entries : List (FileName × Tree)} :
    q ∈ walk_entries rel entries ↔ ∃ e ∈ entries, q ∈ walk (rel ++ [e.1.text]) e.2 := by
  induction entries with
  | nil => simp [walk_entries]
  | cons e rest ih =>
    unfold walk_entries
    rw [List.mem_append, ih]
    simp

/-- A walk as far down as that finds the files that stand so far down. -/
theorem mem_walk (d : Disk) (k : Nat) (p rel q : Path) : q ∈ walk rel (tree_at d k p) ↔
    ∃ s bytes, q = rel ++ s ∧ s.length < k ∧ d.at_ (p ++ s) = some (.file bytes) := by
  induction k generalizing p rel with
  | zero => simp [tree_at, walk]
  | succ k ih =>
    unfold tree_at
    rcases hp : d.at_ p with _ | node
    · constructor
      · intro h
        simp [walk] at h
      · rintro ⟨s, bytes, -, -, hs⟩
        by_cases hempty : s = []
        · rw [hempty, List.append_nil, hp] at hs
          cases hs
        · rw [d.below (by simp [hp]) hempty] at hs
          cases hs
    cases node with
    | file bytes =>
      dsimp only
      constructor
      · intro h
        simp only [walk, List.mem_singleton] at h
        exact ⟨[], bytes, by simpa using h, by simp, by simpa using hp⟩
      · rintro ⟨s, _, hq, -, hs⟩
        by_cases hempty : s = []
        · simpa [walk, hempty] using hq
        · rw [d.below (by simp [hp]) hempty] at hs
          cases hs
    | dir =>
      dsimp only
      unfold walk
      rw [mem_walk_entries]
      constructor
      · rintro ⟨e, he, hq⟩
        obtain ⟨name, -, rfl⟩ := List.mem_map.mp he
        obtain ⟨s, bytes, hq, hlength, hs⟩ := (ih _ _).mp hq
        refine ⟨name.text :: s, bytes, ?_, ?_, ?_⟩
        · simpa using hq
        · simpa using hlength
        · simpa using hs
      · rintro ⟨s, bytes, hq, hlength, hs⟩
        -- The file stands below one of the entries.
        cases s with
        | nil =>
          rw [List.append_nil, hp] at hs
          cases hs
        | cons c s =>
          have hsplit : p ++ c :: s = p ++ [c] ++ s := by simp
          rw [hsplit] at hs
          have hthere : d.at_ (p ++ [c]) ≠ none := by
            by_cases hempty : s = []
            · rw [hempty, List.append_nil] at hs
              simp [hs]
            · have habove : d.at_ (p ++ [c]) = some .dir := d.closed.above (by rw [hs]; simp) hempty
              rw [habove]
              simp
          have hname := (d.closed.name p c hthere).1
          refine ⟨(⟨c, hname⟩, tree_at d k (p ++ [c])), ?_, ?_⟩
          · exact List.mem_map.mpr ⟨⟨c, hname⟩, mem_names.mpr hthere, rfl⟩
          · apply (ih _ _).mpr
            refine ⟨s, bytes, ?_, ?_, hs⟩
            · simpa using hq
            · simpa using hlength

/-- Nothing stands deeper. -/
theorem lt_depth {d : Disk} {p : Path} (h : d.at_ p ≠ none) : p.length < depth d := by
  unfold depth
  rw [Nat.lt_succ_iff]
  have hmax := @List.max?_cons' Nat 0 _ (d.known.map List.length)
  rw [List.max?_eq_some_iff] at hmax
  apply hmax.2
  exact List.mem_cons_of_mem _ (List.mem_map_of_mem (d.listed p h))

/-! ## The names of a snapshot -/

theorem joined_checked {q : Path} (h : ∀ c ∈ q, IsName c) :
    check_rel_path ("/".intercalate q) = .ok () := by
  unfold check_rel_path
  rw [joined_not_absolute h, if_neg Bool.false_ne_true, components_joined h, if_neg]
  intro hup
  exact (h ".." hup).2.2.1 rfl

/-- No name on the path holds a backslash. -/
def Plain (q : Path) : Prop := ∀ c ∈ q, '\\' ∉ c.toList

/-- A path without backslashes keeps its name. -/
theorem snapshot_name_plain {q : Path} (h : Plain q) : snapshot_name q = "/".intercalate q := by
  have hflip : ∀ x ∈ ("/".intercalate q).toList, x ≠ '\\' := by
    induction q with
    | nil => simp
    | cons c q ih =>
      unfold Plain at h
      rw [List.forall_mem_cons] at h
      have hc : ∀ x ∈ c.toList, x ≠ '\\' := fun x hx heq => h.1 (heq ▸ hx)
      cases q with
      | nil =>
        rw [String.intercalate_singleton]
        exact hc
      | cons c' q =>
        rw [String.intercalate_cons_cons]
        intro x hx
        simp only [String.toList_append, List.mem_append] at hx
        rcases hx with (hx | hx) | hx
        · exact hc x hx
        · have hslash : x = '/' := by simpa using hx
          rw [hslash]
          decide
        · exact ih h.2 x hx
  unfold snapshot_name
  have hmap := List.map_congr_left (f := fun c => if c = '\\' then '/' else c) (g := id)
    (fun x hx => if_neg (hflip x hx))
  rw [hmap, List.map_id, String.ofList_toList]

/-- No name of a snapshot holds a backslash. -/
theorem plain_snapshot_name (q : Path) : Plain (components (snapshot_name q)) := by
  intro c hc hx
  have hin := chars_of_component hc hx
  unfold snapshot_name at hin
  rw [String.toList_ofList] at hin
  obtain ⟨x, -, hflip⟩ := List.mem_map.mp hin
  split at hflip
  · exact absurd hflip (by decide)
  · rename_i hne
    exact hne hflip

/-! ## The snapshot -/

section Snapshot
variable {sql : Sqlite} {d : Disk} {data place : Path}

theorem read_at {p : Path} {bytes : Bytes} (hway : d.way p = some place)
    (hfile : d.at_ place = some (.file bytes)) :
    (demand ((faulty sql).read p) : Fs World Bytes).outcome (.start d none) =
      (.ok bytes, .start d none) := by
  have hread : (World.start d none).read p = .ok bytes := by
    simp [World.read, World.unread, World.start, hway, disk.read, hfile, Except.mapError]
  rw [outcome_demand, ← hread]
  rfl

theorem read_dir_at {p : Path} (hway : d.way p = some place) (hdir : d.at_ place = some .dir) :
    (demand ((faulty sql).read_dir p) : Fs World Tree).outcome (.start d none) =
      (.ok (tree_at d (depth d) place), .start d none) := by
  have hseen : d.seen p [] = some .dir := by rw [seen_of_way hway, under_self, hdir]
  have hread : (World.start d none).read_dir p = .ok (tree_at d (depth d) place) := by
    simp [World.read_dir, World.unlisted, World.start, hway, hseen]
  rw [outcome_demand, ← hread]
  rfl

/-- The files that are there are read, each under its name in the snapshot. -/
theorem reads_files (hway : d.way data = some place) {rels : List Path}
    (hrels : ∀ q ∈ rels, ∃ bytes, d.at_ (place ++ q) = some (.file bytes)) :
    ∃ files, (read_files (faulty sql) data rels).outcome (.start d none) = (.ok files, .start d none) ∧
      ∀ f, f ∈ files ↔ ∃ q ∈ rels, ∃ bytes, d.at_ (place ++ q) = some (.file bytes) ∧
        f = (snapshot_name q, bytes) := by
  induction rels with
  | nil => exact ⟨[], rfl, by simp⟩
  | cons q rels ih =>
    rw [List.forall_mem_cons] at hrels
    obtain ⟨⟨bytes, hfile⟩, hrels⟩ := hrels
    obtain ⟨files, hrun, hmem⟩ := ih hrels
    have hdown : Down q := by
      intro hup
      have hentry := d.closed.entries (p := place ++ q) (by simp [hfile]) ".."
        (List.mem_append_right _ hup)
      exact hentry.1.2.2.1 rfl
    refine ⟨(snapshot_name q, bytes) :: files, ?_, ?_⟩
    · unfold read_files
      rw [outcome_bind_ok (read_at (way_below hway hdown) hfile), outcome_bind_ok hrun]
      rfl
    · intro f
      rw [List.mem_cons, hmem]
      constructor
      · rintro (rfl | ⟨q', hq', hrest⟩)
        · exact ⟨q, List.mem_cons_self, bytes, hfile, rfl⟩
        · exact ⟨q', List.mem_cons_of_mem _ hq', hrest⟩
      · rintro ⟨q', hq', bytes', hfile', rfl⟩
        rcases List.mem_cons.mp hq' with rfl | hq'
        · rw [hfile] at hfile'
          injection hfile' with hnode
          injection hnode with hbytes
          rw [hbytes]
          exact .inl rfl
        · exact .inr ⟨q', hq', bytes', hfile', rfl⟩

theorem snapshot_data_eq (reg : AppRegistry) (id : String) :
    reg.snapshot_data (faulty sql) id = (do
      demand (fun _ => check_app_id id)
      if ← ask ((faulty sql).is_dir (reg.data_place id)) then
        let rels ← collect_files (faulty sql) (reg.data_place id)
        let out ← read_files (faulty sql) (reg.data_place id) rels
        return out.mergeSort (fun a b => decide (a.1 ≤ b.1))
      else
        return []) := rfl

/-- Nothing fails: the snapshot holds each file of the data, under its name there. -/
theorem snapshot_reads (sql : Sqlite) (reg : AppRegistry) {id : String} (hid : check_app_id id = .ok ())
    {d : Disk} (hdata : ∀ bytes, d.seen (reg.data_place id) [] ≠ some (.file bytes)) :
    ∃ files, (reg.snapshot_data (faulty sql) id).outcome (.start d none) =
        (.ok files, .start d none) ∧
      ∀ f, f ∈ files ↔ ∃ q bytes, d.seen (reg.data_place id) q = some (.file bytes) ∧
        f = (snapshot_name q, bytes) := by
  have hasked : (ask ((faulty sql).is_dir (reg.data_place id)) : Fs World Bool).outcome
      (.start d none) = (.ok (decide (d.seen (reg.data_place id) [] = some .dir)), .start d none) :=
    rfl
  rw [snapshot_data_eq, outcome_bind_ok (by simp [hid] : _ = (Except.ok (), World.start d none)),
    outcome_bind_ok hasked]
  generalize reg.data_place id = data at hdata
  rcases hway : d.way data with _ | place
  · -- The path leads nowhere.
    have hseen : d.seen data = fun _ => none := by
      unfold Disk.seen
      rw [hway]
    rw [hseen]
    exact ⟨[], rfl, by simp⟩
  rw [seen_of_way hway] at hdata ⊢
  by_cases hdir : d.under place [] = some .dir
  · rw [decide_eq_true hdir, if_pos rfl]
    rw [under_self] at hdir
    have hcollect : (collect_files (faulty sql) data).outcome (.start d none) =
        (.ok (walk [] (tree_at d (depth d) place)), .start d none) := by
      unfold collect_files
      rw [outcome_bind_ok (read_dir_at hway hdir)]
      unfold depth tree_at
      rw [hdir]
      rfl
    have hwalk : ∀ q, q ∈ walk [] (tree_at d (depth d) place) ↔
        ∃ bytes, d.at_ (place ++ q) = some (.file bytes) := by
      intro q
      rw [mem_walk]
      constructor
      · rintro ⟨s, bytes, rfl, -, hfile⟩
        exact ⟨bytes, hfile⟩
      · rintro ⟨bytes, hfile⟩
        refine ⟨q, bytes, rfl, ?_, hfile⟩
        have hdepth := lt_depth (p := place ++ q) (by rw [hfile]; simp)
        rw [List.length_append] at hdepth
        omega
    obtain ⟨files, hrun, hmem⟩ := @reads_files sql d _ _ hway _ fun q hq => (hwalk q).mp hq
    rw [outcome_bind_ok hcollect, outcome_bind_ok hrun]
    refine ⟨files.mergeSort (fun a b => decide (a.1 ≤ b.1)), rfl, ?_⟩
    intro f
    rw [List.mem_mergeSort, hmem]
    constructor
    · rintro ⟨q, -, bytes, hfile, rfl⟩
      exact ⟨q, bytes, hfile, rfl⟩
    · rintro ⟨q, bytes, hfile, rfl⟩
      exact ⟨q, (hwalk q).mpr ⟨bytes, hfile⟩, bytes, hfile, rfl⟩
  · rw [decide_eq_false hdir, if_neg Bool.false_ne_true]
    refine ⟨[], rfl, ?_⟩
    intro f
    constructor
    · intro hf
      cases hf
    · rintro ⟨q, bytes, hfile, -⟩
      exfalso
      have hnone : d.at_ (place ++ q) = none := by
        by_cases hempty : q = []
        · rw [hempty] at hfile
          exact (hdata bytes hfile).elim
        · rw [under_self] at hdir
          exact d.below hdir hempty
      rw [Disk.under, hnone] at hfile
      cases hfile

end Snapshot

/-! ## The restore -/

theorem listed_bytes {files : Files} {q : Path} {bytes : Bytes}
    (h : listed files q = some (.file bytes)) : ∃ f ∈ files, components f.1 = q ∧ f.2 = bytes := by
  unfold listed at h
  split at h
  · rename_i f hf
    injection h with hnode
    injection hnode with hbytes
    exact ⟨f, List.mem_reverse.mp (List.mem_of_find?_eq_some hf), by simpa using List.find?_some hf,
      hbytes⟩
  · split at h
    · cases h
    · cases h

section Restore
variable {sql : Sqlite} {live rescue l r place there : Path} {n m : String}

/-- Nothing fails: the files take their place exactly where they fit. -/
theorem ended_unfaulted {files : Files} {w : World} {out : Except AppError Unit × World}
    (hfault : w.fault = none) (h : Ended place there live rescue files w out) :
    (out.1 = .ok () ↔ Fits files) ∧ (Fits files → out.2.disk.under place = listed files) := by
  have hmeets : ∀ done calls, ¬ Meets w.fault done calls := by
    rintro done calls ⟨op, nth, damage, heq, -⟩
    rw [hfault] at heq
    cases heq
  have hat : ∀ op nth, ¬ FaultAt w.fault op nth := by
    rintro op nth ⟨damage, heq⟩
    rw [hfault] at heq
    cases heq
  -- Where the end is an error, the files do not fit.
  have herror : ∀ {e : AppError} {w' : World}, ¬ Fits files →
      ((Except.error e, w').1 = (Except.ok () : Except AppError Unit) ↔ Fits files) ∧
        (Fits files → w'.disk.under place = listed files) := by
    intro e w' hno
    exact ⟨⟨fun heq => (by cases heq), fun hfits => (hno hfits).elim⟩, fun hfits => (hno hfits).elim⟩
  cases h with
  | swapped hfits _ _ hunder => exact ⟨⟨fun _ => hfits, fun _ => rfl⟩, fun _ => hunder⟩
  | uncleaned _ _ _ hstruck _ => exact (hat _ _ hstruck).elim
  | returned _ hcause _ =>
    rcases hcause with hcause | ⟨hno, -⟩
    · exact (hmeets _ _ hcause).elim
    · exact herror hno
  | unreturned _ hno _ _ => exact herror hno
  | left hno _ _ _ => exact herror hno
  | cleared _ hcause _ =>
    rcases hcause with hcause | ⟨hno, -⟩
    · exact (hmeets _ _ hcause).elim
    · exact herror hno

/-- No file has the place of the data, nor that of the rescue directory where there is data. -/
def NotInPlace (data rescue : Option Node) : Prop :=
  (∀ bytes, data ≠ some (.file bytes)) ∧ (data = some .dir → ∀ bytes, rescue ≠ some (.file bytes))

theorem swap_unfaulted (files : Files) {d : Disk} (h : Spots live rescue l n r m d)
    (hchecked : ∀ f ∈ files, check_rel_path f.1 = .ok ()) {out : Except AppError Unit × World}
    (hout : (swap_data (faulty sql) live rescue files).outcome (.start d none) = out) :
    (out.1 = .ok () ↔ Fits files ∧ NotInPlace (d.at_ (l ++ [n])) (d.at_ (r ++ [m]))) ∧
      (out.1 = .ok () → out.2.disk.at_ r = some .dir ∧
        out.2.disk.under (l ++ [n]) = listed files) := by
  -- The writing ends as it must, and what stood there was not in the way.
  have hended : ∀ w : World, w.fault = none → Ended (l ++ [n]) (r ++ [m]) live rescue files w out →
      out.2.disk.at_ r = some .dir → NotInPlace (d.at_ (l ++ [n])) (d.at_ (r ++ [m])) →
      (out.1 = .ok () ↔ Fits files ∧ NotInPlace (d.at_ (l ++ [n])) (d.at_ (r ++ [m]))) ∧
      (out.1 = .ok () → out.2.disk.at_ r = some .dir ∧
        out.2.disk.under (l ++ [n]) = listed files) := by
    intro w hfault hends hroot hfree
    obtain ⟨hok, hunder⟩ := ended_unfaulted hfault hends
    exact ⟨hok.trans ⟨fun hfits => ⟨hfits, hfree⟩, fun hboth => hboth.1⟩,
      fun hdone => ⟨hroot, hunder (hok.mp hdone)⟩⟩
  -- An error, where something is in the way.
  have hfailed : ∀ e w', out = (.error e, w') →
      ¬ NotInPlace (d.at_ (l ++ [n])) (d.at_ (r ++ [m])) →
      (out.1 = .ok () ↔ Fits files ∧ NotInPlace (d.at_ (l ++ [n])) (d.at_ (r ++ [m]))) ∧
      (out.1 = .ok () → out.2.disk.at_ r = some .dir ∧
        out.2.disk.under (l ++ [n]) = listed files) := by
    rintro e w' rfl hno
    exact ⟨⟨fun heq => (by cases heq), fun hboth => (hno hboth.2).elim⟩, fun heq => (by cases heq)⟩
  rw [swap_outcome h files none] at hout
  by_cases hlive : d.at_ (l ++ [n]) = some .dir
  · rw [if_pos hlive] at hout
    rcases @sets_aside sql _ _ _ _ _ _ _ h hlive none with
      ⟨e, w', hrun, -, -, hearly⟩ | ⟨d', hrun, hstale, hspots, hgone, -, -⟩
    · rw [outcome_bind_error hrun] at hout
      rcases hearly with ⟨_, _, _, heq, -⟩ | ⟨bytes, hfile⟩
      · cases heq
      · exact hfailed e w' hout.symm fun hfree => hfree.2 hlive bytes hfile
    · rw [outcome_bind_ok hrun] at hout
      have hends := @write_and_clean_ends sql live rescue l r n m
        ⟨d', aside_calls live rescue (d.at_ (r ++ [m])), none⟩ files hspots hchecked hgone
      rw [hout] at hends
      refine hended _ rfl hends.1 hends.2 ⟨?_, ?_⟩
      · intro bytes hfile
        rw [hlive] at hfile
        cases hfile
      · intro _ bytes hfile
        rcases hstale with hstale | hstale
        · rw [hstale] at hfile
          cases hfile
        · rw [hstale] at hfile
          cases hfile
  · rw [if_neg hlive] at hout
    rcases hat : d.at_ (l ++ [n]) with _ | node
    · have hends := @write_and_clean_ends sql live rescue l r n m (.start d none) files h hchecked hat
      rw [hout] at hends
      have hfree : NotInPlace (d.at_ (l ++ [n])) (d.at_ (r ++ [m])) := by
        rw [hat]
        exact ⟨by simp, by simp⟩
      rw [← hat]
      exact hended _ rfl hends.1 hends.2 hfree
    · cases node with
      | dir => exact (hlive hat).elim
      | file bytes =>
        obtain ⟨e, w', hrun, -⟩ := @write_and_clean_file sql live rescue l r n m
          (.start d none) files h bytes hat
        rw [hrun] at hout
        rw [← hat]
        exact hfailed e w' hout.symm fun hfree => hfree.1 bytes hat

end Restore

theorem check_all_of {ps : List String} (h : ∀ p ∈ ps, check_rel_path p = .ok ()) :
    check_all ps = .ok () := by
  induction ps with
  | nil => rfl
  | cons p ps ih =>
    rw [List.forall_mem_cons] at h
    change (check_rel_path p >>= fun _ => check_all ps) = _
    rw [h.1]
    exact ih h.2

/-- Nothing fails: the restore succeeds exactly where the paths are accepted, the files fit and no
file has their place; then the data is what is listed. -/
theorem restore_puts (sql : Sqlite) (reg : AppRegistry) {id : String} (hid : check_app_id id = .ok ())
    (files : Files) {d : Disk} (hdir : d.seen (join reg.root id) [] = some .dir)
    {out : Except AppError Unit × World}
    (hout : (reg.restore_data (faulty sql) id files).outcome (.start d none) = out) :
    (out.1 = .ok () ↔ (∀ f ∈ files, check_rel_path f.1 = .ok ()) ∧ Fits files ∧
      NotInPlace (d.seen (reg.data_place id) []) (d.seen (reg.rescue_place id) [])) ∧
    (out.1 = .ok () → out.2.disk.seen (reg.data_place id) = listed files) := by
  unfold AppRegistry.restore_data at hout
  rw [outcome_bind_ok (by simp [hid] : _ = (Except.ok (), World.start d none))] at hout
  rcases hpaths : check_all (files.map Prod.fst) with e | ⟨⟩
  · rw [outcome_bind_error (by simp [hpaths] : _ = (Except.error e, World.start d none))] at hout
    subst hout
    refine ⟨⟨fun heq => (by cases heq), ?_⟩, fun heq => (by cases heq)⟩
    rintro ⟨hchecked, -⟩
    exfalso
    have hall : check_all (files.map Prod.fst) = .ok () := by
      apply check_all_of
      intro p hp
      obtain ⟨f, hf, rfl⟩ := List.mem_map.mp hp
      exact hchecked f hf
    rw [hpaths] at hall
    cases hall
  rw [outcome_bind_ok (by simp [hpaths] : _ = (Except.ok (), World.start d none))] at hout
  have hasked : (ask ((faulty sql).is_dir (join reg.root id)) : Fs World Bool).outcome
      (.start d none) = (.ok true, .start d none) := by
    rw [outcome_ask, ← decide_eq_true hdir]
    rfl
  rw [outcome_bind_ok hasked, if_pos rfl] at hout
  obtain ⟨l, h⟩ := registry_spots reg hid hdir
  have hchecked : ∀ f ∈ files, check_rel_path f.1 = .ok () := fun f hf =>
    check_all_ok hpaths f.1 (List.mem_map_of_mem hf)
  obtain ⟨hok, hafter⟩ := @swap_unfaulted sql _ _ _ _ _ _ files _ h hchecked _ hout
  rw [seen_of_way (h.live_way d h.rescue_in), seen_of_way (h.rescue_way d), under_self, under_self,
    hok]
  refine ⟨⟨fun hboth => ⟨hchecked, hboth⟩, fun hall => hall.2⟩, ?_⟩
  intro hdone
  obtain ⟨hroot, hunder⟩ := hafter (hok.mpr hdone)
  rw [seen_of_way (h.live_way _ hroot), hunder]

/-! ## There and back -/

/-- A snapshot taken on one device is restored on another one: both succeed, and the same paths
hold the same files. -/
def ComesBack (sql : Sqlite) (reg reg' : AppRegistry) (id : String) (d d' : Disk) : Prop :=
  ∃ files, ((reg.snapshot_data (faulty sql) id).outcome (.start d none)).1 = .ok files ∧
    let out := (reg'.restore_data (faulty sql) id files).outcome (.start d' none)
    out.1 = .ok () ∧ ∀ q bytes, out.2.disk.seen (reg'.data_place id) q = some (.file bytes) ↔
      d.seen (reg.data_place id) q = some (.file bytes)

section Back
variable {d d' : Disk} {p q q' : Path} {bytes bytes' : Bytes}

theorem seen_place {node : Node} (h : d.seen p q = some node) :
    ∃ place, d.way p = some place ∧ d.at_ (place ++ q) = some node := by
  rcases hway : d.way p with _ | place
  · unfold Disk.seen at h
    rw [hway] at h
    cases h
  · rw [seen_of_way hway] at h
    exact ⟨place, rfl, h⟩

theorem seen_entries (h : d.seen p q = some (.file bytes)) : ∀ c ∈ q, IsEntry c := by
  obtain ⟨place, -, hfile⟩ := seen_place h
  intro c hc
  exact d.closed.entries (by rw [hfile]; simp) c (List.mem_append_right _ hc)

/-- No file stands below another one. -/
theorem seen_apart (h : d.seen p q = some (.file bytes)) (h' : d.seen p q' = some (.file bytes'))
    (hpre : q <+: q') : q = q' := by
  obtain ⟨place, hway, hfile⟩ := seen_place h
  obtain ⟨place', hway', hfile'⟩ := seen_place h'
  rw [hway] at hway'
  cases hway'
  obtain ⟨rest, rfl⟩ := hpre
  by_cases hrest : rest = []
  · rw [hrest, List.append_nil]
  · rw [← List.append_assoc, d.below (by simp [hfile]) hrest] at hfile'
    cases hfile'

variable {sql : Sqlite} {reg reg' : AppRegistry} {id : String}

/-- What comes back has no backslash on its paths. -/
theorem plain_of_comes_back (hid : check_app_id id = .ok ())
    (hdata : ∀ bytes, d.seen (reg.data_place id) [] ≠ some (.file bytes))
    (hin : d'.seen (join reg'.root id) [] = some .dir) (h : ComesBack sql reg reg' id d d')
    (hfile : d.seen (reg.data_place id) q = some (.file bytes)) : Plain q := by
  obtain ⟨files, hrun, hdone, hsame⟩ := h
  obtain ⟨files', hrun', hmem⟩ := snapshot_reads sql reg hid hdata
  rw [hrun'] at hrun
  cases hrun
  have hlisted := (hsame q bytes).mpr hfile
  rw [(restore_puts sql reg' hid files hin rfl).2 hdone] at hlisted
  obtain ⟨f, hf, rfl, -⟩ := listed_bytes hlisted
  obtain ⟨q', _, -, rfl⟩ := (hmem f).mp hf
  exact plain_snapshot_name q'

/-- Files without backslashes on their paths fit, each at its own path. -/
theorem plain_fits {files : Files} (hdata : ∀ bytes, d.seen p [] ≠ some (.file bytes))
    (hmem : ∀ f, f ∈ files ↔ ∃ q bytes, d.seen p q = some (.file bytes) ∧
      f = (snapshot_name q, bytes))
    (hplain : ∀ q bytes, d.seen p q = some (.file bytes) → Plain q) :
    (∀ f ∈ files, check_rel_path f.1 = .ok ()) ∧ Fits files ∧
      ∀ f ∈ files, d.seen p (components f.1) = some (.file f.2) := by
  have hname : ∀ q bytes, d.seen p q = some (.file bytes) → ∀ c ∈ q, IsName c :=
    fun q bytes hfile c hc => (seen_entries hfile c hc).1
  have hback : ∀ f ∈ files, d.seen p (components f.1) = some (.file f.2) ∧
      f.1 = "/".intercalate (components f.1) := by
    intro f hf
    obtain ⟨q, bytes, hfile, rfl⟩ := (hmem f).mp hf
    rw [snapshot_name_plain (hplain q bytes hfile), components_joined (hname q bytes hfile)]
    exact ⟨hfile, rfl⟩
  refine ⟨?_, ⟨?_, ?_, ?_⟩, fun f hf => (hback f hf).1⟩
  · intro f hf
    obtain ⟨hfile, htext⟩ := hback f hf
    rw [htext]
    exact joined_checked (hname _ _ hfile)
  · intro f hf
    obtain ⟨hfile, htext⟩ := hback f hf
    rw [htext]
    apply names_file_joined _ (hname _ _ hfile)
    intro hempty
    rw [hempty] at hfile
    exact hdata _ hfile
  · intro f hf
    exact seen_entries (hback f hf).1
  · intro f hf g hg hpre
    exact seen_apart (hback f hf).1 (hback g hg).1 hpre

end Back

/-- Whatever the data and whatever stands on the other device: the files come back exactly where
no path holds a backslash, and no file has the place of the data or of its rescue. -/
theorem comes_back_iff (sql : Sqlite) (reg reg' : AppRegistry) (id : String) (d d' : Disk)
    (hid : check_app_id id = .ok ())
    (hdata : ∀ bytes, d.seen (reg.data_place id) [] ≠ some (.file bytes))
    (hin : d'.seen (join reg'.root id) [] = some .dir) :
    ComesBack sql reg reg' id d d' ↔
      (∀ q bytes, d.seen (reg.data_place id) q = some (.file bytes) → Plain q) ∧
        NotInPlace (d'.seen (reg'.data_place id) []) (d'.seen (reg'.rescue_place id) []) := by
  constructor
  · intro h
    refine ⟨fun q bytes hfile => plain_of_comes_back hid hdata hin h hfile, ?_⟩
    obtain ⟨files, -, hdone, -⟩ := h
    exact ((restore_puts sql reg' hid files hin rfl).1.mp hdone).2.2
  · rintro ⟨hplain, hfree⟩
    obtain ⟨files, hrun, hmem⟩ := snapshot_reads sql reg hid hdata
    obtain ⟨hchecked, hfits, hback⟩ := plain_fits hdata hmem hplain
    obtain ⟨hok, hafter⟩ := restore_puts sql reg' hid files hin rfl
    have hdone := hok.mpr ⟨hchecked, hfits, hfree⟩
    refine ⟨files, by rw [hrun], hdone, ?_⟩
    intro q bytes
    rw [hafter hdone]
    constructor
    · intro hlisted
      obtain ⟨f, hf, rfl, rfl⟩ := listed_bytes hlisted
      exact hback f hf
    · intro hfile
      have hin := (hmem _).mpr ⟨q, bytes, hfile, rfl⟩
      obtain ⟨bytes', hlisted⟩ := listed_at hin
      have hname : components (snapshot_name q) = q := by
        rw [snapshot_name_plain (hplain q bytes hfile)]
        exact components_joined fun c hc => (seen_entries hfile c hc).1
      rw [hname] at hlisted
      obtain ⟨f, hf, hq, rfl⟩ := listed_bytes hlisted
      have hthere := hback f hf
      rw [hq, hfile] at hthere
      rw [hlisted, ← hthere]

/-! ## One file -/

theorem notes_path : ∀ c ∈ ["home", "apps", "notes", "data"], IsEntry c := by decide

theorem notes_made : (empty_disk.mkdirs ["home", "apps", "notes", "data"] 4 notes_path).at_
    ["home", "apps", "notes", "data"] = some .dir := by decide

theorem notes_bare (name : String) :
    (empty_disk.mkdirs ["home", "apps", "notes", "data"] 4 notes_path).at_
      (["home", "apps", "notes", "data"] ++ [name]) ≠ some .dir := by
  have hlong : ¬ (["home", "apps", "notes", "data"] ++ [name]).length ≤ 4 := by simp
  unfold Disk.mkdirs empty_disk
  dsimp only
  rw [if_neg (fun h => hlong h.2), if_neg (by simp)]
  simp

/-- An installed app with one file in its data. -/
def one_file (name : String) (hname : IsEntry name) : Disk :=
  (empty_disk.mkdirs ["home", "apps", "notes", "data"] 4 notes_path).put
    ["home", "apps", "notes", "data"] name (.file [1]) hname notes_made (notes_bare name)

theorem one_file_at {name : String} {hname : IsEntry name} {p : Path} {bytes : Bytes}
    (h : (one_file name hname).at_ p = some (.file bytes)) :
    p = ["home", "apps", "notes", "data", name] := by
  unfold one_file Disk.put Disk.mkdirs empty_disk at h
  dsimp only at h
  split at h
  · assumption
  · split at h
    · cases h
    · split at h
      · cases h
      · cases h

section OneFile
variable (name : String) (hname : IsEntry name)

theorem one_file_way : (one_file name hname).way (homeRegistry.data_place "notes") =
    some ["home", "apps", "notes", "data"] := by
  have hplace : homeRegistry.data_place "notes" = ["home", "apps", "notes", "data"] := by decide
  rw [hplace]
  exact way_down _ (by unfold Down; decide)

theorem one_file_data :
    (one_file name hname).seen (homeRegistry.data_place "notes") [] = some .dir := by
  rw [seen_of_way (one_file_way name hname), under_self]
  unfold one_file Disk.put
  dsimp only
  rw [if_neg (by simp), notes_made]

theorem one_file_there :
    (one_file name hname).seen (homeRegistry.data_place "notes") [name] = some (.file [1]) := by
  rw [seen_of_way (one_file_way name hname)]
  exact if_pos rfl

theorem one_file_alone {q : Path} {bytes : Bytes}
    (h : (one_file name hname).seen (homeRegistry.data_place "notes") q = some (.file bytes)) :
    q = [name] := by
  rw [seen_of_way (one_file_way name hname)] at h
  simpa using one_file_at h

theorem one_file_tree (bytes : Bytes) :
    (one_file name hname).seen (homeRegistry.data_place "notes") [] ≠ some (.file bytes) := by
  rw [one_file_data]
  simp

theorem one_file_installed :
    (one_file name hname).seen (join homeRegistry.root "notes") [] = some .dir := by
  have hplace : join homeRegistry.root "notes" = ["home", "apps", "notes"] := by decide
  have hway : (one_file name hname).way ["home", "apps", "notes"] = some ["home", "apps", "notes"] :=
    way_down _ (by unfold Down; decide)
  rw [hplace, seen_of_way hway, under_self]
  have hdata := one_file_data name hname
  rw [seen_of_way (one_file_way name hname), under_self] at hdata
  exact (one_file name hname).closed.parent ["home", "apps", "notes"] "data"
    (by rw [List.cons_append, List.cons_append, List.cons_append, List.nil_append, hdata]; simp)

end OneFile

theorem a_entry : IsEntry "a" := by decide

theorem backslash_entry : IsEntry "a\\b" := by decide

/-- On a disk with one file of a plain name. -/
theorem a_comes_back : ComesBack plain_sqlite homeRegistry homeRegistry "notes"
    (one_file "a" a_entry) (one_file "a" a_entry) := by
  refine (comes_back_iff plain_sqlite homeRegistry homeRegistry "notes" _ _ (by decide)
    (one_file_tree "a" a_entry) (one_file_installed "a" a_entry)).mpr ⟨?_, ?_, ?_⟩
  · intro q bytes hfile
    rw [one_file_alone "a" a_entry hfile]
    unfold Plain
    decide
  · exact one_file_tree "a" a_entry
  · intro _ bytes
    have hrescue : (one_file "a" a_entry).seen (homeRegistry.rescue_place "notes") [] = none := by
      decide +kernel
    rw [hrescue]
    simp

/-- A file whose name holds a backslash comes back in a directory. -/
theorem a_backslash_does_not_come_back :
    ¬ ∀ (sql : Sqlite) (reg reg' : AppRegistry) (id : String) (d d' : Disk),
      check_app_id id = .ok () →
      (∀ bytes, d.seen (reg.data_place id) [] ≠ some (.file bytes)) →
      d'.seen (join reg'.root id) [] = some .dir → ComesBack sql reg reg' id d d' := by
  intro h
  have hback := h plain_sqlite homeRegistry homeRegistry "notes" (one_file "a\\b" backslash_entry)
    (one_file "a\\b" backslash_entry) (by decide) (one_file_tree _ _) (one_file_installed _ _)
  have hplain := plain_of_comes_back (by decide) (one_file_tree _ _) (one_file_installed _ _) hback
    (one_file_there "a\\b" backslash_entry)
  unfold Plain at hplain
  exact absurd hplain (by decide)

end pai_apps
