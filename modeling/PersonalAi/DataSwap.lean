-- The swap of an app's data (`restore_data`): the listed files take the place of `data/`, or
-- nothing changes, whatever single operation fails, but for a stale rescue directory and for the
-- steps behind the writing.
import PersonalAi.FaultyFiles
import PersonalAi.RegistryConfinement

open text paths program disk

namespace pai_apps

/-- The files of a backup, by their paths as texts. -/
abbrev Files := List (String × Bytes)

/-! ## What the listed files make -/

/-- Each path names a file, and none lies in the way of another one. -/
structure Fits (files : Files) : Prop where
  named : ∀ f ∈ files, names_file f.1 = true
  entries : ∀ f ∈ files, ∀ c ∈ components f.1, IsEntry c
  apart : ∀ f ∈ files, ∀ g ∈ files, components f.1 <+: components g.1 →
    components f.1 = components g.1

theorem fits_iff (files : Files) : Fits files ↔
    (∀ f ∈ files, names_file f.1 = true ∧ ∀ c ∈ components f.1, IsEntry c) ∧
    ∀ f ∈ files, ∀ g ∈ files, components f.1 <+: components g.1 →
      components f.1 = components g.1 :=
  ⟨fun h => ⟨fun f hf => ⟨h.named f hf, h.entries f hf⟩, h.apart⟩,
    fun h => ⟨fun f hf => (h.1 f hf).1, fun f hf => (h.1 f hf).2, h.2⟩⟩

instance (files : Files) : Decidable (Fits files) := decidable_of_iff' _ (fits_iff files)

/-- The listed files and the directories on the way to them; of two files at one path the later
one. -/
def listed (files : Files) : Contents := fun q =>
  match files.reverse.find? (fun f => components f.1 == q) with
  | some f => some (.file f.2)
  | none => if q = [] ∨ ∃ f ∈ files, q <+: components f.1 then some .dir else none

/-- The writing of one file succeeds. -/
def Lands (c : Contents) (rel : String) : Prop :=
  names_file rel = true ∧ (∀ x ∈ components rel, IsEntry x) ∧ ¬ InWay c (components rel).dropLast ∧
    c (components rel) ≠ some .dir

instance (c : Contents) (rel : String) : Decidable (Lands c rel) := by
  unfold Lands
  infer_instance

/-- One file and the way to it. -/
def lay_file (c : Contents) (f : String × Bytes) : Contents :=
  lay_bytes (lay_dirs c (components f.1).dropLast) (components f.1) f.2

/-- All the files land, one after the other. -/
def AllLand (c : Contents) : Files → Prop
  | [] => True
  | f :: rest => Lands c f.1 ∧ AllLand (lay_file c f) rest

/-- The directories on the way can be made. -/
def Opens (c : Contents) (q : Path) : Prop := (∀ x ∈ q, IsEntry x) ∧ ¬ InWay c q

instance (c : Contents) (q : Path) : Decidable (Opens c q) := by
  unfold Opens
  infer_instance

/-- What stands where a file does not land: the way to it, if that can be made. -/
def opened (c : Contents) (q : Path) : Contents := if Opens c q then lay_dirs c q else c

/-- What stands when the writing is at its end, or where it stops. -/
def laid (c : Contents) : Files → Contents
  | [] => c
  | f :: rest =>
    if Lands c f.1 then laid (lay_file c f) rest else opened c (components f.1).dropLast

theorem components_ne_nil {rel : String} (h : names_file rel = true) : components rel ≠ [] := by
  unfold names_file at h
  split at h
  · rename_i last hlast
    simp only [Bool.and_eq_true, decide_eq_true_eq] at h
    have hmem : last ∈ rel.toList.splitOn '/' := List.mem_of_getLast? hlast
    have hcomponent : String.ofList last ∈ components rel := by
      unfold components
      rw [List.mem_filter]
      refine ⟨List.mem_map_of_mem hmem, ?_⟩
      have hempty : String.ofList last ≠ "" := by
        intro heq
        apply h.1
        simpa using congrArg String.toList heq
      have hdot : String.ofList last ≠ "." := by
        intro heq
        apply h.2
        simpa using congrArg String.toList heq
      simp [hempty, hdot]
    exact List.ne_nil_of_mem hcomponent
  · cases h

theorem listed_nil : listed [] = fun q => if q = [] then some .dir else none := by
  funext q
  simp [listed]

theorem listed_file {files : Files} {q : Path} {bytes : Bytes}
    (h : listed files q = some (.file bytes)) : ∃ f ∈ files, components f.1 = q := by
  unfold listed at h
  split at h
  · rename_i f hf
    refine ⟨f, List.mem_reverse.mp (List.mem_of_find?_eq_some hf), ?_⟩
    simpa using List.find?_some hf
  · split at h
    · cases h
    · cases h

theorem listed_dir_of {files : Files} {q : Path} (h : listed files q = some .dir) :
    q = [] ∨ ∃ f ∈ files, q <+: components f.1 ∧ q ≠ components f.1 := by
  unfold listed at h
  split at h
  · cases h
  · rename_i hnone
    split at h
    · rename_i hq
      rcases hq with hq | ⟨f, hf, hpre⟩
      · exact .inl hq
      · refine .inr ⟨f, hf, hpre, ?_⟩
        rintro rfl
        have hno := List.find?_eq_none.mp hnone f (List.mem_reverse.mpr hf)
        simp at hno
    · cases h

theorem listed_at {files : Files} {f : String × Bytes} (hf : f ∈ files) :
    ∃ bytes, listed files (components f.1) = some (.file bytes) := by
  unfold listed
  split
  · exact ⟨_, rfl⟩
  · rename_i hnone
    have hno := List.find?_eq_none.mp hnone f (List.mem_reverse.mpr hf)
    simp at hno

/-- One more file lands among the listed ones exactly where they all still fit. -/
theorem lands_iff {files : Files} (h : Fits files) (f : String × Bytes) :
    Lands (listed files) f.1 ↔ Fits (files ++ [f]) := by
  constructor
  · rintro ⟨hname, hentries, hway, hfree⟩
    refine ⟨?_, ?_, ?_⟩
    · intro g hg
      rcases List.mem_append.mp hg with hg | hg
      · exact h.named g hg
      · rw [List.mem_singleton.mp hg]
        exact hname
    · intro g hg
      rcases List.mem_append.mp hg with hg | hg
      · exact h.entries g hg
      · rw [List.mem_singleton.mp hg]
        exact hentries
    · intro a ha b hb hpre
      rcases List.mem_append.mp ha with ha | ha
      · rcases List.mem_append.mp hb with hb | hb
        · exact h.apart a ha b hb hpre
        · -- An earlier file on the way to the new one.
          rw [List.mem_singleton.mp hb] at hpre ⊢
          by_contra hne
          obtain ⟨bytes, hbytes⟩ := listed_at ha
          apply hway
          refine ⟨_, bytes, ?_, hbytes⟩
          have hcases : components a.1 <+: (components f.1).dropLast ++
                [(components f.1).getLast (components_ne_nil hname)] ↔ _ :=
            List.prefix_concat_iff
          rw [List.dropLast_append_getLast] at hcases
          rcases hcases.mp hpre with heq | hpre
          · exact (hne heq).elim
          · exact hpre
      · rw [List.mem_singleton.mp ha] at hpre ⊢
        rcases List.mem_append.mp hb with hb | hb
        · -- The new file would stand where the way to an earlier one goes.
          by_contra hne
          apply hfree
          unfold listed
          split
          · rename_i g hg
            have hgf : components g.1 = components f.1 := by simpa using List.find?_some hg
            have hg := List.mem_reverse.mp (List.mem_of_find?_eq_some hg)
            rw [← hgf] at hpre hne
            exact (hne (h.apart g hg b hb hpre)).elim
          · rw [if_pos (.inr ⟨b, hb, hpre⟩)]
        · rw [List.mem_singleton.mp hb]
  · intro hfits
    have hf : f ∈ files ++ [f] := List.mem_append_right _ List.mem_cons_self
    have hname := hfits.named f hf
    refine ⟨hname, hfits.entries f hf, ?_, ?_⟩
    · rintro ⟨r, bytes, hpre, hfile⟩
      obtain ⟨g, hg, rfl⟩ := listed_file hfile
      have heq := hfits.apart g (List.mem_append_left _ hg) f hf
        (hpre.trans (List.dropLast_prefix _))
      have hlength := hpre.length_le
      rw [heq, List.length_dropLast] at hlength
      have hpos := List.length_pos_of_ne_nil (components_ne_nil hname)
      omega
    · intro hdir
      rcases listed_dir_of hdir with hempty | ⟨g, hg, hpre, hne⟩
      · exact components_ne_nil hname hempty
      · exact hne (hfits.apart f hf g (List.mem_append_left _ hg) hpre)

/-- Where it lands, the file and the way to it are what is new. -/
theorem lay_listed {files : Files} {f : String × Bytes} (h : Fits (files ++ [f])) :
    lay_file (listed files) f = listed (files ++ [f]) := by
  have hf : f ∈ files ++ [f] := List.mem_append_right _ List.mem_cons_self
  have hne := components_ne_nil (h.named f hf)
  funext q
  unfold lay_file lay_bytes lay_dirs listed
  rw [List.reverse_append, List.reverse_singleton, List.singleton_append, List.find?_cons]
  by_cases hq : q = components f.1
  · simp [hq]
  · rw [if_neg hq]
    have hbeq : (components f.1 == q) = false := by
      rw [beq_eq_false_iff_ne]
      exact Ne.symm hq
    rw [hbeq]
    dsimp only
    have hway : q <+: components f.1 ↔ q <+: (components f.1).dropLast := by
      have hcases : q <+: (components f.1).dropLast ++ [(components f.1).getLast hne] ↔ _ :=
        List.prefix_concat_iff
      rw [List.dropLast_append_getLast] at hcases
      rw [hcases]
      exact ⟨fun h => h.resolve_left hq, .inr⟩
    by_cases hpre : q <+: (components f.1).dropLast
    · rw [if_pos hpre]
      split
      · rename_i g hg
        -- An earlier file cannot stand on the way.
        have hgq : components g.1 = q := by simpa using List.find?_some hg
        have hg := List.mem_reverse.mp (List.mem_of_find?_eq_some hg)
        have heq := h.apart g (List.mem_append_left _ hg) f hf (by rw [hgq]; exact hway.mpr hpre)
        exact (hq (hgq.symm.trans heq)).elim
      · rw [if_pos]
        exact .inr ⟨f, hf, hway.mpr hpre⟩
    · rw [if_neg hpre]
      split
      · rename_i g hg
        rw [hg]
      · rename_i hnone
        rw [hnone]
        apply if_congr _ rfl rfl
        apply or_congr Iff.rfl
        constructor
        · rintro ⟨g, hg, hgq⟩
          exact ⟨g, List.mem_append_left _ hg, hgq⟩
        · rintro ⟨g, hg, hgq⟩
          rcases List.mem_append.mp hg with hg | hg
          · exact ⟨g, hg, hgq⟩
          · rw [List.mem_singleton.mp hg] at hgq
            exact (hpre (hway.mp hgq)).elim

theorem Fits.left {files more : Files} (h : Fits (files ++ more)) : Fits files where
  named f hf := h.named f (List.mem_append_left _ hf)
  entries f hf := h.entries f (List.mem_append_left _ hf)
  apart f hf g hg := h.apart f (List.mem_append_left _ hf) g (List.mem_append_left _ hg)

theorem laid_listed {before files : Files} (h : Fits before) :
    (AllLand (listed before) files ↔ Fits (before ++ files)) ∧
      (Fits (before ++ files) → laid (listed before) files = listed (before ++ files)) := by
  induction files generalizing before with
  | nil => simpa [AllLand, laid] using h
  | cons f rest ih =>
    have hsplit : before ++ f :: rest = (before ++ [f]) ++ rest := by simp
    rw [hsplit]
    unfold AllLand laid
    by_cases hlands : Lands (listed before) f.1
    · have hfits := (lands_iff h f).mp hlands
      obtain ⟨hall, hlaid⟩ := ih hfits
      rw [if_pos hlands, lay_listed hfits]
      exact ⟨⟨fun hrest => hall.mp hrest.2, fun hrest => ⟨hlands, hall.mpr hrest⟩⟩, hlaid⟩
    · have hno : ¬ Fits (before ++ [f] ++ rest) := fun hfits =>
        hlands ((lands_iff h f).mpr hfits.left)
      exact ⟨⟨fun hrest => (hlands hrest.1).elim, fun hfits => (hno hfits).elim⟩,
        fun hfits => (hno hfits).elim⟩

theorem fits_nil : Fits [] where
  named := by simp
  entries := by simp
  apart := by simp

/-- In an empty directory the files all land exactly where they fit, and then they are what is
listed. -/
theorem all_land_iff (files : Files) : AllLand (listed []) files ↔ Fits files :=
  (laid_listed fits_nil).1

theorem laid_of_fits {files : Files} (h : Fits files) : laid (listed []) files = listed files :=
  (laid_listed fits_nil).2 h

/-! ## The writing -/

/-- Where the live data and the rescue directory are: each under its name in a directory. The
path of the live data goes through the directory of the rescue. -/
structure Spots (live rescue l : Path) (n : String) (r : Path) (m : String) (d : Disk) : Prop where
  live_way : ∀ d' : Disk, d'.at_ r = some .dir → d'.way live = some (l ++ [n])
  up_way : ∀ d' : Disk, d'.at_ r = some .dir → d'.way (parent live) = some l
  rescue_way : ∀ d' : Disk, d'.way rescue = some (r ++ [m])
  live_entry : IsEntry n
  rescue_entry : IsEntry m
  live_in : d.at_ l = some .dir
  rescue_in : d.at_ r = some .dir
  apart : Apart (l ++ [n]) (r ++ [m])

/-- The calls that write one file. -/
def file_calls (live : Path) (f : String × Bytes) : List FsOp :=
  [.create_dir_all (parent (join live f.1)), .write (join live f.1) f.2]

def write_calls (live : Path) (files : Files) : List FsOp :=
  .create_dir_all live :: files.flatMap (file_calls live)

/-- A call that makes a directory or writes a file. -/
def Writing : FsOp → Prop
  | .create_dir_all _ => True
  | .write _ _ => True
  | _ => False

section Writes
variable {sql : Sqlite} {live rescue l r : Path} {n m : String} {d : Disk}

theorem Spots.of_beside (h : Spots live rescue l n r m d) {d' : Disk}
    (hd : Beside (l ++ [n]) d d') : Spots live rescue l n r m d' := by
  refine { h with live_in := ?_, rescue_in := ?_ }
  · rw [hd l (not_prefix_self l n), h.live_in]
  · rw [hd r, h.rescue_in]
    intro hpre
    exact h.apart.1 (hpre.trans (List.prefix_append _ _))

/-- What a run of writing calls comes to: they all succeed, one stops of itself, or the fault is at
one of them. `ok` says whether they can all succeed, and `after` what then stands below the
place, or where they stop. -/
inductive Wrote (place : Path) (calls : List FsOp) (ok : Prop) (after : Contents) (w : World) :
    Except AppError Unit × World → Prop
  | done {d' : Disk} : ok → Beside place w.disk d' → d'.at_ place = some .dir →
      d'.under place = after → ¬ Meets w.fault w.done calls →
      Wrote place calls ok after w (.ok (), ⟨d', w.done ++ calls, w.fault⟩)
  | stopped {d' : Disk} {e : AppError} {cs : List FsOp} : ¬ ok → Beside place w.disk d' →
      d'.at_ place = some .dir → d'.under place = after → (∀ op ∈ cs, Writing op) →
      Wrote place calls ok after w (.error e, ⟨d', w.done ++ cs, w.fault⟩)
  | struck {d' : Disk} {e : AppError} {cs : List FsOp} : Meets w.fault w.done calls →
      Beside place w.disk d' → (d'.at_ place = some .dir ∨ d'.at_ place = w.disk.at_ place) →
      Wrote place calls ok after w (.error e, ⟨d', cs, none⟩)

section Rules
variable {place : Path} {calls more : List FsOp} {ok ok' : Prop} {after after' : Contents} {w : World}

/-- Writing calls and then others. -/
theorem wrote_bind {p : Fs World Unit} {f : Unit → Fs World Unit} {whole_ok : Prop}
    {final : Contents} (hp : Wrote place calls ok after w (p.outcome w))
    (hf : ok → ∀ d', Beside place w.disk d' → d'.at_ place = some .dir → d'.under place = after →
      Wrote place more ok' after' ⟨d', w.done ++ calls, w.fault⟩
        ((f ()).outcome ⟨d', w.done ++ calls, w.fault⟩))
    (hcalls : ∀ op ∈ calls, Writing op) (hok : whole_ok ↔ ok ∧ ok') (hfirst : ¬ ok → final = after)
    (hlast : ok → final = after') :
    Wrote place (calls ++ more) whole_ok final w ((p >>= f).outcome w) := by
  generalize hr : p.outcome w = r at hp
  cases hp with
  | done hyes hbeside hdir hunder hmeets =>
    rw [outcome_bind_ok hr]
    rename_i d'
    have hrest := hf hyes d' hbeside hdir hunder
    generalize (f ()).outcome ⟨d', w.done ++ calls, w.fault⟩ = r' at hrest
    cases hrest with
    | done hyes' hbeside' hdir' hunder' hmeets' =>
      rw [List.append_assoc]
      refine .done (hok.mpr ⟨hyes, hyes'⟩) (hbeside.trans hbeside') hdir' ?_ ?_
      · rw [hunder', hlast hyes]
      · rw [meets_append]
        exact fun h => h.elim hmeets hmeets'
    | stopped hno hbeside' hdir' hunder' hmore =>
      rw [List.append_assoc]
      refine .stopped (fun h => hno (hok.mp h).2) (hbeside.trans hbeside') hdir' ?_ ?_
      · rw [hunder', hlast hyes]
      · intro op hop
        exact (List.mem_append.mp hop).elim (hcalls op) (hmore op)
    | struck hmeets' hbeside' hdir' =>
      refine .struck ?_ (hbeside.trans hbeside') ?_
      · rw [meets_append]
        exact .inr hmeets'
      · rw [hdir] at hdir'
        exact .inl (hdir'.elim id id)
  | stopped hno hbeside hdir hunder hmade =>
    rw [outcome_bind_error hr]
    refine .stopped (fun h => hno (hok.mp h).1) hbeside hdir ?_ hmade
    rw [hunder, hfirst hno]
  | struck hmeets hbeside hdir =>
    rw [outcome_bind_error hr]
    refine .struck ?_ hbeside hdir
    rw [meets_append]
    exact .inl hmeets

/-- What a failed call leaves that makes directories. -/
theorem half_created {p q : Path} (hway : d.way p = some (place ++ q))
    (hdir : d.at_ place = some .dir) (damage : Damage) :
    Beside place d (broken sql d damage (.create_dir_all p)) ∧
      (broken sql d damage (.create_dir_all p)).at_ place = some .dir := by
  rcases broken_create hway damage with hsame | hmade
  · rw [hsame]
    exact ⟨Beside.refl _ _, hdir⟩
  · rcases make_dirs_below hdir q damage.made with ⟨d', hok, -, -, hbeside, hself, -⟩ | ⟨e, herror, -⟩
    · rw [hok] at hmade
      cases hmade
      exact ⟨hbeside, hself⟩
    · rw [herror] at hmade
      cases hmade

/-- Making directories below the place. -/
theorem create_wrote {p q : Path} (hway : w.disk.way p = some (place ++ q))
    (hdir : w.disk.at_ place = some .dir) :
    Wrote place [.create_dir_all p] (Opens (w.disk.under place) q) (opened (w.disk.under place) q) w
      ((run (faulty sql) (.create_dir_all p)).outcome w) := by
  rcases hstruck : w.struck (.create_dir_all p) with _ | damage
  · have hmeets : ¬ Meets w.fault w.done [.create_dir_all p] := by
      rw [meets_one, hstruck]
      simp
    rcases make_dirs_below hdir q (place ++ q).length with
      ⟨d', hok, hnames, hclear, hbeside, hself, hunder⟩ | ⟨e, herror, hno⟩
    · have heffect : effect sql w.disk (.create_dir_all p) = (.ok (), d') := by
        rw [effect_create hway, create_dir_all, hok]
        rfl
      rw [run_ok hstruck heffect]
      refine .done ⟨hnames, hclear⟩ hbeside hself ?_ hmeets
      rw [hunder (le_refl _), opened, if_pos ⟨hnames, hclear⟩]
    · have heffect : effect sql w.disk (.create_dir_all p) = (.error e, w.disk) := by
        rw [effect_create hway, create_dir_all, herror]
        rfl
      have hno : ¬ Opens (w.disk.under place) q := hno
      rw [run_error hstruck heffect]
      refine .stopped hno (Beside.refl _ _) hdir ?_ (by simp [Writing])
      rw [opened, if_neg hno]
  · rw [run_struck hstruck]
    obtain ⟨hbeside, hself⟩ := half_created hway hdir damage
    exact .struck (meets_one.mpr (by simp [hstruck])) hbeside (.inl hself)

/-- What a failed writing leaves. -/
theorem half_written {p q : Path} {name : String} (hway : d.way p = some (place ++ (q ++ [name])))
    (hdir : d.at_ place = some .dir) (damage : Damage) (bytes : Bytes) :
    Beside place d (broken sql d damage (.write p bytes)) ∧
      (broken sql d damage (.write p bytes)).at_ place = some .dir := by
  rcases broken_write hway damage bytes with hsame | ⟨left, hwritten⟩
  · rw [hsame]
    exact ⟨Beside.refl _ _, hdir⟩
  · rcases write_below_dir hdir q name left with ⟨d', hok, -, -, -, hbeside, hself, -⟩ | ⟨e, herror, -⟩
    · rw [hok] at hwritten
      cases hwritten
      exact ⟨hbeside, hself⟩
    · rw [herror] at hwritten
      cases hwritten

/-- Writing a file below the place, in a directory that stands. -/
theorem write_wrote {p q : Path} {name : String} {bytes : Bytes}
    (hway : w.disk.way p = some (place ++ (q ++ [name]))) (hdir : w.disk.at_ place = some .dir)
    (hin : w.disk.under place q = some .dir) :
    Wrote place [.write p bytes]
      (IsEntry name ∧ w.disk.under place (q ++ [name]) ≠ some .dir)
      (if IsEntry name ∧ w.disk.under place (q ++ [name]) ≠ some .dir then
        lay_bytes (w.disk.under place) (q ++ [name]) bytes else w.disk.under place) w
      ((run (faulty sql) (.write p bytes)).outcome w) := by
  rcases hstruck : w.struck (.write p bytes) with _ | damage
  · have hmeets : ¬ Meets w.fault w.done [.write p bytes] := by
      rw [meets_one, hstruck]
      simp
    rcases write_below_dir hdir q name bytes with
      ⟨d', hok, hname, -, hfree, hbeside, hself, hunder⟩ | ⟨e, herror, hno⟩
    · have heffect : effect sql w.disk (.write p bytes) = (.ok (), d') := by
        rw [effect_write hway, hok]
        rfl
      rw [run_ok hstruck heffect]
      refine .done ⟨hname, hfree⟩ hbeside hself ?_ hmeets
      rw [hunder, if_pos ⟨hname, hfree⟩]
    · have heffect : effect sql w.disk (.write p bytes) = (.error e, w.disk) := by
        rw [effect_write hway, herror]
        rfl
      have hno : ¬ (IsEntry name ∧ w.disk.under place (q ++ [name]) ≠ some .dir) :=
        fun h => h.2 (hno h.1 hin)
      rw [run_error hstruck heffect]
      refine .stopped hno (Beside.refl _ _) hdir ?_ (by simp [Writing])
      rw [if_neg hno]
  · rw [run_struck hstruck]
    obtain ⟨hbeside, hself⟩ := half_written hway hdir damage bytes
    exact .struck (meets_one.mpr (by simp [hstruck])) hbeside (.inl hself)

/-- A call for a directory that stands changes nothing. -/
theorem create_again {p q : Path} (hway : w.disk.way p = some q) (hq : w.disk.at_ q = some .dir)
    (hdir : w.disk.at_ place = some .dir) :
    Wrote place [.create_dir_all p] True (w.disk.under place) w
      ((run (faulty sql) (.create_dir_all p)).outcome w) := by
  have hmake : ∀ k d', make_dirs w.disk q k = .ok d' → ∀ x, d'.at_ x = w.disk.at_ x := by
    intro k d' hok x
    rcases make_dirs_cases w.disk q k with ⟨d'', hok', -, -, hat⟩ | ⟨e, herror, -⟩
    · rw [hok] at hok'
      cases hok'
      rw [hat]
      split
      · rename_i hpre
        rw [w.disk.closed.dirs hq hpre.1]
      · rfl
    · rw [hok] at herror
      cases herror
  rcases hstruck : w.struck (.create_dir_all p) with _ | damage
  · have hmeets : ¬ Meets w.fault w.done [.create_dir_all p] := by
      rw [meets_one, hstruck]
      simp
    rcases hcall : create_dir_all w.disk q with e | d'
    · -- No file stands on the way to a directory.
      rcases create_dir_all_cases w.disk q with ⟨d', hok, -⟩ | ⟨e', herror, hno⟩
      · rw [hcall] at hok
        cases hok
      · obtain ⟨x, bytes, hpre, hfile⟩ :=
          blocked_iff.mp (hno (w.disk.closed.entries (by simp [hq])))
        rw [w.disk.closed.dirs hq hpre] at hfile
        cases hfile
    · have heffect : effect sql w.disk (.create_dir_all p) = (.ok (), d') := by
        rw [effect_create hway, hcall]
        rfl
      have hat := hmake _ d' hcall
      rw [run_ok hstruck heffect]
      refine .done trivial (fun x _ => hat x) ?_ ?_ hmeets
      · rw [hat, hdir]
      · funext x
        exact hat _
  · rw [run_struck hstruck]
    have hat : ∀ x, (broken sql w.disk damage (.create_dir_all p)).at_ x = w.disk.at_ x := by
      rcases @broken_create sql _ _ _ hway damage with hsame | hmade
      · rw [hsame]
        exact fun x => rfl
      · exact hmake _ _ hmade
    refine .struck (meets_one.mpr (by simp [hstruck])) (fun x _ => hat x) ?_
    rw [hat]
    exact .inr rfl

theorem opened_nil {c : Contents} (h : c [] = some .dir) : opened c [] = c := by
  unfold opened
  split
  · funext q
    unfold lay_dirs
    split
    · rename_i hq
      rw [List.prefix_nil.mp hq, h]
    · rfl
  · rfl

/-- Writing one file, with the way to it. -/
theorem wrote_file (h : Spots live rescue l n r m w.disk) {f : String × Bytes}
    (hchecked : check_rel_path f.1 = .ok ()) (hdir : w.disk.at_ (l ++ [n]) = some .dir) :
    Wrote (l ++ [n]) (file_calls live f) (Lands (w.disk.under (l ++ [n])) f.1)
      (if Lands (w.disk.under (l ++ [n])) f.1 then lay_file (w.disk.under (l ++ [n])) f
        else opened (w.disk.under (l ++ [n])) (components f.1).dropLast) w
      ((do
        run (faulty sql) (.create_dir_all (parent (join live f.1)))
        write_below (faulty sql) live f.1 f.2 : Fs World Unit).outcome w) := by
  obtain ⟨hdown, hjoin⟩ := checked_rel_path hchecked live
  have hself : w.disk.under (l ++ [n]) [] = some .dir := by
    unfold Disk.under
    rw [List.append_nil, hdir]
  unfold file_calls
  rw [hjoin]
  rcases List.eq_nil_or_concat (components f.1) with hempty | ⟨q, x, hq⟩
  · -- The path is that of the directory itself.
    have hname : names_file f.1 = false := by
      by_contra hname
      exact components_ne_nil (by simpa using hname) hempty
    have hno : ¬ Lands (w.disk.under (l ++ [n])) f.1 := by
      intro hlands
      rw [hlands.1] at hname
      cases hname
    rw [if_neg hno, hempty, List.append_nil, List.dropLast_nil, opened_nil hself]
    have hup := h.up_way w.disk h.rescue_in
    refine @wrote_bind _ [_] [_] _ False _ (w.disk.under (l ++ [n])) _ _ _ _ _
      (create_again hup h.live_in hdir) ?_ ?_ ?_ ?_ ?_
    · intro _ d' hbeside hdir' hunder
      have hrun : (write_below (faulty sql) live f.1 f.2).outcome
          ⟨d', w.done ++ [.create_dir_all (parent live)], w.fault⟩ =
          (.error (.Io "Is a directory (os error 21)"),
            ⟨d', w.done ++ [.create_dir_all (parent live)] ++ [], w.fault⟩) := by
        unfold write_below
        rw [outcome_bind_error (by simp [hname] : _ =
          (Except.error (AppError.Io "Is a directory (os error 21)"),
            World.mk d' (w.done ++ [.create_dir_all (parent live)]) w.fault))]
        simp
      rw [hrun]
      exact .stopped not_false (Beside.refl _ _) hdir' hunder (by simp)
    · simp [Writing]
    · simp [hno]
    · simp
    · simp
  · rw [List.concat_eq_append] at hq
    have hway : w.disk.way (live ++ q) = some (l ++ [n] ++ q) :=
      way_below (h.live_way w.disk h.rescue_in) (by rw [hq] at hdown; exact fun hm => hdown (by simp [hm]))
    have hparent : parent (live ++ (q ++ [x])) = live ++ q := by simp [parent]
    have hlay : lay_dirs (w.disk.under (l ++ [n])) q (q ++ [x]) =
        w.disk.under (l ++ [n]) (q ++ [x]) := if_neg (not_prefix_self q x)
    have hlands : Lands (w.disk.under (l ++ [n])) f.1 ↔
        Opens (w.disk.under (l ++ [n])) q ∧ names_file f.1 = true ∧ IsEntry x ∧
          w.disk.under (l ++ [n]) (q ++ [x]) ≠ some .dir := by
      unfold Lands Opens
      rw [hq, List.dropLast_concat]
      simp only [List.mem_append, List.mem_singleton]
      constructor
      · rintro ⟨hname, hentries, hway, hfree⟩
        exact ⟨⟨fun y hy => hentries y (.inl hy), hway⟩, hname, hentries x (.inr rfl), hfree⟩
      · rintro ⟨⟨hentries, hway⟩, hname, hentry, hfree⟩
        refine ⟨hname, ?_, hway, hfree⟩
        rintro y (hy | rfl)
        · exact hentries y hy
        · exact hentry
    have hcreate := @create_wrote sql _ _ _ _ hway hdir
    rw [hq, hparent, List.dropLast_concat]
    refine @wrote_bind _ [_] [_] _
      (names_file f.1 = true ∧ IsEntry x ∧ w.disk.under (l ++ [n]) (q ++ [x]) ≠ some .dir) _
      (if names_file f.1 = true ∧ IsEntry x ∧ w.disk.under (l ++ [n]) (q ++ [x]) ≠ some .dir then
        lay_file (w.disk.under (l ++ [n])) f else lay_dirs (w.disk.under (l ++ [n])) q) _ _ _ _ _
      hcreate ?_ (by simp [Writing]) hlands ?_ ?_
    · intro hopens d' hbeside hdir' hunder
      have hspots := h.of_beside hbeside
      have hlaid : d'.under (l ++ [n]) = lay_dirs (w.disk.under (l ++ [n])) q := by
        rw [hunder, opened, if_pos hopens]
      have hin : d'.under (l ++ [n]) q = some .dir := by
        rw [hlaid]
        exact if_pos (List.prefix_refl q)
      have hto : d'.way (join live f.1) = some (l ++ [n] ++ (q ++ [x])) := by
        rw [hjoin, hq]
        exact way_below (hspots.live_way d' hspots.rescue_in) (hq ▸ hdown)
      unfold write_below
      by_cases hname : names_file f.1 = true
      · rw [outcome_bind_ok (by simp [hname] : _ =
          (Except.ok (), World.mk d' (w.done ++ [.create_dir_all (live ++ q)]) w.fault))]
        have hwrite := @write_wrote sql (l ++ [n])
          ⟨d', w.done ++ [.create_dir_all (live ++ q)], w.fault⟩ _ q x f.2 hto hdir' hin
        dsimp only at hwrite
        rw [hlaid, hlay, hjoin, hq] at hwrite
        simpa only [hname, true_and, lay_file, hq, List.dropLast_concat, hjoin] using hwrite
      · rw [outcome_bind_error (by simp [hname] : _ =
          (Except.error (AppError.Io "Is a directory (os error 21)"),
            World.mk d' (w.done ++ [.create_dir_all (live ++ q)] ++ []) w.fault))]
        refine .stopped (fun hyes => hname hyes.1) (Beside.refl _ _) hdir' ?_ (by simp)
        rw [if_neg (fun hyes => hname hyes.1), hlaid]
    · intro hno
      rw [if_neg (fun hyes => hno (hlands.mp hyes).1)]
    · intro hopens
      by_cases hyes : names_file f.1 = true ∧ IsEntry x ∧
          w.disk.under (l ++ [n]) (q ++ [x]) ≠ some .dir
      · rw [if_pos hyes, if_pos (hlands.mpr ⟨hopens, hyes⟩)]
      · rw [if_neg hyes, if_neg (fun hl => hyes (hlands.mp hl).2), opened, if_pos hopens]

theorem wrote_rest (files : Files) (h : Spots live rescue l n r m w.disk)
    (hchecked : ∀ f ∈ files, check_rel_path f.1 = .ok ())
    (hdir : w.disk.at_ (l ++ [n]) = some .dir) :
    Wrote (l ++ [n]) (files.flatMap (file_calls live)) (AllLand (w.disk.under (l ++ [n])) files)
      (laid (w.disk.under (l ++ [n])) files) w
      ((forEach files fun f => do
        run (faulty sql) (.create_dir_all (parent (join live f.1)))
        write_below (faulty sql) live f.1 f.2 : Fs World Unit).outcome w) := by
  induction files generalizing w with
  | nil =>
    have hdone : (forEach ([] : Files) fun f => do
        run (faulty sql) (.create_dir_all (parent (join live f.1)))
        write_below (faulty sql) live f.1 f.2 : Fs World Unit).outcome w =
          (.ok (), ⟨w.disk, w.done ++ [], w.fault⟩) := by
      rw [List.append_nil]
      rfl
    rw [hdone]
    exact .done trivial (Beside.refl _ _) hdir rfl (meets_nil _ _)
  | cons f rest ih =>
    rw [List.flatMap_cons]
    refine @wrote_bind _ _ _ _ (AllLand (lay_file (w.disk.under (l ++ [n])) f) rest) _
      (laid (lay_file (w.disk.under (l ++ [n])) f) rest) _ _ _ _ _
      (wrote_file h (hchecked f List.mem_cons_self) hdir) ?_ ?_ Iff.rfl ?_ ?_
    · intro hlands d' hbeside hdir' hunder
      rw [if_pos hlands] at hunder
      have hrest := @ih ⟨d', w.done ++ file_calls live f, w.fault⟩ (h.of_beside hbeside)
        (fun g hg => hchecked g (List.mem_cons_of_mem _ hg)) hdir'
      dsimp only at hrest
      rwa [hunder] at hrest
    · simp [file_calls, Writing]
    · intro hno
      rw [laid, if_neg hno, if_neg hno]
    · intro hlands
      rw [laid, if_pos hlands]

/-- Directories on the way to a free place in a directory: only the place can be new. -/
theorem make_free {k : Nat} {d' : Disk} (hin : d.at_ l = some .dir)
    (hfree : d.at_ (l ++ [n]) = none) (hok : make_dirs d (l ++ [n]) k = .ok d') :
    Beside (l ++ [n]) d d' ∧ (d'.at_ (l ++ [n]) = some .dir ∨ d'.at_ (l ++ [n]) = none) ∧
      ((l ++ [n]).length ≤ k → d'.under (l ++ [n]) = listed []) := by
  rcases make_dirs_cases d (l ++ [n]) k with ⟨d'', hok', -, -, hat⟩ | ⟨e, herror, -⟩
  · rw [hok] at hok'
    cases hok'
    refine ⟨?_, ?_, ?_⟩
    · intro x hx
      rw [hat]
      split
      · rename_i hpre
        rcases List.prefix_concat_iff.mp hpre.1 with rfl | hpre
        · exact (hx (List.prefix_refl _)).elim
        · rw [d.closed.dirs hin hpre]
      · rfl
    · rw [hat]
      split
      · exact .inl rfl
      · exact .inr hfree
    · intro hk
      funext x
      rw [listed_nil]
      unfold Disk.under
      dsimp only
      rw [hat]
      by_cases hx : x = []
      · rw [hx, List.append_nil, if_pos ⟨List.prefix_refl _, hk⟩, if_pos rfl]
      · rw [if_neg hx, if_neg, d.below (by simp [hfree]) hx]
        rintro ⟨hpre, -⟩
        have hlength := hpre.length_le
        have hpos := List.length_pos_of_ne_nil hx
        simp only [List.length_append] at hlength
        omega
  · rw [hok] at herror
    cases herror

/-- Making the live directory itself, where nothing stands. -/
theorem create_live (h : Spots live rescue l n r m w.disk)
    (hfree : w.disk.at_ (l ++ [n]) = none) :
    Wrote (l ++ [n]) [.create_dir_all live] True (listed []) w
      ((run (faulty sql) (.create_dir_all live)).outcome w) := by
  have hway := h.live_way w.disk h.rescue_in
  have hentries : Opens (w.disk.under l) [n] := by
    constructor
    · simpa using h.live_entry
    · rintro ⟨x, bytes, hpre, hfile⟩
      rcases @List.prefix_concat_iff _ _ [] _ |>.mp hpre with rfl | hpre
      · have hnone : w.disk.under l ([] ++ [n]) = none := hfree
        rw [hnone] at hfile
        cases hfile
      · rw [List.prefix_nil.mp hpre] at hfile
        have hself : w.disk.under l [] = some .dir := by
          unfold Disk.under
          rw [List.append_nil, h.live_in]
        rw [hself] at hfile
        cases hfile
  rcases hstruck : w.struck (.create_dir_all live) with _ | damage
  · have hmeets : ¬ Meets w.fault w.done [.create_dir_all live] := by
      rw [meets_one, hstruck]
      simp
    rcases hcall : create_dir_all w.disk (l ++ [n]) with e | d'
    · rcases make_dirs_below h.live_in [n] (l ++ [n]).length with ⟨d', hok, -⟩ | ⟨e', -, hno⟩
      · rw [create_dir_all, hok] at hcall
        cases hcall
      · exact (hno hentries).elim
    · have heffect : effect sql w.disk (.create_dir_all live) = (.ok (), d') := by
        rw [effect_create hway, hcall]
        rfl
      obtain ⟨hbeside, -, hunder⟩ := make_free h.live_in hfree hcall
      have hlisted := hunder (le_refl _)
      rw [run_ok hstruck heffect]
      refine .done trivial hbeside ?_ hlisted hmeets
      have hself := congrFun hlisted []
      rw [listed_nil] at hself
      unfold Disk.under at hself
      dsimp only at hself
      rwa [List.append_nil, if_pos rfl] at hself
  · rw [run_struck hstruck]
    have hmeets : Meets w.fault w.done [.create_dir_all live] := meets_one.mpr (by simp [hstruck])
    rcases @broken_create sql _ _ _ hway damage with hsame | hmade
    · rw [hsame]
      exact .struck hmeets (Beside.refl _ _) (.inr rfl)
    · obtain ⟨hbeside, hself, -⟩ := make_free h.live_in hfree hmade
      rw [← hfree] at hself
      exact .struck hmeets hbeside hself

/-- The writing of all the files, where nothing stands. -/
theorem wrote_files (files : Files) (h : Spots live rescue l n r m w.disk)
    (hchecked : ∀ f ∈ files, check_rel_path f.1 = .ok ())
    (hfree : w.disk.at_ (l ++ [n]) = none) :
    Wrote (l ++ [n]) (write_calls live files) (Fits files) (laid (listed []) files) w
      ((write_files (faulty sql) live files).outcome w) := by
  refine @wrote_bind _ [_] _ _ (AllLand (listed []) files) _ (laid (listed []) files) _ _ _ _ _
    (create_live h hfree) ?_ (by simp [Writing]) ?_ (fun hno => (hno trivial).elim) (fun _ => rfl)
  · intro _ d' hbeside hdir hunder
    have hrest := @wrote_rest sql live rescue l r n m
      ⟨d', w.done ++ [.create_dir_all live], w.fault⟩ files (h.of_beside hbeside) hchecked hdir
    dsimp only at hrest
    rwa [hunder] at hrest
  · rw [all_land_iff, true_and]

end Rules

end Writes

/-! ## Putting the data back -/

/-- Nothing stands below. -/
def Bare (c : Contents) : Prop := ∀ q, q ≠ [] → c q = none

section Back
variable {sql : Sqlite} {live rescue l r : Path} {n m : String} {w : World}

theorem under_self (d : Disk) (p : Path) : d.under p [] = d.at_ p := by
  unfold Disk.under
  rw [List.append_nil]

theorem under_of_free {d : Disk} {p : Path} (h : d.at_ p = none) : d.under p = fun _ => none := by
  funext q
  by_cases hq : q = []
  · rw [hq, under_self, h]
  · exact d.below (by simp [h]) hq

/-- What is left where the live data was: nothing, or what the failed removal has kept. -/
def left_over (c : Contents) : Option Damage → Contents
  | none => fun _ => none
  | some damage => thinned c damage.keeps

theorem remove_live (h : Spots live rescue l n r m w.disk)
    (hlive : w.disk.at_ (l ++ [n]) = none ∨ w.disk.at_ (l ++ [n]) = some .dir) :
    ∃ d' fault', (ignore (run (faulty sql) (.remove_dir_all live))).outcome w =
        (.ok (), ⟨d', w.done ++ [.remove_dir_all live], fault'⟩) ∧
      Beside (l ++ [n]) w.disk d' ∧
      d'.under (l ++ [n]) =
        left_over (w.disk.under (l ++ [n])) (w.struck (.remove_dir_all live)) ∧
      fault' = if w.struck (.remove_dir_all live) = none then w.fault else none := by
  have hway := h.live_way w.disk h.rescue_in
  rcases hstruck : w.struck (.remove_dir_all live) with _ | damage
  · rw [if_pos rfl]
    rcases remove_dir_all_cases w.disk (l ++ [n]) with ⟨d', hok, -, hdir, hat⟩ | ⟨e, herror, hno⟩
    · have heffect : effect sql w.disk (.remove_dir_all live) = (.ok (), d') := by
        rw [effect_remove hway, hok]
        rfl
      refine ⟨d', w.fault, outcome_ignore (run_ok hstruck heffect), ?_, ?_, rfl⟩
      · intro q hq
        rw [hat, if_neg hq]
      · funext q
        exact (hat _).trans (if_pos (List.prefix_append _ _))
    · have heffect : effect sql w.disk (.remove_dir_all live) = (.error e, w.disk) := by
        rw [effect_remove hway, herror]
        rfl
      refine ⟨w.disk, w.fault, outcome_ignore (run_error hstruck heffect), Beside.refl _ _, ?_, rfl⟩
      exact under_of_free (hlive.resolve_right (hno (by simp)))
  · rw [if_neg (by simp)]
    refine ⟨_, none, outcome_ignore (run_struck hstruck), ?_, ?_, rfl⟩
    · rcases @broken_remove sql _ _ _ hway damage with ⟨hsame, -⟩ | ⟨hthin, -⟩
      · rw [hsame]
        exact Beside.refl _ _
      · rw [hthin]
        exact thin_beside _ _
    · rcases @broken_remove sql _ _ _ hway damage with ⟨hsame, hno⟩ | ⟨hthin, -⟩
      · rw [hsame, under_of_free (hlive.resolve_right (hno (by simp)))]
        funext q
        simp [left_over, thinned]
      · rw [hthin]
        exact thin_under _ _ _

/-- Renaming the rescue directory to the live one. -/
theorem rename_back (h : Spots live rescue l n r m w.disk) {c : Contents}
    (hlive : w.disk.under (l ++ [n]) = c) (hrescue : w.disk.at_ (r ++ [m]) = some .dir)
    (hfile : ∀ bytes, c [] ≠ some (.file bytes)) :
    ∃ d' fault' done', (ignore (run (faulty sql) (.rename rescue live))).outcome w =
        (.ok (), ⟨d', done', fault'⟩) ∧ d'.at_ r = some .dir ∧
      (w.struck (.rename rescue live) = none → Bare c →
        d'.under (l ++ [n]) = w.disk.under (r ++ [m])) ∧
      (w.struck (.rename rescue live) ≠ none ∨ ¬ Bare c → d'.under (l ++ [n]) = c) := by
  have hway := h.live_way w.disk h.rescue_in
  have hfrom := h.rescue_way w.disk
  have hgives : w.disk.gives_way (r ++ [m]) (l ++ [n]) = true ↔ Bare c := by
    unfold Disk.gives_way
    rw [hrescue]
    have hself : w.disk.at_ (l ++ [n]) = c [] := by rw [← hlive, under_self]
    cases hat : w.disk.at_ (l ++ [n]) with
    | none =>
      simp only [true_iff]
      rw [← hlive, under_of_free hat]
      exact fun _ _ => rfl
    | some node =>
      cases node with
      | file bytes => exact (hfile bytes (by rw [← hself, hat])).elim
      | dir =>
        simp only
        rw [bare_iff, ← hlive]
        exact Iff.rfl
  rcases hstruck : w.struck (.rename rescue live) with _ | damage
  · rcases rename_cases w.disk (r ++ [m]) l n with
      ⟨d', hok, -, -, -, hway', hmoved, hrest⟩ | ⟨e, herror, hno⟩
    · have heffect : effect sql w.disk (.rename rescue live) = (.ok (), d') := by
        rw [effect_rename hfrom hway, hok]
        rfl
      refine ⟨d', _, _, outcome_ignore (run_ok hstruck heffect), ?_, ?_, ?_⟩
      · rw [hrest r (fun hpre => h.apart.1 (hpre.trans (List.prefix_append _ _))),
          if_neg (not_prefix_self r m), h.rescue_in]
      · intro _ _
        funext q
        exact hmoved q
      · rintro (hne | hbare)
        · exact (hne rfl).elim
        · exact (hbare (hgives.mp hway')).elim
    · have heffect : effect sql w.disk (.rename rescue live) = (.error e, w.disk) := by
        rw [effect_rename hfrom hway, herror]
        rfl
      refine ⟨w.disk, _, _, outcome_ignore (run_error hstruck heffect), h.rescue_in, ?_,
        fun _ => hlive⟩
      intro _ hbare
      have hgone := hno h.live_entry h.live_in h.apart.2
      rw [hgives.mpr hbare] at hgone
      cases hgone
  · refine ⟨_, _, _, outcome_ignore (run_struck hstruck), ?_, ?_, ?_⟩
    · rw [broken_rename hfrom hway, h.rescue_in]
    · intro hne _
      cases hne
    · intro _
      rw [broken_rename hfrom hway]
      exact hlive

/-- The calls after a writing that has failed: the stale or the rescued data stands again where the
removal and the renaming succeed, or else what the removal has left. -/
theorem puts_back (h : Spots live rescue l n r m w.disk)
    (hlive : w.disk.at_ (l ++ [n]) = none ∨ w.disk.at_ (l ++ [n]) = some .dir)
    (e : AppError) {first : Contents}
    (hfirst : first = left_over (w.disk.under (l ++ [n])) (w.struck (.remove_dir_all live))) :
    ∃ w', (do
        ignore (run (faulty sql) (.remove_dir_all live))
        doWhen (← ask ((faulty sql).is_dir rescue))
          (ignore (run (faulty sql) (.rename rescue live)))
        fail e : Fs World Unit).outcome w = (.error e, w') ∧ w'.disk.at_ r = some .dir ∧
      (w.disk.at_ (r ++ [m]) = some .dir → w.struck (.rename rescue live) = none → Bare first →
        w'.disk.under (l ++ [n]) = w.disk.under (r ++ [m])) ∧
      (w.disk.at_ (r ++ [m]) ≠ some .dir ∨ w.struck (.rename rescue live) ≠ none ∨ ¬ Bare first →
        w'.disk.under (l ++ [n]) = first) := by
  obtain ⟨d', fault', hremove, hbeside, hunder, rfl⟩ := @remove_live sql _ _ _ _ _ _ _ h hlive
  rw [outcome_bind_ok hremove]
  have hspots := h.of_beside hbeside
  have hrescue : d'.under (r ++ [m]) = w.disk.under (r ++ [m]) :=
    hbeside.under h.apart.1 h.apart.2
  have hat : d'.at_ (r ++ [m]) = w.disk.at_ (r ++ [m]) := by
    rw [← under_self, hrescue, under_self]
  have hstruck := @struck_behind w (.remove_dir_all live) (.rename rescue live) (by simp) d'
  have hasked : ∀ v : World, v.disk = d' → (ask ((faulty sql).is_dir rescue) : Fs World Bool).outcome v =
      (.ok (decide (w.disk.at_ (r ++ [m]) = some .dir)), v) := by
    rintro v rfl
    rw [outcome_ask, ← hat, ← under_self, ← seen_of_way (h.rescue_way _)]
    rfl
  rw [outcome_bind_ok (hasked _ rfl)]
  rw [← hfirst] at hunder
  by_cases hdir : w.disk.at_ (r ++ [m]) = some .dir
  · have hself : first [] = none ∨ first [] = some .dir := by
      rw [hfirst]
      cases w.struck (.remove_dir_all live) with
      | none => exact .inl rfl
      | some damage =>
        rw [left_over, thinned, if_pos (kept_nil _), under_self]
        exact hlive
    obtain ⟨d'', fault'', done'', hrename, hroot, hback, hstays⟩ := @rename_back sql live rescue l r n m
      ⟨d', _, _⟩ hspots first hunder (hat.trans hdir) (by
        intro bytes hfile
        rw [hfile] at hself
        simp at hself)
    rw [hstruck] at hback hstays
    have hwhen : (doWhen (decide (w.disk.at_ (r ++ [m]) = some .dir))
        (ignore (run (faulty sql) (.rename rescue live))) : Fs World Unit) =
        ignore (run (faulty sql) (.rename rescue live)) := by
      rw [decide_eq_true hdir]
      rfl
    rw [hwhen, outcome_bind_ok hrename]
    refine ⟨⟨d'', done'', fault''⟩, rfl, hroot, ?_, ?_⟩
    · intro _ hnone hbare
      exact (hback hnone hbare).trans hrescue
    · rintro (hno | hrest)
      · exact (hno hdir).elim
      · exact hstays hrest
  · have hwhen : (doWhen (decide (w.disk.at_ (r ++ [m]) = some .dir))
        (ignore (run (faulty sql) (.rename rescue live))) : Fs World Unit) = pure () := by
      rw [decide_eq_false hdir]
      rfl
    rw [hwhen]
    exact ⟨_, rfl, hspots.rescue_in, fun h => (hdir h).elim, fun _ => hunder⟩

end Back

/-! ## Setting the data aside -/

/-- The calls that set the live data aside, where something may stand in its place. -/
def aside_calls (live rescue : Path) (stale : Option Node) : List FsOp :=
  (if stale = none then [] else [.remove_dir_all rescue]) ++ [.rename live rescue]

section Aside
variable {sql : Sqlite} {live rescue l r : Path} {n m : String} {d : Disk} {w : World}

theorem Spots.ne (h : Spots live rescue l n r m d) : live ≠ rescue := by
  rintro rfl
  have heq := (h.live_way d h.rescue_in).symm.trans (h.rescue_way d)
  injection heq with heq
  apply h.apart.1
  rw [heq]

theorem Spots.of_beside_rescue (h : Spots live rescue l n r m d) {d' : Disk}
    (hd : Beside (r ++ [m]) d d') : Spots live rescue l n r m d' := by
  refine { h with live_in := ?_, rescue_in := ?_ }
  · rw [hd l, h.live_in]
    exact fun hpre => h.apart.2 (hpre.trans (List.prefix_append _ _))
  · rw [hd r (not_prefix_self r m), h.rescue_in]

/-- A removal of the rescue directory that fails leaves all else. -/
theorem rescue_broken (h : Spots live rescue l n r m d) (damage : Damage) :
    Beside (r ++ [m]) d (broken sql d damage (.remove_dir_all rescue)) := by
  rcases @broken_remove sql _ _ _ (h.rescue_way d) damage with ⟨hsame, -⟩ | ⟨hthin, -⟩
  · rw [hsame]
    exact Beside.refl _ _
  · rw [hthin]
    exact thin_beside _ _

/-- Where the place is free, the live data moves there. -/
theorem move_aside (h : Spots live rescue l n r m w.disk)
    (hlive : w.disk.at_ (l ++ [n]) = some .dir) (hfree : w.disk.at_ (r ++ [m]) = none) :
    (∃ e fault', w.struck (.rename live rescue) ≠ none ∧
      (run (faulty sql) (.rename live rescue)).outcome w =
        (.error e, ⟨w.disk, w.done ++ [.rename live rescue], fault'⟩)) ∨
    ∃ d', w.struck (.rename live rescue) = none ∧
      (run (faulty sql) (.rename live rescue)).outcome w =
        (.ok (), ⟨d', w.done ++ [.rename live rescue], w.fault⟩) ∧
      Spots live rescue l n r m d' ∧ d'.at_ (l ++ [n]) = none ∧
      d'.under (r ++ [m]) = w.disk.under (l ++ [n]) := by
  have hway := h.live_way w.disk h.rescue_in
  have hto := h.rescue_way w.disk
  rcases hstruck : w.struck (.rename live rescue) with _ | damage
  · right
    rcases rename_cases w.disk (l ++ [n]) r m with ⟨d', hok, -, -, -, -, hmoved, hrest⟩ | ⟨e, herror, hno⟩
    · have heffect : effect sql w.disk (.rename live rescue) = (.ok (), d') := by
        rw [effect_rename hway hto, hok]
        rfl
      have hsame : ∀ q, ¬ r ++ [m] <+: q → ¬ l ++ [n] <+: q → d'.at_ q = w.disk.at_ q := by
        intro q hr hl
        rw [hrest q hr, if_neg hl]
      refine ⟨d', rfl, run_ok hstruck heffect, ?_, ?_, ?_⟩
      · refine { h with live_in := ?_, rescue_in := ?_ }
        · rw [hsame l _ (not_prefix_self l n), h.live_in]
          exact fun hpre => h.apart.2 (hpre.trans (List.prefix_append _ _))
        · rw [hsame r (not_prefix_self r m), h.rescue_in]
          exact fun hpre => h.apart.1 (hpre.trans (List.prefix_append _ _))
      · rw [hrest _ h.apart.2, if_pos (List.prefix_refl _)]
      · funext q
        exact hmoved q
    · have hgives : w.disk.gives_way (l ++ [n]) (r ++ [m]) = true := by
        unfold Disk.gives_way
        rw [hlive, hfree]
      have hgone := hno h.rescue_entry h.rescue_in h.apart.1
      rw [hgives] at hgone
      cases hgone
  · refine .inl ⟨io_error, none, by simp, ?_⟩
    rw [run_struck hstruck, broken_rename hway hto]

/-- What setting the live data aside comes to: nothing is moved, because of the fault or of a
file in the place, or the data stands in the rescue directory. -/
theorem sets_aside (h : Spots live rescue l n r m d) (hlive : d.at_ (l ++ [n]) = some .dir)
    (fault : Option Fault) :
    (∃ e w', (set_aside (faulty sql) live rescue).outcome (.start d fault) = (.error e, w') ∧
      w'.disk.under (l ++ [n]) = d.under (l ++ [n]) ∧ w'.disk.at_ r = some .dir ∧
      (Meets fault [] (aside_calls live rescue (d.at_ (r ++ [m]))) ∨
        ∃ bytes, d.at_ (r ++ [m]) = some (.file bytes))) ∨
    ∃ d', (set_aside (faulty sql) live rescue).outcome (.start d fault) =
        (.ok (), ⟨d', aside_calls live rescue (d.at_ (r ++ [m])), fault⟩) ∧
      (d.at_ (r ++ [m]) = none ∨ d.at_ (r ++ [m]) = some .dir) ∧
      Spots live rescue l n r m d' ∧ d'.at_ (l ++ [n]) = none ∧
      d'.under (r ++ [m]) = d.under (l ++ [n]) ∧
      ¬ Meets fault [] (aside_calls live rescue (d.at_ (r ++ [m]))) := by
  have hway := h.rescue_way d
  have hasked : (ask ((faulty sql).path_exists rescue) : Fs World Bool).outcome (.start d fault) =
      (.ok (d.at_ (r ++ [m])).isSome, .start d fault) := by
    rw [outcome_ask, ← under_self, ← seen_of_way hway]
    rfl
  unfold set_aside
  rw [outcome_bind_ok hasked]
  cases hstale : d.at_ (r ++ [m]) with
  | none =>
    change (∃ e w', ((pure () : Fs World Unit) >>= fun _ => _).outcome _ = _ ∧ _) ∨ _
    rw [pure_then]
    rcases @move_aside sql _ _ _ _ _ _ (.start d fault) h hlive hstale with
      ⟨e, fault', hstruck, hrun⟩ | ⟨d', hstruck, hrun, hspots, hgone, hmoved⟩
    · exact .inl ⟨e, _, hrun, rfl, h.rescue_in, .inl (meets_one.mpr hstruck)⟩
    · refine .inr ⟨d', hrun, .inl rfl, hspots, hgone, hmoved, ?_⟩
      exact fun hmeets => meets_one.mp hmeets hstruck
  | some node =>
    have hwhen : (doWhen (some node).isSome (run (faulty sql) (.remove_dir_all rescue)) :
        Fs World Unit) = run (faulty sql) (.remove_dir_all rescue) := rfl
    rw [hwhen]
    have hcalls : aside_calls live rescue (some node) =
        [.remove_dir_all rescue, .rename live rescue] := rfl
    rw [hcalls]
    rcases hstruck : (World.start d fault).struck (.remove_dir_all rescue) with _ | damage
    · rcases remove_dir_all_cases d (r ++ [m]) with ⟨d₁, hok, -, hdir, hat⟩ | ⟨e, herror, hno⟩
      · have heffect : effect sql d (.remove_dir_all rescue) = (.ok (), d₁) := by
          rw [effect_remove hway, hok]
          rfl
        have hbeside : Beside (r ++ [m]) d d₁ := fun q hq => by rw [hat, if_neg hq]
        have hspots := h.of_beside_rescue hbeside
        have hunder := hbeside.under h.apart.2 h.apart.1
        have hlive₁ : d₁.at_ (l ++ [n]) = some .dir := by
          rw [← under_self, hunder, under_self, hlive]
        have hfree₁ : d₁.at_ (r ++ [m]) = none := by rw [hat, if_pos (List.prefix_refl _)]
        rw [outcome_bind_ok (run_ok hstruck heffect)]
        rcases @move_aside sql live rescue l r n m ⟨d₁, [.remove_dir_all rescue], fault⟩ hspots
          hlive₁ hfree₁ with ⟨e, fault', hstruck₁, hrun⟩ | ⟨d', hstruck₁, hrun, hspots', hgone, hmoved⟩
        · refine .inl ⟨e, _, hrun, hunder, hspots.rescue_in, .inl ?_⟩
          exact (meets_cons (w := .start d fault) _ _).mpr
            (.inr (meets_one (w := ⟨d₁, [.remove_dir_all rescue], fault⟩).mpr hstruck₁))
        · refine .inr ⟨d', hrun, .inr (hstale ▸ hdir), hspots', hgone, hmoved.trans hunder, ?_⟩
          intro hmeets
          rcases (meets_cons (w := .start d fault) _ _).mp hmeets with hone | hmeets
          · exact hone hstruck
          · exact meets_one (w := ⟨d₁, [.remove_dir_all rescue], fault⟩).mp hmeets hstruck₁
      · have heffect : effect sql d (.remove_dir_all rescue) = (.error e, d) := by
          rw [effect_remove hway, herror]
          rfl
        rw [outcome_bind_error (run_error hstruck heffect)]
        refine .inl ⟨_, _, rfl, rfl, h.rescue_in, .inr ?_⟩
        cases node with
        | file bytes => exact ⟨bytes, rfl⟩
        | dir => exact (hno (by simp) hstale).elim
    · rw [outcome_bind_error (run_struck hstruck)]
      have hbroken := @rescue_broken sql _ _ _ _ _ _ _ h damage
      refine .inl ⟨_, _, rfl, hbroken.under h.apart.2 h.apart.1,
        (h.of_beside_rescue hbroken).rescue_in, .inl ?_⟩
      exact (meets_cons (w := .start d fault) _ _).mpr (.inl (by simp [hstruck]))

end Aside

/-! ## The swap -/

section Swap
variable {sql : Sqlite} {live rescue l r : Path} {n m : String} {w : World}

/-- What the writing comes to with the calls behind it: the rescue directory goes away, or it is
still there when its removal fails; after a failure its data comes back, or the removal of the
live directory or the renaming has failed too; or there was no rescue directory. -/
inductive Ended (place there live rescue : Path) (files : Files) (w : World) :
    Except AppError Unit × World → Prop
  | swapped {w' : World} : Fits files → ¬ Meets w.fault w.done (write_calls live files) →
      (w.disk.at_ there = some .dir →
        ¬ FaultAt w.fault (.remove_dir_all rescue) (w.done.count (.remove_dir_all rescue))) →
      w'.disk.under place = listed files → Ended place there live rescue files w (.ok (), w')
  | uncleaned {e : AppError} {w' : World} : Fits files →
      ¬ Meets w.fault w.done (write_calls live files) → w.disk.at_ there = some .dir →
      FaultAt w.fault (.remove_dir_all rescue) (w.done.count (.remove_dir_all rescue)) →
      w'.disk.under place = listed files → Ended place there live rescue files w (.error e, w')
  | returned {e : AppError} {w' : World} : w.disk.at_ there = some .dir →
      (Meets w.fault w.done (write_calls live files) ∨ ¬ Fits files ∧
        ¬ FaultAt w.fault (.rename rescue live) (w.done.count (.rename rescue live)) ∧
        ∀ damage, w.fault = some (.call (.remove_dir_all live)
          (w.done.count (.remove_dir_all live)) damage) →
          Bare (thinned (laid (listed []) files) damage.keeps)) →
      w'.disk.under place = w.disk.under there → Ended place there live rescue files w (.error e, w')
  | unreturned {e : AppError} {w' : World} : w.disk.at_ there = some .dir → ¬ Fits files →
      FaultAt w.fault (.rename rescue live) (w.done.count (.rename rescue live)) →
      (w'.disk.under place = fun _ => none) → Ended place there live rescue files w (.error e, w')
  | left {e : AppError} {w' : World} {damage : Damage} : ¬ Fits files →
      w.fault = some (.call (.remove_dir_all live) (w.done.count (.remove_dir_all live)) damage) →
      (w.disk.at_ there = some .dir → ¬ Bare (thinned (laid (listed []) files) damage.keeps)) →
      w'.disk.under place = thinned (laid (listed []) files) damage.keeps →
      Ended place there live rescue files w (.error e, w')
  | cleared {e : AppError} {w' : World} : w.disk.at_ there ≠ some .dir →
      (Meets w.fault w.done (write_calls live files) ∨ ¬ Fits files ∧
        ¬ FaultAt w.fault (.remove_dir_all live) (w.done.count (.remove_dir_all live))) →
      (w'.disk.under place = fun _ => none) → Ended place there live rescue files w (.error e, w')

theorem count_writing {op : FsOp} (h : ¬ Writing op) (done : List FsOp) {cs : List FsOp}
    (hcs : ∀ c ∈ cs, Writing c) : (done ++ cs).count op = done.count op := by
  have hzero : cs.count op = 0 := List.count_eq_zero.mpr fun hmem => h (hcs op hmem)
  rw [List.count_append, hzero, Nat.add_zero]

theorem write_calls_writing (live : Path) (files : Files) :
    ∀ op ∈ write_calls live files, Writing op := by
  intro op hop
  rcases List.mem_cons.mp hop with rfl | hop
  · trivial
  · obtain ⟨f, -, hf⟩ := List.mem_flatMap.mp hop
    unfold file_calls at hf
    rcases List.mem_cons.mp hf with rfl | hf
    · trivial
    · rw [List.mem_singleton.mp hf]
      trivial

/-- The second half of `swap_data`. -/
def write_and_clean (sql : Sqlite) (live rescue : Path) (files : Files) : Fs World Unit := do
  match ← attempt (write_files (faulty sql) live files) with
  | .ok () =>
    doWhen (← ask ((faulty sql).is_dir rescue)) (run (faulty sql) (.remove_dir_all rescue))
  | .error e => do
    ignore (run (faulty sql) (.remove_dir_all live))
    doWhen (← ask ((faulty sql).is_dir rescue)) (ignore (run (faulty sql) (.rename rescue live)))
    fail e

theorem swap_data_eq (files : Files) : swap_data (faulty sql) live rescue files = (do
    doWhen (← ask ((faulty sql).is_dir live)) (set_aside (faulty sql) live rescue)
    write_and_clean sql live rescue files) := rfl

theorem asks_rescue (h : Spots live rescue l n r m w.disk) :
    (ask ((faulty sql).is_dir rescue) : Fs World Bool).outcome w =
      (.ok (decide (w.disk.at_ (r ++ [m]) = some .dir)), w) := by
  rw [outcome_ask, ← under_self, ← seen_of_way (h.rescue_way w.disk)]
  rfl

/-- The removal of the rescue directory at the end leaves the live data as it is. -/
theorem cleans_up (h : Spots live rescue l n r m w.disk) :
    ∃ res w', (do
        doWhen (← ask ((faulty sql).is_dir rescue))
          (run (faulty sql) (.remove_dir_all rescue)) : Fs World Unit).outcome w = (res, w') ∧
      w'.disk.under (l ++ [n]) = w.disk.under (l ++ [n]) ∧ w'.disk.at_ r = some .dir ∧
      (res = .ok () ∧ (w.disk.at_ (r ++ [m]) = some .dir →
          w.struck (.remove_dir_all rescue) = none) ∨
        (∃ e, res = .error e) ∧ w.disk.at_ (r ++ [m]) = some .dir ∧
          w.struck (.remove_dir_all rescue) ≠ none) := by
  have hway := h.rescue_way w.disk
  rw [outcome_bind_ok (asks_rescue h)]
  by_cases hstands : w.disk.at_ (r ++ [m]) = some .dir
  · rw [decide_eq_true hstands]
    change ∃ res w', (run (faulty sql) (.remove_dir_all rescue)).outcome w = _ ∧ _
    rcases hstruck : w.struck (.remove_dir_all rescue) with _ | damage
    · rcases remove_dir_all_cases w.disk (r ++ [m]) with ⟨d', hok, -, -, hat⟩ | ⟨e, -, hno⟩
      · have heffect : effect sql w.disk (.remove_dir_all rescue) = (.ok (), d') := by
          rw [effect_remove hway, hok]
          rfl
        have hgone : Beside (r ++ [m]) w.disk d' := fun q hq => by rw [hat, if_neg hq]
        exact ⟨_, _, run_ok hstruck heffect, hgone.under h.apart.2 h.apart.1,
          (h.of_beside_rescue hgone).rescue_in, .inl ⟨rfl, fun _ => rfl⟩⟩
      · exact (hno (by simp) hstands).elim
    · have hbroken := @rescue_broken sql _ _ _ _ _ _ _ h damage
      exact ⟨_, _, run_struck hstruck, hbroken.under h.apart.2 h.apart.1,
        (h.of_beside_rescue hbroken).rescue_in, .inr ⟨⟨_, rfl⟩, hstands, by simp⟩⟩
  · rw [decide_eq_false hstands]
    exact ⟨_, _, rfl, rfl, h.rescue_in, .inl ⟨rfl, fun hdir => (hstands hdir).elim⟩⟩

theorem write_and_clean_ends (files : Files) (h : Spots live rescue l n r m w.disk)
    (hchecked : ∀ f ∈ files, check_rel_path f.1 = .ok ())
    (hfree : w.disk.at_ (l ++ [n]) = none) :
    Ended (l ++ [n]) (r ++ [m]) live rescue files w
        ((write_and_clean sql live rescue files).outcome w) ∧
      ((write_and_clean sql live rescue files).outcome w).2.disk.at_ r = some .dir := by
  have hwrote := @wrote_files sql _ _ _ _ _ _ _ files h hchecked hfree
  unfold write_and_clean
  rw [outcome_bind_ok (outcome_attempt _ w)]
  generalize (write_files (faulty sql) live files).outcome w = x at hwrote
  cases hwrote with
  | @done d' hfits hbeside hdir hunder hmeets =>
    have hrescue := hbeside.under h.apart.1 h.apart.2
    have hat : d'.at_ (r ++ [m]) = w.disk.at_ (r ++ [m]) := by
      rw [← under_self, hrescue, under_self]
    rw [laid_of_fits hfits] at hunder
    have hcount := @count_writing (.remove_dir_all rescue) (by simp [Writing]) w.done
      _ (write_calls_writing live files)
    have hfault := @faultAt_iff ⟨d', w.done ++ write_calls live files, w.fault⟩
      (.remove_dir_all rescue)
    rw [hcount] at hfault
    obtain ⟨res, w', hend, hsame, hroot, hcases⟩ := @cleans_up sql live rescue l r n m
      ⟨d', w.done ++ write_calls live files, w.fault⟩ (h.of_beside hbeside)
    dsimp only at hsame hcases ⊢
    rw [hend]
    refine ⟨?_, hroot⟩
    rw [hat] at hcases
    rcases hcases with ⟨rfl, hunstruck⟩ | ⟨⟨e, rfl⟩, hstands, hstruck⟩
    · refine .swapped hfits hmeets ?_ (hsame.trans hunder)
      exact fun hstands hat => hfault.mp hat (hunstruck hstands)
    · exact .uncleaned hfits hmeets hstands (hfault.mpr hstruck) (hsame.trans hunder)
  | @stopped d' e cs hno hbeside hdir hunder hcs =>
    have hrescue := hbeside.under h.apart.1 h.apart.2
    have hat : d'.at_ (r ++ [m]) = w.disk.at_ (r ++ [m]) := by
      rw [← under_self, hrescue, under_self]
    have hremove := @count_writing (.remove_dir_all live) (by simp [Writing]) w.done _ hcs
    have hrename := @count_writing (.rename rescue live) (by simp [Writing]) w.done _ hcs
    have hfault := @faultAt_iff ⟨d', w.done ++ cs, w.fault⟩ (.rename rescue live)
    have hgone := @faultAt_iff ⟨d', w.done ++ cs, w.fault⟩ (.remove_dir_all live)
    rw [hrename] at hfault
    rw [hremove] at hgone
    obtain ⟨w', hend, hroot, hback, hstays⟩ := @puts_back sql live rescue l r n m
      ⟨d', w.done ++ cs, w.fault⟩ (h.of_beside hbeside) (.inr hdir) e _ rfl
    dsimp only at hback hstays ⊢
    rw [hend]
    refine ⟨?_, hroot⟩
    rw [hat, hrescue] at hback
    rw [hat] at hstays
    rw [hunder] at hback hstays
    rcases hstruck : World.struck ⟨d', w.done ++ cs, w.fault⟩ (.remove_dir_all live) with _ | damage
    · -- The live directory is gone.
      rw [hstruck] at hback hstays hgone
      have hbare : Bare (left_over (laid (listed []) files) none) := fun _ _ => rfl
      by_cases hstands : w.disk.at_ (r ++ [m]) = some .dir
      · by_cases hunstruck : World.struck ⟨d', w.done ++ cs, w.fault⟩ (.rename rescue live) = none
        · refine .returned hstands (.inr ⟨hno, fun h => hfault.mp h hunstruck, ?_⟩)
            (hback hstands hunstruck hbare)
          intro damage hdamage
          exact (hgone.mp ⟨damage, hdamage⟩ rfl).elim
        · exact .unreturned hstands hno (hfault.mpr hunstruck) (hstays (.inr (.inl hunstruck)))
      · exact .cleared hstands (.inr ⟨hno, fun h => hgone.mp h rfl⟩) (hstays (.inl hstands))
    · -- Its removal has failed, so the renaming cannot fail too.
      have hdamage := struck_iff.mp hstruck
      dsimp only at hdamage
      rw [hremove] at hdamage
      rw [hstruck] at hback hstays
      have hunstruck : World.struck ⟨d', w.done ++ cs, w.fault⟩ (.rename rescue live) = none := by
        unfold World.struck
        rw [hdamage]
        simp
      by_cases hstands : w.disk.at_ (r ++ [m]) = some .dir
      · by_cases hbare : Bare (thinned (laid (listed []) files) damage.keeps)
        · refine .returned hstands (.inr ⟨hno, fun h => hfault.mp h hunstruck, ?_⟩)
            (hback hstands hunstruck hbare)
          intro damage' hdamage'
          rw [hdamage] at hdamage'
          cases hdamage'
          exact hbare
        · exact .left hno hdamage (fun _ => hbare) (hstays (.inr (.inr hbare)))
      · exact .left hno hdamage (fun hdir => (hstands hdir).elim) (hstays (.inl hstands))
  | @struck d' e cs hmeets hbeside hdir =>
    have hrescue := hbeside.under h.apart.1 h.apart.2
    have hat : d'.at_ (r ++ [m]) = w.disk.at_ (r ++ [m]) := by
      rw [← under_self, hrescue, under_self]
    obtain ⟨w', hend, hroot, hback, hstays⟩ := @puts_back sql live rescue l r n m ⟨d', cs, none⟩
      (h.of_beside hbeside) (hdir.elim .inr (fun hsame => .inl (hsame.trans hfree))) e _ rfl
    have hunstruck : ∀ op, World.struck ⟨d', cs, none⟩ op = none := struck_unfaulted rfl
    rw [hunstruck, hunstruck] at hback
    rw [hunstruck, hunstruck] at hstays
    dsimp only at hback hstays ⊢
    rw [hend]
    refine ⟨?_, hroot⟩
    by_cases hstands : w.disk.at_ (r ++ [m]) = some .dir
    · refine .returned hstands (.inl hmeets) ?_
      rw [hback (hat.trans hstands) rfl (fun _ _ => rfl), hrescue]
    · refine .cleared hstands (.inl hmeets) ?_
      rw [hstays (.inl (by rwa [hat]))]
      rfl

/-- Where a file has the place of the live directory nothing changes. -/
theorem write_and_clean_file (files : Files) (h : Spots live rescue l n r m w.disk) {bytes : Bytes}
    (hfile : w.disk.at_ (l ++ [n]) = some (.file bytes)) :
    ∃ e w', (write_and_clean sql live rescue files).outcome w = (.error e, w') ∧
      w'.disk = w.disk := by
  have hway := h.live_way w.disk h.rescue_in
  have hcreate : ∃ e, effect sql w.disk (.create_dir_all live) = (.error e, w.disk) := by
    rcases create_dir_all_cases w.disk (l ++ [n]) with ⟨d', -, -, hclear, -⟩ | ⟨e, herror, -⟩
    · rw [blocked_iff.mpr ⟨_, bytes, List.prefix_refl _, hfile⟩] at hclear
      cases hclear
    · exact ⟨e, by rw [effect_create hway, herror]; rfl⟩
  have hremove : ∃ e, effect sql w.disk (.remove_dir_all live) = (.error e, w.disk) := by
    rcases remove_dir_all_cases w.disk (l ++ [n]) with ⟨d', -, -, hdir, -⟩ | ⟨e, herror, -⟩
    · rw [hfile] at hdir
      cases hdir
    · exact ⟨e, by rw [effect_remove hway, herror]; rfl⟩
  have hrename : w.disk.at_ (r ++ [m]) = some .dir →
      ∃ e, effect sql w.disk (.rename rescue live) = (.error e, w.disk) := by
    intro hdir
    rcases rename_cases w.disk (r ++ [m]) l n with ⟨d', -, -, -, -, hgives, -⟩ | ⟨e, herror, -⟩
    · unfold Disk.gives_way at hgives
      rw [hdir, hfile] at hgives
      cases hgives
    · exact ⟨e, by rw [effect_rename (h.rescue_way _) hway, herror]; rfl⟩
  obtain ⟨e, hcreate⟩ := hcreate
  obtain ⟨e₁, fault₁, hfirst⟩ := run_fails hcreate
  have hwrite : (attempt (write_files (faulty sql) live files)).outcome w =
      (.ok (.error e₁), ⟨w.disk, w.done ++ [.create_dir_all live], fault₁⟩) := by
    rw [outcome_attempt]
    unfold write_files
    rw [outcome_bind_error hfirst]
  unfold write_and_clean
  rw [outcome_bind_ok hwrite]
  obtain ⟨e₂, hremove⟩ := hremove
  obtain ⟨e₂, fault₂, hsecond⟩ :=
    run_fails (w := ⟨w.disk, w.done ++ [.create_dir_all live], fault₁⟩) hremove
  dsimp only
  rw [outcome_bind_ok (outcome_ignore hsecond)]
  have hasked := @asks_rescue sql _ _ _ _ _ _
    ⟨w.disk, w.done ++ [.create_dir_all live] ++ [.remove_dir_all live], fault₂⟩ h
  dsimp only at hasked ⊢
  rw [outcome_bind_ok hasked]
  by_cases hdir : w.disk.at_ (r ++ [m]) = some .dir
  · rw [decide_eq_true hdir]
    obtain ⟨e₃, hrename⟩ := hrename hdir
    obtain ⟨e₃, fault₃, hthird⟩ := run_fails
      (w := ⟨w.disk, w.done ++ [.create_dir_all live] ++ [.remove_dir_all live], fault₂⟩) hrename
    have hwhen : (doWhen true (ignore (run (faulty sql) (.rename rescue live))) : Fs World Unit) =
        ignore (run (faulty sql) (.rename rescue live)) := rfl
    rw [hwhen, outcome_bind_ok (outcome_ignore hthird)]
    exact ⟨_, _, rfl, rfl⟩
  · rw [decide_eq_false hdir]
    exact ⟨_, _, rfl, rfl⟩

/-- The data is what is listed, or what it was before an error. -/
def Swapped (files : Files) (before after : Contents) : Except AppError Unit → Prop
  | .ok () => after = listed files
  | .error _ => after = before

/-- How a call fails that has changed the data, by what was in the live and in the rescue
directory: the removal of the rescued data fails behind the swap; the renaming fails that is to
bring it back, or the removal before it has left something; what failed to fit is left where no
data was; or a stale rescue directory was there, which is removed behind the swap or taken for
the data that was. -/
inductive Breaks (live rescue : Path) (before stale : Contents) (files : Files)
    (fault : Option Fault) : Prop
  | uncleaned : before [] = some .dir → (stale [] = none ∨ stale [] = some .dir) → Fits files →
      FaultAt fault (.remove_dir_all rescue) (if stale [] = none then 0 else 1) →
      before ≠ listed files → Breaks live rescue before stale files fault
  | unreturned : before [] = some .dir → (stale [] = none ∨ stale [] = some .dir) → ¬ Fits files →
      FaultAt fault (.rename rescue live) 0 → Breaks live rescue before stale files fault
  | left {damage : Damage} : before [] = some .dir →
      (stale [] = none ∨ stale [] = some .dir) → ¬ Fits files →
      fault = some (.call (.remove_dir_all live) 0 damage) →
      ¬ Bare (thinned (laid (listed []) files) damage.keeps) →
      thinned (laid (listed []) files) damage.keeps ≠ before →
      Breaks live rescue before stale files fault
  | kept : before [] = none → stale [] ≠ some .dir → ¬ Fits files →
      FaultAt fault (.remove_dir_all live) 0 → Breaks live rescue before stale files fault
  | stale_swapped : before [] = none → stale [] = some .dir → Fits files →
      (Meets fault [] (write_calls live files) ∨ FaultAt fault (.remove_dir_all rescue) 0) →
      Breaks live rescue before stale files fault
  | stale_returned : before [] = none → stale [] = some .dir → ¬ Fits files →
      ¬ FaultAt fault (.rename rescue live) 0 → Breaks live rescue before stale files fault

theorem laid_root (files : Files) : ∀ c : Contents, c [] = some .dir → laid c files [] = some .dir := by
  induction files with
  | nil => exact fun c hc => hc
  | cons f rest ih =>
    intro c hc
    have hlay : ∀ q, lay_dirs c q [] = some .dir := fun q => if_pos List.nil_prefix
    unfold laid
    split
    · rename_i hlands
      apply ih
      unfold lay_file lay_bytes
      rw [if_neg (Ne.symm (components_ne_nil hlands.1))]
      exact hlay _
    · unfold opened
      split
      · exact hlay _
      · exact hc

theorem listed_root {files : Files} (h : Fits files) : listed files [] = some .dir := by
  rw [← laid_of_fits h]
  exact laid_root files _ (by simp [listed_nil])

theorem thinned_root (files : Files) (keeps : Path → Bool) :
    thinned (laid (listed []) files) keeps [] = some .dir := by
  rw [thinned, if_pos (kept_nil keeps)]
  exact laid_root files _ (by simp [listed_nil])

theorem not_meets_of_faultAt {op : FsOp} {nth : Nat} {fault : Option Fault} {done : List FsOp}
    {files : Files} (hop : ¬ Writing op) (hat : FaultAt fault op nth) :
    ¬ Meets fault done (write_calls live files) := by
  obtain ⟨damage, hfault⟩ := hat
  intro hmeets
  exact hop (write_calls_writing live files op (meets_mem hmeets hfault))

/-- Where no data was: the data is swapped or as it was exactly when nothing breaks. -/
theorem swap_fresh (files : Files) {before stale : Contents} {fault : Option Fault} {d : Disk}
    (hbefore : before = fun _ => none) (hstale : stale = d.under (r ++ [m]))
    {out : Except AppError Unit × World}
    (hended : Ended (l ++ [n]) (r ++ [m]) live rescue files (.start d fault) out) :
    Swapped files before (out.2.disk.under (l ++ [n])) out.1 ↔
      ¬ Breaks live rescue before stale files fault := by
  have hself : stale [] = d.at_ (r ++ [m]) := by rw [hstale, under_self]
  have hnone : before [] = none := by rw [hbefore]
  have hroot : ∀ c : Contents, c [] = some .dir → c ≠ before := by
    rintro c hc rfl
    rw [hnone] at hc
    cases hc
  cases hended with
  | swapped hfits hmeets hat hunder =>
    refine ⟨?_, fun _ => hunder⟩
    rintro - (hdir | hdir | hdir | ⟨-, -, hno, -⟩ | ⟨-, hdir, -, hmet⟩ | ⟨-, -, hno, -⟩)
    · simp [hnone] at hdir
    · simp [hnone] at hdir
    · simp [hnone] at hdir
    · exact hno hfits
    · exact hmet.elim hmeets (hat (hself.symm.trans hdir))
    · exact hno hfits
  | uncleaned hfits hmeets hdir hat hunder =>
    refine ⟨fun hsame => (hroot _ (listed_root hfits) (hunder.symm.trans hsame)).elim, ?_⟩
    intro hno
    exact (hno (.stale_swapped hnone (hself.trans hdir) hfits (.inr hat))).elim
  | returned hdir hcases hunder =>
    have hstands := hself.trans hdir
    constructor
    · intro hsame
      refine (hroot stale hstands ?_).elim
      rw [hstale]
      exact hunder.symm.trans hsame
    · intro hno
      exfalso
      apply hno
      by_cases hfits : Fits files
      · rcases hcases with hmeets | ⟨hunfit, -⟩
        · exact .stale_swapped hnone hstands hfits (.inl hmeets)
        · exact (hunfit hfits).elim
      · apply Breaks.stale_returned hnone hstands hfits
        rcases hcases with hmeets | ⟨-, hat, -⟩
        · exact fun hat => not_meets_of_faultAt (by simp [Writing]) hat hmeets
        · exact hat
  | unreturned hdir hfits hat hunder =>
    refine ⟨?_, fun _ => hunder.trans hbefore.symm⟩
    rintro - (hd | hd | hd | ⟨-, hne, -⟩ | ⟨-, -, hf, -⟩ | ⟨-, -, -, hno⟩)
    · simp [hnone] at hd
    · simp [hnone] at hd
    · simp [hnone] at hd
    · exact hne (hself.trans hdir)
    · exact hfits hf
    · exact hno hat
  | @left e w' damage hfits hfault hbare hunder =>
    refine ⟨fun hsame => (hroot _ (thinned_root files damage.keeps) (hunder.symm.trans hsame)).elim,
      ?_⟩
    intro hno
    exfalso
    apply hno
    by_cases hstands : stale [] = some .dir
    · apply Breaks.stale_returned hnone hstands hfits
      rintro ⟨damage', hfault'⟩
      have heq := hfault.symm.trans hfault'
      simp at heq
    · exact .kept hnone hstands hfits ⟨damage, hfault⟩
  | cleared hdir hcases hunder =>
    have hstands : stale [] ≠ some .dir := by rwa [hself]
    refine ⟨?_, fun _ => hunder.trans hbefore.symm⟩
    rintro - (hd | hd | hd | ⟨-, -, -, hat⟩ | ⟨-, hd, -⟩ | ⟨-, hd, -⟩)
    · simp [hnone] at hd
    · simp [hnone] at hd
    · simp [hnone] at hd
    · rcases hcases with hmeets | ⟨-, hno⟩
      · exact not_meets_of_faultAt (by simp [Writing]) hat hmeets
      · exact hno hat
    · exact hstands hd
    · exact hstands hd

theorem aside_counts (stale : Option Node) (hne : live ≠ rescue) :
    (aside_calls live rescue stale).count (.remove_dir_all rescue) = (if stale = none then 0 else 1) ∧
      (aside_calls live rescue stale).count (.rename rescue live) = 0 ∧
      (aside_calls live rescue stale).count (.remove_dir_all live) = 0 := by
  unfold aside_calls
  split
  · simp [hne]
  · simp [hne, Ne.symm hne]

/-- Where the data was not set aside, nothing can break. -/
theorem unmoved_keeps (files : Files) {before stale : Contents} {fault : Option Fault}
    (hne : live ≠ rescue) (hbefore : before [] = some .dir)
    (hearly : Meets fault [] (aside_calls live rescue (stale [])) ∨
      ∃ bytes, stale [] = some (.file bytes)) :
    ¬ Breaks live rescue before stale files fault := by
  obtain ⟨hclean, hrename, hremove⟩ := aside_counts (stale []) hne
  have hfile : stale [] = none ∨ stale [] = some .dir → ∀ {op nth damage},
      fault = some (.call op nth damage) → nth < (aside_calls live rescue (stale [])).count op := by
    intro hstale op nth damage hat
    rcases hearly with ⟨op, nth, damage, hfault, -, hlt⟩ | ⟨bytes, hbytes⟩
    · cases hat.symm.trans hfault
      exact hlt
    · simp [hbytes] at hstale
  rintro (⟨-, hstale, -, ⟨damage, hat⟩, -⟩ | ⟨-, hstale, -, damage, hat⟩ | ⟨-, hstale, -, hat, -⟩ |
    ⟨hd, -⟩ | ⟨hd, -⟩ | ⟨hd, -⟩)
  · have hlt := hfile hstale hat
    omega
  · have hlt := hfile hstale hat
    omega
  · have hlt := hfile hstale hat
    omega
  · simp [hbefore] at hd
  · simp [hbefore] at hd
  · simp [hbefore] at hd

/-- Where the data has been set aside: the same. -/
theorem swap_moved (files : Files) {before stale : Contents} {fault : Option Fault} {d' : Disk}
    (hne : live ≠ rescue) (hbefore : before [] = some .dir)
    (hstale : stale [] = none ∨ stale [] = some .dir) (hmoved : d'.under (r ++ [m]) = before)
    {out : Except AppError Unit × World}
    (hended : Ended (l ++ [n]) (r ++ [m]) live rescue files
      ⟨d', aside_calls live rescue (stale []), fault⟩ out) :
    Swapped files before (out.2.disk.under (l ++ [n])) out.1 ↔
      ¬ Breaks live rescue before stale files fault := by
  have hstands : d'.at_ (r ++ [m]) = some .dir := by rw [← under_self, hmoved, hbefore]
  obtain ⟨hclean, hrename, hremove⟩ := aside_counts (stale []) hne
  cases hended with
  | swapped hfits hmeets hat hunder =>
    refine ⟨?_, fun _ => hunder⟩
    have hat := hat hstands
    rw [hclean] at hat
    rintro - (⟨-, -, -, hfault, -⟩ | ⟨-, -, hno, -⟩ | ⟨-, -, hno, -⟩ | ⟨-, -, hno, -⟩ | ⟨hd, -⟩ | ⟨hd, -⟩)
    · exact hat hfault
    · exact hno hfits
    · exact hno hfits
    · exact hno hfits
    · simp [hbefore] at hd
    · simp [hbefore] at hd
  | uncleaned hfits hmeets hdir hat hunder =>
    rw [hclean] at hat
    constructor
    · rintro hsame (⟨-, -, -, -, hdiff⟩ | ⟨-, -, hno, -⟩ | ⟨-, -, hno, -⟩ |
        ⟨-, -, hno, -⟩ | ⟨hd, -⟩ | ⟨hd, -⟩)
      · exact hdiff (hsame.symm.trans hunder)
      · exact hno hfits
      · exact hno hfits
      · exact hno hfits
      · simp [hbefore] at hd
      · simp [hbefore] at hd
    · intro hno
      have hsame : before = listed files := by
        by_contra hdiff
        exact hno (.uncleaned hbefore hstale hfits hat hdiff)
      exact hunder.trans hsame.symm
  | returned hdir hcases hunder =>
    refine ⟨?_, fun _ => hunder.trans hmoved⟩
    rw [hrename, hremove] at hcases
    rintro - (⟨-, -, hfits, hat, -⟩ | ⟨-, -, -, hat⟩ |
        ⟨-, -, -, hat, hbare, -⟩ | ⟨hd, -⟩ | ⟨hd, -⟩ | ⟨hd, -⟩)
    · rcases hcases with hmeets | ⟨hno, -⟩
      · exact not_meets_of_faultAt (by simp [Writing]) hat hmeets
      · exact hno hfits
    · rcases hcases with hmeets | ⟨-, hno, -⟩
      · exact not_meets_of_faultAt (by simp [Writing]) hat hmeets
      · exact hno hat
    · rcases hcases with hmeets | ⟨-, -, hall⟩
      · exact not_meets_of_faultAt (by simp [Writing]) ⟨_, hat⟩ hmeets
      · exact hbare (hall _ hat)
    · simp [hbefore] at hd
    · simp [hbefore] at hd
    · simp [hbefore] at hd
  | unreturned hdir hfits hat hunder =>
    rw [hrename] at hat
    constructor
    · intro hsame
      have hnone := congrFun (hsame.symm.trans hunder) []
      rw [hbefore] at hnone
      cases hnone
    · intro hno
      exact (hno (.unreturned hbefore hstale hfits hat)).elim
  | @left e w' damage hfits hfault hbare hunder =>
    dsimp only at hfault
    rw [hremove] at hfault
    constructor
    · rintro hsame (⟨-, -, hf, -⟩ | ⟨-, -, -, damage', hat⟩ |
        ⟨-, -, -, hat, -, hdiff⟩ | ⟨hd, -⟩ | ⟨hd, -⟩ | ⟨hd, -⟩)
      · exact hfits hf
      · have heq := hfault.symm.trans hat
        simp at heq
      · have heq := hfault.symm.trans hat
        injection heq with heq
        injection heq with _ _ heq
        apply hdiff
        rw [← heq]
        exact hunder.symm.trans hsame
      · simp [hbefore] at hd
      · simp [hbefore] at hd
      · simp [hbefore] at hd
    · intro hno
      have hsame : thinned (laid (listed []) files) damage.keeps = before := by
        by_contra hdiff
        exact hno (.left hbefore hstale hfits hfault (hbare hstands) hdiff)
      exact hunder.trans hsame
  | cleared hdir _ _ => exact (hdir hstands).elim

theorem asks_live {d : Disk} (h : Spots live rescue l n r m d) (fault : Option Fault) :
    (ask ((faulty sql).is_dir live) : Fs World Bool).outcome (.start d fault) =
      (.ok (decide (d.at_ (l ++ [n]) = some .dir)), .start d fault) := by
  rw [outcome_ask, ← under_self, ← seen_of_way (h.live_way d h.rescue_in)]
  rfl

/-- Live data that is a directory is set aside first. -/
theorem swap_outcome {d : Disk} (h : Spots live rescue l n r m d) (files : Files)
    (fault : Option Fault) :
    (swap_data (faulty sql) live rescue files).outcome (.start d fault) =
      (if d.at_ (l ++ [n]) = some .dir then
        (set_aside (faulty sql) live rescue) >>= fun _ => write_and_clean sql live rescue files
      else write_and_clean sql live rescue files : Fs World Unit).outcome (.start d fault) := by
  rw [swap_data_eq, outcome_bind_ok (asks_live h fault)]
  by_cases hlive : d.at_ (l ++ [n]) = some .dir
  · rw [decide_eq_true hlive, if_pos hlive]
    rfl
  · rw [decide_eq_false hlive, if_neg hlive]
    rfl

/-- The swap from any state: the data is what is listed or what it was exactly when nothing
breaks. -/
theorem swap_iff (files : Files) {d : Disk} (h : Spots live rescue l n r m d)
    (hchecked : ∀ f ∈ files, check_rel_path f.1 = .ok ()) (fault : Option Fault)
    {out : Except AppError Unit × World}
    (hout : (swap_data (faulty sql) live rescue files).outcome (.start d fault) = out) :
    (Swapped files (d.under (l ++ [n])) (out.2.disk.under (l ++ [n])) out.1 ↔
      ¬ Breaks live rescue (d.under (l ++ [n])) (d.under (r ++ [m])) files fault) ∧
      out.2.disk.at_ r = some .dir := by
  have hself := under_self d (l ++ [n])
  have hrescue := under_self d (r ++ [m])
  rw [swap_outcome h files fault] at hout
  by_cases hlive : d.at_ (l ++ [n]) = some .dir
  · rw [if_pos hlive] at hout
    rcases @sets_aside sql _ _ _ _ _ _ _ h hlive fault with
      ⟨e, w', hrun, hunder, hroot, hearly⟩ | ⟨d', hrun, hstale, hspots, hgone, hmoved, -⟩
    · -- Nothing has moved.
      rw [outcome_bind_error hrun] at hout
      subst hout
      rw [← hrescue] at hearly
      exact ⟨⟨fun _ => unmoved_keeps files h.ne (hself.trans hlive) hearly, fun _ => hunder⟩, hroot⟩
    · rw [outcome_bind_ok hrun] at hout
      have hends := @write_and_clean_ends sql live rescue l r n m
        ⟨d', aside_calls live rescue (d.at_ (r ++ [m])), fault⟩ files hspots hchecked hgone
      rw [hout] at hends
      rw [← hrescue] at hends hstale
      exact ⟨swap_moved files h.ne (hself.trans hlive) hstale hmoved hends.1, hends.2⟩
  · rw [if_neg hlive] at hout
    rcases hat : d.at_ (l ++ [n]) with _ | node
    · have hends := @write_and_clean_ends sql live rescue l r n m (.start d fault) files h hchecked hat
      rw [hout] at hends
      exact ⟨swap_fresh files (under_of_free hat) rfl hends.1, hends.2⟩
    · cases node with
      | dir => exact (hlive hat).elim
      | file bytes =>
        obtain ⟨e, w', hrun, hsame⟩ := @write_and_clean_file sql live rescue l r n m
          (.start d fault) files h bytes hat
        rw [hrun] at hout
        subst hout
        have hsame : w'.disk = d := hsame
        refine ⟨⟨?_, fun _ => ?_⟩, ?_⟩
        · rintro - (⟨hd, -⟩ | ⟨hd, -⟩ | ⟨hd, -⟩ | ⟨hd, -⟩ | ⟨hd, -⟩ | ⟨hd, -⟩)
          all_goals simp [hself, hat] at hd
        · exact congrArg (fun x : Disk => x.under (l ++ [n])) hsame
        · rw [hsame, h.rescue_in]

end Swap

/-! ## The registry -/

def AppRegistry.data_place (reg : AppRegistry) (id : String) : Path := join (join reg.root id) "data"

def AppRegistry.rescue_place (reg : AppRegistry) (id : String) : Path :=
  join reg.root ("." ++ id ++ ".data.rescue")

theorem rescue_name {id : String} (hid : check_app_id id = .ok ()) :
    IsEntry ("." ++ id ++ ".data.rescue") := by
  refine ⟨helper_name (accepted_no_slash hid) (.inr (.inr (.inl rfl))), ?_⟩
  simp only [String.toList_append, List.mem_append, not_or]
  refine ⟨⟨by decide, ?_⟩, by decide⟩
  intro hmem
  exact absurd ((accepted_chars hid).2 _ hmem) (by decide)

/-- The data of an installed app and its rescue directory, whatever the accepted id. -/
theorem registry_spots (reg : AppRegistry) {id : String} (hid : check_app_id id = .ok ()) {d : Disk}
    (hdir : d.seen (join reg.root id) [] = some .dir) :
    ∃ l, Spots (reg.data_place id) (reg.rescue_place id) l "data" reg.root
      ("." ++ id ++ ".data.rescue") d := by
  have hentry := rescue_name hid
  have hname : IsName ("." ++ id ++ ".data.rescue") := hentry.1
  have hroot : ∀ d' : Disk, d'.way reg.root = some reg.root := fun d' => way_down d' (root_down reg)
  have hrescue : ∀ d' : Disk, d'.way (reg.rescue_place id) =
      some (reg.root ++ ["." ++ id ++ ".data.rescue"]) := by
    intro d'
    unfold AppRegistry.rescue_place
    rw [paths.join_name _ hname]
    exact way_below (hroot d') (down_names [⟨_, hname⟩])
  have hdata : reg.data_place id = join reg.root id ++ ["data"] :=
    paths.join_name _ (by decide : IsName "data")
  have hparent : parent (reg.data_place id) = join reg.root id := by
    rw [hdata]
    simp [parent]
  have hdown : Down ["data"] := by unfold Down; decide
  -- It is enough to know where the directory of the app is.
  have hspots : ∀ l : Path, (∀ d' : Disk, d'.at_ reg.root = some .dir →
      d'.way (join reg.root id) = some l) → d.at_ reg.root = some .dir →
      Apart (l ++ ["data"]) (reg.root ++ ["." ++ id ++ ".data.rescue"]) →
      ∃ l, Spots (reg.data_place id) (reg.rescue_place id) l "data" reg.root
        ("." ++ id ++ ".data.rescue") d := by
    intro l hway hin hapart
    rw [seen_of_way (hway d hin), under_self] at hdir
    refine ⟨l, ?_, ?_, hrescue, by decide, hentry, hdir, hin, hapart⟩
    · intro d' hd'
      rw [hdata]
      exact way_below (hway d' hd') hdown
    · intro d' hd'
      rw [hparent]
      exact hway d' hd'
  have hlong : ∀ s : String, s.toList.length ≤ 5 → s ≠ "." ++ id ++ ".data.rescue" := by
    intro s hs heq
    rw [heq] at hs
    simp only [String.toList_append, List.length_append] at hs
    have : 6 ≤ ".data.rescue".toList.length := by decide
    omega
  by_cases hdot : id = "."
  · have hjoin : join reg.root id = reg.root := by
      have hc : components id = [] := by rw [hdot]; decide
      have habs : is_absolute id = false := by rw [hdot]; decide
      simp [join, hc, habs]
    apply hspots reg.root
    · intro d' _
      rw [hjoin]
      exact hroot d'
    · rw [hjoin, seen_of_way (hroot d), under_self] at hdir
      exact hdir
    · have hne := hlong "data" (by decide)
      constructor
      · intro hpre
        exact hne (by simpa using hpre)
      · intro hpre
        exact hne (by simpa using Eq.symm (by simpa using hpre))
  by_cases hdots : id = ".."
  · have hjoin : join reg.root id = reg.root ++ [".."] := by
      have hc : components id = [".."] := by rw [hdots]; decide
      have habs : is_absolute id = false := by rw [hdots]; decide
      simp [join, hc, habs]
    have hin : d.at_ reg.root = some .dir := by
      by_contra hno
      have hway : d.way (reg.root ++ [".."]) = none := by
        have hr := hroot d
        unfold Disk.way at hr ⊢
        rw [List.foldlM_append, hr]
        simp [hno]
      unfold Disk.seen at hdir
      rw [hjoin, hway] at hdir
      cases hdir
    apply hspots reg.root.dropLast
    · intro d' hd'
      rw [hjoin]
      exact way_up (hroot d') hd'
    · exact hin
    · have hlast : reg.root.dropLast = reg.data_dir.map FileName.text := by simp [AppRegistry.root]
      rw [hlast]
      unfold AppRegistry.root Apart
      rw [List.append_assoc, List.prefix_append_right_inj, List.prefix_append_right_inj]
      simp
  · have hid' := accepted_name hid hdot hdots
    have hjoin : join reg.root id = reg.root ++ [id] := paths.join_name _ hid'
    have hway : ∀ d' : Disk, d'.way (join reg.root id) = some (reg.root ++ [id]) := by
      intro d'
      rw [hjoin]
      exact way_below (hroot d') (down_names [⟨id, hid'⟩])
    apply hspots (reg.root ++ [id])
    · exact fun d' _ => hway d'
    · rw [seen_of_way (hway d), under_self] at hdir
      exact d.closed.parent _ id (by rw [hdir]; simp)
    · unfold Apart
      rw [List.append_assoc, List.prefix_append_right_inj, List.prefix_append_right_inj]
      have hne : "." ++ id ++ ".data.rescue" ≠ id := by
        intro heq
        have hlength := congrArg (fun s => s.toList.length) heq
        simp only [String.toList_append, List.length_append] at hlength
        have : ".".toList.length = 1 := by decide
        omega
      constructor
      · intro hpre
        exact absurd hpre.length_le (by simp)
      · intro hpre
        obtain ⟨rest, hrest⟩ := hpre
        injection hrest with hhead
        exact hne hhead

/-- The call is not refused: the id and all the paths are accepted, and the app is there. -/
structure GoesAhead (reg : AppRegistry) (id : String) (files : Files) (d : Disk) : Prop where
  id_ok : check_app_id id = .ok ()
  paths_ok : check_all (files.map Prod.fst) = .ok ()
  installed : d.seen (join reg.root id) [] = some .dir

/-- A disk with nothing on it. -/
def empty_disk : Disk where
  at_ q := if q = [] then some .dir else none
  closed :=
    { root := if_pos rfl
      parent := by
        intro p name h
        rw [if_neg (by simp)] at h
        exact (h rfl).elim
      name := by
        intro p name h
        rw [if_neg (by simp)] at h
        exact (h rfl).elim }
  known := [[]]
  listed := by
    intro p h
    split at h
    · rename_i hp
      rw [hp]
      exact List.mem_cons_self
    · exact (h rfl).elim

/-- An app that keeps no data, and a rescue directory of an earlier run. -/
def stale_disk : Disk :=
  (empty_disk.mkdirs ["home", "apps", "notes"] 3 (by decide)).mkdirs
    ["home", "apps", ".notes.data.rescue"] 3 (by decide)

def plain_sqlite : Sqlite := ⟨fun db _ => (.ok (), db)⟩

/-- A file that is to be a directory too. -/
def clashing : Files := [("a", [1]), ("a/b", [2])]

def stale_swap : Except AppError Unit × World :=
  (homeRegistry.restore_data (faulty plain_sqlite) "notes" clashing).outcome (.start stale_disk none)

end pai_apps
