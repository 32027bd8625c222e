-- Integrity of the model store: each record and the file that it names, over runs of calls on a
-- disk that may fail at any of them.
import PersonalAi.ModelStore

open pai_core paths program runs table text

namespace pai_models

/-! ## Integrity -/

namespace Device

/-- The file of the record, where it is there, has the recorded hash, and this is the hash that
the manifest pins. -/
def Good (sha256 : Bytes → String) (w : Device) (slug : String) (row : Row) : Prop :=
  (∀ p content, row.path = some p → w.file p = some content → row.sha256 = some (sha256 content)) ∧
    ∀ pin, w.pins.lookup slug = some (some pin) → row.sha256 = some pin

def Kept (sha256 : Bytes → String) (w : Device) : Prop :=
  ∀ slug row, w.rows.lookup slug = some row → row.installed = true → w.Good sha256 slug row

/-- No installed slug but `own` has its file at this path. -/
def Apart (own : Option String) (w : Device) (p : Path) : Prop :=
  ∀ t ∈ w.rows.keys, some t ≠ own → ∀ q ∈ w.installed_path t, resolve q ≠ resolve p

/-- The same records, and the same files for all of them but that of `own`. -/
structure Same (own : Option String) (w₀ w : Device) : Prop where
  rows : w.rows = w₀.rows
  pins : w.pins = w₀.pins
  files : ∀ t q, some t ≠ own → w₀.installed_path t = some q → w.file q = w₀.file q

/-- The same records and files. -/
structure Untouched (w₀ w : Device) : Prop where
  rows : w.rows = w₀.rows
  pins : w.pins = w₀.pins
  files : w.files = w₀.files

variable {own : Option String} {w₀ w : Device} {p : Path}

theorem Untouched.same (h : Untouched w₀ w) : Same own w₀ w :=
  ⟨h.rows, h.pins, fun _ _ _ _ => by simp [file, h.files]⟩

theorem Same.weaken (h : Same none w₀ w) : Same own w₀ w :=
  ⟨h.rows, h.pins, fun t q _ hq => h.files t q (by simp) hq⟩

theorem same_refl : Same own w w := ⟨rfl, rfl, fun _ _ _ _ => rfl⟩

theorem mem_keys_of_path {t : String} {q : Path} (h : w.installed_path t = some q) :
    t ∈ w.rows.keys := by
  unfold installed_path at h
  obtain ⟨row, hrow, -⟩ := Option.bind_eq_some_iff.mp h
  exact AList.mem_keys.mp (AList.lookup_isSome.mp (by rw [hrow]; rfl))

theorem Apart.ne {t : String} {q : Path} (h : Apart own w p) (ht : some t ≠ own)
    (hq : w.installed_path t = some q) : resolve q ≠ resolve p :=
  h t (mem_keys_of_path hq) ht q hq

@[simp] theorem file_put (q : Path) (content : Bytes) :
    (w.put p content).file q = if resolve q = resolve p then some content else w.file q := by
  simp [file, put, lookup_insert_if]

@[simp] theorem file_drop (q : Path) :
    (w.drop p).file q = if resolve q = resolve p then none else w.file q := by
  simp [file, drop, lookup_erase_if]

theorem Same.put (h : Same own w₀ w) (hp : Apart own w₀ p) (content : Bytes) :
    Same own w₀ (w.put p content) := by
  refine ⟨h.rows, h.pins, fun t q ht hq => ?_⟩
  rw [file_put, if_neg (hp.ne ht hq)]
  exact h.files t q ht hq

theorem Same.drop (h : Same own w₀ w) (hp : Apart own w₀ p) : Same own w₀ (w.drop p) := by
  refine ⟨h.rows, h.pins, fun t q ht hq => ?_⟩
  rw [file_drop, if_neg (hp.ne ht hq)]
  exact h.files t q ht hq

theorem next_untouched (w : Device) : Untouched w w.next.2 := by
  unfold next
  split <;> exact ⟨rfl, rfl, rfl⟩

theorem Same.next (h : Same own w₀ w) : Same own w₀ w.next.2 := by
  have hn := next_untouched w
  exact ⟨hn.rows.trans h.rows, hn.pins.trans h.pins, fun t q ht hq => by
    rw [file, hn.files]; exact h.files t q ht hq⟩

/-- A record is as good as it was where its file is the same. -/
theorem Same.good {sha256 : Bytes → String} (h : Same own w₀ w) (hkept : w₀.Kept sha256)
    {t : String} {row : Row} (ht : some t ≠ own) (hrow : w.rows.lookup t = some row)
    (hin : row.installed = true) : w.Good sha256 t row := by
  rw [h.rows] at hrow
  obtain ⟨hfile, hpin⟩ := hkept t row hrow hin
  refine ⟨fun p content hp hcontent => hfile p content hp ?_, fun pin hpinned => hpin pin ?_⟩
  · rw [← h.files t p ht (by simp [installed_path, hrow, hin, hp])]
    exact hcontent
  · rwa [← h.pins]

theorem Same.kept {sha256 : Bytes → String} (h : Same none w₀ w) (hkept : w₀.Kept sha256) :
    w.Kept sha256 := fun _ _ hrow hin => h.good hkept (by simp) hrow hin

/-! ## What each call of the disk does -/

/-- A write is done, or it fails and leaves the file alone or something in it. -/
theorem write_cases (w : Device) (p : Path) (content : Bytes) : ∃ w', Untouched w w' ∧
    (w.write p content = (.ok (), w'.put p content) ∨
      w.write p content = (.error (.Storage "write"), w') ∨
      ∃ left, w.write p content = (.error (.Storage "write"), w'.put p left)) := by
  refine ⟨w.next.2, next_untouched w, ?_⟩
  simp only [write]
  split
  · exact .inr (.inl rfl)
  · split
    · exact .inl rfl
    · exact .inr (.inl rfl)
    · exact .inr (.inr ⟨_, rfl⟩)

theorem rename_cases (w : Device) (old new : Path) : ∃ w', Untouched w w' ∧
    ((∃ content, w.file old = some content ∧
        w.rename old new = (.ok (), (w'.drop old).put new content)) ∨
      w.rename old new = (.error (.Storage "rename"), w')) := by
  refine ⟨w.next.2, next_untouched w, ?_⟩
  have hfile : w.next.2.file old = w.file old := by simp [file, (next_untouched w).files]
  simp only [rename]
  split
  · rename_i content _ hcontent
    split
    · exact .inl ⟨content, hfile ▸ hcontent, rfl⟩
    · exact .inr rfl
  · exact .inr rfl

theorem remove_file_cases (w : Device) (p : Path) : ∃ w', Untouched w w' ∧
    (w.remove_file p = (.ok (), w'.drop p) ∨ w.remove_file p = (.error (.Storage "remove"), w')) := by
  refine ⟨w.next.2, next_untouched w, ?_⟩
  simp only [remove_file]
  split
  · exact .inl rfl
  · exact .inr rfl

theorem read_cases (w : Device) (p : Path) : ∃ w', Untouched w w' ∧
    ((∃ content, w.file p = some content ∧ w.read p = (.ok content, w')) ∨
      w.read p = (.error (.Storage "read"), w')) := by
  refine ⟨w.next.2, next_untouched w, ?_⟩
  have hfile : w.next.2.file p = w.file p := by simp [file, (next_untouched w).files]
  simp only [read]
  split
  · rename_i content _ hcontent
    exact .inl ⟨content, hfile ▸ hcontent, rfl⟩
  · exact .inr rfl

theorem create_dir_all_untouched (w : Device) (p : Path) : Untouched w (w.create_dir_all p).2 := by
  have hn := next_untouched w
  simp only [create_dir_all]
  split
  · exact ⟨hn.rows, hn.pins, hn.files⟩
  · exact hn

theorem Untouched.file_eq (h : Untouched w₀ w) (q : Path) : w.file q = w₀.file q := by
  simp [file, h.files]

theorem Untouched.trans {w₁ : Device} (h : Untouched w₀ w₁) (h' : Untouched w₁ w) :
    Untouched w₀ w := ⟨h'.rows.trans h.rows, h'.pins.trans h.pins, h'.files.trans h.files⟩

theorem Same.of_untouched {w₁ : Device} (h : Same own w₀ w₁) (h' : Untouched w₁ w) :
    Same own w₀ w :=
  ⟨h'.rows.trans h.rows, h'.pins.trans h.pins,
    fun t q ht hq => (h'.file_eq q).trans (h.files t q ht hq)⟩

theorem ends_write (hp : Apart own w₀ p) (content : Bytes) :
    Ends (Same own w₀) (consult (·.write p content) : Call Unit)
      (fun _ w => Same own w₀ w ∧ w.file p = some content) (Same own w₀) := by
  refine ends_consult ?_ ?_
  · intro w a w' hsame hrun
    obtain ⟨v, hv, h | h | ⟨left, h⟩⟩ := write_cases w p content
    · rw [h] at hrun
      cases hrun
      exact ⟨(hsame.of_untouched hv).put hp _, by simp⟩
    · rw [h] at hrun
      cases hrun
    · rw [h] at hrun
      cases hrun
  · intro w e w' hsame hrun
    obtain ⟨v, hv, h | h | ⟨left, h⟩⟩ := write_cases w p content
    · rw [h] at hrun
      cases hrun
    · rw [h] at hrun
      cases hrun
      exact hsame.of_untouched hv
    · rw [h] at hrun
      cases hrun
      exact (hsame.of_untouched hv).put hp _

/-- `own'` may be the slug that the new name is for. -/
theorem ends_rename {own' : Option String} {old new : Path} {content : Bytes}
    (hweak : ∀ w, Same own w₀ w → Same own' w₀ w) (hold : Apart own w₀ old)
    (hnew : Apart own' w₀ new) :
    Ends (fun w => Same own w₀ w ∧ w.file old = some content)
      (consult (·.rename old new) : Call Unit)
      (fun _ w => Same own' w₀ w ∧ w.file new = some content) (Same own w₀) := by
  refine ends_consult ?_ ?_
  · rintro w a w' ⟨hsame, hfile⟩ hrun
    obtain ⟨v, hv, ⟨moved, hmoved, h⟩ | h⟩ := rename_cases w old new
    · rw [h] at hrun
      cases hrun
      obtain rfl : content = moved := Option.some.inj (hfile.symm.trans hmoved)
      exact ⟨(hweak _ ((hsame.of_untouched hv).drop hold)).put hnew _, by simp⟩
    · rw [h] at hrun
      cases hrun
  · rintro w e w' ⟨hsame, -⟩ hrun
    obtain ⟨v, hv, ⟨moved, -, h⟩ | h⟩ := rename_cases w old new
    · rw [h] at hrun
      cases hrun
    · rw [h] at hrun
      cases hrun
      exact hsame.of_untouched hv

theorem ends_remove_file {P : Device → Prop} (hP : ∀ v w, Untouched v w → P v → P w)
    (hdrop : ∀ w, P w → P (w.drop p)) :
    Ends P (consult (·.remove_file p) : Call Unit) (fun _ => P) P := by
  refine ends_consult ?_ ?_
  · intro w a w' hw hrun
    obtain ⟨v, hv, h | h⟩ := remove_file_cases w p
    · rw [h] at hrun
      cases hrun
      exact hdrop v (hP w v hv hw)
    · rw [h] at hrun
      cases hrun
  · intro w e w' hw hrun
    obtain ⟨v, hv, h | h⟩ := remove_file_cases w p
    · rw [h] at hrun
      cases hrun
    · rw [h] at hrun
      cases hrun
      exact hP _ _ hv hw

theorem ends_copy {src target : Path} (htarget : ∀ content, w₀.file src = some content →
    Apart own w₀ target) :
    Ends (Untouched w₀) (consult (·.copy src target) : Call Unit)
      (fun _ w => Same own w₀ w ∧ ∃ content, w₀.file src = some content ∧
        w.file target = some (copied src target content)) (Same own w₀) := by
  intro w hw
  rcases hfile : w₀.file src with _ | content
  · have hrun : w.copy src target = (.error (.Storage "copy"), w) := by
      simp [copy, hw.file_eq, hfile]
    rw [outcome_consult, hrun]
    refine ⟨fun a w' h => (by cases h), ?_⟩
    rintro e w' h
    cases h
    exact hw.same
  · have hrun : w.copy src target = w.write target (copied src target content) := by
      simp [copy, hw.file_eq, hfile]
    rw [outcome_consult, hrun]
    refine ends_mono (ends_write (htarget content hfile) _) (fun _ h => h) ?_ (fun _ h => h) w hw.same
    exact fun _ w' h => ⟨h.1, content, rfl, h.2⟩

/-- A call that leaves records and files alone keeps what only depends on them. -/
theorem ends_create_dir_all {P : Device → Prop} (hP : ∀ v w, Untouched v w → P v → P w) :
    Ends P (consult (·.create_dir_all p) : Call Unit) (fun _ => P) P := by
  refine ends_consult ?_ ?_
  · intro w a w' hw hrun
    have hsame := create_dir_all_untouched w p
    rw [hrun] at hsame
    exact hP _ _ hsame hw
  · intro w e w' hw hrun
    have hsame := create_dir_all_untouched w p
    rw [hrun] at hsame
    exact hP _ _ hsame hw

theorem ends_read {P : Device → Prop} (hP : ∀ v w, Untouched v w → P v → P w) :
    Ends P (consult (·.read p) : Call Bytes) (fun content w => P w ∧ w.file p = some content) P := by
  refine ends_consult ?_ ?_
  · intro w a w' hw hrun
    obtain ⟨v, hv, ⟨content, hcontent, h⟩ | h⟩ := read_cases w p
    · rw [h] at hrun
      cases hrun
      exact ⟨hP _ _ hv hw, (hv.file_eq p).trans hcontent⟩
    · rw [h] at hrun
      cases hrun
  · intro w e w' hw hrun
    obtain ⟨v, hv, ⟨content, hcontent, h⟩ | h⟩ := read_cases w p
    · rw [h] at hrun
      cases hrun
    · rw [h] at hrun
      cases hrun
      exact hP _ _ hv hw

/-! ## What each function does -/

section Functions
variable {sha256 : Bytes → String} {to_vec_pretty : ModelPackIndex → Bytes}
  {from_slice : Bytes → Option ModelPackIndex} {dir : Path}

theorem ends_file_sha256 {P : Device → Prop} (hP : ∀ v w, Untouched v w → P v → P w) :
    Ends P (file_sha256 sha256 p)
      (fun digest w => P w ∧ ∃ content, w.file p = some content ∧ digest = sha256 content) P := by
  refine ends_bind (ends_read hP) fun content => ends_pure ?_
  rintro w ⟨hw, hcontent⟩
  exact ⟨hw, content, hcontent, rfl⟩

theorem ends_read_pack_index {P R : Device → Prop} (hP : ∀ v w, Untouched v w → P v → P w) :
    Ends P (read_pack_index from_slice dir)
      (fun idx w => P w ∧ ∀ i ∈ idx, ∃ bytes, w.file (dir ++ [PACK_INDEX_FILE]) = some bytes ∧
        from_slice bytes = some i) R := by
  have hread : Ends P (attempt (consult (·.read (dir ++ [PACK_INDEX_FILE])) : Call Bytes))
      (fun r w => P w ∧ ∀ bytes, r = .ok bytes → w.file (dir ++ [PACK_INDEX_FILE]) = some bytes)
      R := by
    intro w hw
    rw [outcome_attempt, outcome_consult]
    refine ⟨?_, fun e w' hrun => by cases hrun⟩
    rintro r w' hrun
    cases hrun
    obtain ⟨v, hv, ⟨content, hcontent, h⟩ | h⟩ := read_cases w (dir ++ [PACK_INDEX_FILE])
    · rw [h]
      refine ⟨hP _ _ hv hw, fun bytes hbytes => ?_⟩
      cases hbytes
      exact (hv.file_eq _).trans hcontent
    · rw [h]
      exact ⟨hP _ _ hv hw, fun bytes hbytes => by cases hbytes⟩
  refine ends_bind hread fun r => ?_
  rcases r with e | bytes
  · exact ends_pure fun w hw => ⟨hw.1, fun i hi => by cases hi⟩
  · exact ends_pure fun w hw => ⟨hw.1, fun i hi => ⟨bytes, hw.2 bytes rfl, hi⟩⟩

theorem ends_write_pack_index (index : ModelPackIndex) (htmp : Apart own w₀ (index_tmp dir))
    (hindex : Apart own w₀ (dir ++ [PACK_INDEX_FILE])) :
    Ends (Same own w₀) (write_pack_index to_vec_pretty dir index) (fun _ => Same own w₀)
      (Same own w₀) := by
  refine ends_bind (ends_write htmp _) fun _ => ?_
  exact ends_mono (ends_rename (fun _ h => h) htmp hindex) (fun _ h => h) (fun _ _ h => h.1)
    (fun _ h => h)

theorem ends_upsert_pack_index (m : ModelManifest) (htmp : Apart own w₀ (index_tmp dir))
    (hindex : Apart own w₀ (dir ++ [PACK_INDEX_FILE])) :
    Ends (Same own w₀) (upsert_pack_index to_vec_pretty from_slice dir m) (fun _ => Same own w₀)
      (Same own w₀) := by
  refine ends_bind (ends_read_pack_index fun _ _ hv h => h.of_untouched hv) fun idx => ?_
  exact ends_mono (ends_write_pack_index _ htmp hindex) (fun _ h => h.1) (fun _ _ h => h)
    (fun _ h => h)

/-- An index is written only where it lists the slug. -/
theorem ends_remove_from_pack_index {P R : Device → Prop} {slug : String}
    (hP : ∀ v w, Untouched v w → P v → P w) (hsame : ∀ w, P w → Same own w₀ w)
    (hlisted : ∀ w, P w → ∀ bytes idx, w.file (dir ++ [PACK_INDEX_FILE]) = some bytes →
      from_slice bytes = some idx → (∃ e ∈ idx.models, e.slug = slug) →
      Apart own w₀ (index_tmp dir) ∧ Apart own w₀ (dir ++ [PACK_INDEX_FILE])) :
    Ends P (remove_from_pack_index to_vec_pretty from_slice dir slug) (fun _ => Same own w₀) R := by
  refine ends_bind (ends_read_pack_index hP) fun found => ?_
  rcases found with _ | idx
  · exact ends_pure fun w hw => hsame w hw.1
  · simp only [doWhen]
    split
    · rename_i hshorter
      intro w hw
      obtain ⟨bytes, hbytes, hidx⟩ := hw.2 idx rfl
      have hin : ∃ e ∈ idx.models, e.slug = slug := by simpa using hshorter
      obtain ⟨htmp, hindex⟩ := hlisted w hw.1 bytes idx hbytes hidx hin
      exact ends_ignore (ends_write_pack_index _ htmp hindex) w (hsame w hw.1)
    · exact ends_pure fun w hw => hsame w hw.1

end Functions

/-- The files that an installation makes are nobody else's: the file itself, its unfinished
part, and the pack index, which is another file than the model's. -/
structure Free (slug : String) (dest_dir dest : Path) (w : Device) : Prop where
  file : Apart (some slug) w dest
  part : Apart none w (part_of dest)
  index : Apart (some slug) w (dest_dir ++ [PACK_INDEX_FILE])
  index_tmp : Apart (some slug) w (pai_models.index_tmp dest_dir)
  not_index : resolve dest ≠ resolve (dest_dir ++ [PACK_INDEX_FILE])
  not_index_tmp : resolve dest ≠ resolve (pai_models.index_tmp dest_dir)

section Installing
variable {sha256 : Bytes → String} {to_vec_pretty : ModelPackIndex → Bytes}
  {from_slice : Bytes → Option ModelPackIndex} {slug : String} {m : ModelManifest}
  {dest_dir dest : Path} {content : Bytes}

theorem mark_installed_path (w : Device) (path : Path) (digest : String) (pin : Option String)
    (t : String) : (w.mark slug path digest pin).installed_path t =
      if t = slug then some path else w.installed_path t := by
  simp only [installed_path, mark, lookup_insert_if]
  split <;> rfl

/-- A record of a file with its hash is good, and the others stay so. -/
theorem Same.kept_mark (h : Same (some slug) w₀ w) (hkept : w₀.Kept sha256)
    (hfile : w.file dest = some content) (hpinned : pinned m (sha256 content) = true) :
    (w.mark slug dest (sha256 content) m.sha256).Kept sha256 := by
  intro t row hrow hin
  by_cases ht : t = slug
  · subst ht
    obtain rfl : (⟨true, some dest, some (sha256 content)⟩ : Row) = row := by
      simpa [mark] using hrow
    refine ⟨fun p c hp hc => ?_, fun pin hpin => ?_⟩
    · cases hp
      exact congrArg (some ∘ sha256) (Option.some.inj (hfile.symm.trans hc))
    · have hm : m.sha256 = some pin := by simpa [mark] using hpin
      simpa [pinned, hm] using hpinned
  · rw [mark, lookup_insert_if, if_neg ht] at hrow
    obtain ⟨hgood, hpin⟩ := h.good hkept (by simpa using ht) hrow hin
    refine ⟨hgood, fun pin hp => hpin pin ?_⟩
    simpa [mark, lookup_insert_if, ht] using hp

theorem Apart.of_mark (hp : Apart (some slug) w p) (hdest : resolve dest ≠ resolve p)
    (digest : String) (pin : Option String) : Apart none (w.mark slug dest digest pin) p := by
  intro t _ _ q hq
  rw [mark_installed_path] at hq
  split at hq
  · cases hq
    exact hdest
  · exact hp.ne (by simpa using ‹¬ t = slug›) hq

theorem Same.apart (h : Same own w₀ w) (hp : Apart own w₀ p) : Apart own w p := by
  intro t _ ht q hq
  rw [installed_path, h.rows] at hq
  exact hp.ne ht hq

/-- Where no record is made, no record is there. -/
theorem ends_mark_installed {R : Device → Prop} (hkept : w₀.Kept sha256)
    (hfree : Free slug dest_dir dest w₀) (hpinned : pinned m (sha256 content) = true) :
    Ends (fun w => Same (some slug) w₀ w ∧ w.file dest = some content)
      (mark_installed slug dest (sha256 content) m.sha256)
      (fun _ w => w.Kept sha256 ∧ Apart none w (pai_models.index_tmp dest_dir) ∧
        Apart none w (dest_dir ++ [PACK_INDEX_FILE])) R := by
  refine ends_consult ?_ (fun w e w' _ hrun => by cases hrun)
  rintro w a w' ⟨hsame, hfile⟩ hrun
  cases hrun
  have htmp := hsame.apart hfree.index_tmp
  have hindex := hsame.apart hfree.index
  dsimp only
  split
  · exact ⟨hsame.kept_mark hkept hfile hpinned, htmp.of_mark hfree.not_index_tmp _ _,
      hindex.of_mark hfree.not_index _ _⟩
  · rename_i habsent
    have hne : ∀ t row, w.rows.lookup t = some row → some t ≠ some slug := by
      rintro t row hrow ht
      cases ht
      simp [hrow] at habsent
    have hall : ∀ p, Apart (some slug) w p → Apart none w p := by
      intro p hp t _ _ q hq
      obtain ⟨row, hrow, -⟩ := Option.bind_eq_some_iff.mp hq
      exact hp.ne (hne t row hrow) hq
    exact ⟨fun t row hrow hin => hsame.good hkept (hne t row hrow) hrow hin, hall _ htmp,
      hall _ hindex⟩

theorem Kept.enter (hkept : w.Kept sha256) (m : ModelManifest) : (w.enter m).Kept sha256 := by
  unfold Device.enter
  split
  · exact hkept
  · intro t row hrow hin
    rw [lookup_insert_if] at hrow
    split at hrow
    · cases hrow
      cases hin
    · exact hkept t row hrow hin

theorem enter_file (w : Device) (m : ModelManifest) (q : Path) : (w.enter m).file q = w.file q := by
  unfold Device.enter
  split <;> rfl

/-- The end of an installation, from the unfinished part on. -/
theorem ends_finish (hkept : w₀.Kept sha256) (hfree : Free slug dest_dir dest w₀)
    (hpinned : pinned m (sha256 content) = true) :
    Ends (fun w => Same none w₀ w ∧ w.file (part_of dest) = some content)
      (do
        consult (·.rename (part_of dest) dest)
        mark_installed slug dest (sha256 content) m.sha256
        upsert_pack_index to_vec_pretty from_slice dest_dir m
        return dest : Call Path)
      (fun _ w => w.Kept sha256) (fun w => w.Kept sha256) := by
  refine ends_bind (ends_mono (ends_rename (fun _ h => h.weaken) hfree.part hfree.file)
    (fun _ h => h) (fun _ _ h => h) (fun _ h => h.kept hkept)) fun _ => ?_
  refine ends_bind (ends_mark_installed hkept hfree hpinned) fun _ => ?_
  refine ends_bind (Q := fun _ w => w.Kept sha256) ?_ fun _ => ends_pure fun _ h => h
  rintro w ⟨hw, htmp, hindex⟩
  exact ends_mono (ends_upsert_pack_index m htmp hindex) (fun _ h => h)
    (fun _ _ h => h.kept hw) (fun _ h => h.kept hw) w same_refl

theorem ends_place {bytes : Bytes} (hkept : w₀.Kept sha256)
    (hfree : pinned m (sha256 bytes) = true → Free slug dest_dir (join dest_dir m.filename) w₀) :
    Ends (Untouched w₀) (place sha256 to_vec_pretty from_slice slug m bytes dest_dir)
      (fun _ w => w.Kept sha256) (fun w => w.Kept sha256) := by
  have hfail : ∀ w, Untouched w₀ w → w.Kept sha256 := fun _ h => h.same.kept hkept
  refine ends_bind (ends_mono (ends_create_dir_all fun _ _ hv h => h.trans hv) (fun _ h => h)
    (fun _ _ h => h) hfail) fun _ => ?_
  dsimp only
  split
  · exact ends_fail hfail
  · rename_i hdigest
    have hpinned : pinned m (sha256 bytes) = true := by simpa using hdigest
    refine ends_bind (ends_mono (ends_write (hfree hpinned).part bytes) (fun _ h => h.same)
      (fun _ _ h => h) (fun _ h => h.kept hkept)) fun _ => ?_
    exact ends_finish hkept (hfree hpinned) hpinned

/-- What a copy touches is free: the unfinished part, and the rest if the hash is right. -/
def CopyFree (sha256 : Bytes → String) (slug : String) (m : ModelManifest) (src dest_dir : Path)
    (w : Device) : Prop :=
  ∀ content ∈ w.file src, Apart none w (part_of (join dest_dir m.filename)) ∧
    (pinned m (sha256 (copied src (part_of (join dest_dir m.filename)) content)) = true →
      Free slug dest_dir (join dest_dir m.filename) w)

theorem ends_copy_to {src : Path} (hkept : w₀.Kept sha256)
    (hfree : CopyFree sha256 slug m src dest_dir w₀) :
    Ends (Untouched w₀) (copy_to sha256 to_vec_pretty from_slice slug m src dest_dir)
      (fun _ w => w.Kept sha256) (fun w => w.Kept sha256) := by
  refine ends_bind (ends_mono (ends_create_dir_all fun _ _ hv h => h.trans hv) (fun _ h => h)
    (fun _ _ h => h) (fun _ h => h.same.kept hkept)) fun _ => ?_
  refine ends_bind (ends_mono (@ends_copy none w₀ _ _ fun content hc => (hfree content hc).1)
    (fun _ h => h) (fun _ _ h => h) (fun _ h => h.kept hkept)) fun _ => ?_
  intro w hw
  obtain ⟨-, content, hsrc, -⟩ := id hw
  obtain ⟨hpart, hrest⟩ := hfree content hsrc
  refine ends_bind (ends_mono (ends_file_sha256 (P := fun w => Same none w₀ w ∧
      w.file (part_of (join dest_dir m.filename)) =
        some (copied src (part_of (join dest_dir m.filename)) content)) ?_)
    (fun _ h => h) (fun _ _ h => h) (fun _ h => h.1.kept hkept)) (fun digest => ?_) w ?_
  · exact fun v w hv h => ⟨h.1.of_untouched hv, (hv.file_eq _).trans h.2⟩
  · intro w hw
    obtain ⟨⟨hsame, hfile⟩, read, hread, rfl⟩ := hw
    obtain rfl := Option.some.inj (hread.symm.trans hfile)
    dsimp only
    split
    · refine ends_bind (ends_ignore (ends_remove_file (P := Same none w₀)
        (fun _ _ hv h => h.of_untouched hv) fun _ h => h.drop hpart))
        (fun _ => ends_fail fun _ h => h.kept hkept) w hsame
    · rename_i hdigest
      have hpinned := by simpa using hdigest
      exact ends_finish hkept (hrest hpinned) hpinned w ⟨hsame, hfile⟩
  · obtain ⟨hsame, content', hsrc', hfile⟩ := hw
    obtain rfl := Option.some.inj (hsrc.symm.trans hsrc')
    exact ⟨hsame, hfile⟩

theorem ends_install_to {download : Except String Bytes} (hkept : w₀.Kept sha256)
    (hcopy : ∀ cur ∈ w₀.found slug, cur ≠ join dest_dir m.filename →
      CopyFree sha256 slug m cur dest_dir w₀)
    (hplace : w₀.found slug = none → m.url.isSome → ∀ bytes ∈ download.toOption,
      pinned m (sha256 bytes) = true → Free slug dest_dir (join dest_dir m.filename) w₀) :
    Ends (· = w₀) (install_to sha256 to_vec_pretty from_slice slug m dest_dir download)
      (fun _ w => w.Kept sha256) (fun w => w.Kept sha256) := by
  have hstart : Untouched w₀ w₀ := ⟨rfl, rfl, rfl⟩
  refine ends_bind (ends_ask (Q := fun here w => here = w₀.found slug ∧ w = w₀) ?_) fun here => ?_
  · rintro w rfl
    exact ⟨rfl, rfl⟩
  rintro w ⟨rfl, rfl⟩
  rcases hhere : w.found slug with _ | cur
  · rcases hurl : m.url with _ | url
    · exact ends_fail (fun _ h => h) w hkept
    · refine ends_bind (ends_mono (ends_create_dir_all fun _ _ hv h => h.trans hv) (fun _ h => h)
        (fun _ _ h => h) (fun _ h => h.same.kept hkept)) (fun _ => ?_) w hstart
      rcases download with e | bytes
      · exact ends_fail fun _ h => h.same.kept hkept
      · exact ends_place hkept (hplace hhere (by simp [hurl]) bytes rfl)
  · dsimp only
    split
    · exact ends_pure (fun _ h => h) w hkept
    · exact ends_copy_to hkept (hcopy cur hhere ‹_›) w hstart

/-- A scan makes no file, and a record that it makes is of a file with its hash. -/
theorem ends_adopt {path pack_root : Path} :
    Ends (Kept sha256) (adopt sha256 m path pack_root) (fun _ => Kept sha256) (Kept sha256) := by
  have huntouched : ∀ v w : Device, Untouched v w → v.Kept sha256 → w.Kept sha256 :=
    fun _ _ h hv => h.same.kept hv
  refine ends_bind (ends_ask (Q := fun _ => Kept sha256) fun _ h => h) fun missing => ?_
  split
  · exact ends_pure fun _ h => h
  · refine ends_bind (ends_file_sha256 huntouched) fun digest => ?_
    split
    · exact ends_pure fun _ h => h.1
    · rename_i hdigest
      have hpinned := by simpa using hdigest
      refine ends_bind (Q := fun _ w => w.Kept sha256 ∧ ∃ content, w.file path = some content ∧
        digest = sha256 content) ?_ fun _ => ?_
      · refine ends_consult ?_ (fun w e w' _ hrun => by cases hrun)
        rintro w a w' ⟨hw, hfile⟩ hrun
        cases hrun
        exact ⟨hw.enter m, by rwa [enter_file]⟩
      · refine ends_bind (Q := fun _ => Kept sha256) ?_ fun _ => ends_pure fun _ h => h
        refine ends_consult ?_ (fun w e w' _ hrun => by cases hrun)
        rintro w a w' ⟨hw, content, hfile, rfl⟩ hrun
        cases hrun
        dsimp only
        split
        · exact same_refl.kept_mark hw hfile hpinned
        · exact hw

theorem ends_adopt_all (pack_root : Path) (ms : List (ModelManifest × Path)) :
    Ends (Kept sha256) (adopt_all sha256 pack_root ms) (fun _ => Kept sha256) (Kept sha256) := by
  induction ms with
  | nil => exact ends_pure fun _ h => h
  | cons entry rest ih =>
    refine ends_bind ends_adopt fun _ => ?_
    exact ends_bind ih fun _ => ends_pure fun _ h => h

theorem ends_scan_roots (listed : Path → Option (List String)) (roots : List Path) :
    Ends (Kept sha256) (scan_roots sha256 from_slice listed roots) (fun _ => Kept sha256)
      (Kept sha256) := by
  induction roots with
  | nil => exact ends_pure fun _ h => h
  | cons root rest ih =>
    refine ends_bind (Q := fun _ => Kept sha256) ?_ fun _ =>
      ends_bind ih fun _ => ends_pure fun _ h => h
    refine ends_bind (ends_ask (Q := fun _ => Kept sha256) fun _ h => h) fun missing => ?_
    split
    · exact ends_pure fun _ h => h
    · refine ends_bind (ends_read_pack_index fun _ _ h hv => h.same.kept hv) fun idx => ?_
      rcases idx with _ | idx
      · exact ends_mono (ends_adopt_all _ _) (fun _ h => h.1) (fun _ _ h => h) (fun _ h => h)
      · exact ends_mono (ends_adopt_all _ _) (fun _ h => h.1) (fun _ _ h => h) (fun _ h => h)

/-- What a removal touches is free: the file, and the index of its directory if this lists the
slug. -/
def RemoveFree (from_slice : Bytes → Option ModelPackIndex) (slug : String) (w : Device) : Prop :=
  ∀ path ∈ w.installed_path slug, Apart (some slug) w path ∧
    (path ≠ [] → ∀ bytes ∈ w.file (parent path ++ [PACK_INDEX_FILE]), ∀ idx ∈ from_slice bytes,
      (∃ e ∈ idx.models, e.slug = slug) →
        Apart (some slug) w (pai_models.index_tmp (parent path)) ∧
          Apart (some slug) w (parent path ++ [PACK_INDEX_FILE]))

/-- The records are good, and the files of the other installed slugs are as they were. -/
def Spared (sha256 : Bytes → String) (slug : String) (w₀ w : Device) : Prop :=
  w.Kept sha256 ∧ ∀ t q, t ≠ slug → w₀.installed_path t = some q → w.file q = w₀.file q

theorem Same.spared_unmark (h : Same (some slug) w₀ w) (hkept : w₀.Kept sha256) :
    Spared sha256 slug w₀ (w.unmark slug) := by
  have hfiles : ∀ t q, t ≠ slug → w₀.installed_path t = some q → w.file q = w₀.file q :=
    fun t q ht hq => h.files t q (by simpa using ht) hq
  unfold unmark
  split
  · refine ⟨fun t row hrow hin => ?_, hfiles⟩
    by_cases ht : t = slug
    · subst ht
      simp only [AList.lookup_insert, Option.some.injEq] at hrow
      cases hrow
      cases hin
    · rw [lookup_insert_if, if_neg ht] at hrow
      exact h.good hkept (by simpa using ht) hrow hin
  · rename_i habsent
    refine ⟨fun t row hrow hin => h.good hkept ?_ hrow hin, hfiles⟩
    rintro ht
    cases ht
    simp [habsent] at hrow

theorem ends_uninstall (hkept : w₀.Kept sha256) (hfree : RemoveFree from_slice slug w₀) :
    Ends (· = w₀) (uninstall to_vec_pretty from_slice slug) (fun _ => Spared sha256 slug w₀)
      (Spared sha256 slug w₀) := by
  have hunmark : ∀ u : Unit, Ends (Same (some slug) w₀) (update (·.unmark slug))
      (fun _ => Spared sha256 slug w₀) (Spared sha256 slug w₀) := by
    refine fun _ => ends_consult ?_ (fun w e w' _ hrun => by cases hrun)
    rintro w a w' hsame hrun
    cases hrun
    exact hsame.spared_unmark hkept
  refine ends_bind (ends_ask (Q := fun found w => found = w₀.installed_path slug ∧ w = w₀) ?_)
    fun found => ?_
  · rintro w rfl
    exact ⟨rfl, rfl⟩
  rintro w ⟨rfl, rfl⟩
  rcases hpath : w.installed_path slug with _ | path
  · exact hunmark () w same_refl
  · obtain ⟨hown, hindex⟩ := hfree path hpath
    let Fewer : Device → Prop := fun v =>
      Same (some slug) w v ∧ ∀ p c, v.file p = some c → w.file p = some c
    have hkeep : ∀ u v, Untouched u v → Fewer u → Fewer v := fun u v h hu =>
      ⟨hu.1.of_untouched h, fun p c hc => hu.2 p c ((h.file_eq p).symm.trans hc)⟩
    have hdrop : ∀ v, Fewer v → Fewer (v.drop path) := by
      rintro v ⟨hsame, hfewer⟩
      refine ⟨hsame.drop hown, fun p c hc => hfewer p c ?_⟩
      rw [file_drop] at hc
      split at hc
      · cases hc
      · exact hc
    refine ends_bind (ends_ignore (ends_remove_file hkeep hdrop)) (fun _ => ?_) w
      ⟨same_refl, fun _ _ h => h⟩
    refine ends_bind (Q := fun _ => Same (some slug) w) ?_ hunmark
    unfold doWhen
    split
    · rename_i hroot
      refine ends_remove_from_pack_index hkeep (fun _ h => h.1) ?_
      rintro v ⟨-, hfewer⟩ bytes idx hbytes hidx hin
      exact hindex (by simpa using hroot) bytes (hfewer _ _ hbytes) idx hidx hin
    · exact ends_pure fun _ h => h.1

/-- No step writes or removes a file that another installed slug has, or that is two things at
once: a model and a pack index, a model and someone's unfinished part. -/
def Clear (sha256 : Bytes → String) (from_slice : Bytes → Option ModelPackIndex) (w : Device) :
    Act → Prop
  | .install slug m dest_dir download _ =>
    (∀ cur ∈ w.found slug, cur ≠ join dest_dir m.filename →
      CopyFree sha256 slug m cur dest_dir w) ∧
    (w.found slug = none → m.url.isSome → ∀ bytes ∈ download.toOption,
      pinned m (sha256 bytes) = true → Free slug dest_dir (join dest_dir m.filename) w)
  | .copy slug m src dest_dir _ => CopyFree sha256 slug m src dest_dir w
  | .uninstall slug _ => RemoveFree from_slice slug w
  | _ => True

/-- Every record is good behind the step, and an uninstall touches no file of another slug. -/
def Intact (sha256 : Bytes → String) (to_vec_pretty : ModelPackIndex → Bytes)
    (from_slice : Bytes → Option ModelPackIndex) (w : Device) (act : Act) : Prop :=
  (w.step sha256 to_vec_pretty from_slice act).Kept sha256 ∧
    ∀ slug faults, act = .uninstall slug faults →
      Spared sha256 slug w (w.step sha256 to_vec_pretty from_slice act)

theorem Free.with_faults {dest : Path} (h : Free slug dest_dir dest w)
    (faults : List (Option (Option Bytes))) : Free slug dest_dir dest { w with faults } :=
  ⟨h.file, h.part, h.index, h.index_tmp, h.not_index, h.not_index_tmp⟩

theorem CopyFree.with_faults {src : Path} (h : CopyFree sha256 slug m src dest_dir w)
    (faults : List (Option (Option Bytes))) : CopyFree sha256 slug m src dest_dir { w with faults } :=
  fun content hc => ⟨(h content hc).1, fun hpinned => ((h content hc).2 hpinned).with_faults faults⟩

theorem clear_step_intact {act : Act} (hkept : w.Kept sha256) (h : w.Clear sha256 from_slice act) :
    w.Intact sha256 to_vec_pretty from_slice act := by
  have huntouched : ∀ faults, Untouched { w with faults } { w with faults } :=
    fun _ => ⟨rfl, rfl, rfl⟩
  cases act with
  | register m => exact ⟨hkept.enter m, fun _ _ h => by cases h⟩
  | install slug m dest_dir download faults =>
    have hends := @ends_install_to { w with faults } sha256 to_vec_pretty from_slice slug m dest_dir
      download hkept (fun cur hcur hne => (h.1 cur hcur hne).with_faults faults)
      (fun hnone hurl bytes hbytes hpinned => (h.2 hnone hurl bytes hbytes hpinned).with_faults faults)
    exact ⟨ends_outcome hends rfl, fun _ _ h => by cases h⟩
  | copy slug m src dest_dir faults =>
    replace h : CopyFree sha256 slug m src dest_dir w := h
    have hends := @ends_copy_to { w with faults } sha256 to_vec_pretty from_slice slug m dest_dir
      src hkept (h.with_faults faults)
    exact ⟨ends_outcome hends (huntouched faults), fun _ _ h => by cases h⟩
  | scan roots listed faults =>
    have hends := @ends_scan_roots sha256 from_slice listed roots
    exact ⟨ends_outcome hends (w := { w with faults }) hkept, fun _ _ h => by cases h⟩
  | uninstall slug faults =>
    have hends := @ends_uninstall { w with faults } sha256 to_vec_pretty from_slice slug hkept h
    have hspared := ends_outcome hends rfl
    refine ⟨hspared.1, fun slug' faults' hact => ?_⟩
    cases hact
    exact hspared
  | vanish p =>
    refine ⟨fun t row hrow hin => ?_, fun _ _ h => by cases h⟩
    obtain ⟨hfile, hpin⟩ := hkept t row hrow hin
    refine ⟨fun q content hq hcontent => hfile q content hq ?_, hpin⟩
    rw [step, file_drop] at hcontent
    split at hcontent
    · cases hcontent
    · exact hcontent

instance (own : Option String) (w : Device) (p : Path) : Decidable (Apart own w p) :=
  inferInstanceAs (Decidable (∀ t ∈ w.rows.keys, some t ≠ own →
    ∀ q ∈ w.installed_path t, resolve q ≠ resolve p))

theorem free_iff {dest : Path} : Free slug dest_dir dest w ↔ Apart (some slug) w dest ∧
    Apart none w (part_of dest) ∧ Apart (some slug) w (dest_dir ++ [PACK_INDEX_FILE]) ∧
    Apart (some slug) w (pai_models.index_tmp dest_dir) ∧
    resolve dest ≠ resolve (dest_dir ++ [PACK_INDEX_FILE]) ∧
    resolve dest ≠ resolve (pai_models.index_tmp dest_dir) :=
  ⟨fun h => ⟨h.file, h.part, h.index, h.index_tmp, h.not_index, h.not_index_tmp⟩,
    fun ⟨a, b, c, d, e, f⟩ => ⟨a, b, c, d, e, f⟩⟩

instance (slug : String) (dest_dir dest : Path) (w : Device) :
    Decidable (Free slug dest_dir dest w) := decidable_of_iff' _ free_iff

instance (src : Path) : Decidable (CopyFree sha256 slug m src dest_dir w) :=
  inferInstanceAs (Decidable (∀ content ∈ w.file src, _ ∧ (_ → _)))

instance : Decidable (RemoveFree from_slice slug w) :=
  inferInstanceAs (Decidable (∀ path ∈ w.installed_path slug, _ ∧ (_ → ∀ bytes ∈ _, ∀ idx ∈ _,
    (∃ e ∈ _, _) → _ ∧ _)))

instance clear_decidable : ∀ act, Decidable (w.Clear sha256 from_slice act)
  | .install .. => inferInstanceAs (Decidable (_ ∧ _))
  | .copy .. => inferInstanceAs (Decidable (CopyFree ..))
  | .uninstall .. => inferInstanceAs (Decidable (RemoveFree ..))
  | .register _ => .isTrue trivial
  | .scan .. => .isTrue trivial
  | .vanish _ => .isTrue trivial

/-- A device with any files on it and nothing installed. -/
def fresh (files : Table Path Bytes) (dirs : List Path) : Device :=
  { files, dirs, rows := ∅, pins := ∅, faults := [] }

/-- In every run without collisions, whatever the disk does: each installed slug has the file of
its record, and an uninstall takes no other slug's. -/
theorem clear_runs_are_intact (sha256 : Bytes → String) (to_vec_pretty : ModelPackIndex → Bytes)
    (from_slice : Bytes → Option ModelPackIndex) (files : Table Path Bytes) (dirs : List Path)
    {acts : List Act}
    (hclear : Along (step sha256 to_vec_pretty from_slice) (Clear sha256 from_slice)
      (fresh files dirs) acts) :
    Along (step sha256 to_vec_pretty from_slice) (Intact sha256 to_vec_pretty from_slice)
      (fresh files dirs) acts := by
  have hstart : Kept sha256 (fresh files dirs) := by
    intro t row hrow
    simp [fresh] at hrow
  exact @along_of_invariant _ _ (step sha256 to_vec_pretty from_slice) (Kept sha256)
    (Clear sha256 from_slice) _ (fun w act hw h => (clear_step_intact hw h).1)
    (fun w act hw h => clear_step_intact hw h) _ hstart acts hclear

end Installing

/-- For the runs below: a hash that is the text, and an index that is its slugs. -/
def text_hash (b : Bytes) : String := String.ofList (b.map fun x => Char.ofNat x.toNat)

def show_index (idx : ModelPackIndex) : Bytes := idx.models.flatMap fun m => utf8 m.slug

def alpha : ModelManifest := HfRef.manifest_for ⟨"ada/x-GGUF", "model.gguf", "main"⟩ (some "\"A\"")

def beta : ModelManifest := HfRef.manifest_for ⟨"bob/y-GGUF", "q4/model.gguf", "main"⟩ (some "\"B\"")

def gamma : ModelManifest := HfRef.manifest_for ⟨"bob/y-GGUF", "other.gguf", "main"⟩ (some "\"B\"")

def read_index (b : Bytes) : Option ModelPackIndex :=
  ([[alpha], [beta], [gamma], [alpha, beta], [alpha, gamma]].map (ModelPackIndex.mk 1)).find?
    (fun idx => show_index idx = b)

def pack : Path := ["media", "drive", "pai-models"]

/-- Both models are downloaded into the pack. -/
def installs (other : ModelManifest) : List Act :=
  [.register alpha, .register other, .install alpha.slug alpha pack (.ok [65]) [],
    .install other.slug other pack (.ok [66]) []]

/-- Two models with names of their own, of which one goes. -/
theorem two_models_in_one_pack :
    Along (step text_hash show_index read_index) (Intact text_hash show_index read_index)
        (fresh ∅ []) (installs gamma ++ [.uninstall alpha.slug []]) ∧
      (run (step text_hash show_index read_index) (fresh ∅ [])
        (installs gamma ++ [.uninstall alpha.slug []])).file (pack ++ ["other.gguf"]) = some [66] :=
  ⟨clear_runs_are_intact text_hash show_index read_index ∅ [] (by decide +kernel),
    by decide +kernel⟩

/-- Two models of the hub with one file name: the second takes the file of the first, whose
record goes on with the old hash, and an uninstall of the first then deletes it. -/
theorem a_file_name_is_shared :
    ¬ (∀ acts, Along (step text_hash show_index read_index)
        (Intact text_hash show_index read_index) (fresh ∅ []) acts) ∧
      (run (step text_hash show_index read_index) (fresh ∅ []) (installs beta)).installed_path
        beta.slug = some (pack ++ ["model.gguf"]) ∧
      (run (step text_hash show_index read_index) (fresh ∅ [])
        (installs beta ++ [.uninstall alpha.slug []])).file (pack ++ ["model.gguf"]) = none := by
  refine ⟨fun hall => ?_, by decide +kernel, by decide +kernel⟩
  obtain ⟨-, -, -, hlast, -⟩ := hall (installs beta)
  have hgood := hlast.1 alpha.slug ⟨true, some (pack ++ ["model.gguf"]), some "A"⟩
    (by decide +kernel) rfl
  have hhash := hgood.1 (pack ++ ["model.gguf"]) [66] rfl (by decide +kernel)
  exact absurd hhash (by decide +kernel)

end Device

end pai_models
