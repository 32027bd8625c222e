-- The disk under the registry, on which one operation of a run may fail and leave behind what it
-- has done so far.
import PersonalAi.AppRegistry
import PersonalAi.Lib.Disk

open text paths program disk

namespace pai_apps

/-! ## Worlds -/

/-- What a call has done when it fails: the entries that a removal has left (as paths from the
directory), how many directories are made, what is in the file that was written. -/
structure Damage where
  keeps : Path → Bool
  made : Nat
  bytes : Option Bytes

/-- The operation that fails: the call of that kind with so many of it before, or a reading. -/
inductive Fault
  | call (op : FsOp) (nth : Nat) (damage : Damage)
  | read (p : Path)
  | read_dir (p : Path)

/-- What a batch makes of the file of a database. -/
structure Sqlite where
  batch : Bytes → Bytes → Except String Unit × Bytes

/-- A disk, the calls that were made, and the fault that is still to come. -/
structure World where
  disk : Disk
  done : List FsOp
  fault : Option Fault

def World.start (d : Disk) (fault : Option Fault) : World := ⟨d, [], fault⟩

/-! ## Calls -/

def nowhere : String := "No such file or directory (os error 2)"

/-- A call at the place that a path leads to. -/
def at_place (d : Disk) (p : Path) (f : Path → Except String Disk) : Except String Disk :=
  match d.way p with
  | some place => f place
  | none => .error nowhere

/-- A call that fails has left the disk as it was. -/
def whole (d : Disk) : Except String Disk → Except String Unit × Disk
  | .ok d' => (.ok (), d')
  | .error e => (.error e, d)

/-- What a call does. -/
def effect (sql : Sqlite) (d : Disk) : FsOp → Except String Unit × Disk
  | .create_dir_all p => whole d (at_place d p (create_dir_all d))
  | .remove_dir_all p => whole d (at_place d p (remove_dir_all d))
  | .remove_file p => whole d (at_place d p (remove_file d))
  | .rename src dst => whole d (at_place d src fun s => at_place d dst (rename d s))
  | .copy src dst => whole d (at_place d src fun s => at_place d dst (copy d s))
  | .write p bytes => whole d (at_place d p fun q => write d q bytes)
  | .open_db p => whole d (at_place d p fun q => if d.is_file q then .ok d else write d q [])
  | .execute_batch db text =>
    match d.way db with
    | none => (.error nowhere, d)
    | some q =>
      match read d q with
      | .error e => (.error e, d)
      | .ok bytes =>
        match write d q (sql.batch bytes text).2 with
        | .ok d' => ((sql.batch bytes text).1, d')
        | .error e => (.error e, d)

/-- What a call leaves that fails half done. -/
def half (d : Disk) (damage : Damage) : FsOp → Except String Disk
  | .create_dir_all p => at_place d p fun q => make_dirs d q damage.made
  | .remove_dir_all p => at_place d p fun q => .ok (d.thin q damage.keeps)
  | .copy _ p | .write p _ | .open_db p | .execute_batch p _ =>
    match damage.bytes with
    | some bytes => at_place d p fun q => write d q bytes
    | none => .ok d
  | .remove_file _ | .rename _ _ => .ok d

/-- A call that would fail of itself does nothing half. -/
def broken (sql : Sqlite) (d : Disk) (damage : Damage) (op : FsOp) : Disk :=
  match effect sql d op with
  | (.ok (), _) => (whole d (half d damage op)).2
  | (.error _, d') => d'

/-- The fault is at this call. -/
def World.struck (w : World) (op : FsOp) : Option Damage :=
  match w.fault with
  | some (.call op' nth damage) => if op' = op ∧ w.done.count op = nth then some damage else none
  | _ => none

def io_error : AppError := .Io "Input/output error (os error 5)"

def World.call (sql : Sqlite) (op : FsOp) (w : World) : Except AppError Unit × World :=
  match w.struck op with
  | some damage => (.error io_error, ⟨broken sql w.disk damage op, w.done ++ [op], none⟩)
  | none =>
    ((effect sql w.disk op).1.mapError .Io, ⟨(effect sql w.disk op).2, w.done ++ [op], w.fault⟩)

/-- The fault is at reading this file. -/
def World.unread (w : World) (p : Path) : Bool :=
  match w.fault with
  | some (.read q) => q == p
  | _ => false

/-- The fault is at listing this directory. -/
def World.unlisted (w : World) (p : Path) : Bool :=
  match w.fault with
  | some (.read_dir q) => q == p
  | _ => false

def World.read (w : World) (p : Path) : Except AppError Bytes :=
  if w.unread p then .error io_error
  else
    match w.disk.way p with
    | some place => (disk.read w.disk place).mapError .Io
    | none => .error (.Io nowhere)

/-- The tree at a place, as far down as something is known. -/
def tree_at (d : Disk) : Nat → Path → Tree
  | 0, _ => .other
  | depth + 1, p =>
    match d.at_ p with
    | some (.file _) => .file
    | some .dir => .dir ((d.names p).map (fun name => (name, tree_at d depth (p ++ [name.text]))))
    | none => .other

/-- Deeper than anything on the disk. -/
def depth (d : Disk) : Nat := (d.known.map List.length).foldl max 0 + 1

def World.read_dir (w : World) (p : Path) : Except AppError Tree :=
  if w.unlisted p then .error io_error
  else if w.disk.seen p [] = some .dir then
    match w.disk.way p with
    | some place => .ok (tree_at w.disk (depth w.disk) place)
    | none => .error (.Io nowhere)
  else .error (.Io nowhere)

/-- The file system of these worlds. -/
def faulty (sql : Sqlite) : FileSystem World where
  path_exists p w := (w.disk.seen p []).isSome
  is_dir p w := decide (w.disk.seen p [] = some .dir)
  is_file p w :=
    match w.disk.seen p [] with
    | some (.file _) => true
    | _ => false
  read p w := w.read p
  read_dir p w := w.read_dir p
  call op w := w.call sql op
  batch_paths db _ := [db]

/-! ## One call -/

section Laws
variable {sql : Sqlite} {w : World} {op : FsOp}

theorem struck_iff {damage : Damage} :
    w.struck op = some damage ↔ w.fault = some (.call op (w.done.count op) damage) := by
  unfold World.struck
  split
  · rename_i op' nth found hfault
    rw [hfault]
    constructor
    · intro h
      split at h
      · rename_i heq
        injection h with h
        rw [heq.1, heq.2, h]
      · cases h
    · intro h
      injection h with h
      injection h with hop hnth hdamage
      rw [if_pos ⟨hop, hnth.symm⟩, hdamage]
  · rename_i hno
    constructor
    · intro h
      cases h
    · intro h
      exact (hno _ _ _ h).elim

theorem struck_unfaulted (h : w.fault = none) (op : FsOp) : w.struck op = none := by
  unfold World.struck
  rw [h]

theorem run_struck {damage : Damage} (h : w.struck op = some damage) :
    (run (faulty sql) op).outcome w =
      (.error io_error, ⟨broken sql w.disk damage op, w.done ++ [op], none⟩) := by
  change w.call sql op = _
  unfold World.call
  rw [h]

theorem run_ok {d : Disk} (h : w.struck op = none) (hok : effect sql w.disk op = (.ok (), d)) :
    (run (faulty sql) op).outcome w = (.ok (), ⟨d, w.done ++ [op], w.fault⟩) := by
  change w.call sql op = _
  unfold World.call
  rw [h, hok]
  rfl

theorem run_error {d : Disk} {e : String} (h : w.struck op = none)
    (herror : effect sql w.disk op = (.error e, d)) :
    (run (faulty sql) op).outcome w = (.error (.Io e), ⟨d, w.done ++ [op], w.fault⟩) := by
  change w.call sql op = _
  unfold World.call
  rw [h, herror]
  rfl

/-- A call of another kind leaves the fault where it is. -/
theorem struck_behind {op' : FsOp} (hne : op ≠ op') (d : Disk) :
    World.struck ⟨d, w.done ++ [op], if w.struck op = none then w.fault else none⟩ op' =
      w.struck op' := by
  rcases hstruck : w.struck op with _ | damage
  · rw [if_pos rfl]
    unfold World.struck
    simp [List.count_append, hne]
  · rw [if_neg (by simp), struck_unfaulted rfl]
    unfold World.struck
    rw [struck_iff.mp hstruck]
    simp [hne]

/-- A call that cannot succeed leaves the disk as it is. -/
theorem run_fails {e : String} (h : effect sql w.disk op = (.error e, w.disk)) :
    ∃ e' fault', (run (faulty sql) op).outcome w =
      (.error e', ⟨w.disk, w.done ++ [op], fault'⟩) := by
  rcases hstruck : w.struck op with _ | damage
  · exact ⟨_, _, run_error hstruck h⟩
  · refine ⟨io_error, none, ?_⟩
    rw [run_struck hstruck]
    unfold broken
    rw [h]

/-- The fault is at the call of this kind behind that many others. -/
def FaultAt (fault : Option Fault) (op : FsOp) (nth : Nat) : Prop :=
  ∃ damage, fault = some (.call op nth damage)

theorem faultAt_iff : FaultAt w.fault op (w.done.count op) ↔ w.struck op ≠ none := by
  rw [Option.ne_none_iff_exists']
  unfold FaultAt
  simp only [struck_iff]

/-- The fault is at one of these calls. -/
def Meets (fault : Option Fault) (done calls : List FsOp) : Prop :=
  ∃ op nth damage, fault = some (.call op nth damage) ∧ done.count op ≤ nth ∧
    nth < (done ++ calls).count op

instance (fault : Option Fault) (done calls : List FsOp) : Decidable (Meets fault done calls) :=
  match fault with
  | some (.call op nth damage) =>
    decidable_of_iff (done.count op ≤ nth ∧ nth < (done ++ calls).count op) (by
      constructor
      · exact fun h => ⟨op, nth, damage, rfl, h⟩
      · rintro ⟨_, _, _, heq, h⟩
        cases heq
        exact h)
  | some (.read _) => isFalse (by rintro ⟨_, _, _, heq, _⟩; cases heq)
  | some (.read_dir _) => isFalse (by rintro ⟨_, _, _, heq, _⟩; cases heq)
  | none => isFalse (by rintro ⟨_, _, _, heq, _⟩; cases heq)

theorem meets_nil (fault : Option Fault) (done : List FsOp) : ¬ Meets fault done [] := by
  rintro ⟨op, nth, damage, -, hle, hlt⟩
  rw [List.append_nil] at hlt
  omega

theorem meets_append (fault : Option Fault) (done a b : List FsOp) :
    Meets fault done (a ++ b) ↔ Meets fault done a ∨ Meets fault (done ++ a) b := by
  constructor
  · rintro ⟨op, nth, damage, hfault, hle, hlt⟩
    by_cases hfirst : nth < (done ++ a).count op
    · exact .inl ⟨op, nth, damage, hfault, hle, hfirst⟩
    · refine .inr ⟨op, nth, damage, hfault, by omega, ?_⟩
      rwa [List.append_assoc]
  · rintro (⟨op, nth, damage, hfault, hle, hlt⟩ | ⟨op, nth, damage, hfault, hle, hlt⟩)
    · refine ⟨op, nth, damage, hfault, hle, ?_⟩
      rw [← List.append_assoc, List.count_append]
      omega
    · refine ⟨op, nth, damage, hfault, ?_, by rwa [← List.append_assoc]⟩
      rw [List.count_append] at hle
      omega

/-- A fault at one of these calls is at a call of this kind. -/
theorem meets_mem {fault : Option Fault} {done calls : List FsOp} {nth : Nat} {damage : Damage}
    (h : Meets fault done calls) (hfault : fault = some (.call op nth damage)) : op ∈ calls := by
  obtain ⟨op', nth', damage', heq, hle, hlt⟩ := h
  rw [hfault] at heq
  cases heq
  rw [List.count_append] at hlt
  exact List.count_pos_iff.mp (by omega)

theorem meets_one : Meets w.fault w.done [op] ↔ w.struck op ≠ none := by
  constructor
  · rintro ⟨op', nth, damage, hfault, hle, hlt⟩
    have hop : op' = op := by
      by_contra hne
      rw [List.count_append, List.count_singleton, if_neg] at hlt
      · omega
      · simpa using Ne.symm hne
    subst hop
    rw [List.count_append, List.count_singleton_self] at hlt
    have hnth : nth = w.done.count op' := by omega
    rw [struck_iff.mpr (hnth ▸ hfault)]
    simp
  · intro h
    obtain ⟨damage, hdamage⟩ := Option.ne_none_iff_exists'.mp h
    refine ⟨op, _, damage, struck_iff.mp hdamage, le_refl _, ?_⟩
    rw [List.count_append, List.count_singleton_self]
    omega

theorem meets_cons (op : FsOp) (rest : List FsOp) : Meets w.fault w.done (op :: rest) ↔
    w.struck op ≠ none ∨ Meets w.fault (w.done ++ [op]) rest := by
  rw [← List.singleton_append, meets_append, meets_one]

end Laws

/-! ## Calls at a place -/

section Places
variable {sql : Sqlite} {d : Disk} {p q place there : Path}

theorem effect_create (h : d.way p = some place) :
    effect sql d (.create_dir_all p) = whole d (create_dir_all d place) := by
  simp [effect, at_place, h]

theorem effect_remove (h : d.way p = some place) :
    effect sql d (.remove_dir_all p) = whole d (remove_dir_all d place) := by
  simp [effect, at_place, h]

theorem effect_rename (h : d.way p = some place) (hto : d.way q = some there) :
    effect sql d (.rename p q) = whole d (rename d place there) := by
  simp [effect, at_place, h, hto]

theorem effect_write (h : d.way p = some place) (bytes : Bytes) :
    effect sql d (.write p bytes) = whole d (write d place bytes) := by
  simp [effect, at_place, h]

theorem broken_of_error {damage : Damage} {op : FsOp} {e : String} {d' : Disk}
    (h : effect sql d op = (.error e, d')) : broken sql d damage op = d' := by
  unfold broken
  rw [h]

/-- What a failed call leaves that makes directories: nothing new, or some of them. -/
theorem broken_create (h : d.way p = some place) (damage : Damage) :
    broken sql d damage (.create_dir_all p) = d ∨
      make_dirs d place damage.made = .ok (broken sql d damage (.create_dir_all p)) := by
  rcases hcall : create_dir_all d place with e | d'
  · left
    apply broken_of_error
    rw [effect_create h, hcall]
    rfl
  · have hbroken : broken sql d damage (.create_dir_all p) =
        (whole d (make_dirs d place damage.made)).2 := by
      unfold broken
      rw [effect_create h, hcall]
      simp [whole, half, at_place, h]
    rw [hbroken]
    rcases hmake : make_dirs d place damage.made with e | d''
    · exact .inl rfl
    · exact .inr rfl

theorem broken_write (h : d.way p = some place) (damage : Damage) (bytes : Bytes) :
    broken sql d damage (.write p bytes) = d ∨
      ∃ left, write d place left = .ok (broken sql d damage (.write p bytes)) := by
  rcases hcall : write d place bytes with e | d'
  · left
    apply broken_of_error
    rw [effect_write h, hcall]
    rfl
  · have hbroken : broken sql d damage (.write p bytes) =
        (whole d (half d damage (.write p bytes))).2 := by
      unfold broken
      rw [effect_write h, hcall]
      rfl
    rw [hbroken]
    unfold half
    cases hleft : damage.bytes with
    | none => exact .inl rfl
    | some left =>
      simp only [at_place, h]
      rcases hwrite : write d place left with e | d''
      · exact .inl rfl
      · exact .inr ⟨left, hwrite⟩

theorem broken_rename (h : d.way p = some place) (hto : d.way q = some there) (damage : Damage) :
    broken sql d damage (.rename p q) = d := by
  unfold broken
  rw [effect_rename h hto]
  rcases rename d place there with e | d'
  · rfl
  · rfl

theorem broken_remove (h : d.way p = some place) (damage : Damage) :
    (broken sql d damage (.remove_dir_all p) = d ∧ (place ≠ [] → d.at_ place ≠ some .dir)) ∨
      broken sql d damage (.remove_dir_all p) = d.thin place damage.keeps ∧
        d.at_ place = some .dir := by
  rcases remove_dir_all_cases d place with ⟨d', hok, -, hdir, -⟩ | ⟨e, herror, hno⟩
  · right
    refine ⟨?_, hdir⟩
    unfold broken
    rw [effect_remove h, hok]
    simp [whole, half, at_place, h]
  · left
    refine ⟨?_, hno⟩
    apply broken_of_error
    rw [effect_remove h, herror]
    rfl

end Places

end pai_apps
