-- A disk: what stands at each path, and what the calls of a POSIX system make of it. No entry is
-- a link.
import Mathlib.Data.List.Infix
import PersonalAi.Lib.Paths

namespace disk

open paths text

inductive Node
  | file (bytes : Bytes)
  | dir
deriving DecidableEq

/-- The system takes the name for an entry. -/
def IsEntry (s : String) : Prop := IsName s ∧ '\x00' ∉ s.toList

instance (s : String) : Decidable (IsEntry s) := by
  unfold IsEntry
  infer_instance

/-- What stands at each path, from some directory. -/
abbrev Contents := Path → Option Node

/-- Everything stands in a directory, under a name. -/
structure Closed (c : Contents) : Prop where
  root : c [] = some .dir
  parent : ∀ p name, c (p ++ [name]) ≠ none → c p = some .dir
  name : ∀ p name, c (p ++ [name]) ≠ none → IsEntry name

/-- A disk; `known` is a list of paths with all that stand in it. -/
structure Disk where
  at_ : Contents
  closed : Closed at_
  known : List Path
  listed : ∀ p, at_ p ≠ none → p ∈ known

def Disk.under (d : Disk) (p : Path) : Contents := fun q => d.at_ (p ++ q)

def Disk.is_dir (d : Disk) (p : Path) : Bool := decide (d.at_ p = some .dir)

def Disk.is_file (d : Disk) (p : Path) : Bool :=
  match d.at_ p with
  | some (.file _) => true
  | _ => false

def Disk.exists_ (d : Disk) (p : Path) : Bool := (d.at_ p).isSome

/-- No path is a part of the other. -/
def Apart (p q : Path) : Prop := ¬ p <+: q ∧ ¬ q <+: p

instance (p q : Path) : Decidable (Apart p q) := by
  unfold Apart
  infer_instance

theorem Closed.above {c : Contents} (h : Closed c) {p q : Path} (hq : c (p ++ q) ≠ none)
    (hne : q ≠ []) : c p = some .dir := by
  induction q using List.reverseRecOn with
  | nil => exact (hne rfl).elim
  | append_singleton q name ih =>
    rw [← List.append_assoc] at hq
    have hdir := h.parent _ _ hq
    by_cases hempty : q = []
    · simpa [hempty] using hdir
    · exact ih (by rw [hdir]; simp) hempty

/-- Nothing stands below what is no directory. -/
theorem Disk.below (d : Disk) {p : Path} (hp : d.at_ p ≠ some .dir) {q : Path} (hne : q ≠ []) :
    d.at_ (p ++ q) = none := by
  by_contra hq
  exact hp (d.closed.above hq hne)

/-- The place that a path leads to; a directory must stand where it goes up. -/
def Disk.way (d : Disk) (p : Path) : Option Path :=
  p.foldlM (fun place c =>
    if c = ".." then (if d.at_ place = some .dir then some place.dropLast else none)
    else some (place ++ [c])) []

/-- What stands where a path leads. -/
def Disk.seen (d : Disk) (p : Path) : Contents :=
  match d.way p with
  | some place => d.under place
  | none => fun _ => none

theorem way_below {d : Disk} {p place : Path} (h : d.way p = some place) {q : Path} (hq : Down q) :
    d.way (p ++ q) = some (place ++ q) := by
  have hdown : ∀ (q place : Path), Down q → q.foldlM (fun place c =>
      if c = ".." then (if d.at_ place = some .dir then some place.dropLast else none)
      else some (place ++ [c])) place = some (place ++ q) := by
    intro q
    induction q with
    | nil =>
      intro place _
      simp
    | cons c q ih =>
      intro place hq
      simp only [Down, List.mem_cons, not_or] at hq
      rw [List.foldlM_cons, if_neg (Ne.symm hq.1)]
      simp only [Option.bind_eq_bind, Option.bind_some]
      rw [ih _ hq.2, List.append_assoc]
      rfl
  unfold Disk.way at h ⊢
  rw [List.foldlM_append, h]
  exact hdown q place hq

theorem way_down (d : Disk) {p : Path} (h : Down p) : d.way p = some p :=
  way_below (rfl : d.way [] = some []) h

theorem way_up {d : Disk} {p place : Path} (h : d.way p = some place)
    (hdir : d.at_ place = some .dir) : d.way (p ++ [".."]) = some place.dropLast := by
  unfold Disk.way at h ⊢
  rw [List.foldlM_append, h]
  simp [hdir]

theorem seen_of_way {d : Disk} {p place : Path} (h : d.way p = some place) :
    d.seen p = d.under place := by
  unfold Disk.seen
  rw [h]

/-! ## One entry -/

/-- Put a node at a path whose parent is a directory. -/
def Disk.put (d : Disk) (p : Path) (name : String) (n : Node) (hname : IsEntry name)
    (hdir : d.at_ p = some .dir) (hfree : d.at_ (p ++ [name]) ≠ some .dir) : Disk where
  at_ q := if q = p ++ [name] then some n else d.at_ q
  closed :=
    { root := by simp [d.closed.root]
      parent := by
        intro q x hq
        by_cases hx : q ++ [x] = p ++ [name]
        · obtain ⟨rfl, -⟩ := List.append_inj' hx rfl
          rw [if_neg (by simp), hdir]
        · rw [if_neg hx] at hq
          have hparent := d.closed.parent q x hq
          rw [if_neg]
          · exact hparent
          · rintro rfl
            exact hfree hparent
      name := by
        intro q x hq
        by_cases hx : q ++ [x] = p ++ [name]
        · obtain ⟨-, hlast⟩ := List.append_inj' hx rfl
          rw [List.singleton_inj.mp hlast]
          exact hname
        · rw [if_neg hx] at hq
          exact d.closed.name q x hq }
  known := (p ++ [name]) :: d.known
  listed := by
    intro q hq
    by_cases hx : q = p ++ [name]
    · rw [hx]
      exact List.mem_cons_self
    · rw [if_neg hx] at hq
      exact List.mem_cons_of_mem _ (d.listed q hq)

/-- Take away what stands at a path and all below it. -/
def Disk.drop (d : Disk) (p : Path) (hp : p ≠ []) : Disk where
  at_ q := if p <+: q then none else d.at_ q
  closed :=
    { root := by
        rw [if_neg, d.closed.root]
        exact fun h => hp (List.prefix_nil.mp h)
      parent := by
        intro q x hq
        by_cases hx : p <+: q ++ [x]
        · rw [if_pos hx] at hq
          exact (hq rfl).elim
        · rw [if_neg hx] at hq
          rw [if_neg (fun h => hx (h.trans (List.prefix_append _ _)))]
          exact d.closed.parent q x hq
      name := by
        intro q x hq
        by_cases hx : p <+: q ++ [x]
        · rw [if_pos hx] at hq
          exact (hq rfl).elim
        · rw [if_neg hx] at hq
          exact d.closed.name q x hq }
  known := d.known
  listed := by
    intro q hq
    by_cases hx : p <+: q
    · rw [if_pos hx] at hq
      exact (hq rfl).elim
    · rw [if_neg hx] at hq
      exact d.listed q hq

/-- Move what stands at a path, with all below it, to a free place. -/
def Disk.graft (d : Disk) (src to_ : Path) (name : String) (hname : IsEntry name)
    (hdir : d.at_ to_ = some .dir) (hsrc : src ≠ []) (hout : ¬ src <+: to_ ++ [name]) : Disk where
  at_ q := if to_ ++ [name] <+: q then d.at_ (src ++ q.drop (to_ ++ [name]).length)
    else if src <+: q then none else d.at_ q
  closed :=
    { root := by
        rw [if_neg (by simp), if_neg, d.closed.root]
        exact fun h => hsrc (List.prefix_nil.mp h)
      parent := by
        intro q x hq
        by_cases hin : to_ ++ [name] <+: q
        · obtain ⟨r, rfl⟩ := hin
          rw [if_pos (List.prefix_append _ _)]
          rw [List.append_assoc, if_pos (List.prefix_append _ _)] at hq
          simp only [List.drop_left] at hq ⊢
          rw [← List.append_assoc] at hq
          exact d.closed.parent _ _ hq
        · rw [if_neg hin]
          by_cases hself : to_ ++ [name] <+: q ++ [x]
          · have heq : to_ ++ [name] = q ++ [x] := by
              rcases List.prefix_concat_iff.mp hself with h | h
              · exact h
              · exact (hin h).elim
            obtain ⟨rfl, -⟩ := List.append_inj' heq rfl
            rw [if_neg (fun h => hout (h.trans (List.prefix_append _ _)))]
            exact hdir
          · rw [if_neg hself] at hq
            by_cases hgone : src <+: q ++ [x]
            · rw [if_pos hgone] at hq
              exact (hq rfl).elim
            · rw [if_neg hgone] at hq
              rw [if_neg (fun h => hgone (h.trans (List.prefix_append _ _)))]
              exact d.closed.parent q x hq
      name := by
        intro q x hq
        by_cases hin : to_ ++ [name] <+: q ++ [x]
        · rcases List.prefix_concat_iff.mp hin with heq | hin
          · obtain ⟨-, hlast⟩ := List.append_inj' heq rfl
            rw [← List.singleton_inj.mp hlast]
            exact hname
          · obtain ⟨r, rfl⟩ := hin
            rw [List.append_assoc, if_pos (List.prefix_append _ _)] at hq
            simp only [List.drop_left] at hq
            rw [← List.append_assoc] at hq
            exact d.closed.name _ _ hq
        · rw [if_neg hin] at hq
          by_cases hgone : src <+: q ++ [x]
          · rw [if_pos hgone] at hq
            exact (hq rfl).elim
          · rw [if_neg hgone] at hq
            exact d.closed.name q x hq }
  known := d.known ++ d.known.map (fun q => to_ ++ [name] ++ q.drop src.length)
  listed := by
    intro q hq
    by_cases hin : to_ ++ [name] <+: q
    · obtain ⟨r, rfl⟩ := hin
      rw [if_pos (List.prefix_append _ _)] at hq
      simp only [List.drop_left] at hq
      apply List.mem_append_right
      apply List.mem_map.mpr
      exact ⟨src ++ r, d.listed _ hq, by simp⟩
    · rw [if_neg hin] at hq
      by_cases hgone : src <+: q
      · rw [if_pos hgone] at hq
        exact (hq rfl).elim
      · rw [if_neg hgone] at hq
        exact List.mem_append_left _ (d.listed q hq)

/-- Make the directories on the way to a path, as far as `k` of them. -/
def Disk.mkdirs (d : Disk) (p : Path) (k : Nat) (hnames : ∀ c ∈ p, IsEntry c) : Disk where
  at_ q := if q <+: p ∧ q.length ≤ k then some .dir else d.at_ q
  closed :=
    { root := by simp
      parent := by
        intro q x hq
        by_cases hx : q ++ [x] <+: p ∧ (q ++ [x]).length ≤ k
        · rw [if_pos]
          refine ⟨(List.prefix_append _ _).trans hx.1, ?_⟩
          have hlength := hx.2
          rw [List.length_append] at hlength
          omega
        · rw [if_neg hx] at hq
          split
          · rfl
          · exact d.closed.parent q x hq
      name := by
        intro q x hq
        by_cases hx : q ++ [x] <+: p ∧ (q ++ [x]).length ≤ k
        · apply hnames
          exact hx.1.subset (by simp)
        · rw [if_neg hx] at hq
          exact d.closed.name q x hq }
  known := p.inits ++ d.known
  listed := by
    intro q hq
    by_cases hx : q <+: p ∧ q.length ≤ k
    · exact List.mem_append_left _ (List.mem_inits _ _ |>.mpr hx.1)
    · rw [if_neg hx] at hq
      exact List.mem_append_right _ (d.listed q hq)

/-- The entry and all on the way to it are kept. -/
def Kept (keeps : Path → Bool) (q : Path) : Prop := ∀ s ∈ q.inits, s ≠ [] → keeps s = true

instance (keeps : Path → Bool) (q : Path) : Decidable (Kept keeps q) := by
  unfold Kept
  infer_instance

theorem Kept.way {keeps : Path → Bool} {q r : Path} (h : Kept keeps (q ++ r)) : Kept keeps q := by
  intro s hs hne
  apply h s _ hne
  rw [List.mem_inits] at hs ⊢
  exact hs.trans (List.prefix_append _ _)

theorem kept_nil (keeps : Path → Bool) : Kept keeps [] := by
  intro s hs hne
  exact (hne (List.prefix_nil.mp ((List.mem_inits _ _).mp hs))).elim

/-- Take away what stands below a directory, but for what is kept. -/
def Disk.thin (d : Disk) (p : Path) (keeps : Path → Bool) : Disk where
  at_ q := if p <+: q ∧ ¬ Kept keeps (q.drop p.length) then none else d.at_ q
  closed :=
    { root := by
        rw [if_neg, d.closed.root]
        rintro ⟨hp, hno⟩
        rw [List.prefix_nil.mp hp] at hno
        exact hno (kept_nil keeps)
      parent := by
        intro q x hq
        split at hq
        · exact (hq rfl).elim
        · rename_i hx
          rw [if_neg]
          · exact d.closed.parent q x hq
          · rintro ⟨⟨r, rfl⟩, hno⟩
            apply hx
            refine ⟨(List.prefix_append _ _).trans (List.prefix_append _ _), ?_⟩
            rw [List.append_assoc, List.drop_left]
            rw [List.drop_left] at hno
            exact fun h => hno h.way
      name := by
        intro q x hq
        split at hq
        · exact (hq rfl).elim
        · exact d.closed.name q x hq }
  known := d.known
  listed := by
    intro q hq
    split at hq
    · exact (hq rfl).elim
    · exact d.listed q hq

/-- The names that a directory lists. -/
def Disk.names (d : Disk) (p : Path) : List FileName :=
  (d.known.filterMap (fun q =>
    match q.getLast? with
    | some name => if q.dropLast = p ∧ d.exists_ q then some name else none
    | none => none)).dedup.filterMap
      (fun name => if h : IsName name then some ⟨name, h⟩ else none)

/-! ## Calls -/

/-- A file stands on the way. -/
def Disk.blocked (d : Disk) (p : Path) : Bool := p.inits.any d.is_file

/-- Nothing stands below. -/
def Disk.bare (d : Disk) (p : Path) : Bool :=
  d.known.all (fun q => !(p.isPrefixOf q && decide (q ≠ p) && d.exists_ q))

/-- Make the directories on the way to a path, as far as `k` of them. -/
def make_dirs (d : Disk) (p : Path) (k : Nat) : Except String Disk :=
  if hnames : ∀ c ∈ p, IsEntry c then
    if d.blocked p then .error "Not a directory (os error 20)" else .ok (d.mkdirs p k hnames)
  else .error "Invalid argument (os error 22)"

def create_dir_all (d : Disk) (p : Path) : Except String Disk := make_dirs d p p.length

def remove_dir_all (d : Disk) (p : Path) : Except String Disk :=
  if h : p ≠ [] ∧ d.at_ p = some .dir then .ok (d.drop p h.1)
  else if d.exists_ p then .error "Not a directory (os error 20)"
  else .error "No such file or directory (os error 2)"

def remove_file (d : Disk) (p : Path) : Except String Disk :=
  if h : p ≠ [] ∧ d.is_file p then .ok (d.drop p h.1)
  else .error "No such file or directory (os error 2)"

/-- The directory of a path and its name there. -/
def split_last (p : Path) : Option (Path × String) := p.getLast?.map (fun name => (p.dropLast, name))

def write (d : Disk) (p : Path) (bytes : Bytes) : Except String Disk :=
  match split_last p with
  | none => .error "Is a directory (os error 21)"
  | some (dir, name) =>
    if h : IsEntry name ∧ d.at_ dir = some .dir ∧ d.at_ (dir ++ [name]) ≠ some .dir then
      .ok (d.put dir name (.file bytes) h.1 h.2.1 h.2.2)
    else if d.is_dir p then .error "Is a directory (os error 21)"
    else .error "No such file or directory (os error 2)"

def read (d : Disk) (p : Path) : Except String Bytes :=
  match d.at_ p with
  | some (.file bytes) => .ok bytes
  | some .dir => .error "Is a directory (os error 21)"
  | none => .error "No such file or directory (os error 2)"

def copy (d : Disk) (src dst : Path) : Except String Disk :=
  match read d src with
  | .ok bytes => write d dst bytes
  | .error e => .error e

/-- A directory takes the place of nothing or of an empty directory, a file that of no
directory. -/
def Disk.gives_way (d : Disk) (src dst : Path) : Bool :=
  match d.at_ src, d.at_ dst with
  | some .dir, none => true
  | some .dir, some .dir => d.bare dst
  | some (.file _), some .dir => false
  | some (.file _), _ => true
  | _, _ => false

def rename (d : Disk) (src dst : Path) : Except String Disk :=
  match split_last dst with
  | none => .error "Device or resource busy (os error 16)"
  | some (dir, name) =>
    if h : IsEntry name ∧ d.at_ dir = some .dir ∧ src ≠ [] ∧ ¬ src <+: dir ++ [name] ∧
        d.gives_way src dst then
      .ok (d.graft src dir name h.1 h.2.1 h.2.2.1 h.2.2.2.1)
    else if d.is_dir dst then .error "Directory not empty (os error 39)"
    else .error "No such file or directory (os error 2)"

/-! ## What the calls do -/

section Laws
variable {d d' : Disk} {p src dst : Path} {bytes : Bytes} {e : String}

@[simp] theorem split_last_concat (dir : Path) (name : String) :
    split_last (dir ++ [name]) = some (dir, name) := by
  simp [split_last]

theorem blocked_iff : d.blocked p = true ↔ ∃ q b, q <+: p ∧ d.at_ q = some (.file b) := by
  unfold Disk.blocked Disk.is_file
  rw [List.any_eq_true]
  constructor
  · rintro ⟨q, hq, hfile⟩
    split at hfile
    · rename_i b hb
      exact ⟨q, b, (List.mem_inits _ _).mp hq, hb⟩
    · cases hfile
  · rintro ⟨q, b, hq, hb⟩
    exact ⟨q, (List.mem_inits _ _).mpr hq, by rw [hb]⟩

theorem bare_iff : d.bare p = true ↔ ∀ q, q ≠ [] → d.at_ (p ++ q) = none := by
  unfold Disk.bare Disk.exists_
  rw [List.all_eq_true]
  constructor
  · intro h q hne
    by_contra hq
    have hout := h _ (d.listed _ hq)
    have hsome : (d.at_ (p ++ q)).isSome = true := Option.isSome_iff_ne_none.mpr hq
    have hpre : p.isPrefixOf (p ++ q) = true :=
      List.isPrefixOf_iff_prefix.mpr (List.prefix_append _ _)
    simp [hsome, hpre, hne] at hout
  · intro h q _
    by_cases hpre : p <+: q
    · obtain ⟨r, rfl⟩ := hpre
      by_cases hne : r = []
      · simp [hne]
      · simp [h r hne]
    · have hfalse : p.isPrefixOf q = false := by
        rw [Bool.eq_false_iff]
        exact fun h => hpre (List.isPrefixOf_iff_prefix.mp h)
      simp [hfalse]

/-- Making directories succeeds exactly where their names are names and no file is in the way. -/
theorem make_dirs_cases (d : Disk) (p : Path) (k : Nat) :
    (∃ d', make_dirs d p k = .ok d' ∧ (∀ c ∈ p, IsEntry c) ∧ d.blocked p = false ∧
        ∀ q, d'.at_ q = if q <+: p ∧ q.length ≤ k then some .dir else d.at_ q) ∨
      ∃ e, make_dirs d p k = .error e ∧ ((∀ c ∈ p, IsEntry c) → d.blocked p = true) := by
  unfold make_dirs
  by_cases hnames : ∀ c ∈ p, IsEntry c
  · rw [dif_pos hnames]
    cases hblocked : d.blocked p with
    | true => exact .inr ⟨_, rfl, fun _ => rfl⟩
    | false => exact .inl ⟨_, rfl, hnames, rfl, fun q => rfl⟩
  · rw [dif_neg hnames]
    exact .inr ⟨_, rfl, fun h => (hnames h).elim⟩

theorem create_dir_all_cases (d : Disk) (p : Path) :
    (∃ d', create_dir_all d p = .ok d' ∧ (∀ c ∈ p, IsEntry c) ∧ d.blocked p = false ∧
        ∀ q, d'.at_ q = if q <+: p then some .dir else d.at_ q) ∨
      ∃ e, create_dir_all d p = .error e ∧ ((∀ c ∈ p, IsEntry c) → d.blocked p = true) := by
  rcases make_dirs_cases d p p.length with ⟨d', hok, hnames, hblocked, hat⟩ | h
  · refine .inl ⟨d', hok, hnames, hblocked, ?_⟩
    intro q
    rw [hat q]
    apply if_congr _ rfl rfl
    exact ⟨fun h => h.1, fun h => ⟨h, h.length_le⟩⟩
  · exact .inr h

theorem remove_dir_all_cases (d : Disk) (p : Path) :
    (∃ d', remove_dir_all d p = .ok d' ∧ p ≠ [] ∧ d.at_ p = some .dir ∧
        ∀ q, d'.at_ q = if p <+: q then none else d.at_ q) ∨
      ∃ e, remove_dir_all d p = .error e ∧ (p ≠ [] → d.at_ p ≠ some .dir) := by
  unfold remove_dir_all
  by_cases h : p ≠ [] ∧ d.at_ p = some .dir
  · rw [dif_pos h]
    exact .inl ⟨_, rfl, h.1, h.2, fun q => rfl⟩
  · rw [dif_neg h]
    right
    have hno : p ≠ [] → d.at_ p ≠ some .dir := fun hp hdir => h ⟨hp, hdir⟩
    split
    · exact ⟨_, rfl, hno⟩
    · exact ⟨_, rfl, hno⟩

/-- A file can be written at a name in a directory where no directory stands. -/
theorem write_cases (d : Disk) (dir : Path) (name : String) (bytes : Bytes) :
    (∃ d', write d (dir ++ [name]) bytes = .ok d' ∧ IsEntry name ∧ d.at_ dir = some .dir ∧
        d.at_ (dir ++ [name]) ≠ some .dir ∧
        ∀ q, d'.at_ q = if q = dir ++ [name] then some (.file bytes) else d.at_ q) ∨
      ∃ e, write d (dir ++ [name]) bytes = .error e ∧
        (IsEntry name → d.at_ dir = some .dir → d.at_ (dir ++ [name]) = some .dir) := by
  unfold write
  rw [split_last_concat]
  dsimp only
  by_cases h : IsEntry name ∧ d.at_ dir = some .dir ∧ d.at_ (dir ++ [name]) ≠ some .dir
  · rw [dif_pos h]
    exact .inl ⟨_, rfl, h.1, h.2.1, h.2.2, fun q => rfl⟩
  · rw [dif_neg h]
    right
    have hno : IsEntry name → d.at_ dir = some .dir → d.at_ (dir ++ [name]) = some .dir := by
      intro hname hdir
      by_contra hfree
      exact h ⟨hname, hdir, hfree⟩
    split
    · exact ⟨_, rfl, hno⟩
    · exact ⟨_, rfl, hno⟩

/-- What moves stands behind its new place, and nothing at its old one. -/
theorem rename_cases (d : Disk) (src dir : Path) (name : String) :
    (∃ d', rename d src (dir ++ [name]) = .ok d' ∧ IsEntry name ∧ d.at_ dir = some .dir ∧
        ¬ src <+: dir ++ [name] ∧ d.gives_way src (dir ++ [name]) = true ∧
        (∀ q, d'.at_ (dir ++ [name] ++ q) = d.at_ (src ++ q)) ∧
        ∀ q, ¬ dir ++ [name] <+: q → d'.at_ q = if src <+: q then none else d.at_ q) ∨
      ∃ e, rename d src (dir ++ [name]) = .error e ∧
        (IsEntry name → d.at_ dir = some .dir → ¬ src <+: dir ++ [name] →
          d.gives_way src (dir ++ [name]) = false) := by
  unfold rename
  rw [split_last_concat]
  dsimp only
  by_cases h : IsEntry name ∧ d.at_ dir = some .dir ∧ src ≠ [] ∧ ¬ src <+: dir ++ [name] ∧
      d.gives_way src (dir ++ [name])
  · rw [dif_pos h]
    refine .inl ⟨_, rfl, h.1, h.2.1, h.2.2.2.1, h.2.2.2.2, ?_, ?_⟩
    · intro q
      unfold Disk.graft
      dsimp only
      rw [if_pos (List.prefix_append _ _), List.drop_left]
    · intro q hq
      exact if_neg hq
  · rw [dif_neg h]
    right
    have hno : IsEntry name → d.at_ dir = some .dir → ¬ src <+: dir ++ [name] →
        d.gives_way src (dir ++ [name]) = false := by
      intro hname hdir hsrc
      rw [Bool.eq_false_iff]
      intro hgives
      apply h
      refine ⟨hname, hdir, ?_, hsrc, hgives⟩
      rintro rfl
      exact hsrc (List.nil_prefix)
    split
    · exact ⟨_, rfl, hno⟩
    · exact ⟨_, rfl, hno⟩

end Laws

/-! ## Below one directory -/

theorem not_prefix_self (p : Path) (name : String) : ¬ p ++ [name] <+: p := by
  intro hpre
  have hlength := hpre.length_le
  simp only [List.length_append, List.length_singleton] at hlength
  omega

/-- Nothing differs but below the path. -/
def Beside (p : Path) (d d' : Disk) : Prop := ∀ q, ¬ p <+: q → d'.at_ q = d.at_ q

theorem Beside.refl (p : Path) (d : Disk) : Beside p d d := fun _ _ => rfl

theorem Beside.trans {p : Path} {d d' d'' : Disk} (h : Beside p d d') (h' : Beside p d' d'') :
    Beside p d d'' := by
  intro q hq
  rw [h' q hq, h q hq]

/-- What is apart from the path stands as before. -/
theorem Beside.under {p r : Path} {d d' : Disk} (h : Beside p d d') (hout : ¬ p <+: r)
    (hin : ¬ r <+: p) : d'.under r = d.under r := by
  funext q
  apply h
  intro hpre
  rcases List.prefix_or_prefix_of_prefix hpre (List.prefix_append r q) with hpre | hpre
  · exact hout hpre
  · exact hin hpre

/-- Directories on the way to a path. -/
def lay_dirs (c : Contents) (q : Path) : Contents := fun r => if r <+: q then some .dir else c r

def lay_bytes (c : Contents) (q : Path) (bytes : Bytes) : Contents :=
  fun r => if r = q then some (.file bytes) else c r

/-- What is kept. -/
def thinned (c : Contents) (keeps : Path → Bool) : Contents :=
  fun q => if Kept keeps q then c q else none

theorem thin_under (d : Disk) (p : Path) (keeps : Path → Bool) :
    (d.thin p keeps).under p = thinned (d.under p) keeps := by
  funext q
  unfold Disk.under Disk.thin thinned
  dsimp only
  rw [List.drop_left]
  by_cases hq : Kept keeps q
  · rw [if_neg (fun h => h.2 hq), if_pos hq]
  · rw [if_pos ⟨List.prefix_append _ _, hq⟩, if_neg hq]

/-- A file stands on the way. -/
def InWay (c : Contents) (q : Path) : Prop := ∃ r bytes, r <+: q ∧ c r = some (.file bytes)

def Node.is_file : Node → Bool
  | .file _ => true
  | .dir => false

theorem inWay_iff (c : Contents) (q : Path) :
    InWay c q ↔ ∃ r ∈ q.inits, (c r).any Node.is_file = true := by
  constructor
  · rintro ⟨r, bytes, hr, hfile⟩
    exact ⟨r, (List.mem_inits _ _).mpr hr, by simp [hfile, Node.is_file]⟩
  · rintro ⟨r, hr, hfile⟩
    obtain ⟨n, hn, hfile⟩ := (Option.any_eq_true _ _).mp hfile
    cases n with
    | file bytes => exact ⟨r, bytes, (List.mem_inits _ _).mp hr, hn⟩
    | dir => cases hfile

instance (c : Contents) (q : Path) : Decidable (InWay c q) := decidable_of_iff' _ (inWay_iff c q)

/-- What has a directory's names is made of entries. -/
theorem Closed.entries {c : Contents} (h : Closed c) {p : Path} (hp : c p ≠ none) :
    ∀ x ∈ p, IsEntry x := by
  induction p using List.reverseRecOn with
  | nil => simp
  | append_singleton p name ih =>
    intro x hx
    rcases List.mem_append.mp hx with hx | hx
    · exact ih (by simp [h.parent _ _ hp]) x hx
    · rw [List.mem_singleton.mp hx]
      exact h.name _ _ hp

/-- A path to a directory goes through directories. -/
theorem Closed.dirs {c : Contents} (h : Closed c) {p q : Path} (hp : c p = some .dir)
    (hq : q <+: p) : c q = some .dir := by
  obtain ⟨r, rfl⟩ := hq
  by_cases hr : r = []
  · simpa [hr] using hp
  · exact h.above (by simp [hp]) hr

section Below
variable {d : Disk} {p : Path}

theorem blocked_below (hp : d.at_ p = some .dir) (q : Path) :
    d.blocked (p ++ q) = true ↔ InWay (d.under p) q := by
  rw [blocked_iff]
  constructor
  · rintro ⟨r, bytes, hr, hfile⟩
    rcases List.prefix_or_prefix_of_prefix hr (List.prefix_append p q) with hpre | ⟨s, rfl⟩
    · rw [d.closed.dirs hp hpre] at hfile
      cases hfile
    · exact ⟨s, bytes, (List.prefix_append_right_inj p).mp hr, hfile⟩
  · rintro ⟨r, bytes, hr, hfile⟩
    exact ⟨p ++ r, bytes, (List.prefix_append_right_inj p).mpr hr, hfile⟩

theorem entries_below (hp : d.at_ p = some .dir) (q : Path) :
    (∀ x ∈ p ++ q, IsEntry x) ↔ ∀ x ∈ q, IsEntry x := by
  have hentries := d.closed.entries (p := p) (by simp [hp])
  constructor
  · exact fun h x hx => h x (List.mem_append_right _ hx)
  · intro h x hx
    rcases List.mem_append.mp hx with hx | hx
    · exact hentries x hx
    · exact h x hx

/-- Making directories below a directory, as far as `k` of them. -/
theorem make_dirs_below (hp : d.at_ p = some .dir) (q : Path) (k : Nat) :
    (∃ d', make_dirs d (p ++ q) k = .ok d' ∧ (∀ x ∈ q, IsEntry x) ∧ ¬ InWay (d.under p) q ∧
        Beside p d d' ∧ d'.at_ p = some .dir ∧
        ((p ++ q).length ≤ k → d'.under p = lay_dirs (d.under p) q)) ∨
      ∃ e, make_dirs d (p ++ q) k = .error e ∧
        ¬ ((∀ x ∈ q, IsEntry x) ∧ ¬ InWay (d.under p) q) := by
  rcases make_dirs_cases d (p ++ q) k with ⟨d', hok, hnames, hblocked, hat⟩ | ⟨e, herror, hno⟩
  · refine .inl ⟨d', hok, (entries_below hp q).mp hnames, ?_, ?_, ?_, ?_⟩
    · rw [← blocked_below hp, hblocked]
      simp
    · intro r hr
      rw [hat]
      split
      · rename_i hpre
        rcases List.prefix_or_prefix_of_prefix hpre.1 (List.prefix_append p q) with hpre | hpre
        · rw [d.closed.dirs hp hpre]
        · exact (hr hpre).elim
      · rfl
    · rw [hat]
      split
      · rfl
      · exact hp
    · intro hk
      funext r
      unfold Disk.under lay_dirs
      rw [hat]
      apply if_congr _ rfl rfl
      rw [List.prefix_append_right_inj]
      refine ⟨fun h => h.1, fun h => ⟨h, ?_⟩⟩
      have hlength := h.length_le
      simp only [List.length_append] at hk ⊢
      omega
  · refine .inr ⟨e, herror, ?_⟩
    rintro ⟨hnames, hway⟩
    apply hway
    rw [← blocked_below hp]
    exact hno ((entries_below hp q).mpr hnames)

/-- Writing a file below a directory. -/
theorem write_below_dir (hp : d.at_ p = some .dir) (q : Path) (name : String) (bytes : Bytes) :
    (∃ d', write d (p ++ (q ++ [name])) bytes = .ok d' ∧ IsEntry name ∧
        d.under p q = some .dir ∧ d.under p (q ++ [name]) ≠ some .dir ∧ Beside p d d' ∧
        d'.at_ p = some .dir ∧ d'.under p = lay_bytes (d.under p) (q ++ [name]) bytes) ∨
      ∃ e, write d (p ++ (q ++ [name])) bytes = .error e ∧
        (IsEntry name → d.under p q = some .dir → d.under p (q ++ [name]) = some .dir) := by
  have hcases := write_cases d (p ++ q) name bytes
  rw [List.append_assoc] at hcases
  rcases hcases with ⟨d', hok, hname, hdir, hfree, hat⟩ | ⟨e, herror, hno⟩
  · refine .inl ⟨d', hok, hname, hdir, hfree, ?_, ?_, ?_⟩
    · intro r hr
      rw [hat, if_neg]
      rintro rfl
      exact hr (List.prefix_append _ _)
    · rw [hat, if_neg, hp]
      intro heq
      have hlength := congrArg List.length heq
      simp at hlength
    · funext r
      unfold Disk.under lay_bytes
      rw [hat]
      apply if_congr _ rfl rfl
      exact List.append_right_inj p
  · exact .inr ⟨e, herror, hno⟩

theorem thin_beside (p : Path) (keeps : Path → Bool) : Beside p d (d.thin p keeps) := by
  intro q hq
  exact if_neg (fun h => hq h.1)

end Below

end disk
