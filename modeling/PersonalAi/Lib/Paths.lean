-- Paths on a POSIX system: their components, and the place they lead to.
import Mathlib.Data.List.Basic
import PersonalAi.Lib.Chars

open text

namespace paths

/-- An absolute path, as its components behind the root. -/
abbrev Path := List String

/-- The text names one entry of a directory. -/
def IsName (s : String) : Prop := s ≠ "" ∧ s ≠ "." ∧ s ≠ ".." ∧ '/' ∉ s.toList

instance (s : String) : Decidable (IsName s) := by
  unfold IsName
  infer_instance

/-- A name that a directory lists. -/
structure FileName where
  text : String
  is_name : IsName text

/-- `Path::components` without the root: empty parts and dots are dropped. -/
def components (s : String) : List String :=
  ((s.toList.splitOn '/').map String.ofList).filter (fun c => decide (c ≠ "") && decide (c ≠ "."))

def is_absolute (s : String) : Bool := s.toList.head? == some '/'

def join (base : Path) (s : String) : Path :=
  if is_absolute s then components s else base ++ components s

/-- The text does not end in a slash or in a dot for a name: a file can be made there. -/
def names_file (s : String) : Bool :=
  match (s.toList.splitOn '/').getLast? with
  | some last => decide (last ≠ []) && decide (last ≠ ['.'])
  | none => false

def parent (p : Path) : Path := p.dropLast

def file_name (p : Path) : Option String := p.getLast?.filter (fun c => decide (c ≠ ".."))

/-- What `Path::file_stem` leaves of a name: a dot at its start begins no extension. -/
def file_stem (name : String) : String :=
  match text.rsplit_once '.' name.toList with
  | some (before, _) => if before = [] then name else String.ofList before
  | none => name

/-- `Path::with_extension`, for an extension that is not empty. -/
def with_extension (p : Path) (extension : String) : Path :=
  match file_name p with
  | some name => p.dropLast ++ [file_stem name ++ "." ++ extension]
  | none => p

/-- One step of the lookup of a path. No directory is a link. -/
def step (place : Path) (c : String) : Path := if c = ".." then place.dropLast else place ++ [c]

/-- The place a path leads to. -/
def resolve (p : Path) : Path := p.foldl step []

/-- The path never goes up. -/
def Down (p : Path) : Prop := ".." ∉ p

theorem down_names (names : List FileName) : Down (names.map FileName.text) := by
  intro h
  obtain ⟨n, _, hn⟩ := List.mem_map.mp h
  exact n.is_name.2.2.1 hn

theorem foldl_step_down (place q : Path) (h : Down q) : q.foldl step place = place ++ q := by
  induction q generalizing place with
  | nil => simp
  | cons c q ih =>
    simp only [Down, List.mem_cons, not_or] at h
    rw [List.foldl_cons, ih _ h.2, step, if_neg (Ne.symm h.1)]
    simp

/-- A path that never goes up leads where it says. -/
theorem resolve_down (p : Path) (h : Down p) : resolve p = p := by
  rw [resolve, foldl_step_down [] p h, List.nil_append]

/-- Two dots behind a path lead to its parent. -/
theorem resolve_up (p : Path) (h : Down p) : resolve (p ++ [".."]) = p.dropLast := by
  have hp := resolve_down p h
  unfold resolve at hp ⊢
  rw [List.foldl_append, hp]
  rfl

theorem down_append {p q : Path} (hp : Down p) (hq : Down q) : Down (p ++ q) := by
  intro h
  rcases List.mem_append.mp h with h | h
  · exact hp h
  · exact hq h

theorem down_dropLast {p : Path} (h : Down p) : Down p.dropLast :=
  fun hm => h (List.dropLast_subset p hm)

theorem components_of_no_slash {s : String} (h : '/' ∉ s.toList) :
    components s = if s = "" ∨ s = "." then [] else [s] := by
  have hsplit : s.toList.splitOn '/' = [s.toList] := by
    have hls : ∀ l ∈ [s.toList], '/' ∉ l := by simpa using h
    have hround := List.splitOn_intercalate '/' hls (by simp)
    simpa using hround
  unfold components
  rw [hsplit]
  by_cases h1 : s = ""
  · simp [h1]
  · by_cases h2 : s = "."
    · simp [h2]
    · simp [h1, h2]

theorem components_name {s : String} (h : IsName s) : components s = [s] := by
  rw [components_of_no_slash h.2.2.2, if_neg]
  rintro (h1 | h1)
  · exact h.1 h1
  · exact h.2.1 h1

theorem join_name (base : Path) {s : String} (h : IsName s) : join base s = base ++ [s] := by
  have habs : is_absolute s = false := by
    have := h.2.2.2
    unfold is_absolute
    cases hs : s.toList with
    | nil => rfl
    | cons c cs =>
      rw [hs] at this
      simp only [List.mem_cons, not_or] at this
      simpa using Ne.symm this.1
  simp [join, habs, components_name h]

/-- The components of two texts with a slash between them. -/
theorem components_slash (a b : String) :
    components (a ++ "/" ++ b) = components a ++ components b := by
  have htext : (a ++ "/" ++ b).toList = a.toList ++ '/' :: b.toList := by simp
  unfold components
  rw [htext, List.splitOn_append_cons_self, List.map_append, List.filter_append]

/-- The characters of a component are characters of the text. -/
theorem chars_of_component {s c : String} (hc : c ∈ components s) {x : Char} (hx : x ∈ c.toList) :
    x ∈ s.toList := by
  unfold components at hc
  obtain ⟨l, hl, rfl⟩ := List.mem_map.mp (List.mem_of_mem_filter hc)
  rw [String.toList_ofList] at hx
  exact chars_of_splitOn hl hx

/-- Names with slashes between them are the components of the text. -/
theorem components_joined {q : Path} (h : ∀ c ∈ q, IsName c) : components ("/".intercalate q) = q := by
  induction q with
  | nil =>
    rw [String.intercalate_nil]
    decide
  | cons c q ih =>
    rw [List.forall_mem_cons] at h
    cases q with
    | nil =>
      rw [String.intercalate_singleton]
      exact components_name h.1
    | cons c' q =>
      rw [String.intercalate_cons_cons, components_slash, components_name h.1, ih h.2]
      rfl

theorem names_file_slash (a b : String) : names_file (a ++ "/" ++ b) = names_file b := by
  have htext : (a ++ "/" ++ b).toList = a.toList ++ '/' :: b.toList := by simp
  unfold names_file
  rw [htext, List.splitOn_append_cons_self,
    List.getLast?_append_of_ne_nil _ (List.splitOn_ne_nil _ _)]

theorem names_file_name {s : String} (h : IsName s) : names_file s = true := by
  have hempty : s.toList ≠ [] := by simpa using h.1
  have hdot : s.toList ≠ ['.'] := by
    intro heq
    apply h.2.1
    rw [← String.ofList_toList (s := s), heq]
  unfold names_file
  rw [List.splitOn_eq_singleton h.2.2.2]
  simp [hempty, hdot]

theorem names_file_joined {q : Path} (hq : q ≠ []) (h : ∀ c ∈ q, IsName c) :
    names_file ("/".intercalate q) = true := by
  induction q with
  | nil => exact (hq rfl).elim
  | cons c q ih =>
    rw [List.forall_mem_cons] at h
    cases q with
    | nil =>
      rw [String.intercalate_singleton]
      exact names_file_name h.1
    | cons c' q =>
      rw [String.intercalate_cons_cons, names_file_slash]
      exact ih (by simp) h.2

theorem not_absolute {c : String} (h : IsName c) (s : String) : is_absolute (c ++ s) = false := by
  unfold is_absolute
  rw [String.toList_append]
  rcases hc : c.toList with _ | ⟨x, xs⟩
  · exact (h.1 (by simpa using hc)).elim
  · have hx : x ≠ '/' := by
      rintro rfl
      apply h.2.2.2
      rw [hc]
      exact List.mem_cons_self
    simpa using hx

theorem joined_not_absolute {q : Path} (h : ∀ c ∈ q, IsName c) :
    is_absolute ("/".intercalate q) = false := by
  cases q with
  | nil =>
    rw [String.intercalate_nil]
    decide
  | cons c q =>
    rw [List.forall_mem_cons] at h
    cases q with
    | nil =>
      rw [String.intercalate_singleton, ← String.append_empty (s := c)]
      exact not_absolute h.1 ""
    | cons c' q =>
      rw [String.intercalate_cons_cons, String.append_assoc]
      exact not_absolute h.1 _

/-- What a path comes to when each `..` takes back the name before it: how many are left at the
start, and the names behind them. -/
def cancelled (p : Path) : Nat × Path :=
  p.foldl (fun s c =>
    if c = ".." then (if s.2 = [] then (s.1 + 1, []) else (s.1, s.2.dropLast))
    else (s.1, s.2 ++ [c])) (0, [])

theorem foldl_step_cancelled (base p : Path) :
    p.foldl step base = base.take (base.length - (cancelled p).1) ++ (cancelled p).2 := by
  have hrun : ∀ (p : Path) (s : Nat × Path),
      p.foldl step (base.take (base.length - s.1) ++ s.2) =
        base.take (base.length - (p.foldl (fun s c =>
          if c = ".." then (if s.2 = [] then (s.1 + 1, []) else (s.1, s.2.dropLast))
          else (s.1, s.2 ++ [c])) s).1) ++ (p.foldl (fun s c =>
          if c = ".." then (if s.2 = [] then (s.1 + 1, []) else (s.1, s.2.dropLast))
          else (s.1, s.2 ++ [c])) s).2 := by
    intro p
    induction p with
    | nil =>
      intro s
      rfl
    | cons c p ih =>
      intro s
      simp only [List.foldl_cons]
      rw [← ih]
      congr 1
      unfold step
      by_cases hc : c = ".."
      · rw [if_pos hc, if_pos hc]
        by_cases hs : s.2 = []
        · rw [if_pos hs, hs]
          simp only [List.append_nil]
          rw [List.dropLast_eq_take, List.take_take, List.length_take]
          congr 1
          omega
        · rw [if_neg hs]
          exact List.dropLast_append_of_ne_nil hs
      · rw [if_neg hc, if_neg hc]
        simp
  have hstart := hrun p (0, [])
  simpa [cancelled] using hstart

/-- Where a path behind a base leads: the base without as many names as `..` are left over, and
the names behind them. -/
theorem resolve_cancelled {base : Path} (h : Down base) (p : Path) :
    resolve (base ++ p) = base.take (base.length - (cancelled p).1) ++ (cancelled p).2 := by
  have hbase := resolve_down base h
  unfold resolve at hbase ⊢
  rw [List.foldl_append, hbase, foldl_step_cancelled]

/-- A path leads back under its base exactly where the names behind the `..` that are left over
begin with those that they took. -/
theorem prefix_resolve_iff {base : Path} (h : Down base) (p : Path) :
    base <+: resolve (base ++ p) ↔ base.drop (base.length - (cancelled p).1) <+: (cancelled p).2 := by
  generalize hm : base.length - (cancelled p).1 = m
  rw [resolve_cancelled h, hm]
  calc base <+: base.take m ++ (cancelled p).2
      ↔ base.take m ++ base.drop m <+: base.take m ++ (cancelled p).2 := by
        rw [List.take_append_drop]
    _ ↔ base.drop m <+: (cancelled p).2 := List.prefix_append_right_inj _

end paths
