-- Paths that lead through links: how long they can be, and where the calls that make directories and
-- files make them.
import PersonalAi.Lib.Links

open paths text

namespace links

/-- A part that a lookup passes over. -/
def is_dot (c : String) : Bool := decide (c = "") || decide (c = ".")

theorem is_dot_iff {c : String} : is_dot c = true ↔ c = "" ∨ c = "." := by simp [is_dot]

theorem not_dot_iff {c : String} : is_dot c = false ↔ ¬(c = "" ∨ c = ".") := by simp [is_dot]

theorem plain_of_not_dot {c : String} (hdot : is_dot c = false) (hup : c ≠ "..") : IsPlain c := by
  rw [not_dot_iff, not_or] at hdot
  exact ⟨hdot.1, hdot.2, hup⟩

theorem IsPlain.not_dot {c : String} (h : IsPlain c) : is_dot c = false :=
  not_dot_iff.mpr (not_or.mpr ⟨h.1, h.2.1⟩)

namespace Tree
variable {t t' : Tree} {create : Bool}

theorem solid_append (a b : List String) : solid (a ++ b) = solid a ++ solid b :=
  List.filter_append a b

theorem solid_dot {c : String} (hc : is_dot c = true) (rest : List String) :
    solid (c :: rest) = solid rest := solid_cons_dot (is_dot_iff.mp hc) rest

theorem solid_name {c : String} (hc : is_dot c = false) (rest : List String) :
    solid (c :: rest) = c :: solid rest := solid_cons_name (not_dot_iff.mp hc) rest

theorem solid_of_plain {names : List String} (h : ∀ c ∈ names, IsPlain c) : solid names = names := by
  induction names with
  | nil => rfl
  | cons c names ih =>
    rw [solid_name (h c List.mem_cons_self).not_dot,
      ih fun c hc => h c (List.mem_cons_of_mem _ hc)]

theorem settable_child {p : Path} {c : String} (hdir : t.nodes p = some .dir) (hc : IsPlain c)
    (hnone : t.nodes (p ++ [c]) = none) : t.Settable (p ++ [c]) :=
  ⟨by simp, .inl ⟨hnone, by simpa using hc, by simpa using hdir⟩⟩

/-! ## One step of a walk -/

section Step
variable {n : Nat} {place : Path} {c : String} {rest : List String}

theorem walk_not_dir (h : t.nodes place ≠ some .dir) :
    t.walk create n place (c :: rest) = .error .ENOTDIR := by
  obtain ⟨follow, hwalk⟩ := t.walk_with create n
  rw [hwalk, walkWith_cons, turn_not_dir h]

theorem walk_dot (hdir : t.nodes place = some .dir) (hc : is_dot c = true) :
    t.walk create n place (c :: rest) = t.walk create n place rest := by
  obtain ⟨follow, hwalk⟩ := t.walk_with create n
  rw [hwalk, walkWith_cons, turn_dot hdir (is_dot_iff.mp hc)]

theorem walk_missing (hdir : t.nodes place = some .dir) (hc : IsPlain c)
    (hnone : t.nodes (place ++ [c]) = none) : t.walk create n place (c :: rest) =
      if create ∧ rest = [] then .ok (place ++ [c]) else .error .ENOENT := by
  obtain ⟨follow, hwalk⟩ := t.walk_with create n
  rw [hwalk, walkWith_cons, turn_name hdir hc, hnone]

theorem walk_name (h : t.Real (place ++ [c])) :
    t.walk create n place (c :: rest) = t.walk create n (place ++ [c]) rest := by
  obtain ⟨follow, hwalk⟩ := t.walk_with create n
  rw [hwalk]
  exact @walkWith_along _ _ _ place [c] h rest

/-- A walk along directories. -/
theorem walk_through {parts tail : List String} (hup : ".." ∉ parts)
    (hdirs : ∀ start, start <+: solid parts → t.nodes (place ++ start) = some .dir) :
    t.walk create n place (parts ++ tail) = t.walk create n (place ++ solid parts) tail := by
  induction parts generalizing place with
  | nil => rw [show solid [] = [] from rfl, List.append_nil, List.nil_append]
  | cons c parts ih =>
    simp only [List.mem_cons, not_or] at hup
    have hdir : t.nodes place = some .dir := by simpa using hdirs [] List.nil_prefix
    rw [List.cons_append]
    cases hc : is_dot c with
    | true =>
      rw [solid_dot hc] at hdirs ⊢
      rw [walk_dot hdir hc]
      exact ih hup.2 hdirs
    | false =>
      rw [solid_name hc] at hdirs ⊢
      have hnext : t.nodes (place ++ [c]) = some .dir :=
        hdirs [c] (List.cons_prefix_cons.mpr ⟨rfl, List.nil_prefix⟩)
      rw [walk_name (.inl hnext), ih hup.2, List.append_assoc, List.singleton_append]
      intro start hstart
      rw [List.append_assoc, List.singleton_append]
      exact hdirs _ (List.cons_prefix_cons.mpr ⟨rfl, hstart⟩)

end Step

/-! ## What a walk ends at -/

theorem walkWith_last_dot {follow : Path → List String → Except Errno Path} {place q : Path}
    {names : List String} {c : String} (hc : is_dot c = true)
    (hfollow : ∀ from_ rest q, follow from_ (rest ++ [c]) = .ok q → t.nodes q = some .dir)
    (h : t.walkWith create follow place (names ++ [c]) = .ok q) : t.nodes q = some .dir := by
  induction names generalizing place with
  | nil =>
    rw [List.nil_append] at h
    by_cases hdir : t.nodes place = some .dir
    · rw [walkWith_cons, turn_dot hdir (is_dot_iff.mp hc)] at h
      cases h
      exact hdir
    · rw [walkWith_cons, turn_not_dir hdir] at h
      cases h
  | cons d names ih =>
    rw [List.cons_append, walkWith_cons] at h
    cases hturn : t.turn place d with
    | on p =>
      rw [hturn] at h
      exact ih h
    | link p parts =>
      rw [hturn] at h
      dsimp only at h
      rw [← List.append_assoc] at h
      exact hfollow _ _ _ h
    | missing p =>
      rw [hturn] at h
      simp at h
    | not_dir =>
      rw [hturn] at h
      cases h

/-- A path that ends in a slash or a dot leads to a directory. -/
theorem walk_last_dot {n : Nat} {place q : Path} {names : List String} {c : String}
    (hc : is_dot c = true) (h : t.walk create n place (names ++ [c]) = .ok q) :
    t.nodes q = some .dir := by
  induction n generalizing place q names with
  | zero => exact walkWith_last_dot hc (fun _ _ _ h => by cases h) h
  | succ n ih => exact walkWith_last_dot hc (fun _ _ _ h => ih h) h

/-- In a tree in which only new nodes are more a name that is there leads on as it did. -/
theorem turn_grown (hgrown : ∀ p, t.nodes p ≠ none → t'.nodes p = t.nodes p) {place : Path}
    {c : String} (hthere : ∀ p, t.turn place c ≠ .missing p) (hdir : t.turn place c ≠ .not_dir) :
    t'.turn place c = t.turn place c := by
  have hplace : t.nodes place = some .dir := dir_of_turn rfl hdir
  have hplace' : t'.nodes place = t.nodes place := hgrown place (by simp [hplace])
  rcases @turn_cases t place c hplace with ⟨hdot, hturn⟩ | ⟨rfl, hturn⟩ | hc
  · rw [hturn, turn_dot (hplace'.trans hplace) hdot]
  · rw [hturn, turn_up (hplace'.trans hplace)]
  · have hnode : t'.nodes (place ++ [c]) = t.nodes (place ++ [c]) := by
      refine hgrown _ fun hnone => hthere (place ++ [c]) ?_
      rw [turn_name hplace hc, hnone]
    rw [turn_name hplace hc, turn_name (hplace'.trans hplace) hc, hnode]

theorem walkWith_grown {follow follow' : Path → List String → Except Errno Path} {place q : Path}
    {names : List String} (hgrown : ∀ p, t.nodes p ≠ none → t'.nodes p = t.nodes p)
    (hfollow : ∀ from_ rest q, follow from_ rest = .ok q → follow' from_ rest = .ok q)
    (h : t.walkWith false follow place names = .ok q) :
    t'.walkWith false follow' place names = .ok q := by
  induction names generalizing place with
  | nil => exact h
  | cons c names ih =>
    rw [walkWith_cons] at h ⊢
    cases hturn : t.turn place c with
    | on p =>
      rw [turn_grown hgrown (by simp [hturn]) (by simp [hturn]), hturn]
      rw [hturn] at h
      exact ih h
    | link p parts =>
      rw [turn_grown hgrown (by simp [hturn]) (by simp [hturn]), hturn]
      rw [hturn] at h
      exact hfollow _ _ _ h
    | missing p =>
      rw [hturn] at h
      simp at h
    | not_dir =>
      rw [hturn] at h
      cases h

/-- A walk ends where it did in a tree in which only new nodes are more. -/
theorem walk_grown {n : Nat} {place q : Path} {names : List String}
    (hgrown : ∀ p, t.nodes p ≠ none → t'.nodes p = t.nodes p)
    (h : t.walk false n place names = .ok q) : t'.walk false n place names = .ok q := by
  induction n generalizing place q names with
  | zero => exact walkWith_grown hgrown (fun _ _ _ h => h) h
  | succ n ih => exact walkWith_grown hgrown (fun _ _ _ h => ih h) h

/-! ## How many names a walk takes -/

section Depth
variable {height bound : Nat} {follow : Path → List String → Except Errno Path} {place q : Path}

/-- Between two links a walk goes deeper with each name. -/
theorem walkWith_names_le (hheight : ∀ p, t.nodes p ≠ none → p.length ≤ height)
    (hfollow : ∀ from_ rest names q, (∀ c ∈ names, IsPlain c) →
      follow from_ (rest ++ names) = .ok q → names.length ≤ bound)
    {names : List String} (hplain : ∀ c ∈ names, IsPlain c)
    (h : t.walkWith false follow place names = .ok q) :
    names.length ≤ (height - place.length) + (bound + 1) := by
  induction names generalizing place with
  | nil => exact Nat.zero_le _
  | cons c names ih =>
    have hrest : ∀ c ∈ names, IsPlain c := fun c hc => hplain c (List.mem_cons_of_mem _ hc)
    rw [walkWith_cons] at h
    cases hturn : t.turn place c with
    | on p =>
      rw [hturn] at h
      obtain ⟨rfl, hreal⟩ := turn_on_name (hplain c List.mem_cons_self) hturn
      have hle := ih hrest h
      have hdeep := hheight (place ++ [c]) hreal.ne_none
      rw [List.length_append, List.length_singleton] at hle hdeep
      rw [List.length_cons]
      omega
    | link p parts =>
      rw [hturn] at h
      have hle := hfollow _ _ names _ hrest h
      rw [List.length_cons]
      omega
    | missing p =>
      rw [hturn] at h
      simp at h
    | not_dir =>
      rw [hturn] at h
      cases h

theorem walkWith_behind_le (hheight : ∀ p, t.nodes p ≠ none → p.length ≤ height)
    (hfollow : ∀ from_ rest names q, (∀ c ∈ names, IsPlain c) →
      follow from_ (rest ++ names) = .ok q → names.length ≤ bound)
    {front names : List String} (hplain : ∀ c ∈ names, IsPlain c)
    (h : t.walkWith false follow place (front ++ names) = .ok q) :
    names.length ≤ height + (bound + 1) := by
  induction front generalizing place with
  | nil =>
    have hle := walkWith_names_le hheight hfollow hplain h
    omega
  | cons c front ih =>
    rw [List.cons_append, walkWith_cons] at h
    cases hturn : t.turn place c with
    | on p =>
      rw [hturn] at h
      exact ih h
    | link p parts =>
      rw [hturn] at h
      dsimp only at h
      rw [← List.append_assoc] at h
      have hle := hfollow _ _ _ _ hplain h
      omega
    | missing p =>
      rw [hturn] at h
      simp at h
    | not_dir =>
      rw [hturn] at h
      cases h

end Depth

/-- In a tree of bounded height no path is longer than the links that a lookup follows allow. -/
theorem walk_names_le {height n : Nat} (hheight : ∀ p, t.nodes p ≠ none → p.length ≤ height)
    {place q : Path} {front names : List String} (hplain : ∀ c ∈ names, IsPlain c)
    (h : t.walk false n place (front ++ names) = .ok q) :
    names.length ≤ (n + 1) * (height + 1) := by
  induction n generalizing place q front names with
  | zero =>
    have hle := @walkWith_behind_le t height 0 _ place q hheight (fun _ _ _ _ _ h => by cases h)
      front names hplain h
    omega
  | succ n ih =>
    have hle := walkWith_behind_le hheight (fun _ _ _ _ hplain h => ih hplain h) hplain h
    calc names.length ≤ height + ((n + 1) * (height + 1) + 1) := hle
      _ = (n + 1 + 1) * (height + 1) := by
        rw [Nat.succ_mul (n + 1)]
        omega

end Tree

namespace Os
variable {os os' : Os} {absolute : Bool} {front : List String} {place : Path}

/-! ## Behind a directory -/

/-- The walk that a lookup of parts is. -/
def walk (os : Os) (create : Bool) (absolute : Bool) (parts : List String) : Except Errno Path :=
  os.tree.walk create os.max_links (if absolute then [] else os.cwd) parts

theorem lookup_eq_walk {create : Bool} {parts : List String} (h : parts ≠ []) :
    os.lookup create ⟨absolute, parts⟩ = os.walk create absolute parts := by
  have hne : (⟨absolute, parts⟩ : PathBuf) ≠ ⟨false, []⟩ := by
    intro heq
    injection heq with _ hparts
    exact h hparts
  unfold lookup walk
  rw [if_neg hne]
  rfl

theorem is_dir_iff {parts : List String} (h : parts ≠ []) : os.is_dir ⟨absolute, parts⟩ = true ↔
    ∃ q, os.walk false absolute parts = .ok q ∧ os.tree.nodes q = some .dir := by
  unfold is_dir
  rw [lookup_eq_walk h]
  rcases os.walk false absolute parts with e | q
  · simp
  · simp

theorem is_dir_error {parts : List String} {e : Errno} (h : os.walk false absolute parts = .error e)
    (hne : parts ≠ []) (tail : List String) : os.is_dir ⟨absolute, parts ++ tail⟩ = false := by
  rw [Bool.eq_false_iff]
  intro hdir
  obtain ⟨q, hq, -⟩ := (is_dir_iff (by simp [hne])).mp hdir
  unfold walk at h hq
  rw [Tree.walk_error h tail] at hq
  cases hq

/-- More of a path leads on from directories only. -/
theorem is_dir_of_longer {parts more : List String} {x : String} {q : Path}
    (h : os.walk false absolute (parts ++ x :: more) = .ok q) (hne : parts ≠ []) :
    os.is_dir ⟨absolute, parts⟩ = true := by
  obtain ⟨mid, hmid⟩ := Tree.walk_prefix h
  obtain ⟨m, hm⟩ := Tree.walk_append hmid
  refine (is_dir_iff hne).mpr ⟨mid, hmid, ?_⟩
  by_contra hdir
  have hrest := hm false (x :: more)
  unfold walk at h
  rw [h, Tree.walk_not_dir hdir] at hrest
  cases hrest

/-- The next name of a path is in the directory. -/
theorem there_of_longer {parts more : List String} {c : String} {d q : Path}
    (h : os.walk false absolute (parts ++ c :: more) = .ok q)
    (hd : os.walk false absolute parts = .ok d) (hdir : os.tree.nodes d = some .dir)
    (hc : IsPlain c) : os.tree.nodes (d ++ [c]) ≠ none := by
  intro hnone
  obtain ⟨m, hm⟩ := Tree.walk_append hd
  have hrest := hm false (c :: more)
  unfold walk at h
  rw [h, Tree.walk_missing hdir hc hnone] at hrest
  simp at hrest

/-! ## Directories that are made -/

/-- The directories at the names behind a place are new, and nothing else is. -/
structure Extends (os : Os) (d : Path) (names : List String) (os' : Os) : Prop where
  made : ∀ start, start <+: names → start ≠ [] → os'.tree.nodes (d ++ start) = some .dir
  fresh : ∀ start, start <+: names → start ≠ [] → os.tree.nodes (d ++ start) = none
  kept : ∀ p, (∀ start, start <+: names → start ≠ [] → p ≠ d ++ start) →
    os'.tree.nodes p = os.tree.nodes p
  cwd : os'.cwd = os.cwd
  max_links : os'.max_links = os.max_links

section Extends
variable {d : Path} {names : List String} {c : String}

theorem Extends.refl (os : Os) (d : Path) : Extends os d [] os where
  made _ hstart hne := absurd (List.prefix_nil.mp hstart) hne
  fresh _ hstart hne := absurd (List.prefix_nil.mp hstart) hne
  kept _ _ := rfl
  cwd := rfl
  max_links := rfl

theorem Extends.grown (h : Extends os d names os') {p : Path} (hp : os.tree.nodes p ≠ none) :
    os'.tree.nodes p = os.tree.nodes p := by
  refine h.kept p fun start hstart hne heq => hp ?_
  rw [heq]
  exact h.fresh start hstart hne

/-- Nothing is below the last of them. -/
theorem Extends.end_none (h : Extends os d names os')
    (hfree : os.tree.nodes (d ++ names ++ [c]) = none) :
    os'.tree.nodes (d ++ names ++ [c]) = none := by
  rw [h.kept, hfree]
  intro start hstart _ heq
  have hlength := congrArg List.length heq
  have hle := hstart.length_le
  simp only [List.length_append, List.length_singleton] at hlength
  omega

theorem Extends.set (h : Extends os d names os') {p : Path} (hp : p = d ++ names ++ [c])
    (hfree : os.tree.nodes p = none) (hset : os'.tree.Settable p) :
    Extends os d (names ++ [c]) { os' with tree := os'.tree.set p .dir hset } where
  made start hstart hne := by
    rw [Tree.set_nodes]
    split
    · rfl
    · rename_i hother
      rcases List.prefix_concat_iff.mp hstart with rfl | hstart
      · rw [hp, List.append_assoc] at hother
        exact absurd rfl hother
      · exact h.made start hstart hne
  fresh start hstart hne := by
    rcases List.prefix_concat_iff.mp hstart with rfl | hstart
    · rw [← List.append_assoc, ← hp]
      exact hfree
    · exact h.fresh start hstart hne
  kept r hr := by
    rw [Tree.set_nodes, if_neg, h.kept]
    · intro start hstart hne
      exact hr start (hstart.trans (List.prefix_append _ _)) hne
    · rw [hp, List.append_assoc]
      exact hr (names ++ [c]) List.prefix_rfl (by simp)
  cwd := h.cwd
  max_links := h.max_links

end Extends

section Create
variable {d q : Path} {c : String} {up parts before rest : List String}

theorem mkdir_concat (os : Os) (absolute : Bool) (up : List String) (c : String) :
    os.mkdir ⟨absolute, up ++ [c]⟩ =
      match os.walk false absolute up with
      | .error e => (os, .error e)
      | .ok d =>
        if os.tree.nodes (d ++ [c]) ≠ none then (os, .error .EEXIST)
        else if h : os.tree.Settable (d ++ [c]) then
          ({ os with tree := os.tree.set (d ++ [c]) .dir h }, .ok ())
        else (os, .error .ENOTDIR) := by
  have hlast : (up ++ [c]).getLast? = some c := List.getLast?_concat
  have hfront : (up ++ [c]).dropLast = up := List.dropLast_concat
  unfold mkdir walk start
  dsimp only
  generalize (up ++ [c]).getLast? = last at hlast ⊢
  generalize (up ++ [c]).dropLast = front at hfront ⊢
  subst hlast hfront
  rfl

theorem create_dirs_concat (os : Os) (absolute : Bool) (up : List String) (c : String) :
    create_dirs absolute (up ++ [c]).reverse os =
      match os.mkdir ⟨absolute, up ++ [c]⟩ with
      | (os', .ok ()) => (os', .ok ())
      | (_, .error .ENOENT) =>
        match create_dirs absolute up.reverse os with
        | (os', .error e) => (os', .error e)
        | (os', .ok ()) =>
          match os'.mkdir ⟨absolute, up ++ [c]⟩ with
          | (os'', .ok ()) => (os'', .ok ())
          | (_, .error e) => (os', if os'.is_dir ⟨absolute, up ++ [c]⟩ then .ok () else .error e)
      | (_, .error e) => (os, if os.is_dir ⟨absolute, up ++ [c]⟩ then .ok () else .error e) := by
  have hback : (c :: up.reverse).reverse = up ++ [c] := by simp
  have hturned : (up ++ [c]).reverse = c :: up.reverse := List.reverse_concat' ..
  generalize up ++ [c] = parts at hback hturned ⊢
  subst hback
  rw [hturned]
  exact create_dirs.eq_2 ..

/-- A directory that is there is found by its name or by a dot. -/
theorem settable_of_missing (hwalk : os.walk false absolute (up ++ [c]) = .ok q)
    (hup : os.walk false absolute up = .ok d) (hnone : os.tree.nodes (d ++ [c]) = none) :
    ¬os.tree.Settable (d ++ [c]) := by
  intro hset
  obtain ⟨hdir, hplain⟩ := hset.parent
  obtain ⟨m, hm⟩ := Tree.walk_append hup
  have hlast := hm false [c]
  unfold walk at hwalk
  rw [hwalk, Tree.walk_missing hdir hplain hnone] at hlast
  simp at hlast

theorem create_dirs_existing (h : os.is_dir ⟨absolute, parts⟩ = true) (hne : parts ≠ []) :
    create_dirs absolute parts.reverse os = (os, .ok ()) := by
  obtain ⟨up, c, rfl⟩ : ∃ up c, parts = up ++ [c] := by
    rcases List.eq_nil_or_concat parts with rfl | ⟨up, c, rfl⟩
    · exact absurd rfl hne
    · exact ⟨up, c, List.concat_eq_append⟩
  obtain ⟨q, hwalk, -⟩ := (is_dir_iff hne).mp h
  obtain ⟨d, hd⟩ := Tree.walk_prefix hwalk
  have hd : os.walk false absolute up = .ok d := hd
  rw [create_dirs_concat, mkdir_concat, hd]
  by_cases hnone : os.tree.nodes (d ++ [c]) = none
  · simp only [hnone, ne_eq, not_true_eq_false, if_false, settable_of_missing hwalk hd hnone,
      dite_false, h, if_true]
  · simp only [hnone, ne_eq, not_false_eq_true, if_true, h]

/-- Behind `front` the names before `c` lead to the directory `d`, and there is no `c` in it. -/
structure Missing (os : Os) (absolute : Bool) (front parts before : List String) (c : String)
    (rest : List String) (d : Path) : Prop where
  parts : parts = before ++ c :: rest
  plain : IsPlain c
  walk : os.walk false absolute (front ++ before) = .ok d
  dir : os.tree.nodes d = some .dir
  none : os.tree.nodes (d ++ [c]) = none

/-- The new directories are found along the path. -/
theorem Missing.walk_made (h : Missing os absolute front parts before c rest d)
    (hup : ".." ∉ rest) (hext : Extends os d (c :: Tree.solid rest) os') :
    ∃ m, ∀ create tail, os'.walk create absolute (front ++ parts ++ tail) =
      os'.tree.walk create m (d ++ c :: Tree.solid rest) tail := by
  have hgrown : ∀ p, os.tree.nodes p ≠ .none → os'.tree.nodes p = os.tree.nodes p :=
    fun p hp => hext.grown hp
  obtain ⟨m, hm⟩ := Tree.walk_append (Tree.walk_grown hgrown h.walk)
  refine ⟨m, fun create tail => ?_⟩
  have hdir : os'.tree.nodes d = some .dir := by
    rw [hgrown d (by simp [h.dir]), h.dir]
  have hsolid : Tree.solid (c :: rest) = c :: Tree.solid rest := Tree.solid_name h.plain.not_dot rest
  have hnames : ".." ∉ c :: rest := by
    simp only [List.mem_cons, not_or]
    exact ⟨Ne.symm h.plain.2.2, hup⟩
  have hthrough := @Tree.walk_through os'.tree create m d (c :: rest) tail hnames (by
    intro start hstart
    rw [hsolid] at hstart
    by_cases hempty : start = []
    · rw [hempty, List.append_nil]
      exact hdir
    · exact hext.made start hstart hempty)
  rw [hsolid] at hthrough
  unfold Os.walk
  rw [hext.max_links, hext.cwd, h.parts, ← hthrough, ← hm create (c :: rest ++ tail)]
  simp only [List.append_assoc]

/-- The walk along a path with missing directories fails. -/
theorem Missing.walk_error (h : Missing os absolute front parts before c rest d) :
    os.walk false absolute (front ++ parts) = .error .ENOENT := by
  obtain ⟨m, hm⟩ := Tree.walk_append h.walk
  have hmiss := hm false (c :: rest)
  rw [Tree.walk_missing h.dir h.plain h.none] at hmiss
  unfold Os.walk
  rw [h.parts, ← List.append_assoc]
  simpa using hmiss

/-- The last name is the one that is missing, or one is missing before it. -/
theorem Missing.of_concat {x : String} (h : Missing os absolute front (parts ++ [x]) before c rest d) :
    (before = parts ∧ c = x ∧ rest = []) ∨ ∃ rest', Missing os absolute front parts before c rest' d := by
  have hparts := h.parts
  rcases List.eq_nil_or_concat rest with rfl | ⟨rest', y, rfl⟩
  · obtain ⟨hbefore, hc⟩ := List.append_inj' hparts rfl
    injection hc with hc
    exact .inl ⟨hbefore.symm, hc.symm, rfl⟩
  · rw [List.concat_eq_append, ← List.cons_append, ← List.append_assoc] at hparts
    exact .inr ⟨rest', (List.append_inj' hparts rfl).1, h.plain, h.walk, h.dir, h.none⟩

/-- How `create_dirs` ends: nothing is made, or all that is missing. -/
def Ends (os : Os) (absolute : Bool) (front parts : List String) (r : Os × Except Errno Unit) : Prop :=
  (r.1 = os ∧ (r.2 = .ok () ↔ os.is_dir ⟨absolute, front ++ parts⟩ = true) ∧
      ∀ before c rest d, ¬Missing os absolute front parts before c rest d) ∨
    ∃ before c rest d, Missing os absolute front parts before c rest d ∧ r.2 = .ok () ∧
      Extends os d (c :: Tree.solid rest) r.1

theorem ends_existing {e : Errno}
    (hnone : ∀ before c rest d, ¬Missing os absolute front parts before c rest d) :
    Ends os absolute front parts
      (os, if os.is_dir ⟨absolute, front ++ parts⟩ then .ok () else .error e) := by
  refine .inl ⟨rfl, ?_, hnone⟩
  cases os.is_dir ⟨absolute, front ++ parts⟩ with
  | true => simp
  | false => simp

/-- The directory above is there. -/
theorem ends_below (hd : os.walk false absolute (front ++ parts) = .ok d) :
    Ends os absolute front (parts ++ [c])
      (create_dirs absolute (front ++ (parts ++ [c])).reverse os) := by
  rw [← List.append_assoc, create_dirs_concat, mkdir_concat, hd, List.append_assoc]
  by_cases hset : os.tree.nodes (d ++ [c]) = none ∧ os.tree.Settable (d ++ [c])
  · obtain ⟨hnone, hset⟩ := hset
    obtain ⟨hdir, hplain⟩ := hset.parent
    simp only [hnone, ne_eq, not_true_eq_false, if_false, hset, dite_true]
    refine .inr ⟨parts, c, [], d, ⟨rfl, hplain, hd, hdir, hnone⟩, rfl, ?_⟩
    have hend : d ++ [c] = d ++ [] ++ [c] := by simp
    exact (Extends.refl os d).set hend hnone hset
  · have hthere : ∀ before x rest d', ¬Missing os absolute front (parts ++ [c]) before x rest d' := by
      intro before x rest d' hmissing
      rcases hmissing.of_concat with ⟨rfl, rfl, rfl⟩ | ⟨rest', hmissing'⟩
      · have hwalk := hmissing.walk
        rw [hd] at hwalk
        cases hwalk
        exact hset ⟨hmissing.none, Tree.settable_child hmissing.dir hmissing.plain hmissing.none⟩
      · have herror := hmissing'.walk_error
        rw [hd] at herror
        cases herror
    by_cases hnone : os.tree.nodes (d ++ [c]) = none
    · have hset : ¬os.tree.Settable (d ++ [c]) := fun h => hset ⟨hnone, h⟩
      simp only [hnone, ne_eq, not_true_eq_false, if_false, hset, dite_false]
      exact ends_existing hthere
    · simp only [hnone, ne_eq, not_false_eq_true, if_true]
      exact ends_existing hthere

/-- The directory above is missing, and it is made. -/
theorem ends_made (hmissing : Missing os absolute front parts before x rest d)
    (hext : Extends os d (x :: Tree.solid rest) os') (hup : ".." ∉ rest) (hc : c ≠ "..") :
    Ends os absolute front (parts ++ [c])
      (match os'.mkdir ⟨absolute, front ++ (parts ++ [c])⟩ with
        | (os'', .ok ()) => (os'', .ok ())
        | (_, .error e) =>
          (os', if os'.is_dir ⟨absolute, front ++ (parts ++ [c])⟩ then .ok () else .error e)) := by
  obtain ⟨m, hm⟩ := hmissing.walk_made hup hext
  have hend : os'.walk false absolute (front ++ parts) = .ok (d ++ x :: Tree.solid rest) := by
    have hnil := hm false []
    rwa [List.append_nil, Tree.walk_nil] at hnil
  have hdir : os'.tree.nodes (d ++ x :: Tree.solid rest) = some .dir :=
    hext.made _ List.prefix_rfl (by simp)
  have hparts : parts ++ [c] = before ++ x :: (rest ++ [c]) := by simp [hmissing.parts]
  have hmissing' : Missing os absolute front (parts ++ [c]) before x (rest ++ [c]) d :=
    ⟨hparts, hmissing.plain, hmissing.walk, hmissing.dir, hmissing.none⟩
  rw [← List.append_assoc, mkdir_concat, hend]
  cases hdot : is_dot c with
  | true =>
    have hname : ¬IsPlain c := fun h => by simp [h.not_dot] at hdot
    have hnone : os'.tree.nodes (d ++ x :: Tree.solid rest ++ [c]) = none := by
      by_contra hthere
      exact hname (os'.tree.names _ c hthere)
    have hset : ¬os'.tree.Settable (d ++ x :: Tree.solid rest ++ [c]) :=
      fun h => hname h.parent.2
    have his_dir : os'.is_dir ⟨absolute, front ++ parts ++ [c]⟩ = true := by
      refine (is_dir_iff (by simp)).mpr ⟨_, ?_, hdir⟩
      rw [hm, Tree.walk_dot hdir hdot, Tree.walk_nil]
    simp only [hnone, ne_eq, not_true_eq_false, if_false, hset, dite_false, his_dir, if_true]
    refine .inr ⟨before, x, rest ++ [c], d, hmissing', rfl, ?_⟩
    rw [Tree.solid_append, Tree.solid_dot hdot]
    simpa [Tree.solid] using hext
  | false =>
    have hplain := plain_of_not_dot hdot hc
    have hfree : os.tree.nodes (d ++ x :: Tree.solid rest ++ [c]) = none := by
      have hbelow := Tree.none_below hmissing.none (Tree.solid rest ++ [c])
      simpa using hbelow
    have hnone := hext.end_none hfree
    have hset := Tree.settable_child hdir hplain hnone
    simp only [hnone, ne_eq, not_true_eq_false, if_false, hset, dite_true]
    refine .inr ⟨before, x, rest ++ [c], d, hmissing', rfl, ?_⟩
    rw [Tree.solid_append, Tree.solid_name hdot, ← List.cons_append]
    exact hext.set rfl hfree hset

theorem create_dirs_ends (hplace : os.walk false absolute front = .ok place)
    (hdir : os.tree.nodes place = some .dir) (hfront : front ≠ []) (hup : ".." ∉ parts) :
    Ends os absolute front parts (create_dirs absolute (front ++ parts).reverse os) := by
  induction parts using List.reverseRecOn with
  | nil =>
    have his_dir : os.is_dir ⟨absolute, front⟩ = true := (is_dir_iff hfront).mpr ⟨place, hplace, hdir⟩
    rw [List.append_nil, create_dirs_existing his_dir hfront]
    refine .inl ⟨rfl, by simp [his_dir], fun before c rest d hmissing => ?_⟩
    exact absurd hmissing.parts (by simp)
  | append_singleton parts c ih =>
    simp only [List.mem_append, List.mem_singleton, not_or] at hup
    rcases hwalk : os.walk false absolute (front ++ parts) with e | d
    · have hfalse : os.is_dir ⟨absolute, front ++ parts ++ [c]⟩ = false :=
        is_dir_error hwalk (by simp [hfront]) [c]
      have hmkdir : os.mkdir ⟨absolute, front ++ parts ++ [c]⟩ = (os, .error e) := by
        rw [mkdir_concat, hwalk]
      have hfirst (h : ∀ before x rest d, Missing os absolute front parts before x rest d → False) :
          ∀ before x rest d, ¬Missing os absolute front (parts ++ [c]) before x rest d := by
        intro before x rest d hmissing
        rcases hmissing.of_concat with ⟨rfl, -, -⟩ | ⟨rest', hmissing'⟩
        · have hthere := hmissing.walk
          rw [hwalk] at hthere
          cases hthere
        · exact h before x rest' d hmissing'
      have hhere : (front ++ (parts ++ [c])).reverse = (front ++ parts ++ [c]).reverse := by
        rw [List.append_assoc]
      rw [hhere, create_dirs_concat, hmkdir]
      by_cases he : e = .ENOENT
      · subst he
        rcases hrun : create_dirs absolute (front ++ parts).reverse os with ⟨os', r⟩
        have ih := ih hup.1
        rw [hrun] at ih
        rcases ih with ⟨hsame, hok, hnone⟩ | ⟨before, x, rest, d, hmissing, hok, hext⟩
        · have habove : os.is_dir ⟨absolute, front ++ parts⟩ = false := by
            simpa using is_dir_error hwalk (by simp [hfront]) []
          rw [habove] at hok
          cases r with
          | error e' =>
            refine .inl ⟨hsame, by simp [← List.append_assoc, hfalse], ?_⟩
            exact hfirst fun before x rest d hmissing => absurd hmissing (hnone before x rest d)
          | ok u => exact absurd (hok.mp rfl) (by simp)
        · dsimp only at hok hext
          subst hok
          have hrest : ".." ∉ rest := by
            rw [hmissing.parts] at hup
            simp only [List.mem_append, List.mem_cons, not_or] at hup
            exact hup.1.2.2
          have hends := ends_made hmissing hext hrest (Ne.symm hup.2)
          rw [← List.append_assoc] at hends
          exact hends
      · have hsame := @ends_existing os absolute front (parts ++ [c]) e (hfirst (by
          intro before x rest d hmissing
          have herror := hmissing.walk_error
          rw [hwalk] at herror
          cases herror
          exact he rfl))
        rw [← List.append_assoc] at hsame
        cases e <;> first | exact absurd rfl he | exact hsame
    · exact ends_below hwalk

/-- There is one first name that is missing. -/
theorem Missing.unique {before' rest' : List String} {c' : String} {d' : Path}
    (h : Missing os absolute front parts before c rest d)
    (h' : Missing os absolute front parts before' c' rest' d') :
    before = before' ∧ c = c' ∧ rest = rest' ∧ d = d' := by
  have hshort {b b' r r' : List String} {x x' : String} {e e' : Path}
      (h : Missing os absolute front parts b x r e)
      (h' : Missing os absolute front parts b' x' r' e') : ¬b.length < b'.length := by
    intro hlt
    obtain ⟨more, hmore⟩ : b ++ [x] <+: b' := by
      refine List.prefix_of_prefix_length_le ⟨r, ?_⟩ ⟨x' :: r', h'.parts.symm⟩
        (by simpa using Nat.succ_le_of_lt hlt)
      simp [h.parts]
    have hparts : b' = b ++ x :: more := by simp [← hmore]
    have hcut : Missing os absolute front b' b x more e :=
      ⟨hparts, h.plain, h.walk, h.dir, h.none⟩
    have herror := hcut.walk_error
    rw [h'.walk] at herror
    cases herror
  have hlength : before.length = before'.length :=
    Nat.le_antisymm (Nat.not_lt.mp (hshort h' h)) (Nat.not_lt.mp (hshort h h'))
  obtain ⟨hbefore, htail⟩ := List.append_inj (h.parts.symm.trans h'.parts) hlength
  injection htail with hc hrest
  subst hbefore
  have hd := h.walk
  rw [h'.walk] at hd
  injection hd with hd
  exact ⟨rfl, hc, hrest, hd.symm⟩

end Create

/-! ## Files that are written -/

section Write
variable {d : Path} {c last : String} {up before rest : List String}

/-- Where a file that is written stands. -/
def write_place (os : Os) (p : PathBuf) : Option Path :=
  match os.lookup true p with
  | .error _ => none
  | .ok q => if os.tree.Settable q then some q else none

/-- What `write` changes: the file at the place, if there is one. -/
theorem write_eq (os : Os) (p : PathBuf) (content : Bytes) :
    match os.write_place p with
    | none => (os.write p content).1 = os ∧ (os.write p content).2 ≠ .ok ()
    | some q => (os.write p content).2 = .ok () ∧ ∀ r, (os.write p content).1.tree.nodes r =
        if r = q then some (.file content) else os.tree.nodes r := by
  unfold write_place write
  rcases os.lookup true p with e | q
  · exact ⟨rfl, by simp⟩
  · by_cases hset : os.tree.Settable q
    · simp only [hset, if_true, dite_true]
      exact ⟨trivial, fun r => rfl⟩
    · simp only [hset, if_false, dite_false]
      exact ⟨trivial, by simp⟩

/-- No file is at a path that ends in a slash or a dot. -/
theorem write_place_dot (hlast : is_dot last = true) :
    os.write_place ⟨absolute, up ++ [last]⟩ = none := by
  unfold write_place
  rw [lookup_eq_walk (by simp)]
  rcases hwalk : os.walk true absolute (up ++ [last]) with e | q
  · rfl
  · have hdir := Tree.walk_last_dot hlast hwalk
    have hset : ¬os.tree.Settable q := fun h => h.not_dir hdir
    simp only [hset, if_false]

/-- The file in a directory that was missing. -/
theorem Missing.write_place (h : Missing os absolute front up before c rest d) (hup : ".." ∉ rest)
    (hext : Extends os d (c :: Tree.solid rest) os') (hlast : IsPlain last) :
    os'.write_place ⟨absolute, front ++ up ++ [last]⟩ =
      some (d ++ c :: Tree.solid rest ++ [last]) := by
  obtain ⟨m, hm⟩ := h.walk_made hup hext
  have hdir : os'.tree.nodes (d ++ c :: Tree.solid rest) = some .dir :=
    hext.made _ List.prefix_rfl (by simp)
  have hfree : os.tree.nodes (d ++ c :: Tree.solid rest ++ [last]) = .none := by
    have hbelow := Tree.none_below h.none (Tree.solid rest ++ [last])
    simpa using hbelow
  have hnone := hext.end_none hfree
  have hwalk := hm true [last]
  rw [Tree.walk_missing hdir hlast hnone, if_pos ⟨rfl, rfl⟩] at hwalk
  unfold Os.write_place
  rw [lookup_eq_walk (by simp), hwalk]
  simp only [Tree.settable_child hdir hlast hnone, if_true]

end Write

/-! ## Listings -/

/-- What the directories list. The tree has a height. -/
structure Listing (t : Tree) where
  entries : Path → List String
  lists : ∀ d c, c ∈ entries d ↔ t.nodes (d ++ [c]) ≠ none
  height : Nat
  low : ∀ p, t.nodes p ≠ none → p.length ≤ height

/-- The listing after a change. -/
def Listing.set {t : Tree} (listing : Listing t) {q : Path} (node : Node) (h : t.Settable q) :
    Listing (t.set q node h) where
  entries d :=
    if d ++ [q.getLastD ""] = q ∧ t.nodes q = none then q.getLastD "" :: listing.entries d
    else listing.entries d
  lists := by
    intro d c
    rw [Tree.set_nodes]
    by_cases hq : d ++ [c] = q
    · have hlast : q.getLastD "" = c := by simp [← hq]
      rw [if_pos hq, hlast]
      by_cases hnone : t.nodes q = none
      · rw [if_pos ⟨hq, hnone⟩]
        simp
      · rw [if_neg fun h => hnone h.2, listing.lists, hq]
        simp [hnone]
    · rw [if_neg hq, ← listing.lists]
      split
      · rename_i hother
        have hne : c ≠ q.getLastD "" := fun heq => hq (heq ▸ hother.1)
        simp only [List.mem_cons, hne, false_or]
      · rfl
  height := max listing.height q.length
  low := by
    intro p hp
    rw [Tree.set_nodes] at hp
    split at hp
    · rename_i hq
      rw [hq]
      exact Nat.le_max_right _ _
    · exact Nat.le_trans (listing.low p hp) (Nat.le_max_left _ _)

def read_dir (os : Os) (listing : Listing os.tree) (p : PathBuf) : Except Errno (List String) :=
  match os.lookup false p with
  | .error e => .error e
  | .ok d => if os.tree.nodes d = some .dir then .ok (listing.entries d) else .error .ENOTDIR

end Os

end links
