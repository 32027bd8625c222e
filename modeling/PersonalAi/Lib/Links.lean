-- Directory trees with symbolic links, and how an operating system looks a path up in them.
import PersonalAi.Lib.Paths

open paths text

namespace links

/-! ## Trees -/

/-- A path as it is given: what stands between its slashes. The relative path without parts is
the empty text. -/
structure PathBuf where
  absolute : Bool
  parts : List String
deriving DecidableEq, Repr

inductive Node
  | dir
  | file (content : Bytes)
  | link (target : PathBuf)
deriving DecidableEq

inductive Errno
  | ENOENT
  | ENOTDIR
  | ELOOP
  | EEXIST
  | EISDIR
deriving DecidableEq, Repr

def Errno.to_string : Errno → String
  | ENOENT => "No such file or directory (os error 2)"
  | ENOTDIR => "Not a directory (os error 20)"
  | ELOOP => "Too many levels of symbolic links (os error 40)"
  | EEXIST => "File exists (os error 17)"
  | EISDIR => "Is a directory (os error 21)"

def IsPlain (c : String) : Prop := c ≠ "" ∧ c ≠ "." ∧ c ≠ ".."

instance (c : String) : Decidable (IsPlain c) := inferInstanceAs (Decidable (_ ∧ _))

/-- What is at each place. A place is named by its path from the root without links. -/
structure Tree where
  nodes : Path → Option Node
  root : nodes [] = some .dir
  parents : ∀ p c, nodes (p ++ [c]) ≠ none → nodes p = some .dir
  names : ∀ p c, nodes (p ++ [c]) ≠ none → IsPlain c

namespace Tree
variable (t : Tree)

/-! ## Lookups -/

/-- One walk from a place. A link is followed by the walk that is given for it, and with `create`
the last name may be missing. -/
def walkWith (create : Bool) (follow : Path → List String → Except Errno Path) :
    Path → List String → Except Errno Path
  | place, [] => .ok place
  | place, c :: rest =>
    match t.nodes place with
    | some .dir =>
      if c = "" ∨ c = "." then walkWith create follow place rest
      else if c = ".." then walkWith create follow place.dropLast rest
      else
        match t.nodes (place ++ [c]) with
        | none => if create ∧ rest = [] then .ok (place ++ [c]) else .error .ENOENT
        | some (.link target) =>
          follow (if target.absolute then [] else place) (target.parts ++ rest)
        | some _ => walkWith create follow (place ++ [c]) rest
    | _ => .error .ENOTDIR

/-- A walk that follows as many links as it may. -/
def walk (create : Bool) : Nat → Path → List String → Except Errno Path
  | 0 => t.walkWith create fun _ _ => .error .ELOOP
  | n + 1 => t.walkWith create (walk create n)

/-- The place is there and is no link. -/
def Real (q : Path) : Prop := t.nodes q = some .dir ∨ ∃ content, t.nodes q = some (.file content)

/-- A file can be made at the place. -/
def Vacant (q : Path) : Prop :=
  t.nodes q = none ∧ ∃ d c, q = d ++ [c] ∧ IsPlain c ∧ t.nodes d = some .dir

variable {t}

theorem Real.ne_none {q : Path} (h : t.Real q) : t.nodes q ≠ none := by
  rcases h with h | ⟨content, h⟩ <;> simp [h]

theorem Real.not_link {q : Path} (h : t.Real q) (target : PathBuf) :
    t.nodes q ≠ some (.link target) := by
  rcases h with h | ⟨content, h⟩ <;> simp [h]

theorem real_of_not_link {q : Path} (h : t.nodes q ≠ none)
    (hlink : ∀ target, t.nodes q ≠ some (.link target)) : t.Real q := by
  rcases hnode : t.nodes q with _ | node
  · exact absurd hnode h
  · cases node with
    | dir => exact .inl hnode
    | file content => exact .inr ⟨content, hnode⟩
    | link target => exact absurd hnode (hlink target)

/-- What is above something that is there is a directory. -/
theorem ancestor_dir {p r : Path} (h : t.nodes (p ++ r) ≠ none) (hr : r ≠ []) :
    t.nodes p = some .dir := by
  induction r using List.reverseRecOn with
  | nil => exact absurd rfl hr
  | append_singleton r c ih =>
    have hparent : t.nodes (p ++ r) = some .dir := t.parents (p ++ r) c (by simpa using h)
    by_cases hnil : r = []
    · simpa [hnil] using hparent
    · exact ih (by simp [hparent]) hnil

theorem dropLast_dir {p : Path} (h : t.nodes p = some .dir) : t.nodes p.dropLast = some .dir := by
  rcases List.eq_nil_or_concat p with rfl | ⟨r, c, rfl⟩
  · exact t.root
  · rw [List.concat_eq_append] at h
    rw [List.concat_eq_append, List.dropLast_concat]
    exact t.parents r c (by simp [h])

/-! ## One name of a walk -/

/-- What a walk does with a name: it goes on, meets a link or nothing, or it is at no directory. -/
inductive Turn
  | on (place : Path)
  | link (place : Path) (parts : List String)
  | missing (place : Path)
  | not_dir

def turn (t : Tree) (place : Path) (c : String) : Turn :=
  match t.nodes place with
  | some .dir =>
    if c = "" ∨ c = "." then .on place
    else if c = ".." then .on place.dropLast
    else
      match t.nodes (place ++ [c]) with
      | none => .missing (place ++ [c])
      | some (.link target) => .link (if target.absolute then [] else place) target.parts
      | some _ => .on (place ++ [c])
  | _ => .not_dir

section Turn
variable {create : Bool} {follow : Path → List String → Except Errno Path}
variable {place p : Path} {c : String} {parts rest : List String}

theorem walkWith_cons (t : Tree) (create : Bool) (follow : Path → List String → Except Errno Path)
    (place : Path) (c : String) (rest : List String) :
    t.walkWith create follow place (c :: rest) =
      match t.turn place c with
      | .on p => t.walkWith create follow p rest
      | .link p parts => follow p (parts ++ rest)
      | .missing p => if create ∧ rest = [] then .ok p else .error .ENOENT
      | .not_dir => .error .ENOTDIR := by
  rw [walkWith, turn]
  split
  · split
    · rfl
    · split
      · rfl
      · split <;> rfl
  · rfl

theorem turn_not_dir (h : t.nodes place ≠ some .dir) : t.turn place c = .not_dir := by
  unfold turn
  split
  · exact absurd ‹_› h
  · rfl

theorem turn_dot (hdir : t.nodes place = some .dir) (hc : c = "" ∨ c = ".") :
    t.turn place c = .on place := by
  unfold turn
  rw [hdir]
  exact if_pos hc

theorem turn_up (hdir : t.nodes place = some .dir) : t.turn place ".." = .on place.dropLast := by
  unfold turn
  rw [hdir]
  rfl

/-- At a directory a name is looked up. -/
theorem turn_name (hdir : t.nodes place = some .dir) (hc : IsPlain c) :
    t.turn place c =
      match t.nodes (place ++ [c]) with
      | none => .missing (place ++ [c])
      | some (.link target) => .link (if target.absolute then [] else place) target.parts
      | some _ => .on (place ++ [c]) := by
  unfold turn
  rw [hdir]
  exact (if_neg (not_or.mpr ⟨hc.1, hc.2.1⟩)).trans (if_neg hc.2.2)

theorem turn_real (hdir : t.nodes place = some .dir) (h : t.Real (place ++ [c])) :
    t.turn place c = .on (place ++ [c]) := by
  rw [turn_name hdir (t.names place c h.ne_none)]
  rcases h with hnode | ⟨content, hnode⟩
  · rw [hnode]
  · rw [hnode]

/-- Whatever is done with a name, it is done at a directory, and what is no dot is a name. -/
theorem turn_cases (hdir : t.nodes place = some .dir) :
    (c = "" ∨ c = ".") ∧ t.turn place c = .on place ∨
      c = ".." ∧ t.turn place c = .on place.dropLast ∨ IsPlain c := by
  by_cases hdot : c = "" ∨ c = "."
  · exact .inl ⟨hdot, turn_dot hdir hdot⟩
  · by_cases hup : c = ".."
    · exact .inr (.inl ⟨hup, hup ▸ turn_up hdir⟩)
    · exact .inr (.inr ⟨(not_or.mp hdot).1, (not_or.mp hdot).2, hup⟩)

theorem dir_of_turn {r : Turn} (h : t.turn place c = r) (hr : r ≠ .not_dir) :
    t.nodes place = some .dir :=
  by_contra fun hdir => hr (h.symm.trans (turn_not_dir hdir))

/-- What stops a walk at a directory or leads it elsewhere is a name. -/
theorem plain_of_turn {r : Turn} (h : t.turn place c = r) (hr : r ≠ .not_dir) (hon : ∀ p, r ≠ .on p) :
    t.nodes place = some .dir ∧ IsPlain c := by
  have hdir : t.nodes place = some .dir := dir_of_turn h hr
  rcases @turn_cases t place c hdir with ⟨-, hturn⟩ | ⟨-, hturn⟩ | hc
  · exact absurd (h.symm.trans hturn) (hon _)
  · exact absurd (h.symm.trans hturn) (hon _)
  · exact ⟨hdir, hc⟩

theorem turn_on (h : t.turn place c = .on p) : t.nodes place = some .dir ∧
    ((c = "" ∨ c = ".") ∧ p = place ∨ c = ".." ∧ p = place.dropLast ∨
      IsPlain c ∧ p = place ++ [c] ∧ t.Real p) := by
  have hdir : t.nodes place = some .dir := dir_of_turn h (by simp)
  refine ⟨hdir, ?_⟩
  rcases @turn_cases t place c hdir with ⟨hdot, hturn⟩ | ⟨hup, hturn⟩ | hc
  · exact .inl ⟨hdot, Turn.on.inj (h.symm.trans hturn)⟩
  · exact .inr (.inl ⟨hup, Turn.on.inj (h.symm.trans hturn)⟩)
  · rw [turn_name hdir hc] at h
    split at h
    · cases h
    · cases h
    · rename_i node hlink hnode
      cases h
      refine .inr (.inr ⟨hc, rfl, real_of_not_link (by simp [hnode]) fun target htarget => ?_⟩)
      exact hlink target (Option.some.inj (hnode.symm.trans htarget))

theorem turn_link (h : t.turn place c = .link p parts) : t.nodes place = some .dir ∧ IsPlain c ∧
    ∃ target, t.nodes (place ++ [c]) = some (.link target) ∧
      p = (if target.absolute then [] else place) ∧ parts = target.parts := by
  obtain ⟨hdir, hc⟩ := plain_of_turn h (by simp) (by simp)
  rw [turn_name hdir hc] at h
  split at h
  · cases h
  · rename_i target hnode
    cases h
    exact ⟨hdir, hc, target, hnode, rfl, rfl⟩
  · cases h

theorem turn_missing (h : t.turn place c = .missing p) : t.nodes place = some .dir ∧ IsPlain c ∧
    p = place ++ [c] ∧ t.nodes p = none := by
  obtain ⟨hdir, hc⟩ := plain_of_turn h (by simp) (by simp)
  rw [turn_name hdir hc] at h
  split at h
  · rename_i hnode
    cases h
    exact ⟨hdir, hc, rfl, hnode⟩
  · cases h
  · cases h

/-- Along a name a walk goes to the place of this name. -/
theorem turn_on_name (hc : IsPlain c) (h : t.turn place c = .on p) :
    p = place ++ [c] ∧ t.Real p := by
  rcases (turn_on h).2 with ⟨hdot, -⟩ | ⟨hup, -⟩ | ⟨-, hp, hreal⟩
  · exact absurd hdot (not_or.mpr ⟨hc.1, hc.2.1⟩)
  · exact absurd hup hc.2.2
  · exact ⟨hp, hreal⟩

theorem turn_on_real (h : t.turn place c = .on p) : t.Real p := by
  obtain ⟨hdir, ⟨-, rfl⟩ | ⟨-, rfl⟩ | ⟨-, -, hreal⟩⟩ := turn_on h
  · exact .inl hdir
  · exact .inl (dropLast_dir hdir)
  · exact hreal

/-- A link leads on from a directory. -/
theorem turn_link_dir (h : t.turn place c = .link p parts) : t.nodes p = some .dir := by
  obtain ⟨hdir, -, target, -, rfl, -⟩ := turn_link h
  split
  · exact t.root
  · exact hdir

/-- A walk with more or less links to follow is a walk. -/
theorem walk_with (t : Tree) (create : Bool) (n : Nat) :
    ∃ follow, t.walk create n = t.walkWith create follow := by
  cases n with
  | zero => exact ⟨_, rfl⟩
  | succ n => exact ⟨_, rfl⟩

end Turn

theorem walkWith_ok {create : Bool} {follow : Path → List String → Except Errno Path}
    (hfollow : ∀ place comps q, t.nodes place = some .dir → follow place comps = .ok q →
      t.Real q ∨ create = true ∧ t.Vacant q)
    {place q : Path} {comps : List String} (hplace : comps = [] → t.Real place)
    (h : t.walkWith create follow place comps = .ok q) :
    t.Real q ∨ create = true ∧ t.Vacant q := by
  induction comps generalizing place with
  | nil =>
    cases h
    exact .inl (hplace rfl)
  | cons c rest ih =>
    rw [walkWith_cons] at h
    cases hturn : t.turn place c with
    | on p =>
      rw [hturn] at h
      exact ih (fun _ => turn_on_real hturn) h
    | link p parts =>
      rw [hturn] at h
      exact hfollow p _ q (turn_link_dir hturn) h
    | missing p =>
      rw [hturn] at h
      dsimp only at h
      obtain ⟨hdir, hc, rfl, hnone⟩ := turn_missing hturn
      split at h
      · rename_i hcreate
        cases h
        exact .inr ⟨hcreate.1, hnone, place, c, rfl, hc, hdir⟩
      · cases h
    | not_dir =>
      rw [hturn] at h
      cases h

/-- A walk ends at something that is there and is no link, or, when it may, at a place for a new
file. -/
theorem walk_ok {create : Bool} {n : Nat} {place q : Path} {comps : List String}
    (hplace : comps = [] → t.Real place) (h : t.walk create n place comps = .ok q) :
    t.Real q ∨ create = true ∧ t.Vacant q := by
  induction n generalizing place q comps with
  | zero => exact walkWith_ok (fun _ _ _ _ h => by cases h) hplace h
  | succ n ih => exact walkWith_ok (fun _ _ _ hdir h => ih (fun _ => .inl hdir) h) hplace h

/-- A place that is there is named by names. -/
theorem Real.plain {q : Path} (h : t.Real q) : ∀ c ∈ q, IsPlain c := by
  intro c hc
  obtain ⟨before, rest, rfl⟩ := List.append_of_mem hc
  refine t.names before c ?_
  have hthere : t.nodes (before ++ [c] ++ rest) ≠ none := by simpa using h.ne_none
  by_cases hrest : rest = []
  · simpa [hrest] using hthere
  · rw [ancestor_dir hthere hrest]
    exact Option.some_ne_none _

theorem walkWith_along {create : Bool} {follow : Path → List String → Except Errno Path}
    {place names : Path} (h : t.Real (place ++ names)) (tail : List String) :
    t.walkWith create follow place (names ++ tail) =
      t.walkWith create follow (place ++ names) tail := by
  induction names generalizing place with
  | nil => simp
  | cons c names ih =>
    have hdir : t.nodes place = some .dir := ancestor_dir h.ne_none (by simp)
    have hstep : t.Real (place ++ [c]) := by
      by_cases hnil : names = []
      · simpa [hnil] using h
      · exact .inl (ancestor_dir (r := names) (by simpa using h.ne_none) hnil)
    have hrest := @ih (place ++ [c]) (by simpa using h)
    rw [List.append_assoc, List.singleton_append] at hrest
    rw [List.cons_append, walkWith_cons, turn_real hdir hstep]
    exact hrest

/-- A walk along a path that is there and has no links in it takes none of the links that the
rest may follow. -/
theorem walk_along {create : Bool} {n : Nat} {q : Path} (h : t.Real q) (tail : List String) :
    t.walk create n [] (q ++ tail) = t.walk create n q tail := by
  obtain ⟨follow, hwalk⟩ := t.walk_with create n
  rw [hwalk]
  exact @walkWith_along _ _ _ [] _ h tail

theorem walk_nil (create : Bool) (n : Nat) (place : Path) : t.walk create n place [] = .ok place := by
  cases n <;> rfl

/-- The walk goes along `start`, which has no links in it, and meets a link at `c`. -/
structure MeetsLink (t : Tree) (place : Path) (names start : List String) (c : String)
    (rest : List String) (target : PathBuf) : Prop where
  parts : names = start ++ c :: rest
  above : t.nodes (place ++ start) = some .dir
  link : t.nodes (place ++ start ++ [c]) = some (.link target)

theorem walkWith_meets {create : Bool} {follow : Path → List String → Except Errno Path}
    {place : Path} {names start rest : List String} {c : String} {target : PathBuf}
    (h : t.MeetsLink place names start c rest target) :
    t.walkWith create follow place names =
      follow (if target.absolute then [] else place ++ start) (target.parts ++ rest) := by
  have hthere : t.nodes (place ++ start ++ [c]) ≠ none := by
    rw [h.link]
    exact Option.some_ne_none _
  rw [h.parts, walkWith_along (.inl h.above), walkWith_cons, turn_name h.above (t.names _ c hthere),
    h.link]

/-- A walk ends where its names say, or it goes on from the first link that it meets. -/
theorem walkWith_split {create : Bool} {follow : Path → List String → Except Errno Path}
    {place q : Path} {names : List String} (hplain : ∀ c ∈ names, IsPlain c)
    (h : t.walkWith create follow place names = .ok q) :
    q = place ++ names ∨ ∃ start c rest target, t.MeetsLink place names start c rest target := by
  induction names generalizing place with
  | nil =>
    cases h
    simp
  | cons c names ih =>
    rw [walkWith_cons] at h
    cases hturn : t.turn place c with
    | on p =>
      rw [hturn] at h
      obtain ⟨rfl, -⟩ := turn_on_name (hplain c List.mem_cons_self) hturn
      rcases ih (fun c hc => hplain c (List.mem_cons_of_mem _ hc)) h with hq | hmeets
      · exact .inl (by simpa using hq)
      · obtain ⟨start, d, rest, target, hparts, habove, hlink⟩ := hmeets
        exact .inr ⟨c :: start, d, rest, target, by simp [hparts], by simpa using habove,
          by simpa using hlink⟩
    | link p parts =>
      obtain ⟨hdir, -, target, hlink, -, -⟩ := turn_link hturn
      exact .inr ⟨[], c, names, target, rfl, by simpa using hdir, by simpa using hlink⟩
    | missing p =>
      rw [hturn] at h
      dsimp only at h
      obtain ⟨-, -, rfl, -⟩ := turn_missing hturn
      split at h
      · rename_i hcreate
        cases h
        exact .inl (by rw [hcreate.2])
      · cases h
    | not_dir =>
      rw [hturn] at h
      cases h

theorem walk_split {create : Bool} {n : Nat} {place q : Path} {names : List String}
    (hplain : ∀ c ∈ names, IsPlain c) (h : t.walk create n place names = .ok q) :
    q = place ++ names ∨ ∃ start c rest target, t.MeetsLink place names start c rest target := by
  obtain ⟨follow, hwalk⟩ := t.walk_with create n
  rw [hwalk] at h
  exact walkWith_split hplain h

theorem walk_meets {create : Bool} {n : Nat} {place : Path} {names start rest : List String}
    {c : String} {target : PathBuf} (h : t.MeetsLink place names start c rest target) :
    t.walk create (n + 1) place names =
      t.walk create n (if target.absolute then [] else place ++ start) (target.parts ++ rest) :=
  walkWith_meets h

theorem walk_meets_zero {create : Bool} {place : Path} {names start rest : List String}
    {c : String} {target : PathBuf} (h : t.MeetsLink place names start c rest target) :
    t.walk create 0 place names = .error .ELOOP := walkWith_meets h

/-- A walk that meets no link ends where its names say. -/
theorem walk_unlinked {create : Bool} {n : Nat} {place q : Path} {names : List String}
    (hplain : ∀ c ∈ names, IsPlain c)
    (hlinks : ∀ start, start <+: names → ∀ target, t.nodes (place ++ start) ≠ some (.link target))
    (h : t.walk create n place names = .ok q) : q = place ++ names := by
  refine (walk_split hplain h).resolve_right ?_
  rintro ⟨start, c, rest, target, hparts, -, hlink⟩
  refine hlinks (start ++ [c]) ⟨rest, by simp [hparts]⟩ target ?_
  rw [← List.append_assoc]
  exact hlink

/-- A walk along more names goes on from the end of the walk along the first ones, unless a link
takes it elsewhere. -/
theorem walkWith_append {follow : Bool → Path → List String → Except Errno Path} {place mid : Path}
    {names : List String} (h : t.walkWith false (follow false) place names = .ok mid) :
    (∀ create tail, t.walkWith create (follow create) place (names ++ tail) =
        t.walkWith create (follow create) mid tail) ∨
      ∃ from_ rest, follow false from_ rest = .ok mid ∧
        ∀ create tail, t.walkWith create (follow create) place (names ++ tail) =
          follow create from_ (rest ++ tail) := by
  induction names generalizing place with
  | nil =>
    cases h
    exact .inl fun _ _ => rfl
  | cons c names ih =>
    rw [walkWith_cons] at h
    simp only [List.cons_append, walkWith_cons]
    cases hturn : t.turn place c with
    | on p =>
      rw [hturn] at h
      exact ih h
    | link p parts =>
      rw [hturn] at h
      exact .inr ⟨p, parts ++ names, h, fun create tail => by rw [List.append_assoc]⟩
    | missing p =>
      rw [hturn] at h
      simp at h
    | not_dir =>
      rw [hturn] at h
      cases h

theorem walk_append {n : Nat} {place mid : Path} {names : List String}
    (h : t.walk false n place names = .ok mid) :
    ∃ m, ∀ create tail, t.walk create n place (names ++ tail) = t.walk create m mid tail := by
  induction n generalizing place names with
  | zero =>
    rcases @walkWith_append t (fun _ _ _ => .error .ELOOP) _ _ _ h with hrest | ⟨_, _, hfollow, -⟩
    · exact ⟨0, hrest⟩
    · cases hfollow
  | succ n ih =>
    rcases @walkWith_append t (fun create => t.walk create n) _ _ _ h with
      hrest | ⟨from_, rest, hfollow, hrest⟩
    · exact ⟨n + 1, hrest⟩
    · obtain ⟨m, hm⟩ := ih hfollow
      exact ⟨m, fun create tail => (hrest create tail).trans (hm create tail)⟩

/-- A walk that fails along the first names fails along more of them. -/
theorem walkWith_error {follow : Path → List String → Except Errno Path} {e : Errno} {place : Path}
    {names tail : List String}
    (hfollow : ∀ from_ rest, follow from_ rest = .error e → follow from_ (rest ++ tail) = .error e)
    (h : t.walkWith false follow place names = .error e) :
    t.walkWith false follow place (names ++ tail) = .error e := by
  induction names generalizing place with
  | nil => cases h
  | cons c names ih =>
    rw [walkWith_cons] at h
    rw [List.cons_append, walkWith_cons]
    cases hturn : t.turn place c with
    | on p =>
      rw [hturn] at h
      exact ih h
    | link p parts =>
      rw [hturn] at h
      dsimp only
      rw [← List.append_assoc]
      exact hfollow _ _ h
    | missing p =>
      rw [hturn] at h
      simpa using h
    | not_dir =>
      rw [hturn] at h
      exact h

theorem walk_error {n : Nat} {e : Errno} {place : Path} {names : List String}
    (h : t.walk false n place names = .error e) (tail : List String) :
    t.walk false n place (names ++ tail) = .error e := by
  induction n generalizing place names with
  | zero => exact walkWith_error (fun _ _ h => h) h
  | succ n ih => exact walkWith_error (fun _ _ h => ih h) h

/-- A walk along more names is one along the first ones. -/
theorem walk_prefix {n : Nat} {place q : Path} {names tail : List String}
    (h : t.walk false n place (names ++ tail) = .ok q) :
    ∃ mid, t.walk false n place names = .ok mid := by
  rcases hwalk : t.walk false n place names with e | mid
  · rw [walk_error hwalk tail] at h
    cases h
  · exact ⟨mid, rfl⟩

/-- What is a name among the parts of a path. -/
def solid (parts : List String) : List String :=
  parts.filter (fun c => decide (c ≠ "") && decide (c ≠ "."))

/-- On the way along names from a place there is a link. -/
def Linked (t : Tree) (place : Path) (names : List String) : Prop :=
  ∃ start target, start <+: names ∧ t.nodes (place ++ start) = some (.link target)

theorem linked_below {place : Path} {c : String} {names : List String}
    (h : t.Linked (place ++ [c]) names) : t.Linked place (c :: names) := by
  obtain ⟨start, target, hstart, hlink⟩ := h
  refine ⟨c :: start, target, List.cons_prefix_cons.mpr ⟨rfl, hstart⟩, ?_⟩
  simpa using hlink

theorem solid_cons_dot {c : String} (hc : c = "" ∨ c = ".") (rest : List String) :
    solid (c :: rest) = solid rest := by
  refine List.filter_cons_of_neg ?_
  rcases hc with rfl | rfl <;> simp

theorem solid_cons_name {c : String} (hc : ¬(c = "" ∨ c = ".")) (rest : List String) :
    solid (c :: rest) = c :: solid rest := by
  refine List.filter_cons_of_pos ?_
  simp only [not_or] at hc
  simp [hc.1, hc.2]

theorem last_cons {P : String → Prop} {c : String} {parts : List String} (hone : parts = [] → P c)
    (h : ∀ x ∈ parts.getLast?, P x) : ∀ x ∈ (c :: parts).getLast?, P x := by
  intro x hx
  cases parts with
  | nil =>
    cases hx
    exact hone rfl
  | cons d parts =>
    rw [List.getLast?_cons_cons] at hx
    exact h x hx

/-- Where no link is on the way a walk ends where its names say, and at a directory if the path
ends in a slash or a dot. -/
theorem walkWith_solid {create : Bool} {follow : Path → List String → Except Errno Path}
    {place q : Path} {parts : List String} (hup : ".." ∉ parts)
    (hlinks : ¬ t.Linked place (solid parts)) (h : t.walkWith create follow place parts = .ok q) :
    q = place ++ solid parts ∧
      ∀ c ∈ parts.getLast?, c = "" ∨ c = "." → t.nodes q = some .dir := by
  induction parts generalizing place with
  | nil =>
    cases h
    simp [solid]
  | cons c parts ih =>
    simp only [List.mem_cons, not_or] at hup
    rw [walkWith_cons] at h
    cases hturn : t.turn place c with
    | on p =>
      rw [hturn] at h
      obtain ⟨hdir, ⟨hdot, rfl⟩ | ⟨hdots, -⟩ | ⟨hc, rfl, -⟩⟩ := turn_on hturn
      · rw [solid_cons_dot hdot] at hlinks ⊢
        obtain ⟨hq, hlast⟩ := ih hup.2 hlinks h
        refine ⟨hq, last_cons (fun hnil _ => ?_) hlast⟩
        subst hnil
        cases h
        exact hdir
      · exact absurd hdots.symm hup.1
      · have hdot := not_or.mpr ⟨hc.1, hc.2.1⟩
        rw [solid_cons_name hdot] at hlinks ⊢
        obtain ⟨hq, hlast⟩ := ih hup.2 (fun hlink => hlinks (linked_below hlink)) h
        exact ⟨by simpa using hq, last_cons (fun _ hx => absurd hx hdot) hlast⟩
    | link p parts' =>
      obtain ⟨-, hc, target, hnode, -, -⟩ := turn_link hturn
      rw [solid_cons_name (not_or.mpr ⟨hc.1, hc.2.1⟩)] at hlinks
      refine (hlinks ⟨[c], target, ?_, hnode⟩).elim
      exact List.cons_prefix_cons.mpr ⟨rfl, List.nil_prefix⟩
    | missing p =>
      rw [hturn] at h
      dsimp only at h
      obtain ⟨-, hc, rfl, -⟩ := turn_missing hturn
      have hdot := not_or.mpr ⟨hc.1, hc.2.1⟩
      split at h
      · rename_i hcreate
        cases h
        rw [hcreate.2]
        exact ⟨by rw [solid_cons_name hdot]; rfl,
          last_cons (fun _ hx => absurd hx hdot) (fun x hx => by cases hx)⟩
      · cases h
    | not_dir =>
      rw [hturn] at h
      cases h

theorem walk_solid {create : Bool} {n : Nat} {place q : Path} {parts : List String}
    (hup : ".." ∉ parts) (hlinks : ¬ t.Linked place (solid parts))
    (h : t.walk create n place parts = .ok q) :
    q = place ++ solid parts ∧
      ∀ c ∈ parts.getLast?, c = "" ∨ c = "." → t.nodes q = some .dir := by
  obtain ⟨follow, hwalk⟩ := t.walk_with create n
  rw [hwalk] at h
  exact walkWith_solid hup hlinks h

/-- Nothing is below something that is missing. -/
theorem none_below {p : Path} (h : t.nodes p = none) (r : Path) : t.nodes (p ++ r) = none := by
  by_contra hthere
  by_cases hr : r = []
  · simp [hr, h] at hthere
  · rw [ancestor_dir hthere hr] at h
    cases h

/-! ## Changes -/

def is_file : Option Node → Bool
  | some (.file _) => true
  | _ => false

/-- A directory or a file can be made here, or a file is here. -/
def Settable (t : Tree) (q : Path) : Prop :=
  q ≠ [] ∧ ((t.nodes q = none ∧ IsPlain (q.getLastD "") ∧ t.nodes q.dropLast = some .dir) ∨
    is_file (t.nodes q) = true)

instance (t : Tree) (q : Path) : Decidable (t.Settable q) := inferInstanceAs (Decidable (_ ∧ _))

theorem Settable.not_dir {q : Path} (h : t.Settable q) : t.nodes q ≠ some .dir := by
  rcases h.2 with h | h
  · simp [h.1]
  · rintro hdir
    simp [hdir, is_file] at h

theorem Settable.parent {p : Path} {c : String} (h : t.Settable (p ++ [c])) :
    t.nodes p = some .dir ∧ IsPlain c := by
  rcases h.2 with ⟨-, hplain, hdir⟩ | hfile
  · exact ⟨by simpa using hdir, by simpa using hplain⟩
  · have hthere : t.nodes (p ++ [c]) ≠ none := by
      intro hnone
      simp [hnone, is_file] at hfile
    exact ⟨t.parents p c hthere, t.names p c hthere⟩

def set (t : Tree) (q : Path) (node : Node) (h : t.Settable q) : Tree where
  nodes := fun p => if p = q then some node else t.nodes p
  root := by
    rw [if_neg (Ne.symm h.1)]
    exact t.root
  parents := by
    intro p c hthere
    have hdir : t.nodes p = some .dir := by
      split at hthere
      · rename_i hq
        exact (hq ▸ h).parent.1
      · exact t.parents p c hthere
    have hne : p ≠ q := fun hq => h.not_dir (hq ▸ hdir)
    rw [if_neg hne, hdir]
  names := by
    intro p c hthere
    split at hthere
    · rename_i hq
      exact (hq ▸ h).parent.2
    · exact t.names p c hthere

theorem set_nodes {q : Path} {node : Node} (h : t.Settable q) (p : Path) :
    (t.set q node h).nodes p = if p = q then some node else t.nodes p := rfl

end Tree

/-! ## Calls -/

/-- A tree, the directory that relative paths start in, and how many links a lookup follows. -/
structure Os where
  tree : Tree
  cwd : Path
  max_links : Nat

namespace Os
variable (os : Os)

def start (p : PathBuf) : Path := if p.absolute then [] else os.cwd

def lookup (create : Bool) (p : PathBuf) : Except Errno Path :=
  if p = ⟨false, []⟩ then .error .ENOENT
  else os.tree.walk create os.max_links (os.start p) p.parts

def found (p : PathBuf) : Bool := (os.lookup false p).isOk

def is_dir (p : PathBuf) : Bool :=
  match os.lookup false p with
  | .ok q => os.tree.nodes q = some .dir
  | .error _ => false

def is_file (p : PathBuf) : Bool :=
  match os.lookup false p with
  | .ok q => Tree.is_file (os.tree.nodes q)
  | .error _ => false

def read (p : PathBuf) : Except Errno Bytes :=
  match os.lookup false p with
  | .error e => .error e
  | .ok q =>
    match os.tree.nodes q with
    | some (.file content) => .ok content
    | some .dir => .error .EISDIR
    | _ => .error .ENOENT

/-- `mkdir` does not follow a link under its last name. -/
def mkdir (p : PathBuf) : Os × Except Errno Unit :=
  match p.parts.getLast? with
  | none => (os, .error (if p.absolute then .EEXIST else .ENOENT))
  | some c =>
    match os.tree.walk false os.max_links (os.start p) p.parts.dropLast with
    | .error e => (os, .error e)
    | .ok d =>
      if os.tree.nodes (d ++ [c]) ≠ none then (os, .error .EEXIST)
      else if h : os.tree.Settable (d ++ [c]) then
        ({ os with tree := os.tree.set (d ++ [c]) .dir h }, .ok ())
      else (os, .error .ENOTDIR)

/-- `create_dir_all` on a path whose parts are given from the last to the first. -/
def create_dirs (absolute : Bool) : List String → Os → Os × Except Errno Unit
  | [], os => (os, .ok ())
  | c :: above, os =>
    let p : PathBuf := ⟨absolute, (c :: above).reverse⟩
    match os.mkdir p with
    | (os', .ok ()) => (os', .ok ())
    | (_, .error .ENOENT) =>
      match create_dirs absolute above os with
      | (os', .error e) => (os', .error e)
      | (os', .ok ()) =>
        match os'.mkdir p with
        | (os'', .ok ()) => (os'', .ok ())
        | (_, .error e) => (os', if os'.is_dir p then .ok () else .error e)
    | (_, .error e) => (os, if os.is_dir p then .ok () else .error e)

def create_dir_all (p : PathBuf) : Os × Except Errno Unit := create_dirs p.absolute p.parts.reverse os

/-- `fs::write` opens the file that the path leads to, or makes it. -/
def write (p : PathBuf) (content : Bytes) : Os × Except Errno Unit :=
  match os.lookup true p with
  | .error e => (os, .error e)
  | .ok q =>
    if h : os.tree.Settable q then
      ({ os with tree := os.tree.set q (.file content) h }, .ok ())
    else (os, .error .EISDIR)

/-- A file is where the path leads, and that is what is read. -/
theorem is_file_cases (os : Os) {p : PathBuf} (h : os.is_file p = true) :
    ∃ q content, os.lookup false p = .ok q ∧ os.tree.nodes q = some (.file content) ∧
      os.read p = .ok content := by
  unfold is_file at h
  rcases hlook : os.lookup false p with e | q
  · rw [hlook] at h
    cases h
  · rw [hlook] at h
    dsimp only at h
    unfold Tree.is_file at h
    split at h
    · rename_i content hnode
      refine ⟨q, content, rfl, hnode, ?_⟩
      unfold read
      rw [hlook]
      dsimp only
      rw [hnode]
    · cases h

/-- What `mkdir` changes: nothing, or one place that was missing. -/
theorem mkdir_cases (os : Os) (p : PathBuf) : (os.mkdir p).1 = os ∨
    ∃ c d, p.parts.getLast? = some c ∧
      os.tree.walk false os.max_links (os.start p) p.parts.dropLast = .ok d ∧
      os.tree.nodes (d ++ [c]) = none ∧
      ∃ h, (os.mkdir p).1 = { os with tree := os.tree.set (d ++ [c]) .dir h } := by
  unfold mkdir
  split
  · exact .inl rfl
  · rename_i c hc
    split
    · exact .inl rfl
    · rename_i d hd
      split
      · exact .inl rfl
      · rename_i hnone
        split
        · rename_i h
          exact .inr ⟨c, d, hc, hd, not_not.mp hnone, h, rfl⟩
        · exact .inl rfl

/-! ## Paths without links -/

/-- On the way along the path there is no link. -/
def Unlinked (os : Os) (full : Path) : Prop :=
  ∀ start, start <+: full → ∀ target, os.tree.nodes start ≠ some (.link target)

variable {os} {os' os'' : Os}

theorem Unlinked.above {full r : Path} (h : os.Unlinked full) (hr : r <+: full) : os.Unlinked r :=
  fun start hstart => h start (hstart.trans hr)

theorem Unlinked.walk_eq {full q : Path} {create : Bool} {n : Nat} (h : os.Unlinked full)
    (hplain : ∀ c ∈ full, IsPlain c) (hwalk : os.tree.walk create n [] full = .ok q) : q = full := by
  have hq := Tree.walk_unlinked hplain (fun start hstart target => by simpa using h start hstart target)
    hwalk
  simpa using hq

theorem Unlinked.lookup_eq {full q : Path} {create : Bool} (h : os.Unlinked full)
    (hplain : ∀ c ∈ full, IsPlain c) (hlook : os.lookup create ⟨true, full⟩ = .ok q) : q = full := by
  refine @Unlinked.walk_eq os full q create os.max_links h hplain ?_
  simpa [lookup, start] using hlook

/-- What is read along a path without links stands at its end. -/
theorem Unlinked.read_ok_iff {full : Path} {content : Bytes} (h : os.Unlinked full)
    (hplain : ∀ c ∈ full, IsPlain c) :
    os.read ⟨true, full⟩ = .ok content ↔ os.tree.nodes full = some (.file content) := by
  constructor
  · intro hread
    unfold read at hread
    split at hread
    · cases hread
    · rename_i q hlook
      obtain rfl := h.lookup_eq hplain hlook
      split at hread
      · rename_i content' hnode
        rw [hnode, Except.ok.inj hread]
      · cases hread
      · cases hread
  · intro hnode
    have hreal : os.tree.Real full := .inr ⟨content, hnode⟩
    have hwalk := @Tree.walk_along os.tree false os.max_links full hreal []
    rw [List.append_nil, Tree.walk_nil] at hwalk
    have hlook : os.lookup false ⟨true, full⟩ = .ok full := by simpa [lookup, start] using hwalk
    unfold read
    rw [hlook]
    dsimp only
    rw [hnode]

/-- A file that is written along a path without links stands at its end, and nothing else changes. -/
theorem Unlinked.write_cases {full : Path} {content : Bytes} (h : os.Unlinked full)
    (hplain : ∀ c ∈ full, IsPlain c) :
    ((os.write ⟨true, full⟩ content).1 = os ∧ (os.write ⟨true, full⟩ content).2 ≠ .ok ()) ∨
      ((os.write ⟨true, full⟩ content).2 = .ok () ∧
        ∀ p, (os.write ⟨true, full⟩ content).1.tree.nodes p =
          if p = full then some (.file content) else os.tree.nodes p) := by
  unfold write
  split
  · exact .inl ⟨rfl, by simp⟩
  · rename_i q hlook
    obtain rfl := h.lookup_eq hplain hlook
    split
    · exact .inr ⟨rfl, fun p => rfl⟩
    · exact .inl ⟨rfl, by simp⟩

/-- Directories are made where nothing was, on the way along the path, and nothing else changes. -/
def Made (os : Os) (full : Path) (os' : Os) : Prop :=
  ∀ p, os'.tree.nodes p = os.tree.nodes p ∨
    (p <+: full ∧ os.tree.nodes p = none ∧ os'.tree.nodes p = some .dir)

theorem Made.refl (os : Os) (full : Path) : Made os full os := fun _ => .inl rfl

theorem Made.trans {full : Path} (h : Made os full os') (h' : Made os' full os'') :
    Made os full os'' := by
  intro p
  rcases h p, h' p with ⟨hp | ⟨hpre, hnone, hdir⟩, hp' | ⟨hpre', hnone', hdir'⟩⟩
  · exact .inl (hp'.trans hp)
  · exact .inr ⟨hpre', hp ▸ hnone', hdir'⟩
  · exact .inr ⟨hpre, hnone, hp'.trans hdir⟩
  · rw [hdir] at hnone'
    cases hnone'

theorem Made.unlinked {full r : Path} (h : Made os full os') (hr : os.Unlinked r) :
    os'.Unlinked r := by
  intro start hstart target
  rcases h start with hsame | ⟨-, -, hdir⟩
  · rw [hsame]
    exact hr start hstart target
  · rw [hdir]
    simp

theorem Unlinked.mkdir_made {full r : Path} (h : os.Unlinked full) (hplain : ∀ c ∈ full, IsPlain c)
    (hr : r <+: full) : Made os full (os.mkdir ⟨true, r⟩).1 := by
  rcases os.mkdir_cases ⟨true, r⟩ with hsame | ⟨c, d, hlast, hwalk, hnone, hset, hmade⟩
  · rw [hsame]
    exact .refl os full
  · obtain ⟨above, rfl⟩ := List.getLast?_eq_some_iff.mp hlast
    rw [List.dropLast_concat] at hwalk
    have habove := (List.prefix_append above [c]).trans hr
    obtain rfl := (h.above habove).walk_eq (fun c hc => hplain c (habove.subset hc)) hwalk
    rw [hmade]
    intro p
    simp only [Tree.set_nodes]
    split
    · rename_i hp
      exact .inr ⟨hp ▸ hr, hp ▸ hnone, rfl⟩
    · exact .inl rfl

theorem Unlinked.create_dirs_made {full : Path} {above : List String} (h : os.Unlinked full)
    (hplain : ∀ c ∈ full, IsPlain c) (habove : above.reverse <+: full) :
    Made os full (Os.create_dirs true above os).1 := by
  induction above with
  | nil => exact .refl os full
  | cons c above ih =>
    have hmade := h.mkdir_made hplain habove
    rw [Os.create_dirs]
    split
    · rename_i os₁ hrun
      rwa [hrun] at hmade
    · have hup := ih ((List.prefix_append _ _).trans (List.reverse_cons ▸ habove))
      split
      · rename_i os₁ e hrun
        rwa [hrun] at hup
      · rename_i os₁ hrun
        rw [hrun] at hup
        have hagain := (hup.unlinked h).mkdir_made hplain habove
        split
        · rename_i os₂ hrun'
          rw [hrun'] at hagain
          exact hup.trans hagain
        · exact hup
    · exact .refl os full

end Os

end links
