-- The jail of the file tools: how a path that the model gives is resolved inside the allowed
-- roots, and what the operating system then reads, makes or overwrites.
import PersonalAi.Lib.Links
import PersonalAi.Tools

open pai_core paths links text json

namespace pai_tools.jail

/-! ## Paths -/

def path_of (s : String) : PathBuf :=
  let parts := (s.toList.splitOn '/').map String.ofList
  if is_absolute s then ⟨true, parts.tail⟩ else ⟨false, if s = "" then [] else parts⟩

def join (base path : PathBuf) : PathBuf :=
  if path.absolute ∨ base = ⟨false, []⟩ then path
  else ⟨base.absolute, base.parts ++ (if path.parts = [] then [""] else path.parts)⟩

def push (p : PathBuf) (c : String) : PathBuf := ⟨p.absolute, p.parts ++ [c]⟩

/-- Of a path whose parts are names. -/
def file_name (p : PathBuf) : Option String := p.parts.getLast?.filter (fun c => decide (c ≠ ".."))

def parent (p : PathBuf) : Option PathBuf :=
  if p.parts = [] then none else some ⟨p.absolute, p.parts.dropLast⟩

def collapse (out : List String) (c : String) : List String :=
  if c = "" ∨ c = "." then out else if c = ".." then out.dropLast else out ++ [c]

/-- `..` cannot escape upward: `pop` on nothing does nothing. -/
def normalize_path (p : PathBuf) : PathBuf := ⟨p.absolute, p.parts.foldl collapse []⟩

def absolutize (allowed_roots : List PathBuf) (path : PathBuf) : PathBuf :=
  if path.absolute then path
  else
    match allowed_roots with
    | root :: _ => join root path
    | [] => path

def canonicalize (os : Os) (p : PathBuf) : Except Errno PathBuf :=
  match os.lookup false p with
  | .ok q => .ok ⟨true, q⟩
  | .error e => .error e

def starts_with (p base : PathBuf) : Bool := base.parts.isPrefixOf p.parts

/-! ## The jail -/

section Jail
variable (debug : PathBuf → String) (os : Os) (allowed_roots : List PathBuf)

def in_roots (canon : PathBuf) : Bool :=
  allowed_roots.any fun root =>
    match canonicalize os root with
    | .ok r => starts_with canon r
    | .error _ => false

def resolve_in_jail (path : PathBuf) : Except Error PathBuf :=
  let path := absolutize allowed_roots path
  match canonicalize os path with
  | .error e => .error (.InvalidInput (debug path ++ ": " ++ e.to_string))
  | .ok canon =>
    if in_roots os allowed_roots canon then .ok canon
    else .error (.PermissionDenied (debug canon ++ " is outside the tool's allowed roots"))

/-- What the loop over missing names comes to. -/
inductive Climbed
  | at_ancestor (cur : PathBuf) (missing : List String)
  | no_parent
deriving DecidableEq

/-- The loop, in at most so many turns. It is `none` where `unwrap` panics or the turns run out. -/
def climb : Nat → PathBuf → List String → Option Climbed
  | 0, _, _ => none
  | turns + 1, cur, missing =>
    if os.found cur then some (.at_ancestor cur missing)
    else
      match file_name cur with
      | none => some .no_parent
      | some name =>
        match parent cur with
        | none => none
        | some up => climb turns up (missing ++ [name])

def resolve_new_in_jail (path : PathBuf) : Option (Except Error PathBuf) :=
  let path := normalize_path (absolutize allowed_roots path)
  if os.found path then some (resolve_in_jail debug os allowed_roots path)
  else
    match climb os (path.parts.length + 1) path [] with
    | none => none
    | some .no_parent => some (.error (.InvalidInput (debug path ++ ": no parent")))
    | some (.at_ancestor cur missing) =>
      match resolve_in_jail debug os allowed_roots cur with
      | .ok out => some (.ok (missing.reverse.foldl push out))
      | .error e => some (.error e)

def jail_err (e : Errno) : Error := .Other ("fs: " ++ e.to_string)

/-- The two calls of `fs.write`: the directories above the file, then the file. -/
def write_file (file : PathBuf) (content : Bytes) : Os × Except Errno Unit :=
  match parent file with
  | none => os.write file content
  | some up =>
    match os.create_dir_all up with
    | (os', .error e) => (os', .error e)
    | (os', .ok ()) => os'.write file content

/-- `fs.write`. It is `none` where the jail panics. -/
def FsWrite.execute (args : Value) : Os × Option (Except Error ToolOutput) :=
  match (args.index "path").as_str, (args.index "content").as_str with
  | none, _ => (os, some (.error (.InvalidInput "path")))
  | _, none => (os, some (.error (.InvalidInput "content")))
  | some path, some content =>
    match resolve_new_in_jail debug os allowed_roots (path_of path) with
    | none => (os, none)
    | some (.error e) => (os, some (.error e))
    | some (.ok file) =>
      match write_file os file (utf8 content) with
      | (os', .error e) => (os', some (.error (jail_err e)))
      | (os', .ok ()) =>
        let shown := "/" ++ "/".intercalate file.parts
        let bytes := (utf8 content).length
        (os', some (.ok
          { value := .object [("path", .string shown), ("bytes", .number (.PosInt bytes))]
            summary := "wrote " ++ toString bytes ++ " bytes to " ++ shown }))

end Jail

/-! ## What a resolved path leads to -/

/-- The place is one of the roots or below one, as they resolve. -/
def Below (os : Os) (allowed_roots : List PathBuf) (place : Path) : Prop :=
  ∃ root ∈ allowed_roots, ∃ r, os.lookup false root = .ok r ∧ r <+: place

/-- Whatever opens the path, to read it, to overwrite it or to make it, ends below a root. -/
def Contained (os : Os) (allowed_roots : List PathBuf) (p : PathBuf) : Prop :=
  ∀ create place, os.lookup create p = .ok place → Below os allowed_roots place

/-- `cur` is the deepest ancestor of the path that exists, and `tail` is what is missing. -/
structure Deepest (os : Os) (path cur : PathBuf) (tail : List String) : Prop where
  parts : path = ⟨cur.absolute, cur.parts ++ tail⟩
  here : os.found cur = true
  missing : ∀ start, start <+: tail → start ≠ [] →
    os.found ⟨cur.absolute, cur.parts ++ start⟩ = false

/-- The first link among the names behind a place leads out of all roots. -/
def LinkLeadsOut (os : Os) (allowed_roots : List PathBuf) (q : Path) (tail : List String) : Prop :=
  ∃ start c rest target, os.tree.MeetsLink q tail start c rest target ∧
    ∃ n create place, os.max_links = n + 1 ∧
      os.tree.walk create n (if target.absolute then [] else q ++ start) (target.parts ++ rest) =
        .ok place ∧ ¬ Below os allowed_roots place

section Jail
variable {debug : PathBuf → String} {os : Os} {allowed_roots : List PathBuf}

theorem in_roots_iff (q : Path) :
    in_roots os allowed_roots ⟨true, q⟩ = true ↔ Below os allowed_roots q := by
  simp only [in_roots, List.any_eq_true, Below]
  refine exists_congr fun root => and_congr_right fun _ => ?_
  rcases hroot : os.lookup false root with e | r
  · simp [canonicalize, hroot]
  · simp [canonicalize, hroot, starts_with]

theorem resolve_in_jail_ok {path p : PathBuf} :
    resolve_in_jail debug os allowed_roots path = .ok p ↔
      ∃ q, os.lookup false (absolutize allowed_roots path) = .ok q ∧ Below os allowed_roots q ∧
        p = ⟨true, q⟩ := by
  simp only [resolve_in_jail, canonicalize]
  rcases os.lookup false (absolutize allowed_roots path) with e | q
  · simp
  · by_cases hbelow : Below os allowed_roots q
    · simp [(in_roots_iff q).mpr hbelow, hbelow, eq_comm]
    · have hout : in_roots os allowed_roots ⟨true, q⟩ = false :=
        Bool.eq_false_iff.mpr fun h => hbelow ((in_roots_iff q).mp h)
      simp [hout, hbelow]

theorem lookup_real {p : PathBuf} {q : Path} (h : os.lookup false p = .ok q) : os.tree.Real q := by
  unfold Os.lookup at h
  split at h
  · cases h
  · rename_i hempty
    refine (Tree.walk_ok ?_ h).resolve_right (by simp)
    intro hparts
    have habs : p.absolute = true := by
      by_contra hrel
      exact hempty (by cases p; simp_all)
    rw [Os.start, if_pos habs]
    exact .inl os.tree.root

/-- A lookup of names behind a place that a lookup has ended at. -/
theorem lookup_behind {create : Bool} {q : Path} (h : os.tree.Real q) (tail : List String) :
    os.lookup create ⟨true, q ++ tail⟩ = os.tree.walk create os.max_links q tail := by
  simp [Os.lookup, Os.start, Tree.walk_along h]

theorem resolve_in_jail_contained {path p : PathBuf}
    (h : resolve_in_jail debug os allowed_roots path = .ok p) : Contained os allowed_roots p := by
  obtain ⟨q, hq, hbelow, rfl⟩ := resolve_in_jail_ok.mp h
  intro create place hplace
  have hwalk := @lookup_behind os create q (lookup_real hq) []
  rw [List.append_nil, hplace, Tree.walk_nil] at hwalk
  cases hwalk
  exact hbelow

/-! ## The loop over missing names -/

theorem collapse_plain {out : List String} {c : String} (h : ∀ d ∈ out, IsPlain d) :
    ∀ d ∈ collapse out c, IsPlain d := by
  intro d hd
  unfold collapse at hd
  split at hd
  · exact h d hd
  · split at hd
    · exact h d (List.dropLast_subset _ hd)
    · rename_i hdot hup
      rcases List.mem_append.mp hd with hd | hd
      · exact h d hd
      · obtain rfl := List.mem_singleton.mp hd
        simp only [not_or] at hdot
        exact ⟨hdot.1, hdot.2, hup⟩

theorem normalize_plain (p : PathBuf) : ∀ c ∈ (normalize_path p).parts, IsPlain c := by
  have hall : ∀ (parts out : List String), (∀ d ∈ out, IsPlain d) →
      ∀ c ∈ parts.foldl collapse out, IsPlain c := by
    intro parts
    induction parts with
    | nil => exact fun out h => h
    | cons c parts ih => exact fun out h => ih _ (collapse_plain h)
  exact hall p.parts [] (by simp)

/-- The loop ends in so many turns as the path has names, and one more, and never panics. -/
theorem climb_returns {turns : Nat} {cur : PathBuf} (h : cur.parts.length < turns)
    (missing : List String) : (climb os turns cur missing).isSome := by
  induction turns generalizing cur missing with
  | zero => omega
  | succ turns ih =>
    rw [climb]
    split
    · rfl
    · split
      · rfl
      · rename_i name hname
        have hne : cur.parts ≠ [] := by
          intro hnil
          simp [file_name, hnil] at hname
        have hup : parent cur = some ⟨cur.absolute, cur.parts.dropLast⟩ := by simp [parent, hne]
        rw [hup]
        refine ih ?_ _
        have := List.length_pos_of_ne_nil hne
        rw [List.length_dropLast]
        omega

/-- The loop goes up over all that is missing. -/
theorem climb_deepest {turns : Nat} {cur : PathBuf} {tail missing : List String}
    (hhere : os.found cur = true) (hplain : ∀ c ∈ tail, IsPlain c)
    (hmissing : ∀ start, start <+: tail → start ≠ [] →
      os.found ⟨cur.absolute, cur.parts ++ start⟩ = false) (hturns : tail.length < turns) :
    climb os turns ⟨cur.absolute, cur.parts ++ tail⟩ missing =
      some (.at_ancestor cur (missing ++ tail.reverse)) := by
  induction tail using List.reverseRecOn generalizing turns missing with
  | nil =>
    obtain ⟨turns, rfl⟩ := Nat.exists_eq_add_one_of_ne_zero (by omega : turns ≠ 0)
    simp [climb, hhere]
  | append_singleton tail c ih =>
    obtain ⟨turns, rfl⟩ := Nat.exists_eq_add_one_of_ne_zero (by omega : turns ≠ 0)
    have hup : c ≠ ".." := (hplain c (by simp)).2.2
    have hgone := hmissing (tail ++ [c]) List.prefix_rfl (by simp)
    have hname : file_name ⟨cur.absolute, cur.parts ++ (tail ++ [c])⟩ = some c := by
      simp [file_name, ← List.append_assoc, hup]
    have hparent : parent ⟨cur.absolute, cur.parts ++ (tail ++ [c])⟩ =
        some ⟨cur.absolute, cur.parts ++ tail⟩ := by
      simp [parent, ← List.append_assoc]
    rw [climb, hgone, hname]
    simp only [hparent, Bool.false_eq_true, if_false]
    rw [ih (fun d hd => hplain d (by simp [hd]))
      (fun start hstart => hmissing start (hstart.trans (List.prefix_append _ _)))
      (by simp at hturns; omega)]
    simp

theorem climb_ok {turns : Nat} {path cur : PathBuf} {missing missing' : List String}
    (h : climb os turns path missing = some (.at_ancestor cur missing')) :
    ∃ tail, missing' = missing ++ tail.reverse ∧ Deepest os path cur tail := by
  induction turns generalizing path missing with
  | zero => cases h
  | succ turns ih =>
    rw [climb] at h
    split at h
    · rename_i hhere
      cases h
      refine ⟨[], by simp, ⟨by simp, hhere, ?_⟩⟩
      intro start hstart hne
      exact absurd (List.prefix_nil.mp hstart) hne
    · rename_i hgone
      split at h
      · cases h
      · rename_i name hname
        split at h
        · cases h
        · rename_i up hup
          obtain ⟨tail, hmissing, hdeep⟩ := ih h
          obtain ⟨hlast, -⟩ := Option.filter_eq_some_iff.mp hname
          have hparts : path.parts = up.parts ++ [name] := by
            unfold parent at hup
            split at hup
            · cases hup
            · cases hup
              obtain ⟨rest, hrest⟩ := List.getLast?_eq_some_iff.mp hlast
              simp [hrest]
          have habs : path.absolute = up.absolute := by
            unfold parent at hup
            split at hup
            · cases hup
            · cases hup
              rfl
          have hpath : path = ⟨cur.absolute, cur.parts ++ (tail ++ [name])⟩ := by
            have hup' := hdeep.parts
            cases path
            simp_all
          refine ⟨tail ++ [name], by simp [hmissing], hpath, hdeep.here, ?_⟩
          intro start hstart hne
          rcases List.prefix_concat_iff.mp (by simpa using hstart) with rfl | hshort
          · simpa [← hpath] using hgone
          · exact hdeep.missing start hshort hne

/-! ## The results -/

theorem foldl_push (names : List String) (p : PathBuf) :
    names.foldl push p = ⟨p.absolute, p.parts ++ names⟩ := by
  induction names generalizing p with
  | nil => simp
  | cons c names ih => simp [ih, push]

theorem Deepest.plain {path cur : PathBuf} {tail : List String}
    (h : Deepest os (normalize_path path) cur tail) : ∀ c ∈ tail, IsPlain c := by
  intro c hc
  refine normalize_plain path c ?_
  rw [h.parts]
  exact List.mem_append_right _ hc

theorem resolve_new_in_jail_ok {path p : PathBuf} :
    resolve_new_in_jail debug os allowed_roots path = some (.ok p) ↔
      ∃ cur tail q, Deepest os (normalize_path (absolutize allowed_roots path)) cur tail ∧
        os.lookup false (absolutize allowed_roots cur) = .ok q ∧ Below os allowed_roots q ∧
        p = ⟨true, q ++ tail⟩ := by
  simp only [resolve_new_in_jail]
  generalize hnorm : normalize_path (absolutize allowed_roots path) = norm
  constructor
  · intro h
    split at h
    · rename_i hhere
      obtain ⟨q, hq, hbelow, rfl⟩ := resolve_in_jail_ok.mp (Option.some.inj h)
      refine ⟨norm, [], q, ⟨by simp, hhere, ?_⟩, hq, hbelow, by simp⟩
      intro start hstart hne
      exact absurd (List.prefix_nil.mp hstart) hne
    · split at h
      · cases h
      · cases h
      · rename_i cur missing hclimb
        obtain ⟨tail, rfl, hdeep⟩ := climb_ok hclimb
        split at h
        · rename_i out hout
          obtain ⟨q, hq, hbelow, rfl⟩ := resolve_in_jail_ok.mp hout
          cases h
          exact ⟨cur, tail, q, hdeep, hq, hbelow, by simp [foldl_push]⟩
        · cases h
  · rintro ⟨cur, tail, q, hdeep, hq, hbelow, rfl⟩
    have hresolved : resolve_in_jail debug os allowed_roots cur = .ok ⟨true, q⟩ :=
      resolve_in_jail_ok.mpr ⟨q, hq, hbelow, rfl⟩
    by_cases htail : tail = []
    · have hcur : norm = cur := by
        rw [hdeep.parts, htail, List.append_nil]
      rw [if_pos (hcur ▸ hdeep.here), hcur, hresolved, htail, List.append_nil]
    · have hgone : os.found norm = false := by
        rw [hdeep.parts]
        exact hdeep.missing tail List.prefix_rfl htail
      have hfuel : tail.length < norm.parts.length + 1 := by
        rw [hdeep.parts, List.length_append]
        omega
      have hclimb := @climb_deepest os (norm.parts.length + 1) cur tail [] hdeep.here
        (Deepest.plain (hnorm ▸ hdeep)) hdeep.missing hfuel
      rw [hgone, if_neg Bool.false_ne_true]
      rw [← hdeep.parts] at hclimb
      rw [hclimb]
      simp only [hresolved, foldl_push]
      simp

theorem contained_iff {q : Path} {tail : List String} (hreal : os.tree.Real q)
    (hbelow : Below os allowed_roots q) (hplain : ∀ c ∈ tail, IsPlain c) :
    Contained os allowed_roots ⟨true, q ++ tail⟩ ↔ ¬ LinkLeadsOut os allowed_roots q tail := by
  constructor
  · rintro hcontained ⟨start, c, rest, target, hmeets, n, create, place, hlinks, hwalk, hout⟩
    refine hout (hcontained create place ?_)
    rw [lookup_behind hreal, hlinks, Tree.walk_meets hmeets]
    exact hwalk
  · intro hstays create place hplace
    rw [lookup_behind hreal] at hplace
    rcases Tree.walk_split hplain hplace with rfl | ⟨start, c, rest, target, hmeets⟩
    · obtain ⟨root, hroot, r, hr, hprefix⟩ := hbelow
      exact ⟨root, hroot, r, hr, hprefix.trans (List.prefix_append _ _)⟩
    · by_contra hout
      rcases hlinks : os.max_links with _ | n
      · rw [hlinks, Tree.walk_meets_zero hmeets] at hplace
        cases hplace
      · rw [hlinks, Tree.walk_meets hmeets] at hplace
        exact hstays ⟨start, c, rest, target, hmeets, n, create, place, hlinks, hplace, hout⟩

/-- Both functions return. What the first gives is in the jail, and what the second gives is in
the jail unless a link stands among the names that it found missing and leads out: a link that
dangles, or one that the check had too many links before it to follow. -/
theorem jail_holds_unless_a_link_leads_out (debug : PathBuf → String) (os : Os)
    (allowed_roots : List PathBuf) (path : PathBuf) :
    (resolve_new_in_jail debug os allowed_roots path).isSome ∧
    (∀ p, resolve_in_jail debug os allowed_roots path = .ok p → Contained os allowed_roots p) ∧
    ((∀ p, resolve_new_in_jail debug os allowed_roots path = some (.ok p) →
        Contained os allowed_roots p) ↔
      ∀ cur tail q, Deepest os (normalize_path (absolutize allowed_roots path)) cur tail →
        os.lookup false (absolutize allowed_roots cur) = .ok q → Below os allowed_roots q →
        ¬ LinkLeadsOut os allowed_roots q tail) := by
  refine ⟨?_, fun p h => resolve_in_jail_contained h, ?_⟩
  · simp only [resolve_new_in_jail]
    have hclimb := @climb_returns os _ _
      (Nat.lt_succ_self (normalize_path (absolutize allowed_roots path)).parts.length) []
    obtain ⟨climbed, hclimbed⟩ := Option.isSome_iff_exists.mp hclimb
    rw [hclimbed]
    split
    · rfl
    · cases climbed with
      | no_parent => rfl
      | at_ancestor cur missing =>
        dsimp only
        split <;> rfl
  · constructor
    · intro hcontained cur tail q hdeep hq hbelow
      refine (contained_iff (lookup_real hq) hbelow hdeep.plain).mp (hcontained _ ?_)
      exact resolve_new_in_jail_ok.mpr ⟨cur, tail, q, hdeep, hq, hbelow, rfl⟩
    · intro hstays p hp
      obtain ⟨cur, tail, q, hdeep, hq, hbelow, rfl⟩ := resolve_new_in_jail_ok.mp hp
      exact (contained_iff (lookup_real hq) hbelow hdeep.plain).mpr
        (hstays cur tail q hdeep hq hbelow)

/-! ## The write -/

/-- Along the path `full` nothing is a link, and all that has changed is at or below `q`. -/
structure Grown (os : Os) (q full : Path) (os' : Os) : Prop where
  changed : ∀ place, os'.tree.nodes place ≠ os.tree.nodes place → q <+: place
  unlinked : ∀ start, start <+: full → ∀ target, os'.tree.nodes start ≠ some (.link target)
  here : os'.tree.nodes q ≠ none

/-- A walk along a part of the path ends there. -/
theorem Grown.walk_eq {q full r d : Path} {os' : Os} (h : Grown os q full os')
    (hplain : ∀ c ∈ full, IsPlain c) (hr : r <+: full) {create : Bool} {n : Nat}
    (hwalk : os'.tree.walk create n [] r = .ok d) : d = r := by
  have hd := Tree.walk_unlinked (fun c hc => hplain c (hr.subset hc))
    (fun start hstart target => by simpa using h.unlinked start (hstart.trans hr) target) hwalk
  simpa using hd

/-- A node that is set along the path is at or below `q`, or at a place that was there. -/
theorem Grown.set {q full r : Path} {os' : Os} (h : Grown os q full os') (hr : q <+: r)
    {node : Node} (hnode : ∀ target, node ≠ .link target) (hset : os'.tree.Settable r) :
    Grown os q full { os' with tree := os'.tree.set r node hset } := by
  refine ⟨?_, ?_, ?_⟩
  · intro place hplace
    rw [Tree.set_nodes] at hplace
    split at hplace
    · rename_i hat
      exact hat ▸ hr
    · exact h.changed place hplace
  · intro start hstart target hlink
    rw [Tree.set_nodes] at hlink
    split at hlink
    · exact hnode target (Option.some.inj hlink)
    · exact h.unlinked start hstart target hlink
  · rw [Tree.set_nodes]
    split
    · exact Option.some_ne_none _
    · exact h.here

theorem Grown.mkdir {q full r : Path} {os' : Os} (h : Grown os q full os')
    (hplain : ∀ c ∈ full, IsPlain c) (hq : q <+: full) (hr : r <+: full) :
    Grown os q full (os'.mkdir ⟨true, r⟩).1 := by
  rcases os'.mkdir_cases ⟨true, r⟩ with hsame | ⟨c, d, hlast, hwalk, hnone, hset, hmade⟩
  · rw [hsame]
    exact h
  · obtain ⟨above, rfl⟩ := List.getLast?_eq_some_iff.mp hlast
    rw [List.dropLast_concat] at hwalk
    obtain rfl := h.walk_eq hplain ((List.prefix_append _ _).trans hr) hwalk
    rw [hmade]
    refine h.set ?_ (by simp) hset
    rcases List.prefix_or_prefix_of_prefix hq hr with hbelow | habove
    · exact hbelow
    · -- what is above `q` is there, since `q` is
      obtain ⟨rest, hrest⟩ := habove
      exact absurd (hrest ▸ Tree.none_below hnone rest) h.here

theorem Grown.create_dirs {q full : Path} (hplain : ∀ c ∈ full, IsPlain c) (hq : q <+: full)
    {above : List String} (habove : above.reverse <+: full) {os' : Os} (h : Grown os q full os') :
    Grown os q full (Os.create_dirs true above os').1 := by
  induction above generalizing os' with
  | nil => exact h
  | cons c above ih =>
    have hmade := h.mkdir hplain hq habove
    rw [Os.create_dirs]
    split
    · rename_i os₁ hrun
      rwa [hrun] at hmade
    · have hup := ih ((List.prefix_append _ _).trans (List.reverse_cons ▸ habove)) h
      split
      · rename_i os₁ e hrun
        rwa [hrun] at hup
      · rename_i os₁ hrun
        rw [hrun] at hup
        have hagain := hup.mkdir hplain hq habove
        split
        · rename_i os₂ hrun'
          rwa [hrun'] at hagain
        · exact hup
    · exact h

theorem Grown.write {q full : Path} {os' : Os} {content : Bytes}
    (hplain : ∀ c ∈ full, IsPlain c) (hq : q <+: full) (h : Grown os q full os') :
    Grown os q full (os'.write ⟨true, full⟩ content).1 := by
  unfold Os.write
  split
  · exact h
  · rename_i place hplace
    obtain rfl : place = full := by
      simp only [Os.lookup, PathBuf.mk.injEq, Bool.true_eq_false, false_and, if_false, Os.start,
        if_true] at hplace
      exact h.walk_eq hplain List.prefix_rfl hplace
    split
    · rename_i hset
      exact h.set hq (by simp) hset
    · exact h

theorem Grown.write_file {q full : Path} {content : Bytes} (hplain : ∀ c ∈ full, IsPlain c)
    (hq : q <+: full) (h : Grown os q full os) :
    Grown os q full (write_file os ⟨true, full⟩ content).1 := by
  unfold jail.write_file
  split
  · exact h.write hplain hq
  · rename_i up hup
    obtain rfl : up = ⟨true, full.dropLast⟩ := by
      unfold parent at hup
      split at hup
      · cases hup
      · exact (Option.some.inj hup).symm
    have habove : full.dropLast.reverse.reverse <+: full := by
      rw [List.reverse_reverse]
      exact List.dropLast_prefix _
    have hmade := h.create_dirs hplain hq habove
    split
    · rename_i os' e hrun
      rw [Os.create_dir_all] at hrun
      rwa [hrun] at hmade
    · rename_i os' hrun
      rw [Os.create_dir_all] at hrun
      rw [hrun] at hmade
      exact hmade.write hplain hq

/-- Nothing has changed yet, and no link stands in the way. -/
theorem grown_start {q : Path} {tail : List String} (hreal : os.tree.Real q)
    (hlinks : ∀ start, start <+: tail → ∀ target, os.tree.nodes (q ++ start) ≠ some (.link target)) :
    Grown os q (q ++ tail) os := by
  refine ⟨fun _ h => absurd rfl h, ?_, hreal.ne_none⟩
  intro start hprefix target hlink
  rcases List.prefix_or_prefix_of_prefix hprefix (List.prefix_append q tail) with ⟨r, rfl⟩ | ⟨r, rfl⟩
  · by_cases hr : r = []
    · exact hreal.not_link target (by simpa [hr] using hlink)
    · rw [Tree.ancestor_dir hreal.ne_none hr] at hlink
      cases hlink
  · exact hlinks r ((List.prefix_append_right_inj q).mp hprefix) target hlink

/-- Where no link stands among the missing names, the tool changes nothing outside the roots,
the directories that it makes on its way included. -/
theorem write_stays_in_jail {args : Value}
    (hlinks : ∀ path cur tail q, (args.index "path").as_str = some path →
      Deepest os (normalize_path (absolutize allowed_roots (path_of path))) cur tail →
      os.lookup false (absolutize allowed_roots cur) = .ok q →
      ∀ start, start <+: tail → ∀ target, os.tree.nodes (q ++ start) ≠ some (.link target))
    {place : Path}
    (hchanged : (FsWrite.execute debug os allowed_roots args).1.tree.nodes place ≠
      os.tree.nodes place) : Below os allowed_roots place := by
  unfold FsWrite.execute at hchanged
  split at hchanged
  · exact absurd rfl hchanged
  · exact absurd rfl hchanged
  · rename_i path content hpath _
    split at hchanged
    · exact absurd rfl hchanged
    · exact absurd rfl hchanged
    · rename_i file hfile
      obtain ⟨cur, tail, q, hdeep, hq, ⟨root, hroot, r, hr, hbelow⟩, rfl⟩ :=
        resolve_new_in_jail_ok.mp hfile
      have hreal := lookup_real hq
      have hplain : ∀ c ∈ q ++ tail, IsPlain c := by
        intro c hc
        rcases List.mem_append.mp hc with hc | hc
        · exact hreal.plain c hc
        · exact hdeep.plain c hc
      have hgrown : Grown os q (q ++ tail) (jail.write_file os ⟨true, q ++ tail⟩ (utf8 content)).1 :=
        (grown_start hreal (hlinks path cur tail q hpath hdeep hq)).write_file hplain
          (List.prefix_append _ _)
      refine ⟨root, hroot, r, hr, hbelow.trans (hgrown.changed place ?_)⟩
      split at hchanged
      · rename_i os' e hrun
        rwa [hrun]
      · rename_i os' hrun
        rwa [hrun]

end Jail

/-! ## A link that dangles -/

theorem lone_root : (if ([] : Path) = [] then some Node.dir else none) = some .dir := rfl

theorem lone_parents (p : Path) (c : String)
    (h : (if p ++ [c] = [] then some Node.dir else none) ≠ none) :
    (if p = [] then some Node.dir else none) = some .dir := by
  simp at h

theorem lone_names (p : Path) (c : String)
    (h : (if p ++ [c] = [] then some Node.dir else none) ≠ none) : IsPlain c := by
  simp at h

def root_only : Tree where
  nodes := fun p => if p = [] then some .dir else none
  root := lone_root
  parents := lone_parents
  names := lone_names

/-- A workspace, a directory outside, and a link in the workspace to a file that is not there. -/
def linked : Tree :=
  let t := root_only.set ["work"] .dir (by decide)
  let t := t.set ["etc"] .dir (by decide)
  t.set ["work", "notes"] (.link ⟨true, ["etc", "new"]⟩) (by decide)

def linked_os : Os := { tree := linked, cwd := [], max_links := 40 }

/-- The check takes the link for a missing file, and the write makes the file outside. -/
theorem a_dangling_link_leads_out :
    ¬ (∀ os allowed_roots path p,
        resolve_new_in_jail (fun _ => "") os allowed_roots path = some (.ok p) →
          Contained os allowed_roots p) ∧
      (FsWrite.execute (fun _ => "") linked_os [path_of "/work"]
        (.object [("path", .string "notes"), ("content", .string "x")])).1.tree.nodes
          ["etc", "new"] = some (.file [120]) := by
  refine ⟨fun hall => ?_, by decide +kernel⟩
  have hcontained := hall linked_os [path_of "/work"] (path_of "notes") (path_of "/work/notes")
    (by decide +kernel)
  obtain ⟨root, hroot, r, hr, hprefix⟩ := hcontained true ["etc", "new"] (by decide +kernel)
  obtain rfl := List.mem_singleton.mp hroot
  have hwork : linked_os.lookup false (path_of "/work") = .ok ["work"] := by decide +kernel
  cases hwork.symm.trans hr
  exact absurd hprefix (by decide)

end pai_tools.jail
