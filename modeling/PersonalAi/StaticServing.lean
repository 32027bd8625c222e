-- The static files of a web bundle (serve.rs): which file answers a request, and under which
-- content type. The law says when the file is one of the package and the type is that of the file.
import PersonalAi.CgiEnvelope
import PersonalAi.FileJail
import PersonalAi.PlacementGates

open text paths links
open pai_cli (ServeRequest)
open pai_tools.jail (path_of)

namespace pai_apps.serve

/-! ## The source -/

/-- What is behind the last dot of a text, or all of it. -/
def extension (path : String) : String :=
  String.ofList (path.toList.reverse.takeWhile (· != '.')).reverse

def to_ascii_lowercase (s : String) : String := String.ofList (s.toList.map Char.toLower)

/-- The arms of `mime_for`, in their order. -/
def mime_types : List (List String × String) :=
  [(["html", "htm"], "text/html; charset=utf-8"),
    (["js", "mjs"], "text/javascript; charset=utf-8"),
    (["css"], "text/css; charset=utf-8"),
    (["json", "map"], "application/json"),
    (["webmanifest"], "application/manifest+json"),
    (["svg"], "image/svg+xml"),
    (["png"], "image/png"),
    (["jpg", "jpeg"], "image/jpeg"),
    (["gif"], "image/gif"),
    (["webp"], "image/webp"),
    (["ico"], "image/x-icon"),
    (["wasm"], "application/wasm"),
    (["woff"], "font/woff"),
    (["woff2"], "font/woff2"),
    (["ttf", "otf"], "font/ttf"),
    (["txt"], "text/plain; charset=utf-8"),
    (["xml"], "application/xml"),
    (["pdf"], "application/pdf"),
    (["mp3"], "audio/mpeg"),
    (["wav"], "audio/wav"),
    (["mp4"], "video/mp4"),
    (["webm"], "video/webm")]

def octet_stream : String := "application/octet-stream"

def mime_for (path : String) : String :=
  match mime_types.find? (fun arm => arm.1.contains (to_ascii_lowercase (extension path))) with
  | some arm => arm.2
  | none => octet_stream

def SERVE_BLOCKED : List String :=
  ["data", "logs", "versions", "manifest.toml", "signature.bin", "auth.json"]

/-- A loaded web package: where its directory is, and the entrypoint that `load` has checked. -/
structure WebPackage (os : Os) where
  dir : PathBuf
  place : Path
  found : os.lookup false dir = .ok place
  is_dir : os.tree.nodes place = some .dir
  entrypoint : String
  checked : check_rel_path entrypoint = .ok ()

def plain (status : UInt16) (msg : String) : ServeResponse :=
  { status := status, headers := [text_plain], body := utf8 (msg ++ "\n") }

/-- All components are `Component::Normal`: a dot counts as one where the path begins with it. -/
def all_normal (rel : String) : Bool :=
  !is_absolute rel && decide ((rel.toList.splitOn '/').head? ≠ some ['.']) &&
    !(components rel).contains ".."

def is_separator (c : Char) : Bool := c == '/' || c == '\\'

/-- `rel.split(['/', '\\']).next()`. -/
def first_piece (rel : String) : String :=
  String.ofList (rel.toList.takeWhile (fun c => !is_separator c))

/-- The last piece of the same split has a dot. -/
def has_ext (rel : String) : Bool :=
  (rel.toList.reverse.takeWhile (fun c => !is_separator c)).contains '.'

def refused (rel : String) : Bool :=
  !all_normal rel || SERVE_BLOCKED.contains (first_piece rel)

section Serve
variable {os : Os} (pkg : WebPackage os)

def asked_for (req : ServeRequest) : String :=
  let rel := String.ofList (req.path.toList.dropWhile (· == '/'))
  if rel = "" then pkg.entrypoint else rel

/-- The file that is read, if there is one. -/
def static_file (rel : String) : Option PathBuf :=
  let file := pai_tools.jail.join pkg.dir (path_of rel)
  let file := if os.is_dir file then pai_tools.jail.join file (path_of "index.html") else file
  let file :=
    if !os.is_file file && !has_ext rel && rel != pkg.entrypoint then
      pai_tools.jail.join pkg.dir (path_of pkg.entrypoint)
    else file
  if os.is_file file then some file else none

def serve_static (req : ServeRequest) : Except AppError ServeResponse :=
  if req.method ≠ "GET" ∧ req.method ≠ "HEAD" then .ok (plain 405 "method not allowed")
  else
    let rel := asked_for pkg req
    if refused rel then .ok (plain 404 "not found")
    else
      match static_file pkg rel with
      | none => .ok (plain 404 "not found")
      | some file =>
        match os.read file with
        | .error e => .error (.Io e.to_string)
        | .ok body =>
          .ok { status := 200, headers := [("Content-Type", mime_for rel)]
                body := if req.method = "HEAD" then [] else body }

end Serve

/-! ## Names -/

theorem head_splitOn (c : Char) (cs : List Char) :
    (cs.splitOn c).head? = some (cs.takeWhile (· != c)) := by
  induction cs with
  | nil => rfl
  | cons d cs ih =>
    rw [List.splitOn_cons_eq_if_modifyHead]
    by_cases hd : d = c
    · simp [hd]
    · obtain ⟨l, ls, hsplit⟩ := List.exists_cons_of_ne_nil (List.splitOn_ne_nil c cs)
      rw [hsplit, List.head?_cons, Option.some.injEq] at ih
      simp [hd, hsplit, ih]

/-- A path that passes begins with a name. -/
theorem first_solid {rel : String} (h : all_normal rel = true) (hne : rel ≠ "") :
    ∃ ls, rel.toList.splitOn '/' = rel.toList.takeWhile (· != '/') :: ls ∧
      rel.toList.takeWhile (· != '/') ≠ [] ∧ rel.toList.takeWhile (· != '/') ≠ ['.'] := by
  unfold all_normal at h
  simp only [Bool.and_eq_true, Bool.not_eq_true', decide_eq_true_eq] at h
  obtain ⟨⟨habsolute, hdot⟩, -⟩ := h
  obtain ⟨l, ls, hsplit⟩ := List.exists_cons_of_ne_nil (List.splitOn_ne_nil '/' rel.toList)
  have hfirst := head_splitOn '/' rel.toList
  rw [hfirst, ne_eq, Option.some.injEq] at hdot
  rw [hsplit, List.head?_cons, Option.some.injEq] at hfirst
  refine ⟨ls, by rw [hsplit, hfirst], ?_, hdot⟩
  cases hrel : rel.toList with
  | nil => exact (hne (by simpa using hrel)).elim
  | cons x xs =>
    unfold is_absolute at habsolute
    rw [hrel] at habsolute
    have hx : x ≠ '/' := by simpa using habsolute
    simp [hx]

theorem solid_cons {l : List Char} (hempty : l ≠ []) (hdot : l ≠ ['.']) (ls : List (List Char)) :
    Tree.solid ((l :: ls).map String.ofList) = String.ofList l :: Tree.solid (ls.map String.ofList) := by
  have hname : String.ofList l ≠ "" ∧ String.ofList l ≠ "." := by
    constructor
    · intro heq
      exact hempty (by simpa using congrArg String.toList heq)
    · intro heq
      exact hdot (by simpa using congrArg String.toList heq)
  unfold Tree.solid
  rw [List.map_cons, List.filter_cons_of_pos (by simp [hname.1, hname.2])]

/-- The first component of a path that passes is what stands before its first slash. -/
theorem first_component {rel c : String} (h : all_normal rel = true)
    (hc : (components rel).head? = some c) : c.toList = rel.toList.takeWhile (· != '/') := by
  have hne : rel ≠ "" := by
    rintro rfl
    have hnone : (components "").head? = none := by decide
    rw [hnone] at hc
    cases hc
  obtain ⟨ls, hsplit, hempty, hdot⟩ := first_solid h hne
  change (Tree.solid ((rel.toList.splitOn '/').map String.ofList)).head? = _ at hc
  rw [hsplit, solid_cons hempty hdot, List.head?_cons, Option.some.injEq] at hc
  rw [← hc, String.toList_ofList]

theorem blocked_plain : ∀ b ∈ SERVE_BLOCKED, '\\' ∉ b.toList := by decide

theorem normal_of_not_refused {rel : String} (h : refused rel = false) : all_normal rel = true := by
  unfold refused at h
  simp only [Bool.or_eq_false_iff, Bool.not_eq_false'] at h
  exact h.1

/-- No blocked entry is on a path that is not refused. -/
theorem open_of_not_refused {rel : String} (h : refused rel = false) :
    ∀ c ∈ (components rel).head?, c ∉ SERVE_BLOCKED := by
  intro c hc hblocked
  have hfirst := first_component (normal_of_not_refused h) hc
  have hpiece : first_piece rel = c := by
    unfold first_piece
    have hboth : rel.toList.takeWhile (fun c => !is_separator c) =
        (rel.toList.takeWhile (· != '/')).takeWhile (· != '\\') := by
      rw [List.takeWhile_takeWhile]
      congr 1
      funext x
      rw [Bool.eq_iff_iff]
      simp [is_separator, and_comm]
    have hplain : ∀ x ∈ c.toList, (x != '\\') = true := by
      intro x hx
      have hne : x ≠ '\\' := fun heq => blocked_plain c hblocked (heq ▸ hx)
      simpa using hne
    rw [hboth, ← hfirst, List.takeWhile_eq_self_iff.mpr hplain, String.ofList_toList]
  have hcontains : SERVE_BLOCKED.contains (first_piece rel) = true := by
    rw [hpiece]
    simpa using hblocked
  unfold refused at h
  rw [hcontains, Bool.or_true] at h
  cases h

/-! ## Types -/

theorem arms_plain : ∀ arm ∈ mime_types, ∀ x ∈ arm.1, '/' ∉ x.toList := by decide

theorem mime_of_slash {path : String} (h : '/' ∈ (extension path).toList) :
    mime_for path = octet_stream := by
  have hlower : '/' ∈ (to_ascii_lowercase (extension path)).toList := by
    unfold to_ascii_lowercase
    rw [String.toList_ofList]
    exact List.mem_map.mpr ⟨'/', h, by decide⟩
  have hnone : mime_types.find? (fun arm => arm.1.contains (to_ascii_lowercase (extension path))) =
      none := by
    rw [List.find?_eq_none]
    intro arm harm hmem
    exact arms_plain arm harm _ (by simpa using hmem) hlower
  unfold mime_for
  rw [hnone]

/-- The type of a path with a slash is that of its last piece, if that has a dot. -/
theorem mime_slash (a b : String) : mime_for (a ++ "/" ++ b) =
    if '.' ∈ b.toList then mime_for b else octet_stream := by
  have hrev : (a ++ "/" ++ b).toList.reverse = b.toList.reverse ++ '/' :: a.toList.reverse := by
    simp
  have htake := @List.takeWhile_append Char (· != '.') b.toList.reverse ('/' :: a.toList.reverse)
  by_cases hb : '.' ∈ b.toList
  · rw [if_pos hb]
    have hlength : ¬ (b.toList.reverse.takeWhile (· != '.')).length = b.toList.reverse.length := by
      intro heq
      have hall := (List.takeWhile_prefix (· != '.')).eq_of_length heq
      have hne := List.takeWhile_eq_self_iff.mp hall '.' (List.mem_reverse.mpr hb)
      exact absurd hne (by decide)
    rw [if_neg hlength] at htake
    have hextension : extension (a ++ "/" ++ b) = extension b := by
      unfold extension
      rw [hrev, htake]
    unfold mime_for
    rw [hextension]
  · rw [if_neg hb]
    apply mime_of_slash
    have hall : b.toList.reverse.takeWhile (· != '.') = b.toList.reverse := by
      apply List.takeWhile_eq_self_iff.mpr
      intro x hx
      have hne : x ≠ '.' := fun heq => hb (heq ▸ List.mem_reverse.mp hx)
      simpa using hne
    rw [hall, if_pos rfl] at htake
    unfold extension
    rw [hrev, htake, String.toList_ofList]
    simp

/-- The path ends in a name: a file can be there. -/
def ends_in_name (rel : String) : Prop :=
  ∀ c ∈ ((rel.toList.splitOn '/').map String.ofList).getLast?, ¬ (c = "" ∨ c = ".")

/-- The type of a path is that of its components. -/
theorem mime_components {rel : String} (h : all_normal rel = true) (hend : ends_in_name rel) :
    mime_for rel = mime_for ("/".intercalate (components rel)) := by
  by_cases hslash : '/' ∈ rel.toList
  · -- The last slash.
    obtain ⟨after, before, hrev, hfree⟩ := List.eq_append_cons_of_mem (List.mem_reverse.mpr hslash)
    have hrel : rel = String.ofList before.reverse ++ "/" ++ String.ofList after.reverse := by
      apply String.toList_inj.mp
      have hlist := congrArg List.reverse hrev
      simpa using hlist
    generalize hb : String.ofList after.reverse = b at hrel
    generalize String.ofList before.reverse = a at hrel
    have hplain : '/' ∉ b.toList := by
      rw [← hb]
      simpa using hfree
    have htext : rel.toList = a.toList ++ '/' :: b.toList := by simp [hrel]
    have hname : ¬ (b = "" ∨ b = ".") := by
      apply hend
      rw [htext, List.splitOn_append_cons_self, List.splitOn_eq_singleton hplain]
      simp
    have hne : rel ≠ "" := by
      rintro rfl
      simp at hslash
    have hbefore : components a ≠ [] := by
      obtain ⟨ls, hsplit, hempty, hdot⟩ := first_solid h hne
      obtain ⟨l, ls', hsplit'⟩ := List.exists_cons_of_ne_nil (List.splitOn_ne_nil '/' a.toList)
      rw [htext, List.splitOn_append_cons_self, hsplit', List.cons_append] at hsplit
      injection hsplit with hl _
      change Tree.solid ((a.toList.splitOn '/').map String.ofList) ≠ []
      rw [hsplit', solid_cons (hl ▸ htext ▸ hempty) (hl ▸ htext ▸ hdot)]
      simp
    rw [hrel, components_slash, components_of_no_slash hplain, if_neg hname,
      String.intercalate_append_of_ne_nil hbefore (by simp), String.intercalate_singleton,
      mime_slash, mime_slash]
  · have hname : ¬ (rel = "" ∨ rel = ".") := by
      apply hend
      rw [List.splitOn_eq_singleton hslash]
      simp
    rw [components_of_no_slash hslash, if_neg hname, String.intercalate_singleton]

/-! ## The three answers -/

/-- The file that is asked for, the index of a directory, or the entrypoint in place of a path
that is not there. -/
inductive Choice
  | asked
  | index
  | shell
deriving DecidableEq

section Choices
variable {os : Os} (pkg : WebPackage os) (rel : String)

def Choice.path : Choice → PathBuf
  | .asked => pai_tools.jail.join pkg.dir (path_of rel)
  | .index => pai_tools.jail.join (pai_tools.jail.join pkg.dir (path_of rel)) (path_of "index.html")
  | .shell => pai_tools.jail.join pkg.dir (path_of pkg.entrypoint)

/-- The names of the file below the package. -/
def Choice.names : Choice → Path
  | .asked => components rel
  | .index => components rel ++ ["index.html"]
  | .shell => components pkg.entrypoint

def fallback : Option Choice :=
  if has_ext rel = false ∧ rel ≠ pkg.entrypoint ∧ os.is_file (Choice.path pkg rel .shell) = true then
    some .shell
  else none

def choice : Option Choice :=
  if os.is_dir (Choice.path pkg rel .asked) then
    if os.is_file (Choice.path pkg rel .index) then some .index else fallback pkg rel
  else if os.is_file (Choice.path pkg rel .asked) then some .asked
  else fallback pkg rel

theorem fallback_eq {file : PathBuf} (hfile : os.is_file file = false) :
    (let file := if !os.is_file file && !has_ext rel && rel != pkg.entrypoint then
        pai_tools.jail.join pkg.dir (path_of pkg.entrypoint) else file
      if os.is_file file then some file else none) =
    (fallback pkg rel).map (Choice.path pkg rel) := by
  have hshell : Choice.path pkg rel .shell = pai_tools.jail.join pkg.dir (path_of pkg.entrypoint) :=
    rfl
  unfold fallback
  rw [← hshell]
  cases hext : has_ext rel with
  | true => simp [hfile]
  | false =>
    by_cases hentry : rel = pkg.entrypoint
    · simp [hfile, hentry]
    · cases hthere : os.is_file (Choice.path pkg rel .shell) with
      | true => simp [hfile, hentry, hthere]
      | false => simp [hfile, hentry, hthere]

theorem static_file_eq : static_file pkg rel = (choice pkg rel).map (Choice.path pkg rel) := by
  unfold static_file choice
  change (let file := if os.is_dir (Choice.path pkg rel .asked) then Choice.path pkg rel .index
      else Choice.path pkg rel .asked
    let file := if !os.is_file file && !has_ext rel && rel != pkg.entrypoint then
        pai_tools.jail.join pkg.dir (path_of pkg.entrypoint) else file
    if os.is_file file then some file else none) = _
  by_cases hdir : os.is_dir (Choice.path pkg rel .asked) = true
  · rw [if_pos hdir, if_pos hdir]
    by_cases hindex : os.is_file (Choice.path pkg rel .index) = true
    · rw [if_pos hindex]
      simp [hindex]
    · rw [if_neg hindex]
      exact fallback_eq pkg rel (by simpa using hindex)
  · rw [if_neg hdir, if_neg hdir]
    by_cases hasked : os.is_file (Choice.path pkg rel .asked) = true
    · rw [if_pos hasked]
      simp [hasked]
    · rw [if_neg hasked]
      exact fallback_eq pkg rel (by simpa using hasked)

theorem choice_is_file {pkg : WebPackage os} {rel : String} {c : Choice}
    (h : choice pkg rel = some c) : os.is_file (c.path pkg rel) = true := by
  have hfallback : ∀ {c}, fallback pkg rel = some c → os.is_file (c.path pkg rel) = true := by
    intro c h
    unfold fallback at h
    split at h
    · rename_i hshell
      cases h
      exact hshell.2.2
    · cases h
  unfold choice at h
  split at h
  · split at h
    · cases h
      assumption
    · exact hfallback h
  · split at h
    · cases h
      assumption
    · exact hfallback h

end Choices

/-! ## Where a choice leads -/

def pieces (s : String) : List String := (s.toList.splitOn '/').map String.ofList

theorem solid_pieces (s : String) : Tree.solid (pieces s) = components s := rfl

theorem join_parts {base : PathBuf} (hbase : base ≠ ⟨false, []⟩) {s : String}
    (hs : is_absolute s = false) :
    pai_tools.jail.join base (path_of s) = ⟨base.absolute, base.parts ++ pieces s⟩ := by
  have hparts : path_of s = ⟨false, if s = "" then [] else pieces s⟩ := by
    unfold path_of pieces
    rw [hs]
    rfl
  unfold pai_tools.jail.join
  rw [hparts]
  dsimp only
  rw [if_neg (by simp [hbase])]
  by_cases hempty : s = ""
  · rw [if_pos hempty, if_pos rfl, hempty]
    rfl
  · have hne : pieces s ≠ [] := by
      unfold pieces
      simp [List.splitOn_ne_nil]
    rw [if_neg hempty, if_neg hne]

section Leads
variable {os : Os} (pkg : WebPackage os)

theorem WebPackage.dir_ne : pkg.dir ≠ ⟨false, []⟩ := by
  intro heq
  have hfound := pkg.found
  unfold Os.lookup at hfound
  rw [if_pos heq] at hfound
  cases hfound

/-- What is below the directory is looked up from its place. -/
theorem WebPackage.below : ∃ m, ∀ parts,
    os.lookup false ⟨pkg.dir.absolute, pkg.dir.parts ++ parts⟩ =
      os.tree.walk false m pkg.place parts := by
  have hfound := pkg.found
  unfold Os.lookup at hfound
  rw [if_neg pkg.dir_ne] at hfound
  obtain ⟨m, hm⟩ := Tree.walk_append hfound
  refine ⟨m, fun parts => ?_⟩
  have hne : (⟨pkg.dir.absolute, pkg.dir.parts ++ parts⟩ : PathBuf) ≠ ⟨false, []⟩ := by
    intro heq
    injection heq with habsolute hparts
    apply pkg.dir_ne
    rw [List.append_eq_nil_iff] at hparts
    cases hdir : pkg.dir with
    | mk absolute parts =>
      rw [hdir] at habsolute hparts
      have hstart : absolute = false := habsolute
      have hempty : parts = [] := hparts.1
      rw [hstart, hempty]
  unfold Os.lookup
  rw [if_neg hne]
  exact hm false parts

variable {pkg} {rel : String}

def Choice.parts (pkg : WebPackage os) (rel : String) : Choice → List String
  | .asked => pieces rel
  | .index => pieces rel ++ ["index.html"]
  | .shell => pieces pkg.entrypoint

theorem solid_parts (c : Choice) : Tree.solid (c.parts pkg rel) = c.names pkg rel := by
  cases c with
  | asked => rfl
  | index =>
    change Tree.solid (pieces rel ++ ["index.html"]) = components rel ++ ["index.html"]
    unfold Tree.solid
    rw [List.filter_append]
    congr 1
  | shell => rfl

theorem path_parts (h : all_normal rel = true) (c : Choice) :
    c.path pkg rel = ⟨pkg.dir.absolute, pkg.dir.parts ++ c.parts pkg rel⟩ := by
  have hrel : is_absolute rel = false := by
    unfold all_normal at h
    simp only [Bool.and_eq_true, Bool.not_eq_true'] at h
    exact h.1.1
  have hentry : is_absolute pkg.entrypoint = false := by
    have hchecked := pkg.checked
    unfold check_rel_path at hchecked
    split at hchecked
    · cases hchecked
    · rename_i hno
      simpa using hno
  cases c with
  | asked => exact join_parts pkg.dir_ne hrel
  | index =>
    change pai_tools.jail.join (pai_tools.jail.join pkg.dir (path_of rel)) (path_of "index.html") = _
    rw [join_parts pkg.dir_ne hrel, join_parts _ (by decide : is_absolute "index.html" = false)]
    · have hindex : pieces "index.html" = ["index.html"] := by decide
      rw [hindex, List.append_assoc]
      rfl
    · intro heq
      injection heq with _ hparts
      rw [List.append_eq_nil_iff] at hparts
      unfold pieces at hparts
      simp [List.splitOn_ne_nil] at hparts
  | shell => exact join_parts pkg.dir_ne hentry

theorem up_of_components {s : String} (h : ".." ∉ components s) : ".." ∉ pieces s := by
  intro hmem
  apply h
  rw [← solid_pieces]
  exact List.mem_filter.mpr ⟨hmem, by decide⟩

theorem no_up (h : all_normal rel = true) (c : Choice) : ".." ∉ c.parts pkg rel := by
  have hrel : ".." ∉ components rel := by
    unfold all_normal at h
    simp only [Bool.and_eq_true, Bool.not_eq_true'] at h
    simpa using h.2
  cases c with
  | asked => exact up_of_components hrel
  | index =>
    intro hmem
    rcases List.mem_append.mp hmem with hmem | hmem
    · exact up_of_components hrel hmem
    · exact absurd hmem (by decide)
  | shell =>
    apply up_of_components
    have hchecked := pkg.checked
    unfold check_rel_path at hchecked
    split at hchecked
    · cases hchecked
    · split at hchecked
      · cases hchecked
      · assumption

/-- Without a link on the way a file of the package is served from where it is named, and a path
that is served itself ends in a name. -/
theorem leads_straight (h : all_normal rel = true) {c : Choice} {q : Path} {content : Bytes}
    (hlinks : ¬ os.tree.Linked pkg.place (c.names pkg rel))
    (hlook : os.lookup false (c.path pkg rel) = .ok q)
    (hfile : os.tree.nodes q = some (.file content)) :
    q = pkg.place ++ c.names pkg rel ∧ (c = .asked → ends_in_name rel) := by
  obtain ⟨m, hbelow⟩ := pkg.below
  rw [path_parts h, hbelow] at hlook
  rw [← solid_parts] at hlinks ⊢
  obtain ⟨hq, hlast⟩ := Tree.walk_solid (no_up h c) hlinks hlook
  refine ⟨hq, ?_⟩
  rintro rfl x hx hdot
  have hdir := hlast x hx hdot
  rw [hfile] at hdir
  cases hdir

end Leads

/-! ## What is served -/

/-- The path does not begin with a blocked name. -/
def Open (rest : Path) : Prop := ∀ c ∈ rest.head?, c ∉ SERVE_BLOCKED

section Law
variable {os : Os} (pkg : WebPackage os)

/-- A response with status 200 is the file of the package at `rest`, outside of the blocked names
and under its own type. -/
structure Serves (req : ServeRequest) (resp : ServeResponse) (rest : Path) (content : Bytes) : Prop where
  read : ∃ file, static_file pkg (asked_for pkg req) = some file ∧
    os.lookup false file = .ok (pkg.place ++ rest)
  file : os.tree.nodes (pkg.place ++ rest) = some (.file content)
  open_ : Open rest
  body : resp.body = if req.method = "HEAD" then [] else content
  typed : resp.headers = [("Content-Type", mime_for ("/".intercalate rest))]

/-- Nothing leaks and the label is right. -/
def ServesItsOwn (req : ServeRequest) : Prop :=
  ∀ resp, serve_static pkg req = .ok resp → resp.status = 200 →
    ∃ rest content, Serves pkg req resp rest content

/-- The file that answers, if the request is one that is answered from a file. -/
def answer (req : ServeRequest) : Option Choice :=
  if req.method ≠ "GET" ∧ req.method ≠ "HEAD" then none
  else if refused (asked_for pkg req) then none
  else choice pkg (asked_for pkg req)

/-- Without links: the index has the type of the path that is asked for, and so has the
entrypoint, which is not blocked. -/
def Choice.Suits (rel : String) : Choice → Prop
  | .asked => True
  | .index => mime_for rel = mime_for "index.html"
  | .shell => Open (components pkg.entrypoint) ∧
      mime_for rel = mime_for ("/".intercalate (components pkg.entrypoint))

/-- Through links: they lead to a path of the package that is not blocked, with the type of the
path that is asked for. -/
def LedBack (rel : String) (c : Choice) : Prop :=
  ∃ rest, os.lookup false (c.path pkg rel) = .ok (pkg.place ++ rest) ∧ Open rest ∧
    mime_for rel = mime_for ("/".intercalate rest)

variable {pkg}

/-- The request is answered from that file, under the type of what is asked for. -/
theorem serve_static_cases (req : ServeRequest) :
    (answer pkg req = none ∧ ∃ resp, serve_static pkg req = .ok resp ∧ resp.status ≠ 200) ∨
    ∃ c q content, answer pkg req = some c ∧ refused (asked_for pkg req) = false ∧
      static_file pkg (asked_for pkg req) = some (c.path pkg (asked_for pkg req)) ∧
      os.lookup false (c.path pkg (asked_for pkg req)) = .ok q ∧
      os.tree.nodes q = some (.file content) ∧
      serve_static pkg req = .ok
        { status := 200, headers := [("Content-Type", mime_for (asked_for pkg req))]
          body := if req.method = "HEAD" then [] else content } := by
  by_cases hmethod : req.method ≠ "GET" ∧ req.method ≠ "HEAD"
  · refine .inl ⟨if_pos hmethod, plain 405 "method not allowed", if_pos hmethod, ?_⟩
    decide
  have hnot_found : (plain 404 "not found").status ≠ 200 := by decide
  cases hrefused : refused (asked_for pkg req) with
  | true =>
    refine .inl ⟨?_, plain 404 "not found", ?_, hnot_found⟩
    · simp only [answer, if_neg hmethod, hrefused, if_true]
    · simp only [serve_static, if_neg hmethod, hrefused, if_true]
  | false =>
    cases hchoice : choice pkg (asked_for pkg req) with
    | none =>
      refine .inl ⟨?_, plain 404 "not found", ?_, hnot_found⟩
      · simp only [answer, if_neg hmethod, hrefused, Bool.false_eq_true, if_false, hchoice]
      · simp only [serve_static, if_neg hmethod, hrefused, Bool.false_eq_true, if_false,
          static_file_eq, hchoice, Option.map_none]
    | some c =>
      obtain ⟨q, content, hlook, hfile, hread⟩ := Os.is_file_cases os (choice_is_file hchoice)
      refine .inr ⟨c, q, content, ?_, rfl, ?_, hlook, hfile, ?_⟩
      · simp only [answer, if_neg hmethod, hrefused, Bool.false_eq_true, if_false, hchoice]
      · rw [static_file_eq, hchoice, Option.map_some]
      · simp only [serve_static, if_neg hmethod, hrefused, Bool.false_eq_true, if_false,
          static_file_eq, hchoice, Option.map_some, hread]

/-- Without a link on the way the file is one of the package, and its type is right exactly where
the choice suits. -/
theorem suits_iff {rel : String} (hrefused : refused rel = false) {c : Choice}
    (hend : c = .asked → ends_in_name rel) :
    Open (c.names pkg rel) ∧ mime_for rel = mime_for ("/".intercalate (c.names pkg rel)) ↔
      c.Suits pkg rel := by
  have hopen : Open (components rel) := open_of_not_refused hrefused
  cases c with
  | asked =>
    have htype := mime_components (normal_of_not_refused hrefused) (hend rfl)
    exact ⟨fun _ => trivial, fun _ => ⟨hopen, htype⟩⟩
  | index =>
    have hfirst : Open (components rel ++ ["index.html"]) := by
      intro x hx
      cases hrel : components rel with
      | nil =>
        rw [hrel] at hx
        cases hx
        decide
      | cons y ys =>
        rw [hrel] at hx
        apply hopen
        rw [hrel]
        exact hx
    have htype : mime_for ("/".intercalate (components rel ++ ["index.html"])) =
        mime_for "index.html" := by
      by_cases hempty : components rel = []
      · rw [hempty, List.nil_append, String.intercalate_singleton]
      · rw [String.intercalate_append_of_ne_nil hempty (by simp), String.intercalate_singleton,
          mime_slash, if_pos (by decide)]
    change Open (components rel ++ ["index.html"]) ∧
      mime_for rel = mime_for ("/".intercalate (components rel ++ ["index.html"])) ↔ _
    rw [htype]
    exact ⟨fun h => h.2, fun h => ⟨hfirst, h⟩⟩
  | shell => exact Iff.rfl

/-- Whatever the package, its links and the request: what is served is a file of the package that
is not blocked, under its own type, exactly where the file that answers suits the path that is
asked for, or the links that are on its way lead back to one that does. -/
theorem serves_its_own_iff (pkg : WebPackage os) (req : ServeRequest) :
    ServesItsOwn pkg req ↔ ∀ c, answer pkg req = some c →
      (¬ os.tree.Linked pkg.place (c.names pkg (asked_for pkg req)) →
          c.Suits pkg (asked_for pkg req)) ∧
        (os.tree.Linked pkg.place (c.names pkg (asked_for pkg req)) →
          LedBack pkg (asked_for pkg req) c) := by
  rcases @serve_static_cases os pkg req with
    ⟨hnone, resp, hresp, hstatus⟩ | ⟨c, q, content, hsome, hrefused, hchosen, hlook, hfile, hresp⟩
  · constructor
    · intro _ c hc
      rw [hnone] at hc
      cases hc
    · intro _ resp' hresp' hstatus'
      rw [hresp] at hresp'
      cases hresp'
      exact (hstatus hstatus').elim
  -- The answer is the file at `q`.
  have hserves : ServesItsOwn pkg req ↔ ∃ rest, q = pkg.place ++ rest ∧ Open rest ∧
      mime_for (asked_for pkg req) = mime_for ("/".intercalate rest) := by
    constructor
    · intro h
      obtain ⟨rest, content', hserves⟩ := h _ hresp rfl
      obtain ⟨file, hread, hat⟩ := hserves.read
      rw [hchosen] at hread
      cases hread
      rw [hlook] at hat
      injection hat with hq
      have htyped := hserves.typed
      dsimp only at htyped
      injection htyped with htyped _
      injection htyped with _ htyped
      exact ⟨rest, hq, hserves.open_, htyped⟩
    · rintro ⟨rest, rfl, hopen, htype⟩ resp' hresp' -
      rw [hresp] at hresp'
      cases hresp'
      exact ⟨rest, content, ⟨_, hchosen, hlook⟩, hfile, hopen, rfl, by rw [htype]⟩
  rw [hserves, hsome]
  constructor
  · rintro ⟨rest, rfl, hopen, htype⟩ c' hc'
    cases hc'
    refine ⟨fun hlinks => ?_, fun _ => ⟨rest, hlook, hopen, htype⟩⟩
    obtain ⟨hq, hend⟩ := leads_straight (normal_of_not_refused hrefused) hlinks hlook hfile
    rw [List.append_cancel_left_eq] at hq
    subst hq
    exact (suits_iff hrefused hend).mp ⟨hopen, htype⟩
  · intro h
    obtain ⟨hstraight, hlinked⟩ := h c rfl
    by_cases hlinks : os.tree.Linked pkg.place (c.names pkg (asked_for pkg req))
    · obtain ⟨rest, hat, hopen, htype⟩ := hlinked hlinks
      rw [hlook] at hat
      injection hat with hq
      exact ⟨rest, hq, hopen, htype⟩
    · obtain ⟨hq, hend⟩ := leads_straight (normal_of_not_refused hrefused) hlinks hlook hfile
      obtain ⟨hopen, htype⟩ := (suits_iff hrefused hend).mpr (hstraight hlinks)
      exact ⟨_, hq, hopen, htype⟩

end Law

/-! ## A deep link -/

theorem site_free : pai_tools.jail.root_only.Settable ["site"] := by decide

theorem page_free :
    (pai_tools.jail.root_only.set ["site"] .dir site_free).Settable ["site", "index.html"] := by
  decide

/-- A bundle of one page. -/
def site_os : Os where
  tree := (pai_tools.jail.root_only.set ["site"] .dir site_free).set ["site", "index.html"]
    (.file (utf8 "<h1>notes</h1>")) page_free
  cwd := []
  max_links := 40

theorem site_found : site_os.lookup false ⟨true, ["site"]⟩ = .ok ["site"] := by decide +kernel

theorem site_is_dir : site_os.tree.nodes ["site"] = some .dir := by decide +kernel

theorem index_checked : check_rel_path "index.html" = .ok () := by decide

def site : WebPackage site_os where
  dir := ⟨true, ["site"]⟩
  place := ["site"]
  found := site_found
  is_dir := site_is_dir
  entrypoint := "index.html"
  checked := index_checked

/-- A path that the page itself routes. -/
def deep_link : ServeRequest :=
  { method := "GET", path := "/notes/42", query := "", headers := [], body_b64 := "", base := "" }

/-- The page comes as a stream of bytes. -/
theorem a_deep_link_is_mislabelled :
    ¬ ∀ (os : Os) (pkg : WebPackage os) (req : ServeRequest),
      req.method = "GET" ∨ req.method = "HEAD" → ServesItsOwn pkg req := by
  intro h
  have hresp : serve_static site deep_link = .ok
      { status := 200, headers := [("Content-Type", octet_stream)]
        body := utf8 "<h1>notes</h1>" } := by decide +kernel
  obtain ⟨rest, content, hserves⟩ := h site_os site deep_link (.inl rfl) _ hresp rfl
  obtain ⟨file, hread, hat⟩ := hserves.read
  have hfile : static_file site (asked_for site deep_link) = some ⟨true, ["site", "index.html"]⟩ := by
    decide +kernel
  rw [hfile] at hread
  cases hread
  have hlook : site_os.lookup false ⟨true, ["site", "index.html"]⟩ = .ok ["site", "index.html"] := by
    decide +kernel
  rw [hlook] at hat
  injection hat with hat
  have hrest : ["index.html"] = rest := by simpa [site] using hat
  have htyped := hserves.typed
  rw [← hrest, String.intercalate_singleton] at htyped
  exact absurd htyped (by decide +kernel)

end pai_apps.serve
