-- The requests of the GitLab connector (rest.rs): which URL each call asks for, with its arguments
-- as segments of the path. The law says when the path that is asked for is the one of the call.
import PersonalAi.Core
import PersonalAi.Lib.UrlPaths

open text hosts urls
open pai_core (Error)

namespace pai_connector_gitlab

/-! ## Requests -/

/-- The binding of an instance, as the requests use it. -/
structure GitLabConfig where
  host : String
  project : Option String

/-- The host with a scheme, and without slashes at its end. -/
def GitLabConfig.normalized_host (cfg : GitLabConfig) : String :=
  let h := (trim cfg.host.toList).rdropWhile (· == '/')
  if "http://".toList.isPrefixOf h || "https://".toList.isPrefixOf h then String.ofList h
  else "https://" ++ String.ofList h

/-- A byte that stands for itself in a segment. -/
def unreserved (b : UInt8) : Bool :=
  let c := Char.ofNat b.toNat
  decide (b.toNat < 128) && (c.isAlphanum || c == '.' || c == '_' || c == '-' || c == '~')

def enc_byte (b : UInt8) : List Char :=
  if unreserved b then [Char.ofNat b.toNat] else percent_byte b

/-- One path segment, percent-encoded byte by byte. -/
def enc (s : String) : String := String.ofList ((utf8 s).flatMap enc_byte)

inductive Method
  | GET
  | POST
  | PUT
deriving DecidableEq

structure Request where
  method : Method
  url : String
  query : List (String × String)

structure IssueQuery where
  project : Option String
  state : Option String
  labels : List String
  search : Option String
  limit : UInt32

structure MrQuery where
  project : Option String
  state : Option String
  search : Option String
  limit : UInt32

inductive CommentTarget
  | Issue (iid : UInt64)
  | MergeRequest (iid : UInt64)

/-- The methods of the provider, with those of their arguments that the URL is made of. -/
inductive Call
  | whoami
  | projects (search : Option String) (limit : UInt32)
  | issues (q : IssueQuery)
  | issue (iid : UInt64) (project : Option String)
  | create_issue (project : Option String)
  | comment (target : CommentTarget) (project : Option String)
  | merge_requests (q : MrQuery)
  | merge_request (iid : UInt64) (project : Option String)
  | create_merge_request (target_branch : Option String) (project : Option String)
  | merge (iid : UInt64) (project : Option String)
  | pipelines (limit : UInt32) (project : Option String)
  | trigger_pipeline (project : Option String)
  | repo_file (path git_ref : String) (project : Option String)

structure RestGitLab where
  cfg : GitLabConfig

/-- `limit.clamp(1, 100)`. -/
def clamp (limit : UInt32) : Nat := min (max limit.toNat 1) 100

def iid_text (iid : UInt64) : String := toString iid.toNat

namespace RestGitLab

section Url
variable (g : RestGitLab)

def api (path : String) : String := g.cfg.normalized_host ++ "/api/v4" ++ path

/-- The project of a call: its own, or else the default one. -/
def project (project : Option String) : Except Error String :=
  match (project.or g.cfg.project).filter fun p => decide (trim p.toList ≠ []) with
  | some p => .ok p
  | none =>
    .error (.InvalidInput "no project — pass one or set a default via `pai gitlab configure`")

def proj_path (project : Option String) (suffix : String) : Except Error String := do
  let p ← g.project project
  pure ("/projects/" ++ enc p ++ suffix)

def get (path : String) (query : List (String × String)) : Request :=
  { method := .GET, url := g.api path, query := query }

def post (path : String) : Request := { method := .POST, url := g.api path, query := [] }

def put (path : String) : Request := { method := .PUT, url := g.api path, query := [] }

def search_query : Option String → List (String × String)
  | some s => [("search", s)]
  | none => []

/-- The request for the default branch of a project. -/
def default_branch (project : Option String) : Except Error Request := do
  let path ← g.proj_path project ""
  pure (g.get path [])

/-- What a call asks for, in its order, where it has a token. `branch` is the answer to the question
for the default branch. -/
def requests (branch : Except Error String) : Call → Except Error (List Request)
  | .whoami => .ok [g.get "/user" []]
  | .projects search limit =>
    .ok [g.get "/projects" ([("membership", "true"), ("order_by", "last_activity_at"),
      ("per_page", toString (clamp limit))] ++ search_query search)]
  | .issues q => do
    let project ← g.project q.project
    let labels := if q.labels.isEmpty then [] else [("labels", String.intercalate "," q.labels)]
    pure [g.get ("/projects/" ++ enc project ++ "/issues")
      ([("state", q.state.getD "opened"), ("per_page", toString (max (clamp q.limit) 20))] ++
        search_query q.search ++ labels)]
  | .issue iid project => do
    let project ← g.project project
    pure [g.get ("/projects/" ++ enc project ++ "/issues/" ++ iid_text iid) []]
  | .create_issue project => do
    let project ← g.project project
    pure [g.post ("/projects/" ++ enc project ++ "/issues")]
  | .comment target project => do
    let project ← g.project project
    let parent := match target with
      | .Issue iid => "issues/" ++ iid_text iid ++ "/notes"
      | .MergeRequest iid => "merge_requests/" ++ iid_text iid ++ "/notes"
    pure [g.post ("/projects/" ++ enc project ++ "/" ++ parent)]
  | .merge_requests q => do
    let project ← g.project q.project
    pure [g.get ("/projects/" ++ enc project ++ "/merge_requests")
      ([("state", q.state.getD "opened"), ("per_page", toString (max (clamp q.limit) 20))] ++
        search_query q.search)]
  | .merge_request iid project => do
    let project ← g.project project
    pure [g.get ("/projects/" ++ enc project ++ "/merge_requests/" ++ iid_text iid) []]
  | .create_merge_request target_branch project => do
    let project ← g.project project
    let create := g.post ("/projects/" ++ enc project ++ "/merge_requests")
    if (target_branch.filter fun b => decide (trim b.toList ≠ [])).isSome then pure [create]
    else
      let first ← g.default_branch (some project)
      pure (if branch.isOk then [first, create] else [first])
  | .merge iid project => do
    let project ← g.project project
    pure [g.put ("/projects/" ++ enc project ++ "/merge_requests/" ++ iid_text iid ++ "/merge")]
  | .pipelines limit project => do
    let project ← g.project project
    pure [g.get ("/projects/" ++ enc project ++ "/pipelines")
      [("per_page", toString (max (clamp limit) 20))]]
  | .trigger_pipeline project => do
    let project ← g.project project
    pure [g.post ("/projects/" ++ enc project ++ "/pipeline")]
  | .repo_file path git_ref project => do
    let project ← g.project project
    pure [g.get ("/projects/" ++ enc project ++ "/repository/files/" ++ enc path ++ "/raw")
      [("ref", git_ref)]]

end Url

end RestGitLab

/-! ## What is wanted -/

/-- A segment of a path: a fixed text, or one that names a project or a file. -/
inductive Piece
  | text (s : String)
  | names (s : String)

def Piece.Matches : Piece → List Char → Prop
  | .text s, seg => seg = s.toList
  | .names s, seg => percent_decode seg = utf8 s

/-- The project of a call, where it has one. -/
def Call.own_project : Call → Option String
  | .whoami => none
  | .projects _ _ => none
  | .issues q => q.project
  | .issue _ project => project
  | .create_issue project => project
  | .comment _ project => project
  | .merge_requests q => q.project
  | .merge_request _ project => project
  | .create_merge_request _ project => project
  | .merge _ project => project
  | .pipelines _ project => project
  | .trigger_pipeline project => project
  | .repo_file _ _ project => project

def RestGitLab.target (g : RestGitLab) (call : Call) : String :=
  match g.project call.own_project with
  | .ok project => project
  | .error _ => ""

/-- The arguments of a call that stand in its path. -/
def Call.names (project : String) : Call → List String
  | .whoami => []
  | .projects _ _ => []
  | .repo_file path _ _ => [project, path]
  | _ => [project]

/-- Where the requests of a call go: the method, and the path behind that of the API. -/
def Call.endpoints (project : String) : Call → List (Method × List Piece)
  | .whoami => [(.GET, [.text "user"])]
  | .projects _ _ => [(.GET, [.text "projects"])]
  | .issues _ => [(.GET, [.text "projects", .names project, .text "issues"])]
  | .issue iid _ =>
    [(.GET, [.text "projects", .names project, .text "issues", .text (iid_text iid)])]
  | .create_issue _ => [(.POST, [.text "projects", .names project, .text "issues"])]
  | .comment (.Issue iid) _ =>
    [(.POST, [.text "projects", .names project, .text "issues", .text (iid_text iid), .text "notes"])]
  | .comment (.MergeRequest iid) _ =>
    [(.POST, [.text "projects", .names project, .text "merge_requests", .text (iid_text iid),
      .text "notes"])]
  | .merge_requests _ => [(.GET, [.text "projects", .names project, .text "merge_requests"])]
  | .merge_request iid _ =>
    [(.GET, [.text "projects", .names project, .text "merge_requests", .text (iid_text iid)])]
  | .create_merge_request _ _ =>
    [(.GET, [.text "projects", .names project]),
      (.POST, [.text "projects", .names project, .text "merge_requests"])]
  | .merge iid _ =>
    [(.PUT, [.text "projects", .names project, .text "merge_requests", .text (iid_text iid),
      .text "merge"])]
  | .pipelines _ _ => [(.GET, [.text "projects", .names project, .text "pipelines"])]
  | .trigger_pipeline _ => [(.POST, [.text "projects", .names project, .text "pipeline"])]
  | .repo_file path _ _ =>
    [(.GET, [.text "projects", .names project, .text "repository", .text "files", .names path,
      .text "raw"])]

/-- The host is the root of an instance: a name behind the scheme, and the path of the instance,
which is empty for most. -/
structure InstanceRoot (host : String) (auth : List Char) (base : List (List Char)) : Prop where
  shape : ∃ scheme, (scheme = "http".toList ∨ scheme = "https".toList) ∧
    host.toList = scheme ++ "://".toList ++ auth ++ render base
  auth_ne : auth ≠ []
  auth_chars : ∀ c ∈ auth, ends_authority c = false ∧ 32 < c.toNat
  base_plain : ∀ seg ∈ base, is_dot seg = false ∧ ∀ c ∈ seg, PathChar c

/-- A request asks for the path of its call: behind that of the API, segment by segment. -/
def Confined (base : List (List Char)) (endpoints : List (Method × List Piece)) (req : Request) :
    Prop :=
  ∃ e ∈ endpoints, req.method = e.1 ∧ ∃ segs,
    client_path req.url.toList = some (base ++ ["api".toList, "v4".toList] ++ segs) ∧
      List.Forall₂ Piece.Matches e.2 segs

/-! ## Encoded segments -/

/-- What a byte is written as: characters of a path, which are read as the byte. -/
def Written (b : UInt8) : Bool :=
  (enc_byte b).all (fun c => !is_slash c && !in_path_set c) &&
    (if unreserved b then
      Char.ofNat b.toNat != '%' && decide (String.utf8EncodeChar (Char.ofNat b.toNat) = [b])
    else true)

theorem written (b : UInt8) : Written b = true := by
  have hall : (List.range 256).all (fun n => Written (UInt8.ofNat n)) = true := by decide +kernel
  have hb := List.all_eq_true.mp hall b.toNat (List.mem_range.mpr b.toNat_lt)
  rwa [UInt8.ofNat_toNat] at hb

theorem enc_chars (s : String) : ∀ c ∈ (enc s).toList, PathChar c := by
  intro c hc
  rw [enc, String.toList_ofList] at hc
  obtain ⟨b, -, hin⟩ := List.mem_flatMap.mp hc
  have hplain := List.all_eq_true.mp (Bool.and_eq_true_iff.mp (written b)).1 c hin
  rw [Bool.and_eq_true, Bool.not_eq_true', Bool.not_eq_true'] at hplain
  exact hplain

theorem decode_enc_byte (b : UInt8) (rest : List Char) :
    percent_decode (enc_byte b ++ rest) = b :: percent_decode rest := by
  have hread := (Bool.and_eq_true_iff.mp (written b)).2
  unfold enc_byte
  split
  · rename_i hplain
    rw [if_pos hplain, Bool.and_eq_true, bne_iff_ne] at hread
    rw [List.singleton_append, decode_plain hread.1, of_decide_eq_true hread.2]
    rfl
  · exact decode_percent_byte b rest

/-- What is encoded is read as it was. -/
theorem decode_enc (s : String) : percent_decode (enc s).toList = utf8 s := by
  have hbytes : ∀ bytes : Bytes, percent_decode (bytes.flatMap enc_byte) = bytes := by
    intro bytes
    induction bytes with
    | nil => rfl
    | cons b bytes ih => rw [List.flatMap_cons, decode_enc_byte, ih]
  rw [enc, String.toList_ofList, hbytes]

/-- Only the dots themselves are encoded as dot segments. -/
theorem is_dot_enc (s : String) : is_dot (enc s).toList = true ↔ s = "." ∨ s = ".." := by
  constructor
  · intro h
    have hread := decode_dot h
    rwa [decode_enc, utf8_inj, utf8_inj] at hread
  · rintro (rfl | rfl) <;> decide

/-! ## Pieces -/

/-- How a piece is written. -/
def Piece.seg : Piece → List Char
  | .text s => s.toList
  | .names s => (enc s).toList

theorem Piece.matches_seg (p : Piece) : p.Matches p.seg := by
  cases p with
  | text s => rfl
  | names s => exact decode_enc s

/-- A text that a path may hold as it is. -/
def PlainText (s : String) : Prop := is_dot s.toList = false ∧ ∀ c ∈ s.toList, PathChar c

theorem Piece.seg_chars {p : Piece} (htext : ∀ s, p = .text s → PlainText s) :
    ∀ c ∈ p.seg, PathChar c := by
  cases p with
  | text s => exact (htext s rfl).2
  | names s => exact enc_chars s

/-- A piece that is a dot segment names a dot. -/
theorem Piece.dot_seg {p : Piece} (htext : ∀ s, p = .text s → PlainText s)
    (h : is_dot p.seg = true) : ∃ s, p = .names s ∧ (s = "." ∨ s = "..") := by
  cases p with
  | text s => exact absurd ((htext s rfl).1.symm.trans h) (by decide)
  | names s => exact ⟨s, rfl, (is_dot_enc s).mp h⟩

/-- A walk that meets a dot does not end where it should: the dot makes the path shorter, or leaves
an empty segment at its end. -/
theorem not_walk_of_dot {p : Piece} {pieces : List Piece} {path before xs : List (List Char)}
    {x : List Char} (htext : ∀ s, p = .text s → PlainText s) (hdot : is_dot p.seg = true)
    (hlength : before.length = path.length) (hfirst : p.Matches x) (hcount : pieces.length = xs.length) :
    walk path ((p :: pieces).map Piece.seg) ≠ before ++ x :: xs := by
  intro hwalk
  cases pieces with
  | nil =>
    obtain rfl := List.length_eq_zero_iff.mp hcount.symm
    rw [List.map_singleton, walk_last _ hdot] at hwalk
    obtain ⟨-, hlast⟩ := List.append_inj' hwalk rfl
    obtain rfl : [] = x := (List.cons.inj hlast).1
    obtain ⟨s, rfl, hs⟩ := Piece.dot_seg htext hdot
    change [] = utf8 s at hfirst
    rcases hs with rfl | rfl <;> exact absurd hfirst (by decide)
  | cons next pieces =>
    have hshort := @walk_dot_length p.seg hdot path ((next :: pieces).map Piece.seg)
      (List.cons_ne_nil _ _)
    rw [← List.map_cons, hwalk, List.length_append, List.length_cons, List.length_map, ← hcount,
      hlength] at hshort
    exact absurd hshort (Nat.lt_irrefl _)

section Walk
variable {pieces : List Piece} (htext : ∀ s, .text s ∈ pieces → PlainText s)
include htext

/-- Where no piece names a dot, the path is walked as it is written. -/
theorem walk_pieces (h : ∀ s, .names s ∈ pieces → s ≠ "." ∧ s ≠ "..") (path : List (List Char)) :
    walk path (pieces.map Piece.seg) = path ++ pieces.map Piece.seg := by
  refine walk_plain path fun seg hseg => ?_
  obtain ⟨p, hp, rfl⟩ := List.mem_map.mp hseg
  rw [Bool.eq_false_iff]
  intro hdot
  obtain ⟨s, rfl, hs⟩ := Piece.dot_seg (fun s hs => htext s (hs ▸ hp)) hdot
  exact hs.elim (h s hp).1 (h s hp).2

/-- A walk that ends where it should has met no dots. -/
theorem no_dots_of_walk {path before segs : List (List Char)} (hlength : before.length = path.length)
    (hwalk : walk path (pieces.map Piece.seg) = before ++ segs)
    (hmatch : List.Forall₂ Piece.Matches pieces segs) :
    ∀ s, .names s ∈ pieces → s ≠ "." ∧ s ≠ ".." := by
  induction pieces generalizing path before segs with
  | nil => exact fun s hs => absurd hs List.not_mem_nil
  | cons p pieces ih =>
    have hp : ∀ s, p = .text s → PlainText s := fun s hs => htext s (hs ▸ List.mem_cons_self)
    cases hmatch with
    | cons hfirst hrest =>
      rename_i x xs
      by_cases hdot : is_dot p.seg = true
      · have hcount : pieces.length = xs.length := hrest.length_eq
        exact absurd hwalk (not_walk_of_dot hp hdot hlength hfirst hcount)
      · rw [Bool.not_eq_true] at hdot
        rw [List.map_cons, walk_plain_cons hdot] at hwalk
        have hwalk' : walk (path ++ [p.seg]) (pieces.map Piece.seg) = (before ++ [x]) ++ xs := by
          rw [hwalk, List.append_assoc]
          rfl
        have hbehind := ih (fun s hs => htext s (List.mem_cons_of_mem _ hs))
          (by rw [List.length_append, List.length_append, hlength]; rfl) hwalk' hrest
        intro s hs
        rcases List.mem_cons.mp hs with rfl | hs
        · have hplain : ¬ (s = "." ∨ s = "..") := by
            rw [← is_dot_enc]
            exact Bool.eq_false_iff.mp hdot
          exact not_or.mp hplain
        · exact hbehind s hs

end Walk

/-! ## The endpoints of a call -/

section Calls
variable {g : RestGitLab}

/-- A request of an endpoint, as its path is written. -/
def Sends (g : RestGitLab) (e : Method × List Piece) (req : Request) : Prop :=
  req.method = e.1 ∧ req.url = g.api (String.ofList (render (e.2.map Piece.seg)))

theorem sends_get {path : String} {query : List (String × String)} {pieces : List Piece}
    (h : path.toList = render (pieces.map Piece.seg)) : Sends g (.GET, pieces) (g.get path query) :=
  ⟨rfl, by rw [← h, String.ofList_toList]; rfl⟩

theorem sends_post {path : String} {pieces : List Piece}
    (h : path.toList = render (pieces.map Piece.seg)) : Sends g (.POST, pieces) (g.post path) :=
  ⟨rfl, by rw [← h, String.ofList_toList]; rfl⟩

theorem sends_put {path : String} {pieces : List Piece}
    (h : path.toList = render (pieces.map Piece.seg)) : Sends g (.PUT, pieces) (g.put path) :=
  ⟨rfl, by rw [← h, String.ofList_toList]; rfl⟩

/-- A call of one request has its project, if it has one. -/
theorem one_request {own : Option String} {f : String → Request} {reqs : List Request}
    (h : (g.project own >>= fun p => pure [f p]) = .ok reqs) :
    ∃ p, g.project own = .ok p ∧ reqs = [f p] := by
  cases hp : g.project own with
  | error e =>
    rw [hp] at h
    cases h
  | ok p =>
    rw [hp] at h
    cases h
    exact ⟨p, rfl, rfl⟩

/-- All requests of a call go to its endpoints, and there is one at least. -/
def SendsTo (g : RestGitLab) (endpoints : List (Method × List Piece)) (reqs : List Request) : Prop :=
  reqs ≠ [] ∧ ∀ req ∈ reqs, ∃ e ∈ endpoints, Sends g e req

theorem sends_one {e : Method × List Piece} {req : Request} (h : Sends g e req) :
    SendsTo g [e] [req] :=
  ⟨List.cons_ne_nil _ _, fun _ hr => ⟨e, List.mem_singleton_self e, List.mem_singleton.mp hr ▸ h⟩⟩

theorem target_eq {call : Call} {p : String} (h : g.project call.own_project = .ok p) :
    g.target call = p := by
  rw [RestGitLab.target, h]

/-- A call of one request sends it to its one endpoint, at the project it has found. -/
theorem sent_to_project {call : Call} {f : String → Request} {e : String → Method × List Piece}
    {reqs : List Request} (h : (g.project call.own_project >>= fun p => pure [f p]) = .ok reqs)
    (hone : ∀ p, call.endpoints p = [e p]) (hsends : ∀ p, Sends g (e p) (f p)) :
    SendsTo g (call.endpoints (g.target call)) reqs := by
  obtain ⟨p, hp, rfl⟩ := one_request h
  rw [target_eq hp, hone]
  exact sends_one (hsends p)

/-- A project that is found is one that may be passed. -/
theorem project_some {own : Option String} {p : String} (h : g.project own = .ok p) :
    g.project (some p) = .ok p := by
  unfold RestGitLab.project at h
  split at h
  · rename_i q hq
    cases h
    have hkept := (Option.filter_eq_some_iff.mp hq).2
    unfold RestGitLab.project
    rw [Option.some_or, Option.filter_some, if_pos hkept]
  · cases h

theorem create_merge_request_sent {branch : Except Error String} {target_branch project : Option String}
    {reqs : List Request} (h : g.requests branch (.create_merge_request target_branch project) = .ok reqs) :
    ∃ p, g.project project = .ok p ∧
      SendsTo g ((Call.create_merge_request target_branch project).endpoints p) reqs := by
  cases hp : g.project project with
  | error e =>
    rw [RestGitLab.requests, hp] at h
    cases h
  | ok p =>
    have hlookup : Sends g (.GET, [.text "projects", .names p])
        (g.get ("/projects/" ++ enc p ++ "") []) := sends_get (by simp [render, Piece.seg])
    have hcreate : Sends g (.POST, [.text "projects", .names p, .text "merge_requests"])
        (g.post ("/projects/" ++ enc p ++ "/merge_requests")) :=
      sends_post (by simp [render, Piece.seg])
    have hbranch : g.default_branch (some p) = .ok (g.get ("/projects/" ++ enc p ++ "") []) := by
      rw [RestGitLab.default_branch, RestGitLab.proj_path, project_some hp]
      rfl
    refine ⟨p, rfl, ?_⟩
    rw [RestGitLab.requests, hp] at h
    change (if _ then _ else g.default_branch (some p) >>= _) = _ at h
    rw [hbranch] at h
    split at h
    · cases h
      exact ⟨List.cons_ne_nil _ _, fun r hr =>
        ⟨_, List.mem_cons_of_mem _ (List.mem_singleton_self _), List.mem_singleton.mp hr ▸ hcreate⟩⟩
    · change Except.ok (if _ then _ else _) = _ at h
      cases h
      split
      · refine ⟨List.cons_ne_nil _ _, fun r hr => ?_⟩
        rcases List.mem_cons.mp hr with rfl | hr
        · exact ⟨_, List.mem_cons_self, hlookup⟩
        · exact ⟨_, List.mem_cons_of_mem _ (List.mem_singleton_self _),
            List.mem_singleton.mp hr ▸ hcreate⟩
      · exact ⟨List.cons_ne_nil _ _, fun r hr =>
          ⟨_, List.mem_cons_self, List.mem_singleton.mp hr ▸ hlookup⟩⟩

theorem requests_sent {branch : Except Error String} {call : Call} {reqs : List Request}
    (h : g.requests branch call = .ok reqs) : SendsTo g (call.endpoints (g.target call)) reqs := by
  cases call with
  | whoami =>
    cases h
    exact sends_one (sends_get (by simp [render, Piece.seg]))
  | projects search limit =>
    cases h
    exact sends_one (sends_get (by simp [render, Piece.seg]))
  | issues q =>
    exact sent_to_project h (fun _ => rfl) fun _ => sends_get (by simp [render, Piece.seg])
  | issue iid project =>
    exact sent_to_project h (fun _ => rfl) fun _ => sends_get (by simp [render, Piece.seg])
  | create_issue project =>
    exact sent_to_project h (fun _ => rfl) fun _ => sends_post (by simp [render, Piece.seg])
  | comment target project =>
    cases target with
    | Issue iid =>
      exact sent_to_project h (fun _ => rfl) fun _ => sends_post (by simp [render, Piece.seg])
    | MergeRequest iid =>
      exact sent_to_project h (fun _ => rfl) fun _ => sends_post (by simp [render, Piece.seg])
  | merge_requests q =>
    exact sent_to_project h (fun _ => rfl) fun _ => sends_get (by simp [render, Piece.seg])
  | merge_request iid project =>
    exact sent_to_project h (fun _ => rfl) fun _ => sends_get (by simp [render, Piece.seg])
  | create_merge_request target_branch project =>
    obtain ⟨p, hp, hsent⟩ := create_merge_request_sent h
    rwa [target_eq hp]
  | merge iid project =>
    exact sent_to_project h (fun _ => rfl) fun _ => sends_put (by simp [render, Piece.seg])
  | pipelines limit project =>
    exact sent_to_project h (fun _ => rfl) fun _ => sends_get (by simp [render, Piece.seg])
  | trigger_pipeline project =>
    exact sent_to_project h (fun _ => rfl) fun _ => sends_post (by simp [render, Piece.seg])
  | repo_file path git_ref project =>
    exact sent_to_project h (fun _ => rfl) fun _ => sends_get (by simp [render, Piece.seg])

/-- A number is a plain text. -/
theorem iid_plain (iid : UInt64) : PlainText (iid_text iid) := by
  obtain ⟨-, hdigits⟩ := digits_of_nat iid.toNat
  refine ⟨?_, fun c hc => PathChar.digit (hdigits c hc)⟩
  rw [Bool.eq_false_iff]
  intro hdot
  obtain ⟨c, hc, rfl | rfl⟩ := sign_of_dot hdot
  · exact absurd (hdigits _ hc) (by decide)
  · exact absurd (hdigits _ hc) (by decide)

/-- The fixed texts of the paths. -/
def TEXTS : List String :=
  ["api", "v4", "user", "projects", "issues", "notes", "merge_requests", "merge", "pipelines",
    "pipeline", "repository", "files", "raw"]

theorem text_plain {s : String} (h : s ∈ TEXTS) : PlainText s := by
  have hall : TEXTS.all (fun s => !is_dot s.toList &&
      s.toList.all fun c => !is_slash c && !in_path_set c) = true := by decide
  have hs := List.all_eq_true.mp hall s h
  rw [Bool.and_eq_true, Bool.not_eq_true', List.all_eq_true] at hs
  refine ⟨hs.1, fun c hc => ?_⟩
  have hc := hs.2 c hc
  rwa [Bool.and_eq_true, Bool.not_eq_true', Bool.not_eq_true'] at hc

/-- The texts of an endpoint are these, and numbers. -/
theorem endpoints_texts (call : Call) (p : String) :
    ∀ e ∈ call.endpoints p, ∀ s, .text s ∈ e.2 → s ∈ TEXTS ∨ ∃ iid, s = iid_text iid := by
  intro e he s hs
  unfold Call.endpoints at he
  split at he <;> simp only [List.mem_cons, List.not_mem_nil, or_false] at he
  all_goals
    rcases he with rfl | rfl
    all_goals
      simp only [List.mem_cons, Piece.text.injEq, reduceCtorEq, List.not_mem_nil, false_or, or_false]
        at hs
      simp only [TEXTS, List.mem_cons, List.not_mem_nil, or_false]
      aesop

theorem endpoints_names (call : Call) (p : String) :
    ∀ e ∈ call.endpoints p, ∀ s, .names s ∈ e.2 ↔ s ∈ call.names p := by
  intro e he s
  unfold Call.endpoints at he
  split at he <;> simp only [List.mem_cons, List.not_mem_nil, or_false] at he
  all_goals
    grind [Call.names]

/-- The method tells the endpoints of a call apart. -/
theorem endpoints_apart (call : Call) (p : String) :
    ∀ e ∈ call.endpoints p, ∀ e' ∈ call.endpoints p, e.1 = e'.1 → e = e' := by
  intro e he e' he' hmethod
  unfold Call.endpoints at he he'
  split at he <;> simp only [List.mem_cons, List.not_mem_nil, or_false] at he he'
  all_goals
    grind

theorem endpoints_plain {call : Call} {p : String} {e : Method × List Piece}
    (he : e ∈ call.endpoints p) : ∀ s, .text s ∈ e.2 → PlainText s := by
  intro s hs
  rcases endpoints_texts call p e he s hs with h | ⟨iid, rfl⟩
  · exact text_plain h
  · exact iid_plain iid

/-! ## What is asked for -/

variable {auth : List Char} {base : List (List Char)}

/-- The path of a request: its pieces, walked from that of the API. -/
theorem sent_path (hroot : InstanceRoot g.cfg.normalized_host auth base) {e : Method × List Piece}
    (htext : ∀ s, .text s ∈ e.2 → PlainText s) {req : Request} (h : Sends g e req) :
    client_path req.url.toList =
      some (walk (base ++ ["api".toList, "v4".toList]) (e.2.map Piece.seg)) := by
  obtain ⟨scheme, hscheme, hhost⟩ := hroot.shape
  have hfront : ∀ seg ∈ base ++ ["api".toList, "v4".toList],
      is_dot seg = false ∧ ∀ c ∈ seg, PathChar c := by
    have hapi : PlainText "api" := text_plain (by simp [TEXTS])
    have hv4 : PlainText "v4" := text_plain (by simp [TEXTS])
    intro seg hseg
    rcases List.mem_append.mp hseg with hseg | hseg
    · exact hroot.base_plain seg hseg
    · rcases List.mem_cons.mp hseg with rfl | hseg
      · exact hapi
      · obtain rfl := List.mem_singleton.mp hseg
        exact hv4
  have hplain : ∀ seg ∈ (base ++ ["api".toList, "v4".toList]) ++ e.2.map Piece.seg,
      ∀ c ∈ seg, PathChar c := by
    intro seg hseg
    rcases List.mem_append.mp hseg with hseg | hseg
    · exact (hfront seg hseg).2
    · obtain ⟨p, hp, rfl⟩ := List.mem_map.mp hseg
      exact Piece.seg_chars fun s hs => htext s (hs ▸ hp)
  have hurl : req.url.toList = scheme ++ "://".toList ++ auth ++
      render ((base ++ ["api".toList, "v4".toList]) ++ e.2.map Piece.seg) := by
    rw [h.2, RestGitLab.api, String.toList_append, String.toList_append, hhost, String.toList_ofList]
    simp [render]
  rw [hurl, client_path_spelled hplain hscheme hroot.auth_ne hroot.auth_chars (by simp),
    walk_append [] (fun seg hseg => (hfront seg hseg).1), List.nil_append]

end Calls

/-! ## All calls -/

/-- Every request of a call asks for the path of the call, segment by segment, exactly if neither
the project nor the file is named by one or two dots. -/
theorem calls_stay_iff {g : RestGitLab} {auth : List Char} {base : List (List Char)}
    (hroot : InstanceRoot g.cfg.normalized_host auth base) {branch : Except Error String} {call : Call}
    {reqs : List Request} (h : g.requests branch call = .ok reqs) :
    (∀ req ∈ reqs, Confined base (call.endpoints (g.target call)) req) ↔
      ∀ s ∈ call.names (g.target call), s ≠ "." ∧ s ≠ ".." := by
  obtain ⟨hne, hsent⟩ := requests_sent h
  constructor
  · intro hall s hs
    obtain ⟨req, hreq⟩ := List.exists_mem_of_ne_nil _ hne
    obtain ⟨e, he, hsends⟩ := hsent req hreq
    obtain ⟨e', he', hmethod, segs, hpath, hmatch⟩ := hall req hreq
    obtain rfl := endpoints_apart call _ e he e' he' (hsends.1.symm.trans hmethod)
    rw [sent_path hroot (endpoints_plain he) hsends, Option.some.injEq] at hpath
    exact no_dots_of_walk (endpoints_plain he) rfl hpath hmatch s
      ((endpoints_names call _ e he s).mpr hs)
  · intro hnames req hreq
    obtain ⟨e, he, hsends⟩ := hsent req hreq
    refine ⟨e, he, hsends.1, e.2.map Piece.seg, ?_, ?_⟩
    · rw [sent_path hroot (endpoints_plain he) hsends,
        walk_pieces (endpoints_plain he) fun s hs => hnames s ((endpoints_names call _ e he s).mp hs)]
    · rw [List.forall₂_map_right_iff, List.forall₂_same]
      exact fun p _ => p.matches_seg

/-! ## Dots for a project -/

def gitlab : RestGitLab := { cfg := { host := "gitlab.com/", project := none } }

theorem gitlab_root : InstanceRoot gitlab.cfg.normalized_host "gitlab.com".toList [] where
  shape := ⟨"https".toList, .inr rfl, by decide⟩
  auth_ne := by decide
  auth_chars := by
    have hall : "gitlab.com".toList.all (fun c => !ends_authority c && decide (32 < c.toNat)) = true := by
      decide
    intro c hc
    simpa using List.all_eq_true.mp hall c hc
  base_plain := by simp

theorem a_file_is_read_from_its_project :
    Confined [] ((Call.repo_file "docs/a b.md" "main" (some "group/../sub")).endpoints
        (gitlab.target (.repo_file "docs/a b.md" "main" (some "group/../sub"))))
      (gitlab.get ("/projects/" ++ enc "group/../sub" ++ "/repository/files/" ++ enc "docs/a b.md" ++ "/raw")
        [("ref", "main")]) :=
  (@calls_stay_iff gitlab _ _ gitlab_root (.ok "main")
    (.repo_file "docs/a b.md" "main" (some "group/../sub")) _ rfl).mpr (by decide) _
    List.mem_cons_self

/-- With two dots for a project, the request for its issues goes to those of the whole instance. -/
theorem two_dots_ask_elsewhere :
    client_path (gitlab.api ("/projects/" ++ enc ".." ++ "/issues")).toList =
        some ["api".toList, "v4".toList, "issues".toList] ∧
      ¬ ∀ call reqs, gitlab.requests (.ok "main") call = .ok reqs →
        ∀ req ∈ reqs, Confined [] (call.endpoints (gitlab.target call)) req := by
  have hpath : client_path (gitlab.api ("/projects/" ++ enc ".." ++ "/issues")).toList =
      some ["api".toList, "v4".toList, "issues".toList] := by decide
  refine ⟨hpath, fun hall => ?_⟩
  obtain ⟨e, he, -, segs, hsegs, hmatch⟩ :=
    hall (.create_issue (some "..")) _ rfl _ List.mem_cons_self
  obtain rfl := List.mem_singleton.mp he
  have hone : ["api".toList, "v4".toList, "issues".toList] = ["api".toList, "v4".toList] ++ segs :=
    Option.some.inj (hpath.symm.trans hsegs)
  obtain rfl : ["issues".toList] = segs := by simpa using hone
  exact absurd hmatch.length_eq (by decide)

end pai_connector_gitlab
