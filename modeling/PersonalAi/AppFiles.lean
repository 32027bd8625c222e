-- The files of an app on the host side (pai-apps): what its ops read and write, what is served of it
-- and what a snapshot collects, in a tree whose links the app may have made.
import PersonalAi.Lib.LinkChanges
import PersonalAi.RegistryConfinement
import PersonalAi.StaticServing

open text paths links json
open pai_cli (ServeRequest jail APP_IO_MAX)
open pai_tools.jail (path_of)
open pai_apps.serve (WebPackage pieces)

namespace pai_apps.files

/-! ## The source -/

def installed_dir (data_dir : PathBuf) (app_id : String) : PathBuf :=
  pai_tools.jail.join (pai_tools.jail.join data_dir (path_of "apps")) (path_of app_id)

/-- `Path::parent`, of a path that does not begin with a dot. -/
def parent (p : PathBuf) : Option PathBuf :=
  match p.parts.rdropWhile is_dot with
  | [] => none
  | parts => some ⟨p.absolute, parts.dropLast⟩

/-- `Path::metadata` follows links. -/
def metadata (os : Os) (p : PathBuf) : Option Node :=
  match os.lookup false p with
  | .error _ => none
  | .ok q => os.tree.nodes q

/-- The file of an op: it is one, and it is not too long. -/
def read_capped (os : Os) (rel : String) (path : PathBuf) : Except AppError Bytes :=
  match metadata os path with
  | none => .error (.Layout (rel ++ ": not found"))
  | some (.file content) =>
    if APP_IO_MAX < content.length then .error (.Layout (rel ++ ": exceeds 8 MiB cap"))
    else (os.read path).mapError fun e => .Io e.to_string
  | some _ => .error (.Layout (rel ++ ": not a file"))

section Ops
variable (load : PathBuf → Except AppError String) (os : Os) (data_dir : PathBuf) (app_id : String)

/-- `AppPackage::load` is a parameter: of the package, the entrypoint counts here. -/
def get : Except AppError (Option String) := do
  let dir := installed_dir data_dir app_id
  if !os.is_dir dir then return none
  check_app_id app_id
  let entrypoint ← load dir
  return some entrypoint

def jailed_path (rel : String) (tops : List String) : Except AppError PathBuf := do
  match ← get load os data_dir app_id with
  | none => throw (.Layout ("app " ++ app_id ++ " not installed"))
  | some _ =>
    let _ ← jail rel tops
    return pai_tools.jail.join (installed_dir data_dir app_id) (path_of rel)

def read_answer (encode : Bytes → String) (rel : String) (data : Bytes) : Bytes :=
  utf8 (Value.object
    [("bytes", .number (.PosInt data.length)), ("data_b64", .string (encode data)),
      ("path", .string rel)]).to_string

def app_read_op (encode : Bytes → String) (args : List String) : Except AppError Bytes :=
  match args.head? with
  | none => .error (.Layout "app-read needs a path argument")
  | some rel => do
    let path ← jailed_path load os data_dir app_id rel ["files", "data"]
    let data ← read_capped os rel path
    return read_answer encode rel data

/-- What a write leaves, the place of the file that it has opened, and what it answers. -/
structure Wrote where
  os : Os
  place : Option Path
  result : Except AppError Bytes

def make_parent (path : PathBuf) : Os × Except Errno Unit :=
  match parent path with
  | none => (os, .ok ())
  | some up => os.create_dir_all up

def write_answer (rel : String) (data : Bytes) : Bytes :=
  utf8 (Value.object
    [("bytes", .number (.PosInt data.length)), ("path", .string rel)]).to_string

/-- The two calls that change the tree. -/
def store (rel : String) (path : PathBuf) (data : Bytes) : Wrote :=
  match make_parent os path with
  | (os', .error e) => ⟨os', none, .error (.Io e.to_string)⟩
  | (os', .ok ()) =>
    match os'.write path data with
    | (os'', .error e) => ⟨os'', none, .error (.Io e.to_string)⟩
    | (os'', .ok ()) => ⟨os'', os'.write_place path, .ok (write_answer rel data)⟩

def app_write_op (decode : String → Except String Bytes) (args : List String) : Wrote :=
  match args with
  | rel :: data_b64 :: _ =>
    match jailed_path load os data_dir app_id rel ["data"] with
    | .error e => ⟨os, none, .error e⟩
    | .ok path =>
      match decode data_b64 with
      | .error e => ⟨os, none, .error (.Layout ("data_b64: " ++ e))⟩
      | .ok data =>
        if APP_IO_MAX < data.length then ⟨os, none, .error (.Layout (rel ++ ": exceeds 8 MiB cap"))⟩
        else store os rel path data
  | _ => ⟨os, none, .error (.Layout "app-write needs path + data_b64")⟩

end Ops

section Snapshot
variable (os : Os) (listing : Os.Listing os.tree)

def below (root : PathBuf) (rel : Path) : PathBuf := ⟨root.absolute, root.parts ++ rel⟩

/-- The first number bounds how deep the recursion goes. -/
def collect_files (root : PathBuf) : Nat → Path → Except AppError (List Path)
  | 0, _ => .error (.Io "stack overflow")
  | n + 1, dir => do
    let names ← (os.read_dir listing (below root dir)).mapError fun e => .Io e.to_string
    let found ← names.mapM fun c =>
      if os.is_dir (below root (dir ++ [c])) then collect_files root n (dir ++ [c])
      else if os.is_file (below root (dir ++ [c])) then .ok [dir ++ [c]]
      else .ok []
    return found.flatten

/-- No path is deeper: a lookup follows only so many links. -/
def depth : Nat := (os.max_links + 1) * (listing.height + 1) + 1

def read_below (data : PathBuf) (rel : Path) : Except AppError (Path × Bytes) := do
  let bytes ← (os.read (below data rel)).mapError fun e => .Io e.to_string
  return (rel, bytes)

/-- The files of the snapshot by their paths below `data`. -/
def snapshot_files (data : PathBuf) : Except AppError (List (Path × Bytes)) := do
  if !os.is_dir data then return []
  let rels ← collect_files os listing data (depth os listing) []
  rels.mapM (read_below os data)

def data_dir_of (data_dir : PathBuf) (app_id : String) : PathBuf :=
  pai_tools.jail.join (installed_dir data_dir app_id) (path_of "data")

/-- The files under their portable names, in the order of these. -/
def portable (files : List (Path × Bytes)) : List (String × Bytes) :=
  (files.map fun f => (snapshot_name f.1, f.2)).mergeSort fun a b => decide (a.1 ≤ b.1)

def snapshot_data (data_dir : PathBuf) (app_id : String) :
    Except AppError (List (String × Bytes)) := do
  check_app_id app_id
  let files ← snapshot_files os listing (data_dir_of data_dir app_id)
  return portable files

end Snapshot

/-! ## What is wanted -/

/-- An installed app, and where its directory is. -/
structure App (load : PathBuf → Except AppError String) (os : Os) where
  data_dir : PathBuf
  id : String
  accepted : check_app_id id = .ok ()
  place : Path
  found : os.lookup false (installed_dir data_dir id) = .ok place
  is_dir : os.tree.nodes place = some .dir
  entrypoint : String
  loads : load (installed_dir data_dir id) = .ok entrypoint
  checked : check_rel_path entrypoint = .ok ()

/-- A use of the files of an app from outside of its sandbox. -/
inductive Access
  | read (args : List String)
  | serve (req : ServeRequest)
  | write (args : List String)
  | snapshot

section Law
variable {load : PathBuf → Except AppError String} {os : Os} (app : App load os)

def App.dir : PathBuf := installed_dir app.data_dir app.id

def App.package : WebPackage os :=
  { dir := app.dir, place := app.place, found := app.found, is_dir := app.is_dir,
    entrypoint := app.entrypoint, checked := app.checked }

def App.path (parts : List String) : PathBuf := ⟨app.dir.absolute, app.dir.parts ++ parts⟩

/-- Where the data of the app is. -/
def App.data : Path := app.place ++ ["data"]

/-- The file that the path leads to is inside the region. -/
def FileInside (os : Os) (region : Path) (p : PathBuf) (content : Bytes) : Prop :=
  ∃ q, os.lookup false p = .ok q ∧ os.tree.nodes q = some (.file content) ∧ region <+: q

/-- The bytes that are returned are those of a file inside the app, the file that is written is
inside its data, and so is each file of a snapshot. The answer to a `HEAD` has no bytes. -/
def Stays (encode : Bytes → String) (decode : String → Except String Bytes)
    (listing : Os.Listing os.tree) : Access → Prop
  | .read args => ∀ out, app_read_op load os app.data_dir app.id encode args = .ok out →
      ∃ rel ∈ args.head?, ∃ content, out = read_answer encode rel content ∧
        FileInside os app.place (pai_tools.jail.join app.dir (path_of rel)) content
  | .serve req => ∀ resp, serve.serve_static app.package req = .ok resp → resp.status = 200 →
      req.method ≠ "HEAD" → ∃ file ∈ serve.static_file app.package (serve.asked_for app.package req),
        FileInside os app.place file resp.body
  | .write args =>
      ∀ q ∈ (app_write_op load os app.data_dir app.id decode args).place, app.data <+: q
  | .snapshot => ∀ out, snapshot_data os listing app.data_dir app.id = .ok out →
      ∃ files, out = portable files ∧
        snapshot_files os listing (data_dir_of app.data_dir app.id) = .ok files ∧
        ∀ f ∈ files, FileInside os app.data (below (data_dir_of app.data_dir app.id) f.1) f.2

/-! ## When it holds -/

/-- On the way along the path there is a link, and the path leads to a file. -/
structure App.Leads (parts : List String) (q : Path) (content : Bytes) : Prop where
  linked : os.tree.Linked app.place (Tree.solid parts)
  lookup : os.lookup false (app.path parts) = .ok q
  file : os.tree.nodes q = some (.file content)

/-- The place at the end of the path when the directory above is there, and else the place behind
the deepest directory that is. -/
def App.Opens (parts : List String) (q : Path) : Prop :=
  ∃ up last, parts = up ++ [last] ∧ is_dot last = false ∧
    ((os.is_dir (app.path up) = true ∧ os.write_place (app.path parts) = some q) ∨
      ∃ before c rest d, Os.Missing os app.dir.absolute app.dir.parts up before c rest d ∧
        q = d ++ c :: Tree.solid rest ++ [last])

/-- The links that are on the way lead back. -/
def Fits (decode : String → Except String Bytes) : Access → Prop
  | .read args => ∀ rel ∈ args.head?, ∀ names, jail rel ["files", "data"] = .ok names →
      ∀ q content, app.Leads (pieces rel) q content → content.length ≤ APP_IO_MAX →
        app.place <+: q
  | .serve req => req.method ≠ "HEAD" → ∀ c, serve.answer app.package req = some c →
      ∀ q content, app.Leads (c.parts app.package (serve.asked_for app.package req)) q content →
        app.place <+: q
  | .write args => ∀ rel data_b64 rest, args = rel :: data_b64 :: rest →
      ∀ names, jail rel ["data"] = .ok names →
      ∀ data, decode data_b64 = .ok data → data.length ≤ APP_IO_MAX →
      os.tree.Linked app.place (Tree.solid (pieces rel)) →
      ∀ q, app.Opens (pieces rel) q → app.data <+: q
  | .snapshot => ∀ c names, (∀ x ∈ c :: names, IsPlain x) →
      ∀ q content, app.Leads ("data" :: c :: names) q content → app.data <+: q

end Law

/-! ## The paths of an app -/

section Paths
variable {load : PathBuf → Except AppError String} {os : Os} {app : App load os}

theorem parts_ne (app : App load os) : app.dir.parts ≠ [] := by
  have hbase (base : PathBuf) : pai_tools.jail.join base (path_of "apps") ≠ ⟨false, []⟩ := by
    intro heq
    unfold pai_tools.jail.join at heq
    split at heq
    · exact absurd heq (by decide)
    · injection heq with _ hparts
      exact absurd (List.append_eq_nil_iff.mp hparts).2 (by decide)
  have hslash := accepted_no_slash app.accepted
  have hid : is_absolute app.id = false := by
    unfold is_absolute
    cases hchars : app.id.toList with
    | nil => rfl
    | cons x xs =>
      have hx : x ≠ '/' := fun h => hslash (by simp [hchars, h])
      simpa using hx
  unfold App.dir installed_dir
  rw [serve.join_parts (hbase _) hid]
  have hne : pieces app.id ≠ [] := by
    unfold pieces
    simp [List.splitOn_ne_nil]
  simp [hne]

theorem walk_dir (app : App load os) :
    os.walk false app.dir.absolute app.dir.parts = .ok app.place := by
  rw [← Os.lookup_eq_walk (parts_ne app)]
  exact app.found

theorem path_eq {rel : String} (h : is_absolute rel = false) :
    pai_tools.jail.join app.dir (path_of rel) = app.path (pieces rel) :=
  serve.join_parts app.package.dir_ne h

/-- Without links on the way a path leads where its names say. -/
theorem lookup_unlinked {create : Bool} {parts : List String} {q : Path} (hup : ".." ∉ parts)
    (hlinks : ¬os.tree.Linked app.place (Tree.solid parts))
    (h : os.walk create app.dir.absolute (app.dir.parts ++ parts) = .ok q) :
    q = app.place ++ Tree.solid parts := by
  obtain ⟨m, hm⟩ := Tree.walk_append (walk_dir app)
  have hwalk := hm create parts
  unfold Os.walk at h
  rw [h] at hwalk
  exact (Tree.walk_solid hup hlinks hwalk.symm).1

theorem lookup_walk {create : Bool} {parts : List String} (app : App load os) :
    os.lookup create (app.path parts) =
      os.walk create app.dir.absolute (app.dir.parts ++ parts) :=
  Os.lookup_eq_walk (by simp [parts_ne app])

theorem get_installed (app : App load os) :
    get load os app.data_dir app.id = .ok (some app.entrypoint) := by
  have hdir : os.is_dir (installed_dir app.data_dir app.id) = true := by
    unfold Os.is_dir
    rw [app.found]
    simpa using app.is_dir
  simp only [get, hdir, app.accepted, app.loads]
  rfl

/-- What the jail lets through begins with one of the directories and never goes up. -/
theorem jail_ok {rel : String} {tops names : List String} (h : jail rel tops = .ok names) :
    is_absolute rel = false ∧ ".." ∉ pieces rel ∧
      ∃ top ∈ tops, ∃ rest, pieces rel = top :: rest ∧ is_dot top = false := by
  unfold jail at h
  split at h
  · cases h
  · rename_i habs
    dsimp only at h
    split at h
    · cases h
    · rename_i top rest hparts
      split at h
      · cases h
      · rename_i hname
        split at h
        · cases h
        · rename_i htop
          split at h
          · cases h
          · rename_i hup
            simp only [List.mem_cons, List.not_mem_nil, or_false, not_or] at hname
            refine ⟨by simpa using habs, serve.up_of_components hup, top, not_not.mp htop, rest,
              hparts, ?_⟩
            exact not_dot_iff.mpr (not_or.mpr ⟨hname.1, hname.2.1⟩)

theorem jailed_path_eq (app : App load os) (rel : String) (tops : List String) :
    jailed_path load os app.data_dir app.id rel tops =
      (jail rel tops).map fun _ => pai_tools.jail.join app.dir (path_of rel) := by
  unfold jailed_path
  rw [get_installed app]
  cases jail rel tops <;> rfl

end Paths

/-! ## Reading -/

section Reading
variable {load : PathBuf → Except AppError String} {os : Os} {app : App load os}
  {encode : Bytes → String}

theorem read_capped_ok_iff {rel : String} {path : PathBuf} {data : Bytes} :
    read_capped os rel path = .ok data ↔ ∃ q, os.lookup false path = .ok q ∧
      os.tree.nodes q = some (.file data) ∧ data.length ≤ APP_IO_MAX := by
  unfold read_capped metadata Os.read
  rcases os.lookup false path with e | q
  · simp
  · dsimp only
    rcases hnode : os.tree.nodes q with _ | node
    · simp [hnode]
    · cases node with
      | dir => simp [hnode]
      | link target => simp [hnode]
      | file content =>
        by_cases hcap : APP_IO_MAX < content.length
        · simp only [hcap, if_true]
          constructor
          · intro h
            cases h
          · rintro ⟨q', ⟨⟩, hfile, hle⟩
            rw [hnode] at hfile
            cases hfile
            omega
        · simp only [hcap, if_false]
          constructor
          · rintro ⟨⟩
            exact ⟨q, rfl, hnode, Nat.not_lt.mp hcap⟩
          · rintro ⟨q', ⟨⟩, hfile, -⟩
            rw [hnode] at hfile
            cases hfile
            rfl

/-- What is read comes from the file that the path leads to. -/
theorem app_read_op_ok_iff {rel : String} {rest : List String} {out : Bytes} :
    app_read_op load os app.data_dir app.id encode (rel :: rest) = .ok out ↔
      ∃ names q content, jail rel ["files", "data"] = .ok names ∧
        os.lookup false (pai_tools.jail.join app.dir (path_of rel)) = .ok q ∧
        os.tree.nodes q = some (.file content) ∧ content.length ≤ APP_IO_MAX ∧
        out = read_answer encode rel content := by
  unfold app_read_op
  rw [List.head?_cons]
  dsimp only
  rw [jailed_path_eq app]
  rcases jail rel ["files", "data"] with e | names
  · constructor
    · intro h
      cases h
    · rintro ⟨names, q, content, h, -⟩
      cases h
  · change (read_capped os rel (pai_tools.jail.join app.dir (path_of rel)) >>= fun data =>
      .ok (read_answer encode rel data)) = .ok out ↔ _
    rcases hread : read_capped os rel (pai_tools.jail.join app.dir (path_of rel)) with e | data
    · constructor
      · intro h
        cases h
      · rintro ⟨names', q, content, -, hlook, hfile, hle, -⟩
        rw [read_capped_ok_iff.mpr ⟨q, hlook, hfile, hle⟩] at hread
        cases hread
    · obtain ⟨q, hlook, hfile, hle⟩ := read_capped_ok_iff.mp hread
      change (.ok (read_answer encode rel data) : Except AppError Bytes) = .ok out ↔ _
      rw [Except.ok.injEq]
      constructor
      · intro hout
        exact ⟨names, q, data, rfl, hlook, hfile, hle, hout.symm⟩
      · rintro ⟨names', q', content, -, hlook', hfile', hle', hout⟩
        have hagain := hread.symm.trans (read_capped_ok_iff.mpr ⟨q', hlook', hfile', hle'⟩)
        rw [hout, Except.ok.inj hagain]

theorem read_stays_iff {args : List String} (decode : String → Except String Bytes)
    (listing : Os.Listing os.tree) :
    Stays app encode decode listing (.read args) ↔ Fits app decode (.read args) := by
  cases args with
  | nil =>
    refine ⟨fun _ rel hrel => (nomatch hrel), fun _ out hout => ?_⟩
    cases hout
  | cons rel rest =>
    constructor
    · intro hstays rel' hrel names hjail q content hleads hle
      cases hrel
      obtain ⟨habs, -⟩ := jail_ok hjail
      have hlook := hleads.lookup
      rw [← path_eq habs] at hlook
      obtain ⟨rel', hrel, content', -, q', hlook', -, hin⟩ := hstays _
        (app_read_op_ok_iff.mpr ⟨names, q, content, hjail, hlook, hleads.file, hle, rfl⟩)
      cases hrel
      rw [hlook] at hlook'
      cases hlook'
      exact hin
    · intro hfits out hout
      obtain ⟨names, q, content, hjail, hlook, hfile, hle, rfl⟩ := app_read_op_ok_iff.mp hout
      obtain ⟨habs, hup, -⟩ := jail_ok hjail
      refine ⟨rel, rfl, content, rfl, q, hlook, hfile, ?_⟩
      rw [path_eq habs] at hlook
      by_cases hlinks : os.tree.Linked app.place (Tree.solid (pieces rel))
      · exact hfits rel rfl names hjail q content ⟨hlinks, hlook, hfile⟩ hle
      · rw [lookup_unlinked hup hlinks ((lookup_walk app).symm.trans hlook)]
        exact List.prefix_append _ _

end Reading

/-! ## Serving -/

section Serving
variable {load : PathBuf → Except AppError String} {os : Os} {app : App load os}

theorem choice_path (app : App load os) {rel : String} (h : serve.refused rel = false)
    (c : serve.Choice) : c.path app.package rel = app.path (c.parts app.package rel) :=
  serve.path_parts (serve.normal_of_not_refused h) c

theorem serve_stays_iff {req : ServeRequest} (encode : Bytes → String)
    (decode : String → Except String Bytes) (listing : Os.Listing os.tree) :
    Stays app encode decode listing (.serve req) ↔ Fits app decode (.serve req) := by
  rcases @serve.serve_static_cases os app.package req with
    ⟨hnone, resp, hresp, hstatus⟩ | ⟨c, q, content, hsome, hrefused, hchosen, hlook, hfile, hresp⟩
  · constructor
    · intro _ _ c hc
      rw [hnone] at hc
      cases hc
    · intro _ resp' hresp' hstatus'
      rw [hresp] at hresp'
      cases hresp'
      exact (hstatus hstatus').elim
  · have hpath := choice_path app hrefused c
    constructor
    · intro hstays hmethod c' hc' q' content' hleads
      rw [hsome] at hc'
      cases hc'
      obtain ⟨file, hchosen', q'', hlook', -, hin⟩ := hstays _ hresp rfl hmethod
      rw [Option.mem_def, hchosen] at hchosen'
      cases hchosen'
      have hlook'' := hleads.lookup
      rw [← hpath, hlook'] at hlook''
      cases hlook''
      exact hin
    · intro hfits resp' hresp' _ hmethod
      rw [hresp] at hresp'
      cases hresp'
      dsimp only
      rw [if_neg hmethod]
      refine ⟨_, hchosen, q, hlook, hfile, ?_⟩
      rw [hpath] at hlook
      by_cases hlinks : os.tree.Linked app.place
          (Tree.solid (c.parts app.package (serve.asked_for app.package req)))
      · exact hfits hmethod c hsome q content ⟨hlinks, hlook, hfile⟩
      · have hup : ".." ∉ c.parts app.package (serve.asked_for app.package req) :=
          serve.no_up (serve.normal_of_not_refused hrefused) c
        rw [lookup_unlinked hup hlinks ((lookup_walk app).symm.trans hlook)]
        exact List.prefix_append _ _

end Serving

/-! ## Writing -/

section Writing
variable {load : PathBuf → Except AppError String} {os : Os} {app : App load os}
  {decode : String → Except String Bytes}

/-- The path has a last name, with dots behind it. -/
theorem last_name {parts : List String} (h : ∃ c ∈ parts, is_dot c = false) :
    ∃ up last dots, parts = up ++ last :: dots ∧ is_dot last = false ∧
      ∀ c ∈ dots, is_dot c = true := by
  induction parts using List.reverseRecOn with
  | nil =>
    obtain ⟨c, hc, -⟩ := h
    cases hc
  | append_singleton parts x ih =>
    cases hx : is_dot x with
    | false => exact ⟨parts, x, [], by simp, hx, by simp⟩
    | true =>
      have hrest : ∃ c ∈ parts, is_dot c = false := by
        obtain ⟨c, hc, hdot⟩ := h
        rcases List.mem_append.mp hc with hc | hc
        · exact ⟨c, hc, hdot⟩
        · rw [List.mem_singleton.mp hc, hx] at hdot
          cases hdot
      obtain ⟨up, last, dots, rfl, hlast, hdots⟩ := ih hrest
      refine ⟨up, last, dots ++ [x], by simp, hlast, ?_⟩
      intro c hc
      rcases List.mem_append.mp hc with hc | hc
      · exact hdots c hc
      · rw [List.mem_singleton.mp hc]
        exact hx

theorem parent_eq {absolute : Bool} {up dots : List String} {last : String}
    (hlast : is_dot last = false) (hdots : ∀ c ∈ dots, is_dot c = true) :
    parent ⟨absolute, up ++ last :: dots⟩ = some ⟨absolute, up⟩ := by
  have hdrop : (up ++ last :: dots).rdropWhile is_dot = up ++ [last] := by
    induction dots using List.reverseRecOn with
    | nil => exact List.rdropWhile_concat_neg _ _ _ (by simp [hlast])
    | append_singleton dots x ih =>
      have hx : is_dot x = true := hdots x (by simp)
      rw [← List.cons_append, ← List.append_assoc, List.rdropWhile_concat_pos _ _ _ hx]
      exact ih fun c hc => hdots c (by simp [hc])
  unfold parent
  dsimp only
  rw [hdrop]
  have hne : up ++ [last] ≠ [] := by simp
  split
  · rename_i hnil
    exact absurd hnil hne
  · simp

/-- The place of the file that a write opens once the directories above are made. -/
def opened (os : Os) (path : PathBuf) : Option Path :=
  match make_parent os path with
  | (_, .error _) => none
  | (os', .ok ()) => os'.write_place path

/-- The directories are made above the last name. -/
theorem make_parent_eq (app : App load os) {up dots : List String} {last : String}
    (hlast : is_dot last = false) (hdots : ∀ c ∈ dots, is_dot c = true) :
    make_parent os (app.path (up ++ last :: dots)) =
      Os.create_dirs app.dir.absolute (app.dir.parts ++ up).reverse os := by
  unfold make_parent App.path
  rw [← List.append_assoc, parent_eq hlast hdots]
  rfl

/-- Nothing is opened at a path that ends in a slash or a dot. -/
theorem opened_dot {parts : List String} {x : String} (hx : is_dot x = true) :
    opened os (app.path (parts ++ [x])) = none := by
  unfold opened
  split
  · rfl
  · unfold App.path
    rw [← List.append_assoc]
    exact Os.write_place_dot hx

theorem opened_name {up : List String} {last : String} {q : Path} (hup : ".." ∉ up)
    (hlast : IsPlain last) : opened os (app.path (up ++ [last])) = some q ↔
      (os.is_dir (app.path up) = true ∧ os.write_place (app.path (up ++ [last])) = some q) ∨
      ∃ before c rest d, Os.Missing os app.dir.absolute app.dir.parts up before c rest d ∧
        q = d ++ c :: Tree.solid rest ++ [last] := by
  have hmake := @make_parent_eq load os app up [] last hlast.not_dot (by simp)
  have hends := Os.create_dirs_ends (walk_dir app) app.is_dir (parts_ne app) hup
  unfold opened
  rw [hmake]
  rcases hrun : Os.create_dirs app.dir.absolute (app.dir.parts ++ up).reverse os with ⟨os', r⟩
  rw [hrun] at hends
  rcases hends with ⟨hsame, hok, hnone⟩ | ⟨before, c, rest, d, hmissing, hok, hext⟩
  · dsimp only at hsame hok
    subst hsame
    have hiff : (∃ before c rest d, Os.Missing os' app.dir.absolute app.dir.parts up before c rest d ∧
        q = d ++ c :: Tree.solid rest ++ [last]) ↔ False := by
      simp only [iff_false]
      rintro ⟨before, c, rest, d, hmissing, -⟩
      exact hnone before c rest d hmissing
    rw [hiff, or_false]
    cases r with
    | error e =>
      have hdir : ¬os'.is_dir (app.path up) = true := fun h => by cases hok.mpr h
      simp [hdir]
    | ok u =>
      have hdir : os'.is_dir (app.path up) = true := hok.mp rfl
      simp [hdir]
  · dsimp only at hok hext
    subst hok
    have hrest : ".." ∉ rest := by
      rw [hmissing.parts] at hup
      simp only [List.mem_append, List.mem_cons, not_or] at hup
      exact hup.2.2
    have hplace := hmissing.write_place hrest hext hlast
    rw [List.append_assoc] at hplace
    have hdir : os.is_dir (app.path up) = false := by
      have hfalse := Os.is_dir_error hmissing.walk_error (by simp [parts_ne app]) []
      rwa [List.append_nil] at hfalse
    dsimp only
    constructor
    · intro h
      refine .inr ⟨before, c, rest, d, hmissing, ?_⟩
      rw [App.path, hplace] at h
      exact (Option.some.inj h).symm
    · rintro (⟨h, -⟩ | ⟨before', c', rest', d', hmissing', rfl⟩)
      · rw [hdir] at h
        cases h
      · obtain ⟨rfl, rfl, rfl, rfl⟩ := hmissing.unique hmissing'
        exact hplace

/-- Where the directories and the file of a write are made. -/
theorem opened_iff {parts : List String} {q : Path} (hname : ∃ c ∈ parts, is_dot c = false)
    (hup : ".." ∉ parts) : opened os (app.path parts) = some q ↔ app.Opens parts q := by
  obtain ⟨up, last, dots, rfl, hlast, hdots⟩ := last_name hname
  simp only [List.mem_append, List.mem_cons, not_or] at hup
  rcases List.eq_nil_or_concat dots with rfl | ⟨dots', x, rfl⟩
  · rw [opened_name hup.1 (plain_of_not_dot hlast (Ne.symm hup.2.1))]
    constructor
    · intro h
      exact ⟨up, last, rfl, hlast, h⟩
    · rintro ⟨up', last', heq, -, h⟩
      obtain ⟨rfl, hl⟩ := List.append_inj' heq rfl
      injection hl with hl
      subst hl
      exact h
  · have hx : is_dot x = true := hdots x (by simp)
    have hparts : up ++ last :: dots'.concat x = up ++ last :: dots' ++ [x] := by simp
    rw [hparts, opened_dot hx]
    constructor
    · intro h
      cases h
    · rintro ⟨up', last', heq, hlast', -⟩
      have hl := (List.append_inj' heq rfl).2
      injection hl with hl
      rw [← hl, hx] at hlast'
      cases hlast'

theorem store_place {rel : String} {path : PathBuf} {data : Bytes} :
    (store os rel path data).place = opened os path := by
  unfold store opened
  rcases make_parent os path with ⟨os', e | u⟩
  · rfl
  · dsimp only
    have hwrite := os'.write_eq path data
    rcases hplace : os'.write_place path with _ | q
    · rcases os'.write path data with ⟨os'', e | u⟩
      · rfl
      · rfl
    · rw [hplace] at hwrite
      rcases hrun : os'.write path data with ⟨os'', e | u⟩
      · rw [hrun] at hwrite
        cases hwrite.1
      · rfl

/-- What `app-write` opens. -/
theorem app_write_op_place_iff {rel data_b64 : String} {rest : List String} {q : Path} :
    q ∈ (app_write_op load os app.data_dir app.id decode (rel :: data_b64 :: rest)).place ↔
      ∃ names data, jail rel ["data"] = .ok names ∧ decode data_b64 = .ok data ∧
        data.length ≤ APP_IO_MAX ∧ app.Opens (pieces rel) q := by
  unfold app_write_op
  dsimp only
  rw [jailed_path_eq app]
  rcases hjail : jail rel ["data"] with e | names
  · constructor
    · intro h
      cases h
    · rintro ⟨names, data, h, -⟩
      cases h
  · obtain ⟨habs, hup, top, -, tail, hparts, htop⟩ := jail_ok hjail
    have hname : ∃ c ∈ pieces rel, is_dot c = false := ⟨top, by simp [hparts], htop⟩
    rw [path_eq habs]
    dsimp only [Except.map]
    rcases decode data_b64 with e | data
    · constructor
      · intro h
        cases h
      · rintro ⟨names, data, -, h, -⟩
        cases h
    · by_cases hcap : APP_IO_MAX < data.length
      · simp only [hcap, if_true]
        constructor
        · intro h
          cases h
        · rintro ⟨names, data', -, hdata, hle, -⟩
          cases hdata
          omega
      · simp only [hcap, if_false, store_place, Option.mem_def, opened_iff hname hup]
        constructor
        · intro h
          exact ⟨names, data, rfl, rfl, Nat.not_lt.mp hcap, h⟩
        · rintro ⟨-, -, -, -, -, h⟩
          exact h

/-- Without links on the way the file is where its names say. -/
theorem opens_unlinked {parts : List String} {q : Path} (hup : ".." ∉ parts)
    (hlinks : ¬os.tree.Linked app.place (Tree.solid parts)) (h : app.Opens parts q) :
    q = app.place ++ Tree.solid parts := by
  obtain ⟨up, last, rfl, hlast, hplace⟩ := h
  rcases hplace with ⟨-, hplace⟩ | ⟨before, c, rest, d, hmissing, rfl⟩
  · unfold Os.write_place at hplace
    rw [lookup_walk app] at hplace
    split at hplace
    · cases hplace
    · rename_i q' hwalk
      split at hplace
      · cases hplace
        exact lookup_unlinked hup hlinks hwalk
      · cases hplace
  · have hcut : Tree.solid (up ++ [last]) =
        Tree.solid before ++ c :: Tree.solid rest ++ [last] := by
      rw [Tree.solid_append, hmissing.parts, Tree.solid_append,
        Tree.solid_name hmissing.plain.not_dot, Tree.solid_name hlast]
      rfl
    have hbefore : ".." ∉ before := by
      intro hmem
      exact hup (by simp [hmissing.parts, hmem])
    have hfree : ¬os.tree.Linked app.place (Tree.solid before) := by
      rintro ⟨start, target, hstart, hlink⟩
      refine hlinks ⟨start, target, hstart.trans ?_, hlink⟩
      rw [hcut, List.append_assoc]
      exact List.prefix_append _ _
    rw [hcut, lookup_unlinked hbefore hfree hmissing.walk]
    simp

theorem write_stays_iff {args : List String} (encode : Bytes → String)
    (listing : Os.Listing os.tree) :
    Stays app encode decode listing (.write args) ↔ Fits app decode (.write args) := by
  constructor
  · rintro hstays rel data_b64 rest rfl names hjail data hdata hle - q hopens
    exact hstays q (app_write_op_place_iff.mpr ⟨names, data, hjail, hdata, hle, hopens⟩)
  · intro hfits q hq
    rcases args with _ | ⟨rel, _ | ⟨data_b64, rest⟩⟩
    · cases hq
    · cases hq
    · obtain ⟨names, data, hjail, hdata, hle, hopens⟩ := app_write_op_place_iff.mp hq
      obtain ⟨-, hup, top, htop, tail, hparts, hdot⟩ := jail_ok hjail
      by_cases hlinks : os.tree.Linked app.place (Tree.solid (pieces rel))
      · exact hfits rel data_b64 rest rfl names hjail data hdata hle hlinks q hopens
      · rw [opens_unlinked hup hlinks hopens, hparts, Tree.solid_name hdot, List.mem_singleton.mp htop]
        exact ⟨Tree.solid tail, by simp [App.data]⟩

end Writing

/-! ## Collecting -/

section Collecting
variable {load : PathBuf → Except AppError String} {os : Os} {listing : Os.Listing os.tree}
  {app : App load os}

theorem data_path (app : App load os) (rel : Path) :
    below (data_dir_of app.data_dir app.id) rel = app.path ("data" :: rel) := by
  have hdata : data_dir_of app.data_dir app.id = app.path ["data"] := path_eq (by decide)
  unfold below
  rw [hdata]
  unfold App.path
  simp

/-- A step that goes well for each item goes well for all, and each result is that of an item. -/
theorem mapM_ok {α β ε : Type} {f : α → Except ε β} {P : α → β → Prop} {xs : List α}
    (h : ∀ x ∈ xs, ∃ y, f x = .ok y ∧ P x y) :
    ∃ ys, xs.mapM f = .ok ys ∧ (∀ y ∈ ys, ∃ x ∈ xs, P x y) ∧ ∀ x ∈ xs, ∃ y ∈ ys, P x y := by
  induction xs with
  | nil => exact ⟨[], rfl, by simp, by simp⟩
  | cons x xs ih =>
    obtain ⟨y, hy, hP⟩ := h x List.mem_cons_self
    obtain ⟨ys, hys, hfrom, hto⟩ := ih fun x hx => h x (List.mem_cons_of_mem _ hx)
    refine ⟨y :: ys, ?_, ?_, ?_⟩
    · rw [List.mapM_cons, hy, hys]
      rfl
    · rintro z (_ | ⟨_, hz⟩)
      · exact ⟨x, List.mem_cons_self, hP⟩
      · obtain ⟨w, hw, hPw⟩ := hfrom z hz
        exact ⟨w, List.mem_cons_of_mem _ hw, hPw⟩
    · rintro w (_ | ⟨_, hw⟩)
      · exact ⟨y, List.mem_cons_self, hP⟩
      · obtain ⟨z, hz, hPz⟩ := hto w hw
        exact ⟨z, List.mem_cons_of_mem _ hz, hPz⟩

/-- What one entry of a directory adds to the files that are found. -/
def Adds (os : Os) (root : PathBuf) (dir : Path) (c : String) (rel : Path) : Prop :=
  ∃ names, rel = dir ++ c :: names ∧ (∀ x ∈ c :: names, IsPlain x) ∧
    os.is_file (below root rel) = true

theorem walk_of_is_file {p : PathBuf} (h : os.is_file p = true) (hne : p.parts ≠ []) :
    ∃ q content, os.walk false p.absolute p.parts = .ok q ∧ os.tree.nodes q = some (.file content) := by
  obtain ⟨q, content, hlook, hfile, -⟩ := os.is_file_cases h
  exact ⟨q, content, (Os.lookup_eq_walk hne).symm.trans hlook, hfile⟩

theorem not_file_of_is_dir {p : PathBuf} (h : os.is_dir p = true) : os.is_file p = false := by
  unfold Os.is_dir at h
  unfold Os.is_file
  rcases hlook : os.lookup false p with e | q
  · rfl
  · rw [hlook] at h
    dsimp only at h ⊢
    rw [of_decide_eq_true h]
    rfl

section Entry
variable {root : PathBuf} {dir : Path} {c : String}

/-- An entry that is no directory adds itself, if it is a file. -/
theorem adds_leaf (hroot : root.parts ≠ []) (hc : IsPlain c)
    (hdir : os.is_dir (below root (dir ++ [c])) = false) (rel : Path) :
    Adds os root dir c rel ↔ rel = dir ++ [c] ∧ os.is_file (below root (dir ++ [c])) = true := by
  constructor
  · rintro ⟨names, rfl, -, hfile⟩
    cases names with
    | nil => exact ⟨rfl, hfile⟩
    | cons x names =>
      obtain ⟨q, content, hwalk, -⟩ := walk_of_is_file hfile (by simp [below, hroot])
      have hparts : root.parts ++ (dir ++ c :: x :: names) = root.parts ++ (dir ++ [c]) ++ x :: names := by
        simp
      unfold below at hwalk
      dsimp only at hwalk
      rw [hparts] at hwalk
      have habove : os.is_dir (below root (dir ++ [c])) = true :=
        Os.is_dir_of_longer hwalk (by simp [hroot])
      rw [hdir] at habove
      cases habove
  · rintro ⟨rfl, hfile⟩
    exact ⟨[], rfl, by simpa using hc, hfile⟩

/-- An entry that is a directory adds what is found in it. -/
theorem adds_dir (hc : IsPlain c) (hdir : os.is_dir (below root (dir ++ [c])) = true) (rel : Path) :
    Adds os root dir c rel ↔ ∃ x, Adds os root (dir ++ [c]) x rel := by
  constructor
  · rintro ⟨names, rfl, hplain, hfile⟩
    cases names with
    | nil =>
      rw [not_file_of_is_dir hdir] at hfile
      cases hfile
    | cons x names =>
      exact ⟨x, names, by simp, fun y hy => hplain y (List.mem_cons_of_mem _ hy), hfile⟩
  · rintro ⟨x, names, rfl, hplain, hfile⟩
    refine ⟨x :: names, by simp, ?_, hfile⟩
    intro y hy
    rcases List.mem_cons.mp hy with rfl | hy
    · exact hc
    · exact hplain y hy

end Entry

section Collect
variable {root : PathBuf} {fuel : Nat} {dir : Path}

def collect_entry (os : Os) (listing : Os.Listing os.tree) (root : PathBuf) (fuel : Nat) (dir : Path)
    (c : String) : Except AppError (List Path) :=
  if os.is_dir (below root (dir ++ [c])) then collect_files os listing root fuel (dir ++ [c])
  else if os.is_file (below root (dir ++ [c])) then .ok [dir ++ [c]]
  else .ok []

/-- The files of a directory are those of its entries. -/
theorem collect_files_succ {names : List String} {found : List (List Path)}
    (hread : os.read_dir listing (below root dir) = .ok names)
    (hfound : names.mapM (collect_entry os listing root fuel dir) = .ok found) :
    collect_files os listing root (fuel + 1) dir = .ok found.flatten := by
  unfold collect_files
  rw [hread]
  change (names.mapM (collect_entry os listing root fuel dir) >>= fun found =>
    Except.ok found.flatten) = _
  rw [hfound]
  rfl

/-- What is collected, if the recursion has come to its end. -/
def Collects (os : Os) (listing : Os.Listing os.tree) (root : PathBuf) (fuel : Nat) (dir : Path) :
    Prop :=
  ∃ rels, collect_files os listing root fuel dir = .ok rels ∧
    ∀ rel, rel ∈ rels ↔ ∃ c, Adds os root dir c rel

theorem collect_entry_adds {c : String} (hroot : root.parts ≠ []) (hc : IsPlain c)
    (hinner : os.is_dir (below root (dir ++ [c])) = true →
      Collects os listing root fuel (dir ++ [c])) :
    ∃ rels, collect_entry os listing root fuel dir c = .ok rels ∧
      ∀ rel, rel ∈ rels ↔ Adds os root dir c rel := by
  unfold collect_entry
  cases hdir : os.is_dir (below root (dir ++ [c])) with
  | true =>
    obtain ⟨rels, hrels, hiff⟩ := hinner hdir
    exact ⟨rels, by simpa using hrels, fun rel => (hiff rel).trans (adds_dir hc hdir rel).symm⟩
  | false =>
    have hleaf := adds_leaf hroot hc hdir
    cases hfile : os.is_file (below root (dir ++ [c])) with
    | true => exact ⟨[dir ++ [c]], by simp, fun rel => by simp [hleaf, hfile]⟩
    | false => exact ⟨[], by simp, fun rel => by simp [hleaf, hfile]⟩

/-- The recursion ends, and finds all files. -/
theorem collect_files_collects (hroot : root.parts ≠ []) (hplain : ∀ x ∈ dir, IsPlain x)
    (hdir : os.is_dir (below root dir) = true)
    (hfuel : depth os listing ≤ fuel + dir.length) : Collects os listing root fuel dir := by
  have hne : root.parts ++ dir ≠ [] := by simp [hroot]
  induction fuel generalizing dir with
  | zero =>
    obtain ⟨d, hwalk, -⟩ := (Os.is_dir_iff hne).mp hdir
    have hle := Tree.walk_names_le listing.low hplain hwalk
    unfold depth at hfuel
    omega
  | succ fuel ih =>
    obtain ⟨d, hwalk, hd⟩ := (Os.is_dir_iff hne).mp hdir
    have hlook : os.lookup false (below root dir) = .ok d := (Os.lookup_eq_walk hne).trans hwalk
    have hread : os.read_dir listing (below root dir) = .ok (listing.entries d) := by
      unfold Os.read_dir
      rw [hlook]
      exact if_pos hd
    have hentry : ∀ c ∈ listing.entries d, ∃ rels,
        collect_entry os listing root fuel dir c = .ok rels ∧
          ∀ rel, rel ∈ rels ↔ Adds os root dir c rel := by
      intro c hc
      have hname : IsPlain c := os.tree.names d c ((listing.lists d c).mp hc)
      refine collect_entry_adds hroot hname fun hinner => ih ?_ hinner ?_ (by simp [hroot])
      · intro x hx
        rcases List.mem_append.mp hx with hx | hx
        · exact hplain x hx
        · exact List.mem_singleton.mp hx ▸ hname
      · rw [List.length_append, List.length_singleton]
        omega
    obtain ⟨found, hfound, hfrom, hto⟩ := mapM_ok hentry
    refine ⟨found.flatten, collect_files_succ hread hfound, fun rel => ?_⟩
    rw [List.mem_flatten]
    constructor
    · rintro ⟨rels, hrels, hrel⟩
      obtain ⟨c, -, hiff⟩ := hfrom rels hrels
      exact ⟨c, (hiff rel).mp hrel⟩
    · rintro ⟨c, hadds⟩
      obtain ⟨names, heq, hplain', hfile⟩ := id hadds
      obtain ⟨q, content, hq, -⟩ := walk_of_is_file hfile (by simp [below, hroot])
      have hq : os.walk false root.absolute (root.parts ++ dir ++ c :: names) = .ok q := by
        rw [List.append_assoc, ← heq]
        exact hq
      have hc : c ∈ listing.entries d :=
        (listing.lists d c).mpr (Os.there_of_longer hq hwalk hd (hplain' c List.mem_cons_self))
      obtain ⟨rels, hrels, hiff⟩ := hto c hc
      exact ⟨rels, hrels, (hiff rel).mpr hadds⟩

end Collect

/-- The file of a snapshot is what a path below the data leads to. -/
def Shot (os : Os) (data : PathBuf) (f : Path × Bytes) : Prop :=
  (∃ c names, f.1 = c :: names ∧ ∀ x ∈ c :: names, IsPlain x) ∧
    ∃ q, os.lookup false (below data f.1) = .ok q ∧ os.tree.nodes q = some (.file f.2)

/-- A snapshot has all files that the paths below the data lead to, and no others. -/
theorem snapshot_files_ok {data : PathBuf} (hne : data.parts ≠ []) :
    ∃ files, snapshot_files os listing data = .ok files ∧ ∀ f, f ∈ files ↔ Shot os data f := by
  have hempty : below data [] = data := by simp [below]
  cases hdir : os.is_dir data with
  | false =>
    refine ⟨[], by simp [snapshot_files, hdir, pure, Except.pure], fun f => ?_⟩
    simp only [List.not_mem_nil, false_iff]
    rintro ⟨⟨c, names, hrel, -⟩, q, hlook, -⟩
    unfold below at hlook
    rw [hrel, Os.lookup_eq_walk (by simp [hne])] at hlook
    have habove : os.is_dir data = true := Os.is_dir_of_longer hlook hne
    rw [hdir] at habove
    cases habove
  | true =>
    have hcollects : Collects os listing data (depth os listing) [] :=
      collect_files_collects hne (by simp) (by rw [hempty, hdir]) (by simp)
    obtain ⟨rels, hrels, hadds⟩ := hcollects
    have hread : ∀ rel ∈ rels, ∃ f : Path × Bytes,
        read_below os data rel = .ok f ∧ f.1 = rel ∧ Shot os data f := by
      intro rel hrel
      obtain ⟨c, names, rfl, hplain, hfile⟩ := (hadds rel).mp hrel
      obtain ⟨q, content, hlook, hnode, hread⟩ := os.is_file_cases hfile
      refine ⟨(c :: names, content), ?_, rfl, ⟨c, names, rfl, hplain⟩, q, hlook, hnode⟩
      unfold read_below
      rw [hread]
      rfl
    obtain ⟨files, hfiles, hfrom, hto⟩ := mapM_ok hread
    refine ⟨files, ?_, fun f => ?_⟩
    · unfold snapshot_files
      rw [hdir]
      change (collect_files os listing data (depth os listing) [] >>= fun rels =>
        rels.mapM (read_below os data)) = _
      rw [hrels]
      exact hfiles
    · constructor
      · intro hf
        obtain ⟨rel, -, -, hshot⟩ := hfrom f hf
        exact hshot
      · intro hshot
        obtain ⟨⟨c, names, hrel, hplain⟩, q, hlook, hnode⟩ := id hshot
        have hfile : os.is_file (below data (c :: names)) = true := by
          unfold Os.is_file
          rw [← hrel, hlook]
          dsimp only
          rw [hnode]
          rfl
        obtain ⟨f', hf', heq, hshot'⟩ := hto (c :: names)
          ((hadds _).mpr ⟨c, names, rfl, hplain, hfile⟩)
        obtain ⟨-, q', hlook', hnode'⟩ := hshot'
        rw [heq, ← hrel, hlook] at hlook'
        cases hlook'
        rw [hnode] at hnode'
        have hbytes : f.2 = f'.2 := by
          injection hnode' with hnode'
          injection hnode' with hnode'
        rw [Prod.ext (hrel.trans heq.symm) hbytes]
        exact hf'

theorem snapshot_stays_iff (encode : Bytes → String) (decode : String → Except String Bytes) :
    Stays app encode decode listing .snapshot ↔ Fits app decode .snapshot := by
  have hne : (data_dir_of app.data_dir app.id).parts ≠ [] := by
    have hdata := data_path app []
    unfold below App.path at hdata
    injection hdata with _ hparts
    rw [List.append_nil] at hparts
    simp [hparts]
  obtain ⟨files, hfiles, hiff⟩ := @snapshot_files_ok os listing _ hne
  have hdata : snapshot_data os listing app.data_dir app.id = .ok (portable files) := by
    unfold snapshot_data
    rw [app.accepted, hfiles]
    rfl
  constructor
  · intro hstays c names hplain q content hleads
    have hlook := hleads.lookup
    rw [← data_path] at hlook
    have hshot : Shot os (data_dir_of app.data_dir app.id) (c :: names, content) :=
      ⟨⟨c, names, rfl, hplain⟩, q, hlook, hleads.file⟩
    obtain ⟨files', -, hfiles', hall⟩ := hstays _ hdata
    rw [hfiles] at hfiles'
    cases hfiles'
    obtain ⟨q', hlook', -, hin⟩ := hall _ ((hiff _).mpr hshot)
    dsimp only at hlook'
    rw [hlook] at hlook'
    cases hlook'
    exact hin
  · intro hfits out hout
    rw [hdata] at hout
    cases hout
    refine ⟨files, rfl, hfiles, fun f hf => ?_⟩
    obtain ⟨⟨c, names, hrel, hplain⟩, q, hlook, hfile⟩ := (hiff f).mp hf
    refine ⟨q, hlook, hfile, ?_⟩
    rw [data_path, hrel] at hlook
    by_cases hlinks : os.tree.Linked app.place (Tree.solid ("data" :: c :: names))
    · exact hfits c names hplain q f.2 ⟨hlinks, hlook, hfile⟩
    · have hnames : ∀ x ∈ "data" :: c :: names, IsPlain x := by
        intro x hx
        rcases List.mem_cons.mp hx with rfl | hx
        · decide
        · exact hplain x hx
      have hup : ".." ∉ "data" :: c :: names := fun h => (hnames _ h).2.2 rfl
      rw [lookup_unlinked hup hlinks ((lookup_walk app).symm.trans hlook), Tree.solid_of_plain hnames]
      exact ⟨c :: names, by simp [App.data]⟩

end Collecting

/-- The files that are used are those of the app exactly where the links on the way lead back. -/
theorem stays_iff {load : PathBuf → Except AppError String} {os : Os} (app : App load os)
    (encode : Bytes → String) (decode : String → Except String Bytes) (listing : Os.Listing os.tree)
    (access : Access) : Stays app encode decode listing access ↔ Fits app decode access := by
  cases access with
  | read args => exact read_stays_iff decode listing
  | serve req => exact serve_stays_iff encode decode listing
  | write args => exact write_stays_iff encode listing
  | snapshot => exact snapshot_stays_iff encode decode

/-! ## A link out of the app -/

namespace Example

/-- A tree and what its directories list. -/
structure Volume where
  tree : links.Tree
  listing : Os.Listing tree

def Volume.add (v : Volume) (q : Path) (node : Node) (h : v.tree.Settable q) : Volume :=
  ⟨v.tree.set q node h, v.listing.set node h⟩

def root : Volume where
  tree := pai_tools.jail.root_only
  listing :=
    { entries := fun _ => [], lists := by simp [pai_tools.jail.root_only], height := 0
      low := by simp [pai_tools.jail.root_only] }

/-- An app with one link in its data, and a file outside of all apps. -/
def volume : Volume :=
  let v := root.add ["d"] .dir (by decide)
  let v := v.add ["d", "vault"] (.file (utf8 "secret")) (by decide)
  let v := v.add ["d", "apps"] .dir (by decide)
  let v := v.add ["d", "apps", "notes"] .dir (by decide)
  let v := v.add ["d", "apps", "notes", "manifest.toml"] (.file []) (by decide)
  let v := v.add ["d", "apps", "notes", "index.html"] (.file []) (by decide)
  let v := v.add ["d", "apps", "notes", "data"] .dir (by decide)
  v.add ["d", "apps", "notes", "data", "out"] (.link ⟨false, ["..", "..", "..", "vault"]⟩) (by decide)

def vos : Os := { tree := volume.tree, cwd := [], max_links := 40 }

def listing : Os.Listing vos.tree := volume.listing

def load (dir : PathBuf) : Except AppError String :=
  if dir = ⟨true, ["d", "apps", "notes"]⟩ then .ok "index.html" else .error (.NoManifest [])

theorem found : vos.lookup false (installed_dir (path_of "/d") "notes") =
    .ok ["d", "apps", "notes"] := by decide +kernel

theorem is_dir : vos.tree.nodes ["d", "apps", "notes"] = some .dir := by decide +kernel

theorem loads : load (installed_dir (path_of "/d") "notes") = .ok "index.html" := by decide +kernel

def notes : App load vos where
  data_dir := path_of "/d"
  id := "notes"
  accepted := by decide
  place := ["d", "apps", "notes"]
  found := found
  is_dir := is_dir
  entrypoint := "index.html"
  loads := loads
  checked := by decide

end Example

open Example in
/-- A guest that asks for the path of the link is given the file outside. -/
theorem a_link_leads_out :
    ¬Stays notes (fun _ => "c2VjcmV0") (fun _ => .error "") listing (.read ["data/out"]) := by
  rw [read_stays_iff]
  intro hfits
  have hjail : jail "data/out" ["files", "data"] = .ok ["data", "out"] := by decide +kernel
  have hleads : notes.Leads (pieces "data/out") ["d", "vault"] (utf8 "secret") :=
    { linked := ⟨["data", "out"], ⟨false, ["..", "..", "..", "vault"]⟩, by decide +kernel, by decide +kernel⟩
      lookup := by decide +kernel
      file := by decide +kernel }
  have hin := hfits "data/out" rfl _ hjail _ _ hleads (by decide +kernel)
  exact absurd hin (by decide +kernel)

end pai_apps.files
