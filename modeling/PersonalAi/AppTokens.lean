-- The refresh tokens of apps (pai-apps auth.rs): a keystore with files behind it, and the access
-- tokens that a run finds in its environment. The law says when each provider gets its own.
import Mathlib.Data.String.Basic
import PersonalAi.Lib.Framing
import PersonalAi.Lib.Links
import PersonalAi.Lib.Runs
import PersonalAi.Lib.SortedMap
import PersonalAi.Lib.Table
import PersonalAi.RegistryConfinement

open text paths links table sorted_map framing

namespace pai_apps.auth

/-! ## Names -/

/-- An id that `check_app_id` accepts. -/
structure AppId where
  text : String
  checked : check_app_id text = .ok ()
deriving DecidableEq

def keystore_key (app_id : AppId) (provider : String) : String :=
  "app-oauth:" ++ app_id.text ++ ":" ++ provider

/-- `data_dir/.oauth/<app>/<provider>.token`. -/
def token_file (data_dir : Path) (app_id : AppId) (provider : String) : Path :=
  join (join (data_dir ++ [".oauth"]) app_id.text) (provider ++ ".token")

def env_name (provider : String) : String :=
  "PAI_OAUTH_" ++ String.ofList
    (provider.toList.map fun c => if is_ascii_alphanumeric c then c.toUpper else '_')

/-! ## The two places of a token -/

/-- The keystore, the files, and what was last stored for each pair, which no code keeps. -/
structure State where
  keystore : Table String Bytes
  os : Os
  stored : AppId × String → Option String

/-- Which operations of the keystore work. -/
structure Call where
  loads : Bool
  stores : Bool

/-- The system takes no name with a NUL in it. -/
def without_nul (p : Path) : Bool := p.all fun c => !c.toList.contains '\x00'

def create_dir_all (os : Os) (p : Path) : Os × Bool :=
  if without_nul p then
    let (os, made) := os.create_dir_all ⟨true, p⟩
    (os, made.isOk)
  else (os, false)

def write (os : Os) (p : Path) (bytes : Bytes) : Os × Bool :=
  if without_nul p then
    let (os, written) := os.write ⟨true, p⟩ bytes
    (os, written.isOk)
  else (os, false)

def token_text (bytes : Bytes) : Option String := (from_utf8 bytes).map String.ofList

def read_to_string (os : Os) (p : Path) : Option String :=
  if without_nul p then (os.read ⟨true, p⟩).toOption.bind token_text else none

section Tokens
variable (data_dir : Path) (c : Call) (s : State) (app_id : AppId) (provider : String)

/-- The file behind the keystore. -/
def store_file (token : String) : Bool × Os :=
  let p := token_file data_dir app_id provider
  let (os, made) := create_dir_all s.os (parent p)
  if made then
    let (os, written) := write os p (utf8 token)
    (written, os)
  else (false, os)

def last_stored (token : String) : AppId × String → Option String :=
  Function.update s.stored (app_id, provider) (some token)

def store_refresh_token (token : String) : Bool × State :=
  if c.stores then
    (true, { s with
      keystore := s.keystore.insert (keystore_key app_id provider) (utf8 token)
      stored := last_stored s app_id provider token })
  else
    let (ok, os) := store_file data_dir s app_id provider token
    (ok, { s with os := os, stored := if ok then last_stored s app_id provider token else s.stored })

/-- What the keystore gives. -/
def load_key : Option Bytes :=
  if c.loads then s.keystore.lookup (keystore_key app_id provider) else none

def load_refresh_token : Option String :=
  match load_key c s app_id provider with
  | some raw => token_text raw
  | none => read_to_string s.os (token_file data_dir app_id provider)

/-! ## The environment of a run -/

/-- What a token endpoint answers: an access token, and maybe a new refresh token. -/
abbrev Grant := String → Except AppError (String × Option String)

/-- What to store of a new refresh token. -/
def new_token (refresh : String) (rotated : Option String) : Option String :=
  rotated.filter fun r => r ≠ "" && r ≠ refresh

/-- One turn of the loop over the providers. -/
def resolve_env (grant : Grant) : Option (String × String) × State :=
  match load_refresh_token data_dir c s app_id provider with
  | none => (none, s)
  | some refresh =>
    match grant refresh with
    | .error _ => (none, s)
    | .ok (access, rotated) =>
      (some (env_name provider, access),
        match new_token refresh rotated with
        | some r => (store_refresh_token data_dir c s app_id provider r).2
        | none => s)

end Tokens

section Runs
variable (data_dir : Path)

/-- The keystore may come and go between the providers. -/
def resolve_all (calls : String → Call) (app_id : AppId) :
    List (String × Grant) → State → List (String × String) × State
  | [], s => ([], s)
  | (name, grant) :: rest, s =>
    let (env, s) := resolve_env data_dir (calls name) s app_id name grant
    let (envs, s) := resolve_all calls app_id rest s
    (env.toList ++ envs, s)

/-- `auth.json` as it is read, with what the endpoint of each provider answers. -/
abbrev AppAuth := Except AppError (SortedMap String Grant)

def providers : AppAuth → List (String × Grant)
  | .ok auth => auth.entries
  | .error _ => []

def resolve_envs (calls : String → Call) (s : State) (app_id : AppId) (auth : AppAuth) :
    List (String × String) × State :=
  resolve_all data_dir calls app_id (providers auth) s

inductive Act
  | store (app_id : AppId) (provider token : String)
  | load (app_id : AppId) (provider : String)
  | resolve (app_id : AppId) (auth : AppAuth)

def Act.app_id : Act → AppId
  | .store app_id _ _ => app_id
  | .load app_id _ => app_id
  | .resolve app_id _ => app_id

def step (s : State) : (String → Call) × Act → State
  | (calls, .store app_id provider token) =>
    (store_refresh_token data_dir (calls provider) s app_id provider token).2
  | (_, .load _ _) => s
  | (calls, .resolve app_id auth) => (resolve_envs data_dir calls s app_id auth).2

/-! ## What is wanted -/

def home (app_id : AppId) : Path := data_dir ++ [".oauth", app_id.text]

/-- All that changes among the files is in the directory of the app, but for `.oauth` itself, which
may be made. -/
def Confined (app_id : AppId) (os os' : Os) : Prop :=
  ∀ p, os'.tree.nodes p = os.tree.nodes p ∨ home data_dir app_id <+: p ∨
    (p = data_dir ++ [".oauth"] ∧ os.tree.nodes p = none ∧ os'.tree.nodes p = some .dir)

/-- For each provider with a token there is one variable, with what was granted for the token that
was last stored for it. -/
def OwnEach (calls : String → Call) (s : State) (app_id : AppId) (auth : AppAuth)
    (envs : List (String × String)) : Prop :=
  ∀ name grant, (name, grant) ∈ providers auth → ∀ refresh access rotated,
    load_refresh_token data_dir (calls name) s app_id name = some refresh →
    grant refresh = .ok (access, rotated) →
    s.stored (app_id, name) = some refresh ∧
      envs.filter (fun e => e.1 = env_name name) = [(env_name name, access)]

/-- What an act gives is each provider's own. -/
def GivesOwn (s : State) : (String → Call) × Act → Prop
  | (_, .store _ _ _) => True
  | (calls, .load app_id provider) =>
    ∀ token ∈ load_refresh_token data_dir (calls provider) s app_id provider,
      s.stored (app_id, provider) = some token
  | (calls, .resolve app_id auth) =>
    OwnEach data_dir calls s app_id auth (resolve_envs data_dir calls s app_id auth).1

def Safe (s : State) (act : (String → Call) × Act) : Prop :=
  Confined data_dir act.2.app_id s.os (step data_dir s act).os ∧ GivesOwn data_dir s act

/-! ## When it holds -/

/-- The path of the pair goes down from the directory of the app. -/
def Clean (app_id : AppId) (provider : String) : Prop :=
  app_id.text ≠ "." ∧ app_id.text ≠ ".." ∧ is_absolute (provider ++ ".token") = false ∧
    Down (components (provider ++ ".token"))

/-- No other pair for which a token was stored has the path of this one. -/
def OwnFile (s : State) (app_id : AppId) (provider : String) : Prop :=
  Clean app_id provider ∧ ∀ app_id' provider', Clean app_id' provider' →
    token_file data_dir app_id' provider' = token_file data_dir app_id provider →
    s.stored (app_id', provider') ≠ none → (app_id', provider') = (app_id, provider)

def LoadClear (c : Call) (s : State) (app_id : AppId) (provider : String) : Prop :=
  load_key c s app_id provider = none → OwnFile data_dir s app_id provider

/-- A store leaves no other token of the pair in the place that it does not write. -/
def StoreClear (c : Call) (s : State) (app_id : AppId) (provider : String) : Prop :=
  if c.stores then
    Clean app_id provider →
      ∀ bytes, s.os.tree.nodes (token_file data_dir app_id provider) ≠ some (.file bytes)
  else Clean app_id provider ∧ s.keystore.lookup (keystore_key app_id provider) = none

def ResolveClear (c : Call) (s : State) (app_id : AppId) (provider : String) (grant : Grant) : Prop :=
  LoadClear data_dir c s app_id provider ∧
    ∀ refresh ∈ load_refresh_token data_dir c s app_id provider, ∀ access rotated,
      grant refresh = .ok (access, rotated) → new_token refresh rotated ≠ none →
      StoreClear data_dir c s app_id provider

/-- No two of the providers that tokens were stored for have one variable. -/
def EnvsDiffer (s : State) (app_id : AppId) (auth : AppAuth) : Prop :=
  ∀ name ∈ (providers auth).map Prod.fst, ∀ name' ∈ (providers auth).map Prod.fst,
    s.stored (app_id, name) ≠ none → s.stored (app_id, name') ≠ none →
    env_name name = env_name name' → name = name'

def Clear (s : State) : (String → Call) × Act → Prop
  | (calls, .store app_id provider _) => StoreClear data_dir (calls provider) s app_id provider
  | (calls, .load app_id provider) => LoadClear data_dir (calls provider) s app_id provider
  | (calls, .resolve app_id auth) =>
    (∀ e ∈ providers auth, ResolveClear data_dir (calls e.1) s app_id e.1 e.2) ∧
      EnvsDiffer s app_id auth

/-- What is under the keys and in the files was last stored for a pair with that key or path, and no
link stands below `.oauth`. -/
structure Sound (s : State) : Prop where
  dir : s.os.tree.nodes data_dir = some .dir
  unlinked : ∀ q target, s.os.tree.nodes (data_dir ++ ".oauth" :: q) ≠ some (.link target)
  keys : ∀ app_id provider raw token,
    s.keystore.lookup (keystore_key app_id provider) = some raw → token_text raw = some token →
    s.stored (app_id, provider) = some token
  files : ∀ app_id provider bytes token, Clean app_id provider →
    s.os.tree.nodes (token_file data_dir app_id provider) = some (.file bytes) →
    token_text bytes = some token → ∃ app_id' provider', Clean app_id' provider' ∧
      token_file data_dir app_id' provider' = token_file data_dir app_id provider ∧
      s.stored (app_id', provider') = some token

end Runs

/-! ## Keys and paths -/

theorem key_inj {app_id app_id' : AppId} {provider provider' : String}
    (h : keystore_key app_id provider = keystore_key app_id' provider') :
    (app_id, provider) = (app_id', provider') := by
  have hcolon (app_id : AppId) : app_id.text.toList.count ':' = 0 := by
    rw [List.count_eq_zero]
    intro hmem
    exact absurd ((accepted_chars app_id.checked).2 ':' hmem) (by decide)
  have htext := congrArg String.toList h
  simp only [keystore_key, String.toList_append, List.append_assoc] at htext
  obtain ⟨hid, hprovider⟩ := part_ends ((hcolon app_id).trans (hcolon app_id').symm)
    (List.append_cancel_left htext)
  obtain rfl : provider = provider' := String.toList_inj.mp hprovider
  cases app_id with
  | mk id checked =>
    cases app_id' with
    | mk id' checked' =>
      obtain rfl : id = id' := String.toList_inj.mp hid
      rfl

section Paths
variable {data_dir : Path} {s : State} {app_id : AppId} {provider : String}

theorem token_file_eq (h : Clean app_id provider) : token_file data_dir app_id provider =
    data_dir ++ ".oauth" :: app_id.text :: components (provider ++ ".token") := by
  unfold token_file
  rw [join_name _ (accepted_name app_id.checked h.1 h.2.1), join, if_neg (by simp [h.2.2.1])]
  simp

theorem token_plain (hdir : s.os.tree.nodes data_dir = some .dir) (h : Clean app_id provider) :
    ∀ c ∈ token_file data_dir app_id provider, IsPlain c := by
  have hname := accepted_name app_id.checked h.1 h.2.1
  intro c hc
  rw [token_file_eq h, List.mem_append, List.mem_cons, List.mem_cons] at hc
  rcases hc with hc | rfl | rfl | hc
  · exact Tree.Real.plain (.inl hdir) c hc
  · decide
  · exact ⟨hname.1, hname.2.1, hname.2.2.1⟩
  · have hsolid := (List.mem_filter.mp hc).2
    simp only [Bool.and_eq_true, decide_eq_true_eq] at hsolid
    exact ⟨hsolid.1, hsolid.2, fun hup => h.2.2.2 (hup ▸ hc)⟩

theorem Sound.token_unlinked (hs : Sound data_dir s) (h : Clean app_id provider) :
    s.os.Unlinked (token_file data_dir app_id provider) := by
  intro start hstart target hlink
  rw [token_file_eq h] at hstart
  rcases List.prefix_or_prefix_of_prefix hstart (List.prefix_append _ _) with habove | hbelow
  · have hdir : s.os.tree.nodes start = some .dir := by
      obtain ⟨rest, hrest⟩ := habove
      by_cases hnil : rest = []
      · rw [← hs.dir, ← hrest, hnil, List.append_nil]
      · exact Tree.ancestor_dir (r := rest) (by rw [hrest, hs.dir]; simp) hnil
    rw [hdir] at hlink
    cases hlink
  · obtain ⟨q, rfl⟩ := hbelow
    cases q with
    | nil =>
      rw [List.append_nil, hs.dir] at hlink
      cases hlink
    | cons c q =>
      rw [List.prefix_append_right_inj, List.cons_prefix_cons] at hstart
      exact hs.unlinked q target (hstart.1 ▸ hlink)

theorem Sound.read_eq_some (hs : Sound data_dir s) (h : Clean app_id provider) {token : String}
    (hread : read_to_string s.os (token_file data_dir app_id provider) = some token) :
    ∃ bytes, s.os.tree.nodes (token_file data_dir app_id provider) = some (.file bytes) ∧
      token_text bytes = some token := by
  unfold read_to_string at hread
  split at hread
  · obtain ⟨bytes, hbytes, htext⟩ := Option.bind_eq_some_iff.mp hread
    refine ⟨bytes, ?_, htext⟩
    refine ((hs.token_unlinked h).read_ok_iff (token_plain hs.dir h)).mp ?_
    cases hrun : s.os.read ⟨true, token_file data_dir app_id provider⟩ with
    | error e =>
      rw [hrun] at hbytes
      cases hbytes
    | ok bytes' =>
      rw [hrun] at hbytes
      rw [← Option.some.inj hbytes]
  · cases hread

/-- Two states with the same files at the path give the same token. -/
theorem Sound.read_congr {s' : State} (hs : Sound data_dir s) (hs' : Sound data_dir s')
    (h : Clean app_id provider)
    (hsame : ∀ bytes, s'.os.tree.nodes (token_file data_dir app_id provider) = some (.file bytes) ↔
      s.os.tree.nodes (token_file data_dir app_id provider) = some (.file bytes)) :
    read_to_string s'.os (token_file data_dir app_id provider) =
      read_to_string s.os (token_file data_dir app_id provider) := by
  have hread : (s'.os.read ⟨true, token_file data_dir app_id provider⟩).toOption =
      (s.os.read ⟨true, token_file data_dir app_id provider⟩).toOption := by
    have hopt {e : Except Errno Bytes} {bytes : Bytes} :
        e.toOption = some bytes ↔ e = .ok bytes := by
      cases e <;> simp [Except.toOption]
    ext bytes
    rw [hopt, hopt, (hs'.token_unlinked h).read_ok_iff (token_plain hs'.dir h),
      (hs.token_unlinked h).read_ok_iff (token_plain hs.dir h), hsame]
  unfold read_to_string
  rw [hread]

/-- What is stored in a file: directories are made on the way, and the file has the token if that is
what the call says. -/
theorem Sound.store_file_cases (hs : Sound data_dir s) (h : Clean app_id provider) (token : String) :
    (∀ p, (store_file data_dir s app_id provider token).2.tree.nodes p = s.os.tree.nodes p ∨
      (p <+: token_file data_dir app_id provider ∧ s.os.tree.nodes p = none ∧
        (store_file data_dir s app_id provider token).2.tree.nodes p = some .dir) ∨
      (p = token_file data_dir app_id provider ∧
        (store_file data_dir s app_id provider token).1 = true)) ∧
    ((store_file data_dir s app_id provider token).1 = true →
      (store_file data_dir s app_id provider token).2.tree.nodes
        (token_file data_dir app_id provider) = some (.file (utf8 token))) := by
  have hplain := token_plain hs.dir h
  have hlinks := hs.token_unlinked h
  have hrun : store_file data_dir s app_id provider token =
      (let file := token_file data_dir app_id provider
      let made := create_dir_all s.os (parent file)
      if made.2 then ((write made.1 file (utf8 token)).2, (write made.1 file (utf8 token)).1)
      else (false, made.1)) := rfl
  rw [hrun]
  clear hrun
  generalize token_file data_dir app_id provider = file at hplain hlinks ⊢
  have hmade : Os.Made s.os file (create_dir_all s.os (parent file)).1 := by
    unfold create_dir_all
    split
    · exact hlinks.create_dirs_made hplain (by
        rw [List.reverse_reverse]
        exact List.dropLast_prefix _)
    · exact .refl _ _
  dsimp only
  generalize create_dir_all s.os (parent file) = run at hmade ⊢
  obtain ⟨os₁, made⟩ := run
  have hnodes (p : Path) : os₁.tree.nodes p = s.os.tree.nodes p ∨
      (p <+: file ∧ s.os.tree.nodes p = none ∧ os₁.tree.nodes p = some .dir) := hmade p
  by_cases hok : made = true ∧ without_nul file = true
  · simp only [hok.1, if_true, write, hok.2]
    rcases (hmade.unlinked hlinks).write_cases hplain with ⟨hsame, hfail⟩ | ⟨hdone, hfile⟩
    · have herr : (os₁.write ⟨true, file⟩ (utf8 token)).2.isOk = false := by
        cases hrun : (os₁.write ⟨true, file⟩ (utf8 token)).2 with
        | error e => rfl
        | ok u => exact absurd hrun hfail
      rw [hsame, herr]
      exact ⟨fun p => (hnodes p).imp_right .inl, nofun⟩
    · rw [hdone]
      refine ⟨fun p => ?_, fun _ => (hfile file).trans (if_pos rfl)⟩
      rw [hfile p]
      split
      · exact .inr (.inr ⟨by assumption, rfl⟩)
      · exact (hnodes p).imp_right .inl
  · have hno : (if made then ((write os₁ file (utf8 token)).2, (write os₁ file (utf8 token)).1)
        else (false, os₁)) = (false, os₁) := by
      split
      · rename_i hmade
        simp [write, show without_nul file = false by simpa [hmade] using hok]
      · rfl
    rw [hno]
    exact ⟨fun p => (hnodes p).imp_right .inl, nofun⟩

end Paths

/-! ## Storing and loading -/

section Storing
variable {data_dir : Path} {c : Call} {s : State} {app_id : AppId} {provider : String}

/-- The files that a store changes: that of the pair, and the directories on the way. -/
theorem Sound.store_nodes (hs : Sound data_dir s) (hclear : StoreClear data_dir c s app_id provider)
    (token : String) (p : Path) :
    (store_refresh_token data_dir c s app_id provider token).2.os.tree.nodes p =
        s.os.tree.nodes p ∨
      (Clean app_id provider ∧ c.stores = false ∧ p <+: token_file data_dir app_id provider ∧
        ((s.os.tree.nodes p = none ∧
          (store_refresh_token data_dir c s app_id provider token).2.os.tree.nodes p = some .dir) ∨
        (p = token_file data_dir app_id provider ∧
          (store_refresh_token data_dir c s app_id provider token).1 = true ∧
          (store_refresh_token data_dir c s app_id provider token).2.os.tree.nodes p =
            some (.file (utf8 token))))) := by
  unfold store_refresh_token
  by_cases hstores : c.stores = true
  · rw [if_pos hstores]
    exact .inl rfl
  · rw [StoreClear, if_neg hstores] at hclear
    rw [if_neg hstores]
    obtain ⟨hnodes, hwritten⟩ := hs.store_file_cases hclear.1 token
    rcases hnodes p with hsame | ⟨hpre, hmade⟩ | ⟨hp, hok⟩
    · exact .inl hsame
    · exact .inr ⟨hclear.1, by simpa using hstores, hpre, .inl hmade⟩
    · exact .inr ⟨hclear.1, by simpa using hstores, hp ▸ List.prefix_rfl,
        .inr ⟨hp, hok, hp ▸ hwritten hok⟩⟩

theorem Sound.store_confined (hs : Sound data_dir s)
    (hclear : StoreClear data_dir c s app_id provider) (token : String) :
    Confined data_dir app_id s.os
      (store_refresh_token data_dir c s app_id provider token).2.os := by
  intro p
  rcases hs.store_nodes hclear token p with hsame | ⟨hclean, -, hpre, hnew⟩
  · exact .inl hsame
  · right
    have hfile : token_file data_dir app_id provider =
        home data_dir app_id ++ components (provider ++ ".token") := by
      rw [token_file_eq hclean, home]
      simp
    rcases hnew with ⟨hnone, hmade⟩ | ⟨rfl, -⟩
    · rw [hfile] at hpre
      rcases List.prefix_or_prefix_of_prefix hpre (List.prefix_append _ _) with habove | hbelow
      · have hhome : home data_dir app_id = data_dir ++ [".oauth"] ++ [app_id.text] := by simp [home]
        rw [hhome, List.prefix_concat_iff, List.prefix_concat_iff] at habove
        rcases habove with rfl | rfl | ⟨rest, hrest⟩
        · exact .inl (hhome ▸ List.prefix_rfl)
        · exact .inr ⟨rfl, hnone, hmade⟩
        · -- the directories above the data directory stand
          have hthere := hs.dir
          rw [← hrest, Tree.none_below hnone] at hthere
          cases hthere
      · exact .inl hbelow
    · exact .inl (hfile ▸ List.prefix_append _ _)

@[simp] theorem token_text_utf8 (token : String) : token_text (utf8 token) = some token := by
  rw [token_text, utf8_eq_encode, from_utf8_encode]
  simp

theorem store_keystore (token : String) :
    (store_refresh_token data_dir c s app_id provider token).2.keystore =
      if c.stores then s.keystore.insert (keystore_key app_id provider) (utf8 token)
      else s.keystore := by
  unfold store_refresh_token
  split <;> rfl

theorem store_stored (token : String) (pair : AppId × String) :
    (store_refresh_token data_dir c s app_id provider token).2.stored pair =
      if (store_refresh_token data_dir c s app_id provider token).1 = true ∧ pair = (app_id, provider)
      then some token else s.stored pair := by
  unfold store_refresh_token
  by_cases hpair : pair = (app_id, provider)
  · subst hpair
    split
    · simp [last_stored]
    · dsimp only
      split <;> simp [last_stored, *]
  · split
    · simp [last_stored, hpair]
    · dsimp only
      split <;> simp [last_stored, hpair]

/-- The file of a pair that a store says it has written. -/
theorem Sound.store_written (hs : Sound data_dir s)
    (hclear : StoreClear data_dir c s app_id provider) (hstores : c.stores = false) {token : String}
    (hok : (store_refresh_token data_dir c s app_id provider token).1 = true) :
    (store_refresh_token data_dir c s app_id provider token).2.os.tree.nodes
      (token_file data_dir app_id provider) = some (.file (utf8 token)) := by
  rw [StoreClear, if_neg (by simp [hstores])] at hclear
  rw [store_refresh_token, if_neg (by simp [hstores])] at hok ⊢
  exact (hs.store_file_cases hclear.1 token).2 hok

theorem Sound.store_keys (hs : Sound data_dir s) (hclear : StoreClear data_dir c s app_id provider)
    {token : String} {app : AppId} {name : String} {raw : Bytes} {token' : String}
    (hlookup : (store_refresh_token data_dir c s app_id provider token).2.keystore.lookup
      (keystore_key app name) = some raw) (htext : token_text raw = some token') :
    (store_refresh_token data_dir c s app_id provider token).2.stored (app, name) = some token' := by
  rw [store_keystore] at hlookup
  rw [store_stored]
  by_cases hstores : c.stores = true
  · have hok : (store_refresh_token data_dir c s app_id provider token).1 = true := by
      rw [store_refresh_token, if_pos hstores]
    rw [if_pos hstores, lookup_insert_if] at hlookup
    split at hlookup
    · rename_i hkey
      rw [if_pos ⟨hok, key_inj hkey⟩, ← htext, ← Option.some.inj hlookup, token_text_utf8]
    · rename_i hkey
      rw [if_neg]
      · exact hs.keys _ _ raw token' hlookup htext
      · rintro ⟨-, hpair⟩
        cases hpair
        exact hkey rfl
  · rw [StoreClear, if_neg hstores] at hclear
    rw [if_neg hstores] at hlookup
    rw [if_neg]
    · exact hs.keys _ _ raw token' hlookup htext
    · rintro ⟨-, hpair⟩
      cases hpair
      rw [hclear.2] at hlookup
      cases hlookup

theorem Sound.store_files (hs : Sound data_dir s) (hclear : StoreClear data_dir c s app_id provider)
    {token : String} {app : AppId} {name : String} {bytes : Bytes} {token' : String}
    (hclean : Clean app name)
    (hfile : (store_refresh_token data_dir c s app_id provider token).2.os.tree.nodes
      (token_file data_dir app name) = some (.file bytes)) (htext : token_text bytes = some token') :
    ∃ app' name', Clean app' name' ∧ token_file data_dir app' name' = token_file data_dir app name ∧
      (store_refresh_token data_dir c s app_id provider token).2.stored (app', name') =
        some token' := by
  by_cases hthis : (store_refresh_token data_dir c s app_id provider token).1 = true ∧
      Clean app_id provider ∧ token_file data_dir app name = token_file data_dir app_id provider
  · obtain ⟨hok, hclean', hsame⟩ := hthis
    have hstores : c.stores = false := by
      by_contra hstores
      rw [Bool.not_eq_false] at hstores
      have hno := hclear
      rw [StoreClear, if_pos hstores] at hno
      rw [store_refresh_token, if_pos hstores] at hfile
      exact hno hclean' bytes (hsame ▸ hfile)
    have hwritten := hs.store_written hclear hstores hok
    rw [hsame, hwritten] at hfile
    refine ⟨app_id, provider, hclean', hsame.symm, ?_⟩
    rw [store_stored, if_pos ⟨hok, rfl⟩, ← htext]
    cases hfile
    exact (token_text_utf8 token).symm
  · have hold : s.os.tree.nodes (token_file data_dir app name) = some (.file bytes) := by
      rcases hs.store_nodes hclear token (token_file data_dir app name) with
        hsame | ⟨hclean', -, -, ⟨-, hdir⟩ | ⟨hpath, hok, -⟩⟩
      · exact hsame.symm.trans hfile
      · exact absurd (hdir.symm.trans hfile) (by simp)
      · exact absurd ⟨hok, hclean', hpath⟩ hthis
    obtain ⟨app', name', hclean', hsame, hstored⟩ := hs.files app name bytes token' hclean hold htext
    refine ⟨app', name', hclean', hsame, ?_⟩
    rw [store_stored, if_neg]
    · exact hstored
    · rintro ⟨hok, hpair⟩
      cases hpair
      exact hthis ⟨hok, hclean', hsame.symm⟩

/-- A store keeps what is known of the keystore and the files. -/
theorem Sound.store (hs : Sound data_dir s) (hclear : StoreClear data_dir c s app_id provider)
    (token : String) : Sound data_dir (store_refresh_token data_dir c s app_id provider token).2 := by
  have hnodes := hs.store_nodes hclear token
  refine ⟨?_, fun q target hlink => ?_, fun _ _ _ _ => hs.store_keys hclear,
    fun _ _ _ _ => hs.store_files hclear⟩
  · rcases hnodes data_dir with hsame | ⟨hclean, -, -, ⟨-, hdir⟩ | ⟨hfile, -⟩⟩
    · exact hsame.trans hs.dir
    · exact hdir
    · rw [token_file_eq hclean] at hfile
      simp at hfile
  · rcases hnodes (data_dir ++ ".oauth" :: q) with hsame | ⟨-, -, -, ⟨-, hdir⟩ | ⟨-, -, hfile⟩⟩
    · exact hs.unlinked q target (hsame.symm.trans hlink)
    · exact absurd (hdir.symm.trans hlink) (by simp)
    · exact absurd (hfile.symm.trans hlink) (by simp)

/-- What is loaded was last stored for the pair. -/
theorem Sound.load_stored (hs : Sound data_dir s) (hclear : LoadClear data_dir c s app_id provider)
    {token : String} (hload : load_refresh_token data_dir c s app_id provider = some token) :
    s.stored (app_id, provider) = some token := by
  unfold load_refresh_token at hload
  split at hload
  · rename_i raw hraw
    unfold load_key at hraw
    split at hraw
    · exact hs.keys _ _ raw token hraw hload
    · cases hraw
  · rename_i hnone
    obtain ⟨hclean, hown⟩ := hclear hnone
    obtain ⟨bytes, hfile, htext⟩ := hs.read_eq_some hclean hload
    obtain ⟨app_id', provider', hclean', hsame, hstored⟩ := hs.files _ _ bytes token hclean hfile htext
    have hpair := hown app_id' provider' hclean' hsame (by rw [hstored]; simp)
    rwa [hpair] at hstored

end Storing

/-! ## One provider after another -/

section Resolving
variable {data_dir : Path} {c c' : Call} {s : State} {app_id : AppId} {name name' : String}
  {grant grant' : Grant}

theorem confined_refl (os : Os) : Confined data_dir app_id os os := fun _ => .inl rfl

theorem Confined.trans {os os' os'' : Os} (h : Confined data_dir app_id os os')
    (h' : Confined data_dir app_id os' os'') : Confined data_dir app_id os os'' := by
  intro p
  rcases h' p with hsame' | hhome | ⟨hp, hnone', hdir'⟩
  · rw [hsame']
    exact h p
  · exact .inr (.inl hhome)
  · rcases h p with hsame | hhome | ⟨-, -, hdir⟩
    · exact .inr (.inr ⟨hp, hsame.symm.trans hnone', hdir'⟩)
    · exact .inr (.inl hhome)
    · rw [hdir] at hnone'
      cases hnone'

/-- The variable of a provider for which this token is loaded. -/
def granted (grant : Grant) (name : String) (loaded : Option String) : Option (String × String) :=
  loaded.bind fun refresh => (grant refresh).toOption.map fun answer => (env_name name, answer.1)

theorem resolve_env_granted : (resolve_env data_dir c s app_id name grant).1 =
    granted grant name (load_refresh_token data_dir c s app_id name) := by
  unfold resolve_env granted
  cases load_refresh_token data_dir c s app_id name with
  | none => rfl
  | some refresh =>
    dsimp only [Option.bind_some]
    cases grant refresh with
    | error e => rfl
    | ok answer => rfl

/-- A turn leaves everything as it is, or it stores a new token in the place of the one it loaded. -/
theorem resolve_env_cases : (resolve_env data_dir c s app_id name grant).2 = s ∨
    ∃ refresh access rotated r, load_refresh_token data_dir c s app_id name = some refresh ∧
      grant refresh = .ok (access, rotated) ∧ new_token refresh rotated = some r ∧
      (resolve_env data_dir c s app_id name grant).2 =
        (store_refresh_token data_dir c s app_id name r).2 := by
  unfold resolve_env
  cases hload : load_refresh_token data_dir c s app_id name with
  | none => exact .inl rfl
  | some refresh =>
    dsimp only
    cases hgrant : grant refresh with
    | error e => exact .inl rfl
    | ok answer =>
      obtain ⟨access, rotated⟩ := answer
      dsimp only
      cases hnew : new_token refresh rotated with
      | none => exact .inl rfl
      | some r => exact .inr ⟨refresh, access, rotated, r, rfl, hgrant, hnew, rfl⟩

/-- A new token for one provider leaves those of the others where they are. -/
structure Leaves (data_dir : Path) (s s' : State) (app_id : AppId) (name' : String) : Prop where
  stored : ∀ pair, s'.stored pair ≠ none ↔ s.stored pair ≠ none
  key : s'.keystore.lookup (keystore_key app_id name') = s.keystore.lookup (keystore_key app_id name')
  file : Clean app_id name' → s.stored (app_id, name') ≠ none ∨ OwnFile data_dir s app_id name' →
    ∀ bytes, s'.os.tree.nodes (token_file data_dir app_id name') = some (.file bytes) ↔
      s.os.tree.nodes (token_file data_dir app_id name') = some (.file bytes)

theorem Sound.store_leaves (hs : Sound data_dir s) (hload : LoadClear data_dir c s app_id name)
    (hclear : StoreClear data_dir c s app_id name) {refresh : String}
    (hloaded : load_refresh_token data_dir c s app_id name = some refresh) (r : String)
    (hne : name' ≠ name) :
    Leaves data_dir s (store_refresh_token data_dir c s app_id name r).2 app_id name' := by
  have hstored : s.stored (app_id, name) ≠ none := by
    rw [hs.load_stored hload hloaded]
    simp
  have hpair : (app_id, name') ≠ (app_id, name) := fun h => hne (Prod.mk.inj h).2
  refine ⟨fun pair => ?_, ?_, fun hclean hown bytes => ?_⟩
  · rw [store_stored]
    split
    · rename_i hthis
      rw [hthis.2]
      simp [hstored]
    · rfl
  · rw [store_keystore]
    split
    · rw [lookup_insert_if, if_neg]
      exact fun hkey => hpair (key_inj hkey)
    · rfl
  · rcases hs.store_nodes hclear r (token_file data_dir app_id name') with
      hsame | ⟨hclean', hstores, -, ⟨hnone, hdir⟩ | ⟨hpath, -⟩⟩
    · rw [hsame]
    · rw [hnone, hdir]
      simp
    · -- the token was loaded from that file, which is of one pair only
      rw [StoreClear, if_neg (by simp [hstores])] at hclear
      have hnokey : load_key c s app_id name = none := by
        unfold load_key
        split
        · exact hclear.2
        · rfl
      rcases hown with hother | hother
      · exact absurd ((hload hnokey).2 app_id name' hclean hpath hother) hpair
      · exact absurd (hother.2 app_id name hclean' hpath.symm hstored).symm hpair

theorem Leaves.own_file {s' : State} (h : Leaves data_dir s s' app_id name') :
    OwnFile data_dir s' app_id name' ↔ OwnFile data_dir s app_id name' := by
  unfold OwnFile
  simp only [h.stored]

theorem Leaves.load_key {s' : State} (h : Leaves data_dir s s' app_id name') :
    load_key c' s' app_id name' = load_key c' s app_id name' := by
  unfold auth.load_key
  rw [h.key]

theorem Leaves.load {s' : State} (h : Leaves data_dir s s' app_id name') (hs : Sound data_dir s)
    (hs' : Sound data_dir s') (hclear : LoadClear data_dir c' s app_id name') :
    load_refresh_token data_dir c' s' app_id name' =
      load_refresh_token data_dir c' s app_id name' := by
  unfold load_refresh_token
  rw [h.load_key]
  cases hkey : auth.load_key c' s app_id name' with
  | some raw => rfl
  | none =>
    have hown := hclear hkey
    exact hs.read_congr hs' hown.1 (h.file hown.1 (.inr hown))

theorem Leaves.clear {s' : State} (h : Leaves data_dir s s' app_id name') (hs : Sound data_dir s)
    (hs' : Sound data_dir s') (hclear : ResolveClear data_dir c' s app_id name' grant') :
    ResolveClear data_dir c' s' app_id name' grant' := by
  refine ⟨fun hnone => h.own_file.mpr (hclear.1 (h.load_key ▸ hnone)), ?_⟩
  intro refresh hload access rotated hgrant hnew
  rw [h.load hs hs' hclear.1] at hload
  have hstore := hclear.2 refresh hload access rotated hgrant hnew
  have hstored : s.stored (app_id, name') ≠ none := by
    rw [hs.load_stored hclear.1 hload]
    simp
  unfold StoreClear at hstore ⊢
  split
  · rename_i hstores
    rw [if_pos hstores] at hstore
    intro hclean bytes hfile
    exact hstore hclean bytes ((h.file hclean (.inl hstored) bytes).mp hfile)
  · rename_i hstores
    rw [if_neg hstores] at hstore
    exact ⟨hstore.1, h.key.trans hstore.2⟩

/-- What a turn keeps. -/
structure Turned (data_dir : Path) (s s' : State) (app_id : AppId) (name : String) : Prop where
  sound : Sound data_dir s'
  confined : Confined data_dir app_id s.os s'.os
  leaves : ∀ name', name' ≠ name → Leaves data_dir s s' app_id name'

theorem Sound.turned (hs : Sound data_dir s) (hclear : ResolveClear data_dir c s app_id name grant) :
    Turned data_dir s (resolve_env data_dir c s app_id name grant).2 app_id name := by
  rcases @resolve_env_cases data_dir c s app_id name grant with
    hsame | ⟨refresh, access, rotated, r, hload, hgrant, hnew, hstored⟩
  · rw [hsame]
    exact ⟨hs, confined_refl s.os, fun name' _ => ⟨fun _ => .rfl, rfl, fun _ _ _ => .rfl⟩⟩
  · have hstore := hclear.2 refresh hload access rotated hgrant (by simp [hnew])
    rw [hstored]
    exact ⟨hs.store hstore r, hs.store_confined hstore r,
      fun name' hne => hs.store_leaves hclear.1 hstore hload r hne⟩

/-- After all turns each variable is what was granted for the token that was there at the start. -/
theorem Sound.resolve_all {calls : String → Call} {l : List (String × Grant)}
    (hs : Sound data_dir s) (hnames : (l.map Prod.fst).Nodup)
    (hclear : ∀ e ∈ l, ResolveClear data_dir (calls e.1) s app_id e.1 e.2) :
    Sound data_dir (resolve_all data_dir calls app_id l s).2 ∧
      Confined data_dir app_id s.os (resolve_all data_dir calls app_id l s).2.os ∧
      (resolve_all data_dir calls app_id l s).1 =
        l.filterMap fun e => granted e.2 e.1 (load_refresh_token data_dir (calls e.1) s app_id e.1) := by
  induction l generalizing s with
  | nil => exact ⟨hs, confined_refl s.os, rfl⟩
  | cons e rest ih =>
    obtain ⟨name, grant⟩ := e
    rw [List.map_cons, List.nodup_cons] at hnames
    rw [List.forall_mem_cons] at hclear
    have hturn := hs.turned hclear.1
    have hne (e : String × Grant) (he : e ∈ rest) : e.1 ≠ name := by
      intro hname
      have hmem : e.1 ∈ rest.map Prod.fst := List.mem_map_of_mem he
      exact hnames.1 (hname ▸ hmem)
    have hrest (e : String × Grant) (he : e ∈ rest) :=
      (hturn.leaves e.1 (hne e he)).clear hs hturn.sound (hclear.2 e he)
    obtain ⟨hsound, hconfined, henvs⟩ := ih hturn.sound hnames.2 hrest
    refine ⟨hsound, hturn.confined.trans hconfined, ?_⟩
    have hsame : rest.filterMap (fun e => granted e.2 e.1
          (load_refresh_token data_dir (calls e.1)
            (resolve_env data_dir (calls name) s app_id name grant).2 app_id e.1)) =
        rest.filterMap fun e => granted e.2 e.1
          (load_refresh_token data_dir (calls e.1) s app_id e.1) := by
      refine List.filterMap_congr fun e he => ?_
      rw [(hturn.leaves e.1 (hne e he)).load hs hturn.sound (hclear.2 e he).1]
    simp only [auth.resolve_all]
    rw [henvs, hsame, resolve_env_granted, List.filterMap_cons]
    cases granted grant name (load_refresh_token data_dir (calls name) s app_id name) with
    | none => rfl
    | some env => rfl

/-- Of a list without repetitions one element alone gives something. -/
theorem filterMap_eq_singleton {α β : Type} {l : List α} {g : α → Option β} {a : α} {b : β}
    (hl : l.Nodup) (ha : a ∈ l) (hb : g a = some b) (hothers : ∀ a' ∈ l, g a' ≠ none → a' = a) :
    l.filterMap g = [b] := by
  obtain ⟨before, after, rfl⟩ := List.append_of_mem ha
  have hnone (a' : α) (ha' : a' ∈ before ++ after) : g a' = none := by
    by_contra hsome
    have hsame := hothers a' (by
      rcases List.mem_append.mp ha' with h | h
      · exact List.mem_append_left _ h
      · exact List.mem_append_right _ (List.mem_cons_of_mem _ h)) hsome
    have := List.nodup_middle.mp hl
    rw [List.nodup_cons] at this
    exact this.1 (hsame ▸ ha')
  rw [List.filterMap_append, List.filterMap_cons_some hb,
    List.filterMap_eq_nil_iff.mpr fun a' h => hnone a' (List.mem_append_left _ h),
    List.filterMap_eq_nil_iff.mpr fun a' h => hnone a' (List.mem_append_right _ h)]
  rfl

theorem providers_nodup (auth : AppAuth) : ((providers auth).map Prod.fst).Nodup := by
  cases auth with
  | error e => exact List.nodup_nil
  | ok auth => exact keys_nodup auth

theorem granted_eq_some {loaded : Option String} {env : String × String}
    (h : granted grant name loaded = some env) : loaded ≠ none ∧ env.1 = env_name name := by
  obtain ⟨refresh, hload, hmap⟩ := Option.bind_eq_some_iff.mp h
  obtain ⟨answer, -, henv⟩ := Option.map_eq_some_iff.mp hmap
  exact ⟨by simp [hload], by rw [← henv]⟩

theorem Sound.own_each {calls : String → Call} {auth : AppAuth} (hs : Sound data_dir s)
    (hclear : ∀ e ∈ providers auth, ResolveClear data_dir (calls e.1) s app_id e.1 e.2)
    (hdiffer : EnvsDiffer s app_id auth) :
    OwnEach data_dir calls s app_id auth (resolve_envs data_dir calls s app_id auth).1 := by
  intro name grant hmem refresh access rotated hload hgrant
  refine ⟨hs.load_stored (hclear _ hmem).1 hload, ?_⟩
  have hstored (e : String × Grant) (he : e ∈ providers auth)
      (hloaded : load_refresh_token data_dir (calls e.1) s app_id e.1 ≠ none) :
      s.stored (app_id, e.1) ≠ none := by
    obtain ⟨token, htoken⟩ := Option.ne_none_iff_exists'.mp hloaded
    rw [hs.load_stored (hclear e he).1 htoken]
    simp
  have hnames := providers_nodup auth
  rw [resolve_envs, (hs.resolve_all hnames hclear).2.2, List.filter_filterMap]
  refine @filterMap_eq_singleton _ _ _ _ (name, grant) _ (List.Nodup.of_map _ hnames) hmem ?_ ?_
  · simp [granted, hload, hgrant, Except.toOption]
  · -- another provider with this variable has this name
    intro e he hsome
    obtain ⟨env, henv⟩ := Option.ne_none_iff_exists'.mp hsome
    rw [Option.filter_eq_some_iff] at henv
    obtain ⟨hloaded, hvar⟩ := granted_eq_some henv.1
    have hname : e.1 = name := hdiffer e.1 (List.mem_map_of_mem he) name (List.mem_map_of_mem hmem)
      (hstored e he hloaded) (hstored _ hmem (by simp [hload]))
      (hvar.symm.trans (of_decide_eq_true henv.2))
    exact List.inj_on_of_nodup_map hnames he hmem hname

end Resolving

/-! ## Runs -/

section Runs
variable {data_dir : Path} {s : State}

theorem step_sound (hs : Sound data_dir s) (act : (String → Call) × Act)
    (hclear : Clear data_dir s act) : Sound data_dir (step data_dir s act) := by
  obtain ⟨calls, act⟩ := act
  cases act with
  | store app_id provider token => exact hs.store hclear token
  | load app_id provider => exact hs
  | resolve app_id auth => exact (hs.resolve_all (providers_nodup auth) hclear.1).1

theorem step_safe (hs : Sound data_dir s) (act : (String → Call) × Act)
    (hclear : Clear data_dir s act) : Safe data_dir s act := by
  obtain ⟨calls, act⟩ := act
  cases act with
  | store app_id provider token => exact ⟨hs.store_confined hclear token, trivial⟩
  | load app_id provider =>
    exact ⟨confined_refl s.os, fun token htoken => hs.load_stored hclear htoken⟩
  | resolve app_id auth =>
    exact ⟨(hs.resolve_all (providers_nodup auth) hclear.1).2.1, hs.own_each hclear.1 hclear.2⟩

/-- In every run in which a file stands for one pair, no store leaves another token of its pair, and
no two providers have one variable, each pair gets its own and nothing is written elsewhere. -/
theorem tokens_do_not_mix {acts : List ((String → Call) × Act)} (hs : Sound data_dir s)
    (hruns : runs.Along (step data_dir) (Clear data_dir) s acts) :
    runs.Along (step data_dir) (Safe data_dir) s acts :=
  @runs.along_of_invariant _ _ (step data_dir) (Sound data_dir) (Clear data_dir) (Safe data_dir)
    (fun _ act hs hclear => step_sound hs act hclear) (fun _ act hs hclear => step_safe hs act hclear)
    s hs acts hruns

end Runs

/-- A device with an empty data directory. -/
def fresh : State :=
  let root : links.Tree :=
    { nodes := fun p => if p = [] then some .dir else none
      root := rfl
      parents := by simp
      names := by simp }
  { keystore := ∅, os := ⟨root.set ["d"] .dir (by decide), [], 40⟩, stored := fun _ => none }

theorem fresh_sound : Sound ["d"] fresh where
  dir := rfl
  unlinked := fun q target hlink => by simp [fresh, Tree.set_nodes] at hlink
  keys := fun _ _ _ _ hkey => (nomatch (AList.lookup_empty _).symm.trans hkey)
  files := fun app_id provider bytes token hclean hfile _ => by
    rw [token_file_eq hclean] at hfile
    simp [fresh, Tree.set_nodes] at hfile

def notes : AppId := ⟨"notes", rfl⟩

def reachable : Call := ⟨true, true⟩

def unreachable : Call := ⟨false, false⟩

/-- One provider, whose token stays. -/
def google : AppAuth :=
  .ok ⟨[("google", fun _ => .ok ("access", none))], List.pairwise_singleton _ _⟩

theorem one_provider_has_its_own : runs.Along (step ["d"]) (Safe ["d"]) fresh
    [(fun _ => reachable, .store notes "google" "refresh"), (fun _ => reachable, .resolve notes google)] := by
  refine tokens_do_not_mix fresh_sound ⟨?_, ⟨?_, ?_⟩, trivial⟩
  · intro hclean bytes hfile
    rw [token_file_eq hclean] at hfile
    simp [fresh, Tree.set_nodes] at hfile
  · intro e he
    obtain rfl := List.mem_singleton.mp he
    refine ⟨fun hnone => absurd hnone (by decide +kernel), fun _ _ _ _ hgrant hnew => ?_⟩
    cases hgrant
    exact absurd rfl hnew
  · intro name hname name' hname' _ _ _
    rw [List.mem_singleton.mp hname, List.mem_singleton.mp hname']

/-- The keystore comes back with a token that is no longer the last, a provider's name leads out of
the directory of its app, and two names make one variable. -/
theorem an_old_token_comes_back :
    (¬ ∀ data_dir s acts, Sound data_dir s → runs.Along (step data_dir) (Safe data_dir) s acts) ∧
      (step ["d"] fresh (fun _ => unreachable, .store notes "../../other" "refresh")).os.tree.nodes
        ["d", "other.token"] = some (.file (utf8 "refresh")) ∧
      env_name "a-b" = env_name "a_b" := by
  refine ⟨fun hall => ?_, by decide +kernel, by decide +kernel⟩
  have hsafe := hall ["d"] fresh [(fun _ => reachable, .store notes "google" "old"),
    (fun _ => unreachable, .store notes "google" "new"), (fun _ => reachable, .load notes "google")]
    fresh_sound
  have hloaded := hsafe.2.2.1.2 "old" (by decide +kernel)
  exact absurd hloaded (by decide +kernel)

end pai_apps.auth
