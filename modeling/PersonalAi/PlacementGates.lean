-- The ways into an app of this device: the command line, the broker, the guest endpoint and
-- the gateway, and which of them ask where the app lives.
import PersonalAi.AppPlacement
import PersonalAi.SandboxRuns

open program text pai_apps pai_apps.signing pai_apps.signing.run pai_sync.backup
open pai_core (DeviceId Error)
open pai_sync.engine (Db app_error)

namespace pai_cli

/-! ## The device -/

structure ServeRequest where
  method : String
  path : String
  query : String
  headers : List (String × String)
  body_b64 : String
  base : String

/-- What stands outside this model: the hash, the TOML and JSON readers, base64, the wasm
engine, and the other broker ops. -/
structure Host where
  sha256 : Bytes → Bytes
  toml : List Char → Except AppError RunManifest
  installed_dir : String → paths.Path
  instantiate : Bytes → Except AppError Unit
  finish : Bytes → Except AppError Unit
  base64 : String → Except String Bytes
  app_args : Bytes → Except String (String × List String)
  serve_request : String → Except String ServeRequest
  to_json : ServeRequest → String
  other_op : String → Bytes → Except Error Unit

/-- The store of this device, and the directories `apps/<id>`. -/
structure Home where
  device : DeviceId
  db : Db
  apps : String → Option PackageDir

/-- What counts as using an app here. -/
inductive Effect
  | data_dir (app : String)
  | executed (app : String)
  | wrote (app : String) (p : signing.RelPath)
deriving DecidableEq

def Effect.app : Effect → String
  | .data_dir app | .executed app | .wrote app _ => app

abbrev Op (α : Type) := Prog Home Effect AppError α

section Ops
variable (c : Host)

/-- `AppRegistry::get`. -/
def get (id : String) (h : Home) : Except AppError (Option (PackageDir × RunManifest)) :=
  match h.apps id with
  | none => .ok none
  | some d => do
    check_app_id id
    let _ ← load_app c.sha256 c.toml (c.installed_dir id) d.root
    let m ← manifest_of c.toml (c.installed_dir id) d.root
    pure (some (d, m))

def installed (id : String) : Op (PackageDir × RunManifest) := do
  match ← demand (get c id) with
  | some app => pure app
  | none => fail (.Layout ("app " ++ id ++ " not installed"))

/-- A run makes `data/` for an app with storage that has none. -/
def makes_data (d : PackageDir) (m : RunManifest) : Bool :=
  decide (m.storage.type ≠ .None) && decide (kind d.root [DATA] = none)

/-- `AppPackage::run`. What the guest leaves is not followed here. -/
def run (id : String) (d : PackageDir) (m : RunManifest) : Op Unit := do
  let wasm ← demand fun _ => read_wasm d.root m
  let _ ← demand fun _ => preopens d.root m
  doWhen (makes_data d m) (perform (.data_dir id) (fun h => (.ok (), h)))
  demand fun _ => c.instantiate wasm
  perform (.executed id) (fun h => (c.finish wasm, h))

/-- `run_logged_inner`, and `run_logged` and `app_run_op_guest` over it: they differ in the
environment that the guest gets. -/
def run_logged_inner (id : String) : Op Unit := do
  let (d, m) ← installed c id
  run c id d m

def BODY_CAP : Nat := 8 * 1024 * 1024

def request_body (req : ServeRequest) : Except AppError Bytes :=
  match c.base64 req.body_b64 with
  | .error e => .error (.Layout ("serve body b64: " ++ e))
  | .ok body =>
    if BODY_CAP < body.length then
      .error (.Layout ("serve body " ++ toString body.length ++
        " bytes exceeds " ++ toString BODY_CAP ++ " cap"))
    else .ok body

/-- A web bundle is answered from its files. -/
def run_request (id : String) (req : ServeRequest) : Op Unit := do
  let (_, m) ← installed c id
  if !m.serve then
    fail (.Layout ("app " ++ id ++ " does not serve http — set `serve = true` in the manifest"))
  else if m.runtime = .Web then pure ()
  else
    let _ ← demand fun _ => request_body c req
    run_logged_inner c id

def serve_arg (args : List String) : Except AppError ServeRequest :=
  match args.head? with
  | none => .error (.Layout "app-serve needs a ServeRequest JSON arg")
  | some arg => (c.serve_request arg).mapError (fun e => .Layout ("app-serve request: " ++ e))

def app_serve_op (id : String) (args : List String) : Op Unit := do
  let req ← demand fun _ => serve_arg c args
  run_request c id req

/-- The path of a guest, below one of the directories `tops`. -/
def jail (rel : String) (tops : List String) : Except AppError (List String) :=
  if paths.is_absolute rel then .error (.Layout ("path " ++ rel ++ " must be relative"))
  else
    let parts := (rel.toList.splitOn '/').map String.ofList
    match parts with
    | [] => .error (.Layout ("path " ++ rel ++ " must start with files/ or data/"))
    | top :: _ =>
      if top ∈ ["", ".", ".."] then .error (.Layout ("path " ++ rel ++ " must start with files/ or data/"))
      else if top ∉ tops then
        .error (.Layout ("path " ++ rel ++ " outside " ++ String.intercalate "/ or " tops))
      else if ".." ∈ paths.components rel then
        .error (.Layout ("path " ++ rel ++ " escapes the app dir"))
      else .ok (paths.components rel)

def APP_IO_MAX : Nat := 8 * 1024 * 1024

/-- `create_dir_all` on the parent, then `write`: every directory above is one or can be made,
and no directory stands at the path. -/
def writable (root : Node) (p : signing.RelPath) : Bool :=
  (p.inits.dropLast.all fun q => kind root q ∈ [none, some .dir]) &&
    match kind root p with
    | none | some (.file _) => true
    | _ => false

/-- The arguments of `app-write`, as the bytes that go to a path of the app. -/
def write_args (id : String) (args : List String) (h : Home) :
    Except AppError (signing.RelPath × Bytes) :=
  match args with
  | rel :: data_b64 :: _ => do
    let app ← get c id h
    match app with
    | none => .error (.Layout ("app " ++ id ++ " not installed"))
    | some (d, _) => do
      let parts ← jail rel ["data"]
      let data ← (c.base64 data_b64).mapError (fun e => .Layout ("data_b64: " ++ e))
      if APP_IO_MAX < data.length then .error (.Layout (rel ++ ": exceeds 8 MiB cap"))
      else
        match parts.mapM (fun part => Name.of (utf8 part)) with
        | none => .error (.Io "create_dir_all")
        | some p => if writable d.root p then .ok (p, data) else .error (.Io "write")
  | _ => .error (.Layout "app-write needs path + data_b64")

def app_write_op (id : String) (args : List String) : Op Unit := do
  let (p, _) ← demand (write_args c id args)
  perform (.wrote id p) (fun h => (.ok (), h))

/-- `app-read` writes nothing. -/
def app_read_op (id : String) (args : List String) : Op Unit := do
  match args.head? with
  | none => fail (.Layout "app-read needs a path argument")
  | some rel => do
    let (d, _) ← installed c id
    let parts ← demand fun _ => jail rel ["files", "data"]
    demand fun _ =>
      match parts.mapM (fun part => Name.of (utf8 part)) with
      | none => .error (.Layout (rel ++ ": not found"))
      | some p =>
        match kind d.root p with
        | some (.file (some bytes)) =>
          if APP_IO_MAX < bytes.length then .error (.Layout (rel ++ ": exceeds 8 MiB cap")) else .ok ()
        | some (.file none) => .error (.Io "read")
        | some _ => .error (.Layout (rel ++ ": not a file"))
        | none => .error (.Layout (rel ++ ": not found"))

/-! ## The seven ways in -/

abbrev Handler := Prog Home Effect Error Unit

def not_here (id msg : String) (go : Handler) : Handler := do
  match ← ask (fun h => active_elsewhere h.db h.device id) with
  | some other => fail (.InvalidInput ("app " ++ id ++ " is active on " ++ other ++ msg))
  | none => go

def other_error (e : AppError) : Error := .Other (app_error e)

/-- `apps run` without `--on`, which sends the run to another device. -/
def apps_run (id : String) : Handler :=
  not_here id (" — run it there, or migrate it back with `pai apps migrate " ++ id ++ " --to <me>`")
    (map_err (fun e =>
      if contains_str "not installed".toList (app_error e).toList then .NotFound ("app " ++ id)
      else other_error e) (run_logged_inner c id))

/-- `BrokerOps::handle`. The ops that are about no app are parameters. -/
def broker_handle (op : String) (payload : Bytes) : Handler :=
  match op with
  | "app-run" => do
    let (id, _) ← demand fun _ =>
      (c.app_args payload).mapError (fun e => Error.InvalidInput ("app-run payload JSON: " ++ e))
    not_here id " — not runnable here" (map_err other_error (run_logged_inner c id))
  | "app-serve" => do
    let (id, args) ← demand fun _ =>
      (c.app_args payload).mapError (fun e => Error.InvalidInput ("app-serve payload JSON: " ++ e))
    map_err other_error (app_serve_op c id args)
  | other => demand fun _ => c.other_op other payload

/-- The handler of the guest endpoint. -/
def guest_handler (op id : String) (args : List String) : Handler :=
  match op with
  | "app-run" => map_err other_error (run_logged_inner c id)
  | "app-serve" => map_err other_error (app_serve_op c id args)
  | "app-read" => map_err other_error (app_read_op c id args)
  | "app-write" => map_err other_error (app_write_op c id args)
  | other => fail (.InvalidInput ("unknown guest op '" ++ other ++ "'"))

/-- The gateway: the request goes to the device that the app lives on. -/
def serve_app (id : String) (req : ServeRequest) : Handler := do
  match ← ask (fun h => active_elsewhere h.db h.device id) with
  | some _ => pure ()
  | none => map_err other_error (app_serve_op c id [c.to_json req])

inductive Request
  | apps_run (id : String)
  | broker (op : String) (payload : Bytes)
  | guest (op id : String) (args : List String)
  | gateway (id : String) (req : ServeRequest)

def handle : Request → Handler
  | .apps_run id => apps_run c id
  | .broker op payload => broker_handle c op payload
  | .guest op id args => guest_handler c op id args
  | .gateway id req => serve_app c id req

/-! ## What the claim is about -/

/-- The request uses no app that lives on another device. -/
def Respects (h : Home) (r : Request) : Prop :=
  ∀ e ∈ (handle c r).trace h, active_elsewhere h.db h.device e.app = none

/-- The answer is there, and passes the test. -/
def passes {ε α : Type} (x : Except ε α) (test : α → Bool) : Bool :=
  match x with
  | .ok a => test a
  | .error _ => false

/-- A run of the package gets as far as to make its `data/` or to its code. -/
def gets_going (d : PackageDir) (m : RunManifest) : Bool :=
  passes (read_wasm d.root m) fun wasm =>
    passes (preopens d.root m) fun _ => makes_data d m || (c.instantiate wasm).isOk

def starts (h : Home) (id : String) : Bool :=
  passes (get c id h) fun app => app.any fun (d, m) => gets_going c d m

/-- The app is installed and answers requests by running. -/
def opted_in (h : Home) (id : String) : Bool :=
  passes (get c id h) fun app => app.any fun (_, m) => m.serve && decide (m.runtime ≠ .Web)

def serves (h : Home) (id : String) (args : List String) : Bool :=
  passes (serve_arg c args) fun req =>
    opted_in c h id && passes (request_body c req) fun _ => starts c h id

def writes (h : Home) (id : String) (args : List String) : Bool := (write_args c id args h).isOk

def guest_acts (h : Home) (op id : String) (args : List String) : Bool :=
  match op with
  | "app-run" => starts c h id
  | "app-serve" => serves c h id args
  | "app-write" => writes c h id args
  | _ => false

def broker_acts (h : Home) (op : String) (payload : Bytes) : Option String :=
  match op with
  | "app-serve" =>
    match c.app_args payload with
    | .ok (id, args) => if serves c h id args then some id else none
    | .error _ => none
  | _ => none

/-- The app that a request uses without a question where it lives, when it gets that far. -/
def ungated (h : Home) : Request → Option String
  | .broker op payload => broker_acts c h op payload
  | .guest op id args => if guest_acts c h op id args then some id else none
  | _ => none

/-! ## What each operation does -/

section Traces
variable {c} {h : Home}

/-- The operation uses this app, and it does so exactly when the test says. -/
structure Uses (p : Op Unit) (h : Home) (id : String) (acts : Bool) : Prop where
  app : ∀ e ∈ p.trace h, e.app = id
  acts : p.trace h ≠ [] ↔ acts = true

theorem uses_nothing {p : Op Unit} (hp : p.trace h = []) (id : String) : Uses p h id false :=
  ⟨by rw [hp]; simp, by rw [hp]; simp⟩

theorem uses_of_trace {p q : Op Unit} {id : String} {acts : Bool} (hp : p.trace h = q.trace h)
    (hq : Uses q h id acts) : Uses p h id acts :=
  ⟨by rw [hp]; exact hq.app, by rw [hp]; exact hq.acts⟩

/-- A refused question ends the operation. -/
theorem uses_demand {α : Type} {f : Home → Except AppError α} {g : α → Op Unit} {id : String}
    {test : α → Bool} (hg : ∀ a, f h = .ok a → Uses (g a) h id (test a)) :
    Uses (demand f >>= g) h id (passes (f h) test) := by
  rcases hf : f h with e | a
  · exact uses_nothing (by rw [trace_demand_bind, hf]) id
  · exact uses_of_trace (by rw [trace_demand_bind, hf]) (hg a hf)

/-- So does an app that is not installed. -/
theorem uses_installed {g : PackageDir × RunManifest → Op Unit} {id : String}
    {test : PackageDir × RunManifest → Bool}
    (hg : ∀ a, get c id h = .ok (some a) → Uses (g a) h id (test a)) :
    Uses (installed c id >>= g) h id (passes (get c id h) fun app => app.any test) := by
  have htrace : (installed c id >>= g).trace h =
      (demand (get c id) >>= fun app => match app with
        | some a => g a
        | none => fail (.Layout ("app " ++ id ++ " not installed"))).trace h := by
    unfold installed
    rw [bind_assoc]
    congr 2
    funext app
    cases app <;> rfl
  apply uses_of_trace htrace
  apply uses_demand
  intro app happ
  cases app with
  | none => exact uses_nothing rfl id
  | some a => exact hg a happ

theorem data_dir_or_executed (id : String) (data code : Bool) :
    ∀ e ∈ (if data then [Effect.data_dir id] else []) ++ if code then [.executed id] else [],
      e.app = id := by
  intro e he
  cases data <;> cases code <;> simp at he
  · rw [he]; rfl
  · rw [he]; rfl
  · rcases he with rfl | rfl <;> rfl

theorem run_uses (id : String) (d : PackageDir) (m : RunManifest) :
    Uses (run c id d m) h id (gets_going c d m) := by
  apply uses_demand
  intro wasm _
  apply uses_demand
  intro dirs _
  have htrace : (doWhen (makes_data d m) (perform (Effect.data_dir id) (fun h => (.ok (), h))) >>=
      fun _ => (demand fun _ => c.instantiate wasm) >>= fun _ =>
        perform (.executed id) (fun h => (c.finish wasm, h))).trace h =
      (if makes_data d m then [Effect.data_dir id] else []) ++
        if (c.instantiate wasm).isOk then [.executed id] else [] := by
    cases makes_data d m
    · simp only [doWhen, Bool.false_eq_true, if_false, pure_then, trace_demand_bind]
      cases c.instantiate wasm <;> rfl
    · simp only [doWhen, if_true, trace_perform_bind, trace_demand_bind]
      cases c.instantiate wasm <;> rfl
  refine ⟨by rw [htrace]; exact data_dir_or_executed id _ _, ?_⟩
  rw [htrace]
  cases makes_data d m <;> cases (c.instantiate wasm).isOk <;> simp

theorem run_logged_uses (id : String) : Uses (run_logged_inner c id) h id (starts c h id) :=
  uses_installed fun a _ => run_uses id a.1 a.2

theorem run_request_uses (id : String) (req : ServeRequest) :
    Uses (run_request c id req) h id
      (opted_in c h id && passes (request_body c req) fun _ => starts c h id) := by
  have hfound : (opted_in c h id && passes (request_body c req) fun _ => starts c h id) =
      passes (get c id h) fun app => app.any fun a => (a.2.serve && decide (a.2.runtime ≠ .Web)) &&
        passes (request_body c req) fun _ => starts c h id := by
    unfold opted_in
    rcases get c id h with e | _ | ⟨d, m⟩ <;> simp [passes]
  rw [hfound]
  apply uses_installed
  rintro ⟨d, m⟩ _
  dsimp only
  by_cases hserve : m.serve = true
  · by_cases hweb : m.runtime = .Web
    · simpa [hserve, hweb] using uses_nothing rfl id
    · simp only [hserve, hweb, Bool.not_true, Bool.false_eq_true, if_false, decide_true, ne_eq,
        not_false_eq_true, Bool.and_self, Bool.true_and]
      exact uses_demand fun _ _ => run_logged_uses id
  · simpa [hserve] using uses_nothing rfl id

theorem app_serve_uses (id : String) (args : List String) :
    Uses (app_serve_op c id args) h id (serves c h id args) :=
  uses_demand fun req _ => run_request_uses id req

theorem app_write_uses (id : String) (args : List String) :
    Uses (app_write_op c id args) h id (writes c h id args) := by
  have hwrites : writes c h id args = passes (write_args c id args h) fun _ => true := by
    unfold writes
    cases write_args c id args h <;> rfl
  rw [hwrites]
  apply uses_demand
  rintro ⟨p, data⟩ _
  exact ⟨by simp [Effect.app], by simp⟩

theorem app_read_uses_nothing (id : String) (args : List String) :
    Emits (fun tr => ∀ e ∈ tr, False) (app_read_op c id args) := by
  have hnone := additive_forall (fun _ : Effect => False)
  unfold app_read_op
  cases args.head? with
  | none => exact emits_fail hnone _
  | some rel =>
    refine emits_bind hnone (emits_bind hnone (emits_demand hnone _) ?_) ?_
    · rintro (_ | app)
      · exact emits_fail hnone _
      · exact emits_pure hnone app
    · intro app
      exact emits_bind hnone (emits_demand hnone _) fun _ => emits_demand hnone _

/-! ## The gates -/

/-- Behind the question nothing is used of an app that lives elsewhere. -/
theorem not_here_respects {id msg : String} {p : Op Unit} {f : AppError → Error} {acts : Bool}
    (hp : Uses p h id acts) :
    ∀ e ∈ (not_here id msg (map_err f p)).trace h, active_elsewhere h.db h.device e.app = none := by
  intro e he
  unfold not_here at he
  rw [trace_ask_bind] at he
  rcases hplace : active_elsewhere h.db h.device id with _ | other
  · rw [hplace] at he
    rw [hp.app e he, hplace]
  · rw [hplace] at he
    cases he

/-- Without the question the app is used wherever it lives. -/
theorem ungated_respects {id : String} {p : Op Unit} {f : AppError → Error} {acts : Bool}
    (hp : Uses p h id acts) :
    (∀ e ∈ (map_err f p).trace h, active_elsewhere h.db h.device e.app = none) ↔
      (acts = true → active_elsewhere h.db h.device id = none) := by
  rw [trace_map_err]
  constructor
  · intro hall hacts
    obtain ⟨e, he⟩ := List.exists_mem_of_ne_nil _ (hp.acts.mpr hacts)
    rw [← hp.app e he]
    exact hall e he
  · intro hplace e he
    rw [hp.app e he]
    exact hplace (hp.acts.mp (List.ne_nil_of_mem he))

end Traces

theorem some_if_iff (P : String → Prop) (acts : Bool) (id : String) :
    (∀ app, (if acts = true then some id else none) = some app → P app) ↔ (acts = true → P id) := by
  cases acts <;> simp

theorem broker_respects {h : Home} (op : String) (payload : Bytes) :
    (∀ e ∈ (broker_handle c op payload).trace h, active_elsewhere h.db h.device e.app = none) ↔
      ∀ id, broker_acts c h op payload = some id → active_elsewhere h.db h.device id = none := by
  unfold broker_handle
  split
  · refine iff_of_true ?_ (by rintro _ ⟨⟩)
    rw [trace_demand_bind]
    rcases c.app_args payload with e | ⟨id, args⟩
    · simp [Except.mapError]
    · exact not_here_respects (run_logged_uses id)
  · rw [trace_demand_bind]
    unfold broker_acts
    dsimp only
    rcases c.app_args payload with e | ⟨id, args⟩
    · simp [Except.mapError]
    · exact (ungated_respects (app_serve_uses id args)).trans
        (some_if_iff (fun app => active_elsewhere h.db h.device app = none) _ id).symm
  · rename_i hserve
    refine iff_of_true (by rintro _ ⟨⟩) ?_
    intro id hid
    unfold broker_acts at hid
    split at hid
    · exact absurd rfl hserve
    · cases hid

theorem guest_respects {h : Home} (op id : String) (args : List String) :
    (∀ e ∈ (guest_handler c op id args).trace h, active_elsewhere h.db h.device e.app = none) ↔
      (guest_acts c h op id args = true → active_elsewhere h.db h.device id = none) := by
  unfold guest_handler
  split
  · exact ungated_respects (run_logged_uses id)
  · exact ungated_respects (app_serve_uses id args)
  · refine iff_of_true (fun e he => (app_read_uses_nothing id args h e he).elim) ?_
    rintro ⟨⟩
  · exact ungated_respects (app_write_uses id args)
  · rename_i hrun hserve hread hwrite
    refine iff_of_true (by rintro _ ⟨⟩) ?_
    intro hacts
    unfold guest_acts at hacts
    split at hacts
    · exact absurd rfl hrun
    · exact absurd rfl hserve
    · exact absurd rfl hwrite
    · cases hacts

end Ops

/-! ## A guest and an app that moved away -/

def demo_host : Host where
  sha256 := demo_sha256
  toml := demo_toml_of "files/"
  installed_dir _ := []
  instantiate _ := .ok ()
  finish _ := .ok ()
  base64 text := .ok (utf8 text)
  app_args _ := .error "no JSON"
  serve_request _ := .error "no JSON"
  to_json _ := ""
  other_op _ _ := .ok ()

/-- The app is installed on the laptop, and its row names the phone. -/
def moved_home : Home where
  device := ⟨"laptop"⟩
  db :=
    { Db.fresh [] with
      apps := AList.singleton "demo"
        { name := "Demo", version := "1.0.0", runtime := "wasm", updated_at := 1, deleted := false,
          active_device := some "phone" } }
  apps id := if id = "demo" then some (run.installed "files/") else none

end pai_cli
