-- Workflows (pai-workflows): declared steps over templates. A prompt step is a
-- run of the agent with narrowed tools, a tool step a direct call of the gate.
import PersonalAi.AgentRuns

open pai_core pai_agent pai_tools program json text

namespace pai_workflows

variable {W : Type}

/-! ## Definitions -/

inductive WorkflowStep
  | Prompt (id prompt : String)
  | Tool (id tool : String) (args : Value)
deriving Repr

def WorkflowStep.id : WorkflowStep → String
  | .Prompt id _ => id
  | .Tool id _ _ => id

structure WorkflowDefinition where
  name : String
  description : String
  tools : List String
  steps : List WorkflowStep
deriving Repr

def REF_OPEN : String := "\x7b\x7bsteps."

def REF_CLOSE : String := ".output\x7d\x7d"

/-- The scan for references to step outputs, with the number of characters left
of the opening it is in. -/
def scan_refs : Nat → List Char → List String
  | _, [] => []
  | skip + 1, _ :: rest => scan_refs skip rest
  | 0, c :: rest =>
    if REF_OPEN.toList.isPrefixOf (c :: rest) then
      match split_once_str REF_CLOSE.toList ((c :: rest).drop 8) with
      | some (ref, _) => String.ofList ref :: scan_refs 7 rest
      | none => scan_refs 7 rest
    else scan_refs 0 rest

def step_refs : WorkflowStep → List String
  | .Prompt _ prompt => scan_refs 0 prompt.toList
  | .Tool _ _ args => scan_refs 0 args.to_string.toList

/-- A reference to a step that has not run yet. -/
def forward_ref (d : WorkflowDefinition) (i : Nat) (step : WorkflowStep) : Option String :=
  (step_refs step).find? (fun ref =>
    match d.steps.findIdx? (fun s => s.id == ref) with
    | some j => decide (i ≤ j)
    | none => false)

def tool_allowed (d : WorkflowDefinition) : WorkflowStep → Except Error Unit
  | .Prompt _ _ => .ok ()
  | .Tool id tool _ =>
    if d.tools.any (fun t => t == tool) then .ok ()
    else .error (.PermissionDenied
      ("step " ++ id ++ " calls " ++ tool ++ " — not in the workflow's tool allowlist"))

/-- The checks on the steps from the `i`-th on. -/
def validate_steps (d : WorkflowDefinition) :
    Nat → List String → List WorkflowStep → Except Error Unit
  | _, _, [] => .ok ()
  | i, seen, s :: rest => do
    if s.id = "" ∨ s.id ∈ seen then
      throw (.InvalidInput ("duplicate or empty step id \"" ++ s.id ++ "\""))
    tool_allowed d s
    match forward_ref d i s with
    | some ref =>
      .error (.InvalidInput ("step " ++ s.id ++ " references " ++ ref ++ " before it has run"))
    | none => validate_steps d (i + 1) (s.id :: seen) rest

def WorkflowDefinition.validate (d : WorkflowDefinition) : Except Error Unit :=
  if trim d.name.toList = [] then .error (.InvalidInput "workflow needs a name")
  else if d.steps.isEmpty then .error (.InvalidInput "workflow needs at least one step")
  else validate_steps d 0 [] d.steps

/-! ## Templates -/

abbrev Outputs := List (String × Value)

/-- An insertion into the map of outputs, in the order of its keys. -/
def Outputs.insert (id : String) (v : Value) : Outputs → Outputs
  | [] => [(id, v)]
  | (k, u) :: rest =>
    if id = k then (id, v) :: rest
    else if id < k then (id, v) :: (k, u) :: rest
    else (k, u) :: Outputs.insert id v rest

def output_text (v : Value) : String := v.as_str.getD v.to_string

def render (template input : String) (outputs : Outputs) : String :=
  outputs.foldl (fun out e => replace out (REF_OPEN ++ e.1 ++ REF_CLOSE) (output_text e.2))
    (replace template "\x7b\x7binput\x7d\x7d" input)

mutual

/-- Renders every string of a template of arguments. -/
def render_args (input : String) (outputs : Outputs) : Value → Value
  | .string s => .string (render s input outputs)
  | .array xs => .array (render_items input outputs xs)
  | .object fields => .object (render_fields input outputs fields)
  | .null => .null
  | .bool b => .bool b
  | .number n => .number n

def render_items (input : String) (outputs : Outputs) : List Value → List Value
  | [] => []
  | x :: rest => render_args input outputs x :: render_items input outputs rest

def render_fields (input : String) (outputs : Outputs) :
    List (String × Value) → List (String × Value)
  | [] => []
  | (k, v) :: rest => (k, render_args input outputs v) :: render_fields input outputs rest

end

/-! ## The runner -/

structure WorkflowRow where
  id : String
  definition : WorkflowDefinition
deriving Repr

structure WorkflowRunRow where
  id : String
  workflow_id : String
  input : String
  status : String
  step_index : Nat
  outputs : Outputs
  error : Option String
deriving Repr

/-- The tables of workflows and of their runs. -/
structure WorkflowStore (W : Type) where
  start_run : String → String → W → Except Error String × W
  get_run : String → W → Except Error (Option WorkflowRunRow) × W
  get_workflow : String → W → Except Error (Option WorkflowRow) × W
  save_progress : String → Nat → Outputs → W → Except Error Unit × W
  finish_run : String → String → Option String → W → Except Error Unit × W

structure WorkflowRunner (W : Type) where
  host : Host
  agent : AgentRuntime W
  store : WorkflowStore W
  provider : String
  model : Option String

structure WorkflowOutcome where
  run : WorkflowRunRow
  output : Option Value
deriving Repr

/-- The tools of a prompt step. An empty list would mean every tool to the
agent, so a name that no tool has stands in its place. -/
def step_tools (d : WorkflowDefinition) : List String :=
  if d.tools.isEmpty then ["__no_tools__"] else d.tools

def step_definition (rn : WorkflowRunner W) (d : WorkflowDefinition) (id : String) :
    AgentDefinition :=
  { name := "wf:" ++ d.name ++ ":" ++ id, description := d.description,
    purpose := "workflow " ++ d.name ++ " step " ++ id, tools := step_tools d,
    memory_scopes := [], provider := rn.provider, model := rn.model }

/-- Nobody cancels the run of a step. -/
def uncancelled (c : Caller W) : Caller W := { c with cancelled := fun _ => false }

def run_prompt (rn : WorkflowRunner W) (c : Caller W) (d : WorkflowDefinition)
    (id prompt input : String) (outputs : Outputs) : Action W (Value × Value) := do
  let out ← rn.agent.run rn.host (uncancelled c)
    { definition := step_definition rn d id, history := [], input := render prompt input outputs,
      conversation := none, stream := false, resume_from := none }
  match out.answer with
  | none => fail (.Provider ("step " ++ id ++ " produced no answer"))
  | some answer => return (.string answer, .string answer)

def run_tool_step (rn : WorkflowRunner W) (c : Caller W) (audit_run : AgentRun)
    (tool : String) (args : Value) (input : String) (outputs : Outputs) :
    Action W (Value × Value) := do
  let out ← rn.agent.invoke_tool c audit_run tool (render_args input outputs args)
  return (.object [("summary", .string out.summary), ("value", out.value)], out.value)

/-- What a step puts among the outputs, and its own output. -/
def run_step (rn : WorkflowRunner W) (c : Caller W) (audit_run : AgentRun)
    (d : WorkflowDefinition) (input : String) (outputs : Outputs) :
    WorkflowStep → Action W (Value × Value)
  | .Prompt id prompt => run_prompt rn c d id prompt input outputs
  | .Tool _ tool args => run_tool_step rn c audit_run tool args input outputs

/-- The steps that are left, from the `i`-th on. -/
def run_steps (rn : WorkflowRunner W) (c : Caller W) (audit_run : AgentRun)
    (d : WorkflowDefinition) (run_id input : String) :
    Nat → Outputs → Option Value → List WorkflowStep → Action W (Option Value)
  | _, _, last, [] => pure last
  | i, outputs, _, s :: rest => do
    let (entry, output) ← run_step rn c audit_run d input outputs s
    let outputs := Outputs.insert s.id entry outputs
    consult (rn.store.save_progress run_id (i + 1) outputs)
    run_steps rn c audit_run d run_id input (i + 1) outputs (some output) rest

def get_run_or_fail (rn : WorkflowRunner W) (run_id : String) : Action W WorkflowRunRow := do
  let row ← consult (rn.store.get_run run_id)
  match row with
  | none => fail (.NotFound ("workflow run " ++ run_id))
  | some row => return row

/-- The synthetic run that the audit trail names for tool steps. -/
def new_audit_run (rt : AgentRuntime W) : Action W AgentRun := do
  let id ← draw rt.new_id
  let agent ← draw rt.new_id
  let started_at ← draw rt.now
  return { id := ⟨id⟩, agent := ⟨agent⟩, conversation := none, started_at := started_at,
           ended_at := none, state := .Running }

def drive (rn : WorkflowRunner W) (c : Caller W) (wf : WorkflowRow) (run_id input : String) :
    Action W WorkflowOutcome := do
  demand (fun _ => wf.definition.validate)
  let row ← get_run_or_fail rn run_id
  let audit_run ← new_audit_run rn.agent
  let result ← attempt (run_steps rn c audit_run wf.definition run_id input row.step_index
    row.outputs none (wf.definition.steps.drop row.step_index))
  match result with
  | .error e => do
    consult (rn.store.finish_run run_id "failed" (some e.to_string))
    fail e
  | .ok last => do
    consult (rn.store.finish_run run_id "done" none)
    let after ← consult (rn.store.get_run run_id)
    return { run := after.getD row, output := last }

/-- A fresh run of a workflow. -/
def WorkflowRunner.run (rn : WorkflowRunner W) (c : Caller W) (wf : WorkflowRow)
    (input : String) : Action W WorkflowOutcome := do
  let run_id ← consult (rn.store.start_run wf.id input)
  drive rn c wf run_id input

def workflow_of (rn : WorkflowRunner W) (workflow_id : String) : Action W WorkflowRow := do
  let wf ← consult (rn.store.get_workflow workflow_id)
  match wf with
  | none => fail (.NotFound ("workflow " ++ workflow_id))
  | some wf => return wf

/-- A run that goes on from its saved cursor. -/
def WorkflowRunner.resume (rn : WorkflowRunner W) (c : Caller W) (run_id : String) :
    Action W WorkflowOutcome := do
  let row ← get_run_or_fail rn run_id
  if row.status ≠ "running" then
    fail (.InvalidInput ("run " ++ run_id ++ " is " ++ row.status ++ " — only running runs resume"))
  else do
    let wf ← workflow_of rn row.workflow_id
    drive rn c wf run_id row.input

end pai_workflows
