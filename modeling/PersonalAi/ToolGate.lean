-- The agent runtime's gate (pai-agent, lib.rs): each way to a tool goes through
-- a schema check, the policies, maybe the user, and the audit trail.
import PersonalAi.Lib.Program
import PersonalAi.Tools

open pai_core pai_permissions pai_tools program json

namespace pai_agent

/-! ## What the outside sees -/

/-- What a run tells its caller while it goes on. -/
inductive AgentEvent
  | RunStarted (run : AgentRunId)
  | Step (index : Nat)
  | ToolCallRequested (call : ToolCallId) (tool risk : String)
  | ApprovalNeeded (call : ToolCallId) (tool summary : String) (permissions : List String)
  | ToolExecuted (call : ToolCallId) (tool summary : String)
  | ToolDenied (call : ToolCallId) (tool : String)
  | TextDelta (text : String)
  | Done (run : AgentRunId) (state : RunState) (answer : Option String)
deriving Repr

structure ToolSpec where
  name : String
  description : String
  input_schema : Value
deriving Repr

/-- A request to a model. -/
structure AIRequest where
  messages : List Message
  tools : List ToolSpec
  model : Option String
  require_structured : Bool
  system : Option String
deriving Repr

/-- A write to the stores of conversations and runs. -/
inductive StoreOp
  | begin (run : AgentRun) (input : String)
  | checkpoint (run : AgentRun) (step : Nat) (messages : List Message)
  | finish (run : AgentRun)
  | append (message : Message)
  | set_title_if_empty (conversation : ConversationId) (title : String)
deriving Repr

/-- Who decided on a tool call. The gate does not look at it: only the trace
keeps it. -/
inductive Chooser
  | model | fast_path | workflow
deriving DecidableEq, Repr

/-- The events of a run, in their order. A policy decision stands with the table
it read. -/
inductive Event
  | emit (e : AgentEvent)
  | audit (e : AuditEvent)
  | store (op : StoreOp)
  | generate (req : AIRequest)
  | validate (schema arguments : Value)
  | decide (table : PolicyTable) (permissions : List Permission)
  | approval (req : ApprovalRequest) (granted : Bool)
  | execute (chosen_by : Chooser) (name : String) (arguments : Value)

/-! ## The runtime -/

inductive ModelAction
  | ToolCall (name : String) (arguments : Value)
  | Final (content : String)
deriving Repr

structure GenerateResponse where
  text : String
  action : Option ModelAction
deriving Repr

inductive StreamEvent
  | Delta (text : String)
  | Done (response : GenerateResponse)
  | Error (msg : String)
deriving Repr

variable {W : Type}

/-- A model behind its provider. A stream is what arrives until it ends, or
until the time for the step is over: then the flag is set. -/
structure InferenceProvider (W : Type) where
  generate : AIRequest → W → Except Error GenerateResponse × W
  stream : AIRequest → W → (List (Except Error StreamEvent) × Bool) × W

inductive MemoryScopeQuery
  | All
  | GlobalOnly
  | Scoped (conversation : ConversationId) (include_global : Bool)
deriving DecidableEq, Repr

structure RecallQuery where
  text : Option String
  scopes : List MemoryScope
  limit : Nat
  memory_scope : MemoryScopeQuery
deriving Repr

/-- A recalled memory, as far as the prompt shows it. -/
structure MemoryItem where
  source : MemorySource
  content : String
deriving Repr

/-- The stores of conversations and runs. -/
structure Persistence (W : Type) where
  write : StoreOp → W → W
  load : AgentRunId → W → Except Error (AgentRun × Nat × List Message × String) × W
  memory_of : ConversationId → W → Option MemoryIsolation

structure AgentRuntime (W : Type) where
  providers : String → Option (InferenceProvider W)
  tools : ToolRegistry W
  permissions : W → PolicyTable
  memory_recall : RecallQuery → W → Except Error (List MemoryItem) × W
  record : AuditEvent → W → Except Error Unit × W
  max_steps : Nat
  device : DeviceId
  persistence : Option (Persistence W)
  allowed_roots : List String
  new_id : W → String × W
  now : W → Timestamp × W

/-- The handlers that the caller of a run supplies. -/
structure Caller (W : Type) where
  approval : ApprovalRequest → W → Bool × W
  emit : AgentEvent → W → W
  cancelled : W → Bool

structure AgentDefinition where
  name : String
  description : String
  purpose : String
  tools : List String
  memory_scopes : List MemoryScope
  provider : String
  model : Option String
deriving Repr

/-- The allowlist of a definition lets a tool through. -/
def AgentDefinition.allows (d : AgentDefinition) (name : String) : Bool :=
  d.tools.isEmpty || d.tools.any (fun t => t == name)

abbrev Action (W α : Type) := Prog W Event Error α

def emit (c : Caller W) (e : AgentEvent) : Action W Unit :=
  observe (fun w => ((), c.emit e w)) (fun _ => .emit e)

/-- The audit entry of a run. -/
def AgentRuntime.entry (rt : AgentRuntime W) (run : AgentRun) (kind : AuditKind)
    (outcome : AuditOutcome) (tool : Option String) (detail : Value) : AuditEvent :=
  { device := some rt.device, agent := some run.agent, run := some run.id,
    conversation := run.conversation, kind := kind, tool := tool, detail := detail,
    outcome := outcome }

/-- A failure of the audit log is reported and dropped. -/
def AgentRuntime.audit (rt : AgentRuntime W) (run : AgentRun) (kind : AuditKind)
    (outcome : AuditOutcome) (tool : Option String) (detail : Value) : Action W Unit :=
  observe (fun w => ((), (rt.record (rt.entry run kind outcome tool detail) w).2))
    (fun _ => .audit (rt.entry run kind outcome tool detail))

def AgentRuntime.audit_error (rt : AgentRuntime W) (run : AgentRun) (e : Error) : Action W Unit :=
  rt.audit run .ToolExecuted .Error none (.object [("provider_error", .string e.to_string)])

/-- A write to a store; its failure is dropped. -/
def Persistence.store (p : Persistence W) (op : StoreOp) : Action W Unit :=
  observe (fun w => ((), p.write op w)) (fun _ => .store op)

def AgentRuntime.new_message (rt : AgentRuntime W) (conversation : ConversationId) (role : Role)
    (content : List Content) (trust : TrustLevel) : Action W Message := do
  let id ← draw rt.new_id
  let created_at ← draw rt.now
  return { id := ⟨id⟩, conversation := conversation, role := role, created_at := created_at,
           content := content, trust := trust }

/-- The message that a model observes. Tool output is never trusted. -/
def AgentRuntime.tool_result_msg (rt : AgentRuntime W) (conv : ConversationId) (call : ToolCallId)
    (tool : String) (output : Value) (is_error : Bool) : Action W Message :=
  rt.new_message conv .Tool [.ToolResult call tool output is_error] .Untrusted

def error_value (text : String) : Value := .object [("error", .string text)]

def reason_value (text : String) : Value := .object [("reason", .string text)]

/-! ## The parts of both gates -/

/-- `validate_args`, as a step that the trace shows. -/
def validate_step (schema arguments : Value) : Action W (Except Error Unit) :=
  observe (fun w => (validate_args schema arguments, w)) (fun _ => .validate schema arguments)

/-- `PolicyEngine::decide`, over the table that its lock guards at this moment. -/
def AgentRuntime.decide (rt : AgentRuntime W) (permissions : List Permission) :
    Action W PolicyTable :=
  observe (fun w => (rt.permissions w, w)) (fun table => .decide table permissions)

def approval_request (call : ToolCallId) (name : String) (desc : ToolDescriptor)
    (arguments : Value) : ApprovalRequest :=
  { id := call, tool := name, permissions := desc.required_permissions,
    summary := name ++ " " ++ arguments.to_string, risk := desc.risk }

def ask_approval (c : Caller W) (req : ApprovalRequest) : Action W Bool :=
  observe (c.approval req) (fun granted => .approval req granted)

def AgentRuntime.tool_context (rt : AgentRuntime W) (run : AgentRun)
    (memory_scope : Option ConversationId) : ToolContext :=
  { run := run.id, device := rt.device, memory_scope := memory_scope,
    allowed_roots := rt.allowed_roots }

/-- The call of `Tool::execute`. -/
def run_tool (tool : Tool W) (chosen_by : Chooser) (name : String) (arguments : Value)
    (ctx : ToolContext) : Action W (Except Error ToolOutput) :=
  observe (tool.execute arguments ctx) (fun _ => .execute chosen_by name arguments)

def granted_value (granted : Bool) : Value := .object [("granted", .bool granted)]

def granted_outcome (granted : Bool) : AuditOutcome := if granted then .Ok else .Denied

/-! ## The gate of the model loop and the fast path -/

structure ToolInvocation where
  definition : AgentDefinition
  run : AgentRun
  call_id : ToolCallId
  name : String
  arguments : Value
  conv : ConversationId
  memory_scope : Option ConversationId
  chosen_by : Chooser
deriving Repr

/-- The audit entries that a call of a memory tool leaves besides its own. -/
def AgentRuntime.audit_memory (rt : AgentRuntime W) (run : AgentRun) (name : String)
    (value : Value) : Action W Unit :=
  if name = "memory.remember" then rt.audit run .MemoryWritten .Ok (some name) value
  else doWhen (name = "memory.forget") (rt.audit run .MemoryDeleted .Ok (some name) value)

/-- The outcome of a tool becomes an audit entry and the observed message. -/
def AgentRuntime.observe_outcome (rt : AgentRuntime W) (c : Caller W) (t : ToolInvocation) :
    Except Error ToolOutput → Action W Message
  | .ok out => do
    rt.audit t.run .ToolExecuted .Ok (some t.name) (.object [("summary", .string out.summary)])
    rt.audit_memory t.run t.name out.value
    emit c (.ToolExecuted t.call_id t.name out.summary)
    rt.tool_result_msg t.conv t.call_id t.name out.value false
  | .error e => do
    rt.audit t.run .ToolExecuted .Error (some t.name) (error_value e.to_string)
    rt.tool_result_msg t.conv t.call_id t.name (error_value e.to_string) true

/-- The end of `execute_tool`: the tool is allowed and runs. -/
def AgentRuntime.execute_allowed (rt : AgentRuntime W) (c : Caller W) (t : ToolInvocation)
    (tool : Tool W) : Action W Message := do
  rt.audit t.run .ToolAllowed .Ok (some t.name) (.object [])
  let out ← run_tool tool t.chosen_by t.name t.arguments (rt.tool_context t.run t.memory_scope)
  rt.observe_outcome c t out

/-- The refusal of `execute_tool` after a decision. -/
def AgentRuntime.refuse (rt : AgentRuntime W) (c : Caller W) (t : ToolInvocation) (text : String) :
    Action W Message := do
  emit c (.ToolDenied t.call_id t.name)
  rt.tool_result_msg t.conv t.call_id t.name (error_value text) true

/-- The permission gate of `execute_tool`, and what follows it. -/
def AgentRuntime.permission_gate (rt : AgentRuntime W) (c : Caller W) (t : ToolInvocation)
    (tool : Tool W) : Action W Message := do
  let table ← rt.decide tool.descriptor.required_permissions
  match table.decide tool.descriptor.required_permissions with
  | .Deny =>
    rt.audit t.run .ToolDenied .Denied (some t.name) (.object [])
    rt.refuse c t "permission denied by policy"
  | .AskUser =>
    let req := approval_request t.call_id t.name tool.descriptor t.arguments
    rt.audit t.run .ApprovalRequested .Ok (some t.name) (.object [])
    emit c (.ApprovalNeeded t.call_id t.name req.summary (req.permissions.map Permission.debug))
    let granted ← ask_approval c req
    rt.audit t.run .ApprovalResolved (granted_outcome granted) (some t.name)
      (granted_value granted)
    if granted then rt.execute_allowed c t tool else rt.refuse c t "user denied approval"
  | .Allow => rt.execute_allowed c t tool

/-- `execute_tool` for a tool of the registry. -/
def AgentRuntime.execute_registered (rt : AgentRuntime W) (c : Caller W) (t : ToolInvocation)
    (tool : Tool W) : Action W Message := do
  emit c (.ToolCallRequested t.call_id t.name tool.descriptor.risk.debug)
  rt.audit t.run .ToolRequested .Ok (some t.name) (.object [("arguments", t.arguments)])
  let checked ← validate_step tool.descriptor.input_schema t.arguments
  match checked with
  | .error e =>
    rt.audit t.run .ToolDenied .Error (some t.name) (reason_value e.to_string)
    rt.tool_result_msg t.conv t.call_id t.name (error_value e.to_string) true
  | .ok () => rt.permission_gate c t tool

/-- Allowlist, registry, schema, policies, maybe the user, then the tool. The
outcome is always a message for the model. -/
def AgentRuntime.execute_tool (rt : AgentRuntime W) (c : Caller W) (t : ToolInvocation) :
    Action W Message :=
  if ¬ t.definition.allows t.name then do
    rt.audit t.run .ToolDenied .Denied (some t.name)
      (reason_value "not in agent's tool allowlist")
    rt.tool_result_msg t.conv t.call_id t.name
      (error_value "tool not in this agent's allowlist") true
  else
    match rt.tools.get t.name with
    | none => do
      rt.audit t.run .ToolDenied .Denied (some t.name) (reason_value "unknown tool")
      rt.tool_result_msg t.conv t.call_id t.name (error_value "unknown tool") true
    | some tool => rt.execute_registered c t tool

/-! ## The gate of workflow steps -/

/-- The outcome of a tool becomes an audit entry and the result. -/
def AgentRuntime.return_outcome (rt : AgentRuntime W) (run : AgentRun) (name : String) :
    Except Error ToolOutput → Action W ToolOutput
  | .error e => do
    rt.audit_error run e
    fail e
  | .ok out => do
    rt.audit run .ToolExecuted .Ok (some name) (.object [("summary", .string out.summary)])
    return out

/-- The end of `invoke_tool`: the tool is allowed and runs. -/
def AgentRuntime.invoke_allowed (rt : AgentRuntime W) (run : AgentRun) (tool : Tool W)
    (name : String) (arguments : Value) : Action W ToolOutput := do
  rt.audit run .ToolAllowed .Ok (some name) (.object [])
  let out ← run_tool tool .workflow name arguments (rt.tool_context run run.conversation)
  rt.return_outcome run name out

/-- The permission gate of `invoke_tool`, and what follows it. -/
def AgentRuntime.invoke_gate (rt : AgentRuntime W) (c : Caller W) (run : AgentRun)
    (tool : Tool W) (name : String) (arguments : Value) : Action W ToolOutput := do
  let table ← rt.decide tool.descriptor.required_permissions
  match table.decide tool.descriptor.required_permissions with
  | .Deny =>
    rt.audit run .ToolDenied .Denied (some name) (.object [])
    fail (.PermissionDenied (name ++ " denied by policy"))
  | .AskUser =>
    let call ← draw rt.new_id
    rt.audit run .ApprovalRequested .Ok (some name) (.object [])
    let granted ← ask_approval c (approval_request ⟨call⟩ name tool.descriptor arguments)
    rt.audit run .ApprovalResolved (granted_outcome granted) (some name) (granted_value granted)
    if granted then rt.invoke_allowed run tool name arguments
    else fail (.PermissionDenied (name ++ " denied by user"))
  | .Allow => rt.invoke_allowed run tool name arguments

/-- A tool call outside the model loop: the same gate, and errors in the place
of messages. -/
def AgentRuntime.invoke_tool (rt : AgentRuntime W) (c : Caller W) (run : AgentRun)
    (name : String) (arguments : Value) : Action W ToolOutput :=
  match rt.tools.get name with
  | none => fail (.InvalidInput ("unknown tool " ++ name))
  | some tool => do
    rt.audit run .ToolRequested .Ok (some name) (.object [("arguments", arguments)])
    let checked ← validate_step tool.descriptor.input_schema arguments
    match checked with
    | .error e => do
      rt.audit run .ToolDenied .Error (some name) (reason_value e.to_string)
      fail e
    | .ok () => rt.invoke_gate c run tool name arguments

end pai_agent
