-- A whole run of the agent (pai-agent, lib.rs): fresh or resumed, by the fast
-- path or through the model loop.
import PersonalAi.FastPath

open pai_core pai_permissions pai_tools program json
open pai_agent.fastpath (FastIntent fast_path)

namespace pai_agent

variable {W : Type}

/-- What is fixed for every run: the platform of the build, and the functions
that read texts. The results about the gate hold for all of them. -/
structure Host where
  windows : Bool
  classify : String → Option FastIntent
  model_text : ModelText

structure RunRequest where
  definition : AgentDefinition
  history : List Message
  input : String
  conversation : Option ConversationId
  stream : Bool
  resume_from : Option AgentRunId

/-- The memories that a run may see. -/
def AgentRuntime.memory_query (rt : AgentRuntime W) (conversation : Option ConversationId)
    (w : W) : MemoryScopeQuery :=
  match conversation with
  | none => .GlobalOnly
  | some c =>
    let isolated := (rt.persistence.bind (fun p => p.memory_of c w)) = some .Isolated
    .Scoped c (!isolated)

/-- The conversation that an isolated run tags its memories with. -/
def isolated_scope : MemoryScopeQuery → Option ConversationId
  | .Scoped c false => some c
  | _ => none

def memory_line (item : MemoryItem) : String :=
  let tag := match item.source with
    | .UserStated => "memory"
    | _ => "memory (AI-inferred, unverified)"
  "[" ++ tag ++ "] " ++ item.content

/-- The message that brings recalled memories into the prompt. -/
def AgentRuntime.recalled (rt : AgentRuntime W) (d : AgentDefinition) (user_text : String)
    (query : MemoryScopeQuery) : Action W (List Message) :=
  if user_text = "" then pure []
  else do
    let items ← draw (rt.memory_recall
      { text := some user_text, scopes := d.memory_scopes, limit := 8, memory_scope := query })
    match items with
    | .error _ => return []
    | .ok [] => return []
    | .ok (item :: rest) => do
      let conv ← draw rt.new_id
      let msg ← rt.new_message ⟨conv⟩ .System
        [.Text ("Relevant memories:\n" ++ "\n".intercalate ((item :: rest).map memory_line))]
        .Generated
      return [msg]

def AgentRuntime.build_request (rt : AgentRuntime W) (d : AgentDefinition)
    (history : List Message) (user_text : String) (query : MemoryScopeQuery) :
    Action W (List Message) := do
  let recalled ← rt.recalled d user_text query
  return recalled ++ history

def AgentRuntime.tool_specs (rt : AgentRuntime W) (d : AgentDefinition) : List ToolSpec :=
  (rt.tools.descriptors.filter (fun desc => d.allows desc.name)).map
    (fun desc => { name := desc.name, description := desc.description,
                   input_schema := desc.input_schema })

def model_value (d : AgentDefinition) : Value :=
  match d.model with
  | none => .null
  | some m => .string m

/-- Where a run stands before its first step. -/
structure Prepared where
  run : AgentRun
  messages : List Message
  step : Nat

/-- A run that goes on from its checkpoint. -/
def AgentRuntime.resume (rt : AgentRuntime W) (c : Caller W) (d : AgentDefinition)
    (rid : AgentRunId) : Action W Prepared :=
  match rt.persistence with
  | none => fail (.InvalidInput "resume requires persistence")
  | some p => do
    let (r, step, msgs, _) ← consult (p.load rid)
    let r := { r with state := .Running }
    emit c (.RunStarted r.id)
    rt.audit r .RunStarted .Ok none
      (.object [("model", model_value d), ("provider", .string d.provider),
        ("resumed", .bool true)])
    return { run := r, messages := msgs, step := step }

/-- A conversation id, a new one where none is given. -/
def AgentRuntime.conv_or_new (rt : AgentRuntime W) (conversation : Option ConversationId) :
    Action W ConversationId :=
  match conversation with
  | some c => pure c
  | none => do
    let id ← draw rt.new_id
    return ⟨id⟩

def AgentRuntime.begin_run (rt : AgentRuntime W) (c : Caller W) (q : RunRequest) :
    Action W Prepared := do
  let id ← draw rt.new_id
  let agent ← draw rt.new_id
  let started_at ← draw rt.now
  let run : AgentRun :=
    { id := ⟨id⟩, agent := ⟨agent⟩, conversation := q.conversation, started_at := started_at,
      ended_at := none, state := .Running }
  emit c (.RunStarted run.id)
  rt.audit run .RunStarted .Ok none
    (.object [("model", model_value q.definition), ("provider", .string q.definition.provider)])
  rt.store (.begin run q.input)
  let conv ← rt.conv_or_new q.conversation
  let query ← ask (rt.memory_query q.conversation)
  let messages ← rt.build_request q.definition q.history q.input query
  let user_msg ← rt.new_message conv .User [.Text q.input] .User
  doWhen q.conversation.isSome (do
    rt.store (.append user_msg)
    rt.store (.set_title_if_empty conv q.input))
  return { run := run, messages := messages ++ [user_msg], step := 0 }

/-- A fresh run, or one that goes on: both come to a first step. -/
def AgentRuntime.prepare (rt : AgentRuntime W) (c : Caller W) (q : RunRequest) :
    Action W Prepared :=
  match q.resume_from with
  | some rid => rt.resume c q.definition rid
  | none => rt.begin_run c q

/-- The intent that a fresh run carries out without the model. -/
def Host.intent (h : Host) (q : RunRequest) (cancelled : Bool) : Option FastIntent :=
  if q.resume_from.isNone ∧ q.input ≠ "" ∧ ¬ cancelled then h.classify q.input else none

def AgentRuntime.run (h : Host) (rt : AgentRuntime W) (c : Caller W) (q : RunRequest) :
    Action W RunOutcome :=
  match rt.providers q.definition.provider with
  | none => fail (.Provider ("no provider '" ++ q.definition.provider ++ "'"))
  | some provider => do
    let s ← rt.prepare c q
    let conv ← rt.conv_or_new s.run.conversation
    let query ← ask (rt.memory_query s.run.conversation)
    let cancelled ← ask c.cancelled
    match h.intent q cancelled with
    | some intent =>
      fast_path h.windows rt c
        { definition := q.definition, run := s.run, conv := conv,
          mem_scope := isolated_scope query, provider := provider } intent
    | none =>
      rt.run_loop c h.model_text
        { definition := q.definition, run := s.run, conv := conv,
          mem_scope := isolated_scope query, provider := provider,
          tools := rt.tool_specs q.definition, stream := q.stream }
        (rt.max_steps - s.step) s.step { messages := s.messages, parse_retries := 1 }

end pai_agent
