-- The model loop of the agent runtime: one step asks the model, reads its
-- action, and ends the run or passes a tool call to the gate.
import PersonalAi.ToolGate

open pai_core pai_permissions pai_tools program json

namespace pai_agent

variable {W : Type}

/-- How the text of a model is read. `push` is what the decoder of streamed
answers gives for a chunk after the chunks before it. No result about the gate
rests on these, so they can be any functions. -/
structure ModelText where
  parse_action : String → Option ModelAction
  looks_like_tool_attempt : String → List ToolSpec → Bool
  push : List String → String → Option String

def run_state_name : RunState → String
  | .Running => "running"
  | .AwaitingApproval => "awaiting_approval"
  | .Completed => "completed"
  | .Failed => "failed"
  | .Cancelled => "cancelled"
  | .TimedOut => "timed_out"

structure RunOutcome where
  run : AgentRun
  answer : Option String
deriving Repr

/-- The events of the stores, where stores are wired. -/
def AgentRuntime.store (rt : AgentRuntime W) (op : StoreOp) : Action W Unit :=
  match rt.persistence with
  | none => pure ()
  | some p => p.store op

/-- A message of a run that belongs to a conversation lands in its transcript. -/
def AgentRuntime.persist_msg (rt : AgentRuntime W) (run : AgentRun) (msg : Message) :
    Action W Unit :=
  doWhen run.conversation.isSome (rt.store (.append msg))

def finish_outcome : RunState → AuditOutcome
  | .Cancelled => .Cancelled
  | .Completed => .Ok
  | _ => .Error

/-- The bookkeeping at the end of a run. -/
def AgentRuntime.finish_run (rt : AgentRuntime W) (c : Caller W) (run : AgentRun)
    (answer : Option String) (state : RunState) : Action W RunOutcome := do
  let ended_at ← draw rt.now
  let run := { run with state := state, ended_at := some ended_at }
  rt.audit run .RunFinished (finish_outcome state) none
    (.object [("state", .string (run_state_name state))])
  rt.store (.finish run)
  emit c (.Done run.id state answer)
  return { run := run, answer := answer }

/-! ## One answer of the model -/

/-- Reads a stream up to its answer, and passes the text of a final answer on.
The flag says whether any text was passed on. -/
def consume (c : Caller W) (mt : ModelText) :
    List String → Bool → List (Except Error StreamEvent) →
      Action W (Except Error (Option GenerateResponse) × Bool)
  | _, streamed, [] => pure (.ok none, streamed)
  | _, streamed, .error e :: _ => pure (.error e, streamed)
  | _, streamed, .ok (.Error e) :: _ => pure (.error (.Provider e), streamed)
  | _, streamed, .ok (.Done r) :: _ => pure (.ok (some r), streamed)
  | seen, streamed, .ok (.Delta d) :: rest =>
    match mt.push seen d with
    | none => consume c mt (seen ++ [d]) streamed rest
    | some t =>
      if t = "" then consume c mt (seen ++ [d]) streamed rest
      else do
        emit c (.TextDelta t)
        consume c mt (seen ++ [d]) true rest

def stream_result (timed_out : Bool) :
    Except Error (Option GenerateResponse) × Bool → Except Error (GenerateResponse × Bool)
  | (.error e, _) => .error e
  | (.ok (some r), streamed) => .ok (r, streamed)
  | (.ok none, _) =>
    if timed_out then .error .Timeout else .error (.Provider "stream ended without Done")

/-- One call of the model. -/
def generate_step (c : Caller W) (mt : ModelText) (provider : InferenceProvider W)
    (req : AIRequest) (stream : Bool) : Action W (Except Error (GenerateResponse × Bool)) :=
  if stream then do
    let (items, timed_out) ← observe (provider.stream req) (fun _ => .generate req)
    let result ← consume c mt [] false items
    return stream_result timed_out result
  else do
    let result ← observe (provider.generate req) (fun _ => .generate req)
    return result.map (fun r => (r, false))

/-- The action of an answer; an answer without one is final. -/
def dispatch (mt : ModelText) (resp : GenerateResponse) : ModelAction :=
  ((resp.action.orElse (fun _ => mt.parse_action resp.text))).getD (.Final resp.text)

/-! ## The loop -/

def PROTOCOL_CORRECTION : String :=
  "Your previous reply was not valid protocol JSON. Respond with ONLY one JSON object — " ++
    "\x7b\"type\":\"tool_call\",\"name\":\"<tool>\",\"arguments\":\x7b...\x7d\x7d to call " ++
    "a tool, or \x7b\"type\":\"final\",\"content\":\"<answer>\"\x7d for a final " ++
    "answer. No other text."

/-- What stays the same during the loop of a run. -/
structure LoopContext (W : Type) where
  definition : AgentDefinition
  run : AgentRun
  conv : ConversationId
  mem_scope : Option ConversationId
  provider : InferenceProvider W
  tools : List ToolSpec
  stream : Bool

/-- What a step of the loop leaves for the next one. -/
structure LoopState where
  messages : List Message
  parse_retries : Nat

inductive Turn
  | finished (outcome : RunOutcome)
  | next (s : LoopState)

def LoopContext.request (x : LoopContext W) (messages : List Message) : AIRequest :=
  { messages := messages, tools := x.tools, model := x.definition.model,
    require_structured := true, system := none }

/-- The answer of a step, with the state of the loop after it. -/
structure Answered where
  resp : GenerateResponse
  streamed : Bool
  corrected : Bool
  state : LoopState

/-- An answer that looks like a broken tool call gets one more round, with the
protocol restated. -/
def AgentRuntime.correct (rt : AgentRuntime W) (c : Caller W) (mt : ModelText)
    (x : LoopContext W) (s : LoopState) (resp : GenerateResponse) (streamed : Bool) :
    Action W Answered :=
  if 0 < s.parse_retries ∧ resp.action.isNone ∧ (mt.parse_action resp.text).isNone ∧
      mt.looks_like_tool_attempt resp.text x.tools then do
    let correction ← rt.new_message x.conv .System [.Text PROTOCOL_CORRECTION] .Policy
    let s : LoopState :=
      { messages := s.messages ++ [correction], parse_retries := s.parse_retries - 1 }
    let retry ← generate_step c mt x.provider (x.request s.messages) x.stream
    match retry with
    | .ok (r2, s2) =>
      return { resp := r2, streamed := streamed || s2, corrected := true, state := s }
    | .error _ => return { resp := resp, streamed := streamed, corrected := false, state := s }
  else return { resp := resp, streamed := streamed, corrected := false, state := s }

def action_value : Option ModelAction → Value
  | some (.ToolCall name _) => .object [("tool", .string name), ("type", .string "tool_call")]
  | some (.Final _) => .object [("type", .string "final")]
  | none => .object [("type", .string "unparsed")]

/-- The end of a step: a final answer ends the run, a tool call goes to the
gate. -/
def AgentRuntime.act (rt : AgentRuntime W) (c : Caller W) (mt : ModelText) (x : LoopContext W)
    (a : Answered) : Action W Turn :=
  match dispatch mt a.resp with
  | .Final text => do
    let msg ← rt.new_message x.conv .Assistant [.Text text] .Generated
    rt.persist_msg x.run msg
    doWhen (!a.streamed) (emit c (.TextDelta text))
    let outcome ← rt.finish_run c x.run (some text) .Completed
    return .finished outcome
  | .ToolCall name arguments => do
    let call ← draw rt.new_id
    let msg ← rt.execute_tool c
      { definition := x.definition, run := x.run, call_id := ⟨call⟩, name := name,
        arguments := arguments, conv := x.conv, memory_scope := x.mem_scope, chosen_by := .model }
    rt.persist_msg x.run msg
    return .next { a.state with messages := a.state.messages ++ [msg] }

def failed_state (e : Error) : RunState := if e = .Timeout then .TimedOut else .Failed

/-- One step of the loop. -/
def AgentRuntime.turn (rt : AgentRuntime W) (c : Caller W) (mt : ModelText) (x : LoopContext W)
    (step : Nat) (s : LoopState) : Action W Turn := do
  let cancelled ← ask c.cancelled
  if cancelled then do
    let outcome ← rt.finish_run c x.run none .Cancelled
    return .finished outcome
  else do
    emit c (.Step step)
    rt.store (.checkpoint x.run step s.messages)
    let answer ← generate_step c mt x.provider (x.request s.messages) x.stream
    match answer with
    | .error e => do
      rt.audit_error x.run e
      let _ ← rt.finish_run c x.run none (failed_state e)
      fail e
    | .ok (resp, streamed) => do
      let a ← rt.correct c mt x s resp streamed
      rt.audit x.run .ModelResponded .Ok none
        (.object [("action", action_value a.resp.action), ("corrected", .bool a.corrected),
          ("step", .number (.PosInt step))])
      rt.act c mt x a

/-- The loop, with the number of steps that `max_steps` leaves. -/
def AgentRuntime.run_loop (rt : AgentRuntime W) (c : Caller W) (mt : ModelText)
    (x : LoopContext W) : Nat → Nat → LoopState → Action W RunOutcome
  | 0, _, _ => do
    let _ ← rt.finish_run c x.run none .Failed
    fail (.Other "max agent steps exceeded")
  | left + 1, step, s => do
    let t ← rt.turn c mt x step s
    match t with
    | .finished outcome => return outcome
    | .next s => rt.run_loop c mt x left (step + 1) s

end pai_agent
