-- Which events the parts of an agent run leave. Every part but the marks of a run
-- (its begin, its checkpoints, its model calls and its tools) is small talk, so a
-- property of events that small talk has is asked of the marks alone.
import PersonalAi.AgentRuns

open pai_core pai_permissions pai_tools program json
open pai_agent.fastpath

namespace pai_agent

variable {W α β : Type}

/-- Every event of the program has the property, whatever the world. -/
def Within (R : Event → Prop) (p : Action W α) : Prop := Emits (fun tr => ∀ e ∈ tr, R e) p

/-- Small talk has the property. -/
structure SmallTalk (R : Event → Prop) : Prop where
  emit : ∀ e, R (.emit e)
  audit : ∀ e, R (.audit e)
  append : ∀ m, R (.store (.append m))
  title : ∀ c t, R (.store (.set_title_if_empty c t))
  finish : ∀ r, R (.store (.finish r))
  validate : ∀ s a, R (.validate s a)
  decide : ∀ t p, R (.decide t p)
  approval : ∀ q g, R (.approval q g)

section
variable {R : Event → Prop}

theorem within_pure (a : α) : Within R (pure a : Action W α) := emits_pure (additive_forall R) a

theorem within_fail (e : Error) : Within R (fail e : Action W α) :=
  emits_fail (additive_forall R) e

theorem within_draw (f : W → α × W) : Within R (draw f) := emits_draw (additive_forall R) f

theorem within_ask (f : W → α) : Within R (ask f) := emits_ask (additive_forall R) f

theorem within_bind {p : Action W α} {f : α → Action W β} (hp : Within R p)
    (hf : ∀ a, Within R (f a)) : Within R (p >>= f) := emits_bind (additive_forall R) hp hf

theorem within_bind_gives {p : Action W α} {f : α → Action W β} (hp : Within R p)
    (hf : ∀ a, Gives p a → Within R (f a)) : Within R (p >>= f) :=
  emits_bind_gives (additive_forall R) hp hf

theorem within_when (b : Bool) {p : Action W Unit} (hp : Within R p) : Within R (doWhen b p) :=
  emits_when (additive_forall R) b hp

theorem within_observe {f : W → α × W} {e : α → Event} (h : ∀ a, R (e a)) :
    Within R (observe f e : Action W α) := by
  apply emits_observe
  intro a x hx
  rw [List.mem_singleton.mp hx]
  exact h a

theorem within_store {rt : AgentRuntime W} {op : StoreOp} (h : R (.store op)) :
    Within R (rt.store op) := by
  unfold AgentRuntime.store
  cases rt.persistence with
  | none => exact within_pure ()
  | some p => exact within_observe (fun _ => h)

theorem within_new_message (rt : AgentRuntime W) (conversation : ConversationId) (role : Role)
    (content : List Content) (trust : TrustLevel) :
    Within R (rt.new_message conversation role content trust) :=
  within_bind (within_draw _) (fun _ => within_bind (within_draw _) (fun _ => within_pure _))

theorem within_conv_or_new (rt : AgentRuntime W) (conversation : Option ConversationId) :
    Within R (rt.conv_or_new conversation) := by
  cases conversation with
  | none => exact within_bind (within_draw _) (fun _ => within_pure _)
  | some c => exact within_pure c

theorem within_build_request (rt : AgentRuntime W) (d : AgentDefinition) (history : List Message)
    (user_text : String) (query : MemoryScopeQuery) :
    Within R (rt.build_request d history user_text query) := by
  refine within_bind ?_ (fun _ => within_pure _)
  unfold AgentRuntime.recalled
  split
  · exact within_pure _
  · refine within_bind (within_draw _) (fun items => ?_)
    rcases items with e | _ | ⟨item, rest⟩
    · exact within_pure _
    · exact within_pure _
    · refine within_bind (within_draw _) (fun _ => ?_)
      exact within_bind (within_new_message rt _ _ _ _) (fun _ => within_pure _)

variable (hR : SmallTalk R)
include hR

theorem within_emit (c : Caller W) (e : AgentEvent) : Within R (emit c e) :=
  within_observe (fun _ => hR.emit e)

theorem within_audit (rt : AgentRuntime W) (run : AgentRun) (kind : AuditKind)
    (outcome : AuditOutcome) (tool : Option String) (detail : Value) :
    Within R (rt.audit run kind outcome tool detail) := within_observe (fun _ => hR.audit _)

theorem within_persist_msg (rt : AgentRuntime W) (run : AgentRun) (msg : Message) :
    Within R (rt.persist_msg run msg) := within_when _ (within_store (hR.append msg))

theorem within_refuse (rt : AgentRuntime W) (c : Caller W) (t : ToolInvocation) (text : String) :
    Within R (rt.refuse c t text) :=
  within_bind (within_emit hR c _) (fun _ => within_new_message rt _ _ _ _)

theorem within_audit_memory (rt : AgentRuntime W) (run : AgentRun) (name : String)
    (value : Value) : Within R (rt.audit_memory run name value) := by
  unfold AgentRuntime.audit_memory
  split
  · exact within_audit hR rt _ _ _ _ _
  · exact within_when _ (within_audit hR rt _ _ _ _ _)

theorem within_observe_outcome (rt : AgentRuntime W) (c : Caller W) (t : ToolInvocation)
    (out : Except Error ToolOutput) : Within R (rt.observe_outcome c t out) := by
  cases out with
  | ok out =>
    refine within_bind (within_audit hR rt _ _ _ _ _) (fun _ => ?_)
    refine within_bind (within_audit_memory hR rt _ _ _) (fun _ => ?_)
    exact within_bind (within_emit hR c _) (fun _ => within_new_message rt _ _ _ _)
  | error e =>
    exact within_bind (within_audit hR rt _ _ _ _ _) (fun _ => within_new_message rt _ _ _ _)

theorem within_finish_run (rt : AgentRuntime W) (c : Caller W) (run : AgentRun)
    (answer : Option String) (state : RunState) : Within R (rt.finish_run c run answer state) := by
  refine within_bind (within_draw _) (fun _ => ?_)
  refine within_bind (within_audit hR rt _ _ _ _ _) (fun _ => ?_)
  refine within_bind (within_store (hR.finish _)) (fun _ => ?_)
  exact within_bind (within_emit hR c _) (fun _ => within_pure _)

theorem within_consume (c : Caller W) (mt : ModelText) (items : List (Except Error StreamEvent))
    (seen : List String) (streamed : Bool) : Within R (consume c mt seen streamed items) := by
  induction items generalizing seen streamed with
  | nil => exact within_pure _
  | cons item rest ih =>
    rcases item with e | d | r | e
    · exact within_pure _
    · unfold consume
      split
      · exact ih _ _
      · split
        · exact ih _ _
        · exact within_bind (within_emit hR c _) (fun _ => ih _ _)
    · exact within_pure _
    · exact within_pure _

theorem within_generate_step (c : Caller W) (mt : ModelText) (provider : InferenceProvider W)
    {req : AIRequest} (stream : Bool) (hreq : R (.generate req)) :
    Within R (generate_step c mt provider req stream) := by
  cases stream with
  | true =>
    refine within_bind (within_observe (fun _ => hreq)) (fun _ => ?_)
    exact within_bind (within_consume hR c mt _ _ _) (fun _ => within_pure _)
  | false => exact within_bind (within_observe (fun _ => hreq)) (fun _ => within_pure _)

theorem within_execute_tool (rt : AgentRuntime W) (c : Caller W) (t : ToolInvocation)
    (hexec : R (.execute t.chosen_by t.name t.arguments)) : Within R (rt.execute_tool c t) := by
  have hrun : ∀ tool, Within R (rt.execute_allowed c t tool) := by
    intro tool
    refine within_bind (within_audit hR rt _ _ _ _ _) (fun _ => ?_)
    exact within_bind (within_observe (fun _ => hexec)) (within_observe_outcome hR rt c t)
  have hgate : ∀ tool, Within R (rt.permission_gate c t tool) := by
    intro tool
    refine within_bind (within_observe (fun _ => hR.decide _ _)) (fun table => ?_)
    split
    · exact within_bind (within_audit hR rt _ _ _ _ _) (fun _ => within_refuse hR rt c t _)
    · refine within_bind (within_audit hR rt _ _ _ _ _) (fun _ => ?_)
      refine within_bind (within_emit hR c _) (fun _ => ?_)
      refine within_bind (within_observe (fun _ => hR.approval _ _)) (fun granted => ?_)
      refine within_bind (within_audit hR rt _ _ _ _ _) (fun _ => ?_)
      cases granted with
      | true => exact hrun tool
      | false => exact within_refuse hR rt c t _
    · exact hrun tool
  unfold AgentRuntime.execute_tool
  split
  · exact within_bind (within_audit hR rt _ _ _ _ _) (fun _ => within_new_message rt _ _ _ _)
  · split
    · exact within_bind (within_audit hR rt _ _ _ _ _) (fun _ => within_new_message rt _ _ _ _)
    · refine within_bind (within_emit hR c _) (fun _ => ?_)
      refine within_bind (within_audit hR rt _ _ _ _ _) (fun _ => ?_)
      refine within_bind (within_observe (fun _ => hR.validate _ _)) (fun checked => ?_)
      rcases checked with e | u
      · exact within_bind (within_audit hR rt _ _ _ _ _) (fun _ => within_new_message rt _ _ _ _)
      · exact hgate _

/-! ## The fast path -/

variable (hexec : ∀ name arguments, R (.execute .fast_path name arguments))
include hexec

theorem within_exec_once (rt : AgentRuntime W) (c : Caller W) (x : FastContext W) (name : String)
    (arguments : Value) : Within R (exec_once rt c x name arguments) := by
  refine within_bind (within_draw _) (fun call => ?_)
  refine within_bind (within_execute_tool hR rt c _ (hexec _ _)) (fun msg => ?_)
  exact within_bind (within_persist_msg hR rt _ _) (fun _ => within_pure _)

theorem within_run_written (rt : AgentRuntime W) (c : Caller W) (x : FastContext W)
    (lang : Option String) (fname answer : String) :
    Within R (run_written rt c x lang fname answer) := by
  unfold run_written
  split
  · exact within_pure _
  · exact within_bind (within_exec_once hR hexec rt c x _ _) (fun _ => within_pure _)

variable (hreq : ∀ req, R (.generate req))
include hreq

theorem within_write_code (rt : AgentRuntime W) (c : Caller W) (x : FastContext W)
    (lang filename : Option String) (spec : String) (run_after : Bool) :
    Within R (write_code rt c x lang filename spec run_after) := by
  refine within_bind (within_new_message rt _ _ _ _) (fun msg => ?_)
  refine within_bind (within_observe (fun _ => hreq _)) (fun reply => ?_)
  rcases code_of lang reply with ⟨code, scaffolded⟩
  refine within_bind (within_exec_once hR hexec rt c x _ _) (fun out => ?_)
  rcases out with ⟨v, _ | _⟩
  · cases run_after with
    | true => exact within_run_written hR hexec rt c x lang _ _
    | false => exact within_pure _
  · exact within_pure _

theorem within_answer_intent (windows : Bool) (rt : AgentRuntime W) (c : Caller W)
    (x : FastContext W) (intent : FastIntent) :
    Within R (answer_intent windows rt c x intent) := by
  have honce : ∀ (name : String) (arguments : Value) (f : Value × Bool → String),
      Within R (do
        let out ← exec_once rt c x name arguments
        return f out) :=
    fun name arguments f =>
      within_bind (within_exec_once hR hexec rt c x name arguments) (fun _ => within_pure _)
  cases intent with
  | Capabilities => exact within_pure _
  | RunFile path =>
    unfold answer_intent
    dsimp only
    split
    · exact within_fail _
    · exact honce _ _ _
  | WriteCode lang filename spec run_after =>
    exact within_write_code hR hexec hreq rt c x lang filename spec _
  | Remember content => exact honce _ _ _
  | ListFiles path => exact honce _ _ _
  | ReadFile path => exact honce _ _ _
  | DeleteFile path => exact honce _ _ _
  | DocSearch query => exact honce _ _ _

theorem within_fast_path (windows : Bool) (rt : AgentRuntime W) (c : Caller W)
    (x : FastContext W) (intent : FastIntent) : Within R (fast_path windows rt c x intent) := by
  refine within_bind (within_emit hR c _) (fun _ => ?_)
  refine within_bind (within_answer_intent hR hexec hreq windows rt c x intent) (fun answer => ?_)
  refine within_bind (within_new_message rt _ _ _ _) (fun _ => ?_)
  refine within_bind (within_persist_msg hR rt _ _) (fun _ => ?_)
  exact within_bind (within_emit hR c _) (fun _ => within_finish_run hR rt c _ _ _)

end

end pai_agent
