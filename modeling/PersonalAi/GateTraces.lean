-- The laws of the gate: in every trace of the agent and of its workflows, each
-- run of a tool stands right behind its own request, check, decision and
-- permission.
import PersonalAi.Workflows

open pai_core pai_permissions pai_tools program json
open pai_agent.fastpath

namespace pai_agent

variable {W : Type}

/-! ## What a trace has to show -/

def Event.is_execute : Event → Bool
  | .execute _ _ _ => true
  | _ => false

/-- The run of a tool that the model chose. -/
def Event.by_model : Event → Bool
  | .execute .model _ _ => true
  | _ => false

/-- A policy or a user says no. -/
def Event.refuses : Event → Bool
  | .decide table permissions => table.decide permissions == .Deny
  | .approval _ granted => !granted
  | _ => false

/-- No tool runs. -/
def Silent (tr : List Event) : Prop := ∀ e ∈ tr, e.is_execute = false

/-- An audit entry of a run about a tool. -/
def About (e : AuditEvent) (run : AgentRunId) (kind : AuditKind) (name : String) : Prop :=
  e.run = some run ∧ e.kind = kind ∧ e.tool = some name

/-- The events of one call that let a tool run with these arguments: the tool is
requested, its schema accepts the arguments, and the policies allow what it
needs or the user approves this tool with these arguments. -/
inductive Authorised (reg : ToolRegistry W) (run : AgentRunId) (name : String)
    (arguments : Value) : List Event → Prop
  | by_policy {tool : Tool W} {requested allowed : AuditEvent} {table : PolicyTable}
      (hreg : reg.get name = some tool)
      (hrequested : About requested run .ToolRequested name)
      (hdetail : requested.detail = .object [("arguments", arguments)])
      (hargs : validate_args tool.descriptor.input_schema arguments = .ok ())
      (hdecide : table.decide tool.descriptor.required_permissions = .Allow)
      (hallowed : About allowed run .ToolAllowed name) :
      Authorised reg run name arguments
        [.audit requested, .validate tool.descriptor.input_schema arguments,
          .decide table tool.descriptor.required_permissions, .audit allowed]
  | by_user (shown : List AgentEvent) {tool : Tool W}
      {requested asked resolved allowed : AuditEvent} {table : PolicyTable} {call : ToolCallId}
      (hreg : reg.get name = some tool)
      (hrequested : About requested run .ToolRequested name)
      (hdetail : requested.detail = .object [("arguments", arguments)])
      (hargs : validate_args tool.descriptor.input_schema arguments = .ok ())
      (hdecide : table.decide tool.descriptor.required_permissions = .AskUser)
      (hasked : About asked run .ApprovalRequested name)
      (hresolved : About resolved run .ApprovalResolved name)
      (hallowed : About allowed run .ToolAllowed name) :
      Authorised reg run name arguments
        ([.audit requested, .validate tool.descriptor.input_schema arguments,
          .decide table tool.descriptor.required_permissions, .audit asked] ++
          shown.map Event.emit ++
          [.approval (approval_request call name tool.descriptor arguments) true,
            .audit resolved, .audit allowed])

/-- Each run of a tool stands right behind the events that authorise it, and the
definition allows the tool. -/
def Gated (reg : ToolRegistry W) (allowed : String → Prop) (tr : List Event) : Prop :=
  ∀ before chosen_by name arguments after,
    tr = before ++ Event.execute chosen_by name arguments :: after →
    allowed name ∧
      ∃ run block, block <:+ before ∧ Authorised reg run name arguments block

/-- A refusal ends its call: a tool runs after it only when it is requested
anew. -/
def RefusalEndsCall (tr : List Event) : Prop :=
  ∀ before r between chosen_by name arguments after,
    tr = before ++ r :: (between ++ Event.execute chosen_by name arguments :: after) →
    r.refuses →
    ∃ requested run, Event.audit requested ∈ between ∧ About requested run .ToolRequested name

/-! ## Silence -/

theorem silent_additive : Additive Silent := additive_forall (fun e : Event => e.is_execute = false)

theorem silent_singleton {e : Event} (h : e.is_execute = false) : Silent [e] := by
  intro x hx
  rw [List.mem_singleton.mp hx]
  exact h

theorem silent_execute {before after : List Event} {chosen_by : Chooser} {name : String}
    {arguments : Value} :
    ¬ Silent (before ++ .execute chosen_by name arguments :: after) := by
  intro h
  have := h (.execute chosen_by name arguments) (by simp)
  simp [Event.is_execute] at this

theorem authorised_silent {reg : ToolRegistry W} {run : AgentRunId} {name : String}
    {arguments : Value} {block : List Event} (h : Authorised reg run name arguments block) :
    Silent block := by
  cases h with
  | by_policy => simp [Silent, Event.is_execute]
  | by_user =>
    intro e he
    simp only [List.cons_append, List.nil_append, List.mem_cons,
      List.mem_append, List.mem_map, List.not_mem_nil, or_false] at he
    rcases he with rfl | rfl | rfl | rfl | ⟨_, _, rfl⟩ | rfl | rfl | rfl <;> rfl

/-- The events that authorise a call refuse nothing. -/
theorem authorised_refuses {reg : ToolRegistry W} {run : AgentRunId} {name : String}
    {arguments : Value} {block : List Event} (h : Authorised reg run name arguments block)
    {e : Event} (he : e ∈ block) : e.refuses = false := by
  cases h with
  | by_policy hreg hrequested hdetail hargs hdecide hallowed =>
    simp only [List.mem_cons, List.not_mem_nil, or_false] at he
    rcases he with rfl | rfl | rfl | rfl <;> simp [Event.refuses, hdecide]
  | by_user shown hreg hrequested hdetail hargs hdecide hasked hresolved hallowed =>
    simp only [List.cons_append, List.nil_append, List.mem_cons,
      List.mem_append, List.mem_map, List.not_mem_nil, or_false] at he
    rcases he with rfl | rfl | rfl | rfl | ⟨_, _, rfl⟩ | rfl | rfl | rfl <;>
      simp [Event.refuses, hdecide]

/-- They start with the request. -/
theorem authorised_requested {reg : ToolRegistry W} {run : AgentRunId} {name : String}
    {arguments : Value} {block : List Event} (h : Authorised reg run name arguments block) :
    ∃ requested, Event.audit requested ∈ block ∧ About requested run .ToolRequested name := by
  cases h with
  | by_policy hreg hrequested => exact ⟨_, by simp, hrequested⟩
  | by_user shown hreg hrequested => exact ⟨_, by simp, hrequested⟩

/-! ## Gated traces -/

section
variable {reg : ToolRegistry W} {allowed : String → Prop}

theorem gated_of_silent {tr : List Event} (h : Silent tr) : Gated reg allowed tr := by
  rintro before chosen_by name arguments after rfl
  exact absurd h silent_execute

theorem gated_additive : Additive (Gated reg allowed) where
  nil := gated_of_silent (by simp [Silent])
  append := by
    intro a b ha hb before chosen_by name arguments after heq
    rcases List.append_eq_append_iff.mp heq with ⟨mid, hbefore, hrest⟩ | ⟨mid, ha', hrest⟩
    · -- the tool runs in the second trace
      obtain ⟨hallowed, run, block, hblock, hauth⟩ := hb mid chosen_by name arguments after hrest
      refine ⟨hallowed, run, block, ?_, hauth⟩
      rw [hbefore]
      exact hblock.trans (List.suffix_append a mid)
    · cases mid with
      | nil =>
        have hb' : b = [] ++ Event.execute chosen_by name arguments :: after := by
          simpa using hrest.symm
        obtain ⟨hallowed, run, block, hblock, hauth⟩ := hb [] chosen_by name arguments after hb'
        have hnil : block = [] := List.suffix_nil.mp hblock
        exact ⟨hallowed, run, block, by simp [hnil], hauth⟩
      | cons e rest =>
        -- the tool runs in the first trace
        obtain ⟨rfl, _⟩ := List.cons.inj hrest
        exact ha before chosen_by name arguments rest ha'

/-- A refusal cannot stand among the events that authorise a later run. -/
theorem gated_refusal_ends_call {tr : List Event} (h : Gated reg allowed tr) :
    RefusalEndsCall tr := by
  rintro before r between chosen_by name arguments after rfl hrefuses
  obtain ⟨_, run, block, hblock, hauth⟩ :=
    h (before ++ r :: between) chosen_by name arguments after (by simp)
  have hbetween : between <:+ before ++ r :: between := ⟨before ++ [r], by simp⟩
  obtain ⟨requested, hmem, habout⟩ := authorised_requested hauth
  refine ⟨requested, run, ?_, habout⟩
  rcases List.suffix_or_suffix_of_suffix hblock hbetween with hin | ⟨t, rfl⟩
  · exact hin.subset hmem
  · rcases List.eq_nil_or_concat t with rfl | ⟨init, last, rfl⟩
    · exact hmem
    · exfalso
      obtain ⟨s, hs⟩ := hblock
      have hsplit : (s ++ init ++ [last]) ++ between = (before ++ [r]) ++ between := by
        simpa using hs
      have hlast : last = r := by
        have := List.append_cancel_right hsplit
        exact (List.append_inj' this rfl).2 |> List.cons.inj |>.1
      have hquiet := authorised_refuses hauth (e := r) (by simp [hlast])
      rw [hquiet] at hrefuses
      exact absurd hrefuses (by simp)

end

/-! ## Programs that run no tool -/

section Quiet
variable {α β : Type}

/-- The program runs no tool, whatever the world. -/
def Quiet (p : Action W α) : Prop := Emits Silent p

theorem quiet_pure (a : α) : Quiet (pure a : Action W α) := emits_pure silent_additive a

theorem quiet_fail (e : Error) : Quiet (fail e : Action W α) := emits_fail silent_additive e

theorem quiet_draw (f : W → α × W) : Quiet (draw f) := emits_draw silent_additive f

theorem quiet_ask (f : W → α) : Quiet (ask f) := emits_ask silent_additive f

theorem quiet_consult (f : W → Except Error α × W) : Quiet (consult f) :=
  emits_consult silent_additive f

theorem quiet_bind {p : Action W α} {f : α → Action W β} (hp : Quiet p) (hf : ∀ a, Quiet (f a)) :
    Quiet (p >>= f) := emits_bind silent_additive hp hf

theorem quiet_when (b : Bool) {p : Action W Unit} (hp : Quiet p) : Quiet (doWhen b p) :=
  emits_when silent_additive b hp

theorem quiet_emit (c : Caller W) (e : AgentEvent) : Quiet (emit c e) :=
  emits_observe (fun _ => silent_singleton rfl)

theorem quiet_audit (rt : AgentRuntime W) (run : AgentRun) (kind : AuditKind)
    (outcome : AuditOutcome) (tool : Option String) (detail : Value) :
    Quiet (rt.audit run kind outcome tool detail) :=
  emits_observe (fun _ => silent_singleton rfl)

theorem quiet_new_message (rt : AgentRuntime W) (conversation : ConversationId) (role : Role)
    (content : List Content) (trust : TrustLevel) :
    Quiet (rt.new_message conversation role content trust) :=
  quiet_bind (quiet_draw _) (fun _ => quiet_bind (quiet_draw _) (fun _ => quiet_pure _))

theorem quiet_store (rt : AgentRuntime W) (op : StoreOp) : Quiet (rt.store op) := by
  unfold AgentRuntime.store
  cases rt.persistence with
  | none => exact quiet_pure ()
  | some p => exact emits_observe (fun _ => silent_singleton rfl)

theorem quiet_persist_msg (rt : AgentRuntime W) (run : AgentRun) (msg : Message) :
    Quiet (rt.persist_msg run msg) := quiet_when _ (quiet_store rt _)

theorem quiet_refuse (rt : AgentRuntime W) (c : Caller W) (t : ToolInvocation) (text : String) :
    Quiet (rt.refuse c t text) :=
  quiet_bind (quiet_emit c _) (fun _ => quiet_new_message rt _ _ _ _)

theorem quiet_audit_memory (rt : AgentRuntime W) (run : AgentRun) (name : String)
    (value : Value) : Quiet (rt.audit_memory run name value) := by
  unfold AgentRuntime.audit_memory
  split
  · exact quiet_audit rt _ _ _ _ _
  · exact quiet_when _ (quiet_audit rt _ _ _ _ _)

theorem quiet_observe_outcome (rt : AgentRuntime W) (c : Caller W) (t : ToolInvocation)
    (out : Except Error ToolOutput) : Quiet (rt.observe_outcome c t out) := by
  cases out with
  | ok out =>
    refine quiet_bind (quiet_audit rt _ _ _ _ _) (fun _ => ?_)
    refine quiet_bind (quiet_audit_memory rt _ _ _) (fun _ => ?_)
    exact quiet_bind (quiet_emit c _) (fun _ => quiet_new_message rt _ _ _ _)
  | error e => exact quiet_bind (quiet_audit rt _ _ _ _ _) (fun _ => quiet_new_message rt _ _ _ _)

theorem quiet_return_outcome (rt : AgentRuntime W) (run : AgentRun) (name : String)
    (out : Except Error ToolOutput) : Quiet (rt.return_outcome run name out) := by
  cases out with
  | ok out => exact quiet_bind (quiet_audit rt _ _ _ _ _) (fun _ => quiet_pure _)
  | error e => exact quiet_bind (quiet_audit rt _ _ _ _ _) (fun _ => quiet_fail _)

end Quiet

/-! ## The gates -/

/-- What a call of a gate leaves: either no tool runs, or this one does, behind
the events that authorise it. -/
inductive GateTrace (reg : ToolRegistry W) (allowed : String → Prop) (run : AgentRunId)
    (chosen_by : Chooser) (name : String) (arguments : Value) : List Event → Prop
  | refused {tr : List Event} (h : Silent tr) :
      GateTrace reg allowed run chosen_by name arguments tr
  | passed {before block after : List Event} (hallowed : allowed name) (hbefore : Silent before)
      (hblock : Authorised reg run name arguments block) (hafter : Silent after) :
      GateTrace reg allowed run chosen_by name arguments
        (before ++ block ++ .execute chosen_by name arguments :: after)

theorem after_emit {α : Type} {P : List Event → Prop} {before : List Event} {c : Caller W}
    {e : AgentEvent} {g : Unit → Action W α}
    (h : EmitsAfter (before ++ [.emit e]) P (g ())) : EmitsAfter before P (emit c e >>= g) :=
  after_observe (fun _ => h)

theorem after_audit {α : Type} {P : List Event → Prop} {before : List Event}
    {rt : AgentRuntime W} {run : AgentRun} {kind : AuditKind} {outcome : AuditOutcome}
    {tool : Option String} {detail : Value} {g : Unit → Action W α}
    (h : EmitsAfter (before ++ [.audit (rt.entry run kind outcome tool detail)]) P (g ())) :
    EmitsAfter before P (rt.audit run kind outcome tool detail >>= g) :=
  after_observe (fun _ => h)

theorem about_entry (rt : AgentRuntime W) (run : AgentRun) (kind : AuditKind)
    (outcome : AuditOutcome) (name : String) (detail : Value) :
    About (rt.entry run kind outcome (some name) detail) run.id kind name := ⟨rfl, rfl, rfl⟩

section
variable {reg : ToolRegistry W} {allowed : String → Prop} {run : AgentRunId}
  {chosen_by : Chooser} {name : String} {arguments : Value}

/-- A quiet end of a call that ran no tool so far. -/
theorem after_refused {α : Type} {before : List Event} {p : Action W α} (hbefore : Silent before)
    (hp : Quiet p) :
    EmitsAfter before (GateTrace reg allowed run chosen_by name arguments) p :=
  fun w => .refused (silent_additive.append _ _ hbefore (hp w))

/-- The run of the tool behind the events that authorise it, and a quiet end. -/
theorem after_run_tool {α : Type} (before : List Event) {block : List Event} {tool : Tool W}
    {ctx : ToolContext} {g : Except Error ToolOutput → Action W α} (hallowed : allowed name)
    (hbefore : Silent before) (hblock : Authorised reg run name arguments block)
    (hg : ∀ out, Quiet (g out)) :
    EmitsAfter (before ++ block) (GateTrace reg allowed run chosen_by name arguments)
      (run_tool tool chosen_by name arguments ctx >>= g) := by
  refine after_observe (fun w w' => ?_)
  rw [List.append_assoc]
  exact .passed hallowed hbefore hblock (hg _ w')

theorem gate_trace_gated {tr : List Event}
    (h : GateTrace reg allowed run chosen_by name arguments tr) : Gated reg allowed tr := by
  cases h with
  | refused h => exact gated_of_silent h
  | @passed before block after hallowed hbefore hblock hafter =>
    have hquiet : Silent (before ++ block) :=
      silent_additive.append _ _ hbefore (authorised_silent hblock)
    rintro before' chosen_by' name' arguments' after' heq
    rcases List.append_eq_append_iff.mp heq with ⟨mid, hbefore', hrest⟩ | ⟨mid, hblock', hrest⟩
    · cases mid with
      | nil =>
        obtain ⟨hcall, _⟩ := List.cons.inj hrest
        cases hcall
        rw [List.append_nil] at hbefore'
        exact ⟨hallowed, run, block, ⟨before, hbefore'.symm⟩, hblock⟩
      | cons e rest =>
        obtain ⟨_, hrest⟩ := List.cons.inj hrest
        rw [hrest] at hafter
        exact absurd hafter silent_execute
    · cases mid with
      | nil =>
        rw [List.append_nil] at hblock'
        obtain ⟨hcall, _⟩ := List.cons.inj hrest
        cases hcall
        exact ⟨hallowed, run, block, ⟨before, hblock'⟩, hblock⟩
      | cons e rest =>
        obtain ⟨rfl, _⟩ := List.cons.inj hrest
        rw [hblock'] at hquiet
        exact absurd hquiet silent_execute

end

/-- The end of `execute_tool`, behind the events that authorise it but for the
last. -/
theorem execute_allowed_gated (rt : AgentRuntime W) (c : Caller W) (t : ToolInvocation)
    (tool : Tool W) {allowed : String → Prop} {before block : List Event}
    (hallowed : allowed t.name) (hbefore : Silent before)
    (hblock : Authorised rt.tools t.run.id t.name t.arguments
      (block ++ [.audit (rt.entry t.run .ToolAllowed .Ok (some t.name) (.object []))])) :
    EmitsAfter (before ++ block)
      (GateTrace rt.tools allowed t.run.id t.chosen_by t.name t.arguments)
      (rt.execute_allowed c t tool) := by
  refine after_audit ?_
  rw [List.append_assoc]
  exact after_run_tool before hallowed hbefore hblock (quiet_observe_outcome rt c t)

/-- The gate of the model loop, behind the request and the accepted arguments. -/
theorem permission_gate_gated (rt : AgentRuntime W) (c : Caller W) (t : ToolInvocation)
    {tool : Tool W} {allowed : String → Prop} {shown : AgentEvent} (hallowed : allowed t.name)
    (hreg : rt.tools.get t.name = some tool)
    (hargs : validate_args tool.descriptor.input_schema t.arguments = .ok ()) :
    EmitsAfter
      [.emit shown, .audit (rt.entry t.run .ToolRequested .Ok (some t.name)
        (.object [("arguments", t.arguments)])),
        .validate tool.descriptor.input_schema t.arguments]
      (GateTrace rt.tools allowed t.run.id t.chosen_by t.name t.arguments)
      (rt.permission_gate c t tool) := by
  have hshown : Silent [.emit shown] := silent_singleton rfl
  unfold AgentRuntime.permission_gate
  refine after_observe (fun w => ?_)
  rcases hdecide : (rt.permissions w).decide tool.descriptor.required_permissions with _ | _ | _
  · -- the policies allow the call
    apply execute_allowed_gated rt c t tool hallowed hshown
    exact .by_policy hreg (about_entry rt _ _ _ _ _) rfl hargs hdecide (about_entry rt _ _ _ _ _)
  · -- the user is asked
    refine after_audit (after_emit (after_observe (fun w => after_audit ?_)))
    rcases (c.approval _ w).1 with _ | _
    · refine after_refused ?_ (quiet_refuse rt c t _)
      simp [Silent, Event.is_execute]
    · apply execute_allowed_gated rt c t tool hallowed hshown
      exact .by_user [_] hreg (about_entry rt _ _ _ _ _) rfl hargs hdecide
        (about_entry rt _ _ _ _ _) (about_entry rt _ _ _ _ _) (about_entry rt _ _ _ _ _)
  · refine after_audit (after_refused ?_ (quiet_refuse rt c t _))
    simp [Silent, Event.is_execute]

theorem execute_tool_gated (rt : AgentRuntime W) (c : Caller W) (t : ToolInvocation) :
    Emits (GateTrace rt.tools (fun name => t.definition.allows name) t.run.id t.chosen_by t.name
      t.arguments) (rt.execute_tool c t) := by
  unfold AgentRuntime.execute_tool
  by_cases hallowed : t.definition.allows t.name
  · rw [if_neg (by simpa using hallowed)]
    rcases hreg : rt.tools.get t.name with _ | tool
    · exact emits_mono
        (quiet_bind (quiet_audit rt _ _ _ _ _) (fun _ => quiet_new_message rt _ _ _ _))
        (fun _ h => .refused h)
    · apply emits_of_after
      refine after_emit (after_audit (after_observe (fun w => ?_)))
      rcases hargs : validate_args tool.descriptor.input_schema t.arguments with e | _
      · refine after_refused ?_
          (quiet_bind (quiet_audit rt _ _ _ _ _) (fun _ => quiet_new_message rt _ _ _ _))
        simp [Silent, Event.is_execute]
      · exact permission_gate_gated rt c t hallowed hreg hargs
  · rw [if_pos hallowed]
    exact emits_mono
      (quiet_bind (quiet_audit rt _ _ _ _ _) (fun _ => quiet_new_message rt _ _ _ _))
      (fun _ h => .refused h)

/-! ### Workflow steps -/

theorem invoke_allowed_gated (rt : AgentRuntime W) (run : AgentRun) (tool : Tool W)
    (name : String) (arguments : Value) {allowed : String → Prop} {block : List Event}
    (hallowed : allowed name)
    (hblock : Authorised rt.tools run.id name arguments
      (block ++ [.audit (rt.entry run .ToolAllowed .Ok (some name) (.object []))])) :
    EmitsAfter block (GateTrace rt.tools allowed run.id .workflow name arguments)
      (rt.invoke_allowed run tool name arguments) := by
  refine after_audit ?_
  exact after_run_tool [] hallowed silent_additive.nil hblock
    (quiet_return_outcome rt run name)

theorem invoke_gate_gated (rt : AgentRuntime W) (c : Caller W) (run : AgentRun) {tool : Tool W}
    {name : String} {arguments : Value} {allowed : String → Prop} (hallowed : allowed name)
    (hreg : rt.tools.get name = some tool)
    (hargs : validate_args tool.descriptor.input_schema arguments = .ok ()) :
    EmitsAfter
      [.audit (rt.entry run .ToolRequested .Ok (some name) (.object [("arguments", arguments)])),
        .validate tool.descriptor.input_schema arguments]
      (GateTrace rt.tools allowed run.id .workflow name arguments)
      (rt.invoke_gate c run tool name arguments) := by
  unfold AgentRuntime.invoke_gate
  refine after_observe (fun w => ?_)
  rcases hdecide : (rt.permissions w).decide tool.descriptor.required_permissions with _ | _ | _
  · apply invoke_allowed_gated rt run tool name arguments hallowed
    exact .by_policy hreg (about_entry rt _ _ _ _ _) rfl hargs hdecide (about_entry rt _ _ _ _ _)
  · refine after_draw (fun call => after_audit (after_observe (fun w => after_audit ?_)))
    rcases (c.approval _ w).1 with _ | _
    · refine after_refused ?_ (quiet_fail _)
      simp [Silent, Event.is_execute]
    · apply invoke_allowed_gated rt run tool name arguments hallowed
      exact .by_user [] hreg (about_entry rt _ _ _ _ _) rfl hargs hdecide
        (about_entry rt _ _ _ _ _) (about_entry rt _ _ _ _ _) (about_entry rt _ _ _ _ _)
  · refine after_audit (after_refused ?_ (quiet_fail _))
    simp [Silent, Event.is_execute]

theorem invoke_tool_gated (rt : AgentRuntime W) (c : Caller W) (run : AgentRun) (name : String)
    (arguments : Value) :
    Emits (GateTrace rt.tools (fun _ => True) run.id .workflow name arguments)
      (rt.invoke_tool c run name arguments) := by
  unfold AgentRuntime.invoke_tool
  rcases hreg : rt.tools.get name with _ | tool
  · exact emits_mono (quiet_fail _) (fun _ h => .refused h)
  · apply emits_of_after
    refine after_audit (after_observe (fun w => ?_))
    rcases hargs : validate_args tool.descriptor.input_schema arguments with e | _
    · refine after_refused ?_ (quiet_bind (quiet_audit rt _ _ _ _ _) (fun _ => quiet_fail _))
      simp [Silent, Event.is_execute]
    · exact invoke_gate_gated rt c run trivial hreg hargs

/-! ## Whole runs -/

/-- A gated trace in which the model chose at most `n` of the tools that run. -/
def GatedUpTo (reg : ToolRegistry W) (allowed : String → Prop) (n : Nat) (tr : List Event) :
    Prop :=
  Gated reg allowed tr ∧ tr.countP Event.by_model ≤ n

theorem silent_by_model {tr : List Event} (h : Silent tr) : tr.countP Event.by_model = 0 := by
  rw [List.countP_eq_zero]
  intro e he
  have := h e he
  cases e <;> simp_all [Event.by_model, Event.is_execute]

section
variable {reg : ToolRegistry W} {allowed : String → Prop} {α β : Type}

theorem upTo_of_silent (n : Nat) {tr : List Event} (h : Silent tr) : GatedUpTo reg allowed n tr :=
  ⟨gated_of_silent h, by rw [silent_by_model h]; omega⟩

theorem upTo_append {n m : Nat} {a b : List Event} (ha : GatedUpTo reg allowed n a)
    (hb : GatedUpTo reg allowed m b) : GatedUpTo reg allowed (n + m) (a ++ b) := by
  refine ⟨gated_additive.append a b ha.1 hb.1, ?_⟩
  rw [List.countP_append]
  exact Nat.add_le_add ha.2 hb.2

theorem upTo_mono {n m : Nat} (hle : n ≤ m) {tr : List Event} (h : GatedUpTo reg allowed n tr) :
    GatedUpTo reg allowed m tr := ⟨h.1, h.2.trans hle⟩

theorem upTo_quiet {p : Action W α} (n : Nat) (hp : Quiet p) :
    Emits (GatedUpTo reg allowed n) p := emits_mono hp (fun _ h => upTo_of_silent n h)

theorem upTo_bind {n m : Nat} {p : Action W α} {f : α → Action W β}
    (hp : Emits (GatedUpTo reg allowed n) p) (hf : ∀ a, Emits (GatedUpTo reg allowed m) (f a)) :
    Emits (GatedUpTo reg allowed (n + m)) (p >>= f) :=
  emits_bind_append (upTo_of_silent m silent_additive.nil) (fun _ _ => upTo_append) hp hf

/-- A quiet program in front changes nothing. -/
theorem quiet_then {n : Nat} {p : Action W α} {f : α → Action W β} (hp : Quiet p)
    (hf : ∀ a, Emits (GatedUpTo reg allowed n) (f a)) :
    Emits (GatedUpTo reg allowed n) (p >>= f) := by
  have hquiet : Emits (GatedUpTo reg allowed 0) p := upTo_quiet 0 hp
  have hboth := upTo_bind hquiet hf
  rwa [Nat.zero_add] at hboth

/-- A quiet program behind changes nothing. -/
theorem then_quiet {n : Nat} {p : Action W α} {f : α → Action W β}
    (hp : Emits (GatedUpTo reg allowed n) p) (hf : ∀ a, Quiet (f a)) :
    Emits (GatedUpTo reg allowed n) (p >>= f) :=
  upTo_bind hp (fun a => upTo_quiet 0 (hf a))

/-- The tools that one call of a gate counts for. -/
def calls_of : Chooser → Nat
  | .model => 1
  | _ => 0

theorem gate_trace_upTo {run : AgentRunId} {chosen_by : Chooser} {name : String}
    {arguments : Value} {tr : List Event}
    (h : GateTrace reg allowed run chosen_by name arguments tr) :
    GatedUpTo reg allowed (calls_of chosen_by) tr := by
  refine ⟨gate_trace_gated h, ?_⟩
  cases h with
  | refused h => rw [silent_by_model h]; omega
  | passed hallowed hbefore hblock hafter =>
    rw [List.countP_append, List.countP_append, List.countP_cons, silent_by_model hbefore,
      silent_by_model (authorised_silent hblock), silent_by_model hafter]
    cases chosen_by <;> simp [Event.by_model, calls_of]

end

/-! ### The loop -/

theorem quiet_finish_run (rt : AgentRuntime W) (c : Caller W) (run : AgentRun)
    (answer : Option String) (state : RunState) : Quiet (rt.finish_run c run answer state) := by
  refine quiet_bind (quiet_draw _) (fun _ => ?_)
  refine quiet_bind (quiet_audit rt _ _ _ _ _) (fun _ => ?_)
  refine quiet_bind (quiet_store rt _) (fun _ => ?_)
  exact quiet_bind (quiet_emit c _) (fun _ => quiet_pure _)

theorem quiet_consume (c : Caller W) (mt : ModelText) (items : List (Except Error StreamEvent))
    (seen : List String) (streamed : Bool) : Quiet (consume c mt seen streamed items) := by
  induction items generalizing seen streamed with
  | nil => exact quiet_pure _
  | cons item rest ih =>
    rcases item with e | d | r | e
    · exact quiet_pure _
    · unfold consume
      split
      · exact ih _ _
      · split
        · exact ih _ _
        · exact quiet_bind (quiet_emit c _) (fun _ => ih _ _)
    · exact quiet_pure _
    · exact quiet_pure _

theorem quiet_generate_step (c : Caller W) (mt : ModelText) (provider : InferenceProvider W)
    (req : AIRequest) (stream : Bool) : Quiet (generate_step c mt provider req stream) := by
  cases stream with
  | true =>
    refine quiet_bind (emits_observe (fun _ => silent_singleton rfl)) (fun _ => ?_)
    exact quiet_bind (quiet_consume c mt _ _ _) (fun _ => quiet_pure _)
  | false =>
    exact quiet_bind (emits_observe (fun _ => silent_singleton rfl)) (fun _ => quiet_pure _)

theorem quiet_correct (rt : AgentRuntime W) (c : Caller W) (mt : ModelText) (x : LoopContext W)
    (s : LoopState) (resp : GenerateResponse) (streamed : Bool) :
    Quiet (rt.correct c mt x s resp streamed) := by
  unfold AgentRuntime.correct
  split
  · refine quiet_bind (quiet_new_message rt _ _ _ _) (fun _ => ?_)
    refine quiet_bind (quiet_generate_step c mt _ _ _) (fun retry => ?_)
    rcases retry with e | ⟨r, streamed⟩ <;> exact quiet_pure _
  · exact quiet_pure _

/-- A step of the loop that acts runs at most one tool. -/
theorem act_upTo (rt : AgentRuntime W) (c : Caller W) (mt : ModelText) (x : LoopContext W)
    (a : Answered) :
    Emits (GatedUpTo rt.tools (fun name => x.definition.allows name) 1) (rt.act c mt x a) := by
  unfold AgentRuntime.act
  split
  · refine upTo_quiet 1 ?_
    refine quiet_bind (quiet_new_message rt _ _ _ _) (fun _ => ?_)
    refine quiet_bind (quiet_persist_msg rt _ _) (fun _ => ?_)
    refine quiet_bind (quiet_when _ (quiet_emit c _)) (fun _ => ?_)
    exact quiet_bind (quiet_finish_run rt c _ _ _) (fun _ => quiet_pure _)
  · refine quiet_then (quiet_draw _) (fun call => ?_)
    refine then_quiet (emits_mono (execute_tool_gated rt c _) (fun _ => gate_trace_upTo)) ?_
    exact fun msg => quiet_bind (quiet_persist_msg rt _ _) (fun _ => quiet_pure _)

theorem turn_upTo (rt : AgentRuntime W) (c : Caller W) (mt : ModelText) (x : LoopContext W)
    (step : Nat) (s : LoopState) :
    Emits (GatedUpTo rt.tools (fun name => x.definition.allows name) 1)
      (rt.turn c mt x step s) := by
  refine quiet_then (quiet_ask _) (fun cancelled => ?_)
  split
  · exact upTo_quiet 1 (quiet_bind (quiet_finish_run rt c _ _ _) (fun _ => quiet_pure _))
  · refine quiet_then (quiet_emit c _) (fun _ => quiet_then (quiet_store rt _) (fun _ => ?_))
    refine quiet_then (quiet_generate_step c mt _ _ _) (fun answer => ?_)
    rcases answer with e | ⟨resp, streamed⟩
    · refine upTo_quiet 1 (quiet_bind (quiet_audit rt _ _ _ _ _) (fun _ => ?_))
      exact quiet_bind (quiet_finish_run rt c _ _ _) (fun _ => quiet_fail _)
    · refine quiet_then (quiet_correct rt c mt x s resp streamed) (fun a => ?_)
      exact quiet_then (quiet_audit rt _ _ _ _ _) (fun _ => act_upTo rt c mt x a)

theorem run_loop_upTo (rt : AgentRuntime W) (c : Caller W) (mt : ModelText) (x : LoopContext W)
    (left step : Nat) (s : LoopState) :
    Emits (GatedUpTo rt.tools (fun name => x.definition.allows name) left)
      (rt.run_loop c mt x left step s) := by
  induction left generalizing step s with
  | zero => exact upTo_quiet 0 (quiet_bind (quiet_finish_run rt c _ _ _) (fun _ => quiet_fail _))
  | succ left ih =>
    refine emits_mono (upTo_bind (m := left) (turn_upTo rt c mt x step s) (fun t => ?_))
      (fun _ => upTo_mono (by omega))
    rcases t with outcome | s
    · exact upTo_quiet left (quiet_pure _)
    · exact ih (step + 1) s

/-! ### The fast path -/

theorem exec_once_upTo (rt : AgentRuntime W) (c : Caller W) (x : FastContext W) (name : String)
    (arguments : Value) :
    Emits (GatedUpTo rt.tools (fun name => x.definition.allows name) 0)
      (exec_once rt c x name arguments) := by
  refine quiet_then (quiet_draw _) (fun call => ?_)
  refine then_quiet (emits_mono (execute_tool_gated rt c _) (fun _ => gate_trace_upTo)) ?_
  exact fun msg => quiet_bind (quiet_persist_msg rt _ _) (fun _ => quiet_pure _)

theorem run_written_upTo (rt : AgentRuntime W) (c : Caller W) (x : FastContext W)
    (lang : Option String) (fname answer : String) :
    Emits (GatedUpTo rt.tools (fun name => x.definition.allows name) 0)
      (run_written rt c x lang fname answer) := by
  unfold run_written
  split
  · exact upTo_quiet 0 (quiet_pure _)
  · exact then_quiet (exec_once_upTo rt c x _ _) (fun _ => quiet_pure _)

theorem write_code_upTo (rt : AgentRuntime W) (c : Caller W) (x : FastContext W)
    (lang filename : Option String) (spec : String) (run_after : Bool) :
    Emits (GatedUpTo rt.tools (fun name => x.definition.allows name) 0)
      (write_code rt c x lang filename spec run_after) := by
  refine quiet_then (quiet_new_message rt _ _ _ _) (fun msg => ?_)
  refine quiet_then (emits_observe (fun _ => silent_singleton rfl)) (fun reply => ?_)
  rcases code_of lang reply with ⟨code, scaffolded⟩
  refine upTo_bind (m := 0) (exec_once_upTo rt c x _ _) (fun out => ?_)
  rcases out with ⟨v, _ | _⟩
  · cases run_after with
    | true => exact run_written_upTo rt c x lang _ _
    | false => exact upTo_quiet 0 (quiet_pure _)
  · exact upTo_quiet 0 (quiet_pure _)

theorem answer_intent_upTo (windows : Bool) (rt : AgentRuntime W) (c : Caller W)
    (x : FastContext W) (intent : FastIntent) :
    Emits (GatedUpTo rt.tools (fun name => x.definition.allows name) 0)
      (answer_intent windows rt c x intent) := by
  cases intent with
  | Capabilities => exact upTo_quiet 0 (quiet_pure _)
  | RunFile path =>
    unfold answer_intent
    dsimp only
    split
    · exact upTo_quiet 0 (quiet_fail _)
    · exact then_quiet (exec_once_upTo rt c x _ _) (fun _ => quiet_pure _)
  | WriteCode lang filename spec run_after => exact write_code_upTo rt c x lang filename spec _
  | Remember content => exact then_quiet (exec_once_upTo rt c x _ _) (fun _ => quiet_pure _)
  | ListFiles path => exact then_quiet (exec_once_upTo rt c x _ _) (fun _ => quiet_pure _)
  | ReadFile path => exact then_quiet (exec_once_upTo rt c x _ _) (fun _ => quiet_pure _)
  | DeleteFile path => exact then_quiet (exec_once_upTo rt c x _ _) (fun _ => quiet_pure _)
  | DocSearch query => exact then_quiet (exec_once_upTo rt c x _ _) (fun _ => quiet_pure _)

/-- On the fast path the model chooses no tool. -/
theorem fast_path_upTo (windows : Bool) (rt : AgentRuntime W) (c : Caller W)
    (x : FastContext W) (intent : FastIntent) :
    Emits (GatedUpTo rt.tools (fun name => x.definition.allows name) 0)
      (fast_path windows rt c x intent) := by
  refine quiet_then (quiet_emit c _) (fun _ => ?_)
  refine then_quiet (answer_intent_upTo windows rt c x intent) (fun answer => ?_)
  refine quiet_bind (quiet_new_message rt _ _ _ _) (fun _ => ?_)
  refine quiet_bind (quiet_persist_msg rt _ _) (fun _ => ?_)
  exact quiet_bind (quiet_emit c _) (fun _ => quiet_finish_run rt c _ _ _)

/-! ### Fresh and resumed runs -/

theorem quiet_conv_or_new (rt : AgentRuntime W) (conversation : Option ConversationId) :
    Quiet (rt.conv_or_new conversation) := by
  cases conversation with
  | none => exact quiet_bind (quiet_draw _) (fun _ => quiet_pure _)
  | some c => exact quiet_pure c

theorem quiet_recalled (rt : AgentRuntime W) (d : AgentDefinition) (user_text : String)
    (query : MemoryScopeQuery) : Quiet (rt.recalled d user_text query) := by
  unfold AgentRuntime.recalled
  split
  · exact quiet_pure _
  · refine quiet_bind (quiet_draw _) (fun items => ?_)
    rcases items with e | _ | ⟨item, rest⟩
    · exact quiet_pure _
    · exact quiet_pure _
    · refine quiet_bind (quiet_draw _) (fun _ => ?_)
      exact quiet_bind (quiet_new_message rt _ _ _ _) (fun _ => quiet_pure _)

theorem quiet_begin_run (rt : AgentRuntime W) (c : Caller W) (q : RunRequest) :
    Quiet (rt.begin_run c q) := by
  refine quiet_bind (quiet_draw _) (fun _ => quiet_bind (quiet_draw _) (fun _ => ?_))
  refine quiet_bind (quiet_draw _) (fun _ => quiet_bind (quiet_emit c _) (fun _ => ?_))
  refine quiet_bind (quiet_audit rt _ _ _ _ _) (fun _ => quiet_bind (quiet_store rt _) ?_)
  refine fun _ => quiet_bind (quiet_conv_or_new rt _) (fun _ => quiet_bind (quiet_ask _) ?_)
  refine fun _ => quiet_bind (quiet_bind (quiet_recalled rt _ _ _) (fun _ => quiet_pure _)) ?_
  refine fun _ => quiet_bind (quiet_new_message rt _ _ _ _) (fun _ => quiet_bind ?_ ?_)
  · exact quiet_when _ (quiet_bind (quiet_store rt _) (fun _ => quiet_store rt _))
  · exact fun _ => quiet_pure _

theorem quiet_resume (rt : AgentRuntime W) (c : Caller W) (d : AgentDefinition)
    (rid : AgentRunId) : Quiet (rt.resume c d rid) := by
  unfold AgentRuntime.resume
  split
  · exact quiet_fail _
  · refine quiet_bind (quiet_consult _) (fun _ => quiet_bind (quiet_emit c _) (fun _ => ?_))
    exact quiet_bind (quiet_audit rt _ _ _ _ _) (fun _ => quiet_pure _)

/-- A run is gated, and the model chooses at most `max_steps` of its tools. -/
theorem run_upTo (h : Host) (rt : AgentRuntime W) (c : Caller W) (q : RunRequest) :
    Emits (GatedUpTo rt.tools (fun name => q.definition.allows name) rt.max_steps)
      (rt.run h c q) := by
  unfold AgentRuntime.run
  split
  · exact upTo_quiet _ (quiet_fail _)
  · refine quiet_then ?_ (fun s => ?_)
    · unfold AgentRuntime.prepare
      split
      · exact quiet_resume rt c _ _
      · exact quiet_begin_run rt c q
    · refine quiet_then (quiet_conv_or_new rt _) (fun conv => ?_)
      refine quiet_then (quiet_ask _) (fun query => quiet_then (quiet_ask _) (fun cancelled => ?_))
      split
      · exact emits_mono (fast_path_upTo _ rt c _ _) (fun _ => upTo_mono (Nat.zero_le _))
      · exact emits_mono (run_loop_upTo rt c _ _ _ _ _) (fun _ => upTo_mono (Nat.sub_le _ _))

end pai_agent

/-! ## Workflows -/

namespace pai_workflows

open pai_agent

variable {W : Type}

theorem gated_any {reg : ToolRegistry W} {allowed : String → Prop} {tr : List Event}
    (h : Gated reg allowed tr) : Gated reg (fun _ => True) tr := by
  intro before chosen_by name arguments after heq
  exact ⟨trivial, (h before chosen_by name arguments after heq).2⟩

section
variable {α β : Type} {reg : ToolRegistry W}

theorem gated_quiet {p : Action W α} (hp : Quiet p) : Emits (Gated reg (fun _ => True)) p :=
  emits_mono hp (fun _ => gated_of_silent)

theorem gated_bind {p : Action W α} {f : α → Action W β}
    (hp : Emits (Gated reg (fun _ => True)) p)
    (hf : ∀ a, Emits (Gated reg (fun _ => True)) (f a)) :
    Emits (Gated reg (fun _ => True)) (p >>= f) := emits_bind gated_additive hp hf

end

theorem run_step_gated (rn : WorkflowRunner W) (c : Caller W) (audit_run : AgentRun)
    (d : WorkflowDefinition) (input : String) (outputs : Outputs) (s : WorkflowStep) :
    Emits (Gated rn.agent.tools (fun _ => True)) (run_step rn c audit_run d input outputs s) := by
  cases s with
  | Prompt id prompt =>
    refine gated_bind (emits_mono (run_upTo rn.host rn.agent _ _) (fun _ h => gated_any h.1)) ?_
    intro out
    rcases out with ⟨run, _ | answer⟩
    · exact gated_quiet (quiet_fail _)
    · exact gated_quiet (quiet_pure _)
  | Tool id tool args =>
    refine gated_bind ?_ (fun _ => gated_quiet (quiet_pure _))
    exact emits_mono (invoke_tool_gated rn.agent c audit_run tool _) (fun _ => gate_trace_gated)

theorem run_steps_gated (rn : WorkflowRunner W) (c : Caller W) (audit_run : AgentRun)
    (d : WorkflowDefinition) (run_id input : String) (steps : List WorkflowStep) (i : Nat)
    (outputs : Outputs) (last : Option Value) :
    Emits (Gated rn.agent.tools (fun _ => True))
      (run_steps rn c audit_run d run_id input i outputs last steps) := by
  induction steps generalizing i outputs last with
  | nil => exact gated_quiet (quiet_pure _)
  | cons s rest ih =>
    refine gated_bind (run_step_gated rn c audit_run d input outputs s) (fun out => ?_)
    exact gated_bind (gated_quiet (quiet_consult _)) (fun _ => ih _ _ _)

theorem quiet_get_run_or_fail (rn : WorkflowRunner W) (run_id : String) :
    Quiet (get_run_or_fail rn run_id) := by
  refine quiet_bind (quiet_consult _) (fun row => ?_)
  cases row with
  | none => exact quiet_fail _
  | some row => exact quiet_pure _

theorem drive_gated (rn : WorkflowRunner W) (c : Caller W) (wf : WorkflowRow)
    (run_id input : String) :
    Emits (Gated rn.agent.tools (fun _ => True)) (drive rn c wf run_id input) := by
  refine gated_bind (emits_demand gated_additive _) (fun _ => ?_)
  refine gated_bind (gated_quiet (quiet_get_run_or_fail rn run_id)) (fun row => ?_)
  refine gated_bind (gated_quiet ?_) (fun audit_run => ?_)
  · exact quiet_bind (quiet_draw _) (fun _ => quiet_bind (quiet_draw _)
      (fun _ => quiet_bind (quiet_draw _) (fun _ => quiet_pure _)))
  · refine gated_bind (emits_attempt (run_steps_gated rn c audit_run _ _ _ _ _ _ _)) ?_
    intro result
    rcases result with e | last
    · exact gated_quiet (quiet_bind (quiet_consult _) (fun _ => quiet_fail _))
    · refine gated_quiet (quiet_bind (quiet_consult _) (fun _ => ?_))
      exact quiet_bind (quiet_consult _) (fun _ => quiet_pure _)

theorem workflow_run_gated (rn : WorkflowRunner W) (c : Caller W) (wf : WorkflowRow)
    (input : String) : Emits (Gated rn.agent.tools (fun _ => True)) (rn.run c wf input) :=
  gated_bind (gated_quiet (quiet_consult _)) (fun run_id => drive_gated rn c wf run_id input)

theorem workflow_resume_gated (rn : WorkflowRunner W) (c : Caller W) (run_id : String) :
    Emits (Gated rn.agent.tools (fun _ => True)) (rn.resume c run_id) := by
  refine gated_bind (gated_quiet (quiet_get_run_or_fail rn run_id)) (fun row => ?_)
  split
  · exact gated_quiet (quiet_fail _)
  · refine gated_bind (gated_quiet (quiet_bind (quiet_consult _) (fun wf => ?_))) ?_
    · cases wf with
      | none => exact quiet_fail _
      | some wf => exact quiet_pure _
    · exact fun wf => drive_gated rn c wf run_id _

end pai_workflows

/-! ## The law of the gate -/

namespace pai_agent

open pai_workflows

variable {W : Type}

theorem allows_iff (d : AgentDefinition) (name : String) :
    d.allows name ↔ d.tools = [] ∨ name ∈ d.tools := by
  simp [AgentDefinition.allows]

/-- Each run of a tool stands right behind the events of its own call that
authorise it, and no run follows a refusal of its call. This holds of whole runs
of the agent, where an allowlist that is not empty has the tool and the model
chooses at most `max_steps` tools, of direct calls, and of workflows, fresh or
resumed. Models, tools, policies, users and stores answer in any way they like. -/
theorem no_tool_runs_past_the_gate (rt : AgentRuntime W) (rn : WorkflowRunner W) (c : Caller W)
    (w : W) :
    (∀ h q,
      Gated rt.tools (fun name => q.definition.tools = [] ∨ name ∈ q.definition.tools)
          ((rt.run h c q).trace w) ∧
        RefusalEndsCall ((rt.run h c q).trace w) ∧
        ((rt.run h c q).trace w).countP Event.by_model ≤ rt.max_steps) ∧
      (∀ run name arguments,
        Gated rt.tools (fun _ => True) ((rt.invoke_tool c run name arguments).trace w) ∧
          RefusalEndsCall ((rt.invoke_tool c run name arguments).trace w)) ∧
      (∀ wf input,
        Gated rn.agent.tools (fun _ => True) ((rn.run c wf input).trace w) ∧
          RefusalEndsCall ((rn.run c wf input).trace w)) ∧
      ∀ run_id,
        Gated rn.agent.tools (fun _ => True) ((rn.resume c run_id).trace w) ∧
          RefusalEndsCall ((rn.resume c run_id).trace w) := by
  refine ⟨?_, ?_, ?_, ?_⟩
  · intro h q
    have hrun := run_upTo h rt c q w
    simp only [allows_iff] at hrun
    exact ⟨hrun.1, gated_refusal_ends_call hrun.1, hrun.2⟩
  · intro run name arguments
    have hcall := gate_trace_gated (invoke_tool_gated rt c run name arguments w)
    exact ⟨hcall, gated_refusal_ends_call hcall⟩
  · intro wf input
    have hrun := workflow_run_gated rn c wf input w
    exact ⟨hrun, gated_refusal_ends_call hrun⟩
  · intro run_id
    have hrun := workflow_resume_gated rn c run_id w
    exact ⟨hrun, gated_refusal_ends_call hrun⟩

/-! ### A desk with one tool -/

def adder : Tool Unit :=
  { descriptor := { name := "calculator.add", description := "Add two numbers.",
                    input_schema := .object [("type", .string "object")],
                    required_permissions := [.ComputeLocal], risk := .Low }
    execute := fun _ _ w => (.ok { value := .null, summary := "sum" }, w) }

/-- One policy for every permission. -/
def desk (policy : ExecutionPolicy) : AgentRuntime Unit :=
  { providers := fun _ => none, tools := ToolRegistry.empty.register adder,
    permissions := fun _ => { rules := fun _ => some policy },
    memory_recall := fun _ w => (.ok [], w), record := fun _ w => (.ok (), w), max_steps := 4,
    device := ⟨"desk"⟩, persistence := none, allowed_roots := [],
    new_id := fun w => ("id", w), now := fun w => (0, w) }

/-- A user who approves nothing. -/
def nobody : Caller Unit :=
  { approval := fun _ w => (false, w), emit := fun _ w => w, cancelled := fun _ => false }

def step_run : AgentRun :=
  { id := ⟨"run"⟩, agent := ⟨"agent"⟩, conversation := none, started_at := 0, ended_at := none,
    state := .Running }

/-- The tools that run when a step calls the adder under a policy. -/
def runs_under (policy : ExecutionPolicy) : Nat :=
  (((desk policy).invoke_tool nobody step_run "calculator.add" (.object [])).trace ()).countP
    Event.is_execute

example : runs_under .AlwaysAllow = 1 ∧ runs_under .AskUser = 0 ∧ runs_under .NeverAllow = 0 := by
  decide

end pai_agent
