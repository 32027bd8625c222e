-- A run across crashes: what `RunStore` keeps of it, and what a resumed run is
-- given.
import PersonalAi.AgentTraces
import PersonalAi.GateTraces

open pai_core pai_permissions pai_tools program json
open pai_agent.fastpath

namespace pai_agent

variable {W α : Type}

/-! ## The store of runs -/

/-- A row of `agent_runs`. `ended` says that `ended_at` is not NULL. -/
structure RunRow where
  agent : AgentId
  conversation : Option ConversationId
  started_at : Timestamp
  ended : Bool
  state : RunState
  step : Nat
  input : String
  checkpoint : Option (List Message)

abbrev RunTable := AgentRunId → Option RunRow

/-- `UPDATE … WHERE id=?1`. -/
def RunTable.update (t : RunTable) (id : AgentRunId) (f : RunRow → RunRow) : RunTable :=
  fun id' => if id' = id then (t id').map f else t id'

/-- The row of a fresh run, at step 0. -/
def RunRow.fresh (run : AgentRun) (input : String) : RunRow :=
  { agent := run.agent, conversation := run.conversation, started_at := run.started_at,
    ended := false, state := run.state, step := 0, input := input, checkpoint := none }

/-- `RunStore::begin`, `checkpoint` and `finish`; the other writes are not to
this table. -/
def RunTable.write (t : RunTable) : StoreOp → RunTable
  | .begin run input => fun id => if id = run.id then some (RunRow.fresh run input) else t id
  | .checkpoint run step messages =>
    t.update run.id
      (fun row => { row with step := step, state := run.state, checkpoint := some messages })
  | .finish run => t.update run.id (fun row => { row with state := run.state, ended := true })
  | .append _ => t
  | .set_title_if_empty _ _ => t

/-- `RunStore::load`: a run without a checkpoint has no messages, and `ended_at`
is not read. -/
def RunTable.load (t : RunTable) (id : AgentRunId) :
    Except Error (AgentRun × Nat × List Message × String) :=
  match t id with
  | none => .error (.NotFound ("run " ++ id.text))
  | some row =>
    .ok ({ id := id, agent := row.agent, conversation := row.conversation,
           started_at := row.started_at, ended_at := none, state := row.state },
      row.step, row.checkpoint.getD [], row.input)

/-- The table after some events. -/
def RunTable.after (t : RunTable) : List Event → RunTable
  | [] => t
  | .store op :: rest => (t.write op).after rest
  | _ :: rest => t.after rest

/-! ## Attempts -/

/-- One call of `run`, as far as it came: its events up to the crash, or all of
them. -/
structure Attempt (W : Type) where
  host : Host
  runtime : AgentRuntime W
  caller : Caller W
  request : RunRequest
  world : W
  events : List Event

def Attempt.Valid (a : Attempt W) : Prop :=
  a.events <+: (a.runtime.run a.host a.caller a.request).trace a.world

/-- What `load` gives the attempt, when it resumes. -/
def Attempt.loaded (a : Attempt W) : Option (AgentRun × Nat × List Message × String) :=
  match a.runtime.persistence, a.request.resume_from with
  | some p, some rid => (p.load rid a.world).1.toOption
  | _, _ => none

/-- The step at which the attempt resumes. -/
def Attempt.start (a : Attempt W) : Option Nat := a.loaded.map (fun l => l.2.1)

/-- The life of a run: an attempt that got past `begin`, then any number of
attempts that resume it from what the store then holds. -/
inductive Life (t₀ : RunTable) (rid : AgentRunId) (input : String) :
    List (Attempt W) → RunTable → Prop
  | begun {a : Attempt W} {run : AgentRun} (hvalid : a.Valid)
      (hfresh : a.request.resume_from = none) (hpersist : a.runtime.persistence.isSome)
      (hbegun : Event.store (.begin run a.request.input) ∈ a.events) (hid : run.id = rid)
      (hinput : a.request.input = input) : Life t₀ rid input [a] (t₀.after a.events)
  | resumed {as : List (Attempt W)} {t : RunTable} {a : Attempt W} {p : Persistence W}
      (life : Life t₀ rid input as t) (hvalid : a.Valid)
      (hresume : a.request.resume_from = some rid) (hpersist : a.runtime.persistence = some p)
      (hload : (p.load rid a.world).1 = t.load rid) :
      Life t₀ rid input (as ++ [a]) (t.after a.events)

/-! ## What the loop tells the store and the model -/

/-- These messages, and behind them none of the user. -/
def Extends (base messages : List Message) : Prop :=
  ∃ tail, messages = base ++ tail ∧ ∀ m ∈ tail, m.role ≠ .User

theorem extends_refl (base : List Message) : Extends base base := ⟨[], by simp⟩

theorem extends_append {base messages : List Message} {m : Message} (h : Extends base messages)
    (hm : m.role ≠ .User) : Extends base (messages ++ [m]) := by
  obtain ⟨tail, rfl, htail⟩ := h
  refine ⟨tail ++ [m], by simp, ?_⟩
  intro m' hm'
  rcases List.mem_append.mp hm' with h | h
  · exact htail m' h
  · rw [List.mem_singleton.mp h]
    exact hm

/-- An event of a run that goes on from these messages: the model sees them, and
every checkpoint of the run keeps them. -/
def KeepsTo (rid : AgentRunId) (base : List Message) : Event → Prop
  | .generate req => Extends base req.messages
  | .store (.begin _ _) => False
  | .store (.checkpoint run _ messages) => run.id = rid ∧ Extends base messages
  | _ => True

theorem keepsTo_smallTalk (rid : AgentRunId) (base : List Message) :
    SmallTalk (KeepsTo rid base) where
  emit := fun _ => trivial
  audit := fun _ => trivial
  append := fun _ => trivial
  title := fun _ _ => trivial
  finish := fun _ => trivial
  validate := fun _ _ => trivial
  decide := fun _ _ => trivial
  approval := fun _ _ => trivial

theorem new_message_role (rt : AgentRuntime W) (conversation : ConversationId) (role : Role)
    (content : List Content) (trust : TrustLevel) :
    Returns (fun m : Message => m.role = role ∧ m.content = content)
      (rt.new_message conversation role content trust) :=
  returns_bind (fun _ _ => returns_bind (fun _ _ => returns_pure ⟨rfl, rfl⟩))

/-- What a tool call gives the model is a message of the tool. -/
theorem execute_tool_role (rt : AgentRuntime W) (c : Caller W) (t : ToolInvocation) :
    Returns (fun m : Message => m.role = .Tool) (rt.execute_tool c t) := by
  have hmsg : ∀ (conv : ConversationId) (call : ToolCallId) (tool : String) (output : Value)
      (b : Bool), Returns (fun m : Message => m.role = .Tool)
        (rt.tool_result_msg conv call tool output b) :=
    fun conv call tool output b m hm => (new_message_role rt conv _ _ _ m hm).1
  have hrefuse : ∀ text, Returns (fun m : Message => m.role = .Tool) (rt.refuse c t text) :=
    fun text => returns_bind (fun _ _ => hmsg _ _ _ _ _)
  have hrun : ∀ tool, Returns (fun m : Message => m.role = .Tool)
      (rt.execute_allowed c t tool) := by
    intro tool
    refine returns_bind (fun _ _ => returns_bind (fun out _ => ?_))
    cases out with
    | ok out =>
      exact returns_bind (fun _ _ => returns_bind (fun _ _ => returns_bind
        (fun _ _ => hmsg _ _ _ _ _)))
    | error e => exact returns_bind (fun _ _ => hmsg _ _ _ _ _)
  unfold AgentRuntime.execute_tool
  split
  · exact returns_bind (fun _ _ => hmsg _ _ _ _ _)
  · split
    · exact returns_bind (fun _ _ => hmsg _ _ _ _ _)
    · refine returns_bind (fun _ _ => returns_bind (fun _ _ => returns_bind (fun checked _ => ?_)))
      rcases checked with e | u
      · exact returns_bind (fun _ _ => hmsg _ _ _ _ _)
      · refine returns_bind (fun table _ => ?_)
        split
        · exact returns_bind (fun _ _ => hrefuse _)
        · refine returns_bind (fun _ _ => returns_bind (fun _ _ => returns_bind
            (fun granted _ => returns_bind (fun _ _ => ?_))))
          cases granted with
          | true => exact hrun _
          | false => exact hrefuse _
        · exact hrun _

section
variable {rid : AgentRunId} {base : List Message}

variable (rid) in
theorem correct_keeps (rt : AgentRuntime W) (c : Caller W) (mt : ModelText) (x : LoopContext W)
    {s : LoopState} (resp : GenerateResponse) (streamed : Bool)
    (hs : Extends base s.messages) :
    Within (KeepsTo rid base) (rt.correct c mt x s resp streamed) ∧
      Returns (fun a => Extends base a.state.messages) (rt.correct c mt x s resp streamed) := by
  have hsmall := keepsTo_smallTalk rid base
  unfold AgentRuntime.correct
  split
  · have hnext : ∀ m, Gives (rt.new_message x.conv .System [.Text PROTOCOL_CORRECTION] .Policy) m →
        Extends base (s.messages ++ [m]) := by
      intro m hm
      apply extends_append hs
      rw [(new_message_role rt _ _ _ _ m hm).1]
      decide
    constructor
    · refine within_bind_gives (within_new_message rt _ _ _ _) (fun m hm => ?_)
      refine within_bind (within_generate_step hsmall c mt _ _ (hnext m hm)) (fun retry => ?_)
      rcases retry with e | ⟨r, streamed⟩ <;> exact within_pure _
    · refine returns_bind (fun m hm => returns_bind (fun retry _ => ?_))
      rcases retry with e | ⟨r, streamed⟩ <;> exact returns_pure (hnext m hm)
  · exact ⟨within_pure _, returns_pure hs⟩

/-- The turn leaves messages that extend the old ones. -/
def TurnKeeps (base : List Message) : Turn → Prop
  | .finished _ => True
  | .next s => Extends base s.messages

variable (rid) in
theorem act_keeps (rt : AgentRuntime W) (c : Caller W) (mt : ModelText) (x : LoopContext W)
    {a : Answered} (ha : Extends base a.state.messages) :
    Within (KeepsTo rid base) (rt.act c mt x a) ∧
      Returns (TurnKeeps base) (rt.act c mt x a) := by
  have hsmall := keepsTo_smallTalk rid base
  unfold AgentRuntime.act
  split
  · constructor
    · refine within_bind (within_new_message rt _ _ _ _) (fun _ => ?_)
      refine within_bind (within_persist_msg hsmall rt _ _) (fun _ => ?_)
      refine within_bind (within_when _ (within_emit hsmall c _)) (fun _ => ?_)
      exact within_bind (within_finish_run hsmall rt c _ _ _) (fun _ => within_pure _)
    · exact returns_bind (fun _ _ => returns_bind (fun _ _ => returns_bind (fun _ _ =>
        returns_bind (fun _ _ => returns_pure trivial))))
  · constructor
    · refine within_bind (within_draw _) (fun call => ?_)
      refine within_bind (within_execute_tool hsmall rt c _ trivial) (fun msg => ?_)
      exact within_bind (within_persist_msg hsmall rt _ _) (fun _ => within_pure _)
    · refine returns_bind (fun call _ => returns_bind (fun msg hmsg => returns_bind
        (fun _ _ => returns_pure ?_)))
      apply extends_append ha
      rw [execute_tool_role rt c _ msg hmsg]
      decide

theorem turn_keeps (rt : AgentRuntime W) (c : Caller W) (mt : ModelText) (x : LoopContext W)
    (hx : x.run.id = rid) (step : Nat) {s : LoopState} (hs : Extends base s.messages) :
    Within (KeepsTo rid base) (rt.turn c mt x step s) ∧
      Returns (TurnKeeps base) (rt.turn c mt x step s) := by
  have hsmall := keepsTo_smallTalk rid base
  unfold AgentRuntime.turn
  constructor
  · refine within_bind (within_ask _) (fun cancelled => ?_)
    split
    · exact within_bind (within_finish_run hsmall rt c _ _ _) (fun _ => within_pure _)
    · refine within_bind (within_emit hsmall c _) (fun _ => ?_)
      refine within_bind (within_store ⟨hx, hs⟩) (fun _ => ?_)
      refine within_bind (within_generate_step hsmall c mt _ _ hs) (fun answer => ?_)
      rcases answer with e | ⟨resp, streamed⟩
      · refine within_bind (within_audit hsmall rt _ _ _ _ _) (fun _ => ?_)
        exact within_bind (within_finish_run hsmall rt c _ _ _) (fun _ => within_fail _)
      · have hcorrect := correct_keeps rid rt c mt x resp streamed hs
        refine within_bind_gives hcorrect.1 (fun a ha => ?_)
        refine within_bind (within_audit hsmall rt _ _ _ _ _) (fun _ => ?_)
        exact (act_keeps rid rt c mt x (hcorrect.2 a ha)).1
  · refine returns_bind (fun cancelled _ => ?_)
    split
    · exact returns_bind (fun _ _ => returns_pure trivial)
    · refine returns_bind (fun _ _ => returns_bind (fun _ _ => returns_bind (fun answer _ => ?_)))
      rcases answer with e | ⟨resp, streamed⟩
      · exact returns_bind (fun _ _ => returns_bind (fun _ _ => returns_fail _ _))
      · refine returns_bind (fun a ha => returns_bind (fun _ _ => ?_))
        have hcorrect := correct_keeps rid rt c mt x resp streamed hs
        exact (act_keeps rid rt c mt x (hcorrect.2 a ha)).2

theorem run_loop_keeps (rt : AgentRuntime W) (c : Caller W) (mt : ModelText) (x : LoopContext W)
    (hx : x.run.id = rid) (left step : Nat) (s : LoopState) (hs : Extends base s.messages) :
    Within (KeepsTo rid base) (rt.run_loop c mt x left step s) := by
  have hsmall := keepsTo_smallTalk rid base
  induction left generalizing step s with
  | zero => exact within_bind (within_finish_run hsmall rt c _ _ _) (fun _ => within_fail _)
  | succ left ih =>
    have hturn := turn_keeps rt c mt x hx step hs
    refine within_bind_gives hturn.1 (fun t ht => ?_)
    rcases t with outcome | s'
    · exact within_pure _
    · exact ih (step + 1) s' (hturn.2 _ ht)

end

/-! ## What a whole attempt tells them -/

/-- A resumed run keeps to the messages that were loaded. -/
theorem resumed_run_keeps (h : Host) (rt : AgentRuntime W) (c : Caller W) (q : RunRequest)
    {rid : AgentRunId} {p : Persistence W} {w : W} {r : AgentRun} {step : Nat}
    {messages : List Message} {input : String} (hq : q.resume_from = some rid)
    (hp : rt.persistence = some p) (hload : (p.load rid w).1 = .ok (r, step, messages, input))
    (hr : r.id = rid) : ∀ e ∈ (rt.run h c q).trace w, KeepsTo rid messages e := by
  have hsmall := keepsTo_smallTalk rid messages
  unfold AgentRuntime.run
  cases rt.providers q.definition.provider with
  | none => exact fun e he => by cases he
  | some provider =>
    dsimp only
    unfold AgentRuntime.prepare AgentRuntime.resume
    rw [hq, hp]
    dsimp only
    have hloaded : p.load rid w = (.ok (r, step, messages, input), (p.load rid w).2) :=
      Prod.ext hload rfl
    rw [bind_assoc, trace_consult_ok hloaded]
    have hprepared : Returns (fun s : Prepared => s.run.id = rid ∧ s.messages = messages)
        (do
          emit c (.RunStarted r.id)
          rt.audit { r with state := .Running } .RunStarted .Ok none
            (.object [("model", model_value q.definition),
              ("provider", .string q.definition.provider), ("resumed", .bool true)])
          return { run := { r with state := .Running }, messages := messages, step := step }) :=
      returns_bind (fun _ _ => returns_bind (fun _ _ => returns_pure ⟨hr, rfl⟩))
    refine within_bind_gives ?_ (fun s hs => ?_) _
    · refine within_bind (within_emit hsmall c _) (fun _ => ?_)
      exact within_bind (within_audit hsmall rt _ _ _ _ _) (fun _ => within_pure _)
    · obtain ⟨hid, hmessages⟩ := hprepared s hs
      refine within_bind (within_conv_or_new rt _) (fun conv => ?_)
      refine within_bind (within_ask _) (fun query => within_bind (within_ask _) ?_)
      intro cancelled
      have hintent : h.intent q cancelled = none := by simp [Host.intent, hq]
      rw [hintent]
      apply run_loop_keeps
      · exact hid
      · rw [hmessages]
        exact extends_refl messages

/-- The messages hold what the user asked for. -/
def HasInput (input : String) (messages : List Message) : Prop :=
  ∃ m ∈ messages, m.role = .User ∧ m.content = [.Text input]

/-- An event of a fresh run behind its begin: its checkpoints hold the request. -/
def AfterBegin (rid : AgentRunId) (input : String) : Event → Prop
  | .store (.begin _ _) => False
  | .store (.checkpoint run _ messages) => run.id = rid ∧ HasInput input messages
  | _ => True

theorem afterBegin_smallTalk (rid : AgentRunId) (input : String) :
    SmallTalk (AfterBegin rid input) where
  emit := fun _ => trivial
  audit := fun _ => trivial
  append := fun _ => trivial
  title := fun _ _ => trivial
  finish := fun _ => trivial
  validate := fun _ _ => trivial
  decide := fun _ _ => trivial
  approval := fun _ _ => trivial

theorem hasInput_extends {input : String} {base messages : List Message}
    (h : HasInput input base) (hext : Extends base messages) : HasInput input messages := by
  obtain ⟨tail, rfl, _⟩ := hext
  obtain ⟨m, hm, hrole⟩ := h
  exact ⟨m, List.mem_append_left _ hm, hrole⟩

theorem afterBegin_of_keepsTo {rid : AgentRunId} {input : String} {base : List Message}
    (hbase : HasInput input base) {e : Event} (h : KeepsTo rid base e) :
    AfterBegin rid input e := by
  cases e with
  | store op =>
    cases op with
    | begin run i => exact h
    | checkpoint run step messages => exact ⟨h.1, hasInput_extends hbase h.2⟩
    | _ => trivial
  | _ => trivial

/-- The events of a fresh run: nothing to the store before its begin, and its
request in every checkpoint. -/
def Fresh (input : String) (tr : List Event) : Prop :=
  ∃ run audit rest, tr = .emit (.RunStarted run.id) :: .audit audit ::
    .store (.begin run input) :: rest ∧ ∀ e ∈ rest, AfterBegin run.id input e

theorem fresh_run (h : Host) (rt : AgentRuntime W) (c : Caller W) (q : RunRequest) (w : W)
    (hq : q.resume_from = none) (hp : rt.persistence.isSome) :
    (rt.run h c q).trace w = [] ∨ Fresh q.input ((rt.run h c q).trace w) := by
  obtain ⟨p, hp⟩ := Option.isSome_iff_exists.mp hp
  unfold AgentRuntime.run
  cases rt.providers q.definition.provider with
  | none => exact .inl rfl
  | some provider =>
    right
    dsimp only
    unfold AgentRuntime.prepare
    rw [hq]
    dsimp only
    unfold AgentRuntime.begin_run
    simp only [bind_assoc]
    refine emits_of_after ?_ w
    refine after_draw (fun id => after_draw (fun agent => after_draw (fun started_at => ?_)))
    refine after_emit (after_audit ?_)
    have hstore : ∀ op, rt.store op = p.store op := by
      intro op
      unfold AgentRuntime.store
      rw [hp]
    rw [hstore]
    let run : AgentRun :=
      { id := ⟨id⟩, agent := ⟨agent⟩, conversation := q.conversation, started_at := started_at,
        ended_at := none, state := .Running }
    refine after_observe (fun w₁ w₂ => ⟨run, _, _, rfl, ?_⟩)
    have hsmall := afterBegin_smallTalk run.id q.input
    refine within_bind (within_conv_or_new rt _) (fun conv => ?_) _
    refine within_bind (within_ask _) (fun query => ?_)
    refine within_bind (within_build_request rt _ _ _ _) (fun messages => ?_)
    refine within_bind_gives (within_new_message rt _ _ _ _) (fun user_msg huser => ?_)
    have hinput : HasInput q.input (messages ++ [user_msg]) :=
      ⟨user_msg, by simp, new_message_role rt _ _ _ _ user_msg huser⟩
    refine within_bind ?_ (fun _ => ?_)
    · refine within_when _ (within_bind (within_store (hsmall.append _)) (fun _ => ?_))
      exact within_store (hsmall.title _ _)
    · refine within_bind_gives (within_pure _) (fun s hs => ?_)
      rw [gives_pure hs]
      refine within_bind (within_conv_or_new rt _) (fun conv => ?_)
      refine within_bind (within_ask _) (fun query => within_bind (within_ask _) ?_)
      intro cancelled
      split
      · exact within_fast_path hsmall (fun _ _ => trivial) (fun _ => trivial) _ rt c _ _
      · refine emits_mono (run_loop_keeps rt c _ _ rfl _ _ _ (extends_refl _)) ?_
        exact fun tr htr e he => afterBegin_of_keepsTo hinput (htr e he)

/-- A prefix that reaches the begin of a fresh run is fresh too. -/
theorem fresh_of_begun {input : String} {tr events : List Event} (h : tr = [] ∨ Fresh input tr)
    (hevents : events <+: tr) {run : AgentRun} {i : String}
    (hbegun : Event.store (.begin run i) ∈ events) :
    ∃ audit rest, events = .emit (.RunStarted run.id) :: .audit audit ::
      .store (.begin run input) :: rest ∧ i = input ∧ ∀ e ∈ rest, AfterBegin run.id input e := by
  rcases h with rfl | ⟨run', audit, rest, rfl, hrest⟩
  · rw [List.prefix_nil.mp hevents] at hbegun
    cases hbegun
  rcases events with _ | ⟨e₁, _ | ⟨e₂, _ | ⟨e₃, rest'⟩⟩⟩
  · cases hbegun
  all_goals simp only [List.cons_prefix_cons] at hevents
  · rw [hevents.1, List.mem_singleton] at hbegun
    cases hbegun
  · obtain ⟨rfl, rfl, _⟩ := hevents
    simp at hbegun
  · obtain ⟨rfl, rfl, rfl, hfront⟩ := hevents
    have hafter : ∀ e ∈ rest', AfterBegin run'.id input e :=
      fun e he => hrest e (hfront.subset he)
    have hsame : run = run' ∧ i = input := by
      simp only [List.mem_cons, Event.store.injEq, StoreOp.begin.injEq, reduceCtorEq,
        false_or] at hbegun
      rcases hbegun with h | h
      · exact h
      · exact (hafter _ h).elim
    obtain ⟨rfl, rfl⟩ := hsame
    exact ⟨audit, rest', rfl, rfl, hafter⟩

/-! ## What the store keeps -/

/-- The last checkpoint among the events. -/
def last_checkpoint : List Event → Option (Nat × List Message)
  | [] => none
  | .store (.checkpoint _ step messages) :: rest =>
    some ((last_checkpoint rest).getD (step, messages))
  | _ :: rest => last_checkpoint rest

/-- The attempt got as far as a checkpoint. -/
def Checkpointed (events : List Event) : Prop :=
  ∃ run step messages, Event.store (.checkpoint run step messages) ∈ events

/-- An event that begins no run, and checkpoints this one only. -/
def OfRun (rid : AgentRunId) : Event → Prop
  | .store (.begin _ _) => False
  | .store (.checkpoint run _ _) => run.id = rid
  | _ => True

theorem last_checkpoint_mem {events : List Event} {step : Nat} {messages : List Message}
    (h : last_checkpoint events = some (step, messages)) :
    ∃ run, Event.store (.checkpoint run step messages) ∈ events := by
  induction events with
  | nil => cases h
  | cons e rest ih =>
    unfold last_checkpoint at h
    split at h
    · cases h
    · rename_i run step' messages' rest' heq
      obtain ⟨rfl, rfl⟩ := List.cons.inj heq
      rcases hrest : last_checkpoint rest with _ | ⟨s, ms⟩
      · rw [hrest, Option.getD_none, Option.some.injEq, Prod.mk.injEq] at h
        obtain ⟨rfl, rfl⟩ := h
        exact ⟨run, List.mem_cons_self⟩
      · rw [hrest, Option.getD_some] at h
        obtain ⟨run, hmem⟩ := ih (hrest.trans h)
        exact ⟨run, List.mem_cons_of_mem _ hmem⟩
    · rename_i heq
      obtain ⟨rfl, rfl⟩ := List.cons.inj heq
      obtain ⟨run, hmem⟩ := ih h
      exact ⟨run, List.mem_cons_of_mem _ hmem⟩

theorem last_checkpoint_isSome {events : List Event} :
    (last_checkpoint events).isSome ↔ Checkpointed events := by
  constructor
  · intro h
    obtain ⟨⟨step, messages⟩, h⟩ := Option.isSome_iff_exists.mp h
    obtain ⟨run, hmem⟩ := last_checkpoint_mem h
    exact ⟨run, step, messages, hmem⟩
  · rintro ⟨run, step, messages, hmem⟩
    induction events with
    | nil => cases hmem
    | cons e rest ih =>
      unfold last_checkpoint
      split
      · rename_i heq
        cases heq
      · rfl
      · rename_i hother heq
        obtain ⟨rfl, rfl⟩ := List.cons.inj heq
        rcases List.mem_cons.mp hmem with rfl | hmem
        · exact (hother run step messages rfl).elim
        · exact ih hmem

/-- The row of a run after its events: its step and its messages are those of
the last checkpoint. -/
theorem row_after {rid : AgentRunId} {t : RunTable} {row : RunRow} {events : List Event}
    (hrow : t rid = some row) (h : ∀ e ∈ events, OfRun rid e) :
    ∃ row', (t.after events) rid = some row' ∧
      row'.step = (last_checkpoint events).elim row.step Prod.fst ∧
      row'.checkpoint = (last_checkpoint events).elim row.checkpoint (fun l => some l.2) := by
  induction events generalizing t row with
  | nil => exact ⟨row, hrow, rfl, rfl⟩
  | cons e rest ih =>
    have hrest : ∀ e ∈ rest, OfRun rid e := fun e he => h e (List.mem_cons_of_mem _ he)
    have he := h e List.mem_cons_self
    rcases e with e | e | op | e | ⟨s, a⟩ | ⟨tb, p⟩ | ⟨q, g⟩ | ⟨ch, n, a⟩
    case store =>
      rcases op with ⟨run, i⟩ | ⟨run, step, messages⟩ | run | m | ⟨c, title⟩
      · exact he.elim
      · have hwrite : (t.write (.checkpoint run step messages)) rid =
            some { row with step := step, state := run.state, checkpoint := some messages } := by
          have hid : rid = run.id := he.symm
          simp [RunTable.write, RunTable.update, ← hid, hrow]
        obtain ⟨row', hrow', hstep, hcheck⟩ := ih hwrite hrest
        refine ⟨row', hrow', ?_⟩
        unfold last_checkpoint
        rcases hlast : last_checkpoint rest with _ | l
        · rw [hlast] at hstep hcheck
          exact ⟨hstep, hcheck⟩
        · rw [hlast] at hstep hcheck
          exact ⟨hstep, hcheck⟩
      · obtain ⟨row₁, hwrite, hstep₁, hcheck₁⟩ : ∃ row₁, (t.write (.finish run)) rid = some row₁ ∧
            row₁.step = row.step ∧ row₁.checkpoint = row.checkpoint := by
          by_cases hid : rid = run.id
          · exact ⟨{ row with state := run.state, ended := true },
              by simp [RunTable.write, RunTable.update, ← hid, hrow], rfl, rfl⟩
          · exact ⟨row, by simp [RunTable.write, RunTable.update, hid, hrow], rfl, rfl⟩
        obtain ⟨row', hrow', hstep, hcheck⟩ := ih hwrite hrest
        exact ⟨row', hrow', by rw [hstep, hstep₁]; rfl, by rw [hcheck, hcheck₁]; rfl⟩
      · exact ih hrow hrest
      · exact ih hrow hrest
    all_goals exact ih hrow hrest

/-! ## The request across crashes -/

def NoUser (messages : List Message) : Prop := ∀ m ∈ messages, m.role ≠ .User

theorem noUser_extends {base messages : List Message} (h : NoUser base)
    (hext : Extends base messages) : NoUser messages := by
  obtain ⟨tail, rfl, htail⟩ := hext
  intro m hm
  exact (List.mem_append.mp hm).elim (h m) (htail m)

theorem not_hasInput {input : String} {messages : List Message} (h : NoUser messages) :
    ¬ HasInput input messages := by
  rintro ⟨m, hm, hrole, _⟩
  exact h m hm hrole

/-- The events of a resumed attempt keep to what the store held. -/
theorem resumed_keeps {rid : AgentRunId} {t : RunTable} {row : RunRow} {a : Attempt W}
    {p : Persistence W} (hvalid : a.Valid) (hresume : a.request.resume_from = some rid)
    (hpersist : a.runtime.persistence = some p)
    (hload : (p.load rid a.world).1 = t.load rid) (hrow : t rid = some row) :
    ∀ e ∈ a.events, KeepsTo rid (row.checkpoint.getD []) e := by
  have hrun := resumed_run_keeps a.host a.runtime a.caller a.request (w := a.world) hresume hpersist
    (by rw [hload]; unfold RunTable.load; rw [hrow]) rfl
  exact fun e he => hrun e (hvalid.subset he)

/-- No run begins, and what is asked of a checkpoint says of which run it is. -/
theorem ofRun_of_writes {rid : AgentRunId} {P : Event → Prop} {e : Event}
    (hbegin : ∀ run i, ¬ P (.store (.begin run i)))
    (hcheckpoint : ∀ run step messages, P (.store (.checkpoint run step messages)) → run.id = rid)
    (h : P e) : OfRun rid e := by
  cases e with
  | store op =>
    cases op with
    | begin run i => exact hbegin run i h
    | checkpoint run step messages => exact hcheckpoint run step messages h
    | _ => trivial
  | _ => trivial

theorem ofRun_of_keepsTo {rid : AgentRunId} {base : List Message} {e : Event}
    (h : KeepsTo rid base e) : OfRun rid e :=
  ofRun_of_writes (P := KeepsTo rid base) (fun _ _ h => h) (fun _ _ _ h => h.1) h

theorem ofRun_of_afterBegin {rid : AgentRunId} {input : String} {e : Event}
    (h : AfterBegin rid input e) : OfRun rid e :=
  ofRun_of_writes (P := AfterBegin rid input) (fun _ _ h => h) (fun _ _ _ h => h.1) h

/-- A property of messages that a resumed attempt passes on, from what the store
holds to what the model sees and to what the store holds then. -/
theorem resumed_passes_on {P : List Message → Prop}
    (hP : ∀ base messages, P base → Extends base messages → P messages) {rid : AgentRunId}
    {t : RunTable} {row : RunRow} {a : Attempt W} {p : Persistence W} (hvalid : a.Valid)
    (hresume : a.request.resume_from = some rid) (hpersist : a.runtime.persistence = some p)
    (hload : (p.load rid a.world).1 = t.load rid) (hrow : t rid = some row)
    (hbase : P (row.checkpoint.getD [])) :
    (∀ req, Event.generate req ∈ a.events → P req.messages) ∧
      ∃ row', (t.after a.events) rid = some row' ∧ P (row'.checkpoint.getD []) := by
  have hkeeps := resumed_keeps hvalid hresume hpersist hload hrow
  constructor
  · intro req hreq
    exact hP _ _ hbase (hkeeps _ hreq)
  · obtain ⟨row', hrow', _, hcheck⟩ :=
      row_after hrow (fun e he => ofRun_of_keepsTo (hkeeps e he))
    refine ⟨row', hrow', ?_⟩
    rw [hcheck]
    rcases hlast : last_checkpoint a.events with _ | ⟨step, messages⟩
    · exact hbase
    · obtain ⟨run, hmem⟩ := last_checkpoint_mem hlast
      exact hP _ _ hbase (hkeeps _ hmem).2

/-- The row that the first attempt leaves. -/
theorem first_row (t₀ : RunTable) {a : Attempt W} {run : AgentRun} (hvalid : a.Valid)
    (hfresh : a.request.resume_from = none) (hpersist : a.runtime.persistence.isSome)
    (hbegun : Event.store (.begin run a.request.input) ∈ a.events) :
    ∃ row, (t₀.after a.events) run.id = some row ∧
      row.step = (last_checkpoint a.events).elim 0 Prod.fst ∧
      row.checkpoint = (last_checkpoint a.events).map Prod.snd ∧
      ∀ messages, row.checkpoint = some messages → HasInput a.request.input messages := by
  obtain ⟨audit, rest, hevents, _, hrest⟩ := fresh_of_begun
    (fresh_run a.host a.runtime a.caller a.request a.world hfresh hpersist) hvalid hbegun
  obtain ⟨row, hrow, hstep, hcheck⟩ := row_after
    (show (t₀.write (.begin run a.request.input)) run.id =
      some (RunRow.fresh run a.request.input) from if_pos rfl)
    (fun e (he : e ∈ rest) => ofRun_of_afterBegin (hrest e he))
  have hlast : last_checkpoint a.events = last_checkpoint rest := by
    rw [hevents]
    rfl
  refine ⟨row, ?_, ?_, ?_, ?_⟩
  · rw [hevents]
    exact hrow
  · rw [hstep, hlast]
    rfl
  · rw [hcheck, hlast]
    cases last_checkpoint rest <;> rfl
  · intro messages hmessages
    rw [hcheck] at hmessages
    rcases hl : last_checkpoint rest with _ | ⟨step, ms⟩
    · rw [hl] at hmessages
      cases hmessages
    · rw [hl] at hmessages
      cases hmessages
      obtain ⟨r, hmem⟩ := last_checkpoint_mem hl
      exact (hrest _ hmem).2

/-- What the first attempt decides for the rest of a life: with a checkpoint the
request is there for ever, without one it never comes back. -/
theorem life_keeps {t₀ t : RunTable} {rid : AgentRunId} {input : String} {as : List (Attempt W)}
    (life : Life t₀ rid input as t) :
    ∃ first rest row, as = first :: rest ∧ t rid = some row ∧
      ((Checkpointed first.events ∧ HasInput input (row.checkpoint.getD []) ∧
          ∀ a ∈ rest, ∀ req, Event.generate req ∈ a.events → HasInput input req.messages) ∨
        (¬ Checkpointed first.events ∧ NoUser (row.checkpoint.getD []) ∧
          ∀ a ∈ rest, ∀ req, Event.generate req ∈ a.events → NoUser req.messages)) := by
  induction life with
  | @begun a run hvalid hfresh hpersist hbegun hid hinput =>
    obtain ⟨row, hrow, _, hcheck, hhas⟩ := first_row t₀ hvalid hfresh hpersist hbegun
    subst hid hinput
    refine ⟨a, [], row, rfl, hrow, ?_⟩
    rcases hlast : last_checkpoint a.events with _ | ⟨step, messages⟩
    · right
      refine ⟨?_, ?_, by simp⟩
      · rw [← last_checkpoint_isSome, hlast]
        simp
      · rw [hcheck, hlast]
        intro m hm
        cases hm
    · left
      rw [hlast] at hcheck
      refine ⟨?_, ?_, by simp⟩
      · rw [← last_checkpoint_isSome, hlast]
        rfl
      · rw [hcheck]
        exact hhas messages hcheck
  | @resumed as t a p life hvalid hresume hpersist hload ih =>
    obtain ⟨first, rest, row, rfl, hrow, hcase⟩ := ih
    have hadd : ∀ (P : List Message → Prop),
        (∀ b ∈ rest, ∀ req, Event.generate req ∈ b.events → P req.messages) →
        (∀ req, Event.generate req ∈ a.events → P req.messages) →
        ∀ b ∈ rest ++ [a], ∀ req, Event.generate req ∈ b.events → P req.messages := by
      intro P hrest hlast b hb
      rcases List.mem_append.mp hb with hb | hb
      · exact hrest b hb
      · rw [List.mem_singleton.mp hb]
        exact hlast
    rcases hcase with ⟨hcheck, hbase, hrest⟩ | ⟨hcheck, hbase, hrest⟩
    · obtain ⟨hgen, row', hrow', hbase'⟩ := resumed_passes_on
        (P := HasInput input) (fun _ _ h hext => hasInput_extends h hext) hvalid hresume hpersist
        hload hrow hbase
      exact ⟨first, rest ++ [a], row', rfl, hrow',
        .inl ⟨hcheck, hbase', hadd (HasInput input) hrest hgen⟩⟩
    · obtain ⟨hgen, row', hrow', hbase'⟩ := resumed_passes_on
        (P := NoUser) (fun _ _ h hext => noUser_extends h hext) hvalid hresume hpersist
        hload hrow hbase
      exact ⟨first, rest ++ [a], row', rfl, hrow',
        .inr ⟨hcheck, hbase', hadd NoUser hrest hgen⟩⟩

/-- A resumed attempt that calls the model shows it the request exactly when the
first attempt wrote a checkpoint before it crashed: `begin` records the input,
and `run` drops what `load` gives of it. -/
theorem a_resumed_run_keeps_the_request_behind_a_checkpoint {t₀ t : RunTable} {rid : AgentRunId}
    {input : String} {first : Attempt W} {rest : List (Attempt W)}
    (life : Life t₀ rid input (first :: rest) t) :
    ∀ a ∈ rest, (∃ req, Event.generate req ∈ a.events) →
      ((∀ req, Event.generate req ∈ a.events → HasInput input req.messages) ↔
        Checkpointed first.events) := by
  intro a ha ⟨req, hreq⟩
  obtain ⟨first', rest', row, heq, _, hcase⟩ := life_keeps life
  obtain ⟨rfl, rfl⟩ := List.cons.inj heq
  rcases hcase with ⟨hcheck, _, hrest⟩ | ⟨hcheck, _, hrest⟩
  · exact ⟨fun _ => hcheck, fun _ => hrest a ha⟩
  · constructor
    · intro h
      exact (not_hasInput (hrest a ha req hreq) (h req hreq)).elim
    · intro h
      exact (hcheck h).elim

/-! ### A ledger that adds -/

/-- A model that answers every request with the same call. -/
def adding_model : InferenceProvider RunTable :=
  { generate := fun _ t =>
      (.ok { text := "", action := some (.ToolCall "calculator.add" (.object [])) }, t),
    stream := fun _ t => (([], false), t) }

/-- The desk, with a store whose table is the world. -/
def ledger : AgentRuntime RunTable :=
  { providers := fun _ => some adding_model,
    tools := ToolRegistry.empty.register
      { descriptor := adder.descriptor,
        execute := fun _ _ t => (.ok { value := .null, summary := "sum" }, t) },
    permissions := fun _ => { rules := fun _ => some .AlwaysAllow },
    memory_recall := fun _ t => (.ok [], t), record := fun _ t => (.ok (), t), max_steps := 4,
    device := ⟨"desk"⟩, allowed_roots := [], new_id := fun t => ("id", t), now := fun t => (0, t),
    persistence := some
      { write := fun op t => t.write op, load := fun id t => (t.load id, t),
        memory_of := fun _ _ => none } }

def ledger_request (resume_from : Option AgentRunId) : RunRequest :=
  { definition :=
      { name := "assistant", description := "", purpose := "", tools := [], memory_scopes := [],
        provider := "local", model := none },
    history := [], input := "add", conversation := none, stream := false,
    resume_from := resume_from }

/-- An attempt of the ledger that crashes after so many events. -/
def ledger_attempt (resume_from : Option AgentRunId) (t : RunTable) (n : Nat) :
    Attempt RunTable :=
  let host : Host :=
    { windows := false, classify := fun _ => none,
      model_text :=
        { parse_action := fun _ => none, looks_like_tool_attempt := fun _ _ => false,
          push := fun _ _ => none } }
  let caller : Caller RunTable :=
    { approval := fun _ t => (false, t), emit := fun _ t => t, cancelled := fun _ => false }
  { host := host, runtime := ledger, caller := caller, request := ledger_request resume_from,
    world := t,
    events := ((ledger.run host caller (ledger_request resume_from)).trace t).take n }

/-- A run of the ledger with one crash and one resume. -/
def ledger_first (n : Nat) : Attempt RunTable := ledger_attempt none (fun _ => none) n

def ledger_second (n m : Nat) : Attempt RunTable :=
  ledger_attempt (some ⟨"id"⟩) (RunTable.after (fun _ => none) (ledger_first n).events) m

theorem ledger_life (n m : Nat) : Life (fun _ => none) ⟨"id"⟩ "add"
    [ledger_first (n + 3), ledger_second (n + 3) m]
    ((RunTable.after (fun _ => none) (ledger_first (n + 3)).events).after
      (ledger_second (n + 3) m).events) := by
  have first : Life (fun _ => none) ⟨"id"⟩ "add" [ledger_first (n + 3)]
      (RunTable.after (fun _ => none) (ledger_first (n + 3)).events) := by
    let run : AgentRun := ⟨⟨"id"⟩, ⟨"id"⟩, none, 0, none, .Running⟩
    have hbegun : Event.store (.begin run "add") ∈ (ledger_first (n + 3)).events :=
      List.mem_cons_of_mem _ (List.mem_cons_of_mem _ List.mem_cons_self)
    exact .begun (List.take_prefix _ _) rfl rfl hbegun rfl rfl
  exact .resumed first (List.take_prefix _ _) rfl rfl rfl

/-- A call of the model with such messages. -/
def Event.shows (p : List Message → Bool) : Event → Bool
  | .generate req => p req.messages
  | _ => false

theorem exists_of_shows {p : List Message → Bool} {events : List Event}
    (h : events.any (Event.shows p) = true) :
    ∃ req, Event.generate req ∈ events ∧ p req.messages = true := by
  obtain ⟨e, he, hp⟩ := List.any_eq_true.mp h
  cases e with
  | generate req => exact ⟨req, he, hp⟩
  | _ => cases hp

/-- The crash stands behind the begin: the resumed run shows the model nothing. -/
theorem a_crash_behind_the_begin_loses_the_request :
    ∃ first second t, Life (W := RunTable) (fun _ => none) ⟨"id"⟩ "add" [first, second] t ∧
      ∃ req, Event.generate req ∈ second.events ∧ ¬ HasInput "add" req.messages := by
  have hshown : (ledger_second 3 5).events.any (Event.shows List.isEmpty) = true := by
    decide +kernel
  obtain ⟨req, hreq, hempty⟩ := exists_of_shows hshown
  refine ⟨_, _, _, ledger_life 0 5, req, hreq, ?_⟩
  rw [List.isEmpty_iff.mp hempty]
  exact not_hasInput (fun m hm => by cases hm)

theorem the_ledger_keeps_a_checkpointed_request :
    (∃ req, Event.generate req ∈ (ledger_second 5 5).events) ∧
      ∀ req, Event.generate req ∈ (ledger_second 5 5).events → HasInput "add" req.messages := by
  have hshown : (ledger_second 5 5).events.any (Event.shows (fun _ => true)) = true := by
    decide +kernel
  obtain ⟨req, hreq, _⟩ := exists_of_shows hshown
  have hcheck : (last_checkpoint (ledger_first 5).events).isSome = true := by decide +kernel
  refine ⟨⟨req, hreq⟩, ?_⟩
  exact (a_resumed_run_keeps_the_request_behind_a_checkpoint (ledger_life 2 5) (ledger_second 5 5)
    (by simp) ⟨req, hreq⟩).mpr (last_checkpoint_isSome.mp hcheck)

end pai_agent
