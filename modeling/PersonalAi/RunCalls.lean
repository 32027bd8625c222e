-- The tool calls of a run across crashes: which of them a resumed run makes again.
import PersonalAi.RunResume

open pai_core pai_permissions pai_tools program json
open pai_agent.fastpath

namespace pai_agent

variable {W : Type}

/-! ## The calls of each step -/

def Event.checkpoint_step : Event → Option Nat
  | .store (.checkpoint _ step _) => some step
  | _ => none

/-- The steps of the checkpoints. -/
def checkpoint_steps (events : List Event) : List Nat := events.filterMap Event.checkpoint_step

/-- The step of each tool run that the model decided on: that of the checkpoint
before it, or the given one. -/
def call_steps : Nat → List Event → List Nat
  | _, [] => []
  | step, e :: rest =>
    (if e.by_model then [step] else []) ++ call_steps (e.checkpoint_step.getD step) rest

/-- The step after some events. -/
def step_after (step : Nat) (events : List Event) : Nat :=
  (checkpoint_steps events).getLast?.getD step

/-- The event is no checkpoint. -/
def InStep (e : Event) : Prop := e.checkpoint_step = none

/-- The event is no checkpoint, and no tool run that the model decided on. -/
def OffStep (e : Event) : Prop := e.checkpoint_step = none ∧ e.by_model = false

theorem inStep_smallTalk : SmallTalk InStep where
  emit := fun _ => rfl
  audit := fun _ => rfl
  append := fun _ => rfl
  title := fun _ _ => rfl
  finish := fun _ => rfl
  validate := fun _ _ => rfl
  decide := fun _ _ => rfl
  approval := fun _ _ => rfl

theorem offStep_smallTalk : SmallTalk OffStep where
  emit := fun _ => ⟨rfl, rfl⟩
  audit := fun _ => ⟨rfl, rfl⟩
  append := fun _ => ⟨rfl, rfl⟩
  title := fun _ _ => ⟨rfl, rfl⟩
  finish := fun _ => ⟨rfl, rfl⟩
  validate := fun _ _ => ⟨rfl, rfl⟩
  decide := fun _ _ => ⟨rfl, rfl⟩
  approval := fun _ _ => ⟨rfl, rfl⟩

theorem step_after_cons (step : Nat) (e : Event) (rest : List Event) :
    step_after step (e :: rest) = step_after (e.checkpoint_step.getD step) rest := by
  unfold step_after checkpoint_steps
  cases he : e.checkpoint_step with
  | none => rw [List.filterMap_cons_none he, Option.getD_none]
  | some s =>
    rw [List.filterMap_cons_some he, List.getLast?_cons, Option.getD_some]
    rfl

theorem call_steps_append (step : Nat) (a b : List Event) :
    call_steps step (a ++ b) = call_steps step a ++ call_steps (step_after step a) b := by
  induction a generalizing step with
  | nil => rfl
  | cons e a ih =>
    rw [List.cons_append, step_after_cons]
    simp only [call_steps, ih, List.append_assoc]

/-- Within a step the calls are those of the step. -/
theorem call_steps_inStep {step : Nat} {events : List Event} (h : ∀ e ∈ events, InStep e) :
    call_steps step events = List.replicate (events.countP Event.by_model) step := by
  induction events with
  | nil => rfl
  | cons e rest ih =>
    have he : e.checkpoint_step = none := h e List.mem_cons_self
    simp only [call_steps, he, Option.getD_none, List.countP_cons,
      ih (fun e he => h e (List.mem_cons_of_mem _ he))]
    cases e.by_model with
    | false => simp
    | true => simp [List.replicate_succ]

theorem checkpoint_steps_inStep {events : List Event} (h : ∀ e ∈ events, InStep e) :
    checkpoint_steps events = [] :=
  List.filterMap_eq_nil_iff.mpr h

theorem checkpoint_steps_append (a b : List Event) :
    checkpoint_steps (a ++ b) = checkpoint_steps a ++ checkpoint_steps b :=
  List.filterMap_append

/-- The calls belong to steps that were checkpointed, or to the given step. -/
theorem mem_call_steps {step k : Nat} {events : List Event} (h : k ∈ call_steps step events) :
    k = step ∨ k ∈ checkpoint_steps events := by
  induction events generalizing step with
  | nil => cases h
  | cons e rest ih =>
    simp only [call_steps, List.mem_append] at h
    rcases h with h | h
    · left
      split at h
      · exact List.mem_singleton.mp h
      · cases h
    · unfold checkpoint_steps
      cases he : e.checkpoint_step with
      | none =>
        rw [he, Option.getD_none] at h
        rw [List.filterMap_cons_none he]
        exact ih h
      | some s =>
        rw [he, Option.getD_some] at h
        rw [List.filterMap_cons_some he]
        right
        rcases ih h with rfl | hmem
        · exact List.mem_cons_self
        · exact List.mem_cons_of_mem _ hmem

/-- An attempt that starts at a step goes up: it never comes back to a step, and
never below the first one. -/
structure GoesUp (start : Nat) (events : List Event) : Prop where
  calls : ∀ step, (call_steps step events).Pairwise (· < ·)
  calls_from : ∀ step, ∀ k ∈ call_steps step events, start ≤ k
  checkpoints : (checkpoint_steps events).Pairwise (· < ·)
  checkpoints_from : ∀ k ∈ checkpoint_steps events, start ≤ k

theorem call_steps_offStep (step : Nat) {events : List Event} (h : ∀ e ∈ events, OffStep e) :
    call_steps step events = [] := by
  have hcount : events.countP Event.by_model = 0 := by
    rw [List.countP_eq_zero]
    intro e he
    rw [(h e he).2]
    decide
  rw [call_steps_inStep fun e he => (h e he).1, hcount, List.replicate_zero]

theorem goesUp_of_offStep {start : Nat} {events : List Event} (h : ∀ e ∈ events, OffStep e) :
    GoesUp start events := by
  have hin : ∀ e ∈ events, InStep e := fun e he => (h e he).1
  have hcalls : ∀ step, call_steps step events = [] := fun step => call_steps_offStep step h
  constructor
  · intro step
    rw [hcalls]
    exact List.Pairwise.nil
  · intro step k hk
    rw [hcalls] at hk
    cases hk
  · rw [checkpoint_steps_inStep hin]
    exact List.Pairwise.nil
  · intro k hk
    rw [checkpoint_steps_inStep hin] at hk
    cases hk

theorem goesUp_offStep_append {start : Nat} {a b : List Event} (ha : ∀ e ∈ a, OffStep e)
    (hb : GoesUp start b) : GoesUp start (a ++ b) := by
  have hin : ∀ e ∈ a, InStep e := fun e he => (ha e he).1
  have hcalls : ∀ step, call_steps step (a ++ b) = call_steps (step_after step a) b := by
    intro step
    rw [call_steps_append, call_steps_offStep step ha, List.nil_append]
  constructor
  · intro step
    rw [hcalls]
    exact hb.calls _
  · intro step k hk
    rw [hcalls] at hk
    exact hb.calls_from _ k hk
  · rw [checkpoint_steps_append, checkpoint_steps_inStep hin]
    exact hb.checkpoints
  · rw [checkpoint_steps_append, checkpoint_steps_inStep hin]
    exact hb.checkpoints_from

/-- A step that is checkpointed first, with at most one call, and then later
steps. -/
theorem goesUp_step {step : Nat} {run : AgentRun} {messages : List Message} {a b : List Event}
    (ha : ∀ e ∈ a, InStep e) (hone : a.countP Event.by_model ≤ 1) (hb : GoesUp (step + 1) b) :
    GoesUp step (.store (.checkpoint run step messages) :: a ++ b) := by
  have hafter : step_after step a = step := by
    unfold step_after
    rw [checkpoint_steps_inStep ha]
    rfl
  have hcalls : ∀ s, call_steps s (.store (.checkpoint run step messages) :: a ++ b) =
      List.replicate (a.countP Event.by_model) step ++ call_steps step b := by
    intro s
    rw [List.cons_append]
    change [] ++ call_steps step (a ++ b) = _
    rw [List.nil_append, call_steps_append, call_steps_inStep ha, hafter]
  have hsteps : checkpoint_steps (.store (.checkpoint run step messages) :: a ++ b) =
      step :: checkpoint_steps b := by
    rw [List.cons_append]
    change step :: checkpoint_steps (a ++ b) = _
    rw [checkpoint_steps_append, checkpoint_steps_inStep ha, List.nil_append]
  constructor
  · intro s
    rw [hcalls, List.pairwise_append]
    refine ⟨?_, hb.calls step, ?_⟩
    · rw [List.pairwise_replicate]
      exact .inl hone
    · intro i hi j hj
      have := hb.calls_from step j hj
      rw [List.eq_of_mem_replicate hi]
      omega
  · intro s k hk
    rw [hcalls, List.mem_append] at hk
    rcases hk with hk | hk
    · rw [List.eq_of_mem_replicate hk]
    · have := hb.calls_from step k hk
      omega
  · rw [hsteps, List.pairwise_cons]
    refine ⟨?_, hb.checkpoints⟩
    intro k hk
    have := hb.checkpoints_from k hk
    omega
  · intro k hk
    rw [hsteps, List.mem_cons] at hk
    rcases hk with rfl | hk
    · omega
    · have := hb.checkpoints_from k hk
      omega

/-- A crash keeps the order. -/
theorem goesUp_prefix_of {start : Nat} {a b : List Event} (hab : a <+: b) (h : GoesUp start b) :
    GoesUp start a := by
  obtain ⟨c, rfl⟩ := hab
  have hcalls : ∀ step, call_steps step a <+: call_steps step (a ++ c) := by
    intro step
    rw [call_steps_append]
    exact List.prefix_append _ _
  have hsteps : checkpoint_steps a <+: checkpoint_steps (a ++ c) := by
    rw [checkpoint_steps_append]
    exact List.prefix_append _ _
  exact
    { calls := fun step => (h.calls step).sublist (hcalls step).sublist
      calls_from := fun step k hk => h.calls_from step k ((hcalls step).subset hk)
      checkpoints := h.checkpoints.sublist hsteps.sublist
      checkpoints_from := fun k hk => h.checkpoints_from k (hsteps.subset hk) }

theorem goesUp_nil (start : Nat) : GoesUp start [] := goesUp_of_offStep (by simp)

theorem goesUp_mono {start start' : Nat} (hle : start' ≤ start) {events : List Event}
    (h : GoesUp start events) : GoesUp start' events where
  calls := h.calls
  calls_from := fun step k hk => Nat.le_trans hle (h.calls_from step k hk)
  checkpoints := h.checkpoints
  checkpoints_from := fun k hk => Nat.le_trans hle (h.checkpoints_from k hk)

/-- A turn of the loop checkpoints its step before it does anything else. -/
def TurnShape (step : Nat) (tr : List Event) : Prop :=
  (∀ e ∈ tr, OffStep e) ∨
    ∃ e run messages body, tr = .emit e :: .store (.checkpoint run step messages) :: body ∧
      ∀ e ∈ body, InStep e

theorem turn_shape (rt : AgentRuntime W) (c : Caller W) (mt : ModelText) (x : LoopContext W)
    {p : Persistence W} (hp : rt.persistence = some p) (step : Nat) (s : LoopState) :
    Emits (TurnShape step) (rt.turn c mt x step s) := by
  have hin := inStep_smallTalk
  refine emits_of_after (after_ask (fun cancelled => ?_))
  split
  · have hfinish : Within OffStep (do
        let outcome ← rt.finish_run c x.run none .Cancelled
        return Turn.finished outcome) :=
      within_bind (within_finish_run offStep_smallTalk rt c _ _ _) (fun _ => within_pure _)
    exact fun w => .inl (hfinish w)
  · refine after_emit ?_
    have hstore : rt.store (.checkpoint x.run step s.messages) =
        p.store (.checkpoint x.run step s.messages) := by
      unfold AgentRuntime.store
      rw [hp]
    rw [hstore]
    refine after_observe (fun _ w => .inr ⟨.Step step, x.run, s.messages, _, rfl, ?_⟩)
    refine within_bind (within_generate_step hin c mt _ _ rfl) (fun answer => ?_) w
    rcases answer with e | ⟨resp, streamed⟩
    · refine within_bind (within_audit hin rt _ _ _ _ _) (fun _ => ?_)
      exact within_bind (within_finish_run hin rt c _ _ _) (fun _ => within_fail _)
    · refine within_bind ?_ (fun a => within_bind (within_audit hin rt _ _ _ _ _) (fun _ => ?_))
      · unfold AgentRuntime.correct
        split
        · refine within_bind (within_new_message rt _ _ _ _) (fun m => ?_)
          refine within_bind (within_generate_step hin c mt _ _ rfl) (fun retry => ?_)
          rcases retry with e | ⟨r, streamed⟩ <;> exact within_pure _
        · exact within_pure _
      · unfold AgentRuntime.act
        split
        · refine within_bind (within_new_message rt _ _ _ _) (fun _ => ?_)
          refine within_bind (within_persist_msg hin rt _ _) (fun _ => ?_)
          refine within_bind (within_when _ (within_emit hin c _)) (fun _ => ?_)
          exact within_bind (within_finish_run hin rt c _ _ _) (fun _ => within_pure _)
        · refine within_bind (within_draw _) (fun call => ?_)
          refine within_bind (within_execute_tool hin rt c _ rfl) (fun msg => ?_)
          exact within_bind (within_persist_msg hin rt _ _) (fun _ => within_pure _)

theorem turn_goesUp {step : Nat} {a b : List Event} (ha : TurnShape step a)
    (hone : a.countP Event.by_model ≤ 1) (hb : GoesUp (step + 1) b) : GoesUp step (a ++ b) := by
  rcases ha with hoff | ⟨e, run, messages, body, rfl, hbody⟩
  · exact goesUp_offStep_append hoff (goesUp_mono (Nat.le_succ step) hb)
  · have hbodyone : body.countP Event.by_model ≤ 1 := by
      simpa [List.countP_cons, Event.by_model] using hone
    have hstep : GoesUp step (.store (.checkpoint run step messages) :: body ++ b) :=
      goesUp_step hbody hbodyone hb
    have hemit : ∀ x ∈ [Event.emit e], OffStep x := by
      intro x hx
      rw [List.mem_singleton.mp hx]
      exact ⟨rfl, rfl⟩
    exact goesUp_offStep_append (a := [Event.emit e]) hemit hstep

theorem run_loop_goesUp (rt : AgentRuntime W) (c : Caller W) (mt : ModelText) (x : LoopContext W)
    {p : Persistence W} (hp : rt.persistence = some p) (left step : Nat) (s : LoopState) :
    Emits (GoesUp step) (rt.run_loop c mt x left step s) := by
  induction left generalizing step s with
  | zero =>
    have hend : Within OffStep (rt.run_loop c mt x 0 step s) :=
      within_bind (within_finish_run offStep_smallTalk rt c _ _ _) (fun _ => within_fail _)
    exact emits_mono hend (fun _ => goesUp_of_offStep)
  | succ left ih =>
    have hturn : Emits (fun tr => TurnShape step tr ∧ tr.countP Event.by_model ≤ 1)
        (rt.turn c mt x step s) :=
      fun w => ⟨turn_shape rt c mt x hp step s w, (turn_upTo rt c mt x step s w).2⟩
    refine emits_bind_append (Q := GoesUp (step + 1)) (goesUp_nil _)
      (fun a b ha hb => turn_goesUp ha.1 ha.2 hb) hturn (fun t => ?_)
    rcases t with outcome | s'
    · exact fun w => goesUp_nil _
    · exact ih (step + 1) s'

/-! ## The calls of a whole attempt -/

theorem within_begin_run {R : Event → Prop} (hR : SmallTalk R)
    (hbegin : ∀ run input, R (.store (.begin run input))) (rt : AgentRuntime W) (c : Caller W)
    (q : RunRequest) : Within R (rt.begin_run c q) := by
  refine within_bind (within_draw _) (fun _ => within_bind (within_draw _) (fun _ => ?_))
  refine within_bind (within_draw _) (fun _ => within_bind (within_emit hR c _) (fun _ => ?_))
  refine within_bind (within_audit hR rt _ _ _ _ _) (fun _ => ?_)
  refine within_bind (within_store (hbegin _ _)) (fun _ => ?_)
  refine within_bind (within_conv_or_new rt _) (fun _ => within_bind (within_ask _) (fun _ => ?_))
  refine within_bind (within_build_request rt _ _ _ _) (fun _ => ?_)
  refine within_bind (within_new_message rt _ _ _ _) (fun msg => ?_)
  refine within_bind (within_when _ ?_) (fun _ => within_pure _)
  exact within_bind (within_store (hR.append _)) (fun _ => within_store (hR.title _ _))

theorem within_resume {R : Event → Prop} (hR : SmallTalk R) (rt : AgentRuntime W) (c : Caller W)
    (d : AgentDefinition) (rid : AgentRunId) : Within R (rt.resume c d rid) := by
  unfold AgentRuntime.resume
  cases rt.persistence with
  | none => exact within_fail _
  | some p =>
    refine within_bind (emits_consult (additive_forall R) _) (fun row => ?_)
    refine within_bind (within_emit hR c _) (fun _ => ?_)
    exact within_bind (within_audit hR rt _ _ _ _ _) (fun _ => within_pure _)

theorem begin_run_step (rt : AgentRuntime W) (c : Caller W) (q : RunRequest) :
    Returns (fun s : Prepared => s.step = 0) (rt.begin_run c q) := by
  unfold AgentRuntime.begin_run
  refine returns_bind (fun _ _ => returns_bind (fun _ _ => returns_bind (fun _ _ => ?_)))
  refine returns_bind (fun _ _ => returns_bind (fun _ _ => returns_bind (fun _ _ => ?_)))
  refine returns_bind (fun _ _ => returns_bind (fun _ _ => returns_bind (fun _ _ => ?_)))
  exact returns_bind (fun _ _ => returns_bind (fun _ _ => returns_pure rfl))

/-- The first step of an attempt: the one it resumes at, or 0. -/
theorem prepared_step {a : Attempt W} {s : Prepared}
    (hs : (a.runtime.prepare a.caller a.request a.world).1 = .ok s) :
    s.step = a.start.getD 0 := by
  unfold AgentRuntime.prepare at hs
  cases hresume : a.request.resume_from with
  | none =>
    have hstart : a.start = none := by
      unfold Attempt.start Attempt.loaded
      rw [hresume]
      cases a.runtime.persistence <;> rfl
    rw [hresume] at hs
    rw [begin_run_step _ _ _ s ⟨_, hs⟩, hstart]
    rfl
  | some rid =>
    rw [hresume] at hs
    dsimp only at hs
    unfold AgentRuntime.resume at hs
    cases hpersist : a.runtime.persistence with
    | none =>
      rw [hpersist] at hs
      cases hs
    | some p =>
      rw [hpersist] at hs
      rcases hload : p.load rid a.world with ⟨e | ⟨r, step, msgs, input⟩, w'⟩
      · change (Prog.bind (consult (p.load rid)) _ a.world).1 = _ at hs
        unfold Prog.bind consult at hs
        rw [hload] at hs
        cases hs
      · have hstart : a.start = some step := by
          unfold Attempt.start Attempt.loaded
          rw [hresume, hpersist]
          dsimp only
          rw [hload]
          rfl
        change (Prog.bind (consult (p.load rid)) _ a.world).1 = _ at hs
        unfold Prog.bind consult at hs
        rw [hload] at hs
        rw [hstart]
        cases hs
        rfl

/-- An attempt goes up from its first step: on the fast path no call is the
model's. -/
theorem attempt_goesUp {a : Attempt W} {p : Persistence W} (hvalid : a.Valid)
    (hpersist : a.runtime.persistence = some p) : GoesUp (a.start.getD 0) a.events := by
  refine goesUp_prefix_of hvalid ?_
  have hoff := offStep_smallTalk
  unfold AgentRuntime.run
  cases a.runtime.providers a.request.definition.provider with
  | none => exact goesUp_nil _
  | some provider =>
    dsimp only
    rw [trace_bind]
    refine goesUp_offStep_append ?_ ?_
    · have hprepare : Within OffStep (a.runtime.prepare a.caller a.request) := by
        unfold AgentRuntime.prepare
        split
        · exact within_resume hoff _ _ _ _
        · exact within_begin_run hoff (fun _ _ => ⟨rfl, rfl⟩) _ _ _
      exact hprepare a.world
    · split
      · rename_i s hs
        rw [← prepared_step hs]
        have hquiet : ∀ {β γ : Type} {q : Action W β} {f : β → Action W γ}, Within OffStep q →
            (∀ b, Emits (GoesUp s.step) (f b)) → Emits (GoesUp s.step) (q >>= f) :=
          fun hq hf => emits_bind_append (goesUp_nil _)
            (fun _ _ ha hb => goesUp_offStep_append ha hb) hq hf
        refine hquiet (within_conv_or_new _ _) (fun conv => ?_) _
        refine hquiet (within_ask _) (fun query => hquiet (within_ask _) (fun cancelled => ?_))
        split
        · rename_i intent _
          have hfast := within_fast_path hoff (fun _ _ => ⟨rfl, rfl⟩) (fun _ => ⟨rfl, rfl⟩)
            a.host.windows a.runtime a.caller
            { definition := a.request.definition, run := s.run, conv := conv,
              mem_scope := isolated_scope query, provider := provider } intent
          exact emits_mono hfast (fun _ => goesUp_of_offStep)
        · exact run_loop_goesUp _ _ _ _ hpersist _ _ _
      · exact goesUp_nil _

/-- The steps of the calls of an attempt. -/
def Attempt.calls (a : Attempt W) : List Nat := call_steps (a.start.getD 0) a.events

theorem last_checkpoint_step (events : List Event) :
    (last_checkpoint events).map Prod.fst = (checkpoint_steps events).getLast? := by
  induction events with
  | nil => rfl
  | cons e rest ih =>
    unfold last_checkpoint
    split
    · rename_i heq
      cases heq
    · rename_i run step messages rest' heq
      obtain ⟨rfl, rfl⟩ := List.cons.inj heq
      have hcons : checkpoint_steps (.store (.checkpoint run step messages) :: rest) =
          step :: checkpoint_steps rest := rfl
      rw [hcons, List.getLast?_cons, ← ih]
      cases last_checkpoint rest <;> rfl
    · rename_i hother heq
      obtain ⟨rfl, rfl⟩ := List.cons.inj heq
      have hcons : checkpoint_steps (e :: rest) = checkpoint_steps rest := by
        apply List.filterMap_cons_none
        cases e with
        | store op =>
          cases op with
          | checkpoint run step messages => exact (hother run step messages rfl).elim
          | _ => rfl
        | _ => rfl
      rw [hcons, ih]

/-- What the store holds after an attempt is not below any step it called at. -/
theorem calls_below_row {start : Nat} {events : List Event} (h : GoesUp start events) :
    start ≤ (last_checkpoint events).elim start Prod.fst ∧
      ∀ k ∈ call_steps start events, k ≤ (last_checkpoint events).elim start Prod.fst := by
  have hlast := last_checkpoint_step events
  cases hl : last_checkpoint events with
  | none =>
    rw [hl, eq_comm, Option.map_none, List.getLast?_eq_none_iff] at hlast
    refine ⟨Nat.le_refl _, ?_⟩
    intro k hk
    rcases mem_call_steps hk with rfl | hmem
    · exact Nat.le_refl _
    · rw [hlast] at hmem
      cases hmem
  | some l =>
    rw [hl, eq_comm, Option.map_some, List.getLast?_eq_some_iff] at hlast
    obtain ⟨before, hsteps⟩ := hlast
    have hmax : ∀ k ∈ checkpoint_steps events, k ≤ l.1 := by
      intro k hk
      have hsorted := h.checkpoints
      rw [hsteps] at hk hsorted
      rcases List.mem_append.mp hk with hk | hk
      · have := (List.pairwise_append.mp hsorted).2.2 k hk l.1 (by simp)
        omega
      · rw [List.mem_singleton.mp hk]
    have hfrom : start ≤ l.1 := h.checkpoints_from l.1 (by rw [hsteps]; simp)
    refine ⟨hfrom, ?_⟩
    intro k hk
    rcases mem_call_steps hk with rfl | hmem
    · exact hfrom
    · exact hmax k hmem

/-- At most once in an attempt, and not below its first step. -/
theorem calls_count {a : Attempt W} (h : GoesUp (a.start.getD 0) a.events) (k : Nat) :
    a.calls.count k ≤ 1 ∧ (k < a.start.getD 0 → k ∉ a.calls) := by
  constructor
  · have hsorted := h.calls (a.start.getD 0)
    exact List.nodup_iff_count.mp (hsorted.imp (fun hlt => Nat.ne_of_lt hlt)) k
  · intro hlt hmem
    have := h.calls_from _ k hmem
    omega

/-- What holds at each point of a life: no call was above the step in the store,
and a step has one call, and one more for each resume at it. -/
def CallsBelow (as : List (Attempt W)) (row : RunRow) : Prop :=
  ∀ k, (as.flatMap Attempt.calls).count k ≤ 1 + as.countP (fun a => a.start = some k) ∧
    (k ∈ as.flatMap Attempt.calls → k ≤ row.step)

theorem life_calls {t₀ t : RunTable} {rid : AgentRunId} {input : String} {as : List (Attempt W)}
    (life : Life t₀ rid input as t) :
    (∀ a ∈ as, ∃ p, a.runtime.persistence = some p ∧ a.Valid) ∧
      ∃ row, t rid = some row ∧ CallsBelow as row := by
  induction life with
  | @begun a run hvalid hfresh hpersist hbegun hid hinput =>
    obtain ⟨p, hp⟩ := Option.isSome_iff_exists.mp hpersist
    have hup := attempt_goesUp hvalid hp
    have hstart : a.start = none := by
      unfold Attempt.start Attempt.loaded
      rw [hfresh, hp]
      rfl
    obtain ⟨row, hrow, hstep, _⟩ := first_row t₀ hvalid hfresh hpersist hbegun
    rw [hid] at hrow
    refine ⟨by simpa using ⟨⟨p, hp⟩, hvalid⟩, row, hrow, ?_⟩
    intro k
    have hcount := (calls_count hup k).1
    have hbelow := (calls_below_row hup).2 k
    rw [hstart, Option.getD_none, ← hstep] at hbelow
    rw [List.flatMap_singleton]
    refine ⟨by omega, ?_⟩
    unfold Attempt.calls
    rw [hstart]
    exact hbelow
  | @resumed as t a p life hvalid hresume hpersist hload ih =>
    obtain ⟨hall, row, hrow, hcalls⟩ := ih
    have hup := attempt_goesUp hvalid hpersist
    have hstart : a.start = some row.step := by
      unfold Attempt.start Attempt.loaded
      rw [hresume, hpersist]
      dsimp only
      rw [hload]
      unfold RunTable.load
      rw [hrow]
      rfl
    obtain ⟨row', hrow', hstep, _⟩ := row_after hrow
      (fun e he => ofRun_of_keepsTo (resumed_keeps hvalid hresume hpersist hload hrow e he))
    have hbelow := calls_below_row hup
    rw [hstart, Option.getD_some, ← hstep] at hbelow
    refine ⟨?_, row', hrow', ?_⟩
    · intro b hb
      rcases List.mem_append.mp hb with hb | hb
      · exact hall b hb
      · rw [List.mem_singleton.mp hb]
        exact ⟨p, hpersist, hvalid⟩
    · intro k
      obtain ⟨hcount, hmem⟩ := hcalls k
      obtain ⟨hone, hfrom⟩ := calls_count hup k
      rw [List.flatMap_append, List.flatMap_singleton, List.count_append, List.countP_append,
        List.countP_singleton, hstart]
      rw [hstart, Option.getD_some] at hfrom
      constructor
      · -- below the resumed step nothing is new, above it nothing is old
        rcases Nat.lt_trichotomy k row.step with hlt | rfl | hgt
        · have := List.count_eq_zero.mpr (hfrom hlt)
          omega
        · simp only [decide_true, if_true]
          omega
        · have hnot : k ∉ as.flatMap Attempt.calls := fun hk => by have := hmem hk; omega
          have := List.count_eq_zero.mpr hnot
          omega
      · intro hk
        rcases List.mem_append.mp hk with hk | hk
        · have := hmem hk
          omega
        · unfold Attempt.calls at hk
          rw [hstart] at hk
          exact hbelow.2 k hk

end pai_agent
