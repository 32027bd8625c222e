-- A workflow run that stops on the way and is resumed (pai-workflows): what the saved
-- cursor and outputs bring back, and what only the process that stopped had.
import PersonalAi.Workflows

open pai_core pai_agent pai_tools program json

namespace pai_workflows

/-! ## The store -/

/-- The tables of workflows and of their runs, and all else that the agent works on.
The JSON of a column is modelled by the value that it stands for. -/
structure Machine (A : Type) where
  runs : List WorkflowRunRow
  workflows : List WorkflowRow
  agent : A

variable {A : Type}

def Machine.run_row (w : Machine A) (id : String) : Option WorkflowRunRow :=
  w.runs.find? (fun r => r.id == id)

def Machine.workflow (w : Machine A) (id : String) : Option WorkflowRow :=
  w.workflows.find? (fun r => r.id == id)

def Machine.update_run (w : Machine A) (id : String) (f : WorkflowRunRow → WorkflowRunRow) :
    Machine A :=
  { w with runs := w.runs.map (fun r => if r.id == id then f r else r) }

/-- A row as `start_run` opens it. -/
def fresh_run (id workflow_id input : String) : WorkflowRunRow :=
  { id := id, workflow_id := workflow_id, input := input, status := "running", step_index := 0,
    outputs := [], error := none }

/-- The statements of the store. -/
def sql_store (new_id : A → String × A) : WorkflowStore (Machine A) where
  start_run workflow_id input w :=
    let (id, a) := new_id w.agent
    if (w.run_row id).isSome then
      (.error (.Storage "UNIQUE constraint failed: workflow_runs.id"), { w with agent := a })
    else (.ok id, { w with runs := w.runs ++ [fresh_run id workflow_id input], agent := a })
  get_run id w := (.ok (w.run_row id), w)
  get_workflow id w := (.ok (w.workflow id), w)
  save_progress id step_index outputs w :=
    (.ok (), w.update_run id (fun r => { r with step_index := step_index, outputs := outputs }))
  finish_run id status error w :=
    (.ok (), w.update_run id (fun r => { r with status := status, error := error }))

/-- An update by an id is what the next lookup of it finds. -/
theorem run_row_update {w : Machine A} {id : String} {row : WorkflowRunRow}
    (f : WorkflowRunRow → WorkflowRunRow) (hf : ∀ r, (f r).id = r.id)
    (h : w.run_row id = some row) : (w.update_run id f).run_row id = some (f row) := by
  unfold Machine.run_row Machine.update_run at *
  dsimp only
  generalize w.runs = runs at h ⊢
  induction runs with
  | nil => cases h
  | cons r runs ih =>
    by_cases hr : r.id = id
    · simp only [List.find?_cons, hr, beq_self_eq_true, Option.some.injEq] at h
      subst h
      simp [hf, hr]
    · have hr' : (r.id == id) = false := by simpa using hr
      simp only [List.find?_cons, hr'] at h
      simp only [List.map_cons, hr', Bool.false_eq_true, if_false, List.find?_cons]
      exact ih h

/-! ## A run that stops -/

section Parts
variable {W : Type} (rn : WorkflowRunner W) (c : Caller W)

/-- The loop of `drive`, for at most so many steps. -/
def run_some (audit_run : AgentRun) (d : WorkflowDefinition) (run_id input : String) :
    Nat → Nat → Outputs → Option Value → List WorkflowStep → Action W (Outputs × Option Value)
  | 0, _, outputs, last, _ => pure (outputs, last)
  | _ + 1, _, outputs, last, [] => pure (outputs, last)
  | n + 1, i, outputs, _, s :: rest => do
    let (entry, output) ← run_step rn c audit_run d input outputs s
    let outputs := Outputs.insert s.id entry outputs
    consult (rn.store.save_progress run_id (i + 1) outputs)
    run_some audit_run d run_id input n (i + 1) outputs (some output) rest

/-- What `drive` does before its loop. -/
def enter (wf : WorkflowRow) (run_id : String) : Action W (WorkflowRunRow × AgentRun) := do
  demand (fun _ => wf.definition.validate)
  let row ← get_run_or_fail rn run_id
  let audit_run ← new_audit_run rn.agent
  return (row, audit_run)

/-- What `drive` makes of its loop. -/
def close_run (run_id : String) (row : WorkflowRunRow) (steps : Action W (Option Value)) :
    Action W WorkflowOutcome := do
  let result ← attempt steps
  match result with
  | .error e => do
    consult (rn.store.finish_run run_id "failed" (some e.to_string))
    fail e
  | .ok last => do
    consult (rn.store.finish_run run_id "done" none)
    let after ← consult (rn.store.get_run run_id)
    return { run := after.getD row, output := last }

/-- Where a process can stop in `drive`: before its loop; behind the progress of so many
steps; in a step, or behind it and before its progress is saved; behind `finish_run`. -/
inductive Point
  | Entered
  | Saved (i : Nat)
  | Ran (i : Nat)
  | Finished

/-- The part of `drive` before such a point. -/
def drive_until (wf : WorkflowRow) (run_id input : String) : Point → Action W Unit
  | .Entered => pure ()
  | .Saved i => do
    let (row, audit_run) ← enter rn wf run_id
    let _ ← run_some rn c audit_run wf.definition run_id input i row.step_index row.outputs none
      (wf.definition.steps.drop row.step_index)
    return ()
  | .Ran i => do
    let (row, audit_run) ← enter rn wf run_id
    let (outputs, _) ← run_some rn c audit_run wf.definition run_id input i row.step_index row.outputs
      none (wf.definition.steps.drop row.step_index)
    match wf.definition.steps.drop (row.step_index + i) with
    | [] => return ()
    | s :: _ => do
      let _ ← run_step rn c audit_run wf.definition input outputs s
      return ()
  | .Finished => do
    let (row, audit_run) ← enter rn wf run_id
    let _ ← run_some rn c audit_run wf.definition run_id input wf.definition.steps.length
      row.step_index row.outputs none (wf.definition.steps.drop row.step_index)
    consult (rn.store.finish_run run_id "done" none)

/-- The loop is some of its steps, and then the others. -/
theorem run_steps_split (audit_run : AgentRun) (d : WorkflowDefinition) (run_id input : String)
    (n i : Nat) (outputs : Outputs) (last : Option Value) (steps : List WorkflowStep) :
    run_steps rn c audit_run d run_id input i outputs last steps = (do
      let (outputs, last) ← run_some rn c audit_run d run_id input n i outputs last steps
      run_steps rn c audit_run d run_id input (i + min n steps.length) outputs last (steps.drop n)) := by
  induction n generalizing i outputs last steps with
  | zero => simp [run_some, pure_then]
  | succ n ih =>
    cases steps with
    | nil => simp [run_some, run_steps, pure_then]
    | cons s rest =>
      simp only [run_steps, run_some, bind_assoc]
      congr 1
      funext r
      obtain ⟨entry, output⟩ := r
      dsimp only
      congr 1
      funext _
      rw [ih (i + 1) (Outputs.insert s.id entry outputs) (some output) rest]
      have hnum : i + 1 + min n rest.length = i + min (n + 1) (rest.length + 1) := by omega
      simp only [List.drop_succ_cons, List.length_cons, hnum]

theorem drive_eq (wf : WorkflowRow) (run_id input : String) :
    drive rn c wf run_id input = (do
      let (row, audit_run) ← enter rn wf run_id
      close_run rn run_id row (run_steps rn c audit_run wf.definition run_id input row.step_index
        row.outputs none (wf.definition.steps.drop row.step_index))) := by
  unfold drive enter
  simp only [bind_assoc, pure_then]
  rfl

/-- A part of `drive` up to a saved step is a part of it: the rest of the loop goes on
from there. -/
theorem drive_goes_on {rn : WorkflowRunner W} {c : Caller W} {wf : WorkflowRow}
    {run_id input : String} {row : WorkflowRunRow} {audit_run : AgentRun} {w w₁ w₂ : W} {i : Nat}
    {outputs : Outputs} {last : Option Value}
    (henter : (enter rn wf run_id).outcome w = (.ok (row, audit_run), w₁))
    (hrun : (run_some rn c audit_run wf.definition run_id input i row.step_index row.outputs none
      (wf.definition.steps.drop row.step_index)).outcome w₁ = (.ok (outputs, last), w₂)) :
    (drive rn c wf run_id input).outcome w =
      (close_run rn run_id row (run_steps rn c audit_run wf.definition run_id input
        (row.step_index + min i (wf.definition.steps.drop row.step_index).length) outputs last
        ((wf.definition.steps.drop row.step_index).drop i))).outcome w₂ := by
  rw [drive_eq, outcome_bind_ok henter]
  dsimp only
  unfold close_run
  rw [outcome_bind, outcome_bind, outcome_attempt, outcome_attempt,
    run_steps_split rn c audit_run wf.definition run_id input i, outcome_bind_ok hrun]

end Parts

/-- A run that is started has a fresh row. -/
theorem start_run_opens {new_id : A → String × A} {workflow_id input id : String} {w w' : Machine A}
    (h : (sql_store new_id).start_run workflow_id input w = (.ok id, w')) :
    w'.run_row id = some (fresh_run id workflow_id input) ∧ w'.workflows = w.workflows := by
  simp only [sql_store] at h
  split at h
  · cases h
  · rename_i hnew
    simp only [Prod.mk.injEq, Except.ok.injEq] at h
    obtain ⟨rfl, rfl⟩ := h
    refine ⟨?_, rfl⟩
    have hnone : w.runs.find? (fun r => r.id == (new_id w.agent).1) = none := by
      simpa [Machine.run_row] using hnew
    simp [Machine.run_row, List.find?_append, hnone, fresh_run]

/-! ## Steps of one result -/

abbrev StepResult := WorkflowStep → Outputs → Except Error (Value × Value)

/-- The outputs and the last output of steps, from their results alone. -/
def play (result : StepResult) : Outputs → Option Value → List WorkflowStep →
    Except Error (Outputs × Option Value)
  | outputs, last, [] => .ok (outputs, last)
  | outputs, _, s :: rest =>
    match result s outputs with
    | .ok (entry, output) => play result (Outputs.insert s.id entry outputs) (some output) rest
    | .error e => .error e

theorem play_append (result : StepResult) (outputs : Outputs) (last : Option Value)
    (as bs : List WorkflowStep) : play result outputs last (as ++ bs) =
      match play result outputs last as with
      | .ok (outputs', last') => play result outputs' last' bs
      | .error e => .error e := by
  induction as generalizing outputs last with
  | nil => rfl
  | cons s as ih =>
    simp only [List.cons_append, play]
    cases result s outputs with
    | error e => rfl
    | ok r => exact ih _ _

/-- Steps that all have a result have one in their first part too. -/
theorem play_split {result : StepResult} {outputs outs : Outputs} {last l : Option Value}
    {steps : List WorkflowStep} (n : Nat) (h : play result outputs last steps = .ok (outs, l)) :
    ∃ outs₁ l₁, play result outputs last (steps.take n) = .ok (outs₁, l₁) ∧
      play result outs₁ l₁ (steps.drop n) = .ok (outs, l) := by
  rw [← List.take_append_drop n steps, play_append] at h
  cases hfirst : play result outputs last (steps.take n) with
  | error e => simp [hfirst] at h
  | ok r => exact ⟨r.1, r.2, rfl, by simpa [hfirst] using h⟩

/-- Only no step at all leaves the output that was there before. -/
theorem play_last {result : StepResult} {outputs outs : Outputs} {last l : Option Value}
    {steps : List WorkflowStep} (h : play result outputs last steps = .ok (outs, l)) :
    (steps = [] → l = last) ∧ (steps ≠ [] → ∃ v, l = some v) := by
  induction steps generalizing outputs last with
  | nil =>
    simp only [play, Except.ok.injEq, Prod.mk.injEq] at h
    exact ⟨fun _ => h.2.symm, fun hne => absurd rfl hne⟩
  | cons s steps ih =>
    refine ⟨fun hnil => by simp at hnil, fun _ => ?_⟩
    simp only [play] at h
    split at h
    · rename_i entry output _
      obtain ⟨hnil, hcons⟩ := ih h
      by_cases hrest : steps = []
      · exact ⟨output, hnil hrest⟩
      · exact hcons hrest
    · cases h

/-- The first output that is given does not matter behind a step. -/
theorem play_first {result : StepResult} {outputs : Outputs} {steps : List WorkflowStep}
    (last last' : Option Value) (h : steps ≠ []) :
    play result outputs last steps = play result outputs last' steps := by
  cases steps with
  | nil => exact absurd rfl h
  | cons s rest => rfl

/-- The steps of a definition have results that only depend on the outputs before them,
and they leave the workflow tables alone. `journal` is what a run of a step leaves
behind. -/
structure Deterministic (rn : WorkflowRunner (Machine A)) (c : Caller (Machine A))
    (d : WorkflowDefinition) (input : String) (result : StepResult) (journal : A → List String) :
    Prop where
  step : ∀ audit_run s, s ∈ d.steps → ∀ outputs w, ∃ a,
    (run_step rn c audit_run d input outputs s).outcome w = (result s outputs, { w with agent := a }) ∧
      journal a = journal w.agent ++ [s.id]
  audit_run : ∀ w, ∃ run a, (new_audit_run rn.agent).outcome w = (.ok run, { w with agent := a }) ∧
    journal a = journal w.agent

/-! ## What a part of a run leaves behind -/

/-- A run of a workflow on the machine. -/
structure Setting (rn : WorkflowRunner (Machine A)) (c : Caller (Machine A)) (wf : WorkflowRow)
    (input : String) (result : StepResult) (journal : A → List String) : Prop where
  store : ∃ new_id, rn.store = sql_store new_id
  steps : Deterministic rn c wf.definition input result journal
  valid : wf.definition.validate = .ok ()

/-- The run row, the workflows and the journal of a machine. -/
structure Shows (journal : A → List String) (w : Machine A) (run_id : String) (row : WorkflowRunRow)
    (workflows : List WorkflowRow) (log : List String) : Prop where
  row : w.run_row run_id = some row
  workflows : w.workflows = workflows
  log : journal w.agent = log

variable {rn : WorkflowRunner (Machine A)} {c : Caller (Machine A)} {wf : WorkflowRow}
  {run_id input : String} {result : StepResult} {journal : A → List String}
  {workflows : List WorkflowRow}

/-- Steps that are run leave their outputs and the cursor in the row, and themselves in
the journal. -/
theorem run_some_spec (hs : Setting rn c wf input result journal) (audit_run : AgentRun) (n : Nat)
    {steps : List WorkflowStep} (hsteps : ∀ s ∈ steps, s ∈ wf.definition.steps) {i : Nat}
    {outputs outs : Outputs} {last l : Option Value} {row : WorkflowRunRow} {log : List String}
    {w : Machine A} (hi : row.step_index = i) (houtputs : row.outputs = outputs)
    (hw : Shows journal w run_id row workflows log)
    (hplay : play result outputs last (steps.take n) = .ok (outs, l)) :
    ∃ w', (run_some rn c audit_run wf.definition run_id input n i outputs last steps).outcome w =
        (.ok (outs, l), w') ∧
      Shows journal w' run_id { row with step_index := i + min n steps.length, outputs := outs }
        workflows (log ++ (steps.take n).map WorkflowStep.id) := by
  induction n generalizing steps i outputs last row log w with
  | zero =>
    simp only [List.take_zero, play, Except.ok.injEq, Prod.mk.injEq] at hplay
    obtain ⟨rfl, rfl⟩ := hplay
    refine ⟨w, rfl, ?_⟩
    subst hi houtputs
    simpa using hw
  | succ n ih =>
    cases steps with
    | nil =>
      simp only [List.take_nil, play, Except.ok.injEq, Prod.mk.injEq] at hplay
      obtain ⟨rfl, rfl⟩ := hplay
      refine ⟨w, rfl, ?_⟩
      subst hi houtputs
      simpa using hw
    | cons s rest =>
      simp only [List.take_succ_cons, play] at hplay
      split at hplay
      · rename_i entry output hresult
        obtain ⟨a, hstep, hlog⟩ := hs.steps.step audit_run s (hsteps s List.mem_cons_self) outputs w
        obtain ⟨new_id, hstore⟩ := hs.store
        have hw' : Shows journal
            (({ w with agent := a } : Machine A).update_run run_id
              (fun r => { r with step_index := i + 1, outputs := Outputs.insert s.id entry outputs }))
            run_id { row with step_index := i + 1, outputs := Outputs.insert s.id entry outputs }
            workflows (log ++ [s.id]) := by
          refine ⟨?_, hw.workflows, ?_⟩
          · exact run_row_update _ (fun _ => rfl) hw.row
          · rw [← hw.log]
            exact hlog
        obtain ⟨w', hrun, hshows⟩ := ih (fun s' hs' => hsteps s' (List.mem_cons_of_mem _ hs')) rfl rfl
          hw' hplay
        refine ⟨w', ?_, ?_⟩
        · simp only [run_some]
          rw [hresult] at hstep
          rw [outcome_bind_ok hstep]
          dsimp only
          rw [outcome_bind, outcome_consult, hstore]
          exact hrun
        · have hnum : i + 1 + min n rest.length = i + min (n + 1) (rest.length + 1) := by omega
          simpa [hnum] using hshows
      · cases hplay

theorem get_run_spec (hs : Setting rn c wf input result journal) {row : WorkflowRunRow}
    {w : Machine A} (h : w.run_row run_id = some row) :
    (get_run_or_fail rn run_id).outcome w = (.ok row, w) := by
  obtain ⟨new_id, hstore⟩ := hs.store
  unfold get_run_or_fail
  rw [outcome_bind, outcome_consult, hstore]
  simp only [sql_store, h]
  rfl

theorem enter_spec (hs : Setting rn c wf input result journal) {row : WorkflowRunRow}
    {log : List String} {w : Machine A} (hw : Shows journal w run_id row workflows log) :
    ∃ audit_run w', (enter rn wf run_id).outcome w = (.ok (row, audit_run), w') ∧
      Shows journal w' run_id row workflows log := by
  obtain ⟨audit_run, a, haudit, hlog⟩ := hs.steps.audit_run w
  refine ⟨audit_run, { w with agent := a }, ?_, ?_⟩
  · unfold enter
    have hvalid : (demand (fun _ => wf.definition.validate) : Action (Machine A) Unit).outcome w =
        (.ok (), w) := by rw [outcome_demand, hs.valid]
    rw [outcome_bind_ok hvalid, outcome_bind_ok (get_run_spec hs hw.row), outcome_bind_ok haudit]
    rfl
  · exact ⟨hw.row, hw.workflows, by rw [← hw.log]; exact hlog⟩

/-- `drive` from the cursor of the row, where the steps that are left have results. -/
theorem drive_spec (hs : Setting rn c wf input result journal) {row : WorkflowRunRow}
    {log : List String} {w : Machine A} (hw : Shows journal w run_id row workflows log)
    {outs : Outputs} {l : Option Value}
    (hplay : play result row.outputs none (wf.definition.steps.drop row.step_index) = .ok (outs, l)) :
    ∃ out w', (drive rn c wf run_id input).outcome w = (.ok out, w') ∧ out.run.status = "done" ∧
      out.run.outputs = outs ∧ out.output = l ∧
      journal w'.agent = log ++ (wf.definition.steps.drop row.step_index).map WorkflowStep.id := by
  obtain ⟨audit_run, w₁, henter, hw₁⟩ := enter_spec hs hw
  have hsub : ∀ s ∈ wf.definition.steps.drop row.step_index, s ∈ wf.definition.steps :=
    fun s hmem => List.mem_of_mem_drop hmem
  have hall : (wf.definition.steps.drop row.step_index).take wf.definition.steps.length =
      wf.definition.steps.drop row.step_index := List.take_of_length_le (by simp)
  have hnone : (wf.definition.steps.drop row.step_index).drop wf.definition.steps.length = [] :=
    List.drop_of_length_le (by simp)
  obtain ⟨w₂, hrun, hw₂⟩ := run_some_spec hs audit_run wf.definition.steps.length hsub rfl rfl hw₁
    (by rw [hall]; exact hplay)
  rw [hall] at hw₂
  obtain ⟨new_id, hstore⟩ := hs.store
  have hrow := run_row_update (fun r => { r with status := "done", error := none }) (fun _ => rfl)
    hw₂.row
  have hdrive := drive_goes_on henter hrun
  rw [hnone] at hdrive
  generalize min wf.definition.steps.length (wf.definition.steps.drop row.step_index).length = n at *
  refine ⟨{ run := { row with step_index := row.step_index + n, outputs := outs, status := "done",
                              error := none },
            output := l },
    w₂.update_run run_id (fun r => { r with status := "done", error := none }), ?_, ?_⟩
  · rw [hdrive]
    dsimp only [close_run, run_steps]
    rw [outcome_bind, outcome_attempt, outcome_pure]
    dsimp only
    rw [outcome_bind, outcome_consult, hstore]
    simp only [sql_store]
    rw [outcome_bind, outcome_consult, hrow]
    rfl
  · exact ⟨rfl, rfl, rfl, hw₂.log⟩

/-- A row that still runs is resumed where its cursor stands. -/
theorem resume_eq (hs : Setting rn c wf input result journal) {row : WorkflowRunRow}
    {w : Machine A} (hrow : w.run_row run_id = some row) (hstatus : row.status = "running")
    (hwf : w.workflow row.workflow_id = some wf) :
    (rn.resume c run_id).outcome w = (drive rn c wf run_id row.input).outcome w := by
  unfold WorkflowRunner.resume
  rw [outcome_bind_ok (get_run_spec hs hrow), if_neg (by simp [hstatus])]
  have hfind : (workflow_of rn row.workflow_id).outcome w = (.ok wf, w) := by
    obtain ⟨new_id, hstore⟩ := hs.store
    unfold workflow_of
    rw [outcome_bind, outcome_consult, hstore]
    simp only [sql_store, hwf]
    rfl
  rw [outcome_bind_ok hfind]

/-- A row that is closed is not resumed. -/
theorem resume_closed (hs : Setting rn c wf input result journal) {row : WorkflowRunRow}
    {w : Machine A} (hrow : w.run_row run_id = some row) (hstatus : row.status ≠ "running") :
    ∃ e, (rn.resume c run_id).outcome w = (.error e, w) := by
  unfold WorkflowRunner.resume
  rw [outcome_bind_ok (get_run_spec hs hrow), if_pos hstatus]
  exact ⟨_, rfl⟩

/-! ## A resumed run -/

/-- The resumed run comes to the end of the uninterrupted one. -/
def ResumesAs (full : WorkflowOutcome) (r : Except Error WorkflowOutcome) : Prop :=
  ∃ out, r = .ok out ∧ out.run.status = "done" ∧ out.run.outputs = full.run.outputs ∧
    out.output = full.output

/-- Of these steps, the first process began some and the second one took up the rest,
with at most one of them again. -/
def AtMostOneAgain (ids before after : List String) : Prop :=
  ∃ i j, i ≤ j ∧ j ≤ i + 1 ∧ after = before ++ ids.take j ++ ids.drop i

/-- A point of a run of so many steps. -/
def Point.Of (n : Nat) : Point → Prop
  | .Entered => True
  | .Saved i => i ≤ n
  | .Ran i => i < n
  | .Finished => True

/-- The progress of the last step is not saved yet. -/
def Point.BeforeLastSave (n : Nat) : Point → Prop
  | .Entered => True
  | .Saved i => i < n
  | .Ran _ => True
  | .Finished => False

/-- A process stopped behind so many saved steps, and may have begun the next one: the
row has their outputs, and still runs. -/
structure StoppedAt (wf : WorkflowRow) (run_id input : String) (result : StepResult)
    (journal : A → List String) (workflows : List WorkflowRow) (log : List String) (i j : Nat)
    (w : Machine A) : Prop where
  ordered : i ≤ j ∧ j ≤ i + 1 ∧ i ≤ wf.definition.steps.length
  shows : ∃ outs l, play result [] none (wf.definition.steps.take i) = .ok (outs, l) ∧
    Shows journal w run_id { fresh_run run_id wf.id input with step_index := i, outputs := outs }
      workflows (log ++ (wf.definition.steps.take j).map WorkflowStep.id)

theorem steps_pos {d : WorkflowDefinition} (h : d.validate = .ok ()) : 0 < d.steps.length := by
  unfold WorkflowDefinition.validate at h
  split at h
  · cases h
  · split at h
    · cases h
    · rename_i hne
      cases hsteps : d.steps with
      | nil => simp [hsteps] at hne
      | cons s rest => simp

section Resumed
variable {w : Machine A} {log : List String} {outs : Outputs} {last : Option Value}

theorem saved_spec (hs : Setting rn c wf input result journal)
    (hw : Shows journal w run_id (fresh_run run_id wf.id input) workflows log)
    (hplay : play result [] none wf.definition.steps = .ok (outs, last)) {i : Nat}
    (hi : i ≤ wf.definition.steps.length) :
    ∃ audit_run w₁ w' outs₁ l₁, (enter rn wf run_id).outcome w =
        (.ok (fresh_run run_id wf.id input, audit_run), w₁) ∧
      (run_some rn c audit_run wf.definition run_id input i 0 [] none wf.definition.steps).outcome w₁ =
        (.ok (outs₁, l₁), w') ∧
      play result [] none (wf.definition.steps.take i) = .ok (outs₁, l₁) ∧
      StoppedAt wf run_id input result journal workflows log i i w' := by
  obtain ⟨audit_run, w₁, henter, hw₁⟩ := enter_spec hs hw
  obtain ⟨outs₁, l₁, hfirst, _⟩ := play_split i hplay
  obtain ⟨w', hrun, hw'⟩ := run_some_spec hs audit_run i (fun s hmem => hmem) rfl rfl hw₁ hfirst
  refine ⟨audit_run, w₁, w', outs₁, l₁, henter, hrun, hfirst, ?_⟩
  refine ⟨by omega, outs₁, l₁, hfirst, ?_⟩
  have hnum : 0 + min i wf.definition.steps.length = i := by omega
  simpa only [fresh_run, hnum] using hw'

/-- Where a run stops before `finish_run`. -/
theorem until_spec (hs : Setting rn c wf input result journal)
    (hw : Shows journal w run_id (fresh_run run_id wf.id input) workflows log)
    (hplay : play result [] none wf.definition.steps = .ok (outs, last)) {p : Point}
    (hp : p.Of wf.definition.steps.length) (hnot : p ≠ .Finished) :
    ∃ i j, StoppedAt wf run_id input result journal workflows log i j
        ((drive_until rn c wf run_id input p).outcome w).2 ∧
      (i < wf.definition.steps.length ↔ p.BeforeLastSave wf.definition.steps.length) := by
  cases p with
  | Entered =>
    have hpos : 0 < wf.definition.steps.length := steps_pos hs.valid
    refine ⟨0, 0, ⟨by omega, [], none, rfl, ?_⟩, ?_⟩
    · have huntil : ((drive_until rn c wf run_id input .Entered).outcome w).2 = w := rfl
      rw [huntil]
      simpa [fresh_run] using hw
    simp [Point.BeforeLastSave, hpos]
  | Saved i =>
    obtain ⟨audit_run, w₁, w', outs₁, l₁, henter, hrun, _, hstop⟩ := saved_spec hs hw hplay hp
    refine ⟨i, i, ?_, Iff.rfl⟩
    have huntil : (drive_until rn c wf run_id input (.Saved i)).outcome w = (.ok (), w') := by
      unfold drive_until
      rw [outcome_bind_ok henter]
      dsimp only [fresh_run]
      rw [List.drop_zero, outcome_bind_ok hrun]
      rfl
    rw [huntil]
    exact hstop
  | Ran i =>
    have hi : i < wf.definition.steps.length := hp
    obtain ⟨audit_run, w₁, w', outs₁, l₁, henter, hrun, _, hstop⟩ := saved_spec hs hw hplay
      (Nat.le_of_lt hi)
    have hdrop := List.drop_eq_getElem_cons hi
    obtain ⟨a, hstep, hlog⟩ := hs.steps.step audit_run wf.definition.steps[i]
      (List.getElem_mem hi) outs₁ w'
    refine ⟨i, i + 1, ?_, by simp [Point.BeforeLastSave, hi]⟩
    have huntil : ((drive_until rn c wf run_id input (.Ran i)).outcome w).2 =
        { w' with agent := a } := by
      unfold drive_until
      rw [outcome_bind_ok henter]
      dsimp only [fresh_run]
      rw [List.drop_zero, outcome_bind_ok hrun]
      dsimp only
      rw [Nat.zero_add, hdrop]
      dsimp only
      rw [outcome_bind, hstep]
      cases result wf.definition.steps[i] outs₁ <;> rfl
    rw [huntil]
    obtain ⟨hord, outs₂, l₂, hfirst, hshows⟩ := hstop
    refine ⟨by omega, outs₂, l₂, hfirst, hshows.row, hshows.workflows, ?_⟩
    have htake : wf.definition.steps.take (i + 1) =
        wf.definition.steps.take i ++ [wf.definition.steps[i]] := by
      rw [List.take_add_one, List.getElem?_eq_getElem hi]
      rfl
    rw [hlog, hshows.log, htake, List.map_append, List.append_assoc]
    rfl
  | Finished => exact absurd rfl hnot

/-- Behind `finish_run` the row is closed. -/
theorem finished_spec (hs : Setting rn c wf input result journal)
    (hw : Shows journal w run_id (fresh_run run_id wf.id input) workflows log)
    (hplay : play result [] none wf.definition.steps = .ok (outs, last)) :
    ∃ row, ((drive_until rn c wf run_id input .Finished).outcome w).2.run_row run_id = some row ∧
      row.status = "done" := by
  obtain ⟨audit_run, w₁, w', outs₁, l₁, henter, hrun, _, _, outs₂, l₂, _, hshows⟩ :=
    saved_spec hs hw hplay (Nat.le_refl _)
  obtain ⟨new_id, hstore⟩ := hs.store
  have hrow := run_row_update (fun r => { r with status := "done", error := none }) (fun _ => rfl)
    hshows.row
  have huntil : ((drive_until rn c wf run_id input .Finished).outcome w).2 =
      w'.update_run run_id (fun r => { r with status := "done", error := none }) := by
    unfold drive_until
    rw [outcome_bind_ok henter]
    dsimp only [fresh_run]
    rw [List.drop_zero, outcome_bind_ok hrun, hstore]
    rfl
  rw [huntil]
  exact ⟨_, hrow, rfl⟩

/-- The run that is resumed from there ends as the steps make it end, and gives the last
output only if there is a step left to give one. -/
theorem resumed_spec (hs : Setting rn c wf input result journal)
    (hwf : ∀ w : Machine A, w.workflows = workflows → w.workflow wf.id = some wf)
    (hplay : play result [] none wf.definition.steps = .ok (outs, last)) {i j : Nat}
    (hstop : StoppedAt wf run_id input result journal workflows log i j w) {a : A}
    (ha : journal a = journal w.agent) :
    ∃ out w₂, (rn.resume c run_id).outcome { w with agent := a } = (.ok out, w₂) ∧
      out.run.status = "done" ∧ out.run.outputs = outs ∧
      (out.output = last ↔ i < wf.definition.steps.length) ∧
      journal w₂.agent = log ++ (wf.definition.steps.take j).map WorkflowStep.id ++
        (wf.definition.steps.drop i).map WorkflowStep.id := by
  obtain ⟨⟨_, _, hi⟩, outs₁, l₁, hfirst, hshows⟩ := hstop
  obtain ⟨outs₂, l₂, hfirst', hrest⟩ := play_split i hplay
  rw [hfirst, Except.ok.injEq, Prod.mk.injEq] at hfirst'
  obtain ⟨rfl, rfl⟩ := hfirst'
  have hshows' : Shows journal ({ w with agent := a } : Machine A) run_id
      { fresh_run run_id wf.id input with step_index := i, outputs := outs₁ } workflows
      (log ++ (wf.definition.steps.take j).map WorkflowStep.id) :=
    ⟨hshows.row, hshows.workflows, by rw [ha, hshows.log]⟩
  have hresume := resume_eq hs hshows'.row rfl (hwf _ hshows'.workflows)
  by_cases hlt : i < wf.definition.steps.length
  · have hne : wf.definition.steps.drop i ≠ [] := by
      rw [Ne, List.drop_eq_nil_iff]
      omega
    rw [play_first l₁ none hne] at hrest
    obtain ⟨out, w₂, hdrive, hdone, houts, hout, hlog⟩ := drive_spec hs hshows' hrest
    exact ⟨out, w₂, hresume.trans hdrive, hdone, houts, by simp [hout, hlt], hlog⟩
  · have hnil : wf.definition.steps.drop i = [] := List.drop_of_length_le (by omega)
    have hsame : outs = outs₁ := by
      rw [hnil, play, Except.ok.injEq, Prod.mk.injEq] at hrest
      exact hrest.1.symm
    have hplay' : play result outs₁ none (wf.definition.steps.drop i) = .ok (outs, none) := by
      rw [hnil, hsame]
      rfl
    obtain ⟨out, w₂, hdrive, hdone, houts, hout, hlog⟩ := drive_spec hs hshows' hplay'
    refine ⟨out, w₂, hresume.trans hdrive, hdone, houts, ?_, hlog⟩
    have hpos := steps_pos hs.valid
    obtain ⟨v, hv⟩ := (play_last hplay).2 (by
      intro hempty
      simp [hempty] at hpos)
    simp [hout, hv, hlt]

/-- A resumed run ends as the uninterrupted one, and begins at most one step again, exactly
when the process stopped before the progress of the last step was saved. -/
theorem a_resumed_run_ends_as_an_uninterrupted_one_before_its_last_save
    (hs : Setting rn c wf input result journal)
    (hrow : w.run_row run_id = some (fresh_run run_id wf.id input))
    (hwf : w.workflow wf.id = some wf)
    (hplay : play result [] none wf.definition.steps = .ok (outs, last)) (p : Point)
    (hp : p.Of wf.definition.steps.length) (a : A)
    (ha : journal a = journal ((drive_until rn c wf run_id input p).outcome w).2.agent) :
    ∃ full w₀, (drive rn c wf run_id input).outcome w = (.ok full, w₀) ∧
      ((ResumesAs full ((rn.resume c run_id).outcome
          { ((drive_until rn c wf run_id input p).outcome w).2 with agent := a }).1 ∧
        AtMostOneAgain (wf.definition.steps.map WorkflowStep.id) (journal w.agent)
          (journal ((rn.resume c run_id).outcome
            { ((drive_until rn c wf run_id input p).outcome w).2 with agent := a }).2.agent)) ↔
        p.BeforeLastSave wf.definition.steps.length) := by
  have hw : Shows journal w run_id (fresh_run run_id wf.id input) w.workflows (journal w.agent) :=
    ⟨hrow, rfl, rfl⟩
  obtain ⟨full, w₀, hdrive, _, houts, hout, _⟩ := drive_spec hs hw (by simpa [fresh_run] using hplay)
  refine ⟨full, w₀, hdrive, ?_⟩
  by_cases hfin : p = .Finished
  · subst hfin
    obtain ⟨row, hclosed, hdone⟩ := finished_spec hs hw hplay
    obtain ⟨e, hresume⟩ := resume_closed hs (w := { ((drive_until rn c wf run_id input
      .Finished).outcome w).2 with agent := a }) hclosed (by simp [hdone])
    rw [hresume]
    simp [ResumesAs, Point.BeforeLastSave]
  · obtain ⟨i, j, hstop, hbefore⟩ := until_spec hs hw hplay hp hfin
    have hord := hstop.ordered
    have hfind : ∀ w' : Machine A, w'.workflows = w.workflows → w'.workflow wf.id = some wf := by
      intro w' heq
      unfold Machine.workflow at hwf ⊢
      rw [heq, hwf]
    obtain ⟨out, w₂, hresume, hdone, houts', hlast, hlog⟩ := resumed_spec hs hfind hplay hstop ha
    rw [hresume, ← hbefore, ← hlast]
    constructor
    · rintro ⟨⟨out', heq, _, _, hsame⟩, _⟩
      cases heq
      rw [hsame, hout]
    · intro hsame
      refine ⟨⟨out, rfl, hdone, by rw [houts', houts], by rw [hsame, hout]⟩, i, j, hord.1, hord.2.1, ?_⟩
      rw [hlog, List.map_take, List.map_drop]

end Resumed

/-- A device whose adder writes down that it ran. -/
def adding_desk : AgentRuntime (Machine (List String)) :=
  { providers := fun _ => none,
    tools := ToolRegistry.empty.register
      { descriptor := { name := "calculator.add", description := "Add two numbers.",
                        input_schema := .object [("type", .string "object")],
                        required_permissions := [.ComputeLocal], risk := .Low },
        execute := fun _ _ w => (.ok { value := .string "5", summary := "sum" },
          { w with agent := w.agent ++ ["sum"] }) },
    permissions := fun _ => { rules := fun _ => some .AlwaysAllow },
    memory_recall := fun _ w => (.ok [], w), record := fun _ w => (.ok (), w), max_steps := 4,
    device := ⟨"desk"⟩, persistence := none, allowed_roots := [], new_id := fun w => ("id", w),
    now := fun w => (0, w) }

def adding_runner : WorkflowRunner (Machine (List String)) :=
  { host :=
      { windows := false, classify := fun _ => none,
        model_text :=
          { parse_action := fun _ => none, looks_like_tool_attempt := fun _ _ => false,
            push := fun _ _ => none } },
    agent := adding_desk, store := sql_store (fun a => ("run", a)), provider := "local", model := none }

def adding_caller : Caller (Machine (List String)) :=
  { approval := fun _ w => (false, w), emit := fun _ w => w, cancelled := fun _ => false }

/-- A workflow of one step. -/
def adding_workflow : WorkflowRow :=
  { id := "wf",
    definition :=
      { name := "add", description := "", tools := ["calculator.add"],
        steps := [.Tool "sum" "calculator.add" (.object [])] } }

def adding_start : Machine (List String) :=
  { runs := [fresh_run "run" "wf" ""], workflows := [adding_workflow], agent := [] }

/-- The row of a run that has added, behind `save_progress` and behind `finish_run`. -/
def added_row (status : String) : WorkflowRunRow :=
  { fresh_run "run" "wf" "" with
    status := status
    step_index := 1
    outputs := [("sum", .object [("summary", .string "sum"), ("value", .string "5")])] }

/-- Behind the last `save_progress` the resumed run has no step left that would give the
output. -/
theorem the_output_is_lost_behind_the_last_save : ∃ full w₀,
    (drive adding_runner adding_caller adding_workflow "run" "").outcome adding_start = (.ok full, w₀) ∧
    ¬ ResumesAs full ((adding_runner.resume adding_caller "run").outcome
      ((drive_until adding_runner adding_caller adding_workflow "run" "" (.Saved 1)).outcome
        adding_start).2).1 := by
  have hfull : (drive adding_runner adding_caller adding_workflow "run" "").outcome adding_start =
      (.ok { run := added_row "done", output := some (.string "5") },
        { adding_start with runs := [added_row "done"], agent := ["sum"] }) := rfl
  have hresumed : ((adding_runner.resume adding_caller "run").outcome
      ((drive_until adding_runner adding_caller adding_workflow "run" "" (.Saved 1)).outcome
        adding_start).2).1 = .ok { run := added_row "done", output := none } := rfl
  refine ⟨_, _, hfull, ?_⟩
  rw [hresumed]
  rintro ⟨out, heq, _, _, hout⟩
  rw [Except.ok.injEq] at heq
  rw [← heq] at hout
  cases hout

theorem adding_setting : Setting adding_runner adding_caller adding_workflow ""
    (fun _ _ => .ok (.object [("summary", .string "sum"), ("value", .string "5")], .string "5")) id where
  store := ⟨fun a => ("run", a), rfl⟩
  valid := by decide
  steps :=
    { step := by
        intro audit_run s hs outputs w
        simp only [adding_workflow, List.mem_singleton] at hs
        subst hs
        exact ⟨w.agent ++ ["sum"], rfl, rfl⟩
      audit_run := fun w => ⟨_, w.agent, rfl, rfl⟩ }

/-- A process that stops in the step itself loses nothing. -/
theorem a_run_that_stops_in_its_step_is_resumed : ∃ full w₀,
    (drive adding_runner adding_caller adding_workflow "run" "").outcome adding_start = (.ok full, w₀) ∧
    ((ResumesAs full ((adding_runner.resume adding_caller "run").outcome
        { ((drive_until adding_runner adding_caller adding_workflow "run" "" (.Ran 0)).outcome
          adding_start).2 with agent := ["sum"] }).1 ∧
      AtMostOneAgain ["sum"] [] ["sum", "sum"]) ↔ True) :=
  a_resumed_run_ends_as_an_uninterrupted_one_before_its_last_save adding_setting rfl rfl rfl (.Ran 0)
    Nat.zero_lt_one ["sum"] rfl

end pai_workflows
