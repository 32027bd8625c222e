-- Background tasks (pai-tasks): the processes that share one `tasks` table, each in a
-- run of `claim_and_run`, and which task comes to a handler when.
import Mathlib.Data.List.Sort
import PersonalAi.Core
import PersonalAi.Lib.Chars
import PersonalAi.Lib.Table

open pai_core table text json

namespace pai_tasks

/-! ## Tasks -/

structure TaskId where
  text : String
deriving DecidableEq, Repr

inductive TaskState
  | Pending | Running | Done | Failed | Cancelled
deriving DecidableEq, Repr

inductive SyncScope
  | DeviceLocal | Synchronized
deriving DecidableEq, Repr

inductive Trigger
  | Schedule (cron : String)
  | Event (source event : String)
  | Manual
deriving DecidableEq, Repr

structure Task where
  id : TaskId
  title : String
  agent : AgentId
  created_at : Timestamp
  run_at : Option Timestamp
  state : TaskState
  sync_scope : SyncScope
deriving DecidableEq

structure ScheduledTask where
  task : Task
  trigger : Trigger
  payload : Value
deriving DecidableEq

/-- `t + chrono::Duration::seconds(secs)`. An instant that chrono cannot hold is a panic
there; nothing before the epoch is told apart. -/
def plus_seconds (t : Timestamp) (secs : Int) : Timestamp := ((t : Int) + secs * 1000000000).toNat

def next_fire (trigger : Trigger) (start : Timestamp) : Option Timestamp :=
  match trigger with
  | .Manual => none
  | .Event _ _ => none
  | .Schedule cron =>
    match ( strip_prefix "@every " cron).bind (fun s => parse_i64 (s.toList.rdropWhile (· = 's'))) with
    | some secs => some (plus_seconds start secs)
    | none => none

example : next_fire (.Schedule "@every 60s") 5 = some 60000000005 := by decide

/-! ## The table

`TaskColumns` is a row without its primary key. A JSON column is modelled by the value
that it stands for. -/

structure TaskColumns where
  title : String
  agent_id : AgentId
  created_at : Timestamp
  run_at : Option Timestamp
  state : TaskState
  trigger : Trigger
  payload : Value
  result : Option Value
  claimed_by : Option DeviceId
  lease_expires_at : Option Timestamp
  updated_at : Timestamp
  deleted : Bool
  sync_scope : SyncScope

structure TaskRow extends TaskColumns where
  id : TaskId

abbrev Tasks := Table TaskId TaskColumns

def TaskRow.scheduled (t : TaskRow) : ScheduledTask :=
  { task :=
      { id := t.id, title := t.title, agent := t.agent_id, created_at := t.created_at,
        run_at := t.run_at, state := t.state, sync_scope := t.sync_scope }
    trigger := t.trigger
    payload := t.payload }

/-- SQL's `column <= ?`, which is not true of NULL. -/
def passed (column : Option Timestamp) (clock : Timestamp) : Bool := column.any (· ≤ clock)

/-- The `WHERE` clause of `due_tasks`. -/
def TaskColumns.due (c : TaskColumns) (clock : Timestamp) : Bool :=
  !c.deleted && (c.run_at.isNone || passed c.run_at clock) &&
    ((c.state = .Pending && (c.claimed_by.isNone || c.lease_expires_at.isNone ||
        passed c.lease_expires_at clock)) ||
      (c.state = .Running && passed c.lease_expires_at clock))

/-- `ORDER BY run_at`: NULL comes first. -/
def earlier (a b : TaskRow) : Prop :=
  match a.run_at, b.run_at with
  | none, _ => True
  | some _, none => False
  | some x, some y => x ≤ y

instance (a b : TaskRow) : Decidable (earlier a b) := by
  unfold earlier
  split <;> infer_instance

def due_tasks (tasks : Tasks) (clock : Timestamp) : List TaskRow :=
  ((tasks.entries.filter (fun e => e.2.due clock)).map
    (fun e => { toTaskColumns := e.2, id := e.1 })).insertionSort earlier

/-- An `UPDATE` of the row with an id. -/
def Tasks.update (tasks : Tasks) (id : TaskId) (f : TaskColumns → TaskColumns) : Tasks :=
  match tasks.lookup id with
  | none => tasks
  | some c => tasks.insert id (f c)

/-- The `WHERE` clause of `claim_task`, behind the id. -/
def TaskColumns.claimable (c : TaskColumns) (device : DeviceId) (clock : Timestamp) : Bool :=
  !c.deleted && (c.state = .Pending || c.state = .Running) &&
    (c.claimed_by.isNone || c.claimed_by = some device || c.lease_expires_at.isNone ||
      passed c.lease_expires_at clock)

def claim_task (tasks : Tasks) (id : TaskId) (device : DeviceId) (lease_secs : Int)
    (clock : Timestamp) : Bool × Tasks :=
  match tasks.lookup id with
  | none => (false, tasks)
  | some c =>
    if c.claimable device clock then
      (true, tasks.insert id { c with
        claimed_by := some device, lease_expires_at := some (plus_seconds clock lease_secs),
        state := .Running, updated_at := clock })
    else (false, tasks)

def finish_task (tasks : Tasks) (id : TaskId) (state : TaskState) (result : Option Value)
    (clock : Timestamp) : Tasks :=
  tasks.update id (fun c =>
    { c with state := state, updated_at := clock, result := result.or c.result })

def requeue_task (tasks : Tasks) (id : TaskId) (next_run clock : Timestamp) : Tasks :=
  tasks.update id (fun c => { c with
    state := .Pending, run_at := some next_run, claimed_by := none, lease_expires_at := none,
    updated_at := clock })

def set_result (tasks : Tasks) (id : TaskId) (result : Value) (clock : Timestamp) : Tasks :=
  tasks.update id (fun c => { c with result := some result, updated_at := clock })

theorem lookup_update (tasks : Tasks) (id i : TaskId) (f : TaskColumns → TaskColumns) :
    (tasks.update id f).lookup i = if i = id then (tasks.lookup id).map f else tasks.lookup i := by
  unfold Tasks.update
  split
  · rename_i hnone
    split
    · rename_i heq
      rw [heq, hnone]
      rfl
    · rfl
  · rename_i c hsome
    rw [lookup_insert_if, hsome]
    rfl

/-! ## The processes -/

/-- The arguments of a call of `claim_and_run`; `clock` is its `at`. -/
structure Call where
  device : DeviceId
  clock : Timestamp
  lease_secs : Int

/-- Where a process is in `claim_and_run`: not in it, in front of the claim of the first
task of a list, or in the handler of a task. -/
inductive Stage
  | Idle
  | Claiming (call : Call) (due : List TaskRow)
  | Handling (call : Call) (t : TaskRow) (rest : List TaskRow)

/-- What the processes do to tasks: `Handed` at what the clock of the claim shows. -/
inductive Event
  | Handed (t : ScheduledTask) (clock : Timestamp)
  | Requeued (id : TaskId) (run_at : Timestamp)
  | Finished (id : TaskId) (state : TaskState)

/-- The table, every process, and what has happened so far, the oldest first. -/
structure State where
  tasks : Tasks
  stage : Nat → Stage
  trace : List Event

def State.goto (s : State) (p : Nat) (stage : Stage) : Nat → Stage := Function.update s.stage p stage

/-- A process calls `claim_and_run` and reads the due tasks, claims the next task of its list,
or its handler ends with `ok` and the task is requeued or finished. A handler may write
results, and a process may stop anywhere (an error of the store, a crash). The clock of a
step is what its `now()` gives. -/
inductive Step
  | Start (p : Nat) (call : Call)
  | Claim (p : Nat) (clock : Timestamp)
  | Close (p : Nat) (ok : Bool) (clock : Timestamp)
  | Write (id : TaskId) (result : Value) (clock : Timestamp)
  | Stop (p : Nat)

def handler_failed : Value := .object [("error", .string "handler failed")]

def step (s : State) : Step → State
  | .Start p call =>
    match s.stage p with
    | .Idle => { s with stage := s.goto p (.Claiming call (due_tasks s.tasks call.clock)) }
    | _ => s
  | .Claim p clock =>
    match s.stage p with
    | .Claiming _ [] => { s with stage := s.goto p .Idle }
    | .Claiming call (t :: rest) =>
      match claim_task s.tasks t.id call.device call.lease_secs clock with
      | (false, _) => { s with stage := s.goto p (.Claiming call rest) }
      | (true, tasks) =>
        { tasks := tasks, stage := s.goto p (.Handling call t rest),
          trace := s.trace ++ [.Handed t.scheduled clock] }
    | _ => s
  | .Close p ok clock =>
    match s.stage p with
    | .Handling call t rest =>
      match if ok then next_fire t.trigger call.clock else none with
      | some next =>
        { tasks := requeue_task s.tasks t.id next clock, stage := s.goto p (.Claiming call rest),
          trace := s.trace ++ [.Requeued t.id next] }
      | none =>
        let state := if ok then .Done else .Failed
        { tasks := finish_task s.tasks t.id state (if ok then none else some handler_failed) clock,
          stage := s.goto p (.Claiming call rest), trace := s.trace ++ [.Finished t.id state] }
    | _ => s
  | .Write id result clock => { s with tasks := set_result s.tasks id result clock }
  | .Stop p => { s with stage := s.goto p .Idle }

/-- Every process is outside of `claim_and_run`. -/
def start (tasks : Tasks) : State := { tasks := tasks, stage := fun _ => .Idle, trace := [] }

def run (s : State) (steps : List Step) : State := steps.foldl step s

/-- A condition on every step of a run and the state before it. -/
def Along (P : State → Step → Prop) : State → List Step → Prop
  | _, [] => True
  | s, a :: steps => P s a ∧ Along P (step s a) steps

instance {P : State → Step → Prop} [∀ s a, Decidable (P s a)] :
    ∀ s steps, Decidable (Along P s steps)
  | _, [] => inferInstanceAs (Decidable True)
  | s, a :: steps =>
    have : Decidable (Along P (step s a) steps) := instDecidableAlong (step s a) steps
    inferInstanceAs (Decidable (P s a ∧ Along P (step s a) steps))

theorem Along.and {P Q : State → Step → Prop} {s : State} {steps : List Step} (hp : Along P s steps)
    (hq : Along Q s steps) : Along (fun s a => P s a ∧ Q s a) s steps := by
  induction steps generalizing s with
  | nil => trivial
  | cons a steps ih => exact ⟨⟨hp.1, hq.1⟩, ih hp.2 hq.2⟩

/-! ## Once, and not early -/

/-- Between two times that a task comes to a handler it was requeued. -/
def HandedOnce (trace : List Event) : Prop :=
  ∀ before t clock mid t' clock' after,
    trace = before ++ .Handed t clock :: mid ++ .Handed t' clock' :: after →
      t'.task.id = t.task.id → ∃ run_at, .Requeued t.task.id run_at ∈ mid

/-- A task that was requeued comes to a handler when its `run_at` is there. -/
def NotEarly (trace : List Event) : Prop :=
  ∀ before id run_at mid t clock after,
    trace = before ++ .Requeued id run_at :: mid ++ .Handed t clock :: after →
      t.task.id = id → (∀ later, .Requeued id later ∉ mid) → run_at ≤ clock

/-- No clock that is compared with leases has reached one of a running task. -/
def Step.in_lease (s : State) : Step → Bool
  | .Start _ { clock, .. } | .Claim _ clock =>
    s.tasks.entries.all (fun e => !(e.2.state = .Running && passed e.2.lease_expires_at clock))
  | _ => true

/-- The row of a claim is not running under a claim of the same device, and not pending
for a time that the clock has not reached. -/
def Step.free_and_due (s : State) : Step → Bool
  | .Claim p clock =>
    match s.stage p with
    | .Claiming call (t :: _) =>
      match s.tasks.lookup t.id with
      | some c =>
        !(c.state = .Running && c.claimed_by = some call.device) &&
          !(c.state = .Pending && c.run_at.any (clock < ·))
      | none => true
    | _ => true
  | _ => true

/-! ## What last happened to a task -/

inductive Phase
  | Fresh
  | Handed
  | Requeued (run_at : Timestamp)
  | Finished

def Event.id : Event → TaskId
  | .Handed t _ => t.task.id
  | .Requeued id _ => id
  | .Finished id _ => id

def Event.phase : Event → Phase
  | .Handed _ _ => .Handed
  | .Requeued _ run_at => .Requeued run_at
  | .Finished _ _ => .Finished

def Event.next (id : TaskId) (ph : Phase) (e : Event) : Phase := if e.id = id then e.phase else ph

def phase (id : TaskId) (trace : List Event) : Phase := trace.foldl (Event.next id) .Fresh

/-- A task that may come to a handler at a time. -/
def Phase.Free (clock : Timestamp) : Phase → Prop
  | .Fresh => True
  | .Requeued run_at => run_at ≤ clock
  | _ => False

/-- A task that has come to a handler and was not requeued. -/
def Phase.Taken : Phase → Prop
  | .Handed | .Finished => True
  | _ => False

theorem phase_concat (id : TaskId) (trace : List Event) (e : Event) :
    phase id (trace ++ [e]) = if e.id = id then e.phase else phase id trace := by
  simp [phase, Event.next]

theorem phase_split (id : TaskId) (before mid : List Event) (e : Event) (h : e.id = id) :
    phase id (before ++ e :: mid) = mid.foldl (Event.next id) e.phase := by
  simp [phase, Event.next, h]

/-- What is not a requeue of the task leaves it taken. -/
theorem phase_taken {id : TaskId} {e : Event} {mid : List Event}
    (hmid : ∀ run_at, .Requeued id run_at ∉ e :: mid) (hid : e.id = id) : e.phase.Taken := by
  cases e with
  | Handed t clock => trivial
  | Requeued i run_at =>
    cases hid
    exact absurd List.mem_cons_self (hmid run_at)
  | Finished i state => trivial

/-- Only a requeue makes a task that was handed free again. -/
theorem taken_until_requeued {id : TaskId} {mid : List Event}
    (hmid : ∀ run_at, .Requeued id run_at ∉ mid) {ph : Phase} (h : ph.Taken) :
    (mid.foldl (Event.next id) ph).Taken := by
  induction mid generalizing ph with
  | nil => exact h
  | cons e mid ih =>
    refine ih (fun r hr => hmid r (List.mem_cons_of_mem _ hr)) ?_
    unfold Event.next
    split
    · rename_i hid
      exact phase_taken hmid hid
    · exact h

/-- Behind a requeue a task waits for its time, until a handler has it. -/
theorem requeued_or_taken {id : TaskId} {mid : List Event}
    (hmid : ∀ run_at, .Requeued id run_at ∉ mid) (run_at : Timestamp) :
    mid.foldl (Event.next id) (.Requeued run_at) = .Requeued run_at ∨
      (mid.foldl (Event.next id) (.Requeued run_at)).Taken := by
  induction mid with
  | nil => exact Or.inl rfl
  | cons e mid ih =>
    have hrest : ∀ run_at, .Requeued id run_at ∉ mid :=
      fun r hr => hmid r (List.mem_cons_of_mem _ hr)
    by_cases hid : e.id = id
    · rw [List.foldl_cons, Event.next, if_pos hid]
      exact Or.inr (taken_until_requeued hrest (phase_taken hmid hid))
    · rw [List.foldl_cons, Event.next, if_neg hid]
      exact ih hrest

theorem not_free_of_taken {ph : Phase} {clock : Timestamp} (h : ph.Taken) : ¬ ph.Free clock := by
  cases ph with
  | Fresh => exact h.elim
  | Handed => exact id
  | Requeued run_at => exact h.elim
  | Finished => exact id

/-- Each task was free when it came to a handler. -/
def Orderly (trace : List Event) : Prop :=
  ∀ before t clock after, trace = before ++ .Handed t clock :: after →
    (phase t.task.id before).Free clock

theorem Orderly.concat {trace : List Event} (h : Orderly trace) {e : Event}
    (he : ∀ t clock, e = .Handed t clock → (phase t.task.id trace).Free clock) :
    Orderly (trace ++ [e]) := by
  intro before t clock after heq
  rcases List.eq_nil_or_concat after with rfl | ⟨after, last, rfl⟩
  · obtain ⟨rfl, hlast⟩ := List.append_inj' heq rfl
    exact he t clock (List.singleton_inj.mp hlast)
  · rw [List.concat_eq_append, ← List.cons_append, ← List.append_assoc] at heq
    obtain ⟨hinit, -⟩ := List.append_inj' heq rfl
    exact h before t clock after hinit

theorem Orderly.handed_once {trace : List Event} (h : Orderly trace) : HandedOnce trace := by
  intro before t clock mid t' clock' after heq hid
  by_contra hnone
  have hmid : ∀ run_at, .Requeued t.task.id run_at ∉ mid := fun r hr => hnone ⟨r, hr⟩
  have hfree := h (before ++ .Handed t clock :: mid) t' clock' after heq
  rw [hid, phase_split t.task.id before mid (.Handed t clock) rfl] at hfree
  have htaken : Phase.Taken .Handed := trivial
  exact not_free_of_taken (taken_until_requeued hmid htaken) hfree

theorem Orderly.not_early {trace : List Event} (h : Orderly trace) : NotEarly trace := by
  intro before id run_at mid t clock after heq hid hmid
  have hfree := h (before ++ .Requeued id run_at :: mid) t clock after heq
  rw [hid, phase_split id before mid (.Requeued id run_at) rfl] at hfree
  rcases requeued_or_taken hmid run_at with hwaits | htaken
  · rw [Event.phase, hwaits] at hfree
    exact hfree
  · exact absurd hfree (not_free_of_taken htaken)

/-! ## The invariant -/

/-- What the row of a task looks like behind what last happened to it. -/
def Fits : Phase → Option TaskColumns → Prop
  | .Fresh, _ => True
  | .Handed, some c => c.state = .Running ∧ c.claimed_by.isSome ∧ c.lease_expires_at.isSome
  | .Requeued run_at, some c => c.state = .Pending ∧ c.run_at = some run_at
  | .Finished, some c => c.state ≠ .Pending ∧ c.state ≠ .Running
  | _, none => False

/-- The task whose handler a process is in. -/
def Stage.handles : Stage → Option TaskId
  | .Handling _ t _ => some t.id
  | _ => none

structure Sound (s : State) : Prop where
  rows : ∀ id, Fits (phase id s.trace) (s.tasks.lookup id)
  turns : ∀ p id, (s.stage p).handles = some id → phase id s.trace = .Handed
  alone : ∀ p q id, (s.stage p).handles = some id → (s.stage q).handles = some id → p = q
  orderly : Orderly s.trace

theorem sound_start (tasks : Tasks) : Sound (start tasks) where
  rows _ := trivial
  turns p id h := by cases h
  alone p q id h _ := by cases h
  orderly before t clock after h := by
    exact absurd h (by simp [start])

/-- A stage of a process without a handler changes nothing. -/
theorem Sound.leave {s : State} (h : Sound s) (p : Nat) {stage : Stage} (hstage : stage.handles = none) :
    Sound { s with stage := s.goto p stage } := by
  have hold : ∀ q id, (s.goto p stage q).handles = some id → (s.stage q).handles = some id := by
    intro q id hq
    by_cases hqp : q = p
    · rw [hqp, State.goto, Function.update_self, hstage] at hq
      cases hq
    · rwa [State.goto, Function.update_of_ne hqp] at hq
  exact ⟨h.rows, fun q id hq => h.turns q id (hold q id hq),
    fun q r id hq hr => h.alone q r id (hold q id hq) (hold r id hr), h.orderly⟩

/-- An event about a task that no other process handles. -/
theorem Sound.turn {s : State} (h : Sound s) (p : Nat) {e : Event} {i : TaskId} (hi : e.id = i)
    {stage : Stage} {tasks : Tasks}
    (horder : ∀ t clock, e = .Handed t clock → (phase t.task.id s.trace).Free clock)
    (hothers : ∀ id, id ≠ i → tasks.lookup id = s.tasks.lookup id)
    (hrow : Fits e.phase (tasks.lookup i))
    (halone : ∀ q, q ≠ p → (s.stage q).handles ≠ some i)
    (hstage : ∀ id, stage.handles = some id → id = i ∧ e.phase = .Handed) :
    Sound { tasks := tasks, stage := s.goto p stage, trace := s.trace ++ [e] } := by
  subst hi
  have hthere : s.goto p stage p = stage := Function.update_self ..
  have helse : ∀ q, q ≠ p → s.goto p stage q = s.stage q := fun q hq => Function.update_of_ne hq ..
  refine ⟨fun id => ?_, fun q id hq => ?_, fun q r id hq hr => ?_, h.orderly.concat horder⟩
  · rw [phase_concat]
    by_cases hid : e.id = id
    · rw [if_pos hid, ← hid]
      exact hrow
    · rw [if_neg hid, hothers id (fun heq => hid heq.symm)]
      exact h.rows id
  · dsimp only at hq ⊢
    rw [phase_concat]
    by_cases hqp : q = p
    · rw [hqp, hthere] at hq
      obtain ⟨rfl, hhanded⟩ := hstage id hq
      rw [if_pos rfl, hhanded]
    · rw [helse q hqp] at hq
      rw [if_neg (fun heq : e.id = id => halone q hqp (heq ▸ hq))]
      exact h.turns q id hq
  · dsimp only at hq hr
    by_cases hqp : q = p
    · by_cases hrp : r = p
      · rw [hqp, hrp]
      · rw [hqp, hthere] at hq
        rw [helse r hrp, (hstage id hq).1] at hr
        exact absurd hr (halone r hrp)
    · by_cases hrp : r = p
      · rw [hrp, hthere] at hr
        rw [helse q hqp, (hstage id hr).1] at hq
        exact absurd hq (halone q hqp)
      · rw [helse q hqp] at hq
        rw [helse r hrp] at hr
        exact h.alone q r id hq hr

/-! ## One step -/

theorem Sound.start_call {s : State} (h : Sound s) (p : Nat) (call : Call) :
    Sound (step s (.Start p call)) := by
  dsimp only [step]
  split
  · exact h.leave p rfl
  · exact h

theorem fits_finished {c : TaskColumns} (h : c.state = .Done ∨ c.state = .Failed) :
    Fits .Finished (some c) := by
  rcases h with h | h
  · exact ⟨by simp [h], by simp [h]⟩
  · exact ⟨by simp [h], by simp [h]⟩

theorem Fits.same_state {ph : Phase} {c c' : TaskColumns} (h : Fits ph (some c))
    (hstate : c'.state = c.state) (hrun : c'.run_at = c.run_at) (hclaim : c'.claimed_by = c.claimed_by)
    (hlease : c'.lease_expires_at = c.lease_expires_at) : Fits ph (some c') := by
  cases ph with
  | Fresh => trivial
  | Handed => exact ⟨hstate ▸ h.1, hclaim ▸ h.2.1, hlease ▸ h.2.2⟩
  | Requeued run_at => exact ⟨hstate ▸ h.1, hrun ▸ h.2⟩
  | Finished => exact ⟨hstate ▸ h.1, hstate ▸ h.2⟩

theorem Sound.write {s : State} (h : Sound s) (id : TaskId) (result : Value) (clock : Timestamp) :
    Sound (step s (.Write id result clock)) := by
  refine ⟨fun i => ?_, h.turns, h.alone, h.orderly⟩
  have hrow := h.rows i
  dsimp only [step, set_result]
  rw [lookup_update]
  split
  · rename_i hid
    subst hid
    cases hc : s.tasks.lookup i with
    | none => rwa [hc] at hrow
    | some c =>
      rw [hc] at hrow
      exact hrow.same_state rfl rfl rfl rfl
  · exact hrow

/-- A row that a claim takes, of which the condition holds, was not with a handler. -/
theorem free_of_claimable {ph : Phase} {c : TaskColumns} {device : DeviceId} {clock : Timestamp}
    (hfits : Fits ph (some c)) (hclaim : c.claimable device clock = true)
    (hlease : (c.state = .Running && passed c.lease_expires_at clock) = false)
    (hfree : ¬ (c.state = .Running ∧ c.claimed_by = some device))
    (hdue : ¬ (c.state = .Pending ∧ c.run_at.any (clock < ·))) : ph.Free clock := by
  simp only [TaskColumns.claimable, Bool.and_eq_true, Bool.or_eq_true, decide_eq_true_eq] at hclaim
  obtain ⟨⟨-, hstate⟩, hclaim⟩ := hclaim
  cases ph with
  | Fresh => trivial
  | Handed =>
    obtain ⟨hrunning, hdevice, hleased⟩ := hfits
    rcases hclaim with ((hnone | hown) | hnone) | hpassed
    · simp [Option.isNone_iff_eq_none.mp hnone] at hdevice
    · exact absurd ⟨hrunning, hown⟩ hfree
    · simp [Option.isNone_iff_eq_none.mp hnone] at hleased
    · simp [hrunning, hpassed] at hlease
  | Requeued run_at =>
    obtain ⟨hpending, hrun⟩ := hfits
    have hnot : ¬ clock < run_at := fun hlt => hdue ⟨hpending, by simp [hrun, hlt]⟩
    exact Nat.le_of_not_lt hnot
  | Finished => exact absurd hstate (by simp [hfits.1, hfits.2])

theorem Sound.claim {s : State} (h : Sound s) (p : Nat) (clock : Timestamp)
    (hlease : Step.in_lease s (.Claim p clock) = true)
    (hfree : Step.free_and_due s (.Claim p clock) = true) : Sound (step s (.Claim p clock)) := by
  dsimp only [step]
  split
  · exact h.leave p rfl
  · rename_i call t rest hstage
    unfold claim_task
    cases hrow : s.tasks.lookup t.id with
    | none => exact h.leave p rfl
    | some c =>
      dsimp only
      cases hclaim : c.claimable call.device clock with
      | false => exact h.leave p rfl
      | true =>
        rw [if_pos rfl]
        have hin : (c.state = .Running && passed c.lease_expires_at clock) = false := by
          simpa only [Bool.not_eq_true'] using
            List.all_eq_true.mp hlease _ (lookup_eq_some.mp hrow)
        simp only [Step.free_and_due, hstage, hrow, Bool.and_eq_true, Bool.not_eq_true',
          decide_eq_false_iff_not, Bool.and_eq_false_iff] at hfree
        have hphase : (phase t.id s.trace).Free clock := by
          refine free_of_claimable (hrow ▸ h.rows t.id) hclaim hin ?_ ?_
          · rintro ⟨hrunning, hown⟩
            rcases hfree.1 with hno | hno
            · exact hno hrunning
            · exact hno hown
          · rintro ⟨hpending, hlater⟩
            rcases hfree.2 with hno | hno
            · exact hno hpending
            · rw [hno] at hlater
              cases hlater
        refine h.turn p (e := .Handed t.scheduled clock) (i := t.id) rfl ?_ ?_ ?_ ?_ ?_
        · intro t' clock' he
          cases he
          exact hphase
        · exact fun id hid => AList.lookup_insert_ne hid
        · rw [AList.lookup_insert]
          exact ⟨rfl, rfl, rfl⟩
        · intro q _ hq
          rw [h.turns q t.id hq] at hphase
          exact hphase
        · intro id hid
          cases hid
          exact ⟨rfl, rfl⟩
  · exact h

theorem Sound.close {s : State} (h : Sound s) (p : Nat) (ok : Bool) (clock : Timestamp) :
    Sound (step s (.Close p ok clock)) := by
  dsimp only [step]
  split
  · rename_i call t rest hstage
    have hhandles : (s.stage p).handles = some t.id := by rw [hstage]; rfl
    have halone : ∀ q, q ≠ p → (s.stage q).handles ≠ some t.id :=
      fun q hqp hq => hqp (h.alone q p t.id hq hhandles)
    obtain ⟨c, hrow⟩ : ∃ c, s.tasks.lookup t.id = some c := by
      have hfits := h.rows t.id
      rw [h.turns p t.id hhandles] at hfits
      cases hlookup : s.tasks.lookup t.id with
      | none => exact (hlookup ▸ hfits : Fits .Handed none).elim
      | some c => exact ⟨c, rfl⟩
    split
    · rename_i next _
      refine h.turn p (e := .Requeued t.id next) (i := t.id) rfl (fun _ _ he => by cases he)
        ?_ ?_ halone (fun _ hid => by cases hid)
      · intro id hid
        rw [requeue_task, lookup_update, if_neg hid]
      · rw [requeue_task, lookup_update, if_pos rfl, hrow]
        exact ⟨rfl, rfl⟩
    · refine h.turn p (e := .Finished t.id (if ok then .Done else .Failed)) (i := t.id) rfl
        (fun _ _ he => by cases he) ?_ ?_ halone (fun _ hid => by cases hid)
      · intro id hid
        rw [finish_task, lookup_update, if_neg hid]
      · rw [finish_task, lookup_update, if_pos rfl, hrow]
        cases ok with
        | false => exact fits_finished (Or.inr rfl)
        | true => exact fits_finished (Or.inl rfl)
  · exact h

theorem Sound.step {s : State} (h : Sound s) (a : Step) (hlease : a.in_lease s = true)
    (hfree : a.free_and_due s = true) : Sound (step s a) := by
  cases a with
  | Start p call => exact h.start_call p call
  | Claim p clock => exact h.claim p clock hlease hfree
  | Close p ok clock => exact h.close p ok clock
  | Write id result clock => exact h.write id result clock
  | Stop p => exact h.leave p rfl

theorem Sound.run {s : State} (h : Sound s) (steps : List Step)
    (hsteps : Along (fun s a => a.in_lease s = true ∧ a.free_and_due s = true) s steps) :
    Sound (run s steps) := by
  induction steps generalizing s with
  | nil => exact h
  | cons a steps ih => exact ih (h.step a hsteps.1.1 hsteps.1.2) hsteps.2

/-! ## Every run -/

/-- In a run in which no lease expires, and each claim meets a row that its own device does
not run and that is due, each task that is due comes to a handler once, and none before its
time. -/
theorem due_tasks_run_once_and_in_time (tasks : Tasks) (steps : List Step)
    (hlease : Along (fun s a => a.in_lease s = true) (start tasks) steps)
    (hfree : Along (fun s a => a.free_and_due s = true) (start tasks) steps) :
    HandedOnce (run (start tasks) steps).trace ∧ NotEarly (run (start tasks) steps).trace := by
  have hsound := (sound_start tasks).run steps (hlease.and hfree)
  exact ⟨hsound.orderly.handed_once, hsound.orderly.not_early⟩

/-! ### A task of every minute -/

def water : TaskColumns where
  title := "Water the plants"
  agent_id := ⟨"gardener"⟩
  created_at := 1
  run_at := some 5
  state := .Pending
  trigger := .Schedule "@every 60s"
  payload := .null
  result := none
  claimed_by := none
  lease_expires_at := none
  updated_at := 1
  deleted := false
  sync_scope := .DeviceLocal

def chores : Tasks := AList.singleton ⟨"t1"⟩ water

def desk (clock : Timestamp) : Call := { device := ⟨"desk"⟩, clock := clock, lease_secs := 300 }

def phone (clock : Timestamp) : Call := { device := ⟨"phone"⟩, clock := clock, lease_secs := 300 }

/-- Both devices find the task due, the desk has it, and the phone has it a minute later. -/
theorem the_phone_waters_a_minute_later :
    HandedOnce (run (start chores) [.Start 0 (desk 10), .Start 1 (phone 10), .Claim 0 11, .Claim 1 12,
      .Close 0 true 13, .Claim 1 14, .Start 1 (phone 60000000010), .Claim 1 60000000011]).trace ∧
    NotEarly (run (start chores) [.Start 0 (desk 10), .Start 1 (phone 10), .Claim 0 11, .Claim 1 12,
      .Close 0 true 13, .Claim 1 14, .Start 1 (phone 60000000010), .Claim 1 60000000011]).trace :=
  due_tasks_run_once_and_in_time chores _ (by decide) (by decide)

/-- No lease expires, but a second process of the desk claims the task that the first one
runs, and the phone claims a task again from a list that is older than its requeue. -/
theorem a_claimed_or_requeued_task_is_claimed_again :
    ¬ (∀ tasks steps, Along (fun s a => a.in_lease s = true) (start tasks) steps →
      HandedOnce (run (start tasks) steps).trace) ∧
    ¬ (∀ tasks steps, Along (fun s a => a.in_lease s = true) (start tasks) steps →
      NotEarly (run (start tasks) steps).trace) := by
  constructor
  · intro h
    have honce := h chores [.Start 0 (desk 10), .Start 1 (desk 10), .Claim 0 11, .Claim 1 12]
      (by decide)
    obtain ⟨run_at, hmem⟩ := honce [] _ _ [] _ _ [] rfl rfl
    cases hmem
  · intro h
    have hearly := h chores [.Start 0 (desk 10), .Start 1 (phone 10), .Claim 0 11, .Close 0 true 13,
      .Claim 1 14] (by decide)
    have hle : 60000000010 ≤ 14 := hearly [_] _ _ [] _ _ [] rfl rfl (fun _ hmem => by cases hmem)
    exact absurd hle (by decide)

end pai_tasks
