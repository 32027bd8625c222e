-- The audit log (pai-audit): what is redacted before an event is recorded, and which events
-- the trail of a run shows.
import PersonalAi.Core
import PersonalAi.Lib.Lower
import PersonalAi.Lib.Sorting
import Std.Data.String.ToNat

open pai_core json text sorting

namespace pai_audit

/-! ## Redaction -/

section Redaction
variable (word_final : List Char → List Char → Bool)

def REDACT_KEYS : List String := ["password", "token", "secret", "key", "authorization"]

/-- The lower-cased name of a field contains one of the words. -/
def redacted_key (k : String) : Bool :=
  REDACT_KEYS.any fun s => contains_str s.toList (to_lowercase word_final k.toList)

mutual

def redact : Value → Value
  | .object map => .object (redact_fields map)
  | .array arr => .array (redact_items arr)
  | other => other

def redact_items : List Value → List Value
  | [] => []
  | v :: rest => redact v :: redact_items rest

def redact_fields : List (String × Value) → List (String × Value)
  | [] => []
  | (k, val) :: rest =>
    (k, if redacted_key word_final k then .string "[redacted]" else redact val) ::
      redact_fields rest

end

mutual

/-- Two values that differ only below fields with a redacted name, at any depth. -/
inductive DifferInSecrets : Value → Value → Prop
  | same (v : Value) : DifferInSecrets v v
  | array {xs ys : List Value} : ItemsDiffer xs ys → DifferInSecrets (.array xs) (.array ys)
  | object {fs gs : List (String × Value)} :
      FieldsDiffer fs gs → DifferInSecrets (.object fs) (.object gs)

inductive ItemsDiffer : List Value → List Value → Prop
  | nil : ItemsDiffer [] []
  | cons {x y : Value} {xs ys : List Value} :
      DifferInSecrets x y → ItemsDiffer xs ys → ItemsDiffer (x :: xs) (y :: ys)

inductive FieldsDiffer : List (String × Value) → List (String × Value) → Prop
  | nil : FieldsDiffer [] []
  | secret {k : String} (v w : Value) {fs gs : List (String × Value)} :
      redacted_key word_final k = true → FieldsDiffer fs gs →
      FieldsDiffer ((k, v) :: fs) ((k, w) :: gs)
  | kept {k : String} {v w : Value} {fs gs : List (String × Value)} :
      DifferInSecrets v w → FieldsDiffer fs gs → FieldsDiffer ((k, v) :: fs) ((k, w) :: gs)

end

variable {word_final}

mutual

theorem redact_of_differ {v w : Value} (h : DifferInSecrets word_final v w) :
    redact word_final v = redact word_final w := by
  cases h with
  | same => rfl
  | array hitems => simp only [redact, redact_items_of_differ hitems]
  | object hfields => simp only [redact, redact_fields_of_differ hfields]

theorem redact_items_of_differ {xs ys : List Value} (h : ItemsDiffer word_final xs ys) :
    redact_items word_final xs = redact_items word_final ys := by
  cases h with
  | nil => rfl
  | cons hitem hrest =>
    simp only [redact_items, redact_of_differ hitem, redact_items_of_differ hrest]

theorem redact_fields_of_differ {fs gs : List (String × Value)}
    (h : FieldsDiffer word_final fs gs) :
    redact_fields word_final fs = redact_fields word_final gs := by
  cases h with
  | nil => rfl
  | secret v w hkey hrest => simp only [redact_fields, hkey, if_true, redact_fields_of_differ hrest]
  | kept hvalue hrest =>
    simp only [redact_fields, redact_of_differ hvalue, redact_fields_of_differ hrest]

end

mutual

/-- What is redacted to the same value differs in secrets alone. -/
theorem differ_of_redact : ∀ {v w : Value}, redact word_final v = redact word_final w →
    DifferInSecrets word_final v w
  | .null, w, h => by cases w <;> simp [redact] at h; exact .same _
  | .bool _, w, h => by cases w <;> simp [redact] at h; rw [h]; exact .same _
  | .number _, w, h => by cases w <;> simp [redact] at h; rw [h]; exact .same _
  | .string _, w, h => by cases w <;> simp [redact] at h; rw [h]; exact .same _
  | .array xs, w, h => by
    cases w <;> simp only [redact, reduceCtorEq, Value.array.injEq] at h
    exact .array (items_of_redact h)
  | .object fs, w, h => by
    cases w <;> simp only [redact, reduceCtorEq, Value.object.injEq] at h
    exact .object (fields_of_redact h)

theorem items_of_redact : ∀ {xs ys : List Value},
    redact_items word_final xs = redact_items word_final ys → ItemsDiffer word_final xs ys
  | [], ys, h => by
    cases ys with
    | nil => exact .nil
    | cons => cases h
  | x :: xs, ys, h => by
    cases ys with
    | nil => cases h
    | cons y ys =>
      simp only [redact_items, List.cons.injEq] at h
      exact .cons (differ_of_redact h.1) (items_of_redact h.2)

theorem fields_of_redact : ∀ {fs gs : List (String × Value)},
    redact_fields word_final fs = redact_fields word_final gs → FieldsDiffer word_final fs gs
  | [], gs, h => by
    cases gs with
    | nil => exact .nil
    | cons => cases h
  | (k, v) :: fs, gs, h => by
    cases gs with
    | nil => cases h
    | cons g gs =>
      obtain ⟨k', w⟩ := g
      simp only [redact_fields, List.cons.injEq, Prod.mk.injEq] at h
      obtain ⟨⟨rfl, hvalue⟩, hrest⟩ := h
      by_cases hkey : redacted_key word_final k = true
      · exact .secret v w hkey (fields_of_redact hrest)
      · rw [if_neg hkey, if_neg hkey] at hvalue
        exact .kept (differ_of_redact hvalue) (fields_of_redact hrest)

end

mutual

/-- Redaction changes nothing else. -/
theorem differ_redact : ∀ v : Value, DifferInSecrets word_final v (redact word_final v)
  | .null => .same _
  | .bool _ => .same _
  | .number _ => .same _
  | .string _ => .same _
  | .array xs => .array (items_differ_redact xs)
  | .object fs => .object (fields_differ_redact fs)

theorem items_differ_redact : ∀ xs : List Value,
    ItemsDiffer word_final xs (redact_items word_final xs)
  | [] => .nil
  | x :: xs => .cons (differ_redact x) (items_differ_redact xs)

theorem fields_differ_redact : ∀ fs : List (String × Value),
    FieldsDiffer word_final fs (redact_fields word_final fs)
  | [] => .nil
  | (k, v) :: fs => by
    unfold redact_fields
    by_cases hkey : redacted_key word_final k = true
    · exact .secret _ _ hkey (fields_differ_redact fs)
    · rw [if_neg hkey]
      exact .kept (differ_redact v) (fields_differ_redact fs)

end

end Redaction

/-- The redacted value tells nothing of the secrets and everything else: two values have the same
one exactly when they differ in secrets alone, it is its own, and it differs from the value in
secrets alone. -/
theorem redaction_hides_the_secrets (word_final : List Char → List Char → Bool) :
    (∀ v w, redact word_final v = redact word_final w ↔ DifferInSecrets word_final v w) ∧
    (∀ v, redact word_final (redact word_final v) = redact word_final v) ∧
    ∀ v, DifferInSecrets word_final v (redact word_final v) :=
  ⟨fun _ _ => ⟨differ_of_redact, redact_of_differ⟩,
    fun v => (redact_of_differ (differ_redact v)).symm, differ_redact⟩

/-! ## The log -/

def kind_name : AuditKind → String
  | .MessageSent => "message_sent"
  | .RunStarted => "run_started"
  | .RunFinished => "run_finished"
  | .ModelResponded => "model_responded"
  | .MemoryWritten => "memory_written"
  | .MemoryDeleted => "memory_deleted"
  | .ToolRequested => "tool_requested"
  | .ToolAllowed => "tool_allowed"
  | .ToolDenied => "tool_denied"
  | .ToolExecuted => "tool_executed"
  | .ModelLoaded => "model_loaded"
  | .SyncReceived => "sync_received"
  | .SyncSent => "sync_sent"
  | .PermissionChanged => "permission_changed"
  | .ApprovalRequested => "approval_requested"
  | .ApprovalResolved => "approval_resolved"
  | .AppDeployed => "app_deployed"
  | .AppRun => "app_run"
  | .AppRemoved => "app_removed"
  | .AppBackedUp => "app_backed_up"
  | .AppRestored => "app_restored"
  | .AppMigrated => "app_migrated"
  | .AppRescued => "app_rescued"
  | .AppShared => "app_shared"
  | .AppShareRevoked => "app_share_revoked"
  | .AppAuthConfigured => "app_auth_configured"
  | .AppServed => "app_served"
  | .ConfigChanged => "config_changed"

/-- serde reads the names in snake case; another text is taken for the run of a tool. -/
def kind_from : String → AuditKind
  | "message_sent" => .MessageSent
  | "run_started" => .RunStarted
  | "run_finished" => .RunFinished
  | "model_responded" => .ModelResponded
  | "memory_written" => .MemoryWritten
  | "memory_deleted" => .MemoryDeleted
  | "tool_requested" => .ToolRequested
  | "tool_allowed" => .ToolAllowed
  | "tool_denied" => .ToolDenied
  | "model_loaded" => .ModelLoaded
  | "sync_received" => .SyncReceived
  | "sync_sent" => .SyncSent
  | "permission_changed" => .PermissionChanged
  | "approval_requested" => .ApprovalRequested
  | "approval_resolved" => .ApprovalResolved
  | "app_deployed" => .AppDeployed
  | "app_run" => .AppRun
  | "app_removed" => .AppRemoved
  | "app_backed_up" => .AppBackedUp
  | "app_restored" => .AppRestored
  | "app_migrated" => .AppMigrated
  | "app_rescued" => .AppRescued
  | "app_shared" => .AppShared
  | "app_share_revoked" => .AppShareRevoked
  | "app_auth_configured" => .AppAuthConfigured
  | "app_served" => .AppServed
  | "config_changed" => .ConfigChanged
  | _ => .ToolExecuted

def outcome_name : AuditOutcome → String
  | .Ok => "ok"
  | .Denied => "denied"
  | .Error => "error"
  | .Cancelled => "cancelled"

def outcome_from : String → AuditOutcome
  | "denied" => .Denied
  | "error" => .Error
  | "cancelled" => .Cancelled
  | _ => .Ok

theorem kind_from_name (k : AuditKind) : kind_from (kind_name k) = k := by
  cases k <;> rfl

theorem outcome_from_name (o : AuditOutcome) : outcome_from (outcome_name o) = o := by
  cases o <;> rfl

structure AuditEventId where
  text : String
deriving DecidableEq, Repr

/-- An event with its id and its instant. -/
structure Event extends AuditEvent where
  id : AuditEventId
  at_ : Timestamp

/-- A row of `audit_events`. A column of an id, an instant or a JSON value is modelled by what it
stands for. -/
structure AuditRow where
  id : AuditEventId
  at_ : Timestamp
  device : Option DeviceId
  agent : Option AgentId
  run : Option AgentRunId
  conversation : Option ConversationId
  kind : String
  tool : Option String
  detail : Value
  outcome : String

/-- The event that a row is read as. -/
def AuditRow.event (r : AuditRow) : Event where
  id := r.id
  at_ := r.at_
  device := r.device
  agent := r.agent
  run := r.run
  conversation := r.conversation
  kind := kind_from r.kind
  tool := r.tool
  detail := r.detail
  outcome := outcome_from r.outcome

/-- The table, with the id as its key. -/
structure AuditLog where
  rows : List AuditRow
  unique : (rows.map AuditRow.id).Nodup

section Record
variable (word_final : List Char → List Char → Bool)

def row_of (event : Event) : AuditRow where
  id := event.id
  at_ := event.at_
  device := event.device
  agent := event.agent
  run := event.run
  conversation := event.conversation
  kind := kind_name event.kind
  tool := event.tool
  detail := redact word_final event.detail
  outcome := outcome_name event.outcome

def AuditLog.record (log : AuditLog) (event : Event) : Except Error AuditLog :=
  if h : event.id ∈ log.rows.map AuditRow.id then
    .error (.Storage "UNIQUE constraint failed: audit_events.id")
  else
    .ok
      { rows := log.rows ++ [row_of word_final event]
        unique := by
          rw [List.map_append, List.nodup_append_comm]
          exact List.nodup_cons.mpr ⟨h, log.unique⟩ }

/-- What is recorded is the event with its detail redacted. -/
theorem event_row_of (event : Event) :
    (row_of word_final event).event = { event with detail := redact word_final event.detail } := by
  simp [row_of, AuditRow.event, kind_from_name, outcome_from_name]

theorem record_ok {log log' : AuditLog} {event : Event}
    (h : log.record word_final event = .ok log') :
    log'.rows = log.rows ++ [row_of word_final event] := by
  unfold AuditLog.record at h
  split at h
  · cases h
  · cases h
    rfl

end Record

/-! ## The trail of a run -/

/-- The rows of a log in the order in which a query reads them. -/
structure Scan (log : AuditLog) where
  rows : List AuditRow
  all : rows.Perm log.rows

section Trail
variable (ts : Timestamp → String) {log : AuditLog}

/-- `ORDER BY at DESC`: the instants are compared as texts. -/
def newest (a b : AuditRow) : Prop := ts b.at_ ≤ ts a.at_

instance : DecidableRel (newest ts) := fun _ _ => inferInstanceAs (Decidable (_ ≤ _))

instance : IsTrans AuditRow (newest ts) := ⟨fun _ _ _ hab hbc => String.le_trans hbc hab⟩

instance : Std.Total (newest ts) := ⟨fun a b => String.le_total (ts b.at_) (ts a.at_)⟩

def Scan.recent (scan : Scan log) (limit : Nat) : List Event :=
  ((scan.rows.insertionSort (newest ts)).take limit).map AuditRow.event

/-- The query for the ids of the run comes to nothing: its result is not used. -/
def Scan.for_run (scan : Scan log) (run : AgentRunId) : List Event :=
  (scan.recent ts 10000).filter fun e => decide (e.run = some run)

/-- The recorded events of a run. -/
def AuditLog.events_of (log : AuditLog) (run : AgentRunId) : List Event :=
  (log.rows.filter fun r => decide (r.run = some run)).map AuditRow.event

/-- The newest events as the rows with few others in front. -/
theorem for_run_perm (scan : Scan log) (run : AgentRunId) :
    (scan.for_run ts run).Perm (((scan.rows.zipIdx.filter fun x =>
      decide (ahead (newest ts) scan.rows x < 10000 ∧ x.1.run = some run)).map Prod.fst).map
        AuditRow.event) := by
  have hfirst := take_insertionSort (r := newest ts) scan.rows 10000
  have hmine := (hfirst.filter fun r => decide (r.run = some run)).map AuditRow.event
  have hleft : scan.for_run ts run =
      (((scan.rows.insertionSort (newest ts)).take 10000).filter
        fun r => decide (r.run = some run)).map AuditRow.event := by
    unfold Scan.for_run Scan.recent
    rw [List.filter_map]
    rfl
  rw [hleft]
  refine hmine.trans (List.Perm.of_eq (congrArg _ ?_))
  rw [List.filter_map, List.filter_filter]
  refine congrArg _ (List.filter_congr fun x _ => ?_)
  simp [Bool.and_comm]

theorem events_perm (scan : Scan log) (run : AgentRunId) :
    (log.events_of run).Perm (((scan.rows.zipIdx.filter fun x =>
      decide (x.1.run = some run)).map Prod.fst).map AuditRow.event) := by
  have hall := (scan.all.symm.filter fun r => decide (r.run = some run)).map AuditRow.event
  refine hall.trans (List.Perm.of_eq (congrArg _ ?_))
  rw [← List.zipIdx_map_fst 0 scan.rows, List.filter_map, List.zipIdx_map_fst]
  rfl

end Trail

/-- The trail of a run is complete exactly when fewer than 10,000 events stand in front of each
of its events in the order of `recent`, whatever else is in the log. -/
theorem trail_is_complete_iff_recent (ts : Timestamp → String) (log : AuditLog) (scan : Scan log)
    (run : AgentRunId) :
    (scan.for_run ts run).Perm (log.events_of run) ↔
      ∀ x ∈ scan.rows.zipIdx, x.1.run = some run → ahead (newest ts) scan.rows x < 10000 := by
  have hshown := for_run_perm ts scan run
  have hmine := events_perm scan run
  constructor
  · intro h x hx hrun
    have hlength := (hshown.symm.trans (h.trans hmine)).length_eq
    rw [List.length_map, List.length_map, List.length_map, List.length_map] at hlength
    have hsub := List.monotone_filter_right scan.rows.zipIdx
      (p := fun x => decide (ahead (newest ts) scan.rows x < 10000 ∧ x.1.run = some run))
      (q := fun x => decide (x.1.run = some run)) (by intro x; simp)
    have hmem : x ∈ scan.rows.zipIdx.filter fun x => decide (x.1.run = some run) :=
      List.mem_filter.mpr ⟨hx, decide_eq_true hrun⟩
    rw [← hsub.eq_of_length hlength] at hmem
    exact (of_decide_eq_true (List.mem_filter.mp hmem).2).1
  · intro h
    refine hshown.trans (List.Perm.trans (List.Perm.of_eq ?_) hmine.symm)
    refine congrArg _ (congrArg _ (List.filter_congr fun x hx => ?_))
    by_cases hrun : x.1.run = some run
    · simp [hrun, h x hx hrun]
    · simp [hrun]

/-! ## A busy log -/

/-- Two instants as their texts. -/
def demo_ts (t : Timestamp) : String :=
  if t = 0 then "1970-01-01T00:00:00+00:00" else "1970-01-01T00:00:00.000000001+00:00"

def demo_row (id : Nat) (at_ : Timestamp) (run : Option AgentRunId) : AuditRow where
  id := ⟨toString id⟩
  at_ := at_
  device := none
  agent := none
  run := run
  conversation := none
  kind := "app_served"
  tool := none
  detail := .object []
  outcome := "ok"

def demo_run : AgentRunId := ⟨"67e55044-10b1-426f-9247-bb680e5fe0c8"⟩

/-- An event of a run, and later ones of no run. -/
def busy_rows (others : Nat) : List AuditRow :=
  demo_row 0 0 (some demo_run) :: (List.range' 1 others).map (fun i => demo_row i 1 none)

theorem busy_unique (others : Nat) : ((busy_rows others).map AuditRow.id).Nodup := by
  have hids : (busy_rows others).map AuditRow.id =
      (List.range' 0 (others + 1)).map fun i => (⟨toString i⟩ : AuditEventId) := by
    rw [List.range'_succ]
    simp [busy_rows, demo_row, Function.comp_def]
  rw [hids]
  refine List.Nodup.map (fun i j h => ?_) List.nodup_range'
  exact Nat.repr_inj.mp (AuditEventId.mk.inj h)

def busy_log (others : Nat) : AuditLog := ⟨busy_rows others, busy_unique others⟩

/-- The later ones all stand in front. -/
theorem ahead_busy (others : Nat) :
    others ≤ ahead (newest demo_ts) (busy_rows others) (demo_row 0 0 (some demo_run), 0) := by
  unfold ahead busy_rows
  rw [List.zipIdx_cons, List.countP_cons]
  refine le_trans (Nat.le_of_eq ?_) (Nat.le_add_right _ _)
  have hlength : (((List.range' 1 others).map fun i => demo_row i 1 none).zipIdx (0 + 1)).length =
      others := by
    rw [List.length_zipIdx, List.length_map, List.length_range']
  refine hlength.symm.trans (List.countP_eq_length.mpr fun x hx => ?_).symm
  obtain ⟨i, -, hrow⟩ := List.mem_map.mp (List.fst_mem_of_mem_zipIdx hx)
  have hnew : demo_ts 0 ≤ demo_ts 1 ∧ ¬ demo_ts 1 ≤ demo_ts 0 := by decide
  refine decide_eq_true ⟨?_, fun hold => absurd ?_ hnew.2⟩
  · rw [← hrow]
    exact hnew.1
  · rw [← hrow] at hold
    exact hold

theorem a_busy_log_hides_a_run :
    ¬ ∀ (ts : Timestamp → String) (log : AuditLog) (scan : Scan log) (run : AgentRunId),
      (scan.for_run ts run).Perm (log.events_of run) := by
  intro h
  have hnear := (trail_is_complete_iff_recent demo_ts (busy_log 10000)
    ⟨busy_rows 10000, .refl _⟩ demo_run).mp (h _ _ _ _)
  have hfirst : ∀ n, (demo_row 0 0 (some demo_run), 0) ∈ (busy_rows n).zipIdx :=
    fun n => List.mem_cons_self
  exact absurd (hnear _ (hfirst 10000) rfl) (Nat.not_lt.mpr (ahead_busy 10000))

end pai_audit
