-- The times of the tables are texts. What the statements of the `tasks` table compare as texts
-- they decide as if the columns held the times, and a row that is read has its times again.
import Mathlib.Data.List.Sort
import PersonalAi.Lib.Rfc3339
import PersonalAi.TaskClaims

open calendar

namespace pai_storage.times

abbrev Text := List Char

def ts (t : Time) : Text := t.to_rfc3339

/-- A text that chrono refuses counts as the time of now. -/
def parse_ts (parse_from_rfc3339 : Text → Option Time) (now : Time) (s : Text) : Time :=
  (parse_from_rfc3339 s).getD now

/-! ## The table of tasks -/

/-- A row, with a column type for times. -/
structure Row (α : Type) where
  id : String
  title : String
  agent_id : String
  created_at : α
  run_at : Option α
  state : String
  updated_at : Option α
  deleted : Bool
  sync_scope : String
  trigger_json : String
  payload_json : String
  result_json : Option String
  claimed_by : Option String
  lease_expires_at : Option α

structure TaskPayload (α : Type) where
  id : String
  title : String
  agent_id : String
  created_at : α
  run_at : Option α
  state : String
  trigger_json : String
  payload_json : String
  result_json : Option String
  claimed_by : Option String
  lease_expires_at : Option α
  updated_at : α

section Statements
variable {α : Type}

/-- SQL's `column <= ?`, which is not true of NULL. -/
def passed [LE α] [DecidableLE α] (column : Option α) (clock : α) : Bool := column.any (· ≤ clock)

/-- The `WHERE` clause of `due_tasks`. -/
def Row.due [LE α] [DecidableLE α] (r : Row α) (clock : α) : Bool :=
  !r.deleted && (r.run_at.isNone || passed r.run_at clock) &&
    ((r.state = "pending" && (r.claimed_by.isNone || r.lease_expires_at.isNone ||
        passed r.lease_expires_at clock)) ||
      (r.state = "running" && passed r.lease_expires_at clock))

/-- `ORDER BY` a column: NULL comes first. -/
def at_most [LE α] [DecidableLE α] : Option α → Option α → Bool
  | none, _ => true
  | some _, none => false
  | some x, some y => x ≤ y

def due_tasks [LE α] [DecidableLE α] (rows : List (Row α)) (clock : α) : List (Row α) :=
  (rows.filter (·.due clock)).insertionSort fun a b => at_most a.run_at b.run_at = true

def list_tasks [LE α] [DecidableLE α] (rows : List (Row α)) (include_deleted : Bool) : List (Row α) :=
  (rows.filter fun r => include_deleted || !r.deleted).insertionSort fun a b =>
    b.created_at ≤ a.created_at

/-- The `WHERE` clause of `claim_task`, behind the id. -/
def Row.claimable [LE α] [DecidableLE α] (r : Row α) (device : String) (clock : α) : Bool :=
  !r.deleted && (r.state = "pending" || r.state = "running") &&
    (r.claimed_by.isNone || r.claimed_by = some device || r.lease_expires_at.isNone ||
      passed r.lease_expires_at clock)

/-- The row behind a claim, if the claim was won. -/
def Row.claim_task [LE α] [DecidableLE α] (r : Row α) (device : String) (lease_end clock : α) :
    Option (Row α) :=
  if r.claimable device clock then
    some { r with
      claimed_by := some device, lease_expires_at := some lease_end, state := "running",
      updated_at := some clock }
  else none

/-- `COALESCE(updated_at, created_at)`. -/
def Row.changed (r : Row α) : α := r.updated_at.getD r.created_at

/-- What `apply_task` makes of the row with the id of the payload. -/
def apply_task [LT α] [DecidableLT α] (row : Option (Row α)) (p : TaskPayload α) : Row α :=
  match row with
  | none =>
    { id := p.id, title := p.title, agent_id := p.agent_id, created_at := p.created_at,
      run_at := p.run_at, state := p.state, updated_at := some p.updated_at, deleted := false,
      sync_scope := "synchronized", trigger_json := p.trigger_json, payload_json := p.payload_json,
      result_json := p.result_json, claimed_by := p.claimed_by,
      lease_expires_at := p.lease_expires_at }
  | some r =>
    if r.changed < p.updated_at then
      { r with
        title := p.title, run_at := p.run_at, state := p.state, updated_at := some p.updated_at,
        trigger_json := p.trigger_json, payload_json := p.payload_json,
        result_json := p.result_json, claimed_by := p.claimed_by,
        lease_expires_at := p.lease_expires_at, deleted := false }
    else r

def apply_task_tombstone [LT α] [DecidableLT α] (r : Row α) (remote_updated : α) : Row α :=
  if r.changed < remote_updated then { r with deleted := true, updated_at := some remote_updated }
  else r

end Statements

/-! ## Rows of times and rows of texts -/

section Columns
variable {α β : Type}

def Row.map (f : α → β) (r : Row α) : Row β :=
  { r with
    created_at := f r.created_at, run_at := r.run_at.map f, updated_at := r.updated_at.map f,
    lease_expires_at := r.lease_expires_at.map f }

def TaskPayload.map (f : α → β) (p : TaskPayload α) : TaskPayload β :=
  { p with
    created_at := f p.created_at, run_at := p.run_at.map f,
    lease_expires_at := p.lease_expires_at.map f, updated_at := f p.updated_at }

theorem Row.changed_map (f : α → β) (r : Row α) : (r.map f).changed = f r.changed := by
  unfold Row.changed Row.map
  rcases r.updated_at with _ | t <;> rfl

end Columns

/-- All times of a row have years of four digits. -/
structure Row.Plain (r : Row Time) : Prop where
  created_at : r.created_at.Plain
  run_at : ∀ t ∈ r.run_at, t.Plain
  updated_at : ∀ t ∈ r.updated_at, t.Plain
  lease_expires_at : ∀ t ∈ r.lease_expires_at, t.Plain

/-- Whatever the statements compare, they do with the texts what they would do with the times. -/
structure DecidesOnTimes (write : Time → Text) : Prop where
  due_tasks : ∀ rows clock, (∀ r ∈ rows, r.Plain) → clock.Plain →
    due_tasks (rows.map (·.map write)) (write clock) = (due_tasks rows clock).map (·.map write)
  list_tasks : ∀ rows include_deleted, (∀ r ∈ rows, r.Plain) →
    list_tasks (rows.map (·.map write)) include_deleted =
      (list_tasks rows include_deleted).map (·.map write)
  claim_task : ∀ (r : Row Time) device lease_end clock, r.Plain → clock.Plain →
    (r.map write).claim_task device (write lease_end) (write clock) =
      (r.claim_task device lease_end clock).map (·.map write)
  apply_task : ∀ (row : Option (Row Time)) p, (∀ r ∈ row, r.Plain) → p.updated_at.Plain →
    apply_task (row.map (·.map write)) (p.map write) = (apply_task row p).map write
  apply_task_tombstone : ∀ (r : Row Time) remote_updated, r.Plain → remote_updated.Plain →
    apply_task_tombstone (r.map write) (write remote_updated) =
      (apply_task_tombstone r remote_updated).map write

section Comparisons
variable {r : Row Time} {s t clock : Time} {column : Option Time}

theorem ts_le_iff (hs : s.Plain) (ht : t.Plain) : ts s ≤ ts t ↔ s ≤ t :=
  Time.to_rfc3339_le_iff_le hs ht

theorem ts_lt_iff (hs : s.Plain) (ht : t.Plain) : ts s < ts t ↔ s < t :=
  Time.to_rfc3339_lt_iff_lt hs ht

theorem passed_map (hcolumn : ∀ t ∈ column, t.Plain) (hclock : clock.Plain) :
    passed (column.map ts) (ts clock) = passed column clock := by
  rcases column with _ | t
  · rfl
  · simp only [passed, Option.map_some, Option.any_some, ts_le_iff (hcolumn t rfl) hclock]

theorem at_most_map {a b : Option Time} (ha : ∀ t ∈ a, t.Plain) (hb : ∀ t ∈ b, t.Plain) :
    at_most (a.map ts) (b.map ts) = at_most a b := by
  rcases a with _ | x
  · rfl
  · rcases b with _ | y
    · rfl
    · simp only [at_most, Option.map_some, ts_le_iff (ha x rfl) (hb y rfl)]

theorem isNone_run_at (r : Row Time) : (r.map ts).run_at.isNone = r.run_at.isNone :=
  Option.isNone_map

theorem isNone_lease (r : Row Time) :
    (r.map ts).lease_expires_at.isNone = r.lease_expires_at.isNone :=
  Option.isNone_map

theorem due_map (hr : r.Plain) (hclock : clock.Plain) : (r.map ts).due (ts clock) = r.due clock := by
  have hrun : passed (r.map ts).run_at (ts clock) = passed r.run_at clock :=
    passed_map hr.run_at hclock
  have hlease : passed (r.map ts).lease_expires_at (ts clock) = passed r.lease_expires_at clock :=
    passed_map hr.lease_expires_at hclock
  unfold Row.due
  rw [hrun, hlease, isNone_run_at, isNone_lease]
  rfl

theorem claimable_map (hr : r.Plain) (hclock : clock.Plain) (device : String) :
    (r.map ts).claimable device (ts clock) = r.claimable device clock := by
  have hlease : passed (r.map ts).lease_expires_at (ts clock) = passed r.lease_expires_at clock :=
    passed_map hr.lease_expires_at hclock
  unfold Row.claimable
  rw [hlease, isNone_lease]
  rfl

theorem changed_plain (hr : r.Plain) : r.changed.Plain := by
  unfold Row.changed
  rcases hupdated : r.updated_at with _ | t
  · exact hr.created_at
  · exact hr.updated_at t hupdated

theorem filter_rows {rows : List (Row Time)} {p : Row Text → Bool} {q : Row Time → Bool}
    (h : ∀ r ∈ rows, p (r.map ts) = q r) :
    (rows.map (·.map ts)).filter p = (rows.filter q).map (·.map ts) := by
  rw [List.filter_map]
  exact congrArg _ (List.filter_congr h)

end Comparisons

theorem ts_decides : DecidesOnTimes ts where
  due_tasks rows clock hrows hclock := by
    unfold due_tasks
    rw [filter_rows fun r hr => due_map (hrows r hr) hclock]
    refine (List.map_insertionSort _ _ _ _ fun a ha b hb => ?_).symm
    have hplain : ∀ r ∈ rows.filter (·.due clock), ∀ t ∈ r.run_at, t.Plain :=
      fun r hr => (hrows r (List.mem_of_mem_filter hr)).run_at
    exact iff_of_eq (congrArg (· = true) (at_most_map (hplain a ha) (hplain b hb)).symm)
  list_tasks rows include_deleted hrows := by
    unfold list_tasks
    rw [filter_rows fun r _ => rfl]
    refine (List.map_insertionSort _ _ _ _ fun a ha b hb => ?_).symm
    exact (ts_le_iff (hrows b (List.mem_of_mem_filter hb)).created_at
      (hrows a (List.mem_of_mem_filter ha)).created_at).symm
  claim_task r device lease_end clock hr hclock := by
    unfold Row.claim_task
    rw [claimable_map hr hclock]
    split <;> rfl
  apply_task row p hrow hp := by
    rcases row with _ | r
    · rfl
    · simp only [apply_task, Option.map_some, Row.changed_map]
      have hlt : ts r.changed < (p.map ts).updated_at ↔ r.changed < p.updated_at :=
        ts_lt_iff (changed_plain (hrow r rfl)) hp
      by_cases hnewer : r.changed < p.updated_at
      · rw [if_pos hnewer, if_pos (hlt.mpr hnewer)]
        rfl
      · rw [if_neg hnewer, if_neg (fun htext => hnewer (hlt.mp htext))]
  apply_task_tombstone r remote_updated hr hremote := by
    unfold apply_task_tombstone
    rw [Row.changed_map]
    have hlt := ts_lt_iff (changed_plain hr) hremote
    by_cases hnewer : r.changed < remote_updated
    · rw [if_pos hnewer, if_pos (hlt.mpr hnewer)]
      rfl
    · rw [if_neg hnewer, if_neg (fun htext => hnewer (hlt.mp htext))]

/-! ## What is read is what was written -/

section Reading
variable {parse_from_rfc3339 : Text → Option Time} {now t : Time} {r : Row Time}

theorem parse_ts_ts (hparse : Reads parse_from_rfc3339) (ht : t.Plain) :
    parse_ts parse_from_rfc3339 now (ts t) = t := by
  unfold parse_ts ts
  rw [Time.parse_to_rfc3339 hparse ht]
  rfl

theorem column_read {column : Option Time} (hparse : Reads parse_from_rfc3339)
    (h : ∀ t ∈ column, t.Plain) :
    (column.map ts).map (parse_ts parse_from_rfc3339 now) = column := by
  rcases column with _ | t
  · rfl
  · rw [Option.map_some, Option.map_some, parse_ts_ts hparse (h t rfl)]

theorem row_read (hparse : Reads parse_from_rfc3339) (hr : r.Plain) :
    (r.map ts).map (parse_ts parse_from_rfc3339 now) = r := by
  unfold Row.map
  simp only [parse_ts_ts hparse hr.created_at, column_read hparse hr.run_at,
    column_read hparse hr.updated_at, column_read hparse hr.lease_expires_at]

end Reading

/-- In the years of four digits the texts of two times are in the order of the times, a text is
read as its time again, and the statements decide on texts what they would decide on times. -/
theorem stored_times_order_like_time (parse_from_rfc3339 : Text → Option Time)
    (hparse : Reads parse_from_rfc3339) (now : Time) :
    (∀ a b : Time, a.Plain → b.Plain → (ts a < ts b ↔ a < b)) ∧
      (∀ a : Time, a.Plain → parse_ts parse_from_rfc3339 now (ts a) = a) ∧ DecidesOnTimes ts ∧
      ∀ r : Row Time, r.Plain → (r.map ts).map (parse_ts parse_from_rfc3339 now) = r :=
  ⟨fun _ _ => ts_lt_iff, fun _ => parse_ts_ts hparse, ts_decides, fun _ => row_read hparse⟩

theorem new_year_in_range : min_secs ≤ 1483228799 ∧ (1483228799 : Int) ≤ max_secs := by decide

theorem half_past : 1500000000 < 2000000000 ∧ (1483228799 : Int) % 60 = 59 := by decide

/-- The last second of 2016. -/
def last_second : Time := ⟨1483228799, 0, new_year_in_range, .inl (Nat.zero_lt_succ _)⟩

/-- The middle of the leap second behind it. -/
def leap_second : Time := ⟨1483228799, 1500000000, new_year_in_range, .inr half_past⟩

theorem leap_second_is_stored_in_order :
    (ts last_second < ts leap_second ↔ last_second < leap_second) ∧
      parse_ts parse_from_rfc3339 last_second (ts leap_second) = leap_second := by
  have h := stored_times_order_like_time parse_from_rfc3339 parse_reads last_second
  exact ⟨h.1 _ _ (by decide) (by decide), h.2.1 _ (by decide)⟩

example : ts leap_second = "2016-12-31T23:59:60.500+00:00".toList := by decide

end pai_storage.times
