-- When a recurring task runs again, with the times that chrono can hold and the texts that the
-- table holds of them: a schedule may go back, run out of the calendar, or into years whose texts
-- sort in front of the present one.
import PersonalAi.Lib.Calendar
import PersonalAi.TaskClaims

open pai_core text calendar

namespace pai_tasks.schedules

/-- `chrono::Duration::seconds`, which panics over the milliseconds of an `i64`. -/
def seconds (secs : Int) : Except String Int :=
  if -9223372036854775 ≤ secs ∧ secs ≤ 9223372036854775 then .ok secs
  else .error "TimeDelta::seconds out of bounds"

/-- `DateTime + Duration`, which panics where the calendar ends. -/
def add (t : Time) (duration : Int) : Except String Time :=
  match t.plus duration with
  | some u => .ok u
  | none => .error "`DateTime + TimeDelta` overflowed"

/-- The seconds of `@every Ns`. -/
def interval (cron : String) : Option Int :=
  ( strip_prefix "@every " cron).bind fun s => parse_i64 (s.toList.rdropWhile (· = 's'))

/-- An error is a panic. -/
def next_fire (trigger : Trigger) (start : Time) : Except String (Option Time) :=
  match trigger with
  | .Manual => .ok none
  | .Event _ _ => .ok none
  | .Schedule cron =>
    match interval cron with
    | some secs =>
      match seconds secs with
      | .error panic => .error panic
      | .ok duration => (add start duration).map some
    | none => .ok none

/-! ## The row of a task -/

abbrev Text := List Char

/-- The columns that a claim and a requeue are about. A time is its text. -/
structure Columns where
  state : TaskState
  trigger : Trigger
  run_at : Option Text
  claimed_by : Option DeviceId
  lease_expires_at : Option Text
  updated_at : Text
  deleted : Bool

/-- SQL's `column <= ?` on texts. -/
def passed (column : Option Text) (clock : Time) : Bool :=
  column.any fun time => decide (time ≤ clock.to_rfc3339)

/-- The `WHERE` clause of `due_tasks`. -/
def Columns.due (c : Columns) (clock : Time) : Bool :=
  !c.deleted && (c.run_at.isNone || passed c.run_at clock) &&
    ((c.state = .Pending && (c.claimed_by.isNone || c.lease_expires_at.isNone ||
        passed c.lease_expires_at clock)) ||
      (c.state = .Running && passed c.lease_expires_at clock))

def Columns.finish_task (c : Columns) (state : TaskState) (clock : Time) : Columns :=
  { c with state, updated_at := clock.to_rfc3339 }

def Columns.requeue_task (c : Columns) (next_run clock : Time) : Columns :=
  { c with
    state := .Pending, run_at := some next_run.to_rfc3339, claimed_by := none,
    lease_expires_at := none, updated_at := clock.to_rfc3339 }

/-- The end of the round of `claim_and_run` for a task whose handler has ended. `trigger` is that of
the row that the round has read, and `c` the row of now. -/
def close (trigger : Trigger) (start : Time) (ok : Bool) (c : Columns) (clock : Time) :
    Except String Columns :=
  if ok then
    match next_fire trigger start with
    | .error panic => .error panic
    | .ok (some next) => .ok (c.requeue_task next clock)
    | .ok none => .ok (c.finish_task .Done clock)
  else .ok (c.finish_task .Failed clock)

/-- The next time is there and later, and no row that comes out of the round is due again at the
time of the round. -/
structure MovesForward (trigger : Trigger) (start : Time) : Prop where
  later : ∃ next, next_fire trigger start = .ok next ∧ ∀ t, next = some t → start < t
  not_due : ∀ ok c clock, ∃ c', close trigger start ok c clock = .ok c' ∧ c'.due start = false

/-- The interval of a trigger. -/
def every : Trigger → Option Int
  | .Schedule cron => interval cron
  | _ => none

/-! ## The next time -/

section Times
variable {trigger : Trigger} {cron : String} {start t : Time} {secs : Int} {c : Columns} {clock : Time}

theorem add_eq_ok : add start secs = .ok t ↔ start.plus secs = some t := by
  unfold add
  rcases start.plus secs with _ | u <;> simp

/-- Without a panic the next time is the interval later. -/
theorem next_fire_spec (hcron : interval cron = some secs) {next : Option Time}
    (h : next_fire (.Schedule cron) start = .ok next) : ∃ u, start.plus secs = some u ∧ next = some u := by
  unfold next_fire at h
  simp only [hcron] at h
  split at h
  · cases h
  · rename_i duration hduration
    have hsame : duration = secs := by
      unfold seconds at hduration
      split at hduration
      · cases hduration
        rfl
      · cases hduration
    rcases hadd : add start duration with panic | u
    · rw [hadd] at h
      cases h
    · rw [hadd] at h
      cases h
      exact ⟨u, add_eq_ok.mp (hsame ▸ hadd), rfl⟩

/-- Each later time of the calendar is near enough for a duration. -/
theorem next_fire_of_plus (hcron : interval cron = some secs) (hpos : 0 < secs)
    (h : start.plus secs = some t) : next_fire (.Schedule cron) start = .ok (some t) := by
  have hsecs : secs ≤ 9223372036854775 := by
    have hrange := start.range
    have hin := Time.at_secs_isSome.mp (by
      rw [← Time.plus_pos hpos, h]
      rfl)
    have hmin : -9000000000000 ≤ min_secs := by decide
    have hmax : max_secs ≤ 9000000000000 := by decide
    omega
  simp only [next_fire, hcron, seconds, if_pos (show -9223372036854775 ≤ secs ∧
    secs ≤ 9223372036854775 from ⟨by omega, hsecs⟩), add_eq_ok.mpr h]
  rfl

/-- A requeued row is due where the text of its time comes no later than that of the round. -/
theorem requeue_due : (c.requeue_task t clock).due start =
    (!c.deleted && decide (t.to_rfc3339 ≤ start.to_rfc3339)) := by
  simp [Columns.due, Columns.requeue_task, passed]

theorem finish_due {state : TaskState} (h : state = .Done ∨ state = .Failed) :
    (c.finish_task state clock).due start = false := by
  rcases h with rfl | rfl <;> simp [Columns.due, Columns.finish_task]

/-- A trigger without an interval ends the task. -/
theorem moves_forward_of_none (h : next_fire trigger start = .ok none) :
    MovesForward trigger start := by
  refine ⟨⟨none, h, by simp⟩, fun ok c clock => ?_⟩
  unfold close
  rw [h]
  rcases ok with _ | _
  · exact ⟨_, rfl, finish_due (.inr rfl)⟩
  · exact ⟨_, rfl, finish_due (.inl rfl)⟩

/-- The round of a schedule, with the next time. -/
theorem moves_forward_of_some (h : next_fire trigger start = .ok (some t)) :
    MovesForward trigger start ↔ start < t ∧ start.to_rfc3339 < t.to_rfc3339 := by
  have hclose : ∀ c clock, close trigger start true c clock = .ok (c.requeue_task t clock) := by
    intro c clock
    simp only [close, h, if_true]
  constructor
  · rintro ⟨⟨next, hnext, hlater⟩, hdue⟩
    rw [h] at hnext
    cases hnext
    refine ⟨hlater t rfl, ?_⟩
    let row : Columns :=
      { state := .Pending, trigger, run_at := none, claimed_by := none, lease_expires_at := none,
        updated_at := [], deleted := false }
    obtain ⟨c', hc', hnot⟩ := hdue true row start
    rw [hclose] at hc'
    cases hc'
    rw [requeue_due] at hnot
    simpa [row] using hnot
  · rintro ⟨hlater, htext⟩
    refine ⟨⟨some t, h, fun u hu => Option.some.inj hu ▸ hlater⟩, fun ok c clock => ?_⟩
    rcases ok with _ | _
    · exact ⟨_, rfl, finish_due (.inr rfl)⟩
    · refine ⟨_, hclose c clock, ?_⟩
      rw [requeue_due, decide_eq_false (not_le.mpr htext), Bool.and_false]

theorem moves_forward_of_not_every (h : every trigger = none) : MovesForward trigger start := by
  refine moves_forward_of_none ?_
  cases trigger with
  | Schedule cron => simp only [next_fire, show interval cron = none from h]
  | Event source event => rfl
  | Manual => rfl

theorem moves_forward_every (h : every trigger = some secs) :
    MovesForward trigger start ↔ 0 < secs ∧ start.secs + secs ≤ max_secs ∧
      YearsInOrder start.year (year_at (start.secs + secs)) := by
  obtain ⟨cron, rfl, hcron⟩ : ∃ cron, trigger = .Schedule cron ∧ interval cron = some secs := by
    cases trigger with
    | Schedule cron => exact ⟨cron, rfl, h⟩
    | Event source event => cases h
    | Manual => cases h
  constructor
  · intro h
    obtain ⟨next, hnext, hlater⟩ := h.later
    obtain ⟨t, ht, rfl⟩ := next_fire_spec hcron hnext
    have hpos : 0 < secs := by
      by_contra hneg
      exact Time.plus_not_pos (by omega) ht (hlater t rfl)
    have htext := ((moves_forward_of_some hnext).mp h).2
    rw [Time.plus_pos hpos] at ht
    obtain ⟨hsecs, -⟩ := Time.at_secs_eq_some.mp ht
    refine ⟨hpos, hsecs ▸ t.range.2, ?_⟩
    rw [← hsecs]
    exact (Time.to_rfc3339_lt_iff (by omega)).mp htext
  · rintro ⟨hpos, hmax, hyears⟩
    have hin : (start.plus secs).isSome = true := by
      rw [Time.plus_pos hpos, Time.at_secs_isSome]
      have := start.range
      exact ⟨by omega, hmax⟩
    obtain ⟨t, ht⟩ := Option.isSome_iff_exists.mp hin
    rw [moves_forward_of_some (next_fire_of_plus hcron hpos ht)]
    rw [Time.plus_pos hpos] at ht
    obtain ⟨hsecs, -⟩ := Time.at_secs_eq_some.mp ht
    refine ⟨.inl (by omega), (Time.to_rfc3339_lt_iff (by omega)).mpr ?_⟩
    unfold Time.year at *
    rw [hsecs]
    exact hyears

/-- A recurring task moves forward exactly where its interval is positive, the calendar holds the
next time, and the texts of the two years are in order. -/
theorem moves_forward_iff (trigger : Trigger) (start : Time) :
    MovesForward trigger start ↔ ∀ secs, every trigger = some secs →
      0 < secs ∧ start.secs + secs ≤ max_secs ∧
        YearsInOrder start.year (year_at (start.secs + secs)) := by
  rcases hevery : every trigger with _ | secs
  · simp [moves_forward_of_not_every hevery]
  · simp [moves_forward_every hevery]

/-- In a year of four digits: where the interval is positive and ends before the year 10000. -/
theorem moves_forward_in_plain_years (hevery : every trigger = some secs)
    (hyear : 0 ≤ start.year ∧ start.year ≤ 9999) :
    MovesForward trigger start ↔ 0 < secs ∧ year_at (start.secs + secs) ≤ 9999 := by
  rw [moves_forward_every hevery]
  refine and_congr_right fun hpos => ?_
  have hmono : start.year ≤ year_at (start.secs + secs) := year_of_mono (by omega)
  rw [years_in_order_iff hyear hmono, and_iff_right_iff_imp]
  intro hplain
  by_contra hmax
  have hspec := year_of_spec ((start.secs + secs) / 86400 + epoch)
  have hstart := year_start_mono (show year_at (start.secs + secs) + 1 ≤ 262143 by omega)
  unfold max_secs at hmax
  unfold year_at at hstart
  omega

/-- The nanoseconds since the epoch. -/
def nanoseconds (t : Time) : Timestamp := (t.secs * 1000000000 + t.nanos).toNat

theorem next_fire_plain (n : Timestamp) :
    pai_tasks.next_fire (.Schedule cron) n = (interval cron).map (plus_seconds n) := by
  unfold pai_tasks.next_fire
  dsimp only
  split
  · rename_i secs hsecs
    rw [show interval cron = some secs from hsecs]
    rfl
  · rename_i hnone
    rw [show interval cron = none from hnone]
    rfl

/-- From the epoch on, and outside of a leap second, the next time is that of the exact seconds. -/
theorem next_fire_nanoseconds (hstart : 0 ≤ start.secs) (hplain : start.nanos < 1000000000)
    {next : Option Time} (h : next_fire trigger start = .ok next) :
    pai_tasks.next_fire trigger (nanoseconds start) = next.map nanoseconds := by
  cases trigger with
  | Event source event =>
    cases h
    rfl
  | Manual =>
    cases h
    rfl
  | Schedule cron =>
    rw [next_fire_plain]
    rcases hcron : interval cron with _ | secs
    · simp only [next_fire, hcron] at h
      cases h
      rfl
    · obtain ⟨u, hu, rfl⟩ := next_fire_spec hcron h
      unfold Time.plus at hu
      rw [dif_pos hplain] at hu
      obtain ⟨hsecs, hnanos⟩ := Time.at_secs_eq_some.mp hu
      simp only [Option.map_some, nanoseconds, plus_seconds, hsecs, hnanos]
      have hsum : ((start.secs * 1000000000 + start.nanos).toNat : Int) + secs * 1000000000 =
          (start.secs + secs) * 1000000000 + start.nanos := by omega
      exact congrArg (fun n : Int => some n.toNat) hsum

end Times

/-! ### Some intervals -/

theorem noon_in_range : min_secs ≤ 1791633600 ∧ (1791633600 : Int) ≤ max_secs := by decide

/-- The tenth of October 2026, at noon. -/
def noon : Time := ⟨1791633600, 0, noon_in_range, .inl (Nat.zero_lt_succ _)⟩

theorem some_intervals_stay :
    ¬ MovesForward (.Schedule "@every 0s") noon ∧ ¬ MovesForward (.Schedule "@every -60s") noon ∧
      ¬ MovesForward (.Schedule "@every 9223372036854775807s") noon ∧
      ¬ MovesForward (.Schedule "@every 300000000000s") noon := by
  have hzero : every (.Schedule "@every 0s") = some 0 := by decide
  have hback : every (.Schedule "@every -60s") = some (-60) := by decide
  have hlimit : every (.Schedule "@every 9223372036854775807s") = some 9223372036854775807 := by
    decide
  have hfar : every (.Schedule "@every 300000000000s") = some 300000000000 := by decide
  rw [moves_forward_every hzero, moves_forward_every hback, moves_forward_every hlimit,
    moves_forward_every hfar]
  decide

example : noon.to_rfc3339 = "2026-10-10T12:00:00+00:00".toList := by decide

end pai_tasks.schedules
