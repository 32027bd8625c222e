-- The approvals that a run parks until the UI answers: the announcement, the waiter that
-- `decide` registers, its timeout, and the answers of `pai_approve`, in any order.
import Mathlib.Data.Finset.Basic
import PersonalAi.Core
import PersonalAi.Lib.Table
import PersonalAi.Lib.Runs

namespace pai_ffi

open pai_core runs table

/-- Where the approval of one call stands. The agent emits `ApprovalNeeded` before `decide`
makes the channel, so an announced approval has no waiter yet. -/
inductive Standing
  | announced
  | waiting (deadline : Nat) (answer : Option Bool)
  | returned (granted : Bool)
deriving DecidableEq, Repr

/-- The part of the runtime that approvals use. Every call draws its own id, so the sender
that `pending` holds under an id is the one of that call's `decide`. -/
structure PaiRuntime where
  now : Nat
  asks : Table ToolCallId Standing
  pending : Finset ToolCallId

/-- `Duration::from_secs(300)`, in milliseconds. -/
def decide_timeout : Nat := 300000

/-- The steps of the runs and the calls of the UI. -/
inductive Step
  | announce (id : ToolCallId)
  | insert (id : ToolCallId)
  | poll (id : ToolCallId)
  | tick (millis : Nat)
  | approve (id : ToolCallId) (granted : Int)
deriving DecidableEq, Repr

/-- The call that a step is about. -/
def Step.call : Step → Option ToolCallId
  | .announce id | .insert id | .poll id | .approve id _ => some id
  | .tick _ => none

namespace PaiRuntime

def new : PaiRuntime := { now := 0, asks := ∅, pending := ∅ }

/-- `execute_tool` emits `ApprovalNeeded` under the call's fresh id. -/
def announce (rt : PaiRuntime) (id : ToolCallId) : PaiRuntime :=
  if rt.asks.lookup id = none then { rt with asks := rt.asks.insert id .announced } else rt

/-- `decide` makes a channel and registers its sender. -/
def decide_insert (rt : PaiRuntime) (id : ToolCallId) : PaiRuntime :=
  match rt.asks.lookup id with
  | some .announced =>
    { rt with
      asks := rt.asks.insert id (.waiting (rt.now + decide_timeout) none)
      pending := insert id rt.pending }
  | _ => rt

/-- The wait of `decide` is polled: the channel first, then the timer. A wait that times out
drops the receiver and leaves the sender in `pending`. -/
def decide_poll (rt : PaiRuntime) (id : ToolCallId) : PaiRuntime :=
  match rt.asks.lookup id with
  | some (.waiting _ (some granted)) => { rt with asks := rt.asks.insert id (.returned granted) }
  | some (.waiting deadline none) =>
    if deadline ≤ rt.now then { rt with asks := rt.asks.insert id (.returned false) } else rt
  | _ => rt

/-- A send: it fails when the receiver is gone, and `pai_approve` ignores that. -/
def send (rt : PaiRuntime) (id : ToolCallId) (granted : Bool) : PaiRuntime :=
  match rt.asks.lookup id with
  | some (.waiting deadline none) =>
    { rt with asks := rt.asks.insert id (.waiting deadline (some granted)) }
  | _ => rt

/-- A handle that is null or an id that is no uuid gives 0 before this. -/
def pai_approve (rt : PaiRuntime) (id : ToolCallId) (granted : Int) : Int × PaiRuntime :=
  if id ∈ rt.pending then
    (1, { rt with pending := rt.pending.erase id }.send id (granted != 0))
  else (0, rt)

def step (rt : PaiRuntime) : Step → PaiRuntime
  | .announce id => rt.announce id
  | .insert id => rt.decide_insert id
  | .poll id => rt.decide_poll id
  | .tick millis => { rt with now := rt.now + millis }
  | .approve id granted => (rt.pai_approve id granted).2

/-! ## What an answer owes -/

/-- What `decide` returned for the call. -/
def outcome (rt : PaiRuntime) (id : ToolCallId) : Option Bool :=
  match rt.asks.lookup id with
  | some (.returned granted) => some granted
  | _ => none

def waits (rt : PaiRuntime) (id : ToolCallId) : Bool :=
  match rt.asks.lookup id with
  | some (.waiting _ _) => true
  | _ => false

/-- The event is out, and neither an answer nor the timeout came since. -/
def unanswered (rt : PaiRuntime) (id : ToolCallId) : Bool :=
  match rt.asks.lookup id with
  | some .announced | some (.waiting _ none) => true
  | _ => false

/-- The run has the answer: a `decide` that returned gave it, one that waits gives it the next
time it is polled. -/
def Heard (rt : PaiRuntime) (id : ToolCallId) (granted : Bool) : Prop :=
  (∀ b, rt.outcome id = some b → b = granted) ∧
    (rt.waits id = true → (rt.step (.poll id)).outcome id = some granted)

/-- An answer that is reported as a success, or comes between the event and the timeout, is
the one that the run hears, however the runs and the UI go on. -/
def AnswerCounts (rt : PaiRuntime) (id : ToolCallId) (granted : Int) : Prop :=
  (rt.pai_approve id granted).1 = 1 ∨ rt.unanswered id = true →
    ∀ after, (run step (rt.pai_approve id granted).2 after).Heard id (granted != 0)

/-- The answer finds a registered waiter, or no one that it could reach: it does not fall
between the event and the waiter, and no sender is left from a wait that timed out and
returned another value. -/
def in_time (rt : PaiRuntime) (id : ToolCallId) (granted : Int) : Bool :=
  match rt.asks.lookup id with
  | some .announced => false
  | some (.returned b) => id ∉ rt.pending || b == (granted != 0)
  | _ => true

/-! ## One step and the calls it is not about -/

variable {rt : PaiRuntime} {id : ToolCallId}

/-- The two runtimes have the same for the call. -/
def Same (rt rt' : PaiRuntime) (id : ToolCallId) : Prop :=
  rt'.asks.lookup id = rt.asks.lookup id ∧ (id ∈ rt'.pending ↔ id ∈ rt.pending)

theorem same_refl (rt : PaiRuntime) (id : ToolCallId) : rt.Same rt id := ⟨rfl, .rfl⟩

theorem announce_same {other : ToolCallId} (hne : id ≠ other) : rt.Same (rt.announce other) id := by
  unfold announce
  split
  · exact ⟨AList.lookup_insert_ne hne, .rfl⟩
  · exact same_refl rt id

theorem decide_insert_same {other : ToolCallId} (hne : id ≠ other) :
    rt.Same (rt.decide_insert other) id := by
  unfold decide_insert
  split
  · exact ⟨AList.lookup_insert_ne hne, by simp [hne]⟩
  · exact same_refl rt id

theorem decide_poll_same {other : ToolCallId} (hne : id ≠ other) :
    rt.Same (rt.decide_poll other) id := by
  unfold decide_poll
  split
  · exact ⟨AList.lookup_insert_ne hne, .rfl⟩
  · split
    · exact ⟨AList.lookup_insert_ne hne, .rfl⟩
    · exact same_refl rt id
  · exact same_refl rt id

theorem pai_approve_same {other : ToolCallId} (hne : id ≠ other) (granted : Int) :
    rt.Same (rt.pai_approve other granted).2 id := by
  unfold pai_approve
  split
  · unfold send
    dsimp only
    split
    · exact ⟨AList.lookup_insert_ne hne, by simp [hne]⟩
    · exact ⟨rfl, by simp [hne]⟩
  · exact same_refl rt id

/-- A step keeps what every other call has. -/
theorem step_same {a : Step} (ha : a.call ≠ some id) : rt.Same (rt.step a) id := by
  have hne : ∀ {other}, a.call = some other → id ≠ other := fun h heq => ha (heq ▸ h)
  cases a with
  | tick millis => exact same_refl rt id
  | announce other => exact announce_same (hne rfl)
  | insert other => exact decide_insert_same (hne rfl)
  | poll other => exact decide_poll_same (hne rfl)
  | approve other granted => exact pai_approve_same (hne rfl) granted

/-! ## A sender is registered exactly while an answer is awaited -/

/-- A call that waits unanswered has its sender in `pending`, and a call has none there
before it waits or with an answer on its way. -/
def Fits (rt : PaiRuntime) (id : ToolCallId) : Prop :=
  match rt.asks.lookup id with
  | none | some .announced | some (.waiting _ (some _)) => id ∉ rt.pending
  | some (.waiting _ none) => id ∈ rt.pending
  | some (.returned _) => True

theorem fits_of_same {rt' : PaiRuntime} (hsame : rt.Same rt' id) (h : rt.Fits id) :
    rt'.Fits id := by
  unfold Fits at h ⊢
  rwa [hsame.1, hsame.2]

theorem announce_fits (h : rt.Fits id) : (rt.announce id).Fits id := by
  unfold announce
  split
  · rename_i hnew
    simp only [Fits, hnew] at h
    simpa [Fits] using h
  · exact h

theorem decide_insert_fits (h : rt.Fits id) : (rt.decide_insert id).Fits id := by
  unfold decide_insert
  split
  · simp [Fits]
  · exact h

theorem decide_poll_fits (h : rt.Fits id) : (rt.decide_poll id).Fits id := by
  unfold decide_poll
  split
  · simp [Fits]
  · split
    · simp [Fits]
    · exact h
  · exact h

theorem pai_approve_fits (granted : Int) (h : rt.Fits id) : (rt.pai_approve id granted).2.Fits id := by
  unfold pai_approve
  split
  · rename_i hpending
    unfold send
    dsimp only
    split
    · simp [Fits]
    · rename_i hother
      unfold Fits at h ⊢
      split at h
      · exact absurd hpending h
      · exact absurd hpending h
      · exact absurd hpending h
      · rename_i hlook
        exact absurd hlook (hother _)
      · rename_i hlook
        simp [hlook]
  · exact h

theorem step_fits (rt : PaiRuntime) (a : Step) (h : rt.Fits id) : (rt.step a).Fits id := by
  by_cases ha : a.call = some id
  · cases a with
    | announce other => cases ha; exact announce_fits h
    | insert other => cases ha; exact decide_insert_fits h
    | poll other => cases ha; exact decide_poll_fits h
    | tick millis => cases ha
    | approve other granted => cases ha; exact pai_approve_fits granted h
  · exact fits_of_same (step_same ha) h

theorem run_fits (steps : List Step) (id : ToolCallId) : (run step new steps).Fits id :=
  always step_fits (show new.Fits id by simp [Fits, new]) steps

/-! ## An answer that was sent -/

/-- The answer is in the channel or returned, and no one can answer again. -/
def Settled (rt : PaiRuntime) (id : ToolCallId) (granted : Bool) : Prop :=
  id ∉ rt.pending ∧ ((∃ deadline, rt.asks.lookup id = some (.waiting deadline (some granted))) ∨
    rt.asks.lookup id = some (.returned granted))

theorem step_settled {granted : Bool} (rt : PaiRuntime) (a : Step) (h : rt.Settled id granted) :
    (rt.step a).Settled id granted := by
  obtain ⟨hpending, hstands⟩ := h
  by_cases ha : a.call = some id
  · cases a with
    | tick millis => cases ha
    | announce other =>
      cases ha
      rcases hstands with ⟨deadline, hlook⟩ | hlook
      · simp [step, announce, hlook, Settled, hpending]
      · simp [step, announce, hlook, Settled, hpending]
    | insert other =>
      cases ha
      rcases hstands with ⟨deadline, hlook⟩ | hlook
      · simp [step, decide_insert, hlook, Settled, hpending]
      · simp [step, decide_insert, hlook, Settled, hpending]
    | poll other =>
      cases ha
      rcases hstands with ⟨deadline, hlook⟩ | hlook
      · simp [step, decide_poll, hlook, Settled, hpending]
      · simp [step, decide_poll, hlook, Settled, hpending]
    | approve other value =>
      cases ha
      simpa [step, pai_approve, hpending, Settled] using hstands
  · obtain ⟨hasks, hkept⟩ : rt.Same (rt.step a) id := step_same ha
    exact ⟨fun hin => hpending (hkept.mp hin), by rwa [hasks]⟩

theorem settled_heard {granted : Bool} (h : rt.Settled id granted) : rt.Heard id granted := by
  rcases h.2 with ⟨deadline, hlook⟩ | hlook
  · simp [Heard, outcome, waits, step, decide_poll, hlook]
  · simp [Heard, outcome, waits, hlook]

/-- A waiter that is registered takes the answer. -/
theorem waiter_settled {deadline : Nat} (granted : Int) (hpending : id ∈ rt.pending)
    (hlook : rt.asks.lookup id = some (.waiting deadline none)) :
    (rt.pai_approve id granted).2.Settled id (granted != 0) := by
  simp [pai_approve, hpending, send, hlook, Settled]

/-! ## The answers that count -/

theorem settled_counts {granted : Int}
    (h : (rt.pai_approve id granted).2.Settled id (granted != 0)) : rt.AnswerCounts id granted :=
  fun _ after => settled_heard (always step_settled h after)

/-- An answer that is neither reported as a success nor awaited owes nothing. -/
theorem idle_counts (granted : Int) (hpending : id ∉ rt.pending) (hidle : rt.unanswered id = false) :
    rt.AnswerCounts id granted := by
  rintro (hone | hopen)
  · simp [pai_approve, hpending] at hone
  · rw [hidle] at hopen
    cases hopen

theorem in_time_counts {granted : Int} (hfits : rt.Fits id) (h : rt.in_time id granted = true) :
    rt.AnswerCounts id granted := by
  unfold in_time at h
  unfold Fits at hfits
  rcases hlook : rt.asks.lookup id with _ | standing
  · rw [hlook] at hfits
    exact idle_counts granted hfits (by simp [unanswered, hlook])
  · rw [hlook] at hfits h
    cases standing with
    | announced => cases h
    | waiting deadline answer =>
      rcases answer with _ | sent
      · exact settled_counts (waiter_settled granted hfits hlook)
      · exact idle_counts granted hfits (by simp [unanswered, hlook])
    | returned b =>
      by_cases hpending : id ∈ rt.pending
      · have hb : b = (granted != 0) := by simpa [hpending] using h
        apply settled_counts
        simp [pai_approve, hpending, send, hlook, Settled, hb]
      · exact idle_counts granted hpending (by simp [unanswered, hlook])

/-- After an answer in the gap the waiter is still registered, and the opposite answer is the
one that the run hears. -/
theorem gap_is_lost {granted : Int} (hfits : rt.Fits id)
    (hlook : rt.asks.lookup id = some .announced) : ¬ rt.AnswerCounts id granted := by
  intro hcounts
  have hpending : id ∉ rt.pending := by simpa [Fits, hlook] using hfits
  let opposite : Int := if granted = 0 then 1 else 0
  have hheard := hcounts (.inr (by simp [unanswered, hlook]))
    [.insert id, .approve id opposite, .poll id]
  have hback : (run step (rt.pai_approve id granted).2
      [.insert id, .approve id opposite, .poll id]).outcome id = some (opposite != 0) := by
    simp [pai_approve, hpending, step, decide_insert, hlook, send, decide_poll, outcome]
  have hsame := hheard.1 _ hback
  simp only [opposite] at hsame
  split at hsame
  · simp_all
  · simp_all

/-- The first answer decides, and a later one is reported as no success. Every answer counts
but one that comes between the event and the waiter, or one that meets the sender of a wait
that timed out. -/
theorem an_answer_counts_iff_it_is_in_time (steps : List Step) (id : ToolCallId) (granted : Int) :
    (run step new steps).AnswerCounts id granted ↔
      (run step new steps).in_time id granted = true := by
  have hfits := run_fits steps id
  refine ⟨fun hcounts => ?_, in_time_counts hfits⟩
  unfold in_time
  split
  · rename_i hlook
    exact absurd hcounts (gap_is_lost hfits hlook)
  · rename_i b hlook
    by_cases hpending : id ∈ (run step new steps).pending
    · have hheard := hcounts (.inl (by simp [pai_approve, hpending])) []
      have hb := hheard.1 b (by simp [pai_approve, hpending, send, hlook, outcome])
      simp [hb]
    · simp [hpending]
  · rfl

/-- An approval from inside the event callback is lost, and one after the timeout is
reported as a success although the run was denied. -/
theorem early_and_late_answers_do_not_count :
    ¬ (∀ steps id granted, (run step new steps).AnswerCounts id granted) ∧
      ¬ (run step new [.announce ⟨"call"⟩]).AnswerCounts ⟨"call"⟩ 1 ∧
      ¬ (run step new [.announce ⟨"call"⟩, .insert ⟨"call"⟩, .tick 300000, .poll ⟨"call"⟩]).AnswerCounts
        ⟨"call"⟩ 1 := by
  have hearly : ¬ (run step new [.announce ⟨"call"⟩]).AnswerCounts ⟨"call"⟩ 1 := by
    intro hcounts
    have hheard := hcounts (.inr (by decide)) [.insert ⟨"call"⟩, .tick 300000, .poll ⟨"call"⟩]
    exact absurd (hheard.1 false (by decide)) (by decide)
  refine ⟨fun hall => hearly (hall _ _ _), hearly, fun hcounts => ?_⟩
  exact absurd ((hcounts (.inl (by decide)) []).1 false (by decide)) (by decide)

end PaiRuntime

end pai_ffi
