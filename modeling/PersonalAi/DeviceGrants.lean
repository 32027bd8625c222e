-- The wait for a device grant (the CLI's util.rs, over pai-oauth): the token endpoint is polled until
-- it grants a token, fails, or the grant expires. The law says what it answers and how often it asks.
import PersonalAi.Core
import PersonalAi.Lib.Runs

open pai_core runs

namespace pai_oauth

/-! ## The source -/

/-- What the wait reads of a grant, in seconds. -/
structure DeviceGrant where
  interval : Nat
  expires_in : Nat

structure TokenSet where
  access_token : String
  refresh_token : Option String
  expires_in : Option Nat
deriving DecidableEq

inductive Poll
  | Pending
  | Granted (set : TokenSet)
deriving DecidableEq

def json_err (body : json.Value) : String :=
  (((body.index "error_description").as_str).or (body.index "error").as_str).getD "unknown oauth error"

/-- What `post_form` gives: the status and the body, or an error of the request. -/
abbrev Answer := Except Error (Nat × json.Value)

/-- What `serde_json::from_value` makes of a token set. -/
abbrev FromValue := json.Value → Except String TokenSet

variable (from_value : FromValue)

def poll_token_once : Answer → Except Error Poll
  | .error e => .error e
  | .ok (status, body) =>
    if status = 200 then
      match from_value body with
      | .ok set => .ok (.Granted set)
      | .error e => .error (.Provider ("oauth token set: " ++ e))
    else if (body.index "error").as_str.getD "" ∈ ["authorization_pending", "slow_down"] then
      .ok .Pending
    else .error (.Provider ("oauth poll: " ++ json_err body))

def SECOND : Nat := 10 ^ 9

/-- A poll: when its turn checked the deadline, when it was sent, and its answer. Times are in
nanoseconds from the start of the wait. -/
structure Polled where
  checked : Nat
  sent : Nat
  answer : Answer

/-- The loop: its variables, its polls so far, the newest first, and how it ended. -/
structure Wait where
  interval : Nat
  pendings : Nat
  polls : List Polled
  result : Option (Except Error TokenSet)

def expired : Error := .InvalidInput "device grant expired — re-run configure"

namespace DeviceGrant
variable (grant : DeviceGrant)

def start : Wait :=
  { interval := max grant.interval 1, pendings := 0, polls := [], result := none }

def deadline : Nat := max grant.expires_in 120

/-- One turn of the loop of `wait_device_grant`. -/
def turn (w : Wait) (t : Polled) : Wait :=
  if w.result.isSome then w
  else if t.checked > grant.deadline * SECOND then { w with result := some (.error expired) }
  else
    let w := { w with polls := t :: w.polls }
    match poll_token_once from_value t.answer with
    | .error e => { w with result := some (.error e) }
    | .ok .Pending =>
      -- it backs off once, whatever the endpoint says
      let interval := if w.pendings + 1 = 5 then w.interval + 5 else w.interval
      { w with pendings := w.pendings + 1, interval := interval }
    | .ok (.Granted set) => { w with result := some (.ok set) }

end DeviceGrant

/-! ## The law -/

/-- When the last poll was sent. -/
def last_sent : List Polled → Nat
  | [] => 0
  | p :: _ => p.sent

/-- The clock does not go back, and the sleep is not cut short. -/
def Slept (w : Wait) (t : Polled) : Prop :=
  last_sent w.polls ≤ t.checked ∧ t.checked + w.interval * SECOND ≤ t.sent

/-- The sleep behind so many polls. -/
def pause (base polls : Nat) : Nat := if polls < 5 then base else base + 5

/-- All sleeps before so many polls. -/
def pauses (base polls : Nat) : Nat := base * polls + 5 * (polls - 5)

theorem pauses_succ (base n : Nat) : pauses base (n + 1) = pauses base n + pause base n := by
  unfold pauses pause
  rw [Nat.mul_succ]
  split <;> omega

/-- Every poll is sent in time, and as long behind the last one as it should. -/
def Paced (base deadline : Nat) : List Polled → Prop
  | [] => True
  | p :: rest => last_sent rest ≤ p.checked ∧ p.checked ≤ deadline * SECOND ∧
      p.checked + pause base rest.length * SECOND ≤ p.sent ∧ Paced base deadline rest

theorem paced_pauses {base deadline : Nat} {polls : List Polled} (h : Paced base deadline polls) :
    pauses base polls.length * SECOND ≤ last_sent polls := by
  induction polls with
  | nil => simp [pauses, last_sent]
  | cons p rest ih =>
    obtain ⟨hlast, -, hsent, hrest⟩ := h
    have hbefore := ih hrest
    rw [List.length_cons, pauses_succ, Nat.add_mul]
    exact Nat.le_trans (Nat.add_le_add_right (Nat.le_trans hbefore hlast) _) hsent

/-- The polls of a wait end with its deadline. -/
theorem paced_length {base deadline : Nat} {polls : List Polled} (h : Paced base deadline polls) :
    pauses base (polls.length - 1) ≤ deadline := by
  cases polls with
  | nil => simp [pauses]
  | cons p rest =>
    obtain ⟨hlast, hdeadline, -, hrest⟩ := h
    have hall := Nat.le_trans (Nat.le_trans (paced_pauses hrest) hlast) hdeadline
    exact Nat.le_of_mul_le_mul_right hall (by unfold SECOND; omega)

/-- So far the endpoint knows of no answer of the user. -/
def AllPending (polls : List Polled) : Prop :=
  ∀ p ∈ polls, poll_token_once from_value p.answer = .ok .Pending

/-- How a wait of these turns ended: with the first answer that is not pending, or in a turn behind
its deadline. -/
def EndsWith (deadline : Nat) (turns polls : List Polled) (r : Except Error TokenSet) : Prop :=
  (r = .error expired ∧ AllPending from_value polls ∧ ∃ t ∈ turns, t.checked > deadline * SECOND) ∨
    ∃ p rest, polls = p :: rest ∧ AllPending from_value rest ∧
      ((∃ e, poll_token_once from_value p.answer = .error e ∧ r = .error e) ∨
        ∃ set, poll_token_once from_value p.answer = .ok (.Granted set) ∧ r = .ok set)

structure Inv (grant : DeviceGrant) (turns : List Polled) (w : Wait) : Prop where
  paced : Paced (max grant.interval 1) grant.deadline w.polls
  waits : w.result = none → w.pendings = w.polls.length ∧
    w.interval = pause (max grant.interval 1) w.polls.length ∧ AllPending from_value w.polls
  ends : ∀ r, w.result = some r → EndsWith from_value grant.deadline turns w.polls r

variable {from_value} {grant : DeviceGrant} {turns : List Polled} {w : Wait}

theorem inv_start : Inv from_value grant turns grant.start :=
  { paced := trivial, waits := fun _ => ⟨rfl, rfl, fun _ h => nomatch h⟩, ends := nofun }

theorem pause_succ (base n : Nat) :
    pause base (n + 1) = if n + 1 = 5 then pause base n + 5 else pause base n := by
  unfold pause
  split <;> split <;> split <;> omega

theorem turn_inv {t : Polled} (h : Inv from_value grant turns w) (ht : t ∈ turns)
    (hslept : w.result = none → Slept w t) :
    Inv from_value grant turns (grant.turn from_value w t) := by
  unfold DeviceGrant.turn
  cases hresult : w.result with
  | some r =>
    rw [if_pos (Option.isSome_some (a := r))]
    exact h
  | none =>
    obtain ⟨hpendings, hinterval, hall⟩ := h.waits hresult
    obtain ⟨hlast, hsent⟩ := hslept hresult
    rw [if_neg (by simp)]
    split
    · rename_i hlate
      refine { paced := h.paced, waits := nofun, ends := fun r hr => ?_ }
      exact .inl ⟨(Option.some.inj hr).symm, hall, t, ht, hlate⟩
    · rename_i hlate
      have hpaced : Paced (max grant.interval 1) grant.deadline (t :: w.polls) :=
        ⟨hlast, Nat.le_of_not_lt hlate, hinterval ▸ hsent, h.paced⟩
      dsimp only
      cases hpoll : poll_token_once from_value t.answer with
      | error e =>
        refine { paced := hpaced, waits := nofun, ends := fun r hr => ?_ }
        exact .inr ⟨t, w.polls, rfl, hall, .inl ⟨e, hpoll, (Option.some.inj hr).symm⟩⟩
      | ok poll =>
        cases poll with
        | Granted set =>
          refine { paced := hpaced, waits := nofun, ends := fun r hr => ?_ }
          exact .inr ⟨t, w.polls, rfl, hall, .inr ⟨set, hpoll, (Option.some.inj hr).symm⟩⟩
        | Pending =>
          refine { paced := hpaced, waits := fun _ => ⟨?_, ?_, ?_⟩, ends := fun r hr => ?_ }
          · exact congrArg (· + 1) hpendings
          · rw [List.length_cons, pause_succ, ← hinterval, ← hpendings]
          · exact List.forall_mem_cons.mpr ⟨hpoll, hall⟩
          · cases hr

def quick : DeviceGrant := { interval := 0, expires_in := 0 }

def granted_set : TokenSet := { access_token := "t", refresh_token := none, expires_in := none }

def pending_body : json.Value := .object [("error", .string "slow_down")]

end pai_oauth
