-- How often one server runs the handler for one request: any number of passes, over
-- a transport that presents what it likes and fails where it likes. The set of served
-- ids is only added to behind the response.
import PersonalAi.Broker

open pai_core text

namespace pai_broker.rpc

/-! ## Passes of one server -/

/-- The requests that the handler runs for, over passes that start with these served
ids. -/
def serve (device : DeviceId) (served : List String) : List (List Turn) → List (String × BrokerRequest)
  | [] => []
  | ts :: passes =>
    let p := serve_once device served ts
    p.calls ++ serve device (p.served ++ served) passes

/-- An error of the transport ends a pass, so the turns behind it are not reached. -/
def reached (device : DeviceId) (served : List String) : List Turn → List Turn
  | [] => []
  | t :: ts =>
    let p := serve_turn device served t
    t :: (if p.err.isSome then [] else reached device (p.served ++ served) ts)

def run_reached (device : DeviceId) (served : List String) : List (List Turn) → List Turn
  | [] => []
  | ts :: passes =>
    reached device served ts ++ run_reached device ((serve_once device served ts).served ++ served) passes

/-! ## One turn -/

/-- The request that a turn brings, with the id in its key. -/
def Turn.brought (t : Turn) (device : DeviceId) : Option (String × BrokerRequest) :=
  match strip_prefix (want device) t.key, t.tombstone, t.pulled with
  | some id, false, .ok (some o) =>
    match o.ciphertext with
    | some req => if req.v = 1 then some (id, req) else none
    | none => none
  | _, _, _ => none

/-- The turn brings a request for the handler: in time, with a payload that decodes. -/
def Turn.takes (t : Turn) (device : DeviceId) (id : String) : Bool :=
  match t.brought device with
  | some (i, req) => decide (i = id) && !req.expired t.now_ms && req.payload_b64.isOk
  | none => false

/-- The request is over: it is past its expiry, or no push of its answer fails. -/
def Turn.settles (t : Turn) (device : DeviceId) (id : String) : Bool :=
  match t.brought device with
  | some (i, req) => decide (i = id) &&
      (req.expired t.now_ms || (push_all t.push 0 (answer device t req)).2.isNone)
  | none => false

/-- A turn serves the request that it brings, unless its id is served. -/
theorem serve_turn_brought {device : DeviceId} {served : List String} {t : Turn} {id : String}
    {req : BrokerRequest} (h : t.brought device = some (id, req)) :
    serve_turn device served t = if id ∈ served then {} else serve_request device t id req := by
  unfold Turn.brought at h
  split at h
  · rename_i i o hkey htomb hpull
    cases hbody : o.ciphertext with
    | none => simp [hbody] at h
    | some r =>
      simp only [hbody] at h
      split at h
      · rename_i hv
        simp only [Option.some.injEq, Prod.mk.injEq] at h
        obtain ⟨rfl, rfl⟩ := h
        simp [serve_turn, hkey, htomb, hpull, hbody, hv]
      · cases h
  · cases h

/-- A turn that brings none calls nothing. -/
theorem serve_turn_idle {device : DeviceId} {t : Turn} (served : List String)
    (h : t.brought device = none) :
    (serve_turn device served t).calls = [] ∧ (serve_turn device served t).served = [] := by
  unfold serve_turn
  cases hkey : strip_prefix (want device) t.key with
  | none => exact ⟨rfl, rfl⟩
  | some req_id =>
    dsimp only
    by_cases hskip : t.tombstone ∨ req_id ∈ served
    · rw [if_pos hskip]
      exact ⟨rfl, rfl⟩
    · rw [if_neg hskip]
      rw [not_or] at hskip
      have htomb : t.tombstone = false := by simpa using hskip.1
      cases hpull : t.pulled with
      | error e => exact ⟨rfl, rfl⟩
      | ok found =>
        cases found with
        | none => exact ⟨rfl, rfl⟩
        | some o =>
          cases hbody : o.ciphertext with
          | none => simp [hbody]
          | some req =>
            by_cases hv : req.v = 1
            · simp [Turn.brought, hkey, htomb, hpull, hbody, hv] at h
            · simp [hbody, hv]

/-- What serving a request calls and remembers. -/
theorem serve_request_spec (device : DeviceId) (t : Turn) (id : String) (req : BrokerRequest) :
    (serve_request device t id req).calls =
      (if !req.expired t.now_ms && req.payload_b64.isOk then [(id, req)] else []) ∧
    (serve_request device t id req).served =
      (if req.expired t.now_ms || (push_all t.push 0 (answer device t req)).2.isNone then [id]
        else []) := by
  unfold serve_request
  cases hexp : req.expired t.now_ms with
  | true => simp
  | false =>
    cases hpush : push_all t.push 0 (answer device t req) with
    | mk pushed err => cases err <;> simp

/-- The runs of the handler for one id. -/
def runs (id : String) (calls : List (String × BrokerRequest)) : Nat :=
  calls.countP (fun c => decide (c.1 = id))

theorem runs_append (id : String) (as bs : List (String × BrokerRequest)) :
    runs id (as ++ bs) = runs id as + runs id bs := List.countP_append

/-- A turn runs the handler for an id that is not served if it takes it, and makes
it a served one if it settles it. -/
theorem turn_effect (device : DeviceId) {served : List String} {id : String} (t : Turn)
    (hid : id ∉ served) :
    runs id (serve_turn device served t).calls = (t.takes device id).toNat ∧
      (id ∈ (serve_turn device served t).served ↔ t.settles device id = true) := by
  unfold Turn.takes Turn.settles
  cases hbrought : t.brought device with
  | none =>
    obtain ⟨hcalls, hserved⟩ := serve_turn_idle served hbrought
    simp [hcalls, hserved, runs]
  | some c =>
    obtain ⟨i, req⟩ := c
    rw [serve_turn_brought hbrought]
    obtain ⟨hcalls, hserved⟩ := serve_request_spec device t i req
    by_cases hsame : i = id
    · subst hsame
      rw [if_neg hid, hcalls, hserved]
      constructor
      · cases hexp : req.expired t.now_ms <;> cases hok : req.payload_b64.isOk <;> simp [runs, hexp, hok]
      · split <;> simp_all
    · split
      · simp [runs, hsame]
      · rw [hcalls, hserved]
        constructor
        · split <;> simp [runs, hsame]
        · split <;> simp [hsame, Ne.symm hsame]

/-- A served id is left alone. -/
theorem turn_leaves_served {device : DeviceId} {served : List String} {id : String} (t : Turn)
    (hid : id ∈ served) : runs id (serve_turn device served t).calls = 0 := by
  cases hbrought : t.brought device with
  | none => simp [(serve_turn_idle served hbrought).1, runs]
  | some c =>
    obtain ⟨i, req⟩ := c
    rw [serve_turn_brought hbrought]
    split
    · rfl
    · rename_i hnew
      rw [(serve_request_spec device t i req).1]
      have hne : i ≠ id := by
        rintro rfl
        exact hnew hid
      split <;> simp [runs, hne]

/-! ## Runs of turns -/

/-- None of the turns settles the id. -/
def open_in (device : DeviceId) (id : String) (ts : List Turn) : Bool :=
  ts.all (fun t => !t.settles device id)

/-- How many turns take a request that no turn before them settled. -/
def takers (device : DeviceId) (id : String) : List Turn → Nat
  | [] => 0
  | t :: ts => (t.takes device id).toNat + (if t.settles device id then 0 else takers device id ts)

theorem takers_append (device : DeviceId) (id : String) (as bs : List Turn) :
    takers device id (as ++ bs) =
      takers device id as + (if open_in device id as then takers device id bs else 0) := by
  induction as with
  | nil => simp [takers, open_in]
  | cons a as ih =>
    have hopen : open_in device id (a :: as) = (!a.settles device id && open_in device id as) := rfl
    simp only [List.cons_append, takers, ih, hopen]
    cases a.settles device id with
    | true => simp
    | false => simp [Nat.add_assoc]

/-- A pass leaves a served id alone. -/
theorem pass_leaves_served {device : DeviceId} {id : String} (ts : List Turn)
    {served : List String} (hid : id ∈ served) :
    runs id (serve_once device served ts).calls = 0 := by
  induction ts generalizing served with
  | nil => rfl
  | cons t ts ih =>
    have hturn : runs id (serve_turn device served t).calls = 0 := turn_leaves_served t hid
    simp only [serve_once]
    cases (serve_turn device served t).err with
    | some e => exact hturn
    | none =>
      have hmem : id ∈ (serve_turn device served t).served ++ served := by simp [hid]
      have hrest := ih hmem
      simp only [Pass.append, runs_append, hturn, hrest]

/-- A pass runs the handler for an id as often as the turns that it comes to take it,
and then the id is served if one of them settled it. -/
theorem pass_effect (device : DeviceId) {id : String} (ts : List Turn) {served : List String}
    (hid : id ∉ served) :
    runs id (serve_once device served ts).calls = takers device id (reached device served ts) ∧
      (id ∈ (serve_once device served ts).served ↔
        open_in device id (reached device served ts) = false) := by
  induction ts generalizing served with
  | nil => simp [serve_once, reached, takers, open_in, runs]
  | cons t ts ih =>
    obtain ⟨hcalls, hserved⟩ := turn_effect device t hid
    simp only [serve_once, reached]
    cases herr : (serve_turn device served t).err with
    | some e =>
      simp only [Option.isSome_some, if_true]
      refine ⟨?_, ?_⟩
      · rw [hcalls]
        simp [takers]
      · rw [hserved]
        simp [open_in]
    | none =>
      simp only [Option.isSome_none, Bool.false_eq_true, if_false, Pass.append, runs_append, hcalls,
        takers, List.mem_append, hserved]
      by_cases hsettle : t.settles device id = true
      · -- the rest of the pass finds the id among the served ones
        have hmem : id ∈ (serve_turn device served t).served ++ served := by
          simp [hserved.mpr hsettle]
        simp [pass_leaves_served ts hmem, hsettle, open_in]
      · have hnew : id ∉ (serve_turn device served t).served ++ served := by
          simp [hserved, hsettle, hid]
        obtain ⟨hrest, hmem⟩ := ih hnew
        rw [hrest, hmem]
        simp [hsettle, open_in]

theorem serve_leaves_served {device : DeviceId} {id : String} (passes : List (List Turn))
    {served : List String} (hid : id ∈ served) : runs id (serve device served passes) = 0 := by
  induction passes generalizing served with
  | nil => rfl
  | cons ts passes ih =>
    have hmem : id ∈ (serve_once device served ts).served ++ served := by simp [hid]
    have hrest := ih hmem
    simp only [serve, runs_append, pass_leaves_served ts hid, hrest]

/-- All passes run the handler for an id as often as the turns that they come to take
it. -/
theorem serve_effect {device : DeviceId} {id : String} (passes : List (List Turn))
    {served : List String} (hid : id ∉ served) :
    runs id (serve device served passes) = takers device id (run_reached device served passes) := by
  induction passes generalizing served with
  | nil => rfl
  | cons ts passes ih =>
    obtain ⟨hcalls, hserved⟩ := pass_effect device ts hid
    simp only [serve, run_reached, runs_append, takers_append, hcalls]
    cases hopen : open_in device id (reached device served ts) with
    | false =>
      have hmem : id ∈ (serve_once device served ts).served ++ served := by
        simp [hserved.mpr hopen]
      simp [serve_leaves_served passes hmem]
    | true =>
      have hnew : id ∉ (serve_once device served ts).served ++ served := by
        simp [hserved, hopen, hid]
      simp [ih hnew]

/-! ## At most one run -/

/-- Of two turns that bring the same request for the handler, a turn before the second
one settled it. -/
def SettledBetween (device : DeviceId) (id : String) (ts : List Turn) : Prop :=
  ∀ before x mid y after, ts = before ++ x :: (mid ++ y :: after) →
    x.takes device id = true → y.takes device id = true → open_in device id (before ++ x :: mid) = false

/-- No turn takes an open request: behind every turn that would, it is settled. -/
theorem takers_eq_zero (device : DeviceId) (id : String) (ts : List Turn) :
    takers device id ts = 0 ↔
      ∀ mid y after, ts = mid ++ y :: after → y.takes device id = true →
        open_in device id mid = false := by
  induction ts with
  | nil => simp [takers]
  | cons t ts ih =>
    cases hset : t.settles device id with
    | true =>
      simp only [takers, hset, if_true, Nat.add_zero]
      constructor
      · intro h mid y after heq hy
        cases mid with
        | nil =>
          simp only [List.nil_append, List.cons.injEq] at heq
          rw [heq.1, hy] at h
          cases h
        | cons a mid =>
          simp only [List.cons_append, List.cons.injEq] at heq
          rw [← heq.1]
          simp [open_in, hset]
      · intro h
        cases ht : t.takes device id with
        | false => rfl
        | true => cases h [] t ts rfl ht
    | false =>
      simp only [takers, hset, Bool.false_eq_true, if_false, Nat.add_eq_zero_iff, ih]
      constructor
      · rintro ⟨ht, h⟩ mid y after heq hy
        cases mid with
        | nil =>
          simp only [List.nil_append, List.cons.injEq] at heq
          rw [heq.1, hy] at ht
          cases ht
        | cons a mid =>
          simp only [List.cons_append, List.cons.injEq] at heq
          rw [← heq.1]
          simpa [open_in, hset] using h mid y after heq.2 hy
      · intro h
        refine ⟨?_, ?_⟩
        · cases ht : t.takes device id with
          | false => rfl
          | true => cases h [] t ts rfl ht
        · intro mid y after heq hy
          have := h (t :: mid) y after (by rw [heq, List.cons_append]) hy
          simpa [open_in, hset] using this

theorem takers_le_one (device : DeviceId) (id : String) (ts : List Turn) :
    takers device id ts ≤ 1 ↔ SettledBetween device id ts := by
  induction ts with
  | nil => simp [takers, SettledBetween]
  | cons t ts ih =>
    -- the two turns of `SettledBetween`: `t` is the first of them, or neither is `t`
    have hsplit : SettledBetween device id (t :: ts) ↔
        (t.takes device id = true → ∀ mid y after, ts = mid ++ y :: after →
          y.takes device id = true → open_in device id (t :: mid) = false) ∧
        (∀ before x mid y after, ts = before ++ x :: (mid ++ y :: after) →
          x.takes device id = true → y.takes device id = true →
          open_in device id (t :: (before ++ x :: mid)) = false) := by
      constructor
      · intro h
        refine ⟨?_, ?_⟩
        · intro ht mid y after heq hy
          exact h [] t mid y after (by rw [heq]; rfl) ht hy
        · intro before x mid y after heq hx hy
          exact h (t :: before) x mid y after (by rw [heq]; rfl) hx hy
      · rintro ⟨hfirst, hlater⟩ before x mid y after heq hx hy
        cases before with
        | nil =>
          simp only [List.nil_append, List.cons.injEq] at heq
          rw [heq.1] at hfirst
          exact hfirst hx mid y after heq.2 hy
        | cons a before =>
          simp only [List.cons_append, List.cons.injEq] at heq
          have := hlater before x mid y after heq.2 hx hy
          rwa [heq.1] at this
    rw [hsplit]
    cases hset : t.settles device id with
    | true =>
      have hle : (t.takes device id).toNat ≤ 1 := Bool.toNat_le _
      simp [takers, hset, open_in, hle]
    | false =>
      have hopen : ∀ mid, open_in device id (t :: mid) = open_in device id mid := by
        intro mid
        simp [open_in, hset]
      simp only [takers, hset, Bool.false_eq_true, if_false, hopen]
      cases ht : t.takes device id with
      | false => simpa [SettledBetween] using ih
      | true =>
        have hzero := takers_eq_zero device id ts
        constructor
        · intro h
          have h0 : takers device id ts = 0 := by
            simp only [Bool.toNat_true] at h
            omega
          exact ⟨fun _ => hzero.mp h0, ih.mp (by omega)⟩
        · rintro ⟨hfirst, _⟩
          have h0 := hzero.mpr (hfirst rfl)
          simp [h0]

theorem the_handler_runs_once_when_the_answer_is_pushed_before_a_retry (device : DeviceId)
    (id : String) (passes : List (List Turn)) :
    runs id (serve device [] passes) ≤ 1 ↔
      SettledBetween device id (run_reached device [] passes) := by
  rw [serve_effect passes (by simp), takers_le_one]

def desk : DeviceId := ⟨"desk"⟩

def transcribe : BrokerRequest :=
  { v := 1, id := "r1", sender := ⟨"phone"⟩, op := "stt", payload_b64 := .ok [1], stream := false,
    expires_at_ms := 9 }

/-- The request as the transport lists it, and how the push of its answer goes. -/
def transcribe_turn (now_ms : Nat) (push : Except Error Unit) : Turn :=
  { key := "breq/desk/r1", tombstone := false,
    pulled := .ok (some { key := "breq/desk/r1", ciphertext := some transcribe, version := 1,
                          writer := ⟨"phone"⟩, updated_at := 0, tombstone := false }),
    now_ms := now_ms,
    handler := { handle := fun _ bytes => .ok bytes,
                 handle_stream := fun _ _ => { received := [], last := .closed } },
    push := fun _ => push }

/-- The push of the answer fails in the first pass, so the request is still there in
the second one. -/
theorem a_failed_push_runs_the_handler_again :
    ¬ runs "r1" (serve desk []
      [[transcribe_turn 1 (.error (.Sync "offline"))], [transcribe_turn 2 (.ok ())]]) ≤ 1 := by
  decide

/-- A request that is listed again behind its answer is not run again. -/
example : runs "r1" (serve desk []
    [[transcribe_turn 1 (.ok ()), transcribe_turn 1 (.ok ())], [transcribe_turn 2 (.ok ())]]) = 1 := by
  decide

end pai_broker.rpc
