-- How often the handler runs for one signed request: any number of passes, over a
-- transport that presents what it likes. The server keeps no record of what it
-- served, and the expiry is not among the signed bytes.
import PersonalAi.GuestServer

open pai_core

namespace pai_share.guest

/-! ## The turns that a pass comes to -/

/-- One pass: the server as it then stands, the handler, and what the transport
and the clock give. -/
structure PassInput where
  srv : GuestServer
  handler : GuestHandler
  turns : List Turn

/-- An error of the transport ends a pass, so the turns behind it are not
reached. -/
def reached (srv : GuestServer) (handler : GuestHandler) : List Turn → List Turn
  | [] => []
  | t :: ts => t :: (if (serve_turn srv handler t).err.isSome then [] else reached srv handler ts)

/-- A run of the handler, with the time on the clock of the server. -/
structure Execution where
  now_ms : Nat
  request : GuestRequest

def turn_executions (srv : GuestServer) (handler : GuestHandler) (t : Turn) : List Execution :=
  (serve_turn srv handler t).calls.map (fun r => { now_ms := t.now_ms, request := r })

def PassInput.executions (p : PassInput) : List Execution :=
  (reached p.srv p.handler p.turns).flatMap (turn_executions p.srv p.handler)

/-- The executions are the calls of `serve_once`, each with its time. -/
theorem serve_once_executions (p : PassInput) :
    p.executions.map Execution.request = (serve_once p.srv p.handler p.turns).calls := by
  have hturn : ∀ t, (turn_executions p.srv p.handler t).map Execution.request =
      (serve_turn p.srv p.handler t).calls := by
    intro t
    simp [turn_executions, Function.comp_def]
  unfold PassInput.executions
  induction p.turns with
  | nil => rfl
  | cons t ts ih =>
    simp only [reached, serve_once, List.flatMap_cons, List.map_append, hturn]
    cases herr : (serve_turn p.srv p.handler t).err with
    | none => simp [Pass.append, ih]
    | some e => simp

/-- A turn runs the handler at most once, for the request it brings. -/
theorem serve_request_calls_le (srv : GuestServer) (handler : GuestHandler) (t : Turn)
    (req : GuestRequest) : (serve_request srv handler t req).calls.length ≤ 1 := by
  unfold serve_request
  split
  · simp
  · cases srv.verify t.now req with
    | error e => cases t.push <;> simp
    | ok u => cases handler req.op req.app_id req.args <;> cases t.push <;> simp

theorem serve_turn_calls_le (srv : GuestServer) (handler : GuestHandler) (t : Turn) :
    (serve_turn srv handler t).calls.length ≤ 1 := by
  unfold serve_turn
  split
  · simp
  · split
    · simp
    · simp
    · split
      · simp
      · apply serve_request_calls_le

/-! ## One signed request -/

/-- The signature of the grantee does not tell the two requests apart. -/
def SameSigned (signed r : GuestRequest) : Prop :=
  r.capability.grantee_key = signed.capability.grantee_key ∧
    r.signing_payload = signed.signing_payload

instance (signed r : GuestRequest) : Decidable (SameSigned signed r) :=
  inferInstanceAs (Decidable (_ ∧ _))

/-- The clock has not passed the expiry that the grantee put into the request;
0 is none. -/
def InTime (signed : GuestRequest) (now_ms : Nat) : Prop :=
  signed.expires_at_ms = 0 ∨ now_ms ≤ signed.expires_at_ms

/-- The handler runs at most once for what a grantee signed, and in time. -/
def RunsAtMostOnce (signed : GuestRequest) (xs : List Execution) : Prop :=
  xs.countP (fun x => decide (SameSigned signed x.request)) ≤ 1 ∧
    ∀ x ∈ xs, SameSigned signed x.request → InTime signed x.now_ms

/-- A turn, with the server that it reaches. -/
structure Presented where
  srv : GuestServer
  handler : GuestHandler
  turn : Turn

def PassInput.presented (p : PassInput) : List Presented :=
  (reached p.srv p.handler p.turns).map
    (fun t => { srv := p.srv, handler := p.handler, turn := t })

/-- The turn presents a request with that signature, and the server takes it on:
it is not past the expiry it carries, and `GuestServer::verify` accepts it. -/
def Presented.Takes (x : Presented) (signed : GuestRequest) : Prop :=
  ∃ r, Taken x.srv x.turn r ∧ SameSigned signed r

def Presented.executions (x : Presented) : List Execution :=
  turn_executions x.srv x.handler x.turn

def run_executions (passes : List PassInput) : List Execution :=
  passes.flatMap PassInput.executions

def run_presented (passes : List PassInput) : List Presented := passes.flatMap PassInput.presented

theorem run_executions_eq (passes : List PassInput) :
    run_executions passes = (run_presented passes).flatMap Presented.executions := by
  have hpass : ∀ p : PassInput, p.executions = p.presented.flatMap Presented.executions := by
    intro p
    unfold PassInput.presented PassInput.executions
    rw [List.flatMap_map]
    rfl
  unfold run_executions run_presented
  rw [List.flatMap_assoc]
  apply List.flatMap_congr
  intro p _
  exact hpass p

theorem mem_executions {x : Presented} {e : Execution} :
    e ∈ x.executions ↔ e.now_ms = x.turn.now_ms ∧ Taken x.srv x.turn e.request := by
  unfold Presented.executions turn_executions
  rw [List.mem_map]
  constructor
  · rintro ⟨r, hr, rfl⟩
    exact ⟨rfl, (serve_turn_calls x.srv x.handler x.turn r).mp hr⟩
  · rintro ⟨hnow, htaken⟩
    refine ⟨e.request, (serve_turn_calls x.srv x.handler x.turn e.request).mpr htaken, ?_⟩
    rw [← hnow]

theorem executions_le (x : Presented) : x.executions.length ≤ 1 := by
  unfold Presented.executions turn_executions
  rw [List.length_map]
  exact serve_turn_calls_le x.srv x.handler x.turn

/-- A turn counts for a signed request exactly when it takes it on. -/
theorem countP_executions (x : Presented) (signed : GuestRequest) [Decidable (x.Takes signed)] :
    x.executions.countP (fun e => decide (SameSigned signed e.request)) =
      if x.Takes signed then 1 else 0 := by
  have hle := executions_le x
  by_cases h : x.Takes signed
  · rw [if_pos h]
    obtain ⟨r, htaken, hsame⟩ := h
    have hmem : ({ now_ms := x.turn.now_ms, request := r } : Execution) ∈ x.executions :=
      mem_executions.mpr ⟨rfl, htaken⟩
    have hpos : 0 < x.executions.countP (fun e => decide (SameSigned signed e.request)) :=
      List.countP_pos_iff.mpr ⟨_, hmem, decide_eq_true hsame⟩
    have := List.countP_le_length (p := fun e : Execution => decide (SameSigned signed e.request))
      (l := x.executions)
    omega
  · rw [if_neg h, List.countP_eq_zero]
    intro e he hsame
    exact h ⟨e.request, (mem_executions.mp he).2, of_decide_eq_true hsame⟩

/-- Two different places of a list where at most one hit is allowed. -/
theorem countP_flatMap_le_one {α β : Type} (f : α → List β) (p : β → Bool) (hit : α → Prop)
    [DecidablePred hit] (l : List α) (hf : ∀ a ∈ l, (f a).countP p = if hit a then 1 else 0) :
    (l.flatMap f).countP p ≤ 1 ↔ l.Pairwise (fun a b => ¬ (hit a ∧ hit b)) := by
  induction l with
  | nil => simp
  | cons a l ih =>
    have rest := ih (fun b hb => hf b (List.mem_cons_of_mem _ hb))
    have hzero : (l.flatMap f).countP p = 0 ↔ ∀ b ∈ l, ¬ hit b := by
      rw [List.countP_eq_zero]
      constructor
      · intro h b hb hhit
        have hone := hf b (List.mem_cons_of_mem _ hb)
        rw [if_pos hhit] at hone
        obtain ⟨y, hy, hpy⟩ := List.countP_pos_iff.mp (by omega : 0 < (f b).countP p)
        exact h y (List.mem_flatMap.mpr ⟨b, hb, hy⟩) hpy
      · intro h y hy hpy
        obtain ⟨b, hb, hyb⟩ := List.mem_flatMap.mp hy
        have hnone := hf b (List.mem_cons_of_mem _ hb)
        rw [if_neg (h b hb), List.countP_eq_zero] at hnone
        exact hnone y hyb hpy
    rw [List.flatMap_cons, List.countP_append, hf a List.mem_cons_self, List.pairwise_cons]
    by_cases ha : hit a
    · rw [if_pos ha]
      constructor
      · intro h
        have h0 := hzero.mp (by omega)
        exact ⟨fun b hb hboth => h0 b hb hboth.2, rest.mp (by omega)⟩
      · rintro ⟨h, _⟩
        have h0 := hzero.mpr (fun b hb hhit => h b hb ⟨ha, hhit⟩)
        omega
    · rw [if_neg ha, Nat.zero_add, rest]
      constructor
      · intro h
        exact ⟨fun b _ hboth => ha hboth.1, h⟩
      · exact fun h => h.2

/-- What the code leaves to the transport: of the turns that the passes come to,
no two present the same signed request so that the server takes it on, and none
presents one after the expiry that the grantee put in. -/
def PresentsOnce (signed : GuestRequest) (passes : List PassInput) : Prop :=
  (run_presented passes).Pairwise (fun x y => ¬ (x.Takes signed ∧ y.Takes signed)) ∧
    ∀ x ∈ run_presented passes, x.Takes signed → InTime signed x.turn.now_ms

/-- A request whose expiry nobody changed is only taken on in time. -/
theorem in_time_of_unchanged {signed r : GuestRequest} {srv : GuestServer} {t : Turn}
    (h : Taken srv t r) (hsame : r.expires_at_ms = signed.expires_at_ms) :
    InTime signed t.now_ms := by
  have hexp := h.2.1
  unfold GuestRequest.expired at hexp
  rw [hsame, Bool.and_eq_false_iff] at hexp
  unfold InTime
  rcases hexp with hexp | hexp
  · left
    have := of_decide_eq_false hexp
    omega
  · right
    have := of_decide_eq_false hexp
    omega

theorem the_handler_runs_once_when_the_transport_presents_once (signed : GuestRequest)
    (passes : List PassInput) :
    RunsAtMostOnce signed (run_executions passes) ↔ PresentsOnce signed passes := by
  classical
  unfold RunsAtMostOnce PresentsOnce
  rw [run_executions_eq]
  have hcount := countP_flatMap_le_one Presented.executions
    (fun e => decide (SameSigned signed e.request)) (fun x => x.Takes signed)
    (run_presented passes) (fun x _ => countP_executions x signed)
  refine and_congr hcount ?_
  constructor
  · rintro h x hx ⟨r, htaken, hsame⟩
    have hmem : ({ now_ms := x.turn.now_ms, request := r } : Execution) ∈ x.executions :=
      mem_executions.mpr ⟨rfl, htaken⟩
    exact h _ (List.mem_flatMap.mpr ⟨x, hx, hmem⟩) hsame
  · intro h e he hsame
    obtain ⟨x, hx, hex⟩ := List.mem_flatMap.mp he
    obtain ⟨hnow, htaken⟩ := mem_executions.mp hex
    rw [hnow]
    exact h x hx ⟨e.request, htaken, hsame⟩

/-- A token for `desktop` that is bound to a grantee. -/
def boundToken : Capability :=
  { phoneToken with
    device := none
    grantee_key := some "0000000000000000000000000000000000000000000000000000000000000000" }

/-- A request that the grantee signed, good until the time 5. -/
def boundRequest : GuestRequest :=
  { phoneRequest with capability := boundToken, sig := some "", expires_at_ms := 5 }

/-- The request as the transport presents it. -/
def boundTurn (r : GuestRequest) (now_ms : Nat) (push : Except Error Unit) : Turn :=
  { phoneTurn with
    pulled := .ok (some { phoneObject with ciphertext := some r })
    now_ms := now_ms
    push := push }

/-- The push of the response fails, so the request stays and is served again. -/
def servedTwice : List PassInput :=
  [⟨desktop, fun _ _ _ => .ok [], [boundTurn boundRequest 1 (.error (.Sync "offline"))]⟩,
    ⟨desktop, fun _ _ _ => .ok [], [boundTurn boundRequest 2 (.ok ())]⟩]

/-- The transport takes the expiry out, which breaks no signature. -/
def servedLate : List PassInput :=
  [⟨desktop, fun _ _ _ => .ok [],
    [boundTurn { boundRequest with expires_at_ms := 0 } 9 (.ok ())]⟩]

theorem one_signed_request_runs_twice_and_late :
    ¬ RunsAtMostOnce boundRequest (run_executions servedTwice) ∧
      ¬ RunsAtMostOnce boundRequest (run_executions servedLate) := by
  have htwice : run_executions servedTwice = [⟨1, boundRequest⟩, ⟨2, boundRequest⟩] := by rfl
  have hlate : run_executions servedLate = [⟨9, { boundRequest with expires_at_ms := 0 }⟩] := by
    rfl
  have hsame : SameSigned boundRequest { boundRequest with expires_at_ms := 0 } := by decide
  constructor
  · rintro ⟨hcount, _⟩
    rw [htwice] at hcount
    have hself : SameSigned boundRequest boundRequest := ⟨rfl, rfl⟩
    simp [hself] at hcount
  · rintro ⟨_, hin⟩
    rw [hlate] at hin
    have := hin _ List.mem_cons_self hsame
    revert this
    unfold InTime
    decide

end pai_share.guest
