-- The accept loops of the relay (pai-sync relay.rs) and of the gateway (the CLI's serve.rs): a
-- counter that the loop raises and the thread of each request lowers. The law says when it is the
-- number of the threads at work.
import PersonalAi.Lib.Runs

open runs

namespace pai_servers

/-! ## The servers -/

def MAX_REQUESTS : Nat := 32

def MAX_INFLIGHT : Nat := 64

inductive Kind
  | Relay
  | Gateway
deriving DecidableEq

def Kind.max : Kind → Nat
  | .Relay => MAX_REQUESTS
  | .Gateway => MAX_INFLIGHT

/-- How far the thread of a request is. A panic unwinds it: what stands behind is not done. -/
inductive Thread
  | Handles
  | Responds
  | Lowers
  | Ended
  | Panicked
deriving DecidableEq

/-- How far the loop is with a request: it has raised the counter and seen what it was, or it answers
503. -/
inductive Loop
  | Waits
  | Raised (seen : UInt64)
  | Refuses
  | Ended
deriving DecidableEq

structure Server where
  in_flight : UInt64
  loop : Loop
  threads : List Thread
deriving DecidableEq

def Server.new : Server := { in_flight := 0, loop := .Waits, threads := [] }

/-- `handle` gives a response, also for an error; `respond` is over, sent or not; the counter is
lowered; or a panic in one of the first two. -/
inductive ThreadAct
  | handle
  | respond
  | lower
  | panic
deriving DecidableEq

/-- What happens next: a request comes, the loop compares what it has seen and spawns a thread, which
may fail, it is done with its 503, no more requests come, or a thread goes on. -/
inductive Act
  | incoming
  | compare (spawned : Bool)
  | respond_busy
  | stop
  | thread (i : Nat) (act : ThreadAct)

def Thread.next : Thread → ThreadAct → Thread
  | .Handles, .handle => .Responds
  | .Responds, .respond => .Lowers
  | .Lowers, .lower => .Ended
  | .Handles, .panic => .Panicked
  | .Responds, .panic => .Panicked
  | t, _ => t

/-- An act that cannot be taken changes nothing. The counter wraps, as an atomic does. -/
def step (k : Kind) (s : Server) : Act → Server
  | .incoming =>
    match s.loop with
    | .Waits => { s with in_flight := s.in_flight + 1, loop := .Raised s.in_flight }
    | _ => s
  | .compare spawned =>
    match s.loop with
    | .Raised seen =>
      if k.max ≤ seen.toNat then { s with in_flight := s.in_flight - 1, loop := .Refuses }
      else if spawned then { s with loop := .Waits, threads := s.threads ++ [.Handles] }
      else { s with loop := .Ended }
    | _ => s
  | .respond_busy => if s.loop = .Refuses then { s with loop := .Waits } else s
  | .stop => if s.loop = .Waits then { s with loop := .Ended } else s
  | .thread i act =>
    match s.threads[i]? with
    | some t =>
      { s with
        in_flight := if t = .Lowers ∧ t.next act = .Ended then s.in_flight - 1 else s.in_flight
        threads := s.threads.set i (t.next act) }
    | none => s

/-! ## What is wanted -/

def Thread.at_work : Thread → Bool
  | .Handles | .Responds | .Lowers => true
  | .Ended | .Panicked => false

/-- The handlers that have been spawned and have not ended. One that has only the counter to lower
counts, until it has. -/
def live (s : Server) : Nat := s.threads.countP Thread.at_work

/-- A request comes, and the loop is done with it before any thread goes on. -/
def request : List Act := [.incoming, .compare true, .respond_busy]

/-- So many requests at once. -/
def offered (k : Kind) : Nat → Server → Server
  | 0, s => s
  | n + 1, s => offered k n (run (step k) s request)

/-- The counter is the number of handlers and at most the maximum, and with no handler left as many
of any number of requests are taken as at the start. -/
structure Conserved (k : Kind) (s : Server) : Prop where
  counts : s.in_flight.toNat = live s
  bounded : s.in_flight.toNat ≤ k.max
  regained : live s = 0 → ∀ n, live (offered k n s) = live (offered k n Server.new)

/-- The act is a panic of a thread that has not lowered the counter. -/
def Panics (s : Server) (a : Act) : Prop :=
  ∃ i, a = .thread i .panic ∧ (s.threads[i]? = some .Handles ∨ s.threads[i]? = some .Responds)

/-! ## What is counted -/

variable {k : Kind} {s : Server}

def Thread.is_lost (t : Thread) : Bool := t = .Panicked

/-- The handlers that have panicked. -/
def lost (s : Server) : Nat := s.threads.countP Thread.is_lost

/-- The request that the loop has counted and not yet handed on. -/
def Loop.pending : Loop → Nat
  | .Raised _ => 1
  | _ => 0

/-- How many slots are taken at most. -/
def Loop.limit (k : Kind) : Loop → Nat
  | .Raised seen => seen.toNat
  | _ => k.max

/-- The counter is the number of the handlers at work, of those that have panicked, and of the
request at hand. -/
structure Slots (k : Kind) (s : Server) : Prop where
  counter : s.in_flight.toNat = live s + lost s + s.loop.pending
  taken : live s + lost s ≤ s.loop.limit k
  limited : s.loop.limit k ≤ k.max

/-- A loop that goes on keeps count. One that could not spawn has ended with the counter raised. -/
def Counted (k : Kind) (s : Server) : Prop := s.loop ≠ .Ended → Slots k s

theorem max_le (k : Kind) : k.max ≤ 64 := by
  cases k with
  | Relay => decide
  | Gateway => decide

theorem countP_set {p : Thread → Bool} {threads : List Thread} {i : Nat} {t : Thread}
    (h : threads[i]? = some t) (t' : Thread) :
    (threads.set i t').countP p + (p t).toNat = threads.countP p + (p t').toNat := by
  induction threads generalizing i with
  | nil => cases h
  | cons u threads ih =>
    cases i with
    | zero =>
      obtain rfl : u = t := Option.some.inj h
      rw [List.set_cons_zero, List.countP_cons, List.countP_cons]
      cases p u <;> cases p t' <;> simp
    | succ i =>
      have hrest := ih (i := i) h
      rw [List.set_cons_succ, List.countP_cons, List.countP_cons]
      omega

theorem raised {c : UInt64} {n : Nat} (h : c.toNat = n) (hn : n ≤ 64) : (c + 1).toNat = n + 1 := by
  rw [UInt64.toNat_add, h]
  exact Nat.mod_eq_of_lt (by simp; omega)

theorem lowered {c : UInt64} {n : Nat} (h : c.toNat = n + 1) : (c - 1).toNat = n := by
  have hle : (1 : UInt64) ≤ c := UInt64.le_iff_toNat_le.mpr (by rw [h]; simp)
  rw [UInt64.toNat_sub_of_le _ _ hle, h]
  simp

theorem step_thread {i : Nat} {t : Thread} (ht : s.threads[i]? = some t) (act : ThreadAct) :
    step k s (.thread i act) =
      { s with
        in_flight := if t = .Lowers ∧ t.next act = .Ended then s.in_flight - 1 else s.in_flight
        threads := s.threads.set i (t.next act) } := by
  simp only [step, ht]

theorem step_no_thread {i : Nat} (ht : s.threads[i]? = none) (act : ThreadAct) :
    step k s (.thread i act) = s := by
  simp only [step, ht]

/-- A thread leaves the two counts together only where it lowers the counter. -/
theorem next_counts {t : Thread} {act : ThreadAct} (h : ¬ (t = .Lowers ∧ t.next act = .Ended)) :
    t.at_work.toNat + t.is_lost.toNat = (t.next act).at_work.toNat + (t.next act).is_lost.toNat := by
  cases t <;> cases act <;> first | rfl | exact absurd ⟨rfl, rfl⟩ h

theorem thread_counted (h : Counted k s) (i : Nat) (act : ThreadAct) :
    Counted k (step k s (.thread i act)) := by
  rcases ht : s.threads[i]? with _ | t
  · rwa [step_no_thread ht]
  · intro hloop
    rw [step_thread ht] at hloop ⊢
    obtain ⟨hcounter, htaken, hlimited⟩ := h hloop
    have hlive := @countP_set Thread.at_work _ i t ht (t.next act)
    have hlost := @countP_set Thread.is_lost _ i t ht (t.next act)
    unfold live lost at hcounter htaken
    by_cases hlower : t = .Lowers ∧ t.next act = .Ended
    · rw [if_pos hlower]
      obtain ⟨rfl, hended⟩ := hlower
      rw [hended] at hlive hlost ⊢
      have hlive' : (s.threads.set i .Ended).countP Thread.at_work + 1 =
          s.threads.countP Thread.at_work := hlive
      have hlost' : (s.threads.set i .Ended).countP Thread.is_lost =
          s.threads.countP Thread.is_lost := hlost
      refine ⟨lowered ?_, ?_, hlimited⟩
      · dsimp only [live, lost]
        omega
      · dsimp only [live, lost]
        omega
    · rw [if_neg hlower]
      have hsame := next_counts hlower
      refine ⟨?_, ?_, hlimited⟩
      · dsimp only [live, lost]
        omega
      · dsimp only [live, lost]
        omega

theorem spawn_counts (s : Server) (in_flight : UInt64) (loop : Loop) :
    live ⟨in_flight, loop, s.threads ++ [.Handles]⟩ = live s + 1 ∧
      lost ⟨in_flight, loop, s.threads ++ [.Handles]⟩ = lost s := by
  dsimp only [live, lost]
  rw [List.countP_append, List.countP_append]
  exact ⟨rfl, rfl⟩

/-- `fetch_add`, with which the request may or may not have its slot. -/
theorem incoming_counted (h : Counted k s) : Counted k (step k s .incoming) := by
  have hmax := max_le k
  unfold step
  rcases hloop : s.loop with _ | seen | _ | _
  · intro _
    obtain ⟨hcounter, htaken, hlimited⟩ := h (by rw [hloop]; simp)
    rw [hloop] at hcounter htaken
    have hflight : s.in_flight.toNat = live s + lost s := hcounter
    have hroom : live s + lost s ≤ k.max := htaken
    have hraised : (s.in_flight + 1).toNat = live s + lost s + 1 := raised hflight (by omega)
    exact ⟨hraised, Nat.le_of_eq hflight.symm, Nat.le_trans (Nat.le_of_eq hflight) hroom⟩
  all_goals exact h

/-- The comparison gives the slot back or passes it on to a thread. -/
theorem compare_counted (spawned : Bool) (h : Counted k s) :
    Counted k (step k s (.compare spawned)) := by
  unfold step
  rcases hloop : s.loop with _ | seen | _ | _
  · exact h
  · intro hgoes
    obtain ⟨hcounter, htaken, hlimited⟩ := h (by rw [hloop]; simp)
    rw [hloop] at hcounter htaken hlimited
    dsimp only [Loop.limit, Loop.pending] at hcounter htaken hlimited
    dsimp only at hgoes ⊢
    split
    · exact ⟨lowered hcounter, Nat.le_trans htaken hlimited, Nat.le_refl _⟩
    · rename_i hseen
      rw [if_neg hseen] at hgoes
      split
      · obtain ⟨hlive, hlost⟩ := spawn_counts s s.in_flight .Waits
        refine ⟨?_, ?_, Nat.le_refl _⟩
        · rw [hlive, hlost]
          dsimp only [Loop.pending]
          omega
        · rw [hlive, hlost]
          dsimp only [Loop.limit]
          omega
      · rename_i hspawned
        rw [if_neg hspawned] at hgoes
        exact absurd rfl hgoes
  all_goals exact h

theorem step_counted (s : Server) (a : Act) (h : Counted k s) : Counted k (step k s a) := by
  cases a with
  | incoming => exact incoming_counted h
  | compare spawned => exact compare_counted spawned h
  | respond_busy =>
    unfold step
    dsimp only
    split
    · rename_i hloop
      intro _
      obtain ⟨hcounter, htaken, -⟩ := h (by rw [hloop]; simp)
      rw [hloop] at hcounter htaken
      exact ⟨hcounter, htaken, Nat.le_refl _⟩
    · exact h
  | stop =>
    unfold step
    dsimp only
    split
    · exact fun hgoes => absurd rfl hgoes
    · exact h
  | thread i act => exact thread_counted h i act

theorem new_counted (k : Kind) : Counted k Server.new :=
  fun _ => ⟨rfl, Nat.zero_le _, Nat.le_refl _⟩

/-! ## Panics -/

/-- A thread is lost where it panics. -/
theorem lost_next (t : Thread) (act : ThreadAct) :
    (t.next act).is_lost.toNat =
      t.is_lost.toNat + if act = .panic ∧ (t = .Handles ∨ t = .Responds) then 1 else 0 := by
  cases t <;> cases act <;> rfl

theorem lost_other {a : Act} (hno : ∀ i act, a ≠ .thread i act) : lost (step k s a) = lost s := by
  cases a with
  | incoming =>
    unfold step
    dsimp only
    split <;> rfl
  | compare spawned =>
    unfold step
    dsimp only
    split
    · split
      · rfl
      · split
        · exact (spawn_counts s s.in_flight .Waits).2
        · rfl
    · rfl
  | respond_busy =>
    unfold step
    dsimp only
    split <;> rfl
  | stop =>
    unfold step
    dsimp only
    split <;> rfl
  | thread i act => exact absurd rfl (hno i act)

theorem panics_thread {i : Nat} {t : Thread} (ht : s.threads[i]? = some t) (act : ThreadAct) :
    Panics s (.thread i act) ↔ act = .panic ∧ (t = .Handles ∨ t = .Responds) := by
  constructor
  · rintro ⟨j, ha, hat⟩
    cases ha
    rw [ht, Option.some.injEq, Option.some.injEq] at hat
    exact ⟨rfl, hat⟩
  · rintro ⟨rfl, hat⟩
    refine ⟨i, rfl, ?_⟩
    rwa [ht, Option.some.injEq, Option.some.injEq]

/-- The panics of a step: one or none. -/
theorem lost_step (s : Server) (a : Act) : lost s ≤ lost (step k s a) ∧
    (lost (step k s a) = lost s ↔ ¬ Panics s a) := by
  have hkept : ∀ {s' : Server} {a : Act}, lost s' = lost s → ¬ Panics s a →
      lost s ≤ lost s' ∧ (lost s' = lost s ↔ ¬ Panics s a) :=
    fun heq hno => ⟨Nat.le_of_eq heq.symm, iff_of_true heq hno⟩
  by_cases hthread : ∃ i act, a = .thread i act
  · obtain ⟨i, act, rfl⟩ := hthread
    rcases ht : s.threads[i]? with _ | t
    · refine hkept (by rw [step_no_thread ht]) ?_
      rintro ⟨j, ha, hat⟩
      cases ha
      rw [ht] at hat
      simp at hat
    · have hset := @countP_set Thread.is_lost _ i t ht (t.next act)
      rw [lost_next] at hset
      rw [step_thread ht, panics_thread ht]
      dsimp only [lost]
      split at hset
      · rename_i hyes
        exact ⟨by omega, iff_of_false (by omega) (not_not_intro hyes)⟩
      · rename_i hno
        exact ⟨by omega, iff_of_true (by omega) hno⟩
  · have hno : ∀ i act, a ≠ .thread i act := fun i act ha => hthread ⟨i, act, ha⟩
    exact hkept (lost_other hno) (fun ⟨i, ha, _⟩ => hno i .panic ha)

theorem lost_run (s : Server) (acts : List Act) : lost s ≤ lost (run (step k) s acts) ∧
    (lost (run (step k) s acts) = lost s ↔ Along (step k) (fun s a => ¬ Panics s a) s acts) := by
  induction acts generalizing s with
  | nil => exact ⟨Nat.le_refl _, iff_of_true rfl trivial⟩
  | cons a acts ih =>
    obtain ⟨hle, hiff⟩ := @lost_step k s a
    obtain ⟨hle', hiff'⟩ := ih (step k s a)
    rw [run_cons, Along, ← hiff, ← hiff']
    exact ⟨Nat.le_trans hle hle', by omega, fun ⟨h, h'⟩ => h'.trans h⟩

/-! ## Requests -/

/-- A request that comes to a waiting loop takes a slot if there is one. -/
theorem request_spec (h : Counted k s) (hwaits : s.loop = .Waits) :
    Counted k (run (step k) s request) ∧ (run (step k) s request).loop = .Waits ∧
      lost (run (step k) s request) = lost s ∧
      live (run (step k) s request) = min (live s + 1) (k.max - lost s) := by
  have hcounted : Counted k (run (step k) s request) := always step_counted h request
  obtain ⟨hcounter, htaken, -⟩ := h (by rw [hwaits]; simp)
  rw [hwaits] at hcounter htaken
  have hflight : s.in_flight.toNat = live s + lost s := hcounter
  have hroom : live s + lost s ≤ k.max := htaken
  refine ⟨hcounted, ?_⟩
  rw [request, run_cons, run_cons, run_cons, run_nil]
  simp only [step, hwaits]
  by_cases hfull : k.max ≤ s.in_flight.toNat
  · rw [if_pos hfull]
    simp only [if_true]
    refine ⟨trivial, rfl, ?_⟩
    change live s = _
    omega
  · rw [if_neg hfull]
    simp only [if_true, reduceCtorEq, if_false]
    obtain ⟨hlive, hlost⟩ := spawn_counts s (s.in_flight + 1) .Waits
    refine ⟨trivial, hlost, hlive.trans ?_⟩
    omega

theorem offered_live (h : Counted k s) (hwaits : s.loop = .Waits) (n : Nat)
    (hroom : live s + lost s ≤ k.max) :
    live (offered k n s) = min (live s + n) (k.max - lost s) := by
  induction n generalizing s with
  | zero =>
    rw [offered]
    omega
  | succ n ih =>
    obtain ⟨hcounted, hwaits', hlost, hlive⟩ := request_spec h hwaits
    rw [offered, ih hcounted hwaits' (by omega), hlost, hlive]
    omega

/-- In a run of either server, wherever the loop waits: slots are conserved exactly where no handler
has panicked. -/
theorem slots_are_conserved_iff (k : Kind) {acts : List Act}
    (hwaits : (run (step k) Server.new acts).loop = .Waits) :
    Conserved k (run (step k) Server.new acts) ↔
      Along (step k) (fun s a => ¬ Panics s a) Server.new acts := by
  have hcounted : Counted k (run (step k) Server.new acts) := always step_counted (new_counted k) acts
  rw [← (lost_run Server.new acts).2]
  generalize run (step k) Server.new acts = s at hwaits hcounted ⊢
  have hnone : lost Server.new = 0 := rfl
  obtain ⟨hcounter, htaken, -⟩ := hcounted (by rw [hwaits]; simp)
  rw [hwaits] at hcounter htaken
  have hflight : s.in_flight.toNat = live s + lost s := hcounter
  have hroom : live s + lost s ≤ k.max := htaken
  rw [hnone]
  constructor
  · rintro ⟨hcounts, -, -⟩
    omega
  · intro hlost
    refine ⟨by omega, by omega, fun hlive n => ?_⟩
    have hstart := offered_live (new_counted k) rfl n (Nat.zero_le _)
    rw [offered_live hcounted hwaits n hroom, hstart, hlive, hlost]
    rfl

/-- A request is handled to its end, and its slot is free again. -/
theorem a_handled_request_gives_its_slot_back :
    Conserved .Relay (run (step .Relay) Server.new
      [.incoming, .compare true, .thread 0 .handle, .thread 0 .respond, .thread 0 .lower]) :=
  (slots_are_conserved_iff .Relay rfl).mpr (by
    refine ⟨?_, ?_, ?_, ?_, ?_, trivial⟩ <;> rintro ⟨i, hact, -⟩ <;> cases hact)

/-- As many panics as there are slots, and no request is taken any more. -/
theorem panics_close_the_relay :
    ¬ (∀ acts, (run (step .Relay) Server.new acts).loop = .Waits →
        Conserved .Relay (run (step .Relay) Server.new acts)) ∧
      live (offered .Relay 1 (run (step .Relay) Server.new
        ((List.range 32).flatMap fun i => [.incoming, .compare true, .thread i .panic]))) = 0 := by
  refine ⟨fun h => ?_, by decide +kernel⟩
  have hcounts := (h [.incoming, .compare true, .thread 0 .panic] rfl).counts
  revert hcounts
  decide

end pai_servers
