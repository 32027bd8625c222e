-- The serving side of a streamed op (the broker crate): the loop that races the handler's channel
-- against its end, one choice of the `select!` after another. The law says when the final response
-- tells how the handler ended.
import PersonalAi.Broker
import PersonalAi.Lib.Runs

open pai_core text runs

namespace pai_broker.rpc.streams

/-! ## The loop -/

def CAPACITY : Nat := 64

/-- The channel, whether the handler holds its sender, and what the loop has done. `sent`, `received`
and `result` are notes of the model: the chunks on both sides of the channel, and how the handler
ended. `returned` is what `serve_stream` gives back, once it does. -/
structure State where
  chan : List Bytes
  sender : Bool
  seq : UInt32
  pushed : List (SyncObject Body)
  returned : Option (Except Error Unit)
  sent : List Bytes
  received : List Bytes
  result : Option (Except Error Unit)

def State.new : State :=
  { chan := [], sender := true, seq := 0, pushed := [], returned := none, sent := [], received := [],
    result := none }

/-- What happens next: the handler is polled and sends, drops its sender or ends, or the loop takes
what the channel gives. `push` is how the pushes of an arm go, by their number. -/
inductive Move
  | send (bytes : Bytes)
  | drop_sender
  | recv (push : Nat → Except Error Unit)
  | closed (push : Nat → Except Error Unit)
  | out (result : Except Error Unit) (push : Nat → Except Error Unit)

section Loop
variable (device : DeviceId) (now_ms : Nat) (req : BrokerRequest)

/-- The pushes of an arm, of which the first one that fails ends the call. -/
def State.push (s : State) (push : Nat → Except Error Unit) (objects : List (SyncObject Body))
    (last : Bool) : State :=
  let (pushed, err) := push_all push 0 objects
  { s with
    pushed := s.pushed ++ pushed
    returned :=
      match err with
      | some e => some (.error e)
      | none => if last then some (.ok ()) else none }

def push_final (s : State) (push : Nat → Except Error Unit) (ok : Bool) (error : Option String) :
    State :=
  s.push push [final_object device now_ms req ok [] error] true

/-- The arm of the channel, for a chunk. -/
def recv (s : State) (push : Nat → Except Error Unit) : State :=
  match s.chan with
  | [] => s
  | bytes :: rest =>
    { s with chan := rest, received := s.received ++ [bytes], seq := s.seq + 1 }.push push
      (chunk_objects device now_ms (res_key req) s.seq [bytes]) false

/-- The arm of the channel, for its end. -/
def closed (s : State) (push : Nat → Except Error Unit) : State :=
  if s.chan.isEmpty && !s.sender then push_final device now_ms req s push true none else s

/-- The arm of the handler. Behind a result, the channel is drained. -/
def out (s : State) (result : Except Error Unit) (push : Nat → Except Error Unit) : State :=
  let s := { s with result := some result, sender := false }
  match result with
  | .ok () =>
    { s with chan := [] }.push push
      (chunk_objects device now_ms (res_key req) s.seq s.chan ++
        [final_object device now_ms req true [] none]) true
  | .error e => push_final device now_ms req s push false (some e.to_string)

/-- A move that is not possible changes nothing. -/
def step (s : State) (m : Move) : State :=
  if s.returned.isSome then s
  else
    match m with
    | .send bytes =>
      if s.sender && decide (s.chan.length < CAPACITY) then
        { s with chan := s.chan ++ [bytes], sent := s.sent ++ [bytes] }
      else s
    | .drop_sender => { s with sender := false }
    | .recv push => recv device now_ms req s push
    | .closed push => closed device now_ms req s push
    | .out result push => out device now_ms req s result push

/-! ## What is wanted -/

/-- A final response is the last object, behind all chunks that the handler sent, the handler has
ended, and the response says how. -/
def Truthful (s : State) : Prop :=
  ∀ o ∈ s.pushed, ∀ r, o.ciphertext = .response r →
    s.pushed = chunk_objects device now_ms (res_key req) 0 s.sent ++ [o] ∧
      ((s.result = some (.ok ()) ∧ r.ok = true) ∨ ∃ e, s.result = some (.error e) ∧ r.ok = false)

/-! ## When it holds -/

/-- The end of the channel is not taken for the end of the handler, and a handler that fails leaves
no chunk behind (or else the response is not pushed). -/
def Clear (s : State) : Move → Prop
  | .closed push => s.returned = none → s.chan = [] → s.sender = false → push 0 ≠ .ok ()
  | .out (.error _) push => s.returned = none → s.chan ≠ [] → push 0 ≠ .ok ()
  | _ => True

end Loop

/-! ## Pushes -/

section Pushes
variable {device : DeviceId} {now_ms : Nat} {req : BrokerRequest} {push : Nat → Except Error Unit}

theorem push_all_single (o : SyncObject Body) (n : Nat) :
    push_all push n [o] = match push n with | .ok () => ([o], none) | .error e => ([], some e) := by
  unfold push_all
  cases push n <;> rfl

/-- The last object is pushed behind all others, or not at all. -/
theorem push_all_concat (push : Nat → Except Error Unit) (os : List (SyncObject Body))
    (o : SyncObject Body) (n : Nat) :
    push_all push n (os ++ [o]) = (os ++ [o], none) ∨
      ((push_all push n (os ++ [o])).1 <+: os ∧ (push_all push n (os ++ [o])).2.isSome = true) := by
  induction os generalizing n with
  | nil =>
    rw [List.nil_append, push_all_single]
    cases push n with
    | ok u => exact .inl rfl
    | error e => exact .inr ⟨List.nil_prefix, rfl⟩
  | cons first rest ih =>
    rw [List.cons_append, push_all]
    cases push n with
    | error e => exact .inr ⟨List.nil_prefix, rfl⟩
    | ok u =>
      rcases ih (n + 1) with h | ⟨hpre, hfails⟩
      · left
        rw [h]
      · exact .inr ⟨(List.prefix_cons_inj first).mpr hpre, hfails⟩

theorem chunk_objects_append (key : String) (a b : List Bytes) (n : Nat) :
    chunk_objects device now_ms key (UInt32.ofNat n) (a ++ b) =
      chunk_objects device now_ms key (UInt32.ofNat n) a ++
        chunk_objects device now_ms key (UInt32.ofNat (n + a.length)) b := by
  induction a generalizing n with
  | nil => rfl
  | cons bytes a ih =>
    have hnext : UInt32.ofNat n + 1 = UInt32.ofNat (n + 1) := by simp [UInt32.ofNat_add]
    rw [List.cons_append, chunk_objects, chunk_objects, hnext, ih, List.cons_append, List.length_cons,
      Nat.add_assoc, Nat.add_comm 1]

/-- Chunks are no responses. -/
theorem chunk_objects_plain (key : String) (seq : UInt32) (chunks : List Bytes) :
    ∀ o ∈ chunk_objects device now_ms key seq chunks, ∀ r, o.ciphertext ≠ .response r := by
  induction chunks generalizing seq with
  | nil => simp [chunk_objects]
  | cons bytes chunks ih =>
    rw [chunk_objects, List.forall_mem_cons]
    exact ⟨fun r h => (by cases h), ih (seq + 1)⟩

/-! ## The loop while it runs -/

/-- While the loop runs, what it has pushed are the chunks that it received, and these are the first
ones that were sent. -/
structure Running (device : DeviceId) (now_ms : Nat) (req : BrokerRequest) (s : State) : Prop where
  pushed : s.pushed = chunk_objects device now_ms (res_key req) 0 s.received
  sent : s.sent = s.received ++ s.chan
  seq : s.seq = UInt32.ofNat s.received.length
  result : s.result = none

theorem Running.plain {s : State} (h : Running device now_ms req s) :
    ∀ o ∈ s.pushed, ∀ r, o.ciphertext ≠ .response r := by
  rw [h.pushed]
  exact chunk_objects_plain _ _ _

theorem Running.truthful {s : State} (h : Running device now_ms req s) :
    Truthful device now_ms req s := fun o ho r hr => (h.plain o ho r hr).elim

/-- All that was sent, as chunks: those received and those in the channel. -/
theorem Running.all_chunks {s : State} (h : Running device now_ms req s) :
    chunk_objects device now_ms (res_key req) 0 s.sent =
      s.pushed ++ chunk_objects device now_ms (res_key req) s.seq s.chan := by
  have happend := @chunk_objects_append device now_ms (res_key req) s.received s.chan 0
  rw [Nat.zero_add] at happend
  rw [h.sent, h.pushed, h.seq]
  exact happend

/-! ## One step -/

/-- The final response so far, and the loop while it runs. -/
structure Sound (device : DeviceId) (now_ms : Nat) (req : BrokerRequest) (s : State) : Prop where
  truthful : Truthful device now_ms req s
  running : s.returned = none → Running device now_ms req s

variable {s : State} {ok : Bool} {error : Option String}

theorem push_final_ok (h : push 0 = .ok ()) :
    push_final device now_ms req s push ok error =
      { s with pushed := s.pushed ++ [final_object device now_ms req ok [] error],
               returned := some (.ok ()) } := by
  simp [push_final, State.push, push_all_single, h]

theorem push_final_error {e : Error} (h : push 0 = .error e) :
    push_final device now_ms req s push ok error = { s with returned := some (.error e) } := by
  simp [push_final, State.push, push_all_single, h]

/-- Without a response, there is nothing to tell. -/
theorem truthful_plain (h : ∀ o ∈ s.pushed, ∀ r, o.ciphertext ≠ .response r) :
    Truthful device now_ms req s := fun o ho r hr => (h o ho r hr).elim

/-- A final response behind chunks is truthful if these are all, and it says how the handler ended. -/
theorem truthful_final (chunks : List (SyncObject Body)) (error : Option String)
    (hplain : ∀ o ∈ chunks, ∀ r, o.ciphertext ≠ .response r)
    (hpushed : s.pushed = chunks ++ [final_object device now_ms req ok [] error]) :
    Truthful device now_ms req s ↔
      chunks = chunk_objects device now_ms (res_key req) 0 s.sent ∧
        ((s.result = some (.ok ()) ∧ ok = true) ∨ ∃ e, s.result = some (.error e) ∧ ok = false) := by
  constructor
  · intro h
    obtain ⟨hall, hresult⟩ := h (final_object device now_ms req ok [] error)
      (by rw [hpushed]; exact List.mem_append_right _ List.mem_cons_self) _ rfl
    rw [hpushed] at hall
    exact ⟨List.append_cancel_right hall, hresult⟩
  · rintro ⟨rfl, hresult⟩ o ho r hr
    rw [hpushed] at ho
    rcases List.mem_append.mp ho with hchunk | hfinal
    · exact (hplain o hchunk r hr).elim
    · obtain rfl := List.mem_singleton.mp hfinal
      cases hr
      exact ⟨hpushed, hresult⟩

theorem recv_sound (h : Running device now_ms req s) :
    Sound device now_ms req (recv device now_ms req s push) := by
  unfold recv
  split
  · exact ⟨h.truthful, fun _ => h⟩
  · rename_i bytes rest hchan
    have hsent : s.sent = (s.received ++ [bytes]) ++ rest := by
      rw [h.sent, hchan, List.append_assoc]
      rfl
    have hseq : s.seq + 1 = UInt32.ofNat (s.received ++ [bytes]).length := by
      rw [h.seq, List.length_append, UInt32.ofNat_add]
      rfl
    have hchunks := @chunk_objects_append device now_ms (res_key req) s.received [bytes] 0
    rw [Nat.zero_add, ← h.seq] at hchunks
    have hpushed : s.pushed ++ chunk_objects device now_ms (res_key req) s.seq [bytes] =
        chunk_objects device now_ms (res_key req) 0 (s.received ++ [bytes]) := by
      rw [h.pushed]
      exact hchunks.symm
    rw [chunk_objects, chunk_objects] at hpushed ⊢
    unfold State.push
    rw [push_all_single]
    rcases hpush : push 0 with e | u
    · refine ⟨truthful_plain ?_, fun hrun => by cases hrun⟩
      simpa using h.plain
    · refine ⟨truthful_plain ?_, fun _ => ⟨hpushed, hsent, hseq, h.result⟩⟩
      dsimp only
      rw [hpushed]
      exact chunk_objects_plain _ _ _

theorem closed_sound (h : Running device now_ms req s)
    (hclear : s.chan = [] → s.sender = false → push 0 ≠ .ok ()) :
    Sound device now_ms req (closed device now_ms req s push) := by
  unfold closed
  split
  · rename_i hend
    obtain ⟨hchan, hsender⟩ : s.chan = [] ∧ s.sender = false := by simpa using hend
    rcases hpush : push 0 with e | u
    · rw [push_final_error hpush]
      exact ⟨truthful_plain h.plain, fun hrun => by cases hrun⟩
    · exact (hclear hchan hsender hpush).elim
  · exact ⟨h.truthful, fun _ => h⟩

/-- A handler that has ended well: all that it sent is pushed in front of the response. -/
theorem out_ok_sound (h : Running device now_ms req s) :
    Sound device now_ms req (out device now_ms req s (.ok ()) push) := by
  have hall := h.all_chunks
  unfold out State.push
  dsimp only
  rcases push_all_concat push (chunk_objects device now_ms (res_key req) s.seq s.chan)
    (final_object device now_ms req true [] none) 0 with hdone | ⟨hpre, hfails⟩
  · rw [hdone]
    refine ⟨(truthful_final (s.pushed ++ chunk_objects device now_ms (res_key req) s.seq s.chan) none
      ?_ ?_).mpr ⟨hall.symm, .inl ⟨rfl, rfl⟩⟩, fun hrun => by cases hrun⟩
    · rw [← hall]
      exact chunk_objects_plain _ _ _
    · exact (List.append_assoc _ _ _).symm
  · obtain ⟨e, he⟩ := Option.isSome_iff_exists.mp hfails
    rw [he]
    refine ⟨truthful_plain ?_, fun hrun => by cases hrun⟩
    intro o ho
    rcases List.mem_append.mp ho with hbefore | hnow
    · exact h.plain o hbefore
    · exact chunk_objects_plain _ _ _ o (hpre.subset hnow)

/-- A handler that has failed: the response says so, behind what was received. -/
theorem out_error_pushed (h : Running device now_ms req s) (e : Error) (hpush : push 0 = .ok ()) :
    Truthful device now_ms req (out device now_ms req s (.error e) push) ↔ s.chan = [] := by
  have hall := h.all_chunks
  unfold out
  dsimp only
  rw [push_final_ok hpush, truthful_final s.pushed _ h.plain rfl]
  constructor
  · rintro ⟨hchunks, -⟩
    change s.pushed = chunk_objects device now_ms (res_key req) 0 s.sent at hchunks
    rw [hall] at hchunks
    have hnone := List.append_cancel_left ((List.append_nil s.pushed).trans hchunks)
    rcases hchan : s.chan with _ | ⟨bytes, rest⟩
    · rfl
    · rw [hchan, chunk_objects] at hnone
      cases hnone
  · intro hchan
    refine ⟨?_, .inr ⟨e, rfl, rfl⟩⟩
    change s.pushed = chunk_objects device now_ms (res_key req) 0 s.sent
    rw [hall, hchan]
    exact (List.append_nil s.pushed).symm

theorem out_error_sound (h : Running device now_ms req s) (e : Error)
    (hclear : s.chan ≠ [] → push 0 ≠ .ok ()) :
    Sound device now_ms req (out device now_ms req s (.error e) push) := by
  rcases hpush : push 0 with e' | u
  · unfold out
    dsimp only
    rw [push_final_error hpush]
    exact ⟨truthful_plain h.plain, fun hrun => by cases hrun⟩
  · refine ⟨(out_error_pushed h e hpush).mpr ?_, ?_⟩
    · by_contra hchan
      exact hclear hchan hpush
    · unfold out
      dsimp only
      rw [push_final_ok hpush]
      exact fun hrun => by cases hrun

theorem clear_step_sound {m : Move} (h : Sound device now_ms req s) (hclear : Clear s m) :
    Sound device now_ms req (step device now_ms req s m) := by
  unfold step
  split
  · exact h
  · rename_i hopen
    have hreturned : s.returned = none := by simpa using hopen
    have hrunning := h.running hreturned
    cases m with
    | send bytes =>
      dsimp only
      split
      · refine ⟨truthful_plain hrunning.plain, fun _ => ?_⟩
        refine ⟨hrunning.pushed, ?_, hrunning.seq, hrunning.result⟩
        change s.sent ++ [bytes] = s.received ++ (s.chan ++ [bytes])
        rw [hrunning.sent, List.append_assoc]
      · exact h
    | drop_sender =>
      exact ⟨truthful_plain hrunning.plain,
        fun _ => ⟨hrunning.pushed, hrunning.sent, hrunning.seq, hrunning.result⟩⟩
    | recv push => exact recv_sound hrunning
    | closed push => exact closed_sound hrunning (hclear hreturned)
    | out result push =>
      cases result with
      | ok u => exact out_ok_sound hrunning
      | error e => exact out_error_sound hrunning e (hclear hreturned)

/-- A step behind which the response is truthful is one of the condition. -/
theorem clear_of_truthful {m : Move} (h : Sound device now_ms req s)
    (htruthful : Truthful device now_ms req (step device now_ms req s m)) : Clear s m := by
  unfold step at htruthful
  cases m with
  | send bytes => trivial
  | drop_sender => trivial
  | recv push => trivial
  | closed push =>
    intro hreturned hchan hsender hpush
    have hrunning := h.running hreturned
    rw [if_neg (by simp [hreturned])] at htruthful
    dsimp only at htruthful
    rw [closed, if_pos (by simp [hchan, hsender]), push_final_ok hpush,
      truthful_final s.pushed _ hrunning.plain rfl] at htruthful
    obtain ⟨-, ⟨hresult, -⟩ | ⟨e, hresult, -⟩⟩ := htruthful
    · exact absurd (hrunning.result.symm.trans hresult) (by simp)
    · exact absurd (hrunning.result.symm.trans hresult) (by simp)
  | out result push =>
    cases result with
    | ok u => trivial
    | error e =>
      intro hreturned hchan hpush
      rw [if_neg (by simp [hreturned])] at htruthful
      exact hchan ((out_error_pushed (h.running hreturned) e hpush).mp htruthful)

/-! ## What a served request pushes -/

/-- A loop that has returned without an error has pushed the objects of `stream_objects`. -/
structure Refines (device : DeviceId) (now_ms : Nat) (req : BrokerRequest) (s : State) : Prop where
  running : s.returned = none → Running device now_ms req s
  returned : s.returned = some (.ok ()) →
    ∃ last, s.pushed = stream_objects device now_ms req { received := s.received, last := last }

theorem State.push_returned (s : State) (push : Nat → Except Error Unit)
    (objects : List (SyncObject Body)) : (s.push push objects false).returned ≠ some (.ok ()) := by
  unfold State.push
  rcases push_all push 0 objects with ⟨pushed, _ | e⟩ <;> simp

theorem recv_refines (h : Running device now_ms req s) (hreturned : s.returned = none) :
    Refines device now_ms req (recv device now_ms req s push) := by
  refine ⟨(recv_sound h).running, fun hdone => ?_⟩
  unfold recv at hdone
  split at hdone
  · exact absurd (hreturned.symm.trans hdone) (by simp)
  · exact (State.push_returned _ _ _ hdone).elim

theorem closed_refines (h : Running device now_ms req s) (hreturned : s.returned = none) :
    Refines device now_ms req (closed device now_ms req s push) := by
  unfold closed
  split
  · rcases hpush : push 0 with e | u
    · rw [push_final_error hpush]
      exact ⟨fun hrun => (by cases hrun), fun hdone => (by cases hdone)⟩
    · rw [push_final_ok hpush]
      refine ⟨fun hrun => (by cases hrun), fun _ => ⟨.closed, ?_⟩⟩
      rw [h.pushed]
      rfl
  · exact ⟨fun _ => h, fun hdone => absurd (hreturned.symm.trans hdone) (by simp)⟩

theorem out_refines (h : Running device now_ms req s) (result : Except Error Unit) :
    Refines device now_ms req (out device now_ms req s result push) := by
  unfold out
  cases result with
  | ok u =>
    dsimp only
    unfold State.push
    dsimp only
    rcases push_all_concat push (chunk_objects device now_ms (res_key req) s.seq s.chan)
      (final_object device now_ms req true [] none) 0 with hdone | ⟨-, hfails⟩
    · rw [hdone]
      refine ⟨fun hrun => (by cases hrun), fun _ => ⟨.out (.ok ()) s.chan, ?_⟩⟩
      have hall := h.all_chunks
      rw [h.sent] at hall
      change s.pushed ++ (_ ++ [_]) =
        chunk_objects device now_ms (res_key req) 0 (s.received ++ s.chan) ++ [_]
      rw [hall]
      exact (List.append_assoc _ _ _).symm
    · obtain ⟨e, he⟩ := Option.isSome_iff_exists.mp hfails
      rw [he]
      exact ⟨fun hrun => (by cases hrun), fun hdone => (by cases hdone)⟩
  | error e =>
    dsimp only
    rcases hpush : push 0 with e' | u
    · rw [push_final_error hpush]
      exact ⟨fun hrun => (by cases hrun), fun hdone => (by cases hdone)⟩
    · rw [push_final_ok hpush]
      refine ⟨fun hrun => (by cases hrun), fun _ => ⟨.out (.error e) s.chan, ?_⟩⟩
      rw [h.pushed]
      rfl

theorem step_refines (m : Move) (h : Refines device now_ms req s) :
    Refines device now_ms req (step device now_ms req s m) := by
  by_cases hreturned : s.returned = none
  · have hrunning := h.running hreturned
    have hsound : Sound device now_ms req s := ⟨hrunning.truthful, h.running⟩
    unfold step
    rw [if_neg (by simp [hreturned])]
    cases m with
    | send bytes =>
      have hsent := (clear_step_sound hsound (m := .send bytes) trivial).running
      unfold step at hsent
      rw [if_neg (by simp [hreturned])] at hsent
      refine ⟨hsent, fun hdone => ?_⟩
      dsimp only at hdone
      split at hdone <;> exact absurd (hreturned.symm.trans hdone) (by simp)
    | drop_sender =>
      exact ⟨fun _ => ⟨hrunning.pushed, hrunning.sent, hrunning.seq, hrunning.result⟩,
        fun hdone => absurd (hreturned.symm.trans hdone) (by simp)⟩
    | recv push => exact recv_refines hrunning hreturned
    | closed push => exact closed_refines hrunning hreturned
    | out result push => exact out_refines hrunning result
  · unfold step
    rwa [if_pos (by simpa [Option.isSome_iff_ne_none] using hreturned)]

end Pushes

/-! ## Every run -/

/-- A call that returns without an error has pushed what the pass over the requests takes it to
push. -/
theorem pushes_stream_objects (device : DeviceId) (now_ms : Nat) (req : BrokerRequest)
    (moves : List Move) (h : (run (step device now_ms req) State.new moves).returned = some (.ok ())) :
    ∃ last, (run (step device now_ms req) State.new moves).pushed =
      stream_objects device now_ms req
        { received := (run (step device now_ms req) State.new moves).received, last := last } := by
  have hstart : Refines device now_ms req State.new :=
    ⟨fun _ => ⟨rfl, rfl, rfl, rfl⟩, fun hdone => (by cases hdone)⟩
  exact (always (fun s m hrefines => step_refines m hrefines) hstart moves).returned h

/-- Whatever the handler does and the loop chooses, and however the pushes go: the final response is
truthful in every state exactly if the end of the channel is never taken for the end of the handler,
and a handler that fails has left nothing in the channel. -/
theorem final_response_is_truthful_iff (device : DeviceId) (now_ms : Nat) (req : BrokerRequest)
    (moves : List Move) :
    Along (step device now_ms req)
        (fun s m => Truthful device now_ms req (step device now_ms req s m)) State.new moves ↔
      Along (step device now_ms req) Clear State.new moves := by
  have hstart : Sound device now_ms req State.new :=
    ⟨fun o ho => (by cases ho), fun _ => ⟨rfl, rfl, rfl, rfl⟩⟩
  constructor
  · refine @along_of_invariant _ _ (step device now_ms req) (Sound device now_ms req) _ _ ?_ ?_ _
      hstart _
    · exact fun s m hsound h => clear_step_sound hsound (clear_of_truthful hsound h)
    · exact fun s m hsound h => clear_of_truthful hsound h
  · refine @along_of_invariant _ _ (step device now_ms req) (Sound device now_ms req) _ _ ?_ ?_ _
      hstart _
    · exact fun s m hsound h => clear_step_sound hsound h
    · exact fun s m hsound h => (clear_step_sound hsound h).truthful

/-! ## A handler that has not ended -/

def infer : BrokerRequest :=
  { v := 1, id := "r3", sender := ⟨"phone"⟩, op := "infer", payload_b64 := .ok [], stream := true,
    expires_at_ms := 0 }

/-- A handler lets go of its sender behind the last chunk, and fails later: the caller has got the
answer that all went well. -/
theorem a_failing_handler_answers_ok :
    ¬ Along (step ⟨"desk"⟩ 1 infer)
        (fun s m => Truthful ⟨"desk"⟩ 1 infer (step ⟨"desk"⟩ 1 infer s m)) State.new
        [.send [1], .drop_sender, .recv fun _ => .ok (), .closed fun _ => .ok (),
          .out (.error (.Provider "backend gone")) fun _ => .ok ()] := by
  rintro ⟨-, -, -, htruthful, -, -⟩
  obtain ⟨-, ⟨hresult, -⟩ | ⟨e, hresult, -⟩⟩ :=
    htruthful (final_object ⟨"desk"⟩ 1 infer true [] none)
      (List.mem_append_right _ List.mem_cons_self) _ rfl
  · cases hresult
  · cases hresult

end pai_broker.rpc.streams
