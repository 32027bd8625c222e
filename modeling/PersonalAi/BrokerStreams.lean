-- Streamed broker calls: the client polls for numbered chunks while the server is
-- still pushing them. The laws say what the caller's `on_chunk` gets to see.
import Mathlib.Algebra.Group.Nat.Defs
import Mathlib.Data.List.Sort
import PersonalAi.Broker
import PersonalAi.Lib.Program

open pai_core program text

namespace pai_broker.rpc

/-! ## The transport under a call -/

/-- The header of a listed object. -/
structure Meta where
  key : String
  tombstone : Bool

/-- A listing of keys in any order, with repeats, and nothing missing. -/
structure Listing where
  arrange : List Meta → List Meta
  mem_arrange : ∀ ms m, m ∈ arrange ms ↔ m ∈ ms

/-- What happens around one call of the client: how many pushes of the server complete
before it, how the transport lists, what it holds besides the objects of the call,
whether a delete does something, whether the call fails, and whether the deadline is
past. -/
structure Move where
  pushes : Nat
  listing : Listing
  others : List Meta
  deletes : Bool
  fails : Option Error
  expired : Bool

/-- The objects of one call that are on the transport, the pushes of the server that
are still to come, and what happens around the next calls of the client. -/
structure Net where
  present : List (SyncObject Body)
  todo : List (SyncObject Body)
  moves : List Move

/-- Why a call ends without the final object; `Cut` is a call that still goes on. -/
inductive Stop
  | Cut
  | Deadline (msg : String)
  | Failed (e : Error)
deriving DecidableEq

/-- The client: its events are the calls of `on_chunk`. -/
abbrev Client (α : Type) := Prog Net Bytes Stop α

/-- The server goes on while the client comes to its next call. -/
def Net.advance (w : Net) (m : Move) (ms : List Move) : Net :=
  { present := w.present ++ w.todo.take m.pushes, todo := w.todo.drop m.pushes, moves := ms }

def meanwhile {α : Type} (f : Move → Net → Except Stop α × Net) : Client α := consult (fun w =>
  match w.moves with
  | [] => (.error .Cut, w)
  | m :: ms => f m (w.advance m ms))

def starts_with (key p : String) : Bool := ( strip_prefix p key).isSome

def header (o : SyncObject Body) : Meta := { key := o.key, tombstone := o.tombstone }

/-- `list`, with the objects of the call in it, and others. -/
def list (final_key : String) : Client (List Meta) := meanwhile (fun m w =>
  match m.fails with
  | some e => (.error (.Failed e), w)
  | none => (.ok (m.listing.arrange (w.present.map header ++
      m.others.filter (fun o => !starts_with o.key final_key))), w))

def pull (key : String) : Client (Option (SyncObject Body)) := meanwhile (fun m w =>
  match m.fails with
  | some e => (.error (.Failed e), w)
  | none => (.ok (w.present.find? (fun o => o.key == key)), w))

/-- `delete(..).await.ok()`: it may do nothing, and an error is dropped. -/
def delete (key : String) : Client Unit := meanwhile (fun m w =>
  (.ok (), if m.deletes then { w with present := w.present.filter (fun o => !(o.key == key)) } else w))

def check_deadline (id : String) (secs : Nat) : Client Unit := meanwhile (fun m w =>
  if m.expired then
    (.error (.Deadline ("broker: no response to " ++ id ++ " within " ++ toString secs ++ "s")), w)
  else (.ok (), w))

/-! ## The client -/

def on_chunk (payload_b64 : Except String Bytes) : Client Unit :=
  match payload_b64 with
  | .ok bytes => perform bytes (fun w => (.ok (), w))
  | .error _ => pure ()

/-- The text of an object, read as a chunk. -/
def as_chunk (o : SyncObject Body) : Option BrokerChunk :=
  match o.ciphertext with
  | .chunk c => some c
  | .response _ => none

/-- The poll: deliver contiguous chunks, starting at `next_seq`. -/
def poll ( chunk_prefix : String) : List Meta → UInt32 → Client UInt32
  | [], next_seq => pure next_seq
  | m :: ms, next_seq =>
    if !starts_with m.key chunk_prefix || m.tombstone then poll chunk_prefix ms next_seq
    else do
      match (← pull m.key).bind as_chunk with
      | none => poll chunk_prefix ms next_seq
      | some c =>
        if c.v ≠ 1 ∨ c.seq ≠ next_seq then poll chunk_prefix ms next_seq
        else do
          on_chunk c.payload_b64
          delete m.key
          poll chunk_prefix ms (next_seq + 1)

abbrev Pending := List (UInt32 × Except String Bytes)

/-- The final object is there: collect what is left, whatever its number. -/
def collect ( chunk_prefix : String) : List Meta → Client Pending
  | [] => pure []
  | m :: ms =>
    if !starts_with m.key chunk_prefix || m.tombstone then collect chunk_prefix ms
    else do
      match (← pull m.key).bind as_chunk with
      | none => collect chunk_prefix ms
      | some c =>
        if c.v ≠ 1 then collect chunk_prefix ms
        else do
          delete m.key
          let rest ← collect chunk_prefix ms
          pure ((c.seq, c.payload_b64) :: rest)

/-- The delivery of the collected chunks, in the order of their numbers. -/
def drain : Pending → UInt32 → Client UInt32
  | [], next_seq => pure next_seq
  | (seq, payload_b64) :: rest, next_seq =>
    if seq ≠ next_seq then drain rest next_seq
    else do
      on_chunk payload_b64
      drain rest (next_seq + 1)

def open_response (o : SyncObject Body) : Client BrokerResponse :=
  match o.ciphertext with
  | .response r =>
    if r.v ≠ 1 then fail (.Failed (.Sync ("unsupported broker response v" ++ toString r.v)))
    else pure r
  | .chunk _ => fail (.Failed (.Sync "bad broker response"))

/-- What the caller gets from a final object. -/
def read_response (op : String) (r : BrokerResponse) : Except Error Bytes :=
  if r.ok then
    match r.payload_b64 with
    | .ok bytes => .ok bytes
    | .error e => .error (.Sync ("bad broker payload: " ++ e))
  else .error (.Sync ("broker: peer failed " ++ op ++ ": " ++ r.error.getD "unknown error"))

/-- The call behind its request, for so many polls. It gives a result when it has
consumed the final object. -/
def call_stream (op id final_key : String) (secs : Nat) : Nat → UInt32 → Client (Except Error Bytes)
  | 0, _ => fail .Cut
  | polls + 1, next_seq => do
    check_deadline id secs
    let metas ← list final_key
    let next_seq ← poll (final_key ++ "/") metas next_seq
    match ← pull final_key with
    | some o =>
      let metas ← list final_key
      let pending ← collect (final_key ++ "/") metas
      let _ ← drain (pending.insertionSort (fun p q => p.1 ≤ q.1)) next_seq
      let r ← open_response o
      delete final_key
      pure (read_response op r)
    | none => call_stream op id final_key secs polls next_seq

/-! ## What the server pushes -/

/-- One streamed answer: the chunks in their order, and the final response. The
numbers are `u32`. -/
structure Call where
  device : DeviceId
  now_ms : Nat
  key : String
  payloads : List Bytes
  short : payloads.length < 2 ^ 32
  response : BrokerResponse

namespace Call
variable (c : Call)

def chunk_key (i : Nat) : String := c.key ++ "/" ++ toString (UInt32.ofNat i)

def chunk (i : Nat) (bytes : Bytes) : SyncObject Body :=
  seal_obj c.device c.now_ms (c.chunk_key i)
    (.chunk { v := 1, seq := UInt32.ofNat i, payload_b64 := .ok bytes })

def final : SyncObject Body := seal_obj c.device c.now_ms c.key (.response c.response)

def objects : List (SyncObject Body) := chunk_objects c.device c.now_ms c.key 0 c.payloads ++ [c.final]

end Call

theorem chunk_objects_get (device : DeviceId) (now_ms : Nat) (key : String) (payloads : List Bytes)
    (start i : Nat) :
    (chunk_objects device now_ms key (UInt32.ofNat start) payloads)[i]? =
      payloads[i]?.map (fun bytes => seal_obj device now_ms
        (key ++ "/" ++ toString (UInt32.ofNat (start + i)))
        (.chunk { v := 1, seq := UInt32.ofNat (start + i), payload_b64 := .ok bytes })) := by
  induction payloads generalizing start i with
  | nil => simp [chunk_objects]
  | cons bytes payloads ih =>
    cases i with
    | zero => simp [chunk_objects]
    | succ i =>
      have hnext : UInt32.ofNat start + 1 = UInt32.ofNat (start + 1) := by
        simp [UInt32.ofNat_add]
      simp only [chunk_objects, List.getElem?_cons_succ, hnext, ih]
      rw [show start + 1 + i = start + (i + 1) by omega]

theorem toNat_ofNat {i : Nat} (h : i < 2 ^ 32) : (UInt32.ofNat i).toNat = i := by
  simp only [UInt32.toNat_ofNat']
  omega

section Objects
variable {c : Call}

theorem objects_get (c : Call) (i : Nat) : c.objects[i]? =
    if i < c.payloads.length then c.payloads[i]?.map (c.chunk i)
    else if i = c.payloads.length then some c.final else none := by
  have hlen : (chunk_objects c.device c.now_ms c.key 0 c.payloads).length = c.payloads.length := by
    have hall : ∀ seq, (chunk_objects c.device c.now_ms c.key seq c.payloads).length =
        c.payloads.length := by
      induction c.payloads with
      | nil => exact fun _ => rfl
      | cons b bs ih => exact fun seq => by simp [chunk_objects, ih]
    exact hall 0
  have hget := chunk_objects_get c.device c.now_ms c.key c.payloads 0 i
  simp only [Nat.zero_add] at hget
  unfold Call.objects
  by_cases hi : i < c.payloads.length
  · rw [List.getElem?_append_left (by rw [hlen]; exact hi), if_pos hi]
    exact hget
  · rw [List.getElem?_append_right (by rw [hlen]; omega), hlen, if_neg hi]
    by_cases heq : i = c.payloads.length
    · simp [heq]
    · rw [if_neg heq, List.getElem?_eq_none]
      simp only [List.length_singleton]
      omega

/-- A pushed object is one of the first chunks, or the final one. -/
theorem mem_take_objects {s : Nat} {o : SyncObject Body} (h : o ∈ c.objects.take s) :
    (∃ i bytes, i < s ∧ c.payloads[i]? = some bytes ∧ o = c.chunk i bytes) ∨
      (o = c.final ∧ c.payloads.length < s) := by
  obtain ⟨i, hi⟩ := List.mem_iff_getElem?.mp h
  rw [List.getElem?_take] at hi
  split at hi
  · rename_i his
    rw [objects_get] at hi
    split at hi
    · obtain ⟨bytes, hbytes, rfl⟩ := Option.map_eq_some_iff.mp hi
      exact Or.inl ⟨i, bytes, his, hbytes, rfl⟩
    · split at hi
      · rename_i heq
        simp only [Option.some.injEq] at hi
        exact Or.inr ⟨hi.symm, by omega⟩
      · cases hi
  · cases hi

theorem chunk_mem_objects {s i : Nat} {bytes : Bytes} (his : i < s)
    (hi : c.payloads[i]? = some bytes) : c.chunk i bytes ∈ c.objects.take s := by
  have hlt : i < c.payloads.length := by
    by_contra hge
    rw [List.getElem?_eq_none (by omega)] at hi
    cases hi
  apply List.mem_iff_getElem?.mpr ⟨i, _⟩
  rw [List.getElem?_take, if_pos his, objects_get, if_pos hlt, hi]
  rfl

theorem index_lt {i : Nat} {bytes : Bytes} (hi : c.payloads[i]? = some bytes) :
    i < c.payloads.length := by
  by_contra hge
  rw [List.getElem?_eq_none (by omega)] at hi
  cases hi

theorem toString_u32_inj {a b : UInt32} (h : toString a = toString b) : a = b := by
  have hval : ∀ n : UInt32, Nat.ofDigitChars 10 (toString n).toList 0 = n.toNat := by
    intro n
    have : toString n = toString n.toNat := rfl
    rw [this]
    simp
  have := congrArg (fun s : String => Nat.ofDigitChars 10 s.toList 0) h
  simp only [hval] at this
  exact UInt32.toNat_inj.mp this

theorem chunk_key_inj {i j : Nat} (hi : i < 2 ^ 32) (hj : j < 2 ^ 32)
    (h : c.chunk_key i = c.chunk_key j) : i = j := by
  unfold Call.chunk_key at h
  have hlist := congrArg String.toList h
  simp only [String.toList_append, List.append_cancel_left_eq] at hlist
  have := toString_u32_inj (String.toList_inj.mp hlist)
  have hnat := congrArg UInt32.toNat this
  rwa [toNat_ofNat hi, toNat_ofNat hj] at hnat

theorem chunk_key_starts (i : Nat) : starts_with (c.chunk_key i) (c.key ++ "/") = true := by
  simp [starts_with, Call.chunk_key]

theorem key_starts_not : starts_with c.key (c.key ++ "/") = false := by
  unfold starts_with
  cases h : strip_prefix (c.key ++ "/") c.key with
  | none => rfl
  | some r =>
    have heq := strip_prefix_eq_some.mp h
    have hlen := congrArg (fun s : String => s.toList.length) heq
    simp at hlen

end Objects

/-! ## The transport while the call runs -/

variable {c : Call}

/-- So many chunks are delivered. The server has pushed its first objects and has the
others to come, and every chunk that it pushed and that is not delivered is there. -/
structure Reach (c : Call) (m : Nat) (w : Net) : Prop where
  pushed : ∃ s, w.todo = c.objects.drop s ∧ (∀ o ∈ w.present, o ∈ c.objects.take s) ∧
    ∀ i bytes, m ≤ i → i < s → c.payloads[i]? = some bytes → c.chunk i bytes ∈ w.present

theorem Reach.advance {m : Nat} {w : Net} (h : Reach c m w) (mv : Move) (ms : List Move) :
    Reach c m (w.advance mv ms) := by
  obtain ⟨s, htodo, hsub, hthere⟩ := h.pushed
  refine ⟨s + mv.pushes, ?_, ?_, ?_⟩
  · simp [Net.advance, htodo, List.drop_drop]
  · intro o ho
    simp only [Net.advance, htodo, List.mem_append] at ho
    rw [List.take_add]
    rcases ho with ho | ho
    · exact List.mem_append_left _ (hsub o ho)
    · exact List.mem_append_right _ ho
  · intro i bytes hmi his hi
    simp only [Net.advance, htodo, List.mem_append]
    by_cases hold : i < s
    · exact Or.inl (hthere i bytes hmi hold hi)
    · right
      have hmem := chunk_mem_objects his hi
      rw [List.take_add, List.mem_append] at hmem
      rcases hmem with hmem | hmem
      · rcases mem_take_objects hmem with ⟨j, b, hjs, hj, heq⟩ | ⟨heq, _⟩
        · have hkey := congrArg SyncObject.key heq
          have := chunk_key_inj (by have := index_lt hi; have := c.short; omega)
            (by have := index_lt hj; have := c.short; omega) hkey
          omega
        · have hbody := congrArg SyncObject.ciphertext heq
          cases hbody
      · exact hmem

/-- What is found under a key is a chunk of that key, or the final object. -/
theorem Reach.found {m : Nat} {w : Net} (h : Reach c m w) {key : String} {o : SyncObject Body}
    (hfind : w.present.find? (fun o => o.key == key) = some o) :
    o ∈ w.present ∧ o.key = key ∧
      ((∃ i bytes, c.payloads[i]? = some bytes ∧ o = c.chunk i bytes) ∨ o = c.final) := by
  have hmem := List.mem_of_find?_eq_some hfind
  have hkey : o.key = key := by simpa using List.find?_some hfind
  refine ⟨hmem, hkey, ?_⟩
  obtain ⟨s, _, hsub, _⟩ := h.pushed
  rcases mem_take_objects (hsub o hmem) with ⟨i, bytes, _, hi, heq⟩ | ⟨heq, _⟩
  · exact Or.inl ⟨i, bytes, hi, heq⟩
  · exact Or.inr heq

/-- A delivered chunk may be deleted. -/
theorem Reach.delete {m j : Nat} {w : Net} (h : Reach c m w) (hjm : j < m) (hj : j < 2 ^ 32) :
    Reach c m { w with present := w.present.filter (fun o => !(o.key == c.chunk_key j)) } := by
  obtain ⟨s, htodo, hsub, hthere⟩ := h.pushed
  refine ⟨s, htodo, ?_, ?_⟩
  · intro o ho
    exact hsub o (List.mem_filter.mp ho).1
  · intro i bytes hmi his hi
    refine List.mem_filter.mpr ⟨hthere i bytes hmi his hi, ?_⟩
    have hne : c.chunk_key i ≠ c.chunk_key j := by
      intro heq
      have := chunk_key_inj (by have := index_lt hi; have := c.short; omega) hj heq
      omega
    simpa [Call.chunk, seal_obj] using hne

theorem Reach.mono {m m' : Nat} {w : Net} (h : Reach c m w) (hle : m ≤ m') : Reach c m' w := by
  obtain ⟨s, htodo, hsub, hthere⟩ := h.pushed
  exact ⟨s, htodo, hsub, fun i bytes hmi => hthere i bytes (by omega)⟩

/-- A call of the transport finds the server further on. -/
theorem triple_meanwhile {α : Type} {m : Nat} {f : Move → Net → Except Stop α × Net}
    {Q : α → Net → List Bytes → Prop}
    (h : ∀ mv w a w', Reach c m w → f mv w = (.ok a, w') → Q a w' []) :
    Triple (Reach c m) (meanwhile f) Q := by
  apply triple_consult
  intro w a w' hreach hrun
  split at hrun
  · cases hrun
  · exact h _ _ a w' (hreach.advance _ _) hrun

theorem triple_pull {m : Nat} (key : String) : Triple (Reach c m) (pull key)
    (fun found w tr => tr = [] ∧ Reach c m w ∧ found = w.present.find? (fun o => o.key == key)) := by
  apply triple_meanwhile
  intro mv w a w' hreach hrun
  split at hrun
  · cases hrun
  · cases hrun
    exact ⟨rfl, hreach, rfl⟩

theorem triple_list {m : Nat} (final_key : String) : Triple (Reach c m) (list final_key)
    (fun metas w tr => tr = [] ∧ Reach c m w ∧ ∀ o ∈ w.present, header o ∈ metas) := by
  apply triple_meanwhile
  intro mv w a w' hreach hrun
  split at hrun
  · cases hrun
  · cases hrun
    refine ⟨rfl, hreach, ?_⟩
    intro o ho
    rw [mv.listing.mem_arrange]
    exact List.mem_append_left _ (List.mem_map_of_mem ho)

/-! ## The poll -/

/-- What a part of the call does, from one number to the next: the chunks from there to
here are handed over, in order. -/
def Delivers (c : Call) (next_seq next_seq' : UInt32) (tr : List Bytes) : Prop :=
  c.payloads.take next_seq.toNat ++ tr = c.payloads.take next_seq'.toNat

/-- The chunk with the awaited number is handed over, and the number goes up. -/
theorem delivers_next {next_seq : UInt32} {i : Nat} {bytes : Bytes} (hi : c.payloads[i]? = some bytes)
    (hseq : UInt32.ofNat i = next_seq) :
    i = next_seq.toNat ∧ (next_seq + 1).toNat = next_seq.toNat + 1 ∧
      Delivers c next_seq (next_seq + 1) [bytes] := by
  have hlt := index_lt hi
  have hshort := c.short
  have hnat : i = next_seq.toNat := by
    rw [← hseq, toNat_ofNat (by omega)]
  have hnext : (next_seq + 1).toNat = next_seq.toNat + 1 := by
    rw [UInt32.toNat_add]
    simp only [UInt32.toNat_one]
    omega
  refine ⟨hnat, hnext, ?_⟩
  unfold Delivers
  rw [hnext, ← hnat, List.take_add_one, hi]
  rfl

/-- The chunk that a key gives, if it does: under its number and with its payload. -/
theorem Reach.chunk_found {m : Nat} {w : Net} (h : Reach c m w) {key : String} {k : BrokerChunk}
    (hfind : (w.present.find? (fun o => o.key == key)).bind as_chunk = some k) :
    ∃ i bytes, c.payloads[i]? = some bytes ∧ key = c.chunk_key i ∧
      k = { v := 1, seq := UInt32.ofNat i, payload_b64 := .ok bytes } := by
  obtain ⟨o, ho, hchunk⟩ := Option.bind_eq_some_iff.mp hfind
  obtain ⟨_, hkey, ⟨i, bytes, hi, rfl⟩ | rfl⟩ := h.found ho
  · exact ⟨i, bytes, hi, hkey.symm, by simpa [as_chunk, Call.chunk, seal_obj] using hchunk.symm⟩
  · cases hchunk

/-- Handing over a chunk is one call of `on_chunk`. -/
theorem triple_on_chunk {P : Net → Prop} (bytes : Bytes) : Triple P (on_chunk (.ok bytes))
    (fun _ w tr => tr = [bytes] ∧ P w) := by
  unfold on_chunk
  apply triple_perform
  intro w a w' hP hrun
  cases hrun
  exact ⟨rfl, hP⟩

theorem triple_delete {m j : Nat} (hjm : j < m) (hj : j < 2 ^ 32) :
    Triple (Reach c m) (delete (c.chunk_key j)) (fun _ w tr => tr = [] ∧ Reach c m w) := by
  apply triple_meanwhile
  intro mv w a w' hreach hrun
  cases hrun
  refine ⟨rfl, ?_⟩
  split
  · exact hreach.delete hjm hj
  · exact hreach

/-- A poll hands over the next chunks, in order, and loses none. -/
theorem poll_delivers (ms : List Meta) (next_seq : UInt32) :
    Triple (Reach c next_seq.toNat) (poll (c.key ++ "/") ms next_seq)
      (fun next_seq' w tr => Reach c next_seq'.toNat w ∧ Delivers c next_seq next_seq' tr) := by
  induction ms generalizing next_seq with
  | nil =>
    apply triple_pure
    intro w hreach
    exact ⟨hreach, List.append_nil _⟩
  | cons m ms ih =>
    unfold poll
    split
    · exact ih next_seq
    · refine triple_bind (triple_pull m.key) ?_
      intro found tr
      have hskip : Triple (fun w => tr = [] ∧ Reach c next_seq.toNat w ∧
            found = w.present.find? (fun o => o.key == m.key)) (poll (c.key ++ "/") ms next_seq)
          (fun next_seq' w tr' => Reach c next_seq'.toNat w ∧
            Delivers c next_seq next_seq' (tr ++ tr')) := by
        intro w a w' tr' hpre hrun
        obtain ⟨rfl, hreach, _⟩ := hpre
        exact ih next_seq w a w' tr' hreach hrun
      cases hfound : found.bind as_chunk with
      | none => exact hskip
      | some k =>
        dsimp only
        split
        · exact hskip
        · rename_i hnot
          intro w a w' tr' hpre
          obtain ⟨rfl, hreach, rfl⟩ := hpre
          obtain ⟨i, bytes, hi, hkey, rfl⟩ := hreach.chunk_found hfound
          have hseq : UInt32.ofNat i = next_seq := by simpa using hnot
          obtain ⟨hnat, hnext, hdeliver⟩ := delivers_next hi hseq
          have hlt := index_lt hi
          have hshort := c.short
          -- the chunk is handed over, deleted or not, and awaited no more
          have hrest : Triple (Reach c next_seq.toNat)
              (do
                on_chunk (.ok bytes)
                delete m.key
                poll (c.key ++ "/") ms (next_seq + 1))
              (fun next_seq' w tr => Reach c next_seq'.toNat w ∧ Delivers c next_seq next_seq' tr) := by
            refine triple_bind (triple_on_chunk bytes) ?_
            intro _ tr₁
            rw [hkey]
            have hdelete : Triple (fun w => tr₁ = [bytes] ∧ Reach c next_seq.toNat w)
                (delete (c.chunk_key i))
                (fun _ w tr => tr₁ = [bytes] ∧ tr = [] ∧ Reach c (next_seq + 1).toNat w) := by
              intro w a w' tr hpre hrun
              have hmono : Reach c (next_seq + 1).toNat w := hpre.2.mono (by omega)
              exact ⟨hpre.1, triple_delete (by omega) (by omega) w a w' tr hmono hrun⟩
            refine triple_bind hdelete ?_
            intro _ tr₂ w a w' tr₃ hpre hrun
            obtain ⟨rfl, rfl, hreach⟩ := hpre
            obtain ⟨hreach', hdeliver'⟩ := ih (next_seq + 1) w a w' tr₃ hreach hrun
            refine ⟨hreach', ?_⟩
            unfold Delivers at hdeliver hdeliver' ⊢
            rw [List.nil_append, ← List.append_assoc, hdeliver, hdeliver']
          exact fun hrun => hrest w a w' tr' hreach hrun

/-! ## The drain -/

/-- The server is through, and these chunks are there. -/
structure Through (c : Call) (there : Nat → Prop) (w : Net) : Prop where
  known : ∀ o ∈ w.present, (∃ i bytes, c.payloads[i]? = some bytes ∧ o = c.chunk i bytes) ∨ o = c.final
  todo : w.todo = []
  chunks : ∀ i bytes, there i → c.payloads[i]? = some bytes → c.chunk i bytes ∈ w.present

theorem triple_meanwhile_through {α : Type} {there : Nat → Prop}
    {f : Move → Net → Except Stop α × Net} {Q : α → Net → List Bytes → Prop}
    (h : ∀ mv w a w', Through c there w → f mv w = (.ok a, w') → Q a w' []) :
    Triple (Through c there) (meanwhile f) Q := by
  apply triple_consult
  intro w a w' hthrough hrun
  split at hrun
  · cases hrun
  · rename_i mv ms _
    have hadvance : Through c there (w.advance mv ms) := by
      obtain ⟨hknown, htodo, hchunks⟩ := hthrough
      refine ⟨?_, ?_, ?_⟩
      · simpa [Net.advance, htodo] using hknown
      · simp [Net.advance, htodo]
      · simpa [Net.advance, htodo] using hchunks
    exact h _ _ a w' hadvance hrun

/-- A number with its payload, as the server sent them. -/
def Sent (c : Call) (p : UInt32 × Except String Bytes) : Prop :=
  ∃ i bytes, c.payloads[i]? = some bytes ∧ p = (UInt32.ofNat i, .ok bytes)

/-- A delete takes at most one chunk away. -/
theorem triple_delete_through {there : Nat → Prop} {j : Nat} (hj : j < 2 ^ 32) :
    Triple (Through c there) (delete (c.chunk_key j))
      (fun _ w tr => tr = [] ∧ Through c (fun i => there i ∧ i ≠ j) w) := by
  apply triple_meanwhile_through
  rintro mv w a w' ⟨hknown, htodo, hchunks⟩ hrun
  cases hrun
  refine ⟨rfl, ?_⟩
  split
  · refine ⟨fun o ho => hknown o (List.mem_filter.mp ho).1, htodo, ?_⟩
    rintro i bytes ⟨hthere, hij⟩ hi
    refine List.mem_filter.mpr ⟨hchunks i bytes hthere hi, ?_⟩
    have hne : c.chunk_key i ≠ c.chunk_key j := by
      intro heq
      exact hij (chunk_key_inj (by have := index_lt hi; have := c.short; omega) hj heq)
    simpa [Call.chunk, seal_obj] using hne
  · exact ⟨hknown, htodo, fun i bytes hthere => hchunks i bytes hthere.1⟩

/-- What a collection from these listed headers has to come to. -/
def Gets (c : Call) (there : Nat → Prop) (ms : List Meta) (pending : Pending) : Prop :=
  (∀ p ∈ pending, Sent c p) ∧
    ∀ i bytes, there i → c.payloads[i]? = some bytes → header (c.chunk i bytes) ∈ ms →
      (UInt32.ofNat i, .ok bytes) ∈ pending

/-- One chunk more, from one header more. -/
theorem Gets.cons {there : Nat → Prop} {ms : List Meta} {pending : Pending} {m : Meta} {j : Nat}
    {b : Bytes} (h : Gets c (fun i => there i ∧ i ≠ j) ms pending) (hj : c.payloads[j]? = some b)
    (hm : m.key = c.chunk_key j) : Gets c there (m :: ms) ((UInt32.ofNat j, .ok b) :: pending) := by
  obtain ⟨hsent, hall⟩ := h
  refine ⟨?_, ?_⟩
  · intro p hp
    rcases List.mem_cons.mp hp with rfl | hp
    · exact ⟨j, b, hj, rfl⟩
    · exact hsent p hp
  · intro i bytes hthere hi hmem
    by_cases hij : i = j
    · subst hij
      rw [hj] at hi
      cases hi
      exact List.mem_cons_self
    · apply List.mem_cons_of_mem
      apply hall i bytes ⟨hthere, hij⟩ hi
      rcases List.mem_cons.mp hmem with heq | hmem
      · exfalso
        have hkeys : c.chunk_key i = c.chunk_key j := by
          rw [← hm, ← heq]
          rfl
        have hlt := index_lt hi
        have hlt' := index_lt hj
        have hshort := c.short
        exact hij (chunk_key_inj (by omega) (by omega) hkeys)
      · exact hmem

/-- A header of no chunk that is there adds nothing. -/
theorem Gets.skip {there : Nat → Prop} {ms : List Meta} {pending : Pending} {m : Meta}
    (h : Gets c there ms pending)
    (hm : ∀ i bytes, there i → c.payloads[i]? = some bytes → header (c.chunk i bytes) ≠ m) :
    Gets c there (m :: ms) pending := by
  refine ⟨h.1, ?_⟩
  intro i bytes hthere hi hmem
  rcases List.mem_cons.mp hmem with heq | hmem
  · exact absurd heq (hm i bytes hthere hi)
  · exact h.2 i bytes hthere hi hmem

/-- The collection gets every chunk that is there and listed. -/
theorem collect_gets (ms : List Meta) (there : Nat → Prop) :
    Triple (Through c there) (collect (c.key ++ "/") ms)
      (fun pending _ tr => tr = [] ∧ Gets c there ms pending) := by
  induction ms generalizing there with
  | nil =>
    apply triple_pure
    intro w _
    simp [Gets]
  | cons m ms ih =>
    unfold collect
    split
    · rename_i hskip
      intro w pending w' tr hpre hrun
      obtain ⟨htr, hgets⟩ := ih there w pending w' tr hpre hrun
      refine ⟨htr, hgets.skip ?_⟩
      rintro i bytes _ _ rfl
      simp [header, Call.chunk, seal_obj, chunk_key_starts] at hskip
    · rename_i hchunk
      have hpull : Triple (Through c there) (pull m.key) (fun found w tr => tr = [] ∧
          Through c there w ∧ found = w.present.find? (fun o => o.key == m.key)) := by
        apply triple_meanwhile_through
        intro mv w a w' hthrough hrun
        split at hrun
        · cases hrun
        · cases hrun
          exact ⟨rfl, hthrough, rfl⟩
      refine triple_bind hpull ?_
      rintro found tr w pending w' tr' ⟨rfl, hthrough, rfl⟩ hrun
      cases hfound : w.present.find? (fun o => o.key == m.key) with
      | none =>
        rw [hfound] at hrun
        obtain ⟨htr, hgets⟩ := ih there w pending w' tr' hthrough hrun
        refine ⟨by simp [htr], hgets.skip ?_⟩
        rintro i bytes hthere hi rfl
        rw [List.find?_eq_none] at hfound
        exact hfound _ (hthrough.chunks i bytes hthere hi) (by simp [header])
      | some o =>
        have hkey : o.key = m.key := by simpa using List.find?_some hfound
        rw [hfound] at hrun
        rcases hthrough.known o (List.mem_of_find?_eq_some hfound) with ⟨j, b, hj, rfl⟩ | rfl
        · have hm : m.key = c.chunk_key j := hkey.symm
          have hlt := index_lt hj
          have hshort := c.short
          have hcollect : Triple (Through c there)
              (do
                delete (c.chunk_key j)
                let rest ← collect (c.key ++ "/") ms
                pure ((UInt32.ofNat j, .ok b) :: rest))
              (fun pending _ tr => tr = [] ∧ Gets c there (m :: ms) pending) := by
            refine triple_bind (triple_delete_through (by omega)) ?_
            intro _ tr₁
            have hrest : Triple (fun w => tr₁ = [] ∧ Through c (fun i => there i ∧ i ≠ j) w)
                (collect (c.key ++ "/") ms)
                (fun pending _ tr => tr₁ = [] ∧ tr = [] ∧
                  Gets c (fun i => there i ∧ i ≠ j) ms pending) := by
              intro w a w' tr hpre hrun
              exact ⟨hpre.1, ih _ w a w' tr hpre.2 hrun⟩
            refine triple_bind hrest ?_
            intro rest tr₂
            apply triple_pure
            rintro w ⟨rfl, rfl, hgets⟩
            exact ⟨rfl, hgets.cons hj hm⟩
          rw [hm] at hrun
          exact hcollect w pending w' tr' hthrough hrun
        · have hstarts : starts_with c.key (c.key ++ "/") = true ∧ m.tombstone = false := by
            rw [← hkey] at hchunk
            simpa [Call.final, seal_obj] using hchunk
          rw [key_starts_not] at hstarts
          exact absurd hstarts.1 (by simp)

/-- The drain hands over the rest, in order. -/
theorem drain_delivers (pending : Pending) (next_seq : UInt32)
    (hsorted : pending.Pairwise (fun p q => p.1 ≤ q.1)) (hsent : ∀ p ∈ pending, Sent c p)
    (hall : ∀ i bytes, next_seq.toNat ≤ i → c.payloads[i]? = some bytes →
      (UInt32.ofNat i, .ok bytes) ∈ pending) :
    Triple (fun _ => True) (drain pending next_seq)
      (fun _ _ tr => c.payloads.take next_seq.toNat ++ tr = c.payloads) := by
  induction pending generalizing next_seq with
  | nil =>
    apply triple_pure
    intro w _
    have hend : c.payloads.length ≤ next_seq.toNat := by
      by_contra hlt
      have hget : c.payloads[next_seq.toNat]? = some c.payloads[next_seq.toNat] :=
        List.getElem?_eq_getElem (by omega)
      exact absurd (hall _ _ (Nat.le_refl _) hget) (by simp)
    rw [List.append_nil, List.take_of_length_le hend]
  | cons p pending ih =>
    obtain ⟨i, bytes, hi, rfl⟩ := hsent p List.mem_cons_self
    obtain ⟨hle, hsorted'⟩ := List.pairwise_cons.mp hsorted
    have hsent' : ∀ q ∈ pending, Sent c q := fun q hq => hsent q (List.mem_cons_of_mem _ hq)
    have hlt := index_lt hi
    have hshort := c.short
    unfold drain
    split
    · rename_i hne
      apply ih next_seq hsorted' hsent'
      intro k b hk hkb
      rcases List.mem_cons.mp (hall k b hk hkb) with heq | hmem
      · -- the head would be a later chunk, in front of the awaited one
        exfalso
        simp only [Prod.mk.injEq] at heq
        have hltk := index_lt hkb
        have hki : k = i := by
          have := congrArg UInt32.toNat heq.1
          rwa [toNat_ofNat (by omega), toNat_ofNat (by omega)] at this
        have hget : c.payloads[next_seq.toNat]? = some c.payloads[next_seq.toNat] :=
          List.getElem?_eq_getElem (by omega)
        have hnext : UInt32.ofNat next_seq.toNat = next_seq := by simp
        rcases List.mem_cons.mp (hall _ _ (Nat.le_refl _) hget) with h | h
        · simp only [Prod.mk.injEq, hnext] at h
          exact hne h.1.symm
        · have hbefore := hle _ h
          simp only [hnext, UInt32.le_iff_toNat_le] at hbefore
          rw [toNat_ofNat (by omega)] at hbefore
          apply hne
          rw [← hnext]
          congr 1
          omega
      · exact hmem
    · rename_i hseq
      have hseq : UInt32.ofNat i = next_seq := by simpa using hseq
      obtain ⟨hnat, hnext, hdeliver⟩ := delivers_next hi hseq
      refine triple_bind (triple_on_chunk bytes) ?_
      intro _ tr w a w' tr' hpre hrun
      have hrest := ih (next_seq + 1) hsorted' hsent' (by
        intro k b hk hkb
        rcases List.mem_cons.mp (hall k b (by omega) hkb) with heq | hmem
        · exfalso
          simp only [Prod.mk.injEq] at heq
          have hltk := index_lt hkb
          have := congrArg UInt32.toNat heq.1
          rw [toNat_ofNat (by omega), toNat_ofNat (by omega)] at this
          omega
        · exact hmem) w a w' tr' trivial hrun
      unfold Delivers at hdeliver
      rw [hpre.1, ← List.append_assoc, hdeliver, hrest]

/-! ## The whole call -/

/-- A call of the transport hands nothing over. -/
theorem triple_silent {α : Type} {P : Net → Prop} (f : Move → Net → Except Stop α × Net) :
    Triple P (meanwhile f) (fun _ _ tr => tr = []) := by
  apply triple_consult
  intro _ _ _ _ _
  rfl

/-- When the final object is there, the server is through. -/
theorem Reach.through {m : Nat} {w : Net} (h : Reach c m w) {o : SyncObject Body}
    (hfind : w.present.find? (fun o => o.key == c.key) = some o) : Through c (fun i => m ≤ i) w := by
  obtain ⟨hmem, hkey, _⟩ := h.found hfind
  obtain ⟨s, htodo, hsub, hthere⟩ := h.pushed
  have hfinal : c.payloads.length < s := by
    rcases mem_take_objects (hsub o hmem) with ⟨i, bytes, _, _, rfl⟩ | ⟨_, hs⟩
    · exfalso
      have hlen := congrArg (fun s : String => s.toList.length) hkey
      simp [Call.chunk, seal_obj, Call.chunk_key] at hlen
    · exact hs
  have hlen : c.objects.length ≤ s := by
    by_contra hlt
    have hget : c.objects[s]? = some c.objects[s] := List.getElem?_eq_getElem (by omega)
    rw [objects_get, if_neg (by omega), if_neg (by omega)] at hget
    cases hget
  refine ⟨?_, ?_, ?_⟩
  · intro o ho
    rcases mem_take_objects (hsub o ho) with ⟨i, bytes, _, hi, heq⟩ | ⟨heq, _⟩
    · exact Or.inl ⟨i, bytes, hi, heq⟩
    · exact Or.inr heq
  · rw [htodo, List.drop_of_length_le hlen]
  · intro i bytes hmi hi
    have := index_lt hi
    exact hthere i bytes hmi (by omega) hi

theorem sorted_by_seq (pending : Pending) :
    (pending.insertionSort (fun p q => p.1 ≤ q.1)).Pairwise (fun p q => p.1 ≤ q.1) := by
  have htotal : Std.Total (fun p q : UInt32 × Except String Bytes => p.1 ≤ q.1) := by
    refine ⟨fun p q => ?_⟩
    simp only [UInt32.le_iff_toNat_le]
    omega
  have htrans : IsTrans (UInt32 × Except String Bytes) (fun p q => p.1 ≤ q.1) := by
    refine ⟨fun p q r hpq hqr => ?_⟩
    simp only [UInt32.le_iff_toNat_le] at hpq hqr ⊢
    omega
  exact List.pairwise_insertionSort _ pending

/-- The end of a call, behind the pull that found the final object. -/
theorem finish_delivers (op final_key : String) (o : SyncObject Body) (next_seq : UInt32)
    (hkey : final_key = c.key) : Triple (Through c (fun i => next_seq.toNat ≤ i))
      (do
        let metas ← list final_key
        let pending ← collect (final_key ++ "/") metas
        let _ ← drain (pending.insertionSort (fun p q => p.1 ≤ q.1)) next_seq
        let r ← open_response o
        delete final_key
        pure (read_response op r))
      (fun _ _ tr => c.payloads.take next_seq.toNat ++ tr = c.payloads) := by
  subst hkey
  have hlist : Triple (Through c (fun i => next_seq.toNat ≤ i)) (list c.key)
      (fun metas w tr => tr = [] ∧ Through c (fun i => next_seq.toNat ≤ i) w ∧
        ∀ o ∈ w.present, header o ∈ metas) := by
    apply triple_meanwhile_through
    intro mv w a w' hthrough hrun
    split at hrun
    · cases hrun
    · cases hrun
      refine ⟨rfl, hthrough, ?_⟩
      intro o ho
      rw [mv.listing.mem_arrange]
      exact List.mem_append_left _ (List.mem_map_of_mem ho)
  refine triple_bind hlist ?_
  intro metas tr₁
  -- every chunk that is still to come stands among the listed ones
  have hcollect : Triple (fun w => tr₁ = [] ∧ Through c (fun i => next_seq.toNat ≤ i) w ∧
        ∀ o ∈ w.present, header o ∈ metas) (collect (c.key ++ "/") metas)
      (fun pending _ tr => tr₁ = [] ∧ tr = [] ∧ (∀ p ∈ pending, Sent c p) ∧
        ∀ i bytes, next_seq.toNat ≤ i → c.payloads[i]? = some bytes →
          (UInt32.ofNat i, .ok bytes) ∈ pending) := by
    rintro w pending w' tr ⟨htr₁, hthrough, hmetas⟩ hrun
    obtain ⟨htr, hsent, hall⟩ := collect_gets metas _ w pending w' tr hthrough hrun
    refine ⟨htr₁, htr, hsent, ?_⟩
    intro i bytes hle hi
    exact hall i bytes hle hi (hmetas _ (hthrough.chunks i bytes hle hi))
  refine triple_bind hcollect ?_
  intro pending tr₂
  have hdrain : Triple (fun _ => tr₁ = [] ∧ tr₂ = [] ∧ (∀ p ∈ pending, Sent c p) ∧
        ∀ i bytes, next_seq.toNat ≤ i → c.payloads[i]? = some bytes →
          (UInt32.ofNat i, .ok bytes) ∈ pending)
      (drain (pending.insertionSort (fun p q => p.1 ≤ q.1)) next_seq)
      (fun _ _ tr => tr₁ = [] ∧ tr₂ = [] ∧ c.payloads.take next_seq.toNat ++ tr = c.payloads) := by
    rintro w a w' tr ⟨htr₁, htr₂, hsent, hall⟩ hrun
    refine ⟨htr₁, htr₂, drain_delivers _ next_seq (sorted_by_seq pending) ?_ ?_ w a w' tr trivial hrun⟩
    · intro p hp
      exact hsent p (List.mem_insertionSort _ |>.mp hp)
    · intro i bytes hle hi
      exact List.mem_insertionSort _ |>.mpr (hall i bytes hle hi)
  refine triple_bind hdrain ?_
  intro last tr₃
  -- the rest of the call hands nothing over
  have hopen : Triple (fun _ => tr₁ = [] ∧ tr₂ = [] ∧
        c.payloads.take next_seq.toNat ++ tr₃ = c.payloads) (open_response o)
      (fun _ _ tr => tr₁ = [] ∧ tr₂ = [] ∧
        c.payloads.take next_seq.toNat ++ tr₃ = c.payloads ∧ tr = []) := by
    unfold open_response
    split
    · split
      · exact triple_fail _ _ _
      · apply triple_pure
        rintro w ⟨h₁, h₂, h₃⟩
        exact ⟨h₁, h₂, h₃, rfl⟩
    · exact triple_fail _ _ _
  refine triple_bind hopen ?_
  intro r tr₄ w a w' tr hpre hrun
  obtain ⟨rfl, rfl, hdelivered, rfl⟩ := hpre
  have hsilent : Triple (fun _ => True) (do delete c.key; pure (read_response op r))
      (fun _ _ tr => tr = []) := by
    refine triple_bind (triple_silent _) ?_
    intro _ tr
    apply triple_pure
    intro w htr
    rw [htr, List.append_nil]
  rw [hsilent w a w' tr trivial hrun]
  simpa using hdelivered

theorem call_delivers (op id final_key : String) (secs polls : Nat) (next_seq : UInt32)
    (hkey : final_key = c.key) : Triple (Reach c next_seq.toNat)
      (call_stream op id final_key secs polls next_seq)
      (fun _ _ tr => c.payloads.take next_seq.toNat ++ tr = c.payloads) := by
  subst hkey
  induction polls generalizing next_seq with
  | zero => exact triple_fail _ _ _
  | succ polls ih =>
    unfold call_stream
    have hcheck : Triple (Reach c next_seq.toNat) (check_deadline id secs)
        (fun _ w tr => tr = [] ∧ Reach c next_seq.toNat w) := by
      apply triple_meanwhile
      intro mv w a w' hreach hrun
      split at hrun
      · cases hrun
      · cases hrun
        exact ⟨rfl, hreach⟩
    refine triple_bind hcheck ?_
    intro _ tr₁
    refine triple_after_nil (Q := fun _ _ tr => c.payloads.take next_seq.toNat ++ tr = c.payloads)
      (triple_bind (triple_list c.key) ?_) tr₁
    intro metas tr₂
    have hrest : Triple (Reach c next_seq.toNat)
        (do
          let next_seq ← poll (c.key ++ "/") metas next_seq
          match ← pull c.key with
          | some o =>
            let metas ← list c.key
            let pending ← collect (c.key ++ "/") metas
            let _ ← drain (pending.insertionSort (fun p q => p.1 ≤ q.1)) next_seq
            let r ← open_response o
            delete c.key
            pure (read_response op r)
          | none => call_stream op id c.key secs polls next_seq)
        (fun _ _ tr => c.payloads.take next_seq.toNat ++ tr = c.payloads) := by
      refine triple_bind (poll_delivers metas next_seq) ?_
      rintro next_seq' tr₃ w a w' tr ⟨hreach, hdelivers⟩ hrun
      have hpull : Triple (Reach c next_seq'.toNat)
          (do
            match ← pull c.key with
            | some o =>
              let metas ← list c.key
              let pending ← collect (c.key ++ "/") metas
              let _ ← drain (pending.insertionSort (fun p q => p.1 ≤ q.1)) next_seq'
              let r ← open_response o
              delete c.key
              pure (read_response op r)
            | none => call_stream op id c.key secs polls next_seq')
          (fun _ _ tr => c.payloads.take next_seq'.toNat ++ tr = c.payloads) := by
        refine triple_bind (triple_pull c.key) ?_
        rintro found tr w a w' tr' ⟨rfl, hreach, rfl⟩ hrun
        cases hfound : w.present.find? (fun o => o.key == c.key) with
        | none =>
          rw [hfound] at hrun
          exact ih next_seq' w a w' tr' hreach hrun
        | some o =>
          rw [hfound] at hrun
          exact finish_delivers op c.key o next_seq' rfl w a w' tr' (hreach.through hfound) hrun
      unfold Delivers at hdelivers
      rw [← List.append_assoc, hdelivers]
      exact hpull w a w' tr hreach hrun
    refine triple_mono (triple_after_nil hrest tr₂) ?_ (fun _ _ _ h => h)
    rintro w ⟨htr, hreach, _⟩
    exact ⟨htr, hreach⟩

/-- The chunks of a streamed op, in the order in which the server pushes them. -/
def Streamed.chunks (s : Streamed) : List Bytes :=
  match s.last with
  | .closed => s.received
  | .out (.error _) _ => s.received
  | .out (.ok ()) left => s.received ++ left

/-- A streamed answer is chunks and a final response. -/
theorem stream_objects_eq (device : DeviceId) (now_ms : Nat) (req : BrokerRequest) (s : Streamed)
    (hshort : s.chunks.length < 2 ^ 32) :
    ∃ c : Call, c.key = res_key req ∧ c.payloads = s.chunks ∧
      stream_objects device now_ms req s = c.objects := by
  obtain ⟨received, last⟩ := s
  cases last with
  | closed => exact ⟨⟨device, now_ms, res_key req, received, hshort, _⟩, rfl, rfl, rfl⟩
  | out result left =>
    cases result with
    | error e => exact ⟨⟨device, now_ms, res_key req, received, hshort, _⟩, rfl, rfl, rfl⟩
    | ok u => exact ⟨⟨device, now_ms, res_key req, received ++ left, hshort, _⟩, rfl, rfl, rfl⟩

/-- A call that consumed the final object has handed over every chunk, in order and
once, however the server's pushes and the client's polls came together. -/
theorem a_streamed_call_hands_over_every_chunk_once (op : String) (secs polls : Nat)
    (device : DeviceId) (now_ms : Nat) (req : BrokerRequest) (s : Streamed) (moves : List Move)
    (r : Except Error Bytes) (hshort : s.chunks.length < 2 ^ 32)
    (h : (call_stream op req.id (res_key req) secs polls 0
      { present := [], todo := stream_objects device now_ms req s, moves := moves }).1 = .ok r) :
    (call_stream op req.id (res_key req) secs polls 0).trace
      { present := [], todo := stream_objects device now_ms req s, moves := moves } = s.chunks := by
  obtain ⟨c, hkey, hpayloads, hobjects⟩ := stream_objects_eq device now_ms req s hshort
  rw [hobjects] at h ⊢
  have hstart : Reach c (0 : UInt32).toNat { present := [], todo := c.objects, moves := moves } := by
    refine ⟨0, by simp, by simp, ?_⟩
    intro i bytes _ hi
    omega
  have hcall := call_delivers op req.id (res_key req) secs polls 0 hkey.symm _ r _ _ hstart
    (Prod.ext h rfl)
  rw [← hpayloads]
  unfold Prog.trace
  simpa using hcall

def infer : BrokerRequest :=
  { v := 1, id := "r2", sender := ⟨"phone"⟩, op := "infer", payload_b64 := .ok [], stream := true,
    expires_at_ms := 0 }

/-- The last object first, and no delete does anything. -/
def move (pushes : Nat) : Move :=
  { pushes := pushes, listing := { arrange := List.reverse, mem_arrange := by simp },
    others := [{ key := "memory/m", tombstone := false }], deletes := false, fails := none,
    expired := false }

/-- The third chunk and the final response land behind the poll that hands over the
first chunk. -/
theorem three_chunks_arrive_in_order :
    (call_stream "infer" infer.id (res_key infer) 30 2 0).trace
      { present := [],
        todo := stream_objects ⟨"desk"⟩ 1 infer { received := [[1], [2], [3]], last := .closed },
        moves := [move 2, move 0, move 0, move 0, move 0, move 2] ++ List.replicate 8 (move 0) } =
      [[1], [2], [3]] :=
  a_streamed_call_hands_over_every_chunk_once "infer" 30 2 ⟨"desk"⟩ 1 infer
    { received := [[1], [2], [3]], last := .closed } _ (.ok []) (by decide) (by decide)

end pai_broker.rpc
