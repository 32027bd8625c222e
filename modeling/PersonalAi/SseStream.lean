-- Streamed completions (pai-inference lib.rs): the data lines of a server, which come in network chunks,
-- and the deltas and the response that are made of them.
import PersonalAi.Lib.Buffered
import PersonalAi.ActionParsing

open json text buffered
open pai_agent (ModelAction)

namespace pai_inference

structure GenerateResponse where
  text : String
  action : Option ModelAction
  model : Option String
  input_tokens : Option Nat
  output_tokens : Option Nat
  finish_reason : Option String
deriving DecidableEq

inductive StreamEvent
  | Delta (text : String)
  | Done (response : GenerateResponse)
  | Error (msg : String)
deriving DecidableEq

/-- Indexing an array, with `null` for an item that is not there. -/
def item (v : Value) (i : Nat) : Value := ((v.as_array.getD [])[i]?).getD .null

/-! ## Data lines -/

structure SseDecoder where
  buf : Bytes
  data : List String

structure ActiveSse where
  decoder : SseDecoder
  events : List StreamEvent
  text : String
  model : Option String
  usage : Option Value
  finished : Bool

/-- What is used of the libraries: `from_utf8_lossy`, `serde_json`, and the search for an action. -/
structure Readers where
  from_utf8_lossy : Bytes → List Char
  from_str : String → Option Value
  parse_action : String → Option ModelAction

section Stream
variable (rd : Readers)

/-- What a line holds for the stream. The line feed at its end is trimmed away. -/
def data_of (out : Bytes) : Option String :=
  ( strip_prefix "data:"
      (String.ofList (trim_start (trim_end (rd.from_utf8_lossy (out ++ [10])))))).map
    (fun rest => String.ofList (trim rest.toList))

/-- `SseDecoder::push`. -/
def SseDecoder.push (d : SseDecoder) (chunk : Bytes) : SseDecoder :=
  let cut := drain 10 (d.buf ++ chunk)
  { buf := cut.2, data := d.data ++ cut.1.filterMap (data_of rd) }

/-- The text that an event adds. -/
def delta_of (v : Value) : String :=
  ((((item (v.index "choices") 0).index "delta").index "content").as_str).getD ""

/-- `ActiveSse::handle_data`. -/
def handle_data (s : ActiveSse) (data : String) : ActiveSse :=
  if String.ofList (trim data.toList) = "[DONE]" then { s with finished := true }
  else
    match rd.from_str data with
    | none => s
    | some v =>
      let s := match (v.index "model").as_str with
        | some m => { s with model := some m }
        | none => s
      let s := if (v.get "usage").any Value.is_object then { s with usage := v.get "usage" } else s
      let delta := delta_of v
      let s := if delta = "" then s
        else { s with text := s.text ++ delta, events := s.events ++ [.Delta delta] }
      if ((item (v.index "choices") 0).index "finish_reason").is_string then
        { s with finished := true }
      else s

/-- A count of tokens, cast to `u32`. -/
def count_of (usage : Option Value) (key : String) : Option Nat :=
  (((usage.getD .null).index key).as_u64).map (· % 4294967296)

/-- `ActiveSse::into_response`. -/
def into_response (s : ActiveSse) : GenerateResponse :=
  { text := s.text, action := rd.parse_action s.text, model := s.model,
    input_tokens := count_of s.usage "prompt_tokens",
    output_tokens := count_of s.usage "completion_tokens", finish_reason := none }

/-- A chunk is pushed, and the data lines that it completes are handled. -/
def absorb (s : ActiveSse) (chunk : Bytes) : ActiveSse :=
  let d := s.decoder.push rd chunk
  d.data.foldl (handle_data rd) { s with decoder := { d with data := [] } }

/-! ## The stream -/

/-- What the network gives: a chunk, or what went wrong. -/
abbrev Item := Except String Bytes

structure Response where
  status : String
  is_success : Bool
  bytes : List Item

inductive SseState
  | Connecting (answer : Except String Response)
  | Active (bytes : List Item) (s : ActiveSse)
  | Done

def fresh : ActiveSse :=
  { decoder := ⟨[], []⟩, events := [], text := "", model := none, usage := none, finished := false }

/-- The loop of `SseState::next` on an open stream. -/
def next_active : List Item → ActiveSse → StreamEvent × SseState
  | bytes, s =>
    match s.events with
    | ev :: events => (ev, .Active bytes { s with events })
    | [] =>
      if s.finished then (.Done (into_response rd s), .Done)
      else
        match bytes with
        | [] => (.Done (into_response rd { s with finished := true }), .Done)
        | .error e :: _ => (.Error e, .Done)
        | .ok chunk :: bytes => next_active bytes (absorb rd s chunk)

/-- `SseState::next`. -/
def SseState.next : SseState → Option (StreamEvent × SseState)
  | .Done => none
  | .Connecting (.ok resp) =>
    if resp.is_success then some (next_active rd resp.bytes fresh)
    else some (.Error ("HTTP " ++ resp.status), .Done)
  | .Connecting (.error e) => some (.Error ("connect: " ++ e), .Done)
  | .Active bytes s => some (next_active rd bytes s)

/-- The stream gives these events, and then no more. -/
inductive Yields : SseState → List StreamEvent → Prop
  | stop {st : SseState} (h : st.next rd = none) : Yields st []
  | more {st st' : SseState} {ev : StreamEvent} {evs : List StreamEvent}
      (h : st.next rd = some (ev, st')) (rest : Yields st' evs) : Yields st (ev :: evs)

end Stream

/-- The deltas, one after the other. -/
def deltas : List StreamEvent → String
  | [] => ""
  | .Delta d :: evs => d ++ deltas evs
  | _ :: evs => deltas evs

def responses (evs : List StreamEvent) : List GenerateResponse :=
  evs.filterMap (fun ev => match ev with | .Done resp => some resp | _ => none)

/-- A completion in these chunks. -/
def completion (chunks : List Bytes) : SseState :=
  .Connecting (.ok { status := "200 OK", is_success := true, bytes := chunks.map .ok })

/-- Two ways of splitting the bytes give the same deltas and the same response. -/
def SameStream (rd : Readers) (chunks chunks' : List Bytes) : Prop :=
  ∃ evs evs', Yields rd (completion chunks) evs ∧ Yields rd (completion chunks') evs' ∧
    deltas evs = deltas evs' ∧ responses evs = responses evs'

/-! ## Lines behind the end -/

section Lines
variable (rd : Readers)

/-- The event of a data line. -/
def event_of (data : String) : Option Value :=
  if String.ofList (trim data.toList) = "[DONE]" then none else rd.from_str data

/-- A data line that finishes the stream. -/
def finishes (data : String) : Bool :=
  String.ofList (trim data.toList) = "[DONE]" ||
    (event_of rd data).any fun v => ((item (v.index "choices") 0).index "finish_reason").is_string

def model_of (data : String) : Option String := (event_of rd data).bind fun v => (v.index "model").as_str

def usage_of (data : String) : Option Value :=
  (event_of rd data).bind fun v => (v.get "usage").filter Value.is_object

/-- What was named last. -/
def last_of {α : Type} (f : String → Option α) (before : List String) : Option α :=
  (before.filterMap f).getLast?

def counts (usage : Option Value) : Option Nat × Option Nat :=
  (count_of usage "prompt_tokens", count_of usage "completion_tokens")

/-- A data line that adds nothing to those before it. -/
def Idle (before : List String) (data : String) : Prop :=
  (∀ v ∈ event_of rd data, delta_of v = "") ∧
    (∀ m ∈ model_of rd data, last_of (model_of rd) before = some m) ∧
    ∀ u ∈ usage_of rd data, counts (some u) = counts (last_of (usage_of rd) before)

/-- The data lines of a stream of bytes. -/
def data_lines (bytes : Bytes) : List String := (drain 10 bytes).1.filterMap (data_of rd)

/-- Behind a data line that finishes the stream all of them are idle. -/
def Settled (bytes : Bytes) : Prop :=
  ∀ before data behind, data_lines rd bytes = before ++ data :: behind →
    (∃ d ∈ before, finishes rd d = true) → Idle rd before data

end Lines

/-! ## One data line -/

variable {rd : Readers}

/-- What a data line adds to the text. -/
def delta_at (rd : Readers) (data : String) : String := ((event_of rd data).map delta_of).getD ""

theorem filter_eq {α : Type} (o : Option α) (p : α → Bool) :
    o.filter p = if o.any p then o else none := by
  cases o with
  | none => rfl
  | some a => rcases h : p a <;> simp [Option.filter, h]

/-- What a data line does to the state, part by part. -/
theorem handle_data_eq (s : ActiveSse) (data : String) :
    handle_data rd s data =
      { s with
        text := s.text ++ delta_at rd data
        events := s.events ++ if delta_at rd data = "" then [] else [.Delta (delta_at rd data)]
        model := (model_of rd data).or s.model
        usage := (usage_of rd data).or s.usage
        finished := s.finished || finishes rd data } := by
  unfold handle_data delta_at model_of usage_of finishes event_of
  by_cases hdone : String.ofList (trim data.toList) = "[DONE]"
  · simp [hdone]
  · rw [if_neg hdone, if_neg hdone]
    rcases hv : rd.from_str data with _ | v
    · simp [hdone]
    · simp only [Option.bind_some, filter_eq, Option.map_some, Option.getD_some, Option.any_some,
        hdone, decide_false, Bool.false_or]
      rcases (v.index "model").as_str with _ | m <;>
        rcases husage : (v.get "usage").any Value.is_object <;>
        by_cases hdelta : delta_of v = "" <;>
        rcases ((item (v.index "choices") 0).index "finish_reason").is_string <;>
        simp [hdelta]
      all_goals
        rcases hget : v.get "usage" with _ | u
        · simp [hget] at husage
        · rfl

/-! ## All data lines -/

/-- The state behind these data lines. -/
def after (rd : Readers) (ds : List String) : ActiveSse := ds.foldl (handle_data rd) fresh

theorem after_concat (ds : List String) (d : String) :
    after rd (ds ++ [d]) = handle_data rd (after rd ds) d := by
  rw [after, List.foldl_append, List.foldl_cons, List.foldl_nil, after]

theorem last_of_concat {α : Type} (f : String → Option α) (ds : List String) (d : String) :
    last_of f (ds ++ [d]) = (f d).or (last_of f ds) := by
  rw [last_of, List.filterMap_append]
  rcases hf : f d with _ | a
  · simp [hf, last_of]
  · simp [hf]

theorem model_after (ds : List String) : (after rd ds).model = last_of (model_of rd) ds := by
  induction ds using List.reverseRecOn with
  | nil => rfl
  | append_singleton ds d ih => rw [after_concat, handle_data_eq, last_of_concat, ← ih]

theorem usage_after (ds : List String) : (after rd ds).usage = last_of (usage_of rd) ds := by
  induction ds using List.reverseRecOn with
  | nil => rfl
  | append_singleton ds d ih => rw [after_concat, handle_data_eq, last_of_concat, ← ih]

/-- The response behind these data lines. -/
def response_after (rd : Readers) (ds : List String) : GenerateResponse :=
  into_response rd (after rd ds)

/-- A data line leaves the response as it is if and only if it is idle. -/
theorem idle_iff (ds : List String) (d : String) :
    response_after rd (ds ++ [d]) = response_after rd ds ↔ Idle rd ds d := by
  have htext : (after rd ds).text ++ delta_at rd d = (after rd ds).text ↔
      ∀ v ∈ event_of rd d, delta_of v = "" := by
    rw [String.append_eq_left_iff, delta_at]
    rcases event_of rd d with _ | v <;> simp
  have hmodel : (model_of rd d).or (after rd ds).model = (after rd ds).model ↔
      ∀ m ∈ model_of rd d, last_of (model_of rd) ds = some m := by
    rw [model_after]
    rcases model_of rd d with _ | m <;> simp [eq_comm]
  have hcounts : counts ((usage_of rd d).or (after rd ds).usage) = counts (after rd ds).usage ↔
      ∀ u ∈ usage_of rd d, counts (some u) = counts (last_of (usage_of rd) ds) := by
    rw [usage_after]
    rcases usage_of rd d with _ | u <;> simp
  rw [Idle, ← htext, ← hmodel, ← hcounts, response_after, response_after, after_concat,
    handle_data_eq]
  simp only [into_response, GenerateResponse.mk.injEq, counts, Prod.mk.injEq, and_true]
  constructor
  · rintro ⟨ht, -, hm, hin, hout⟩
    exact ⟨ht, hm, hin, hout⟩
  · rintro ⟨ht, hm, hin, hout⟩
    exact ⟨ht, by rw [ht], hm, hin, hout⟩

/-- Idle lines behind others leave the response as it is. -/
theorem response_of_idle {ds : List String} {more : List String}
    (h : ∀ before d behind, more = before ++ d :: behind → Idle rd (ds ++ before) d) :
    response_after rd (ds ++ more) = response_after rd ds := by
  induction more using List.reverseRecOn with
  | nil => rw [List.append_nil]
  | append_singleton more d ih =>
    have hidle := h more d [] (by simp)
    rw [← List.append_assoc, (idle_iff _ d).mpr hidle]
    refine ih (fun before d' behind hmore => h before d' (behind ++ [d]) ?_)
    rw [hmore, List.append_assoc, List.cons_append]

/-! ## The events of a stream -/

/-- What a response is made of, and whether there is one to be made. -/
def Alike (s t : ActiveSse) : Prop :=
  s.text = t.text ∧ s.model = t.model ∧ s.usage = t.usage ∧ s.finished = t.finished

theorem Alike.handle {s t : ActiveSse} (h : Alike s t) (d : String) :
    Alike (handle_data rd s d) (handle_data rd t d) := by
  obtain ⟨htext, hmodel, husage, hfinished⟩ := h
  rw [handle_data_eq, handle_data_eq]
  exact ⟨by rw [htext], by rw [hmodel], by rw [husage], by rw [hfinished]⟩

theorem Alike.fold {s t : ActiveSse} (h : Alike s t) (ds : List String) :
    Alike (ds.foldl (handle_data rd) s) (ds.foldl (handle_data rd) t) := by
  induction ds generalizing s t with
  | nil => exact h
  | cons d ds ih =>
    rw [List.foldl_cons, List.foldl_cons]
    exact ih (h.handle d)

theorem Alike.response {s t : ActiveSse} (h : Alike s t) : into_response rd s = into_response rd t := by
  obtain ⟨htext, hmodel, husage, -⟩ := h
  rw [into_response, into_response, htext, hmodel, husage]

theorem finished_fold (s : ActiveSse) (ds : List String) :
    (ds.foldl (handle_data rd) s).finished = (s.finished || ds.any (finishes rd)) := by
  induction ds generalizing s with
  | nil => simp
  | cons d ds ih => rw [List.foldl_cons, ih, handle_data_eq, List.any_cons, Bool.or_assoc]

/-- The decoder is left alone, and the text grows by the deltas that are added to the events. -/
theorem fold_events (s : ActiveSse) (ds : List String) :
    (ds.foldl (handle_data rd) s).decoder = s.decoder ∧
      ∃ evs, (ds.foldl (handle_data rd) s).events = s.events ++ evs ∧ responses evs = [] ∧
        (ds.foldl (handle_data rd) s).text = s.text ++ deltas evs := by
  induction ds generalizing s with
  | nil => exact ⟨rfl, [], by simp [responses, deltas]⟩
  | cons d ds ih =>
    obtain ⟨hdecoder, evs, hevents, hresponses, htext⟩ := ih (handle_data rd s d)
    rw [List.foldl_cons]
    rw [handle_data_eq] at hdecoder hevents htext
    refine ⟨by rw [handle_data_eq]; exact hdecoder, ?_⟩
    by_cases hdelta : delta_at rd d = ""
    · rw [hdelta] at hevents htext
      exact ⟨evs, by rw [handle_data_eq, hdelta]; simpa using hevents, hresponses,
        by rw [handle_data_eq, hdelta]; simpa using htext⟩
    · rw [if_neg hdelta] at hevents
      refine ⟨.Delta (delta_at rd d) :: evs, ?_, ?_, ?_⟩
      · rw [handle_data_eq, if_neg hdelta, hevents, List.append_assoc]
        rfl
      · simpa [responses] using hresponses
      · rw [handle_data_eq, htext, String.append_assoc]
        rfl

/-- The state in which a stream ends that gets these chunks. -/
def ends (rd : Readers) : List Bytes → ActiveSse → ActiveSse
  | [], s => s
  | chunk :: chunks, s =>
    if s.finished then s else ends rd chunks { absorb rd s chunk with events := [] }

theorem absorb_eq {s : ActiveSse} (hdata : s.decoder.data = []) (chunk : Bytes) :
    absorb rd s chunk =
      ((drain 10 (s.decoder.buf ++ chunk)).1.filterMap (data_of rd)).foldl (handle_data rd)
        { s with decoder := ⟨(drain 10 (s.decoder.buf ++ chunk)).2, []⟩ } := by
  rw [absorb, SseDecoder.push, hdata]
  rfl

/-- The events that wait are given first. -/
theorem yields_waiting {bytes : List Item} {s : ActiveSse} {evs : List StreamEvent}
    (h : Yields rd (.Active bytes { s with events := [] }) evs) :
    Yields rd (.Active bytes s) (s.events ++ evs) := by
  obtain ⟨decoder, events, text, model, usage, finished⟩ := s
  induction events with
  | nil => exact h
  | cons ev events ih =>
    refine .more ?_ (ih h)
    cases bytes <;> rfl

theorem deltas_append (a b : List StreamEvent) : deltas (a ++ b) = deltas a ++ deltas b := by
  induction a with
  | nil => simp [deltas]
  | cons ev a ih => cases ev <;> simp [deltas, ih, String.append_assoc]

theorem responses_append (a b : List StreamEvent) :
    responses (a ++ b) = responses a ++ responses b := by
  simp [responses]

/-- A stream that gets these chunks gives the deltas of its text, and one response. -/
theorem yields_ends (chunks : List Bytes) {s : ActiveSse} (hevents : s.events = [])
    (hdata : s.decoder.data = []) :
    ∃ evs, Yields rd (.Active (chunks.map .ok) s) evs ∧
      (ends rd chunks s).text = s.text ++ deltas evs ∧
      responses evs = [into_response rd (ends rd chunks s)] := by
  have hstop : Yields rd .Done [] := .stop rfl
  induction chunks generalizing s with
  | nil =>
    refine ⟨[.Done (into_response rd s)], .more ?_ hstop, ?_, rfl⟩
    · rw [List.map_nil, SseState.next, next_active, hevents]
      split_ifs <;> rfl
    · simp [ends, deltas]
  | cons chunk chunks ih =>
    by_cases hfinished : s.finished = true
    · refine ⟨[.Done (into_response rd s)], .more ?_ hstop, ?_, ?_⟩
      · rw [List.map_cons, SseState.next, next_active, hevents, if_pos hfinished]
      · simp [ends, hfinished, deltas]
      · simp [ends, hfinished, responses]
    · obtain ⟨hdecoder, added, hadded, hnone, htext⟩ :=
        @fold_events rd { s with decoder := ⟨(drain 10 (s.decoder.buf ++ chunk)).2, []⟩ }
          ((drain 10 (s.decoder.buf ++ chunk)).1.filterMap (data_of rd))
      rw [← absorb_eq hdata] at hdecoder hadded htext
      obtain ⟨evs, hyields, hends, hresponses⟩ :=
        @ih { absorb rd s chunk with events := [] } rfl (by rw [hdecoder])
      have hwaiting := yields_waiting hyields
      dsimp only at hadded htext hends
      rw [hevents, List.nil_append] at hadded
      rw [hadded] at hwaiting
      refine ⟨added ++ evs, ?_, ?_, ?_⟩
      · -- the chunk is taken in the same step that gives the first event behind it
        have hnext : SseState.next rd (.Active ((chunk :: chunks).map .ok) s) =
            SseState.next rd (.Active (chunks.map .ok) (absorb rd s chunk)) := by
          rw [List.map_cons, SseState.next, next_active, hevents, if_neg hfinished]
          rfl
        generalize added ++ evs = all at hwaiting ⊢
        cases hwaiting with
        | stop h => cases h
        | more h rest => exact .more (hnext.trans h) rest
      · rw [ends, if_neg hfinished, hends, htext, deltas_append, String.append_assoc]
      · rw [ends, if_neg hfinished, responses_append, hnone, hresponses]
        rfl

/-- A stream gives its events in one way. -/
theorem yields_unique {st : SseState} {evs evs' : List StreamEvent} (h : Yields rd st evs)
    (h' : Yields rd st evs') : evs = evs' := by
  induction h generalizing evs' with
  | stop hnone =>
    cases h' with
    | stop => rfl
    | more hsome => rw [hnone] at hsome; cases hsome
  | more hnext _ ih =>
    cases h' with
    | stop hnone => rw [hnext] at hnone; cases hnone
    | more hnext' hrest =>
      rw [hnext] at hnext'
      cases hnext'
      rw [ih hrest]

theorem yields_completion (chunks : List Bytes) :
    ∃ evs, Yields rd (completion chunks) evs ∧ deltas evs = (ends rd chunks fresh).text ∧
      responses evs = [into_response rd (ends rd chunks fresh)] := by
  obtain ⟨evs, hyields, htext, hresponses⟩ := @yields_ends rd chunks fresh rfl rfl
  refine ⟨evs, ?_, ?_, hresponses⟩
  · have hnext : SseState.next rd (completion chunks) =
        SseState.next rd (.Active (chunks.map .ok) fresh) := rfl
    cases hyields with
    | stop h => cases h
    | more h rest => exact .more (hnext.trans h) rest
  · rw [htext]
    simp [fresh]

/-- Two ways of splitting agree if and only if they end in the same response. -/
theorem same_stream_iff (chunks chunks' : List Bytes) :
    SameStream rd chunks chunks' ↔
      into_response rd (ends rd chunks fresh) = into_response rd (ends rd chunks' fresh) := by
  obtain ⟨evs, hyields, hdeltas, hresponses⟩ := @yields_completion rd chunks
  obtain ⟨evs', hyields', hdeltas', hresponses'⟩ := @yields_completion rd chunks'
  constructor
  · rintro ⟨es, es', hes, hes', -, hsame⟩
    rw [yields_unique hes hyields, yields_unique hes' hyields', hresponses, hresponses'] at hsame
    exact (List.cons.inj hsame).1
  · intro h
    have htext : (ends rd chunks fresh).text = (ends rd chunks' fresh).text :=
      congrArg GenerateResponse.text h
    exact ⟨evs, evs', hyields, hyields', by rw [hdeltas, hdeltas', htext],
      by rw [hresponses, hresponses', h]⟩

/-! ## Chunks and lines -/

/-- A stream handles its data lines in their order, all of them or up to a chunk in which it is
finished. -/
theorem ends_spec (chunks : List Bytes) {s : ActiveSse} (hdata : s.decoder.data = [])
    (hbuf : 10 ∉ s.decoder.buf) :
    ∃ taken rest,
      (drain 10 (s.decoder.buf ++ chunks.flatten)).1.filterMap (data_of rd) = taken ++ rest ∧
        Alike (ends rd chunks s) (taken.foldl (handle_data rd) s) ∧
        (rest = [] ∨ s.finished = true ∨ taken.any (finishes rd) = true) := by
  induction chunks generalizing s with
  | nil =>
    refine ⟨[], [], ?_, ⟨rfl, rfl, rfl, rfl⟩, Or.inl rfl⟩
    rw [List.flatten_nil, List.append_nil, drain_open hbuf]
    rfl
  | cons chunk chunks ih =>
    by_cases hfinished : s.finished = true
    · refine ⟨[], _, rfl, ?_, Or.inr (Or.inl hfinished)⟩
      rw [ends, if_pos hfinished]
      exact ⟨rfl, rfl, rfl, rfl⟩
    · obtain ⟨hdecoder, -⟩ :=
        @fold_events rd { s with decoder := ⟨(drain 10 (s.decoder.buf ++ chunk)).2, []⟩ }
          ((drain 10 (s.decoder.buf ++ chunk)).1.filterMap (data_of rd))
      have hlines := @absorb_eq rd s hdata chunk
      have hopen := (drain_spec 10 (s.decoder.buf ++ chunk)).2.2
      rw [← hlines] at hdecoder
      obtain ⟨taken, rest, hsplit, halike, hwhy⟩ :=
        @ih { absorb rd s chunk with events := [] } (by rw [hdecoder]) (by rw [hdecoder]; exact hopen)
      rw [hdecoder] at hsplit
      refine ⟨(drain 10 (s.decoder.buf ++ chunk)).1.filterMap (data_of rd) ++ taken, rest, ?_, ?_, ?_⟩
      · rw [List.flatten_cons, ← List.append_assoc, drain_append, List.filterMap_append, hsplit,
          List.append_assoc]
      · rw [ends, if_neg hfinished, List.foldl_append]
        have hstart : Alike { absorb rd s chunk with events := [] }
            (((drain 10 (s.decoder.buf ++ chunk)).1.filterMap (data_of rd)).foldl
              (handle_data rd) s) := by
          rw [hlines]
          have hsame : Alike { s with decoder := ⟨(drain 10 (s.decoder.buf ++ chunk)).2, []⟩ } s :=
            ⟨rfl, rfl, rfl, rfl⟩
          exact hsame.fold _
        obtain ⟨htext, hmodel, husage, hdone⟩ := halike
        obtain ⟨htext', hmodel', husage', hdone'⟩ := @Alike.fold rd _ _ hstart taken
        exact ⟨htext.trans htext', hmodel.trans hmodel', husage.trans husage', hdone.trans hdone'⟩
      · rcases hwhy with hnil | hdone | htaken
        · exact Or.inl hnil
        · right
          right
          dsimp only at hdone
          rw [hlines, finished_fold] at hdone
          simp only [hfinished, Bool.false_or] at hdone
          rw [List.any_append, hdone, Bool.true_or]
        · right
          right
          rw [List.any_append, htaken, Bool.or_true]

/-- A chunk that ends behind a data line which finishes the stream is the last that is read. -/
theorem ends_at {bytes : Bytes} {before behind : List String}
    (h : data_lines rd bytes = before ++ behind) (hdone : before.any (finishes rd) = true) :
    ∃ chunks : List Bytes, chunks.flatten = bytes ∧
      into_response rd (ends rd chunks fresh) = response_after rd before := by
  obtain ⟨hbytes, hfree, -⟩ := drain_spec 10 bytes
  obtain ⟨front, back, hlines, rfl, -⟩ := List.filterMap_eq_append_iff.mp h
  have hfront : ∀ out ∈ front, 10 ∉ out := by
    intro out hout
    apply hfree
    rw [hlines]
    exact List.mem_append_left _ hout
  have hdrain : drain 10 (fresh.decoder.buf ++ wire 10 front) = (front, []) := by
    have hempty := drain_wire hfront []
    simpa [fresh] using hempty
  have habsorb : absorb rd fresh (wire 10 front) = after rd (front.filterMap (data_of rd)) := by
    rw [absorb_eq rfl, hdrain]
    rfl
  refine ⟨[wire 10 front, wire 10 back ++ (drain 10 bytes).2], ?_, ?_⟩
  · conv_rhs => rw [hbytes, hlines, wire_append]
    simp
  · have hfinished : (after rd (front.filterMap (data_of rd))).finished = true := by
      rw [after, finished_fold, hdone, Bool.or_true]
    have hfresh : ¬ fresh.finished = true := by decide
    rw [ends, if_neg hfresh, habsorb, ends, if_pos hfinished]
    exact Alike.response ⟨rfl, rfl, rfl, rfl⟩

/-- All ways of splitting the bytes give the same deltas and the same response, if and only if the data
lines behind one that finishes the stream add nothing. -/
theorem splits_agree_iff (rd : Readers) (bytes : Bytes) :
    (∀ chunks chunks' : List Bytes, chunks.flatten = bytes → chunks'.flatten = bytes →
      SameStream rd chunks chunks') ↔ Settled rd bytes := by
  constructor
  · intro h before data behind hlines hfinishes
    have hdone : before.any (finishes rd) = true := List.any_eq_true.mpr hfinishes
    have hdone' : (before ++ [data]).any (finishes rd) = true := by
      rw [List.any_append, hdone, Bool.true_or]
    have hlines' : data_lines rd bytes = (before ++ [data]) ++ behind := by
      rw [hlines, List.append_assoc]
      rfl
    obtain ⟨chunks, hflat, hresponse⟩ := ends_at hlines hdone
    obtain ⟨chunks', hflat', hresponse'⟩ := ends_at hlines' hdone'
    have hsame := (same_stream_iff chunks chunks').mp (h chunks chunks' hflat hflat')
    rw [hresponse, hresponse'] at hsame
    exact (idle_iff before data).mp hsame.symm
  · intro hsettled
    have hwhole : ∀ chunks : List Bytes, chunks.flatten = bytes →
        into_response rd (ends rd chunks fresh) = response_after rd (data_lines rd bytes) := by
      intro chunks hflat
      have hempty : (10 : UInt8) ∉ fresh.decoder.buf := by
        simp [fresh]
      obtain ⟨taken, rest, hsplit, halike, hwhy⟩ := @ends_spec rd chunks fresh rfl hempty
      have hlines : data_lines rd bytes = taken ++ rest := by
        rw [← hflat]
        exact hsplit
      rw [halike.response, hlines]
      rcases hwhy with rfl | hdone | hdone
      · rw [List.append_nil]
        rfl
      · cases hdone
      · refine (response_of_idle (fun before d behind hrest => ?_)).symm
        refine hsettled (taken ++ before) d behind ?_ ?_
        · rw [hlines, hrest, List.append_assoc]
        · obtain ⟨d', hd', hfinishes⟩ := List.any_eq_true.mp hdone
          exact ⟨d', List.mem_append_left _ hd', hfinishes⟩
    intro chunks chunks' hflat hflat'
    rw [same_stream_iff, hwhole chunks hflat, hwhole chunks' hflat']

def stop_event : String := "\x7b\"choices\":[\x7b\"finish_reason\":\"stop\"\x7d]\x7d"

def usage_event : String := "\x7b\"choices\":[],\"usage\":\x7b\"prompt_tokens\":7\x7d\x7d"

/-- Readers for ASCII and for these two events. -/
def two_events : Readers where
  from_utf8_lossy b := b.map (fun c => Char.ofNat c.toNat)
  from_str data :=
    if data = stop_event then
      some (.object [("choices", .array [.object [("finish_reason", .string "stop")]])])
    else if data = usage_event then
      some (.object [("choices", .array []),
        ("usage", .object [("prompt_tokens", .number (.PosInt 7))])])
    else none
  parse_action _ := none

def event_line (event : String) : Bytes := utf8 ("data: " ++ event ++ "\n\n")

/-- The counts of tokens come behind the event that finishes the stream: in the same chunk they are
read, and in the next one they are lost. -/
theorem counts_in_the_next_chunk :
    ¬ ∀ chunks chunks' : List Bytes,
      chunks.flatten = event_line stop_event ++ event_line usage_event →
      chunks'.flatten = event_line stop_event ++ event_line usage_event →
      SameStream two_events chunks chunks' := by
  intro h
  have hsame := h [event_line stop_event ++ event_line usage_event]
    [event_line stop_event, event_line usage_event] (by simp) (by simp)
  rw [same_stream_iff] at hsame
  revert hsame
  decide +kernel

end pai_inference
