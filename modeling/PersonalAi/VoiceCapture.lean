-- The microphone (the voice crate): the two gates that take frames until the speaker is silent, and
-- the loops that cut the buffers of the device into frames. The law says when both give what was
-- said.
import Mathlib.Data.List.DropRight
import PersonalAi.Core
import PersonalAi.Lib.Blocks

open blocks

namespace pai_voice

/-! ## The gates -/

def FRAME_MS : Nat := 30

/-- Frames of silence behind speech that end an utterance. -/
def SILENCE_LIMIT : Nat := 25

/-- Frames that are kept from before the speech. -/
def PRE_ROLL : Nat := 10

abbrev Pcm := List Int16

structure UtteranceGate where
  pre_roll : List Pcm
  out : Pcm
  heard : Bool
  silent : Nat
deriving DecidableEq

def UtteranceGate.new : UtteranceGate := { pre_roll := [], out := [], heard := false, silent := 0 }

/-- `push_back`, and `pop_front` where there are too many. -/
def push_roll (pre_roll : List Pcm) (frame : Pcm) : List Pcm :=
  if (pre_roll ++ [frame]).length > PRE_ROLL then (pre_roll ++ [frame]).drop 1
  else pre_roll ++ [frame]

namespace UtteranceGate

/-- Whether the utterance is complete, and the gate behind the frame. -/
def feed (g : UtteranceGate) (frame : Pcm) (speech : Bool) : Bool × UtteranceGate :=
  if speech then
    let g :=
      if !g.heard then { g with heard := true, out := g.out ++ g.pre_roll.flatten, pre_roll := [] }
      else g
    (false, { g with out := g.out ++ frame, silent := 0 })
  else if g.heard then
    (decide (g.silent + 1 > SILENCE_LIMIT), { g with silent := g.silent + 1 })
  else (false, { g with pre_roll := push_roll g.pre_roll frame })

def pcm (g : UtteranceGate) : Pcm := g.out

def heard_speech (g : UtteranceGate) : Bool := g.heard

end UtteranceGate

/-- Frames of a pause that close a segment. -/
def SEG_SILENCE : Nat := 13

inductive GateEvent
  | Continue
  | Segment
  | Done
deriving DecidableEq

structure SegmentGate where
  pre_roll : List Pcm
  seg : Pcm
  heard : Bool
  silent : Nat
  emitted : Bool
deriving DecidableEq

def SegmentGate.new : SegmentGate :=
  { pre_roll := [], seg := [], heard := false, silent := 0, emitted := false }

namespace SegmentGate

def feed (g : SegmentGate) (frame : Pcm) (speech : Bool) : GateEvent × SegmentGate :=
  if speech then
    let g :=
      if !g.heard then { g with heard := true, seg := g.seg ++ g.pre_roll.flatten, pre_roll := [] }
      else g
    (.Continue, { g with seg := g.seg ++ frame, silent := 0, emitted := false })
  else if g.heard then
    let g := { g with silent := g.silent + 1, seg := g.seg ++ frame }
    if g.silent > SILENCE_LIMIT then (.Done, g)
    else if g.silent = SEG_SILENCE && !g.emitted then (.Segment, { g with emitted := true })
    else (.Continue, g)
  else (.Continue, { g with pre_roll := push_roll g.pre_roll frame })

def take_segment (g : SegmentGate) : Pcm × SegmentGate := (g.seg, { g with seg := [] })

def heard_speech (g : SegmentGate) : Bool := g.heard

end SegmentGate

/-! ## The loops -/

/-- A frame, and what the detector says of it. -/
abbrev Flagged := Pcm × Bool

/-- The state of a loop: the samples that make no frame yet, the detector, and what the loop keeps.
`fed` is a note of the model: the frames that were fed. -/
structure Mic (σ ν γ : Type) where
  mono : List σ
  vad : ν
  gate : γ
  fed : List Flagged

section Loop
variable {σ ν γ : Type} (frame_len : Nat) (quantise : σ → Int16) (is_speech : ν → Pcm → Bool × ν)
  (body : γ → Pcm → Bool → γ) (done : γ → Bool)

/-- One turn of the inner loop. -/
def hear (s : Mic σ ν γ) (samples : List σ) : Mic σ ν γ :=
  let frame := samples.map quantise
  let (speech, vad) := is_speech s.vad frame
  { s with vad, gate := body s.gate frame speech, fed := s.fed ++ [(frame, speech)] }

/-- `while mono.len() >= frame_len`, which does not end where a frame has no samples. -/
def take_frames (s : Mic σ ν γ) : Option (Mic σ ν γ) :=
  if frame_len = 0 then none
  else
    some ((drain frame_len s.mono).1.foldl (hear quantise is_speech body)
      { s with mono := (drain frame_len s.mono).2 })

/-- The outer loop over the buffers that come before the deadline, mixed down to one channel. -/
def capture : Mic σ ν γ → List (List σ) → Option (Mic σ ν γ)
  | s, [] => some s
  | s, chunk :: rest =>
    if done s.gate then some s
    else
      (take_frames frame_len quantise is_speech body { s with mono := s.mono ++ chunk }).bind
        fun s => capture s rest

end Loop

section Captures
variable {σ ν : Type} (src_rate : Nat) (quantise : σ → Int16) (is_speech : ν → Pcm → Bool × ν)

def frame_len : Nat := src_rate * FRAME_MS / 1000

/-- What `capture_utterance_inner` keeps: the gate, and whether the last frame ended it. -/
structure Utterance where
  gate : UtteranceGate
  done : Bool
deriving DecidableEq

def Utterance.body (u : Utterance) (frame : Pcm) (speech : Bool) : Utterance :=
  { gate := (u.gate.feed frame speech).2, done := (u.gate.feed frame speech).1 }

def utterance_loop (vad : ν) (chunks : List (List σ)) : Option (Mic σ ν Utterance) :=
  capture (frame_len src_rate) quantise is_speech Utterance.body Utterance.done
    { mono := [], vad, gate := { gate := .new, done := false }, fed := [] } chunks

/-- `resample` goes from the rate of the device to the target rate. -/
def capture_utterance_inner (resample : Pcm → Pcm) (vad : ν) (chunks : List (List σ)) :
    Option Pcm :=
  (utterance_loop src_rate quantise is_speech vad chunks).map fun s =>
    if !s.gate.gate.heard_speech then [] else resample s.gate.gate.pcm

/-- What `capture_segmented_inner` keeps: the gate, and the segments that were taken from it. -/
structure Segmented where
  gate : SegmentGate
  segments : List Pcm
  done : Bool
deriving DecidableEq

def Segmented.body (u : Segmented) (frame : Pcm) (speech : Bool) : Segmented :=
  match u.gate.feed frame speech with
  | (.Segment, g) =>
    { u with gate := g.take_segment.2, segments := u.segments ++ [g.take_segment.1] }
  | (.Done, g) =>
    { gate := g.take_segment.2, segments := u.segments ++ [g.take_segment.1], done := true }
  | (.Continue, g) => { u with gate := g }

def segmented_loop (vad : ν) (chunks : List (List σ)) : Option (Mic σ ν Segmented) :=
  capture (frame_len src_rate) quantise is_speech Segmented.body Segmented.done
    { mono := [], vad, gate := { gate := .new, segments := [], done := false }, fed := [] } chunks

/-- The segments, with what is still in the gate at the end. -/
def Segmented.flushed (u : Segmented) : List Pcm :=
  if u.gate.heard_speech && !u.gate.take_segment.1.isEmpty then u.segments ++ [u.gate.take_segment.1]
  else u.segments

/-- The result, and what `on_segment` is called with. -/
def capture_segmented_inner (resample : Pcm → Pcm) (vad : ν) (chunks : List (List σ)) :
    Option (Pcm × List Pcm) :=
  (segmented_loop src_rate quantise is_speech vad chunks).map fun s =>
    (if !s.gate.gate.heard_speech then [] else s.gate.flushed.flatMap resample,
      s.gate.flushed.map resample)

/-! ## What is wanted -/

/-- What the detector says of these frames, one after another. -/
def flagged : ν → List Pcm → List Flagged
  | _, [] => []
  | vad, frame :: rest => (frame, (is_speech vad frame).1) :: flagged (is_speech vad frame).2 rest

/-- All frames of the input. -/
def heard_frames (vad : ν) (chunks : List (List σ)) : List Flagged :=
  flagged is_speech vad ((drain (frame_len src_rate) chunks.flatten).1.map (·.map quantise))

end Captures

/-- Up to and with the frame that makes the silence too long. -/
def until_silence : Nat → List Flagged → List Flagged
  | _, [] => []
  | silent, f :: rest =>
    if f.2 then f :: until_silence 0 rest
    else if silent + 1 > SILENCE_LIMIT then [f]
    else f :: until_silence (silent + 1) rest

/-- The frames before the first one with speech. -/
def before (frames : List Flagged) : List Flagged := frames.takeWhile (fun f => !f.2)

/-- The frames from the first one with speech. -/
def spoken (frames : List Flagged) : List Flagged := frames.dropWhile (fun f => !f.2)

def samples (frames : List Flagged) : Pcm := frames.flatMap (·.1)

/-- The utterance in these frames: nothing without speech. -/
def utterance (frames : List Flagged) : Pcm :=
  if spoken frames = [] then []
  else samples ((before frames).rtake PRE_ROLL ++ until_silence 0 (spoken frames))

/-- The frames up to the end of the utterance. -/
def to_the_end (frames : List Flagged) : List Flagged :=
  before frames ++ until_silence 0 (spoken frames)

section Law
variable {σ ν : Type} (src_rate : Nat) (quantise : σ → Int16) (is_speech : ν → Pcm → Bool × ν)

/-- Both loops end, both keep the utterance, and both have stopped with its last frame. -/
def Keeps (vad : ν) (chunks : List (List σ)) : Prop :=
  ∃ u s, utterance_loop src_rate quantise is_speech vad chunks = some u ∧
    segmented_loop src_rate quantise is_speech vad chunks = some s ∧
    u.gate.gate.pcm = utterance (heard_frames src_rate quantise is_speech vad chunks) ∧
    s.gate.flushed.flatten = utterance (heard_frames src_rate quantise is_speech vad chunks) ∧
    u.fed = to_the_end (heard_frames src_rate quantise is_speech vad chunks) ∧
    s.fed = to_the_end (heard_frames src_rate quantise is_speech vad chunks)

/-- The speaker makes no pause, and a frame has samples. -/
def Unbroken (vad : ν) (chunks : List (List σ)) : Prop :=
  chunks = [] ∨ frame_len src_rate ≠ 0 ∧
    ∀ f ∈ spoken (heard_frames src_rate quantise is_speech vad chunks), f.2 = true

end Law

/-! ## The loop -/

section Loop
variable {σ ν γ : Type} {n : Nat} {quantise : σ → Int16} {is_speech : ν → Pcm → Bool × ν}
  {body : γ → Pcm → Bool → γ} {done : γ → Bool}

/-- The gate behind these frames. -/
def gate_after (body : γ → Pcm → Bool → γ) (g : γ) (frames : List Flagged) : γ :=
  frames.foldl (fun g f => body g f.1 f.2) g

@[simp] theorem gate_after_nil (g : γ) : gate_after body g [] = g := rfl

@[simp] theorem gate_after_cons (g : γ) (f : Flagged) (frames : List Flagged) :
    gate_after body g (f :: frames) = gate_after body (body g f.1 f.2) frames := rfl

@[simp] theorem gate_after_append (g : γ) (frames rest : List Flagged) :
    gate_after body g (frames ++ rest) = gate_after body (gate_after body g frames) rest :=
  List.foldl_append

/-- The detector behind these frames. -/
def vad_after (is_speech : ν → Pcm → Bool × ν) (vad : ν) (frames : List Pcm) : ν :=
  frames.foldl (fun vad frame => (is_speech vad frame).2) vad

theorem flagged_append (vad : ν) (frames rest : List Pcm) :
    flagged is_speech vad (frames ++ rest) =
      flagged is_speech vad frames ++ flagged is_speech (vad_after is_speech vad frames) rest := by
  induction frames generalizing vad with
  | nil => rfl
  | cons frame frames ih =>
    rw [List.cons_append, flagged, flagged, ih, List.cons_append]
    rfl

/-- The frames that a loop feeds, one after another. -/
theorem foldl_hear (s : Mic σ ν γ) (blocks : List (List σ)) :
    blocks.foldl (hear quantise is_speech body) s =
      { mono := s.mono
        vad := vad_after is_speech s.vad (blocks.map (·.map quantise))
        gate := gate_after body s.gate (flagged is_speech s.vad (blocks.map (·.map quantise)))
        fed := s.fed ++ flagged is_speech s.vad (blocks.map (·.map quantise)) } := by
  induction blocks generalizing s with
  | nil => simp [flagged, vad_after]
  | cons block blocks ih =>
    rw [List.foldl_cons, ih, List.map_cons, flagged]
    simp [hear, vad_after]

/-- The loop ends, and has fed the first of the frames: all of them, or up to where it was done. -/
theorem capture_spec (hn : n ≠ 0) (chunks : List (List σ)) (s : Mic σ ν γ)
    (hrest : drain n s.mono = ([], s.mono)) :
    ∃ s' fed rest, capture n quantise is_speech body done s chunks = some s' ∧
      flagged is_speech s.vad ((drain n (s.mono ++ chunks.flatten)).1.map (·.map quantise)) =
        fed ++ rest ∧
      s'.fed = s.fed ++ fed ∧ s'.gate = gate_after body s.gate fed ∧
      (rest = [] ∨ done s'.gate = true) := by
  have hpos : 0 < n := Nat.pos_of_ne_zero hn
  induction chunks generalizing s with
  | nil =>
    refine ⟨s, [], [], rfl, ?_, by simp, rfl, .inl rfl⟩
    rw [List.flatten_nil, List.append_nil, hrest]
    rfl
  | cons chunk chunks ih =>
    unfold capture
    by_cases hdone : done s.gate = true
    · rw [if_pos hdone]
      exact ⟨s, [], _, rfl, rfl, by simp, rfl, .inr hdone⟩
    · rw [if_neg hdone, take_frames, if_neg hn, foldl_hear, Option.bind_some]
      obtain ⟨s', fed, rest, hrun, hframes, hfed, hgate, hend⟩ := ih
        { mono := (drain n (s.mono ++ chunk)).2
          vad := vad_after is_speech s.vad ((drain n (s.mono ++ chunk)).1.map (·.map quantise))
          gate := gate_after body s.gate
            (flagged is_speech s.vad ((drain n (s.mono ++ chunk)).1.map (·.map quantise)))
          fed := s.fed ++
            flagged is_speech s.vad ((drain n (s.mono ++ chunk)).1.map (·.map quantise)) }
        (drain_rest hpos _)
      refine ⟨s', _, rest, hrun, ?_, hfed.trans (List.append_assoc _ _ _),
        hgate.trans (gate_after_append _ _ _).symm, hend⟩
      rw [List.flatten_cons, ← List.append_assoc, drain_append hpos (s.mono ++ chunk), List.map_append,
        flagged_append, hframes, List.append_assoc]

/-- A frame without samples is cut forever. -/
theorem capture_stuck {s : Mic σ ν γ} (hdone : done s.gate = false) (chunk : List σ)
    (chunks : List (List σ)) :
    capture 0 quantise is_speech body done s (chunk :: chunks) = none := by
  rw [capture, if_neg (by simp [hdone]), take_frames, if_pos rfl]
  rfl

end Loop

/-! ## Frames -/

section Frames
variable {frames rest : List Flagged}

theorem samples_append (a b : List Flagged) : samples (a ++ b) = samples a ++ samples b :=
  List.flatMap_append

theorem before_spoken (frames : List Flagged) : before frames ++ spoken frames = frames :=
  List.takeWhile_append_dropWhile

theorem before_quiet : ∀ f ∈ before frames, f.2 = false := by
  intro f hf
  simpa using List.mem_takeWhile_imp hf

theorem spoken_head {f : Flagged} (h : spoken frames = f :: rest) : f.2 = true := by
  have hne : spoken frames ≠ [] := by simp [h]
  have hhead := List.head_dropWhile_not (fun f : Flagged => !f.2) hne
  change (!((spoken frames).head hne).2) = false at hhead
  simpa [h] using hhead

theorem until_silence_loud (silent : Nat) (h : ∀ f ∈ frames, f.2 = true) :
    until_silence silent frames = frames := by
  induction frames generalizing silent with
  | nil => rfl
  | cons f frames ih =>
    rw [List.forall_mem_cons] at h
    rw [until_silence, if_pos h.1, ih 0 h.2]

/-- The first pause is in the utterance. -/
theorem loud_of_until_silence {silent : Nat} (h : ∀ f ∈ until_silence silent frames, f.2 = true) :
    ∀ f ∈ frames, f.2 = true := by
  induction frames generalizing silent with
  | nil => simp
  | cons f frames ih =>
    unfold until_silence at h
    split at h
    · rw [List.forall_mem_cons] at h ⊢
      exact ⟨h.1, ih h.2⟩
    · rename_i hquiet
      split at h
      · exact (hquiet (h f List.mem_cons_self)).elim
      · exact (hquiet (h f List.mem_cons_self)).elim

theorem until_silence_subset (silent : Nat) : until_silence silent frames ⊆ frames := by
  induction frames generalizing silent with
  | nil => simp [until_silence]
  | cons f frames ih =>
    unfold until_silence
    split
    · exact List.cons_subset_cons f (ih 0)
    · split
      · exact List.cons_subset.mpr ⟨List.mem_cons_self, List.nil_subset _⟩
      · exact List.cons_subset_cons f (ih _)

/-- What stops at the end of the utterance begins in the same way. -/
theorem to_the_end_split (frames : List Flagged) :
    before (to_the_end frames) = before frames ∧
      spoken (to_the_end frames) = until_silence 0 (spoken frames) := by
  have hquiet : ∀ f ∈ before frames, (fun f : Flagged => !f.2) f = true := by
    intro f hf
    simpa using before_quiet f hf
  rcases hspoken : spoken frames with _ | ⟨f, rest⟩
  · have hall : to_the_end frames = before frames := by
      rw [to_the_end, hspoken]
      simp [until_silence]
    rw [hall]
    exact ⟨List.takeWhile_eq_self_iff.mpr hquiet, List.dropWhile_eq_nil_iff.mpr hquiet⟩
  · have hf : f.2 = true := spoken_head hspoken
    have hend : to_the_end frames = before frames ++ until_silence 0 (f :: rest) := by
      rw [to_the_end, hspoken]
    rw [hend]
    refine ⟨?_, ?_⟩
    · rw [before, List.takeWhile_append_of_pos hquiet, until_silence, if_pos hf,
        List.takeWhile_cons_of_neg (by simp [hf]), List.append_nil]
    · rw [spoken, List.dropWhile_append_of_pos hquiet, until_silence, if_pos hf,
        List.dropWhile_cons_of_neg (by simp [hf])]

/-- The last frames before the speech, as the gates keep them. -/
theorem foldl_push_roll (frames : List Flagged) :
    frames.foldl (fun roll f => push_roll roll f.1) [] = (frames.map (·.1)).rtake PRE_ROLL := by
  induction frames using List.reverseRecOn with
  | nil => simp
  | append_singleton frames f ih =>
    rw [List.foldl_append, List.foldl_cons, List.foldl_nil, ih, push_roll, List.map_append,
      List.map_singleton]
    simp only [List.rtake, List.length_append, List.length_singleton, List.length_drop]
    split
    · rename_i hfull
      rw [← List.drop_append_of_le_length (by omega), List.drop_drop]
      congr 1
      omega
    · rename_i hshort
      have hle : (frames.map (·.1)).length + 1 ≤ PRE_ROLL := by omega
      rw [Nat.sub_eq_zero_of_le hle, Nat.sub_eq_zero_of_le (by omega)]
      rfl

end Frames

/-! ## The gates on their frames -/

section Gates
variable {frames : List Flagged}

/-- Before the speech, a gate that pushes each frame into its roll keeps the last frames only. -/
theorem gate_after_quiet {γ : Type} {body : γ → Pcm → Bool → γ} {rolling : List Pcm → γ}
    (hstep : ∀ roll frame, body (rolling roll) frame false = rolling (push_roll roll frame))
    (h : ∀ f ∈ frames, f.2 = false) :
    gate_after body (rolling []) frames = rolling ((frames.map (·.1)).rtake PRE_ROLL) := by
  have hfold (roll : List Pcm) : gate_after body (rolling roll) frames =
      rolling (frames.foldl (fun roll f => push_roll roll f.1) roll) := by
    induction frames generalizing roll with
    | nil => rfl
    | cons f frames ih =>
      rw [List.forall_mem_cons] at h
      rw [gate_after_cons, h.1, hstep]
      exact ih h.2 _
  rw [hfold, foldl_push_roll]

/-- What every frame with speech keeps. -/
theorem gate_after_loud {γ : Type} {body : γ → Pcm → Bool → γ} {P : γ → Prop}
    (hstep : ∀ g frame, P g → P (body g frame true)) (h : ∀ f ∈ frames, f.2 = true) {g : γ}
    (hg : P g) : P (gate_after body g frames) := by
  induction frames generalizing g with
  | nil => exact hg
  | cons f frames ih =>
    rw [List.forall_mem_cons] at h
    rw [gate_after_cons, h.1]
    exact ih h.2 (hstep g f.1 hg)

/-- The gate behind all frames is the gate behind those with speech, from the roll before them. -/
theorem gate_after_split {γ : Type} {body : γ → Pcm → Bool → γ} {rolling : List Pcm → γ}
    (hstep : ∀ roll frame, body (rolling roll) frame false = rolling (push_roll roll frame))
    (frames : List Flagged) :
    gate_after body (rolling []) frames =
      gate_after body (rolling (((before frames).rtake PRE_ROLL).map (·.1))) (spoken frames) := by
  have hroll : ((before frames).map (·.1)).rtake PRE_ROLL =
      ((before frames).rtake PRE_ROLL).map (·.1) := by simp [List.rtake]
  calc gate_after body (rolling []) frames
      = gate_after body (gate_after body (rolling []) (before frames)) (spoken frames) := by
        rw [← gate_after_append, before_spoken]
    _ = _ := by rw [gate_after_quiet hstep before_quiet, hroll]

/-! ## The gate of an utterance -/

/-- The gate before the speech. -/
def Utterance.rolling (pre_roll : List Pcm) : Utterance := ⟨{ UtteranceGate.new with pre_roll }, false⟩

theorem utterance_quiet (roll : List Pcm) (frame : Pcm) :
    (Utterance.rolling roll).body frame false = .rolling (push_roll roll frame) := rfl

/-- Behind the first frame with speech, it keeps the frames with speech. -/
theorem utterance_heard (frames : List Flagged) (u : Utterance) (hu : u.gate.heard = true) :
    (gate_after Utterance.body u frames).gate.out =
      u.gate.out ++ samples (frames.filter (·.2)) := by
  induction frames generalizing u with
  | nil => simp [samples]
  | cons f frames ih =>
    rw [gate_after_cons, ih]
    all_goals
      rcases hf : f.2 with _ | _
      · simp [Utterance.body, UtteranceGate.feed, hu, samples, hf]
      · simp [Utterance.body, UtteranceGate.feed, hu, samples, hf]

theorem utterance_loud (u : Utterance) (frame : Pcm) : (u.body frame true).done = false := rfl

/-- What the gate has of these frames: the pauses are left out. -/
theorem utterance_pcm (frames : List Flagged) :
    (gate_after Utterance.body (.rolling []) frames).gate.pcm =
      if spoken frames = [] then []
      else samples ((before frames).rtake PRE_ROLL ++ (spoken frames).filter (·.2)) := by
  rw [gate_after_split utterance_quiet]
  rcases hspoken : spoken frames with _ | ⟨f, rest⟩
  · rfl
  · have hf : f.2 = true := spoken_head hspoken
    rw [if_neg (by simp), UtteranceGate.pcm, gate_after_cons, utterance_heard _ _ (by rw [hf]; rfl)]
    simp [Utterance.body, Utterance.rolling, UtteranceGate.feed, UtteranceGate.new, hf, samples,
      List.flatMap_def]

/-! ## The gate of segments -/

/-- The gate before the speech. -/
def Segmented.rolling (pre_roll : List Pcm) : Segmented :=
  ⟨{ SegmentGate.new with pre_roll }, [], false⟩

theorem segmented_quiet (roll : List Pcm) (frame : Pcm) :
    (Segmented.rolling roll).body frame false = .rolling (push_roll roll frame) := rfl

theorem segmented_loud (u : Segmented) (frame : Pcm) (hu : u.done = false) :
    (u.body frame true).done = false := by
  simpa [Segmented.body, SegmentGate.feed] using hu

/-- The segments that were taken, and what is in the gate. -/
def Segmented.kept (u : Segmented) : Pcm := u.segments.flatten ++ u.gate.seg

theorem segment_feed (g : SegmentGate) (hg : g.heard = true) (frame : Pcm) (speech : Bool) :
    (g.feed frame speech).2.heard = true ∧ (g.feed frame speech).2.seg = g.seg ++ frame := by
  unfold SegmentGate.feed
  rcases speech with _ | _
  · simp only [hg, Bool.false_eq_true, if_false, if_true]
    split
    · exact ⟨rfl, rfl⟩
    · split
      · exact ⟨rfl, rfl⟩
      · exact ⟨rfl, rfl⟩
  · simp [hg]

/-- A frame behind the first speech is kept, whichever event it makes. -/
theorem segmented_body (u : Segmented) (hu : u.gate.heard = true) (frame : Pcm) (speech : Bool) :
    (u.body frame speech).gate.heard = true ∧ (u.body frame speech).kept = u.kept ++ frame := by
  obtain ⟨hheard, hseg⟩ := segment_feed u.gate hu frame speech
  unfold Segmented.body
  rcases hevent : u.gate.feed frame speech with ⟨event, g⟩
  rw [hevent] at hheard hseg
  change g.heard = true at hheard
  change g.seg = _ at hseg
  cases event with
  | Continue => simp [Segmented.kept, hheard, hseg]
  | Segment => simp [Segmented.kept, SegmentGate.take_segment, hheard, hseg]
  | Done => simp [Segmented.kept, SegmentGate.take_segment, hheard, hseg]

theorem segmented_heard (frames : List Flagged) (u : Segmented) (hu : u.gate.heard = true) :
    (gate_after Segmented.body u frames).gate.heard = true ∧
      (gate_after Segmented.body u frames).kept = u.kept ++ samples frames := by
  induction frames generalizing u with
  | nil => simpa [samples] using hu
  | cons f frames ih =>
    obtain ⟨hheard, hkept⟩ := segmented_body u hu f.1 f.2
    obtain ⟨hheard', hkept'⟩ := ih _ hheard
    refine ⟨hheard', ?_⟩
    rw [gate_after_cons, hkept', hkept, List.append_assoc]
    rfl

theorem flushed_flatten {u : Segmented} (hu : u.gate.heard = true) : u.flushed.flatten = u.kept := by
  unfold Segmented.flushed Segmented.kept
  rcases hseg : u.gate.seg with _ | ⟨x, seg⟩
  · simp [SegmentGate.take_segment, hseg]
  · simp [SegmentGate.take_segment, SegmentGate.heard_speech, hseg, hu]

/-- What the segments hold of these frames: all of them from the speech on. -/
theorem segmented_flushed (frames : List Flagged) :
    (gate_after Segmented.body (.rolling []) frames).flushed.flatten =
      if spoken frames = [] then []
      else samples ((before frames).rtake PRE_ROLL ++ spoken frames) := by
  rw [gate_after_split segmented_quiet]
  rcases hspoken : spoken frames with _ | ⟨f, rest⟩
  · rfl
  · have hf : f.2 = true := spoken_head hspoken
    obtain ⟨hheard, hkept⟩ := segmented_heard rest
      ((Segmented.rolling (((before frames).rtake PRE_ROLL).map (·.1))).body f.1 f.2) (by rw [hf]; rfl)
    rw [if_neg (by simp), gate_after_cons, flushed_flatten hheard, hkept]
    simp [Segmented.body, Segmented.kept, Segmented.rolling, SegmentGate.feed, SegmentGate.new, hf,
      samples, List.flatMap_def]

end Gates

/-! ## What was said -/

section Law
variable {σ ν : Type} {src_rate : Nat} {quantise : σ → Int16} {is_speech : ν → Pcm → Bool × ν}

theorem flagged_frames (vad : ν) (frames : List Pcm) :
    (flagged is_speech vad frames).map (·.1) = frames := by
  induction frames generalizing vad with
  | nil => rfl
  | cons frame frames ih => rw [flagged, List.map_cons, ih]

/-- A frame has samples. -/
theorem heard_frames_ne_nil (hn : frame_len src_rate ≠ 0) (vad : ν) (chunks : List (List σ)) :
    ∀ f ∈ heard_frames src_rate quantise is_speech vad chunks, f.1 ≠ [] := by
  intro f hf
  have hmem := List.mem_map_of_mem (f := (·.1)) hf
  rw [heard_frames, flagged_frames] at hmem
  obtain ⟨block, hblock, heq⟩ := List.mem_map.mp hmem
  have hlen := (drain_cuts (Nat.pos_of_ne_zero hn) chunks.flatten).full block hblock
  rintro hnil
  rw [hnil, List.map_eq_nil_iff] at heq
  rw [heq] at hlen
  exact hn hlen.symm

theorem filter_samples_le (frames : List Flagged) :
    (samples (frames.filter (·.2))).length ≤ (samples frames).length := by
  induction frames with
  | nil => simp
  | cons f frames ih =>
    have hcons (frames : List Flagged) : samples (f :: frames) = f.1 ++ samples frames := rfl
    rw [List.filter_cons]
    split
    · rw [hcons, hcons, List.length_append, List.length_append]
      omega
    · rw [hcons, List.length_append]
      omega

/-- Leaving out a frame that has samples makes fewer samples. -/
theorem filter_samples {frames : List Flagged} (hne : ∀ f ∈ frames, f.1 ≠ [])
    (h : samples (frames.filter (·.2)) = samples frames) : ∀ f ∈ frames, f.2 = true := by
  induction frames with
  | nil => simp
  | cons f frames ih =>
    rw [List.forall_mem_cons] at hne ⊢
    rcases hf : f.2 with _ | _
    · have hlen := congrArg List.length h
      rw [List.filter_cons_of_neg (by simp [hf])] at hlen
      have hcons : samples (f :: frames) = f.1 ++ samples frames := rfl
      have hpos := List.length_pos_iff.mpr hne.1
      have hle := filter_samples_le frames
      rw [hcons, List.length_append] at hlen
      omega
    · refine ⟨rfl, ih hne.2 ?_⟩
      rw [List.filter_cons_of_pos hf] at h
      exact List.append_cancel_left h

/-- Up to the end of the utterance, the first gate has all of it only if there is no pause. -/
theorem unbroken_of_pcm {frames : List Flagged} (hne : ∀ f ∈ frames, f.1 ≠ [])
    (h : (gate_after Utterance.body (.rolling []) (to_the_end frames)).gate.pcm =
      utterance frames) : ∀ f ∈ spoken frames, f.2 = true := by
  obtain ⟨hbefore, hspoken⟩ := to_the_end_split frames
  rw [utterance_pcm, hbefore, hspoken] at h
  unfold utterance at h
  rcases hall : spoken frames with _ | ⟨f, rest⟩
  · simp
  · rw [hall] at h
    have hf : f.2 = true := spoken_head hall
    have hcons : until_silence 0 (f :: rest) ≠ [] := by simp [until_silence, hf]
    rw [if_neg hcons, if_neg (by simp), samples_append, samples_append] at h
    refine loud_of_until_silence (filter_samples ?_ (List.append_cancel_left h))
    intro g hg
    have hmem := until_silence_subset 0 hg
    rw [← hall] at hmem
    exact hne g (List.dropWhile_subset _ hmem)

/-- Without a pause, the utterance is everything from the roll on. -/
theorem utterance_of_unbroken {frames : List Flagged} (h : ∀ f ∈ spoken frames, f.2 = true) :
    to_the_end frames = frames ∧
      utterance frames = if spoken frames = [] then []
        else samples ((before frames).rtake PRE_ROLL ++ spoken frames) := by
  have huntil := until_silence_loud 0 h
  refine ⟨?_, ?_⟩
  · rw [to_the_end, huntil, before_spoken]
  · rw [utterance, huntil]

/-- Behind a part of frames without a pause, no gate is done. -/
theorem not_done {γ : Type} {body : γ → Pcm → Bool → γ} {rolling : List Pcm → γ} {done : γ → Bool}
    (hstep : ∀ roll frame, body (rolling roll) frame false = rolling (push_roll roll frame))
    (hloud : ∀ g frame, done g = false → done (body g frame true) = false)
    (hstart : ∀ roll, done (rolling roll) = false) {fed rest : List Flagged}
    (h : ∀ f ∈ spoken (fed ++ rest), f.2 = true) :
    done (gate_after body (rolling []) fed) = false := by
  rw [gate_after_split hstep]
  refine gate_after_loud (P := fun g => done g = false) hloud ?_ (hstart _)
  intro f hf
  apply h
  rw [spoken, List.dropWhile_append]
  split
  · rename_i hempty
    have hnil : spoken fed = [] := by simpa [spoken] using hempty
    rw [hnil] at hf
    exact (List.not_mem_nil hf).elim
  · exact List.mem_append_left _ hf

/-- A loop feeds all frames where the speaker makes no pause. -/
theorem capture_unbroken {γ : Type} {body : γ → Pcm → Bool → γ} {rolling : List Pcm → γ}
    {done : γ → Bool} (hn : frame_len src_rate ≠ 0)
    (hstep : ∀ roll frame, body (rolling roll) frame false = rolling (push_roll roll frame))
    (hloud : ∀ g frame, done g = false → done (body g frame true) = false)
    (hstart : ∀ roll, done (rolling roll) = false) (vad : ν) (chunks : List (List σ))
    (h : ∀ f ∈ spoken (heard_frames src_rate quantise is_speech vad chunks), f.2 = true) :
    ∃ s, capture (frame_len src_rate) quantise is_speech body done
        { mono := [], vad, gate := rolling [], fed := [] } chunks = some s ∧
      s.fed = heard_frames src_rate quantise is_speech vad chunks ∧
      s.gate = gate_after body (rolling []) (heard_frames src_rate quantise is_speech vad chunks) := by
  obtain ⟨s, fed, rest, hrun, hframes, hfed, hgate, hend⟩ := @capture_spec σ ν γ
    (frame_len src_rate) quantise is_speech body done hn chunks
    { mono := [], vad, gate := rolling [], fed := [] } rfl
  have hall : heard_frames src_rate quantise is_speech vad chunks = fed ++ rest := hframes
  rw [hall] at h ⊢
  have hnot : done s.gate = false := by
    rw [hgate]
    exact not_done hstep hloud hstart h
  obtain rfl := hend.resolve_right (by simp [hnot])
  rw [List.append_nil]
  exact ⟨s, hrun, hfed, hgate⟩

theorem keeps_of_unbroken {vad : ν} {chunks : List (List σ)}
    (h : Unbroken src_rate quantise is_speech vad chunks) :
    Keeps src_rate quantise is_speech vad chunks := by
  rcases h with rfl | ⟨hn, hloud⟩
  · exact ⟨_, _, rfl, rfl, rfl, rfl, rfl, rfl⟩
  · obtain ⟨u, hu, hfed, hgate⟩ := @capture_unbroken σ ν src_rate quantise is_speech Utterance
      Utterance.body Utterance.rolling Utterance.done hn utterance_quiet
      (fun u frame _ => utterance_loud u frame) (fun _ => rfl) vad chunks hloud
    obtain ⟨s, hs, hfed', hgate'⟩ := @capture_unbroken σ ν src_rate quantise is_speech Segmented
      Segmented.body Segmented.rolling Segmented.done hn segmented_quiet segmented_loud
      (fun _ => rfl) vad chunks hloud
    obtain ⟨hend, hutterance⟩ := utterance_of_unbroken hloud
    have hfilter : (spoken (heard_frames src_rate quantise is_speech vad chunks)).filter (·.2) =
        spoken (heard_frames src_rate quantise is_speech vad chunks) :=
      List.filter_eq_self.mpr hloud
    refine ⟨u, s, hu, hs, ?_, ?_, hfed.trans hend.symm, hfed'.trans hend.symm⟩
    · rw [hgate, utterance_pcm, hfilter, hutterance]
    · rw [hgate', segmented_flushed, hutterance]

theorem unbroken_of_keeps {vad : ν} {chunks : List (List σ)}
    (h : Keeps src_rate quantise is_speech vad chunks) :
    Unbroken src_rate quantise is_speech vad chunks := by
  obtain ⟨u, s, hu, -, hpcm, -, hfed, -⟩ := h
  rcases chunks with _ | ⟨chunk, chunks⟩
  · exact .inl rfl
  · right
    have hn : frame_len src_rate ≠ 0 := by
      intro hzero
      rw [utterance_loop, hzero, capture_stuck rfl] at hu
      cases hu
    refine ⟨hn, unbroken_of_pcm (heard_frames_ne_nil hn vad _) ?_⟩
    obtain ⟨u', fed, rest, hrun, -, hfed', hgate, -⟩ := @capture_spec σ ν Utterance
      (frame_len src_rate) quantise is_speech Utterance.body Utterance.done hn (chunk :: chunks)
      { mono := [], vad, gate := Utterance.rolling [], fed := [] } rfl
    obtain rfl : u' = u := Option.some.inj (hrun.symm.trans hu)
    obtain rfl : fed = to_the_end _ := hfed'.symm.trans hfed
    rw [← hpcm, hgate]

/-- Whatever the device sends, in whatever buffers: both loops keep the utterance and stop with its
last frame exactly where the speaker makes no pause. -/
theorem capture_keeps_iff (src_rate : Nat) (quantise : σ → Int16) (is_speech : ν → Pcm → Bool × ν)
    (vad : ν) (chunks : List (List σ)) :
    Keeps src_rate quantise is_speech vad chunks ↔ Unbroken src_rate quantise is_speech vad chunks :=
  ⟨unbroken_of_keeps, keeps_of_unbroken⟩

end Law

/-! ## A speaker who takes a breath -/

/-- A detector that gives these answers. -/
def answers (flags : List Bool) (_ : Pcm) : Bool × List Bool := (flags.head?.getD false, flags.tail)

/-- Three frames at 8 kHz in one buffer: speech, a breath, speech. -/
def breath : List Int16 := List.replicate 240 900 ++ List.replicate 240 1 ++ List.replicate 240 900

/-- The breath is missing in the utterance. -/
theorem a_breath_is_cut_out :
    ¬ Keeps 8000 id answers [true, false, true] [breath] ∧
      (capture_utterance_inner 8000 id answers id [true, false, true] [breath]).map List.length =
        some 480 ∧
      (utterance (heard_frames 8000 id answers [true, false, true] [breath])).length = 720 := by
  have hkept : (utterance_loop 8000 id answers [true, false, true] [breath]).map
      (fun u => u.gate.gate.pcm.length) = some 480 := by decide +kernel
  have hsaid : (utterance (heard_frames 8000 id answers [true, false, true] [breath])).length = 720 := by
    decide +kernel
  refine ⟨?_, by decide +kernel, hsaid⟩
  rintro ⟨u, s, hu, -, hpcm, -⟩
  rw [hu, Option.map_some, hpcm, hsaid] at hkept
  exact absurd hkept (by decide)

end pai_voice
