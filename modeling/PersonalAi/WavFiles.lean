-- WAV files (pai-voice's providers.rs and mic.rs): samples behind a header of 44 bytes, and the
-- reader that looks for its chunks. The law says when writing does not overflow, and that every
-- file that is written is read back, also with other chunks in it.
import Mathlib.Algebra.Group.Int.Defs
import PersonalAi.Core
import PersonalAi.Lib.Blocks
import PersonalAi.Lib.Riff

open pai_core riff text

namespace pai_voice.wav

/-! ## Checked steps -/

/-- No slice is longer than this. -/
def ISIZE_MAX : Nat := 2 ^ 63 - 1

/-- A sum of the type `usize`; `none` is a panic, here and in all that follows. -/
def usize (n : Nat) : Option Nat := if n < 2 ^ 64 then some n else none

def u32 (n : Nat) : Option UInt32 := if n < 2 ^ 32 then some (UInt32.ofNat n) else none

def i32 (n : Int) : Option Int := if -(2 ^ 31) ≤ n ∧ n < 2 ^ 31 then some n else none

/-- `&bytes[start..stop]`. -/
def slice (bytes : Bytes) (start stop : Nat) : Option Bytes :=
  if start ≤ stop ∧ stop ≤ bytes.length then some ((bytes.take stop).drop start) else none

/-- `from_le_bytes` of a slice that has to have that many bytes. -/
def from_le_bytes (k : Nat) (bytes : Bytes) : Option Nat :=
  if bytes.length = k then some (le_value bytes) else none

/-- `Vec::with_capacity`, of bytes. -/
def with_capacity (n : Nat) : Option Unit := if n ≤ ISIZE_MAX then some () else none

/-! ## The writer -/

/-- Samples of 16 bits, wrapped in a header. -/
def pcm16_to_wav (pcm : Bytes) (sample_rate : UInt32) : Option Bytes := do
  let data_len := UInt32.ofNat pcm.length
  let capacity ← usize (44 + pcm.length)
  with_capacity capacity
  let riff_len ← u32 (36 + data_len.toNat)
  let byte_rate ← u32 (sample_rate.toNat * 2)
  some (utf8 "RIFF" ++ le_bytes 4 riff_len.toNat ++ utf8 "WAVEfmt " ++ le_bytes 4 16 ++ le_bytes 2 1 ++
    le_bytes 2 1 ++ le_bytes 4 sample_rate.toNat ++ le_bytes 4 byte_rate.toNat ++ le_bytes 2 2 ++
    le_bytes 2 16 ++ utf8 "data" ++ le_bytes 4 data_len.toNat ++ pcm)

/-! ## The reader -/

/-- What the loop of the reader keeps. -/
structure Scan where
  rate : UInt32
  channels : Nat
  data : Option Bytes

def Scan.new : Scan := { rate := 0, channels := 1, data := none }

def read_chunk (s : Scan) (tag body : Bytes) : Option Scan :=
  if tag = utf8 "fmt " ∧ 16 ≤ body.length then do
    let channels ← (slice body 2 4).bind (from_le_bytes 2)
    let rate ← (slice body 4 8).bind (from_le_bytes 4)
    some { s with channels := channels, rate := UInt32.ofNat rate }
  else if tag = utf8 "data" then some { s with data := some body }
  else some s

/-- The loop over the chunks. A run that does not come to its end within the fuel is no result. -/
def scan (wav : Bytes) : Nat → Scan → Nat → Option Scan
  | 0, _, _ => none
  | fuel + 1, s, off => do
    let head ← usize (off + 8)
    if head ≤ wav.length then
      let tag ← slice wav off (off + 4)
      let size ← (slice wav (off + 4) (off + 8)).bind (from_le_bytes 4)
      let stop ← usize (head + size)
      let body ← slice wav head (min stop wav.length)
      let s ← read_chunk s tag body
      let next ← usize (off + (8 + size + size % 2))
      scan wav fuel s next
    else some s

def i16 (n : Nat) : Int16 := (UInt16.ofNat n).toInt16

/-- The sum of the channels of a frame. -/
def channel_sum (frame : Bytes) (ch : Nat) : Option Int :=
  (List.range ch).foldlM (fun acc c => do
    let v ← (slice frame (2 * c) (2 * c + 2)).bind (from_le_bytes 2)
    i32 (acc + (i16 v).toInt)) 0

/-- One sample of a frame: the mean of its channels. -/
def downmix (ch : Nat) (frame : Bytes) : Option Int16 :=
  (channel_sum frame ch).map fun acc => Int16.ofInt (acc.tdiv ch)

def chunks_exact (n : Nat) (bytes : Bytes) : List Bytes := (blocks.drain n bytes).1

def wav_to_pcm16 (wav : Bytes) : Option (Except Error (UInt32 × List Int16)) :=
  if wav.length < 12 ∨ slice wav 0 4 ≠ some (utf8 "RIFF") ∨ slice wav 8 12 ≠ some (utf8 "WAVE") then
    some (.error (.InvalidInput "not a WAVE file"))
  else do
    let s ← scan wav wav.length Scan.new 12
    match s.data with
    | none => some (.error (.InvalidInput "WAVE has no data chunk"))
    | some data =>
      if s.rate = 0 then some (.error (.InvalidInput "WAVE has no fmt chunk"))
      else
        let ch := max s.channels 1
        let out ← (chunks_exact (2 * ch) data).mapM (downmix ch)
        some (.ok (s.rate, out))

/-! ## What is wanted -/

def i16_le (s : Int16) : Bytes := le_bytes 2 s.toUInt16.toNat

def le_samples (samples : List Int16) : Bytes := samples.flatMap i16_le

/-- A chunk that the reader has no use for. -/
def Other (c : Chunk) : Prop := c.tag ≠ utf8 "fmt " ∧ c.tag ≠ utf8 "data"

/-- A written file with other chunks in front of its own two, between them and behind them, and with
this length in its header. -/
def with_chunks (riff_len : UInt32) (before between after : List Chunk) (wav : Bytes) : Bytes :=
  wav.take 4 ++ le_bytes 4 riff_len.toNat ++ (wav.drop 8).take 4 ++ render before ++
    (wav.drop 12).take 24 ++ render between ++ wav.drop 36 ++ render after

/-- The samples come back from the file, and from the file with other chunks in it. -/
def RoundTrips (pcm : Bytes) (sample_rate : UInt32) : Prop :=
  ∀ samples, pcm = le_samples samples → 0 < sample_rate.toNat → sample_rate.toNat < 2 ^ 31 →
    pcm.length + 36 < 2 ^ 32 →
      ∃ wav, pcm16_to_wav pcm sample_rate = some wav ∧
        wav_to_pcm16 wav = some (.ok (sample_rate, samples)) ∧
        ∀ riff_len before between after, (∀ c ∈ before ++ between ++ after, Other c) →
          (with_chunks riff_len before between after wav).length ≤ ISIZE_MAX →
            wav_to_pcm16 (with_chunks riff_len before between after wav) =
              some (.ok (sample_rate, samples))

/-! ## Slices and sums -/

theorem slice_inside {bytes : Bytes} {start stop : Nat} (h : start ≤ stop) (hstop : stop ≤ bytes.length) :
    slice bytes start stop = some ((bytes.drop start).take (stop - start)) := by
  rw [slice, if_pos ⟨h, hstop⟩, List.drop_take]

/-- A number that is read inside the bytes. -/
theorem number_inside {bytes : Bytes} {start k : Nat} (h : start + k ≤ bytes.length) :
    (slice bytes start (start + k)).bind (from_le_bytes k) =
      some (le_value ((bytes.drop start).take k)) := by
  have hlen : ((bytes.drop start).take k).length = k := by
    rw [List.length_take, List.length_drop]
    omega
  rw [slice_inside (Nat.le_add_right _ _) h, Nat.add_sub_cancel_left, Option.bind_some, from_le_bytes,
    if_pos hlen]

theorem usize_of_lt {n : Nat} (h : n < 2 ^ 64) : usize n = some n := if_pos h

/-! ## The loop -/

/-- What a chunk changes. -/
def take_chunk (s : Scan) (c : Bytes × Bytes) : Scan :=
  if c.1 = utf8 "fmt " ∧ 16 ≤ c.2.length then
    { s with channels := le_value ((c.2.drop 2).take 2),
             rate := UInt32.ofNat (le_value ((c.2.drop 4).take 4)) }
  else if c.1 = utf8 "data" then { s with data := some c.2 }
  else s

theorem read_chunk_eq (s : Scan) (tag body : Bytes) :
    read_chunk s tag body = some (take_chunk s (tag, body)) := by
  unfold read_chunk take_chunk
  dsimp only
  split
  · rename_i hfmt
    have hlong := hfmt.2
    rw [@number_inside body 2 2 (by omega), @number_inside body 4 4 (by omega)]
    rfl
  · split <;> rfl

/-- A chunk that the code slices out is the next one of the file. -/
theorem slices_eq {wav : Bytes} {off : Nat} (h : off + 8 ≤ wav.length) :
    slice wav off (off + 4) = some ((wav.drop off).take 4) ∧
      (slice wav (off + 4) (off + 8)).bind (from_le_bytes 4) = some (size (wav.drop off)) ∧
      slice wav (off + 8) (min (off + 8 + size (wav.drop off)) wav.length) =
        some (((wav.drop off).drop 8).take (size (wav.drop off))) := by
  refine ⟨?_, ?_, ?_⟩
  · rw [slice_inside (Nat.le_add_right _ _) (by omega), Nat.add_sub_cancel_left]
  · have hnumber := @number_inside wav (off + 4) 4 (by omega)
    rw [size, List.drop_drop]
    exact hnumber
  · rw [slice_inside (by omega) (Nat.min_le_right _ _), List.drop_drop]
    congr 1
    rw [List.take_eq_take_iff, List.length_drop]
    omega

/-- The loop goes over all the chunks, and comes to its end. -/
theorem scan_eq {wav : Bytes} (hwav : wav.length ≤ ISIZE_MAX) {fuel off : Nat} (s : Scan)
    (hpos : 0 < fuel) (hfuel : wav.length < off + fuel) (hoff : off ≤ wav.length + 2 ^ 33) :
    scan wav fuel s off = some ((chunks (wav.drop off)).foldl take_chunk s) := by
  have hmax : ISIZE_MAX = 2 ^ 63 - 1 := rfl
  induction fuel generalizing s off with
  | zero => exact (Nat.lt_irrefl 0 hpos).elim
  | succ fuel ih =>
    rw [scan, usize_of_lt (by omega)]
    dsimp only [Option.bind_eq_bind, Option.bind_some]
    split
    · rename_i hhead
      obtain ⟨htag, hsize, hbody⟩ := slices_eq hhead
      have hlt : size (wav.drop off) < 2 ^ 32 := by
        have hvalue := le_value_lt (((wav.drop off).drop 4).take 4)
        have hlen : (((wav.drop off).drop 4).take 4).length ≤ 4 := List.length_take_le _ _
        exact Nat.lt_of_lt_of_le hvalue (Nat.pow_le_pow_right (by decide) hlen)
      have hlong : 8 ≤ (wav.drop off).length := by
        rw [List.length_drop]
        omega
      rw [htag, hsize]
      dsimp only [Option.bind_some]
      rw [usize_of_lt (by omega)]
      dsimp only [Option.bind_some]
      rw [hbody]
      dsimp only [Option.bind_some]
      rw [read_chunk_eq]
      dsimp only [Option.bind_some]
      rw [usize_of_lt (by omega)]
      dsimp only [Option.bind_some]
      rw [ih _ (by omega) (by omega) (by omega), chunks_step hlong, List.foldl_cons, ← List.drop_drop]
    · rename_i hend
      have hshort : (wav.drop off).length < 8 := by
        rw [List.length_drop]
        omega
      rw [chunks_short hshort]
      rfl

/-! ## Samples -/

/-- The channels of a file are a number of two bytes. -/
theorem take_chunk_channels {s : Scan} (h : s.channels < 2 ^ 16) (c : Bytes × Bytes) :
    (take_chunk s c).channels < 2 ^ 16 := by
  unfold take_chunk
  split
  · have hvalue := le_value_lt ((c.2.drop 2).take 2)
    have hlen : ((c.2.drop 2).take 2).length ≤ 2 := List.length_take_le _ _
    exact Nat.lt_of_lt_of_le hvalue (Nat.pow_le_pow_right (by decide) hlen)
  · split <;> exact h

theorem scanned_channels {s : Scan} (h : s.channels < 2 ^ 16) (cs : List (Bytes × Bytes)) :
    (cs.foldl take_chunk s).channels < 2 ^ 16 := by
  induction cs generalizing s with
  | nil => exact h
  | cons c cs ih => exact ih (take_chunk_channels h c)

/-- The sum of so many samples fits 32 bits. -/
theorem channel_sum_some {frame : Bytes} {ch k : Nat} (hframe : frame.length = 2 * ch) (hk : k ≤ ch)
    (hch : ch < 2 ^ 16) : ∃ acc : Int, channel_sum frame k = some acc ∧
      -(32768 * k) ≤ acc ∧ acc ≤ 32768 * k := by
  induction k with
  | zero => exact ⟨0, rfl, by simp, by simp⟩
  | succ k ih =>
    obtain ⟨acc, hacc, hlow, hhigh⟩ := ih (by omega)
    have hnumber := @number_inside frame (2 * k) 2 (by omega)
    generalize hv : le_value ((frame.drop (2 * k)).take 2) = v at hnumber
    have hsample := (i16 v).toInt_lt
    have hsample' := (i16 v).le_toInt
    have hsum : channel_sum frame (k + 1) = i32 (acc + (i16 v).toInt) := by
      unfold channel_sum at hacc ⊢
      rw [List.range_succ, List.foldlM_append, hacc]
      simp [hnumber]
    refine ⟨acc + (i16 v).toInt, ?_, by omega, by omega⟩
    rw [hsum, i32, if_pos (by omega)]

theorem mapM_some {α β : Type} {f : α → Option β} {xs : List α} (h : ∀ x ∈ xs, ∃ y, f x = some y) :
    ∃ ys, xs.mapM f = some ys := by
  induction xs with
  | nil => exact ⟨[], rfl⟩
  | cons x xs ih =>
    obtain ⟨y, hy⟩ := h x List.mem_cons_self
    obtain ⟨ys, hys⟩ := ih fun x' hx' => h x' (List.mem_cons_of_mem _ hx')
    exact ⟨y :: ys, by simp [hy, hys]⟩

theorem downmix_all {ch : Nat} (hpos : 0 < ch) (hch : ch < 2 ^ 16) (data : Bytes) :
    ∃ out, (chunks_exact (2 * ch) data).mapM (downmix ch) = some out := by
  refine mapM_some fun frame hframe => ?_
  have hlen := (blocks.drain_cuts (by omega : 0 < 2 * ch) data).full frame hframe
  obtain ⟨acc, hacc, -, -⟩ := channel_sum_some hlen (Nat.le_refl ch) hch
  exact ⟨_, by rw [downmix, hacc]; rfl⟩

/-! ## The reader returns -/

/-- The reader returns for every slice. -/
theorem wav_to_pcm16_returns {wav : Bytes} (hwav : wav.length ≤ ISIZE_MAX) :
    (wav_to_pcm16 wav).isSome = true := by
  unfold wav_to_pcm16
  split
  · rfl
  · rename_i hhead
    have hlong : 12 ≤ wav.length := by omega
    rw [scan_eq hwav Scan.new (by omega) (by omega) (by omega)]
    dsimp only [Option.bind_eq_bind, Option.bind_some]
    generalize hs : (chunks (wav.drop 12)).foldl take_chunk Scan.new = s
    have hchannels : s.channels < 2 ^ 16 := hs ▸ scanned_channels (by decide) _
    split
    · rfl
    · split
      · rfl
      · rename_i data hdata hrate
        obtain ⟨out, hout⟩ := @downmix_all (max s.channels 1) (by omega) (by omega) data
        rw [hout]
        rfl

/-! ## The file that is written -/

def fmt_chunk (rate : UInt32) : Chunk where
  tag := utf8 "fmt "
  body := le_bytes 2 1 ++ le_bytes 2 1 ++ le_bytes 4 rate.toNat ++ le_bytes 4 (rate.toNat * 2) ++
    le_bytes 2 2 ++ le_bytes 2 16
  padding := 0
  tag_length := by decide
  fits := by simp

def data_chunk (pcm : Bytes) (h : pcm.length < 256 ^ 4) : Chunk where
  tag := utf8 "data"
  body := pcm
  padding := 0
  tag_length := by decide
  fits := h

/-- A file of chunks. -/
def file (riff_len : Nat) (cs : List Chunk) : Bytes :=
  utf8 "RIFF" ++ (le_bytes 4 riff_len ++ (utf8 "WAVE" ++ render cs))

theorem riff_length : (utf8 "RIFF").length = 4 := by decide

theorem wave_length : (utf8 "WAVE").length = 4 := by decide

theorem file_take4 (n : Nat) (cs : List Chunk) : (file n cs).take 4 = utf8 "RIFF" :=
  List.take_left' riff_length

theorem file_drop8 (n : Nat) (cs : List Chunk) : (file n cs).drop 8 = utf8 "WAVE" ++ render cs := by
  have hsplit : (file n cs).drop 8 = ((file n cs).drop 4).drop 4 := by rw [List.drop_drop]
  have hdrop4 : (file n cs).drop 4 = le_bytes 4 n ++ (utf8 "WAVE" ++ render cs) :=
    List.drop_left' riff_length
  rw [hsplit, hdrop4]
  exact List.drop_left' (le_bytes_length 4 n)

theorem file_drop12 (n : Nat) (cs : List Chunk) : (file n cs).drop 12 = render cs := by
  have hsplit : (file n cs).drop 12 = ((file n cs).drop 8).drop 4 := by rw [List.drop_drop]
  rw [hsplit, file_drop8]
  exact List.drop_left' wave_length

theorem file_long (n : Nat) (cs : List Chunk) : 12 ≤ (file n cs).length := by
  simp only [file, List.length_append, le_bytes_length, riff_length, wave_length]
  omega

/-- Where nothing overflows, the writer writes its two chunks. -/
theorem pcm16_to_wav_eq {pcm : Bytes} {rate : UInt32} (hrate : rate.toNat < 2 ^ 31)
    (hlen : pcm.length + 36 < 2 ^ 32) (heven : pcm.length % 2 = 0) (hfits : pcm.length < 256 ^ 4) :
    pcm16_to_wav pcm rate = some (file (36 + pcm.length) [fmt_chunk rate, data_chunk pcm hfits]) := by
  have hmax : ISIZE_MAX = 2 ^ 63 - 1 := rfl
  have hdata : (UInt32.ofNat pcm.length).toNat = pcm.length := by
    rw [UInt32.toNat_ofNat']
    omega
  have htags : utf8 "WAVEfmt " = utf8 "WAVE" ++ utf8 "fmt " := by decide
  have hbody : (fmt_chunk rate).body.length = 16 := by simp [fmt_chunk]
  have hfmt : (fmt_chunk rate).bytes = utf8 "fmt " ++ le_bytes 4 16 ++ (fmt_chunk rate).body := by
    rw [Chunk.bytes, hbody]
    exact List.append_nil _
  have hpcm : (data_chunk pcm hfits).bytes = utf8 "data" ++ le_bytes 4 pcm.length ++ pcm := by
    have hpadding : List.replicate ((data_chunk pcm hfits).body.length % 2) (0 : UInt8) = [] := by
      change List.replicate (pcm.length % 2) _ = []
      rw [heven]
      rfl
    exact (congrArg (_ ++ ·) hpadding).trans (List.append_nil _)
  have hcapacity : with_capacity (44 + pcm.length) = some () := if_pos (by omega)
  have hriff : u32 (36 + pcm.length) = some (UInt32.ofNat (36 + pcm.length)) := if_pos (by omega)
  have hrate' : u32 (rate.toNat * 2) = some (UInt32.ofNat (rate.toNat * 2)) := if_pos (by omega)
  have hriff_val : (UInt32.ofNat (36 + pcm.length)).toNat = 36 + pcm.length := by
    rw [UInt32.toNat_ofNat']
    omega
  have hrate_val : (UInt32.ofNat (rate.toNat * 2)).toNat = rate.toNat * 2 := by
    rw [UInt32.toNat_ofNat']
    omega
  unfold pcm16_to_wav
  rw [usize_of_lt (by omega)]
  dsimp only [Option.bind_eq_bind, Option.bind_some]
  rw [hcapacity, hdata, hriff, hrate']
  dsimp only [Option.bind_some]
  rw [hriff_val, hrate_val, htags, file, render, List.flatMap_cons, List.flatMap_singleton, hfmt, hpcm]
  simp [fmt_chunk, List.append_assoc]

/-- With other chunks in it, it is the file of them all. -/
theorem with_chunks_file (riff_len : UInt32) (n : Nat) (before between after : List Chunk) (rate : UInt32)
    {data : Chunk} :
    with_chunks riff_len before between after (file n [fmt_chunk rate, data]) =
      file riff_len.toNat (before ++ fmt_chunk rate :: between ++ data :: after) := by
  have hfmt : (fmt_chunk rate).bytes.length = 24 := by
    have hbody : (fmt_chunk rate).body.length = 16 := by simp [fmt_chunk]
    simp [Chunk.bytes, hbody, (fmt_chunk rate).tag_length]
  have hrender : render [fmt_chunk rate, data] = (fmt_chunk rate).bytes ++ data.bytes := by
    rw [render, List.flatMap_cons, List.flatMap_singleton]
  have hdrop36 : (file n [fmt_chunk rate, data]).drop 36 = data.bytes := by
    have hsplit : (file n [fmt_chunk rate, data]).drop 36 =
        ((file n [fmt_chunk rate, data]).drop 12).drop 24 := by rw [List.drop_drop]
    rw [hsplit, file_drop12, hrender]
    exact List.drop_left' hfmt
  rw [with_chunks, file_take4, file_drop8, file_drop12, hdrop36, hrender, List.take_left' wave_length,
    List.take_left' hfmt]
  simp [file, render, List.append_assoc]

/-! ## Reading it -/

theorem take_fmt (s : Scan) (rate : UInt32) :
    take_chunk s (fmt_chunk rate).view = { s with channels := 1, rate := rate } := by
  have hlong : 16 ≤ (fmt_chunk rate).body.length := by simp [fmt_chunk]
  have hchannels : ((fmt_chunk rate).body.drop 2).take 2 = le_bytes 2 1 := rfl
  have hrate : ((fmt_chunk rate).body.drop 4).take 4 = le_bytes 4 rate.toNat := rfl
  have hvalue : UInt32.ofNat (le_value (le_bytes 4 rate.toNat)) = rate := by
    rw [le_value_le_bytes rate.toNat_lt, UInt32.ofNat_toNat]
  refine (if_pos ⟨rfl, hlong⟩).trans ?_
  dsimp only [Chunk.view]
  rw [hchannels, hrate, hvalue]
  rfl

theorem take_data (s : Scan) (pcm : Bytes) (h : pcm.length < 256 ^ 4) :
    take_chunk s (data_chunk pcm h).view = { s with data := some pcm } := by
  have hne : utf8 "data" ≠ utf8 "fmt " := by decide
  exact (if_neg fun hfmt => hne hfmt.1).trans (if_pos rfl)

/-- The other chunks change nothing. -/
theorem take_others {cs : List Chunk} (h : ∀ c ∈ cs, Other c) (s : Scan) :
    (cs.map Chunk.view).foldl take_chunk s = s := by
  induction cs with
  | nil => rfl
  | cons c cs ih =>
    obtain ⟨hfmt, hdata⟩ := h c List.mem_cons_self
    have hnone : take_chunk s c.view = s := (if_neg fun hall => hfmt hall.1).trans (if_neg hdata)
    rw [List.map_cons, List.foldl_cons, hnone]
    exact ih fun c' hc' => h c' (List.mem_cons_of_mem _ hc')

theorem i16_le_length (s : Int16) : (i16_le s).length = 2 := le_bytes_length 2 _

/-- A frame of one channel is its sample. -/
theorem downmix_one (s : Int16) : downmix 1 (i16_le s) = some s := by
  have hlen := i16_le_length s
  have hread : (slice (i16_le s) (2 * 0) (2 * 0 + 2)).bind (from_le_bytes 2) = some s.toUInt16.toNat := by
    have hnumber := @number_inside (i16_le s) 0 2 (by omega)
    have hvalue : le_value (i16_le s) = s.toUInt16.toNat := le_value_le_bytes s.toUInt16.toNat_lt
    rw [List.drop_zero, List.take_of_length_le (by omega), hvalue] at hnumber
    exact hnumber
  have hsample : i16 s.toUInt16.toNat = s := by
    rw [i16, UInt16.ofNat_toNat]
    exact Int16.toInt16_toUInt16 s
  have hfits := s.toInt_lt
  have hfits' := s.le_toInt
  have hsum : channel_sum (i16_le s) 1 = some s.toInt := by
    have hone : channel_sum (i16_le s) 1 = i32 (0 + (i16 s.toUInt16.toNat).toInt) := by
      rw [channel_sum, List.range_one, List.foldlM_cons, hread]
      exact bind_pure _
    rw [hone, hsample, Int.zero_add, i32, if_pos (by omega)]
  rw [downmix, hsum, Option.map_some]
  simp

theorem chunks_exact_samples (samples : List Int16) :
    chunks_exact 2 (le_samples samples) = samples.map i16_le := by
  have hcuts : blocks.Cuts 2 (le_samples samples) (samples.map i16_le) [] := by
    refine ⟨?_, ?_, by decide⟩
    · rw [List.append_nil]
      exact List.flatMap_def
    · intro part hpart
      obtain ⟨s, -, rfl⟩ := List.mem_map.mp hpart
      exact i16_le_length s
  exact ((blocks.drain_cuts (by decide) (le_samples samples)).unique hcuts).1

theorem downmix_samples (samples : List Int16) :
    (chunks_exact 2 (le_samples samples)).mapM (downmix 1) = some samples := by
  rw [chunks_exact_samples]
  induction samples with
  | nil => rfl
  | cons s samples ih =>
    rw [List.map_cons, List.mapM_cons, downmix_one, ih]
    rfl

/-- Every file of the two chunks and of others is read as what was written. -/
theorem wav_to_pcm16_file {riff_len : Nat} {rate : UInt32} {samples : List Int16}
    {before between after : List Chunk} (hfits : (le_samples samples).length < 256 ^ 4)
    (hothers : ∀ c ∈ before ++ between ++ after, Other c) (hrate : rate ≠ 0)
    (hlen : (file riff_len (before ++ fmt_chunk rate :: between ++
      data_chunk (le_samples samples) hfits :: after)).length ≤ ISIZE_MAX) :
    wav_to_pcm16 (file riff_len (before ++ fmt_chunk rate :: between ++
      data_chunk (le_samples samples) hfits :: after)) = some (.ok (rate, samples)) := by
  generalize hcs : before ++ fmt_chunk rate :: between ++ data_chunk (le_samples samples) hfits :: after =
    cs at hlen ⊢
  obtain ⟨hfront, hafter⟩ := List.forall_mem_append.mp hothers
  obtain ⟨hbefore, hbetween⟩ := List.forall_mem_append.mp hfront
  have hscanned : (chunks (render cs)).foldl take_chunk Scan.new =
      { rate := rate, channels := 1, data := some (le_samples samples) } := by
    have hchunks := chunks_render cs []
    have hnone : chunks [] = [] := rfl
    rw [List.append_nil, hnone, List.append_nil] at hchunks
    rw [hchunks, ← hcs, List.map_append, List.map_append, List.map_cons, List.map_cons,
      List.foldl_append, List.foldl_append, take_others hbefore, List.foldl_cons, List.foldl_cons,
      take_fmt, take_others hbetween, take_data, take_others hafter]
  have hlong := file_long riff_len cs
  have hriff : slice (file riff_len cs) 0 4 = some (utf8 "RIFF") := by
    rw [slice_inside (by decide) (by omega)]
    exact congrArg some (file_take4 riff_len cs)
  have hwave : slice (file riff_len cs) 8 12 = some (utf8 "WAVE") := by
    rw [slice_inside (by decide) hlong, file_drop8]
    exact congrArg some (List.take_left' wave_length)
  unfold wav_to_pcm16
  rw [if_neg (by simp [hriff, hwave]; omega), scan_eq hlen Scan.new (by omega) (by omega) (by omega),
    file_drop12, hscanned]
  dsimp only [Option.bind_eq_bind, Option.bind_some]
  have hout := downmix_samples samples
  rw [if_neg hrate, Nat.max_self, Nat.mul_one, hout]
  rfl

/-! ## All files -/

theorem le_samples_length (samples : List Int16) : (le_samples samples).length = 2 * samples.length := by
  induction samples with
  | nil => rfl
  | cons s samples ih =>
    rw [le_samples, List.flatMap_cons, List.length_append, i16_le_length, List.length_cons]
    change 2 + (le_samples samples).length = _
    rw [ih]
    omega

theorem file_length (n : Nat) (rate : UInt32) {pcm : Bytes} (h : pcm.length < 256 ^ 4) :
    (file n [fmt_chunk rate, data_chunk pcm h]).length ≤ 45 + pcm.length := by
  have hbody : (fmt_chunk rate).body.length = 16 := by simp [fmt_chunk]
  have hfmt : (utf8 "fmt ").length = 4 ∧ (utf8 "data").length = 4 := by decide
  rw [file, render, List.flatMap_cons, List.flatMap_singleton, Chunk.bytes, Chunk.bytes]
  simp only [List.length_append, List.length_replicate, le_bytes_length, hbody,
    (fmt_chunk rate).tag_length, (data_chunk pcm h).tag_length, riff_length, wave_length]
  change _ + (_ + (_ + (_ + (4 + 4 + pcm.length + pcm.length % 2)))) ≤ _
  omega

/-- Samples come back, whatever other chunks are in the file. -/
theorem round_trips (pcm : Bytes) (sample_rate : UInt32) : RoundTrips pcm sample_rate := by
  rintro samples rfl hpos hrate hlen
  have hmax : ISIZE_MAX = 2 ^ 63 - 1 := rfl
  have hcount := le_samples_length samples
  have hfits : (le_samples samples).length < 256 ^ 4 := by omega
  have hne : sample_rate ≠ 0 := by
    rintro rfl
    exact absurd hpos (by decide)
  have hwav := pcm16_to_wav_eq hrate hlen (by omega) hfits
  refine ⟨_, hwav, ?_, ?_⟩
  · have hwhole := file_length (36 + (le_samples samples).length) sample_rate hfits
    exact @wav_to_pcm16_file _ _ _ [] [] [] hfits (by simp) hne (by
      exact Nat.le_trans hwhole (by omega))
  · intro riff_len before between after hothers hwhole
    rw [with_chunks_file] at hwhole ⊢
    exact wav_to_pcm16_file hfits hothers hne hwhole

/-- When the writer returns: the byte rate and the length fit their fields, and the file a vector. -/
theorem pcm16_to_wav_isSome (pcm : Bytes) (sample_rate : UInt32) :
    (pcm16_to_wav pcm sample_rate).isSome = true ↔
      sample_rate.toNat < 2 ^ 31 ∧ pcm.length % 2 ^ 32 + 36 < 2 ^ 32 ∧ 44 + pcm.length ≤ ISIZE_MAX := by
  have hmax : ISIZE_MAX = 2 ^ 63 - 1 := rfl
  have hdata : (UInt32.ofNat pcm.length).toNat = pcm.length % 2 ^ 32 := UInt32.toNat_ofNat'
  unfold pcm16_to_wav usize with_capacity u32
  dsimp only
  rw [hdata]
  simp only [Option.bind_eq_bind, Option.isSome_iff_exists, Option.bind_eq_some_iff,
    Option.ite_none_right_eq_some, Option.some.injEq]
  constructor
  · rintro ⟨wav, capacity, ⟨-, rfl⟩, -, ⟨hcapacity, -⟩, riff_len, ⟨hriff, -⟩, byte_rate, ⟨hrate, -⟩, -⟩
    omega
  · rintro ⟨hrate, hriff, hcapacity⟩
    exact ⟨_, _, ⟨by omega, rfl⟩, (), ⟨hcapacity, trivial⟩, _, ⟨by omega, rfl⟩, _, ⟨by omega, rfl⟩, rfl⟩

/-- What is asked of the two functions: both return, and samples come back. The writer returns for
these bytes and this rate exactly if they fit; all else always holds. -/
theorem wav_holds_iff (pcm : Bytes) (sample_rate : UInt32) :
    ((pcm16_to_wav pcm sample_rate).isSome = true ∧
      (∀ wav : Bytes, wav.length ≤ ISIZE_MAX → (wav_to_pcm16 wav).isSome = true) ∧
        RoundTrips pcm sample_rate) ↔
      sample_rate.toNat < 2 ^ 31 ∧ pcm.length % 2 ^ 32 + 36 < 2 ^ 32 ∧ 44 + pcm.length ≤ ISIZE_MAX := by
  rw [← pcm16_to_wav_isSome]
  exact ⟨fun h => h.1, fun h => ⟨h, fun wav hwav => wav_to_pcm16_returns hwav, round_trips pcm sample_rate⟩⟩

/-- Silence at a rate whose byte rate does not fit: the writer does not return. -/
theorem a_large_rate_overflows :
    ¬ ∀ (pcm : Bytes) (sample_rate : UInt32), pcm.length ≤ ISIZE_MAX →
      (pcm16_to_wav pcm sample_rate).isSome = true := by
  intro hall
  have hreturns := hall [] 2147483648 (by decide)
  exact absurd hreturns (by decide)

end pai_voice.wav
