-- The pictures of apps (pai-apps serve.rs): pixels behind stored deflate blocks, in the chunks of a
-- PNG file. Whatever the pixels are, the stream is one of theirs and the chunks are read back.
import PersonalAi.Lib.Blocks
import PersonalAi.Lib.Zlib

open text riff zlib

namespace pai_apps.serve.png

/-! ## The writer -/

/-- A slice of bytes: none is longer than `isize::MAX`. -/
def Slice := { data : Bytes // data.length < 2 ^ 63 }

/-- A product of the type `usize`; `none` is a panic, here and in all that follows. -/
def usize (n : Nat) : Option Nat := if n < 2 ^ 64 then some n else none

def add (a b : UInt32) : Option UInt32 := if a.toNat + b.toNat < 2 ^ 32 then some (a + b) else none

def crc_bits : Nat → UInt32 → UInt32
  | 0, crc => crc
  | n + 1, crc => crc_bits n (if crc &&& 1 ≠ 0 then (crc >>> 1) ^^^ 0xedb88320 else crc >>> 1)

def crc32 (data : Bytes) : UInt32 :=
  ~~~(data.foldl (fun crc b => crc_bits 8 (crc ^^^ b.toUInt32)) (~~~0))

/-- One turn of the loop of `adler32`. -/
def adler_step (s : UInt32 × UInt32) (x : UInt8) : Option (UInt32 × UInt32) := do
  let a ← add s.1 x.toUInt32
  let a := a % 65521
  let b ← add s.2 a
  some (a, b % 65521)

def adler32 (data : Bytes) : Option UInt32 := do
  let (a, b) ← data.foldlM adler_step (1, 0)
  some (b <<< 16 ||| a)

/-- One turn of the loop of `zlib_stored`, on data of this length. -/
def store_chunk (len : Nat) (out : Bytes) (next : Bytes × Nat) : Option Bytes := do
  let (chunk, i) := next
  let stop ← usize ((i + 1) * 65535)
  let size := UInt16.ofNat chunk.length
  some (out ++ (if len ≤ stop then 1 else 0) :: (le_bytes 2 size.toNat ++ le_bytes 2 (~~~size).toNat ++ chunk))

def zlib_stored (data : Slice) : Option Bytes := do
  let out ← (blocks.chunks 65535 data.1).zipIdx.foldlM (store_chunk data.1.length) [0x78, 0x01]
  let out := if data.1 = [] then out ++ [1, 0, 0, 0xff, 0xff] else out
  let sum ← adler32 data.1
  some (out ++ be_bytes 4 sum.toNat)

def png_chunk (kind data : Bytes) : Bytes :=
  be_bytes 4 (UInt32.ofNat data.length).toNat ++ kind ++ data ++ be_bytes 4 (crc32 (kind ++ data)).toNat

def SIGNATURE : Bytes := [0x89, 0x50, 0x4e, 0x47, 0x0d, 0x0a, 0x1a, 0x0a]

def png_encode (w h : UInt32) (rgba : Slice) : Option Bytes := do
  let idat ← zlib_stored rgba
  some (SIGNATURE ++ png_chunk (utf8 "IHDR") (be_bytes 4 w.toNat ++ be_bytes 4 h.toNat ++ [8, 6, 0, 0, 0]) ++
    png_chunk (utf8 "IDAT") idat ++ png_chunk (utf8 "IEND") [])

/-! ## The checksum -/

/-- What the loop keeps behind these bytes. -/
def running (done : Bytes) : UInt32 × UInt32 :=
  (UInt32.ofNat (sum_a done % 65521), UInt32.ofNat (sum_b done % 65521))

theorem toNat_small {n : Nat} (h : n < 2 ^ 32) : (UInt32.ofNat n).toNat = n :=
  UInt32.toNat_ofNat_of_lt' h

/-- A sum of small numbers does not overflow. -/
theorem add_small {m n : Nat} (h : m + n < 2 ^ 32) :
    add (UInt32.ofNat m) (UInt32.ofNat n) = some (UInt32.ofNat (m + n)) := by
  rw [add, toNat_small (by omega), toNat_small (by omega), if_pos h, UInt32.ofNat_add]

theorem mod_small {n : Nat} (h : n < 2 ^ 32) : UInt32.ofNat n % 65521 = UInt32.ofNat (n % 65521) := by
  rw [← UInt32.toNat_inj, UInt32.toNat_mod, toNat_small h, toNat_small (by omega)]
  rfl

theorem adler_step_running (done : Bytes) (x : UInt8) :
    adler_step (running done) x = some (running (done ++ [x])) := by
  have hx := x.toNat_lt
  have hbyte : x.toUInt32 = UInt32.ofNat x.toNat := by
    rw [← UInt32.toNat_inj, UInt8.toNat_toUInt32, toNat_small (by omega)]
  have ha : (sum_a done % 65521 + x.toNat) % 65521 = sum_a (done ++ [x]) % 65521 := by
    rw [Nat.mod_add_mod, sum_a_concat]
  have hb : (sum_b done % 65521 + sum_a (done ++ [x]) % 65521) % 65521 = sum_b (done ++ [x]) % 65521 := by
    rw [← Nat.add_mod, sum_b_concat]
  unfold adler_step running
  rw [hbyte, add_small (by omega)]
  change (do
    let b ← add (UInt32.ofNat (sum_b done % 65521))
      (UInt32.ofNat (sum_a done % 65521 + x.toNat) % 65521)
    some (UInt32.ofNat (sum_a done % 65521 + x.toNat) % 65521, b % 65521)) = _
  rw [mod_small (by omega), ha, add_small (by omega)]
  change some (_, UInt32.ofNat (sum_b done % 65521 + sum_a (done ++ [x]) % 65521) % 65521) = _
  rw [mod_small (by omega), hb]

theorem adler_loop (done data : Bytes) :
    data.foldlM adler_step (running done) = some (running (done ++ data)) := by
  induction data generalizing done with
  | nil =>
    rw [List.append_nil]
    rfl
  | cons x data ih =>
    rw [List.foldlM_cons, adler_step_running]
    exact (ih (done ++ [x])).trans (by rw [List.append_assoc]; rfl)

/-- No sum overflows, and the result is the checksum. -/
theorem adler32_eq (data : Bytes) : ∃ sum, adler32 data = some sum ∧ sum.toNat = adler data := by
  have hloop : data.foldlM adler_step (1, 0) = some (running data) := adler_loop [] data
  refine ⟨(running data).2 <<< 16 ||| (running data).1, by rw [adler32, hloop]; rfl, ?_⟩
  have hb : sum_b data % 65521 < 2 ^ 16 := by omega
  have ha : sum_a data % 65521 < 2 ^ 16 := by omega
  have hshift : (sum_b data % 65521) <<< 16 % 2 ^ 32 = (sum_b data % 65521) <<< 16 := by
    rw [Nat.shiftLeft_eq]
    omega
  rw [running, UInt32.toNat_or, UInt32.toNat_shiftLeft, toNat_small (by omega), toNat_small (by omega)]
  change (sum_b data % 65521) <<< 16 % 2 ^ 32 ||| _ = _
  rw [hshift, ← Nat.shiftLeft_add_eq_or_of_lt ha, Nat.shiftLeft_eq]
  rfl

/-! ## The blocks -/

theorem store_chunk_eq {len i : Nat} {chunk : Bytes} (hi : (i + 1) * 65535 < 2 ^ 64)
    (hchunk : chunk.length ≤ 65535) (out : Bytes) :
    store_chunk len out (chunk, i) = some (out ++ Block.bytes ⟨len ≤ (i + 1) * 65535, chunk⟩) := by
  have hsize : (UInt16.ofNat chunk.length).toNat = chunk.length :=
    UInt16.toNat_ofNat_of_lt' (by rw [UInt16.size]; omega)
  have hnot : (~~~(UInt16.ofNat chunk.length)).toNat = 65535 - chunk.length := by
    rw [UInt16.toNat_not, hsize]
    rfl
  have hstop : usize ((i + 1) * 65535) = some ((i + 1) * 65535) := if_pos hi
  unfold store_chunk Block.bytes
  dsimp only
  rw [hstop]
  change some (out ++ _ :: (le_bytes 2 (UInt16.ofNat chunk.length).toNat ++
    le_bytes 2 (~~~(UInt16.ofNat chunk.length)).toNat ++ chunk)) = _
  rw [hsize, hnot]
  by_cases hlast : len ≤ (i + 1) * 65535
  · simp [hlast]
  · simp [hlast]

/-- The loop stores the pieces, and the last of them as final. -/
theorem store_loop {front : List Bytes} {last : Bytes} {len i : Nat}
    (hfront : ∀ chunk ∈ front, chunk.length = 65535) (hpos : 0 < last.length)
    (hlast : last.length ≤ 65535) (hlen : len = i * 65535 + (front ++ [last]).flatten.length)
    (hmax : len < 2 ^ 63) (out : Bytes) :
    ((front ++ [last]).zipIdx i).foldlM (store_chunk len) out =
      some (out ++ zlib.render (stored (front ++ [last]))) := by
  induction front generalizing i out with
  | nil =>
    have hwhole : len = i * 65535 + last.length := by simpa using hlen
    rw [List.nil_append, List.zipIdx_singleton, List.foldlM_cons,
      store_chunk_eq (by omega) hlast]
    have hfinal : len ≤ (i + 1) * 65535 := by omega
    simp [hfinal, stored, zlib.render]
  | cons chunk front ih =>
    rw [List.forall_mem_cons] at hfront
    obtain ⟨hfull, hfront⟩ := hfront
    have hsum : len = (i + 1) * 65535 + (front ++ [last]).flatten.length := by
      rw [hlen, List.cons_append, List.flatten_cons, List.length_append, hfull]
      omega
    have hrest : 0 < (front ++ [last]).flatten.length := by
      rw [List.flatten_append, List.flatten_singleton, List.length_append]
      omega
    have hopen : ¬ len ≤ (i + 1) * 65535 := by omega
    have hshape : stored (chunk :: (front ++ [last])) = ⟨false, chunk⟩ :: stored (front ++ [last]) := by
      rcases front with _ | ⟨next, front⟩
      · rfl
      · rfl
    rw [List.cons_append, List.zipIdx_cons, List.foldlM_cons,
      store_chunk_eq (by omega) (Nat.le_of_eq hfull), hshape]
    refine (ih hfront hsum _).trans ?_
    simp [hopen, zlib.render]

/-- The blocks of the data: those of its pieces, or one empty block. -/
def pieces (data : Bytes) : List Bytes := if data = [] then [[]] else blocks.chunks 65535 data

theorem pieces_spec (data : Bytes) :
    pieces data ≠ [] ∧ (∀ body ∈ pieces data, body.length ≤ 65535) ∧ (pieces data).flatten = data := by
  unfold pieces
  split
  · rename_i hnil
    exact ⟨List.cons_ne_nil _ _, by simp, hnil.symm⟩
  · rename_i hne
    obtain ⟨front, last, hchunks, hfront, -, hlast, hwhole⟩ :=
      blocks.chunks_shape (n := 65535) (by decide) hne
    rw [hchunks]
    refine ⟨by simp, ?_, hwhole.symm⟩
    rw [List.forall_mem_append]
    exact ⟨fun body hbody => Nat.le_of_eq (hfront body hbody), by simpa using hlast⟩

theorem zlib_stored_eq (data : Slice) : zlib_stored data =
    some (0x78 :: 0x01 :: (zlib.render (stored (pieces data.1)) ++ be_bytes 4 (adler data.1))) := by
  obtain ⟨data, hmax⟩ := data
  obtain ⟨sum, hsum, hvalue⟩ := adler32_eq data
  unfold zlib_stored pieces
  dsimp only
  by_cases hne : data = []
  · subst hne
    rw [hsum, ← hvalue]
    rfl
  · obtain ⟨front, last, hchunks, hfront, hpos, hlast, hwhole⟩ :=
      blocks.chunks_shape (n := 65535) (by decide) hne
    have hlen : data.length = 0 * 65535 + (front ++ [last]).flatten.length := by
      rw [← hwhole, Nat.zero_mul, Nat.zero_add]
    have hloop := store_loop hfront hpos hlast hlen hmax [0x78, 0x01]
    rw [hchunks, hloop, hsum, ← hvalue, if_neg hne]
    simp [hne]

/-- Whatever the data is, its stream is read to the end as one of this data: the blocks have the
lengths that they give, the last is the only final one, and the checksum is behind it. -/
theorem zlib_stored_is_read_back (data : Slice) :
    ∃ stream s, zlib_stored data = some stream ∧ zlib.read stream = some s ∧ s.Holds data.1 := by
  obtain ⟨hne, hfit, hwhole⟩ := pieces_spec data.1
  obtain ⟨s, hread, hholds⟩ := read_stored hne hfit
  rw [hwhole] at hread hholds
  exact ⟨_, s, zlib_stored_eq data, hread, hholds⟩

/-! ## The file -/

def be_value (bytes : Bytes) : Nat := le_value bytes.reverse

/-- A chunk at the start of a file and what is behind it, where its checksum is right. -/
def read_chunk (bytes : Bytes) : Option (Bytes × Bytes × Bytes) :=
  let len := be_value (bytes.take 4)
  let kind := (bytes.drop 4).take 4
  let data := (bytes.drop 8).take len
  let rest := bytes.drop (8 + len)
  if rest.take 4 = be_bytes 4 (crc32 (kind ++ data)).toNat then some (kind, data, rest.drop 4) else none

theorem be_bytes_length (k n : Nat) : (be_bytes k n).length = k := by
  rw [be_bytes, List.length_reverse, le_bytes_length]

theorem read_png_chunk {kind data : Bytes} (hkind : kind.length = 4) (hdata : data.length < 2 ^ 32)
    (rest : Bytes) : read_chunk (png_chunk kind data ++ rest) = some (kind, data, rest) := by
  have hlen : be_value (be_bytes 4 data.length) = data.length := by
    rw [be_value, be_bytes, List.reverse_reverse, le_value_le_bytes hdata]
  have hshape : png_chunk kind data ++ rest = be_bytes 4 data.length ++
      (kind ++ (data ++ (be_bytes 4 (crc32 (kind ++ data)).toNat ++ rest))) := by
    rw [png_chunk, UInt32.toNat_ofNat_of_lt' hdata]
    simp [List.append_assoc]
  have htake4 : (png_chunk kind data ++ rest).take 4 = be_bytes 4 data.length := by
    rw [hshape, List.take_left' (be_bytes_length 4 _)]
  have hdrop4 : (png_chunk kind data ++ rest).drop 4 =
      kind ++ (data ++ (be_bytes 4 (crc32 (kind ++ data)).toNat ++ rest)) := by
    rw [hshape, List.drop_left' (be_bytes_length 4 _)]
  have hdrop8 : (png_chunk kind data ++ rest).drop 8 =
      data ++ (be_bytes 4 (crc32 (kind ++ data)).toNat ++ rest) := by
    rw [← @List.drop_drop _ 4 4, hdrop4, List.drop_left' hkind]
  have hbehind : (png_chunk kind data ++ rest).drop (8 + data.length) =
      be_bytes 4 (crc32 (kind ++ data)).toNat ++ rest := by
    rw [← List.drop_drop, hdrop8, List.drop_left]
  unfold read_chunk
  rw [htake4, hlen, hdrop4, List.take_left' hkind, hdrop8]
  dsimp only
  rw [hbehind, List.take_left, List.take_left' (be_bytes_length 4 _), List.drop_left' (be_bytes_length 4 _)]
  exact if_pos rfl

/-- One line of one pixel. -/
def dot : Slice := ⟨[0, 255, 0, 0, 255], by decide⟩

def dot_stream : Bytes := [0x78, 0x01, 1, 5, 0, 250, 255, 0, 255, 0, 0, 255, 5, 0, 1, 255]

end pai_apps.serve.png
