-- zlib streams of stored blocks: a header of two bytes, blocks with a flag, a length and its
-- complement, and the Adler-32 of what they hold. What is stored block by block is read back.
import Mathlib.Algebra.GroupWithZero.Nat
import PersonalAi.Lib.Riff

open text riff

namespace zlib

/-! ## The checksum -/

/-- The sum of the bytes, and one. -/
def sum_a (data : Bytes) : Nat := 1 + (data.map UInt8.toNat).sum

/-- The sum of these sums, behind each byte. -/
def sum_b (data : Bytes) : Nat := ((List.range data.length).map fun i => sum_a (data.take (i + 1))).sum

def adler (data : Bytes) : Nat := sum_b data % 65521 * 65536 + sum_a data % 65521

theorem sum_a_concat (data : Bytes) (x : UInt8) : sum_a (data ++ [x]) = sum_a data + x.toNat := by
  simp [sum_a, Nat.add_assoc]

theorem sum_b_concat (data : Bytes) (x : UInt8) :
    sum_b (data ++ [x]) = sum_b data + sum_a (data ++ [x]) := by
  have hfront : (List.range data.length).map (fun i => sum_a ((data ++ [x]).take (i + 1))) =
      (List.range data.length).map fun i => sum_a (data.take (i + 1)) := by
    refine List.map_congr_left fun i hi => ?_
    rw [List.take_append_of_le_length (List.mem_range.mp hi)]
  have hwhole : (data ++ [x]).take (data.length + 1) = data ++ [x] :=
    List.take_of_length_le (by simp)
  rw [sum_b, List.length_append, List.length_singleton, List.range_succ, List.map_append, hfront,
    List.sum_append, List.map_singleton, hwhole, List.sum_singleton]
  rfl

/-! ## Blocks -/

/-- A stored block: whether it is the last one, and its bytes. -/
structure Block where
  final : Bool
  body : Bytes
deriving DecidableEq

/-- The low bytes of a number, the highest first. -/
def be_bytes (k n : Nat) : Bytes := (le_bytes k n).reverse

def Block.bytes (b : Block) : Bytes :=
  (if b.final then 1 else 0) :: (le_bytes 2 b.body.length ++ le_bytes 2 (65535 - b.body.length) ++ b.body)

/-- A block at the start of a stream, and what is behind it. Its first byte has the flag in the
lowest bit and the type in the next two, of which stored is 0; the other bits are skipped. -/
def read_block : Bytes → Option (Block × Bytes)
  | head :: l₀ :: l₁ :: n₀ :: n₁ :: rest =>
    let len := le_value [l₀, l₁]
    if head.toNat / 2 % 4 = 0 ∧ le_value [n₀, n₁] = 65535 - len ∧ len ≤ rest.length then
      some (⟨head.toNat % 2 = 1, rest.take len⟩, rest.drop len)
    else none
  | _ => none

/-- The blocks up to the first final one, and what is behind it; the fuel bounds how many there
are. -/
def read_blocks : Nat → Bytes → Option (List Block × Bytes)
  | 0, _ => none
  | fuel + 1, bytes => do
    let (b, rest) ← read_block bytes
    if b.final then some ([b], rest)
    else
      let (bs, rest) ← read_blocks fuel rest
      some (b :: bs, rest)

def inflate (bytes : Bytes) : Option (List Block × Bytes) := read_blocks bytes.length bytes

/-- The blocks of these pieces, of which the last is final. -/
def stored : List Bytes → List Block
  | [] => []
  | [body] => [⟨true, body⟩]
  | body :: body' :: bodies => ⟨false, body⟩ :: stored (body' :: bodies)

def render (bs : List Block) : Bytes := bs.flatMap Block.bytes

variable {bodies : List Bytes}

theorem le_bytes_two (n : Nat) : le_bytes 2 n = [UInt8.ofNat n, UInt8.ofNat (n / 256)] := rfl

theorem read_block_bytes {b : Block} (h : b.body.length ≤ 65535) (rest : Bytes) :
    read_block (b.bytes ++ rest) = some (b, rest) := by
  obtain ⟨final, body⟩ := b
  have hlen : le_value (le_bytes 2 body.length) = body.length := le_value_le_bytes (by dsimp at h; omega)
  have hcomplement : le_value (le_bytes 2 (65535 - body.length)) = 65535 - body.length :=
    le_value_le_bytes (by omega)
  rw [le_bytes_two] at hlen hcomplement
  have hshape : Block.bytes ⟨final, body⟩ ++ rest =
      (if final then 1 else 0) :: UInt8.ofNat body.length :: UInt8.ofNat (body.length / 256) ::
        UInt8.ofNat (65535 - body.length) :: UInt8.ofNat ((65535 - body.length) / 256) ::
        (body ++ rest) := by
    simp [Block.bytes, le_bytes_two]
  rw [hshape, read_block, hlen, hcomplement, List.take_left, List.drop_left, List.length_append]
  cases final with
  | false => exact if_pos ⟨rfl, rfl, Nat.le_add_right _ _⟩
  | true => exact if_pos ⟨rfl, rfl, Nat.le_add_right _ _⟩

/-- Every block takes a byte at least. -/
theorem length_le_render (bs : List Block) : bs.length ≤ (render bs).length := by
  induction bs with
  | nil => exact Nat.le_refl 0
  | cons b bs ih =>
    rw [render, List.flatMap_cons, List.length_append, Block.bytes, List.length_cons, List.length_cons]
    rw [render] at ih
    omega

theorem read_blocks_stored (hne : bodies ≠ []) (hfit : ∀ body ∈ bodies, body.length ≤ 65535)
    (rest : Bytes) {fuel : Nat} (hfuel : (stored bodies).length ≤ fuel) :
    read_blocks fuel (render (stored bodies) ++ rest) = some (stored bodies, rest) := by
  induction bodies using stored.induct generalizing fuel with
  | case1 => exact absurd rfl hne
  | case2 body =>
    obtain ⟨fuel, rfl⟩ := Nat.exists_eq_add_of_le' hfuel
    have hread := @read_block_bytes ⟨true, body⟩ (hfit body List.mem_cons_self) rest
    rw [stored, render, List.flatMap_singleton, List.length_singleton, read_blocks, hread]
    rfl
  | case3 body body' bodies ih =>
    rw [List.forall_mem_cons] at hfit
    rw [stored, List.length_cons] at hfuel
    obtain ⟨fuel, rfl⟩ := Nat.exists_eq_add_of_le' (Nat.le_trans (Nat.le_add_left 1 _) hfuel)
    have hread := @read_block_bytes ⟨false, body⟩ hfit.1 (render (stored (body' :: bodies)) ++ rest)
    have hrest := ih (List.cons_ne_nil _ _) hfit.2 (Nat.le_of_add_le_add_right hfuel)
    rw [stored, render, List.flatMap_cons, List.append_assoc, read_blocks]
    rw [render] at hread hrest
    rw [hread]
    change (do
      let (bs, rest) ← read_blocks fuel (List.flatMap Block.bytes (stored (body' :: bodies)) ++ rest)
      some (Block.mk false body :: bs, rest)) = _
    rw [hrest]
    rfl

/-- What is stored is read up to its end. -/
theorem inflate_stored (hne : bodies ≠ []) (hfit : ∀ body ∈ bodies, body.length ≤ 65535)
    (rest : Bytes) :
    inflate (render (stored bodies) ++ rest) = some (stored bodies, rest) := by
  refine read_blocks_stored hne hfit rest ?_
  have hle := length_le_render (stored bodies)
  rw [List.length_append]
  omega

theorem bodies_of_stored (bodies : List Bytes) : (stored bodies).map Block.body = bodies := by
  induction bodies using stored.induct with
  | case1 => rfl
  | case2 body => rfl
  | case3 body body' bodies ih => rw [stored, List.map_cons, ih]

/-- The last block is final, and no other. -/
theorem stored_final (hne : bodies ≠ []) :
    ∃ before last, stored bodies = before ++ [last] ∧ last.final = true ∧
      ∀ b ∈ before, b.final = false := by
  induction bodies using stored.induct with
  | case1 => exact absurd rfl hne
  | case2 body => exact ⟨[], _, rfl, rfl, by simp⟩
  | case3 body body' bodies ih =>
    obtain ⟨before, last, hshape, hlast, hbefore⟩ := ih (List.cons_ne_nil _ _)
    refine ⟨⟨false, body⟩ :: before, last, by rw [stored, hshape]; rfl, hlast, ?_⟩
    rw [List.forall_mem_cons]
    exact ⟨rfl, hbefore⟩

/-! ## Streams -/

/-- A stream, taken apart. -/
structure Stream where
  cmf : UInt8
  flg : UInt8
  blocks : List Block
  rest : Bytes
deriving DecidableEq

def read : Bytes → Option Stream
  | cmf :: flg :: bytes => do
    let (blocks, rest) ← inflate bytes
    some { cmf, flg, blocks, rest }
  | _ => none

/-- The stream is one of these bytes: the method is deflate with a check of the header and without a
dictionary, one block is final, the last, the blocks hold the bytes, and the rest is their
checksum. -/
structure Stream.Holds (s : Stream) (data : Bytes) : Prop where
  method : s.cmf.toNat % 16 = 8 ∧ s.cmf.toNat / 16 ≤ 7
  check : (s.cmf.toNat * 256 + s.flg.toNat) % 31 = 0
  no_dictionary : s.flg.toNat / 32 % 2 = 0
  final : ∃ before last, s.blocks = before ++ [last] ∧ last.final = true ∧ ∀ b ∈ before, b.final = false
  bodies : (s.blocks.map Block.body).flatten = data
  checksum : s.rest = be_bytes 4 (adler data)

/-- A header with the pieces stored behind it and the checksum is a stream of the pieces. -/
theorem read_stored (hne : bodies ≠ []) (hfit : ∀ body ∈ bodies, body.length ≤ 65535) :
    ∃ s, read (0x78 :: 0x01 :: (render (stored bodies) ++ be_bytes 4 (adler bodies.flatten))) = some s ∧
      s.Holds bodies.flatten := by
  refine ⟨⟨0x78, 0x01, stored bodies, be_bytes 4 (adler bodies.flatten)⟩, ?_, ?_⟩
  · rw [read, inflate_stored hne hfit]
    rfl
  · have hmethod : (0x78 : UInt8).toNat % 16 = 8 ∧ (0x78 : UInt8).toNat / 16 ≤ 7 := by decide
    have hcheck : ((0x78 : UInt8).toNat * 256 + (0x01 : UInt8).toNat) % 31 = 0 := by decide
    have hplain : (0x01 : UInt8).toNat / 32 % 2 = 0 := by decide
    refine ⟨hmethod, hcheck, hplain, stored_final hne, ?_, rfl⟩
    rw [bodies_of_stored]

end zlib
