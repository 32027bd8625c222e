-- Files of tagged chunks: numbers with the low byte first, and chunks with a tag, a length and a
-- body that is padded to an even length. What is written chunk by chunk is read chunk by chunk.
import Mathlib.Algebra.Group.Nat.Defs
import Mathlib.Data.List.Basic
import PersonalAi.Lib.Text

open text

namespace riff

/-! ## Numbers -/

/-- The low bytes of a number, the lowest first. -/
def le_bytes : Nat → Nat → Bytes
  | 0, _ => []
  | k + 1, n => UInt8.ofNat n :: le_bytes k (n / 256)

def le_value : Bytes → Nat
  | [] => 0
  | b :: rest => b.toNat + 256 * le_value rest

@[simp] theorem le_bytes_length (k n : Nat) : (le_bytes k n).length = k := by
  induction k generalizing n with
  | zero => rfl
  | succ k ih => rw [le_bytes, List.length_cons, ih]

/-- As many bytes as a number needs give it back. -/
theorem le_value_le_bytes {k n : Nat} (h : n < 256 ^ k) : le_value (le_bytes k n) = n := by
  induction k generalizing n with
  | zero =>
    rw [Nat.pow_zero] at h
    rw [le_bytes, le_value]
    omega
  | succ k ih =>
    have hrest : n / 256 < 256 ^ k := by
      rw [Nat.pow_succ] at h
      omega
    rw [le_bytes, le_value, ih hrest, UInt8.toNat_ofNat']
    omega

theorem le_value_lt (bytes : Bytes) : le_value bytes < 256 ^ bytes.length := by
  induction bytes with
  | nil => exact Nat.one_pos
  | cons b bytes ih =>
    have hb := b.toNat_lt
    rw [le_value, List.length_cons, Nat.pow_succ]
    omega

/-! ## Chunks -/

/-- A chunk: a tag of four bytes, and a body whose length fits its field. The padding byte stands
behind a body of odd length. -/
structure Chunk where
  tag : Bytes
  body : Bytes
  padding : UInt8
  tag_length : tag.length = 4
  fits : body.length < 256 ^ 4

def Chunk.bytes (c : Chunk) : Bytes :=
  c.tag ++ le_bytes 4 c.body.length ++ c.body ++ List.replicate (c.body.length % 2) c.padding

def Chunk.view (c : Chunk) : Bytes × Bytes := (c.tag, c.body)

def render (cs : List Chunk) : Bytes := cs.flatMap Chunk.bytes

/-- The length that the head of a chunk gives. -/
def size (bytes : Bytes) : Nat := le_value ((bytes.drop 4).take 4)

/-- The chunks of a file, of which the last may be cut short; the fuel bounds how many there are. -/
def chunks_from : Nat → Bytes → List (Bytes × Bytes)
  | 0, _ => []
  | fuel + 1, bytes =>
    if 8 ≤ bytes.length then
      (bytes.take 4, (bytes.drop 8).take (size bytes)) ::
        chunks_from fuel (bytes.drop (8 + size bytes + size bytes % 2))
    else []

def chunks (bytes : Bytes) : List (Bytes × Bytes) := chunks_from bytes.length bytes

/-! ## Reading -/

/-- Enough fuel is enough. -/
theorem chunks_from_enough {fuel : Nat} {bytes : Bytes} (h : bytes.length ≤ fuel) :
    chunks_from fuel bytes = chunks bytes := by
  have hall : ∀ f g bytes, bytes.length ≤ f → bytes.length ≤ g →
      chunks_from f bytes = chunks_from g bytes := by
    intro f
    induction f with
    | zero =>
      intro g bytes hf _
      cases g with
      | zero => rfl
      | succ g =>
        rw [chunks_from, chunks_from, if_neg (by omega)]
    | succ f ih =>
      intro g bytes hf hg
      cases g with
      | zero => rw [chunks_from, chunks_from, if_neg (by omega)]
      | succ g =>
        rw [chunks_from, chunks_from]
        split
        · have hrest : (bytes.drop (8 + size bytes + size bytes % 2)).length + 8 ≤ bytes.length := by
            rw [List.length_drop]
            omega
          rw [ih g _ (by omega) (by omega)]
        · rfl
  exact hall fuel bytes.length bytes h (Nat.le_refl _)

theorem chunks_step {bytes : Bytes} (h : 8 ≤ bytes.length) :
    chunks bytes = (bytes.take 4, (bytes.drop 8).take (size bytes)) ::
      chunks (bytes.drop (8 + size bytes + size bytes % 2)) := by
  obtain ⟨fuel, hfuel⟩ : ∃ fuel, bytes.length = fuel + 1 := ⟨bytes.length - 1, by omega⟩
  have hrest : (bytes.drop (8 + size bytes + size bytes % 2)).length ≤ fuel := by
    rw [List.length_drop]
    omega
  rw [chunks, hfuel, chunks_from, if_pos h, chunks_from_enough hrest]

theorem chunks_short {bytes : Bytes} (h : bytes.length < 8) : chunks bytes = [] := by
  unfold chunks
  cases hlen : bytes.length with
  | zero => rfl
  | succ fuel => rw [chunks_from, if_neg (by omega)]

/-- A chunk in front is read as it is. -/
theorem chunks_cons (c : Chunk) (rest : Bytes) : chunks (c.bytes ++ rest) = c.view :: chunks rest := by
  have htag := c.tag_length
  have hshape : c.bytes ++ rest = c.tag ++ (le_bytes 4 c.body.length ++
      (c.body ++ (List.replicate (c.body.length % 2) c.padding ++ rest))) := by
    simp [Chunk.bytes, List.append_assoc]
  have hdrop4 : (c.bytes ++ rest).drop 4 = le_bytes 4 c.body.length ++
      (c.body ++ (List.replicate (c.body.length % 2) c.padding ++ rest)) := by
    rw [hshape, ← htag, List.drop_left]
  have hdrop8 : (c.bytes ++ rest).drop 8 =
      c.body ++ (List.replicate (c.body.length % 2) c.padding ++ rest) := by
    have height : (c.bytes ++ rest).drop 8 = ((c.bytes ++ rest).drop 4).drop 4 := by
      rw [List.drop_drop]
    rw [height, hdrop4]
    exact List.drop_left' (le_bytes_length 4 _)
  have hsize : size (c.bytes ++ rest) = c.body.length := by
    rw [size, hdrop4, List.take_left' (le_bytes_length 4 _), le_value_le_bytes c.fits]
  have hlong : 8 ≤ (c.bytes ++ rest).length := by
    rw [hshape]
    simp only [List.length_append, le_bytes_length]
    omega
  have hnext : (c.bytes ++ rest).drop (8 + c.body.length + c.body.length % 2) = rest := by
    rw [Nat.add_assoc, ← List.drop_drop, hdrop8, ← List.drop_drop, List.drop_left]
    exact List.drop_left' List.length_replicate
  rw [chunks_step hlong, hsize, hdrop8, List.take_left, hnext, hshape, ← htag, List.take_left]
  rfl

/-- What is written chunk by chunk is read chunk by chunk. -/
theorem chunks_render (cs : List Chunk) (rest : Bytes) :
    chunks (render cs ++ rest) = cs.map Chunk.view ++ chunks rest := by
  induction cs with
  | nil => rfl
  | cons c cs ih =>
    have hshape : render (c :: cs) ++ rest = c.bytes ++ (render cs ++ rest) := by
      rw [render, List.flatMap_cons, List.append_assoc]
      rfl
    rw [hshape, chunks_cons, ih]
    rfl

end riff
