-- Text as bytes: UTF-8 and hex. The `hex` crate is third-party code, so its
-- functions follow its documented behaviour.
import Mathlib.Data.List.Basic

namespace text

/-- Bytes, as a `Vec<u8>` holds them. -/
abbrev Bytes := List UInt8

-- a name for it, so that a definition that looks bytes up in a list carries no proof of its own
instance bytes_lawful : LawfulBEq Bytes := inferInstance

/-- The UTF-8 bytes of a text. -/
def utf8 (s : String) : Bytes := s.toList.flatMap String.utf8EncodeChar

/-! ## Hex -/

/-- `hex::FromHexError`. -/
inductive FromHexError
  | OddLength
  | InvalidHexCharacter (c : Char) (index : Nat)
deriving DecidableEq, Repr

def FromHexError.to_string : FromHexError → String
  | .OddLength => "Odd number of digits"
  | .InvalidHexCharacter c index =>
    "Invalid character '" ++ c.toString ++ "' at position " ++ toString index

/-- The value of one hex digit. -/
def hexDigit (b : UInt8) : Option UInt8 :=
  if 48 ≤ b ∧ b ≤ 57 then some (b - 48)
  else if 65 ≤ b ∧ b ≤ 70 then some (b - 55)
  else if 97 ≤ b ∧ b ≤ 102 then some (b - 87)
  else none

def hexPairs : Nat → Bytes → Except FromHexError Bytes
  | _, [] => .ok []
  | _, [_] => .error .OddLength
  | i, a :: b :: rest =>
    match hexDigit a, hexDigit b with
    | none, _ => .error (.InvalidHexCharacter (Char.ofNat a.toNat) i)
    | some _, none => .error (.InvalidHexCharacter (Char.ofNat b.toNat) (i + 1))
    | some x, some y => (hexPairs (i + 2) rest).map (fun r => (x * 16 + y) :: r)

/-- `hex::decode`: the length is checked before the digits. -/
def hex_decode (s : String) : Except FromHexError Bytes :=
  if (utf8 s).length % 2 = 1 then .error .OddLength else hexPairs 0 (utf8 s)

theorem hexPairs_length {i : Nat} {b r : Bytes} (h : hexPairs i b = .ok r) :
    b.length = 2 * r.length := by
  fun_induction hexPairs i b generalizing r with
  | case1 =>
    cases h
    rfl
  | case2 => cases h
  | case3 => cases h
  | case4 => cases h
  | case5 i a b rest x hx y hy ih =>
    cases htail : hexPairs (i + 2) rest with
    | error e =>
      rw [htail] at h
      cases h
    | ok tail =>
      rw [htail] at h
      cases h
      have hlen := ih htail
      simp only [List.length_cons]
      omega

theorem hex_decode_length {s : String} {r : Bytes} (h : hex_decode s = .ok r) :
    (utf8 s).length = 2 * r.length := by
  unfold hex_decode at h
  split at h
  · cases h
  · exact hexPairs_length h

end text
