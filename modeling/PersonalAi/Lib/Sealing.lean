-- Ideal sealing and signing: a box opens only with its key and its associated
-- data, and a signature holds only for the text its signer signed.
import Mathlib.Data.List.Basic

namespace sealing

variable {K A P T : Type}

/-- A ciphertext: a box that someone with the key sealed, or bytes that nobody
sealed. -/
inductive Blob (K A P : Type)
  | box (key : K) (aad : A) (plain : P)
  | junk
deriving DecidableEq

def seal_with (key : K) (aad : A) (plain : P) : Blob K A P := .box key aad plain

def open_with [DecidableEq K] [DecidableEq A] (key : K) (aad : A) : Blob K A P → Option P
  | .box k a p => if k = key ∧ a = aad then some p else none
  | .junk => none

/-- What opens was sealed under this key for this associated data. -/
theorem open_with_eq_some [DecidableEq K] [DecidableEq A] {key : K} {aad : A} {b : Blob K A P}
    {p : P} : open_with key aad b = some p ↔ b = .box key aad p := by
  cases b with
  | junk => simp [open_with]
  | box k a q =>
    simp only [open_with, Blob.box.injEq]
    constructor
    · intro h
      split at h
      · rename_i hka
        exact ⟨hka.1, hka.2, by simpa using h⟩
      · cases h
    · rintro ⟨rfl, rfl, rfl⟩
      simp

@[simp] theorem open_seal [DecidableEq K] [DecidableEq A] (key : K) (aad : A) (p : P) :
    open_with key aad (seal_with key aad p) = some p :=
  open_with_eq_some.mpr rfl

/-- A signature, as the text it signs and the key that verifies it. -/
structure Signature (K T : Type) where
  key : K
  text : T
deriving DecidableEq

def verify_with [DecidableEq K] [DecidableEq T] (key : K) (text : T) (sig : Signature K T) : Bool :=
  decide (sig.key = key) && decide (sig.text = text)

@[simp] theorem verify_own [DecidableEq K] [DecidableEq T] (key : K) (text : T) :
    verify_with key text ⟨key, text⟩ = true := by
  simp [verify_with]

end sealing
