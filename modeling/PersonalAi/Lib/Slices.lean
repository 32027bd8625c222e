-- Slices of a text at byte positions, which are made only between two characters.
import PersonalAi.Lib.Chars

namespace text

/-- What stands before and behind the byte `n`. It is none where `str` panics: inside a character, and
behind the end. -/
def split_at : Nat → List Char → Option (List Char × List Char)
  | 0, cs => some ([], cs)
  | _ + 1, [] => none
  | n + 1, c :: rest =>
    if c.utf8Size ≤ n + 1 then
      (split_at (n + 1 - c.utf8Size) rest).map (fun p => (c :: p.1, p.2))
    else none

/-- `&s[..n]`. -/
def slice_to (n : Nat) (cs : List Char) : Option (List Char) := (split_at n cs).map Prod.fst

/-- `&s[n..]`. -/
def slice_from (n : Nat) (cs : List Char) : Option (List Char) := (split_at n cs).map Prod.snd

theorem encode_cons_length (c : Char) (cs : List Char) :
    (encode (c :: cs)).length = c.utf8Size + (encode cs).length := by
  simp [encode]

theorem split_at_zero {cs a b : List Char} :
    split_at 0 cs = some (a, b) ↔ cs = a ++ b ∧ (encode a).length = 0 := by
  simp only [split_at, Option.some.injEq, Prod.mk.injEq, List.length_eq_zero_iff, encode_eq_nil]
  constructor
  · rintro ⟨rfl, rfl⟩
    exact ⟨rfl, rfl⟩
  · rintro ⟨hcs, rfl⟩
    exact ⟨rfl, hcs⟩

theorem split_at_eq_some {n : Nat} {cs a b : List Char} :
    split_at n cs = some (a, b) ↔ cs = a ++ b ∧ (encode a).length = n := by
  induction cs generalizing n a with
  | nil =>
    cases n with
    | zero => exact split_at_zero
    | succ n =>
      simp only [split_at, reduceCtorEq, false_iff, not_and]
      intro hnil hlen
      rw [(List.append_eq_nil_iff.mp hnil.symm).1] at hlen
      simp at hlen
  | cons c cs ih =>
    have hpos := Char.utf8Size_pos c
    cases n with
    | zero => exact split_at_zero
    | succ n =>
      rw [split_at]
      constructor
      · intro h
        split at h
        · rename_i hfits
          obtain ⟨⟨front, rest⟩, hfront, heq⟩ := Option.map_eq_some_iff.mp h
          obtain ⟨rfl, rfl⟩ := Prod.mk.inj heq
          obtain ⟨rfl, hlen⟩ := ih.mp hfront
          refine ⟨rfl, ?_⟩
          rw [encode_cons_length, hlen]
          omega
        · cases h
      · rintro ⟨hcs, hlen⟩
        cases a with
        | nil => simp at hlen
        | cons d front =>
          obtain ⟨rfl, rfl⟩ := List.cons.inj hcs
          rw [encode_cons_length] at hlen
          rw [if_pos (by omega), ih.mpr ⟨rfl, by omega⟩]
          rfl

theorem slice_to_eq_some {n : Nat} {cs head : List Char} :
    slice_to n cs = some head ↔ head <+: cs ∧ (encode head).length = n := by
  unfold slice_to
  constructor
  · intro h
    obtain ⟨⟨a, b⟩, hsplit, rfl⟩ := Option.map_eq_some_iff.mp h
    obtain ⟨rfl, hlen⟩ := split_at_eq_some.mp hsplit
    exact ⟨List.prefix_append a b, hlen⟩
  · rintro ⟨⟨b, rfl⟩, hlen⟩
    rw [split_at_eq_some.mpr ⟨rfl, hlen⟩]
    rfl

theorem slice_from_eq_some {n : Nat} {cs rest : List Char} :
    slice_from n cs = some rest ↔ ∃ head, cs = head ++ rest ∧ (encode head).length = n := by
  rw [slice_from, Option.map_eq_some_iff]
  constructor
  · rintro ⟨⟨head, behind⟩, hsplit, rfl⟩
    exact ⟨head, split_at_eq_some.mp hsplit⟩
  · rintro ⟨head, hshape⟩
    exact ⟨(head, rest), split_at_eq_some.mpr hshape, rfl⟩

theorem slice_to_eq_none {n : Nat} {cs : List Char} :
    slice_to n cs = none ↔ ∀ k, (encode (cs.take k)).length ≠ n := by
  constructor
  · intro h k hlen
    rw [slice_to_eq_some.mpr ⟨List.take_prefix k cs, hlen⟩] at h
    cases h
  · intro h
    rcases hslice : slice_to n cs with _ | head
    · rfl
    · obtain ⟨hpre, hlen⟩ := slice_to_eq_some.mp hslice
      rw [List.prefix_iff_eq_take.mp hpre] at hlen
      exact absurd hlen (h _)

/-- At the end of a part both slices are made. -/
theorem split_at_append (a b : List Char) : split_at (encode a).length (a ++ b) = some (a, b) :=
  split_at_eq_some.mpr ⟨rfl, rfl⟩

end text
