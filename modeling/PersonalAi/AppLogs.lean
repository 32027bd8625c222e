-- The tail of an app's output (pai-apps logs.rs): the last lines of a text, and of these the last
-- bytes. The law says when the cut falls between two characters.
import PersonalAi.Lib.Slices

open text

namespace pai_apps.logs

/-! ## The source -/

/-- The end of a line is a line feed, with a carriage return in front of it or not. -/
def chomp (l : List Char) : List Char := if l.getLast? = some '\r' then l.dropLast else l

/-- `str::lines`. What is behind the last line feed is a line if it is not empty, and keeps a carriage
return. -/
def str_lines (s : List Char) : List (List Char) :=
  (s.splitOn '\n').dropLast.map chomp ++ (s.splitOn '\n').getLast?.toList.filter (· ≠ [])

/-- The tail as `tail_str` joins it. -/
def joined_tail (s : List Char) (lines : Nat) : List Char :=
  ['\n'].intercalate ((str_lines s).reverse.take lines).reverse

/-- `none` is the panic of a slice that begins inside a character. -/
def tail_str (s : List Char) (lines max_bytes : Nat) : Option (List Char) :=
  let tail := joined_tail s lines
  if (encode tail).length ≤ max_bytes then some tail
  else slice_from ((encode tail).length - max_bytes) tail

/-! ## What is wanted -/

/-- The last lines of a text, or all of them if there are fewer. -/
def last_lines (s : List Char) (lines : Nat) : List Char :=
  ['\n'].intercalate ((str_lines s).drop ((str_lines s).length - lines))

/-- The call returns, with at most so many bytes, which end the last lines of the text. -/
def Bounded (s : List Char) (lines max_bytes : Nat) : Prop :=
  ∃ out, tail_str s lines max_bytes = some out ∧ (encode out).length ≤ max_bytes ∧
    out <:+ last_lines s lines

/-! ## When it is so -/

theorem joined_tail_eq (s : List Char) (lines : Nat) : joined_tail s lines = last_lines s lines := by
  rw [joined_tail, last_lines, List.take_reverse, List.reverse_reverse]

theorem encode_append_length (a b : List Char) :
    (encode (a ++ b)).length = (encode a).length + (encode b).length := by
  rw [encode_append, List.length_append]

/-- The tail is returned within its bound, and without a panic, exactly where it is not too long or a
character of it begins just so many bytes before its end. -/
theorem tail_is_bounded_iff (s : List Char) (lines max_bytes : Nat) :
    Bounded s lines max_bytes ↔
      (encode (last_lines s lines)).length ≤ max_bytes ∨
        ∃ rest, rest <:+ last_lines s lines ∧ (encode rest).length = max_bytes := by
  unfold Bounded tail_str
  rw [joined_tail_eq]
  by_cases hshort : (encode (last_lines s lines)).length ≤ max_bytes
  · rw [if_pos hshort]
    exact iff_of_true ⟨_, rfl, hshort, List.suffix_rfl⟩ (.inl hshort)
  · rw [if_neg hshort]
    constructor
    · rintro ⟨out, hout, -, hsuffix⟩
      obtain ⟨head, hshape, hhead⟩ := slice_from_eq_some.mp hout
      have hlen := congrArg (fun cs => (encode cs).length) hshape
      rw [encode_append_length] at hlen
      exact .inr ⟨out, hsuffix, by omega⟩
    · rintro (hle | ⟨rest, ⟨head, hshape⟩, hrest⟩)
      · exact absurd hle hshort
      · have hlen := congrArg (fun cs => (encode cs).length) hshape
        rw [encode_append_length] at hlen
        refine ⟨rest, slice_from_eq_some.mpr ⟨head, hshape.symm, by omega⟩, Nat.le_of_eq hrest, ?_⟩
        exact ⟨head, hshape⟩

/-- An accented letter has two bytes, and a tail of one byte would begin inside it. -/
theorem an_accent_is_cut :
    ¬ (∀ s lines max_bytes, Bounded s lines max_bytes) ∧ tail_str ['é'] 5 1 = none := by
  have hnone : tail_str ['é'] 5 1 = none := by decide
  refine ⟨fun h => ?_, hnone⟩
  obtain ⟨out, hout, -⟩ := h ['é'] 5 1
  rw [hnone] at hout
  cases hout

end pai_apps.logs
