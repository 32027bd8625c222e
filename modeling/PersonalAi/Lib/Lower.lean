-- Lower-casing as `str::to_lowercase` does it: character by character after the tables of Unicode.
import Mathlib
import PersonalAi.Lib.Chars

namespace text

/-- The characters that have a small form, in runs: the first, the last, the step between them and
the distance to the small form. -/
def LOWERCASE : List (Nat × Nat × Nat × Int) :=
  [(0x41, 0x5A, 1, 32), (0xC0, 0xD6, 1, 32), (0xD8, 0xDE, 1, 32), (0x100, 0x12E, 2, 1),
    (0x132, 0x136, 2, 1), (0x139, 0x147, 2, 1), (0x14A, 0x176, 2, 1), (0x178, 0x178, 1, -121),
    (0x179, 0x17D, 2, 1), (0x181, 0x181, 1, 210), (0x182, 0x184, 2, 1), (0x186, 0x186, 1, 206),
    (0x187, 0x187, 1, 1), (0x189, 0x18A, 1, 205), (0x18B, 0x18B, 1, 1), (0x18E, 0x18E, 1, 79),
    (0x18F, 0x18F, 1, 202), (0x190, 0x190, 1, 203), (0x191, 0x191, 1, 1), (0x193, 0x193, 1, 205),
    (0x194, 0x194, 1, 207), (0x196, 0x196, 1, 211), (0x197, 0x197, 1, 209), (0x198, 0x198, 1, 1),
    (0x19C, 0x19C, 1, 211), (0x19D, 0x19D, 1, 213), (0x19F, 0x19F, 1, 214), (0x1A0, 0x1A4, 2, 1),
    (0x1A6, 0x1A6, 1, 218), (0x1A7, 0x1A7, 1, 1), (0x1A9, 0x1A9, 1, 218), (0x1AC, 0x1AC, 1, 1),
    (0x1AE, 0x1AE, 1, 218), (0x1AF, 0x1AF, 1, 1), (0x1B1, 0x1B2, 1, 217), (0x1B3, 0x1B5, 2, 1),
    (0x1B7, 0x1B7, 1, 219), (0x1B8, 0x1B8, 1, 1), (0x1BC, 0x1BC, 1, 1), (0x1C4, 0x1C4, 1, 2),
    (0x1C5, 0x1C5, 1, 1), (0x1C7, 0x1C7, 1, 2), (0x1C8, 0x1C8, 1, 1), (0x1CA, 0x1CA, 1, 2),
    (0x1CB, 0x1DB, 2, 1), (0x1DE, 0x1EE, 2, 1), (0x1F1, 0x1F1, 1, 2), (0x1F2, 0x1F4, 2, 1),
    (0x1F6, 0x1F6, 1, -97), (0x1F7, 0x1F7, 1, -56), (0x1F8, 0x21E, 2, 1), (0x220, 0x220, 1, -130),
    (0x222, 0x232, 2, 1), (0x23A, 0x23A, 1, 10795), (0x23B, 0x23B, 1, 1), (0x23D, 0x23D, 1, -163),
    (0x23E, 0x23E, 1, 10792), (0x241, 0x241, 1, 1), (0x243, 0x243, 1, -195), (0x244, 0x244, 1, 69),
    (0x245, 0x245, 1, 71), (0x246, 0x24E, 2, 1), (0x370, 0x372, 2, 1), (0x376, 0x376, 1, 1),
    (0x37F, 0x37F, 1, 116), (0x386, 0x386, 1, 38), (0x388, 0x38A, 1, 37), (0x38C, 0x38C, 1, 64),
    (0x38E, 0x38F, 1, 63), (0x391, 0x3A1, 1, 32), (0x3A3, 0x3AB, 1, 32), (0x3CF, 0x3CF, 1, 8),
    (0x3D8, 0x3EE, 2, 1), (0x3F4, 0x3F4, 1, -60), (0x3F7, 0x3F7, 1, 1), (0x3F9, 0x3F9, 1, -7),
    (0x3FA, 0x3FA, 1, 1), (0x3FD, 0x3FF, 1, -130), (0x400, 0x40F, 1, 80), (0x410, 0x42F, 1, 32),
    (0x460, 0x480, 2, 1), (0x48A, 0x4BE, 2, 1), (0x4C0, 0x4C0, 1, 15), (0x4C1, 0x4CD, 2, 1),
    (0x4D0, 0x52E, 2, 1), (0x531, 0x556, 1, 48), (0x10A0, 0x10C5, 1, 7264),
    (0x10C7, 0x10C7, 1, 7264), (0x10CD, 0x10CD, 1, 7264), (0x13A0, 0x13EF, 1, 38864),
    (0x13F0, 0x13F5, 1, 8), (0x1C89, 0x1C89, 1, 1), (0x1C90, 0x1CBA, 1, -3008),
    (0x1CBD, 0x1CBF, 1, -3008), (0x1E00, 0x1E94, 2, 1), (0x1E9E, 0x1E9E, 1, -7615),
    (0x1EA0, 0x1EFE, 2, 1), (0x1F08, 0x1F0F, 1, -8), (0x1F18, 0x1F1D, 1, -8),
    (0x1F28, 0x1F2F, 1, -8), (0x1F38, 0x1F3F, 1, -8), (0x1F48, 0x1F4D, 1, -8),
    (0x1F59, 0x1F5F, 2, -8), (0x1F68, 0x1F6F, 1, -8), (0x1F88, 0x1F8F, 1, -8),
    (0x1F98, 0x1F9F, 1, -8), (0x1FA8, 0x1FAF, 1, -8), (0x1FB8, 0x1FB9, 1, -8),
    (0x1FBA, 0x1FBB, 1, -74), (0x1FBC, 0x1FBC, 1, -9), (0x1FC8, 0x1FCB, 1, -86),
    (0x1FCC, 0x1FCC, 1, -9), (0x1FD8, 0x1FD9, 1, -8), (0x1FDA, 0x1FDB, 1, -100),
    (0x1FE8, 0x1FE9, 1, -8), (0x1FEA, 0x1FEB, 1, -112), (0x1FEC, 0x1FEC, 1, -7),
    (0x1FF8, 0x1FF9, 1, -128), (0x1FFA, 0x1FFB, 1, -126), (0x1FFC, 0x1FFC, 1, -9),
    (0x2126, 0x2126, 1, -7517), (0x212A, 0x212A, 1, -8383), (0x212B, 0x212B, 1, -8262),
    (0x2132, 0x2132, 1, 28), (0x2160, 0x216F, 1, 16), (0x2183, 0x2183, 1, 1),
    (0x24B6, 0x24CF, 1, 26), (0x2C00, 0x2C2F, 1, 48), (0x2C60, 0x2C60, 1, 1),
    (0x2C62, 0x2C62, 1, -10743), (0x2C63, 0x2C63, 1, -3814), (0x2C64, 0x2C64, 1, -10727),
    (0x2C67, 0x2C6B, 2, 1), (0x2C6D, 0x2C6D, 1, -10780), (0x2C6E, 0x2C6E, 1, -10749),
    (0x2C6F, 0x2C6F, 1, -10783), (0x2C70, 0x2C70, 1, -10782), (0x2C72, 0x2C72, 1, 1),
    (0x2C75, 0x2C75, 1, 1), (0x2C7E, 0x2C7F, 1, -10815), (0x2C80, 0x2CE2, 2, 1),
    (0x2CEB, 0x2CED, 2, 1), (0x2CF2, 0x2CF2, 1, 1), (0xA640, 0xA66C, 2, 1), (0xA680, 0xA69A, 2, 1),
    (0xA722, 0xA72E, 2, 1), (0xA732, 0xA76E, 2, 1), (0xA779, 0xA77B, 2, 1),
    (0xA77D, 0xA77D, 1, -35332), (0xA77E, 0xA786, 2, 1), (0xA78B, 0xA78B, 1, 1),
    (0xA78D, 0xA78D, 1, -42280), (0xA790, 0xA792, 2, 1), (0xA796, 0xA7A8, 2, 1),
    (0xA7AA, 0xA7AA, 1, -42308), (0xA7AB, 0xA7AB, 1, -42319), (0xA7AC, 0xA7AC, 1, -42315),
    (0xA7AD, 0xA7AD, 1, -42305), (0xA7AE, 0xA7AE, 1, -42308), (0xA7B0, 0xA7B0, 1, -42258),
    (0xA7B1, 0xA7B1, 1, -42282), (0xA7B2, 0xA7B2, 1, -42261), (0xA7B3, 0xA7B3, 1, 928),
    (0xA7B4, 0xA7C2, 2, 1), (0xA7C4, 0xA7C4, 1, -48), (0xA7C5, 0xA7C5, 1, -42307),
    (0xA7C6, 0xA7C6, 1, -35384), (0xA7C7, 0xA7C9, 2, 1), (0xA7CB, 0xA7CB, 1, -42343),
    (0xA7CC, 0xA7CC, 1, 1), (0xA7D0, 0xA7D0, 1, 1), (0xA7D6, 0xA7DA, 2, 1),
    (0xA7DC, 0xA7DC, 1, -42561), (0xA7F5, 0xA7F5, 1, 1), (0xFF21, 0xFF3A, 1, 32),
    (0x10400, 0x10427, 1, 40), (0x104B0, 0x104D3, 1, 40), (0x10570, 0x10594, 2, 39),
    (0x10571, 0x10579, 2, 39), (0x1057D, 0x10589, 2, 39), (0x1058D, 0x10591, 2, 39),
    (0x10595, 0x10595, 1, 39), (0x10C80, 0x10CB2, 1, 64), (0x10D50, 0x10D65, 1, 32),
    (0x118A0, 0x118BF, 1, 32), (0x16E40, 0x16E5F, 1, 32), (0x1E900, 0x1E921, 1, 34)]

/-- `char::to_lowercase`. One character has a small form of two. -/
def lower_char (c : Char) : List Char :=
  if c.toNat = 0x130 then ['i', Char.ofNat 0x307]
  else
    match LOWERCASE.find? (fun r =>
      decide (r.1 ≤ c.toNat ∧ c.toNat ≤ r.2.1 ∧ (c.toNat - r.1) % r.2.2.1 = 0)) with
    | some r => [Char.ofNat (c.toNat + r.2.2.2).toNat]
    | none => [c]

/-- The loop of `str::to_lowercase`, with the characters behind it in reverse. A sigma at the end of
a word has a form of its own. -/
def lower_from (word_final : List Char → List Char → Bool) : List Char → List Char → List Char
  | _, [] => []
  | behind, c :: rest =>
    (if c.toNat = 0x3A3 ∧ word_final behind rest then [Char.ofNat 0x3C2] else lower_char c) ++
      lower_from word_final (c :: behind) rest

/-- `str::to_lowercase`. What ends a word is left open: both small forms of sigma take two bytes,
and neither is an ASCII character. -/
def to_lowercase (word_final : List Char → List Char → Bool) (cs : List Char) : List Char :=
  lower_from word_final [] cs

/-! ## ASCII -/

theorem LOWERCASE_eq : LOWERCASE = (0x41, 0x5A, 1, 32) :: LOWERCASE.tail := rfl

/-- The runs behind the first one have no ASCII characters. One small form of theirs is an ASCII
character: that of the sign for kelvin. -/
theorem runs_behind : ∀ r ∈ LOWERCASE.tail,
    128 ≤ r.1 ∧ ((128 : Int) ≤ r.1 + r.2.2.2 ∨ (r.1 : Int) + r.2.2.2 = 107) := by
  have h : LOWERCASE.tail.all (fun r =>
      decide (128 ≤ r.1 ∧ ((128 : Int) ≤ r.1 + r.2.2.2 ∨ (r.1 : Int) + r.2.2.2 = 107))) = true := by
    decide
  intro r hr
  exact of_decide_eq_true (List.all_eq_true.mp h r hr)

theorem isUpper_iff {c : Char} : c.isUpper = true ↔ 65 ≤ c.toNat ∧ c.toNat ≤ 90 := by
  simp only [Char.isUpper, ge_iff_le, Bool.and_eq_true, decide_eq_true_eq, UInt32.le_iff_toNat_le]
  rfl

theorem toLower_eq_self {c : Char} : c.toLower = c ↔ c.isUpper = false := by
  constructor
  · intro h
    rw [← h, Char.isUpper_toLower_eq_false]
  · intro h
    exact Char.toLower_eq_of_not_isUpper (by simp [h])

theorem lower_char_ascii {c : Char} (h : c.toNat < 128) : lower_char c = [c.toLower] := by
  have hbehind : LOWERCASE.tail.find? (fun r =>
      decide (r.1 ≤ c.toNat ∧ c.toNat ≤ r.2.1 ∧ (c.toNat - r.1) % r.2.2.1 = 0)) = none := by
    rw [List.find?_eq_none]
    intro r hr hin
    have := (runs_behind r hr).1
    have := (of_decide_eq_true hin).1
    omega
  unfold lower_char
  rw [if_neg (by omega), LOWERCASE_eq, List.find?_cons]
  by_cases hupper : c.isUpper = true
  · have hrun := isUpper_iff.mp hupper
    have hin : decide (0x41 ≤ c.toNat ∧ c.toNat ≤ 0x5A ∧ (c.toNat - 0x41) % 1 = 0) = true :=
      decide_eq_true ⟨hrun.1, hrun.2, Nat.mod_one _⟩
    rw [hin, Char.toLower_eq_of_isUpper hupper]
    rfl
  · have hout : decide (0x41 ≤ c.toNat ∧ c.toNat ≤ 0x5A ∧ (c.toNat - 0x41) % 1 = 0) = false :=
      decide_eq_false fun hin => hupper (isUpper_iff.mpr ⟨hin.1, hin.2.1⟩)
    rw [hout, hbehind, Char.toLower_eq_of_not_isUpper hupper]

theorem lower_from_ascii (word_final : List Char → List Char → Bool) (behind : List Char)
    {cs : List Char} (h : ∀ c ∈ cs, c.toNat < 128) :
    lower_from word_final behind cs = cs.map Char.toLower := by
  induction cs generalizing behind with
  | nil => rfl
  | cons c cs ih =>
    have hc := h c List.mem_cons_self
    rw [lower_from, if_neg (fun hsigma => by omega), lower_char_ascii hc,
      ih (c :: behind) fun d hd => h d (List.mem_cons_of_mem _ hd)]
    rfl

theorem to_lowercase_ascii (word_final : List Char → List Char → Bool) {cs : List Char}
    (h : ∀ c ∈ cs, c.toNat < 128) : to_lowercase word_final cs = cs.map Char.toLower :=
  lower_from_ascii word_final [] h

/-- A small form has no small form of its own. -/
theorem lower_char_small {c d : Char} (h : d ∈ lower_char c) : d.isUpper = false := by
  unfold lower_char at h
  split at h
  · rcases List.mem_cons.mp h with rfl | h
    · decide
    · obtain rfl := List.mem_singleton.mp h
      decide
  · split at h
    · rename_i r hfind
      obtain rfl := List.mem_singleton.mp h
      have hfirst : r.1 ≤ c.toNat := by
        have hin := hfind
        rw [List.find?_eq_some_iff_append] at hin
        exact (of_decide_eq_true hin.1).1
      have hlarge : 90 < ((c.toNat : Int) + r.2.2.2).toNat := by
        rw [LOWERCASE_eq] at hfind
        rcases List.mem_cons.mp (List.mem_of_find?_eq_some hfind) with rfl | hr
        · dsimp only
          omega
        · have := runs_behind r hr
          omega
      rw [Bool.eq_false_iff, ne_eq, isUpper_iff]
      rw [Char.toNat_ofNat]
      split <;> omega
    · rename_i hfind
      obtain rfl := List.mem_singleton.mp h
      rw [LOWERCASE_eq, List.find?_cons] at hfind
      rw [Bool.eq_false_iff, ne_eq, isUpper_iff]
      intro hupper
      have hin : decide (0x41 ≤ d.toNat ∧ d.toNat ≤ 0x5A ∧ (d.toNat - 0x41) % 1 = 0) = true :=
        decide_eq_true ⟨hupper.1, hupper.2, Nat.mod_one _⟩
      rw [hin] at hfind
      cases hfind

end text
