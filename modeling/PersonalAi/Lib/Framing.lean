-- Records in one stream: a name and a body, each with a separator behind it.
-- Bytes of names that need not be text.
import PersonalAi.Lib.Text
import Mathlib.Data.List.Count

namespace framing

/-! ## Separators -/

section Separators
variable {α : Type} [DecidableEq α] (sep : α)

def frame (r : List α × List α) : List α := r.1 ++ sep :: (r.2 ++ [sep])

def stream (rs : List (List α × List α)) : List α := rs.flatMap (frame sep)

/-- How often the separator stands in each body. -/
def separators (rs : List (List α × List α)) : List Nat := rs.map (fun r => r.2.count sep)

variable {sep}

/-- A part ends at the separator behind as many others as stand in it. -/
theorem part_ends {a b x y : List α} (hcount : a.count sep = b.count sep)
    (h : a ++ sep :: x = b ++ sep :: y) : a = b ∧ x = y := by
  induction a generalizing b with
  | nil =>
    cases b with
    | nil => exact ⟨rfl, by simpa using h⟩
    | cons d b =>
      simp only [List.nil_append, List.cons_append, List.cons.injEq] at h
      rw [← h.1] at hcount
      simp at hcount
  | cons c a ih =>
    cases b with
    | nil =>
      simp only [List.nil_append, List.cons_append, List.cons.injEq] at h
      rw [h.1] at hcount
      simp at hcount
    | cons d b =>
      simp only [List.cons_append, List.cons.injEq] at h
      obtain ⟨hcd, htail⟩ := h
      subst hcd
      simp only [List.count_cons, Nat.add_right_cancel_iff] at hcount
      obtain ⟨hab, hxy⟩ := ih hcount htail
      exact ⟨by rw [hab], hxy⟩

/-- The stream of records whose names are free of the separator says the records,
when their bodies hold it equally often. -/
theorem stream_inj {rs ss : List (List α × List α)} (hrs : ∀ r ∈ rs, sep ∉ r.1)
    (hss : ∀ s ∈ ss, sep ∉ s.1) (hcount : separators sep rs = separators sep ss)
    (h : stream sep rs = stream sep ss) : rs = ss := by
  induction rs generalizing ss with
  | nil =>
    cases ss with
    | nil => rfl
    | cons s ss => simp [separators] at hcount
  | cons r rs ih =>
    cases ss with
    | nil => simp [separators] at hcount
    | cons s ss =>
      simp only [separators, List.map_cons, List.cons.injEq] at hcount
      simp only [stream, List.flatMap_cons, frame, List.append_assoc, List.cons_append,
        List.nil_append] at h
      have hname : r.1.count sep = s.1.count sep := by
        rw [List.count_eq_zero_of_not_mem (hrs r (by simp)),
          List.count_eq_zero_of_not_mem (hss s (by simp))]
      obtain ⟨hfst, hrest⟩ := part_ends hname h
      obtain ⟨hsnd, hstream⟩ := part_ends hcount.1 hrest
      have htail := ih (fun r' hr => hrs r' (by simp [hr])) (fun s' hs => hss s' (by simp [hs]))
        hcount.2 hstream
      rw [Prod.ext hfst hsnd, htail]

end Separators

/-! ## Bytes read as text -/

open text

def continuation (b : UInt8) : Bool := 0x80 ≤ b && b ≤ 0xBF

/-- The bytes that a character with this first byte has; 0 where none has it. -/
def width (b : UInt8) : Nat :=
  if b ≤ 0x7F then 1
  else if 0xC2 ≤ b && b ≤ 0xDF then 2
  else if 0xE0 ≤ b && b ≤ 0xEF then 3
  else if 0xF0 ≤ b && b ≤ 0xF4 then 4
  else 0

/-- The second bytes behind a first one: no overlong form, no surrogate, nothing
past the last character. -/
def second (b0 b1 : UInt8) : Bool :=
  if b0 = 0xE0 then 0xA0 ≤ b1 && b1 ≤ 0xBF
  else if b0 = 0xED then 0x80 ≤ b1 && b1 ≤ 0x9F
  else if b0 = 0xF0 then 0x90 ≤ b1 && b1 ≤ 0xBF
  else if b0 = 0xF4 then 0x80 ≤ b1 && b1 ≤ 0x8F
  else continuation b1

/-- The bytes of U+FFFD. -/
def replacement : Bytes := [0xEF, 0xBF, 0xBD]

/-- `String::from_utf8_lossy`, as bytes: each longest start of a character that does
not go on becomes one U+FFFD. -/
def from_utf8_lossy : Bytes → Bytes
  | [] => []
  | b0 :: rest =>
    if width b0 = 0 then replacement ++ from_utf8_lossy rest
    else if width b0 = 1 then b0 :: from_utf8_lossy rest
    else
      match rest with
      | [] => replacement
      | b1 :: rest1 =>
        if second b0 b1 = false then replacement ++ from_utf8_lossy (b1 :: rest1)
        else if width b0 = 2 then b0 :: b1 :: from_utf8_lossy rest1
        else
          match rest1 with
          | [] => replacement
          | b2 :: rest2 =>
            if continuation b2 = false then replacement ++ from_utf8_lossy (b2 :: rest2)
            else if width b0 = 3 then b0 :: b1 :: b2 :: from_utf8_lossy rest2
            else
              match rest2 with
              | [] => replacement
              | b3 :: rest3 =>
                if continuation b3 = false then replacement ++ from_utf8_lossy (b3 :: rest3)
                else b0 :: b1 :: b2 :: b3 :: from_utf8_lossy rest3

/-- A reading has a NUL only where the bytes have one. -/
theorem nul_of_lossy {bs : Bytes} (h : (0 : UInt8) ∈ from_utf8_lossy bs) : (0 : UInt8) ∈ bs := by
  have hrep : (0 : UInt8) ∉ replacement := by decide
  fun_induction from_utf8_lossy bs
  case case1 => exact h
  all_goals grind

/-- The encoding of a character: one byte, two, or three and more, of which the first alone can
begin a character. -/
theorem utf8_shape (c : Char) :
    (c.toNat < 0x80 ∧ String.utf8EncodeChar c = [UInt8.ofNat c.toNat]) ∨
      (0x80 ≤ c.toNat ∧ c.toNat < 0x800 ∧ ∃ a b, String.utf8EncodeChar c = [a, b] ∧
        0x80 ≤ a ∧ continuation a = false ∧ continuation b = true) ∨
      (0x800 ≤ c.toNat ∧ ∃ a b d more, String.utf8EncodeChar c = a :: b :: d :: more ∧
        0x80 ≤ a ∧ continuation a = false ∧ continuation b = true ∧ continuation d = true) := by
  have hc : c.val.toNat = c.toNat := rfl
  have hfollow : ∀ n < 0x40, continuation (UInt8.ofNat (n + 0x80)) = true := by decide
  have htwo : ∀ n < 0x20, 0x80 ≤ UInt8.ofNat (n + 0xC0) ∧
      continuation (UInt8.ofNat (n + 0xC0)) = false := by decide
  have hthree : ∀ n < 0x10, 0x80 ≤ UInt8.ofNat (n + 0xE0) ∧
      continuation (UInt8.ofNat (n + 0xE0)) = false := by decide
  have hfour : ∀ n < 8, 0x80 ≤ UInt8.ofNat (n + 0xF0) ∧
      continuation (UInt8.ofNat (n + 0xF0)) = false := by decide
  unfold String.utf8EncodeChar
  simp only [hc]
  split_ifs with h1 h2 h3
  · exact .inl ⟨by omega, rfl⟩
  · have hlead := htwo (c.toNat / 64 % 32) (Nat.mod_lt _ (by decide))
    exact .inr (.inl ⟨by omega, by omega, _, _, rfl, hlead.1, hlead.2,
      hfollow _ (Nat.mod_lt _ (by decide))⟩)
  · have hlead := hthree (c.toNat / 4096 % 16) (Nat.mod_lt _ (by decide))
    exact .inr (.inr ⟨by omega, _, _, _, _, rfl, hlead.1, hlead.2,
      hfollow _ (Nat.mod_lt _ (by decide)), hfollow _ (Nat.mod_lt _ (by decide))⟩)
  · have hlead := hfour (c.toNat / 262144 % 8) (Nat.mod_lt _ (by decide))
    exact .inr (.inr ⟨by omega, _, _, _, _, rfl, hlead.1, hlead.2,
      hfollow _ (Nat.mod_lt _ (by decide)), hfollow _ (Nat.mod_lt _ (by decide))⟩)

theorem width_ascii {b : UInt8} : width b = 1 ↔ b < 0x80 := by
  unfold width
  grind

theorem continuation_high {b : UInt8} (h : continuation b = true) : ¬ b < 0x80 := by
  simp only [continuation, Bool.and_eq_true, decide_eq_true_eq] at h
  exact UInt8.not_lt.mpr h.1

theorem second_high {a b : UInt8} (h : second a b = true) : ¬ b < 0x80 := by
  unfold second at h
  split_ifs at h
  all_goals first
    | exact continuation_high h
    | grind

/-- A reading keeps the bytes of ASCII. -/
theorem ascii_of_lossy (bs : Bytes) :
    (from_utf8_lossy bs).countP (· < 0x80) = bs.countP (· < 0x80) := by
  have hreplacement : replacement.countP (· < 0x80) = 0 := by decide
  fun_induction from_utf8_lossy bs
  case case1 => rfl
  all_goals grind [width_ascii, second_high, continuation_high]

/-- A reading that has no lead byte of three puts no U+FFFD in. -/
theorem lossy_eq_self {bs : Bytes} (h : 0xEF ∉ from_utf8_lossy bs) : from_utf8_lossy bs = bs := by
  fun_induction from_utf8_lossy bs
  case case1 => rfl
  all_goals grind [replacement]

theorem lossy_of_ascii {bs : Bytes} (h : ∀ b ∈ bs, b < 0x80) : from_utf8_lossy bs = bs := by
  induction bs with
  | nil => rfl
  | cons b bs ih =>
    have hb : width b = 1 := by
      have := h b List.mem_cons_self
      unfold width
      rw [if_pos]
      grind
    unfold from_utf8_lossy
    rw [if_neg (by rw [hb]; decide), if_pos hb, ih fun a ha => h a (List.mem_cons_of_mem _ ha)]

end framing
