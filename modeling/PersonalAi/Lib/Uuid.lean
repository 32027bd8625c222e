-- The spellings of a UUID that the `uuid` crate reads (third-party code, so its documented behaviour),
-- and that of two of them neither begins the other.
import PersonalAi.Lib.Text

namespace uuid

open text

/-! ## Reading -/

/-- A hex digit in lower case. -/
def lower (b : UInt8) : Char := Char.ofNat (if 65 ≤ b ∧ b ≤ 70 then b.toNat + 32 else b.toNat)

/-- The 32 digits of the simple form. -/
def simple (s : Bytes) : Option Bytes :=
  if s.length = 32 ∧ s.all (fun b => (hexDigit b).isSome) then some s else none

/-- The digits of the hyphenated form. -/
def hyphenated (s : Bytes) : Option Bytes :=
  if s.length = 36 ∧ ∀ i ∈ [8, 13, 18, 23], s[i]? = some 45 then
    simple (s.take 8 ++ (s.drop 9).take 4 ++ (s.drop 14).take 4 ++ (s.drop 19).take 4 ++ s.drop 24)
  else none

def URN : Bytes := utf8 "urn:uuid:"

/-- The digits, from the simple form, from the hyphenated one, or from that in braces or in a URN. -/
def digits (s : Bytes) : Option Bytes :=
  if s.length = 32 then simple s
  else if s.length = 36 then hyphenated s
  else if s.length = 38 ∧ s.head? = some 123 ∧ s.getLast? = some 125 then
    hyphenated (s.drop 1).dropLast
  else if s.length = 45 ∧ s.take 9 = URN then hyphenated (s.drop 9)
  else none

/-- `Uuid::parse_str`, as the text that the UUID is displayed as. -/
def parse_str (s : String) : Option String :=
  (digits (utf8 s)).map (fun ds =>
    let cs := ds.map lower
    String.ofList (cs.take 8 ++ '-' :: (cs.drop 8).take 4 ++ '-' :: (cs.drop 12).take 4 ++
      '-' :: (cs.drop 16).take 4 ++ '-' :: cs.drop 20))

/-! ## No spelling begins another one -/

/-- How long a spelling is, from its first and its ninth byte. -/
def spelled_length (first ninth : UInt8) : Nat :=
  if first = 123 then 38
  else if first = 117 then 45
  else if ninth = 45 then 36
  else 32

theorem simple_digit {s ds : Bytes} (h : simple s = some ds) {i : Nat} {b : UInt8}
    (hb : s[i]? = some b) : b ≠ 123 ∧ b ≠ 117 ∧ b ≠ 45 := by
  unfold simple at h
  split at h
  · rename_i hs
    have hhex := List.all_eq_true.mp hs.2 b (List.mem_of_getElem? hb)
    refine ⟨?_, ?_, ?_⟩ <;>
    · rintro rfl
      exact absurd hhex (by decide)
  · cases h

theorem hyphenated_first {s ds : Bytes} (h : hyphenated s = some ds) {b : UInt8}
    (hb : s[0]? = some b) : b ≠ 123 ∧ b ≠ 117 := by
  unfold hyphenated at h
  split at h
  · rename_i hs
    have hfirst : (s.take 8 ++ (s.drop 9).take 4 ++ (s.drop 14).take 4 ++ (s.drop 19).take 4 ++
        s.drop 24)[0]? = some b := by
      cases s with
      | nil => simp at hb
      | cons c rest => simpa using hb
    have hdigit := simple_digit h hfirst
    exact ⟨hdigit.1, hdigit.2.1⟩
  · cases h

theorem hyphenated_ninth {s ds : Bytes} (h : hyphenated s = some ds) : s[8]? = some 45 := by
  unfold hyphenated at h
  split at h
  · rename_i hs
    exact hs.2 8 (by simp)
  · cases h

theorem digits_length {s ds : Bytes} (h : digits s = some ds) :
    ∃ a b, s[0]? = some a ∧ s[8]? = some b ∧ s.length = spelled_length a b := by
  have hin : ∀ i, i < s.length → ∃ a, s[i]? = some a := fun i hi => ⟨s[i], by simp [hi]⟩
  unfold digits at h
  split at h
  · rename_i hlen
    obtain ⟨a, ha⟩ := hin 0 (by omega)
    obtain ⟨b, hb⟩ := hin 8 (by omega)
    refine ⟨a, b, ha, hb, ?_⟩
    have hfirst := simple_digit h ha
    have hninth := simple_digit h hb
    simp [spelled_length, hfirst, hninth, hlen]
  · split at h
    · rename_i hlen
      obtain ⟨a, ha⟩ := hin 0 (by omega)
      refine ⟨a, 45, ha, hyphenated_ninth h, ?_⟩
      have hfirst := hyphenated_first h ha
      simp [spelled_length, hfirst, hlen]
    · split at h
      · rename_i hbraced
        obtain ⟨b, hb⟩ := hin 8 (by omega)
        refine ⟨123, b, ?_, hb, ?_⟩
        · rw [← List.head?_eq_getElem?]
          exact hbraced.2.1
        · simp [spelled_length, hbraced.1]
      · split at h
        · rename_i hurn
          obtain ⟨b, hb⟩ := hin 8 (by omega)
          refine ⟨117, b, ?_, hb, ?_⟩
          · have hfirst : (s.take 9)[0]? = URN[0]? := by rw [hurn.2]
            rw [List.getElem?_take_of_lt (by omega)] at hfirst
            exact hfirst
          · simp [spelled_length, hurn.1]
        · cases h

theorem digits_prefix_free {s t x y ds es : Bytes} (hs : digits s = some ds)
    (ht : digits t = some es) (h : s ++ x = t ++ y) : s = t ∧ x = y := by
  obtain ⟨a, b, ha, hb, hlen⟩ := digits_length hs
  obtain ⟨a', b', ha', hb', hlen'⟩ := digits_length ht
  have hbyte : ∀ (i : Nat) (c c' : UInt8), s[i]? = some c → t[i]? = some c' → c = c' := by
    intro i c c' hc hc'
    have hin := (List.getElem?_eq_some_iff.mp hc).1
    have hin' := (List.getElem?_eq_some_iff.mp hc').1
    have hboth : s[i]? = t[i]? := by
      rw [← List.getElem?_append_left hin, h, List.getElem?_append_left hin']
    rw [hc, hc'] at hboth
    exact Option.some.inj hboth
  apply List.append_inj h
  rw [hlen, hlen', hbyte 0 a a' ha ha', hbyte 8 b b' hb hb']

/-! ## What is displayed -/

theorem simple_hex {s ds : Bytes} (h : simple s = some ds) : ∀ b ∈ ds, (hexDigit b).isSome := by
  unfold simple at h
  split at h
  · rename_i hs
    cases h
    exact List.all_eq_true.mp hs.2
  · cases h

theorem hyphenated_hex {s ds : Bytes} (h : hyphenated s = some ds) :
    ∀ b ∈ ds, (hexDigit b).isSome := by
  unfold hyphenated at h
  split at h
  · exact simple_hex h
  · cases h

theorem digits_hex {s ds : Bytes} (h : digits s = some ds) : ∀ b ∈ ds, (hexDigit b).isSome := by
  unfold digits at h
  split_ifs at h
  · exact simple_hex h
  · exact hyphenated_hex h
  · exact hyphenated_hex h
  · exact hyphenated_hex h

theorem lower_plain (b : UInt8) (h : (hexDigit b).isSome) : lower b ≠ '\n' := by
  have hall : ∀ n < 256, (hexDigit (UInt8.ofNat n)).isSome → lower (UInt8.ofNat n) ≠ '\n' := by
    decide +kernel
  have hb := hall b.toNat b.toNat_lt
  rw [UInt8.ofNat_toNat] at hb
  exact hb h

/-- The text of a UUID has no line breaks, and is longer than one character. -/
theorem parse_str_plain {s t : String} (h : parse_str s = some t) :
    '\n' ∉ t.toList ∧ 1 < t.toList.length := by
  unfold parse_str at h
  obtain ⟨ds, hds, rfl⟩ := Option.map_eq_some_iff.mp h
  have hlower : ∀ c ∈ ds.map lower, c ≠ '\n' := by
    intro c hc
    obtain ⟨b, hb, rfl⟩ := List.mem_map.mp hc
    exact lower_plain b (digits_hex hds b hb)
  dsimp only
  rw [String.toList_ofList]
  constructor
  · intro hmem
    simp only [List.mem_append, List.mem_cons] at hmem
    have hout : ∀ k n, '\n' ∉ ((ds.map lower).drop k).take n := fun k n hin =>
      hlower _ (List.mem_of_mem_drop (List.mem_of_mem_take hin)) rfl
    have hstart := hout 0 8
    rw [List.drop_zero] at hstart
    have hend : '\n' ∉ (ds.map lower).drop 20 := fun hin => hlower _ (List.mem_of_mem_drop hin) rfl
    simp [hstart, hout, hend] at hmem
  · simp only [List.length_append, List.length_cons]
    omega

end uuid
