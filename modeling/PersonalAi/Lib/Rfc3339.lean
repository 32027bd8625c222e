-- RFC 3339 texts of times in UTC: in the years of four digits they compare as the times do,
-- whatever the number of their fraction digits, and a reader of such texts gives the times back.
import Mathlib.Algebra.Group.Nat.Defs
import PersonalAi.Lib.Calendar

namespace calendar

/-! ## Fractions of a second -/

theorem digits_add (i d n : Nat) : digits (i + d) n = digits i (n / 10 ^ d) ++ digits d n := by
  induction d generalizing n with
  | zero => simp [digits]
  | succ d ih =>
    have htail : n / 10 ^ (d + 1) = n / 10 / 10 ^ d := by
      rw [Nat.div_div_eq_div_mul, Nat.pow_succ, Nat.mul_comm]
    rw [← Nat.add_assoc, digits, ih, htail, digits, List.append_assoc]

theorem plus_lt_digits {d : Nat} (hd : 0 < d) (n : Nat) (x y : List Char) :
    '+' :: x < digits d n ++ y := by
  rcases hdigits : digits d n with _ | ⟨c, cs⟩
  · have hlen := digits_length d n
    rw [hdigits, List.length_nil] at hlen
    omega
  · have hdigit : c.isDigit = true := digits_isDigit (hdigits ▸ List.mem_cons_self)
    refine List.Lex.rel ?_
    simp only [Char.isDigit, Bool.and_eq_true, decide_eq_true_eq] at hdigit
    exact UInt32.lt_of_lt_of_le (by decide) hdigit.1

/-- `a` of `10 ^ i` parts comes before `b` of `10 ^ j`, with a sign behind the digits: it stands in
front of each digit, where one of the fractions has fewer of them. -/
theorem fraction_digits_lt {i j a b : Nat} (hb : b < 10 ^ j) (h : a * 10 ^ j < b * 10 ^ i)
    (x y : List Char) : digits i a ++ '+' :: x < digits j b ++ '+' :: y := by
  rcases Nat.le_total i j with hle | hle
  · obtain ⟨d, rfl⟩ := Nat.exists_eq_add_of_le hle
    have hparts : a * 10 ^ d < b := by
      rw [Nat.pow_add, Nat.mul_comm (10 ^ i), ← Nat.mul_assoc] at h
      exact Nat.lt_of_mul_lt_mul_right h
    have hquot : a ≤ b / 10 ^ d :=
      (Nat.le_div_iff_mul_le (Nat.pow_pos (by decide))).mpr (Nat.le_of_lt hparts)
    rw [digits_add, List.append_assoc]
    rcases Nat.lt_or_eq_of_le hquot with hlt | heq
    · have hbound : b / 10 ^ d < 10 ^ i := by
        rw [Nat.div_lt_iff_lt_mul (Nat.pow_pos (by decide)), ← Nat.pow_add]
        exact hb
      exact append_lt_of_length (digits_lt hlt hbound) (by rw [digits_length, digits_length]) _ _
    · have hpos : 0 < d := by
        rcases d with _ | d
        · rw [Nat.pow_zero] at hparts heq
          omega
        · exact Nat.succ_pos d
      rw [heq]
      exact List.append_left_lt (plus_lt_digits hpos b x _)
  · obtain ⟨d, rfl⟩ := Nat.exists_eq_add_of_le hle
    have hparts : a < b * 10 ^ d := by
      rw [Nat.pow_add, Nat.mul_comm (10 ^ j), ← Nat.mul_assoc] at h
      exact Nat.lt_of_mul_lt_mul_right h
    have hquot : a / 10 ^ d < b := (Nat.div_lt_iff_lt_mul (Nat.pow_pos (by decide))).mpr hparts
    rw [digits_add, List.append_assoc]
    exact append_lt_of_length (digits_lt hquot hb) (by rw [digits_length, digits_length]) _ _

/-- The digits of a fraction: none, three, six or nine. -/
def places (nanos : Nat) : Nat :=
  if nanos = 0 then 0 else if nanos % 1000000 = 0 then 3 else if nanos % 1000 = 0 then 6 else 9

/-- A fraction with its point. -/
def fraction (places value : Nat) : List Char :=
  if places = 0 then [] else '.' :: digits places value

theorem places_spec {nanos : Nat} (h : nanos < 1000000000) :
    places nanos ≤ 9 ∧ nanos / 10 ^ (9 - places nanos) < 10 ^ places nanos ∧
      nanos / 10 ^ (9 - places nanos) * 10 ^ (9 - places nanos) = nanos ∧
      (places nanos = 0 ↔ nanos = 0) := by
  unfold places
  split
  · simp [*]
  · split
    · refine ⟨by decide, ?_, ?_, by simp [*]⟩ <;> simp only [Nat.reduceSub, Nat.reducePow] <;> omega
    · split
      · refine ⟨by decide, ?_, ?_, by simp [*]⟩ <;> simp only [Nat.reduceSub, Nat.reducePow] <;> omega
      · refine ⟨by decide, ?_, ?_, by simp [*]⟩ <;> simp only [Nat.reduceSub, Nat.reducePow] <;> omega

theorem fraction_text_places (nanos : Nat) :
    fraction_text nanos = fraction (places nanos) (nanos / 10 ^ (9 - places nanos)) := by
  unfold fraction_text places fraction
  split
  · rfl
  · split
    · rfl
    · split
      · rfl
      · simp

theorem fraction_text_lt {m n : Nat} (h : m < n) (hn : n < 1000000000) (x y : List Char) :
    fraction_text m ++ '+' :: x < fraction_text n ++ '+' :: y := by
  obtain ⟨hi, -, hm, hzero⟩ := places_spec (Nat.lt_trans h hn)
  obtain ⟨hj, hbound, hvalue, hpos⟩ := places_spec hn
  rw [fraction_text_places, fraction_text_places]
  generalize m / 10 ^ (9 - places m) = a at *
  generalize n / 10 ^ (9 - places n) = b at *
  unfold fraction
  rw [if_neg (show ¬ places n = 0 by omega)]
  by_cases hnone : places m = 0
  · rw [if_pos hnone]
    exact List.Lex.rel (by decide)
  · rw [if_neg hnone]
    refine List.Lex.cons (fraction_digits_lt hbound ?_ x y)
    have hnine : ∀ {k}, k ≤ 9 → 10 ^ (9 - k) * 10 ^ k = 10 ^ 9 := by
      intro k hk
      rw [← Nat.pow_add, Nat.sub_add_cancel hk]
    refine Nat.lt_of_mul_lt_mul_right (a := 10 ^ 9) ?_
    calc a * 10 ^ places n * 10 ^ 9
        = a * 10 ^ (9 - places m) * (10 ^ places m * 10 ^ places n) := by
          rw [← hnine hi]
          ac_rfl
      _ < b * 10 ^ (9 - places n) * (10 ^ places m * 10 ^ places n) := by
          rw [hm, hvalue]
          exact Nat.mul_lt_mul_of_pos_right h
            (Nat.mul_pos (Nat.pow_pos (by decide)) (Nat.pow_pos (by decide)))
      _ = b * 10 ^ places m * 10 ^ 9 := by
          rw [← hnine hj]
          ac_rfl

/-! ## The order of the texts -/

/-- A year of four digits. -/
def Time.Plain (t : Time) : Prop := 0 ≤ t.year ∧ t.year ≤ 9999

namespace Time
variable {s t : Time}

instance (t : Time) : Decidable t.Plain := inferInstanceAs (Decidable (_ ∧ _))

instance : LE Time := ⟨fun s t => ¬ t < s⟩

theorem le_iff : s ≤ t ↔ ¬ t < s := Iff.rfl

instance (s t : Time) : Decidable (s ≤ t) := inferInstanceAs (Decidable (¬ _))

theorem eq_of_parts (hsecs : s.secs = t.secs) (hnanos : s.nanos = t.nanos) : s = t := by
  cases s
  cases t
  cases hsecs
  cases hnanos
  rfl

theorem lt_trichotomy (s t : Time) : s < t ∨ s = t ∨ t < s := by
  simp only [lt_iff]
  rcases Int.lt_trichotomy s.secs t.secs with hlt | heq | hgt
  · exact .inl (.inl hlt)
  · rcases Nat.lt_trichotomy s.nanos t.nanos with hlt | hnanos | hgt
    · exact .inl (.inr ⟨heq, hlt⟩)
    · exact .inr (.inl (eq_of_parts heq hnanos))
    · exact .inr (.inr (.inr ⟨heq.symm, hgt⟩))
  · exact .inr (.inr (.inl hgt))

/-- In one second: the leap second behind the other one, and else by the fraction. -/
theorem rest_text_lt_in_second (hsecs : s.secs = t.secs) (h : s.nanos < t.nanos) :
    s.rest_text < t.rest_text := by
  have hs := s.leap
  have ht := t.leap
  have hsign : "+00:00".toList = '+' :: "00:00".toList := rfl
  have hyear : s.year = t.year := by simp only [year, hsecs]
  have hday : s.day = t.day := by simp only [day, hsecs]
  have hclock : s.clock = t.clock := by simp only [clock, hsecs]
  unfold rest_text
  rw [hyear, hday, hclock, hsign]
  simp only [List.append_assoc, List.cons_append]
  refine List.append_left_lt (List.Lex.cons ?_)
  by_cases hsame : 1000000000 ≤ s.nanos ∨ t.nanos < 1000000000
  · have hleap : decide (1000000000 ≤ s.nanos) = decide (1000000000 ≤ t.nanos) := by
      rw [decide_eq_decide]
      omega
    rw [hleap]
    exact List.append_left_lt (fraction_text_lt (by omega) (Nat.mod_lt _ (by decide)) _ _)
  · have hplain : decide (1000000000 ≤ s.nanos) = false := by
      rw [decide_eq_false_iff_not]
      omega
    have hleap : decide (1000000000 ≤ t.nanos) = true := by
      rw [decide_eq_true_eq]
      omega
    rw [hplain, hleap]
    refine append_lt_of_length ?_ (by rw [clock_text_length, clock_text_length]) _ _
    unfold clock_text
    simp only [List.append_assoc, List.cons_append]
    refine List.append_left_lt (List.Lex.cons (List.append_left_lt (List.Lex.cons (digits_lt ?_ ?_))))
    · simp
    · have : t.clock % 60 < 60 := Nat.mod_lt _ (by decide)
      simp only [if_true]
      omega

theorem to_rfc3339_lt (hs : s.Plain) (ht : t.Plain) (h : s < t) : s.to_rfc3339 < t.to_rfc3339 := by
  rcases lt_iff.mp h with hlt | ⟨heq, hlt⟩
  · have hyears : s.year ≤ t.year := year_of_mono (by omega)
    exact (to_rfc3339_lt_iff hlt).mpr ((years_in_order_iff hs hyears).mpr ht.2)
  · have hyear : s.year = t.year := by simp only [year, heq]
    unfold to_rfc3339
    rw [hyear]
    exact List.append_left_lt (List.Lex.cons (rest_text_lt_in_second heq hlt))

/-- In the years of four digits the texts are in the order of the times. -/
theorem to_rfc3339_lt_iff_lt (hs : s.Plain) (ht : t.Plain) :
    s.to_rfc3339 < t.to_rfc3339 ↔ s < t := by
  refine ⟨fun htext => ?_, to_rfc3339_lt hs ht⟩
  rcases lt_trichotomy s t with hlt | rfl | hgt
  · exact hlt
  · exact absurd htext (List.lt_irrefl _)
  · exact absurd (List.lt_trans htext (to_rfc3339_lt ht hs hgt)) (List.lt_irrefl _)

theorem to_rfc3339_le_iff_le (hs : s.Plain) (ht : t.Plain) :
    s.to_rfc3339 ≤ t.to_rfc3339 ↔ s ≤ t := by
  rw [le_iff, ← to_rfc3339_lt_iff_lt ht hs]
  exact not_lt.symm

end Time

/-! ## The fields of a text -/

/-- What a text says, in UTC. -/
structure Fields where
  year : Nat
  month : Nat
  day : Nat
  hour : Nat
  minute : Nat
  second : Nat
  places : Nat
  fraction : Nat

def month_length (leap : Bool) (month : Nat) : Nat :=
  (if leap then [31, 29, 31, 30, 31, 30, 31, 31, 30, 31, 30, 31]
    else [31, 28, 31, 30, 31, 30, 31, 31, 30, 31, 30, 31]).getD (month - 1) 0

namespace Fields

def leap (f : Fields) : Bool := is_leap f.year

def text (f : Fields) : List Char :=
  digits 4 f.year ++ '-' :: digits 2 f.month ++ '-' :: digits 2 f.day ++ 'T' :: digits 2 f.hour ++
    ':' :: digits 2 f.minute ++ ':' :: digits 2 f.second ++ calendar.fraction f.places f.fraction ++
    "+00:00".toList

/-- The ranges of RFC 3339, with at most nine digits of a fraction. -/
structure Valid (f : Fields) : Prop where
  year : f.year ≤ 9999
  month : 1 ≤ f.month ∧ f.month ≤ 12
  day : 1 ≤ f.day ∧ f.day ≤ month_length f.leap f.month
  hour : f.hour < 24
  minute : f.minute < 60
  second : f.second ≤ 60
  places : f.places ≤ 9
  fraction : f.fraction < 10 ^ f.places

instance (f : Fields) : Decidable f.Valid :=
  decidable_of_iff (f.year ≤ 9999 ∧ (1 ≤ f.month ∧ f.month ≤ 12) ∧
      (1 ≤ f.day ∧ f.day ≤ month_length f.leap f.month) ∧ f.hour < 24 ∧ f.minute < 60 ∧
      f.second ≤ 60 ∧ f.places ≤ 9 ∧ f.fraction < 10 ^ f.places)
    ⟨fun ⟨h₁, h₂, h₃, h₄, h₅, h₆, h₇, h₈⟩ => ⟨h₁, h₂, h₃, h₄, h₅, h₆, h₇, h₈⟩,
      fun ⟨h₁, h₂, h₃, h₄, h₅, h₆, h₇, h₈⟩ => ⟨h₁, h₂, h₃, h₄, h₅, h₆, h₇, h₈⟩⟩

/-- The seconds since the epoch. The second 60 is that behind the second 59, in its nanoseconds. -/
def secs (f : Fields) : Int :=
  (year_start f.year + (month_starts f.leap).getD (f.month - 1) 0 + (f.day - 1) - epoch) * 86400 +
    f.hour * 3600 + f.minute * 60 + min f.second 59

def nanos (f : Fields) : Nat :=
  f.fraction * 10 ^ (9 - f.places) + if f.second = 60 then 1000000000 else 0

end Fields

/-- A reader that takes each text of valid fields to the time that it says. -/
def Reads (parse : List Char → Option Time) : Prop :=
  ∀ (f : Fields) (t : Time), f.Valid → f.secs = t.secs → f.nanos = t.nanos → parse f.text = some t

theorem month_fields (leap : Bool) (n : Nat) (hn : n < (if leap then 366 else 365)) :
    (month_starts leap).getD (month leap n - 1) 0 + (month_day leap n - 1) = n ∧
      month_day leap n ≤ month_length leap (month leap n) := by
  have hlength : ∀ leap, ∀ m ≤ 12, 0 < m → (month_starts leap).getD m (if leap then 366 else 365) =
      (month_starts leap).getD (m - 1) 0 + month_length leap m := by
    decide
  have hstart := month_start_le leap n
  have hend := lt_month_end leap hn
  rw [hlength leap (month leap n) (month_le leap n) (month_pos leap n)] at hend
  unfold month_day
  omega

namespace Time
variable {t : Time}

def fields (t : Time) : Fields :=
  { year := t.year.toNat
    month := calendar.month (is_leap t.year) (ordinal t.day)
    day := month_day (is_leap t.year) (ordinal t.day)
    hour := t.clock / 3600
    minute := t.clock / 60 % 60
    second := t.clock % 60 + if 1000000000 ≤ t.nanos then 1 else 0
    places := calendar.places (t.nanos % 1000000000)
    fraction := t.nanos % 1000000000 / 10 ^ (9 - calendar.places (t.nanos % 1000000000)) }

theorem fields_leap (h : t.Plain) : t.fields.leap = is_leap t.year := by
  unfold Fields.leap fields
  rw [Int.toNat_of_nonneg h.1]

theorem fields_text (h : t.Plain) : t.fields.text = t.to_rfc3339 := by
  have hyear : year_text t.year = digits 4 t.year.toNat := if_pos h
  unfold Fields.text to_rfc3339 rest_text date_text clock_text
  rw [hyear, fraction_text_places]
  simp [fields]

/-- The day of the year is inside of the year. -/
theorem ordinal_inside (t : Time) :
    ordinal t.day < if is_leap t.year then 366 else 365 := by
  have hspec := year_of_spec t.day
  have hordinal := (ordinal_spec t.day).1
  rw [year_start_succ] at hspec
  change ordinal t.day < if is_leap (year_of t.day) then 366 else 365
  split at hspec
  · rename_i hleap
    rw [if_pos hleap]
    omega
  · rename_i hleap
    rw [if_neg hleap]
    omega

theorem fields_valid (h : t.Plain) : t.fields.Valid := by
  have hdays := month_fields _ _ t.ordinal_inside
  have hmonth := month_range (is_leap t.year) _ (ordinal_spec t.day).2
  have hclock := t.day_clock
  obtain ⟨hplaces, hbound, -, -⟩ := places_spec t.nanos_mod
  refine ⟨?_, ⟨hmonth.1, hmonth.2.1⟩, ⟨hmonth.2.2.1, ?_⟩, ?_, ?_, ?_, hplaces, hbound⟩
  · have hyear := h.2
    simp only [fields]
    omega
  · rw [fields_leap h]
    exact hdays.2
  · simp only [fields]
    omega
  · exact Nat.mod_lt _ (by decide)
  · have : t.clock % 60 < 60 := Nat.mod_lt _ (by decide)
    simp only [fields]
    split <;> omega

theorem fields_secs (h : t.Plain) : t.fields.secs = t.secs := by
  have hdays := (month_fields _ _ t.ordinal_inside).1
  have hpos := (month_range (is_leap t.year) _ (ordinal_spec t.day).2).2.2.1
  have hordinal := (ordinal_spec t.day).1
  have hclock := t.day_clock
  have hleap := t.leap
  have hsecond : (min t.fields.second 59 : Nat) = t.clock % 60 := by
    have : t.clock % 60 < 60 := Nat.mod_lt _ (by decide)
    simp only [fields]
    unfold clock at *
    split <;> omega
  have hyear : ((t.year.toNat : Nat) : Int) = year_of t.day := Int.toNat_of_nonneg h.1
  unfold Fields.secs
  rw [fields_leap h, hsecond]
  simp only [fields, hyear]
  omega

theorem fields_nanos (t : Time) : t.fields.nanos = t.nanos := by
  have hleap := t.leap
  have hclock : t.clock % 60 < 60 := Nat.mod_lt _ (by decide)
  obtain ⟨-, -, hvalue, -⟩ := places_spec t.nanos_mod
  unfold Fields.nanos
  simp only [fields, hvalue]
  unfold clock at *
  split <;> split <;> omega

/-- A reader gives back the time of a text. -/
theorem parse_to_rfc3339 {parse : List Char → Option Time} (hparse : Reads parse) (h : t.Plain) :
    parse t.to_rfc3339 = some t := by
  rw [← fields_text h]
  exact hparse _ _ (fields_valid h) (fields_secs h) t.fields_nanos

end Time

/-! ## A reader -/

/-- A number of so many digits, and what is behind it. -/
def number (width : Nat) (s : List Char) : Option (Nat × List Char) :=
  if (s.take width).length = width ∧ (s.take width).all Char.isDigit then
    some (Nat.ofDigitChars 10 (s.take width) 0, s.drop width)
  else none

def char (c : Char) : List Char → Option (List Char)
  | [] => none
  | d :: s => if d = c then some s else none

/-- Up to nine digits of a fraction. Those behind them are left out. -/
def nanosecond (s : List Char) : Option (Nat × List Char) :=
  let ds := (s.take 9).takeWhile Char.isDigit
  if ds = [] then none
  else some (Nat.ofDigitChars 10 ds 0 * 10 ^ (9 - ds.length),
    (s.drop ds.length).dropWhile Char.isDigit)

/-- A fraction behind its point, or no nanoseconds. -/
def read_fraction (s : List Char) : Option (Nat × List Char) :=
  match char '.' s with
  | some s => nanosecond s
  | none => some (0, s)

/-- The seconds to the east: `Z`, or hours and minutes with a sign. -/
def timezone_offset : List Char → Option (Int × List Char)
  | [] => none
  | c :: s =>
    if c = 'Z' ∨ c = 'z' then some (0, s)
    else if c = '+' ∨ c = '-' ∨ c = '−' then do
      let (hours, s) ← number 2 s
      let s ← char ':' s
      let (minutes, s) ← number 2 s
      if hours < 24 ∧ minutes < 60 then
        let secs : Int := hours * 3600 + minutes * 60
        some (if c = '+' then secs else -secs, s)
      else none
    else none

def of_parts (secs : Int) (nanos : Nat) : Option Time :=
  if h : (min_secs ≤ secs ∧ secs ≤ max_secs) ∧
      (nanos < 1000000000 ∨ (nanos < 2000000000 ∧ secs % 60 = 59)) then
    some ⟨secs, nanos, h.1, h.2⟩
  else none

/-- Three numbers with a sign between them, the first of which has a width of its own. -/
def read_three (width : Nat) (sign : Char) (s : List Char) : Option ((Nat × Nat × Nat) × List Char) :=
  (number width s).bind fun x => (char sign x.2).bind fun s => (number 2 s).bind fun y =>
    (char sign y.2).bind fun s => (number 2 s).map fun z => ((x.1, y.1, z.1), z.2)

/-- `DateTime::parse_from_rfc3339`, with the time in UTC. -/
def parse_from_rfc3339 (s : List Char) : Option Time := do
  let ((year, month, day), s) ← read_three 4 '-' s
  let s ← (char 'T' s).or ((char 't' s).or (char ' ' s))
  let ((hour, minute, second), s) ← read_three 2 ':' s
  let (fraction, s) ← read_fraction s
  let (offset, s) ← timezone_offset s
  let f : Fields := { year, month, day, hour, minute, second, places := 9, fraction }
  if s = [] ∧ f.Valid then of_parts (f.secs - offset) f.nanos else none

theorem char_self (c : Char) (s : List Char) : char c (c :: s) = some s := if_pos rfl

theorem number_digits {width n : Nat} (h : n < 10 ^ width) (s : List Char) :
    number width (digits width n ++ s) = some (n, s) := by
  have hlen := digits_length width n
  have htake : (digits width n ++ s).take width = digits width n := List.take_left' hlen
  have hdrop : (digits width n ++ s).drop width = s := List.drop_left' hlen
  unfold number
  rw [htake, hdrop, if_pos ⟨hlen, List.all_eq_true.mpr fun c hc => digits_isDigit hc⟩,
    value_of_digits h]

theorem nanosecond_digits {places value : Nat} (hpos : 0 < places) (hplaces : places ≤ 9)
    (h : value < 10 ^ places) (s : List Char) :
    nanosecond (digits places value ++ '+' :: s) = some (value * 10 ^ (9 - places), '+' :: s) := by
  have hlen := digits_length places value
  have hdigits : ∀ c ∈ digits places value, c.isDigit = true := fun c hc => digits_isDigit hc
  have htake : ((digits places value ++ '+' :: s).take 9).takeWhile Char.isDigit =
      digits places value := by
    rw [List.take_append, hlen, List.take_of_length_le (by omega),
      List.takeWhile_append_of_pos hdigits]
    rcases 9 - places with _ | k
    · simp
    · rw [List.take_succ_cons, List.takeWhile_cons_of_neg (by decide), List.append_nil]
  have hsome : digits places value ≠ [] := by
    intro hnil
    rw [hnil, List.length_nil] at hlen
    omega
  unfold nanosecond
  simp only [htake]
  rw [if_neg hsome, hlen, value_of_digits h, List.drop_left' hlen,
    List.dropWhile_cons_of_neg (by decide)]

theorem of_parts_eq (t : Time) : of_parts t.secs t.nanos = some t :=
  dif_pos ⟨t.range, t.leap⟩

theorem read_fraction_append {places value : Nat} (hplaces : places ≤ 9) (h : value < 10 ^ places)
    (s : List Char) : read_fraction (fraction places value ++ '+' :: s) =
      some (value * 10 ^ (9 - places), '+' :: s) := by
  unfold fraction
  by_cases hnone : places = 0
  · rw [hnone, Nat.pow_zero] at h
    have hzero : value = 0 := by omega
    rw [if_pos hnone, hzero, Nat.zero_mul]
    rfl
  · rw [if_neg hnone]
    unfold read_fraction
    rw [List.cons_append, char_self]
    exact nanosecond_digits (Nat.pos_of_ne_zero hnone) hplaces h s

theorem read_three_digits {width a b c : Nat} (ha : a < 10 ^ width) (hb : b < 10 ^ 2)
    (hc : c < 10 ^ 2) (sign : Char) (s : List Char) :
    read_three width sign (digits width a ++ sign :: (digits 2 b ++ sign :: (digits 2 c ++ s))) =
      some ((a, b, c), s) := by
  unfold read_three
  rw [number_digits ha, Option.bind_some, char_self, Option.bind_some, number_digits hb,
    Option.bind_some, char_self, Option.bind_some, number_digits hc, Option.map_some]

theorem parse_reads : Reads parse_from_rfc3339 := by
  intro f t hf hsecs hnanos
  have hlength : ∀ leap, ∀ m ≤ 12, month_length leap m < 10 ^ 2 := by decide
  have hdate := @read_three_digits 4 _ _ _ (Nat.lt_of_le_of_lt hf.year (by decide))
    (Nat.lt_of_le_of_lt hf.month.2 (by decide))
    (Nat.lt_of_le_of_lt hf.day.2 (hlength _ _ hf.month.2)) '-'
  have hclock := @read_three_digits 2 _ _ _ (Nat.lt_trans hf.hour (by decide))
    (Nat.lt_trans hf.minute (by decide)) (Nat.lt_of_le_of_lt hf.second (by decide)) ':'
  have hsign : "+00:00".toList = '+' :: "00:00".toList := rfl
  have hzone : timezone_offset ('+' :: "00:00".toList) = some (0, []) := by decide
  let g : Fields := { f with places := 9, fraction := f.fraction * 10 ^ (9 - f.places) }
  have hg : g.Valid := by
    refine ⟨hf.year, hf.month, hf.day, hf.hour, hf.minute, hf.second, Nat.le_refl 9, ?_⟩
    have hnine : 10 ^ f.places * 10 ^ (9 - f.places) = 10 ^ 9 := by
      rw [← Nat.pow_add, Nat.add_sub_cancel' hf.places]
    change f.fraction * 10 ^ (9 - f.places) < 10 ^ 9
    rw [← hnine]
    exact Nat.mul_lt_mul_of_pos_right hf.fraction (Nat.pow_pos (by decide))
  have hgnanos : g.nanos = t.nanos := by
    rw [← hnanos]
    simp [g, Fields.nanos]
  unfold parse_from_rfc3339 Fields.text
  simp only [List.append_assoc, List.cons_append]
  rw [hsign, hdate, Option.bind_eq_bind, Option.bind_some]
  dsimp only
  rw [char_self, Option.some_or, Option.bind_eq_bind, Option.bind_some, hclock, Option.bind_eq_bind,
    Option.bind_some]
  dsimp only
  rw [read_fraction_append hf.places hf.fraction, Option.bind_eq_bind, Option.bind_some]
  dsimp only
  rw [hzone, Option.bind_some]
  dsimp only
  rw [if_pos ⟨rfl, hg⟩, Int.sub_zero, hgnanos]
  change of_parts f.secs t.nanos = some t
  rw [hsecs]
  exact of_parts_eq t

end calendar
