-- Times of the Gregorian calendar in UTC, and their RFC 3339 text. The texts of two times compare
-- as the times do while the years are printed in their order.
import Mathlib.Algebra.Group.Nat.Defs
import Mathlib.Data.Char
import Mathlib.Data.List.Lex
import Mathlib.Data.Int.Order.Basic
import PersonalAi.Lib.Chars

namespace calendar

/-! ## Numbers of a fixed width -/

def digits : Nat → Nat → List Char
  | 0, _ => []
  | width + 1, n => digits width (n / 10) ++ [Nat.digitChar (n % 10)]

theorem digits_length (width n : Nat) : (digits width n).length = width := by
  induction width generalizing n with
  | zero => rfl
  | succ width ih => simp [digits, ih]

/-- Two texts, of which the first is no part of the second, differ in front of all that follows. -/
theorem append_lt {a b : List Char} (h : a < b) (hp : ¬ a <+: b) (x y : List Char) :
    a ++ x < b ++ y := by
  induction h with
  | nil => exact absurd (List.nil_prefix) hp
  | cons h ih =>
    refine List.Lex.cons (ih fun hpre => hp ?_)
    exact (List.prefix_cons_inj _).mpr hpre
  | rel h => exact List.Lex.rel h

theorem append_lt_of_length {a b : List Char} (h : a < b) (hlen : a.length = b.length)
    (x y : List Char) : a ++ x < b ++ y := by
  refine append_lt h (fun hp => ?_) x y
  rw [hp.eq_of_length hlen] at h
  exact List.lt_irrefl _ h

theorem digit_lt {m n : Nat} (h : m < n) (hn : n < 10) : Nat.digitChar m < Nat.digitChar n := by
  have hall : ∀ n < 10, ∀ m < n, Nat.digitChar m < Nat.digitChar n := by decide
  exact hall n hn m h

theorem digits_lt {width m n : Nat} (h : m < n) (hn : n < 10 ^ width) :
    digits width m < digits width n := by
  induction width generalizing m n with
  | zero => exact absurd hn (by simp only [Nat.pow_zero]; omega)
  | succ width ih =>
    unfold digits
    rw [Nat.pow_succ] at hn
    by_cases htens : m / 10 < n / 10
    · exact append_lt_of_length (ih htens (by omega)) (by rw [digits_length, digits_length]) _ _
    · have hsame : m / 10 = n / 10 := by omega
      rw [hsame]
      exact List.append_left_lt (List.Lex.rel (digit_lt (by omega) (by omega)))

theorem digits_inj {width m n : Nat} (hm : m < 10 ^ width) (hn : n < 10 ^ width)
    (h : digits width m = digits width n) : m = n := by
  rcases Nat.lt_trichotomy m n with hlt | heq | hlt
  · have := digits_lt hlt hn
    rw [h] at this
    exact absurd this (List.lt_irrefl _)
  · exact heq
  · have := digits_lt hlt hm
    rw [h] at this
    exact absurd this (List.lt_irrefl _)

theorem digits_isDigit {width n : Nat} {c : Char} (h : c ∈ digits width n) : c.isDigit = true := by
  induction width generalizing n with
  | zero => cases h
  | succ width ih =>
    rcases List.mem_append.mp h with h | h
    · exact ih h
    · rw [List.mem_singleton.mp h]
      have : ∀ k < 10, (Nat.digitChar k).isDigit = true := by decide
      exact this _ (Nat.mod_lt _ (by decide))

theorem value_of_digits {width n : Nat} (h : n < 10 ^ width) :
    Nat.ofDigitChars 10 (digits width n) 0 = n := by
  induction width generalizing n with
  | zero =>
    rw [Nat.pow_zero] at h
    simp [digits]
    omega
  | succ width ih =>
    rw [Nat.pow_succ] at h
    rw [digits, Nat.ofDigitChars_append, ih (by omega),
      Nat.ofDigitChars_cons_digitChar_of_lt_ten (Nat.mod_lt _ (by decide)), Nat.ofDigitChars_nil]
    omega

/-! ## Days -/

/-- The days from the first of January of year 0 to that of year `y`. -/
def year_start (y : Int) : Int := 365 * y + (y + 3) / 4 - (y + 99) / 100 + (y + 399) / 400

def is_leap (y : Int) : Bool := y % 4 = 0 && (y % 100 ≠ 0 || y % 400 = 0)

/-- The year of a day: the mean length of a year gives it, or the one next to it. -/
def year_of (day : Int) : Int :=
  let y := day * 400 / 146097
  if day < year_start y then y - 1 else if year_start (y + 1) ≤ day then y + 1 else y

theorem year_start_succ (y : Int) :
    year_start (y + 1) = year_start y + if is_leap y then 366 else 365 := by
  unfold year_start is_leap
  simp only [Bool.and_eq_true, Bool.or_eq_true, decide_eq_true_eq]
  split <;> omega

theorem year_of_spec (day : Int) :
    year_start (year_of day) ≤ day ∧ day < year_start (year_of day + 1) := by
  unfold year_of
  dsimp only
  split
  · rw [Int.sub_add_cancel]
    unfold year_start at *
    omega
  · split
    · unfold year_start at *
      omega
    · omega

/-- A year starts later than the years before it. -/
theorem year_start_mono {y z : Int} (h : y ≤ z) : year_start y ≤ year_start z := by
  unfold year_start
  omega

theorem year_of_mono {d e : Int} (h : d ≤ e) : year_of d ≤ year_of e := by
  by_contra hlt
  have hstart := year_start_mono (show year_of e + 1 ≤ year_of d by omega)
  have hd := (year_of_spec d).1
  have he := (year_of_spec e).2
  omega

/-- The day of the year, from 0. -/
def ordinal (day : Int) : Nat := (day - year_start (year_of day)).toNat

theorem ordinal_spec (day : Int) :
    day = year_start (year_of day) + ordinal day ∧ ordinal day < 366 := by
  have hspec := year_of_spec day
  rw [year_start_succ] at hspec
  unfold ordinal
  split at hspec <;> omega

def month_starts (leap : Bool) : List Nat :=
  if leap then [0, 31, 60, 91, 121, 152, 182, 213, 244, 274, 305, 335]
  else [0, 31, 59, 90, 120, 151, 181, 212, 243, 273, 304, 334]

def month (leap : Bool) (ordinal : Nat) : Nat := (month_starts leap).countP (· ≤ ordinal)

def month_day (leap : Bool) (ordinal : Nat) : Nat :=
  ordinal - (month_starts leap).getD (month leap ordinal - 1) 0 + 1

/-- Month and day of the month, with two digits each. -/
def date_text (leap : Bool) (ordinal : Nat) : List Char :=
  digits 2 (month leap ordinal) ++ '-' :: digits 2 (month_day leap ordinal)

theorem date_text_length (leap : Bool) (o : Nat) : (date_text leap o).length = 5 := by
  simp [date_text, digits_length]

/-- In a list that goes up, what is not above a number stands in front. -/
theorem getD_countP_le {l : List Nat} {n : Nat} (hup : l.Pairwise (· ≤ ·))
    (hpos : 0 < l.countP (· ≤ n)) : l.getD (l.countP (· ≤ n) - 1) 0 ≤ n := by
  induction l with
  | nil => simp at hpos
  | cons a l ih =>
    obtain ⟨hle, hup⟩ := List.pairwise_cons.mp hup
    by_cases ha : a ≤ n
    · rw [List.countP_cons_of_pos (by simpa using ha)]
      rcases hcount : l.countP (· ≤ n) with _ | k
      · simpa using ha
      · have hrest := ih hup (by omega)
        rw [hcount] at hrest
        simpa using hrest
    · rw [List.countP_cons_of_neg (by simpa using ha)] at hpos
      obtain ⟨b, hb, hbn⟩ := List.countP_pos_iff.mp hpos
      exact absurd (Nat.le_trans (hle b hb) (of_decide_eq_true hbn)) ha

theorem lt_getD_countP {l : List Nat} {n d : Nat} (hup : l.Pairwise (· ≤ ·)) (hd : n < d) :
    n < l.getD (l.countP (· ≤ n)) d := by
  induction l with
  | nil => simpa using hd
  | cons a l ih =>
    obtain ⟨hle, hup⟩ := List.pairwise_cons.mp hup
    by_cases ha : a ≤ n
    · rw [List.countP_cons_of_pos (by simpa using ha), List.getD_cons_succ]
      exact ih hup
    · have hnone : l.countP (· ≤ n) = 0 := by
        refine List.countP_eq_zero.mpr fun b hb hbn => ?_
        exact ha (Nat.le_trans (hle b hb) (of_decide_eq_true hbn))
      rw [List.countP_cons_of_neg (by simpa using ha), hnone, List.getD_cons_zero]
      omega

theorem month_starts_up : ∀ leap, (month_starts leap).Pairwise (· ≤ ·) := by
  decide

theorem month_pos (leap : Bool) (n : Nat) : 0 < month leap n := by
  refine List.countP_pos_iff.mpr ⟨0, ?_, by simp⟩
  cases leap <;> simp [month_starts]

theorem month_le (leap : Bool) (n : Nat) : month leap n ≤ 12 := by
  refine Nat.le_trans List.countP_le_length ?_
  cases leap <;> simp [month_starts]

/-- A day is behind the first of its month. -/
theorem month_start_le (leap : Bool) (n : Nat) : (month_starts leap).getD (month leap n - 1) 0 ≤ n :=
  getD_countP_le (month_starts_up leap) (month_pos leap n)

/-- And before the first of the next one, or the end of the year. -/
theorem lt_month_end (leap : Bool) {n d : Nat} (hd : n < d) :
    n < (month_starts leap).getD (month leap n) d :=
  lt_getD_countP (month_starts_up leap) hd

theorem month_range (leap : Bool) (n : Nat) (hn : n < 366) :
    0 < month leap n ∧ month leap n ≤ 12 ∧ 0 < month_day leap n ∧ month_day leap n < 100 := by
  have hshort : ∀ leap, ∀ m ≤ 12,
      (month_starts leap).getD m 366 ≤ (month_starts leap).getD (m - 1) 0 + 32 := by
    decide
  have hle := month_le leap n
  have hend := lt_month_end leap hn
  have hmonth := hshort leap (month leap n) hle
  refine ⟨month_pos leap n, hle, Nat.succ_pos _, ?_⟩
  unfold month_day
  omega

/-- The next day is in the same month, or in a later one. -/
theorem month_succ (leap : Bool) (n : Nat) (hn : n < 365) :
    (month leap n < month leap (n + 1) ∧ month leap (n + 1) < 100) ∨
      (month leap n = month leap (n + 1) ∧ month_day leap n < month_day leap (n + 1) ∧
        month_day leap (n + 1) < 100) := by
  obtain ⟨-, hle, -, hday⟩ := month_range leap (n + 1) (by omega)
  have hmono : month leap n ≤ month leap (n + 1) :=
    List.countP_mono_left fun x _ hx => decide_eq_true (Nat.le_succ_of_le (of_decide_eq_true hx))
  rcases Nat.eq_or_lt_of_le hmono with heq | hlt
  · refine .inr ⟨heq, ?_, hday⟩
    have hstart := month_start_le leap n
    unfold month_day
    rw [← heq]
    omega
  · exact .inl ⟨hlt, by omega⟩

theorem date_text_lt {leap : Bool} {o p : Nat} (h : o < p) (hp : p < 366) :
    date_text leap o < date_text leap p := by
  have hstep : ∀ n < 365, date_text leap n < date_text leap (n + 1) := by
    intro n hn
    unfold date_text
    rcases month_succ leap n hn with ⟨hmonth, hlarge⟩ | ⟨hmonth, hday, hlarge⟩
    · exact append_lt_of_length (digits_lt hmonth hlarge) (by rw [digits_length, digits_length]) _ _
    · rw [hmonth]
      exact List.append_left_lt (List.Lex.cons (digits_lt hday hlarge))
  induction p, h using Nat.le_induction with
  | base => exact hstep o (by omega)
  | succ p hle ih => exact List.lt_trans (ih (by omega)) (hstep p (by omega))

/-! ## Times -/

/-- The day of the epoch. -/
def epoch : Int := 719528

def min_secs : Int := (year_start (-262143) - epoch) * 86400

def max_secs : Int := (year_start 262143 - epoch) * 86400 - 1

def year_at (secs : Int) : Int := year_of (secs / 86400 + epoch)

/-- A time between the first of the year -262143 and the last of the year 262142: seconds since
the epoch, and nanoseconds, which go on to the end of a leap second. -/
structure Time where
  secs : Int
  nanos : Nat
  range : min_secs ≤ secs ∧ secs ≤ max_secs
  leap : nanos < 1000000000 ∨ (nanos < 2000000000 ∧ secs % 60 = 59)
deriving DecidableEq

namespace Time

instance : LT Time := ⟨fun s t => s.secs < t.secs ∨ (s.secs = t.secs ∧ s.nanos < t.nanos)⟩

theorem lt_iff {s t : Time} : s < t ↔ s.secs < t.secs ∨ (s.secs = t.secs ∧ s.nanos < t.nanos) :=
  Iff.rfl

instance (s t : Time) : Decidable (s < t) := decidable_of_iff _ lt_iff.symm

def at_secs (secs : Int) (nanos : Nat) (hnanos : nanos < 1000000000) : Option Time :=
  if h : min_secs ≤ secs ∧ secs ≤ max_secs then some ⟨secs, nanos, h, .inl hnanos⟩ else none

theorem behind_leap {t : Time} (h : ¬ t.nanos < 1000000000) : t.nanos - 1000000000 < 1000000000 := by
  have := t.leap
  omega

/-- Some seconds later, or earlier, where the calendar has that time. A leap second is left
for the second behind it or for the one that it is put on. -/
def plus (t : Time) (n : Int) : Option Time :=
  if h : t.nanos < 1000000000 then at_secs (t.secs + n) t.nanos h
  else if n = 0 then some t
  else at_secs (t.secs + n + if n < 0 then 1 else 0) (t.nanos - 1000000000) (behind_leap h)

def day (t : Time) : Int := t.secs / 86400 + epoch

def year (t : Time) : Int := year_at t.secs

/-- The second of the day. -/
def clock (t : Time) : Nat := (t.secs % 86400).toNat

theorem at_secs_eq_some {secs : Int} {nanos : Nat} {h : nanos < 1000000000} {u : Time} :
    at_secs secs nanos h = some u ↔ u.secs = secs ∧ u.nanos = nanos := by
  unfold at_secs
  constructor
  · intro hu
    split at hu
    · cases hu
      exact ⟨rfl, rfl⟩
    · cases hu
  · rintro ⟨rfl, rfl⟩
    rw [dif_pos u.range]

theorem at_secs_isSome {secs : Int} {nanos : Nat} {h : nanos < 1000000000} :
    (at_secs secs nanos h).isSome = true ↔ min_secs ≤ secs ∧ secs ≤ max_secs := by
  unfold at_secs
  split <;> simp [*]

theorem nanos_mod (t : Time) : t.nanos % 1000000000 < 1000000000 := Nat.mod_lt _ (by decide)

/-- More than no seconds lead to a later time, out of a leap second too, where the calendar goes
as far. -/
theorem plus_pos {t : Time} {n : Int} (hn : 0 < n) :
    t.plus n = at_secs (t.secs + n) (t.nanos % 1000000000) (nanos_mod t) := by
  have hleap := t.leap
  unfold plus
  split
  · rename_i h
    simp only [Nat.mod_eq_of_lt h]
  · have hmod : t.nanos - 1000000000 = t.nanos % 1000000000 := by omega
    rw [if_neg (by omega), if_neg (by omega)]
    simp only [Int.add_zero, hmod]

theorem plus_not_pos {t u : Time} {n : Int} (hn : n ≤ 0) (h : t.plus n = some u) : ¬ t < u := by
  have hleap := t.leap
  rw [lt_iff]
  unfold plus at h
  split at h
  · obtain ⟨hsecs, hnanos⟩ := at_secs_eq_some.mp h
    omega
  · split at h
    · cases h
      omega
    · obtain ⟨hsecs, hnanos⟩ := at_secs_eq_some.mp h
      split at hsecs <;> omega

end Time

/-! ## The text of a time -/

/-- The digits of a year, of which there are six at most. -/
def year_width (n : Nat) : Nat := if n < 10000 then 4 else if n < 100000 then 5 else 6

/-- A year that has no four digits has a sign. -/
def year_text (y : Int) : List Char :=
  if 0 ≤ y ∧ y ≤ 9999 then digits 4 y.toNat
  else (if y < 0 then '-' else '+') :: digits (year_width y.natAbs) y.natAbs

/-- The second of a minute goes to 60. -/
def clock_text (clock : Nat) (leap : Bool) : List Char :=
  digits 2 (clock / 3600) ++ ':' :: digits 2 (clock / 60 % 60) ++ ':' ::
    digits 2 (clock % 60 + if leap then 1 else 0)

/-- No fraction, or one of three, six or nine digits. -/
def fraction_text (nanos : Nat) : List Char :=
  if nanos = 0 then []
  else if nanos % 1000000 = 0 then '.' :: digits 3 (nanos / 1000000)
  else if nanos % 1000 = 0 then '.' :: digits 6 (nanos / 1000)
  else '.' :: digits 9 nanos

def Time.rest_text (t : Time) : List Char :=
  date_text (is_leap t.year) (ordinal t.day) ++ 'T' ::
    clock_text t.clock (1000000000 ≤ t.nanos) ++ fraction_text (t.nanos % 1000000000) ++
      "+00:00".toList

/-- `DateTime::<Utc>::to_rfc3339`. -/
def Time.to_rfc3339 (t : Time) : List Char := year_text t.year ++ '-' :: t.rest_text

/-! ## The order of the texts -/

theorem clock_text_length (clock : Nat) (leap : Bool) : (clock_text clock leap).length = 8 := by
  simp [clock_text, digits_length]

theorem clock_text_lt {c d : Nat} {leap leap' : Bool} (h : c < d) (hd : d < 86400)
    (hleap : leap = true → c % 60 = 59) : clock_text c leap < clock_text d leap' := by
  have htwo : ∀ {m n : Nat}, m < n → n < 100 → ∀ x y, digits 2 m ++ x < digits 2 n ++ y :=
    fun hmn hn => append_lt_of_length (digits_lt hmn hn) (by rw [digits_length, digits_length])
  simp only [clock_text, List.append_assoc, List.cons_append]
  by_cases hhour : c / 3600 < d / 3600
  · exact htwo hhour (by omega) _ _
  have hhours : c / 3600 = d / 3600 := by omega
  rw [hhours]
  have hcolon : ∀ {x y : List Char}, x < y → ':' :: x < ':' :: y := List.Lex.cons
  refine List.append_left_lt (hcolon ?_)
  by_cases hminute : c / 60 % 60 < d / 60 % 60
  · exact htwo hminute (by omega) _ _
  have hminutes : c / 60 % 60 = d / 60 % 60 := by omega
  rw [hminutes]
  refine List.append_left_lt (hcolon (digits_lt ?_ ?_))
  · have hsecond : c % 60 < d % 60 := by omega
    have hplain : leap = false := by
      rcases leap with _ | _
      · rfl
      · have := hleap rfl
        omega
    simp only [hplain, Bool.false_eq_true, if_false]
    omega
  · have : d % 60 < 60 := Nat.mod_lt _ (by decide)
    split <;> omega

namespace Time
variable {s t : Time}

theorem day_clock (t : Time) : t.secs = (t.day - epoch) * 86400 + t.clock ∧ t.clock < 86400 := by
  unfold day clock
  omega

/-- In one year the text of a later time comes later. -/
theorem rest_text_lt (hyear : s.year = t.year) (h : s.secs < t.secs) :
    s.rest_text < t.rest_text := by
  have hs := s.day_clock
  have hd := t.day_clock
  unfold rest_text
  rw [hyear]
  by_cases hday : s.day < t.day
  · have hso := ordinal_spec s.day
    have hto := ordinal_spec t.day
    have hyears : year_of s.day = year_of t.day := hyear
    rw [hyears] at hso
    simp only [List.append_assoc]
    exact append_lt_of_length (date_text_lt (by omega) hto.2)
      (by rw [date_text_length, date_text_length]) _ _
  · have hsame : s.day = t.day := by omega
    rw [hsame]
    simp only [List.append_assoc, List.cons_append]
    refine List.append_left_lt (List.Lex.cons (append_lt_of_length (clock_text_lt ?_ hd.2 ?_)
      (by rw [clock_text_length, clock_text_length]) _ _))
    · omega
    · intro hleap
      have hin := s.leap
      have hover := of_decide_eq_true hleap
      unfold clock
      omega

end Time

/-- A year is a digit or a sign, and digits. -/
theorem year_text_cons (y : Int) : ∃ c ds, year_text y = c :: ds ∧ '-' ∉ ds := by
  have hdash : ∀ width n, '-' ∉ digits width n := by
    intro width n hin
    cases digits_isDigit hin
  unfold year_text
  split
  · rcases hdigits : digits 4 y.toNat with _ | ⟨c, ds⟩
    · have hlen := digits_length 4 y.toNat
      rw [hdigits] at hlen
      cases hlen
    · refine ⟨c, ds, rfl, fun hin => hdash 4 y.toNat ?_⟩
      rw [hdigits]
      exact List.mem_cons_of_mem _ hin
  · exact ⟨_, _, rfl, hdash _ _⟩

/-- The years of the calendar. -/
def InYears (y : Int) : Prop := -1000000 < y ∧ y < 1000000

theorem year_text_inj {y z : Int} (hy : InYears y) (hz : InYears z)
    (h : year_text y = year_text z) : y = z := by
  have hsign : ∀ (w : Int) width n (ds : List Char), (if w < 0 then '-' else '+') :: ds ≠
      digits width n := by
    intro w width n ds heq
    have hdigit := digits_isDigit (heq ▸ List.mem_cons_self)
    split at hdigit <;> cases hdigit
  have hwide : ∀ {x : Int}, InYears x → x.natAbs < 10 ^ year_width x.natAbs := by
    intro x hx
    unfold InYears at hx
    unfold year_width
    split
    · omega
    · split <;> omega
  unfold year_text at h
  by_cases hplain : 0 ≤ y ∧ y ≤ 9999
  · rw [if_pos hplain] at h
    by_cases hplain' : 0 ≤ z ∧ z ≤ 9999
    · rw [if_pos hplain'] at h
      have := @digits_inj 4 _ _ (by omega) (by omega) h
      omega
    · rw [if_neg hplain'] at h
      exact absurd h.symm (hsign _ _ _ _)
  · rw [if_neg hplain] at h
    by_cases hplain' : 0 ≤ z ∧ z ≤ 9999
    · rw [if_pos hplain'] at h
      exact absurd h (hsign _ _ _ _)
    · rw [if_neg hplain'] at h
      obtain ⟨hhead, htail⟩ := List.cons.inj h
      have hwidth := congrArg List.length htail
      rw [digits_length, digits_length] at hwidth
      rw [hwidth] at htail
      have habs : y.natAbs = z.natAbs := digits_inj (hwidth ▸ hwide hy) (hwide hz) htail
      split at hhead <;> split at hhead <;> first | omega | cases hhead

/-- The texts of two years, with the dash behind them, are in order. -/
def YearsInOrder (y z : Int) : Prop := y = z ∨ year_text y ++ ['-'] < year_text z ++ ['-']

instance (y z : Int) : Decidable (YearsInOrder y z) := by
  unfold YearsInOrder
  infer_instance

/-- From a year of four digits, they are in order up to the year 9999. -/
theorem years_in_order_iff {y z : Int} (hy : 0 ≤ y ∧ y ≤ 9999) (h : y ≤ z) :
    YearsInOrder y z ↔ z ≤ 9999 := by
  unfold YearsInOrder
  constructor
  · rintro (heq | hlt)
    · omega
    · by_contra hlarge
      have hsigned : year_text z = '+' :: digits (year_width z.natAbs) z.natAbs := by
        unfold year_text
        rw [if_neg (by omega), if_neg (by omega)]
      have hplain : year_text y = digits 4 y.toNat := if_pos hy
      obtain ⟨c, ds, hcs, -⟩ := year_text_cons y
      have hdigit : c.isDigit = true := by
        refine @digits_isDigit 4 y.toNat c ?_
        rw [← hplain, hcs]
        exact List.mem_cons_self
      rw [hsigned, hcs] at hlt
      have hsign : c < '+' ∨ c = '+' := by
        rcases List.cons_lt_cons_iff.mp hlt with hlt | ⟨heq, -⟩
        · exact .inl hlt
        · exact .inr heq
      rcases hsign with hlt | rfl
      · simp only [Char.isDigit, Bool.and_eq_true, decide_eq_true_eq] at hdigit
        exact absurd (UInt32.lt_of_lt_of_le hlt (UInt32.le_trans (by decide) hdigit.1))
          (UInt32.lt_irrefl _)
      · cases hdigit
  · intro hplain
    by_cases heq : y = z
    · exact .inl heq
    · refine .inr ?_
      unfold year_text
      rw [if_pos hy, if_pos ⟨by omega, hplain⟩]
      exact append_lt_of_length (digits_lt (by omega) (by omega))
        (by rw [digits_length, digits_length]) _ _

/-- No text of a year is the beginning of that of another one, with the dash behind it. -/
theorem year_text_apart {y z : Int} (hy : InYears y) (hz : InYears z) (x : List Char)
    (h : year_text y ++ ['-'] <+: year_text z ++ '-' :: x) : y = z := by
  obtain ⟨c, ds, hcs, hds⟩ := year_text_cons y
  obtain ⟨d, es, hdes, hes⟩ := year_text_cons z
  obtain ⟨r, hr⟩ := h
  rw [hcs, hdes] at hr
  obtain ⟨hhead, htail⟩ := List.cons.inj hr
  refine year_text_inj hy hz ?_
  rw [hcs, hdes, hhead]
  have hsplit : ds ++ '-' :: r = es ++ '-' :: x := by simpa using htail
  have hfirst := congrArg (text.split_once '-') hsplit
  rw [text.split_once_append _ _ _ hds, text.split_once_append _ _ _ hes] at hfirst
  exact congrArg (_ :: ·.1) (Option.some.inj hfirst)

namespace Time
variable {s t : Time}

theorem in_years (t : Time) : InYears t.year := by
  have hday := year_of_spec t.day
  have hrange := t.range
  have hclock := t.day_clock
  have hlow : -262143 ≤ year_of t.day := by
    by_contra hlt
    have hstart := year_start_mono (show year_of t.day + 1 ≤ -262143 by omega)
    unfold min_secs at hrange
    omega
  have hhigh : year_of t.day ≤ 262142 := by
    by_contra hlt
    have hstart := year_start_mono (show 262143 ≤ year_of t.day by omega)
    unfold max_secs at hrange
    omega
  change InYears (year_of t.day)
  exact ⟨by omega, by omega⟩

theorem to_rfc3339_years (t : Time) : t.to_rfc3339 = (year_text t.year ++ ['-']) ++ t.rest_text := by
  simp [to_rfc3339]

/-- The text of a later second comes later if and only if the years are printed in order. -/
theorem to_rfc3339_lt_iff (h : s.secs < t.secs) :
    s.to_rfc3339 < t.to_rfc3339 ↔ YearsInOrder s.year t.year := by
  have happart : ∀ u v : Time, u.year ≠ v.year →
      year_text u.year ++ ['-'] < year_text v.year ++ ['-'] → u.to_rfc3339 < v.to_rfc3339 := by
    intro u v hne hlt
    rw [u.to_rfc3339_years, v.to_rfc3339_years]
    exact append_lt hlt (fun hp => hne (year_text_apart u.in_years v.in_years [] hp)) _ _
  constructor
  · intro hlt
    by_contra hno
    have hne : s.year ≠ t.year := fun heq => hno (.inl heq)
    have hback : year_text t.year ++ ['-'] < year_text s.year ++ ['-'] := by
      rcases List.le_iff_lt_or_eq.mp (List.not_lt.mp fun hlt => hno (.inr hlt)) with hgt | heq
      · exact hgt
      · exact absurd (year_text_inj s.in_years t.in_years (List.append_cancel_right heq.symm)) hne
    exact List.lt_irrefl _ (List.lt_trans hlt (happart t s hne.symm hback))
  · rintro (heq | hlt)
    · unfold to_rfc3339
      rw [heq]
      exact List.append_left_lt (List.Lex.cons (rest_text_lt heq h))
    · by_cases hne : s.year = t.year
      · unfold to_rfc3339
        rw [hne]
        exact List.append_left_lt (List.Lex.cons (rest_text_lt hne h))
      · exact happart s t hne hlt

end Time

end calendar
