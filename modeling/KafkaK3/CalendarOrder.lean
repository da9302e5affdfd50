import KafkaK3.TimeOrder
import Mathlib.Algebra.Order.Field.Basic

/-!
# Times and the calendar

Dates which are written out in full are compared like their columns, with three
exceptions. From some months to the next one fewer days are counted than the month
has, so its last days come after the first ones of the next. The same happens at
the end of the year. And the product of the year wraps around now and then.
-/
namespace KafkaK3.CalendarOrder
open DecimalText TimeText Strtod TimeOrder

/-- The length of a month in the Gregorian calendar. -/
def daysInMonth (year month : ℕ) : ℕ :=
  if month = 2 then
    if year % 4 = 0 ∧ (year % 100 ≠ 0 ∨ year % 400 = 0) then 29 else 28
  else if month = 4 ∨ month = 6 ∨ month = 9 ∨ month = 11 then 30
  else 31

/-- A date and a time of the day, with an optional fraction of a second. -/
structure Stamp where
  year : ℕ
  month : ℕ
  day : ℕ
  hour : ℕ
  minute : ℕ
  second : ℕ
  digits : Option Text
  year_range : 1970 ≤ year ∧ year ≤ 9999
  month_range : 1 ≤ month ∧ month ≤ 12
  day_range : 1 ≤ day ∧ day ≤ daysInMonth year month
  hour_lt : hour < 24
  minute_lt : minute < 60
  second_lt : second < 60
  digits_range : AllDigits (digits.getD [])

namespace Stamp

/-- The point and the digits behind the seconds. -/
def sfrac (s : Stamp) : Text :=
  match s.digits with
  | none => []
  | some digits => '.' :: digits

/-- `YYYY-MM-DD-HH-MM-SS`, and the fraction if there is one. -/
def text (s : Stamp) : Text :=
  natText s.year ++ '-' :: (pad2 s.month ++ '-' :: (pad2 s.day ++ '-' :: (pad2 s.hour ++
    '-' :: (pad2 s.minute ++ '-' :: (pad2 s.second ++ s.sfrac)))))

def time (s : Stamp) : MessageTime := MessageTime.ofText s.text

def fraction (s : Stamp) : ℚ := digitsValue (s.digits.getD []) / 10 ^ (s.digits.getD []).length

/-- All that the text says, to be compared from left to right. -/
def columns (s : Stamp) : ℕ ×ₗ ℕ ×ₗ ℕ ×ₗ ℕ ×ₗ ℕ ×ₗ ℕ ×ₗ ℚ :=
  toLex (s.year, toLex (s.month, toLex (s.day, toLex (s.hour, toLex (s.minute,
    toLex (s.second, s.fraction))))))

/-- The seconds of the day. -/
def clock (s : Stamp) : ℤ := 3600 * s.hour + 60 * s.minute + s.second

variable (s : Stamp)

theorem day_le : s.day ≤ 31 := by
  have hday := s.day_range.2
  unfold daysInMonth at hday
  split_ifs at hday <;> omega

theorem fraction_range : 0 ≤ s.fraction ∧ s.fraction < 1 := by
  have hlt := digitsValue_lt s.digits_range
  have hpos : (0 : ℚ) < 10 ^ (s.digits.getD []).length := by positivity
  constructor
  · exact div_nonneg (Nat.cast_nonneg _) hpos.le
  · rw [fraction, div_lt_one hpos]
    exact_mod_cast hlt

theorem time_eq :
    s.time = ⟨s.year, s.month, s.day, s.hour, s.minute, s.second, s.sfrac⟩ := by
  obtain ⟨hwidth, hvalue⟩ := intText_year (y := s.year) (by have := s.year_range; omega)
  have hyear : intText (s.year : ℤ) = natText s.year := if_neg (by omega)
  have hday := s.day_le
  have hmonth := s.month_range
  have hhour := s.hour_lt
  have hminute := s.minute_lt
  have hsecond := s.second_lt
  rw [hyear] at hwidth hvalue
  rw [time, text, ofText_columns hwidth (pad2_length (by omega)) (pad2_length (by omega))
    (pad2_length (by omega)) (pad2_length (by omega)) (pad2_length (by omega)) s.sfrac,
    hvalue]
  simp only [atoi_pad2]

theorem frac_time : frac s.time = .finite s.fraction := by
  rw [frac, time_eq]
  have hdigits := s.digits_range
  unfold sfrac fraction
  cases h : s.digits with
  | none =>
      rw [atof_nil]
      have hzero : digitsValue [] = 0 := rfl
      simp [hzero]
  | some digits =>
      rw [h] at hdigits
      exact atof_fraction hdigits

theorem clock_range : 0 ≤ s.clock ∧ s.clock < 86400 := by
  have hhour := s.hour_lt
  have hminute := s.minute_lt
  have hsecond := s.second_lt
  unfold clock
  omega

/-- Where a time stands in its month, so many days ahead. -/
def place (s : Stamp) (ahead : ℤ) : ℤ ×ₗ ℤ ×ₗ ℚ :=
  toLex (s.day + ahead, toLex (s.clock, s.fraction))

end Stamp

/-- The comparison of the two times is the one of their columns. -/
structure AgreesWithCalendar (beyond : ℤ → Int32) (a b : Stamp) : Prop where
  exactly_one : (lt beyond a.time b.time ∧ ¬ eq a.time b.time ∧ ¬ gt beyond a.time b.time) ∨
    (¬ lt beyond a.time b.time ∧ eq a.time b.time ∧ ¬ gt beyond a.time b.time) ∨
    (¬ lt beyond a.time b.time ∧ ¬ eq a.time b.time ∧ gt beyond a.time b.time)
  lt_iff : lt beyond a.time b.time ↔ a.columns < b.columns
  le_iff : le beyond a.time b.time ↔ ¬ gt beyond a.time b.time

/-- How often the product of the year wraps around. -/
def wraps (year : ℕ) : ℤ := Int.bdiv (31536000 * year) (2 ^ 32)

/-- Every 400 years a day is added. -/
def leapDay (year : ℕ) : ℤ := if year % 400 = 0 then 1 else 0

theorem leapDay_range (year : ℕ) : 0 ≤ leapDay year ∧ leapDay year ≤ 1 := by
  unfold leapDay
  split_ifs <;> omega

/-- The days counted from a month to the next one of the year, where these are
fewer than 31. -/
def shortMonth (month next : ℕ) : Option ℤ :=
  if next = month + 1 then
    match month with
    | 1 => some 25
    | 3 => some 27
    | 5 => some 25
    | 8 => some 22
    | 10 => some 20
    | _ => none
  else none

/-- The days counted from the month of `a` to the month of `b`, if the second is
the next month and these are too few. -/
def countedDays (a b : Stamp) : Option ℤ :=
  if a.year = b.year then shortMonth a.month b.month
  else if b.year = a.year + 1 ∧ a.month = 12 ∧ b.month = 1 then
    some (24 + leapDay b.year - leapDay a.year)
  else none

/-- The days of the year, as they are counted. -/
def dayOfYear (s : Stamp) : ℤ := monthDays s.month + s.day + leapDay s.year

def yearSeconds (s : Stamp) : ℤ := 86400 * dayOfYear s + s.clock

/-- The seconds which are counted from a time to a later one. -/
def countedSeconds (a b : Stamp) : ℤ :=
  31536000 * ((b.year : ℤ) - a.year) + yearSeconds b - yearSeconds a

/-- What the wrapped products take away of them. -/
def lostSeconds (a b : Stamp) : ℤ := 2 ^ 32 * (wraps b.year - wraps a.year)

/-- With the starts of their years so far apart the second time is the later one. -/
def Later (apart : ℤ) (a b : Stamp) : Prop :=
  toLex (yearSeconds a, a.fraction) < toLex (apart + yearSeconds b, b.fraction)

/-- For two times in the order of the calendar: the days counted between their months are
enough, and where the products wrap, fewer seconds are lost than there are between the two. -/
structure InStep (a b : Stamp) : Prop where
  counted : wraps a.year = wraps b.year → ∀ n ∈ countedDays a b, a.place 0 < b.place n
  wrapped : wraps a.year ≠ wraps b.year →
    toLex (lostSeconds a b, a.fraction) < toLex (countedSeconds a b, b.fraction)

section Table

/-- From month to month within a year. -/
theorem monthDays_year {m n : ℕ} (hm : 1 ≤ m) (hmn : m < n) (hn : n ≤ 12) :
    monthDays m + (shortMonth m n).getD 31 ≤ monthDays n ∧
      ((shortMonth m n).isSome → monthDays n = monthDays m + (shortMonth m n).getD 31) := by
  have htable : ∀ m < 13, ∀ n < 13, 1 ≤ m ∧ m < n →
      monthDays (m : ℕ) + (shortMonth m n).getD 31 ≤ monthDays (n : ℕ) ∧
        ((shortMonth m n).isSome →
          monthDays (n : ℕ) = monthDays (m : ℕ) + (shortMonth m n).getD 31) := by
    decide
  exact htable m (by omega) n (by omega) ⟨hm, hmn⟩

theorem monthDays_le {m n : ℕ} (hm : m ≤ 12) (hn : 1 ≤ n ∧ n ≤ 12) :
    monthDays m ≤ monthDays n + 341 := by
  have htable : ∀ m < 13, ∀ n < 13, 1 ≤ n → monthDays (m : ℕ) ≤ monthDays (n : ℕ) + 341 := by
    decide
  exact htable m (by omega) n (by omega) hn.1

/-- Between other months than December and January. -/
theorem monthDays_le_of_ne {m n : ℕ} (hm : m ≤ 12) (hn : 1 ≤ n ∧ n ≤ 12) (h : ¬ (m = 12 ∧ n = 1)) :
    monthDays m ≤ monthDays n + 316 := by
  have htable : ∀ m < 13, ∀ n < 13, 1 ≤ n ∧ ¬ (m = 12 ∧ n = 1) →
      monthDays (m : ℕ) ≤ monthDays (n : ℕ) + 316 := by
    decide
  exact htable m (by omega) n (by omega) ⟨hn.1, h⟩

theorem monthDays_newYear : monthDays 12 = monthDays 1 + 341 := by decide

end Table

section Order
variable {a b : Stamp}

theorem eq_iff : eq a.time b.time = true ↔ a.columns = b.columns := by
  simp only [eq, Stamp.frac_time, Double.eq, Stamp.columns, toLex_inj, Prod.mk.injEq,
    decide_eq_true_eq]
  simp only [Stamp.time_eq, Nat.cast_inj]

theorem place_lt {m n : ℤ} :
    a.place m < b.place n ↔ (a.day : ℤ) + m < b.day + n ∨ (a.day : ℤ) + m = b.day + n ∧
      (a.clock < b.clock ∨ a.clock = b.clock ∧ a.fraction < b.fraction) := by
  simp only [Stamp.place, Prod.Lex.toLex_lt_toLex]

/-- The time of the day in one number. -/
theorem columns_lt :
    a.columns < b.columns ↔ a.year < b.year ∨ a.year = b.year ∧
      (a.month < b.month ∨ a.month = b.month ∧ a.place 0 < b.place 0) := by
  rw [place_lt]
  simp only [Stamp.columns, Prod.Lex.toLex_lt_toLex, Stamp.clock]
  have ha := a.minute_lt
  have hb := b.minute_lt
  have ha' := a.second_lt
  have hb' := b.second_lt
  by_cases hfraction : a.fraction < b.fraction
  · simp only [hfraction, and_true]
    omega
  · simp only [hfraction, and_false, or_false]
    omega

theorem wholeSeconds_time (beyond : ℤ → Int32) (s : Stamp) :
    wholeSeconds beyond s.time + leap s.time.year =
      31536000 * s.year - 2 ^ 32 * wraps s.year + yearSeconds s := by
  have hmonth := s.month_range
  have hday := s.day_le
  have hhour := s.hour_lt
  have hminute := s.minute_lt
  have hsecond := s.second_lt
  have hleap : leap s.year = 86400 * leapDay s.year := by
    unfold leap leapDay
    split_ifs <;> omega
  rw [Stamp.time_eq, wholeSeconds_eq beyond]
  · dsimp only
    rw [hleap, yearSeconds, dayOfYear, Stamp.clock]
    unfold wraps
    generalize Int.bdiv (31536000 * (s.year : ℤ)) (2 ^ 32) = turns
    omega
  all_goals
    dsimp only
    omega

section Counted
variable {years : ℤ}

/-- With so many days counted between the months the places in them decide. -/
theorem later_iff_place {n : ℤ}
    (h : 365 * years + dayOfYear b - dayOfYear a = (b.day : ℤ) + n - a.day) :
    Later (31536000 * years) a b ↔ a.place 0 < b.place n := by
  have hclock := a.clock_range
  have hclock' := b.clock_range
  rw [place_lt, Later, Prod.Lex.toLex_lt_toLex, yearSeconds, yearSeconds]
  by_cases hfraction : a.fraction < b.fraction
  · simp only [hfraction, and_true]
    omega
  · simp only [hfraction, and_false, or_false]
    omega

theorem later_of_days (h : dayOfYear a < 365 * years + dayOfYear b) :
    Later (31536000 * years) a b := by
  have hclock := a.clock_range
  have hclock' := b.clock_range
  rw [Later, Prod.Lex.toLex_lt_toLex, yearSeconds, yearSeconds]
  left
  omega

theorem later_iff_of_counted {n : ℤ} (hcounted : countedDays a b = some n)
    (h : 365 * years + dayOfYear b - dayOfYear a = (b.day : ℤ) + n - a.day) :
    Later (31536000 * years) a b ↔ ∀ n ∈ countedDays a b, a.place 0 < b.place n := by
  rw [later_iff_place h, hcounted]
  simp

theorem later_iff_of_uncounted (hcounted : countedDays a b = none)
    (h : Later (31536000 * years) a b) :
    Later (31536000 * years) a b ↔ ∀ n ∈ countedDays a b, a.place 0 < b.place n := by
  rw [hcounted]
  simpa using h

/-- Only from December to January may too few days be counted. -/
theorem later_iff_of_year_lt (hyear : a.year < b.year) :
    Later (31536000 * ((b.year : ℤ) - a.year)) a b ↔
      ∀ n ∈ countedDays a b, a.place 0 < b.place n := by
  have hother : ¬ a.year = b.year := by omega
  by_cases hnext : b.year = a.year + 1 ∧ a.month = 12 ∧ b.month = 1
  · have hturn := monthDays_newYear
    apply later_iff_of_counted (n := 24 + leapDay b.year - leapDay a.year)
    · rw [countedDays, if_neg hother, if_pos hnext]
    · rw [dayOfYear, dayOfYear, hnext.2.1, hnext.2.2, hnext.1]
      push_cast
      omega
  · have hday := a.day_le
    have hday' := b.day_range.1
    have hleap := leapDay_range a.year
    have hleap' := leapDay_range b.year
    have hwide := monthDays_le a.month_range.2 b.month_range
    have hnear := monthDays_le_of_ne a.month_range.2 b.month_range
    apply later_iff_of_uncounted
    · rw [countedDays, if_neg hother, if_neg hnext]
    · apply later_of_days
      unfold dayOfYear
      by_cases hone : b.year = a.year + 1
      · have hless := hnear fun hboth => hnext ⟨hone, hboth⟩
        omega
      · omega

theorem later_iff_of_month_lt (hyear : a.year = b.year) (hmonth : a.month < b.month) :
    Later (31536000 * ((b.year : ℤ) - a.year)) a b ↔
      ∀ n ∈ countedDays a b, a.place 0 < b.place n := by
  obtain ⟨henough, hexact⟩ := monthDays_year a.month_range.1 hmonth b.month_range.2
  have hcounted : countedDays a b = shortMonth a.month b.month := if_pos hyear
  cases hshort : shortMonth a.month b.month with
  | none =>
      have hday := a.day_le
      have hday' := b.day_range.1
      rw [hshort, Option.getD_none] at henough
      apply later_iff_of_uncounted (hcounted.trans hshort)
      apply later_of_days
      rw [dayOfYear, dayOfYear, hyear]
      omega
  | some g =>
      rw [hshort] at hexact
      have hdays := hexact rfl
      apply later_iff_of_counted (hcounted.trans hshort)
      rw [dayOfYear, dayOfYear, hyear, hdays, Option.getD_some]
      omega

theorem later_iff_of_place_lt (hyear : a.year = b.year) (hmonth : a.month = b.month)
    (hplace : a.place 0 < b.place 0) :
    Later (31536000 * ((b.year : ℤ) - a.year)) a b ↔
      ∀ n ∈ countedDays a b, a.place 0 < b.place n := by
  apply later_iff_of_uncounted
  · rw [countedDays, if_pos hyear]
    exact if_neg (by omega)
  · refine (later_iff_place ?_).mpr hplace
    rw [dayOfYear, dayOfYear, hyear, hmonth]
    omega

end Counted

/-- In years whose products wrap around equally often only the counted days matter. -/
theorem later_iff_counted (h : a.columns < b.columns) :
    Later (31536000 * ((b.year : ℤ) - a.year)) a b ↔
      ∀ n ∈ countedDays a b, a.place 0 < b.place n := by
  rcases columns_lt.mp h with hyear | ⟨hyear, hmonth | ⟨hmonth, hplace⟩⟩
  · exact later_iff_of_year_lt hyear
  · exact later_iff_of_month_lt hyear hmonth
  · exact later_iff_of_place_lt hyear hmonth hplace

/-- The products bring the years together by what they lose. -/
theorem later_iff_lost {apart : ℤ}
    (h : apart = 31536000 * ((b.year : ℤ) - a.year) - lostSeconds a b) :
    Later apart a b ↔ toLex (lostSeconds a b, a.fraction) < toLex (countedSeconds a b, b.fraction) := by
  rw [Later, Prod.Lex.toLex_lt_toLex, Prod.Lex.toLex_lt_toLex, countedSeconds, h]
  by_cases hfraction : a.fraction < b.fraction
  · simp only [hfraction, and_true]
    omega
  · simp only [hfraction, and_false, or_false]
    omega

/-- Of two times the later one has more seconds when the two are in step. -/
theorem timestamp_lt_iff (beyond : ℤ → Int32) (h : a.columns < b.columns) :
    (timestamp beyond a.time).lt (timestamp beyond b.time) = true ↔ InStep a b := by
  obtain ⟨apart, hapart⟩ : ∃ apart, apart = 31536000 * ((b.year : ℤ) - a.year) - lostSeconds a b :=
    ⟨_, rfl⟩
  have hshift : 31536000 * (a.year : ℤ) - 2 ^ 32 * wraps a.year + apart =
      31536000 * b.year - 2 ^ 32 * wraps b.year := by
    rw [hapart, lostSeconds]
    ring
  rw [timestamp_lt a.frac_time b.frac_time a.fraction_range b.fraction_range,
    wholeSeconds_time, wholeSeconds_time, ← hshift, Prod.Lex.toLex_lt_toLex]
  have hstart (start : ℤ) : start + yearSeconds a < start + apart + yearSeconds b ∨
      start + yearSeconds a = start + apart + yearSeconds b ∧ a.fraction < b.fraction ↔
      Later apart a b := by
    rw [Later, Prod.Lex.toLex_lt_toLex, Int.add_assoc, Int.add_lt_add_iff_left, Int.add_right_inj]
  rw [hstart]
  by_cases hwraps : wraps a.year = wraps b.year
  · have hyears : apart = 31536000 * ((b.year : ℤ) - a.year) := by
      rw [hapart, lostSeconds, hwraps]
      ring
    rw [hyears, later_iff_counted h]
    exact ⟨fun hplace => ⟨fun _ => hplace, fun hother => absurd hwraps hother⟩,
      fun hstep => hstep.counted hwraps⟩
  · rw [later_iff_lost hapart]
    exact ⟨fun hlater => ⟨fun hsame => absurd hsame hwraps, fun _ => hlater⟩,
      fun hstep => hstep.wrapped hwraps⟩

theorem eq_of_columns_ne (h : a.columns ≠ b.columns) : eq a.time b.time = false := by
  rw [Bool.eq_false_iff, ne_eq, eq_iff]
  exact h

theorem lt_iff_inStep (beyond : ℤ → Int32) (h : a.columns < b.columns) :
    lt beyond a.time b.time = true ↔ InStep a b := by
  rw [lt, ne, eq_of_columns_ne h.ne, Bool.not_false, Bool.true_and, timestamp_lt_iff beyond h]

theorem gt_iff_inStep (beyond : ℤ → Int32) (h : b.columns < a.columns) :
    gt beyond a.time b.time = true ↔ InStep b a := by
  rw [gt, ne, eq_of_columns_ne h.ne', Bool.not_false, Bool.true_and, timestamp_lt_iff beyond h]

/-- For two times in the order of the calendar only `<` may go wrong. -/
theorem agrees_iff_of_lt (beyond : ℤ → Int32) (h : a.columns < b.columns) :
    AgreesWithCalendar beyond a b ↔ lt beyond a.time b.time = true := by
  have hne := Bool.eq_false_iff.mp (eq_of_columns_ne h.ne)
  constructor
  · exact fun hagrees => hagrees.lt_iff.mpr h
  · intro hlt
    have hgt := Bool.eq_false_iff.mp (gt_of_lt hlt)
    constructor
    case exactly_one => exact Or.inl ⟨hlt, hne, hgt⟩
    case lt_iff => exact iff_of_true hlt h
    case le_iff => exact iff_of_true (le_iff.mpr (Or.inr hlt)) hgt

/-- For two times in the other order only `>` may. -/
theorem agrees_iff_of_gt (beyond : ℤ → Int32) (h : b.columns < a.columns) :
    AgreesWithCalendar beyond a b ↔ gt beyond a.time b.time = true := by
  have hne := Bool.eq_false_iff.mp (eq_of_columns_ne h.ne')
  constructor
  · intro hagrees
    by_contra hgt
    rcases le_iff.mp (hagrees.le_iff.mpr hgt) with heq | hlt
    · exact hne heq
    · exact h.asymm (hagrees.lt_iff.mp hlt)
  · intro hgt
    have hlt := Bool.eq_false_iff.mp (lt_of_gt hgt)
    have hle : ¬ le beyond a.time b.time = true := fun hle => (le_iff.mp hle).elim hne hlt
    constructor
    case exactly_one => exact Or.inr (Or.inr ⟨hlt, hne, hgt⟩)
    case lt_iff => exact iff_of_false hlt h.asymm
    case le_iff => exact iff_of_false hle (not_not_intro hgt)

theorem agrees_of_eq (beyond : ℤ → Int32) (h : a.columns = b.columns) :
    AgreesWithCalendar beyond a b := by
  have heq := eq_iff.mpr h
  obtain ⟨hlt, hgt⟩ := not_lt_gt_of_eq beyond heq
  constructor
  case exactly_one => exact Or.inr (Or.inl ⟨hlt, heq, hgt⟩)
  case lt_iff => exact iff_of_false hlt h.not_lt
  case le_iff => exact iff_of_true (le_iff.mpr (Or.inl heq)) hgt

end Order

/-- The comparison agrees with the calendar exactly when the two times are in step. -/
theorem agrees_with_calendar_iff (beyond : ℤ → Int32) (a b : Stamp) :
    AgreesWithCalendar beyond a b ↔
      (a.columns < b.columns → InStep a b) ∧ (b.columns < a.columns → InStep b a) := by
  rcases lt_trichotomy a.columns b.columns with hbefore | hsame | hafter
  · rw [agrees_iff_of_lt beyond hbefore, lt_iff_inStep beyond hbefore]
    exact ⟨fun hin => ⟨fun _ => hin, fun h => absurd h hbefore.asymm⟩, fun h => h.1 hbefore⟩
  · exact iff_of_true (agrees_of_eq beyond hsame)
      ⟨fun h => absurd hsame h.ne, fun h => absurd hsame h.ne'⟩
  · rw [agrees_iff_of_gt beyond hafter, gt_iff_inStep beyond hafter]
    exact ⟨fun hin => ⟨fun h => absurd h hafter.asymm, fun _ => hin⟩, fun h => h.2 hafter⟩

theorem midnight_hour : 0 < 24 := by decide

theorem midnight_sixtieth : 0 < 60 := by decide

/-- Midnight of a day in 2018. -/
def midnight (month day : ℕ) (hmonth : 1 ≤ month ∧ month ≤ 12)
    (hday : 1 ≤ day ∧ day ≤ daysInMonth 2018 month) : Stamp where
  year := 2018
  month := month
  day := day
  hour := 0
  minute := 0
  second := 0
  digits := none
  year_range := by decide
  month_range := hmonth
  day_range := hday
  hour_lt := midnight_hour
  minute_lt := midnight_sixtieth
  second_lt := midnight_sixtieth
  digits_range := fun c hc => absurd hc List.not_mem_nil

def lastOfJanuary : Stamp := midnight 1 31 (by decide) ⟨by decide, by decide⟩

def firstOfFebruary : Stamp := midnight 2 1 (by decide) ⟨by decide, by decide⟩

/-- The last day of January is not before the first day of February. -/
theorem january_after_february :
    ¬ AgreesWithCalendar (fun _ => 0) lastOfJanuary firstOfFebruary := by
  intro hagrees
  have hbefore : lastOfJanuary.columns < firstOfFebruary.columns := by
    rw [columns_lt]
    exact Or.inr ⟨rfl, Or.inl (by decide)⟩
  have hstep := (lt_iff_inStep _ hbefore).mp (hagrees.lt_iff.mpr hbefore)
  have hplace := hstep.counted rfl 25 rfl
  rw [place_lt] at hplace
  revert hplace
  decide

end KafkaK3.CalendarOrder
