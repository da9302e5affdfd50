import KafkaK3.Strtod
import KafkaK3.TimeText
import Mathlib.Algebra.Order.Ring.Rat
import Mathlib.Data.Prod.Lex
import Mathlib.Tactic.Linarith
import Mathlib.Tactic.Ring

/-!
# The comparison of times

Two times are equal when all their fields are. Before and after are decided by a
number of seconds, for which the years are taken as 365 days and the months as
the month's number times its own length. The products are 32-bit `int`s. A month
which is none takes the word which lies on the stack beside the table.
-/
namespace KafkaK3.TimeOrder
open DecimalText TimeText Strtod

/-- The days of the months, from the first one on. -/
def months : List Int32 := [0, 31, 28, 31, 30, 31, 30, 31, 31, 30, 31, 30, 31]

/-- `months[month]`, with the words beside the table by their index. -/
def monthsAt (beyond : ℤ → Int32) (month : ℤ) : Int32 :=
  if 0 ≤ month ∧ month < 13 then months.getD month.toNat 0 else beyond month

/-- `frac`, which is zero where `sfrac` is empty. -/
def frac (t : MessageTime) : Double := atof t.sfrac

def leap (year : ℤ) : ℤ :=
  if year % 4 = 0 then
    if year % 100 = 0 then
      if year % 400 = 0 then 60 * 60 * 24 else 0
    else 0
  else 0

/-- The `int`s which `timestamp` adds up. -/
def wholeSeconds (beyond : ℤ → Int32) (t : MessageTime) : ℤ :=
  (Int32.ofInt t.year * (60 * 60 * 24 * 365)).toInt +
    (Int32.ofInt t.month * (60 * 60 * 24 * monthsAt beyond t.month)).toInt +
    (Int32.ofInt t.day * (60 * 60 * 24)).toInt +
    (Int32.ofInt t.hour * (60 * 60)).toInt +
    (Int32.ofInt t.minute * 60).toInt +
    (Int32.ofInt t.second).toInt

/-- `MessageTime::timestamp`. -/
def timestamp (beyond : ℤ → Int32) (t : MessageTime) : Double :=
  ((Double.finite (wholeSeconds beyond t)).add (frac t)).add (.finite (leap t.year))

section Operators
variable (beyond : ℤ → Int32) (t other : MessageTime)

/-- `operator ==`. -/
def eq : Bool :=
  t.year = other.year ∧ t.month = other.month ∧ t.day = other.day ∧ t.hour = other.hour ∧
    t.minute = other.minute ∧ t.second = other.second ∧ (frac t).eq (frac other)

/-- `operator !=`. -/
def ne : Bool := !eq t other

/-- `operator >`. -/
def gt : Bool := ne t other && (timestamp beyond other).lt (timestamp beyond t)

/-- `operator >=`. -/
def ge : Bool := eq t other || gt beyond t other

/-- `operator <`. -/
def lt : Bool := ne t other && (timestamp beyond t).lt (timestamp beyond other)

/-- `operator <=`. -/
def le : Bool := eq t other || lt beyond t other

variable {beyond t other}

theorem le_iff : le beyond t other = true ↔ eq t other = true ∨ lt beyond t other = true :=
  Bool.or_eq_true_iff

theorem not_lt_gt_of_eq (beyond : ℤ → Int32) (h : eq t other = true) :
    ¬ lt beyond t other = true ∧ ¬ gt beyond t other = true := by
  rw [lt, gt, ne, h]
  exact ⟨Bool.false_ne_true, Bool.false_ne_true⟩

theorem gt_of_lt (h : lt beyond t other = true) : gt beyond t other = false := by
  rw [lt, Bool.and_eq_true] at h
  rw [gt, Double.lt_asymm h.2, Bool.and_false]

theorem lt_of_gt (h : gt beyond t other = true) : lt beyond t other = false := by
  rw [gt, Bool.and_eq_true] at h
  rw [lt, Double.lt_asymm h.2, Bool.and_false]

end Operators

/-- A month's number times its length, in days. -/
def monthDays (month : ℤ) : ℤ := month * (months.getD month.toNat 0).toInt

section Valid

theorem product_eq {x k : ℤ} {n : Int32} (hn : n = Int32.ofInt k)
    (h : -2 ^ 31 ≤ x * k ∧ x * k < 2 ^ 31) : (Int32.ofInt x * n).toInt = x * k := by
  rw [hn, ← Int32.ofInt_mul]
  exact Int32.toInt_ofInt_of_le h.1 h.2

/-- The product of the year may wrap around. -/
theorem year_product (year : ℤ) :
    (Int32.ofInt year * (60 * 60 * 24 * 365)).toInt =
      31536000 * year - 2 ^ 32 * Int.bdiv (31536000 * year) (2 ^ 32) := by
  have hseconds : (60 * 60 * 24 * 365 : Int32) = Int32.ofInt 31536000 := rfl
  rw [hseconds, ← Int32.ofInt_mul, Int32.toInt_ofInt, Int.mul_comm,
    Int.bmod_eq_self_sub_mul_bdiv]
  rfl

theorem month_product (beyond : ℤ → Int32) {month : ℤ} (h : 1 ≤ month ∧ month ≤ 12) :
    (Int32.ofInt month * (60 * 60 * 24 * monthsAt beyond month)).toInt =
      60 * 60 * 24 * monthDays month := by
  have htable : ∀ n ≤ 12, (Int32.ofInt (n : ℕ) * (60 * 60 * 24 * months.getD n 0)).toInt =
      60 * 60 * 24 * monthDays n := by
    decide
  have hin : monthsAt beyond month = months.getD month.toNat 0 := if_pos (by omega)
  obtain ⟨n, rfl⟩ := Int.eq_ofNat_of_zero_le (by omega : 0 ≤ month)
  rw [hin]
  exact htable n (by omega)

/-- The seconds of a time with a real month, day and time of the day. -/
theorem wholeSeconds_eq (beyond : ℤ → Int32) {t : MessageTime} (hmonth : 1 ≤ t.month ∧ t.month ≤ 12)
    (hday : 0 ≤ t.day ∧ t.day ≤ 31) (hhour : 0 ≤ t.hour ∧ t.hour ≤ 23)
    (hminute : 0 ≤ t.minute ∧ t.minute ≤ 59) (hsecond : 0 ≤ t.second ∧ t.second ≤ 59) :
    wholeSeconds beyond t =
      31536000 * t.year - 2 ^ 32 * Int.bdiv (31536000 * t.year) (2 ^ 32) +
        86400 * (monthDays t.month + t.day) + (3600 * t.hour + 60 * t.minute + t.second) := by
  have hd : (Int32.ofInt t.day * (60 * 60 * 24)).toInt = t.day * 86400 := product_eq rfl (by omega)
  have hh : (Int32.ofInt t.hour * (60 * 60)).toInt = t.hour * 3600 := product_eq rfl (by omega)
  have hm : (Int32.ofInt t.minute * 60).toInt = t.minute * 60 := product_eq rfl (by omega)
  have hs : (Int32.ofInt t.second).toInt = t.second :=
    Int32.toInt_ofInt_of_le (by omega) (by omega)
  rw [wholeSeconds, year_product, month_product beyond hmonth, hd, hh, hm, hs]
  ring

/-- With a fraction below a second the seconds come first, and then the fraction. -/
theorem timestamp_lt {beyond : ℤ → Int32} {t u : MessageTime} {f g : ℚ} (ht : frac t = .finite f)
    (hu : frac u = .finite g) (hf : 0 ≤ f ∧ f < 1) (hg : 0 ≤ g ∧ g < 1) :
    (timestamp beyond t).lt (timestamp beyond u) = true ↔
      toLex (wholeSeconds beyond t + leap t.year, f) <
        toLex (wholeSeconds beyond u + leap u.year, g) := by
  have hsum (s l : ℤ) (q : ℚ) :
      ((Double.finite s).add (.finite q)).add (.finite l) = .finite ((s + l : ℤ) + q) := by
    simp only [Double.add, Double.finite.injEq]
    push_cast
    ring
  rw [timestamp, timestamp, ht, hu, hsum, hsum, Prod.Lex.toLex_lt_toLex]
  simp only [Double.lt, decide_eq_true_eq]
  generalize wholeSeconds beyond t + leap t.year = m
  generalize wholeSeconds beyond u + leap u.year = n
  rcases lt_trichotomy m n with hmn | rfl | hmn
  · have hstep : (m : ℚ) + 1 ≤ n := by exact_mod_cast hmn
    simp only [hmn, true_or, iff_true]
    linarith
  · simp
  · have hstep : (n : ℚ) + 1 ≤ m := by exact_mod_cast hmn
    have hnot : ¬ m < n := by omega
    have hne : m ≠ n := by omega
    simp only [hnot, hne, false_and, or_false, iff_false, not_lt]
    linarith

end Valid

end KafkaK3.TimeOrder
