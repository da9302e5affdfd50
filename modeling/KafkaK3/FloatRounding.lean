import Mathlib.Algebra.Order.Round
import Mathlib.Data.Int.Log
import Mathlib.Data.Rat.Floor
import Mathlib.Tactic.FieldSimp
import Mathlib.Tactic.Linarith
import Mathlib.Tactic.Positivity
import Mathlib.Tactic.Ring

/-!
# Rounding to a number of bits

A binary floating point number has `p` significant bits. A result which has more is
rounded to the nearest number which has not, and to the one whose last bit is zero
where there are two. The exponents have no bounds here. One rounding makes a result
wrong by at most the `2 ^ p`-th part of it.
-/
namespace KafkaK3.FloatRounding

/-- The nearest integer, and the even one of two. -/
def roundEven (x : ℚ) : ℤ :=
  if x - ⌊x⌋ < 1 / 2 then ⌊x⌋
  else if 1 / 2 < x - ⌊x⌋ then ⌊x⌋ + 1
  else if ⌊x⌋ % 2 = 0 then ⌊x⌋
  else ⌊x⌋ + 1

/-- The value of the last of `p` bits of a number. -/
def lastPlace (p : ℕ) (x : ℚ) : ℚ := 2 ^ (Int.log 2 |x| + 1 - p)

def roundTo (p : ℕ) (x : ℚ) : ℚ := roundEven (x / lastPlace p x) * lastPlace p x

theorem roundEven_error (x : ℚ) : |(roundEven x : ℚ) - x| ≤ 1 / 2 := by
  have hle := Int.floor_le x
  have hlt := Int.lt_floor_add_one x
  unfold roundEven
  split
  · rw [abs_le]
    constructor <;> linarith
  next hbelow =>
    rw [not_lt] at hbelow
    split
    · rw [abs_le]
      push_cast
      constructor <;> linarith
    next habove =>
      rw [not_lt] at habove
      split
      · rw [abs_le]
        constructor <;> linarith
      · rw [abs_le]
        push_cast
        constructor <;> linarith

theorem roundEven_intCast (n : ℤ) : roundEven n = n := by
  rw [roundEven, Int.floor_intCast, sub_self, if_pos (by norm_num)]

section Precision
variable (p : ℕ)

theorem lastPlace_pos (x : ℚ) : 0 < lastPlace p x := zpow_pos two_pos _

theorem roundTo_zero : roundTo p 0 = 0 := by
  rw [roundTo, zero_div, ← Int.cast_zero, roundEven_intCast, Int.cast_zero, zero_mul]

/-- Half of the last place is at most the `2 ^ p`-th part. -/
theorem half_lastPlace_le {x : ℚ} (hx : x ≠ 0) : lastPlace p x / 2 ≤ |x| / 2 ^ p := by
  have hhalf : lastPlace p x / 2 = 2 ^ Int.log 2 |x| / 2 ^ p := by
    rw [lastPlace, zpow_sub₀ two_ne_zero, zpow_add_one₀ two_ne_zero, zpow_natCast]
    ring
  rw [hhalf]
  have hlog := Int.zpow_log_le_self (b := 2) one_lt_two (abs_pos.mpr hx)
  gcongr
  exact_mod_cast hlog

theorem roundTo_error (x : ℚ) : |roundTo p x - x| ≤ |x| / 2 ^ p := by
  by_cases hx : x = 0
  · rw [hx, roundTo_zero, sub_zero, abs_zero, zero_div]
  · have hpos := lastPlace_pos p x
    have hscaled : roundTo p x - x =
        (roundEven (x / lastPlace p x) - x / lastPlace p x) * lastPlace p x := by
      rw [roundTo, sub_mul, div_mul_cancel₀ x hpos.ne']
    calc |roundTo p x - x|
        = |(roundEven (x / lastPlace p x) : ℚ) - x / lastPlace p x| * lastPlace p x := by
          rw [hscaled, abs_mul, abs_of_pos hpos]
      _ ≤ 1 / 2 * lastPlace p x :=
          mul_le_mul_of_nonneg_right (roundEven_error _) hpos.le
      _ = lastPlace p x / 2 := by ring
      _ ≤ |x| / 2 ^ p := half_lastPlace_le p hx

/-- A factor and a product which are rounded one after the other. -/
theorem roundTo_mul_error (x y : ℚ) :
    |roundTo p (roundTo p x * y) - x * y| ≤ 3 * (|x * y| / 2 ^ p) := by
  have hfactor := roundTo_error p x
  have hproduct := roundTo_error p (roundTo p x * y)
  have hone : (1 : ℚ) ≤ 2 ^ p := one_le_pow₀ one_le_two
  have hmoved : |roundTo p x * y - x * y| ≤ |x * y| / 2 ^ p := by
    rw [← sub_mul, abs_mul, abs_mul, mul_div_right_comm]
    exact mul_le_mul_of_nonneg_right hfactor (abs_nonneg y)
  have hlarge : |roundTo p x * y| ≤ 2 * |x * y| := by
    have hsmall : |x * y| / 2 ^ p ≤ |x * y| := div_le_self (abs_nonneg _) hone
    have htriangle := abs_add_le (roundTo p x * y - x * y) (x * y)
    rw [sub_add_cancel] at htriangle
    linarith
  calc |roundTo p (roundTo p x * y) - x * y|
      ≤ |roundTo p (roundTo p x * y) - roundTo p x * y| + |roundTo p x * y - x * y| :=
        abs_sub_le _ _ _
    _ ≤ 2 * |x * y| / 2 ^ p + |x * y| / 2 ^ p :=
        add_le_add (hproduct.trans (by gcongr)) hmoved
    _ = 3 * (|x * y| / 2 ^ p) := by ring

end Precision

/-- The share `.7` is not seven tenths, but its product with ten is seven. -/
example : roundTo 53 (10 * roundTo 53 (7 / 10)) = 7 ∧ 10 * roundTo 53 (7 / 10) < 7 := by
  decide +kernel

end KafkaK3.FloatRounding
