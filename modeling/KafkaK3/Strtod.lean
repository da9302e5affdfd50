import KafkaK3.DecimalText
import Mathlib.Algebra.Field.Rat

/-!
# The numbers of `strtod`

A `double` is a rational number, an infinity, or not a number. Arithmetic is
exact: nothing is rounded, and no finite number is too large or too small. The
text is read as in the C locale, with an optional sign, a decimal or hexadecimal
mantissa and an optional exponent. What follows the number is not looked at.
-/
namespace KafkaK3.Strtod
open DecimalText

inductive Double where
  | finite (value : ℚ)
  | infinite (negative : Bool)
  | nan
  deriving DecidableEq

namespace Double

def add : Double → Double → Double
  | nan, _ => nan
  | _, nan => nan
  | finite x, finite y => finite (x + y)
  | finite _, infinite n => infinite n
  | infinite m, finite _ => infinite m
  | infinite m, infinite n => if m = n then infinite m else nan

def neg : Double → Double
  | finite x => finite (-x)
  | infinite n => infinite (!n)
  | nan => nan

/-- Nothing equals what is not a number. -/
def eq : Double → Double → Bool
  | finite x, finite y => x = y
  | infinite m, infinite n => m = n
  | _, _ => false

def lt : Double → Double → Bool
  | finite x, finite y => x < y
  | finite _, infinite n => !n
  | infinite m, finite _ => m
  | infinite m, infinite n => m && !n
  | nan, _ => false
  | _, nan => false

theorem lt_asymm {x y : Double} (h : x.lt y = true) : y.lt x = false := by
  cases x <;> cases y <;> simp_all [lt, le_of_lt]

end Double

/-- A way to write mantissas. -/
structure Radix where
  base : ℕ
  isDigit : Char → Bool
  value : Text → ℕ

def hexDigitValue (c : Char) : ℕ :=
  if c.isDigit then c.toNat - '0'.toNat else c.toLower.toNat - 'a'.toNat + 10

def isHexDigit (c : Char) : Bool := c.isDigit || ('a' ≤ c.toLower && c.toLower ≤ 'f')

def decimal : Radix := ⟨10, Char.isDigit, digitsValue⟩

def hexadecimal : Radix := ⟨16, isHexDigit, fun u => u.foldl (fun n c => 16 * n + hexDigitValue c) 0⟩

/-- Digits with at most one point, and the text behind them; there must be a digit. -/
def mantissa (r : Radix) (s : Text) : Option (ℚ × Text) :=
  let whole := s.takeWhile r.isDigit
  match s.dropWhile r.isDigit with
  | '.' :: rest =>
      let part := rest.takeWhile r.isDigit
      if whole = [] ∧ part = [] then none
      else some (r.value (whole ++ part) / r.base ^ part.length, rest.dropWhile r.isDigit)
  | rest => if whole = [] then none else some (r.value whole, rest)

/-- The exponent behind its mark, zero if there is none. -/
def exponent (mark : Char) : Text → ℤ
  | [] => 0
  | c :: rest =>
      if c.toLower = mark then
        match rest with
        | '-' :: digits => -(leadingNumber digits : ℤ)
        | '+' :: digits => leadingNumber digits
        | digits => leadingNumber digits
      else 0

/-- The number behind the sign. -/
def magnitude (s : Text) : Double :=
  let lower := s.map Char.toLower
  if ['i', 'n', 'f'] <+: lower then .infinite false
  else if ['n', 'a', 'n'] <+: lower then .nan
  else
    match if ['0', 'x'] <+: lower then mantissa hexadecimal (s.drop 2) else none with
    | some (m, rest) => .finite (m * 2 ^ exponent 'p' rest)
    | none =>
        match mantissa decimal s with
        | some (m, rest) => .finite (m * 10 ^ exponent 'e' rest)
        | none => .finite 0

/-- `strtod`, of which `atof` keeps the number. -/
def atof (s : Text) : Double :=
  match s.dropWhile isSpace with
  | '-' :: rest => (magnitude rest).neg
  | '+' :: rest => magnitude rest
  | rest => magnitude rest

theorem atof_nil : atof [] = .finite 0 := rfl

/-- A text which starts with a point is read as a decimal number. -/
theorem atof_point (s : Text) :
    atof ('.' :: s) = match mantissa decimal ('.' :: s) with
      | some (m, rest) => .finite (m * 10 ^ exponent 'e' rest)
      | none => .finite 0 := rfl

/-- A point and digits behind it. -/
theorem atof_fraction {digits : Text} (h : AllDigits digits) :
    atof ('.' :: digits) = .finite (digitsValue digits / 10 ^ digits.length) := by
  have htake : digits.takeWhile Char.isDigit = digits := List.takeWhile_eq_self_iff.mpr h
  have hdrop : digits.dropWhile Char.isDigit = [] := List.dropWhile_eq_nil_iff.mpr h
  have hmantissa : mantissa decimal ('.' :: digits) =
      if digits = [] then none
      else some ((digitsValue digits : ℚ) / 10 ^ digits.length, []) := by
    have hpoint : Char.isDigit '.' = false := by decide
    simp [mantissa, decimal, hpoint, htake, hdrop]
  rw [atof_point, hmantissa]
  by_cases hnone : digits = []
  · have hzero : digitsValue [] = 0 := rfl
    simp [hnone, hzero]
  · simp [hnone, exponent]

end KafkaK3.Strtod
