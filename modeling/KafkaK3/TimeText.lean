import KafkaK3.DecimalText
import Mathlib.Data.List.Basic

/-!
# Times as the replay reads them

A `MessageTime` is read from fixed columns of a text, as far as the text goes.
The separators between the columns are skipped without a look at them, and what
is not a number reads as zero. `frac` is the number which `sfrac` denotes and is
not kept apart from it.
-/
namespace KafkaK3.TimeText
open DecimalText

structure MessageTime where
  year : ℤ
  month : ℤ
  day : ℤ
  hour : ℤ
  minute : ℤ
  second : ℤ
  sfrac : Text
  deriving DecidableEq, Repr

def MessageTime.cleared : MessageTime := ⟨1970, 1, 1, 0, 0, 0, []⟩

def substr (s : Text) (pos n : ℕ) : Text := (s.drop pos).take n

/-- `MessageTime::MessageTime(const std::string&)`. A column is read only where the
text reaches to its end, so it is never empty. -/
def MessageTime.ofText (s : Text) : MessageTime :=
  let t := cleared
  if s.length < 4 then t else
  let t := { t with year := atoi (substr s 0 4) }
  if s.length < 7 then t else
  let t := { t with month := atoi (substr s 5 2) }
  if s.length < 10 then t else
  let t := { t with day := atoi (substr s 8 2) }
  if s.length < 13 then t else
  let t := { t with hour := atoi (substr s 11 2) }
  if s.length < 16 then t else
  let t := { t with minute := atoi (substr s 14 2) }
  if s.length < 19 then t else
  let t := { t with second := atoi (substr s 17 2) }
  if s.length < 20 then t else
  { t with sfrac := s.drop 19 }

/-- A text which reaches to the end of the seconds is read from all columns. -/
theorem ofText_of_length {s : Text} (h : 19 ≤ s.length) :
    MessageTime.ofText s =
      ⟨atoi (substr s 0 4), atoi (substr s 5 2), atoi (substr s 8 2), atoi (substr s 11 2),
        atoi (substr s 14 2), atoi (substr s 17 2), s.drop 19⟩ := by
  have h4 : ¬ s.length < 4 := by omega
  have h7 : ¬ s.length < 7 := by omega
  have h10 : ¬ s.length < 10 := by omega
  have h13 : ¬ s.length < 13 := by omega
  have h16 : ¬ s.length < 16 := by omega
  have h19 : ¬ s.length < 19 := by omega
  simp only [MessageTime.ofText, h4, h7, h10, h13, h16, h19, if_false]
  by_cases h20 : s.length < 20
  · rw [if_pos h20, List.drop_of_length_le (by omega)]
    rfl
  · rw [if_neg h20]

/-- The first column is read whenever it is there. -/
theorem ofText_year {s : Text} (h : 4 ≤ s.length) :
    (MessageTime.ofText s).year = atoi (substr s 0 4) := by
  have h4 : ¬ s.length < 4 := by omega
  simp only [MessageTime.ofText, h4, if_false, apply_ite MessageTime.year, ite_self]

/-- Columns of the right widths are read back, whatever separates them. -/
theorem ofText_columns {year month day hour minute second : Text} (hyear : year.length = 4)
    (hmonth : month.length = 2) (hday : day.length = 2) (hhour : hour.length = 2)
    (hminute : minute.length = 2) (hsecond : second.length = 2) (tail : Text)
    (a b c d e : Char) :
    MessageTime.ofText (year ++ a :: (month ++ b :: (day ++ c :: (hour ++ d :: (minute ++
        e :: (second ++ tail)))))) =
      ⟨atoi year, atoi month, atoi day, atoi hour, atoi minute, atoi second, tail⟩ := by
  have hlen : 19 ≤ (year ++ a :: (month ++ b :: (day ++ c :: (hour ++ d :: (minute ++
      e :: (second ++ tail)))))).length := by
    simp only [List.length_append, List.length_cons, hyear, hmonth, hday, hhour, hminute, hsecond]
    omega
  obtain ⟨y₁, rest, rfl⟩ := List.exists_cons_of_length_eq_add_one hyear
  obtain ⟨y₂, y₃, y₄, rfl⟩ := List.length_eq_three.mp (Nat.succ.inj hyear)
  obtain ⟨m₁, m₂, rfl⟩ := List.length_eq_two.mp hmonth
  obtain ⟨d₁, d₂, rfl⟩ := List.length_eq_two.mp hday
  obtain ⟨h₁, h₂, rfl⟩ := List.length_eq_two.mp hhour
  obtain ⟨n₁, n₂, rfl⟩ := List.length_eq_two.mp hminute
  obtain ⟨s₁, s₂, rfl⟩ := List.length_eq_two.mp hsecond
  rw [ofText_of_length hlen]
  rfl

end KafkaK3.TimeText
