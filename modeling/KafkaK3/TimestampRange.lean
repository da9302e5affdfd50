import KafkaK3.TimeOrder
import KafkaK3.TimeRoundTrip

/-!
# Where the seconds of a time are defined

`timestamp` reads the table of the months at the parsed month and multiplies in
`int`s, whatever text the time came from. The days, hours and minutes of any text
are harmless. The year is not, which counts from the year 0 and fits for 68 years
to either side of it, nor is a month for which the table has no entry.
-/
namespace KafkaK3.TimestampRange
open DecimalText TimeText TimeOrder TimeRoundTrip

/-- The products which `timestamp` computes, as exact numbers. -/
def products (t : MessageTime) : List ℤ :=
  let days := (months.getD t.month.toNat 0).toInt
  [t.year * (60 * 60 * 24 * 365), 60 * 60 * 24 * days, t.month * (60 * 60 * 24 * days),
    t.day * (60 * 60 * 24), t.hour * (60 * 60), t.minute * 60]

/-- The table is read inside its bounds and every product is an `int`. -/
structure Defined (t : MessageTime) : Prop where
  table : 0 ≤ t.month ∧ t.month ≤ 12
  products : ∀ x ∈ products t, FitsInt x

section Products
variable {t : MessageTime}

theorem days_le {month : ℤ} (h : 0 ≤ month ∧ month ≤ 12) :
    0 ≤ (months.getD month.toNat 0).toInt ∧ (months.getD month.toNat 0).toInt ≤ 31 := by
  have htable : ∀ n ≤ 12, 0 ≤ (months.getD n 0).toInt ∧ (months.getD n 0).toInt ≤ 31 := by decide
  exact htable month.toNat (by omega)

/-- What is defined is the sum of the exact terms, whatever lies beside the table. -/
theorem wholeSeconds_of_defined (beyond : ℤ → Int32) (hcolumns : Columns t) (h : Defined t) :
    wholeSeconds beyond t = t.year * (60 * 60 * 24 * 365) +
      t.month * (60 * 60 * 24 * (months.getD t.month.toNat 0).toInt) +
      t.day * (60 * 60 * 24) + t.hour * (60 * 60) + t.minute * 60 + t.second := by
  have hproducts := h.products
  simp only [products, List.forall_mem_cons] at hproducts
  obtain ⟨hyear, -, hmonth, hday, hhour, hminute, -⟩ := hproducts
  have hy : (Int32.ofInt t.year * (60 * 60 * 24 * 365)).toInt = t.year * (60 * 60 * 24 * 365) :=
    product_eq rfl hyear
  have hd : (Int32.ofInt t.day * (60 * 60 * 24)).toInt = t.day * (60 * 60 * 24) :=
    product_eq rfl hday
  have hh : (Int32.ofInt t.hour * (60 * 60)).toInt = t.hour * (60 * 60) := product_eq rfl hhour
  have hm : (Int32.ofInt t.minute * 60).toInt = t.minute * 60 := product_eq rfl hminute
  have hentry : monthsAt beyond t.month = months.getD t.month.toNat 0 :=
    if_pos ⟨h.table.1, Int.lt_add_one_of_le h.table.2⟩
  have hlength : 60 * 60 * 24 * months.getD t.month.toNat 0 =
      Int32.ofInt (60 * 60 * 24 * (months.getD t.month.toNat 0).toInt) := by
    rw [Int32.ofInt_mul, Int32.ofInt_toInt]
    rfl
  have hsecond := hcolumns.second
  rw [wholeSeconds, hentry, hy, product_eq hlength hmonth, hd, hh, hm,
    Int32.toInt_ofInt_of_le (by omega) (by omega)]

/-- The parsed fields leave two dangers only. -/
theorem defined_iff (h : Columns t) :
    Defined t ↔ (-68 ≤ t.year ∧ t.year ≤ 68) ∧ 0 ≤ t.month ∧ t.month ≤ 12 := by
  constructor
  · intro hdefined
    have hyear : FitsInt (t.year * (60 * 60 * 24 * 365)) :=
      hdefined.products _ List.mem_cons_self
    unfold FitsInt at hyear
    exact ⟨by omega, hdefined.table⟩
  · intro ⟨hyear, hmonth⟩
    refine ⟨hmonth, ?_⟩
    have hdays := days_le hmonth
    have hday := h.day
    have hhour := h.hour
    have hminute := h.minute
    generalize hd : (months.getD t.month.toNat 0).toInt = days at hdays
    have hlow : 0 ≤ t.month * days := Int.mul_nonneg hmonth.1 hdays.1
    have hhigh : t.month * days ≤ 12 * 31 := Int.mul_le_mul hmonth.2 hdays.2 hdays.1 (by decide)
    have hproduct : t.month * (60 * 60 * 24 * days) = 86400 * (t.month * days) := by ring
    simp only [products, hd, hproduct, List.forall_mem_cons, FitsInt]
    refine ⟨?_, ?_, ?_, ?_, ?_, ?_, by simp⟩ <;> omega

end Products

/-- It is defined exactly for a text whose first four characters are there and read as a
number from -68 to 68, and whose month, if it goes that far, reads as 0 to 12. -/
theorem timestamp_defined_iff (s : Text) :
    Defined (ofString s) ↔ 4 ≤ intLength s ∧
      (-68 ≤ atoi (substr s 0 4) ∧ atoi (substr s 0 4) ≤ 68) ∧
      (7 ≤ intLength s → 0 ≤ atoi (substr s 5 2) ∧ atoi (substr s 5 2) ≤ 12) := by
  rw [defined_iff (columns_ofString s), year_ofString, month_ofString]
  split <;> split <;> omega

/-- The time which the source gives as its example has left the range. -/
theorem example_time_overflows :
    ¬ Defined (ofString "2018-06-27-14-11-53.4120850916".toList) := by
  rw [defined_iff (columns_ofString _)]
  decide

end KafkaK3.TimestampRange
