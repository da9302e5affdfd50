import KafkaK3.TimeOrder

/-!
# Times which are months apart

The seconds of a time are counted from months which overlap, so that two times in
neighbouring months may be taken in the wrong order. Times with two months between them
never are, in the years in which the product of the year does not come round.
-/
namespace KafkaK3.TimeWindow
open TimeText Strtod TimeOrder

/-- A time with a real month, day and time of the day, in one of the years from 1975 to
2110, between which the product of the year does not wrap around. -/
structure Regular (t : MessageTime) : Prop where
  year : 1975 ≤ t.year ∧ t.year ≤ 2110
  month : 1 ≤ t.month ∧ t.month ≤ 12
  day : 0 ≤ t.day ∧ t.day ≤ 31
  hour : 0 ≤ t.hour ∧ t.hour ≤ 23
  minute : 0 ≤ t.minute ∧ t.minute ≤ 59
  second : 0 ≤ t.second ∧ t.second ≤ 59
  frac : ∃ f, TimeOrder.frac t = .finite f ∧ 0 ≤ f ∧ f < 1

/-- The months from the start of the years on. -/
def monthIndex (t : MessageTime) : ℤ := 12 * t.year + t.month

theorem wraps_eq {year : ℤ} (h : 1975 ≤ year ∧ year ≤ 2110) :
    Int.bdiv (31536000 * year) (2 ^ 32) = 15 := by
  unfold Int.bdiv
  rw [if_neg (by omega)]
  dsimp only
  split <;> omega

/-- From a month to one at least two months later, whatever the years. -/
theorem monthDays_two {m n years : ℤ} (hm : 1 ≤ m ∧ m ≤ 12) (hn : 1 ≤ n ∧ n ≤ 12)
    (h : m + 2 ≤ 12 * years + n) : monthDays m + 49 ≤ 365 * years + monthDays n := by
  have htable : ∀ m < 13, ∀ n < 13, 1 ≤ m ∧ 1 ≤ n →
      (m + 2 ≤ n → monthDays (m : ℕ) + 49 ≤ monthDays (n : ℕ)) ∧
      (m + 2 ≤ 12 + n → monthDays (m : ℕ) + 49 ≤ 365 + monthDays (n : ℕ)) ∧
      monthDays (m : ℕ) ≤ monthDays (n : ℕ) + 341 := by
    decide
  obtain ⟨i, rfl⟩ := Int.eq_ofNat_of_zero_le (by omega : 0 ≤ m)
  obtain ⟨j, rfl⟩ := Int.eq_ofNat_of_zero_le (by omega : 0 ≤ n)
  obtain ⟨hsame, hnext, hmost⟩ := htable i (by omega) j (by omega) (by omega)
  have hyears : years = 0 ∨ years = 1 ∨ 2 ≤ years := by omega
  rcases hyears with rfl | rfl | hyears
  · have hdays := hsame (by omega)
    omega
  · have hdays := hnext (by omega)
    omega
  · omega

section Order
variable {t u : MessageTime}

theorem leap_range (year : ℤ) : 0 ≤ leap year ∧ leap year ≤ 86400 := by
  unfold leap
  split_ifs <;> omega

theorem wholeSeconds_lt (beyond : ℤ → Int32) (ht : Regular t) (hu : Regular u)
    (h : monthIndex t + 2 ≤ monthIndex u) :
    wholeSeconds beyond t + leap t.year < wholeSeconds beyond u + leap u.year := by
  rw [wholeSeconds_eq beyond ht.month ht.day ht.hour ht.minute ht.second,
    wholeSeconds_eq beyond hu.month hu.day hu.hour hu.minute hu.second, wraps_eq ht.year,
    wraps_eq hu.year]
  have hdays := @monthDays_two t.month u.month (u.year - t.year) ht.month hu.month (by
    unfold monthIndex at h
    omega)
  have hleap := leap_range t.year
  have hleap' := leap_range u.year
  have hday := ht.day
  have hday' := hu.day
  have hhour := ht.hour
  have hhour' := hu.hour
  have hminute := ht.minute
  have hminute' := hu.minute
  have hsecond := ht.second
  have hsecond' := hu.second
  omega

/-- The time which is two months later is the later one, in both directions. -/
theorem gt_of_months (beyond : ℤ → Int32) (ht : Regular t) (hu : Regular u)
    (h : monthIndex t + 2 ≤ monthIndex u) :
    gt beyond u t = true ∧ gt beyond t u = false := by
  obtain ⟨f, hf, hfrange⟩ := ht.frac
  obtain ⟨g, hg, hgrange⟩ := hu.frac
  have hlt : (timestamp beyond t).lt (timestamp beyond u) = true := by
    rw [timestamp_lt hf hg hfrange hgrange, Prod.Lex.toLex_lt_toLex]
    exact Or.inl (wholeSeconds_lt beyond ht hu h)
  have hne : eq u t = false := by
    rw [Bool.eq_false_iff]
    intro heq
    have hfields := of_decide_eq_true heq
    unfold monthIndex at h
    omega
  constructor
  · rw [gt, ne, hne, hlt]
    rfl
  · rw [gt, Double.lt_asymm hlt, Bool.and_false]

end Order

end KafkaK3.TimeWindow
