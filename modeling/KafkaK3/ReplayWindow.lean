import KafkaK3.BackupAndReplay
import KafkaK3.KeyCover
import KafkaK3.TimeWindow
import Mathlib.Algebra.Order.Field.Basic

/-!
# The messages after a time

`FROM_TIME` is compared with the time in the key, and the key has the local second of the
bundle's last message. Where the bundles hold one message each and the topic is given with
its slash, that is the second of the message itself. The months overlap in the comparison,
so the replay leaves out what is two months earlier and has all of what is two months later.
-/
namespace KafkaK3.ReplayWindow
open ByteBuffer DecimalText StashKey BackupConsumer ConsumerInvariants MessageLayout
open BrokerSession TimeText KeyTime KeyCover KeyListing TimeWindow Strtod
open ReplayProducer EventReplay ReplayProcess BucketContents BackupAndReplay

/-- A local time in the years which the comparison can tell apart, and in no leap second. -/
structure InYears (tm : Tm) : Prop where
  year : 1975 ≤ tm.year ∧ tm.year ≤ 2110
  second : tm.tm_sec ≤ 59

/-- The month in which a message lies for a process, counted as for the times of keys. -/
def monthOf (w : World) (m : Message) : ℤ :=
  12 * (localSecond w m).year + ((localSecond w m).tm_mon + 1 : ℕ)

section Keys

theorem frac_seed (seed : UInt32) :
    ∃ f, atof ('.' :: natText seed.toNat) = .finite f ∧ 0 ≤ f ∧ f < 1 := by
  have hdigits := allDigits_natText seed.toNat
  have hpos : (0 : ℚ) < 10 ^ (natText seed.toNat).length := by positivity
  have hlt : (digitsValue (natText seed.toNat) : ℚ) < 10 ^ (natText seed.toNat).length := by
    exact_mod_cast digitsValue_lt hdigits
  exact ⟨_, atof_fraction hdigits, div_nonneg (Nat.cast_nonneg _) hpos.le,
    (div_lt_one hpos).mpr hlt⟩

/-- A time which has come back from a key is as regular as the time which went in. -/
theorem regular_of_returns {tm : Tm} {seed : UInt32} {t : MessageTime} (h : Returns tm seed t)
    (htm : InYears tm) : Regular t := by
  have hmon := tm.mon_lt
  have hmday := tm.mday_le
  have hhour := tm.hour_lt
  have hmin := tm.min_lt
  have hsec := htm.second
  constructor
  case year =>
    rw [h.year]
    exact htm.year
  case month =>
    rw [h.month]
    omega
  case day =>
    rw [h.day]
    omega
  case hour =>
    rw [h.hour]
    omega
  case minute =>
    rw [h.minute]
    omega
  case second =>
    rw [h.second]
    omega
  case frac =>
    rw [TimeOrder.frac, h.sfrac]
    exact frac_seed seed

/-- The key of a single message shows the month of the message. -/
theorem keyTime_single {b : Session} {call : PutCall} (hcall : call ∈ putCalls b.trace)
    {m : Message} (hbundle : contents call.bundle = [m]) (hyears : InYears (localSecond b.w m)) :
    ∃ t, keyTime (call.topic ++ ['/']) call.s3key = some t ∧ Regular t ∧
      monthIndex t = monthOf b.w m := by
  obtain ⟨s3, n, -, hbuilt⟩ := b.orderly.consistent.built_of_put hcall
  obtain ⟨x, hx, rfl⟩ := List.map_eq_singleton_iff.mp hbundle
  let seed := (b.w.now n).toUInt64.toUInt32
  have hkey : call.s3key =
      formatKey call.topic (strftime (localSecond b.w x.pmessage)) seed (minstd_rand0 seed) := by
    rw [hbuilt, hx]
    exact s3key_putBundle [] x
  have hyear := hyears.year
  obtain ⟨t, hread, hreturns⟩ := @key_time_with_slash call.topic (localSecond b.w x.pmessage)
    seed (minstd_rand0 seed) (by omega)
  refine ⟨t, hkey ▸ hread, regular_of_returns hreturns hyears, ?_⟩
  rw [monthIndex, monthOf, hreturns.year, hreturns.month]
  push_cast
  ring

variable {b : Session} {call : PutCall} {m : Message} {beyond : Text → ℤ → Int32}
  {infrom : MessageTime} (hcall : call ∈ putCalls b.trace) (hbundle : contents call.bundle = [m])
  (hyears : InYears (localSecond b.w m)) (hfrom : Regular infrom)
include hcall hbundle hyears hfrom

theorem selected_of_late (hlate : monthIndex infrom + 2 ≤ monthOf b.w m)
    (beyond : Text → ℤ → Int32) : selected beyond (call.topic ++ ['/']) infrom call.s3key = true := by
  obtain ⟨t, hread, hregular, hmonth⟩ := keyTime_single hcall hbundle hyears
  rw [selected, hread]
  exact (gt_of_months _ hfrom hregular (hmonth ▸ hlate)).1

theorem recent_of_selected
    (hselected : selected beyond (call.topic ++ ['/']) infrom call.s3key = true) :
    monthIndex infrom < monthOf b.w m + 2 := by
  obtain ⟨t, hread, hregular, hmonth⟩ := keyTime_single hcall hbundle hyears
  rw [selected, hread, Option.any_some] at hselected
  by_contra hearly
  have hgt := (gt_of_months (beyond call.s3key) hregular hfrom (by omega)).2
  rw [hselected] at hgt
  cases hgt

end Keys

section Example

theorem retried_inYears : ∀ b ∈ retried, ∀ m, InYears (localSecond b.w m) := by
  intro b hb m
  simp only [retried, List.mem_cons, List.not_mem_nil, or_false] at hb
  have hnewYear : InYears { Tm.epoch with tm_year := 80 } := ⟨by decide, by decide⟩
  rcases hb with rfl | rfl
  · exact hnewYear
  · exact hnewYear

theorem regular_january : Regular (MessageTime.ofText "1976-01".toList) where
  year := by decide
  month := by decide
  day := by decide
  hour := by decide
  minute := by decide
  second := by decide
  frac := ⟨0, rfl, le_refl 0, one_pos⟩

end Example

end KafkaK3.ReplayWindow
