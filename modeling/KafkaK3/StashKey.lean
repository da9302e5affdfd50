import KafkaK3.DecimalText

/-!
# The S3 key of a stashed bundle

A key is the topic, the broken-down time of the bundle's last message, the low
32 bits of the system clock as a seed and one number drawn from a generator
with that seed. The broken-down time carries the ranges which `localtime`
guarantees; the time zone behind it is the environment's business.
-/
namespace KafkaK3.StashKey
open DecimalText

/-- `struct tm` as `localtime` fills it. -/
structure Tm where
  tm_year : ℤ
  tm_mon : ℕ
  tm_mday : ℕ
  tm_hour : ℕ
  tm_min : ℕ
  tm_sec : ℕ
  mon_lt : tm_mon < 12
  mday_pos : 1 ≤ tm_mday
  mday_le : tm_mday ≤ 31
  hour_lt : tm_hour < 24
  min_lt : tm_min < 60
  sec_le : tm_sec ≤ 60
  deriving DecidableEq, Repr

/-- Midnight of 1 January 1970. -/
def Tm.epoch : Tm where
  tm_year := 70
  tm_mon := 0
  tm_mday := 1
  tm_hour := 0
  tm_min := 0
  tm_sec := 0
  mon_lt := by decide
  mday_pos := by decide
  mday_le := by decide
  hour_lt := by decide
  min_lt := by decide
  sec_le := by decide

/-- The year which `%Y` writes. -/
def Tm.year (tm : Tm) : ℤ := tm.tm_year + 1900

/-- `strftime` with the format `%Y-%m-%d-%H-%M-%S`. -/
def strftime (tm : Tm) : Text :=
  intText tm.year ++ '-' :: (pad2 (tm.tm_mon + 1) ++ '-' :: (pad2 tm.tm_mday ++ '-' ::
    (pad2 tm.tm_hour ++ '-' :: (pad2 tm.tm_min ++ '-' :: pad2 tm.tm_sec))))

/-- The first number of `std::minstd_rand0` after seeding. -/
def minstd_rand0 (seed : UInt32) : ℕ :=
  let x := if seed.toNat % 2147483647 = 0 then 1 else seed.toNat % 2147483647
  16807 * x % 2147483647

/-- The key text from its parts. -/
def formatKey (topic buffer : Text) (seed : UInt32) (random : ℕ) : Text :=
  topic ++ '/' :: (buffer ++ '.' ::
    (natText seed.toNat ++ (['-', 'r', 'a', 'n', 'd'] ++ natText random)))

section Reading

/-- Columns of one width are told apart from the back. -/
theorem strftime_injective : Function.Injective strftime := by
  intro s t h
  have htail (tm : Tm) : ('-' :: (pad2 (tm.tm_mon + 1) ++ '-' :: (pad2 tm.tm_mday ++ '-' ::
      (pad2 tm.tm_hour ++ '-' :: (pad2 tm.tm_min ++ '-' :: pad2 tm.tm_sec))))).length = 15 := by
    have hmon := tm.mon_lt
    have hmday := tm.mday_le
    have hhour := tm.hour_lt
    have hmin := tm.min_lt
    have hsec := tm.sec_le
    simp only [List.length_cons, List.length_append]
    rw [pad2_length (by omega), pad2_length (by omega), pad2_length (by omega),
      pad2_length (by omega), pad2_length (by omega)]
  have hdash (n : ℕ) : '-' ∉ pad2 n := fun hmem => absurd (allDigits_pad2 n _ hmem) (by decide)
  obtain ⟨hyear, hrest⟩ := List.append_inj' h ((htail s).trans (htail t).symm)
  obtain ⟨hmon, hrest⟩ := append_mark_inj (hdash _) (hdash _) (List.cons.inj hrest).2
  obtain ⟨hmday, hrest⟩ := append_mark_inj (hdash _) (hdash _) hrest
  obtain ⟨hhour, hrest⟩ := append_mark_inj (hdash _) (hdash _) hrest
  obtain ⟨hmin, hsec⟩ := append_mark_inj (hdash _) (hdash _) hrest
  have hyears : s.tm_year = t.tm_year := add_right_cancel (intText_injective hyear)
  have hmons : s.tm_mon = t.tm_mon := Nat.succ.inj (pad2_injective hmon)
  cases s
  cases t
  simp only [Tm.mk.injEq]
  exact ⟨hyears, hmons, pad2_injective hmday, pad2_injective hhour, pad2_injective hmin,
    pad2_injective hsec⟩

theorem mark_notMem_strftime {m : Char} (hm : m.isDigit = false) (hdash : m ≠ '-') (tm : Tm) :
    m ∉ strftime tm := by
  have hyear : m ∉ intText tm.year := mark_notMem_intText hm hdash _
  have hpad (n : ℕ) : m ∉ pad2 n := by
    intro hmem
    rw [allDigits_pad2 n _ hmem] at hm
    cases hm
  simp [strftime, hyear, hpad, hdash]

theorem dot_notMem_strftime (tm : Tm) : '.' ∉ strftime tm :=
  mark_notMem_strftime (by decide) (by decide) tm

/-- The time of a key of the topic can be read off it. -/
theorem time_of_formatKey {topic : Text} {s t : Tm} {seed seed' : UInt32} {random random' : ℕ}
    (h : formatKey topic (strftime s) seed random = formatKey topic (strftime t) seed' random') :
    s = t := by
  have hdated := (List.cons.inj (List.append_cancel_left h)).2
  exact strftime_injective
    (append_mark_inj (dot_notMem_strftime s) (dot_notMem_strftime t) hdated).1

/-- So can its seed. -/
theorem seed_of_formatKey {topic : Text} {s t : Tm} {seed seed' : UInt32} {random random' : ℕ}
    (h : formatKey topic (strftime s) seed random = formatKey topic (strftime t) seed' random') :
    seed = seed' := by
  have hdated := (List.cons.inj (List.append_cancel_left h)).2
  have hseeded := (append_mark_inj (dot_notMem_strftime s) (dot_notMem_strftime t) hdated).2
  have hdash (n : ℕ) : '-' ∉ natText n :=
    fun hmem => absurd (allDigits_natText n _ hmem) (by decide)
  exact UInt32.toNat_inj.mp (natText_injective (append_mark_inj (hdash _) (hdash _) hseeded).1)

/-- The key lies under the topic: the topic ends where the last slash of the key stands. -/
def UnderTopic (topic s3key : Text) : Prop :=
  topic ++ ['/'] <+: s3key ∧ '/' ∉ s3key.drop (topic.length + 1)

instance (topic s3key : Text) : Decidable (UnderTopic topic s3key) :=
  inferInstanceAs (Decidable (_ ∧ _))

theorem underTopic_iff {topic s3key : Text} :
    UnderTopic topic s3key ↔ ∃ name, s3key = topic ++ '/' :: name ∧ '/' ∉ name := by
  have hdrop (name : Text) : (topic ++ '/' :: name).drop (topic.length + 1) = name := by
    rw [← List.drop_drop, List.drop_left]
    rfl
  constructor
  · intro ⟨⟨name, hname⟩, hslash⟩
    obtain rfl : topic ++ '/' :: name = s3key := by
      rw [← hname, List.append_assoc]
      rfl
    exact ⟨name, rfl, by rwa [hdrop] at hslash⟩
  · rintro ⟨name, rfl, hslash⟩
    exact ⟨⟨name, by rw [List.append_assoc]; rfl⟩, by rwa [hdrop]⟩

/-- A key lies under the topic for which it was made, and under no other. -/
theorem underTopic_formatKey_iff {topic u : Text} {tm : Tm} {seed : UInt32} {random : ℕ} :
    UnderTopic topic (formatKey u (strftime tm) seed random) ↔ u = topic := by
  have hslash (n : ℕ) : '/' ∉ natText n :=
    fun hmem => absurd (allDigits_natText n _ hmem) (by decide)
  have hname : '/' ∉ strftime tm ++ '.' ::
      (natText seed.toNat ++ (['-', 'r', 'a', 'n', 'd'] ++ natText random)) := by
    simp [mark_notMem_strftime (m := '/') (by decide) (by decide), hslash]
  rw [underTopic_iff]
  constructor
  · intro ⟨name, hkey, hfree⟩
    exact (append_last_mark_inj hname hfree hkey).1
  · rintro rfl
    exact ⟨_, rfl, hname⟩

end Reading

end KafkaK3.StashKey
