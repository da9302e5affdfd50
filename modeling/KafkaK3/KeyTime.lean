import KafkaK3.StashKey
import KafkaK3.TimeText

/-!
# The time in an S3 key

The backup writes the time of a bundle behind the topic and a slash. The replay
cuts the topic off, but not the slash, so that every column is read one place
too early. With the slash as a part of the prefix the time would come back.
-/
namespace KafkaK3.KeyTime
open DecimalText StashKey TimeText

/-- `std::string::find`. -/
def find (needle : Text) : Text → Option ℕ
  | [] => if needle = [] then some 0 else none
  | c :: s => if needle <+: c :: s then some 0 else (find needle s).map (· + 1)

def randMark : Text := ['-', 'r', 'a', 'n', 'd']

/-- `cleanup_name`; no result where the key is shorter than the prefix. -/
def cleanup_name (inPrefix key : Text) : Option Text :=
  if key.length < inPrefix.length then none
  else
    let rval := key.drop inPrefix.length
    some (match find randMark rval with
      | some n => rval.take n
      | none => rval)

/-- The time which `s3_discovery` compares with the start of the replay. -/
def keyTime (intopic key : Text) : Option MessageTime :=
  (cleanup_name intopic key).map MessageTime.ofText

/-- The time says what was written into the key. -/
structure Returns (tm : Tm) (seed : UInt32) (t : MessageTime) : Prop where
  year : t.year = tm.year
  month : t.month = tm.tm_mon + 1
  day : t.day = tm.tm_mday
  hour : t.hour = tm.tm_hour
  minute : t.minute = tm.tm_min
  second : t.second = tm.tm_sec
  sfrac : t.sfrac = '.' :: natText seed.toNat

/-- The first mark stands behind a text without the letter which follows its dash. -/
theorem find_randMark {u : Text} (hu : 'r' ∉ u) (v : Text) :
    find randMark (u ++ (randMark ++ v)) = some u.length := by
  induction u with
  | nil =>
      have hmark : randMark <+: '-' :: ('r' :: 'a' :: 'n' :: 'd' :: v) := ⟨v, rfl⟩
      exact if_pos hmark
  | cons c u ih =>
      have hother : ¬ randMark <+: c :: (u ++ (randMark ++ v)) := by
        intro h
        have hrest := (List.cons_prefix_cons.mp h).2
        cases u with
        | nil => exact absurd (List.cons_prefix_cons.mp hrest).1 (by decide)
        | cons d u =>
            have hd : 'r' = d := (List.cons_prefix_cons.mp hrest).1
            exact hu (hd ▸ List.mem_cons_of_mem _ List.mem_cons_self)
      rw [List.cons_append, find, if_neg hother, ih fun h => hu (List.mem_cons_of_mem _ h)]
      rfl

theorem cleanup_name_append (inPrefix v : Text) {u : Text} (hu : 'r' ∉ u) :
    cleanup_name inPrefix (inPrefix ++ (u ++ (randMark ++ v))) = some u := by
  have hlen : ¬ (inPrefix ++ (u ++ (randMark ++ v))).length < inPrefix.length := by
    rw [List.length_append]
    omega
  rw [cleanup_name, if_neg hlen]
  simp only [List.drop_left, find_randMark hu, List.take_left]

/-- The part of a key between the slash and the mark. -/
def dated (tm : Tm) (seed : UInt32) : Text := strftime tm ++ '.' :: natText seed.toNat

theorem r_notMem_dated (tm : Tm) (seed : UInt32) : 'r' ∉ dated tm seed := by
  have hyear : 'r' ∉ intText tm.year := mark_notMem_intText (by decide) (by decide) _
  have hdigits {u : Text} (hu : AllDigits u) : 'r' ∉ u := by
    intro hr
    exact absurd (hu 'r' hr) (by decide)
  have hpad (n : ℕ) : 'r' ∉ pad2 n := hdigits (allDigits_pad2 n)
  have hseed : 'r' ∉ natText seed.toNat := hdigits (allDigits_natText _)
  simp only [dated, strftime, List.mem_append, List.mem_cons, hyear, hpad, hseed, or_false,
    false_or, not_or]
  decide

section Key
variable (topic : Text) (tm : Tm) (seed : UInt32) (random : ℕ)

/-- What the replay reads from a key of the topic. -/
theorem keyTime_formatKey :
    keyTime topic (formatKey topic (strftime tm) seed random) =
      some (MessageTime.ofText ('/' :: dated tm seed)) := by
  have hkey : formatKey topic (strftime tm) seed random =
      topic ++ (('/' :: dated tm seed) ++ (randMark ++ natText random)) := by
    simp [formatKey, dated, randMark]
  have hmark : 'r' ∉ '/' :: dated tm seed := by
    rw [List.mem_cons, not_or]
    exact ⟨by decide, r_notMem_dated tm seed⟩
  rw [keyTime, hkey, cleanup_name_append topic _ hmark]
  rfl

variable {tm} (hyear : 1000 ≤ tm.year ∧ tm.year ≤ 9999)
include hyear

/-- The date takes the columns which the reader expects, counted from its own start. -/
theorem returns_dated : Returns tm seed (MessageTime.ofText (dated tm seed)) := by
  obtain ⟨hwidth, hvalue⟩ := intText_year hyear
  have hpad {n : ℕ} (hn : n ≤ 60) : (pad2 n).length = 2 := pad2_length (by omega)
  have hmon := tm.mon_lt
  have hmday := tm.mday_le
  have hhour := tm.hour_lt
  have hmin := tm.min_lt
  have hread := ofText_columns hwidth
    (hpad (n := tm.tm_mon + 1) (by omega)) (hpad (n := tm.tm_mday) (by omega))
    (hpad (n := tm.tm_hour) (by omega)) (hpad (n := tm.tm_min) (by omega)) (hpad tm.sec_le)
    ('.' :: natText seed.toNat) '-' '-' '-' '-' '-'
  have hdated : MessageTime.ofText (dated tm seed) =
      ⟨tm.year, tm.tm_mon + 1, tm.tm_mday, tm.tm_hour, tm.tm_min, tm.tm_sec,
        '.' :: natText seed.toNat⟩ := by
    simp only [dated, strftime, List.append_assoc, List.cons_append, hread, hvalue, atoi_pad2]
    rfl
  rw [hdated]
  exact ⟨rfl, rfl, rfl, rfl, rfl, rfl, rfl⟩

/-- With the slash as the end of the prefix the time comes back. -/
theorem key_time_with_slash :
    ∃ t, keyTime (topic ++ ['/']) (formatKey topic (strftime tm) seed random) = some t ∧
      Returns tm seed t := by
  have hkey : formatKey topic (strftime tm) seed random =
      (topic ++ ['/']) ++ (dated tm seed ++ (randMark ++ natText random)) := by
    simp [formatKey, dated, randMark]
  refine ⟨MessageTime.ofText (dated tm seed), ?_, returns_dated seed hyear⟩
  rw [keyTime, hkey, cleanup_name_append _ _ (r_notMem_dated tm seed)]
  rfl

/-- Behind the slash the first column reads as zero. -/
theorem year_of_slash : (MessageTime.ofText ('/' :: dated tm seed)).year = 0 := by
  obtain ⟨hwidth, -⟩ := intText_year hyear
  have hlen : 4 ≤ ('/' :: dated tm seed).length := by
    simp only [dated, strftime, List.length_cons, List.length_append, hwidth]
    omega
  rw [ofText_year hlen]
  rfl

/-- The time never comes back from a key whose year has four digits. -/
theorem key_time_never :
    ¬ ∃ t, keyTime topic (formatKey topic (strftime tm) seed random) = some t ∧
      Returns tm seed t := by
  intro ⟨t, hread, hreturns⟩
  rw [keyTime_formatKey] at hread
  cases hread
  have hzero := year_of_slash seed hyear
  rw [hreturns.year] at hzero
  omega

end Key

theorem key_time_never_epoch :
    ¬ ∃ t, keyTime ['t'] (formatKey ['t'] (strftime Tm.epoch) 7 5) = some t ∧
      Returns Tm.epoch 7 t :=
  key_time_never ['t'] 7 5 (by decide)

/-- The key of midnight, 1 January 1970: year, month and day read as zero, and the
last digit of the seconds falls to the fraction. -/
theorem epoch_key_misread :
    keyTime ['t'] (formatKey ['t'] (strftime Tm.epoch) 7 5) =
        some ⟨0, 0, 0, 0, 0, 0, ['0', '.', '7']⟩ ∧
      ¬ Returns Tm.epoch 7 ⟨0, 0, 0, 0, 0, 0, ['0', '.', '7']⟩ := by
  constructor
  · decide
  · intro h
    exact absurd h.year (by decide)

end KafkaK3.KeyTime
