import KafkaK3.TimeText

/-!
# Times written and read again

The constructor counts the characters of its text in an `int`, which a text of two
gigabytes overflows. A time of whatever text has fields which their columns can
hold, so `to_string` moves none of the columns behind them, and the text which it
writes is read as the same time.
-/
namespace KafkaK3.TimeRoundTrip
open DecimalText TimeText

/-- `int len = in.size()`. -/
def intLength (s : Text) : ℤ := (Int32.ofNat s.length).toInt

/-- `MessageTime::MessageTime(const std::string&)` of any text. -/
def ofString (s : Text) : MessageTime :=
  let len := intLength s
  let t := MessageTime.cleared
  if len < 4 then t else
  let t := { t with year := atoi (substr s 0 4) }
  if len < 7 then t else
  let t := { t with month := atoi (substr s 5 2) }
  if len < 10 then t else
  let t := { t with day := atoi (substr s 8 2) }
  if len < 13 then t else
  let t := { t with hour := atoi (substr s 11 2) }
  if len < 16 then t else
  let t := { t with minute := atoi (substr s 14 2) }
  if len < 19 then t else
  let t := { t with second := atoi (substr s 17 2) }
  if len < 20 then t else
  { t with sfrac := s.drop 19 }

/-- `MessageTime::to_string`. The year is filled with blanks, the others with zeros. -/
def to_string (t : MessageTime) : Text :=
  setw 4 ' ' (intText t.year) ++ '-' :: (setw 2 '0' (intText t.month) ++ '-' ::
    (setw 2 '0' (intText t.day) ++ '-' :: (setw 2 '0' (intText t.hour) ++ '-' ::
      (setw 2 '0' (intText t.minute) ++ '-' :: (setw 2 '0' (intText t.second) ++ t.sfrac)))))

section Length
variable {s : Text}

theorem intLength_of_lt (h : s.length < 2 ^ 31) : intLength s = s.length :=
  Int32.toInt_ofNat_of_lt h

theorem intLength_congr {u : Text} (h : s.length = u.length) : intLength s = intLength u := by
  rw [intLength, h]
  rfl

theorem intLength_le (s : Text) : intLength s ≤ s.length := by
  have hbmod : intLength s = Int.bmod s.length (2 ^ 32) := Int32.toInt_ofNat'
  rw [hbmod, Int.bmod_def]
  split <;> omega

/-- The count is only compared with numbers up to 20. -/
theorem ofString_of_count (h : ∀ n ≤ 20, intLength s < (n : ℕ) ↔ s.length < n) :
    ofString s = MessageTime.ofText s := by
  have h4 := h 4 (by decide)
  have h7 := h 7 (by decide)
  have h10 := h 10 (by decide)
  have h13 := h 13 (by decide)
  have h16 := h 16 (by decide)
  have h19 := h 19 (by decide)
  have h20 := h 20 (by decide)
  push_cast at h4 h7 h10 h13 h16 h19 h20
  simp only [ofString, MessageTime.ofText, h4, h7, h10, h13, h16, h19, h20]

/-- Below two gigabytes this is the constructor of the replay's keys. -/
theorem ofString_eq (h : s.length < 2 ^ 31) : ofString s = MessageTime.ofText s := by
  apply ofString_of_count
  intro n _
  rw [intLength_of_lt h]
  exact Int.ofNat_lt

/-- So it is where the count reaches the fraction. -/
theorem ofString_of_fraction (h : 20 ≤ intLength s) : ofString s = MessageTime.ofText s := by
  have hlen := intLength_le s
  apply ofString_of_count
  intro n hn
  omega

theorem year_ofString (s : Text) :
    (ofString s).year = if intLength s < 4 then 1970 else atoi (substr s 0 4) := by
  simp only [ofString, apply_ite MessageTime.year, MessageTime.cleared, ite_self]

theorem month_ofString (s : Text) :
    (ofString s).month = if intLength s < 7 then 1 else atoi (substr s 5 2) := by
  have hshort : intLength s < 4 → intLength s < 7 := fun h => by omega
  simp only [ofString, apply_ite MessageTime.month, MessageTime.cleared, ite_self]
  split
  case isTrue h => rw [if_pos (hshort h)]
  case isFalse => rfl

theorem sfrac_ofString (s : Text) : (ofString s).sfrac = [] ∨
    20 ≤ intLength s ∧ (ofString s).sfrac = s.drop 19 := by
  by_cases h : 20 ≤ intLength s
  · refine Or.inr ⟨h, ?_⟩
    have hlen := intLength_le s
    rw [ofString_of_fraction h, ofText_of_length (by omega)]
  · have h20 : intLength s < 20 := by omega
    refine Or.inl ?_
    simp only [ofString, h20, if_true, apply_ite MessageTime.sfrac, MessageTime.cleared, ite_self]

end Length

/-- Every field has room in its column. -/
structure Columns (t : MessageTime) : Prop where
  year : -10 ^ 3 < t.year ∧ t.year < 10 ^ 4
  month : -10 ^ 1 < t.month ∧ t.month < 10 ^ 2
  day : -10 ^ 1 < t.day ∧ t.day < 10 ^ 2
  hour : -10 ^ 1 < t.hour ∧ t.hour < 10 ^ 2
  minute : -10 ^ 1 < t.minute ∧ t.minute < 10 ^ 2
  second : -10 ^ 1 < t.second ∧ t.second < 10 ^ 2

section Parsing
variable (s : Text)

/-- What stands in a column has room in it. -/
theorem atoi_substr (pos n : ℕ) :
    -10 ^ (n - 1) < atoi (substr s pos n) ∧ atoi (substr s pos n) < 10 ^ n := by
  have hrange := atoi_range (substr s pos n)
  have hlen : (substr s pos n).length ≤ n := List.length_take_le ..
  have hpower {k l : ℕ} (h : k ≤ l) : (10 : ℤ) ^ k ≤ 10 ^ l := by
    exact_mod_cast Nat.pow_le_pow_right (by decide : 0 < 10) h
  have hsign := hpower (Nat.sub_le_sub_right hlen 1)
  have hdigits := hpower hlen
  omega

/-- Whatever the text is, also where it ends before a column. -/
theorem columns_ofString : Columns (ofString s) := by
  have hepoch : -10 ^ 3 < (1970 : ℤ) ∧ (1970 : ℤ) < 10 ^ 4 := by decide
  have hone : -10 ^ 1 < (1 : ℤ) ∧ (1 : ℤ) < 10 ^ 2 := by decide
  have hzero : -10 ^ 1 < (0 : ℤ) ∧ (0 : ℤ) < 10 ^ 2 := by decide
  have hyear := atoi_substr s 0 4
  have hmonth := atoi_substr s 5 2
  have hday := atoi_substr s 8 2
  have hhour := atoi_substr s 11 2
  have hminute := atoi_substr s 14 2
  have hsecond := atoi_substr s 17 2
  unfold ofString
  dsimp only
  split
  · exact ⟨hepoch, hone, hone, hzero, hzero, hzero⟩
  split
  · exact ⟨hyear, hone, hone, hzero, hzero, hzero⟩
  split
  · exact ⟨hyear, hmonth, hone, hzero, hzero, hzero⟩
  split
  · exact ⟨hyear, hmonth, hday, hzero, hzero, hzero⟩
  split
  · exact ⟨hyear, hmonth, hday, hhour, hzero, hzero⟩
  split
  · exact ⟨hyear, hmonth, hday, hhour, hminute, hzero⟩
  split
  · exact ⟨hyear, hmonth, hday, hhour, hminute, hsecond⟩
  · exact ⟨hyear, hmonth, hday, hhour, hminute, hsecond⟩

end Parsing

section Printing
variable {t : MessageTime}

/-- A field of two columns is read back, with a sign in the place of a filling zero. -/
theorem atoi_setw_field (z : ℤ) : atoi (setw 2 '0' (intText z)) = z := by
  apply atoi_setw_zero
  by_cases hz : z < 0
  · have hsome := List.length_pos_iff.mpr (natText_ne_nil z.natAbs)
    refine Or.inr ?_
    rw [intText, if_pos hz, List.length_cons]
    omega
  · exact Or.inl (Int.not_lt.mp hz)

theorem length_to_string (h : Columns t) : (to_string t).length = 19 + t.sfrac.length := by
  simp only [to_string, List.length_append, List.length_cons,
    setw_length ' ' (by decide : 1 < 4) h.year, setw_length '0' (by decide : 1 < 2) h.month,
    setw_length '0' (by decide : 1 < 2) h.day, setw_length '0' (by decide : 1 < 2) h.hour,
    setw_length '0' (by decide : 1 < 2) h.minute, setw_length '0' (by decide : 1 < 2) h.second]
  omega

/-- The columns stand where they are looked for. -/
theorem ofText_to_string (h : Columns t) : MessageTime.ofText (to_string t) = t := by
  have hread := ofText_columns (setw_length ' ' (by decide : 1 < 4) h.year)
    (setw_length '0' (by decide : 1 < 2) h.month) (setw_length '0' (by decide : 1 < 2) h.day)
    (setw_length '0' (by decide : 1 < 2) h.hour) (setw_length '0' (by decide : 1 < 2) h.minute)
    (setw_length '0' (by decide : 1 < 2) h.second) t.sfrac '-' '-' '-' '-' '-'
  rw [to_string, hread]
  simp only [atoi_setw_blank, atoi_setw_field]

end Printing

/-- A time of any text is read back from its own text, which is then written again. -/
theorem to_string_round_trip (s : Text) : ofString (to_string (ofString s)) = ofString s ∧
    to_string (ofString (to_string (ofString s))) = to_string (ofString s) := by
  have hcolumns := columns_ofString s
  have hlength := length_to_string hcolumns
  have hsame : ofString (to_string (ofString s)) = MessageTime.ofText (to_string (ofString s)) := by
    cases sfrac_ofString s with
    | inl hnone =>
        rw [hnone, List.length_nil] at hlength
        exact ofString_eq (by omega)
    | inr hfraction =>
        -- the text which is written is as long as the one which was read
        have hlen := intLength_le s
        rw [hfraction.2, List.length_drop] at hlength
        have hcount : intLength (to_string (ofString s)) = intLength s :=
          intLength_congr (by omega)
        exact ofString_of_fraction (by rw [hcount]; exact hfraction.1)
  have hread : ofString (to_string (ofString s)) = ofString s :=
    hsame.trans (ofText_to_string hcolumns)
  exact ⟨hread, congrArg to_string hread⟩

example : to_string (ofString "-7   -9-31".toList) = "  -7--9-31-00-00-00".toList := by decide

end KafkaK3.TimeRoundTrip
