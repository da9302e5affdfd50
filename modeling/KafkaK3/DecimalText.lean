import Mathlib.Algebra.Ring.Int.Defs
import Mathlib.Algebra.Ring.Nat
import Mathlib.Data.List.TakeWhile
import Mathlib.Tactic.Common

/-!
# Decimal text and its order

Numbers are written in decimal without padding, a minus sign in front of a
negative one. Text is compared character by character, as an ordered map with
text keys does. The order of two written numbers is therefore not their
numeric order: `Precedes` says exactly which of two different numbers comes
first, by comparing the shorter one with the leading digits of the longer one.
The reading side is `atoi`, which skips blanks, takes one sign and stops at the
first character that is not a digit.
-/
namespace KafkaK3.DecimalText

abbrev Text := List Char

def natText (n : ℕ) : Text := Nat.toDigits 10 n

def intText (z : ℤ) : Text := if z < 0 then '-' :: natText z.natAbs else natText z.natAbs

/-- Two columns, filled with a zero in front. -/
def pad2 (n : ℕ) : Text := if n < 10 then '0' :: natText n else natText n

/-- The number of a digit string; other characters do not occur in it. -/
def digitsValue (cs : Text) : ℕ := Nat.ofDigitChars 10 cs 0

def AllDigits (cs : Text) : Prop := ∀ c ∈ cs, c.isDigit = true

theorem allDigits_natText (n : ℕ) : AllDigits (natText n) :=
  fun _ hc => Nat.isDigit_of_mem_toDigits (by decide) (by decide) hc

@[simp] theorem digitsValue_natText (n : ℕ) : digitsValue (natText n) = n :=
  Nat.ofDigitChars_ten_toDigits

theorem natText_ne_nil (n : ℕ) : natText n ≠ [] := Nat.toDigits_ne_nil

theorem natText_injective : Function.Injective natText :=
  Function.LeftInverse.injective digitsValue_natText

theorem isDigit_iff {c : Char} : c.isDigit = true ↔ 48 ≤ c.toNat ∧ c.toNat ≤ 57 := by
  simp only [Char.isDigit, Bool.and_eq_true, decide_eq_true_eq, ge_iff_le,
    UInt32.le_iff_toNat_le]
  exact Iff.rfl

/-- A character which no decimal text contains separates two of them. -/
theorem mark_notMem_intText {m : Char} (hm : m.isDigit = false) (hsign : m ≠ '-') (z : ℤ) :
    m ∉ intText z := by
  have hdigits : m ∉ natText z.natAbs := by
    intro h
    rw [allDigits_natText _ _ h] at hm
    contradiction
  unfold intText
  split
  · simpa [hsign] using hdigits
  · exact hdigits

theorem intText_injective : Function.Injective intText := by
  intro a b h
  have hminus (n : ℕ) : '-' ∉ natText n := fun hc => by
    have := allDigits_natText n _ hc
    simp at this
  unfold intText at h
  split at h <;> split at h
  · have := natText_injective (List.cons.inj h).2
    omega
  · exact absurd (h ▸ List.mem_cons_self : '-' ∈ natText b.natAbs) (hminus _)
  · exact absurd (h ▸ List.mem_cons_self : '-' ∈ natText a.natAbs) (hminus _)
  · have := natText_injective h
    omega

/-- Text before the first mark is determined, and so is the text behind it. -/
theorem append_mark_inj {m : Char} {u v s t : Text} (hu : m ∉ u) (hv : m ∉ v)
    (h : u ++ m :: s = v ++ m :: t) : u = v ∧ s = t := by
  induction u generalizing v with
  | nil =>
      cases v with
      | nil => exact ⟨rfl, (List.cons.inj h).2⟩
      | cons d v =>
          have hd : m = d := (List.cons.inj h).1
          exact absurd (hd ▸ List.mem_cons_self) hv
  | cons c u ih =>
      cases v with
      | nil =>
          have hc : c = m := (List.cons.inj h).1
          exact absurd (hc ▸ List.mem_cons_self) hu
      | cons d v =>
          obtain ⟨hcd, hrest⟩ := List.cons.inj h
          obtain ⟨huv, hst⟩ := ih (fun hc => hu (List.mem_cons_of_mem _ hc))
            (fun hc => hv (List.mem_cons_of_mem _ hc)) hrest
          exact ⟨by rw [hcd, huv], hst⟩

/-- The same from the back: so is text behind the last mark. -/
theorem append_last_mark_inj {m : Char} {u v s t : Text} (hs : m ∉ s) (ht : m ∉ t)
    (h : u ++ m :: s = v ++ m :: t) : u = v ∧ s = t := by
  have hback : s.reverse ++ m :: u.reverse = t.reverse ++ m :: v.reverse := by
    have hrev := congrArg List.reverse h
    simpa using hrev
  obtain ⟨hst, huv⟩ := append_mark_inj (mt List.mem_reverse.mp hs) (mt List.mem_reverse.mp ht) hback
  exact ⟨List.reverse_inj.mp huv, List.reverse_inj.mp hst⟩

section Reading

/-- The blanks of the C locale. -/
def isSpace (c : Char) : Bool := c = ' ' ∨ (9 ≤ c.toNat ∧ c.toNat ≤ 13)

/-- The number which the leading digits denote, zero if there are none. -/
def leadingNumber (s : Text) : ℕ := digitsValue (s.takeWhile Char.isDigit)

/-- `atoi` on a text which is short enough not to overflow. -/
def atoi (s : Text) : ℤ :=
  match s.dropWhile isSpace with
  | '-' :: rest => -(leadingNumber rest : ℤ)
  | '+' :: rest => leadingNumber rest
  | rest => leadingNumber rest

/-- `atoi` on any text: `strtol` saturates at the range of `long`, and the `int`
keeps the low half of that. -/
def atoi32 (s : Text) : Int32 := Int32.ofInt (max (-2 ^ 63) (min (2 ^ 63 - 1) (atoi s)))

theorem leadingNumber_of_allDigits {u : Text} (hu : AllDigits u) : leadingNumber u = digitsValue u := by
  rw [leadingNumber, List.takeWhile_eq_self_iff.mpr hu]

theorem atoi_of_allDigits {u : Text} (hu : AllDigits u) : atoi u = digitsValue u := by
  cases u with
  | nil => rfl
  | cons c u =>
      have hc := isDigit_iff.mp (hu c List.mem_cons_self)
      have hspace : isSpace c = false := by
        have hblank : c ≠ ' ' := by
          rintro rfl
          exact absurd hc.1 (by decide)
        simp only [isSpace, hblank, false_or, decide_eq_false_iff_not]
        omega
      have hminus : c ≠ '-' := by
        rintro rfl
        exact absurd hc.1 (by decide)
      have hplus : c ≠ '+' := by
        rintro rfl
        exact absurd hc.1 (by decide)
      have hskip : (c :: u).dropWhile isSpace = c :: u := by
        rw [List.dropWhile_cons_of_neg (by simp [hspace])]
      unfold atoi
      rw [hskip, ← leadingNumber_of_allDigits hu]
      split
      next h => exact absurd (List.cons.inj h).1 hminus
      next h => exact absurd (List.cons.inj h).1 hplus
      next => rfl

theorem natText_length_le {n k : ℕ} (hk : 0 < k) : (natText n).length ≤ k ↔ n < 10 ^ k :=
  Nat.length_toDigits_le_iff (by decide) hk

theorem allDigits_pad2 (n : ℕ) : AllDigits (pad2 n) := by
  unfold pad2
  split
  · intro c hc
    rcases List.mem_cons.mp hc with rfl | hc
    · decide
    · exact allDigits_natText n c hc
  · exact allDigits_natText n

theorem digitsValue_pad2 (n : ℕ) : digitsValue (pad2 n) = n := by
  unfold pad2
  split
  · exact digitsValue_natText n
  · exact digitsValue_natText n

theorem pad2_injective : Function.Injective pad2 := Function.LeftInverse.injective digitsValue_pad2

theorem pad2_length {n : ℕ} (h : n < 100) : (pad2 n).length = 2 := by
  have hshort := natText_length_le (n := n) (k := 2) (by decide)
  have hone := natText_length_le (n := n) (k := 1) (by decide)
  have hsome := List.length_pos_iff.mpr (natText_ne_nil n)
  unfold pad2
  split
  · rw [List.length_cons]
    omega
  · omega

@[simp] theorem atoi_pad2 (n : ℕ) : atoi (pad2 n) = n := by
  rw [atoi_of_allDigits (allDigits_pad2 n), digitsValue_pad2]

/-- A number of four digits takes four columns. -/
theorem intText_year {y : ℤ} (h : 1000 ≤ y ∧ y ≤ 9999) :
    (intText y).length = 4 ∧ atoi (intText y) = y := by
  have hpos : ¬ y < 0 := by omega
  have hfour := natText_length_le (n := y.natAbs) (k := 4) (by decide)
  have hthree := natText_length_le (n := y.natAbs) (k := 3) (by decide)
  rw [intText, if_neg hpos]
  constructor
  · omega
  · rw [atoi_of_allDigits (allDigits_natText _), digitsValue_natText]
    omega

end Reading

section Order

theorem compare_char (c d : Char) : compare c d = compare c.toNat d.toNat := by
  change compareOfLessAndEq c d = compareOfLessAndEq c.toNat d.toNat
  have hlt : c < d ↔ c.toNat < d.toNat := Iff.rfl
  simp only [compareOfLessAndEq, hlt, ← Char.toNat_inj]

theorem compare_cons (c d : Char) (s t : Text) :
    compare (c :: s) (d :: t) = (compare c d).then (compare s t) :=
  List.compareLex_cons_cons

theorem compare_swap (s t : Text) : compare s t = (compare t s).swap :=
  Std.OrientedOrd.eq_swap

theorem compare_append_left (u s t : Text) : compare (u ++ s) (u ++ t) = compare s t := by
  induction u with
  | nil => rfl
  | cons c u ih =>
      have hc : compare c c = .eq := Std.ReflCmp.compare_self
      rw [List.cons_append, List.cons_append, compare_cons, hc, ih]
      rfl

theorem compare_append {u v : Text} (s t : Text) (h : u.length = v.length) :
    compare (u ++ s) (v ++ t) = (compare u v).then (compare s t) := by
  induction u generalizing v with
  | nil =>
      cases v with
      | nil => rfl
      | cons d v => simp at h
  | cons c u ih =>
      cases v with
      | nil => simp at h
      | cons d v =>
          simp only [List.cons_append, compare_cons, ih (Nat.succ.inj h), Ordering.then_assoc]

theorem digitsValue_cons (c : Char) (u : Text) :
    digitsValue (c :: u) = 10 ^ u.length * (c.toNat - 48) + digitsValue u := by
  simp only [digitsValue, Nat.ofDigitChars_cons]
  rw [Nat.ofDigitChars_eq_ofDigitChars_zero, Nat.mul_zero, Nat.zero_add]
  rfl

theorem digitsValue_append (u v : Text) :
    digitsValue (u ++ v) = 10 ^ v.length * digitsValue u + digitsValue v := by
  simp only [digitsValue, Nat.ofDigitChars_append]
  rw [Nat.ofDigitChars_eq_ofDigitChars_zero]

theorem digitsValue_lt {u : Text} (hu : AllDigits u) : digitsValue u < 10 ^ u.length := by
  induction u with
  | nil => decide
  | cons c u ih =>
      have hc := isDigit_iff.mp (hu c List.mem_cons_self)
      have hrest := ih (fun d hd => hu d (List.mem_cons_of_mem _ hd))
      have hlead : c.toNat - 48 ≤ 9 := by omega
      have hscaled : 10 ^ u.length * (c.toNat - 48) ≤ 10 ^ u.length * 9 :=
        Nat.mul_le_mul_left _ hlead
      rw [digitsValue_cons, List.length_cons, Nat.pow_succ]
      omega

/-- Digit strings of one length are ordered as their numbers. -/
theorem compare_digits {u v : Text} (hu : AllDigits u) (hv : AllDigits v)
    (h : u.length = v.length) : compare u v = compare (digitsValue u) (digitsValue v) := by
  induction u generalizing v with
  | nil =>
      cases v with
      | nil => rfl
      | cons d v => simp at h
  | cons c u ih =>
      cases v with
      | nil => simp at h
      | cons d v =>
          have hlen : u.length = v.length := Nat.succ.inj h
          have hu' : AllDigits u := fun x hx => hu x (List.mem_cons_of_mem _ hx)
          have hv' : AllDigits v := fun x hx => hv x (List.mem_cons_of_mem _ hx)
          have hc := isDigit_iff.mp (hu c List.mem_cons_self)
          have hd := isDigit_iff.mp (hv d List.mem_cons_self)
          have hbu := digitsValue_lt hu'
          have hbv := digitsValue_lt hv'
          rw [compare_cons, compare_char, ih hu' hv' hlen, digitsValue_cons, digitsValue_cons,
            hlen]
          rw [hlen] at hbu
          rcases Nat.lt_trichotomy c.toNat d.toNat with hlt | heq | hgt
          · have hstep : 10 ^ v.length * (c.toNat - 48 + 1) ≤ 10 ^ v.length * (d.toNat - 48) :=
              Nat.mul_le_mul_left _ (by omega)
            rw [Nat.mul_succ] at hstep
            rw [Nat.compare_eq_lt.mpr hlt]
            exact (Nat.compare_eq_lt.mpr (by omega)).symm
          · rw [Nat.compare_eq_eq.mpr heq, heq]
            simp only [Ordering.then, Nat.compare_eq_ite_lt, Nat.add_lt_add_iff_left]
          · have hstep : 10 ^ v.length * (d.toNat - 48 + 1) ≤ 10 ^ v.length * (c.toNat - 48) :=
              Nat.mul_le_mul_left _ (by omega)
            rw [Nat.mul_succ] at hstep
            rw [Nat.compare_eq_gt.mpr hgt]
            exact (Nat.compare_eq_gt.mpr (by omega)).symm

/-- What may follow a number in a key: nothing, or a character below the digits. -/
def Terminated : Text → Prop
  | [] => True
  | c :: _ => c.toNat < 48

theorem compare_terminated_digits {s t u : Text} (hs : Terminated s) (hu : AllDigits u)
    (hne : u ≠ []) : compare s (u ++ t) = .lt := by
  obtain ⟨d, v, rfl⟩ := List.exists_cons_of_ne_nil hne
  cases s with
  | nil => rfl
  | cons c s =>
      have hd := isDigit_iff.mp (hu d List.mem_cons_self)
      have hc : c.toNat < d.toNat := Nat.lt_of_lt_of_le hs hd.1
      rw [List.cons_append, compare_cons, compare_char, Nat.compare_eq_lt.mpr hc]
      rfl

def digitCount (n : ℕ) : ℕ := (natText n).length

/-- Of two different numbers the first is written before the second exactly
when it does not exceed the leading digits of a longer one, or when its own
leading digits stay below a shorter one. -/
def Precedes (a b : ℕ) : Prop :=
  if digitCount a ≤ digitCount b then a ≤ b / 10 ^ (digitCount b - digitCount a)
  else a / 10 ^ (digitCount a - digitCount b) < b

instance (a b : ℕ) : Decidable (Precedes a b) := by
  unfold Precedes
  infer_instance

theorem digitsValue_take {u : Text} (hu : AllDigits u) (k : ℕ) :
    digitsValue (u.take k) = digitsValue u / 10 ^ (u.length - k) := by
  have hlast : AllDigits (u.drop k) := fun c hc => hu c (List.mem_of_mem_drop hc)
  have hlt := digitsValue_lt hlast
  have hsplit := digitsValue_append (u.take k) (u.drop k)
  rw [List.take_append_drop] at hsplit
  rw [List.length_drop] at hlt hsplit
  rw [hsplit, Nat.mul_add_div (Nat.pow_pos (by decide)), Nat.div_eq_of_lt hlt, Nat.add_zero]

/-- The leading digits of `b` decide, and a number which is a proper prefix of
another one comes first. -/
theorem compare_natText_short {a b : ℕ} (hab : a ≠ b) (hlen : digitCount a ≤ digitCount b)
    {s : Text} (t : Text) (hs : Terminated s) :
    compare (natText a ++ s) (natText b ++ t) =
      (compare a (b / 10 ^ (digitCount b - digitCount a))).then .lt := by
  have hb := allDigits_natText b
  have hhead : AllDigits ((natText b).take (digitCount a)) :=
    fun c hc => hb c (List.mem_of_mem_take hc)
  have htail : AllDigits ((natText b).drop (digitCount a)) :=
    fun c hc => hb c (List.mem_of_mem_drop hc)
  have heq : (natText a).length = ((natText b).take (digitCount a)).length := by
    rw [List.length_take]
    exact (Nat.min_eq_left hlen).symm
  have hnumber : digitsValue ((natText b).take (digitCount a)) =
      b / 10 ^ (digitCount b - digitCount a) := by
    rw [digitsValue_take hb, digitsValue_natText]
    rfl
  conv_lhs => rw [← List.take_append_drop (digitCount a) (natText b), List.append_assoc]
  rw [compare_append _ _ heq, compare_digits (allDigits_natText a) hhead heq, digitsValue_natText,
    hnumber]
  by_cases hdrop : (natText b).drop (digitCount a) = []
  · have hle : digitCount b ≤ digitCount a := by
      simpa [digitCount] using hdrop
    rw [Nat.sub_eq_zero_of_le hle, Nat.pow_zero, Nat.div_one]
    rcases Nat.lt_or_gt_of_ne hab with h | h
    · rw [Nat.compare_eq_lt.mpr h]
      rfl
    · rw [Nat.compare_eq_gt.mpr h]
      rfl
  · rw [compare_terminated_digits hs htail hdrop]

theorem natText_before_iff {a b : ℕ} (hab : a ≠ b) {s t : Text} (hs : Terminated s)
    (ht : Terminated t) :
    compare (natText a ++ s) (natText b ++ t) = .lt ↔ Precedes a b := by
  unfold Precedes
  split
  case isTrue hlen =>
    rw [compare_natText_short hab hlen t hs]
    rcases Nat.lt_trichotomy a (b / 10 ^ (digitCount b - digitCount a)) with h | h | h
    · simp [Nat.compare_eq_lt.mpr h, Nat.le_of_lt h]
    · simp [Nat.compare_eq_eq.mpr h, Nat.le_of_eq h]
    · simp [Nat.compare_eq_gt.mpr h, h]
  case isFalse hlen =>
    have hswap := compare_natText_short hab.symm (Nat.le_of_not_le hlen) s ht
    rw [compare_swap, hswap]
    rcases Nat.lt_trichotomy b (a / 10 ^ (digitCount a - digitCount b)) with h | h | h
    · simp [Nat.compare_eq_lt.mpr h, Nat.le_of_lt h]
    · simp [Nat.compare_eq_eq.mpr h, Nat.le_of_eq h]
    · simp [Nat.compare_eq_gt.mpr h, h]

/-- The same for signed numbers: a minus sign comes before every digit, and two
negative numbers are ordered by their written magnitudes. -/
def PrecedesInt (x y : ℤ) : Prop :=
  if x < 0 then 0 ≤ y ∨ Precedes x.natAbs y.natAbs else 0 ≤ y ∧ Precedes x.natAbs y.natAbs

instance (x y : ℤ) : Decidable (PrecedesInt x y) := by
  unfold PrecedesInt
  infer_instance

theorem compare_minus_natText (n : ℕ) (s t : Text) :
    compare ('-' :: s) (natText n ++ t) = .lt := by
  obtain ⟨d, v, hv⟩ := List.exists_cons_of_ne_nil (natText_ne_nil n)
  have hd := isDigit_iff.mp (allDigits_natText n d (hv ▸ List.mem_cons_self))
  have hminus : ('-').toNat < d.toNat := Nat.lt_of_lt_of_le (by decide) hd.1
  rw [hv, List.cons_append, compare_cons, compare_char, Nat.compare_eq_lt.mpr hminus]
  rfl

theorem compare_minus (s t : Text) : compare ('-' :: s) ('-' :: t) = compare s t :=
  compare_append_left ['-'] s t

theorem intText_before_iff {x y : ℤ} (hxy : x ≠ y) {s t : Text} (hs : Terminated s)
    (ht : Terminated t) :
    compare (intText x ++ s) (intText y ++ t) = .lt ↔ PrecedesInt x y := by
  unfold intText PrecedesInt
  split <;> split
  · have hne : x.natAbs ≠ y.natAbs := by omega
    have hy : ¬ 0 ≤ y := by omega
    simp only [List.cons_append, compare_minus, natText_before_iff hne hs ht, hy, false_or]
  · have hy : 0 ≤ y := by omega
    simp [List.cons_append, compare_minus_natText, hy]
  · have hy : ¬ 0 ≤ y := by omega
    rw [compare_swap, List.cons_append, compare_minus_natText]
    simp [hy]
  · have hne : x.natAbs ≠ y.natAbs := by omega
    have hy : 0 ≤ y := by omega
    simp only [natText_before_iff hne hs ht, hy, true_and]

end Order

section Columns

/-- A text in so many columns, filled in front. A longer one is not cut. -/
def setw (width : ℕ) (fill : Char) (s : Text) : Text := s.leftpad width fill

/-- The range of an `int`. -/
def FitsInt (x : ℤ) : Prop := -2 ^ 31 ≤ x ∧ x < 2 ^ 31

theorem leadingNumber_lt (s : Text) : leadingNumber s < 10 ^ s.length := by
  have hdigits : AllDigits (s.takeWhile Char.isDigit) := fun _ hc => List.mem_takeWhile_imp hc
  exact Nat.lt_of_lt_of_le (digitsValue_lt hdigits)
    (Nat.pow_le_pow_right (by decide) (List.takeWhile_sublist _).length_le)

/-- A sign takes a column of its own. -/
theorem atoi_range (s : Text) : -10 ^ (s.length - 1) < atoi s ∧ atoi s < 10 ^ s.length := by
  have hskip : (s.dropWhile isSpace).length ≤ s.length := (List.dropWhile_sublist _).length_le
  have hbound (t : Text) (n : ℕ) (h : t.length ≤ n) : (leadingNumber t : ℤ) < 10 ^ n := by
    have hle : (10 : ℕ) ^ t.length ≤ 10 ^ n := Nat.pow_le_pow_right (by decide) h
    have hlt := leadingNumber_lt t
    exact_mod_cast (by omega : leadingNumber t < 10 ^ n)
  have hpos (n : ℕ) : (0 : ℤ) < 10 ^ n := Int.pow_pos (by decide)
  unfold atoi
  split
  next rest heq =>
    rw [heq, List.length_cons] at hskip
    have hrest := hbound rest (s.length - 1) (by omega)
    have hall := hpos s.length
    omega
  next rest heq =>
    rw [heq, List.length_cons] at hskip
    have hrest := hbound rest s.length (by omega)
    have hsign := hpos (s.length - 1)
    omega
  next =>
    have hrest := hbound _ s.length hskip
    have hsign := hpos (s.length - 1)
    omega

theorem atoi_intText (z : ℤ) : atoi (intText z) = z := by
  unfold intText
  split
  case isTrue h =>
    have hminus : atoi ('-' :: natText z.natAbs) = -(leadingNumber (natText z.natAbs) : ℤ) := rfl
    rw [hminus, leadingNumber_of_allDigits (allDigits_natText _), digitsValue_natText]
    omega
  case isFalse h =>
    rw [atoi_of_allDigits (allDigits_natText _), digitsValue_natText]
    omega

/-- Blanks in front of a number do not count. -/
theorem atoi_setw_blank (width : ℕ) (z : ℤ) : atoi (setw width ' ' (intText z)) = z := by
  have hblanks (n : ℕ) : atoi (List.replicate n ' ' ++ intText z) = z := by
    induction n with
    | zero => exact atoi_intText z
    | succ n ih => exact ih
  exact hblanks _

/-- Nor do zeros, as long as no sign follows them. -/
theorem atoi_setw_zero {width : ℕ} {z : ℤ} (h : 0 ≤ z ∨ width ≤ (intText z).length) :
    atoi (setw width '0' (intText z)) = z := by
  by_cases hlen : width ≤ (intText z).length
  · rw [setw, List.leftpad, Nat.sub_eq_zero_of_le hlen]
    exact atoi_intText z
  · have hz : ¬ z < 0 := by omega
    have hdigits : AllDigits (setw width '0' (intText z)) := by
      intro c hc
      rw [setw, List.leftpad, intText, if_neg hz, List.mem_append] at hc
      cases hc with
      | inl hc => rw [List.eq_of_mem_replicate hc]; decide
      | inr hc => exact allDigits_natText _ c hc
    rw [atoi_of_allDigits hdigits, setw, List.leftpad, digitsValue_append, intText, if_neg hz,
      digitsValue_natText, digitsValue, Nat.ofDigitChars_replicate_zero]
    omega

theorem intText_length_le {width : ℕ} {z : ℤ} (hwidth : 1 < width)
    (h : -10 ^ (width - 1) < z ∧ z < 10 ^ width) : (intText z).length ≤ width := by
  unfold intText
  split
  case isTrue hneg =>
    have hpower : ((10 ^ (width - 1) : ℕ) : ℤ) = 10 ^ (width - 1) := Int.natCast_pow 10 _
    have habs : z.natAbs < 10 ^ (width - 1) := by omega
    have hshort := (natText_length_le (by omega)).mpr habs
    rw [List.length_cons]
    omega
  case isFalse hneg =>
    have hpower : ((10 ^ width : ℕ) : ℤ) = 10 ^ width := Int.natCast_pow 10 _
    have habs : z.natAbs < 10 ^ width := by omega
    exact (natText_length_le (by omega)).mpr habs

/-- A number which a column can hold takes just that column. -/
theorem setw_length {width : ℕ} {z : ℤ} (fill : Char) (hwidth : 1 < width)
    (h : -10 ^ (width - 1) < z ∧ z < 10 ^ width) : (setw width fill (intText z)).length = width := by
  have hshort := intText_length_le hwidth h
  rw [setw, List.length_leftpad]
  omega

end Columns

end KafkaK3.DecimalText
