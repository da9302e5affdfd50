import KafkaK3.DecimalText
import KafkaK3.Glob

/-!
# The wildcard comparison

`Utils::strcmp` compares a text with a pattern in which `?` stands for any one
character and `*` for any run of them. Its first loop goes up to the first star.
The second one walks on and, when a character does not fit, goes back to the
pattern behind the last star and to the place one further in the text. It never
goes back beyond the last star, which is enough: `strcmp_iff` says that the
comparison is the glob relation.
-/
namespace KafkaK3.Wildcard
open DecimalText Glob

/-- The characters before the terminating zero. -/
def c_str (s : Text) : Text := s.takeWhile fun c => c.toNat ≠ 0

/-- What a character of a pattern stands for. -/
def wild (c : Char) : Symbol Char :=
  if c = '*' then .many else if c = '?' then .any else .one c

/-- The pattern matches the text. -/
def GlobMatch (w s : Text) : Prop := Matches ((c_str w).map wild) (c_str s)

/-- The first loop, with the places at which it stops; nothing where it returns false. -/
def firstLoop : Text → Text → Option (Text × Text)
  | w, [] => some (w, [])
  | [], _ :: _ => none
  | p :: w, a :: s =>
      if p = '*' then some (p :: w, a :: s)
      else if p ≠ a ∧ p ≠ '?' then none
      else firstLoop w s

/-- The stars at the end of the text, and whether the pattern ends there. -/
def trailing (w : Text) : Bool := (w.dropWhile (· = '*')).isEmpty

/-- The second loop. `m` is the pattern behind the last star and `c` the text from
which the next attempt starts. -/
def secondLoop (w s m c : Text) (hw : w <:+ m) : Bool :=
  match s, w with
  | [], w => trailing w
  | _ :: _, [] => secondLoop m c m c.tail List.suffix_rfl
  | a :: s, p :: w =>
      if p = '*' then
        if w = [] then true else secondLoop w (a :: s) w s List.suffix_rfl
      else if p = a ∨ p = '?' then secondLoop w s m c ((List.suffix_cons p w).trans hw)
      else secondLoop m c m c.tail List.suffix_rfl
termination_by (m.length, c.length, s.length)
decreasing_by
  · cases c with
    | nil => exact .right _ (.right _ (Nat.succ_pos _))
    | cons b c => exact .right _ (.left _ _ (Nat.lt_succ_self _))
  · exact .left _ _ (Nat.lt_of_lt_of_le (Nat.lt_succ_self _) hw.length_le)
  · exact .right _ (.right _ (Nat.lt_succ_self _))
  · cases c with
    | nil => exact .right _ (.right _ (Nat.succ_pos _))
    | cons b c => exact .right _ (.left _ _ (Nat.lt_succ_self _))

/-- `Utils::strcmp`. The second loop meets a star before it goes back, and until
then it has no place to go back to. -/
def strcmp (wild string : Text) : Bool :=
  match firstLoop (c_str wild) (c_str string) with
  | none => false
  | some (w, s) => secondLoop w s w s List.suffix_rfl

theorem wild_many {p : Char} : wild p = .many ↔ p = '*' := by
  unfold wild
  split
  · simp [*]
  · split <;> simp [*]

theorem wild_admits {p : Char} (hp : p ≠ '*') (a : Char) :
    (wild p).Admits a ↔ p = a ∨ p = '?' := by
  unfold wild
  rw [if_neg hp]
  split
  next h => simp [Symbol.Admits, h]
  next h => simp [Symbol.Admits, h]

/-- Every character admits itself, a star and a question mark among them. -/
theorem wild_self (c : Char) : (wild c).Admits c := by
  by_cases hc : c = '*'
  · rw [hc]
    trivial
  · exact (wild_admits hc c).mpr (.inl rfl)

theorem trailing_iff {w : Text} : trailing w = true ↔ Matches (w.map wild) [] := by
  rw [matches_empty_iff, trailing, List.isEmpty_iff, List.dropWhile_eq_nil_iff]
  simp [wild_many]

/-- One step behind a star, or none. -/
theorem matches_wild_cons {p : Char} (hp : p ≠ '*') {w : Text} {a : Char} {s : Text} :
    Matches ((p :: w).map wild) (a :: s) ↔ (p = a ∨ p = '?') ∧ Matches (w.map wild) s := by
  rw [List.map_cons, matches_cons_iff (mt wild_many.mp hp), wild_admits hp]

theorem not_matches_nil_cons {a : Char} {s : Text} :
    ¬ Matches (([] : Text).map wild) (a :: s) := by
  rw [List.map_nil, matches_nil_iff]
  exact List.cons_ne_nil a s

/-- What is left of the pattern and of the text in an attempt which started at the
character before `c` and has met no star. -/
structure Attempt (w s m c : Text) : Prop where
  split : ∃ q u a, m = q ++ w ∧ a :: c = u ++ s ∧ q.length = u.length ∧ Fixed (q.map wild)

theorem Attempt.start (m : Text) (a : Char) (c : Text) : Attempt m (a :: c) m c :=
  ⟨[], [], a, rfl, rfl, rfl, List.not_mem_nil⟩

theorem Attempt.step {p b : Char} {w s m c : Text} (hp : p ≠ '*')
    (h : Attempt (p :: w) (b :: s) m c) : Attempt w s m c := by
  obtain ⟨q, u, a, hm, hc, hlen, hfixed⟩ := h.split
  refine ⟨q ++ [p], u ++ [b], a, by simp [hm], by simp [hc], by simp [hlen], ?_⟩
  rw [Fixed, List.map_append, List.mem_append, not_or]
  refine ⟨hfixed, ?_⟩
  simp [eq_comm, wild_many, hp]

/-- Going back to the last star tries the later attempts. -/
theorem retry_iff {m c : Text}
    (hloop : ∀ b c', c = b :: c' → (secondLoop m c m c' List.suffix_rfl = true ↔
      Matches (m.map wild) c ∨ Matches (.many :: m.map wild) c')) :
    secondLoop m c m c.tail List.suffix_rfl = true ↔ Matches (.many :: m.map wild) c := by
  cases c with
  | nil =>
      rw [secondLoop, trailing_iff, matches_many_nil]
  | cons b c => rw [List.tail_cons, hloop b c rfl, matches_many_cons]

/-- The loop succeeds in the attempt under way or in a later one. -/
theorem secondLoop_iff {w s m c : Text} {hw : w <:+ m} (h : Attempt w s m c) :
    secondLoop w s m c hw = true ↔
      Matches (w.map wild) s ∨ Matches (.many :: m.map wild) c := by
  fun_induction secondLoop w s m c hw with
  | case1 m c w hw =>
      obtain ⟨q, u, a, rfl, hc, hlen, hfixed⟩ := h.split
      rw [List.append_nil] at hc
      have hnone := no_later_attempt (p := w.map wild) hfixed (by simpa using hlen) hc
      rw [← List.map_append] at hnone
      rw [trailing_iff]
      exact (or_iff_left hnone).symm
  | case2 m c a s hw _ ih =>
      -- the pattern has ended before the text
      have hno := not_matches_nil_cons (a := a) (s := s)
      rw [or_iff_right hno]
      apply retry_iff
      rintro b c rfl
      exact ih (.start m b c)
  | case3 m c a s hw _ =>
      exact iff_of_true rfl (.inl (many_matches_all _))
  | case4 m c a s w _ hw _ ih =>
      obtain ⟨q, u, b, rfl, hc, hlen, hfixed⟩ := h.split
      rw [ih (.start w a s), ← matches_many_cons]
      -- the new star makes the attempts behind the old one superfluous
      constructor
      · exact .inl
      · rintro (hnow | hlater)
        · exact hnow
        · rw [List.map_append] at hlater
          exact earliest_attempt hfixed (by simpa using hlen) hc hlater
  | case5 m c a s p w _ hp hfits hw ih =>
      rw [ih (h.step hp), matches_wild_cons hp, and_iff_right hfits]
  | case6 m c a s p w _ hp hfits hw ih =>
      have hno : ¬ Matches ((p :: w).map wild) (a :: s) :=
        fun hmatch => hfits ((matches_wild_cons hp).mp hmatch).1
      rw [or_iff_right hno]
      apply retry_iff
      rintro b c rfl
      exact ih (.start m b c)

/-- Where the first loop stops, the text matches the pattern if the rest of the text
matches the rest of the pattern, and there is a star or nothing to compare. -/
theorem firstLoop_some {w s w' s' : Text} (h : firstLoop w s = some (w', s')) :
    (Matches (w.map wild) s ↔ Matches (w'.map wild) s') ∧
      (s' = [] ∨ ∃ v, w' = '*' :: v) := by
  fun_induction firstLoop w s with
  | case1 w =>
      cases h
      exact ⟨Iff.rfl, .inl rfl⟩
  | case2 => cases h
  | case3 w a s =>
      cases h
      exact ⟨Iff.rfl, .inr ⟨w, rfl⟩⟩
  | case4 => cases h
  | case5 p w a s hp hfits ih =>
      have hadmits : p = a ∨ p = '?' := by tauto
      rw [matches_wild_cons hp, and_iff_right hadmits]
      exact ih h

theorem firstLoop_none {w s : Text} (h : firstLoop w s = none) : ¬ Matches (w.map wild) s := by
  fun_induction firstLoop w s with
  | case1 => cases h
  | case2 a s => exact not_matches_nil_cons
  | case3 => cases h
  | case4 p w a s hp hfits =>
      intro hmatch
      rcases ((matches_wild_cons hp).mp hmatch).1 with heq | hany
      · exact hfits.1 heq
      · exact hfits.2 hany
  | case5 p w a s hp hfits ih => exact fun hmatch => ih h ((matches_wild_cons hp).mp hmatch).2

theorem secondLoop_start {w s : Text} (h : s = [] ∨ ∃ v, w = '*' :: v) :
    secondLoop w s w s List.suffix_rfl = true ↔ Matches (w.map wild) s := by
  cases s with
  | nil => rw [secondLoop, trailing_iff]
  | cons a s =>
      obtain ⟨v, rfl⟩ := h.resolve_left (List.cons_ne_nil a s)
      have hmany : ('*' :: v).map wild = .many :: v.map wild := rfl
      rw [secondLoop, hmany]
      simp only [if_true]
      split
      next hv =>
        rw [hv]
        exact iff_of_true rfl (many_matches_all _)
      next => rw [secondLoop_iff (.start v a s), matches_many_cons]

/-- The comparison is the glob relation. -/
theorem strcmp_iff {w s : Text} : strcmp w s = true ↔ GlobMatch w s := by
  unfold strcmp GlobMatch
  split
  next h => exact iff_of_false Bool.false_ne_true (firstLoop_none h)
  next w' s' h =>
    obtain ⟨hsame, hstop⟩ := firstLoop_some h
    rw [secondLoop_start hstop, hsame]

/-- A text without a zero byte is all of its `c_str`. -/
theorem c_str_eq {s : Text} (h : ∀ c ∈ s, c.toNat ≠ 0) : c_str s = s := by
  rw [c_str, List.takeWhile_eq_self_iff]
  intro c hc
  exact decide_eq_true (h c hc)

/-- The comparison ends with the glob relation of the two whole texts. -/
theorem strcmp_is_glob {w s : Text} (hw : ∀ c ∈ w, c.toNat ≠ 0) (hs : ∀ c ∈ s, c.toNat ≠ 0) :
    strcmp w s = true ↔ Matches (w.map wild) s := by
  rw [strcmp_iff, GlobMatch, c_str_eq hw, c_str_eq hs]

/-- Two stars, of which only the last one is come back to. -/
theorem strcmp_two_stars : strcmp ['*', 'a', '*', '?', 'c'] ['b', 'a', 'c', 'b', 'c'] = true ↔
    Matches (['*', 'a', '*', '?', 'c'].map wild) ['b', 'a', 'c', 'b', 'c'] :=
  strcmp_is_glob (by simp) (by simp)

/-- Every text matches itself. -/
theorem globMatch_self (s : Text) : GlobMatch s s := matches_self wild_self _

end KafkaK3.Wildcard
