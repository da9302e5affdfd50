import Mathlib.Data.List.Basic
import Mathlib.Tactic.Common

/-!
# Glob patterns

A pattern is a list of symbols: one letter, any one letter, or any run of
letters. `Matches` says which words a pattern stands for. The rest is what a
matcher needs which scans from left to right and comes back to its last run
symbol only: a word behind a run symbol may be cut at any later place, so the
earliest place at which the symbols up to the next run symbol fit is good enough.
-/
namespace KafkaK3.Glob

variable {α : Type*}

inductive Symbol (α : Type*) where
  | one (a : α)
  | any
  | many
  deriving DecidableEq, Repr

abbrev Pattern (α : Type*) := List (Symbol α)

inductive Matches : Pattern α → List α → Prop
  | nil : Matches [] []
  | one {ps : Pattern α} {s : List α} (a : α) : Matches ps s → Matches (.one a :: ps) (a :: s)
  | any {ps : Pattern α} {s : List α} (a : α) : Matches ps s → Matches (.any :: ps) (a :: s)
  | skip {ps : Pattern α} {s : List α} : Matches ps s → Matches (.many :: ps) s
  | take {ps : Pattern α} {s : List α} (a : α) :
      Matches (.many :: ps) s → Matches (.many :: ps) (a :: s)

/-- The letters which one symbol may stand for. -/
def Symbol.Admits : Symbol α → α → Prop
  | .one b, a => b = a
  | _, _ => True

/-- The number of letters which a word of the pattern has at least. -/
def fixedLength : Pattern α → ℕ
  | [] => 0
  | .many :: ps => fixedLength ps
  | _ :: ps => fixedLength ps + 1

/-- No symbol stands for a run. -/
def Fixed (ps : Pattern α) : Prop := .many ∉ ps

theorem matches_nil_iff {s : List α} : Matches [] s ↔ s = [] := by
  constructor
  · intro h
    cases h
    rfl
  · rintro rfl
    exact .nil

/-- A symbol for one letter takes the first letter. -/
theorem matches_cons_iff {p : Symbol α} (hp : p ≠ .many) {ps : Pattern α} {a : α} {s : List α} :
    Matches (p :: ps) (a :: s) ↔ p.Admits a ∧ Matches ps s := by
  constructor
  · intro h
    cases h with
    | one _ h => exact ⟨rfl, h⟩
    | any _ h => exact ⟨trivial, h⟩
    | skip _ => exact absurd rfl hp
    | take _ _ => exact absurd rfl hp
  · intro ⟨ha, h⟩
    cases p with
    | one b =>
        obtain rfl : b = a := ha
        exact .one b h
    | any => exact .any a h
    | many => exact absurd rfl hp

theorem matches_many_cons {ps : Pattern α} {a : α} {s : List α} :
    Matches (.many :: ps) (a :: s) ↔ Matches ps (a :: s) ∨ Matches (.many :: ps) s := by
  constructor
  · intro h
    cases h with
    | skip h => exact .inl h
    | take _ h => exact .inr h
  · rintro (h | h)
    · exact .skip h
    · exact .take a h

theorem matches_many_nil {ps : Pattern α} : Matches (.many :: ps) [] ↔ Matches ps [] := by
  constructor
  · intro h
    cases h with
    | skip h => exact h
  · exact .skip

/-- A run takes letters from the front until the rest of the pattern fits. -/
theorem matches_many_iff {ps : Pattern α} {s : List α} :
    Matches (.many :: ps) s ↔ ∃ t, t <:+ s ∧ Matches ps t := by
  induction s with
  | nil =>
      rw [matches_many_nil]
      constructor
      · exact fun h => ⟨[], List.suffix_rfl, h⟩
      · intro ⟨t, ht, h⟩
        rwa [List.suffix_nil.mp ht] at h
  | cons a s ih =>
      rw [matches_many_cons, ih]
      constructor
      · rintro (h | ⟨t, ht, h⟩)
        · exact ⟨a :: s, List.suffix_rfl, h⟩
        · exact ⟨t, ht.trans (List.suffix_cons a s), h⟩
      · intro ⟨t, ht, h⟩
        rcases List.suffix_cons_iff.mp ht with rfl | ht
        · exact .inl h
        · exact .inr ⟨t, ht, h⟩

/-- A longer word still matches where a run symbol can take the surplus. -/
theorem Matches.extend {ps : Pattern α} {s t : List α} (h : Matches (.many :: ps) s)
    (hst : s <:+ t) : Matches (.many :: ps) t := by
  obtain ⟨u, hu, hm⟩ := matches_many_iff.mp h
  exact matches_many_iff.mpr ⟨u, hu.trans hst, hm⟩

theorem many_matches_all (s : List α) : Matches [.many] s :=
  matches_many_iff.mpr ⟨[], List.nil_suffix, .nil⟩

theorem Matches.fixedLength_le {ps : Pattern α} {s : List α} (h : Matches ps s) :
    fixedLength ps ≤ s.length := by
  induction h with
  | nil => exact Nat.le_refl 0
  | one a _ ih => exact Nat.succ_le_succ ih
  | any a _ ih => exact Nat.succ_le_succ ih
  | skip _ ih => exact ih
  | take a _ ih => exact Nat.le_succ_of_le ih

theorem fixedLength_append (ps qs : Pattern α) :
    fixedLength (ps ++ qs) = fixedLength ps + fixedLength qs := by
  induction ps with
  | nil => exact (Nat.zero_add _).symm
  | cons p ps ih =>
      cases p <;> simp only [List.cons_append, fixedLength, ih] <;> omega

theorem fixedLength_of_fixed {ps : Pattern α} (h : Fixed ps) : fixedLength ps = ps.length := by
  induction ps with
  | nil => rfl
  | cons p ps ih =>
      have hps := ih fun hmem => h (List.mem_cons_of_mem _ hmem)
      cases p with
      | one a => exact congrArg (· + 1) hps
      | any => exact congrArg (· + 1) hps
      | many => exact absurd List.mem_cons_self h

/-- Only run symbols match the empty word. -/
theorem matches_empty_iff {ps : Pattern α} : Matches ps [] ↔ ∀ p ∈ ps, p = .many := by
  induction ps with
  | nil => exact iff_of_true .nil fun p hp => absurd hp List.not_mem_nil
  | cons p ps ih =>
      rw [List.forall_mem_cons]
      constructor
      · intro h
        cases h with
        | skip h => exact ⟨rfl, ih.mp h⟩
      · rintro ⟨rfl, h⟩
        exact .skip (ih.mpr h)

/-- Symbols without a run take exactly as many letters as they are. -/
theorem Matches.drop_fixed {qs ps : Pattern α} (hqs : Fixed qs) {s : List α}
    (h : Matches (qs ++ ps) s) : Matches ps (s.drop qs.length) := by
  induction qs generalizing s with
  | nil => exact h
  | cons q qs ih =>
      have hrest : Fixed qs := fun hmem => hqs (List.mem_cons_of_mem _ hmem)
      cases h with
      | one a h => exact ih hrest h
      | any a h => exact ih hrest h
      | skip h => exact absurd List.mem_cons_self hqs
      | take a h => exact absurd List.mem_cons_self hqs

/-- A word matches itself, read as a pattern in which every letter admits itself. -/
theorem matches_self {read : α → Symbol α} (hread : ∀ a, (read a).Admits a) (s : List α) :
    Matches (s.map read) s := by
  induction s with
  | nil => exact .nil
  | cons a s ih =>
      rw [List.map_cons]
      by_cases hmany : read a = .many
      · rw [hmany]
        exact .take a (.skip ih)
      · exact (matches_cons_iff hmany).mpr ⟨hread a, ih⟩

section Attempt
variable {qs p : Pattern α} {u s c : List α} {a : α}

/-- An attempt which has used up the word leaves too few letters for a later one. -/
theorem no_later_attempt (hqs : Fixed qs) (hlen : qs.length = u.length) (hword : a :: c = u) :
    ¬ Matches (.many :: (qs ++ p)) c := by
  intro h
  have hmin := h.fixedLength_le
  rw [fixedLength, fixedLength_append, fixedLength_of_fixed hqs, hlen, ← hword] at hmin
  simp only [List.length_cons] at hmin
  omega

/-- An attempt which has come to the next run symbol makes later ones superfluous. -/
theorem earliest_attempt (hqs : Fixed qs) (hlen : qs.length = u.length) (hword : a :: c = u ++ s)
    (h : Matches (.many :: (qs ++ .many :: p)) c) : Matches (.many :: p) s := by
  obtain ⟨t, ht, hmatch⟩ := matches_many_iff.mp h
  apply (hmatch.drop_fixed hqs).extend
  have hback : t.drop qs.length <:+ u ++ s := by
    rw [← hword]
    exact (List.drop_suffix _ t).trans (ht.trans (List.suffix_cons a c))
  apply List.suffix_of_suffix_length_le hback (List.suffix_append u s)
  have hshort := ht.length_le
  have htotal := congrArg List.length hword
  simp only [List.length_cons, List.length_append] at htotal
  rw [List.length_drop]
  omega

end Attempt

end KafkaK3.Glob
