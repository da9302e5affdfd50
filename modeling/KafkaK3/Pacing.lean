import Mathlib.Algebra.Order.Ring.Int
import Mathlib.Data.List.Basic
import Mathlib.Tactic.Linarith
import Mathlib.Tactic.Ring

/-!
# A task which is repeated when an interval has passed

A loop looks at the clock in every round. Where more than an interval has passed
since the task was done last, the task is done in this round, and the clock is read
again behind it. Between two runs of the task lies more than the interval, so there
are not too many of them, and no round has to do with what is older than that.
-/
namespace KafkaK3.Pacing

variable {α : Type*} (seen done : α → ℤ) (interval : ℤ)

/-- When the task was done last, after one round. -/
def next (last : ℤ) (a : α) : ℤ := if interval < seen a - last then done a else last

def lastDone (last : ℤ) (rounds : List α) : ℤ := rounds.foldl (next seen done interval) last

/-- The rounds in which the task is done. -/
def paced : ℤ → List α → List α
  | _, [] => []
  | last, a :: rounds =>
      if interval < seen a - last then a :: paced (done a) rounds else paced last rounds

/-- The clock does not go back. -/
def Forward : ℤ → List α → Prop
  | _, [] => True
  | now, a :: rounds => now ≤ seen a ∧ seen a ≤ done a ∧ Forward (done a) rounds

variable {seen done interval}

theorem paced_cons (last : ℤ) (a : α) (rounds : List α) :
    paced seen done interval last (a :: rounds) =
      (if interval < seen a - last then [a] else []) ++
        paced seen done interval (next seen done interval last a) rounds := by
  rw [paced, next]
  split <;> rfl

theorem paced_append (last : ℤ) (t u : List α) :
    paced seen done interval last (t ++ u) =
      paced seen done interval last t ++
        paced seen done interval (lastDone seen done interval last t) u := by
  induction t generalizing last with
  | nil => rfl
  | cons a t ih =>
      rw [List.cons_append, paced_cons, paced_cons, ih, List.append_assoc]
      rfl

theorem lastDone_concat (last : ℤ) (t : List α) (a : α) :
    lastDone seen done interval last (t ++ [a]) =
      next seen done interval (lastDone seen done interval last t) a :=
  List.foldl_concat _ _ _ _

theorem Forward.mono {now earlier : ℤ} {rounds : List α} (h : Forward seen done now rounds)
    (hle : earlier ≤ now) : Forward seen done earlier rounds := by
  cases rounds with
  | nil => exact trivial
  | cons a rounds => exact ⟨hle.trans h.1, h.2⟩

/-- Every run of the task takes its interval out of the time there is. -/
theorem paced_length {last stop : ℤ} {rounds : List α} (h : Forward seen done last rounds)
    (hlast : last ≤ stop) (hstop : ∀ a ∈ rounds, done a ≤ stop) :
    (paced seen done interval last rounds).length * (interval + 1) ≤ stop - last := by
  induction rounds generalizing last with
  | nil =>
      rw [paced, List.length_nil]
      push_cast
      linarith
  | cons a rounds ih =>
      obtain ⟨hhead, hrest⟩ := List.forall_mem_cons.mp hstop
      rw [paced]
      split
      next hdue =>
        have htail := ih h.2.2 hhead hrest
        have hdone := h.2.1
        rw [List.length_cons]
        push_cast
        linarith
      next => exact ih (h.2.2.mono (h.1.trans h.2.1)) hlast hrest

/-- What the task brought last is not older than the interval. -/
theorem fresh {last : ℤ} {t : List α} {a : α} (h : seen a ≤ done a) :
    seen a - lastDone seen done interval last (t ++ [a]) ≤ max 0 interval := by
  rw [lastDone_concat, next]
  split
  next => exact le_max_of_le_left (by linarith)
  next hdue => exact le_max_of_le_right (not_lt.mp hdue)

theorem Forward.of_mem {now : ℤ} {rounds : List α} (h : Forward seen done now rounds) :
    ∀ a ∈ rounds, seen a ≤ done a := by
  induction rounds generalizing now with
  | nil => intro a ha; cases ha
  | cons a rounds ih => exact List.forall_mem_cons.mpr ⟨h.2.1, ih h.2.2⟩

end KafkaK3.Pacing
