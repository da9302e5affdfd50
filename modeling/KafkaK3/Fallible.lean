import Mathlib.Data.List.Basic
import Mathlib.Tactic.Common

/-!
# Computations which may fail

A computation in several steps gives a result when every step does, and a loop
over a list gives the result of the loop over what its rounds give. The results
turn a successful run into statements about pure functions. Where an input which is
not fit makes a computation crash, so it does in every computation which begins with
it, and the fitness of a whole input is that of its parts.
-/
namespace KafkaK3.Fallible

variable {ε α β : Type}

/-- A computation in two steps gives a result when both of them do. -/
theorem bind_eq_ok {x : Except ε α} {f : α → Except ε β} {b : β} :
    x >>= f = .ok b ↔ ∃ a, x = .ok a ∧ f a = .ok b := by
  cases x with
  | error e => simp [bind, Except.bind]
  | ok a => simp [bind, Except.bind]

/-- Two computations which look alike fail alike or give results which look alike. -/
theorem cases_of_map_eq {α' : Type} {x : Except ε α} {y : Except ε α'} {f : α → β} {g : α' → β}
    (h : x.map f = y.map g) :
    (∃ e, x = .error e ∧ y = .error e) ∨ ∃ a b, x = .ok a ∧ y = .ok b ∧ f a = g b := by
  cases x with
  | error e =>
      cases y with
      | error e' =>
          cases h
          exact Or.inl ⟨e, rfl, rfl⟩
      | ok b => cases h
  | ok a =>
      cases y with
      | error e => cases h
      | ok b => exact Or.inr ⟨a, b, rfl, rfl, Except.ok.inj h⟩

/-- A loop whose rounds, when they succeed, do what a function says. -/
theorem eq_foldl_of_foldlM {f : β → α → Except ε β} {g : β → α → β}
    (hstep : ∀ b a b', f b a = .ok b' → b' = g b a) {l : List α} {b b' : β}
    (h : l.foldlM f b = .ok b') : b' = l.foldl g b := by
  induction l generalizing b with
  | nil =>
      cases h
      rfl
  | cons a l ih =>
      rw [List.foldlM_cons] at h
      obtain ⟨c, hc, hrest⟩ := bind_eq_ok.mp h
      rw [List.foldl_cons, ← hstep b a c hc]
      exact ih hrest

/-- The computation gives a result of this kind. -/
def Gives (post : α → Prop) (x : Except ε α) : Prop := ∃ a, x = .ok a ∧ post a

/-- What is not fit makes the computation crash, and what is fit brings it to an outcome
of this kind. -/
structure CrashesUnless (crash : ε) (fit : Prop) (outcome : Except ε α → Prop) (x : Except ε α) :
    Prop where
  of_fit : fit → outcome x
  of_unfit : ¬ fit → x = .error crash

namespace CrashesUnless
variable {crash : ε} {fit fit' : Prop} {x : Except ε α}

theorem of_outcome {outcome : Except ε α → Prop} (hfit : fit) (houtcome : outcome x) :
    CrashesUnless crash fit outcome x :=
  ⟨fun _ => houtcome, fun h => absurd hfit h⟩

theorem congr {outcome : Except ε α → Prop} (h : CrashesUnless crash fit outcome x)
    (hfit : fit ↔ fit') : CrashesUnless crash fit' outcome x :=
  ⟨fun hnew => h.of_fit (hfit.mpr hnew), fun hnew => h.of_unfit (mt hfit.mp hnew)⟩

theorem mono {outcome outcome' : Except ε α → Prop} (h : CrashesUnless crash fit outcome x)
    (houtcome : outcome x → outcome' x) : CrashesUnless crash fit outcome' x :=
  ⟨fun hfit => houtcome (h.of_fit hfit), h.of_unfit⟩

/-- Two steps, of which the first one gives a result unless it crashes. -/
theorem bind {post : α → Prop} {outcome : Except ε β → Prop} {f : α → Except ε β}
    (hx : CrashesUnless crash fit (Gives post) x)
    (hf : ∀ a, post a → CrashesUnless crash fit' outcome (f a)) :
    CrashesUnless crash (fit ∧ fit') outcome (x >>= f) := by
  by_cases hfit : fit
  · obtain ⟨a, hresult, hpost⟩ := hx.of_fit hfit
    rw [hresult]
    exact (hf a hpost).congr (and_iff_right hfit).symm
  · rw [hx.of_unfit hfit]
    exact ⟨fun h => absurd h.1 hfit, fun _ => rfl⟩

/-- A second step which comes to its outcome in any case. -/
theorem bind_outcome {post : α → Prop} {outcome : Except ε β → Prop} {f : α → Except ε β}
    (hx : CrashesUnless crash fit (Gives post) x) (hf : ∀ a, post a → outcome (f a)) :
    CrashesUnless crash fit outcome (x >>= f) := by
  have hsecond := hx.bind fun a ha => (of_outcome trivial (hf a ha) : CrashesUnless crash True outcome (f a))
  exact hsecond.congr (and_iff_left trivial)

/-- A loop over items each of which is fit or not. -/
theorem foldlM {ok : α → Prop} {inv : β → Prop} {f : β → α → Except ε β} {l : List α}
    (hstep : ∀ b a, inv b → CrashesUnless crash (ok a) (Gives inv) (f b a)) {b : β} (hb : inv b) :
    CrashesUnless crash (∀ a ∈ l, ok a) (Gives inv) (l.foldlM f b) := by
  induction l generalizing b with
  | nil => exact of_outcome (fun _ ha => absurd ha List.not_mem_nil) ⟨b, rfl, hb⟩
  | cons a l ih =>
      rw [List.foldlM_cons]
      exact ((hstep b a hb).bind fun _ hnext => ih hnext).congr List.forall_mem_cons.symm

end CrashesUnless

end KafkaK3.Fallible
