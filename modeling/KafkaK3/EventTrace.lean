import Mathlib.Data.List.Basic
import Mathlib.Tactic.Common

/-!
# Properties of a trace at every moment

A trace lists the events of a run, oldest first. A property which must hold
while the run is still going on is a property of every prefix of the trace:
an event has already happened exactly when it lies in the prefix. Traces grow
by blocks, and a block is checked against the trace it is appended to.
-/
namespace KafkaK3.EventTrace

variable {E : Type*} {I : List E → Prop}

/-- `I` holds of the events so far at every moment of the run. -/
def Always (I : List E → Prop) (t : List E) : Prop := ∀ p, p <+: t → I p

theorem Always.now {t : List E} (h : Always I t) : I t := h t List.prefix_rfl

theorem always_nil : Always I [] ↔ I [] := by
  simp [Always]

theorem prefix_append_cases {p t u : List E} (h : p <+: t ++ u) :
    p <+: t ∨ ∃ q, p = t ++ q ∧ q <+: u := by
  rcases List.prefix_or_prefix_of_prefix h (List.prefix_append t u) with hp | ⟨q, rfl⟩
  · exact .inl hp
  · exact .inr ⟨q, rfl, List.prefix_self_append_iff.mp h⟩

/-- A block is judged event by event on top of the trace it extends. -/
theorem Always.append {t u : List E} (h : Always I t)
    (hu : ∀ p, p <+: u → p ≠ [] → I (t ++ p)) : Always I (t ++ u) := by
  intro p hp
  rcases prefix_append_cases hp with hp | ⟨q, rfl, hq⟩
  · exact h p hp
  · by_cases hq0 : q = []
    · simpa [hq0] using h.now
    · exact hu q hq hq0

theorem Always.concat {t : List E} {e : E} (h : Always I t) (he : I (t ++ [e])) :
    Always I (t ++ [e]) := by
  refine h.append fun p hp hne => ?_
  rcases List.prefix_cons_iff.mp hp with rfl | ⟨q, rfl, hq⟩
  · contradiction
  · rw [List.prefix_nil.mp hq]
    exact he

end KafkaK3.EventTrace
