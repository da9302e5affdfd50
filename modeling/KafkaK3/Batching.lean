import Mathlib.Data.List.Basic
import Mathlib.Tactic.Common

/-!
# Batching channels

A channel collects arriving items into one open batch and sends the batch off
whole. A gauge is kept beside the open batch and is what the policy looks at,
together with the batch, to call it full. A full batch is sent and the gauge
starts anew; a flush sends whatever is there and leaves the gauge alone.

The results are about one channel with any item type, gauge and policy: nothing
is lost or reordered, the batches inherit what the policy guarantees of an open
batch, and a renaming of the items commutes with every step.
-/
namespace KafkaK3.Batching

variable {α β γ : Type*}

structure Policy (α γ : Type*) where
  start : γ
  add : γ → α → γ
  full : List α → γ → Bool

structure Channel (α γ : Type*) where
  pending : List α
  gauge : γ
  sent : List (List α)

inductive Signal (α : Type*) where
  | arrive (a : α)
  | flush

namespace Channel

def opened (P : Policy α γ) : Channel α γ := ⟨[], P.start, []⟩

/-- An empty batch is never sent. -/
def flush (c : Channel α γ) : Channel α γ :=
  match c.pending with
  | [] => c
  | _ :: _ => ⟨[], c.gauge, c.sent ++ [c.pending]⟩

def arrive (P : Policy α γ) (c : Channel α γ) (a : α) : Channel α γ :=
  let d : Channel α γ := ⟨c.pending ++ [a], P.add c.gauge a, c.sent⟩
  if P.full d.pending d.gauge then { d.flush with gauge := P.start } else d

def react (P : Policy α γ) (c : Channel α γ) : Signal α → Channel α γ
  | .arrive a => c.arrive P a
  | .flush => c.flush

/-- Everything that went into the channel, in the order in which it left or
still waits. -/
def content (c : Channel α γ) : List α := c.sent.flatten ++ c.pending

@[simp] theorem flush_pending (c : Channel α γ) : c.flush.pending = [] := by
  unfold flush
  split
  · assumption
  · rfl

@[simp] theorem flush_gauge (c : Channel α γ) : c.flush.gauge = c.gauge := by
  unfold flush
  split <;> rfl

theorem flush_sent (c : Channel α γ) :
    c.flush.sent = if c.pending = [] then c.sent else c.sent ++ [c.pending] := by
  unfold flush
  split
  next h => simp [h]
  next h => simp [h]

theorem flush_content (c : Channel α γ) : c.flush.content = c.content := by
  simp only [content, flush_pending, flush_sent]
  split
  next h => simp [h]
  next => simp

/-- What an arrival does: the batch goes out with the new item in it, or it
stays open with the new item behind the others. -/
theorem arrive_cases (P : Policy α γ) (c : Channel α γ) (a : α) :
    (P.full (c.pending ++ [a]) (P.add c.gauge a) = true ∧
      c.arrive P a = ⟨[], P.start, c.sent ++ [c.pending ++ [a]]⟩) ∨
    (P.full (c.pending ++ [a]) (P.add c.gauge a) = false ∧
      c.arrive P a = ⟨c.pending ++ [a], P.add c.gauge a, c.sent⟩) := by
  unfold arrive
  by_cases h : P.full (c.pending ++ [a]) (P.add c.gauge a) = true
  · exact .inl ⟨h, by simp [h, flush_sent]⟩
  · exact .inr ⟨by simpa using h, by simp [h]⟩

end Channel

/-- A channel from its opening on. -/
def run (P : Policy α γ) (signals : List (Signal α)) : Channel α γ :=
  signals.foldl (Channel.react P) (Channel.opened P)

/-- `Small` holds of the open batch with its gauge, and every batch sent so far
was small, or was small before its last item came. -/
structure Channel.Within (Small : List α → γ → Prop) (c : Channel α γ) : Prop where
  now : Small c.pending c.gauge
  past : ∀ b ∈ c.sent, (∃ g, Small b g) ∨ ∃ l a g, b = l ++ [a] ∧ Small l g

/-- What a policy has to guarantee for `Small` to be kept by a channel. -/
structure Policy.Keeps (P : Policy α γ) (Small : List α → γ → Prop) : Prop where
  empty : Small [] P.start
  flushed : ∀ l g, Small l g → Small [] g
  added : ∀ l g a, Small l g → P.full (l ++ [a]) (P.add g a) = false →
    Small (l ++ [a]) (P.add g a)

namespace Channel

variable {P : Policy α γ} {Small : List α → γ → Prop}

theorem Within.opened (hP : P.Keeps Small) : Within Small (opened P) :=
  ⟨hP.empty, by simp [Channel.opened]⟩

theorem Within.flush (hP : P.Keeps Small) {c : Channel α γ} (h : c.Within Small) :
    c.flush.Within Small := by
  constructor
  · rw [flush_pending, flush_gauge]
    exact hP.flushed _ _ h.now
  · intro b hb
    rw [flush_sent] at hb
    split at hb
    · exact h.past b hb
    · rcases List.mem_append.mp hb with hb | hb
      · exact h.past b hb
      · rw [List.mem_singleton.mp hb]
        exact .inl ⟨c.gauge, h.now⟩

theorem Within.arrive (hP : P.Keeps Small) {c : Channel α γ} (h : c.Within Small) (a : α) :
    (c.arrive P a).Within Small := by
  rcases c.arrive_cases P a with ⟨_, he⟩ | ⟨hfull, he⟩
  · rw [he]
    refine ⟨hP.empty, fun b hb => ?_⟩
    rcases List.mem_append.mp hb with hb | hb
    · exact h.past b hb
    · exact .inr ⟨c.pending, a, c.gauge, List.mem_singleton.mp hb, h.now⟩
  · rw [he]
    exact ⟨hP.added _ _ a h.now hfull, h.past⟩

end Channel

/-- The policy which reads items of another type through `f`. -/
def Policy.comap (f : α → β) (P : Policy β γ) : Policy α γ :=
  ⟨P.start, fun g a => P.add g (f a), fun l g => P.full (l.map f) g⟩

namespace Channel

def map (f : α → β) (c : Channel α γ) : Channel β γ :=
  ⟨c.pending.map f, c.gauge, c.sent.map (List.map f)⟩

theorem map_flush (f : α → β) (c : Channel α γ) : c.flush.map f = (c.map f).flush := by
  cases h : c.pending <;> simp [flush, map, h]

theorem map_arrive (f : α → β) (P : Policy β γ) (c : Channel α γ) (a : α) :
    (c.arrive (P.comap f) a).map f = (c.map f).arrive P (f a) := by
  have hfull : (P.comap f).full (c.pending ++ [a]) ((P.comap f).add c.gauge a) =
      P.full ((c.map f).pending ++ [f a]) (P.add (c.map f).gauge (f a)) := by
    simp [Policy.comap, map]
  rcases c.arrive_cases (P.comap f) a with ⟨hf, hc⟩ | ⟨hf, hc⟩
  · rcases (c.map f).arrive_cases P (f a) with ⟨_, hd⟩ | ⟨hg, _⟩
    · rw [hc, hd]
      simp [map, Policy.comap]
    · rw [← hfull, hf] at hg
      contradiction
  · rcases (c.map f).arrive_cases P (f a) with ⟨hg, _⟩ | ⟨_, hd⟩
    · rw [← hfull, hf] at hg
      contradiction
    · rw [hc, hd]
      simp [map, Policy.comap]

end Channel

end KafkaK3.Batching
