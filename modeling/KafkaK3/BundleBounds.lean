import KafkaK3.ConsumerInvariants
import Mathlib.Data.List.Induction

/-!
# How large a bundle can grow

The flush test reads the counter and not the buffer. The counter never falls
below the payload in the buffer, also on the paths which empty the buffer and
leave the counter as it is, so the test keeps every buffer below both bounds,
and a bundle passes them by its last message at most.
-/
namespace KafkaK3.BundleBounds
open DecimalText MessageLayout StashImage BackupConsumer Batching TopicChannel ConsumerInvariants

variable {c : Consume} {w : World}

/-- What holds of a buffer and its counter between two calls. -/
def Small (c : Consume) (messages : List MessageWrapper) (size : ℤ) : Prop :=
  (messages.length : ℤ) < c.message_bundle_limit.toInt ∧
    (messagesSize (contents messages) : ℤ) ≤ size ∧ size < c.message_bundle_size.toInt

/-- A positive `int` limit keeps its value as a `size_t`. -/
theorem bundleLimit_eq (h : 0 ≤ c.message_bundle_limit.toInt) :
    (State.bundleLimit c : ℤ) = c.message_bundle_limit.toInt := by
  have hnonneg : (0 : Int64) ≤ c.message_bundle_limit.toInt64 := by
    rw [Int64.le_iff_toInt_le, Int32.toInt_toInt64]
    exact h
  rw [State.bundleLimit, Int64.toNat_toUInt64_of_le hnonneg, Int32.toNatClampNeg_toInt64]
  exact Int.toNat_of_nonneg h

theorem keeps_small (hlimit : 1 ≤ c.message_bundle_limit.toInt)
    (hsize : 1 ≤ c.message_bundle_size.toInt) :
    ((policy c).comap MessageWrapper.pmessage).Keeps (Small c) where
  empty := ⟨by simp only [List.length_nil]; omega, Int.le_refl 0, hsize⟩
  flushed l g h := by
    refine ⟨?_, ?_, h.2.2⟩
    · simp only [List.length_nil]
      omega
    · exact Int.le_trans (Int.natCast_nonneg _) h.2.1
  added l g x h hfull := by
    have hcount := bundleLimit_eq (Int.le_trans (by decide) hlimit)
    simp only [Policy.comap, policy, decide_eq_false_iff_not, not_or, Nat.not_le,
      Int.not_le, List.length_map] at hfull
    refine ⟨by omega, ?_, hfull.2⟩
    have hsum := h.2.1
    rw [messagesSize_concat]
    simp only [Policy.comap, policy]
    omega

/-- Every topic of the state is a channel within the bounds. -/
def Bounded (c : Consume) (s : State) : Prop := ∀ topic, (view topic s).Within (Small c)

section Steps
variable (hkeeps : ((policy c).comap MessageWrapper.pmessage).Keeps (Small c))
include hkeeps

theorem bounded_stash_all {s : State} (h : Bounded c s) : Bounded c (s.stash_all c w) := by
  intro topic
  rw [view_stash_all]
  exact (h topic).flush hkeeps

theorem bounded_run_once {s : State} (h : Bounded c s) (r : ConsumeResult) :
    Bounded c (s.run_once c w r) := by
  cases r with
  | null => exact h
  | error e => exact bounded_stash_all hkeeps h
  | message m =>
      intro topic
      by_cases htopic : m.topic_name = topic
      · subst htopic
        rw [view_message_self]
        exact (h m.topic_name).arrive hkeeps _
      · rw [view_message_other c w s htopic]
        exact h topic

theorem bounded_run (results : List ConsumeResult) : Bounded c (State.run c w results) := by
  induction results using List.reverseRecOn with
  | nil =>
      intro topic
      rw [State.run, List.foldl_nil, view_initial c]
      exact Channel.Within.opened hkeeps
  | append_singleton rs r ih =>
      rw [State.run, List.foldl_append]
      exact bounded_run_once hkeeps ih r

theorem bounded_finish {s : State} (h : Bounded c s) (ending : Ending) :
    ∀ topic, ∀ bundle ∈ stashedOf topic (s.finish c w ending).trace,
      (∃ g, Small c bundle g) ∨ ∃ l x g, bundle = l ++ [x] ∧ Small c l g := by
  intro topic
  cases ending with
  | running => exact (h topic).past
  | stashAll => exact (bounded_stash_all hkeeps h topic).past
  | destroyed =>
      have hsame : stashedOf topic (s.destroy c w).trace =
          stashedOf topic (s.stash_all c w).trace := by
        rw [trace_destroy, stashedOf_append]
        exact List.append_nil _
      change ∀ bundle ∈ stashedOf topic (s.destroy c w).trace, _
      rw [hsame]
      exact (bounded_stash_all hkeeps h topic).past

end Steps

/-- A bundle within `limit` messages, whose payload without its last message
stays below `size` bytes. -/
def Fits (limit size : ℤ) (bundle : List MessageWrapper) : Prop :=
  (bundle.length : ℤ) ≤ limit ∧ ∃ l last, bundle = l ++ [last] ∧
    (messagesSize (contents bundle) : ℤ) < size + last.pmessage.len

theorem fits_of_small {bundle : List MessageWrapper} (hne : bundle ≠ [])
    (h : (∃ g, Small c bundle g) ∨ ∃ l x g, bundle = l ++ [x] ∧ Small c l g) :
    Fits c.message_bundle_limit.toInt c.message_bundle_size.toInt bundle := by
  rcases h with ⟨g, hcount, hsum, hg⟩ | ⟨l, x, g, rfl, hcount, hsum, hg⟩
  · refine ⟨by omega, bundle.dropLast, bundle.getLast hne, ?_, by omega⟩
    exact (List.dropLast_concat_getLast hne).symm
  · constructor
    · rw [List.length_append, List.length_singleton]
      omega
    · refine ⟨l, x, rfl, ?_⟩
      rw [messagesSize_concat]
      omega

/-- The buffers stay below the bundle limit and the bundle size, and no image
passes them by more than its last message. -/
theorem bounded_buffering (c : Consume) (w : World) (results : List ConsumeResult)
    (hlimit : 1 ≤ c.message_bundle_limit.toInt) (hsize : 1 ≤ c.message_bundle_size.toInt) :
    (∀ topic,
      (((State.run c w results).buffer topic).length : ℤ) < c.message_bundle_limit.toInt ∧
      (messagesSize (contents ((State.run c w results).buffer topic)) : ℤ) <
        c.message_bundle_size.toInt) ∧
    ∀ ending, ∀ call ∈ putCalls ((State.run c w results).finish c w ending).trace,
      call.payload = image (contents call.bundle) ∧
      (∀ r, call.request = some r → r.body = image (contents call.bundle)) ∧
      Fits c.message_bundle_limit.toInt c.message_bundle_size.toInt call.bundle := by
  have hkeeps := keeps_small hlimit hsize
  have hrun := bounded_run (w := w) hkeeps results
  constructor
  · intro topic
    have hsmall := (hrun topic).now
    exact ⟨hsmall.1, Int.lt_of_le_of_lt hsmall.2.1 hsmall.2.2⟩
  · intro ending call hcall
    have hconsistent := (consistent_run (c := c) (w := w) results).finish ending
    have hstash := (hconsistent.mem_stashes_of_put hcall).1
    have hbundle : call.bundle ∈
        stashedOf call.topic ((State.run c w results).finish c w ending).trace :=
      List.mem_filterMap.mpr ⟨_, hstash, by simp⟩
    have himage := hconsistent.image_of_put hcall
    refine ⟨himage, fun r hr => (PutCall.of_request hr).2.1.trans himage, fits_of_small ?_ ?_⟩
    · exact hconsistent.nonempty _ hstash
    · exact bounded_finish hkeeps hrun ending call.topic call.bundle hbundle

/-- The second message fills the bundle, and the third one waits. -/
def threeMessages : List ConsumeResult :=
  [.message (.plain ['t'] 0 0 1 [7] Message.letter_fits Message.letter_fits),
    .message (.plain ['t'] 0 1 2 [8] Message.letter_fits Message.letter_fits),
    .message (.plain ['t'] 0 2 3 [9] Message.letter_fits Message.letter_fits)]

theorem bounded_buffering_three :
    (putCalls (State.run ⟨some ⟨true, []⟩, 2, 1024⟩ (.constant true) threeMessages).trace).length = 1 ∧
    (State.run ⟨some ⟨true, []⟩, 2, 1024⟩ (.constant true) threeMessages).buffer ['t'] ≠ [] ∧
    (∀ topic,
      (((State.run ⟨some ⟨true, []⟩, 2, 1024⟩ (.constant true) threeMessages).buffer
        topic).length : ℤ) < 2 ∧
      (messagesSize (contents ((State.run ⟨some ⟨true, []⟩, 2, 1024⟩ (.constant true)
        threeMessages).buffer topic)) : ℤ) < 1024) ∧
    ∀ ending, ∀ call ∈ putCalls ((State.run ⟨some ⟨true, []⟩, 2, 1024⟩ (.constant true)
        threeMessages).finish ⟨some ⟨true, []⟩, 2, 1024⟩ (.constant true) ending).trace,
      call.payload = image (contents call.bundle) ∧
      (∀ r, call.request = some r → r.body = image (contents call.bundle)) ∧
      Fits 2 1024 call.bundle :=
  ⟨by decide, by decide, bounded_buffering ⟨some ⟨true, []⟩, 2, 1024⟩ (.constant true) threeMessages
    (by decide) (by decide)⟩

end KafkaK3.BundleBounds
