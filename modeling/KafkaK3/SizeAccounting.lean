import KafkaK3.ConsumerInvariants
import Mathlib.Data.List.Induction

/-!
# The size counters

The message path resets the counter of a topic whenever it stashes the topic's
bundle; `stash_all` empties every bundle and resets nothing. The counters
therefore measure the buffers exactly as long as the bundles which a timeout or
an error sends off carry no payload.
-/
namespace KafkaK3.SizeAccounting
open DecimalText MessageLayout StashImage BackupConsumer Batching TopicChannel ConsumerInvariants

variable {c : Consume} {w : World}

/-- Every counter is the sum of the payload lengths in its buffer. -/
def Accounted (s : State) : Prop :=
  ∀ topic, s.counter topic = messagesSize (contents (s.buffer topic))

/-- Every stash which a message sets off has reached one of the two bounds. -/
def FlushesJustified (c : Consume) (w : World) (results : List ConsumeResult) : Prop :=
  ∀ pre m bundle, pre ++ [.message m] <+: results →
    stashes (State.run c w (pre ++ [.message m])).trace =
      stashes (State.run c w pre).trace ++ [(m.topic_name, bundle)] →
    State.bundleLimit c ≤ bundle.length ∨
      c.message_bundle_size.toInt ≤ messagesSize (contents bundle)

theorem run_concat (pre : List ConsumeResult) (r : ConsumeResult) :
    State.run c w (pre ++ [r]) = (State.run c w pre).run_once c w r := by
  simp [State.run]

theorem accounted_push {s : State} (h : Accounted s) (m : Message) : Accounted (s.push m) := by
  intro topic
  rw [counter_push, buffer_push]
  split
  · rw [h topic]
    simp [nextWrapper]
  · exact h topic

/-- The message path keeps the accounts: it resets what it empties. -/
theorem accounted_message {s : State} (h : Accounted s) (m : Message) :
    Accounted (s.run_once c w (.message m)) := by
  have hpush := accounted_push h m
  rw [run_once_message]
  split
  · intro topic
    rw [counter_resetSize, buffer_resetSize, counter_stash, buffer_stash]
    split
    · rfl
    · exact hpush topic
  · exact hpush

/-- A stash of everything keeps them only where nothing is measured. -/
theorem accounted_error {s : State} (h : Accounted s) (e : ErrorCode) :
    Accounted (s.run_once c w (.error e)) ↔
      ∀ topic, messagesSize (contents (s.buffer topic)) = 0 := by
  have hcounter (topic : Text) : (s.run_once c w (.error e)).counter topic = s.counter topic :=
    (congrArg Channel.gauge (view_error c w s topic e)).trans (Channel.flush_gauge _)
  have hbuffer (topic : Text) : (s.run_once c w (.error e)).buffer topic = [] :=
    buffer_stash_all c w s topic
  unfold Accounted
  refine forall_congr' fun topic => ?_
  rw [hcounter, hbuffer, h topic]
  exact Int.natCast_eq_zero

theorem accounted_run_iff (results : List ConsumeResult) :
    (∀ rs, rs <+: results → Accounted (State.run c w rs)) ↔
      ∀ pre e, pre ++ [.error e] <+: results →
        ∀ topic, messagesSize (contents ((State.run c w pre).buffer topic)) = 0 := by
  constructor
  · intro h pre e hpre
    have hbefore := h pre ((List.prefix_append ..).trans hpre)
    have hafter := h _ hpre
    rw [run_concat] at hafter
    exact (accounted_error hbefore e).mp hafter
  · intro h rs
    induction rs using List.reverseRecOn with
    | nil => exact fun _ topic => rfl
    | append_singleton pre r ih =>
        intro hrs
        have hbefore := ih ((List.prefix_append ..).trans hrs)
        rw [run_concat]
        cases r with
        | null => exact hbefore
        | message m => exact accounted_message hbefore m
        | error e => exact (accounted_error hbefore e).mpr (h pre e hrs)

/-- With the right counter at hand the message path stashes at a bound only. -/
theorem flush_justified {s : State} (h : Accounted s) {m : Message}
    {bundle : List MessageWrapper}
    (hflush : stashes (s.run_once c w (.message m)).trace =
      stashes s.trace ++ [(m.topic_name, bundle)]) :
    State.bundleLimit c ≤ bundle.length ∨
      c.message_bundle_size.toInt ≤ messagesSize (contents bundle) := by
  have hpush := accounted_push h m
  have hquiet : stashes (s.push m).trace = stashes s.trace := by
    rw [trace_push, stashes_append]
    exact List.append_nil _
  rw [run_once_message] at hflush
  split at hflush
  next hfull =>
    rw [trace_resetSize, trace_stash, stashes_append, stashes_stash_by_topic, hquiet] at hflush
    have hbundle : (s.push m).buffer m.topic_name = bundle := by
      have hlast := List.append_cancel_left hflush
      split at hlast
      · cases hlast
      · exact congrArg Prod.snd (List.singleton_inj.mp hlast)
    rw [hpush, hbundle] at hfull
    simpa [policy] using hfull
  next =>
    rw [hquiet] at hflush
    simp at hflush

/-- The counters are right throughout a run, and justify its flushes, exactly when
every timeout and error finds the buffers without payload. -/
theorem size_accounting_iff (c : Consume) (w : World) (results : List ConsumeResult) :
    ((∀ rs, rs <+: results → Accounted (State.run c w rs)) ∧ FlushesJustified c w results) ↔
      ∀ pre e, pre ++ [.error e] <+: results →
        ∀ topic, messagesSize (contents ((State.run c w pre).buffer topic)) = 0 := by
  rw [← accounted_run_iff]
  constructor
  · exact fun h => h.1
  · intro h
    refine ⟨h, fun pre m bundle hpre hflush => ?_⟩
    rw [run_concat] at hflush
    exact flush_justified (h pre ((List.prefix_append ..).trans hpre)) hflush

/-- After a timeout the counter still shows the message which was sent off. -/
theorem counter_stale_after_timeout :
    ¬ Accounted (State.run ⟨some ⟨true, []⟩, 10, 1024⟩ (World.constant true)
      [.message (.plain ['t'] 0 0 1 [7]), .error .timedOut]) := by
  intro h
  have hcounter := h ['t']
  revert hcounter
  decide

end KafkaK3.SizeAccounting
