import KafkaK3.BackupConsumer
import KafkaK3.Batching

/-!
# One topic of the consumer as a batching channel

The consumer shares its two maps between all topics, but what it does for one
topic is a batching channel: the buffer is the open batch, the counter is the
gauge, and the bundles which reach `stash_by_topic` are the batches sent. Every
operation of the consumer is one step of that channel or leaves it alone, so a
whole run is the run of the channel on the messages of the topic and the idle
results.
-/
namespace KafkaK3.TopicChannel
open DecimalText MessageLayout StashImage BackupConsumer Batching

/-- The bundles of one topic, in the order of their stash calls. -/
def stashedOf (topic : Text) (t : List Event) : List (List MessageWrapper) :=
  (stashes t).filterMap fun entry => if entry.1 = topic then some entry.2 else none

@[simp] theorem stashedOf_append (topic : Text) (t u : List Event) :
    stashedOf topic (t ++ u) = stashedOf topic t ++ stashedOf topic u := by
  simp [stashedOf]

theorem stashedOf_eq (topic : Text) (t : List Event) :
    stashedOf topic t = ((stashes t).filter fun entry => entry.1 = topic).map Prod.snd := by
  unfold stashedOf
  induction stashes t with
  | nil => rfl
  | cons entry rest ih =>
      by_cases h : entry.1 = topic
      · simpa [h] using ih
      · simpa [h] using ih

section StateLemmas
variable (c : Consume) (w : World) (s : State) {t u : Text}

theorem buffer_stash : (s.stash c w t).buffer u = if t = u then [] else s.buffer u := by
  simp [State.buffer, State.stash, Std.TreeMap.getD_insert]

@[simp] theorem counter_stash : (s.stash c w t).counter u = s.counter u := rfl

@[simp] theorem trace_stash : (s.stash c w t).trace =
    s.trace ++ stash_by_topic c w (putCalls s.trace).length t (s.buffer t) := rfl

@[simp] theorem buffer_resetSize : (s.resetSize t).buffer u = s.buffer u := rfl

theorem counter_resetSize : (s.resetSize t).counter u = if t = u then 0 else s.counter u := by
  simp [State.counter, State.resetSize, Std.TreeMap.getD_insert]

@[simp] theorem trace_resetSize : (s.resetSize t).trace = s.trace := rfl

/-- The wrapper which takes over the next message. -/
def nextWrapper (s : State) (m : Message) : MessageWrapper := ⟨(received s.trace).length, m⟩

theorem buffer_push (m : Message) :
    (s.push m).buffer u =
      if m.topic_name = u then s.buffer u ++ [nextWrapper s m] else s.buffer u := by
  simp only [State.buffer, State.push, Std.TreeMap.getD_insert, Std.compare_eq_iff_eq]
  split
  next h => simp [h, nextWrapper]
  next => rfl

/-- Creating a missing counter with zero does not show in the sum. -/
theorem counter_push (m : Message) :
    (s.push m).counter u =
      if m.topic_name = u then s.counter u + m.len else s.counter u := by
  have hmissing (k : Text) : (if s.messageSizes.contains m.topic_name = true then s.messageSizes
      else s.messageSizes.insert m.topic_name 0).getD k 0 = s.messageSizes.getD k 0 := by
    split
    · rfl
    next hnot =>
      rw [Std.TreeMap.getD_insert]
      split
      next heq =>
        rw [← Std.compare_eq_iff_eq.mp heq, Std.TreeMap.getD_eq_fallback]
        simpa using hnot
      next => rfl
  simp only [State.counter, State.push, Std.TreeMap.getD_insert, Std.compare_eq_iff_eq, hmissing]
  split
  next h => rw [h]
  next => rfl

@[simp] theorem trace_push (m : Message) :
    (s.push m).trace = s.trace ++ [.received (nextWrapper s m)] := rfl

end StateLemmas

/-- What the bundle limit and the bundle size say about an open bundle. -/
def policy (c : Consume) : Policy Message ℤ where
  start := 0
  add size m := size + m.len
  full ms size := decide (State.bundleLimit c ≤ ms.length ∨ c.message_bundle_size.toInt ≤ size)

/-- The state seen from one topic. -/
def view (topic : Text) (s : State) : Channel MessageWrapper ℤ :=
  ⟨s.buffer topic, s.counter topic, stashedOf topic s.trace⟩

variable (c : Consume) (w : World)

theorem view_initial (topic : Text) : view topic State.initial = Channel.opened
    ((policy c).comap MessageWrapper.pmessage) := rfl

theorem view_stash (s : State) (topic u : Text) :
    view topic (s.stash c w u) = if u = topic then (view topic s).flush else view topic s := by
  by_cases h : u = topic
  · subst h
    simp only [if_true, view, buffer_stash, counter_stash, trace_stash, stashedOf_append]
    cases hb : s.buffer u with
    | nil => simp [Channel.flush, stashedOf, stashes]
    | cons x xs =>
        have hst := stashes_stash_by_topic c w (putCalls s.trace).length u (x :: xs)
        rw [if_neg (by simp)] at hst
        simp [Channel.flush, stashedOf, hst]
  · have hother : stashedOf topic (stash_by_topic c w (putCalls s.trace).length u
        (s.buffer u)) = [] := by
      rw [stashedOf, stashes_stash_by_topic]
      split <;> simp [h]
    simp only [h, if_false, view, buffer_stash, counter_stash, trace_stash, stashedOf_append,
      hother, List.append_nil]

theorem flush_flush {α γ : Type*} (ch : Channel α γ) : ch.flush.flush = ch.flush := by
  cases h : ch.pending <;> simp [Channel.flush, h]

theorem view_foldl_stash (topic : Text) (keys : List Text) (s : State) :
    view topic (keys.foldl (State.stash c w) s) =
      if topic ∈ keys then (view topic s).flush else view topic s := by
  induction keys generalizing s with
  | nil => rfl
  | cons k ks ih =>
      rw [List.foldl_cons, ih, view_stash]
      by_cases hk : k = topic
      · simp [hk, flush_flush]
      · have hk' : topic ≠ k := fun h => hk h.symm
        simp [hk, hk']

/-- A topic without a key has an empty buffer, so a stash of all keys flushes
every topic. -/
theorem view_stash_all (s : State) (topic : Text) :
    view topic (s.stash_all c w) = (view topic s).flush := by
  have hmissing (h : topic ∉ s.messages) : (view topic s).flush = view topic s := by
    have hempty : s.buffer topic = [] := Std.TreeMap.getD_eq_fallback h
    simp [view, Channel.flush, hempty]
  unfold State.stash_all
  split
  next hsize =>
    have hnone : topic ∉ s.messages := by
      intro hmem
      have hpos := List.length_pos_of_mem (Std.TreeMap.mem_keys.mpr hmem)
      rw [Std.TreeMap.length_keys] at hpos
      omega
    exact (hmissing hnone).symm
  next =>
    rw [view_foldl_stash]
    split
    · rfl
    next hkeys => exact (hmissing (fun h => hkeys (Std.TreeMap.mem_keys.mpr h))).symm

theorem view_push (s : State) (topic : Text) (m : Message) :
    view topic (s.push m) =
      if m.topic_name = topic then
        ⟨(view topic s).pending ++ [nextWrapper s m], (view topic s).gauge + m.len,
          (view topic s).sent⟩
      else view topic s := by
  have htrace : stashedOf topic [.received (nextWrapper s m)] = [] := rfl
  simp only [view, buffer_push, counter_push, trace_push, stashedOf_append, htrace,
    List.append_nil]
  split <;> rfl

theorem view_resetSize (s : State) (topic u : Text) :
    view topic (s.resetSize u) =
      if u = topic then { view topic s with gauge := 0 } else view topic s := by
  simp only [view, buffer_resetSize, counter_resetSize, trace_resetSize]
  split <;> rfl

/-- Both flush conditions of `run_once` lead to the same stash and reset. -/
theorem run_once_message (s : State) (m : Message) :
    s.run_once c w (.message m) =
      if (policy c).full (contents ((s.push m).buffer m.topic_name))
          ((s.push m).counter m.topic_name) = true then
        ((s.push m).stash c w m.topic_name).resetSize m.topic_name
      else s.push m := by
  simp only [State.run_once, policy, List.length_map, decide_eq_true_eq]
  by_cases hcount : State.bundleLimit c ≤ ((s.push m).buffer m.topic_name).length
  · simp [hcount]
  · simp [hcount]

theorem view_message_self (s : State) (m : Message) :
    view m.topic_name (s.run_once c w (.message m)) =
      (view m.topic_name s).arrive ((policy c).comap MessageWrapper.pmessage)
        (nextWrapper s m) := by
  have hpush := view_push s m.topic_name m
  rw [if_pos rfl] at hpush
  have harrive : (view m.topic_name s).arrive ((policy c).comap MessageWrapper.pmessage)
      (nextWrapper s m) =
        if (policy c).full (contents ((s.push m).buffer m.topic_name))
            ((s.push m).counter m.topic_name) = true then
          { (view m.topic_name (s.push m)).flush with gauge := 0 }
        else view m.topic_name (s.push m) := by
    have hbuffer : (s.push m).buffer m.topic_name =
        (view m.topic_name s).pending ++ [nextWrapper s m] := congrArg Channel.pending hpush
    have hcounter : (s.push m).counter m.topic_name = (view m.topic_name s).gauge + m.len :=
      congrArg Channel.gauge hpush
    rw [hbuffer, hcounter, hpush]
    rfl
  rw [harrive, run_once_message]
  split
  · rw [view_resetSize, if_pos rfl, view_stash, if_pos rfl]
  · rfl

theorem view_message_other {topic : Text} (s : State) {m : Message} (h : m.topic_name ≠ topic) :
    view topic (s.run_once c w (.message m)) = view topic s := by
  have hpush := view_push s topic m
  rw [if_neg h] at hpush
  rw [run_once_message]
  split
  · rw [view_resetSize, if_neg h, view_stash, if_neg h, hpush]
  · exact hpush

theorem view_error (s : State) (topic : Text) (e : ErrorCode) :
    view topic (s.run_once c w (.error e)) = (view topic s).flush :=
  view_stash_all c w s topic

/-- What a result of `consume` means to one topic. -/
def signal (topic : Text) : ConsumeResult → Option (Signal Message)
  | .null => none
  | .message m => if m.topic_name = topic then some (.arrive m) else none
  | .error _ => some .flush

/-- The topic's channel, with the messages for their wrappers. -/
def messageView (topic : Text) (s : State) : Channel Message ℤ :=
  (view topic s).map MessageWrapper.pmessage

theorem messageView_run_once (s : State) (topic : Text) (r : ConsumeResult) :
    messageView topic (s.run_once c w r) =
      (signal topic r).elim (messageView topic s) ((messageView topic s).react (policy c)) := by
  cases r with
  | null => rfl
  | error e =>
      rw [messageView, view_error, Channel.map_flush]
      rfl
  | message m =>
      by_cases h : m.topic_name = topic
      · subst h
        rw [messageView, view_message_self, Channel.map_arrive]
        simp [signal, messageView, Channel.react, nextWrapper]
      · rw [messageView, view_message_other c w s h]
        simp [signal, h, messageView]

/-- A run of the consumer is, for every topic, a run of its channel. -/
theorem run_refines (results : List ConsumeResult) (topic : Text) :
    messageView topic (State.run c w results) =
      Batching.run (policy c) (results.filterMap (signal topic)) := by
  have hfold : ∀ (rs : List ConsumeResult) (s : State),
      messageView topic (rs.foldl (State.run_once c w) s) =
        (rs.filterMap (signal topic)).foldl (Channel.react (policy c)) (messageView topic s) := by
    intro rs
    induction rs with
    | nil => intro s; rfl
    | cons r rs ih =>
        intro s
        rw [List.foldl_cons, ih, messageView_run_once, List.filterMap_cons]
        cases signal topic r <;> rfl
  exact hfold results State.initial

end KafkaK3.TopicChannel
