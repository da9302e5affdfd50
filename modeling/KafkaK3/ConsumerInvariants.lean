import KafkaK3.TopicChannel
import Mathlib.Data.List.Induction
import Mathlib.Data.List.Nodup
import Mathlib.Data.List.Pairwise

/-!
# Invariants of the consumer's runs

`run_once`, `stash_all` and the end of a run are put together from three
operations: a push, a stash of one topic and a reset of one counter. What these
three preserve holds in every state reached. `Consistent` is the invariant which
ties the trace to the buffers: what was received is what was stashed or still
waits, what was stashed is committed in the same order, and the PUTs are those
of the stash calls which had a client and a payload.
-/
namespace KafkaK3.ConsumerInvariants
open DecimalText MessageLayout StashImage BackupConsumer Batching TopicChannel

variable {c : Consume} {w : World} {I : State → Prop}

/-- The three operations keep `I`. -/
structure Preserved (c : Consume) (w : World) (I : State → Prop) : Prop where
  push : ∀ s m, I s → I (s.push m)
  stash : ∀ s topic, I s → I (s.stash c w topic)
  resetSize : ∀ s topic, I s → I (s.resetSize topic)

namespace Preserved

theorem foldl_stash (h : Preserved c w I) (keys : List Text) {s : State} (hs : I s) :
    I (keys.foldl (State.stash c w) s) := by
  induction keys generalizing s with
  | nil => exact hs
  | cons k ks ih => exact ih (h.stash s k hs)

theorem stash_all (h : Preserved c w I) {s : State} (hs : I s) : I (s.stash_all c w) := by
  unfold State.stash_all
  split
  · exact hs
  · exact h.foldl_stash _ hs

theorem run_once (h : Preserved c w I) {s : State} (hs : I s) (r : ConsumeResult) :
    I (s.run_once c w r) := by
  cases r with
  | null => exact hs
  | error e => exact h.stash_all hs
  | message m =>
      rw [run_once_message]
      split
      · exact h.resetSize _ _ (h.stash _ _ (h.push s m hs))
      · exact h.push s m hs

theorem run (h : Preserved c w I) (h0 : I State.initial) (results : List ConsumeResult) :
    I (State.run c w results) := by
  unfold State.run
  generalize State.initial = s at h0
  induction results generalizing s with
  | nil => exact h0
  | cons r rs ih => exact ih _ (h.run_once h0 r)

end Preserved

/-- The messages of one topic in the order in which they were consumed. -/
def receivedOf (topic : Text) (t : List Event) : List MessageWrapper :=
  (received t).filter fun x => x.pmessage.topic_name = topic

def committedOf (topic : Text) (t : List Event) : List MessageWrapper :=
  (committed t).filter fun x => x.pmessage.topic_name = topic

@[simp] theorem receivedOf_append (topic : Text) (t u : List Event) :
    receivedOf topic (t ++ u) = receivedOf topic t ++ receivedOf topic u := by
  simp [receivedOf]

@[simp] theorem committedOf_append (topic : Text) (t u : List Event) :
    committedOf topic (t ++ u) = committedOf topic t ++ committedOf topic u := by
  simp [committedOf]

/-- Messages of one topic are all kept, or all dropped. -/
theorem filter_topic {topic u : Text} {messages : List MessageWrapper}
    (hown : ∀ x ∈ messages, x.pmessage.topic_name = topic) :
    messages.filter (fun x => x.pmessage.topic_name = u) = if topic = u then messages else [] := by
  split
  next h =>
    rw [List.filter_eq_self]
    intro x hx
    simpa using (hown x hx).trans h
  next h =>
    rw [List.filter_eq_nil_iff]
    intro x hx hxu
    exact h ((hown x hx).symm.trans (by simpa using hxu))

/-- The stash calls which make a PUT. -/
def stored (c : Consume) (entries : List (Text × List MessageWrapper)) :
    List (Text × List MessageWrapper) :=
  entries.filter fun entry => c.ps3.isSome ∧ 0 < messagesSize (contents entry.2)

structure Consistent (c : Consume) (w : World) (s : State) : Prop where
  content : ∀ topic, receivedOf topic s.trace = (view topic s).content
  commits : committed s.trace = (stashes s.trace).flatMap Prod.snd
  serials : (received s.trace).map MessageWrapper.serial = List.range (received s.trace).length
  nonempty : ∀ entry ∈ stashes s.trace, entry.2 ≠ []
  puts : (putCalls s.trace).map (fun call => (call.topic, call.bundle)) =
    stored c (stashes s.trace)
  built : ∀ n call, (putCalls s.trace)[n]? = some call →
    ∃ s3, c.ps3 = some s3 ∧ call = putBundle w s3 n call.topic call.bundle

theorem consistent_initial : Consistent c w State.initial where
  content _ := rfl
  commits := rfl
  serials := rfl
  nonempty := by simp [State.initial, stashes]
  puts := rfl
  built := by simp [State.initial, putCalls]

theorem Consistent.push {s : State} (h : Consistent c w s) (m : Message) :
    Consistent c w (s.push m) where
  content topic := by
    rw [trace_push, receivedOf_append, h.content, view_push]
    by_cases htopic : m.topic_name = topic
    · simp [receivedOf, received, nextWrapper, htopic, Channel.content]
    · simp [receivedOf, received, nextWrapper, htopic]
  commits := by
    rw [trace_push, committed_append, stashes_append, h.commits]
    simp [committed, stashes]
  serials := by
    have hone : received [.received (nextWrapper s m)] = [nextWrapper s m] := rfl
    rw [trace_push, received_append, hone, List.map_append, h.serials, List.length_append,
      List.length_singleton, List.range_succ]
    rfl
  nonempty := by
    rw [trace_push, stashes_append]
    simpa [stashes] using h.nonempty
  puts := by
    rw [trace_push, putCalls_append, stashes_append]
    simpa [putCalls, stashes] using h.puts
  built := by
    rw [trace_push, putCalls_append]
    simpa [putCalls] using h.built

theorem Consistent.resetSize {s : State} (h : Consistent c w s) (topic : Text) :
    Consistent c w (s.resetSize topic) where
  content u := by
    rw [trace_resetSize, h.content, view_resetSize]
    split <;> rfl
  commits := h.commits
  serials := h.serials
  nonempty := h.nonempty
  puts := h.puts
  built := h.built

/-- The new stash entry and the new PUT agree. -/
theorem puts_stash_by_topic (n : ℕ) (topic : Text) (messages : List MessageWrapper) :
    (putCalls (stash_by_topic c w n topic messages)).map
        (fun call => (call.topic, call.bundle)) =
      stored c (stashes (stash_by_topic c w n topic messages)) := by
  rw [stashes_stash_by_topic, putCalls_stash_by_topic]
  by_cases hne : messages = []
  · rw [hne]
    rfl
  · rw [if_neg hne]
    by_cases hsize : 0 < messagesSize (contents messages)
    · cases hs3 : c.ps3 <;> simp [stored, hsize, hs3, putBundle]
    · simp [stored, hsize]

theorem receivedOf_stash_by_topic (n : ℕ) (topic u : Text) (messages : List MessageWrapper) :
    receivedOf u (stash_by_topic c w n topic messages) = [] := by
  rw [receivedOf, received_stash_by_topic]
  rfl

theorem nonempty_stash_by_topic (n : ℕ) (topic : Text) (messages : List MessageWrapper) :
    ∀ entry ∈ stashes (stash_by_topic c w n topic messages), entry.2 ≠ [] := by
  rw [stashes_stash_by_topic]
  intro entry hentry
  split at hentry
  next => cases hentry
  next hb =>
    rw [List.mem_singleton.mp hentry]
    exact hb

/-- A stash call makes one PUT at most, and that of its whole bundle. -/
theorem put_of_stash_by_topic {n k : ℕ} {topic : Text} {messages : List MessageWrapper}
    {call : PutCall} (h : (putCalls (stash_by_topic c w n topic messages))[k]? = some call) :
    k = 0 ∧ ∃ s3, c.ps3 = some s3 ∧ call = putBundle w s3 n topic messages := by
  rw [putCalls_stash_by_topic] at h
  split at h
  next =>
    cases hs3 : c.ps3 with
    | none =>
        rw [hs3] at h
        cases h
    | some s3 =>
        rw [hs3, Option.toList_some, List.map_singleton, List.getElem?_singleton] at h
        split at h
        next hk => exact ⟨hk, s3, rfl, (Option.some.inj h).symm⟩
        next => cases h
  next => cases h

theorem Consistent.stash {s : State} (h : Consistent c w s) (topic : Text) :
    Consistent c w (s.stash c w topic) where
  content u := by
    rw [trace_stash, receivedOf_append, h.content, view_stash, receivedOf_stash_by_topic,
      List.append_nil]
    split
    · rw [Channel.flush_content]
    · rfl
  commits := by
    rw [trace_stash, committed_append, stashes_append, h.commits, committed_stash_by_topic,
      stashes_stash_by_topic]
    split
    next hb => simp [hb]
    next => simp
  serials := by
    rw [trace_stash, received_append, received_stash_by_topic, List.append_nil]
    exact h.serials
  nonempty := by
    rw [trace_stash, stashes_append]
    intro entry hentry
    rcases List.mem_append.mp hentry with hentry | hentry
    · exact h.nonempty entry hentry
    · exact nonempty_stash_by_topic _ _ _ entry hentry
  puts := by
    rw [trace_stash, putCalls_append, stashes_append, List.map_append, h.puts, puts_stash_by_topic,
      stored, stored, stored, List.filter_append]
  built := by
    rw [trace_stash, putCalls_append]
    intro n call hcall
    by_cases hn : n < (putCalls s.trace).length
    · rw [List.getElem?_append_left hn] at hcall
      exact h.built n call hcall
    · have hle := Nat.le_of_not_lt hn
      rw [List.getElem?_append_right hle] at hcall
      obtain ⟨hfirst, s3, hs3, rfl⟩ := put_of_stash_by_topic hcall
      obtain rfl : n = (putCalls s.trace).length := by omega
      exact ⟨s3, hs3, rfl⟩

theorem consistent_preserved : Preserved c w (Consistent c w) where
  push _ m h := h.push m
  stash _ topic h := h.stash topic
  resetSize _ topic h := h.resetSize topic

theorem consistent_run (results : List ConsumeResult) :
    Consistent c w (State.run c w results) :=
  consistent_preserved.run consistent_initial results

section Traces

/-- Traces only grow. -/
theorem prefix_preserved (t : List Event) : Preserved c w fun s => t <+: s.trace where
  push s m h := by
    rw [trace_push]
    exact h.trans (List.prefix_append ..)
  stash s topic h := by
    rw [trace_stash]
    exact h.trans (List.prefix_append ..)
  resetSize _ _ h := h

theorem trace_run_mono {rs results : List ConsumeResult} (h : rs <+: results) :
    (State.run c w rs).trace <+: (State.run c w results).trace := by
  obtain ⟨rest, rfl⟩ := h
  have hgrow (rs : List ConsumeResult) : ∀ (s : State) (t : List Event), t <+: s.trace →
      t <+: (rs.foldl (State.run_once c w) s).trace := by
    induction rs with
    | nil => exact fun _ _ ht => ht
    | cons r rs ih => exact fun s t ht => ih _ t ((prefix_preserved t).run_once ht r)
  rw [State.run, State.run, List.foldl_append]
  exact hgrow rest _ _ List.prefix_rfl

end Traces

section EndOfRun
variable (c w)

theorem buffer_stash_all (s : State) (topic : Text) : (s.stash_all c w).buffer topic = [] := by
  have h := congrArg Channel.pending (view_stash_all c w s topic)
  rw [Channel.flush_pending] at h
  exact h

/-- The destructor's stash leaves no wrapper behind for the members to release. -/
theorem trace_destroy (s : State) :
    (s.destroy c w).trace = (s.stash_all c w).trace ++ [.close] := by
  have hleft : ((s.stash_all c w).messages.toList.flatMap fun entry =>
      entry.2.map Event.commitAsync) = [] := by
    rw [List.flatMap_eq_nil_iff]
    intro ⟨topic, messages⟩ hentry
    have hget := Std.TreeMap.mem_toList_iff_getElem?_eq_some.mp hentry
    have hbuffer := buffer_stash_all c w s topic
    rw [State.buffer, Std.TreeMap.getD_eq_getD_getElem?, hget] at hbuffer
    rw [show messages = [] from hbuffer]
    rfl
  change (s.stash_all c w).trace ++ .close :: _ = _
  rw [hleft]

theorem trace_prefix_destroy (s : State) : s.trace <+: (s.destroy c w).trace := by
  rw [trace_destroy]
  exact ((prefix_preserved s.trace).stash_all List.prefix_rfl).trans (List.prefix_append ..)

end EndOfRun

section Delivery
variable (c : Consume) (w : World)

theorem received_foldl_stash (keys : List Text) (s : State) :
    received (keys.foldl (State.stash c w) s).trace = received s.trace := by
  induction keys generalizing s with
  | nil => rfl
  | cons k ks ih =>
      rw [List.foldl_cons, ih, trace_stash, received_append, received_stash_by_topic,
        List.append_nil]

theorem received_stash_all (s : State) : received (s.stash_all c w).trace = received s.trace := by
  unfold State.stash_all
  split
  · rfl
  · exact received_foldl_stash c w _ s

theorem received_run_once (s : State) (r : ConsumeResult) :
    contents (received (s.run_once c w r).trace) =
      contents (received s.trace) ++ delivered [r] := by
  cases r with
  | null => exact (List.append_nil _).symm
  | error e =>
      rw [State.run_once, received_stash_all]
      exact (List.append_nil _).symm
  | message m =>
      have hpush : contents (received (s.push m).trace) =
          contents (received s.trace) ++ [m] := by
        rw [trace_push, received_append, contents, List.map_append]
        rfl
      rw [run_once_message]
      split
      · rw [trace_resetSize, trace_stash, received_append, received_stash_by_topic,
          List.append_nil]
        exact hpush
      · exact hpush

/-- A run takes over exactly the messages which it was given. -/
theorem received_run (results : List ConsumeResult) :
    contents (received (State.run c w results).trace) = delivered results := by
  induction results using List.reverseRecOn with
  | nil => rfl
  | append_singleton rs r ih =>
      have hlast : State.run c w (rs ++ [r]) = (State.run c w rs).run_once c w r :=
        List.foldl_concat _ _ _ _
      rw [hlast, received_run_once, ih, delivered, delivered, delivered, List.filterMap_append]

/-- The closing of a consumer takes over none. -/
theorem received_destroy (s : State) : received (s.destroy c w).trace = received s.trace := by
  rw [trace_destroy, received_append, received_stash_all]
  exact List.append_nil _

theorem received_finish (s : State) (ending : Ending) :
    received (s.finish c w ending).trace = received s.trace := by
  cases ending with
  | running => rfl
  | stashAll => exact received_stash_all c w s
  | destroyed => exact received_destroy c w s

end Delivery

theorem Consistent.destroy {s : State} (h : Consistent c w s) : Consistent c w (s.destroy c w) := by
  have hall := consistent_preserved.stash_all h
  have htrace := trace_destroy c w s
  constructor
  · intro topic
    have hview : (view topic (s.destroy c w)).content = (view topic (s.stash_all c w)).content := by
      have hpending : (view topic (s.stash_all c w)).pending = [] := buffer_stash_all c w s topic
      have hgone : (view topic (s.destroy c w)).pending = [] := rfl
      have hsent : (view topic (s.destroy c w)).sent = (view topic (s.stash_all c w)).sent := by
        change stashedOf topic (s.destroy c w).trace = stashedOf topic (s.stash_all c w).trace
        rw [htrace, stashedOf_append]
        exact List.append_nil _
      rw [Channel.content, Channel.content, hpending, hgone, hsent]
    rw [hview, ← hall.content, htrace, receivedOf_append]
    exact List.append_nil _
  · rw [htrace, committed_append, stashes_append, hall.commits]
    simp [committed, stashes]
  · rw [htrace, received_append]
    simpa [received] using hall.serials
  · rw [htrace, stashes_append]
    simpa [stashes] using hall.nonempty
  · rw [htrace, putCalls_append, stashes_append]
    simpa [putCalls, stashes] using hall.puts
  · rw [htrace, putCalls_append]
    simpa [putCalls] using hall.built

theorem Consistent.finish {s : State} (h : Consistent c w s) (e : Ending) :
    Consistent c w (s.finish c w e) := by
  cases e with
  | running => exact h
  | stashAll => exact consistent_preserved.stash_all h
  | destroyed => exact h.destroy

namespace Consistent

variable {s : State} (h : Consistent c w s)
include h

theorem topic_of_mem {topic : Text} {x : MessageWrapper} (hx : x ∈ (view topic s).content) :
    x.pmessage.topic_name = topic := by
  rw [← h.content] at hx
  simpa using (List.mem_filter.mp hx).2

theorem topic_of_buffer {topic : Text} {x : MessageWrapper} (hx : x ∈ s.buffer topic) :
    x.pmessage.topic_name = topic :=
  h.topic_of_mem (List.mem_append_right _ hx)

/-- Messages are stashed under their own topic. -/
theorem topic_of_stash {entry : Text × List MessageWrapper} (hentry : entry ∈ stashes s.trace)
    {x : MessageWrapper} (hx : x ∈ entry.2) : x.pmessage.topic_name = entry.1 := by
  apply h.topic_of_mem
  have hsent : entry.2 ∈ (view entry.1 s).sent :=
    List.mem_filterMap.mpr ⟨entry, hentry, by simp⟩
  exact List.mem_append_left _ (List.mem_flatten.mpr ⟨entry.2, hsent, hx⟩)

theorem committedOf_eq (topic : Text) :
    committedOf topic s.trace = (view topic s).sent.flatten := by
  have hentries (entries : List (Text × List MessageWrapper))
      (hown : ∀ entry ∈ entries, ∀ x ∈ entry.2, x.pmessage.topic_name = entry.1) :
      (entries.flatMap Prod.snd).filter (fun x => x.pmessage.topic_name = topic) =
        (entries.filterMap fun entry => if entry.1 = topic then some entry.2 else none).flatten := by
    induction entries with
    | nil => rfl
    | cons entry rest ih =>
        have hrest := ih fun e he => hown e (List.mem_cons_of_mem _ he)
        have hhead := filter_topic (u := topic) (hown entry List.mem_cons_self)
        rw [List.flatMap_cons, List.filter_append, hhead, hrest, List.filterMap_cons]
        by_cases htopic : entry.1 = topic
        · simp [htopic]
        · simp [htopic]
  rw [committedOf, h.commits]
  exact hentries _ fun entry hentry x hx => h.topic_of_stash hentry hx

/-- What was consumed for a topic is what was committed, then what is buffered. -/
theorem receivedOf_eq (topic : Text) :
    receivedOf topic s.trace = committedOf topic s.trace ++ s.buffer topic := by
  rw [h.content, h.committedOf_eq]
  rfl

theorem received_nodup : (received s.trace).Nodup := by
  apply List.Nodup.of_map MessageWrapper.serial
  rw [h.serials]
  exact List.nodup_range

/-- No message is committed twice. -/
theorem committed_nodup : (committed s.trace).Nodup := by
  rw [List.nodup_iff_count_le_one]
  intro x
  have hown (l : List MessageWrapper) :
      (l.filter fun y => y.pmessage.topic_name = x.pmessage.topic_name).count x = l.count x :=
    List.count_filter (by simp)
  have hsplit := congrArg (List.count x) (h.receivedOf_eq x.pmessage.topic_name)
  have honce := List.nodup_iff_count_le_one.mp h.received_nodup x
  rw [List.count_append, receivedOf, committedOf, hown, hown] at hsplit
  omega

/-- A message lies in one bundle only. -/
theorem stashes_disjoint :
    (stashes s.trace).Pairwise fun e f => List.Disjoint e.2 f.2 := by
  have hnodup := h.committed_nodup
  rw [h.commits, List.nodup_flatMap] at hnodup
  exact hnodup.2

theorem stash_unique {e f : Text × List MessageWrapper} (he : e ∈ stashes s.trace)
    (hf : f ∈ stashes s.trace) {x : MessageWrapper} (hxe : x ∈ e.2) (hxf : x ∈ f.2) : e = f := by
  have hsymm : Std.Symm fun e f : Text × List MessageWrapper => List.Disjoint e.2 f.2 :=
    ⟨fun _ _ hd => List.disjoint_symm hd⟩
  by_contra hne
  exact h.stashes_disjoint.forall he hf hne hxe hxf

theorem mem_stashes_of_put {call : PutCall} (hcall : call ∈ putCalls s.trace) :
    (call.topic, call.bundle) ∈ stashes s.trace ∧ c.ps3.isSome ∧
      0 < messagesSize (contents call.bundle) := by
  have hmem : (call.topic, call.bundle) ∈ stored c (stashes s.trace) := by
    rw [← h.puts]
    exact List.mem_map.mpr ⟨call, hcall, rfl⟩
  obtain ⟨hstash, hcond⟩ := List.mem_filter.mp hmem
  exact ⟨hstash, by simpa using hcond⟩

theorem built_of_put {call : PutCall} (hcall : call ∈ putCalls s.trace) :
    ∃ s3 n, c.ps3 = some s3 ∧ call = putBundle w s3 n call.topic call.bundle := by
  obtain ⟨n, hn⟩ := List.mem_iff_getElem?.mp hcall
  obtain ⟨s3, hs3, hbuilt⟩ := h.built n call hn
  exact ⟨s3, n, hs3, hbuilt⟩

/-- A PUT carries the image of its bundle. -/
theorem image_of_put {call : PutCall} (hcall : call ∈ putCalls s.trace) :
    call.payload = image (contents call.bundle) := by
  obtain ⟨s3, n, -, hbuilt⟩ := h.built_of_put hcall
  rw [hbuilt]
  rfl

/-- One which was taken has sent it, under a key of its topic. -/
theorem sent_of_put {call : PutCall} (hcall : call ∈ putCalls s.trace) (hrval : call.rval = true) :
    call.Sent := by
  obtain ⟨s3, n, -, hbuilt⟩ := h.built_of_put hcall
  rw [hbuilt] at hrval ⊢
  exact sent_putBundle hrval

theorem takenUnder_of_put {call : PutCall} (hcall : call ∈ putCalls s.trace)
    (hrval : call.rval = true) (topic : Text) :
    call.takenUnder topic = decide (call.topic = topic) := by
  obtain ⟨s3, n, -, hbuilt⟩ := h.built_of_put hcall
  rw [hbuilt] at hrval ⊢
  exact takenUnder_putBundle hrval

/-- Two PUTs with a message in common are one PUT. -/
theorem put_unique {m n : ℕ} {a b : PutCall} (ha : (putCalls s.trace)[m]? = some a)
    (hb : (putCalls s.trace)[n]? = some b) {x : MessageWrapper} (hxa : x ∈ a.bundle)
    (hxb : x ∈ b.bundle) : m = n := by
  have hsub : ((putCalls s.trace).map fun call => (call.topic, call.bundle)).Sublist
      (stashes s.trace) := by
    rw [h.puts]
    exact List.filter_sublist
  have hpair : (putCalls s.trace).Pairwise fun p q => List.Disjoint p.bundle q.bundle := by
    have hmap := h.stashes_disjoint.sublist hsub
    rwa [List.pairwise_map] at hmap
  rw [List.pairwise_iff_getElem] at hpair
  obtain ⟨hm, rfl⟩ := List.getElem?_eq_some_iff.mp ha
  obtain ⟨hn, rfl⟩ := List.getElem?_eq_some_iff.mp hb
  rcases Nat.lt_trichotomy m n with hlt | heq | hgt
  · exact absurd hxb (hpair m n hm hn hlt hxa)
  · exact heq
  · exact absurd hxa (hpair n m hn hm hgt hxb)

end Consistent

end KafkaK3.ConsumerInvariants
