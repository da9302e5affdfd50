import KafkaK3.CommitOrder
import Mathlib.Data.List.Flatten

/-!
# What S3 holds of a topic

With a healthy S3 the PUT images of a topic and its buffer together are the
consumed sequence of the topic, unless a bundle without any payload byte was
stashed: such a bundle is released without a PUT. The messages of one image are
those of the bundle from which it was built.
-/
namespace KafkaK3.Conservation
open DecimalText MessageLayout StashImage BackupConsumer Batching TopicChannel ConsumerInvariants
open CommitOrder

variable {c : Consume} {w : World}

/-- The messages in the images which S3 has taken under keys of one topic, in the order
of the PUTs. -/
def uploadedOf (topic : Text) (t : List Event) : List MessageWrapper :=
  ((putCalls t).filter fun call => call.takenUnder topic).flatMap PutCall.bundle

/-- The images and the buffers hold the messages among the answers so far. -/
structure Conserved (results : List ConsumeResult) (s : State) : Prop where
  images : ∀ call ∈ putCalls s.trace, call.Sent
  whole : ∀ topic, contents (uploadedOf topic s.trace) ++ contents (s.buffer topic) =
    (delivered results).filter fun m => m.topic_name = topic

/-- Between two calls, and through the destructor, which empties the buffers. -/
structure ConservedThroughout (c : Consume) (w : World) (results : List ConsumeResult) : Prop where
  running : ∀ rs, rs <+: results → Conserved rs (State.run c w rs)
  closing : Conserved results ((State.run c w results).destroy c w)
  emptied : ∀ topic, ((State.run c w results).stash_all c w).buffer topic = []

section Uploads
variable {s : State} (hs : Consistent c w s) (hput : ∀ call ∈ putCalls s.trace, call.rval = true)
include hs hput

/-- With a healthy S3 it holds the stashed bundles which have a payload. -/
theorem uploadedOf_eq (topic : Text) : uploadedOf topic s.trace =
    ((stored c (stashes s.trace)).filter fun entry => entry.1 = topic).flatMap Prod.snd := by
  have htopic : (putCalls s.trace).filter (fun call => call.takenUnder topic) =
      (putCalls s.trace).filter fun call => call.topic = topic :=
    List.filter_congr fun call hcall => hs.takenUnder_of_put hcall (hput call hcall) topic
  calc
    _ = ((putCalls s.trace).filter fun call => call.topic = topic).flatMap PutCall.bundle := by
      rw [uploadedOf, htopic]
    _ = _ := by
      rw [← hs.puts, List.filter_map, List.flatMap_map]
      rfl

theorem uploadedOf_sublist (topic : Text) :
    (uploadedOf topic s.trace).Sublist (stashedOf topic s.trace).flatten := by
  rw [uploadedOf_eq hs hput, stashedOf_eq, ← List.flatMap_def]
  exact (List.filter_sublist.filter _).flatMap _

/-- Where every stashed bundle has a payload, the images and the buffer are all that was
consumed. -/
theorem uploadedOf_append (hs3 : c.ps3.isSome)
    (h : ∀ entry ∈ stashes s.trace, 0 < messagesSize (contents entry.2)) (topic : Text) :
    uploadedOf topic s.trace ++ s.buffer topic = receivedOf topic s.trace := by
  have hall : stored c (stashes s.trace) = stashes s.trace := by
    apply List.filter_eq_self.mpr
    intro entry hentry
    simp [hs3, h entry hentry]
  have hsent : uploadedOf topic s.trace = (stashedOf topic s.trace).flatten := by
    rw [uploadedOf_eq hs hput, hall, stashedOf_eq]
    rfl
  calc
    _ = (view topic s).content := by
      rw [hsent]
      rfl
    _ = receivedOf topic s.trace := (hs.content topic).symm

end Uploads

theorem contents_receivedOf (topic : Text) (t : List Event) :
    contents (receivedOf topic t) =
      (contents (received t)).filter fun m => m.topic_name = topic := by
  rw [receivedOf, contents, contents, List.filter_map]
  rfl

section Iff
variable {results : List ConsumeResult} {s : State} (hs : Consistent c w s)
  (hput : ∀ call ∈ putCalls s.trace, call.rval = true)
  (hgiven : contents (received s.trace) = delivered results)
include hs hput hgiven

theorem conserved_of_payload (hs3 : c.ps3.isSome)
    (h : ∀ entry ∈ stashes s.trace, 0 < messagesSize (contents entry.2)) :
    Conserved results s where
  images call hcall := hs.sent_of_put hcall (hput call hcall)
  whole topic := by
    rw [← hgiven, ← contents_receivedOf, ← uploadedOf_append hs hput hs3 h topic]
    exact (List.map_append ..).symm

/-- At the end a stashed message which S3 holds lies in the PUT of its own bundle. -/
theorem payload_of_conserved (hempty : ∀ topic, s.buffer topic = []) (h : Conserved results s) :
    ∀ entry ∈ stashes s.trace, 0 < messagesSize (contents entry.2) := by
  intro entry hentry
  obtain ⟨x, hx⟩ := List.exists_mem_of_ne_nil _ (hs.nonempty entry hentry)
  have hcontent : receivedOf entry.1 s.trace = (stashedOf entry.1 s.trace).flatten := by
    rw [hs.content, Channel.content]
    exact (congrArg _ (hempty entry.1)).trans (List.append_nil _)
  have hcount : (uploadedOf entry.1 s.trace).length =
      ((stashedOf entry.1 s.trace).flatten).length := by
    have hwhole := congrArg List.length (h.whole entry.1)
    rw [← hgiven, ← contents_receivedOf, hempty, hcontent, List.length_append, List.length_map,
      List.length_map, List.length_map] at hwhole
    exact hwhole
  -- nothing is missing, so the images hold the very messages which were stashed
  have hall := (uploadedOf_sublist hs hput entry.1).eq_of_length hcount
  have hbundle : entry.2 ∈ stashedOf entry.1 s.trace :=
    List.mem_filterMap.mpr ⟨entry, hentry, by simp⟩
  have hsent : x ∈ uploadedOf entry.1 s.trace :=
    hall ▸ List.mem_flatten.mpr ⟨entry.2, hbundle, hx⟩
  obtain ⟨call, hcall, hmem⟩ := List.mem_flatMap.mp hsent
  have hstored := hs.mem_stashes_of_put (List.mem_filter.mp hcall).1
  rw [← hs.stash_unique hstored.1 hentry hmem hx]
  exact hstored.2.2

end Iff

/-- A run in which S3 is set and takes every image conserves the messages exactly
when no stashed bundle is without payload. -/
theorem conserved_throughout_iff (c : Consume) (w : World) (results : List ConsumeResult)
    (hs3 : c.ps3.isSome = true)
    (hput : ∀ call ∈ putCalls (lifetime c w results), call.rval = true) :
    ConservedThroughout c w results ↔
      ∀ entry ∈ stashes (lifetime c w results), 0 < messagesSize (contents entry.2) := by
  have hend : Consistent c w ((State.run c w results).destroy c w) :=
    (consistent_run results).destroy
  have hgiven : contents (received ((State.run c w results).destroy c w).trace) =
      delivered results := by
    rw [received_destroy, received_run]
  constructor
  · intro h
    exact payload_of_conserved hend hput hgiven (fun _ => rfl) h.closing
  · intro h
    constructor
    case running =>
      intro rs hrs
      -- what happened up to here is a part of the whole trace
      obtain ⟨rest, hrest⟩ := (trace_run_mono hrs).trans
        (trace_prefix_destroy c w _)
      rw [lifetime, ← hrest, putCalls_append] at hput
      rw [lifetime, ← hrest, stashes_append] at h
      apply conserved_of_payload (consistent_run rs) _ (received_run c w rs) hs3
      · exact fun entry hentry => h entry (List.mem_append_left _ hentry)
      · exact fun call hcall => hput call (List.mem_append_left _ hcall)
    case closing => exact conserved_of_payload hend hput hgiven hs3 h
    case emptied => exact buffer_stash_all c w _

/-- A tombstone which waits for its timeout reaches no image. -/
theorem tombstone_lost :
    ¬ ConservedThroughout ⟨some ⟨true, []⟩, 10, 1024⟩ (World.constant true)
      [.message (.plain ['t'] 0 0 1 []), .error .timedOut] := by
  intro h
  have hwhole := h.closing.whole ['t']
  revert hwhole
  decide

/-- Two topics whose messages come by turns: one topic fills a bundle, in which a tombstone
lies, and the rest goes with the timeout and with the destructor. -/
theorem conserved_two_topics :
    ConservedThroughout ⟨some ⟨true, []⟩, 2, 1024⟩ (World.constant true)
      [.message (.plain ['a'] 0 0 1 [7]), .message (.plain ['b'] 0 0 1 [8]),
        .message (.plain ['a'] 1 0 2 []), .message (.plain ['a'] 0 1 3 [9, 9]), .error .timedOut,
        .message (.plain ['b'] 0 1 4 [5])] := by
  apply (conserved_throughout_iff _ _ _ rfl ?_).mpr
  · decide
  · decide

end KafkaK3.Conservation
