import KafkaK3.CommitOrder

/-!
# Topics do not interfere

All topics share the two maps and every timeout walks through all of them. Yet
a topic sees its own messages and the idle results only, so two runs which agree
on these stash the same bundles for it, whatever the other topics receive and
whatever clock and S3 answer.
-/
namespace KafkaK3.TopicIsolation
open ByteBuffer DecimalText MessageLayout StashImage StashKey BackupConsumer Batching TopicChannel
open ConsumerInvariants CommitOrder

variable {c : Consume} {w : World}

/-- A result which is no message of another topic. -/
def concerns (topic : Text) : ConsumeResult → Bool
  | .message m => m.topic_name = topic
  | _ => true

/-- The bundles of one topic as messages: their grouping and their order. -/
def bundlesOf (topic : Text) (t : List Event) : List (List Message) :=
  (stashedOf topic t).map contents

/-- The images sent for one topic, in the order of the PUTs. -/
def imagesOf (topic : Text) (t : List Event) : List Bytes :=
  ((putCalls t).filter fun call => call.topic = topic).map PutCall.payload

/-- The bodies of the requests which go out under keys of one topic. -/
def bodiesOf (topic : Text) (t : List Event) : List Bytes :=
  (((putCalls t).filterMap PutCall.request).filter fun r => UnderTopic topic r.key).map
    S3Client.PutObjectRequest.body

theorem signals_of_concerns (topic : Text) (results : List ConsumeResult) :
    (results.filter (concerns topic)).filterMap (signal topic) =
      results.filterMap (signal topic) := by
  induction results with
  | nil => rfl
  | cons r rs ih =>
      rw [List.filter_cons, List.filterMap_cons, ← ih]
      cases r with
      | null => rfl
      | error e => rfl
      | message m =>
          by_cases h : m.topic_name = topic
          · simp [concerns, signal, h]
          · simp [concerns, signal, h]

/-- What the whole run stashes for a topic is what its channel has sent after
one more flush. -/
theorem bundlesOf_lifetime (results : List ConsumeResult) (topic : Text) :
    bundlesOf topic (lifetime c w results) =
      (Batching.run (policy c) (results.filterMap (signal topic))).flush.sent := by
  have hclosed : stashedOf topic (lifetime c w results) =
      (view topic ((State.run c w results).stash_all c w)).sent := by
    rw [lifetime, trace_destroy, stashedOf_append]
    exact List.append_nil _
  calc
    _ = (view topic (State.run c w results)).flush.sent.map contents := by
      rw [bundlesOf, hclosed, view_stash_all]
    _ = (messageView topic (State.run c w results)).flush.sent := by
      rw [messageView, ← Channel.map_flush]
      rfl
    _ = (Batching.run (policy c) (results.filterMap (signal topic))).flush.sent := by
      rw [run_refines]

/-- The images follow from the bundles: one for each bundle with a payload, if
there is an S3 wrapper at all. -/
theorem imagesOf_eq {s : State} (hs : Consistent c w s) (topic : Text) :
    imagesOf topic s.trace =
      ((bundlesOf topic s.trace).filter fun ms => c.ps3.isSome ∧ 0 < messagesSize ms).map image := by
  calc
    _ = ((putCalls s.trace).filter fun call => call.topic = topic).map
          (fun call => image (contents call.bundle)) := by
      apply List.map_congr_left
      intro call hcall
      exact hs.image_of_put (List.mem_filter.mp hcall).1
    _ = ((stored c (stashes s.trace)).filter fun entry => entry.1 = topic).map
          (fun entry => image (contents entry.2)) := by
      rw [← hs.puts, List.filter_map, List.map_map]
      rfl
    _ = ((bundlesOf topic s.trace).filter fun ms => c.ps3.isSome ∧ 0 < messagesSize ms).map
          image := by
      rw [stored, List.filter_comm, bundlesOf, stashedOf_eq, List.map_map, List.filter_map,
        List.map_map]
      rfl

/-- With a client the images go out, and without one nothing does. -/
theorem bodiesOf_eq {s : State} (hs : Consistent c w s) (topic : Text) :
    bodiesOf topic s.trace =
      if c.ps3.any S3Client.S3.sp3client then imagesOf topic s.trace else [] := by
  have hbuilt (call : PutCall) (hcall : call ∈ putCalls s.trace) := hs.built_of_put hcall
  rw [bodiesOf, imagesOf]
  generalize putCalls s.trace = calls at hbuilt ⊢
  induction calls with
  | nil => simp
  | cons call calls ih =>
      obtain ⟨s3, n, hs3, hcall⟩ := hbuilt call List.mem_cons_self
      have hrest := ih fun call hcall => hbuilt call (List.mem_cons_of_mem _ hcall)
      have hsome : call.s3.sp3client = c.ps3.any S3Client.S3.sp3client := by
        rw [hcall, hs3]
        rfl
      cases hrequest : call.request with
      | none =>
          have hnone : ¬ c.ps3.any S3Client.S3.sp3client := by
            rw [← hsome, ← PutCall.request_isSome, hrequest]
            exact Bool.false_ne_true
          rw [List.filterMap_cons_none hrequest, hrest, if_neg hnone, if_neg hnone]
      | some r =>
          have hclient : c.ps3.any S3Client.S3.sp3client := by
            rw [← hsome, ← PutCall.request_isSome, hrequest]
            rfl
          obtain ⟨hkey, hbody, -⟩ := PutCall.of_request hrequest
          have hunder : UnderTopic topic r.key ↔ call.topic = topic := by
            rw [hkey, hcall]
            exact underTopic_putBundle
          rw [if_pos hclient] at hrest ⊢
          rw [List.filterMap_cons_some hrequest]
          by_cases htopic : call.topic = topic
          · simp [hunder, htopic, hbody, hrest]
          · simp [hunder, htopic, hrest]

/-- Two whole runs with the same messages of a topic, and the same idle results
between them, stash the same bundles and send the same images for it. -/
theorem topics_isolated (c : Consume) (w₁ w₂ : World) (topic : Text)
    (results₁ results₂ : List ConsumeResult)
    (h : results₁.filter (concerns topic) = results₂.filter (concerns topic)) :
    bundlesOf topic (lifetime c w₁ results₁) = bundlesOf topic (lifetime c w₂ results₂) ∧
      imagesOf topic (lifetime c w₁ results₁) = imagesOf topic (lifetime c w₂ results₂) ∧
      bodiesOf topic (lifetime c w₁ results₁) = bodiesOf topic (lifetime c w₂ results₂) := by
  have hbundles : bundlesOf topic (lifetime c w₁ results₁) =
      bundlesOf topic (lifetime c w₂ results₂) := by
    rw [bundlesOf_lifetime, bundlesOf_lifetime, ← signals_of_concerns, h, signals_of_concerns]
  have hconsistent (w : World) (results : List ConsumeResult) :
      Consistent c w ((State.run c w results).destroy c w) :=
    (consistent_run results).destroy
  have himages : imagesOf topic (lifetime c w₁ results₁) = imagesOf topic (lifetime c w₂ results₂) := by
    rw [lifetime, lifetime, imagesOf_eq (hconsistent w₁ results₁), imagesOf_eq (hconsistent w₂ results₂)]
    exact congrArg _ (congrArg _ hbundles)
  refine ⟨hbundles, himages, ?_⟩
  rw [lifetime, lifetime, bodiesOf_eq (hconsistent w₁ results₁), bodiesOf_eq (hconsistent w₂ results₂)]
  split
  · exact himages
  · rfl

/-- A message of another topic comes between the two of a topic. -/
def mixedResults : List ConsumeResult :=
  [.message (.plain ['a'] 0 0 1 [7] Message.letter_fits Message.letter_fits),
    .message (.plain ['b'] 0 0 1 [8] Message.letter_fits Message.letter_fits),
    .message (.plain ['a'] 0 1 2 [9] Message.letter_fits Message.letter_fits), .error .timedOut]

def aloneResults : List ConsumeResult :=
  [.message (.plain ['a'] 0 0 1 [7] Message.letter_fits Message.letter_fits),
    .message (.plain ['a'] 0 1 2 [9] Message.letter_fits Message.letter_fits), .error .timedOut]

/-- It changes nothing for the topic, nor does an S3 which takes nothing. -/
theorem topics_isolated_pair :
    (bodiesOf ['a'] (lifetime ⟨some ⟨true, []⟩, 2, 1024⟩ (.constant true) mixedResults)).length = 1 ∧
    bundlesOf ['a'] (lifetime ⟨some ⟨true, []⟩, 2, 1024⟩ (.constant true) mixedResults) =
      bundlesOf ['a'] (lifetime ⟨some ⟨true, []⟩, 2, 1024⟩ (.constant false) aloneResults) ∧
    imagesOf ['a'] (lifetime ⟨some ⟨true, []⟩, 2, 1024⟩ (.constant true) mixedResults) =
      imagesOf ['a'] (lifetime ⟨some ⟨true, []⟩, 2, 1024⟩ (.constant false) aloneResults) ∧
    bodiesOf ['a'] (lifetime ⟨some ⟨true, []⟩, 2, 1024⟩ (.constant true) mixedResults) =
      bodiesOf ['a'] (lifetime ⟨some ⟨true, []⟩, 2, 1024⟩ (.constant false) aloneResults) :=
  ⟨by decide, topics_isolated _ _ _ ['a'] _ _ (by decide)⟩

end KafkaK3.TopicIsolation
