import KafkaK3.BrokerSession
import KafkaK3.CommitSafety
import KafkaK3.Conservation

/-!
# What a history of crashes and restarts keeps

Nothing which the committed offset has passed is skipped: some process has stashed
it, and where that process could store its bundles it has stored it. An offset never
goes back, and what a commit has settled is never consumed again. A process which
dies leaves at most one open bundle of every topic to be read twice, and processes
which all come to their end share the log out between them.
-/
namespace KafkaK3.CrashRecovery
open DecimalText MessageLayout StashImage BackupConsumer Batching TopicChannel ConsumerInvariants
open EventTrace CommitOrder CommitSafety Conservation BrokerSession
open CursorLog (rest)

section Lag
variable {c : Consume} {w : World}

/-- The most messages of one topic which are consumed and not committed. -/
def backlog (c : Consume) : ℕ := max 1 (State.bundleLimit c)

def Lag (c : Consume) (t : List Event) : Prop :=
  ∀ topic, (receivedOf topic t).length ≤ (committedOf topic t).length + backlog c

/-- Between two calls there is room for one more message. -/
structure Lagging (c : Consume) (w : World) (s : State) : Prop where
  consistent : Consistent c w s
  room : ∀ topic, (s.buffer topic).length < backlog c
  lag : Always (Lag c) s.trace

theorem backlog_pos (c : Consume) : 0 < backlog c := by
  rw [backlog]
  omega

theorem lagging_initial : Lagging c w State.initial where
  consistent := consistent_initial
  room _ := backlog_pos c
  lag := always_nil.mpr fun _ => Nat.zero_le _

/-- Events which consume nothing never add to the backlog. -/
theorem lag_append {t u : List Event} (h : Always (Lag c) t) (hu : received u = []) :
    Always (Lag c) (t ++ u) := by
  refine h.append fun q hq _ topic => ?_
  obtain ⟨later, rfl⟩ := hq
  rw [received_append] at hu
  have hnone : receivedOf topic q = [] := by
    rw [receivedOf, (List.append_eq_nil_iff.mp hu).1]
    rfl
  have hnow := h.now topic
  rw [receivedOf_append, committedOf_append, hnone, List.append_nil, List.length_append]
  omega

theorem Lagging.stash {s : State} (h : Lagging c w s) (topic : Text) :
    Lagging c w (s.stash c w topic) where
  consistent := h.consistent.stash topic
  room u := by
    rw [buffer_stash]
    split
    · exact backlog_pos c
    · exact h.room u
  lag := by
    rw [trace_stash]
    exact lag_append h.lag (received_stash_by_topic ..)

theorem Lagging.stash_all {s : State} (h : Lagging c w s) : Lagging c w (s.stash_all c w) := by
  have hfold (keys : List Text) : ∀ {s : State}, Lagging c w s →
      Lagging c w (keys.foldl (State.stash c w) s) := by
    induction keys with
    | nil => exact id
    | cons k ks ih => exact fun hs => ih (hs.stash k)
  unfold State.stash_all
  split
  · exact h
  · exact hfold _ h

/-- The message which fills the room is still within the backlog. -/
theorem lag_push {s : State} (h : Lagging c w s) (m : Message) :
    Always (Lag c) (s.push m).trace := by
  have hnext := h.consistent.push m
  have hnow : Lag c (s.push m).trace := by
    intro topic
    rw [hnext.receivedOf_eq topic, List.length_append, buffer_push]
    have hroom := h.room topic
    split
    · rw [List.length_append, List.length_singleton]
      omega
    · omega
  rw [trace_push] at hnow ⊢
  exact h.lag.concat hnow

theorem Lagging.message {s : State} (h : Lagging c w s) (m : Message) :
    Lagging c w (s.run_once c w (.message m)) := by
  have hlag := lag_push h m
  have hnext := h.consistent.push m
  have hother (u : Text) (hu : ¬ m.topic_name = u) :
      ((s.push m).buffer u).length < backlog c := by
    rw [buffer_push, if_neg hu]
    exact h.room u
  rw [run_once_message]
  split
  next =>
    refine ⟨(hnext.stash _).resetSize _, fun u => ?_, ?_⟩
    · rw [buffer_resetSize, buffer_stash]
      split
      next => exact backlog_pos c
      next hu => exact hother u hu
    · rw [trace_resetSize, trace_stash]
      exact lag_append hlag (received_stash_by_topic ..)
  next hfull =>
    refine ⟨hnext, fun u => ?_, hlag⟩
    by_cases hu : m.topic_name = u
    · subst hu
      simp only [policy, decide_eq_true_eq, not_or, Nat.not_le, List.length_map] at hfull
      exact Nat.lt_of_lt_of_le hfull.1 (Nat.le_max_right ..)
    · exact hother u hu

theorem Lagging.run_once {s : State} (h : Lagging c w s) (r : ConsumeResult) :
    Lagging c w (s.run_once c w r) := by
  cases r with
  | null => exact h
  | error e => exact h.stash_all
  | message m => exact h.message m

theorem lagging_run (results : List ConsumeResult) : Lagging c w (State.run c w results) := by
  induction results using List.reverseRecOn with
  | nil => exact lagging_initial
  | append_singleton rs r ih =>
      rw [State.run, List.foldl_append]
      exact ih.run_once r

theorem Lagging.finish {s : State} (h : Lagging c w s) (ending : Ending) :
    Always (Lag c) (s.finish c w ending).trace := by
  cases ending with
  | running => exact h.lag
  | stashAll => exact h.stash_all.lag
  | destroyed =>
      change Always (Lag c) (s.destroy c w).trace
      rw [trace_destroy]
      exact lag_append h.stash_all.lag rfl

end Lag

variable {cluster : Cluster} {offsets later : Offsets}

section OneMessage

def oneMessage : Message := .plain ['t'] 0 0 1 [7] Message.letter_fits Message.letter_fits

def oneMessageCluster : Cluster where
  log topic partition := if topic = ['t'] ∧ partition = 0 then [oneMessage] else []
  ordered topic partition := by
    split
    · exact List.pairwise_singleton ..
    · exact .nil
  own topic partition m hm := by
    split at hm
    next h =>
      rw [List.mem_singleton.mp hm]
      exact ⟨h.1.symm, h.2.symm⟩
    next => cases hm

/-- The process which consumes the message and ends this way. -/
def oneMessageSession (ending : Ending) : Session :=
  let c : Consume := ⟨some ⟨true, []⟩, 10, 1024⟩
  let s := (State.run c (.constant true) [.message oneMessage]).finish c (.constant true) ending
  ⟨c, .constant true, [.message oneMessage], ending, s.trace, committed s.trace⟩

theorem oneMessage_delivered (topic : Text) (partition : Int32) :
    messagesAt topic partition [oneMessage] <+:
      rest offsetOf (oneMessageCluster.log topic partition) 0 := by
  by_cases h : topic = ['t'] ∧ partition = 0
  · obtain ⟨rfl, rfl⟩ := h
    change messagesAt ['t'] 0 [oneMessage] <+: rest offsetOf [oneMessage] 0
    decide
  · have hnone : ¬ (['t'] = topic ∧ (0 : Int32) = partition) := fun ⟨ht, hp⟩ =>
      h ⟨ht.symm, hp.symm⟩
    have hempty : messagesAt topic partition [oneMessage] = [] := by
      simp [messagesAt, oneMessage, Message.plain, hnone]
    rw [hempty]
    exact List.nil_prefix

theorem oneMessageSession_runs (ending : Ending) :
    (oneMessageSession ending).Runs oneMessageCluster fun _ _ => 0 :=
  ⟨oneMessage_delivered, List.prefix_rfl, List.Sublist.refl _⟩

/-- It dies with the message in its buffer, is started again and comes to its end. -/
theorem oneMessageHistory : History oneMessageCluster (fun _ _ => 0)
    [oneMessageSession .running, oneMessageSession .destroyed]
    (commitOffsets (fun _ _ => 0) [oneMessage]) :=
  .cons (oneMessageSession_runs .running) (.cons (oneMessageSession_runs .destroyed) .nil)

end OneMessage

/-- What the offsets have passed some process has committed. -/
theorem committed_of_passed {ss : List Session} (h : History cluster offsets ss later)
    (topic : Text) (partition : Int32) {m : Message} (hm : m ∈ cluster.log topic partition)
    (hfrom : offsets topic partition ≤ offsetOf m) (hpast : offsetOf m < later topic partition) :
    ∃ s ∈ ss, ∃ x ∈ committed s.happened, x.pmessage = m := by
  obtain ⟨reader, hreader, hacked⟩ :=
    (h.partition topic partition).passed (cluster.ordered topic partition) hm hfrom hpast
  obtain ⟨s, hs, rfl⟩ := List.mem_map.mp hreader
  obtain ⟨x, hx, hxm⟩ := List.mem_map.mp (List.mem_filter.mp hacked).1
  exact ⟨s, hs, x, hx, hxm⟩

/-- Between the offsets before and after a history no message of the log was left
out: one of the processes has stashed it, and has stored it if all the bundles which
it stashed could be stored. -/
theorem at_least_once {ss : List Session} (h : History cluster offsets ss later) (topic : Text)
    (partition : Int32) {m : Message} (hm : m ∈ cluster.log topic partition)
    (hfrom : offsets topic partition ≤ offsetOf m) (hpast : offsetOf m < later topic partition) :
    ∃ s ∈ ss, (∃ entry ∈ stashes s.happened, m ∈ contents entry.2) ∧
      (Storable s.c s.w s.happened → ∃ call ∈ putCalls s.happened, call.rval = true ∧
        m ∈ contents call.bundle ∧ call.Sent) := by
  obtain ⟨s, hs, x, hx, rfl⟩ := committed_of_passed h topic partition hm hfrom hpast
  obtain ⟨_, hruns⟩ := h.runs s hs
  have hprefix := hruns.happened
  obtain ⟨entry, hentry, hmem, -⟩ := s.orderly.attempted _ hprefix x hx
  refine ⟨s, hs, ⟨entry, hentry, List.mem_map_of_mem hmem⟩, fun hstorable => ?_⟩
  obtain ⟨call, hcall, hrval, hbundle, hsent⟩ := saved_of_storable s.orderly hprefix hstorable x hx
  exact ⟨call, hcall, hrval, List.mem_map_of_mem hbundle, hsent⟩

theorem at_least_once_restart : ∃ s ∈ [oneMessageSession .running, oneMessageSession .destroyed],
    (∃ entry ∈ stashes s.happened, oneMessage ∈ contents entry.2) ∧
      (Storable s.c s.w s.happened → ∃ call ∈ putCalls s.happened, call.rval = true ∧
        oneMessage ∈ contents call.bundle ∧ call.Sent) :=
  at_least_once oneMessageHistory ['t'] 0 (List.mem_singleton_self _) (by decide) (by decide)

/-- Behind a commit which has arrived no later process consumes the message again or
one before it. -/
theorem settled_later {ss : List Session} (h : History cluster offsets ss later) :
    ss.Pairwise fun s t => ∀ x ∈ s.arrived, ∀ y ∈ received t.happened,
      y.pmessage.topic_name = x.pmessage.topic_name →
      y.pmessage.partition = x.pmessage.partition →
      offsetOf x.pmessage < offsetOf y.pmessage := by
  rw [List.pairwise_iff_forall_sublist]
  intro s t hst x hx y hy htopic hpartition
  have hsettled := (h.partition x.pmessage.topic_name x.pmessage.partition).settled
    (cluster.ordered _ _)
  have hpair := List.pairwise_iff_forall_sublist.mp hsettled (hst.map _)
  refine hpair _ (mem_messagesAt hx) _ ?_
  have hmem := Session.mem_taken hy
  rwa [htopic, hpartition] at hmem

/-- The committed offsets never go back, and what a commit has settled stays settled. -/
theorem settled_for_good {ss : List Session} (h : History cluster offsets ss later) :
    (∀ topic partition, offsets topic partition ≤ later topic partition) ∧
    ss.Pairwise fun s t => ∀ x ∈ s.arrived, ∀ y ∈ received t.happened,
      y.pmessage.topic_name = x.pmessage.topic_name →
      y.pmessage.partition = x.pmessage.partition →
      offsetOf x.pmessage < offsetOf y.pmessage :=
  ⟨fun topic partition => (h.partition topic partition).mono (cluster.ordered topic partition),
    settled_later h⟩

section TwoMessages

def secondMessage : Message := .plain ['t'] 0 1 2 [8] Message.letter_fits Message.letter_fits

def twoMessageCluster : Cluster where
  log topic partition := if topic = ['t'] ∧ partition = 0 then [oneMessage, secondMessage] else []
  ordered topic partition := by
    split
    · exact List.pairwise_pair.mpr (by decide)
    · exact .nil
  own topic partition m hm := by
    split at hm
    next h =>
      rw [List.mem_pair] at hm
      obtain rfl | rfl := hm
      · exact ⟨h.1.symm, h.2.symm⟩
      · exact ⟨h.1.symm, h.2.symm⟩
    next => cases hm

theorem messagesAt_other {topic : Text} {partition : Int32} (h : ¬ (topic = ['t'] ∧ partition = 0))
    {messages : List Message} (hmessages : messages ⊆ [oneMessage, secondMessage]) :
    messagesAt topic partition messages = [] := by
  refine List.filter_eq_nil_iff.mpr fun m hm hat => ?_
  obtain ⟨htopic, hpartition⟩ := of_decide_eq_true hat
  have hpair := List.mem_pair.mp (hmessages hm)
  refine h ?_
  rw [← htopic, ← hpartition]
  obtain rfl | rfl := hpair
  · exact ⟨rfl, rfl⟩
  · exact ⟨rfl, rfl⟩

/-- The log from an offset on, where the one partition with messages is known. -/
theorem twoMessage_delivered {offsets : Offsets} {messages : List Message}
    (hmessages : messages ⊆ [oneMessage, secondMessage])
    (h : messagesAt ['t'] 0 messages <+: rest offsetOf [oneMessage, secondMessage] (offsets ['t'] 0))
    (topic : Text) (partition : Int32) :
    messagesAt topic partition messages <+:
      rest offsetOf (twoMessageCluster.log topic partition) (offsets topic partition) := by
  by_cases hat : topic = ['t'] ∧ partition = 0
  · obtain ⟨rfl, rfl⟩ := hat
    exact h
  · rw [messagesAt_other hat hmessages]
    exact List.nil_prefix

/-- The process which consumes this message and comes to its end. -/
def shortSession (m : Message) : Session :=
  let c : Consume := ⟨some ⟨true, []⟩, 10, 1024⟩
  let s := (State.run c (.constant true) [.message m]).finish c (.constant true) .destroyed
  ⟨c, .constant true, [.message m], .destroyed, s.trace, committed s.trace⟩

/-- What the first process has committed the second one does not see. -/
theorem twoMessageHistory : History twoMessageCluster (fun _ _ => 0)
    [shortSession oneMessage, shortSession secondMessage]
    (commitOffsets (commitOffsets (fun _ _ => 0) [oneMessage]) [secondMessage]) := by
  refine .cons ⟨twoMessage_delivered ?_ ?_, List.prefix_rfl, List.Sublist.refl _⟩
    (.cons ⟨twoMessage_delivered ?_ ?_, List.prefix_rfl, List.Sublist.refl _⟩ .nil)
  all_goals decide

end TwoMessages

theorem settled_for_good_restart :
    (0 : ℤ) ≤ commitOffsets (commitOffsets (fun _ _ => 0) [oneMessage]) [secondMessage] ['t'] 0 ∧
    [shortSession oneMessage, shortSession secondMessage].Pairwise fun s t =>
      ∀ x ∈ s.arrived, ∀ y ∈ received t.happened,
        y.pmessage.topic_name = x.pmessage.topic_name →
        y.pmessage.partition = x.pmessage.partition → offsetOf x.pmessage < offsetOf y.pmessage :=
  ⟨(settled_for_good twoMessageHistory).1 ['t'] 0, (settled_for_good twoMessageHistory).2⟩

/-- With no commit lost, a process which dies leaves at most one backlog of each of
its topics to be consumed again, however often it is started later. What a process
consumes are the messages among the answers of `consume`. -/
theorem redelivery_bounded (front behind : List Session) {s : Session}
    (h : History cluster offsets (front ++ s :: behind) later)
    (harrived : s.arrived = committed s.happened) (topic : Text) :
    (∀ t ∈ front ++ s :: behind, t.happened <+: t.trace ∧
      contents (received t.trace) = delivered t.results) ∧
    ((receivedOf topic s.happened).filter fun x =>
      ∃ t ∈ behind, x.pmessage ∈ contents (received t.happened)).length ≤ backlog s.c := by
  refine ⟨fun t ht => ?_, ?_⟩
  · obtain ⟨_, hruns⟩ := h.runs t ht
    exact ⟨hruns.happened, t.received_trace⟩
  obtain ⟨_, hruns⟩ := h.runs s (by simp)
  have hprefix := hruns.happened
  obtain ⟨held, hheld⟩ := s.orderly.inOrder _ hprefix topic
  have hlag := (lagging_run s.results).finish s.ending _ hprefix topic
  have hlater := (List.pairwise_cons.mp (List.pairwise_append.mp (settled_later h)).2.1).1
  have hsettled : (committedOf topic s.happened).filter (fun x =>
      ∃ t ∈ behind, x.pmessage ∈ contents (received t.happened)) = [] := by
    rw [List.filter_eq_nil_iff]
    intro x hx hagain
    obtain ⟨t, ht, hmem⟩ := of_decide_eq_true hagain
    obtain ⟨y, hy, hyx⟩ := List.mem_map.mp hmem
    have hcommit : x ∈ s.arrived := harrived ▸ (List.mem_filter.mp hx).1
    have hlt := hlater t ht x hcommit y hy (by rw [hyx]) (by rw [hyx])
    rw [hyx] at hlt
    exact Int.lt_irrefl _ hlt
  rw [← hheld, List.length_append] at hlag
  rw [← hheld, List.filter_append, hsettled, List.nil_append]
  have hle := List.length_filter_le (fun x : MessageWrapper =>
    decide (∃ t ∈ behind, x.pmessage ∈ contents (received t.happened))) held
  omega

/-- The process which dies with its message in the buffer. -/
theorem redelivery_bounded_restart :
    ((receivedOf ['t'] (oneMessageSession .running).happened).filter fun x =>
      ∃ t ∈ [oneMessageSession .destroyed], x.pmessage ∈ contents (received t.happened)).length ≤
      backlog (oneMessageSession .running).c :=
  (redelivery_bounded [] [oneMessageSession .destroyed] oneMessageHistory (by decide) ['t']).2

/-- A process which came to its end, all its commits with it. -/
structure Complete (s : Session) : Prop where
  ending : s.ending = .destroyed
  happened : s.happened = s.trace
  arrived : s.arrived = committed s.happened

/-- A process for which S3 was there and took every bundle, and none of them without
payload. -/
structure Healthy (s : Session) : Prop where
  client : s.c.ps3.isSome
  accepted : ∀ call ∈ putCalls s.happened, call.rval = true
  payload : ∀ entry ∈ stashes s.happened, 0 < messagesSize (contents entry.2)

theorem Complete.committed_eq {s : Session} (h : Complete s) (topic : Text) :
    receivedOf topic s.happened = committedOf topic s.happened := by
  have hsplit := s.orderly.consistent.receivedOf_eq topic
  have hempty : ((State.run s.c s.w s.results).finish s.c s.w s.ending).buffer topic = [] := by
    rw [h.ending]
    rfl
  rwa [hempty, List.append_nil, ← Session.trace, ← h.happened] at hsplit

theorem Complete.uploaded_eq {s : Session} (h : Complete s) (hs : Healthy s)
    (topic : Text) : uploadedOf topic s.happened = receivedOf topic s.happened := by
  have hempty : ((State.run s.c s.w s.results).finish s.c s.w s.ending).buffer topic = [] := by
    rw [h.ending]
    rfl
  have hhappened := h.happened
  rw [Session.trace] at hhappened
  have hwhole := uploadedOf_append s.orderly.consistent (by rw [← hhappened]; exact hs.accepted)
    hs.client (by rw [← hhappened]; exact hs.payload) topic
  rwa [hempty, List.append_nil, ← hhappened] at hwhole

/-- Such a process has uploaded and committed all that it took from a partition. -/
theorem Complete.reader_eq {s : Session} (h : Complete s) (hs : Healthy s) (topic : Text)
    (partition : Int32) :
    (s.reader topic partition).arrived = (s.reader topic partition).taken ∧
    (s.reader topic partition).taken =
      messagesAt topic partition (contents (uploadedOf topic s.happened)) := by
  constructor
  · change messagesAt topic partition (contents s.arrived) =
      messagesAt topic partition (contents (received s.happened))
    rw [h.arrived, messagesAt_contents topic partition (committed s.happened),
      messagesAt_contents topic partition (received s.happened)]
    exact congrArg _ (congrArg _ (h.committed_eq topic).symm)
  · rw [h.uploaded_eq hs, Session.reader, messagesAt_contents topic partition
      (received s.happened)]
    rfl

/-- Processes which all come to their end with a healthy S3 put every message of the
log between the two offsets into exactly one image, in the order of the log. -/
theorem exactly_once {ss : List Session} (h : History cluster offsets ss later)
    (hss : ∀ s ∈ ss, Complete s ∧ Healthy s) (topic : Text) (partition : Int32) :
    rest offsetOf (cluster.log topic partition) (offsets topic partition) =
      (ss.flatMap fun s => messagesAt topic partition (contents (uploadedOf topic s.happened))) ++
        rest offsetOf (cluster.log topic partition) (later topic partition) := by
  have hreader (s : Session) (hs : s ∈ ss) :=
    (hss s hs).1.reader_eq (hss s hs).2 topic partition
  rw [(h.partition topic partition).whole (cluster.ordered topic partition)
    (List.forall_mem_map.mpr fun s hs => (hreader s hs).1), List.flatMap_map]
  congr 1
  exact List.flatMap_congr fun s hs => (hreader s hs).2

end KafkaK3.CrashRecovery
