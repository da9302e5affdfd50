import KafkaK3.CommitOrder
import KafkaK3.CursorLog

/-!
# The consumer and the broker across restarts

The broker keeps the log of every partition and, for the consumer group, one
committed offset a partition. A process which starts gets the messages of each
partition from the committed offset on, in order; a commit of a message sets the
offset behind it. The process may die at any event of its trace, and commits
which it has asked for may not arrive. A rebalance, which needs a second member of
the group, is left out.

For every partition such a history is one of readers of a log through a cursor.
-/
namespace KafkaK3.BrokerSession
open DecimalText MessageLayout StashImage BackupConsumer TopicChannel ConsumerInvariants
open EventTrace CommitOrder CursorLog

def offsetOf (m : Message) : ℤ := m.offset.toInt

/-- The messages of one partition. -/
def messagesAt (topic : Text) (partition : Int32) (messages : List Message) : List Message :=
  messages.filter fun m => m.topic_name = topic ∧ m.partition = partition

/-- What the broker holds. -/
structure Cluster where
  log : Text → Int32 → List Message
  ordered : ∀ topic partition, Ordered offsetOf (log topic partition)
  own : ∀ topic partition, ∀ m ∈ log topic partition,
    m.topic_name = topic ∧ m.partition = partition

/-- The committed offsets of the group: the next offset to read. -/
abbrev Offsets := Text → Int32 → ℤ

/-- A commit which arrives. -/
def commitOffset (offsets : Offsets) (m : Message) : Offsets := fun topic partition =>
  if m.topic_name = topic ∧ m.partition = partition then offsetOf m + 1
  else offsets topic partition

def commitOffsets (offsets : Offsets) (messages : List Message) : Offsets :=
  messages.foldl commitOffset offsets

/-- One process: its settings and its surroundings, the answers which it was given,
how it would have ended, the events which did happen and the commits which arrived. -/
structure Session where
  c : Consume
  w : World
  results : List ConsumeResult
  ending : Ending
  happened : List Event
  arrived : List MessageWrapper

/-- The trace of the process, had nothing stopped it. -/
def Session.trace (s : Session) : List Event :=
  ((State.run s.c s.w s.results).finish s.c s.w s.ending).trace

structure Session.Runs (cluster : Cluster) (offsets : Offsets) (s : Session) : Prop where
  delivered : ∀ topic partition, messagesAt topic partition (delivered s.results) <+:
    rest offsetOf (cluster.log topic partition) (offsets topic partition)
  happened : s.happened <+: s.trace
  arrived : s.arrived.Sublist (committed s.happened)

/-- One process after the other, each from the offsets the last one left. -/
inductive History (cluster : Cluster) : Offsets → List Session → Offsets → Prop
  | nil {offsets : Offsets} : History cluster offsets [] offsets
  | cons {offsets later : Offsets} {s : Session} {ss : List Session} :
      s.Runs cluster offsets →
      History cluster (commitOffsets offsets (contents s.arrived)) ss later →
      History cluster offsets (s :: ss) later

section Partitions
variable (topic : Text) (partition : Int32)

theorem commitOffsets_eq (offsets : Offsets) (messages : List Message) :
    commitOffsets offsets messages topic partition =
      advance offsetOf (offsets topic partition) (messagesAt topic partition messages) := by
  induction messages generalizing offsets with
  | nil => rfl
  | cons m ms ih =>
      have hstep : commitOffsets offsets (m :: ms) = commitOffsets (commitOffset offsets m) ms := rfl
      rw [hstep, ih]
      by_cases hat : m.topic_name = topic ∧ m.partition = partition
      · simp [messagesAt, commitOffset, hat]
      · simp [messagesAt, commitOffset, hat]

/-- The messages of a partition are among those of its topic. -/
theorem messagesAt_contents (messages : List MessageWrapper) :
    messagesAt topic partition (contents messages) =
      messagesAt topic partition
        (contents (messages.filter fun x => x.pmessage.topic_name = topic)) := by
  rw [messagesAt, messagesAt, List.filter_map, List.filter_map, List.filter_filter]
  congr 1
  apply List.filter_congr
  intro x _
  by_cases htopic : x.pmessage.topic_name = topic
  · simp [htopic]
  · simp [htopic]

theorem messagesAt_mono {t u : List Message} (h : t <+: u) :
    messagesAt topic partition t <+: messagesAt topic partition u := h.filter _

/-- In every partition the committed messages are the first consumed ones. -/
theorem committed_prefix {p : List Event} (h : InOrder p) :
    messagesAt topic partition (contents (committed p)) <+:
      messagesAt topic partition (contents (received p)) := by
  rw [messagesAt_contents topic partition (committed p),
    messagesAt_contents topic partition (received p)]
  exact messagesAt_mono _ _ ((h topic).map _)

end Partitions

/-- A process as a reader of one partition. -/
def Session.reader (topic : Text) (partition : Int32) (s : Session) : CursorLog.Session Message :=
  ⟨messagesAt topic partition (contents (received s.happened)),
    messagesAt topic partition (contents (committed s.happened)),
    messagesAt topic partition (contents s.arrived)⟩

namespace Session
variable {cluster : Cluster} {offsets : Offsets} {s : Session}

theorem orderly (s : Session) :
    Orderly s.c s.w ((State.run s.c s.w s.results).finish s.c s.w s.ending) :=
  (orderly_run s.results).finish s.ending

theorem received_trace (s : Session) : contents (received s.trace) = delivered s.results := by
  rw [trace, received_finish, received_run]

theorem received_happened (h : s.happened <+: s.trace) :
    contents (received s.happened) <+: delivered s.results := by
  obtain ⟨later, hlater⟩ := h
  rw [← s.received_trace, ← hlater, received_append]
  exact (List.prefix_append _ _).map _

theorem Runs.reads (h : s.Runs cluster offsets) (topic : Text) (partition : Int32) :
    (s.reader topic partition).Reads offsetOf (cluster.log topic partition)
      (offsets topic partition) where
  taken := (messagesAt_mono topic partition (received_happened h.happened)).trans
    (h.delivered topic partition)
  acked := committed_prefix topic partition (s.orderly.inOrder _ h.happened)
  arrived := (h.arrived.map _).filter _

end Session

/-- Every partition sees a history of readers. -/
theorem History.partition {cluster : Cluster} {offsets later : Offsets} {ss : List Session}
    (h : History cluster offsets ss later) (topic : Text) (partition : Int32) :
    CursorLog.History offsetOf (cluster.log topic partition) (offsets topic partition)
      (ss.map (Session.reader topic partition)) (later topic partition) := by
  induction h with
  | nil => exact .nil
  | @cons offsets later s ss hs _ ih =>
      refine .cons (hs.reads topic partition) ?_
      have hcursor := commitOffsets_eq topic partition offsets (contents s.arrived)
      rw [hcursor] at ih
      exact ih

/-- Every process of a history ran from some offsets. -/
theorem History.runs {cluster : Cluster} {offsets later : Offsets} {ss : List Session}
    (h : History cluster offsets ss later) : ∀ s ∈ ss, ∃ started, s.Runs cluster started := by
  induction h with
  | nil => intro s hs; cases hs
  | cons hs _ ih => exact List.forall_mem_cons.mpr ⟨⟨_, hs⟩, ih⟩

theorem mem_messagesAt {messages : List MessageWrapper} {x : MessageWrapper}
    (hx : x ∈ messages) :
    x.pmessage ∈ messagesAt x.pmessage.topic_name x.pmessage.partition (contents messages) :=
  List.mem_filter.mpr ⟨List.mem_map_of_mem hx, by simp⟩

/-- The messages of a partition which a process has consumed. -/
theorem Session.mem_taken {s : Session} {x : MessageWrapper} (hx : x ∈ received s.happened) :
    x.pmessage ∈ (s.reader x.pmessage.topic_name x.pmessage.partition).taken :=
  List.mem_filter.mpr ⟨List.mem_map_of_mem hx, by simp⟩

end KafkaK3.BrokerSession
