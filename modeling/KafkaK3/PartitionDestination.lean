import KafkaK3.Fallible
import KafkaK3.StoredEvents

/-!
# The destination partition

The producer compares its destination with the partition which its caller names,
and the replay names none. So a destination keeps every event back, also those
which come from that very partition.
-/
namespace KafkaK3.PartitionDestination
open ByteBuffer DecimalText Fallible KafkaConfig MessageLayout Discovery ReplayProducer EventReplay

/-- With no destination all events reach the library, with one the events of that
partition, each once and in the order of the map. -/
structure Delivers (destination : Int32) (vmap : DiscoveryMap) (calls : List ProduceCall) : Prop where
  unset : destination = PARTITION_UA →
    calls.map ProduceCall.message = (processed vmap).map fun e => handed e.2
  chosen : 0 ≤ destination.toInt →
    calls.map ProduceCall.message = ((processed vmap).filter fun e =>
      e.2._header.details.partition = destination.toInt64).map fun e => handed e.2

theorem partition_dst_setup {rd : RdKafka} {env : Environment} {p : Produce}
    (h : Produce.setup rd env = .ok p) : p.partition_dst = partitionFromEnv env := by
  unfold Produce.setup at h
  split at h
  · split at h
    · cases h
    · cases h
  · obtain ⟨_, _, h⟩ := bind_eq_ok.mp h
    obtain ⟨_, _, h⟩ := bind_eq_ok.mp h
    obtain ⟨_, _, h⟩ := bind_eq_ok.mp h
    split at h
    · cases h
    · split at h
      · cases h
      · cases h
        rfl

section Map
variable {p : Produce} {vmap : DiscoveryMap}

theorem not_chosen (hp : p.partition_dst = PARTITION_UA) : ¬ 0 ≤ p.partition_dst.toInt := by
  rw [hp]
  decide

theorem delivers_unassigned (hp : p.partition_dst = PARTITION_UA)
    (hpayload : ∀ e ∈ processed vmap, e.2._payload.getD [] ≠ []) :
    Delivers p.partition_dst vmap ((processed vmap).flatMap fun e => sent p e.2) where
  unset _ := by
    have hall : (processed vmap).filter (fun e => e.2._payload.getD [] ≠ []) = processed vmap := by
      rw [List.filter_eq_self]
      exact fun e he => decide_eq_true (hpayload e he)
    rw [sent_unassigned hp, hall]
  chosen h := absurd h (not_chosen hp)

/-- Nothing is delivered, so nothing may be wanted. -/
theorem delivers_assigned_iff (hp : p.partition_dst ≠ PARTITION_UA) :
    Delivers p.partition_dst vmap ((processed vmap).flatMap fun e => sent p e.2) ↔
      (0 ≤ p.partition_dst.toInt → ∀ e ∈ processed vmap,
        e.2._header.details.partition ≠ p.partition_dst.toInt64) := by
  rw [sent_assigned hp]
  constructor
  · intro hdelivers hchosen e he
    have hnone := List.map_eq_nil_iff.mp (hdelivers.chosen hchosen).symm
    have hother := List.filter_eq_nil_iff.mp hnone e he
    simpa using hother
  · intro hother
    constructor
    case unset => exact fun h => absurd h hp
    case chosen =>
      intro hchosen
      rw [List.filter_eq_nil_iff.mpr]
      · rfl
      · intro e he
        simpa using hother hchosen e he

theorem delivers_iff (hpayload : ∀ e ∈ processed vmap, e.2._payload.getD [] ≠ []) :
    Delivers p.partition_dst vmap ((processed vmap).flatMap fun e => sent p e.2) ↔
      (0 ≤ p.partition_dst.toInt → ∀ e ∈ processed vmap,
        e.2._header.details.partition ≠ p.partition_dst.toInt64) := by
  by_cases hp : p.partition_dst = PARTITION_UA
  · exact iff_of_true (delivers_unassigned hp hpayload) fun h => absurd h (not_chosen hp)
  · exact delivers_assigned_iff hp

theorem replay_delivers_iff (produced : ℕ → Bool) (hwhole : ∀ e ∈ processed vmap, Whole e.2)
    (hpayload : ∀ e ∈ processed vmap, e.2._payload.getD [] ≠ []) :
    (∃ out, process_events p produced (processed vmap) .empty = .ok out ∧
        Delivers p.partition_dst vmap out.calls) ↔
      (0 ≤ p.partition_dst.toInt → ∀ e ∈ processed vmap,
        e.2._header.details.partition ≠ p.partition_dst.toInt64) := by
  obtain ⟨reports, hrun⟩ := process_events_whole (p := p) hwhole produced .empty
  rw [← delivers_iff hpayload, hrun]
  constructor
  · intro ⟨out, hout, hdelivers⟩
    obtain rfl := Except.ok.inj hout
    exact hdelivers
  · exact fun hdelivers => ⟨_, rfl, hdelivers⟩

end Map

/-- A destination is right exactly when it is negative or no event comes from it. -/
theorem partition_destination_iff {rd : RdKafka} {env : Environment} {p : Produce}
    (hsetup : Produce.setup rd env = .ok p) (produced : ℕ → Bool) {vmap : DiscoveryMap}
    (hwhole : ∀ e ∈ processed vmap, Whole e.2)
    (hpayload : ∀ e ∈ processed vmap, e.2._payload.getD [] ≠ []) :
    (∃ out, process_events p produced (processed vmap) .empty = .ok out ∧
        Delivers (partitionFromEnv env) vmap out.calls) ↔
      (0 ≤ (partitionFromEnv env).toInt → ∀ e ∈ processed vmap,
        e.2._header.details.partition ≠ (partitionFromEnv env).toInt64) := by
  rw [← partition_dst_setup hsetup]
  exact replay_delivers_iff produced hwhole hpayload

section Example

/-- An environment with all that the setup needs, and with a destination. -/
def withDestination (destination : Text) : Environment where
  getenv name :=
    if name = "KAFKA_BROKERS".toList then some ['b']
    else if name = "KAFKA_TARGET_TOPIC".toList then some ['t']
    else if name = "KAFKA_TOPIC_PARTITION_DESTINATION".toList then some destination
    else none
  envp := none

def message (partition : Int32) : Message :=
  .plain ['t'] partition 0 5 [97] Message.letter_fits Message.letter_fits

def event (partition : Int32) : DiscoveryItem :=
  ⟨5, ['k'], MessageHeader.set (message partition) 0 0, some [97]⟩

/-- A map with one event, which comes from the partition. -/
def oneEvent (partition : Int32) : DiscoveryMap :=
  (∅ : DiscoveryMap).insert (discoveryTimestamp 5 0) (event partition)

theorem processed_oneEvent (partition : Int32) :
    processed (oneEvent partition) = [(discoveryTimestamp 5 0, event partition)] := rfl

theorem whole_oneEvent (partition : Int32) : ∀ e ∈ processed (oneEvent partition), Whole e.2 := by
  intro e he
  rw [processed_oneEvent, List.mem_singleton] at he
  rw [he]
  exact StoredEvents.EventOf.whole (m := message partition) ⟨⟨0, 0, rfl⟩, rfl⟩

theorem payload_oneEvent (partition : Int32) :
    ∀ e ∈ processed (oneEvent partition), e.2._payload.getD [] ≠ [] := by
  intro e he
  rw [processed_oneEvent, List.mem_singleton] at he
  rw [he]
  exact List.cons_ne_nil _ _

/-- Nothing comes from partition 0, and nothing is replayed. -/
theorem other_partition_kept_back :
    ∃ p, Produce.setup .willing (withDestination ['0']) = .ok p ∧
      ∃ out, process_events p (fun _ => true) (processed (oneEvent 1)) .empty = .ok out ∧
        Delivers (partitionFromEnv (withDestination ['0'])) (oneEvent 1) out.calls := by
  have hsetup : Produce.setup .willing (withDestination ['0']) = .ok _ := rfl
  refine ⟨_, hsetup, (partition_destination_iff hsetup _ (whole_oneEvent 1)
    (payload_oneEvent 1)).mpr fun _ e he => ?_⟩
  rw [processed_oneEvent, List.mem_singleton] at he
  rw [he]
  decide

/-- The event from partition 0 is kept back as well. -/
theorem own_partition_kept_back :
    ∃ p, Produce.setup .willing (withDestination ['0']) = .ok p ∧
      ¬ ∃ out, process_events p (fun _ => true) (processed (oneEvent 0)) .empty = .ok out ∧
        Delivers (partitionFromEnv (withDestination ['0'])) (oneEvent 0) out.calls := by
  have hsetup : Produce.setup .willing (withDestination ['0']) = .ok _ := rfl
  refine ⟨_, hsetup, ?_⟩
  rw [← partition_dst_setup hsetup, replay_delivers_iff _ (whole_oneEvent 0) (payload_oneEvent 0)]
  intro hother
  exact hother (by decide) _ (List.mem_singleton_self _) rfl

end Example

end KafkaK3.PartitionDestination
