import KafkaK3.StoredEvents
import KafkaK3.ReplayMerge

/-!
# Which events are replayed

The discovery keeps an event without a payload, and the replay passes over it. A
tombstone is an event without a payload.
-/
namespace KafkaK3.ReplayCompleteness
open ByteBuffer DecimalText S3Client MessageLayout Discovery KeyedIndex ImageDiscovery
open ReplayProducer EventReplay StoredEvents ReplayMerge

/-- The loop hands over one message for each entry of the map, in the order of the map. -/
def ReplaysAll (p : Produce) (produced : ℕ → Bool) (vmap : DiscoveryMap) : Prop :=
  ∃ out, process_events p produced (processed vmap) .empty = .ok out ∧
    out.calls.map ProduceCall.message = (processed vmap).map fun e => handed e.2

/-- With no destination the entries with a payload are handed over, and no others. -/
theorem replays_filtered {p : Produce} (hp : p.partition_dst = PARTITION_UA) (produced : ℕ → Bool)
    {vmap : DiscoveryMap} (h : ∀ e ∈ processed vmap, Whole e.2) :
    ReplaysAll p produced vmap ↔
      ((processed vmap).filter fun e => e.2._payload.getD [] ≠ []).map (fun e => handed e.2) =
        (processed vmap).map fun e => handed e.2 := by
  obtain ⟨reports, hrun⟩ := process_events_whole (p := p) h produced .empty
  rw [← sent_unassigned hp]
  constructor
  · intro ⟨out, hout, hcalls⟩
    rw [hrun] at hout
    obtain rfl := Except.ok.inj hout
    exact hcalls
  · exact fun hcalls => ⟨_, hrun, hcalls⟩

theorem payload_len_eq_zero_iff {item : DiscoveryItem} (h : Whole item) :
    item._header.details.payload_len = 0 ↔ item._payload.getD [] = [] := by
  rw [← Int64.toInt_inj, h.payload_len]
  simp

theorem replaysAll_iff {p : Produce} (hp : p.partition_dst = PARTITION_UA) (produced : ℕ → Bool)
    {vmap : DiscoveryMap} (h : ∀ e ∈ processed vmap, Whole e.2) :
    ReplaysAll p produced vmap ↔
      ∀ e ∈ processed vmap, e.2._header.details.payload_len ≠ 0 := by
  rw [replays_filtered hp produced h]
  constructor
  · intro hcalls e he hzero
    have hlength := congrArg List.length hcalls
    rw [List.length_map, List.length_map, List.length_filter_eq_length_iff] at hlength
    have hsome := hlength e he
    rw [decide_eq_true_eq] at hsome
    exact hsome ((payload_len_eq_zero_iff (h e he)).mp hzero)
  · intro hsome
    rw [List.filter_eq_self.mpr]
    intro e he
    rw [decide_eq_true_eq]
    exact mt (payload_len_eq_zero_iff (h e he)).mpr (hsome e he)

/-- A map made from stored objects is replayed in full exactly when no entry has an
empty payload. -/
theorem replays_all_iff {bucket : Text} {indelete : Bool} {disk : Disk}
    {objects : List (Text × List Message)} (hobjects : ∀ o ∈ objects, o.2 ≠ []) {r : Replay}
    (hr : batch_discovery ⟨true, bucket⟩ indelete (objects.map fun o => (o.1, downloaded o.2))
      ⟨∅, [], disk⟩ = .ok r)
    {p : Produce} (hp : p.partition_dst = PARTITION_UA) (produced : ℕ → Bool) :
    ReplaysAll p produced r.output ↔
      ∀ e ∈ processed r.output, e.2._header.details.payload_len ≠ 0 :=
  replaysAll_iff hp produced (whole_of_objects hobjects hr)

/-- Two messages which both have a payload. -/
def twoPayloads : List (Text × List Message) :=
  [(['k'], [Message.plain ['t'] 0 0 5 [97] Message.letter_fits Message.letter_fits,
    .plain ['t'] 0 1 6 [98] Message.letter_fits Message.letter_fits])]

theorem two_payloads_replayed :
    ∃ r, batch_discovery ⟨true, []⟩ false (twoPayloads.map fun o => (o.1, downloaded o.2))
        ⟨∅, [], ∅⟩ = .ok r ∧
      ReplaysAll .unassigned (fun _ => true) r.output := by
  obtain ⟨reports, left, hread⟩ :=
    batch_discovery_images [] false twoPayloads (by decide) ⟨∅, [], ∅⟩
  refine ⟨_, hread, (replays_all_iff (by decide) hread rfl _).mpr ?_⟩
  intro e he hzero
  obtain ⟨o, ho, m, hm, hevent⟩ := event_of_message (by decide) hread e he
  have hempty := (payload_len_eq_zero_iff hevent.whole).mp hzero
  have hlen := hevent.payload_length
  rw [hempty, List.length_nil] at hlen
  have hsome : ∀ o ∈ twoPayloads, ∀ m ∈ o.2, m.len ≠ 0 := by decide
  exact hsome o ho m hm hlen.symm

/-- A key without a payload. -/
def tombstone : Message where
  topic_name := ['t']
  partition := 0
  offset := 1
  timestamp := 6
  key := some [107]
  payload := none
  topic_fits := Message.letter_fits
  key_fits := Message.letter_fits
  payload_fits := Message.nothing_fits

def withTombstone : List (Text × List Message) :=
  [(['k'], [Message.plain ['t'] 0 0 5 [97] Message.letter_fits Message.letter_fits, tombstone])]

/-- The tombstone has an entry, and it is not replayed. -/
theorem tombstone_left_out :
    ∃ r, batch_discovery ⟨true, []⟩ false (withTombstone.map fun o => (o.1, downloaded o.2))
        ⟨∅, [], ∅⟩ = .ok r ∧
      ¬ ReplaysAll .unassigned (fun _ => true) r.output := by
  obtain ⟨reports, left, hread⟩ :=
    batch_discovery_images [] false withTombstone (by decide) ⟨∅, [], ∅⟩
  refine ⟨_, hread, fun hall => ?_⟩
  have hindex := indexes_objects withTombstone (by decide) Indexes.empty
  rw [List.nil_append] at hindex
  obtain ⟨item, hget, x, hx, hkey, index, hheader⟩ := hindex.lookup (a := tombstone) (by decide)
  have hempty : ∀ x ∈ reachedMessages withTombstone, messageKey x = messageKey tombstone →
      x.len = 0 := by
    decide
  have hwhole := whole_of_objects (by decide) hread
  have hentry := (replaysAll_iff rfl _ hwhole).mp hall (messageKey tombstone, item)
    (Std.TreeMap.mem_toList_iff_getElem?_eq_some.mpr hget)
  apply hentry
  rw [hheader, storedHeader_payload_len, hempty x hx hkey]
  rfl

end KafkaK3.ReplayCompleteness
