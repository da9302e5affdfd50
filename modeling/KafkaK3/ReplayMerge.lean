import KafkaK3.ImageDiscovery

/-!
# Messages of several objects in one map

The key of the map is made of timestamp and offset, while a message is known by
its partition and offset. Two messages of different partitions which share both
numbers share one place in the map, and the later one takes it.
-/
namespace KafkaK3.ReplayMerge
open ByteBuffer DecimalText S3Client MessageLayout StashImage Discovery KeyedIndex ImageDiscovery

/-- The map holds an entry of the message, not of one in another partition. -/
def HasEntry (vmap : DiscoveryMap) (m : Message) : Prop :=
  ∃ (key : Text) (item : DiscoveryItem), vmap[key]? = some item ∧
    item._header.details.timestamp = m.timestamp ∧
    item._header.details.partition.toInt = m.partition.toInt ∧
    item._header.details.offset = m.offset

/-- All messages in a collection of objects. -/
def storedMessages (objects : List (Text × List Message)) : List Message :=
  objects.flatMap Prod.snd

/-- Those of them which the counters of the objects reach. -/
def reachedMessages (objects : List (Text × List Message)) : List Message :=
  objects.flatMap fun o => discovered o.2

/-- Timestamp and offset tell the partition. -/
def PartitionsTold (ms : List Message) : Prop :=
  ∀ a ∈ ms, ∀ b ∈ ms, a.timestamp = b.timestamp → a.offset = b.offset → a.partition = b.partition

/-- Every timestamp and offset is read from some record. -/
def Reached (objects : List (Text × List Message)) : Prop :=
  ∀ m ∈ storedMessages objects, ∃ x ∈ reachedMessages objects,
    x.timestamp = m.timestamp ∧ x.offset = m.offset

/-- The header of the item is that of the message. -/
def HeaderOf (m : Message) (item : DiscoveryItem) : Prop :=
  ∃ index, item._header = storedHeader index m

theorem reached_subset {objects : List (Text × List Message)} {m : Message}
    (hm : m ∈ reachedMessages objects) : m ∈ storedMessages objects := by
  obtain ⟨o, ho, hmo⟩ := List.mem_flatMap.mp hm
  exact List.mem_flatMap.mpr ⟨o, ho, List.mem_of_mem_take hmo⟩

/-- The counter of an object with fewer than 2^32 messages reaches all of them. -/
theorem reached_of_length {objects : List (Text × List Message)}
    (h : ∀ o ∈ objects, o.2.length < 2 ^ 32) : Reached objects := by
  intro m hm
  obtain ⟨o, ho, hmo⟩ := List.mem_flatMap.mp hm
  have hall := discovered_eq (h o ho)
  exact ⟨m, List.mem_flatMap.mpr ⟨o, ho, hall.symm ▸ hmo⟩, rfl, rfl⟩

theorem indexes_objects (objects : List (Text × List Message))
    (hts : ∀ m ∈ storedMessages objects, m.timestamp ≠ 0) :
    ∀ {before : List Message} {output : DiscoveryMap},
      Indexes messageKey HeaderOf before output →
      Indexes messageKey HeaderOf (before ++ reachedMessages objects)
        (objects.foldl (fun output o => collectObject o.1 o.2 output) output) := by
  induction objects with
  | nil =>
      intro before output h
      rw [reachedMessages, List.flatMap_nil, List.append_nil]
      exact h
  | cons o objects ih =>
      intro before output h
      rw [reachedMessages, List.flatMap_cons, ← List.append_assoc]
      apply ih
      · exact fun m hm => hts m (List.mem_append_right _ hm)
      · apply indexes_collect _ _ h
        · exact fun m hm => hts m (List.mem_append_left _ (List.mem_of_mem_take hm))
        · exact fun m _ index => ⟨index, rfl⟩

/-- An entry of a message stands under the key of the message. -/
theorem HasEntry.lookup {vmap : DiscoveryMap} {ms : List Message} {m : Message}
    (h : HasEntry vmap m) (hindex : Indexes messageKey HeaderOf ms vmap) :
    ∃ item, vmap[messageKey m]? = some item ∧
      item._header.details.partition.toInt = m.partition.toInt ∧
      ∃ x ∈ ms, messageKey x = messageKey m := by
  obtain ⟨key, item, hget, htimestamp, hpartition, hoffset⟩ := h
  obtain ⟨x, hx, rfl, index, hheader⟩ := hindex.sound key item hget
  rw [hheader] at htimestamp hoffset
  have hkey : messageKey x = messageKey m :=
    discoveryTimestamp_inj.mpr ⟨htimestamp, hoffset⟩
  exact ⟨item, hkey ▸ hget, hpartition, x, hx, hkey⟩

theorem all_entries_iff {objects : List (Text × List Message)} {vmap : DiscoveryMap}
    (hindex : Indexes messageKey HeaderOf (reachedMessages objects) vmap) :
    (∀ m ∈ storedMessages objects, HasEntry vmap m) ↔
      PartitionsTold (storedMessages objects) ∧ Reached objects := by
  constructor
  · intro h
    constructor
    · intro a ha b hb ht ho
      obtain ⟨item, hgeta, hpa, -⟩ := (h a ha).lookup hindex
      obtain ⟨item', hgetb, hpb, -⟩ := (h b hb).lookup hindex
      have hkey : messageKey a = messageKey b := discoveryTimestamp_inj.mpr ⟨ht, ho⟩
      rw [hkey, hgetb] at hgeta
      obtain rfl := Option.some.inj hgeta
      exact Int32.toInt_inj.mp (hpa.symm.trans hpb)
    · intro m hm
      obtain ⟨_, -, -, x, hx, hkey⟩ := (h m hm).lookup hindex
      exact ⟨x, hx, discoveryTimestamp_inj.mp hkey⟩
  · intro ⟨htold, hreached⟩ m hm
    obtain ⟨x, hx, ht, ho⟩ := hreached m hm
    obtain ⟨item, hget, y, hy, hkey, index, hheader⟩ := hindex.lookup hx
    obtain ⟨hty, hoy⟩ := discoveryTimestamp_inj.mp hkey
    have hpartition := htold y (reached_subset hy) m hm (hty.trans ht) (hoy.trans ho)
    refine ⟨messageKey x, item, hget, ?_⟩
    rw [hheader]
    refine ⟨hty.trans ht, ?_, hoy.trans ho⟩
    rw [← hpartition]
    exact Int32.toInt_toInt64 y.partition

/-- Discovery over stored objects loses no message exactly when timestamp and
offset tell the partition and every record is reached, as it is in objects of
fewer than 2^32 messages. -/
theorem no_message_lost_iff (bucket : Text) (indelete : Bool) (disk : Disk)
    (objects : List (Text × List Message)) (hobjects : ∀ o ∈ objects, o.2 ≠ [])
    (hts : ∀ m ∈ storedMessages objects, m.timestamp ≠ 0) :
    (∃ r, batch_discovery ⟨true, bucket⟩ indelete
          (objects.map fun o => (o.1, downloaded o.2)) ⟨∅, [], disk⟩ = .ok r ∧
        ∀ m ∈ storedMessages objects, HasEntry r.output m) ↔
      PartitionsTold (storedMessages objects) ∧ Reached objects := by
  obtain ⟨reports, left, hread⟩ :=
    batch_discovery_images bucket indelete objects hobjects ⟨∅, [], disk⟩
  have hindex := indexes_objects objects hts Indexes.empty
  rw [List.nil_append] at hindex
  rw [← all_entries_iff hindex, hread]
  constructor
  · intro ⟨r, hr, hentries⟩
    cases hr
    exact hentries
  · exact fun hentries => ⟨_, rfl, hentries⟩

/-- Two partitions whose messages have their offsets and timestamps apart. -/
theorem two_partitions_kept :
    ∃ r, batch_discovery ⟨true, []⟩ false
        ([(['k'], [Message.plain ['t'] 0 0 5 [97],
          .plain ['t'] 1 0 6 [98]])].map fun o => (o.1, downloaded o.2))
        ⟨∅, [], ∅⟩ = .ok r ∧
      ∀ m ∈ storedMessages [(['k'], [Message.plain ['t'] 0 0 5 [97],
        .plain ['t'] 1 0 6 [98]])], HasEntry r.output m := by
  apply (no_message_lost_iff [] false ∅ _ (by decide) (by decide)).mpr
  constructor
  · unfold PartitionsTold
    decide
  · apply reached_of_length
    decide

/-- Partitions 0 and 1 with the same offset and timestamp: one entry for both. -/
theorem same_offset_overwritten :
    ¬ ∃ r, batch_discovery ⟨true, []⟩ false
        ([(['k'], [Message.plain ['t'] 0 0 5 [97],
          .plain ['t'] 1 0 5 [98]])].map fun o => (o.1, downloaded o.2))
        ⟨∅, [], ∅⟩ = .ok r ∧
      ∀ m ∈ storedMessages [(['k'], [Message.plain ['t'] 0 0 5 [97],
        .plain ['t'] 1 0 5 [98]])], HasEntry r.output m := by
  intro ⟨r, hr, hentries⟩
  let objects : List (Text × List Message) :=
    [(['k'], [Message.plain ['t'] 0 0 5 [97],
      .plain ['t'] 1 0 5 [98]])]
  obtain ⟨reports, left, hread⟩ :=
    batch_discovery_images [] false objects (by decide) ⟨∅, [], ∅⟩
  have hindex := indexes_objects objects (by decide) Indexes.empty
  rw [List.nil_append] at hindex
  rw [show batch_discovery _ _ _ _ = _ from hread] at hr
  cases hr
  have htold := ((all_entries_iff hindex).mp hentries).1
  revert htold
  unfold PartitionsTold
  decide

end KafkaK3.ReplayMerge
