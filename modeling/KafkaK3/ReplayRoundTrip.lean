import KafkaK3.ImageDiscovery

/-!
# Backup and replay of one object

An object which was stored and downloaded again yields its messages with their
headers. Their payloads come back only where they happen to coincide with the
bytes behind the first header, since every item takes its payload from there.
-/
namespace KafkaK3.ReplayRoundTrip
open ByteBuffer DecimalText S3Client MessageLayout StashImage Discovery KeyedIndex ImageDiscovery

/-- The item gives the message back. -/
structure Carries (m : Message) (item : DiscoveryItem) : Prop where
  partition : item._header.details.partition.toInt = m.partition.toInt
  offset : item._header.details.offset = m.offset
  timestamp : item._header.details.timestamp = m.timestamp
  payload_len : item._header.details.payload_len.toInt = m.len
  csum : item._header.details.csum = messageChecksum m.bytes m.len
  payload : item._payload.getD [] = m.bytes

/-- One item for each message, and the right one. -/
structure RoundTrip (ms : List Message) (output : DiscoveryMap) : Prop where
  size : output.size = ms.length
  items : ∀ m ∈ ms, ∃ (key : Text) (item : DiscoveryItem), output[key]? = some item ∧
    Carries m item

/-- Every payload agrees with the leading bytes of the first payload, and where it
is longer with the records of the messages behind the first one. -/
def PayloadsInFront : List Message → Prop
  | [] => True
  | first :: rest => ∀ m ∈ first :: rest,
      m.bytes <+: first.bytes ++ records (Int32.ofNat rest.length - 1) rest

/-- The item is one which the replay can make of the message in the object of `ms`. -/
def ItemOf (inkey : Text) (ms : List Message) (m : Message) (item : DiscoveryItem) : Prop :=
  ∃ index, item = storedItem inkey (imageBuffer ms) index m

theorem payloadsInFront_iff {ms : List Message} (hms : ms ≠ []) :
    PayloadsInFront ms ↔ ∀ m ∈ ms, m.bytes <+: (image ms).drop HeaderSize := by
  obtain ⟨first, rest, rfl⟩ := List.exists_cons_of_ne_nil hms
  have hhead := (storedHeader (Int32.ofNat rest.length) first).bytes_length
  have hfront : (image (first :: rest)).drop HeaderSize =
      first.bytes ++ records (Int32.ofNat rest.length - 1) rest := by
    rw [image_eq, List.length_cons, Nat.add_sub_cancel, records, record, List.append_assoc, ← hhead]
    exact List.drop_left
  rw [hfront]
  rfl

/-- The payload of an item is right exactly when the message's payload stands
behind the first header. -/
theorem payload_eq_iff (inkey : Text) {ms : List Message} {m : Message} (hm : m ∈ ms)
    (index : Int32) :
    (storedItem inkey (imageBuffer ms) index m)._payload.getD [] = m.bytes ↔
      m.bytes <+: (image ms).drop HeaderSize := by
  have hwindow : window (imageBuffer ms) HeaderSize m.len = window (image ms) HeaderSize m.len :=
    window_append _ (room_in_buffer hm)
  by_cases hlen : m.len = 0
  · have hempty : m.bytes = [] := List.length_eq_zero_iff.mp hlen
    simp [storedItem, hlen, hempty]
  · simp only [storedItem, hlen, if_false, Option.getD_some, hwindow]
    exact window_eq_iff

theorem carries_iff (inkey : Text) {ms : List Message} {m : Message} (hm : m ∈ ms)
    (index : Int32) :
    Carries m (storedItem inkey (imageBuffer ms) index m) ↔
      m.bytes <+: (image ms).drop HeaderSize := by
  rw [← payload_eq_iff inkey hm index]
  constructor
  · exact fun h => h.payload
  · intro h
    have hlen := m.len_lt
    refine ⟨?_, rfl, rfl, ?_, rfl, h⟩
    · exact Int32.toInt_toInt64 m.partition
    · exact Int64.toInt_ofNat_of_lt (by omega)

/-- No two messages share both timestamp and offset. -/
def Distinct (ms : List Message) : Prop :=
  ms.Pairwise fun a b => ¬ (a.timestamp = b.timestamp ∧ a.offset = b.offset)

theorem keys_nodup {ms : List Message} (h : Distinct ms) : (ms.map messageKey).Nodup := by
  rw [List.Nodup, List.pairwise_map]
  apply h.imp
  intro a b hab hkey
  exact hab (discoveryTimestamp_inj.mp hkey)

theorem indexes_object (inkey : Text) {ms : List Message} (hts : ∀ m ∈ ms, m.timestamp ≠ 0) :
    Indexes messageKey (ItemOf inkey ms) (discovered ms) (collectObject inkey ms ∅) := by
  have h : Indexes messageKey (ItemOf inkey ms) ([] ++ discovered ms)
      (collectObject inkey ms ∅) := by
    apply indexes_collect _ _ Indexes.empty
    · exact fun m hm => hts m (List.mem_of_mem_take hm)
    · exact fun m _ index => ⟨index, rfl⟩
  rwa [List.nil_append] at h

/-- The map has as many items as there are messages which the counter reaches. -/
theorem size_object (inkey : Text) {ms : List Message} (hts : ∀ m ∈ ms, m.timestamp ≠ 0)
    (hdistinct : Distinct ms) : (collectObject inkey ms ∅).size = ms.length % 2 ^ 32 := by
  have hnodup : ((discovered ms).map messageKey).Nodup := by
    apply List.Nodup.sublist _ (keys_nodup hdistinct)
    exact (List.take_sublist ..).map messageKey
  rw [(indexes_object inkey hts).size_eq hnodup, discovered, List.length_take]
  exact Nat.min_eq_left (Nat.mod_le ..)

theorem roundTrip_object_iff (inkey : Text) {ms : List Message} (hts : ∀ m ∈ ms, m.timestamp ≠ 0)
    (hdistinct : Distinct ms) :
    RoundTrip ms (collectObject inkey ms ∅) ↔
      ms.length < 2 ^ 32 ∧ ∀ m ∈ ms, m.bytes <+: (image ms).drop HeaderSize := by
  have hindex := indexes_object inkey hts
  have hsize := size_object inkey hts hdistinct
  constructor
  · intro h
    have hlen : ms.length < 2 ^ 32 := by
      rw [← h.size, hsize]
      exact Nat.mod_lt _ (by decide)
    refine ⟨hlen, fun m hm => ?_⟩
    obtain ⟨key, item, hget, hcarries⟩ := h.items m hm
    obtain ⟨x, hx, -, index, rfl⟩ := hindex.sound key item hget
    have hxms : x ∈ ms := List.mem_of_mem_take hx
    -- timestamp and offset in the header say whose item it is
    have hkey : messageKey x = messageKey m :=
      discoveryTimestamp_inj.mpr ⟨hcarries.timestamp, hcarries.offset⟩
    obtain rfl := List.inj_on_of_nodup_map (keys_nodup hdistinct) hxms hm hkey
    exact (carries_iff inkey hm index).mp hcarries
  · intro ⟨hlen, hpayloads⟩
    have hall := discovered_eq hlen
    refine ⟨by rw [hsize, Nat.mod_eq_of_lt hlen], fun m hm => ?_⟩
    obtain ⟨item, hget, x, hx, hkey, index, rfl⟩ := hindex.lookup (hall.symm ▸ hm)
    rw [hall] at hx
    obtain rfl := List.inj_on_of_nodup_map (keys_nodup hdistinct) hx hm hkey
    exact ⟨_, _, hget, (carries_iff inkey hm index).mpr (hpayloads x hm)⟩

/-- The object of a bundle, downloaded and read into an empty map. -/
theorem round_trip_iff (bucket inkey : Text) (indelete : Bool) (disk : Disk) (ms : List Message)
    (hms : ms ≠ []) (hts : ∀ m ∈ ms, m.timestamp ≠ 0) (hdistinct : Distinct ms) :
    (∃ r, batch_discovery_bykey inkey ⟨true, bucket⟩ (downloaded ms) indelete ⟨∅, [], disk⟩ =
        .ok r ∧ RoundTrip ms r.output) ↔
      ms.length < 2 ^ 32 ∧ PayloadsInFront ms := by
  obtain ⟨reports, left, hread⟩ :=
    batch_discovery_bykey_image bucket indelete hms inkey ⟨∅, [], disk⟩
  rw [payloadsInFront_iff hms, ← roundTrip_object_iff inkey hts hdistinct, hread]
  constructor
  · intro ⟨r, hr, htrip⟩
    cases hr
    exact htrip
  · exact fun htrip => ⟨_, rfl, htrip⟩

/-- Of two messages the second one comes back whose byte is the first one's first byte. -/
theorem two_messages_return :
    ∃ r, batch_discovery_bykey ['k'] ⟨true, []⟩
      (downloaded [.plain ['t'] 0 0 1 [97, 98], .plain ['t'] 0 1 2 [97]]) false ⟨∅, [], ∅⟩ = .ok r ∧
      RoundTrip [.plain ['t'] 0 0 1 [97, 98], .plain ['t'] 0 1 2 [97]] r.output :=
  (round_trip_iff [] ['k'] false ∅ [.plain ['t'] 0 0 1 [97, 98], .plain ['t'] 0 1 2 [97]]
    (by decide) (by decide) (by simp [Distinct, Message.plain])).mpr
      ⟨by decide, fun m hm => by
        rcases List.mem_pair.mp hm with rfl | rfl
        · exact List.prefix_append ..
        · exact ⟨98 :: records _ _, rfl⟩⟩

/-- Of two one-byte messages the second one comes back with the first one's byte. -/
theorem second_payload_lost :
    ¬ ∃ r, batch_discovery_bykey ['k'] ⟨true, []⟩
      (downloaded [.plain ['t'] 0 0 1 [97],
        .plain ['t'] 0 1 2 [98]]) false ⟨∅, [], ∅⟩ = .ok r ∧
      RoundTrip [.plain ['t'] 0 0 1 [97],
        .plain ['t'] 0 1 2 [98]] r.output := by
  intro ⟨r, hr, htrip⟩
  obtain ⟨reports, left, hread⟩ := batch_discovery_bykey_image [] false
    (List.cons_ne_nil (Message.plain ['t'] 0 0 1 [97]) [.plain ['t'] 0 1 2 [98]]) ['k'] ⟨∅, [], ∅⟩
  rw [hread] at hr
  cases hr
  have hfront := (roundTrip_object_iff ['k'] (by decide) (by simp [Distinct, Message.plain])).mp htrip
  have hsecond := (payloadsInFront_iff (by decide)).mpr hfront.2 _
    (List.mem_cons_of_mem _ (List.mem_singleton_self _))
  simp [Message.bytes, Message.plain] at hsecond

end KafkaK3.ReplayRoundTrip
