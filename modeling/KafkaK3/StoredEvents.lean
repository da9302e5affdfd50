import KafkaK3.EventReplay
import KafkaK3.ImageDiscovery

/-!
# The events of stored messages

Every event in a map made from stored objects is the record of one of their
messages: it has the message's header, and a payload of the message's length. It
is whole, so the replay gets through such a map without a fault.
-/
namespace KafkaK3.StoredEvents
open ByteBuffer DecimalText S3Client MessageLayout Discovery KeyedIndex ImageDiscovery EventReplay

/-- The event is the record of the message. -/
structure EventOf (m : Message) (item : DiscoveryItem) : Prop where
  header : ∃ index csum, item._header = MessageHeader.set m index csum
  payload : item._payload.map List.length = if m.len = 0 then none else some m.len

/-- The field of a topic has room for its end. -/
theorem terminated_set (m : Message) (index csum : Int64) :
    0 ∈ (MessageHeader.set m index csum).topic_name := by
  have hfits : (m.topic_name.map Char.toUInt8).length < 2 ^ 31 := by
    rw [List.length_map]
    exact m.topic_fits
  have hroom : 0 < TopicMaxLen - ((m.topic_name.map Char.toUInt8).take (TopicMaxLen - 1)).length := by
    have hlong := List.length_take_le (TopicMaxLen - 1) (m.topic_name.map Char.toUInt8)
    have hmax : TopicMaxLen = 840 := rfl
    omega
  change 0 ∈ copyField TopicMaxLen (m.topic_name.map Char.toUInt8)
  rw [copyField_eq hfits]
  exact List.mem_append_right _ (List.mem_replicate.mpr ⟨hroom.ne', rfl⟩)

namespace EventOf

variable {m : Message} {item : DiscoveryItem} (h : EventOf m item)
include h

theorem payload_length : (item._payload.getD []).length = m.len := by
  have hpayload := h.payload
  cases hblock : item._payload with
  | none =>
      rw [hblock] at hpayload
      split at hpayload
      next hzero => exact hzero.symm
      next => cases hpayload
  | some block =>
      rw [hblock] at hpayload
      split at hpayload
      next => cases hpayload
      next => exact Option.some.inj hpayload

theorem whole : Whole item where
  terminated := by
    obtain ⟨index, csum, hheader⟩ := h.header
    rw [hheader]
    exact terminated_set m index csum
  payload_len := by
    obtain ⟨index, csum, hheader⟩ := h.header
    have hlen := m.len_lt
    rw [hheader, h.payload_length]
    exact Int64.toInt_ofNat_of_lt (by omega)

end EventOf

section Map

theorem eventOf_storedItem (inkey : Text) {buffer : Bytes} (index : Int32) {m : Message}
    (hroom : HeaderSize + m.len ≤ buffer.length) : EventOf m (storedItem inkey buffer index m) where
  header := ⟨_, _, rfl⟩
  payload := by
    rw [storedItem]
    split
    · rfl
    · simp only [Option.map_some, window_length hroom]

theorem values_collect {P : DiscoveryItem → Prop} {inkey : Text} {buffer : Bytes}
    {ms : List Message} (hitem : ∀ m ∈ ms, ∀ index, P (storedItem inkey buffer index m)) :
    ∀ {index : Int32} {output : DiscoveryMap}, Values P output →
      Values P (collect inkey buffer index ms output) := by
  induction ms with
  | nil => exact fun h => h
  | cons m ms ih =>
      intro index output h
      apply ih fun x hx => hitem x (List.mem_cons_of_mem _ hx)
      rw [collectMessage]
      split
      · exact h.insert (hitem m List.mem_cons_self index)
      · exact h

theorem values_objects {P : DiscoveryItem → Prop} (objects : List (Text × List Message))
    (hitem : ∀ o ∈ objects, ∀ m ∈ o.2, ∀ item, EventOf m item → P item) :
    ∀ {output : DiscoveryMap}, Values P output →
      Values P (objects.foldl (fun output o => collectObject o.1 o.2 output) output) := by
  induction objects with
  | nil => exact fun h => h
  | cons o objects ih =>
      intro output h
      apply ih fun x hx => hitem x (List.mem_cons_of_mem _ hx)
      apply values_collect _ h
      intro m hm index
      have hmem := List.mem_of_mem_take hm
      apply hitem o List.mem_cons_self m hmem
      apply eventOf_storedItem
      rw [imageBuffer, List.length_append]
      exact Nat.le_trans (room_in_buffer hmem) (Nat.le_add_right ..)

/-- A map made from stored objects holds events of their messages only. -/
theorem event_of_message {bucket : Text} {indelete : Bool} {disk : Disk}
    {objects : List (Text × List Message)} (hobjects : ∀ o ∈ objects, o.2 ≠ []) {r : Replay}
    (hr : batch_discovery ⟨true, bucket⟩ indelete (objects.map fun o => (o.1, downloaded o.2))
      ⟨∅, [], disk⟩ = .ok r) :
    ∀ e ∈ processed r.output, ∃ o ∈ objects, ∃ m ∈ o.2, EventOf m e.2 := by
  obtain ⟨reports, left, hread⟩ :=
    batch_discovery_images bucket indelete objects hobjects ⟨∅, [], disk⟩
  rw [hread] at hr
  obtain rfl := Except.ok.inj hr
  have hvalues := values_objects (P := fun item => ∃ o ∈ objects, ∃ m ∈ o.2, EventOf m item) objects
    (fun o ho m hm item hitem => ⟨o, ho, m, hm, hitem⟩) Values.empty
  exact fun e he => hvalues.of_mem_toList he

theorem whole_of_objects {bucket : Text} {indelete : Bool} {disk : Disk}
    {objects : List (Text × List Message)} (hobjects : ∀ o ∈ objects, o.2 ≠ []) {r : Replay}
    (hr : batch_discovery ⟨true, bucket⟩ indelete (objects.map fun o => (o.1, downloaded o.2))
      ⟨∅, [], disk⟩ = .ok r) :
    ∀ e ∈ processed r.output, Whole e.2 := by
  intro e he
  obtain ⟨_, _, m, _, hevent⟩ := event_of_message hobjects hr e he
  exact hevent.whole

end Map

end KafkaK3.StoredEvents
