import KafkaK3.ByteBuffer
import KafkaK3.DecimalText

/-!
# Kafka messages and the record header

`Message` is the part of `RdKafka::Message` which the backup reads. Its lengths
are 32-bit on Kafka's wire, and the type says so; partitions are 32-bit and
offsets and timestamps 64-bit integers. `MessageHeader` is the packed structure
of `sizeof(MessageHeader) = 1024` bytes which the backup puts in front of every
payload and through which the replay reads the bytes back. Both directions are
here, with the round trip between them.
-/
namespace KafkaK3.MessageLayout
open ByteBuffer DecimalText

/-- A tombstone has no payload; `len` does not tell it from an empty one. -/
structure Message where
  topic_name : Text
  partition : Int32
  offset : Int64
  timestamp : Int64
  key : Option Bytes
  payload : Option Bytes
  topic_fits : topic_name.length < 2 ^ 31
  key_fits : (key.getD []).length < 2 ^ 31
  payload_fits : (payload.getD []).length < 2 ^ 31
  deriving DecidableEq, Repr

namespace Message

/-- The bytes which `payload()` points at, `len()` of them. -/
def bytes (m : Message) : Bytes := m.payload.getD []

def len (m : Message) : ℕ := m.bytes.length

def keyBytes (m : Message) : Bytes := m.key.getD []

theorem len_lt (m : Message) : m.len < 2 ^ 31 := m.payload_fits

/-- A message without a key. -/
def plain (topic_name : Text) (partition : Int32) (offset timestamp : Int64) (payload : Bytes)
    (htopic : topic_name.length < 2 ^ 31 := by decide)
    (hpayload : payload.length < 2 ^ 31 := by decide) : Message where
  topic_name := topic_name
  partition := partition
  offset := offset
  timestamp := timestamp
  key := none
  payload := some payload
  topic_fits := htopic
  key_fits := by decide
  payload_fits := hpayload

/-- A field of one letter or byte. -/
theorem letter_fits : 1 < 2 ^ 31 := by decide

theorem nothing_fits : 0 < 2 ^ 31 := by decide

end Message

/-- The loop of `Checksum::messageChecksum`: `len` rounds with the sum and the
index both in `int`, two's complement when they overflow. -/
def checksumLoop (inp : Bytes) : ℕ → Int32 → Int32 → Int32
  | 0, i, _ => i
  | len + 1, i, j =>
      checksumLoop inp len (i + Int32.ofNat (inp.getD j.toInt.toNat 0).toNat) (j + 1)

def messageChecksum (inp : Bytes) (len : ℕ) : Int64 := (checksumLoop inp len 0 0).toInt64

structure MessageHeaderDetails where
  header_version : Int64
  payload_len : Int64
  partition : Int64
  offset : Int64
  timestamp : Int64
  index : Int64
  csum : Int64
  deriving DecidableEq, Repr

def HeaderSize : ℕ := 1024

def KeyMaxLen : ℕ := 128

/-- `sizeof(MessageHeaderDetails)`: seven packed 64-bit fields. -/
def DetailsSize : ℕ := 7 * 8

def TopicMaxLen : ℕ := HeaderSize - DetailsSize - KeyMaxLen

/-- The two character arrays have their sizes by type, so a header always takes
`HeaderSize` bytes. -/
structure MessageHeader where
  details : MessageHeaderDetails
  key_field : Bytes
  topic_name : Bytes
  key_field_size : key_field.length = KeyMaxLen
  topic_name_size : topic_name.length = TopicMaxLen
  deriving DecidableEq, Repr

/-- The `int` length computed before a `memcpy` into a field of `size` bytes. -/
def clippedLen (size length : ℕ) : ℤ :=
  let len := (Int32.ofNat length).toInt
  if len > (size - 1 : ℕ) then (size - 1 : ℕ) else len

/-- A zeroed field of `size` bytes with the clipped source copied to its start. -/
def copyField (size : ℕ) (src : Bytes) : Bytes :=
  write (List.replicate size 0) 0 (src.take (clippedLen size src.length).toNat)

theorem clippedLen_le (size length : ℕ) : (clippedLen size length).toNat ≤ size - 1 := by
  unfold clippedLen
  dsimp only
  split <;> omega

@[simp] theorem copyField_length (size : ℕ) (src : Bytes) : (copyField size src).length = size := by
  have hclip := clippedLen_le size src.length
  rw [copyField, write_length, List.length_replicate]
  simp only [List.length_take, List.length_replicate]
  omega

/-- The longest prefix which leaves the last byte of the field zero. -/
theorem copyField_eq {size : ℕ} {src : Bytes} (h : src.length < 2 ^ 31) :
    copyField size src =
      src.take (size - 1) ++ List.replicate (size - (src.take (size - 1)).length) 0 := by
  have hint : (Int32.ofNat src.length).toInt = src.length := Int32.toInt_ofNat_of_lt h
  have hclip : src.take (clippedLen size src.length).toNat = src.take (size - 1) := by
    unfold clippedLen
    dsimp only
    rw [hint]
    split
    · rfl
    · rw [Int.toNat_natCast, List.take_length, List.take_of_length_le (by omega)]
  simp only [copyField, hclip, write, List.take_zero, List.nil_append, List.drop_replicate,
    Nat.zero_add]

namespace MessageHeader

/-- `MessageHeader::set` on a header which it first clears. -/
def set (pmsg : Message) (in_index in_csum : Int64) : MessageHeader where
  details :=
    { header_version := 1
      timestamp := pmsg.timestamp
      partition := pmsg.partition.toInt64
      offset := pmsg.offset
      index := in_index
      csum := in_csum
      payload_len := Int64.ofNat pmsg.len }
  key_field := copyField KeyMaxLen pmsg.keyBytes
  topic_name := copyField TopicMaxLen (pmsg.topic_name.map Char.toUInt8)
  key_field_size := copyField_length _ _
  topic_name_size := copyField_length _ _

/-- The packed structure as it lies in memory. -/
def bytes (h : MessageHeader) : Bytes :=
  int64Bytes h.details.header_version ++ (int64Bytes h.details.payload_len ++
    (int64Bytes h.details.partition ++ (int64Bytes h.details.offset ++
      (int64Bytes h.details.timestamp ++ (int64Bytes h.details.index ++
        (int64Bytes h.details.csum ++ (h.key_field ++ h.topic_name)))))))

@[simp] theorem bytes_length (h : MessageHeader) : h.bytes.length = HeaderSize := by
  simp only [bytes, List.length_append, int64Bytes_length, h.key_field_size, h.topic_name_size]
  rfl

/-- The structure seen through a pointer to `HeaderSize` bytes. -/
def ofBytes (bs : Bytes) (hbs : bs.length = HeaderSize) : MessageHeader where
  details :=
    { header_version := int64Value (window bs 0 8)
      payload_len := int64Value (window bs 8 8)
      partition := int64Value (window bs 16 8)
      offset := int64Value (window bs 24 8)
      timestamp := int64Value (window bs 32 8)
      index := int64Value (window bs 40 8)
      csum := int64Value (window bs 48 8) }
  key_field := window bs DetailsSize KeyMaxLen
  topic_name := window bs (DetailsSize + KeyMaxLen) TopicMaxLen
  key_field_size := window_length (by rw [hbs]; decide)
  topic_name_size := window_length (by rw [hbs]; decide)

/-- What was set is what is read back. -/
theorem ofBytes_bytes (h : MessageHeader) : ofBytes h.bytes h.bytes_length = h := by
  have hkey := h.key_field_size
  have htopic := h.topic_name_size
  obtain ⟨⟨v, l, p, o, t, i, c⟩, k, n, hk, hn⟩ := h
  simp only [ofBytes, MessageHeader.mk.injEq, MessageHeaderDetails.mk.injEq]
  simp only [bytes, window, DetailsSize, KeyMaxLen, TopicMaxLen, HeaderSize] at *
  simp [List.drop_append, hkey, htopic, List.drop_of_length_le, List.take_of_length_le]

end MessageHeader

end KafkaK3.MessageLayout
