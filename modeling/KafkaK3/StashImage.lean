import KafkaK3.MessageLayout

/-!
# The stash image and its S3 key

One PUT stores a whole bundle. Its image is built in one zeroed region: a
running offset places each header and behind it the payload, a descending
counter numbers the records, and the timestamp of the last record is kept for
the key. `records` is the same format as a plain concatenation; `image_eq` says
that the pointer loop produces exactly that.

Byte counts are natural numbers, since they measure bytes held in memory; the
record counter is the 32-bit `int` of the source.
-/
namespace KafkaK3.StashImage
open ByteBuffer DecimalText MessageLayout

/-- `Consume::messagesSize`. -/
def messagesSize (messages : List Message) : ℕ :=
  messages.foldl (fun rval m => rval + m.len) 0

private theorem foldl_len (messages : List Message) (n : ℕ) :
    messages.foldl (fun rval m => rval + m.len) n = n + messagesSize messages := by
  induction messages generalizing n with
  | nil => rfl
  | cons m ms ih =>
      simp only [messagesSize, List.foldl_cons]
      rw [ih, ih (0 + m.len)]
      omega

@[simp] theorem messagesSize_nil : messagesSize [] = 0 := rfl

@[simp] theorem messagesSize_cons (m : Message) (ms : List Message) :
    messagesSize (m :: ms) = m.len + messagesSize ms := by
  simp only [messagesSize, List.foldl_cons, Nat.zero_add]
  exact foldl_len ms m.len

@[simp] theorem messagesSize_append (ms ns : List Message) :
    messagesSize (ms ++ ns) = messagesSize ms + messagesSize ns := by
  induction ms with
  | nil => simp
  | cons m ms ih => simp [ih, Nat.add_assoc]

structure ImageState where
  p : Bytes
  offset : ℕ
  index_counter : Int32
  last_ts : Int64

/-- One round of the image loop in `stash_by_topic`. -/
def writeMessage (st : ImageState) (pmsg : Message) : ImageState :=
  let payload_len := pmsg.len
  let payload := pmsg.bytes
  let head := MessageHeader.set pmsg st.index_counter.toInt64 (messageChecksum payload payload_len)
  let p := write st.p st.offset head.bytes
  { p := write p (HeaderSize + st.offset) payload
    offset := st.offset + (HeaderSize + payload_len)
    index_counter := st.index_counter - 1
    last_ts := pmsg.timestamp }

def totalSize (messages : List Message) : ℕ :=
  HeaderSize * messages.length + messagesSize messages

theorem totalSize_cons (m : Message) (ms : List Message) :
    totalSize (m :: ms) = HeaderSize + m.len + totalSize ms := by
  simp only [totalSize, List.length_cons, messagesSize_cons, Nat.mul_succ]
  omega

def buildImage (messages : List Message) : ImageState :=
  messages.foldl writeMessage
    { p := List.replicate ((totalSize messages + 1) * 2) 0
      offset := 0
      index_counter := Int32.ofNat (messages.length - 1)
      last_ts := 0 }

/-- The `total_size` bytes handed to `S3::put`. -/
def image (messages : List Message) : Bytes :=
  (buildImage messages).p.take (totalSize messages)

/-- One stored message: its header, then its payload. -/
def record (index : Int32) (m : Message) : Bytes :=
  (MessageHeader.set m index.toInt64 (messageChecksum m.bytes m.len)).bytes ++ m.bytes

/-- The records of a bundle, the first one numbered `index` and the numbers
going down. -/
def records : Int32 → List Message → Bytes
  | _, [] => []
  | index, m :: ms => record index m ++ records (index - 1) ms

@[simp] theorem record_length (index : Int32) (m : Message) :
    (record index m).length = HeaderSize + m.len := by
  simp [record, Message.len]

theorem records_length (index : Int32) (ms : List Message) :
    (records index ms).length = totalSize ms := by
  induction ms generalizing index with
  | nil => simp [records, totalSize]
  | cons m ms ih =>
      rw [records, List.length_append, record_length, ih, totalSize_cons]

/-- The timestamp left behind by the loop. -/
def lastTimestamp (before : Int64) : List Message → Int64
  | [] => before
  | m :: ms => lastTimestamp m.timestamp ms

theorem lastTimestamp_concat (before : Int64) (ms : List Message) (m : Message) :
    lastTimestamp before (ms ++ [m]) = m.timestamp := by
  induction ms generalizing before with
  | nil => rfl
  | cons n ms ih => exact ih n.timestamp

/-- One round appends one record behind what is written and leaves the rest of
the region zero. -/
theorem writeMessage_behind (front : Bytes) (room : ℕ) (index : Int32) (last : Int64)
    (m : Message) :
    writeMessage ⟨front ++ List.replicate (HeaderSize + m.len + room) 0, front.length, index, last⟩
        m =
      ⟨(front ++ record index m) ++ List.replicate room 0, (front ++ record index m).length,
        index - 1, m.timestamp⟩ := by
  have hsplit : List.replicate (HeaderSize + m.len + room) (0 : UInt8) =
      List.replicate HeaderSize 0 ++ (List.replicate m.len 0 ++ List.replicate room 0) := by
    rw [← List.replicate_add, ← List.replicate_add, Nat.add_assoc]
  have hhead : HeaderSize + front.length = (front ++ (MessageHeader.set m index.toInt64
      (messageChecksum m.bytes m.len)).bytes).length := by
    rw [List.length_append, MessageHeader.bytes_length, Nat.add_comm]
  have hdrop (tail : Bytes) :
      (List.replicate m.len (0 : UInt8) ++ tail).drop m.bytes.length = tail :=
    List.drop_left' (List.length_replicate ..)
  simp only [writeMessage, ImageState.mk.injEq, and_true]
  constructor
  · rw [hsplit, write_behind, MessageHeader.bytes_length,
      List.drop_left' (List.length_replicate ..), hhead, write_behind, hdrop]
    simp only [record, List.append_assoc]
  · rw [List.length_append, record_length]

theorem foldl_writeMessage (ms : List Message) (front : Bytes) (room : ℕ) (index : Int32)
    (last : Int64) :
    ms.foldl writeMessage
        ⟨front ++ List.replicate (totalSize ms + room) 0, front.length, index, last⟩ =
      ⟨(front ++ records index ms) ++ List.replicate room 0, (front ++ records index ms).length,
        index - Int32.ofNat ms.length, lastTimestamp last ms⟩ := by
  induction ms generalizing front index last with
  | nil => simp [records, totalSize, lastTimestamp]
  | cons m ms ih =>
      have hroom : totalSize (m :: ms) + room = HeaderSize + m.len + (totalSize ms + room) := by
        rw [totalSize_cons, Nat.add_assoc]
      have hindex : index - 1 - Int32.ofNat ms.length = index - Int32.ofNat (ms.length + 1) := by
        rw [Int32.ofNat_add, Int32.sub_sub, Int32.add_comm 1]
        rfl
      rw [List.foldl_cons, hroom, writeMessage_behind, ih, hindex]
      simp only [records, List.append_assoc, List.length_cons, lastTimestamp]

/-- The loop fills exactly the first `total_size` bytes of its region. -/
theorem buildImage_eq (ms : List Message) :
    buildImage ms =
      ⟨records (Int32.ofNat (ms.length - 1)) ms ++ List.replicate (totalSize ms + 2) 0,
        totalSize ms, Int32.ofNat (ms.length - 1) - Int32.ofNat ms.length,
        lastTimestamp 0 ms⟩ := by
  have hsize : (totalSize ms + 1) * 2 = totalSize ms + (totalSize ms + 2) := by omega
  have h := foldl_writeMessage ms [] (totalSize ms + 2) (Int32.ofNat (ms.length - 1)) 0
  simp only [List.nil_append, List.length_nil, records_length] at h
  rw [buildImage, hsize, h]

/-- The key is made from the timestamp of the last message. -/
theorem buildImage_last_ts (ms : List Message) (m : Message) :
    (buildImage (ms ++ [m])).last_ts = m.timestamp := by
  rw [buildImage_eq]
  exact lastTimestamp_concat 0 ms m

theorem image_eq (ms : List Message) : image ms = records (Int32.ofNat (ms.length - 1)) ms := by
  rw [image, buildImage_eq]
  exact List.take_left' (records_length _ ms)

theorem image_length (ms : List Message) : (image ms).length = totalSize ms := by
  rw [image_eq, records_length]

end KafkaK3.StashImage
