import KafkaK3.BackupConsumer
import KafkaK3.ImageDiscovery

/-!
# The chain of headers in a stash image

All readers of a stored object rely on its layout: one goes from header to header by
the payload length which each of them holds. `links` does so on the bytes alone. The
writer's loop is run a second time with every copy which it makes, the ones inside
`MessageHeader::set` among them, and none of them leaves the image.
-/
namespace KafkaK3.ImageChain
open ByteBuffer DecimalText MessageLayout StashImage ImageDiscovery BackupConsumer

section Writing

/-- The copies of `MessageHeader::set`, by their place in the header. -/
def setWrites (pmsg : Message) (in_index in_csum : Int64) : List (ℕ × Bytes) :=
  let key_len := (clippedLen KeyMaxLen pmsg.keyBytes.length).toNat
  let topic := pmsg.topic_name.map Char.toUInt8
  let topic_len := (clippedLen TopicMaxLen topic.length).toNat
  [(0, List.replicate HeaderSize 0), (0, int64Bytes 1), (32, int64Bytes pmsg.timestamp),
    (16, int64Bytes pmsg.partition.toInt64), (24, int64Bytes pmsg.offset), (40, int64Bytes in_index),
    (48, int64Bytes in_csum), (8, int64Bytes (Int64.ofNat pmsg.len)),
    (DetailsSize, pmsg.keyBytes.take key_len), (DetailsSize + KeyMaxLen, topic.take topic_len)]

/-- The copies of one round of the loop, by their place in the region. -/
def roundWrites (st : ImageState) (pmsg : Message) : List (ℕ × Bytes) :=
  (setWrites pmsg st.index_counter.toInt64 (messageChecksum pmsg.bytes pmsg.len)).map
      (fun copy => (st.offset + copy.1, copy.2)) ++
    [(HeaderSize + st.offset, pmsg.bytes)]

/-- The copies of the whole loop. -/
def loopWrites : ImageState → List Message → List (ℕ × Bytes)
  | _, [] => []
  | st, m :: ms => roundWrites st m ++ loopWrites (writeMessage st m) ms

variable (m : Message) (index csum : Int64)

theorem setWrites_inside : ∀ copy ∈ setWrites m index csum, Inside 0 HeaderSize copy := by
  have hkey := clippedLen_le KeyMaxLen m.keyBytes.length
  have htopic := clippedLen_le TopicMaxLen (m.topic_name.map Char.toUInt8).length
  have hfield (k : ℕ) (x : Int64) (hk : k + 8 ≤ HeaderSize) : Inside 0 HeaderSize (k, int64Bytes x) := by
    rw [Inside, int64Bytes_length, Nat.zero_add]
    exact ⟨Nat.zero_le _, hk⟩
  simp only [setWrites, List.forall_mem_cons]
  refine ⟨?_, hfield _ _ (by decide), hfield _ _ (by decide), hfield _ _ (by decide),
    hfield _ _ (by decide), hfield _ _ (by decide), hfield _ _ (by decide), hfield _ _ (by decide),
    ?_, ?_, by simp⟩
  · simp [Inside]
  · simp only [Inside, List.length_take, DetailsSize, KeyMaxLen, HeaderSize] at *
    omega
  · simp only [Inside, List.length_take, DetailsSize, KeyMaxLen, TopicMaxLen, HeaderSize] at *
    omega

/-- Field by field they leave the header which `set` makes. -/
theorem writes_set {part : Bytes} (h : part.length = HeaderSize) :
    writes part (setWrites m index csum) = (MessageHeader.set m index csum).bytes := by
  have hkey : 0 + (m.keyBytes.take (clippedLen KeyMaxLen m.keyBytes.length).toNat).length ≤
      (List.replicate KeyMaxLen (0 : UInt8)).length := by
    have hclip := clippedLen_le KeyMaxLen m.keyBytes.length
    rw [List.length_take, List.length_replicate]
    omega
  have hclear : write part 0 (List.replicate HeaderSize 0) = List.replicate HeaderSize 0 :=
    write_over (by rw [h, List.length_replicate])
  have hfields : List.replicate HeaderSize (0 : UInt8) = List.replicate 8 0 ++
      (List.replicate 8 0 ++ (List.replicate 8 0 ++ (List.replicate 8 0 ++ (List.replicate 8 0 ++
        (List.replicate 8 0 ++ (List.replicate 8 0 ++
          (List.replicate KeyMaxLen 0 ++ List.replicate TopicMaxLen 0))))))) := by
    simp only [List.replicate_append_replicate]
    rfl
  have hfield (old : Bytes) (x : Int64) (hold : old.length = 8) : write old 0 (int64Bytes x) = int64Bytes x :=
    write_over (by rw [hold, int64Bytes_length])
  simp only [setWrites, writes_cons, writes_nil, hclear]
  simp (disch := simp) only [hfields, write_skip, write_within, hfield, List.length_replicate, int64Bytes_length]
  have hdetails : DetailsSize = 56 := rfl
  have hbehind : DetailsSize + KeyMaxLen = 184 := rfl
  have hcopy : write (List.replicate KeyMaxLen 0) 0
      (m.keyBytes.take (clippedLen KeyMaxLen m.keyBytes.length).toNat) =
      copyField KeyMaxLen m.keyBytes := rfl
  rw [hbehind, hdetails]
  simp (disch := simp) only [write_skip, int64Bytes_length]
  rw [write_within _ hkey, hcopy]
  simp (disch := simp [KeyMaxLen]) only [write_skip, copyField_length]
  rfl

/-- In a larger region they do the same at the place of the header. -/
theorem writes_header {region : Bytes} {offset : ℕ} (h : offset + HeaderSize ≤ region.length) :
    writes region ((setWrites m index csum).map fun copy => (offset + copy.1, copy.2)) =
      write region offset (MessageHeader.set m index csum).bytes := by
  have hfront : (region.take offset).length = offset := List.length_take_of_le (by omega)
  have hpart : (window region offset HeaderSize).length = HeaderSize := window_length h
  have hsplit : region = region.take offset ++
      (window region offset HeaderSize ++ region.drop (offset + HeaderSize)) := by
    rw [window, ← List.drop_drop, List.take_append_drop, List.take_append_drop]
  have hinside : ∀ copy ∈ setWrites m index csum,
      Inside 0 (window region offset HeaderSize).length copy := by
    rw [hpart]
    exact setWrites_inside m index csum
  have hwrites := writes_part (region.take offset) (region.drop (offset + HeaderSize)) hinside
  rw [hfront, ← hsplit, writes_set m index csum hpart] at hwrites
  rw [hwrites, write, MessageHeader.bytes_length, List.append_assoc]

end Writing

section Loop
variable {st : ImageState} {m : Message} {ms : List Message}

theorem writes_round (h : st.offset + (HeaderSize + m.len) ≤ st.p.length) :
    writes st.p (roundWrites st m) = (writeMessage st m).p := by
  rw [roundWrites, writes_append, writes_header m _ _ (by omega)]
  rfl

theorem roundWrites_inside : ∀ copy ∈ roundWrites st m, Inside st.offset (HeaderSize + m.len) copy := by
  intro copy hcopy
  rw [roundWrites, List.mem_append, List.mem_map, List.mem_singleton] at hcopy
  cases hcopy with
  | inl hcopy =>
      obtain ⟨part, hpart, rfl⟩ := hcopy
      have hinside := setWrites_inside m _ _ part hpart
      simp only [Inside] at hinside ⊢
      omega
  | inr hcopy =>
      rw [hcopy]
      have hlen : m.bytes.length = m.len := rfl
      simp only [Inside, hlen]
      omega

theorem writeMessage_length (h : st.offset + (HeaderSize + m.len) ≤ st.p.length) :
    (writeMessage st m).p.length = st.p.length := by
  have hlen : m.bytes.length = m.len := rfl
  have hhead (head : MessageHeader) : (write st.p st.offset head.bytes).length = st.p.length :=
    write_length (by rw [head.bytes_length]; omega)
  rw [writeMessage, write_length (by rw [hhead, hlen]; omega), hhead]

/-- The copies make the region which the loop leaves behind. -/
theorem writes_loop (h : st.offset + totalSize ms ≤ st.p.length) :
    writes st.p (loopWrites st ms) = (ms.foldl writeMessage st).p := by
  induction ms generalizing st with
  | nil => rfl
  | cons m ms ih =>
      rw [totalSize_cons] at h
      have hnext : (writeMessage st m).offset = st.offset + (HeaderSize + m.len) := rfl
      have hround : st.offset + (HeaderSize + m.len) ≤ st.p.length := by omega
      rw [loopWrites, writes_append, writes_round hround, List.foldl_cons, ih]
      rw [hnext, writeMessage_length hround]
      omega

theorem loopWrites_inside : ∀ copy ∈ loopWrites st ms, Inside st.offset (totalSize ms) copy := by
  induction ms generalizing st with
  | nil => exact fun _ hcopy => absurd hcopy List.not_mem_nil
  | cons m ms ih =>
      intro copy hcopy
      rw [totalSize_cons]
      rw [loopWrites, List.mem_append] at hcopy
      cases hcopy with
      | inl hround =>
          have hinside := roundWrites_inside copy hround
          simp only [Inside] at hinside ⊢
          omega
      | inr hrest =>
          have hinside := ih copy hrest
          have hnext : (writeMessage st m).offset = st.offset + (HeaderSize + m.len) := rfl
          simp only [Inside, hnext] at hinside ⊢
          omega

end Loop

/-- Where the loop starts: in a zeroed region. -/
def start (messages : List Message) : ImageState where
  p := List.replicate ((totalSize messages + 1) * 2) 0
  offset := 0
  index_counter := Int32.ofNat (messages.length - 1)
  last_ts := 0

theorem writes_start (messages : List Message) :
    writes (start messages).p (loopWrites (start messages) messages) = (buildImage messages).p := by
  apply writes_loop
  simp only [start, List.length_replicate]
  omega

/-- A header and the place where it stands. -/
structure Link where
  place : ℕ
  header : MessageHeader

/-- The headers from `p` on, each of them found behind the payload of the one before.
There are none where this way does not end at the end of the file. -/
def links (file : Bytes) (p : ℕ) : Option (List Link) :=
  if p = file.length then some []
  else if h : p + HeaderSize ≤ file.length then
    let header := MessageHeader.ofBytes (window file p HeaderSize) (window_length h)
    let next := (p : ℤ) + (HeaderSize + header.details.payload_len.toInt)
    if next ≤ p then none else (links file next.toNat).map (⟨p, header⟩ :: ·)
  else none
termination_by file.length - p
decreasing_by
  rename_i hback
  have hsize : 0 < HeaderSize := by decide
  dsimp only [next, header] at hback
  omega

/-- As much of the source as leaves the last byte of the field zero. -/
def Clipped (field src : Bytes) : Prop :=
  field = src.take (field.length - 1) ++
    List.replicate (field.length - (src.take (field.length - 1)).length) 0

/-- The header and what stands behind it are those of a message, which is the
`index`-th one from the end. -/
structure Describes (file : Bytes) (index : ℕ) (m : Message) (link : Link) : Prop where
  index : link.header.details.index.toInt = index
  partition : link.header.details.partition.toInt = m.partition.toInt
  offset : link.header.details.offset = m.offset
  timestamp : link.header.details.timestamp = m.timestamp
  payload_len : link.header.details.payload_len.toInt = m.len
  csum : link.header.details.csum = messageChecksum m.bytes m.len
  key_field : Clipped link.header.key_field m.keyBytes
  topic_name : Clipped link.header.topic_name (m.topic_name.map Char.toUInt8)
  payload : window file (link.place + HeaderSize) m.len = m.bytes

/-- The headers of a list of messages, one behind the other up to the end. -/
inductive Chain (file : Bytes) : ℕ → List Message → List Link → Prop
  | done : Chain file file.length [] []
  | step {p : ℕ} {m : Message} {ms : List Message} {header : MessageHeader} {rest : List Link}
      (hin : p + HeaderSize ≤ file.length)
      (hheader : MessageHeader.ofBytes (window file p HeaderSize) (window_length hin) = header)
      (hm : Describes file ms.length m ⟨p, header⟩) :
      Chain file (p + (HeaderSize + m.len)) ms rest → Chain file p (m :: ms) (⟨p, header⟩ :: rest)

section Reading
variable {file : Bytes} {p : ℕ} {ms : List Message} {chain : List Link}

/-- It is what one finds who goes from header to header. -/
theorem Chain.links_eq (h : Chain file p ms chain) : links file p = some chain := by
  induction h with
  | done => rw [links, if_pos rfl]
  | @step p m ms header rest hin hheader hm _ ih =>
      have hsize : 0 < HeaderSize := by decide
      have hp : ¬ p = file.length := by omega
      have hlen : header.details.payload_len.toInt = m.len := hm.payload_len
      have hnext : ¬ (p : ℤ) + (HeaderSize + header.details.payload_len.toInt) ≤ p := by omega
      have hto : ((p : ℤ) + (HeaderSize + header.details.payload_len.toInt)).toNat =
          p + (HeaderSize + m.len) := by omega
      rw [links, if_neg hp, dif_pos hin, hheader]
      dsimp only
      rw [if_neg hnext, hto, ih]
      rfl

theorem Chain.length_eq (h : Chain file p ms chain) : chain.length = ms.length := by
  induction h with
  | done => rfl
  | step _ _ _ _ ih => rw [List.length_cons, List.length_cons, ih]

theorem Chain.describes (h : Chain file p ms chain) {i : ℕ} {m : Message} {link : Link}
    (hm : ms[i]? = some m) (hlink : chain[i]? = some link) :
    Describes file (ms.length - 1 - i) m link := by
  induction h generalizing i with
  | done => exact absurd hm (by simp)
  | step _ _ hfirst _ ih =>
      cases i with
      | zero =>
          cases hm
          cases hlink
          exact hfirst
      | succ i =>
          have hrest := ih hm hlink
          rw [List.length_cons, Nat.add_sub_cancel, Nat.sub_add_eq, Nat.sub_right_comm]
          exact hrest

end Reading

theorem clipped_copyField {size : ℕ} {src : Bytes} (h : src.length < 2 ^ 31) :
    Clipped (copyField size src) src := by
  rw [Clipped, copyField_length]
  exact copyField_eq h

/-- A stored header describes its message. -/
theorem describes_record {file front tail : Bytes} {index : ℕ} {m : Message}
    (hfile : file = front ++ (record (Int32.ofNat index) m ++ tail)) (hindex : index < 2 ^ 31) :
    Describes file index m ⟨front.length, storedHeader (Int32.ofNat index) m⟩ where
  index := by
    have hcount : (Int32.ofNat index).toInt64.toInt = index := by
      rw [Int32.toInt_toInt64, Int32.toInt_ofNat_of_lt hindex]
    exact hcount
  partition := Int32.toInt_toInt64 m.partition
  offset := rfl
  timestamp := rfl
  payload_len := by
    have hlen := m.len_lt
    exact Int64.toInt_ofNat_of_lt (by omega)
  csum := rfl
  key_field := clipped_copyField m.key_fits
  topic_name := clipped_copyField (by rw [List.length_map]; exact m.topic_fits)
  payload := by
    have hhead : (front ++ (storedHeader (Int32.ofNat index) m).bytes).length =
        front.length + HeaderSize := by
      rw [List.length_append, MessageHeader.bytes_length]
    have hbody : file = (front ++ (storedHeader (Int32.ofNat index) m).bytes) ++ (m.bytes ++ tail) := by
      rw [hfile, record, storedHeader, List.append_assoc, List.append_assoc]
    rw [hbody, ← hhead]
    exact window_behind ..

/-- The records of a bundle are a chain. -/
theorem chain_records {file front : Bytes} {ms : List Message}
    (hfile : file = front ++ records (Int32.ofNat (ms.length - 1)) ms) (hint : ms.length < 2 ^ 31) :
    ∃ chain, Chain file front.length ms chain := by
  induction ms generalizing front with
  | nil =>
      rw [records, List.append_nil] at hfile
      rw [hfile]
      exact ⟨[], .done⟩
  | cons m ms ih =>
      rw [List.length_cons] at hint
      rw [List.length_cons, Nat.add_sub_cancel, records] at hfile
      have hdown : records (Int32.ofNat ms.length - 1) ms = records (Int32.ofNat (ms.length - 1)) ms := by
        cases ms with
        | nil => rfl
        | cons m' ms =>
            rw [List.length_cons, Nat.add_sub_cancel, Int32.ofNat_add]
            exact congrArg (records · _) (Int32.add_sub_cancel _ _)
      have hin := header_in_buffer hfile
      have hheader : MessageHeader.ofBytes (window file front.length HeaderSize) (window_length hin) =
          storedHeader (Int32.ofNat ms.length) m := by
        have hread := (storedHeader (Int32.ofNat ms.length) m).ofBytes_bytes
        simp only [window_header hfile]
        exact hread
      have hdescribes := describes_record hfile (by omega)
      have hnext : (front ++ record (Int32.ofNat ms.length) m).length =
          front.length + (HeaderSize + m.len) := by
        rw [List.length_append, record_length]
      rw [hdown, ← List.append_assoc] at hfile
      obtain ⟨chain, hchain⟩ := ih hfile (by omega)
      rw [hnext] at hchain
      exact ⟨_, .step hin hheader hdescribes hchain⟩

/-- The bytes of a PUT, so many of them and with such metadata, are laid out as all readers
take them to be. -/
structure LaidOut (messages : List Message) (payload : Bytes) (len : ℕ) (metadata : S3Client.Metadata)
    (chain : List Link) : Prop where
  size : len = totalSize messages
  payload_size : payload.length = len
  chain_eq : links payload 0 = some chain
  visits : chain.length = messages.length
  describes : ∀ i m link, messages[i]? = some m → chain[i]? = some link →
    Describes payload (messages.length - 1 - i) m link
  first : ∀ link ∈ chain.head?, link.header.details.index.toInt + 1 = messages.length
  metadata_eq : metadata = [("x-numofmsgs".toList, natText messages.length)]
  inside : ∀ copy ∈ loopWrites (start messages) messages, Inside 0 len copy
  stored : payload = (writes (start messages).p (loopWrites (start messages) messages)).take len

theorem laidOut_image {messages : List Message} (hne : messages ≠ []) (hint : messages.length < 2 ^ 31) :
    ∃ chain, LaidOut messages (image messages) (totalSize messages)
      [("x-numofmsgs".toList, natText messages.length)] chain := by
  have himage := image_eq messages
  obtain ⟨chain, hchain⟩ := @chain_records _ [] _ himage hint
  refine ⟨chain, ?_⟩
  constructor
  case size => rfl
  case payload_size => exact image_length messages
  case chain_eq => exact hchain.links_eq
  case visits => exact hchain.length_eq
  case describes => exact fun i m link hm hlink => hchain.describes hm hlink
  case first =>
    intro link hlink
    have hsome : 0 < messages.length := List.length_pos_iff.mpr hne
    have hzero : chain[0]? = some link := List.head?_eq_getElem? ▸ hlink
    have hindex := (hchain.describes (List.getElem?_eq_getElem hsome) hzero).index
    rw [hindex]
    omega
  case metadata_eq => rfl
  case inside => exact loopWrites_inside
  case stored => rw [writes_start]; rfl

/-- Every bundle with a payload is put as a chain of its messages: `S3::put` is given one,
and with a client its request holds it. -/
theorem stash_puts_chain {c : Consume} {s3 : S3Client.S3} (hs3 : c.ps3 = some s3) (w : World) (n : ℕ)
    (topic : Text) {messages : List MessageWrapper} (hint : messages.length < 2 ^ 31)
    (hpayload : 0 < messagesSize (contents messages)) :
    ∃ call chain, putCalls (stash_by_topic c w n topic messages) = [call] ∧
      LaidOut (contents messages) call.payload call.total_size call.metadata chain ∧
      (s3.sp3client = true → ∃ r, call.request = some r ∧
        LaidOut (contents messages) r.body r.contentLength r.metadata chain) := by
  have hne : contents messages ≠ [] := by
    intro hnil
    rw [hnil] at hpayload
    exact absurd hpayload (by decide)
  obtain ⟨chain, hchain⟩ := laidOut_image hne (by rwa [contents, List.length_map])
  have hcount : (contents messages).length = messages.length := List.length_map _
  rw [hcount] at hchain
  refine ⟨putBundle w s3 n topic messages, chain, ?_, hchain, fun hclient => ?_⟩
  · rw [putCalls_stash_by_topic, if_pos hpayload, hs3]
    rfl
  · obtain ⟨r, hr⟩ := Option.isSome_iff_exists.mp
      ((@PutCall.request_isSome (putBundle w s3 n topic messages)).mpr hclient)
    obtain ⟨-, hbody, hlen, hmetadata⟩ := PutCall.of_request hr
    refine ⟨r, hr, ?_⟩
    rw [hbody, hlen, hmetadata]
    exact hchain

/-- A message of one byte and one without any behind it. -/
def twoMessages : List MessageWrapper :=
  [⟨0, .plain ['t'] 0 0 5 [97] Message.letter_fits Message.letter_fits⟩,
    ⟨1, .plain ['t'] 0 1 6 [] Message.letter_fits Message.nothing_fits⟩]

theorem two_messages_chain :
    ∃ call chain r, putCalls (stash_by_topic { ps3 := some ⟨true, []⟩ } (.constant true) 0 ['t']
      twoMessages) = [call] ∧ call.request = some r ∧
      LaidOut (contents twoMessages) r.body r.contentLength r.metadata chain := by
  obtain ⟨call, chain, hcall, -, hsent⟩ := @stash_puts_chain { ps3 := some ⟨true, []⟩ } _ rfl
    (.constant true) 0 ['t'] twoMessages (by decide) (by decide)
  obtain ⟨r, hr, hchain⟩ := hsent rfl
  exact ⟨call, chain, r, hcall, hr, hchain⟩

end KafkaK3.ImageChain
