import KafkaK3.Discovery
import KafkaK3.KeyedIndex
import KafkaK3.StashImage

/-!
# Discovery of a stash image

The reader's position follows the writer's offset: behind every record both are
at the start of the next one, so a file which holds a stash image yields its
messages one by one. What differs is the payload, which the reader always takes
from behind the first header.
-/
namespace KafkaK3.ImageDiscovery
open ByteBuffer DecimalText S3Client MessageLayout StashImage Discovery KeyedIndex

theorem bytesAt_nat {buffer : Bytes} {p size : ℕ} (h : p + size ≤ buffer.length) :
    bytesAt buffer p size = .ok (window buffer p size) := by
  have hin : (0 : ℤ) ≤ (p : ℤ) ∧ (p : ℤ) + size ≤ buffer.length := by omega
  rw [bytesAt, if_pos hin, Int.toNat_natCast]

section Header
variable {buffer : Bytes} {p : ℕ} {h : MessageHeader}

theorem int64At_window (hwindow : window buffer p HeaderSize = h.bytes)
    (hp : p + HeaderSize ≤ buffer.length) {k : ℕ} (hk : k + 8 ≤ HeaderSize) :
    int64At buffer (p + k : ℤ) = .ok (int64Value (window h.bytes k 8)) := by
  have hin : p + k + 8 ≤ buffer.length := by omega
  have hcast : (p + k : ℤ) = ((p + k : ℕ) : ℤ) := by omega
  rw [int64At, hcast, bytesAt_nat hin, ← hwindow, window_window hk]
  rfl

/-- A header which lies whole in the buffer has its fields where the loop reads them. -/
theorem int64At_header (hwindow : window buffer p HeaderSize = h.bytes)
    (hp : p + HeaderSize ≤ buffer.length) :
    int64At buffer (p + 8 : ℤ) = .ok h.details.payload_len ∧
      int64At buffer (p + 32 : ℤ) = .ok h.details.timestamp ∧
      int64At buffer (p + 40 : ℤ) = .ok h.details.index := by
  have hfields := h.ofBytes_bytes
  refine ⟨?_, ?_, ?_⟩
  · rw [← congrArg (fun h => h.details.payload_len) hfields]
    exact int64At_window hwindow hp (by decide)
  · rw [← congrArg (fun h => h.details.timestamp) hfields]
    exact int64At_window hwindow hp (by decide)
  · rw [← congrArg (fun h => h.details.index) hfields]
    exact int64At_window hwindow hp (by decide)

theorem headerAt_nat (hwindow : window buffer p HeaderSize = h.bytes)
    (hp : p + HeaderSize ≤ buffer.length) : headerAt buffer p = .ok h := by
  have hin : (0 : ℤ) ≤ (p : ℤ) ∧ (p : ℤ) + HeaderSize ≤ buffer.length := by omega
  have hread : ∀ (bs : Bytes) (hbs : bs.length = HeaderSize), bs = h.bytes →
      MessageHeader.ofBytes bs hbs = h := by
    intro bs hbs heq
    subst heq
    exact h.ofBytes_bytes
  rw [headerAt, dif_pos hin]
  exact congrArg Except.ok (hread _ _ (by rw [Int.toNat_natCast, hwindow]))

end Header

/-- The header which the backup writes for a message. -/
def storedHeader (index : Int32) (m : Message) : MessageHeader :=
  MessageHeader.set m index.toInt64 (messageChecksum m.bytes m.len)

@[simp] theorem storedHeader_timestamp (index : Int32) (m : Message) :
    (storedHeader index m).details.timestamp = m.timestamp := rfl

@[simp] theorem storedHeader_payload_len (index : Int32) (m : Message) :
    (storedHeader index m).details.payload_len = Int64.ofNat m.len := rfl

/-- The item which the replay makes of the record of a message. -/
def storedItem (inkey : Text) (buffer : Bytes) (index : Int32) (m : Message) : DiscoveryItem :=
  ⟨m.timestamp, inkey, storedHeader index m,
    if m.len = 0 then none else some (window buffer HeaderSize m.len)⟩

def messageKey (m : Message) : DiscoveryTimestamp := discoveryTimestamp m.timestamp m.offset

/-- What one record leaves in the map. -/
def collectMessage (inkey : Text) (buffer : Bytes) (index : Int32) (m : Message)
    (output : DiscoveryMap) : DiscoveryMap :=
  if m.timestamp ≠ 0 then output.insert (messageKey m) (storedItem inkey buffer index m)
  else output

/-- What the records of a bundle leave in the map. -/
def collect (inkey : Text) (buffer : Bytes) : Int32 → List Message → DiscoveryMap → DiscoveryMap
  | _, [], output => output
  | index, m :: ms, output =>
      collect inkey buffer (index - 1) ms (collectMessage inkey buffer index m output)

theorem len_toInt32 (m : Message) : (Int64.ofNat m.len).toInt32.toInt = m.len := by
  have hlen := m.len_lt
  rw [Int64.toInt32_ofNat', Int32.toInt_ofNat_of_lt hlen]

theorem len_eq_zero_iff (m : Message) : Int64.ofNat m.len = 0 ↔ m.len = 0 := by
  have hlen := m.len_lt
  rw [← Int64.toInt_inj, Int64.toInt_ofNat_of_lt (by omega)]
  exact Int.natCast_eq_zero

section Record
variable {front tail : Bytes} {index : Int32} {m : Message} {buffer : Bytes}

theorem window_header (hbuffer : buffer = front ++ (record index m ++ tail)) :
    window buffer front.length HeaderSize = (storedHeader index m).bytes := by
  have hlen := (storedHeader index m).bytes_length
  rw [hbuffer, record, List.append_assoc, ← hlen]
  exact window_behind ..

theorem header_in_buffer (hbuffer : buffer = front ++ (record index m ++ tail)) :
    front.length + HeaderSize ≤ buffer.length := by
  rw [hbuffer]
  simp only [List.length_append, record_length]
  omega

/-- The step of the decoder leads behind the record. -/
theorem behind_record (front : Bytes) (index : Int32) (m : Message) :
    (front.length : ℤ) + (HeaderSize + (Int64.ofNat m.len).toInt) =
      ((front ++ record index m).length : ℕ) := by
  have hlen := m.len_lt
  rw [Int64.toInt_ofNat_of_lt (by omega), List.length_append, record_length]
  omega

/-- One round on a stored record makes its item and moves behind the record. -/
theorem discoverMessage_record (inkey : Text)
    (hbuffer : buffer = front ++ (record index m ++ tail)) (hroom : HeaderSize + m.len ≤ buffer.length)
    (nummsgs : Int32) (r : Replay) :
    ∃ reports, discoverMessage inkey buffer nummsgs front.length r =
      .ok ((front ++ record index m).length,
        ⟨collectMessage inkey buffer index m r.output, reports, r.disk⟩) := by
  have hwindow := window_header hbuffer
  have hp := header_in_buffer hbuffer
  obtain ⟨hpayload, htimestamp, -⟩ := int64At_header hwindow hp
  rw [storedHeader_payload_len] at hpayload
  rw [storedHeader_timestamp] at htimestamp
  have hheader := headerAt_nat hwindow hp
  have hcopy : setpayload buffer HeaderSize (Int64.ofNat m.len).toInt32 =
      .ok (window buffer HeaderSize m.len) := by
    have hnonneg : ¬ (Int64.ofNat m.len).toInt32.toInt < 0 := by
      rw [len_toInt32]
      omega
    rw [setpayload, if_neg hnonneg, len_toInt32, Int.toNat_natCast, bytesAt_nat hroom]
  have hnext := behind_record front index m
  unfold discoverMessage collectMessage
  simp only [htimestamp, hpayload, hheader, hcopy, hnext, bind, Except.bind, pure, Except.pure]
  by_cases hts : m.timestamp = 0
  · simp only [hts, ne_eq, not_true_eq_false, if_false]
    exact ⟨_, rfl⟩
  · simp only [hts, ne_eq, not_false_eq_true, if_true, len_eq_zero_iff]
    by_cases hlen : m.len = 0
    · simp only [hlen, not_true_eq_false, if_false, storedItem, if_true]
      exact ⟨_, rfl⟩
    · simp only [hlen, not_false_eq_true, if_true, storedItem, if_false]
      exact ⟨_, rfl⟩

end Record

/-- The loop over as many rounds as there are records, or fewer. -/
theorem discoverMessages_records (inkey : Text) {buffer tail : Bytes} (rounds : ℕ) :
    ∀ {front : Bytes} {index : Int32} {ms : List Message} (r : Replay), rounds ≤ ms.length →
      buffer = front ++ (records index ms ++ tail) →
      (∀ m ∈ ms, HeaderSize + m.len ≤ buffer.length) →
      ∃ reports, discoverMessages inkey buffer rounds front.length r =
        .ok ⟨collect inkey buffer index (ms.take rounds) r.output, reports, r.disk⟩ := by
  induction rounds with
  | zero => exact fun r _ _ _ => ⟨r.reports, rfl⟩
  | succ rounds ih =>
      intro front index ms r hrounds hbuffer hroom
      cases ms with
      | nil => simp at hrounds
      | cons m ms =>
          rw [records, List.append_assoc] at hbuffer
          obtain ⟨reports, hround⟩ := discoverMessage_record inkey hbuffer
            (hroom m List.mem_cons_self) (Int32.ofNat (rounds + 1)) r
          have hbehind : buffer = (front ++ record index m) ++ (records (index - 1) ms ++ tail) := by
            rw [hbuffer, List.append_assoc]
          obtain ⟨final, hrest⟩ := ih
            ⟨collectMessage inkey buffer index m r.output, reports, r.disk⟩
            (Nat.le_of_succ_le_succ hrounds) hbehind
            fun x hx => hroom x (List.mem_cons_of_mem _ hx)
          refine ⟨final, ?_⟩
          rw [discoverMessages, hround]
          exact hrest

/-- The buffer which a stored image is read into. -/
def imageBuffer (ms : List Message) : Bytes := image ms ++ List.replicate (image ms).length 0

theorem room_in_buffer {ms : List Message} {m : Message} (hm : m ∈ ms) :
    HeaderSize + m.len ≤ (image ms).length := by
  rw [image_length]
  obtain ⟨pre, suf, rfl⟩ := List.append_of_mem hm
  simp only [totalSize, List.length_append, List.length_cons, messagesSize_append,
    messagesSize_cons, Nat.mul_add, Nat.mul_succ]
  omega

/-- The number of rounds read off the first record's index. -/
theorem rounds_of_index {n : ℕ} (hn : 0 < n) :
    ((Int32.ofNat (n - 1)).toInt64 + 1).toInt32.toUInt32.toNat = n % 2 ^ 32 := by
  have hcount : (Int32.ofNat (n - 1)).toInt64.toInt32 + (1 : Int64).toInt32 = Int32.ofNat n := by
    rw [Int32.toInt32_toInt64]
    have hone : (1 : Int64).toInt32 = Int32.ofNat 1 := rfl
    rw [hone, ← Int32.ofNat_add, Nat.sub_add_cancel hn]
  rw [Int64.toInt32_add, hcount, Int32.toUInt32_ofNat']
  exact UInt32.toNat_ofNat'

/-- The messages of a bundle which the 32-bit counter reaches: all of them unless
there are 2^32 or more. -/
def discovered (ms : List Message) : List Message := ms.take (ms.length % 2 ^ 32)

theorem discovered_eq {ms : List Message} (h : ms.length < 2 ^ 32) : discovered ms = ms := by
  rw [discovered, Nat.mod_eq_of_lt h, List.take_length]

/-- What an object of the bundle `ms` leaves in the map. -/
def collectObject (inkey : Text) (ms : List Message) (output : DiscoveryMap) : DiscoveryMap :=
  collect inkey (imageBuffer ms) (Int32.ofNat (ms.length - 1)) (discovered ms) output

/-- A file with a stash image yields the items of its messages. -/
theorem discoverFile_image {ms : List Message} (hms : ms ≠ []) (inkey target : Text) (r : Replay) :
    ∃ reports, discoverFile inkey target (image ms) r =
      .ok ⟨collectObject inkey ms r.output, reports, r.disk⟩ := by
  obtain ⟨m, rest, rfl⟩ := List.exists_cons_of_ne_nil hms
  have hroom : HeaderSize + m.len ≤ (image (m :: rest)).length :=
    room_in_buffer List.mem_cons_self
  have hbuffer : imageBuffer (m :: rest) = [] ++ (records (Int32.ofNat ((m :: rest).length - 1))
      (m :: rest) ++ List.replicate (image (m :: rest)).length 0) := by
    rw [imageBuffer, image_eq]
    rfl
  have hsize : ¬ (image (m :: rest)).length * 2 < HeaderSize := by omega
  have hwhole (x : Message) (hx : x ∈ m :: rest) :
      HeaderSize + x.len ≤ (imageBuffer (m :: rest)).length := by
    rw [imageBuffer, List.length_append]
    exact Nat.le_trans (room_in_buffer hx) (Nat.le_add_right ..)
  have hindex : int64At (imageBuffer (m :: rest)) 40 =
      .ok (Int32.ofNat ((m :: rest).length - 1)).toInt64 := by
    have hfirst := hbuffer
    rw [records, List.append_assoc] at hfirst
    have hwindow := window_header hfirst
    have hp : HeaderSize ≤ (imageBuffer (m :: rest)).length :=
      Nat.le_trans (Nat.le_add_right ..) (hwhole m List.mem_cons_self)
    exact (int64At_header hwindow (by simpa using hp)).2.2
  obtain ⟨reports, hloop⟩ := discoverMessages_records inkey ((m :: rest).length % 2 ^ 32) r
    (Nat.mod_le ..) hbuffer hwhole
  refine ⟨reports, ?_⟩
  have hrounds := rounds_of_index (n := (m :: rest).length) (Nat.succ_pos _)
  unfold discoverFile
  rw [imageBuffer] at hindex hloop
  simp only [hsize, if_false, hindex, bind, Except.bind, hrounds]
  exact hloop

section Objects
variable (bucket : Text) (indelete : Bool)

/-- The download of a stored object which goes well. -/
def downloaded (ms : List Message) : GetAnswer := ⟨some (image ms), true⟩

theorem batch_discovery_bykey_image {ms : List Message} (hms : ms ≠ []) (inkey : Text)
    (r : Replay) :
    ∃ reports disk, batch_discovery_bykey inkey ⟨true, bucket⟩ (downloaded ms) indelete r =
      .ok ⟨collectObject inkey ms r.output, reports, disk⟩ := by
  obtain ⟨reports, hfile⟩ := discoverFile_image hms inkey (localTarget inkey)
    { r with disk := r.disk.insert (localTarget inkey) (image ms) }
  have hread : (r.disk.insert (localTarget inkey) (image ms))[localTarget inkey]? =
      some (image ms) := Std.TreeMap.getElem?_insert_self
  unfold batch_discovery_bykey
  simp only [S3.get, downloaded, if_true, hread, hfile, bind, Except.bind, pure, Except.pure]
  cases indelete with
  | true => exact ⟨_, _, rfl⟩
  | false => exact ⟨_, _, rfl⟩

theorem batch_discovery_images (objects : List (Text × List Message))
    (hobjects : ∀ o ∈ objects, o.2 ≠ []) (r : Replay) :
    ∃ reports disk, batch_discovery ⟨true, bucket⟩ indelete
        (objects.map fun o => (o.1, downloaded o.2)) r =
      .ok ⟨objects.foldl (fun output o => collectObject o.1 o.2 output) r.output,
        reports, disk⟩ := by
  induction objects generalizing r with
  | nil => exact ⟨r.reports, r.disk, rfl⟩
  | cons o objects ih =>
      obtain ⟨reports, disk, hkey⟩ := batch_discovery_bykey_image bucket indelete
        (hobjects o List.mem_cons_self) o.1 r
      obtain ⟨final, left, hrest⟩ := ih (fun x hx => hobjects x (List.mem_cons_of_mem _ hx))
        ⟨collectObject o.1 o.2 r.output, reports, disk⟩
      refine ⟨final, left, ?_⟩
      simp only [List.map_cons, batch_discovery, hkey, bind, Except.bind]
      exact hrest

end Objects

section Index

/-- Timestamp and offset can be read off the key. -/
theorem discoveryTimestamp_inj {t u o p : Int64} :
    discoveryTimestamp t o = discoveryTimestamp u p ↔ t = u ∧ o = p := by
  constructor
  · intro h
    have hmark (z : ℤ) : '.' ∉ intText z := mark_notMem_intText (by decide) (by decide) z
    obtain ⟨ht, ho⟩ := append_mark_inj (hmark _) (hmark _) h
    exact ⟨Int64.toInt_inj.mp (intText_injective ht), Int64.toInt_inj.mp (intText_injective ho)⟩
  · rintro ⟨rfl, rfl⟩
    rfl

/-- The records of a bundle are inserted one by one under the keys of their messages. -/
theorem indexes_collect {Item : Message → DiscoveryItem → Prop} {inkey : Text} {buffer : Bytes}
    {ms : List Message} (hts : ∀ m ∈ ms, m.timestamp ≠ 0)
    (hitem : ∀ m ∈ ms, ∀ index, Item m (storedItem inkey buffer index m)) :
    ∀ {index : Int32} {before : List Message} {output : DiscoveryMap},
      Indexes messageKey Item before output →
      Indexes messageKey Item (before ++ ms) (collect inkey buffer index ms output) := by
  induction ms with
  | nil =>
      intro index before output h
      rw [List.append_nil]
      exact h
  | cons m ms ih =>
      intro index before output h
      have hm := hts m List.mem_cons_self
      rw [List.append_cons, collect, collectMessage, if_pos hm]
      apply ih
      · exact fun x hx => hts x (List.mem_cons_of_mem _ hx)
      · exact fun x hx => hitem x (List.mem_cons_of_mem _ hx)
      · exact h.insert (hitem m List.mem_cons_self index)

end Index

end KafkaK3.ImageDiscovery
