import KafkaK3.FailedDownload
import KafkaK3.KeyListing
import KafkaK3.LocalFiles
import KafkaK3.ReplayRoundTrip
import KafkaK3.S3Setup
import KafkaK3.StoredEvents

/-!
# The replay process

`main` makes a directory for the topic, lists its keys, downloads and reads the selected
objects into one map, sets the producer up and hands over the events of the map. What is
thrown is caught nowhere. The number it returns at the end is the one it started with.
The local files lie under the names of the keys, so those open which lie in the
directory of the topic, if it can be written.

With images in the bucket the whole process comes to one description: the selected
objects each give back the messages which their counters reach, with the payloads
taken from behind the first header.
-/
namespace KafkaK3.ReplayProcess
open ByteBuffer DecimalText KafkaConfig S3Client MessageLayout StashImage Discovery ImageDiscovery
open TimeText KeyListing ReplayProducer EventReplay StoredEvents ReplayRoundTrip FailedDownload
open LastValue S3Setup

/-- How the process can end before its time. -/
inductive Halt where
  | discovery (stop : Stop)
  | fault (fault : Fault)
  | thrown (thrown : Thrown)
  deriving DecidableEq, Repr

/-- What the process meets with; `object` is the body which `GetObject` brings, and `disk`
has the contents of the local files. -/
structure Surroundings where
  rd : RdKafka
  env : Environment
  listObjects : ListObjects
  object : Text → Option Bytes
  files : LocalFiles.Files
  disk : Disk
  produced : ℕ → Bool
  beyond : Text → ℤ → Int32

/-- The configuration which `main` makes up. -/
def paws : Json := .object [("loglevel".toList, .string "debug".toList)]

def infetch : Int32 := 50

def topicDirectory (ptopic : Text) : Text := "/tmp/".toList ++ ptopic

/-- The local files when `main` has made the directory. -/
def Surroundings.made (s : Surroundings) (ptopic : Text) : LocalFiles.Files :=
  s.files.mkdir (topicDirectory ptopic) 0x777

/-- `main`, with at most `fuel` list requests. -/
def main (s : Surroundings) (fuel : ℕ) : Except Halt (ℤ × Producing) :=
  match s.env.getenv "FROM_TIME".toList with
  | none => .ok (-1, .empty)
  | some from_time => do
      let s3client ← (S3Setup.S3.setup s.env (some paws) {}).mapError .thrown
      let ptopic ← (stdString (s.env.getenv "AWS_TOPIC".toList)).mapError .thrown
      let files := s.made ptopic
      let vlist ← (s3_discovery s.beyond ptopic (MessageTime.ofText from_time) s3client.client
        s.listObjects infetch fuel 0 ⟨[], []⟩).mapError .discovery
      let vmap ← (batch_discovery s3client.client false
        (vlist.map fun key => (key, ⟨s.object key, files.opens (localTarget key)⟩))
        ⟨∅, [], s.disk⟩).mapError .fault
      let p ← (Produce.setup s.rd s.env).mapError .thrown
      let out ← (process_events p s.produced (processed vmap.output) .empty).mapError .fault
      pure (1, out)

section Objects

/-- What the records of a bundle put into the map. -/
def recordEvents (inkey : Text) (buffer : Bytes) : Int32 → List Message → List Event
  | _, [] => []
  | index, m :: ms =>
      (if m.timestamp ≠ 0 then [(messageKey m, storedItem inkey buffer index m)] else []) ++
        recordEvents inkey buffer (index - 1) ms

theorem collect_eq (inkey : Text) (buffer : Bytes) (ms : List Message) :
    ∀ (index : Int32) (output : DiscoveryMap), collect inkey buffer index ms output =
      insertAll output (recordEvents inkey buffer index ms) := by
  induction ms with
  | nil => exact fun _ _ => rfl
  | cons m ms ih =>
      intro index output
      rw [collect, ih, collectMessage, recordEvents, insertAll_append]
      split <;> rfl

def objectEvents (inkey : Text) (ms : List Message) : List Event :=
  recordEvents inkey (imageBuffer ms) (Int32.ofNat (ms.length - 1)) (discovered ms)

theorem collectObjects_eq (objects : List (Text × List Message)) (output : DiscoveryMap) :
    objects.foldl (fun output o => collectObject o.1 o.2 output) output =
      insertAll output (objects.flatMap fun o => objectEvents o.1 o.2) := by
  induction objects generalizing output with
  | nil => rfl
  | cons o objects ih =>
      rw [List.foldl_cons, ih, collectObject, collect_eq, List.flatMap_cons, insertAll_append]
      rfl

/-- The messages of an object which the replay sees. -/
def visible (ms : List Message) : List Message :=
  (discovered ms).filter fun m => m.timestamp ≠ 0

/-- The key which the replay reads in the header of a message. -/
def shownKey (m : Message) : Bytes := EventReplay.keyBytes (MessageHeader.set m 0 0)

/-- What the replay hands over of an object: the length is the message's own, the bytes
are those behind the first header of the object. -/
def restored (ms : List Message) : List (Bytes × Bytes) :=
  ((visible ms).filter fun m => 0 < m.len).map fun m =>
    (window (image ms) HeaderSize m.len, shownKey m)

theorem keys_recordEvents (inkey : Text) (buffer : Bytes) (ms : List Message) (index : Int32) :
    (recordEvents inkey buffer index ms).map Prod.fst =
      (ms.filter fun m => m.timestamp ≠ 0).map messageKey := by
  induction ms generalizing index with
  | nil => rfl
  | cons m ms ih =>
      rw [recordEvents, List.map_append, ih, List.filter_cons]
      by_cases hts : m.timestamp = 0
      · simp [hts]
      · simp [hts]

/-- The item of a record, as it is handed over. -/
theorem handed_storedItem (inkey : Text) (buffer : Bytes) (index : Int32) (m : Message) :
    handed (storedItem inkey buffer index m) =
      (if m.len = 0 then [] else window buffer HeaderSize m.len, shownKey m) := by
  rw [handed, storedItem]
  split <;> rfl

theorem handed_recordEvents (inkey : Text) {buffer : Bytes} {ms : List Message} (index : Int32)
    (hroom : ∀ m ∈ ms, HeaderSize + m.len ≤ buffer.length) :
    ((recordEvents inkey buffer index ms).filter fun e => e.2._payload.getD [] ≠ []).map
        (fun e => handed e.2) =
      ((ms.filter fun m => m.timestamp ≠ 0).filter fun m => 0 < m.len).map fun m =>
        (window buffer HeaderSize m.len, shownKey m) := by
  induction ms generalizing index with
  | nil => rfl
  | cons m ms ih =>
      have hhead := hroom m List.mem_cons_self
      have hpayload : (storedItem inkey buffer index m)._payload.getD [] = [] ↔ ¬ 0 < m.len := by
        have hevent := (eventOf_storedItem inkey index hhead).payload_length
        rw [← List.length_eq_zero_iff, hevent]
        omega
      rw [recordEvents, List.filter_append, List.map_append,
        ih (index - 1) fun x hx => hroom x (List.mem_cons_of_mem _ hx), List.filter_cons]
      by_cases hts : m.timestamp = 0
      · simp [hts]
      · by_cases hlen : 0 < m.len
        · have hne : m.len ≠ 0 := by omega
          simp [hts, hpayload, hlen, handed_storedItem, hne]
        · simp [hts, hpayload, hlen]

theorem of_mem_recordEvents {inkey : Text} {buffer : Bytes} {ms : List Message} {index : Int32}
    {e : Event} (h : e ∈ recordEvents inkey buffer index ms) :
    ∃ m ∈ ms, m.timestamp ≠ 0 ∧ ∃ i, e = (messageKey m, storedItem inkey buffer i m) := by
  induction ms generalizing index with
  | nil => cases h
  | cons m ms ih =>
      rw [recordEvents, List.mem_append] at h
      rcases h with h | h
      · split at h
        next hts => exact ⟨m, List.mem_cons_self, hts, index, List.mem_singleton.mp h⟩
        next => cases h
      · obtain ⟨x, hx, hrest⟩ := ih h
        exact ⟨x, List.mem_cons_of_mem _ hx, hrest⟩

theorem of_mem_objectEvents {inkey : Text} {ms : List Message} {e : Event}
    (h : e ∈ objectEvents inkey ms) :
    ∃ m ∈ visible ms, ∃ i, e = (messageKey m, storedItem inkey (imageBuffer ms) i m) := by
  obtain ⟨m, hm, hts, i, he⟩ := of_mem_recordEvents h
  exact ⟨m, List.mem_filter.mpr ⟨hm, decide_eq_true hts⟩, i, he⟩

theorem mem_of_visible {ms : List Message} {m : Message} (h : m ∈ visible ms) : m ∈ ms :=
  List.mem_of_mem_take (List.mem_filter.mp h).1

/-- The item of a message, as it is handed over: the bytes behind the first header. -/
theorem handed_in_image (inkey : Text) {ms : List Message} {m : Message} (hm : m ∈ ms)
    (index : Int32) :
    handed (storedItem inkey (imageBuffer ms) index m) =
      (window (image ms) HeaderSize m.len, shownKey m) := by
  rw [handed_storedItem, imageBuffer, window_append _ (room_in_buffer hm)]
  split
  next hlen => rw [hlen, window, List.take_zero]
  next => rfl

theorem handed_objectEvents (inkey : Text) (ms : List Message) :
    ((objectEvents inkey ms).filter fun e => e.2._payload.getD [] ≠ []).map (fun e => handed e.2) =
      restored ms := by
  have hroom (m : Message) (hm : m ∈ discovered ms) :
      HeaderSize + m.len ≤ (image ms).length := room_in_buffer (List.mem_of_mem_take hm)
  rw [objectEvents, handed_recordEvents, restored, visible]
  · apply List.map_congr_left
    intro m hm
    have hmem := (List.mem_filter.mp (List.mem_filter.mp hm).1).1
    rw [imageBuffer, window_append _ (hroom m hmem)]
  · intro m hm
    rw [imageBuffer, List.length_append]
    exact Nat.le_trans (hroom m hm) (Nat.le_add_right ..)

/-- Objects whose visible messages are told apart by timestamp and offset each give back
what can be restored of them. -/
theorem replayed_objects {objects : List (Text × List Message)} {p : Produce}
    (hp : p.partition_dst = PARTITION_UA)
    (hdistinct : Distinct (objects.flatMap fun o => visible o.2)) :
    (((insertAll ∅ (objects.flatMap fun o => objectEvents o.1 o.2)).toList.flatMap
      fun e => sent p e.2).map ProduceCall.message).Perm (objects.flatMap fun o => restored o.2) := by
  have hnodup : ((objects.flatMap fun o => objectEvents o.1 o.2).map Prod.fst).Nodup := by
    have hkeys := keys_nodup hdistinct
    rw [List.map_flatMap] at hkeys ⊢
    simp only [objectEvents, keys_recordEvents]
    exact hkeys
  rw [sent_unassigned hp]
  refine (((toList_insertAll hnodup).filter _).map _).trans ?_
  rw [List.filter_flatMap, List.map_flatMap]
  simp only [handed_objectEvents]
  exact List.Perm.refl _

end Objects

/-- The surroundings in which a replay comes to its end: the discovery finds some keys,
their objects are images which are downloaded to files that open, and the producer can be
set up without a destination. -/
structure Found (s : Surroundings) (from_time topic : Text) (fuel : ℕ) (keys : List Text)
    (bundles : Text → List Message) : Prop where
  getenv_from_time : s.env.getenv "FROM_TIME".toList = some from_time
  getenv_topic : s.env.getenv "AWS_TOPIC".toList = some topic
  discovery : s3_discovery s.beyond topic (MessageTime.ofText from_time)
    (configured s.env (some paws) {}).client s.listObjects infetch fuel 0 ⟨[], []⟩ = .ok keys
  nonempty : ∀ key ∈ keys, bundles key ≠ []
  object : ∀ key ∈ keys, s.object key = some (image (bundles key))
  opens : ∀ key ∈ keys, (s.made topic).opens (localTarget key) = true
  producer : ∃ p, Produce.setup s.rd s.env = .ok p ∧ p.partition_dst = PARTITION_UA

/-- The member of the made-up configuration is none of those which are read. -/
theorem setup_paws (env : Environment) :
    S3Setup.S3.setup env (some paws) {} = .ok (configured env (some paws) {}) := by
  apply (setup_crashes env (some paws) {}).of_fit
  intro key hkey p hp
  simp only [memberKeys, List.mem_cons, List.not_mem_nil, or_false] at hkey
  rcases hkey with rfl | rfl | rfl | rfl | rfl <;> cases hp

/-- A process which has read its files and can set its producer up comes to its end. -/
theorem main_of_map {s : Surroundings} {from_time topic : Text} {fuel : ℕ} {keys : List Text}
    {r : Replay} {p : Produce} (hfrom : s.env.getenv "FROM_TIME".toList = some from_time)
    (htopic : s.env.getenv "AWS_TOPIC".toList = some topic)
    (hdiscovery : s3_discovery s.beyond topic (MessageTime.ofText from_time)
      (configured s.env (some paws) {}).client s.listObjects infetch fuel 0 ⟨[], []⟩ = .ok keys)
    (hread : batch_discovery (configured s.env (some paws) {}).client false
      (keys.map fun key => (key, ⟨s.object key, (s.made topic).opens (localTarget key)⟩))
        ⟨∅, [], s.disk⟩ = .ok r)
    (hp : Produce.setup s.rd s.env = .ok p) (hwhole : ∀ e ∈ processed r.output, Whole e.2) :
    ∃ out, main s fuel = .ok (1, out) ∧
      out.calls = r.output.toList.flatMap fun e => sent p e.2 := by
  obtain ⟨lines, hevents⟩ := process_events_whole (p := p) hwhole s.produced .empty
  refine ⟨⟨lines, _⟩, ?_, rfl⟩
  unfold main
  rw [hfrom, htopic, setup_paws]
  simp only [stdString, Except.mapError, bind, Except.bind, pure, Except.pure, hdiscovery, hp]
  rw [hread]
  simp only [hevents]
  rfl

/-- The map which the process makes of the objects. -/
def foundMap (keys : List Text) (bundles : Text → List Message) : DiscoveryMap :=
  insertAll ∅ (keys.flatMap fun key => objectEvents key (bundles key))

/-- What is handed over of the objects under the keys: each entry is the message from which
the header comes with the key under which it was read. No two of them are of one timestamp
and offset, and of those which the visible messages have none is left out, unless a message
without payload has it. -/
structure Origins (keys : List Text) (bundles : Text → List Message) (calls : List ProduceCall)
    (replayed : List (Message × Text)) : Prop where
  calls : calls.map ProduceCall.message =
    replayed.map fun r => (window (image (bundles r.2)) HeaderSize r.1.len, shownKey r.1)
  nodup : (replayed.map fun r => messageKey r.1).Nodup
  source : ∀ r ∈ replayed, r.2 ∈ keys ∧ r.1 ∈ visible (bundles r.2) ∧ 0 < r.1.len
  all : ∀ key ∈ keys, ∀ m ∈ visible (bundles key),
    (∀ other ∈ keys, ∀ n ∈ visible (bundles other), messageKey n = messageKey m → 0 < n.len) →
    ∃ r ∈ replayed, messageKey r.1 = messageKey m

theorem of_mem_foundMap {keys : List Text} {bundles : Text → List Message} {e : Event}
    (h : e ∈ (foundMap keys bundles).toList) : ∃ key ∈ keys, ∃ m ∈ visible (bundles key), ∃ i,
      e = (messageKey m, storedItem key (imageBuffer (bundles key)) i m) := by
  obtain ⟨key, hkey, hevent⟩ := List.mem_flatMap.mp (of_mem_toList_insertAll h)
  exact ⟨key, hkey, of_mem_objectEvents hevent⟩

/-- The map has an event of each visible message's timestamp and offset. -/
theorem exists_event {keys : List Text} {bundles : Text → List Message} {key : Text}
    (hkey : key ∈ keys) {m : Message} (hm : m ∈ visible (bundles key)) :
    ∃ e ∈ (foundMap keys bundles).toList, e.1 = messageKey m := by
  have hmem : messageKey m ∈ (objectEvents key (bundles key)).map Prod.fst := by
    rw [objectEvents, keys_recordEvents]
    exact List.mem_map_of_mem hm
  obtain ⟨e, he, hfst⟩ := List.mem_map.mp hmem
  cases hlast : lastValue (keys.flatMap fun key => objectEvents key (bundles key))
      (messageKey m) with
  | none =>
      exact absurd hfst (lastValue_eq_none_iff.mp hlast e (List.mem_flatMap.mpr ⟨key, hkey, he⟩))
  | some item => exact ⟨(messageKey m, item), mem_toList_insertAll.mpr hlast, rfl⟩

theorem payload_eq_nil_iff (inkey : Text) {ms : List Message} {m : Message} (hm : m ∈ ms)
    (index : Int32) :
    (storedItem inkey (imageBuffer ms) index m)._payload.getD [] = [] ↔ m.len = 0 := by
  have hpayload : (storedItem inkey (imageBuffer ms) index m)._payload.getD [] =
      window (image ms) HeaderSize m.len := congrArg Prod.fst (handed_in_image inkey hm index)
  rw [hpayload, ← List.length_eq_zero_iff, window_length (room_in_buffer hm)]

/-- Of the events under one timestamp and offset the last one counts. -/
theorem exists_origins {p : Produce} (hp : p.partition_dst = PARTITION_UA) (keys : List Text)
    (bundles : Text → List Message) :
    ∃ replayed, Origins keys bundles
      ((foundMap keys bundles).toList.flatMap fun e => sent p e.2) replayed := by
  let kept := (foundMap keys bundles).toList.filter fun e => e.2._payload.getD [] ≠ []
  have horigin (e : Event) (he : e ∈ kept) : ∃ r : Message × Text, r.2 ∈ keys ∧
      r.1 ∈ visible (bundles r.2) ∧ 0 < r.1.len ∧ messageKey r.1 = e.1 ∧
      (window (image (bundles r.2)) HeaderSize r.1.len, shownKey r.1) = handed e.2 := by
    obtain ⟨hmem, hsome⟩ := List.mem_filter.mp he
    obtain ⟨key, hkey, m, hm, i, rfl⟩ := of_mem_foundMap hmem
    have hlen := mt (payload_eq_nil_iff key (mem_of_visible hm) i).mpr (of_decide_eq_true hsome)
    exact ⟨(m, key), hkey, hm, Nat.pos_of_ne_zero hlen, rfl,
      (handed_in_image key (mem_of_visible hm) i).symm⟩
  choose origin hkeys hvisible hlen hfst hhanded using horigin
  have hmap {γ : Type} (g : Message × Text → γ) (f : Event → γ)
      (hgf : ∀ e he, g (origin e he) = f e) :
      (kept.pmap origin fun _ he => he).map g = kept.map f := by
    rw [List.map_pmap, ← List.pmap_eq_map (p := (· ∈ kept)) fun _ he => he]
    exact List.pmap_congr_left _ fun e _ he _ => hgf e he
  refine ⟨kept.pmap origin fun _ he => he, ?_, ?_, ?_, ?_⟩
  · rw [sent_unassigned hp]
    exact (hmap _ _ hhanded).symm
  · rw [hmap _ _ hfst]
    exact (nodup_keys_insertAll _).sublist (List.filter_sublist.map Prod.fst)
  · intro r hr
    obtain ⟨e, he, rfl⟩ := List.mem_pmap.mp hr
    exact ⟨hkeys e he, hvisible e he, hlen e he⟩
  · intro key hkey m hm hpositive
    obtain ⟨e, he, hsame⟩ := exists_event hkey hm
    obtain ⟨other, hother, n, hn, i, rfl⟩ := of_mem_foundMap he
    have hpayload := mt (payload_eq_nil_iff other (mem_of_visible hn) i).mp
      (hpositive other hother n hn hsame).ne'
    have hmem : (messageKey n, storedItem other (imageBuffer (bundles other)) i n) ∈ kept :=
      List.mem_filter.mpr ⟨he, decide_eq_true hpayload⟩
    exact ⟨_, List.mem_pmap_of_mem hmem, (hfst _ hmem).trans hsame⟩

namespace Found
variable {s : Surroundings} {from_time topic : Text} {fuel : ℕ} {keys : List Text}
  {bundles : Text → List Message} (h : Found s from_time topic fuel keys bundles)
include h

/-- The objects are read without a fault, and every event of theirs is whole. -/
theorem read (bucket : Text) :
    (∃ reports disk, batch_discovery ⟨true, bucket⟩ false
      (keys.map fun key => (key, ⟨s.object key, (s.made topic).opens (localTarget key)⟩))
        ⟨∅, [], s.disk⟩ = .ok ⟨foundMap keys bundles, reports, disk⟩) ∧
      ∀ e ∈ processed (foundMap keys bundles), Whole e.2 := by
  let objects := keys.map fun key => (key, bundles key)
  have hobjects : ∀ o ∈ objects, o.2 ≠ [] := List.forall_mem_map.mpr h.nonempty
  have hmap : objects.foldl (fun output o => collectObject o.1 o.2 output) ∅ =
      foundMap keys bundles := by
    rw [collectObjects_eq, List.flatMap_map]
    rfl
  have hanswers : (keys.map fun key =>
      (key, (⟨s.object key, (s.made topic).opens (localTarget key)⟩ : GetAnswer))) =
        objects.map fun o => (o.1, downloaded o.2) := by
    rw [List.map_map]
    apply List.map_congr_left
    intro key hkey
    rw [h.object key hkey, h.opens key hkey]
    rfl
  obtain ⟨reports, disk, hread⟩ := batch_discovery_images bucket false objects hobjects
    ⟨∅, [], s.disk⟩
  have hwhole := whole_of_objects hobjects hread
  rw [hanswers]
  rw [hmap] at hread hwhole
  exact ⟨⟨reports, disk, hread⟩, hwhole⟩

theorem main_eq :
    ∃ p out, p.partition_dst = PARTITION_UA ∧ main s fuel = .ok (1, out) ∧
      out.calls = (foundMap keys bundles).toList.flatMap fun e => sent p e.2 := by
  obtain ⟨p, hp, hdst⟩ := h.producer
  obtain ⟨⟨reports, disk, hread⟩, hwhole⟩ := h.read (configured s.env (some paws) {}).bucket
  obtain ⟨out, hmain, hcalls⟩ :=
    main_of_map h.getenv_from_time h.getenv_topic h.discovery hread hp hwhole
  exact ⟨p, out, hdst, hmain, hcalls⟩

/-- With the visible messages of the objects told apart by timestamp and offset, the
process hands over what can be restored of these objects, each of it once. -/
theorem restores (hdistinct : Distinct (keys.flatMap fun key => visible (bundles key))) :
    ∃ out, main s fuel = .ok (1, out) ∧ (out.calls.map ProduceCall.message).Perm
      (keys.flatMap fun key => restored (bundles key)) := by
  obtain ⟨p, out, hdst, hmain, hcalls⟩ := h.main_eq
  let objects := keys.map fun key => (key, bundles key)
  have hobjects : Distinct (objects.flatMap fun o => visible o.2) := by
    rw [List.flatMap_map]
    exact hdistinct
  have hreplayed := replayed_objects hdst hobjects
  rw [List.flatMap_map, List.flatMap_map] at hreplayed
  refine ⟨out, hmain, ?_⟩
  rw [hcalls]
  exact hreplayed

/-- Whatever the objects are, what is handed over comes from them. -/
theorem origins : ∃ out replayed, main s fuel = .ok (1, out) ∧
    Origins keys bundles out.calls replayed := by
  obtain ⟨p, out, hdst, hmain, hcalls⟩ := h.main_eq
  obtain ⟨replayed, horigins⟩ := exists_origins hdst keys bundles
  exact ⟨out, replayed, hmain, hcalls ▸ horigins⟩

end Found

/-- The objects under the topic can be downloaded to files which open. -/
def FilesOpen (s : Surroundings) (topic : Text) (l : Listing) : Prop :=
  ∀ key ∈ l.keys, topic <+: key → (s.made topic).opens (localTarget key) = true

instance (s : Surroundings) (topic : Text) (l : Listing) : Decidable (FilesOpen s topic l) :=
  inferInstanceAs (Decidable (∀ key ∈ l.keys, _ → _))

/-- A bucket whose objects under the topic are images, and all that a replay needs beside it. -/
structure Stocked (s : Surroundings) (from_time topic : Text) (l : Listing)
    (bundles : Text → List Message) : Prop where
  getenv_from_time : s.env.getenv "FROM_TIME".toList = some from_time
  getenv_topic : s.env.getenv "AWS_TOPIC".toList = some topic
  listObjects : s.listObjects = l.listObjects
  nonempty : ∀ key ∈ l.keys, topic <+: key → bundles key ≠ []
  object : ∀ key ∈ l.keys, topic <+: key → s.object key = some (image (bundles key))
  opens : FilesOpen s topic l
  producer : ∃ p, Produce.setup s.rd s.env = .ok p ∧ p.partition_dst = PARTITION_UA

/-- The keys which the replay selects. -/
def selectedKeys (s : Surroundings) (from_time topic : Text) (l : Listing) : List Text :=
  (l.matching topic).filter (selected s.beyond topic (MessageTime.ofText from_time))

section Bucket
variable {s : Surroundings} {from_time topic : Text} {l : Listing} {bundles : Text → List Message}

theorem of_mem_selectedKeys {key : Text} (h : key ∈ selectedKeys s from_time topic l) :
    key ∈ l.keys ∧ topic <+: key := by
  obtain ⟨hkey, htopic⟩ := List.mem_filter.mp (List.mem_filter.mp h).1
  exact ⟨hkey, by simpa using htopic⟩

theorem Stocked.found (h : Stocked s from_time topic l bundles) {fuel : ℕ}
    (hfuel : l.keys.length < fuel) :
    Found s from_time topic fuel (selectedKeys s from_time topic l) bundles where
  getenv_from_time := h.getenv_from_time
  getenv_topic := h.getenv_topic
  discovery := by
    rw [h.listObjects]
    exact s3_discovery_eq l _ infetch hfuel
  nonempty key hkey := h.nonempty key (of_mem_selectedKeys hkey).1 (of_mem_selectedKeys hkey).2
  object key hkey := h.object key (of_mem_selectedKeys hkey).1 (of_mem_selectedKeys hkey).2
  opens key hkey := h.opens key (of_mem_selectedKeys hkey).1 (of_mem_selectedKeys hkey).2
  producer := h.producer

end Bucket

section Example

/-- An environment with all that a replay needs. -/
def replayEnvironment (from_time topic : Text) : Environment where
  getenv name :=
    if name = "FROM_TIME".toList then some from_time
    else if name = "AWS_TOPIC".toList then some topic
    else if name = "KAFKA_BROKERS".toList then some ['b']
    else if name = "KAFKA_TARGET_TOPIC".toList then some ['t']
    else none
  envp := none

/-- A privileged process, and nothing but the directory for its files. -/
def emptyTmp : LocalFiles.Files where
  entry path := if path = ["tmp".toList] then some (.directory true) else none
  privileged := true

/-- A bucket with one object, listed one key at a time. -/
def oneObject : Listing where
  keys := ["a/1970-01-01-00-00-00.0-rand-7".toList]
  sorted := List.pairwise_singleton ..
  nonempty := by decide
  served := fun _ _ => 1
  served_range := fun _ _ h => ⟨le_rfl, h⟩

def twoMessages : List Message :=
  [.plain ['a'] 0 0 5 [97] Message.letter_fits Message.letter_fits,
    .plain ['a'] 0 1 6 [98] Message.letter_fits Message.letter_fits]

def oneObjectReplay : Surroundings where
  rd := .willing
  env := replayEnvironment "1969".toList "a/".toList
  listObjects := oneObject.listObjects
  object := fun _ => some (image twoMessages)
  files := emptyTmp
  disk := ∅
  produced := fun _ => true
  beyond := fun _ _ => 0

theorem oneObject_stocked :
    Stocked oneObjectReplay "1969".toList "a/".toList oneObject fun _ => twoMessages where
  getenv_from_time := rfl
  getenv_topic := rfl
  listObjects := rfl
  nonempty := fun _ _ _ => List.cons_ne_nil _ _
  object := fun _ _ _ => rfl
  opens := by decide +kernel
  producer := ⟨_, rfl, rfl⟩

theorem selectedKeys_oneObject :
    selectedKeys oneObjectReplay "1969".toList "a/".toList oneObject = oneObject.keys := by
  decide +kernel

theorem oneObject_distinct : Distinct ((selectedKeys oneObjectReplay "1969".toList "a/".toList
    oneObject).flatMap fun _ => visible twoMessages) := by
  rw [selectedKeys_oneObject]
  simp [Distinct, oneObject, visible, discovered, twoMessages, Message.plain]

end Example

end KafkaK3.ReplayProcess
