import KafkaK3.CrashRecovery
import KafkaK3.KeyUniqueness
import KafkaK3.LastValue

/-!
# What a history leaves in the bucket

Each accepted PUT of a history of processes has put the image of its bundle under its
key, and under each key lies what was put there last. The processes may be started over,
and their clocks and time zones may differ. A key shows its topic, the local second of
the bundle's last message and the low half of a clock, so where no two accepted PUTs
have these in common nothing is overwritten.
-/
namespace KafkaK3.BucketContents
open ByteBuffer DecimalText S3Client MessageLayout StashImage StashKey BackupConsumer
open ConsumerInvariants CommitSafety BrokerSession CrashRecovery KeyCover KeyUniqueness
open LastValue

/-- The PUTs of a history which S3 has taken. -/
def accepted (ss : List Session) : List PutCall :=
  ss.flatMap fun b => (putCalls b.happened).filter PutCall.rval

/-- The requests behind them. -/
def requests (ss : List Session) : List PutObjectRequest :=
  (accepted ss).filterMap PutCall.request

def objects (ss : List Session) : List (Text × Bytes) := (requests ss).map fun r => (r.key, r.body)

/-- The bundles under their keys. -/
def stored (ss : List Session) : List (Text × List Message) :=
  (accepted ss).map fun call => (call.s3key, contents call.bundle)

/-- The bundle of which the object under the key is the image. -/
def bundleAt (ss : List Session) (key : Text) : List Message := (lastValue (stored ss) key).getD []

section Calls
variable {b : Session} {call : PutCall}

/-- An accepted PUT has sent the image of its bundle under its key. -/
theorem request_of_put (hcall : call ∈ putCalls b.trace) (hrval : call.rval = true) :
    ∃ r, call.request = some r ∧ r.key = call.s3key ∧ r.body = image (contents call.bundle) := by
  obtain ⟨r, hr, hkey, hbody⟩ := PutCall.request_of_rval hrval
  exact ⟨r, hr, hkey, hbody.trans (b.orderly.consistent.image_of_put hcall)⟩

theorem stash_of_put (hcall : call ∈ putCalls b.trace) :
    (call.topic, call.bundle) ∈ stashes b.trace ∧ 0 < messagesSize (contents call.bundle) := by
  obtain ⟨hstash, -, hsize⟩ := b.orderly.consistent.mem_stashes_of_put hcall
  exact ⟨hstash, hsize⟩

theorem bundle_ne_nil (hcall : call ∈ putCalls b.trace) : contents call.bundle ≠ [] :=
  mt List.map_eq_nil_iff.mp (b.orderly.consistent.nonempty _ (stash_of_put hcall).1)

/-- A stored message is one of those which the process was given. -/
theorem delivered_of_put (hcall : call ∈ putCalls b.trace) {m : Message}
    (hm : m ∈ contents call.bundle) : m.topic_name = call.topic ∧ m ∈ delivered b.results := by
  obtain ⟨x, hx, rfl⟩ := List.mem_map.mp hm
  have hstash := (stash_of_put hcall).1
  refine ⟨b.orderly.consistent.topic_of_stash hstash hx, ?_⟩
  have hcommit : x ∈ committed b.trace := by
    rw [Session.trace, b.orderly.consistent.commits]
    exact List.mem_flatMap.mpr ⟨_, hstash, hx⟩
  have hreceived : x ∈ received b.trace := by
    have hown : x ∈ committedOf x.pmessage.topic_name b.trace :=
      List.mem_filter.mpr ⟨hcommit, by simp⟩
    have hsplit := b.orderly.consistent.receivedOf_eq x.pmessage.topic_name
    rw [← Session.trace] at hsplit
    exact (List.mem_filter.mp (hsplit ▸ List.mem_append_left _ hown)).1
  rw [← received_run b.c b.w, ← received_finish b.c b.w _ b.ending]
  exact List.mem_map_of_mem hreceived

end Calls

section Bucket
variable {cluster : Cluster} {offsets later : Offsets} {ss : List Session}

theorem of_mem_accepted (h : History cluster offsets ss later) {call : PutCall}
    (hcall : call ∈ accepted ss) :
    ∃ b ∈ ss, call ∈ putCalls b.happened ∧ call ∈ putCalls b.trace ∧ call.rval = true := by
  obtain ⟨b, hb, hput⟩ := List.mem_flatMap.mp hcall
  obtain ⟨hput, hrval⟩ := List.mem_filter.mp hput
  obtain ⟨_, hruns⟩ := h.runs b hb
  obtain ⟨rest, hrest⟩ := hruns.happened
  have htrace : call ∈ putCalls b.trace := by
    rw [← hrest, putCalls_append]
    exact List.mem_append_left _ hput
  exact ⟨b, hb, hput, htrace, hrval⟩

theorem mem_log_of_put (h : History cluster offsets ss later) {b : Session} (hb : b ∈ ss)
    {call : PutCall} (hcall : call ∈ putCalls b.trace) {m : Message}
    (hm : m ∈ contents call.bundle) : m ∈ cluster.log call.topic m.partition := by
  obtain ⟨hown, hgiven⟩ := delivered_of_put hcall hm
  obtain ⟨_, hruns⟩ := h.runs b hb
  have hat : m ∈ messagesAt m.topic_name m.partition (delivered b.results) :=
    List.mem_filter.mpr ⟨hgiven, by simp⟩
  rw [← hown]
  exact (List.mem_filter.mp ((hruns.delivered m.topic_name m.partition).subset hat)).1

theorem request_of_accepted (h : History cluster offsets ss later) {call : PutCall}
    (hcall : call ∈ accepted ss) :
    ∃ r, call.request = some r ∧ r.key = call.s3key ∧ r.body = image (contents call.bundle) := by
  obtain ⟨b, _, _, htrace, hrval⟩ := of_mem_accepted h hcall
  exact request_of_put htrace hrval

theorem mem_requests_key (h : History cluster offsets ss later) {key : Text} :
    (∃ r ∈ requests ss, r.key = key) ↔ ∃ call ∈ accepted ss, call.s3key = key := by
  constructor
  · rintro ⟨r, hr, rfl⟩
    obtain ⟨call, hcall, hrequest⟩ := List.mem_filterMap.mp hr
    obtain ⟨r', hr', hkey, -⟩ := request_of_accepted h hcall
    obtain rfl := Option.some.inj (hrequest.symm.trans hr')
    exact ⟨call, hcall, hkey.symm⟩
  · rintro ⟨call, hcall, rfl⟩
    obtain ⟨r, hr, hkey, -⟩ := request_of_accepted h hcall
    exact ⟨r, List.mem_filterMap.mpr ⟨call, hcall, hr⟩, hkey⟩

/-- The objects are the images of the bundles. -/
theorem objects_eq (h : History cluster offsets ss later) :
    objects ss = (stored ss).map fun e => (e.1, image e.2) := by
  have hobject (call : PutCall) (hcall : call ∈ accepted ss) :
      (call.request.map fun r => (r.key, r.body)) =
        some (call.s3key, image (contents call.bundle)) := by
    obtain ⟨r, hr, hkey, hbody⟩ := request_of_accepted h hcall
    rw [hr, Option.map_some, hkey, hbody]
  rw [objects, requests, List.map_filterMap, List.filterMap_congr hobject, stored, List.map_map]
  exact congrFun List.filterMap_eq_map _

/-- Under each key lies the bundle of one of the PUTs. -/
theorem bundleAt_of_key {key : Text} (hkey : ∃ call ∈ accepted ss, call.s3key = key) :
    lastValue (stored ss) key = some (bundleAt ss key) ∧
      ∃ call ∈ accepted ss, call.s3key = key ∧ bundleAt ss key = contents call.bundle := by
  cases hlast : lastValue (stored ss) key with
  | none =>
      obtain ⟨call, hcall, hs3key⟩ := hkey
      exact absurd hs3key (lastValue_eq_none_iff.mp hlast _ (List.mem_map_of_mem hcall))
  | some ms =>
      have hbundle : bundleAt ss key = ms := by rw [bundleAt, hlast, Option.getD_some]
      obtain ⟨call, hcall, hentry⟩ := List.mem_map.mp (mem_of_lastValue hlast)
      obtain ⟨hs3key, hms⟩ := Prod.mk.inj hentry
      exact ⟨congrArg some hbundle.symm, call, hcall, hs3key, hbundle.trans hms.symm⟩

end Bucket

section Keys
variable {cluster : Cluster} {offsets later : Offsets} {ss : List Session}

/-- An accepted PUT with what its key shows beside the topic. -/
structure Keyed where
  call : PutCall
  second : Option Tm
  seed : UInt32

/-- The accepted PUTs of a process, the `n`-th of which reads the clock for the `n`-th time. -/
def keyedOf (b : Session) : List Keyed :=
  ((putCalls b.happened).zipIdx.filter fun e => e.1.rval).map fun e =>
    ⟨e.1, e.1.bundle.getLast?.map fun x => localSecond b.w x.pmessage,
      (b.w.now e.2).toUInt64.toUInt32⟩

def keyed (ss : List Session) : List Keyed := ss.flatMap keyedOf

/-- Nothing in their keys tells the two apart. -/
def Keyed.Same (a b : Keyed) : Prop :=
  a.call.topic = b.call.topic ∧ a.second = b.second ∧ a.seed = b.seed

instance : DecidableRel Keyed.Same := fun _ _ => inferInstanceAs (Decidable (_ ∧ _ ∧ _))

theorem keyed_calls (ss : List Session) : (keyed ss).map Keyed.call = accepted ss := by
  rw [keyed, accepted, List.map_flatMap]
  congr 1
  funext b
  have hfst := List.zipIdx_map_fst 0 (putCalls b.happened)
  rw [keyedOf, List.map_map, ← hfst, List.filter_map, hfst]
  rfl

theorem key_of_keyed (h : History cluster offsets ss later) {a : Keyed} (ha : a ∈ keyed ss) :
    ∃ tm, a.second = some tm ∧
      a.call.s3key = formatKey a.call.topic (strftime tm) a.seed (minstd_rand0 a.seed) := by
  obtain ⟨b, hb, ha⟩ := List.mem_flatMap.mp ha
  obtain ⟨⟨call, n⟩, he, rfl⟩ := List.mem_map.mp ha
  have hn := List.mem_zipIdx_iff_getElem?.mp (List.mem_filter.mp he).1
  obtain ⟨_, hruns⟩ := h.runs b hb
  obtain ⟨rest, hrest⟩ := hruns.happened
  have htrace : (putCalls b.trace)[n]? = some call := by
    rw [← hrest, putCalls_append, List.getElem?_append_left (List.getElem?_eq_some_iff.mp hn).1]
    exact hn
  obtain ⟨last, hlast, hkey⟩ := key_of_put b.orderly.consistent htrace
  exact ⟨localSecond b.w last.pmessage, by rw [hlast]; rfl, hkey⟩

variable (h : History cluster offsets ss later) (hslash : ∀ call ∈ accepted ss, '/' ∉ call.topic)
include h hslash

theorem same_key_iff {a b : Keyed} (ha : a ∈ keyed ss) (hb : b ∈ keyed ss) :
    a.call.s3key = b.call.s3key ↔ a.Same b := by
  obtain ⟨s, hs, hkeyA⟩ := key_of_keyed h ha
  obtain ⟨t, ht, hkeyB⟩ := key_of_keyed h hb
  have htopic {k : Keyed} (hk : k ∈ keyed ss) : '/' ∉ k.call.topic :=
    hslash k.call (keyed_calls ss ▸ List.mem_map_of_mem hk)
  rw [hkeyA, hkeyB, Keyed.Same, hs, ht]
  constructor
  · intro hkey
    obtain ⟨hsame, -⟩ := append_mark_inj (htopic ha) (htopic hb) hkey
    rw [hsame] at hkey
    exact ⟨hsame, congrArg some (time_of_formatKey hkey), seed_of_formatKey hkey⟩
  · intro ⟨hsame, hsecond, hseed⟩
    rw [hsame, Option.some.inj hsecond, hseed]

/-- All keys are different exactly when no two of the PUTs have all three in common. -/
theorem keys_nodup_iff : ((accepted ss).map PutCall.s3key).Nodup ↔
    (keyed ss).Pairwise fun a b => ¬ a.Same b := by
  rw [← keyed_calls, List.map_map, List.Nodup, List.pairwise_map]
  exact List.Pairwise.iff_of_mem fun ha hb => not_congr (same_key_iff h hslash ha hb)

/-- Then every bundle lies under its own key. -/
theorem stored_kept (hapart : (keyed ss).Pairwise fun a b => ¬ a.Same b) {call : PutCall}
    (hcall : call ∈ accepted ss) :
    lastValue (stored ss) call.s3key = some (contents call.bundle) := by
  have hnodup : ((stored ss).map Prod.fst).Nodup := by
    rw [stored, List.map_map]
    exact (keys_nodup_iff h hslash).mpr hapart
  exact (lastValue_of_nodup hnodup).mpr (List.mem_map_of_mem hcall)

end Keys

/-- Where no two accepted PUTs of a history have the topic, the local second of their last
messages and the low half of the clock in common, every object which was put is still in
the bucket as it was put. -/
theorem objects_kept {cluster : Cluster} {offsets later : Offsets} {ss : List Session}
    (h : History cluster offsets ss later) (hslash : ∀ call ∈ accepted ss, '/' ∉ call.topic)
    (hapart : (keyed ss).Pairwise fun a b => ¬ a.Same b) :
    ∀ call ∈ accepted ss,
      lastValue (objects ss) call.s3key = some (image (contents call.bundle)) := by
  intro call hcall
  rw [objects_eq h, lastValue_map, stored_kept h hslash hapart hcall]
  rfl

section Example

/-- A process which stores the one message at once, on the first day of 1980; `arrived` of
its commits arrive. -/
def singleSession (ticks : Int64) (arrived : List MessageWrapper) : Session :=
  let c : Consume := ⟨some ⟨true, "k3dump".toList⟩, 1, 1024⟩
  let w : World := ⟨fun _ => true, fun _ => ticks, fun _ => { Tm.epoch with tm_year := 80 }⟩
  let s := (State.run c w [.message oneMessage]).finish c w .destroyed
  ⟨c, w, [.message oneMessage], .destroyed, s.trace, arrived⟩

/-- The commit of the first process is lost, so the second one stores the message again. -/
def retried : List Session := [singleSession 7 [], singleSession 8 [⟨0, oneMessage⟩]]

theorem singleSession_runs (ticks : Int64) {arrived : List MessageWrapper}
    (h : arrived.Sublist [⟨0, oneMessage⟩]) :
    (singleSession ticks arrived).Runs oneMessageCluster fun _ _ => 0 :=
  ⟨oneMessage_delivered, List.prefix_rfl, h⟩

theorem retriedHistory : History oneMessageCluster (fun _ _ => 0) retried
    (commitOffsets (fun _ _ => 0) [oneMessage]) :=
  .cons (singleSession_runs 7 (List.nil_sublist _))
    (.cons (singleSession_runs 8 (List.Sublist.refl _)) .nil)

theorem retried_slash : ∀ call ∈ accepted retried, '/' ∉ call.topic := by decide +kernel

/-- The clock has gone on by one tick. -/
theorem retried_apart : (keyed retried).Pairwise fun a b => ¬ a.Same b := by decide +kernel

theorem objects_kept_retried : (accepted retried).length = 2 ∧ ∀ call ∈ accepted retried,
    lastValue (objects retried) call.s3key = some (image (contents call.bundle)) :=
  ⟨by decide +kernel, objects_kept retriedHistory retried_slash retried_apart⟩

end Example

end KafkaK3.BucketContents
