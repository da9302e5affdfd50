import KafkaK3.BucketContents
import KafkaK3.BundleBounds
import KafkaK3.ReplayProcess

/-!
# From one broker to the other

A history of backup processes leaves objects in a bucket, and a replay reads that
bucket. Everything which the replay hands over comes from a message of the log which
one of the processes has stored, and however often the processes were started over and
a message was stored, it is handed over once. Where the bundles hold one message each,
it has its own bytes.
-/
namespace KafkaK3.BackupAndReplay
open ByteBuffer DecimalText KafkaConfig S3Client MessageLayout StashImage StashKey BackupConsumer
open TopicChannel ConsumerInvariants CommitSafety BrokerSession CrashRecovery BundleBounds
open TimeText KeyListing ReplayProducer EventReplay ImageDiscovery ReplayRoundTrip LastValue
open S3Setup ReplayProcess BucketContents

/-- The replay reads the bucket which the history has filled: a key lists once something
was put under it, and its object is what was put there last. -/
structure Serves (ss : List Session) (s : Surroundings) (l : Listing) : Prop where
  bucket : ∀ r ∈ requests ss, r.bucket = (configured s.env (some paws) {}).bucket
  listObjects : s.listObjects = l.listObjects
  keys : ∀ key, key ∈ l.keys ↔ ∃ r ∈ requests ss, r.key = key
  object : ∀ key ∈ l.keys, s.object key = lastValue (objects ss) key

/-- The environment says from when on and for which keys, and the producer can be set up
without a destination. -/
structure Asks (s : Surroundings) (from_time topic : Text) : Prop where
  getenv_from_time : s.env.getenv "FROM_TIME".toList = some from_time
  getenv_topic : s.env.getenv "AWS_TOPIC".toList = some topic
  producer : ∃ p, Produce.setup s.rd s.env = .ok p ∧ p.partition_dst = PARTITION_UA

theorem stocked {cluster : Cluster} {offsets later : Offsets} {ss : List Session}
    (h : History cluster offsets ss later) {s : Surroundings} {l : Listing}
    (hserves : Serves ss s l) {from_time topic : Text} (hasks : Asks s from_time topic)
    (hopens : FilesOpen s topic l) : Stocked s from_time topic l (bundleAt ss) where
  getenv_from_time := hasks.getenv_from_time
  getenv_topic := hasks.getenv_topic
  listObjects := hserves.listObjects
  nonempty key hkey _ := by
    have hput := (mem_requests_key h).mp ((hserves.keys key).mp hkey)
    obtain ⟨-, call, hcall, -, hbundle⟩ := bundleAt_of_key hput
    obtain ⟨_, _, _, htrace, _⟩ := of_mem_accepted h hcall
    rw [hbundle]
    exact bundle_ne_nil htrace
  object key hkey _ := by
    have hput := (mem_requests_key h).mp ((hserves.keys key).mp hkey)
    rw [hserves.object key hkey, objects_eq h, lastValue_map, (bundleAt_of_key hput).1]
    rfl
  opens := hopens
  producer := hasks.producer

/-- Processes with positive bounds which store all, and whose keys differ. -/
structure StoresAll (ss : List Session) : Prop where
  limit : ∀ b ∈ ss, 1 ≤ b.c.message_bundle_limit.toInt
  size : ∀ b ∈ ss, 1 ≤ b.c.message_bundle_size.toInt
  storable : ∀ b ∈ ss, Storable b.c b.w b.happened
  slash : ∀ call ∈ accepted ss, '/' ∉ call.topic
  apart : (keyed ss).Pairwise fun a b => ¬ a.Same b

/-- Such processes which bundle nothing. -/
structure OneByOne (ss : List Session) : Prop extends StoresAll ss where
  single : ∀ b ∈ ss, b.c.message_bundle_limit = 1

/-- The messages of the topic are told apart by timestamp and offset, and all of them have
a timestamp. -/
structure Telling (cluster : Cluster) (topic : Text) : Prop where
  timestamp : ∀ partition, ∀ m ∈ cluster.log topic partition, m.timestamp ≠ 0
  apart : ∀ p, ∀ m ∈ cluster.log topic p, ∀ q, ∀ n ∈ cluster.log topic q,
    m.timestamp = n.timestamp → m.offset = n.offset → m = n

section Bundles
variable {b : Session} {call : PutCall}

theorem bundle_length_le (hlimit : 1 ≤ b.c.message_bundle_limit.toInt)
    (hsize : 1 ≤ b.c.message_bundle_size.toInt) (hcall : call ∈ putCalls b.trace) :
    ((contents call.bundle).length : ℤ) ≤ b.c.message_bundle_limit.toInt := by
  have hstash := (stash_of_put hcall).1
  have hbundle : call.bundle ∈ stashedOf call.topic b.trace :=
    List.mem_filterMap.mpr ⟨_, hstash, by simp⟩
  have hkeeps := keeps_small hlimit hsize
  have hfits := fits_of_small (b.orderly.consistent.nonempty _ hstash)
    (bounded_finish hkeeps (bounded_run hkeeps b.results) b.ending call.topic call.bundle hbundle)
  rw [List.length_map]
  exact hfits.1

/-- A replay sees all messages of a bundle. -/
theorem visible_of_put (hlimit : 1 ≤ b.c.message_bundle_limit.toInt)
    (hsize : 1 ≤ b.c.message_bundle_size.toInt) (hcall : call ∈ putCalls b.trace)
    (hts : ∀ m ∈ contents call.bundle, m.timestamp ≠ 0) :
    visible (contents call.bundle) = contents call.bundle := by
  have hlength := bundle_length_le hlimit hsize hcall
  have hmost := b.c.message_bundle_limit.toInt_lt
  rw [visible, discovered_eq (by omega), List.filter_eq_self]
  exact fun m hm => decide_eq_true (hts m hm)

theorem single_of_put (hlimit : b.c.message_bundle_limit = 1)
    (hsize : 1 ≤ b.c.message_bundle_size.toInt) (hcall : call ∈ putCalls b.trace) :
    ∃ m, contents call.bundle = [m] ∧ 0 < m.len := by
  have hint : b.c.message_bundle_limit.toInt = 1 := by
    rw [hlimit]
    rfl
  have hmost := bundle_length_le hint.ge hsize hcall
  have hsome := List.length_pos_iff.mpr (bundle_ne_nil hcall)
  obtain ⟨m, hm⟩ := List.length_eq_one_iff.mp (by omega : (contents call.bundle).length = 1)
  have hpositive := (stash_of_put hcall).2
  rw [hm, messagesSize_cons, messagesSize_nil] at hpositive
  exact ⟨m, hm, hpositive⟩

theorem window_single (m : Message) : window (image [m]) HeaderSize m.len = m.bytes := by
  have hfront : PayloadsInFront [m] := fun x hx => by
    rw [List.mem_singleton.mp hx]
    exact List.prefix_append ..
  exact window_eq_iff.mpr ((payloadsInFront_iff (List.cons_ne_nil m [])).mp hfront m
    (List.mem_singleton_self m))

/-- With a slash behind it the topic begins the keys of its own bundles only. -/
theorem topic_prefix_iff {topic : Text} (htopic : '/' ∉ topic) (hcall : call ∈ putCalls b.trace)
    (hslash : '/' ∉ call.topic) : topic ++ ['/'] <+: call.s3key ↔ call.topic = topic := by
  obtain ⟨s3, n, -, hbuilt⟩ := b.orderly.consistent.built_of_put hcall
  have hkey : ∃ rest, call.s3key = call.topic ++ '/' :: rest := by
    rw [hbuilt]
    exact ⟨_, rfl⟩
  obtain ⟨rest, hrest⟩ := hkey
  constructor
  · intro ⟨more, hmore⟩
    rw [hrest, List.append_assoc] at hmore
    exact (append_mark_inj htopic hslash hmore).1.symm
  · rintro rfl
    exact ⟨rest, by rw [hrest, List.append_assoc]; rfl⟩

end Bundles

section Once
variable {cluster : Cluster} {offsets later : Offsets} {ss : List Session} {s : Surroundings}
  {l : Listing} {from_time topic : Text}

/-- What the replay reads under a selected key is a bundle of the topic. -/
theorem selected_put (h : History cluster offsets ss later) (hstores : StoresAll ss)
    (hserves : Serves ss s l) (htopic : '/' ∉ topic) {key : Text}
    (hkey : key ∈ selectedKeys s from_time (topic ++ ['/']) l) :
    ∃ call ∈ accepted ss, call.topic = topic ∧ call.s3key = key ∧
      bundleAt ss key = contents call.bundle := by
  obtain ⟨hin, hstart⟩ := of_mem_selectedKeys hkey
  obtain ⟨-, call, hcall, rfl, hbundle⟩ :=
    bundleAt_of_key ((mem_requests_key h).mp ((hserves.keys key).mp hin))
  obtain ⟨_, _, _, htrace, _⟩ := of_mem_accepted h hcall
  have hown := (topic_prefix_iff htopic htrace (hstores.slash call hcall)).mp hstart
  exact ⟨call, hcall, hown, rfl, hbundle⟩

/-- The bundle of a PUT lies under its own key. -/
theorem bundleAt_s3key (h : History cluster offsets ss later) (hstores : StoresAll ss)
    {call : PutCall} (hcall : call ∈ accepted ss) : bundleAt ss call.s3key = contents call.bundle := by
  rw [bundleAt, stored_kept h hstores.slash hstores.apart hcall, Option.getD_some]

theorem mem_selectedKeys (h : History cluster offsets ss later) (hstores : StoresAll ss)
    (hserves : Serves ss s l) (htopic : '/' ∉ topic) {call : PutCall} (hcall : call ∈ accepted ss)
    (hown : call.topic = topic)
    (hselected : selected s.beyond (topic ++ ['/']) (MessageTime.ofText from_time) call.s3key = true) :
    call.s3key ∈ selectedKeys s from_time (topic ++ ['/']) l := by
  obtain ⟨b, _, _, htrace, _⟩ := of_mem_accepted h hcall
  have hkey : call.s3key ∈ l.keys :=
    (hserves.keys _).mpr ((mem_requests_key h).mpr ⟨call, hcall, rfl⟩)
  have hstart := (topic_prefix_iff htopic htrace (hstores.slash call hcall)).mpr hown
  exact List.mem_filter.mpr ⟨List.mem_filter.mpr ⟨hkey, decide_eq_true hstart⟩, hselected⟩

/-- What the offsets have passed has been stored. -/
theorem accepted_of_passed (h : History cluster offsets ss later) (hstores : StoresAll ss)
    {partition : Int32} {m : Message} (hm : m ∈ cluster.log topic partition)
    (hfrom : offsets topic partition ≤ offsetOf m) (hpast : offsetOf m < later topic partition) :
    ∃ call ∈ accepted ss, call.topic = topic ∧ m ∈ contents call.bundle := by
  obtain ⟨b, hb, x, hx, rfl⟩ := committed_of_passed h topic partition hm hfrom hpast
  obtain ⟨_, hruns⟩ := h.runs b hb
  obtain ⟨call, hput, hrval, hmem, -⟩ :=
    saved_of_storable b.orderly hruns.happened (hstores.storable b hb) x hx
  have hcall : call ∈ accepted ss :=
    List.mem_flatMap.mpr ⟨b, hb, List.mem_filter.mpr ⟨hput, hrval⟩⟩
  obtain ⟨_, _, _, htrace, _⟩ := of_mem_accepted h hcall
  have hcontents : x.pmessage ∈ contents call.bundle := List.mem_map_of_mem hmem
  exact ⟨call, hcall, (delivered_of_put htrace hcontents).1.symm.trans
    (cluster.own topic partition _ hm).1, hcontents⟩

/-- The messages which are handed over, each with the key of the object whose bytes it got:
they are those which were stored under selected keys. -/
structure Replayed (ss : List Session) (s : Surroundings) (from_time topic : Text) (fuel : ℕ)
    (out : Producing) (replayed : List (Message × Text)) : Prop where
  main_eq : main s fuel = .ok (1, out)
  calls : out.calls.map ProduceCall.message =
    replayed.map fun r => (window (image (bundleAt ss r.2)) HeaderSize r.1.len, shownKey r.1)
  nodup : (replayed.map Prod.fst).Nodup
  source : ∀ r ∈ replayed, ∃ call ∈ accepted ss, call.topic = topic ∧ call.s3key = r.2 ∧
    bundleAt ss r.2 = contents call.bundle ∧ r.1 ∈ contents call.bundle ∧
    selected s.beyond (topic ++ ['/']) (MessageTime.ofText from_time) call.s3key = true
  all : ∀ call ∈ accepted ss, call.topic = topic →
    selected s.beyond (topic ++ ['/']) (MessageTime.ofText from_time) call.s3key = true →
    ∀ m ∈ contents call.bundle, 0 < m.len → m ∈ replayed.map Prod.fst

/-- The messages of a stored bundle of the topic are in the log, and the replay sees them all. -/
theorem visible_of_accepted (h : History cluster offsets ss later) (hstores : StoresAll ss)
    (htelling : Telling cluster topic) {call : PutCall} (hcall : call ∈ accepted ss)
    (hown : call.topic = topic) :
    visible (contents call.bundle) = contents call.bundle ∧
      ∀ m ∈ contents call.bundle, m ∈ cluster.log topic m.partition := by
  obtain ⟨b, hb, -, htrace, -⟩ := of_mem_accepted h hcall
  have hlog (m : Message) (hm : m ∈ contents call.bundle) : m ∈ cluster.log topic m.partition :=
    hown ▸ mem_log_of_put h hb htrace hm
  exact ⟨visible_of_put (hstores.limit b hb) (hstores.size b hb) htrace fun m hm =>
    htelling.timestamp _ m (hlog m hm), hlog⟩

theorem exists_replayed (h : History cluster offsets ss later) (hstores : StoresAll ss)
    (htelling : Telling cluster topic) (htopic : '/' ∉ topic) (hserves : Serves ss s l)
    (hasks : Asks s from_time (topic ++ ['/'])) (hopens : FilesOpen s (topic ++ ['/']) l)
    {fuel : ℕ} (hfuel : l.keys.length < fuel) :
    ∃ out replayed, Replayed ss s from_time topic fuel out replayed := by
  obtain ⟨out, replayed, hmain, horigins⟩ := ((stocked h hserves hasks hopens).found hfuel).origins
  -- what is seen under a selected key is in the log
  have hseen (key : Text) (hkey : key ∈ selectedKeys s from_time (topic ++ ['/']) l) (m : Message)
      (hm : m ∈ visible (bundleAt ss key)) : m ∈ cluster.log topic m.partition := by
    obtain ⟨call, hcall, hown, -, hbundle⟩ := selected_put h hstores hserves htopic hkey
    rw [hbundle] at hm
    exact (visible_of_accepted h hstores htelling hcall hown).2 m (mem_of_visible hm)
  have happart (a b : Message) (ha : a ∈ cluster.log topic a.partition)
      (hb : b ∈ cluster.log topic b.partition) (hab : messageKey a = messageKey b) : a = b := by
    obtain ⟨hts, hoffset⟩ := discoveryTimestamp_inj.mp hab
    exact htelling.apart _ a ha _ b hb hts hoffset
  refine ⟨out, replayed, hmain, horigins.calls, ?_, ?_, ?_⟩
  · apply List.Nodup.of_map messageKey
    rw [List.map_map]
    exact horigins.nodup
  · intro r hr
    obtain ⟨hkey, hvisible, -⟩ := horigins.source r hr
    obtain ⟨call, hcall, hown, hs3key, hbundle⟩ := selected_put h hstores hserves htopic hkey
    exact ⟨call, hcall, hown, hs3key, hbundle, hbundle ▸ mem_of_visible hvisible,
      hs3key ▸ (List.mem_filter.mp hkey).2⟩
  · intro call hcall hown hselected m hm hlen
    obtain ⟨hvisible, hlog⟩ := visible_of_accepted h hstores htelling hcall hown
    have hkey := mem_selectedKeys h hstores hserves htopic hcall hown hselected
    have hmem : m ∈ visible (bundleAt ss call.s3key) := by
      rwa [bundleAt_s3key h hstores hcall, hvisible]
    obtain ⟨r, hr, hsame⟩ := horigins.all call.s3key hkey m hmem fun other hother n hn hnm =>
      happart n m (hseen other hother n hn) (hlog m hm) hnm ▸ hlen
    obtain ⟨hrkey, hrvisible, -⟩ := horigins.source r hr
    exact List.mem_map.mpr ⟨r, hr, happart r.1 m (hseen r.2 hrkey r.1 hrvisible) (hlog m hm) hsame⟩

section Single
variable {fuel : ℕ} {out : Producing} {replayed : List (Message × Text)}

/-- With one message in each bundle the payloads are right. -/
theorem Replayed.single (hreplayed : Replayed ss s from_time topic fuel out replayed)
    (h : History cluster offsets ss later) (hone : OneByOne ss) :
    out.calls.map ProduceCall.message =
      (replayed.map Prod.fst).map fun m => (m.bytes, shownKey m) := by
  rw [hreplayed.calls, List.map_map]
  apply List.map_congr_left
  intro r hr
  obtain ⟨call, hcall, -, -, hbundle, hmem, -⟩ := hreplayed.source r hr
  obtain ⟨b, hb, -, htrace, -⟩ := of_mem_accepted h hcall
  obtain ⟨m, hm, -⟩ := single_of_put (hone.single b hb) (hone.size b hb) htrace
  rw [hm, List.mem_singleton] at hmem
  rw [hbundle, hm, ← hmem, window_single]
  rfl

theorem passed_single (h : History cluster offsets ss later) (hone : OneByOne ss)
    {partition : Int32} {m : Message} (hm : m ∈ cluster.log topic partition)
    (hfrom : offsets topic partition ≤ offsetOf m) (hpast : offsetOf m < later topic partition) :
    ∃ call ∈ accepted ss, call.topic = topic ∧ contents call.bundle = [m] ∧ 0 < m.len := by
  obtain ⟨call, hcall, hown, hmem⟩ := accepted_of_passed h hone.toStoresAll hm hfrom hpast
  obtain ⟨b, hb, -, htrace, -⟩ := of_mem_accepted h hcall
  obtain ⟨n, hn, hlen⟩ := single_of_put (hone.single b hb) (hone.size b hb) htrace
  rw [hn, List.mem_singleton] at hmem
  rw [hmem]
  exact ⟨call, hcall, hown, hn, hlen⟩

end Single

/-- A history of processes which store every message on its own, with whatever crashes and
repeated deliveries, and a replay of its topic: each message is handed over at most once,
with its own bytes, and all are which the offsets have passed. -/
theorem replay_exactly_once (h : History cluster offsets ss later) (hone : OneByOne ss)
    (htelling : Telling cluster topic) (htopic : '/' ∉ topic) (hserves : Serves ss s l)
    (hasks : Asks s from_time (topic ++ ['/'])) (hopens : FilesOpen s (topic ++ ['/']) l)
    (hearly : ∀ call ∈ accepted ss, call.topic = topic → selected s.beyond (topic ++ ['/'])
      (MessageTime.ofText from_time) call.s3key = true)
    {fuel : ℕ} (hfuel : l.keys.length < fuel) :
    ∃ (out : Producing) (replayed : List Message), main s fuel = .ok (1, out) ∧ replayed.Nodup ∧
      (out.calls.map ProduceCall.message = replayed.map fun m => (m.bytes, shownKey m)) ∧
      (∀ m ∈ replayed, m ∈ cluster.log topic m.partition) ∧
      ∀ partition, ∀ m ∈ cluster.log topic partition, offsets topic partition ≤ offsetOf m →
        offsetOf m < later topic partition → m ∈ replayed := by
  obtain ⟨out, replayed, hreplayed⟩ :=
    exists_replayed h hone.toStoresAll htelling htopic hserves hasks hopens hfuel
  refine ⟨out, replayed.map Prod.fst, hreplayed.main_eq, hreplayed.nodup,
    hreplayed.single h hone, ?_, ?_⟩
  · intro m hm
    obtain ⟨r, hr, rfl⟩ := List.mem_map.mp hm
    obtain ⟨call, hcall, hown, -, -, hmem, -⟩ := hreplayed.source r hr
    exact (visible_of_accepted h hone.toStoresAll htelling hcall hown).2 r.1 hmem
  · intro partition m hm hfrom hpast
    obtain ⟨call, hcall, hown, hbundle, hlen⟩ := passed_single h hone hm hfrom hpast
    exact hreplayed.all call hcall hown (hearly call hcall hown) m
      (hbundle ▸ List.mem_singleton_self m) hlen

end Once

section Example

def retriedListing : Listing where
  keys := (requests retried).map PutObjectRequest.key
  sorted := by decide +kernel
  nonempty := by decide +kernel
  served := fun _ most => min most 2
  served_range := fun _ _ h => ⟨le_min h (by decide), min_le_left ..⟩

def retriedReplay : Surroundings where
  rd := .willing
  env := replayEnvironment "1976-01".toList "t/".toList
  listObjects := retriedListing.listObjects
  object := lastValue (objects retried)
  files := emptyTmp
  disk := ∅
  produced := fun _ => true
  beyond := fun _ _ => 0

theorem retried_serves : Serves retried retriedReplay retriedListing where
  bucket := by decide +kernel
  listObjects := rfl
  keys _ := List.mem_map
  object _ _ := rfl

theorem retried_opens : FilesOpen retriedReplay "t/".toList retriedListing := by decide +kernel

theorem retried_asks : Asks retriedReplay "1976-01".toList "t/".toList := ⟨rfl, rfl, _, rfl, rfl⟩

theorem oneMessage_telling : Telling oneMessageCluster ['t'] := by
  have hone (partition : Int32) (m : Message) (hm : m ∈ oneMessageCluster.log ['t'] partition) :
      m = oneMessage := by
    simp only [oneMessageCluster] at hm
    split at hm
    · exact List.mem_singleton.mp hm
    · cases hm
  constructor
  case timestamp =>
    intro partition m hm
    rw [hone partition m hm]
    decide
  case apart =>
    intro p m hm q n hn _ _
    rw [hone p m hm, hone q n hn]

theorem retried_oneByOne : OneByOne retried where
  limit := by decide
  single := by decide
  size := by decide
  storable := by
    intro b hb
    simp only [retried, List.mem_cons, List.not_mem_nil, or_false] at hb
    rcases hb with rfl | rfl
    · exact ⟨by decide, fun _ => ⟨_, rfl, rfl⟩, fun _ _ => rfl⟩
    · exact ⟨by decide, fun _ => ⟨_, rfl, rfl⟩, fun _ _ => rfl⟩
  slash := retried_slash
  apart := retried_apart

theorem retried_early : ∀ call ∈ accepted retried, call.topic = ['t'] →
    selected retriedReplay.beyond (['t'] ++ ['/']) (MessageTime.ofText "1976-01".toList)
      call.s3key = true := by
  decide +kernel

theorem retried_fuel : retriedListing.keys.length < 3 := by decide +kernel

theorem replay_exactly_once_retried : ∃ (out : Producing) (replayed : List Message),
    main retriedReplay 3 = .ok (1, out) ∧ replayed.Nodup ∧
      (out.calls.map ProduceCall.message = replayed.map fun m => (m.bytes, shownKey m)) ∧
      (∀ m ∈ replayed, m ∈ oneMessageCluster.log ['t'] m.partition) ∧
      ∀ partition, ∀ m ∈ oneMessageCluster.log ['t'] partition, 0 ≤ offsetOf m →
        offsetOf m < commitOffsets (fun _ _ => 0) [oneMessage] ['t'] partition → m ∈ replayed :=
  replay_exactly_once retriedHistory retried_oneByOne oneMessage_telling (by decide)
    retried_serves retried_asks retried_opens retried_early retried_fuel

end Example

end KafkaK3.BackupAndReplay
