import KafkaK3.Fallible
import KafkaK3.ReplayMerge

/-!
# The order of the replay

The map is ordered by its text keys, so the replay processes its entries in the
order of the written timestamps, and among equal timestamps in the order of the
written offsets. For two entries this is the numeric order exactly when the
smaller number is also written first.
-/
namespace KafkaK3.ReplayOrder
open ByteBuffer DecimalText S3Client MessageLayout StashImage Discovery KeyedIndex ImageDiscovery
open ReplayMerge Fallible

def itemKey (item : DiscoveryItem) : DiscoveryTimestamp :=
  discoveryTimestamp item._header.details.timestamp item._header.details.offset

section Run
variable {inkey : Text} {buffer : Bytes} {nummsgs : Int32} {p q : ℤ} {r s : Replay}

theorem timestamp_of_header {h : MessageHeader} (hheader : headerAt buffer p = .ok h) :
    int64At buffer (p + 32) = .ok h.details.timestamp := by
  unfold headerAt at hheader
  split at hheader
  next hin =>
    cases hheader
    obtain ⟨n, rfl⟩ := Int.eq_ofNat_of_zero_le hin.1
    have hlen : n + 32 + 8 ≤ buffer.length := by
      have hend := hin.2
      simp only [HeaderSize] at hend
      omega
    have hcast : (n : ℤ) + 32 = ((n + 32 : ℕ) : ℤ) := by omega
    rw [int64At, hcast, bytesAt_nat hlen, ← window_window (n := HeaderSize) (by decide)]
    rfl
  next => cases hheader

/-- A round leaves the map as it is, or puts one item under the key of its header. -/
theorem discoverMessage_cases (h : discoverMessage inkey buffer nummsgs p r = .ok (q, s)) :
    s.output = r.output ∨ ∃ item, item._timestamp = item._header.details.timestamp ∧
      s.output = r.output.insert (itemKey item) item := by
  unfold discoverMessage at h
  obtain ⟨timestamp, htimestamp, h⟩ := bind_eq_ok.mp h
  obtain ⟨payload_len, _, h⟩ := bind_eq_ok.mp h
  dsimp only at h
  split at h
  case isFalse =>
    cases h
    exact .inl rfl
  case isTrue =>
    right
    obtain ⟨header, hheader, h⟩ := bind_eq_ok.mp h
    have hsame := Except.ok.inj ((timestamp_of_header hheader).symm.trans htimestamp)
    split at h
    · obtain ⟨copy, _, h⟩ := bind_eq_ok.mp h
      cases h
      exact ⟨⟨timestamp, inkey, header, some copy⟩, hsame.symm, rfl⟩
    · cases h
      exact ⟨⟨timestamp, inkey, header, none⟩, hsame.symm, rfl⟩

/-- A property of the map which is kept when an item is put under the key of its
header. -/
def KeptByItems (I : DiscoveryMap → Prop) : Prop :=
  ∀ output item, item._timestamp = item._header.details.timestamp → I output →
    I (output.insert (itemKey item) item)

variable {I : DiscoveryMap → Prop} (hI : KeptByItems I)
include hI

theorem kept_discoverMessages {n : ℕ}
    (h : discoverMessages inkey buffer n p r = .ok s) (hr : I r.output) : I s.output := by
  induction n generalizing p r with
  | zero =>
      cases h
      exact hr
  | succ n ih =>
      obtain ⟨⟨next, t⟩, hround, hrest⟩ := bind_eq_ok.mp h
      apply ih hrest
      rcases discoverMessage_cases hround with hsame | ⟨item, hitem, hput⟩
      · rw [hsame]
        exact hr
      · rw [hput]
        exact hI _ _ hitem hr

theorem kept_discoverFile {target : Text} {file : Bytes}
    (h : discoverFile inkey target file r = .ok s) (hr : I r.output) : I s.output := by
  unfold discoverFile at h
  dsimp only at h
  split at h
  · cases h
    exact hr
  · obtain ⟨index, _, hloop⟩ := bind_eq_ok.mp h
    exact kept_discoverMessages hI hloop hr

theorem kept_batch_discovery_bykey {s3 : S3} {answer : GetAnswer} {indelete : Bool}
    (h : batch_discovery_bykey inkey s3 answer indelete r = .ok s) (hr : I r.output) :
    I s.output := by
  unfold batch_discovery_bykey at h
  dsimp only at h
  split at h
  · obtain ⟨t, hfile, hend⟩ := bind_eq_ok.mp h
    have ht := kept_discoverFile hI hfile hr
    cases hend
    split
    · exact ht
    · exact ht
  · cases h
    exact hr

/-- Such a property holds after every discovery, whatever the files contain. -/
theorem kept_batch_discovery {s3 : S3} {indelete : Bool} {fetches : List (Text × GetAnswer)}
    (h : batch_discovery s3 indelete fetches r = .ok s) (hr : I r.output) : I s.output := by
  induction fetches generalizing r with
  | nil =>
      cases h
      exact hr
  | cons fetch fetches ih =>
      obtain ⟨t, hkey, hrest⟩ := bind_eq_ok.mp h
      exact ih hrest (kept_batch_discovery_bykey hI hkey hr)

end Run

/-- Every entry stands under the key which its header spells. -/
def WellKeyed (vmap : DiscoveryMap) : Prop :=
  ∀ (key : Text) (item : DiscoveryItem), vmap[key]? = some item →
    key = itemKey item ∧ item._timestamp = item._header.details.timestamp

theorem wellKeyed_kept : KeptByItems WellKeyed := by
  intro output item hitem h key other hget
  rw [Std.TreeMap.getElem?_insert] at hget
  split at hget
  next hkey =>
    cases hget
    exact ⟨(Std.compare_eq_iff_eq.mp hkey).symm, hitem⟩
  next => exact h key other hget

theorem wellKeyed_of_discovery {s3 : S3} {indelete : Bool} {fetches : List (Text × GetAnswer)}
    {disk : Disk} {r : Replay} (h : batch_discovery s3 indelete fetches ⟨∅, [], disk⟩ = .ok r) :
    WellKeyed r.output :=
  kept_batch_discovery wellKeyed_kept h fun _ _ hget => by simp at hget

def NumericallyBefore (a b : DiscoveryItem) : Prop :=
  a._timestamp < b._timestamp ∨ (a._timestamp = b._timestamp ∧
    a._header.details.offset < b._header.details.offset)

/-- The first number in which the two items differ is written first. -/
def WrittenBefore (a b : DiscoveryItem) : Prop :=
  if a._timestamp = b._timestamp then
    PrecedesInt a._header.details.offset.toInt b._header.details.offset.toInt
  else PrecedesInt a._timestamp.toInt b._timestamp.toInt

theorem compare_keys_iff {t u o p : Int64} (h : ¬ (t = u ∧ o = p)) :
    compare (discoveryTimestamp t o) (discoveryTimestamp u p) = .lt ↔
      if t = u then PrecedesInt o.toInt p.toInt else PrecedesInt t.toInt u.toInt := by
  unfold discoveryTimestamp
  split
  next htu =>
    subst htu
    have hop : o.toInt ≠ p.toInt := fun heq => h ⟨rfl, Int64.toInt_inj.mp heq⟩
    have hend : Terminated [] := trivial
    rw [List.append_cons _ _ (intText o.toInt), List.append_cons _ _ (intText p.toInt),
      compare_append_left, ← List.append_nil (intText o.toInt), ← List.append_nil (intText p.toInt)]
    exact intText_before_iff hop hend hend
  next htu =>
    have hne : t.toInt ≠ u.toInt := fun heq => htu (Int64.toInt_inj.mp heq)
    have hpoint (s : Text) : Terminated ('.' :: s) := by
      show ('.').toNat < 48
      decide
    exact intText_before_iff hne (hpoint _) (hpoint _)

/-- The place of two entries in the iteration over a well-keyed map. -/
theorem processed_pair_iff {vmap : DiscoveryMap} (hkeyed : WellKeyed vmap)
    {a b : DiscoveryTimestamp × DiscoveryItem} (ha : a ∈ processed vmap) (hb : b ∈ processed vmap)
    (hless : NumericallyBefore a.2 b.2) :
    [a, b].Sublist (processed vmap) ↔ WrittenBefore a.2 b.2 := by
  obtain ⟨hakey, hatime⟩ := hkeyed a.1 a.2 (Std.TreeMap.mem_toList_iff_getElem?_eq_some.mp ha)
  obtain ⟨hbkey, hbtime⟩ := hkeyed b.1 b.2 (Std.TreeMap.mem_toList_iff_getElem?_eq_some.mp hb)
  have hne : ¬ (a.2._timestamp = b.2._timestamp ∧
      a.2._header.details.offset = b.2._header.details.offset) := by
    intro ⟨ht, ho⟩
    rcases hless with hlt | ⟨-, hlt⟩
    · rw [ht] at hlt
      exact Int64.lt_irrefl hlt
    · rw [ho] at hlt
      exact Int64.lt_irrefl hlt
  have horder := compare_keys_iff hne
  rw [processed, toList_pair_iff ha hb, hakey, hbkey, itemKey, itemKey, ← hatime, ← hbtime, horder]
  rfl

/-- Every message which is reached has an entry with its timestamp and offset. -/
theorem processed_of_objects (bucket : Text) (indelete : Bool) (disk : Disk)
    (objects : List (Text × List Message)) (hobjects : ∀ o ∈ objects, o.2 ≠ [])
    (hts : ∀ m ∈ storedMessages objects, m.timestamp ≠ 0) :
    ∃ r, batch_discovery ⟨true, bucket⟩ indelete
        (objects.map fun o => (o.1, downloaded o.2)) ⟨∅, [], disk⟩ = .ok r ∧
      ∀ m ∈ reachedMessages objects, ∃ e ∈ processed r.output,
        e.2._timestamp = m.timestamp ∧ e.2._header.details.offset = m.offset := by
  obtain ⟨reports, left, hread⟩ :=
    batch_discovery_images bucket indelete objects hobjects ⟨∅, [], disk⟩
  refine ⟨_, hread, fun m hm => ?_⟩
  have hindex := indexes_objects objects hts Indexes.empty
  rw [List.nil_append] at hindex
  obtain ⟨item, hget, x, -, hkey, index, hheader⟩ := hindex.lookup hm
  obtain ⟨htimestamp, hoffset⟩ := discoveryTimestamp_inj.mp hkey
  have hitem := (wellKeyed_of_discovery hread _ item hget).2
  refine ⟨(messageKey m, item), Std.TreeMap.mem_toList_iff_getElem?_eq_some.mpr hget, ?_, ?_⟩
  · rw [hitem, hheader]
    exact htimestamp
  · rw [hheader]
    exact hoffset

/-- The entries of an object with two messages. -/
theorem entries_of_pair (m n : Message) (hm : m.timestamp ≠ 0) (hn : n.timestamp ≠ 0) :
    ∃ r a b, batch_discovery ⟨true, []⟩ false [(['k'], downloaded [m, n])] ⟨∅, [], ∅⟩ = .ok r ∧
      a ∈ processed r.output ∧ b ∈ processed r.output ∧
      a.2._timestamp = m.timestamp ∧ a.2._header.details.offset = m.offset ∧
      b.2._timestamp = n.timestamp ∧ b.2._header.details.offset = n.offset := by
  have hts : ∀ x ∈ storedMessages [(['k'], [m, n])], x.timestamp ≠ 0 := by
    simp [storedMessages, hm, hn]
  have hmem : m ∈ reachedMessages [(['k'], [m, n])] ∧ n ∈ reachedMessages [(['k'], [m, n])] := by
    simp [reachedMessages, discovered]
  obtain ⟨r, hrun, hentries⟩ := processed_of_objects [] false ∅ [(['k'], [m, n])] (by simp) hts
  obtain ⟨a, ha, hat, hao⟩ := hentries m hmem.1
  obtain ⟨b, hb, hbt, hbo⟩ := hentries n hmem.2
  exact ⟨r, a, b, hrun, ha, hb, hat, hao, hbt, hbo⟩

/-- The replay processes the numerically earlier one of two entries first exactly
when it is also the one written first. -/
theorem replay_order_iff {s3 : S3} {indelete : Bool} {fetches : List (Text × GetAnswer)}
    {disk : Disk} {r : Replay} (hrun : batch_discovery s3 indelete fetches ⟨∅, [], disk⟩ = .ok r)
    {a b : DiscoveryTimestamp × DiscoveryItem} (ha : a ∈ processed r.output)
    (hb : b ∈ processed r.output) (hless : NumericallyBefore a.2 b.2) :
    [a, b].Sublist (processed r.output) ↔ WrittenBefore a.2 b.2 :=
  processed_pair_iff (wellKeyed_of_discovery hrun) ha hb hless

/-- Offsets 8 and 9 at one timestamp. -/
theorem eight_before_nine :
    ∃ r a b, batch_discovery ⟨true, []⟩ false
        [(['k'], downloaded [.plain ['t'] 0 8 1529900000000 [97],
          .plain ['t'] 0 9 1529900000000 [98]])] ⟨∅, [], ∅⟩ = .ok r ∧
      NumericallyBefore a.2 b.2 ∧ [a, b].Sublist (processed r.output) := by
  obtain ⟨r, a, b, hrun, ha, hb, hat, hao, hbt, hbo⟩ := entries_of_pair
    (.plain ['t'] 0 8 1529900000000 [97]) (.plain ['t'] 0 9 1529900000000 [98])
    (by decide) (by decide)
  have hless : NumericallyBefore a.2 b.2 := by
    rw [NumericallyBefore, hat, hbt, hao, hbo]
    decide
  refine ⟨r, a, b, hrun, hless, (replay_order_iff hrun ha hb hless).mpr ?_⟩
  rw [WrittenBefore, hat, hbt, hao, hbo]
  decide

/-- Offsets 9 and 10 at one timestamp are replayed the other way round. -/
theorem ten_before_nine :
    ∃ r a b, batch_discovery ⟨true, []⟩ false
        [(['k'], downloaded [.plain ['t'] 0 9 1529900000000 [97],
          .plain ['t'] 0 10 1529900000000 [98]])] ⟨∅, [], ∅⟩ = .ok r ∧
      a ∈ processed r.output ∧ b ∈ processed r.output ∧
      NumericallyBefore a.2 b.2 ∧ ¬ [a, b].Sublist (processed r.output) := by
  obtain ⟨r, a, b, hrun, ha, hb, hat, hao, hbt, hbo⟩ := entries_of_pair
    (.plain ['t'] 0 9 1529900000000 [97]) (.plain ['t'] 0 10 1529900000000 [98])
    (by decide) (by decide)
  have hless : NumericallyBefore a.2 b.2 := by
    rw [NumericallyBefore, hat, hbt, hao, hbo]
    decide
  refine ⟨r, a, b, hrun, ha, hb, hless, fun hbefore => ?_⟩
  have hwritten := (processed_pair_iff (wellKeyed_of_discovery hrun) ha hb hless).mp hbefore
  rw [WrittenBefore, hat, hbt, hao, hbo] at hwritten
  revert hwritten
  decide

end KafkaK3.ReplayOrder
