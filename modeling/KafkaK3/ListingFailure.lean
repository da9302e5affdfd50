import KafkaK3.ReplayProcess
import Mathlib.Data.List.Flatten

/-!
# A listing which fails

A request which fails ends the discovery as if there were nothing more to list. So a
replay whose listing fails at some point comes to its end like any other, with a front
part of the keys which it should have selected.
-/
namespace KafkaK3.ListingFailure
open DecimalText S3Client MessageLayout StashImage TimeText KeyTime KeyListing Pagination ReplayProducer
open EventReplay ImageDiscovery ReplayRoundTrip ReplayProcess

/-- The service with some of its requests failing. -/
def failing (fails : ℕ → Bool) (l : Listing) : ListObjects := fun n request =>
  if fails n then none else l.listObjects n request

section Discovery
variable {beyond : Text → ℤ → Int32} {intopic : Text} {infrom : MessageTime}

def failingPage (fails : ℕ → Bool) (l : Listing) (intopic : Text) (infetch : Int32) (n : ℕ)
    (marker : Option Text) : Option (List Text) :=
  if fails n then none else l.page intopic infetch n marker

theorem list_failing (fails : ℕ → Bool) (l : Listing) (bucket intopic : Text) (infetch : Int32)
    (n : ℕ) (marker : Option Text) :
    (⟨true, bucket⟩ : S3).list (failing fails l) n intopic [] infetch marker =
      match failingPage fails l intopic infetch n marker with
      | none => ([], false)
      | some items => (items, true) := by
  have hpage := l.list_eq_page bucket intopic infetch n marker
  cases hfails : fails n with
  | true => simp [S3.list, failing, failingPage, hfails]
  | false =>
      simp only [S3.list, failing, failingPage, hfails] at hpage ⊢
      exact hpage

theorem servesOrFails (fails : ℕ → Bool) (l : Listing) (intopic : Text) (infetch : Int32) :
    ServesOrFails (l.matching intopic) (failingPage fails l intopic infetch) := by
  intro n marker
  cases hfails : fails n with
  | true => exact .inl (if_pos hfails)
  | false =>
      obtain ⟨size, hsize, hpage⟩ := l.serves_page intopic infetch n marker
      exact .inr ⟨size, hsize, by rw [failingPage, hfails]; exact hpage⟩

/-- The discovery stops whatever fails, with the selected ones among the first keys, and
among as many of them at least as there were requests before the first which failed. -/
theorem s3_discovery_failing (fails : ℕ → Bool) (l : Listing) (bucket : Text) (infetch : Int32)
    {fuel good : ℕ} (hfuel : l.keys.length < fuel) (hgood : ∀ n < good, fails n = false) :
    ∃ keys, keys <+: l.matching intopic ∧ (good ≤ keys.length ∨ keys = l.matching intopic) ∧
      s3_discovery beyond intopic infrom ⟨true, bucket⟩ (failing fails l) infetch fuel 0 ⟨[], []⟩ =
        .ok (keys.filter (selected beyond intopic infrom)) := by
  have hless : (l.matching intopic).length < fuel :=
    Nat.lt_of_le_of_lt (List.length_filter_le ..) hfuel
  have hanswered : ∀ i < good, ∀ marker, failingPage fails l intopic infetch (0 + i) marker ≠ none := by
    intro i hi marker
    rw [Nat.zero_add, failingPage, hgood i hi]
    exact Option.some_ne_none _
  obtain ⟨keys, hkeys, hread, hcount⟩ := @readPages_part _ _ _ _ _ (l.sorted_matching intopic)
    (servesOrFails fails l intopic infetch) fuel 0 good none [] _ [] rfl rfl hless hanswered
  refine ⟨keys, hkeys, hcount, ?_⟩
  rw [s3_discovery_eq_pages (list_failing fails l bucket intopic infetch) ?_ fuel 0 [] ⟨[], []⟩ rfl]
  · have hstart : inpfrom [] = none := rfl
    rw [hstart, hread]
    rfl
  · intro n marker items hitems
    rw [failingPage] at hitems
    split at hitems
    next => cases hitems
    next => exact l.of_mem_page hitems

end Discovery

/-- The bucket of a replay, with a listing which may fail at any of its requests. -/
structure Failing (s : Surroundings) (from_time topic : Text) (l : Listing)
    (bundles : Text → List Message) (fails : ℕ → Bool) : Prop where
  getenv_from_time : s.env.getenv "FROM_TIME".toList = some from_time
  getenv_topic : s.env.getenv "AWS_TOPIC".toList = some topic
  listObjects : s.listObjects = failing fails l
  nonempty : ∀ key ∈ l.keys, topic <+: key → bundles key ≠ []
  object : ∀ key ∈ l.keys, topic <+: key → s.object key = some (image (bundles key))
  opens : FilesOpen s topic l
  producer : ∃ p, Produce.setup s.rd s.env = .ok p ∧ p.partition_dst = PARTITION_UA

theorem Failing.found {s : Surroundings} {from_time topic : Text} {l : Listing}
    {bundles : Text → List Message} {fails : ℕ → Bool}
    (h : Failing s from_time topic l bundles fails) {fuel good : ℕ} (hfuel : l.keys.length < fuel)
    (hgood : ∀ n < good, fails n = false) :
    ∃ keys, keys <+: l.matching topic ∧ (good ≤ keys.length ∨ keys = l.matching topic) ∧
      Found s from_time topic fuel
        (keys.filter (selected s.beyond topic (MessageTime.ofText from_time))) bundles := by
  obtain ⟨keys, hkeys, hcount, hdiscovery⟩ := s3_discovery_failing fails l
    (S3Setup.configured s.env (some paws) {}).bucket infetch hfuel hgood
  have hmatching (key : Text)
      (hkey : key ∈ keys.filter (selected s.beyond topic (MessageTime.ofText from_time))) :
      key ∈ l.keys ∧ topic <+: key := by
    obtain ⟨hin, hstart⟩ := List.mem_filter.mp (hkeys.subset (List.mem_filter.mp hkey).1)
    exact ⟨hin, by simpa using hstart⟩
  refine ⟨keys, hkeys, hcount, h.getenv_from_time, h.getenv_topic, ?_, ?_, ?_, ?_, h.producer⟩
  · rw [h.listObjects]
    exact hdiscovery
  · exact fun key hkey => h.nonempty key (hmatching key hkey).1 (hmatching key hkey).2
  · exact fun key hkey => h.object key (hmatching key hkey).1 (hmatching key hkey).2
  · exact fun key hkey => h.opens key (hmatching key hkey).1 (hmatching key hkey).2

/-- Whichever requests of the listing fail, the replay comes to its end with the same
number, and hands over what can be restored of a front part of the keys: all of them, or
as many at least as there were requests before the first which failed. -/
theorem failing_listing_truncates {s : Surroundings} {from_time topic : Text} {l : Listing}
    {bundles : Text → List Message} {fails : ℕ → Bool}
    (h : Failing s from_time topic l bundles fails)
    (hdistinct : Distinct ((selectedKeys s from_time topic l).flatMap fun key => visible (bundles key)))
    {fuel good : ℕ} (hfuel : l.keys.length < fuel) (hgood : ∀ n < good, fails n = false) :
    ∃ keys, keys <+: l.matching topic ∧ (good ≤ keys.length ∨ keys = l.matching topic) ∧
      ∃ out, main s fuel = .ok (1, out) ∧ (out.calls.map ProduceCall.message).Perm
        ((keys.filter (selected s.beyond topic (MessageTime.ofText from_time))).flatMap
          fun key => restored (bundles key)) := by
  obtain ⟨keys, hkeys, hcount, hfound⟩ := h.found hfuel hgood
  have hfewer : (keys.filter (selected s.beyond topic (MessageTime.ofText from_time))).Sublist
      (selectedKeys s from_time topic l) := (hkeys.filter _).sublist
  exact ⟨keys, hkeys, hcount,
    hfound.restores (List.Pairwise.sublist (hfewer.flatMap _) hdistinct)⟩

section Example

/-- The first request gets its answer, and no other one does. -/
def onePage (n : ℕ) : Bool := 0 < n

theorem onePage_failing : Failing { oneObjectReplay with listObjects := failing onePage oneObject }
    "1969".toList "a/".toList oneObject (fun _ => twoMessages) onePage where
  getenv_from_time := rfl
  getenv_topic := rfl
  listObjects := rfl
  nonempty := fun _ _ _ => List.cons_ne_nil _ _
  object := fun _ _ _ => rfl
  opens := oneObject_stocked.opens
  producer := ⟨_, rfl, rfl⟩

theorem failing_listing_one_page :
    ∃ keys, keys <+: oneObject.matching "a/".toList ∧
      (1 ≤ keys.length ∨ keys = oneObject.matching "a/".toList) ∧
      ∃ out, main { oneObjectReplay with listObjects := failing onePage oneObject } 2 = .ok (1, out) ∧
        (out.calls.map ProduceCall.message).Perm
          ((keys.filter (selected (fun _ _ => 0) "a/".toList (MessageTime.ofText "1969".toList))).flatMap
            fun _ => restored twoMessages) :=
  failing_listing_truncates onePage_failing oneObject_distinct (by decide) (by decide)

end Example

end KafkaK3.ListingFailure
