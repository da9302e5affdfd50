import KafkaK3.Fallible
import KafkaK3.KeyTime
import KafkaK3.Pagination
import KafkaK3.S3Client
import KafkaK3.TimeOrder
import Mathlib.Data.Char
import Mathlib.Data.List.Lex

/-!
# The discovery of keys

The replay lists the bucket from the last key it has seen, until nothing more
comes or a request fails. Of every key it cuts off the requested topic, reads the
rest as a time and keeps the key if that time is after the requested one.
-/
namespace KafkaK3.KeyListing
open DecimalText S3Client TimeText KeyTime Pagination

/-- How the discovery can stop without a result: by the exception of `substr`, or
because it is still running. -/
inductive Stop where
  | outOfRange
  | running
  deriving DecidableEq, Repr

structure Discovered where
  output : List Text
  lastkey : Text
  deriving DecidableEq, Repr

/-- The last key, from the second request on. -/
def inpfrom (lastkey : Text) : Option Text := if 0 < lastkey.length then some lastkey else none

/-- One round of the inner loop of `s3_discovery`. While a key is compared, its own
words lie on the stack beside the table of the months. -/
def examine (beyond : Text → ℤ → Int32) (intopic : Text) (infrom : MessageTime) (d : Discovered)
    (key : Text) : Except Stop Discovered :=
  match cleanup_name intopic key with
  | none => .error .outOfRange
  | some cleaned =>
      let t := MessageTime.ofText cleaned
      if TimeOrder.gt (beyond key) t infrom then .ok ⟨d.output ++ [key], key⟩
      else .ok { d with lastkey := key }

/-- The outer loop of `s3_discovery`, after `n` requests and with at most `fuel`
more. -/
def s3_discovery (beyond : Text → ℤ → Int32) (intopic : Text) (infrom : MessageTime)
    (ins3client : S3) (listObjects : ListObjects) (infetch : Int32) :
    ℕ → ℕ → Discovered → Except Stop (List Text)
  | 0, _, _ => .error .running
  | fuel + 1, n, d =>
      match ins3client.list listObjects n intopic [] infetch (inpfrom d.lastkey) with
      | (_, false) => .ok d.output
      | (vlist, true) =>
          if vlist.length < 1 then .ok d.output
          else do
            let d ← vlist.foldlM (examine beyond intopic infrom) d
            s3_discovery beyond intopic infrom ins3client listObjects infetch fuel (n + 1) d

/-- A bucket whose requests all succeed. The key of an object is never empty. An
answer holds the first keys which are asked for, at least one if there are any and
at most as many as are allowed, which are 1000 if the request does not say. -/
structure Listing where
  keys : List Text
  sorted : keys.Pairwise (· < ·)
  nonempty : ∀ key ∈ keys, key ≠ []
  served : ℕ → ℕ → ℕ
  served_range : ∀ n most, 1 ≤ most → 1 ≤ served n most ∧ served n most ≤ most

namespace Listing

/-- The keys which begin with the text. -/
def matching (l : Listing) (start : Text) : List Text := l.keys.filter (start <+: ·)

def listObjects (l : Listing) : ListObjects := fun n request =>
  let most := (request.maxKeys.map fun k => k.toInt.toNat).getD 1000
  some ((behind (l.matching (request.keyPrefix.getD [])) request.marker).take (l.served n most))

variable (l : Listing)

theorem sorted_matching (start : Text) : (l.matching start).Pairwise (· < ·) :=
  l.sorted.sublist List.filter_sublist

theorem of_mem_matching {start key : Text} (h : key ∈ l.matching start) : key ≠ [] ∧ start <+: key := by
  obtain ⟨hkey, hstart⟩ := List.mem_filter.mp h
  exact ⟨l.nonempty key hkey, by simpa using hstart⟩

/-- The length of a page at most. -/
def pageSize (infetch : Int32) : ℕ := if 0 < infetch.toInt then infetch.toInt.toNat else 1000

/-- The pages which `s3_discovery` gets. -/
def page (intopic : Text) (infetch : Int32) (n : ℕ) (marker : Option Text) : Option (List Text) :=
  some ((behind (l.matching intopic) marker).take (l.served n (pageSize infetch)))

theorem serves_page (intopic : Text) (infetch : Int32) :
    Serves (l.matching intopic) (l.page intopic infetch) := by
  intro n marker
  have hsize : 1 ≤ pageSize infetch := by
    unfold pageSize
    split <;> omega
  exact ⟨_, (l.served_range n _ hsize).1, rfl⟩

theorem of_mem_page {intopic : Text} {infetch : Int32} {n : ℕ} {marker : Option Text}
    {items : List Text} (h : l.page intopic infetch n marker = some items) :
    ∀ key ∈ items, key ≠ [] ∧ intopic <+: key := by
  obtain rfl := Option.some.inj h
  intro key hkey
  have hbehind := List.mem_of_mem_take hkey
  cases marker with
  | none => exact l.of_mem_matching hbehind
  | some marker => exact l.of_mem_matching (List.mem_filter.mp hbehind).1

theorem list_eq_page (bucket intopic : Text) (infetch : Int32) (n : ℕ) (marker : Option Text) :
    (⟨true, bucket⟩ : S3).list l.listObjects n intopic [] infetch marker =
      ((l.page intopic infetch n marker).getD [], true) := by
  have hstart : (if 0 < intopic.length then some intopic else none).getD [] = intopic := by
    cases intopic with
    | nil => rfl
    | cons c intopic => rfl
  have hsize : ((if 0 < infetch.toInt then some infetch else none).map
      fun k => k.toInt.toNat).getD 1000 = pageSize infetch := by
    unfold pageSize
    split <;> rfl
  simp only [S3.list, listObjects, page, if_true, hstart, hsize, Option.getD_some, List.nil_append]

end Listing

/-- The key has a time after the requested one. -/
def selected (beyond : Text → ℤ → Int32) (intopic : Text) (infrom : MessageTime) (key : Text) : Bool :=
  (keyTime intopic key).any fun t => TimeOrder.gt (beyond key) t infrom

section Rounds
variable {beyond : Text → ℤ → Int32} {intopic : Text} {infrom : MessageTime}

theorem examine_eq (d : Discovered) {key : Text} (h : intopic <+: key) :
    examine beyond intopic infrom d key =
      .ok ⟨d.output ++ [key].filter (selected beyond intopic infrom), key⟩ := by
  have hlong : ¬ key.length < intopic.length := h.length_le.not_gt
  have hcleaned : ∃ cleaned, cleanup_name intopic key = some cleaned := ⟨_, if_neg hlong⟩
  obtain ⟨cleaned, hcleaned⟩ := hcleaned
  have hselected : selected beyond intopic infrom key =
      TimeOrder.gt (beyond key) (MessageTime.ofText cleaned) infrom := by
    rw [selected, keyTime, hcleaned]
    rfl
  rw [examine, hcleaned]
  simp only [List.filter_singleton, hselected]
  split <;> simp_all

/-- A page is filtered, and its last key becomes the marker. -/
theorem foldlM_examine {vlist : List Text} (h : ∀ key ∈ vlist, intopic <+: key) (d : Discovered) :
    vlist.foldlM (examine beyond intopic infrom) d =
      .ok ⟨d.output ++ vlist.filter (selected beyond intopic infrom),
        vlist.getLast?.getD d.lastkey⟩ := by
  induction vlist generalizing d with
  | nil => simp [pure, Except.pure]
  | cons key vlist ih =>
      have hhead := @examine_eq beyond intopic infrom d key (h key List.mem_cons_self)
      have htail := ih fun x hx => h x (List.mem_cons_of_mem _ hx)
      rw [List.foldlM_cons, hhead]
      simp only [bind, Except.bind, htail, Except.ok.injEq, Discovered.mk.injEq]
      constructor
      · rw [List.append_assoc, ← List.filter_append]
        rfl
      · rw [List.getLast?_cons]
        rfl

theorem inpfrom_of_ne_nil {key : Text} (h : key ≠ []) : inpfrom key = some key :=
  if_pos (List.length_pos_iff.mpr h)

/-- With answers which are pages of keys under the topic, the discovery is the reader of
these pages with a filter behind it. -/
theorem s3_discovery_eq_pages {listObjects : ListObjects} {page : ℕ → Option Text → Option (List Text)}
    {bucket : Text} {infetch : Int32}
    (hlist : ∀ n marker, (⟨true, bucket⟩ : S3).list listObjects n intopic [] infetch marker =
      match page n marker with
      | none => ([], false)
      | some items => (items, true))
    (hpage : ∀ n marker items, page n marker = some items →
      ∀ key ∈ items, key ≠ [] ∧ intopic <+: key)
    (fuel n : ℕ) (read : List Text) (d : Discovered)
    (hd : d.output = read.filter (selected beyond intopic infrom)) :
    s3_discovery beyond intopic infrom ⟨true, bucket⟩ listObjects infetch fuel n d =
      match readPages page fuel n (inpfrom d.lastkey) read with
      | none => .error .running
      | some keys => .ok (keys.filter (selected beyond intopic infrom)) := by
  induction fuel generalizing n read d with
  | zero => rfl
  | succ fuel ih =>
      have hanswer := hlist n (inpfrom d.lastkey)
      rw [s3_discovery, readPages]
      cases hitems : page n (inpfrom d.lastkey) with
      | none =>
          rw [hitems] at hanswer
          simp only [hanswer, hd]
      | some items =>
          have hmatching := hpage n _ items hitems
          rw [hitems] at hanswer
          simp only [hanswer]
          cases hlast : items.getLast? with
          | none =>
              rw [List.getLast?_eq_none_iff.mp hlast]
              simp [hd]
          | some last =>
              have hsome : ¬ items.length < 1 := by
                have hmem := List.mem_of_getLast? hlast
                have hpos := List.length_pos_of_mem hmem
                omega
              have hne : last ≠ [] := (hmatching last (List.mem_of_getLast? hlast)).1
              have hnext := ih (n + 1) (read ++ items)
                ⟨d.output ++ items.filter (selected beyond intopic infrom), last⟩
                (by rw [hd, List.filter_append])
              rw [inpfrom_of_ne_nil hne] at hnext
              rw [if_neg hsome, foldlM_examine (fun key hkey => (hmatching key hkey).2) d, hlast]
              exact hnext

/-- The discovery is the reader of pages with a filter behind it. -/
theorem s3_discovery_eq_readPages (l : Listing) (bucket : Text) (infetch : Int32)
    (fuel : ℕ) (n : ℕ) (read : List Text) (d : Discovered)
    (hd : d.output = read.filter (selected beyond intopic infrom)) :
    s3_discovery beyond intopic infrom ⟨true, bucket⟩ l.listObjects infetch fuel n d =
      match readPages (l.page intopic infetch) fuel n (inpfrom d.lastkey) read with
      | none => .error .running
      | some keys => .ok (keys.filter (selected beyond intopic infrom)) :=
  s3_discovery_eq_pages (fun n marker => l.list_eq_page bucket intopic infetch n marker)
    (fun _ _ _ h => l.of_mem_page h) fuel n read d hd

/-- With one request more than there are keys the discovery stops, and with all keys
which have the topic in front and a later time. -/
theorem s3_discovery_eq (l : Listing) (bucket : Text) (infetch : Int32) {fuel : ℕ}
    (hfuel : l.keys.length < fuel) :
    s3_discovery beyond intopic infrom ⟨true, bucket⟩ l.listObjects infetch fuel 0 ⟨[], []⟩ =
      .ok ((l.matching intopic).filter (selected beyond intopic infrom)) := by
  have hless : (l.matching intopic).length < fuel :=
    Nat.lt_of_le_of_lt (List.length_filter_le ..) hfuel
  have hread := readPages_complete (l.sorted_matching intopic) (l.serves_page intopic infetch) hless
  rw [s3_discovery_eq_readPages l bucket infetch fuel 0 [] ⟨[], []⟩ rfl]
  have hstart : inpfrom [] = none := rfl
  rw [hstart, hread]

end Rounds

theorem selected_iff {beyond : Text → ℤ → Int32} {intopic : Text} {infrom : MessageTime} {key : Text} :
    selected beyond intopic infrom key = true ↔
      ∃ t, keyTime intopic key = some t ∧ TimeOrder.gt (beyond key) t infrom = true := by
  rw [selected, Option.any_eq_true]

/-- The discovery terminates, and yields the keys with the topic in front and a
later time, in ascending order and each once. -/
theorem discovery_complete (l : Listing) (bucket intopic : Text) (infrom : MessageTime)
    (beyond : Text → ℤ → Int32) (infetch : Int32) :
    ∃ output, (∀ fuel, l.keys.length < fuel →
        s3_discovery beyond intopic infrom ⟨true, bucket⟩ l.listObjects infetch fuel 0 ⟨[], []⟩ =
          .ok output) ∧
      output.Pairwise (· < ·) ∧ ∀ key, key ∈ output ↔ key ∈ l.keys ∧ intopic <+: key ∧
        ∃ t, keyTime intopic key = some t ∧ TimeOrder.gt (beyond key) t infrom = true := by
  refine ⟨(l.matching intopic).filter (selected beyond intopic infrom),
    fun fuel hfuel => s3_discovery_eq l bucket infetch hfuel, ?_, fun key => ?_⟩
  · exact (l.sorted_matching intopic).sublist List.filter_sublist
  · simp only [Listing.matching, List.mem_filter, decide_eq_true_eq, selected_iff, and_assoc]

end KafkaK3.KeyListing
