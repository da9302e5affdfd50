import Mathlib.Data.List.Basic
import Mathlib.Order.Basic

/-!
# Reading an ordered collection page by page

A reader keeps the last item it has seen as a marker and asks for more items
behind it, until a page comes back empty or a request fails. If every page has
at least one of the items behind the marker, as long as there are any, then the
reader sees all of them, each once and in order.
-/
namespace KafkaK3.Pagination

variable {α : Type*} [Preorder α] [DecidableLT α]

/-- The items behind the marker, or all of them. -/
def behind (items : List α) : Option α → List α
  | none => items
  | some marker => items.filter (marker < ·)

/-- The items read when the reader stops, if it does so in time. The `n`-th request
is answered with a page, or it fails. -/
def readPages (page : ℕ → Option α → Option (List α)) :
    ℕ → ℕ → Option α → List α → Option (List α)
  | 0, _, _, _ => none
  | fuel + 1, n, marker, read =>
      match page n marker with
      | none => some read
      | some items =>
          match items.getLast? with
          | none => some read
          | some last => readPages page fuel (n + 1) (some last) (read ++ items)

/-- Every request is answered with the first items behind the marker. -/
def Serves (items : List α) (page : ℕ → Option α → Option (List α)) : Prop :=
  ∀ n marker, ∃ size, 1 ≤ size ∧ page n marker = some ((behind items marker).take size)

/-- In a sorted list the items behind an item are those which follow it. -/
theorem behind_item {front back : List α} {item : α}
    (h : (front ++ item :: back).Pairwise (· < ·)) :
    behind (front ++ item :: back) (some item) = back := by
  obtain ⟨-, hback, hfront⟩ := List.pairwise_append.mp h
  obtain ⟨hitem, -⟩ := List.pairwise_cons.mp hback
  have hnone : front.filter (item < ·) = [] := by
    rw [List.filter_eq_nil_iff]
    intro x hx
    simpa using (hfront x hx item List.mem_cons_self).not_gt
  have hall : back.filter (item < ·) = back := by
    rw [List.filter_eq_self]
    intro x hx
    simpa using hitem x hx
  simp only [behind, List.filter_append, List.filter_cons, lt_self_iff_false, decide_false, hnone,
    hall]
  rfl

/-- Behind the last item of a page lies what the page has left over. -/
theorem behind_last {front back : List α} {size : ℕ} {last : α}
    (h : (front ++ back).Pairwise (· < ·)) (hlast : (back.take size).getLast? = some last) :
    behind (front ++ back) (some last) = back.drop size := by
  obtain ⟨pre, hpre⟩ := List.getLast?_eq_some_iff.mp hlast
  have hback : back = pre ++ last :: back.drop size := by
    calc
      back = back.take size ++ back.drop size := (List.take_append_drop ..).symm
      _ = pre ++ last :: back.drop size := by
        rw [hpre, List.append_assoc]
        rfl
  have hsplit : front ++ back = (front ++ pre) ++ last :: back.drop size := by
    rw [List.append_assoc, ← hback]
  rw [hsplit] at h ⊢
  exact behind_item h

/-- The induction is on the number of requests left; each page moves the marker on. -/
theorem readPages_behind {items : List α} {page : ℕ → Option α → Option (List α)}
    (hsorted : items.Pairwise (· < ·)) (hserves : Serves items page) (fuel : ℕ) :
    ∀ {n : ℕ} {marker : Option α} {front back read : List α}, items = front ++ back →
      behind items marker = back → back.length < fuel →
      readPages page fuel n marker read = some (read ++ back) := by
  induction fuel with
  | zero =>
      intro n marker front back read _ _ hfuel
      exact absurd hfuel (Nat.not_lt_zero _)
  | succ fuel ih =>
      intro n marker front back read hitems hbehind hfuel
      obtain ⟨size, hsize, hpage⟩ := hserves n marker
      rw [readPages, hpage, hbehind]
      cases hlast : (back.take size).getLast? with
      | none =>
          have hempty : back = [] := by
            have htake := List.getLast?_eq_none_iff.mp hlast
            exact (List.take_eq_nil_iff.mp htake).resolve_left (by omega)
          simp [hempty]
      | some last =>
          have hnext : behind items (some last) = back.drop size := by
            rw [hitems] at hsorted ⊢
            exact behind_last hsorted hlast
          have hshorter : (back.drop size).length < fuel := by
            have hmem := List.mem_of_mem_take (List.mem_of_getLast? hlast)
            have hpos := List.length_pos_of_mem hmem
            rw [List.length_drop]
            omega
          have hsplit : items = (front ++ back.take size) ++ back.drop size := by
            rw [List.append_assoc, List.take_append_drop, hitems]
          have hrest := @ih (n + 1) _ _ _ (read ++ back.take size) hsplit hnext hshorter
          simp only [hlast, hrest, List.append_assoc, List.take_append_drop]

/-- With one request more than there are items the reader has seen them all. -/
theorem readPages_complete {items : List α} {page : ℕ → Option α → Option (List α)}
    (hsorted : items.Pairwise (· < ·)) (hserves : Serves items page) {fuel : ℕ}
    (hfuel : items.length < fuel) : readPages page fuel 0 none [] = some items :=
  readPages_behind hsorted hserves fuel (List.nil_append items).symm rfl hfuel

/-- A request may fail; if it does not, it is answered with the first items behind the marker. -/
def ServesOrFails (items : List α) (page : ℕ → Option α → Option (List α)) : Prop :=
  ∀ n marker, page n marker = none ∨
    ∃ size, 1 ≤ size ∧ page n marker = some ((behind items marker).take size)

omit [Preorder α] [DecidableLT α] in
/-- Only where nothing is left a page is empty. -/
theorem back_of_page_empty {back : List α} {size : ℕ} (hsize : 1 ≤ size)
    (hlast : (back.take size).getLast? = none) : back = [] :=
  (List.take_eq_nil_iff.mp (List.getLast?_eq_none_iff.mp hlast)).resolve_left (by omega)

/-- A page moves the marker on, and leaves fewer items behind it. -/
theorem page_step {items front back : List α} {size : ℕ} {last : α}
    (hsorted : items.Pairwise (· < ·)) (hsize : 1 ≤ size) (hitems : items = front ++ back)
    (hlast : (back.take size).getLast? = some last) :
    items = (front ++ back.take size) ++ back.drop size ∧
      behind items (some last) = back.drop size ∧ (back.drop size).length < back.length ∧
      1 ≤ (back.take size).length := by
  have hmem := List.mem_of_getLast? hlast
  have hpos := List.length_pos_of_mem (List.mem_of_mem_take hmem)
  refine ⟨?_, ?_, ?_, List.length_pos_of_mem hmem⟩
  · rw [List.append_assoc, List.take_append_drop, hitems]
  · rw [hitems] at hsorted ⊢
    exact behind_last hsorted hlast
  · rw [List.length_drop]
    omega

/-- A reader of such pages sees a front part of the items, as many of them at least as
requests succeed in a row. -/
theorem readPages_part {items : List α} {page : ℕ → Option α → Option (List α)}
    (hsorted : items.Pairwise (· < ·)) (hserves : ServesOrFails items page) (fuel : ℕ) :
    ∀ {n good : ℕ} {marker : Option α} {front back read : List α}, items = front ++ back →
      behind items marker = back → back.length < fuel →
      (∀ i < good, ∀ marker, page (n + i) marker ≠ none) →
      ∃ more, more <+: back ∧ readPages page fuel n marker read = some (read ++ more) ∧
        (good ≤ more.length ∨ more = back) := by
  induction fuel with
  | zero =>
      intro n good marker front back read _ _ hfuel
      exact absurd hfuel (Nat.not_lt_zero _)
  | succ fuel ih =>
      intro n good marker front back read hitems hbehind hfuel hgood
      rcases hserves n marker with hfailed | ⟨size, hsize, hpage⟩
      · refine ⟨[], List.nil_prefix, by rw [readPages, hfailed, List.append_nil], .inl ?_⟩
        by_contra hsome
        exact hgood 0 (by omega) marker hfailed
      · rw [readPages, hpage, hbehind]
        cases hlast : (back.take size).getLast? with
        | none =>
            have hempty := back_of_page_empty hsize hlast
            exact ⟨[], List.nil_prefix, by simp [hempty], .inr hempty.symm⟩
        | some last =>
            obtain ⟨hsplit, hnext, hshorter, hsome⟩ := page_step hsorted hsize hitems hlast
            obtain ⟨more, ⟨left, hleft⟩, hread, hcount⟩ :=
              @ih (n + 1) (good - 1) _ _ _ (read ++ back.take size) hsplit hnext (by omega)
                fun i hi => Nat.add_assoc n 1 i ▸ hgood (1 + i) (by omega)
            refine ⟨back.take size ++ more, ⟨left, ?_⟩, ?_, ?_⟩
            · rw [List.append_assoc, hleft, List.take_append_drop]
            · rw [← List.append_assoc, ← hread]
              simp only [hlast]
            · rw [List.length_append]
              rcases hcount with hcount | hcount
              · exact .inl (by omega)
              · exact .inr (by rw [hcount, List.take_append_drop])

end KafkaK3.Pagination
