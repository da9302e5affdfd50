import Mathlib.Data.List.Nodup
import Std.Data.TreeMap.Lemmas

/-!
# Ordered maps filled one item at a time

A map is filled by inserting, one after the other, a value for every item under
a key which is computed from the item. A later item with the same key replaces
the value of an earlier one. What can be said of such a map at any time is that
each of its values stands for one of the items inserted under that key, and that
no key of an inserted item is missing.
-/
namespace KafkaK3.KeyedIndex
open Std

variable {α β κ : Type*} [Ord κ] {key : α → κ} {Item : α → β → Prop} {as : List α}
  {map : TreeMap κ β}

structure Indexes (key : α → κ) (Item : α → β → Prop) (as : List α) (map : TreeMap κ β) :
    Prop where
  sound : ∀ k b, map[k]? = some b → ∃ a ∈ as, key a = k ∧ Item a b
  complete : ∀ a ∈ as, key a ∈ map

namespace Indexes

variable [TransOrd κ]

theorem empty : Indexes key Item [] (∅ : TreeMap κ β) where
  sound k b hb := by simp at hb
  complete a ha := by simp at ha

/-- The value under the key of an item stands for an item with that key. -/
theorem lookup (h : Indexes key Item as map) {a : α} (ha : a ∈ as) :
    ∃ b, map[key a]? = some b ∧ ∃ x ∈ as, key x = key a ∧ Item x b := by
  obtain ⟨b, hb⟩ := Option.isSome_iff_exists.mp
    (TreeMap.isSome_getElem?_iff_mem.mpr (h.complete a ha))
  exact ⟨b, hb, h.sound _ b hb⟩

variable [LawfulEqOrd κ]

theorem insert (h : Indexes key Item as map) {a : α} {b : β} (hab : Item a b) :
    Indexes key Item (as ++ [a]) (map.insert (key a) b) where
  sound k c hc := by
    rw [TreeMap.getElem?_insert] at hc
    split at hc
    next hk =>
      refine ⟨a, List.mem_append_right _ (List.mem_singleton_self a), ?_, ?_⟩
      · exact compare_eq_iff_eq.mp hk
      · exact Option.some.inj hc ▸ hab
    next =>
      obtain ⟨x, hx, hk, hitem⟩ := h.sound k c hc
      exact ⟨x, List.mem_append_left _ hx, hk, hitem⟩
  complete x hx := by
    rw [TreeMap.mem_insert]
    rcases List.mem_append.mp hx with hx | hx
    · exact .inr (h.complete x hx)
    · rw [List.mem_singleton.mp hx]
      exact .inl ReflOrd.compare_self

/-- Items with different keys all keep their places. -/
theorem size_eq (h : Indexes key Item as map) (hnodup : (as.map key).Nodup) :
    map.size = as.length := by
  have hperm : map.keys.Perm (as.map key) := by
    rw [List.perm_ext_iff_of_nodup TreeMap.nodup_keys hnodup]
    intro k
    rw [TreeMap.mem_keys, List.mem_map]
    constructor
    · intro hk
      obtain ⟨b, hb⟩ := Option.isSome_iff_exists.mp (TreeMap.isSome_getElem?_iff_mem.mpr hk)
      obtain ⟨a, ha, hak, -⟩ := h.sound k b hb
      exact ⟨a, ha, hak⟩
    · rintro ⟨a, ha, rfl⟩
      exact h.complete a ha
  rw [← TreeMap.length_keys, hperm.length_eq, List.length_map]

end Indexes

section Values
variable {P : β → Prop}

/-- All values of the map have the property. -/
def Values (P : β → Prop) (map : TreeMap κ β) : Prop := ∀ (k : κ) (b : β), map[k]? = some b → P b

theorem Values.empty [TransOrd κ] : Values P (∅ : TreeMap κ β) := by
  intro k b hb
  simp at hb

theorem Values.insert [TransOrd κ] (h : Values P map) {k : κ} {b : β} (hb : P b) :
    Values P (map.insert k b) := by
  intro l c hc
  rw [TreeMap.getElem?_insert] at hc
  split at hc
  next => exact Option.some.inj hc ▸ hb
  next => exact h l c hc

theorem Values.of_mem_toList [TransOrd κ] [LawfulEqOrd κ] (h : Values P map) {e : κ × β}
    (he : e ∈ map.toList) : P e.2 :=
  h e.1 e.2 (TreeMap.mem_toList_iff_getElem?_eq_some.mp he)

end Values

section Order

/-- In a sorted list one member stands before another exactly when it is smaller. -/
theorem pair_sublist_iff {R : α → α → Prop} (hasymm : ∀ a b, R a b → ¬ R b a) {l : List α}
    (hl : l.Pairwise R) {a b : α} (ha : a ∈ l) (hb : b ∈ l) : [a, b].Sublist l ↔ R a b := by
  constructor
  · intro h
    have hpair := hl.sublist h
    exact (List.pairwise_cons.mp hpair).1 b (List.mem_singleton_self b)
  · intro hab
    induction hl with
    | nil => exact absurd ha List.not_mem_nil
    | @cons x xs hx _ ih =>
        rcases List.mem_cons.mp ha with rfl | ha'
        · rcases List.mem_cons.mp hb with rfl | hb'
          · exact absurd hab (hasymm _ _ hab)
          · exact (List.singleton_sublist.mpr hb').cons_cons a
        · rcases List.mem_cons.mp hb with rfl | hb'
          · exact absurd (hx a ha') (hasymm _ _ hab)
          · exact (ih ha' hb').cons x

/-- The iteration over the map follows the order of the keys. -/
theorem toList_pair_iff [TransOrd κ] {e f : κ × β} (he : e ∈ map.toList) (hf : f ∈ map.toList) :
    [e, f].Sublist map.toList ↔ compare e.1 f.1 = .lt := by
  apply pair_sublist_iff _ TreeMap.ordered_keys_toList he hf
  intro a b hab hba
  rw [OrientedOrd.eq_swap, hab] at hba
  cases hba

end Order

end KafkaK3.KeyedIndex
