import Mathlib.Data.List.Nodup
import Mathlib.Tactic.Common
import Std.Data.TreeMap.Lemmas

/-!
# Assignments of which the last one counts

A log assigns values to keys, one after the other. What a key has in the end is the
value of its last assignment. A log may have entries which do not belong there; they
leave all values as they are exactly when each of them is replaced behind it or says
what the other entries say anyway.
-/
namespace KafkaK3.LastValue
open Std

variable {κ ν : Type*} [DecidableEq κ]

def lastValue : List (κ × ν) → κ → Option ν
  | [], _ => none
  | e :: log, k => (lastValue log k).or (if e.1 = k then some e.2 else none)

@[simp] theorem lastValue_nil (k : κ) : lastValue ([] : List (κ × ν)) k = none := rfl

theorem lastValue_cons (e : κ × ν) (log : List (κ × ν)) (k : κ) :
    lastValue (e :: log) k = (lastValue log k).or (if e.1 = k then some e.2 else none) := rfl

theorem lastValue_singleton (e : κ × ν) (k : κ) :
    lastValue [e] k = if e.1 = k then some e.2 else none := rfl

/-- Later assignments go over earlier ones. -/
theorem lastValue_append (log later : List (κ × ν)) (k : κ) :
    lastValue (log ++ later) k = (lastValue later k).or (lastValue log k) := by
  induction log with
  | nil => exact (Option.or_none).symm
  | cons e log ih => rw [List.cons_append, lastValue_cons, lastValue_cons, ih, Option.or_assoc]

theorem lastValue_eq_none_iff {log : List (κ × ν)} {k : κ} :
    lastValue log k = none ↔ ∀ e ∈ log, e.1 ≠ k := by
  induction log with
  | nil => simp
  | cons e log ih =>
      rw [lastValue_cons, Option.or_eq_none_iff, ih, List.forall_mem_cons, and_comm]
      simp

/-- The entry which decides, with nothing for its key behind it. -/
theorem lastValue_eq_some_iff {log : List (κ × ν)} {k : κ} {v : ν} :
    lastValue log k = some v ↔
      ∃ front tail, log = front ++ (k, v) :: tail ∧ ∀ e ∈ tail, e.1 ≠ k := by
  constructor
  · intro h
    induction log with
    | nil => cases h
    | cons e log ih =>
        rw [lastValue_cons] at h
        cases hlast : lastValue log k with
        | some u =>
            rw [hlast] at h
            obtain ⟨front, tail, hlog, htail⟩ := ih (hlast.trans h)
            exact ⟨e :: front, tail, congrArg (e :: ·) hlog, htail⟩
        | none =>
            rw [hlast, Option.none_or] at h
            split at h
            next hk =>
              cases h
              exact ⟨[], log, by rw [← hk]; rfl, lastValue_eq_none_iff.mp hlast⟩
            next => cases h
  · intro ⟨front, tail, hlog, htail⟩
    rw [hlog, lastValue_append, lastValue_cons, lastValue_eq_none_iff.mpr htail, if_pos rfl]
    rfl

theorem mem_of_lastValue {log : List (κ × ν)} {k : κ} {v : ν} (h : lastValue log k = some v) :
    (k, v) ∈ log := by
  obtain ⟨front, tail, rfl, -⟩ := lastValue_eq_some_iff.mp h
  exact List.mem_append_right _ List.mem_cons_self

theorem lastValue_map {μ : Type*} (f : ν → μ) (log : List (κ × ν)) (k : κ) :
    lastValue (log.map fun e => (e.1, f e.2)) k = (lastValue log k).map f := by
  induction log with
  | nil => rfl
  | cons e log ih =>
      rw [List.map_cons, lastValue_cons, lastValue_cons, ih]
      cases lastValue log k with
      | some v => rfl
      | none =>
          rw [Option.map_none, Option.none_or, Option.none_or]
          split <;> rfl

section Dropped

/-- An entry with a mark whether it belongs to the log. -/
structure Marked (κ ν : Type*) where
  belongs : Bool
  key : κ
  value : ν

def Marked.entry (m : Marked κ ν) : κ × ν := (m.key, m.value)

variable {log : List (Marked κ ν)}

/-- All entries, those which do not belong there among them. -/
def everything (log : List (Marked κ ν)) : List (κ × ν) := log.map Marked.entry

def kept (log : List (Marked κ ν)) : List (κ × ν) := (log.filter Marked.belongs).map Marked.entry

/-- A log of which all entries have the same mark. -/
def mark (belongs : Bool) (log : List (κ × ν)) : List (Marked κ ν) :=
  log.map fun e => ⟨belongs, e.1, e.2⟩

omit [DecidableEq κ] in
@[simp] theorem everything_append (log later : List (Marked κ ν)) :
    everything (log ++ later) = everything log ++ everything later :=
  List.map_append

omit [DecidableEq κ] in
@[simp] theorem kept_append (log later : List (Marked κ ν)) :
    kept (log ++ later) = kept log ++ kept later := by
  rw [kept, List.filter_append, List.map_append]
  rfl

omit [DecidableEq κ] in
@[simp] theorem everything_mark (belongs : Bool) (log : List (κ × ν)) :
    everything (mark belongs log) = log := by
  rw [everything, mark, List.map_map]
  exact List.map_id log

omit [DecidableEq κ] in
@[simp] theorem kept_mark (belongs : Bool) (log : List (κ × ν)) :
    kept (mark belongs log) = if belongs then log else [] := by
  induction log with
  | nil => exact (ite_self _).symm
  | cons e log ih =>
      have hsplit : mark belongs (e :: log) = ⟨belongs, e.1, e.2⟩ :: mark belongs log := rfl
      rw [hsplit, kept]
      cases belongs with
      | false =>
          rw [List.filter_cons_of_neg Bool.false_ne_true]
          exact ih
      | true =>
          rw [List.filter_cons_of_pos rfl, List.map_cons]
          exact congrArg (e :: ·) ih

/-- An entry which does not belong there and which no later one replaces has the value
which its key has without it. -/
def Harmless (log : List (Marked κ ν)) (before : κ → Option ν) : Prop :=
  ∀ front k v tail, log = front ++ ⟨false, k, v⟩ :: tail → (∀ m ∈ tail, m.key ≠ k) →
    (lastValue (kept log) k).or (before k) = some v

theorem lastValue_everything {front tail : List (Marked κ ν)} {m : Marked κ ν}
    (hlog : log = front ++ m :: tail) (htail : ∀ x ∈ tail, x.key ≠ m.key) :
    lastValue (everything log) m.key = some m.value := by
  refine lastValue_eq_some_iff.mpr ⟨everything front, everything tail, ?_, ?_⟩
  · rw [hlog, everything, List.map_append, List.map_cons]
    rfl
  · exact List.forall_mem_map.mpr htail

theorem lastValue_kept {front tail : List (Marked κ ν)} {m : Marked κ ν} (hm : m.belongs = true)
    (hlog : log = front ++ m :: tail) (htail : ∀ x ∈ tail, x.key ≠ m.key) :
    lastValue (kept log) m.key = some m.value := by
  refine lastValue_eq_some_iff.mpr ⟨kept front, kept tail, ?_, ?_⟩
  · rw [hlog, kept, List.filter_append, List.filter_cons_of_pos hm, List.map_append, List.map_cons]
    rfl
  · exact List.forall_mem_map.mpr fun x hx => htail x (List.mem_filter.mp hx).1

/-- Nothing is said without an entry. -/
theorem lastValue_kept_none {k : κ} (h : lastValue (everything log) k = none) :
    lastValue (kept log) k = none := by
  rw [lastValue_eq_none_iff] at h ⊢
  rw [everything, List.forall_mem_map] at h
  exact List.forall_mem_map.mpr fun m hm => h m (List.mem_filter.mp hm).1

theorem exists_last {k : κ} {v : ν} (h : lastValue (everything log) k = some v) :
    ∃ front m tail, log = front ++ m :: tail ∧ m.key = k ∧ m.value = v ∧ ∀ x ∈ tail, x.key ≠ k := by
  obtain ⟨front, tail, hlog, htail⟩ := lastValue_eq_some_iff.mp h
  obtain ⟨first, rest, hsplit, -, hrest⟩ := List.map_eq_append_iff.mp hlog
  obtain ⟨m, last, hcons, hm, hlast⟩ := List.map_eq_cons_iff.mp hrest
  rw [← hlast, List.forall_mem_map] at htail
  exact ⟨first, m, last, by rw [hsplit, hcons], congrArg Prod.fst hm, congrArg Prod.snd hm, htail⟩

/-- The entries which do not belong there change no value exactly when they are harmless. -/
theorem same_values_iff {before : κ → Option ν} :
    (∀ k, (lastValue (everything log) k).or (before k) =
      (lastValue (kept log) k).or (before k)) ↔ Harmless log before := by
  constructor
  · intro hsame front k v tail hlog htail
    have hlast := lastValue_everything (m := ⟨false, k, v⟩) hlog htail
    rw [← hsame k, hlast]
    rfl
  · intro hharmless k
    cases hlast : lastValue (everything log) k with
    | none => rw [lastValue_kept_none hlast]
    | some v =>
        obtain ⟨front, ⟨belongs, key, value⟩, tail, hlog, hkey, hvalue, htail⟩ := exists_last hlast
        dsimp only at hkey hvalue
        rw [hkey, hvalue] at hlog
        cases belongs with
        | false => exact (hharmless front k v tail hlog htail).symm
        | true =>
            have hkept := lastValue_kept (m := ⟨true, k, v⟩) rfl hlog htail
            rw [hkept]

end Dropped

section Maps
variable [Ord κ] [TransOrd κ] [LawfulEqOrd κ]

def insertAll (map : TreeMap κ ν) (log : List (κ × ν)) : TreeMap κ ν :=
  log.foldl (fun map e => map.insert e.1 e.2) map

omit [DecidableEq κ] [TransOrd κ] [LawfulEqOrd κ] in
theorem insertAll_append (map : TreeMap κ ν) (log later : List (κ × ν)) :
    insertAll map (log ++ later) = insertAll (insertAll map log) later :=
  List.foldl_append

/-- A map to which a log is applied has the last values. -/
theorem getElem?_insertAll (map : TreeMap κ ν) (log : List (κ × ν)) (k : κ) :
    (insertAll map log)[k]? = (lastValue log k).or map[k]? := by
  induction log generalizing map with
  | nil => rfl
  | cons e log ih =>
      have hinsert : (map.insert e.1 e.2)[k]? = (if e.1 = k then some e.2 else none).or map[k]? := by
        rw [TreeMap.getElem?_insert]
        by_cases hk : e.1 = k
        · rw [if_pos hk, if_pos (Std.compare_eq_iff_eq.mpr hk)]
          rfl
        · rw [if_neg hk, if_neg (mt Std.compare_eq_iff_eq.mp hk)]
          rfl
      rw [insertAll, List.foldl_cons, ← insertAll, ih, hinsert, lastValue_cons, Option.or_assoc]

theorem mem_toList_insertAll {log : List (κ × ν)} {e : κ × ν} :
    e ∈ (insertAll ∅ log).toList ↔ lastValue log e.1 = some e.2 := by
  have hempty : (∅ : TreeMap κ ν)[e.1]? = none := TreeMap.getElem?_emptyc
  rw [TreeMap.mem_toList_iff_getElem?_eq_some, getElem?_insertAll, hempty, Option.or_none]

theorem of_mem_toList_insertAll {log : List (κ × ν)} {e : κ × ν}
    (h : e ∈ (insertAll ∅ log).toList) : e ∈ log :=
  mem_of_lastValue (mem_toList_insertAll.mp h)

omit [DecidableEq κ] [LawfulEqOrd κ] in
theorem nodup_keys_insertAll (log : List (κ × ν)) :
    ((insertAll ∅ log).toList.map Prod.fst).Nodup := by
  rw [TreeMap.map_fst_toList_eq_keys]
  exact TreeMap.nodup_keys

omit [Ord κ] [TransOrd κ] [LawfulEqOrd κ] in
/-- Where no key is assigned twice, every assignment counts. -/
theorem lastValue_of_nodup {log : List (κ × ν)} (h : (log.map Prod.fst).Nodup) {k : κ} {v : ν} :
    lastValue log k = some v ↔ (k, v) ∈ log := by
  constructor
  · exact mem_of_lastValue
  · intro hmem
    obtain ⟨front, tail, rfl⟩ := List.append_of_mem hmem
    refine lastValue_eq_some_iff.mpr ⟨front, tail, rfl, fun e he hk => ?_⟩
    rw [List.map_append, List.map_cons, List.nodup_append] at h
    have hagain := List.mem_map_of_mem (f := Prod.fst) he
    rw [hk] at hagain
    exact (List.nodup_cons.mp h.2.1).1 hagain

/-- The map then consists of the assignments. -/
theorem toList_insertAll {log : List (κ × ν)} (h : (log.map Prod.fst).Nodup) :
    (insertAll ∅ log).toList.Perm log := by
  rw [List.perm_ext_iff_of_nodup (List.Nodup.of_map _ (nodup_keys_insertAll log))
    (List.Nodup.of_map _ h)]
  intro e
  rw [mem_toList_insertAll, lastValue_of_nodup h]

end Maps

end KafkaK3.LastValue
