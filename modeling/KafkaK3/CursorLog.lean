import Mathlib.Data.List.Infix
import Mathlib.Tactic.Common

/-!
# A log read through a cursor

A reader takes entries of a log in order, from a cursor on, and acknowledges a
front part of what it took. Each acknowledgement travels on its own and may get
lost; one which arrives sets the cursor behind its entry. Whoever reads next
starts at the cursor, so a history is a sequence of readers, each of which may
have stopped anywhere.
-/
namespace KafkaK3.CursorLog

variable {α : Type*} (pos : α → ℤ)

def Ordered (log : List α) : Prop := log.Pairwise fun a b => pos a < pos b

/-- The entries from the cursor on. -/
def rest (log : List α) (cursor : ℤ) : List α := log.filter fun e => cursor ≤ pos e

/-- The cursor after some acknowledgements. -/
def advance (cursor : ℤ) (entries : List α) : ℤ := entries.foldl (fun _ e => pos e + 1) cursor

variable {pos}

section Cursor

@[simp] theorem advance_nil (k : ℤ) : advance pos k [] = k := rfl

@[simp] theorem advance_cons (k : ℤ) (e : α) (entries : List α) :
    advance pos k (e :: entries) = advance pos (pos e + 1) entries := rfl

theorem advance_append (k : ℤ) (t u : List α) :
    advance pos k (t ++ u) = advance pos (advance pos k t) u := List.foldl_append

@[simp] theorem advance_concat (k : ℤ) (t : List α) (e : α) :
    advance pos k (t ++ [e]) = pos e + 1 := by
  rw [advance_append]
  rfl

/-- Only the last acknowledgement counts. -/
theorem advance_eq (pos : α → ℤ) (k : ℤ) (entries : List α) :
    advance pos k entries = k ∨ ∃ e ∈ entries, advance pos k entries = pos e + 1 := by
  induction entries using List.reverseRecOn with
  | nil => exact .inl rfl
  | append_singleton t e _ => exact .inr ⟨e, by simp, advance_concat k t e⟩

theorem le_advance {k : ℤ} {entries : List α} (h : ∀ e ∈ entries, k ≤ pos e) :
    k ≤ advance pos k entries := by
  rcases advance_eq pos k entries with heq | ⟨e, he, heq⟩
  · omega
  · have hle := h e he
    omega

theorem lt_advance {k : ℤ} {entries : List α} (h : Ordered pos entries) {e : α}
    (he : e ∈ entries) : pos e < advance pos k entries := by
  induction entries using List.reverseRecOn with
  | nil => cases he
  | append_singleton t last _ =>
      rw [advance_concat]
      rcases List.mem_append.mp he with he | he
      · have hlast := (List.pairwise_append.mp h).2.2 e he last (List.mem_singleton_self last)
        omega
      · rw [List.mem_singleton.mp he]
        omega

/-- Lost acknowledgements leave the cursor behind. -/
theorem advance_sublist {k : ℤ} {arrived acked : List α} (hsub : arrived.Sublist acked)
    (hordered : Ordered pos acked) (hfrom : ∀ e ∈ acked, k ≤ pos e) :
    k ≤ advance pos k arrived ∧ advance pos k arrived ≤ advance pos k acked := by
  constructor
  · exact le_advance fun e he => hfrom e (hsub.subset he)
  · have hle := le_advance hfrom
    rcases advance_eq pos k arrived with heq | ⟨e, he, heq⟩
    · omega
    · have hlt := lt_advance (k := k) hordered (hsub.subset he)
      omega

end Cursor

section Rest
variable {log : List α}

theorem mem_rest {k : ℤ} {e : α} : e ∈ rest pos log k ↔ e ∈ log ∧ k ≤ pos e := by
  simp [rest]

theorem Ordered.rest (h : Ordered pos log) (k : ℤ) : Ordered pos (rest pos log k) :=
  h.sublist List.filter_sublist

theorem rest_rest {k l : ℤ} (h : k ≤ l) : rest pos (rest pos log k) l = rest pos log l := by
  rw [rest, rest, List.filter_filter, rest]
  apply List.filter_congr
  intro e _
  rw [← Bool.decide_and, decide_eq_decide]
  omega

/-- A reader which starts behind what was taken continues where the other stopped. -/
theorem resume (h : Ordered pos log) {k : ℤ} {taken : List α} (ht : taken <+: rest pos log k) :
    rest pos log k = taken ++ rest pos log (advance pos k taken) := by
  induction taken using List.reverseRecOn with
  | nil => rfl
  | append_singleton t e ih =>
      have hfront := ih ((List.prefix_append t [e]).trans ht)
      rw [hfront] at ht
      obtain ⟨tail, htail⟩ := List.prefix_append_right_inj t |>.mp ht
      have hordered := h.rest (advance pos k t)
      rw [← htail] at hordered
      have hgone : CursorLog.rest pos (e :: tail) (pos e + 1) = tail := by
        rw [CursorLog.rest, List.filter_cons_of_neg (by rw [decide_eq_true_eq]; omega)]
        apply List.filter_eq_self.mpr
        intro x hx
        have hlt : pos e < pos x := List.rel_of_pairwise_cons hordered hx
        simpa using Int.add_one_le_of_lt hlt
      have hle : advance pos k t ≤ pos e :=
        (mem_rest.mp (htail ▸ List.mem_cons_self : e ∈ rest pos log (advance pos k t))).2
      rw [advance_concat, hfront, List.append_assoc, ← htail, ← rest_rest (Int.le_add_one hle),
        ← htail]
      exact congrArg (t ++ e :: ·) hgone.symm

/-- What the cursor has passed was taken. -/
theorem mem_of_passed (h : Ordered pos log) {k : ℤ} {taken : List α}
    (ht : taken <+: rest pos log k) {e : α} (he : e ∈ log) (hfrom : k ≤ pos e)
    (hpast : pos e < advance pos k taken) : e ∈ taken := by
  have hmem : e ∈ rest pos log k := mem_rest.mpr ⟨he, hfrom⟩
  rw [resume h ht] at hmem
  rcases List.mem_append.mp hmem with hmem | hmem
  · exact hmem
  · have hle := (mem_rest.mp hmem).2
    omega

end Rest

/-- What one reader took, what it acknowledged and which acknowledgements arrived. -/
structure Session (α : Type*) where
  taken : List α
  acked : List α
  arrived : List α

structure Session.Reads (pos : α → ℤ) (log : List α) (cursor : ℤ) (s : Session α) : Prop where
  taken : s.taken <+: rest pos log cursor
  acked : s.acked <+: s.taken
  arrived : s.arrived.Sublist s.acked

/-- One reader after the other. -/
inductive History (pos : α → ℤ) (log : List α) : ℤ → List (Session α) → ℤ → Prop
  | nil {k : ℤ} : History pos log k [] k
  | cons {k l : ℤ} {s : Session α} {ss : List (Session α)} : s.Reads pos log k →
      History pos log (advance pos k s.arrived) ss l → History pos log k (s :: ss) l

section Histories
variable {log : List α} {k l : ℤ} {s : Session α} {ss : List (Session α)}

theorem Session.Reads.from_cursor (h : s.Reads pos log k) {e : α} (he : e ∈ s.taken) :
    e ∈ log ∧ k ≤ pos e := mem_rest.mp (h.taken.subset he)

theorem Session.Reads.cursor (hlog : Ordered pos log) (h : s.Reads pos log k) :
    k ≤ advance pos k s.arrived ∧ advance pos k s.arrived ≤ advance pos k s.acked := by
  apply advance_sublist h.arrived
  · exact (hlog.rest k).sublist (h.acked.trans h.taken).sublist
  · exact fun e he => (h.from_cursor (h.acked.subset he)).2

/-- The cursor never goes back. -/
theorem History.mono (hlog : Ordered pos log) (h : History pos log k ss l) : k ≤ l := by
  induction h with
  | nil => exact Int.le_refl _
  | cons hs _ ih => exact Int.le_trans (hs.cursor hlog).1 ih

/-- Every entry which the cursor has passed was acknowledged by some reader. -/
theorem History.passed (hlog : Ordered pos log) (h : History pos log k ss l) {e : α}
    (he : e ∈ log) (hfrom : k ≤ pos e) (hpast : pos e < l) : ∃ s ∈ ss, e ∈ s.acked := by
  induction h with
  | nil => omega
  | @cons k l s ss hs _ ih =>
      by_cases hnow : pos e < advance pos k s.acked
      · exact ⟨s, List.mem_cons_self,
          mem_of_passed hlog (hs.acked.trans hs.taken) he hfrom hnow⟩
      · have hcursor := (hs.cursor hlog).2
        obtain ⟨t, ht, hmem⟩ := ih (by omega) hpast
        exact ⟨t, List.mem_cons_of_mem s ht, hmem⟩

/-- All readers of a history read from its first cursor on. -/
theorem History.from_cursor (hlog : Ordered pos log) (h : History pos log k ss l) :
    ∀ s ∈ ss, ∀ e ∈ s.taken, e ∈ log ∧ k ≤ pos e := by
  induction h with
  | nil => intro s hs; cases hs
  | cons hs _ ih =>
      intro t ht e he
      rcases List.mem_cons.mp ht with rfl | ht
      · exact hs.from_cursor he
      · have hlater := ih t ht e he
        exact ⟨hlater.1, Int.le_trans (hs.cursor hlog).1 hlater.2⟩

/-- An entry whose acknowledgement arrived is not taken again, nor is any entry
before it. -/
theorem History.settled (hlog : Ordered pos log) (h : History pos log k ss l) :
    ss.Pairwise fun s t => ∀ a ∈ s.arrived, ∀ b ∈ t.taken, pos a < pos b := by
  induction h with
  | nil => exact .nil
  | @cons k l s ss hs htail ih =>
      refine .cons ?_ ih
      intro t ht a ha b hb
      have hordered : Ordered pos s.arrived :=
        (hlog.rest k).sublist (hs.arrived.trans (hs.acked.trans hs.taken).sublist)
      have hpast := lt_advance (k := k) hordered ha
      have hfrom := (htail.from_cursor hlog t ht b hb).2
      omega

/-- Where everything was acknowledged and arrived, the readers share the log out
between them. -/
theorem History.whole (hlog : Ordered pos log) (h : History pos log k ss l)
    (hclean : ∀ s ∈ ss, s.arrived = s.taken) :
    rest pos log k = ss.flatMap Session.taken ++ rest pos log l := by
  induction h with
  | nil => rfl
  | cons hs _ ih =>
      obtain ⟨hhead, hrest⟩ := List.forall_mem_cons.mp hclean
      rw [resume hlog hs.taken, ← hhead, ih hrest, List.flatMap_cons, hhead, List.append_assoc]

end Histories

end KafkaK3.CursorLog
