import KafkaK3.KeyCover

/-!
# When two bundles are stored under one key

A key is told apart from the others of its topic by the second of its bundle's last
message and by a seed, from which the random number follows. The seed keeps only the
low 32 bits of the clock, so it comes back after 2^32 ticks, and the second may too.
-/
namespace KafkaK3.KeyUniqueness
open DecimalText MessageLayout StashKey BackupConsumer ConsumerInvariants KeyCover

/-- No PUT of a run is stored under the key of an earlier one of its topic. -/
def KeysDistinct (t : List Event) : Prop :=
  ∀ (i j : ℕ) (a b : PutCall), (putCalls t)[i]? = some a → (putCalls t)[j]? = some b → i < j →
    a.topic = b.topic → a.s3key ≠ b.s3key

/-- The last messages of both bundles are of one local second. -/
def SameSecond (w : World) (a b : PutCall) : Prop :=
  (a.bundle.getLast?.map fun x => localSecond w x.pmessage) =
    b.bundle.getLast?.map fun x => localSecond w x.pmessage

/-- The clock has gone on by a multiple of 2^32 ticks from one PUT to the other. -/
def SameTicks (w : World) (i j : ℕ) : Prop :=
  (w.now i).toInt % 2 ^ 32 = (w.now j).toInt % 2 ^ 32

/-- The clock goes on from each PUT of the run to the next. -/
def ClockIncreases (w : World) (t : List Event) : Prop :=
  ∀ i j, i < j → j < (putCalls t).length → (w.now i).toInt < (w.now j).toInt

theorem seed_toNat (ticks : Int64) : (ticks.toUInt64.toUInt32.toNat : ℤ) = ticks.toInt % 2 ^ 32 := by
  have hint : ticks.toInt = ticks.toBitVec.toInt := rfl
  have hnat : ticks.toUInt64.toNat = ticks.toBitVec.toNat := rfl
  rw [hint, BitVec.toInt_eq_toNat_cond, UInt64.toNat_toUInt32, hnat]
  split <;> omega

theorem sameTicks_iff {w : World} {i j : ℕ} :
    SameTicks w i j ↔ (w.now i).toUInt64.toUInt32 = (w.now j).toUInt64.toUInt32 := by
  rw [SameTicks, ← seed_toNat, ← seed_toNat, ← UInt32.toNat_inj]
  exact Int.natCast_inj

section Run
variable {c : Consume} {w : World} {s : State}

theorem key_of_put (hs : Consistent c w s) {i : ℕ} {call : PutCall}
    (hcall : (putCalls s.trace)[i]? = some call) :
    ∃ last, call.bundle.getLast? = some last ∧ call.s3key =
      formatKey call.topic (strftime (localSecond w last.pmessage)) (w.now i).toUInt64.toUInt32
        (minstd_rand0 (w.now i).toUInt64.toUInt32) := by
  have hsome : call.bundle ≠ [] :=
    hs.nonempty _ (hs.mem_stashes_of_put (List.mem_of_getElem? hcall)).1
  obtain ⟨s3, _, hbuilt⟩ := hs.built i call hcall
  have hkey := @s3key_putBundle w s3 i call.topic call.bundle.dropLast (call.bundle.getLast hsome)
  rw [List.dropLast_append_getLast hsome, ← hbuilt] at hkey
  exact ⟨call.bundle.getLast hsome, List.getLast?_eq_some_getLast hsome, hkey⟩

/-- Two PUTs of a topic have one key exactly when neither the second nor the seed differs. -/
theorem key_eq_iff (hs : Consistent c w s) {i j : ℕ} {a b : PutCall}
    (ha : (putCalls s.trace)[i]? = some a) (hb : (putCalls s.trace)[j]? = some b)
    (htopic : a.topic = b.topic) :
    a.s3key = b.s3key ↔ SameSecond w a b ∧ SameTicks w i j := by
  obtain ⟨x, hx, hkeyA⟩ := key_of_put hs ha
  obtain ⟨y, hy, hkeyB⟩ := key_of_put hs hb
  rw [hkeyA, hkeyB, htopic, SameSecond, hx, hy, sameTicks_iff]
  constructor
  · intro hkey
    have hsecond := time_of_formatKey hkey
    exact ⟨congrArg some hsecond, seed_of_formatKey hkey⟩
  · intro ⟨hsecond, hseed⟩
    have hsame : localSecond w x.pmessage = localSecond w y.pmessage := Option.some.inj hsecond
    rw [hsame, hseed]

/-- In every run the keys are different exactly when no two bundles of a topic with one
last second are stored a multiple of 2^32 ticks apart. -/
theorem keys_distinct_iff (c : Consume) (w : World) (results : List ConsumeResult)
    (ending : Ending) :
    KeysDistinct ((State.run c w results).finish c w ending).trace ↔
      ∀ i j a b, (putCalls ((State.run c w results).finish c w ending).trace)[i]? = some a →
        (putCalls ((State.run c w results).finish c w ending).trace)[j]? = some b → i < j →
        a.topic = b.topic → SameSecond w a b → ¬ SameTicks w i j := by
  have hs := (consistent_run (c := c) (w := w) results).finish ending
  constructor
  · intro hdistinct i j a b ha hb hij htopic hsecond hticks
    exact hdistinct i j a b ha hb hij htopic ((key_eq_iff hs ha hb htopic).mpr ⟨hsecond, hticks⟩)
  · intro hapart i j a b ha hb hij htopic hkey
    have hsame := (key_eq_iff hs ha hb htopic).mp hkey
    exact hapart i j a b ha hb hij htopic hsame.1 hsame.2

end Run

/-- A clock which goes on by 2^32 ticks from PUT to PUT. -/
def steppingWorld : World := ⟨fun _ => true, fun n => Int64.ofNat (n * 2 ^ 32), firstDay⟩

/-- Two messages of the first second, each of which fills a bundle. -/
def sameSecondMessages : List ConsumeResult :=
  [.message (.plain ['t'] 0 0 1000 [7] Message.letter_fits Message.letter_fits),
    .message (.plain ['t'] 0 1 1000 [8] Message.letter_fits Message.letter_fits)]

/-- The second object overwrites the first. -/
theorem second_put_overwrites :
    ClockIncreases steppingWorld
        (State.run ⟨some ⟨true, []⟩, 1, 1024⟩ steppingWorld sameSecondMessages).trace ∧
      ¬ KeysDistinct
        (State.run ⟨some ⟨true, []⟩, 1, 1024⟩ steppingWorld sameSecondMessages).trace := by
  constructor
  · intro i j hij hj
    have hcount : j < 2 := hj
    obtain rfl : i = 0 := by omega
    obtain rfl : j = 1 := by omega
    decide
  · intro hdistinct
    exact hdistinct 0 1 _ _ rfl rfl (by decide) rfl rfl

end KafkaK3.KeyUniqueness
