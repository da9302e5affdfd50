import KafkaK3.ConsumerInvariants
import Mathlib.Data.Prod.Lex

/-!
# What the time of a key says about its bundle

The image loop keeps the timestamp of the message it wrote last, and the key is
made from it. A bundle mixes partitions, so its last message need not be its
latest one, and then the key is earlier than some of the messages behind it.
-/
namespace KafkaK3.KeyCover
open DecimalText MessageLayout StashImage StashKey BackupConsumer ConsumerInvariants

/-- The broken-down time from the year to the second, to be compared in that order. -/
def columns (tm : Tm) : ℤ ×ₗ ℕ ×ₗ ℕ ×ₗ ℕ ×ₗ ℕ ×ₗ ℕ :=
  toLex (tm.tm_year, toLex (tm.tm_mon, toLex (tm.tm_mday, toLex (tm.tm_hour,
    toLex (tm.tm_min, tm.tm_sec)))))

/-- The local second of a message's timestamp, which counts milliseconds. -/
def localSecond (w : World) (m : Message) : Tm := w.localtime (m.timestamp / 1000)

/-- The second in the key is not before the second of any message in the bundle. -/
def Covers (w : World) (call : PutCall) : Prop :=
  ∃ tm seed random, call.s3key = formatKey call.topic (strftime tm) seed random ∧
    ∀ x ∈ call.bundle, columns (localSecond w x.pmessage) ≤ columns tm

section Call
variable {w : World} {s3 : S3Client.S3} {n : ℕ} {topic : Text}

/-- The key shows the second of the last message and the low half of the clock. -/
theorem s3key_putBundle (front : List MessageWrapper) (last : MessageWrapper) :
    (putBundle w s3 n topic (front ++ [last])).s3key =
      formatKey topic (strftime (localSecond w last.pmessage)) (w.now n).toUInt64.toUInt32
        (minstd_rand0 (w.now n).toUInt64.toUInt32) := by
  have hlast : (buildImage (contents (front ++ [last]))).last_ts = last.pmessage.timestamp := by
    rw [contents, List.map_append]
    exact buildImage_last_ts _ _
  rw [localSecond, ← hlast]
  rfl

theorem covers_putBundle_iff (front : List MessageWrapper) (last : MessageWrapper) :
    Covers w (putBundle w s3 n topic (front ++ [last])) ↔
      ∀ x ∈ front ++ [last], columns (localSecond w x.pmessage) ≤
        columns (localSecond w last.pmessage) := by
  have hkey := @s3key_putBundle w s3 n topic front last
  constructor
  · intro ⟨tm, seed', random', hread, hcovers⟩
    have hsame := time_of_formatKey (hread.symm.trans hkey)
    exact hsame ▸ hcovers
  · exact fun hlatest => ⟨_, _, _, hkey, hlatest⟩

end Call

/-- The key covers the bundle exactly when no message of it is from a later
second than its last one. -/
theorem key_covers_iff (c : Consume) (w : World) (results : List ConsumeResult) (ending : Ending) :
    ∀ call ∈ putCalls ((State.run c w results).finish c w ending).trace,
      (Covers w call ↔ ∀ last ∈ call.bundle.getLast?, ∀ x ∈ call.bundle,
        columns (localSecond w x.pmessage) ≤ columns (localSecond w last.pmessage)) := by
  intro call hcall
  have hs := (consistent_run (c := c) (w := w) results).finish ending
  obtain ⟨n, hn⟩ := List.mem_iff_getElem?.mp hcall
  obtain ⟨s3, _, hbuilt⟩ := hs.built n call hn
  have hsome : call.bundle ≠ [] := hs.nonempty _ (hs.mem_stashes_of_put hcall).1
  have hsplit := List.dropLast_append_getLast hsome
  rw [hbuilt, ← hsplit, covers_putBundle_iff]
  simp [putBundle]

/-- A clock for the first day of 1970. -/
def firstDay (seconds : Int64) : Tm :=
  let n := seconds.toInt.toNat % 86400
  { Tm.epoch with
    tm_hour := n / 3600
    tm_min := n % 3600 / 60
    tm_sec := n % 60
    hour_lt := by omega
    min_lt := by omega
    sec_le := by omega }

/-- A world with that clock. -/
def firstDayWorld : World := ⟨fun _ => true, fun _ => 0, firstDay⟩

/-- The first message goes to partition 0 and the second, which fills the bundle, to partition 1. -/
def twoMessages (first second : Int64) : List ConsumeResult :=
  [.message (.plain ['t'] 0 0 first [7] Message.letter_fits Message.letter_fits),
    .message (.plain ['t'] 1 0 second [8] Message.letter_fits Message.letter_fits)]

def bundleOfTwo (first second : Int64) : PutCall :=
  putBundle firstDayWorld ⟨true, []⟩ 0 ['t']
    ([⟨0, .plain ['t'] 0 0 first [7] Message.letter_fits Message.letter_fits⟩] ++
      [⟨1, .plain ['t'] 1 0 second [8] Message.letter_fits Message.letter_fits⟩])

theorem putCalls_twoMessages (first second : Int64) :
    putCalls (State.run ⟨some ⟨true, []⟩, 2, 1024⟩ firstDayWorld (twoMessages first second)).trace =
      [bundleOfTwo first second] := rfl

theorem ordered_messages_covered : Covers firstDayWorld (bundleOfTwo 1000 5000) := by
  have hcall := List.mem_singleton_self (bundleOfTwo 1000 5000)
  rw [← putCalls_twoMessages] at hcall
  refine (key_covers_iff _ _ _ .running _ hcall).mpr ?_
  intro last hlast x hx
  obtain rfl : _ = last := Option.some.inj hlast
  revert x
  decide

/-- A message of the fifth second in front of one of the first: the key shows the first. -/
theorem late_message_uncovered :
    ∃ call ∈ putCalls (State.run ⟨some ⟨true, []⟩, 2, 1024⟩ firstDayWorld
        (twoMessages 5000 1000)).trace,
      ¬ Covers firstDayWorld call := by
  rw [putCalls_twoMessages]
  refine ⟨_, List.mem_singleton_self _, fun hcovers => ?_⟩
  have hfirst := (covers_putBundle_iff _ _).mp hcovers _ List.mem_cons_self
  revert hfirst
  decide

end KafkaK3.KeyCover
