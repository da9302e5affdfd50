import KafkaK3.MessageLayout

/-!
# When the checksum is the sum of the bytes

The checksum of a payload is a 64-bit number, and the loop adds it up in an `int`.
Beside the loop stands its exact run, with the numbers which the two `int`s have to
hold. The index stays small enough, since no message is longer; the sum does not.
-/
namespace KafkaK3.ChecksumRange
open ByteBuffer DecimalText MessageLayout

def byteSum (bs : Bytes) : ℕ := (bs.map UInt8.toNat).sum

section Sum
variable (bs cs : Bytes)

@[simp] theorem byteSum_nil : byteSum [] = 0 := rfl

@[simp] theorem byteSum_cons (b : UInt8) : byteSum (b :: bs) = b.toNat + byteSum bs := rfl

@[simp] theorem byteSum_append : byteSum (bs ++ cs) = byteSum bs + byteSum cs := by
  rw [byteSum, List.map_append, List.sum_append]
  rfl

theorem byteSum_replicate (n : ℕ) (b : UInt8) : byteSum (List.replicate n b) = n * b.toNat := by
  induction n with
  | zero => exact (Nat.zero_mul _).symm
  | succ n ih =>
      rw [List.replicate_succ, byteSum_cons, ih, Nat.succ_mul]
      exact Nat.add_comm ..

theorem byteSum_take_le (n : ℕ) : byteSum (bs.take n) ≤ byteSum bs := by
  have hsplit := congrArg byteSum (List.take_append_drop n bs)
  rw [byteSum_append] at hsplit
  omega

/-- One byte more. -/
theorem byteSum_take_succ (n : ℕ) :
    byteSum (bs.take (n + 1)) = byteSum (bs.take n) + (bs.getD n 0).toNat := by
  induction bs generalizing n with
  | nil => simp
  | cons b bs ih =>
      cases n with
      | zero => simp
      | succ n =>
          rw [List.take_succ_cons, List.take_succ_cons, byteSum_cons, byteSum_cons, ih,
            List.getD_cons_succ, Nat.add_assoc]

end Sum

/-- What the two `int`s of the loop have to hold after each of its rounds. -/
def exactRounds (inp : Bytes) : ℕ → ℤ → ℤ → List (ℤ × ℤ)
  | 0, _, _ => []
  | len + 1, i, j =>
      let i := i + (inp.getD j.toNat 0).toNat
      let j := j + 1
      (i, j) :: exactRounds inp len i j

section Loop
variable (inp : Bytes)

/-- After `n` rounds the sum is that of `n` bytes. -/
theorem exactRounds_take (k n : ℕ) :
    exactRounds inp k (byteSum (inp.take n)) n =
      (List.range' (n + 1) k).map fun r => ((byteSum (inp.take r) : ℤ), (r : ℤ)) := by
  induction k generalizing n with
  | zero => rfl
  | succ k ih =>
      have hsum : (byteSum (inp.take n) : ℤ) + (inp.getD n 0).toNat =
          (byteSum (inp.take (n + 1)) : ℕ) := by
        rw [byteSum_take_succ]
        push_cast
        rfl
      have hindex : (n : ℤ) + 1 = (n + 1 : ℕ) := by push_cast; rfl
      rw [exactRounds, Int.toNat_natCast]
      simp only [hsum, hindex, ih, List.range'_succ, List.map_cons]

/-- The loop keeps the same numbers, as far as an `int` can. -/
theorem checksumLoop_take (k n : ℕ) (h : n + k < 2 ^ 31) :
    checksumLoop inp k (Int32.ofNat (byteSum (inp.take n))) (Int32.ofNat n) =
      Int32.ofNat (byteSum (inp.take (n + k))) := by
  induction k generalizing n with
  | zero => rfl
  | succ k ih =>
      have hindex : (Int32.ofNat n).toInt.toNat = n := by
        rw [Int32.toInt_ofNat_of_lt (by omega), Int.toNat_natCast]
      have hnext : Int32.ofNat n + 1 = Int32.ofNat (n + 1) := (Int32.ofNat_add n 1).symm
      rw [checksumLoop, hindex, hnext, ← Int32.ofNat_add, ← byteSum_take_succ, ih (n + 1) (by omega)]
      rw [Nat.add_right_comm, Nat.add_assoc]

theorem messageChecksum_eq (h : inp.length < 2 ^ 31) :
    messageChecksum inp inp.length = (Int32.ofNat (byteSum inp)).toInt64 := by
  have hloop := checksumLoop_take inp inp.length 0 (by omega)
  rw [Nat.zero_add, List.take_length] at hloop
  exact congrArg Int32.toInt64 hloop

/-- It is the sum where the sum fits. -/
theorem messageChecksum_of_fits (h : inp.length < 2 ^ 31) (hsum : byteSum inp < 2 ^ 31) :
    (messageChecksum inp inp.length).toInt = byteSum inp := by
  rw [messageChecksum_eq inp h, Int32.toInt_toInt64, Int32.toInt_ofNat_of_lt hsum]

end Loop

/-- The checksum is the sum of the bytes and nothing overflows on the way, so it is
additive and never negative. -/
structure ChecksumExact (m : Message) : Prop where
  exact : (messageChecksum m.bytes m.len).toInt = byteSum m.bytes
  rounds : ∀ r ∈ exactRounds m.bytes m.len 0 0, FitsInt r.1 ∧ FitsInt r.2
  additive : ∀ front back, m.bytes = front ++ back →
    (messageChecksum m.bytes m.len).toInt = (messageChecksum front front.length).toInt +
      (messageChecksum back back.length).toInt
  nonneg : 0 ≤ (messageChecksum m.bytes m.len).toInt

theorem fits_of_exact {m : Message} (h : (messageChecksum m.bytes m.len).toInt = byteSum m.bytes) :
    byteSum m.bytes < 2 ^ 31 := by
  have hlen : m.bytes.length < 2 ^ 31 := m.len_lt
  have hchecksum : messageChecksum m.bytes m.len = _ := messageChecksum_eq m.bytes hlen
  rw [hchecksum, Int32.toInt_toInt64] at h
  have hrange := Int32.toInt_lt (Int32.ofNat (byteSum m.bytes))
  omega

/-- The checksum is exact exactly when the sum of the bytes is below 2^31. -/
theorem checksum_exact_iff (m : Message) : ChecksumExact m ↔ byteSum m.bytes < 2 ^ 31 := by
  constructor
  · exact fun h => fits_of_exact h.exact
  · intro hsum
    have hlen : m.bytes.length < 2 ^ 31 := m.len_lt
    have hexact : (messageChecksum m.bytes m.len).toInt = byteSum m.bytes :=
      messageChecksum_of_fits m.bytes hlen hsum
    constructor
    case exact => exact hexact
    case rounds =>
      have hrounds : exactRounds m.bytes m.len 0 0 = _ := exactRounds_take m.bytes m.len 0
      intro r hr
      rw [hrounds, List.mem_map] at hr
      obtain ⟨n, hn, rfl⟩ := hr
      have hcount := (List.mem_range'_1.mp hn).2
      have hpart := byteSum_take_le m.bytes n
      have hroom : m.len < 2 ^ 31 := m.len_lt
      exact ⟨⟨by omega, by omega⟩, ⟨by omega, by omega⟩⟩
    case additive =>
      intro front back hsplit
      rw [hexact]
      rw [hsplit, byteSum_append] at hsum ⊢
      rw [hsplit, List.length_append] at hlen
      rw [messageChecksum_of_fits front (by omega) (by omega),
        messageChecksum_of_fits back (by omega) (by omega)]
      exact Nat.cast_add ..
    case nonneg =>
      rw [hexact]
      exact Int.natCast_nonneg _

/-- A payload of so many bytes with all bits set. -/
def allOnes (n : ℕ) (h : n < 2 ^ 31) : Message where
  topic_name := ['t']
  partition := 0
  offset := 0
  timestamp := 1
  key := none
  payload := some (List.replicate n 255)
  topic_fits := Message.letter_fits
  key_fits := Message.nothing_fits
  payload_fits := by simpa using h

/-- Some eight megabytes are too many. -/
theorem eight_megabytes_overflow : ¬ ChecksumExact (allOnes 8421505 (by decide)) := by
  intro hexact
  have hfits := fits_of_exact hexact.exact
  have hsum : byteSum (allOnes 8421505 (by decide)).bytes = 8421505 * 255 :=
    byteSum_replicate 8421505 255
  omega

end KafkaK3.ChecksumRange
