import Mathlib.Algebra.Ring.Nat
import Mathlib.Data.List.Basic
import Mathlib.Tactic.Common

/-!
# Byte buffers, fixed-width words and sequential writers

A memory region is a list of bytes. Words are stored with the lowest byte
first, and a signed 64-bit word is stored through its two's complement bits.
`write` is an in-place copy into an existing region and `window` is a read of
one. The lemmas let a writer that appends through a running offset be read
back piece by piece. Nothing here depends on a particular record format.
-/
namespace KafkaK3.ByteBuffer

abbrev Bytes := List UInt8

/-- The `k` low bytes of `n`, lowest first. -/
def wordBytes : ℕ → ℕ → Bytes
  | 0, _ => []
  | k + 1, n => UInt8.ofNat n :: wordBytes k (n / 256)

/-- The number which a little-endian word denotes. -/
def wordValue : Bytes → ℕ
  | [] => 0
  | b :: bs => b.toNat + 256 * wordValue bs

@[simp] theorem wordBytes_length (k n : ℕ) : (wordBytes k n).length = k := by
  induction k generalizing n with
  | zero => rfl
  | succ k ih => simp [wordBytes, ih]

theorem wordValue_wordBytes (k n : ℕ) : wordValue (wordBytes k n) = n % 256 ^ k := by
  induction k generalizing n with
  | zero => simp [wordBytes, wordValue, Nat.mod_one]
  | succ k ih =>
      have hlow : (UInt8.ofNat n).toNat = n % 256 := by simp
      simp only [wordBytes, wordValue, ih, hlow]
      rw [Nat.pow_succ, Nat.mul_comm (256 ^ k) 256, Nat.mod_mul]

/-- The signed 64-bit word as it lies in memory. -/
def int64Bytes (x : Int64) : Bytes := wordBytes 8 x.toUInt64.toNat

def int64Value (bs : Bytes) : Int64 := (UInt64.ofNat (wordValue bs)).toInt64

@[simp] theorem int64Bytes_length (x : Int64) : (int64Bytes x).length = 8 :=
  wordBytes_length 8 _

@[simp] theorem int64Value_bytes (x : Int64) : int64Value (int64Bytes x) = x := by
  have hx : x.toUInt64.toNat % 256 ^ 8 = x.toUInt64.toNat :=
    Nat.mod_eq_of_lt x.toUInt64.toNat_lt
  simp only [int64Value, int64Bytes, wordValue_wordBytes, hx, UInt64.ofNat_toNat]
  rfl

/-- Copy `data` over the bytes from `offset` on; the region keeps its size as
long as the copy stays inside it. -/
def write (buffer : Bytes) (offset : ℕ) (data : Bytes) : Bytes :=
  buffer.take offset ++ data ++ buffer.drop (offset + data.length)

theorem write_length {buffer data : Bytes} {offset : ℕ}
    (h : offset + data.length ≤ buffer.length) :
    (write buffer offset data).length = buffer.length := by
  simp only [write, List.length_append, List.length_take, List.length_drop]
  omega

/-- A sequential writer's step: the copy lands right behind what is written. -/
theorem write_behind (front tail data : Bytes) :
    write (front ++ tail) front.length data = front ++ data ++ tail.drop data.length := by
  simp [write]

/-- A copy behind the front part leaves that as it is. -/
theorem write_skip {front tail data : Bytes} {offset : ℕ} (h : front.length ≤ offset) :
    write (front ++ tail) offset data = front ++ write tail (offset - front.length) data := by
  have hdrop : front.length ≤ offset + data.length := by omega
  simp only [write, List.take_append, List.drop_append, List.take_of_length_le h,
    List.drop_of_length_le hdrop, List.nil_append, List.append_assoc, List.append_cancel_left_eq]
  rw [Nat.sub_add_comm h]

/-- A copy inside the front part leaves the tail as it is. -/
theorem write_within {front data : Bytes} {offset : ℕ} (tail : Bytes)
    (h : offset + data.length ≤ front.length) :
    write (front ++ tail) offset data = write front offset data ++ tail := by
  have hoffset : offset ≤ front.length := by omega
  simp only [write, List.take_append_of_le_length hoffset, List.drop_append_of_le_length h,
    List.append_assoc]

theorem write_over {old data : Bytes} (h : data.length = old.length) : write old 0 data = data := by
  simp [write, h]

/-- Copies made one after another, each with its offset. -/
def writes (buffer : Bytes) (copies : List (ℕ × Bytes)) : Bytes :=
  copies.foldl (fun buffer copy => write buffer copy.1 copy.2) buffer

/-- A copy stays inside the `size` bytes from `offset` on. -/
def Inside (offset size : ℕ) (copy : ℕ × Bytes) : Prop :=
  offset ≤ copy.1 ∧ copy.1 + copy.2.length ≤ offset + size

@[simp] theorem writes_nil (buffer : Bytes) : writes buffer [] = buffer := rfl

@[simp] theorem writes_cons (buffer : Bytes) (copy : ℕ × Bytes) (copies : List (ℕ × Bytes)) :
    writes buffer (copy :: copies) = writes (write buffer copy.1 copy.2) copies := rfl

@[simp] theorem writes_append (buffer : Bytes) (copies others : List (ℕ × Bytes)) :
    writes buffer (copies ++ others) = writes (writes buffer copies) others :=
  List.foldl_append

/-- Copies into one part of a region do not touch what stands around it. -/
theorem writes_part (front tail : Bytes) {part : Bytes} {copies : List (ℕ × Bytes)}
    (h : ∀ copy ∈ copies, Inside 0 part.length copy) :
    writes (front ++ (part ++ tail)) (copies.map fun copy => (front.length + copy.1, copy.2)) =
      front ++ (writes part copies ++ tail) := by
  induction copies generalizing part with
  | nil => rfl
  | cons copy copies ih =>
      have hcopy := (h copy List.mem_cons_self).2
      rw [Nat.zero_add] at hcopy
      have hsize := write_length hcopy
      rw [List.map_cons, writes_cons, writes_cons, write_skip (Nat.le_add_right ..),
        Nat.add_sub_cancel_left, write_within tail hcopy]
      apply ih
      intro other hother
      rw [hsize]
      exact h other (List.mem_cons_of_mem _ hother)

/-- The `size` bytes from `offset` on. -/
def window (buffer : Bytes) (offset size : ℕ) : Bytes := (buffer.drop offset).take size

@[simp] theorem window_behind (front data tail : Bytes) :
    window (front ++ (data ++ tail)) front.length data.length = data := by
  simp [window]

theorem window_length {buffer : Bytes} {offset size : ℕ}
    (h : offset + size ≤ buffer.length) : (window buffer offset size).length = size := by
  simp only [window, List.length_take, List.length_drop]
  omega

/-- A read inside the front part does not see what was appended to it. -/
theorem window_append {buffer : Bytes} {offset size : ℕ} (tail : Bytes)
    (h : offset + size ≤ buffer.length) :
    window (buffer ++ tail) offset size = window buffer offset size := by
  have hdrop : offset ≤ buffer.length := by omega
  have htake : size ≤ (buffer.drop offset).length := by
    simp only [List.length_drop]
    omega
  simp only [window, List.drop_append_of_le_length hdrop, List.take_append_of_le_length htake]

/-- A window inside a window. -/
theorem window_window {buffer : Bytes} {p n k size : ℕ} (h : k + size ≤ n) :
    window (window buffer p n) k size = window buffer (p + k) size := by
  simp only [window, List.drop_take, List.drop_drop, List.take_take]
  rw [Nat.min_eq_left (by omega)]

/-- A window equals the data exactly when the data starts there. -/
theorem window_eq_iff {buffer data : Bytes} {offset : ℕ} :
    window buffer offset data.length = data ↔ data <+: buffer.drop offset := by
  rw [List.prefix_iff_eq_take, eq_comm]
  rfl

end KafkaK3.ByteBuffer
