import KafkaK3.MessageLayout
import KafkaK3.S3Client

/-!
# Discovery of the stored messages

The replay downloads every object to a local file, reads the file into a buffer
of twice its size and walks through the records. Each record with a timestamp
becomes an item of an ordered map, under the text of its timestamp and offset.
Pointers into the buffer are integers, and a read outside the buffer or a
negative array length stops the program with a fault. What the program prints
is collected in order.
-/
namespace KafkaK3.Discovery
open ByteBuffer DecimalText S3Client MessageLayout

inductive Fault where
  | outOfBounds
  | badArrayLength
  deriving DecidableEq, Repr

/-- The key of the map. -/
abbrev DiscoveryTimestamp := Text

/-- Its constructor clears an item: no key and no payload until they are set. -/
structure DiscoveryItem where
  _timestamp : Int64
  _s3key : Text
  _header : MessageHeader
  _payload : Option Bytes
  deriving DecidableEq, Repr

abbrev DiscoveryMap := Std.TreeMap DiscoveryTimestamp DiscoveryItem

inductive Report where
  | round (nummsgs : Int32) (inkey : Text)
  | zeroTimestamp (inkey : Text)
  | incorrectSize (target : Text) (size : ℕ)
  | failedToOpen (target : Text)
  deriving DecidableEq, Repr

structure Replay where
  output : DiscoveryMap
  reports : List Report
  disk : Disk

namespace Replay

def report (r : Replay) (line : Report) : Replay := { r with reports := r.reports ++ [line] }

def found (r : Replay) (key : DiscoveryTimestamp) (item : DiscoveryItem) : Replay :=
  { r with output := r.output.insert key item }

end Replay

def bytesAt (buffer : Bytes) (p : ℤ) (size : ℕ) : Except Fault Bytes :=
  if 0 ≤ p ∧ p + size ≤ buffer.length then .ok (window buffer p.toNat size)
  else .error .outOfBounds

def int64At (buffer : Bytes) (p : ℤ) : Except Fault Int64 := do
  let word ← bytesAt buffer p 8
  pure (int64Value word)

/-- The whole header at `p`. -/
def headerAt (buffer : Bytes) (p : ℤ) : Except Fault MessageHeader :=
  if h : 0 ≤ p ∧ p + HeaderSize ≤ buffer.length then
    .ok (MessageHeader.ofBytes (window buffer p.toNat HeaderSize) (window_length (by omega)))
  else .error .outOfBounds

/-- `oss << timestamp << "." << offset`. -/
def discoveryTimestamp (timestamp offset : Int64) : DiscoveryTimestamp :=
  intText timestamp.toInt ++ '.' :: intText offset.toInt

/-- `DiscoveryItem::setpayload` with the bytes from `p` on. -/
def setpayload (buffer : Bytes) (p : ℤ) (l : Int32) : Except Fault Bytes :=
  if l.toInt < 0 then .error .badArrayLength else bytesAt buffer p l.toInt.toNat

/-- One round of the loop in `batch_discovery_bykey`, with the next position. The
payload is taken from behind the first header of the buffer in every round, and
its length is cut to an `int`. -/
def discoverMessage (inkey : Text) (buffer : Bytes) (nummsgs : Int32) (p : ℤ) (r : Replay) :
    Except Fault (ℤ × Replay) := do
  let r := r.report (.round nummsgs inkey)
  let timestamp ← int64At buffer (p + 32)
  let payload_len ← int64At buffer (p + 8)
  let next := p + (HeaderSize + payload_len.toInt)
  if timestamp ≠ 0 then
    let header ← headerAt buffer p
    let payload ←
      if payload_len ≠ 0 then
        let copy ← setpayload buffer HeaderSize payload_len.toInt32
        pure (some copy)
      else pure none
    let key := discoveryTimestamp header.details.timestamp header.details.offset
    pure (next, r.found key ⟨timestamp, inkey, header, payload⟩)
  else pure (next, r.report (.zeroTimestamp inkey))

/-- The loop with `nummsgs` rounds to go. -/
def discoverMessages (inkey : Text) (buffer : Bytes) : ℕ → ℤ → Replay → Except Fault Replay
  | 0, _, r => .ok r
  | nummsgs + 1, p, r => do
      let (p, r) ← discoverMessage inkey buffer (Int32.ofNat (nummsgs + 1)) p r
      discoverMessages inkey buffer nummsgs p r

/-- An opened file. The counter starts at the first record's index plus one as an
`int` and is counted down to zero, from a negative start through the overflow. -/
def discoverFile (inkey local_target : Text) (file : Bytes) (r : Replay) : Except Fault Replay := do
  let size := file.length * 2
  let buffer := file ++ List.replicate file.length 0
  if size < HeaderSize then pure (r.report (.incorrectSize local_target size))
  else
    let index ← int64At buffer 40
    let nummsgs := (index + 1).toInt32
    discoverMessages inkey buffer nummsgs.toUInt32.toNat 0 r

def localTarget (inkey : Text) : Text := ['/', 't', 'm', 'p', '/'] ++ inkey

/-- `batch_discovery_bykey`; whether the download succeeded is not looked at. -/
def batch_discovery_bykey (inkey : Text) (ins3client : S3) (answer : GetAnswer) (indelete : Bool)
    (r : Replay) : Except Fault Replay := do
  let local_target := localTarget inkey
  let r := { r with disk := (ins3client.get answer local_target r.disk).1 }
  match r.disk[local_target]? with
  | some file =>
      let r ← discoverFile inkey local_target file r
      pure (if indelete then { r with disk := r.disk.erase local_target } else r)
  | none => pure (r.report (.failedToOpen local_target))

/-- `batch_discovery` over the keys, each with what comes of its download. -/
def batch_discovery (ins3client : S3) (indelete : Bool) :
    List (Text × GetAnswer) → Replay → Except Fault Replay
  | [], r => .ok r
  | (key, answer) :: inkeys, r => do
      let r ← batch_discovery_bykey key ins3client answer indelete r
      batch_discovery ins3client indelete inkeys r

/-- The entries in the order in which the loop of `main` processes them. -/
def processed (vmap : DiscoveryMap) : List (DiscoveryTimestamp × DiscoveryItem) := vmap.toList

end KafkaK3.Discovery
