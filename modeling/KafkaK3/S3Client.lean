import KafkaK3.ByteBuffer
import KafkaK3.DecimalText
import Std.Data.TreeMap.Lemmas

/-!
# The S3 wrapper

A PUT sends one request and reports its outcome. A download to a local file
replaces the file when the object has arrived and the file can be opened, and
leaves the disk alone in every other case. It reports success when the object has
arrived, whether it was written to the file or not. A list call asks for keys with
a common start behind a marker. Without a client nothing is sent.
-/
namespace KafkaK3.S3Client
open ByteBuffer DecimalText

abbrev Metadata := List (Text × Text)

structure S3 where
  sp3client : Bool
  bucket : Text
  deriving DecidableEq, Repr

structure PutObjectRequest where
  key : Text
  bucket : Text
  body : Bytes
  contentLength : ℕ
  contentType : Text
  metadata : Metadata
  deriving DecidableEq, Repr

/-- `S3::put`; `success` is the outcome of the request if one is made. -/
def S3.put (s3 : S3) (success : Bool) (payload : Bytes) (len : ℕ) (s3key : Text)
    (metadata : Metadata) : Option PutObjectRequest × Bool :=
  if s3.sp3client then
    (some
      { key := s3key
        bucket := s3.bucket
        body := payload.take len
        contentLength := len
        contentType := "binary/octet-stream".toList
        metadata := metadata }, success)
  else (none, false)

/-- Local files by their path. -/
abbrev Disk := Std.TreeMap Text Bytes

/-- What comes of a download: the object if the request succeeds, and whether the
local file can be opened for writing. -/
structure GetAnswer where
  object : Option Bytes
  opened : Bool
  deriving DecidableEq, Repr

/-- `S3::get` into a file. -/
def S3.get (s3 : S3) (answer : GetAnswer) (infilename : Text) (disk : Disk) : Disk × Bool :=
  if s3.sp3client then
    match answer.object with
    | none => (disk, false)
    -- the outcome of the request stands where the file cannot be opened
    | some body => if answer.opened then (disk.insert infilename body, true) else (disk, true)
  else (disk, false)

structure ListObjectsRequest where
  bucket : Text
  marker : Option Text
  maxKeys : Option Int32
  keyPrefix : Option Text
  deriving DecidableEq, Repr

/-- The answers of the service by the number of the request; a failed one has none. -/
abbrev ListObjects := ℕ → ListObjectsRequest → Option (List Text)

/-- `S3::list`, the `n`-th call. -/
def S3.list (s3 : S3) (listObjects : ListObjects) (n : ℕ) (inPrefix : Text) (outvlist : List Text)
    (inmaxkeys : Int32) (inpfrom : Option Text) : List Text × Bool :=
  if s3.sp3client then
    let request : ListObjectsRequest :=
      { bucket := s3.bucket
        marker := inpfrom
        maxKeys := if 0 < inmaxkeys.toInt then some inmaxkeys else none
        keyPrefix := if 0 < inPrefix.length then some inPrefix else none }
    match listObjects n request with
    | none => (outvlist, false)
    | some contents => (outvlist ++ contents, true)
  else (outvlist, false)

end KafkaK3.S3Client
