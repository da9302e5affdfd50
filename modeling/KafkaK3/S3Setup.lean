import KafkaK3.Fallible
import KafkaK3.KafkaConfig
import KafkaK3.S3Client

/-!
# The settings of S3

A setting comes from the environment, else from the configuration, else it is the
constructor's. A member of the configuration which is no text is read through a null
pointer. The KMS key is read like the others and then thrown away, so the client
which is made never encrypts. Log texts are left out.
-/
namespace KafkaK3.S3Setup
open DecimalText KafkaConfig Fallible

/-- What a client was made with: its region, the keys given to it, if any, and the
KMS key with which it encrypts, if it does. -/
structure Client where
  region : Text
  credentials : Option (Text × Text)
  materials : Option Text
  deriving DecidableEq, Repr

structure S3 where
  sp3client : Option Client := none
  access_key : Text := []
  secret_key : Text := []
  bucket : Text := "k3dump".toList
  region : Text := "eu-west-1".toList
  kms_arn : Text := []
  encrypted : Bool := false
  deriving DecidableEq, Repr

/-- As PUT, GET and LIST see it. -/
def S3.client (s : S3) : S3Client.S3 := ⟨s.sp3client.isSome, s.bucket⟩

def credentials (s : S3) (in_access_key : Text) : Option (Text × Text) :=
  if 0 < in_access_key.length then some (s.access_key, s.secret_key) else none

def createS3Client (s : S3) (in_access_key : Text) : S3 :=
  { s with
    sp3client := some ⟨s.region, credentials s in_access_key, none⟩
    encrypted := false }

def createS3ClientEncrypted (s : S3) (in_access_key : Text) : S3 :=
  { s with
    sp3client := some ⟨s.region, credentials s in_access_key, some s.kms_arn⟩
    encrypted := true }

/-- One member of the configuration, if it is there. -/
def assignMember (pjson : Json) (key old : Text) : Except Thrown Text :=
  match pjson.object_get key with
  | none => .ok old
  | some p =>
      match p.string_value with
      | some s => .ok s
      | none => .error .undefined

def fromFile (pjson : Json) (s : S3) : Except Thrown S3 := do
  let region ← assignMember pjson "region".toList s.region
  let bucket ← assignMember pjson "bucket".toList s.bucket
  let kms_arn ← assignMember pjson "kms_arn".toList s.kms_arn
  let access_key ← assignMember pjson "access_key".toList s.access_key
  let secret_key ← assignMember pjson "secret_key".toList s.secret_key
  pure { s with
    region := region
    bucket := bucket
    kms_arn := kms_arn
    access_key := access_key
    secret_key := secret_key }

def fromEnv (env : Environment) (s : S3) : S3 :=
  { s with
    region := (env.getenv "AWS_REGION".toList).getD s.region
    bucket := (env.getenv "AWS_BUCKET".toList).getD s.bucket
    kms_arn := (env.getenv "AWS_KMS_ARN".toList).getD s.kms_arn
    access_key := (env.getenv "AWS_ACCESS_KEY".toList).getD s.access_key
    secret_key := (env.getenv "AWS_SECRET_KEY".toList).getD s.secret_key }

/-- Only an object is read. -/
def readFile (pjson : Option Json) (s : S3) : Except Thrown S3 :=
  match pjson with
  | some (.object members) => fromFile (.object members) s
  | _ => .ok s

/-- `S3::setup`. -/
def S3.setup (env : Environment) (pjson : Option Json) (s : S3) : Except Thrown S3 := do
  let s ← readFile pjson s
  let s := fromEnv env s
  let s := { s with kms_arn := [] }
  pure (if s.kms_arn.length = 0 then createS3Client s s.access_key
    else createS3ClientEncrypted s s.access_key)

/-- The five members which are read. -/
def memberKeys : List Text :=
  ["region".toList, "bucket".toList, "kms_arn".toList, "access_key".toList, "secret_key".toList]

/-- What the configuration says about a setting, unless it says something unreadable. -/
def member (pjson : Option Json) (key : Text) : Option Text :=
  (pjson.bind fun p => p.object_get key).bind Json.string_value

/-- Each of the members is missing or a text. -/
def Texts (pjson : Option Json) : Prop :=
  ∀ key ∈ memberKeys, ∀ p, (pjson.bind fun q => q.object_get key) = some p →
    p.string_value.isSome = true

/-- The settings with what the configuration says about them. -/
def withMembers (pjson : Option Json) (s : S3) : S3 :=
  { s with
    region := (member pjson "region".toList).getD s.region
    bucket := (member pjson "bucket".toList).getD s.bucket
    kms_arn := (member pjson "kms_arn".toList).getD s.kms_arn
    access_key := (member pjson "access_key".toList).getD s.access_key
    secret_key := (member pjson "secret_key".toList).getD s.secret_key }

/-- The environment over the configuration over the default. -/
def layered (env : Environment) (pjson : Option Json) (name key default : Text) : Text :=
  ((env.getenv name).or (member pjson key)).getD default

/-- What the setup comes to. -/
def configured (env : Environment) (pjson : Option Json) (s : S3) : S3 :=
  let region := layered env pjson "AWS_REGION".toList "region".toList s.region
  let access_key := layered env pjson "AWS_ACCESS_KEY".toList "access_key".toList s.access_key
  let secret_key := layered env pjson "AWS_SECRET_KEY".toList "secret_key".toList s.secret_key
  { region := region
    bucket := layered env pjson "AWS_BUCKET".toList "bucket".toList s.bucket
    kms_arn := []
    access_key := access_key
    secret_key := secret_key
    encrypted := false
    sp3client := some ⟨region,
      if access_key = [] then none else some (access_key, secret_key), none⟩ }

/-- A member which is no text ends the setup. -/
theorem assignMember_crashes (pjson : Json) (key old : Text) :
    CrashesUnless Thrown.undefined
      (∀ p, pjson.object_get key = some p → p.string_value.isSome = true)
      (Gives (· = (member (some pjson) key).getD old)) (assignMember pjson key old) := by
  unfold assignMember member
  cases hget : pjson.object_get key with
  | none => exact .of_outcome (fun _ h => by cases h) ⟨old, rfl, by simp [hget]⟩
  | some p =>
      cases hs : p.string_value with
      | none =>
          refine ⟨fun h => ?_, fun _ => by simp [hs]⟩
          have hsome := h p rfl
          rw [hs] at hsome
          cases hsome
      | some s =>
          refine .of_outcome (fun q hq => ?_) ⟨s, by simp [hs], by simp [hget, hs]⟩
          rw [← Option.some.inj hq, hs]
          rfl

theorem fromFile_crashes (pjson : Json) (s : S3) :
    CrashesUnless Thrown.undefined (Texts (some pjson))
      (Gives (· = withMembers (some pjson) s)) (fromFile pjson s) := by
  have hread := assignMember_crashes pjson
  have hfit : (∀ key ∈ memberKeys, ∀ p, pjson.object_get key = some p →
      p.string_value.isSome = true) ↔ Texts (some pjson) := Iff.rfl
  refine CrashesUnless.congr ?_ hfit
  simp only [memberKeys, List.forall_mem_cons]
  refine (hread _ s.region).bind fun region hregion => ?_
  refine (hread _ s.bucket).bind fun bucket hbucket => ?_
  refine (hread _ s.kms_arn).bind fun kms_arn hkms => ?_
  refine (hread _ s.access_key).bind fun access_key haccess => ?_
  refine ((hread _ s.secret_key).bind fun secret_key hsecret => ?_)
  subst hregion hbucket hkms haccess hsecret
  exact .of_outcome (fun _ h => absurd h List.not_mem_nil) ⟨_, rfl, rfl⟩

/-- The environment goes over whatever the file has said. -/
theorem getD_layered (env : Environment) (pjson : Option Json) (name key default : Text) :
    (env.getenv name).getD ((member pjson key).getD default) =
      layered env pjson name key default := by
  rw [layered]
  cases env.getenv name <;> rfl

theorem readFile_crashes (pjson : Option Json) (s : S3) :
    CrashesUnless Thrown.undefined (Texts pjson)
      (Gives (· = withMembers pjson s)) (readFile pjson s) := by
  -- what is no object says nothing
  have hsilent (h : ∀ key, (pjson.bind fun q => q.object_get key) = none)
      (hread : readFile pjson s = .ok s) : CrashesUnless Thrown.undefined (Texts pjson)
      (Gives (· = withMembers pjson s)) (readFile pjson s) := by
    have hmember (key : Text) : member pjson key = none := by
      rw [member, h]
      rfl
    refine .of_outcome (fun key _ p hp => ?_) ⟨s, hread, ?_⟩
    · rw [h] at hp
      cases hp
    · simp only [withMembers, hmember, Option.getD_none]
  cases pjson with
  | none => exact hsilent (fun _ => rfl) rfl
  | some p =>
      cases p with
      | object members => exact fromFile_crashes (.object members) s
      | _ => exact hsilent (fun _ => rfl) rfl

theorem setup_crashes (env : Environment) (pjson : Option Json) (s : S3) :
    CrashesUnless Thrown.undefined (Texts pjson) (· = .ok (configured env pjson s))
      (S3.setup env pjson s) := by
  refine (readFile_crashes pjson s).bind_outcome fun t ht => congrArg Except.ok ?_
  subst ht
  simp only [fromEnv, withMembers, getD_layered, createS3Client, credentials, configured,
    List.length_nil, if_true, List.length_pos_iff, ne_eq, ite_not]

/-- A setup either crashes on a member which is no text, or it layers every setting and
makes a client which does not encrypt, whatever KMS key it was given. -/
theorem s3_setup (env : Environment) (pjson : Option Json) (s : S3) :
    (Texts pjson → S3.setup env pjson s = .ok (configured env pjson s)) ∧
    (¬ Texts pjson → S3.setup env pjson s = .error .undefined) :=
  ⟨(setup_crashes env pjson s).of_fit, (setup_crashes env pjson s).of_unfit⟩

end KafkaK3.S3Setup
