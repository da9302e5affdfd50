import KafkaK3.S3Client
import KafkaK3.StashImage
import KafkaK3.StashKey

/-!
# The backup consumer

The consumer keeps one buffer of message wrappers and one size counter for each
topic, both in ordered maps which never lose a key. Its calls to the outside
are recorded in a trace, oldest first: a wrapper taking over a message, a call
of `stash_by_topic` with a bundle in it, a call of `S3::put` with its arguments, from
which its request and its result follow, a commit made by a dying wrapper, and the
closing of the consumer.

The environment answers by number: the n-th PUT reads the clock for the n-th
time and succeeds or fails as the world says. A wrapper carries the number of
the `consume` call which allocated its message, which is its identity.
-/
namespace KafkaK3.BackupConsumer
open ByteBuffer DecimalText S3Client MessageLayout StashImage StashKey

/-- The consumer's settings, with the defaults of its constructor. -/
structure Consume where
  ps3 : Option S3
  message_bundle_limit : Int32 := 10
  message_bundle_size : Int32 := 1024 * 1024 * 10

/-- The answers of the environment. -/
structure World where
  putObject : ℕ → Bool
  now : ℕ → Int64
  localtime : Int64 → Tm

/-- A stopped clock, and an S3 which gives every PUT the same answer. -/
def World.constant (success : Bool) : World := ⟨fun _ => success, fun _ => 0, fun _ => Tm.epoch⟩

structure MessageWrapper where
  serial : ℕ
  pmessage : Message
  deriving DecidableEq, Repr

/-- The messages in a vector of wrappers. -/
abbrev contents (messages : List MessageWrapper) : List Message :=
  messages.map MessageWrapper.pmessage

theorem messagesSize_concat (messages : List MessageWrapper) (wrapper : MessageWrapper) :
    messagesSize (contents (messages ++ [wrapper])) =
      messagesSize (contents messages) + wrapper.pmessage.len := by
  simp

/-- A call of `S3::put` by the stash of one bundle: the wrapper on which it is made, what
the service would answer, and the arguments. -/
structure PutCall where
  topic : Text
  bundle : List MessageWrapper
  s3 : S3
  success : Bool
  p : Bytes
  total_size : ℕ
  s3key : Text
  metadata : Metadata
  deriving DecidableEq, Repr

namespace PutCall

def outcome (call : PutCall) : Option PutObjectRequest × Bool :=
  call.s3.put call.success call.p call.total_size call.s3key call.metadata

/-- The request which goes out, if one does. -/
def request (call : PutCall) : Option PutObjectRequest := call.outcome.1

/-- What `put` returns. -/
def rval (call : PutCall) : Bool := call.outcome.2

/-- The bytes which `put` is given. -/
def payload (call : PutCall) : Bytes := call.p.take call.total_size

theorem rval_eq (call : PutCall) : call.rval = (call.s3.sp3client && call.success) := by
  cases h : call.s3.sp3client <;> simp [rval, outcome, S3.put, h]

/-- The request has the arguments of the call. -/
theorem of_request {call : PutCall} {r : PutObjectRequest} (h : call.request = some r) :
    r.key = call.s3key ∧ r.body = call.payload ∧ r.contentLength = call.total_size ∧
      r.metadata = call.metadata := by
  rw [request, outcome, S3.put] at h
  split at h
  · obtain rfl := Option.some.inj h
    exact ⟨rfl, rfl, rfl, rfl⟩
  · cases h

/-- With a client there is one. -/
theorem request_isSome {call : PutCall} : call.request.isSome ↔ call.s3.sp3client := by
  rw [request, outcome, S3.put]
  split
  next h => simp [h]
  next h => simp [h]

theorem request_of_rval {call : PutCall} (h : call.rval = true) :
    ∃ r, call.request = some r ∧ r.key = call.s3key ∧ r.body = call.payload := by
  rw [rval_eq, Bool.and_eq_true] at h
  obtain ⟨r, hr⟩ := Option.isSome_iff_exists.mp (request_isSome.mpr h.1)
  exact ⟨r, hr, (of_request hr).1, (of_request hr).2.1⟩

end PutCall

inductive Event where
  | received (w : MessageWrapper)
  | stash (topic : Text) (bundle : List MessageWrapper)
  | put (call : PutCall)
  | noImage (total_size : ℕ)
  | commitAsync (w : MessageWrapper)
  | close
  deriving DecidableEq, Repr

inductive ErrorCode where
  | timedOut
  | partitionEof
  | other (code : ℤ)
  deriving DecidableEq, Repr

/-- What `_pconsumer->consume` returns. -/
inductive ConsumeResult where
  | null
  | message (pmsg : Message)
  | error (err : ErrorCode)
  deriving DecidableEq, Repr

/-- The messages among the answers of `consume`. -/
def delivered (results : List ConsumeResult) : List Message :=
  results.filterMap fun | .message m => some m | _ => none

abbrev MessageMap := Std.TreeMap Text (List MessageWrapper)
abbrev MessageMapSize := Std.TreeMap Text ℤ

structure State where
  messages : MessageMap
  messageSizes : MessageMapSize
  trace : List Event

def State.initial : State := ⟨∅, ∅, []⟩

section Observers

def received (t : List Event) : List MessageWrapper :=
  t.filterMap fun | .received w => some w | _ => none

def committed (t : List Event) : List MessageWrapper :=
  t.filterMap fun | .commitAsync w => some w | _ => none

def stashes (t : List Event) : List (Text × List MessageWrapper) :=
  t.filterMap fun | .stash topic bundle => some (topic, bundle) | _ => none

def putCalls (t : List Event) : List PutCall :=
  t.filterMap fun | .put call => some call | _ => none

variable (t u : List Event)

@[simp] theorem received_append : received (t ++ u) = received t ++ received u :=
  List.filterMap_append

@[simp] theorem committed_append : committed (t ++ u) = committed t ++ committed u :=
  List.filterMap_append

@[simp] theorem stashes_append : stashes (t ++ u) = stashes t ++ stashes u :=
  List.filterMap_append

@[simp] theorem putCalls_append : putCalls (t ++ u) = putCalls t ++ putCalls u :=
  List.filterMap_append

variable (messages : List MessageWrapper)

@[simp] theorem received_commits : received (messages.map .commitAsync) = [] := by
  induction messages with
  | nil => rfl
  | cons w ws ih => exact ih

@[simp] theorem committed_commits : committed (messages.map .commitAsync) = messages := by
  induction messages with
  | nil => rfl
  | cons w ws ih => exact congrArg (w :: ·) ih

@[simp] theorem stashes_commits : stashes (messages.map .commitAsync) = [] := by
  induction messages with
  | nil => rfl
  | cons w ws ih => exact ih

@[simp] theorem putCalls_commits : putCalls (messages.map .commitAsync) = [] := by
  induction messages with
  | nil => rfl
  | cons w ws ih => exact ih

end Observers

/-- The PUT of one bundle, the `n`-th of the run. -/
def putBundle (w : World) (s3 : S3) (n : ℕ) (topic : Text) (messages : List MessageWrapper) :
    PutCall :=
  let total_size := totalSize (contents messages)
  let built := buildImage (contents messages)
  let buffer := strftime (w.localtime (built.last_ts / 1000))
  let seed := (w.now n).toUInt64.toUInt32
  let key := formatKey topic buffer seed (minstd_rand0 seed)
  let metadata := [("x-numofmsgs".toList, natText messages.length)]
  { topic := topic
    bundle := messages
    s3 := s3
    success := w.putObject n
    p := built.p
    total_size := total_size
    s3key := key
    metadata := metadata }

/-- What went out is the image of the bundle, under a key of its topic. -/
def PutCall.Sent (call : PutCall) : Prop :=
  ∃ r, call.request = some r ∧ UnderTopic call.topic r.key ∧ r.body = image (contents call.bundle)

/-- The request went out under a key of the topic and was taken. -/
def PutCall.takenUnder (topic : Text) (call : PutCall) : Bool :=
  call.rval && call.request.any fun r => UnderTopic topic r.key

section PutBundle
variable {w : World} {s3 : S3} {n : ℕ} {topic : Text} {messages : List MessageWrapper}

theorem payload_putBundle :
    (putBundle w s3 n topic messages).payload = image (contents messages) := rfl

theorem underTopic_putBundle {u : Text} :
    UnderTopic u (putBundle w s3 n topic messages).s3key ↔ topic = u := underTopic_formatKey_iff

theorem sent_putBundle (h : (putBundle w s3 n topic messages).rval = true) :
    (putBundle w s3 n topic messages).Sent := by
  obtain ⟨r, hr, hkey, hbody⟩ := PutCall.request_of_rval h
  exact ⟨r, hr, by rw [hkey]; exact underTopic_putBundle.mpr rfl, hbody⟩

theorem takenUnder_putBundle {u : Text} (h : (putBundle w s3 n topic messages).rval = true) :
    (putBundle w s3 n topic messages).takenUnder u = decide (topic = u) := by
  obtain ⟨r, hr, hkey, -⟩ := PutCall.request_of_rval h
  rw [PutCall.takenUnder, h, hr, Bool.true_and, Option.any_some, hkey]
  exact decide_eq_decide.mpr underTopic_putBundle

end PutBundle

/-- The part of `stash_by_topic` which tries to store the bundle. -/
def storeBundle (c : Consume) (w : World) (n : ℕ) (topic : Text)
    (messages : List MessageWrapper) : List Event :=
  if 0 < messagesSize (contents messages) then
    match c.ps3 with
    | some s3 => [.put (putBundle w s3 n topic messages)]
    | none => [.noImage (totalSize (contents messages))]
  else []

/-- `stash_by_topic`. The erase loop releases the wrappers front to back, and
each of them commits its message while it dies, whatever became of the PUT. -/
def stash_by_topic (c : Consume) (w : World) (n : ℕ) (topic : Text)
    (messages : List MessageWrapper) : List Event :=
  if messages.length < 1 then []
  else .stash topic messages :: (storeBundle c w n topic messages ++
    messages.map .commitAsync)

section StashCalls
variable (c : Consume) (w : World) (n : ℕ) (topic : Text) (messages : List MessageWrapper)

@[simp] theorem stash_by_topic_nil : stash_by_topic c w n topic [] = [] := rfl

theorem stash_by_topic_of_ne {messages : List MessageWrapper} (h : messages ≠ []) :
    stash_by_topic c w n topic messages =
      [.stash topic messages] ++ (storeBundle c w n topic messages ++
        messages.map .commitAsync) := by
  have hlen : ¬ messages.length < 1 := by
    simpa [Nat.lt_one_iff] using h
  simp only [stash_by_topic, hlen, if_false]
  rfl

/-- What the attempt to store can leave in the trace: the PUT of exactly this
bundle, the complaint about the missing client, or nothing for a bundle which
has no payload at all. -/
theorem storeBundle_cases :
    (∃ s3, c.ps3 = some s3 ∧ 0 < messagesSize (contents messages) ∧
      storeBundle c w n topic messages = [.put (putBundle w s3 n topic messages)]) ∨
    (c.ps3 = none ∧ 0 < messagesSize (contents messages) ∧
      storeBundle c w n topic messages = [.noImage (totalSize (contents messages))]) ∨
    (messagesSize (contents messages) = 0 ∧ storeBundle c w n topic messages = []) := by
  unfold storeBundle
  by_cases hsize : 0 < messagesSize (contents messages)
  · cases hs3 : c.ps3 with
    | some s3 => exact .inl ⟨s3, rfl, hsize, by simp [hsize]⟩
    | none => exact .inr (.inl ⟨rfl, hsize, by simp [hsize]⟩)
  · exact .inr (.inr ⟨by omega, by simp [hsize]⟩)

@[simp] theorem received_storeBundle : received (storeBundle c w n topic messages) = [] := by
  rcases storeBundle_cases c w n topic messages with ⟨_, _, _, h⟩ | ⟨_, _, h⟩ | ⟨_, h⟩ <;>
    rw [h] <;> rfl

@[simp] theorem committed_storeBundle : committed (storeBundle c w n topic messages) = [] := by
  rcases storeBundle_cases c w n topic messages with ⟨_, _, _, h⟩ | ⟨_, _, h⟩ | ⟨_, h⟩ <;>
    rw [h] <;> rfl

@[simp] theorem stashes_storeBundle : stashes (storeBundle c w n topic messages) = [] := by
  rcases storeBundle_cases c w n topic messages with ⟨_, _, _, h⟩ | ⟨_, _, h⟩ | ⟨_, h⟩ <;>
    rw [h] <;> rfl

@[simp] theorem received_stash_by_topic : received (stash_by_topic c w n topic messages) = [] := by
  by_cases h : messages = []
  · rw [h]
    rfl
  · rw [stash_by_topic_of_ne c w n topic h]
    simp only [received_append, received_storeBundle, received_commits]
    rfl

@[simp] theorem committed_stash_by_topic :
    committed (stash_by_topic c w n topic messages) = messages := by
  by_cases h : messages = []
  · rw [h]
    rfl
  · rw [stash_by_topic_of_ne c w n topic h]
    simp only [committed_append, committed_storeBundle, committed_commits]
    rfl

theorem stashes_stash_by_topic :
    stashes (stash_by_topic c w n topic messages) =
      if messages = [] then [] else [(topic, messages)] := by
  by_cases h : messages = []
  · rw [h]
    rfl
  · rw [stash_by_topic_of_ne c w n topic h, if_neg h]
    simp only [stashes_append, stashes_storeBundle, stashes_commits]
    rfl

/-- At most one PUT, of exactly this bundle. -/
theorem putCalls_stash_by_topic :
    putCalls (stash_by_topic c w n topic messages) =
      if 0 < messagesSize (contents messages) then
        c.ps3.toList.map fun s3 => putBundle w s3 n topic messages
      else [] := by
  by_cases hne : messages = []
  · rw [hne]
    rfl
  · rw [stash_by_topic_of_ne c w n topic hne, putCalls_append, putCalls_append, putCalls_commits,
      List.append_nil]
    rcases storeBundle_cases c w n topic messages with
      ⟨s3, hs3, hsize, h⟩ | ⟨hs3, hsize, h⟩ | ⟨hsize, h⟩
    · rw [h, if_pos hsize, hs3]
      rfl
    · rw [h, if_pos hsize, hs3]
      rfl
    · rw [h, hsize]
      rfl

end StashCalls

namespace State

/-- `_messages[topic]`, empty where there is no such key. -/
def buffer (s : State) (topic : Text) : List MessageWrapper := s.messages.getD topic []

/-- `_messageSizes[topic]`. -/
def counter (s : State) (topic : Text) : ℤ := s.messageSizes.getD topic 0

/-- `stash_by_topic(topic, _messages[topic])`, which leaves that vector empty. -/
def stash (c : Consume) (w : World) (s : State) (topic : Text) : State :=
  { s with
    messages := s.messages.insert topic []
    trace := s.trace ++ stash_by_topic c w (putCalls s.trace).length topic (s.buffer topic) }

def resetSize (s : State) (topic : Text) : State :=
  { s with messageSizes := s.messageSizes.insert topic 0 }

/-- The message goes behind the others of its topic, in a wrapper which owns it,
and its length is added to the topic's counter. -/
def push (s : State) (pmsg : Message) : State :=
  let topic_name := pmsg.topic_name
  let wrapper : MessageWrapper := ⟨(received s.trace).length, pmsg⟩
  let sizes := if s.messageSizes.contains topic_name then s.messageSizes
    else s.messageSizes.insert topic_name 0
  { messages := s.messages.insert topic_name (s.buffer topic_name ++ [wrapper])
    messageSizes := sizes.insert topic_name (sizes.getD topic_name 0 + pmsg.len)
    trace := s.trace ++ [.received wrapper] }

def stash_all (c : Consume) (w : World) (s : State) : State :=
  if s.messages.size < 1 then s else s.messages.keys.foldl (stash c w) s

/-- The bundle limit as the `size_t` which `messages.size()` is compared with. -/
def bundleLimit (c : Consume) : ℕ := c.message_bundle_limit.toInt64.toUInt64.toNat

def run_once (c : Consume) (w : World) (s : State) : ConsumeResult → State
  | .null => s
  | .message pmsg =>
      let topic_name := pmsg.topic_name
      let s := s.push pmsg
      if bundleLimit c ≤ (s.buffer topic_name).length then
        (s.stash c w topic_name).resetSize topic_name
      else if c.message_bundle_size.toInt ≤ s.counter topic_name then
        (s.stash c w topic_name).resetSize topic_name
      else s
  | .error _ => s.stash_all c w

/-- The state after a sequence of `run_once` calls. -/
def run (c : Consume) (w : World) (results : List ConsumeResult) : State :=
  results.foldl (run_once c w) initial

/-- `~Consume`: the last stash, the closing of the consumer, and then the members
with every wrapper which a buffer still owns. -/
def destroy (c : Consume) (w : World) (s : State) : State :=
  let s := s.stash_all c w
  { s with
    messages := ∅
    messageSizes := ∅
    trace := s.trace ++ .close :: (s.messages.toList.flatMap fun entry =>
      entry.2.map .commitAsync) }

end State

/-- How a run may stop. -/
inductive Ending where
  | running
  | stashAll
  | destroyed
  deriving DecidableEq, Repr

def State.finish (c : Consume) (w : World) (s : State) : Ending → State
  | .running => s
  | .stashAll => s.stash_all c w
  | .destroyed => s.destroy c w

end KafkaK3.BackupConsumer
