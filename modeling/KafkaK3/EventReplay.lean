import KafkaK3.Discovery
import KafkaK3.ReplayProducer

/-!
# The replay of the events

The loop of `main` walks through the map. It prints every event, and hands those
with a payload to the producer, with the key up to the first zero byte and without
a partition. A text without a zero byte, or a payload shorter than the header says,
is read beyond its end and stops the program with a fault.
-/
namespace KafkaK3.EventReplay
open ByteBuffer DecimalText MessageLayout Discovery ReplayProducer

def debug_output : Bool := true

/-- The C string at the start of the bytes. -/
def cstring (bs : Bytes) : Except Fault Bytes :=
  if 0 ∈ bs then .ok (bs.takeWhile (· ≠ 0)) else .error .outOfBounds

inductive EventReport where
  | event (index : Text) (timestamp : Int64) (s3key : Text) (key topic : Bytes)
      (details : MessageHeaderDetails)
  | producing (payload : Bytes)
  | null
  deriving DecidableEq, Repr

structure Producing where
  reports : List EventReport
  calls : List ProduceCall
  deriving DecidableEq, Repr

def Producing.empty : Producing := ⟨[], []⟩

def Producing.report (out : Producing) (line : EventReport) : Producing :=
  { out with reports := out.reports ++ [line] }

/-- The key and the topic of the header as C strings. The key field has the topic
behind it, which a key without an end runs into. -/
def headerTexts (pheader : MessageHeader) : Except Fault (Bytes × Bytes) := do
  let key ← cstring (pheader.key_field ++ pheader.topic_name)
  let topic ← cstring pheader.topic_name
  pure (key, topic)

/-- `process_event`; the `n`-th produce call of the run succeeds or fails as
`produced` says, and what it returns is not looked at. -/
def process_event (p : Produce) (produced : ℕ → Bool) (index : Text) (event_item : DiscoveryItem)
    (out : Producing) : Except Fault Producing := do
  let pheader := event_item._header
  if debug_output then
    let (key, topic) ← headerTexts pheader
    let out := out.report
      (.event index event_item._timestamp event_item._s3key key topic pheader.details)
    match event_item._payload with
    | some block =>
        if 0 < pheader.details.payload_len.toInt then
          let payload ← bytesAt block 0 pheader.details.payload_len.toInt.toNat
          let out := out.report (.producing payload)
          let (call, _) := p.produce (produced out.calls.length) payload key
          pure { out with calls := out.calls ++ call.toList }
        else pure (out.report .null)
    | none => pure (out.report .null)
  else pure out

/-- The loop of `main` over the map. -/
def process_events (p : Produce) (produced : ℕ → Bool) :
    List (DiscoveryTimestamp × DiscoveryItem) → Producing → Except Fault Producing
  | [], out => .ok out
  | (index, item) :: vmap, out => do
      let out ← process_event p produced index item out
      process_events p produced vmap out

/-- The key which the header shows. -/
def keyBytes (pheader : MessageHeader) : Bytes :=
  (pheader.key_field ++ pheader.topic_name).takeWhile (· ≠ 0)

/-- The payload and the key of an event. -/
def handed (item : DiscoveryItem) : Bytes × Bytes := (item._payload.getD [], keyBytes item._header)

def ProduceCall.message (call : ProduceCall) : Bytes × Bytes := (call.payload, call.key)

/-- An event as the discovery makes it of a whole record: the topic has its end, and
the payload is as long as the header says. -/
structure Whole (item : DiscoveryItem) : Prop where
  terminated : 0 ∈ item._header.topic_name
  payload_len : item._header.details.payload_len.toInt = (item._payload.getD []).length

/-- What an event leaves with the library. -/
def sent (p : Produce) (item : DiscoveryItem) : List ProduceCall :=
  if item._payload.getD [] ≠ [] ∧ p.partition_dst = PARTITION_UA then
    [⟨PARTITION_UA, item._payload.getD [], keyBytes item._header⟩]
  else []

section Events
variable {p : Produce} {item : DiscoveryItem}

theorem cstring_of_mem {bs : Bytes} (h : 0 ∈ bs) : cstring bs = .ok (bs.takeWhile (· ≠ 0)) :=
  if_pos h

theorem headerTexts_of_terminated {pheader : MessageHeader} (h : 0 ∈ pheader.topic_name) :
    headerTexts pheader = .ok (keyBytes pheader, pheader.topic_name.takeWhile (· ≠ 0)) := by
  unfold headerTexts
  rw [cstring_of_mem (List.mem_append_right _ h), cstring_of_mem h]
  rfl

theorem process_event_whole (h : Whole item) (produced : ℕ → Bool) (index : Text)
    (out : Producing) :
    ∃ reports, process_event p produced index item out = .ok ⟨reports, out.calls ++ sent p item⟩ := by
  have htexts := headerTexts_of_terminated h.terminated
  have hlen := h.payload_len
  unfold process_event sent
  simp only [debug_output, if_true, htexts, bind, Except.bind, pure, Except.pure]
  cases hpayload : item._payload with
  | none =>
      rw [if_neg (by simp), List.append_nil]
      exact ⟨_, rfl⟩
  | some block =>
      rw [hpayload, Option.getD_some] at hlen
      simp only [Option.getD_some, hlen, Int.toNat_natCast]
      by_cases hempty : block = []
      · rw [hempty, List.length_nil, if_neg (by omega), if_neg (by simp), List.append_nil]
        exact ⟨_, rfl⟩
      · have hpos : (0 : ℤ) < block.length := by
          exact_mod_cast List.length_pos_iff.mpr hempty
        have hread : bytesAt block 0 block.length = .ok block := by
          simp [bytesAt, window]
        simp only [hpos, if_true, hread, produce_default, ne_eq, hempty, not_false_eq_true, true_and]
        by_cases hp : p.partition_dst = PARTITION_UA
        · simp only [hp, if_true]
          exact ⟨_, rfl⟩
        · simp only [hp, if_false]
          exact ⟨_, rfl⟩

theorem process_events_whole {vmap : List (DiscoveryTimestamp × DiscoveryItem)}
    (h : ∀ e ∈ vmap, Whole e.2) (produced : ℕ → Bool) (out : Producing) :
    ∃ reports, process_events p produced vmap out =
      .ok ⟨reports, out.calls ++ vmap.flatMap fun e => sent p e.2⟩ := by
  induction vmap generalizing out with
  | nil => exact ⟨out.reports, by simp [process_events]⟩
  | cons e vmap ih =>
      obtain ⟨reports, hevent⟩ := process_event_whole (p := p) (h e List.mem_cons_self) produced e.1 out
      obtain ⟨final, hrest⟩ := ih (fun x hx => h x (List.mem_cons_of_mem _ hx))
        ⟨reports, out.calls ++ sent p e.2⟩
      refine ⟨final, ?_⟩
      rw [process_events, hevent]
      simp only [bind, Except.bind, hrest, List.flatMap_cons, List.append_assoc]

/-- Without a destination the events with a payload reach the library. -/
theorem sent_unassigned (hp : p.partition_dst = PARTITION_UA)
    (vmap : List (DiscoveryTimestamp × DiscoveryItem)) :
    (vmap.flatMap fun e => sent p e.2).map ProduceCall.message =
      (vmap.filter fun e => e.2._payload.getD [] ≠ []).map fun e => handed e.2 := by
  induction vmap with
  | nil => rfl
  | cons e vmap ih =>
      rw [List.flatMap_cons, List.map_append, ih, List.filter_cons, sent]
      by_cases hempty : e.2._payload.getD [] = []
      · simp [hempty]
      · simp [hempty, hp, ProduceCall.message, handed]

/-- With a destination nothing does, since no event names its partition. -/
theorem sent_assigned (hp : p.partition_dst ≠ PARTITION_UA)
    (vmap : List (DiscoveryTimestamp × DiscoveryItem)) :
    (vmap.flatMap fun e => sent p e.2) = [] := by
  rw [List.flatMap_eq_nil_iff]
  exact fun e _ => if_neg fun h => hp h.2

end Events

end KafkaK3.EventReplay
