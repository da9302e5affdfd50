import KafkaK3.ByteBuffer
import KafkaK3.KafkaConfig
import KafkaK3.KeyTime

/-!
# The producer

The setup takes everything from the environment and needs a broker list and a
target topic. A message is handed to the Kafka library when no destination
partition is set, or when it is the partition which the caller names.
-/
namespace KafkaK3.ReplayProducer
open ByteBuffer DecimalText KafkaConfig KeyTime

/-- `RdKafka::Topic::PARTITION_UA`, for no partition in particular. -/
def PARTITION_UA : Int32 := -1

structure Produce where
  pconf : Conf
  target_topic : Text
  partition_dst : Int32
  deriving DecidableEq, Repr

/-- A producer without a destination. -/
def Produce.unassigned : Produce := ⟨⟨.CONF_GLOBAL, [], none⟩, ['t'], PARTITION_UA⟩

/-- What the library is handed in one `produce` call. -/
structure ProduceCall where
  partition : Int32
  payload : Bytes
  key : Bytes
  deriving DecidableEq, Repr

section Setup
variable (rd : RdKafka) (env : Environment)

/-- The security protocol, and the settings which go with SSL. -/
def setSecurity (conf : Conf) : Conf :=
  match env.getenv "KAFKA_SECURITY_PROTOCOL".toList with
  | some ss =>
      let conf := (conf.set rd "security.protocol".toList ss).1
      if (find "ssl".toList ss).isSome then
        let pem := (env.getenv "KAFKA_CA_FILE".toList).getD "/var/ca/ca.pem".toList
        let conf := (conf.set rd "ssl.cipher.suites".toList
          "DHE-DSS-AES256-GCM-SHA384".toList).1
        (conf.set rd "ssl.ca.location".toList pem).1
      else conf
  | none => conf

/-- An environment variable which must be there. -/
def require (name what : Text) : Except Thrown Text :=
  match env.getenv name with
  | some s => .ok s
  | none => .error (.invalid_argument what)

/-- The destination partition, none in particular where the environment says nothing. -/
def partitionFromEnv : Int32 :=
  match env.getenv "KAFKA_TOPIC_PARTITION_DESTINATION".toList with
  | some s => atoi32 s
  | none => PARTITION_UA

/-- The variables whose settings go to the configuration object. -/
def ownVariables : List Text :=
  ["KAFKA_SECURITY_PROTOCOL".toList, "KAFKA_SASL_MECHANISMS".toList, "KAFKA_USER".toList,
    "KAFKA_PASS".toList, "KAFKA_BROKERS".toList]

/-- `Produce::setup`. A topic without a configuration object gets a fresh one, and a null
pointer for the own one is used where one of the variables is there. -/
def Produce.setup : Except Thrown Produce := do
  let tconf := (Conf.create rd .CONF_TOPIC).getD ⟨.CONF_TOPIC, [], none⟩
  match Conf.create rd .CONF_GLOBAL with
  | none =>
      if ownVariables.any fun name => (env.getenv name).isSome then throw .undefined
      else throw (.invalid_argument "No broker list ENV var supplied".toList)
  | some conf =>
      let conf := setSecurity rd env conf
      let conf := setFromEnv rd env "KAFKA_SASL_MECHANISMS".toList "sasl.mechanisms".toList conf
      let conf := setFromEnv rd env "KAFKA_USER".toList "sasl.username".toList conf
      let conf := setFromEnv rd env "KAFKA_PASS".toList "sasl.password".toList conf
      let brokers ← require env "KAFKA_BROKERS".toList "No broker list ENV var supplied".toList
      let conf := (conf.set rd "metadata.broker.list".toList brokers).1
      let target_topic ← require env "KAFKA_TARGET_TOPIC".toList "No topic ENV var supplied".toList
      let conf ← setvars rd env.envp conf
      match rd.createProducer conf with
      | some errstr =>
          throw (.invalid_argument ("Failed to create new producer: ".toList ++ errstr))
      | none =>
          match rd.createTopic target_topic tconf with
          | some errstr => throw (.invalid_argument ("Failed to create topic object: ".toList ++
              target_topic ++ " Err: ".toList ++ errstr))
          | none => pure ⟨conf, target_topic, partitionFromEnv env⟩

end Setup

/-- `Produce::produce`, with the call it makes if any; `success` is the outcome of that
call. -/
def Produce.produce (p : Produce) (success : Bool) (inp inkey : Bytes)
    (in_partition : Int32 := PARTITION_UA) : Option ProduceCall × Int32 :=
  if p.partition_dst = PARTITION_UA ∨ p.partition_dst = in_partition then
    (some ⟨in_partition, inp, inkey⟩, if success then 0 else -1)
  else (none, 0)

/-- A message with no partition named goes out exactly when no destination is set. -/
theorem produce_default (p : Produce) (success : Bool) (inp inkey : Bytes) :
    (p.produce success inp inkey).1 =
      if p.partition_dst = PARTITION_UA then some ⟨PARTITION_UA, inp, inkey⟩ else none := by
  unfold Produce.produce
  split <;> simp_all

end KafkaK3.ReplayProducer
