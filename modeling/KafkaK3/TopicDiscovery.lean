import KafkaK3.BackupConsumer
import KafkaK3.KafkaConfig
import KafkaK3.Wildcard

/-!
# Topics, configured and discovered

`Consume::setup` reads the topics to leave out and the topics to back up from the
configuration, and subscribes to the latter unless topics are to be discovered.
A discovery round asks the broker for its topics, adds those which are new and
subscribes again if there are any. The consumer's log texts are left out.
-/
namespace KafkaK3.TopicDiscovery
open DecimalText Wildcard KafkaConfig

/-- The consumer as its constructor leaves it, with the double next to .85;
`subscriptions` are the arguments of `_pconsumer->subscribe`, oldest first. -/
structure Consume extends BackupConsumer.Consume where
  exclude_topics : List Text := []
  topics : List Text := []
  consume_wait_time : Int32 := 1000
  mem_percent : ℚ := 7656119366529843 / 2 ^ 53
  auto_discover_topics : Bool := false
  auto_discover_interval : Int32 := 60
  pconf : Option Conf := none
  pconsumer : Bool := false
  subscriptions : List (List Text) := []

def Consume.initial : Consume := { ps3 := none }

/-- `topic_excluded`. -/
def Consume.topic_excluded (c : Consume) (topic : Text) : Bool :=
  c.exclude_topics.any fun glob => strcmp glob topic

/-- `topic_already_in_subscriptions`. -/
def Consume.topic_already_in_subscriptions (c : Consume) (topic : Text) : Bool :=
  c.topics.any fun known => strcmp known topic

/-- What the configuration asks for one topic: a string, or an object with a name. -/
def pushTopic (push : Consume → Text → Consume) (c : Consume) (pval : Json) :
    Except Thrown Consume :=
  match pval with
  | .string s => pure (push c s)
  | .object _ =>
      match pval.object_get "name".toList with
      | some pname => do
          let s ← stdString pname.string_value
          pure (push c s)
      | none => pure c
  | _ => pure c

/-- The walk through one array of topics. -/
def pushTopics (key : Text) (push : Consume → Text → Consume) (pjson : Json) (c : Consume) :
    Except Thrown Consume :=
  match pjson.object_get key with
  | some (.array items) => items.foldlM (pushTopic push) c
  | _ => pure c

def setup_exclude_topics : Json → Consume → Except Thrown Consume :=
  pushTopics "exclude_topics".toList fun c s =>
    { c with exclude_topics := c.exclude_topics ++ [s] }

def setup_topics : Json → Consume → Except Thrown Consume :=
  pushTopics "topics".toList fun c s =>
    if c.topic_excluded s then c else { c with topics := c.topics ++ [s] }

/-- An integer member of the general settings, cut to an `int`. -/
def intMember (p : Json) (key : Text) (old : Int32) : Int32 :=
  match p.object_get key with
  | some (.integer n) => n.toInt32
  | _ => old

def setup_general (pjson : Json) (c : Consume) : Consume :=
  match pjson.object_get "general".toList with
  | some (.object members) =>
      let p := Json.object members
      { c with
        message_bundle_limit := intMember p "batchsize".toList c.message_bundle_limit
        message_bundle_size := intMember p "binsize".toList c.message_bundle_size
        consume_wait_time := intMember p "collecttime_ms".toList c.consume_wait_time
        mem_percent :=
          match p.object_get "mem_percent".toList with
          | some (.real percent) => if percent < 1 then percent else c.mem_percent
          | _ => c.mem_percent
        auto_discover_topics :=
          match p.object_get "auto_discover_topics".toList with
          | some (.boolean true) => true
          | _ => c.auto_discover_topics
        auto_discover_interval :=
          intMember p "auto_discover_interval".toList c.auto_discover_interval }
  | _ => c

section Setup
variable (rd : RdKafka) (env : Environment)

def setup_default_global_conf (pjson : Json) (c : Consume) : Except Thrown Consume :=
  match pjson.object_get "default_global_conf".toList with
  | some (.object members) => do
      let pconf ← KafkaConf.create rd (.object members) .CONF_GLOBAL
      pure { c with pconf := pconf }
  | _ => throw (.invalid_argument "Failed to create a configuration".toList)

def setup_default_topic_conf (pjson : Json) (c : Consume) : Except Thrown Consume :=
  match c.pconf, pjson.object_get "default_topic_conf".toList with
  | some conf, some (.object members) => do
      match ← KafkaConf.create rd (.object members) .CONF_TOPIC with
      | some tconf =>
          pure { c with pconf := some { conf with default_topic_conf := some tconf.settings } }
      | none => throw (.invalid_argument
          "Failed to create a topic configuration:  at line 487 in file consume.cpp".toList)
  | _, _ => pure c

/-- The part of `setup` which reads the configuration file. -/
def setupFile (pjson : Json) (c : Consume) : Except Thrown Consume := do
  let c ← setup_exclude_topics pjson c
  let c ← setup_topics pjson c
  let c := setup_general pjson c
  let c ← setup_default_global_conf rd pjson c
  setup_default_topic_conf rd pjson c

/-- The settings from the environment, which go over those of the file. -/
def setupEnv (conf : Conf) : Except Thrown Conf := do
  let conf := setFromEnv rd env "KAFKA_GROUP_ID".toList "group.id".toList conf
  let conf := setFromEnv rd env "KAFKA_SECURITY_PROTOCOL".toList "security.protocol".toList conf
  let conf := setFromEnv rd env "KAFKA_SASL_MECHANISMS".toList "sasl.mechanisms".toList conf
  let conf := setFromEnv rd env "KAFKA_USER".toList "sasl.username".toList conf
  let conf := setFromEnv rd env "KAFKA_PASS".toList "sasl.password".toList conf
  let conf := setFromEnv rd env "KAFKA_BROKERS".toList "metadata.broker.list".toList conf
  let conf ← setvars rd env.envp conf
  pure (conf.set rd "enable.auto.commit".toList "false".toList).1

/-- The end of `setup`: the subscription to the configured topics, unless topics
are to be discovered. -/
def subscribeConfigured (c : Consume) : Except Thrown Consume :=
  if !c.auto_discover_topics then
    if 0 < c.topics.length then pure { c with subscriptions := c.subscriptions ++ [c.topics] }
    else throw (.invalid_argument
      "No topics provided or discovered at 152 in function setup".toList)
  else pure c

/-- The bundle limit, which the environment may set. -/
def limitFromEnv (c : Consume) : Int32 :=
  match env.getenv "KAFKA_MESSAGE_BATCHSIZE".toList with
  | some s => atoi32 s
  | none => c.message_bundle_limit

/-- The part of `setup` behind the file. -/
def startConsumer (conf : Conf) (c : Consume) : Except Thrown Consume := do
  let conf ← setupEnv rd env conf
  match rd.createConsumer conf with
  | some errstr => throw (.invalid_argument ("Failed to start consumer: ".toList ++ errstr))
  | none =>
      subscribeConfigured
        { c with
          pconf := some conf
          message_bundle_limit := limitFromEnv env c
          pconsumer := true }

/-- `Consume::setup`. Only the file makes a configuration object, and every path behind it
goes through its pointer, which nothing else sets. -/
def Consume.setup (pjson : Option Json) (c : Consume) : Except Thrown Consume := do
  let c ←
    match pjson with
    | some pjson => setupFile rd pjson c
    | none => pure c
  match c.pconf with
  | none => throw .undefined
  | some conf => startConsumer rd env conf c

end Setup

/-- What the broker's metadata says: its topics, unless even their list is missing. -/
structure Metadata where
  topics : Option (List Text)

/-- What comes of a metadata request. -/
structure MetadataResponse where
  noError : Bool
  pmetadata : Option Metadata

/-- The request went well and brought metadata. -/
def MetadataResponse.Succeeded (r : MetadataResponse) : Prop :=
  r.noError = true ∧ r.pmetadata.isSome = true

instance : DecidablePred MetadataResponse.Succeeded := fun r =>
  inferInstanceAs (Decidable (r.noError = true ∧ r.pmetadata.isSome = true))

/-- The topics which a discovery round walks through. -/
def MetadataResponse.discovered (r : MetadataResponse) : List Text :=
  match r.pmetadata with
  | some metadata => if r.noError then metadata.topics.getD [] else []
  | none => []

/-- One topic of the metadata, with the mark that something is new. -/
def discoverTopic (state : Consume × Bool) (t : Text) : Consume × Bool :=
  let (c, _) := state
  if t.take 2 ≠ ['_', '_'] ∧ ¬ c.topic_excluded t ∧ ¬ c.topic_already_in_subscriptions t then
    ({ c with topics := c.topics ++ [t] }, true)
  else state

/-- `Consume::auto_discover_topics`. -/
def Consume.autoDiscoverTopics (c : Consume) (r : MetadataResponse) : Consume :=
  let (c, topics_updated) := r.discovered.foldl discoverTopic (c, false)
  if topics_updated then { c with subscriptions := c.subscriptions ++ [c.topics] } else c

/-- The consumer after a sequence of discovery rounds. -/
def rounds (c : Consume) (responses : List MetadataResponse) : Consume :=
  responses.foldl Consume.autoDiscoverTopics c

end KafkaK3.TopicDiscovery
