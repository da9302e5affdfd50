import KafkaK3.ReplayProducer
import KafkaK3.SettingPrecedence

/-!
# The setup of the producer

A setting which the library refuses is passed over, and so is a missing topic
configuration. What remains are the reasons for which the setup fails, and where there
is none, the settings of the environment in the order in which they are made: a
`RDKAFKA_SETVAR_` text goes over all others.
-/
namespace KafkaK3.ProducerSetup
open DecimalText Fallible KafkaConfig LastValue SettingPrecedence ReplayProducer

/-- The settings which go with the security protocol. -/
def securitySettings (env : Environment) : List (Text × Text) :=
  match env.getenv "KAFKA_SECURITY_PROTOCOL".toList with
  | none => []
  | some ss =>
      ("security.protocol".toList, ss) ::
        if (KeyTime.find "ssl".toList ss).isSome then
          [("ssl.cipher.suites".toList, "DHE-DSS-AES256-GCM-SHA384".toList),
            ("ssl.ca.location".toList,
              (env.getenv "KAFKA_CA_FILE".toList).getD "/var/ca/ca.pem".toList)]
        else []

/-- The settings of single variables, in the order in which they are made. -/
def ownSettings (env : Environment) (brokers : Text) : List (Text × Text) :=
  securitySettings env ++
    (((env.getenv "KAFKA_SASL_MECHANISMS".toList).map fun s => ("sasl.mechanisms".toList, s)).toList ++
    (((env.getenv "KAFKA_USER".toList).map fun s => ("sasl.username".toList, s)).toList ++
    (((env.getenv "KAFKA_PASS".toList).map fun s => ("sasl.password".toList, s)).toList ++
    [("metadata.broker.list".toList, brokers)])))

/-- What a producer is which has been set up. -/
structure Ready (rd : RdKafka) (env : Environment) (p : Produce) : Prop where
  created : rd.createConf .CONF_GLOBAL = true
  settings : ∃ brokers, env.getenv "KAFKA_BROKERS".toList = some brokers ∧
    p.pconf = ⟨.CONF_GLOBAL,
      taken rd .CONF_GLOBAL (ownSettings env brokers ++ setvarSettings env), none⟩
  target_topic : env.getenv "KAFKA_TARGET_TOPIC".toList = some p.target_topic
  complete : SetvarsComplete env
  partition_dst : p.partition_dst = partitionFromEnv env
  producer : rd.createProducer p.pconf = none
  topic : rd.createTopic p.target_topic ⟨.CONF_TOPIC, [], none⟩ = none

section Setup
variable (rd : RdKafka) (env : Environment)

theorem setSecurity_taken (conf : Conf) :
    setSecurity rd env conf = store conf (taken rd conf.type (securitySettings env)) := by
  unfold setSecurity securitySettings
  cases env.getenv "KAFKA_SECURITY_PROTOCOL".toList with
  | none => exact (store_nil conf).symm
  | some ss =>
      dsimp only
      split
      · simp only [set_taken, store_type, store_store, ← taken_append]
        rfl
      · rw [set_taken]

/-- A topic configuration is an empty one, whether the library makes it or not. -/
theorem topicConf_eq : (Conf.create rd .CONF_TOPIC).getD ⟨.CONF_TOPIC, [], none⟩ =
    ⟨.CONF_TOPIC, [], none⟩ := by
  unfold Conf.create
  split <;> rfl

theorem settings_taken (brokers : Text) :
    ((setFromEnv rd env "KAFKA_PASS".toList "sasl.password".toList
      (setFromEnv rd env "KAFKA_USER".toList "sasl.username".toList
        (setFromEnv rd env "KAFKA_SASL_MECHANISMS".toList "sasl.mechanisms".toList
          (setSecurity rd env ⟨.CONF_GLOBAL, [], none⟩)))).set rd "metadata.broker.list".toList
            brokers).1 =
      ⟨.CONF_GLOBAL, taken rd .CONF_GLOBAL (ownSettings env brokers), none⟩ := by
  simp only [setSecurity_taken, setFromEnv_taken, set_taken, ownSettings, taken_append,
    store, List.nil_append, List.append_assoc]

theorem setvars_own (brokers : Text) :
    CrashesUnless Thrown.out_of_range (SetvarsComplete env)
      (· = .ok ⟨.CONF_GLOBAL, taken rd .CONF_GLOBAL (ownSettings env brokers ++ setvarSettings env),
        none⟩)
      (setvars rd env.envp ⟨.CONF_GLOBAL, taken rd .CONF_GLOBAL (ownSettings env brokers), none⟩) := by
  refine (setvars_crashes rd env _).mono fun h => h.trans ?_
  rw [taken_append]
  rfl

theorem require_eq_ok {name what s : Text} :
    require env name what = .ok s ↔ env.getenv name = some s := by
  unfold require
  cases env.getenv name with
  | none => exact iff_of_false (fun h => by cases h) (fun h => by cases h)
  | some t => rw [Except.ok.injEq, Option.some.injEq]

theorem create_global {conf : Conf} :
    Conf.create rd .CONF_GLOBAL = some conf ↔
      rd.createConf .CONF_GLOBAL = true ∧ conf = ⟨.CONF_GLOBAL, [], none⟩ := by
  unfold Conf.create
  split
  next h => rw [Option.some.injEq, and_iff_right h, eq_comm]
  next h => exact iff_of_false (fun h' => by cases h') fun h' => h h'.1

/-- The producer can be set up exactly when the library makes a configuration, a producer
and a topic, the brokers and the topic are named, and no `RDKAFKA_SETVAR_` text is without
its equals sign. -/
theorem producer_setup_iff (p : Produce) : Produce.setup rd env = .ok p ↔ Ready rd env p := by
  unfold Produce.setup
  rw [topicConf_eq]
  constructor
  · intro h
    split at h
    next =>
      split at h
      · cases h
      · cases h
    next conf hconf =>
      obtain ⟨hcreate, rfl⟩ := (create_global rd).mp hconf
      obtain ⟨brokers, hbrokers, h⟩ := bind_eq_ok.mp h
      obtain ⟨target, htarget, h⟩ := bind_eq_ok.mp h
      obtain ⟨final, hvars, h⟩ := bind_eq_ok.mp h
      rw [settings_taken] at hvars
      have hcomplete : SetvarsComplete env := by
        by_contra hincomplete
        rw [(setvars_own rd env brokers).of_unfit hincomplete] at hvars
        cases hvars
      rw [(setvars_own rd env brokers).of_fit hcomplete] at hvars
      split at h
      next => cases h
      next hproducer =>
        split at h
        next => cases h
        next htopic =>
          obtain rfl := Except.ok.inj h
          exact ⟨hcreate, ⟨brokers, (require_eq_ok env).mp hbrokers, (Except.ok.inj hvars).symm⟩,
            (require_eq_ok env).mp htarget, hcomplete, rfl, hproducer, htopic⟩
  · intro h
    obtain ⟨brokers, hbrokers, hsettings⟩ := h.settings
    have hvars := (setvars_own rd env brokers).of_fit h.complete
    rw [(create_global rd).mpr ⟨h.created, rfl⟩]
    simp only [(require_eq_ok env).mpr hbrokers, (require_eq_ok env).mpr h.target_topic, bind,
      Except.bind, settings_taken, hvars]
    rw [← hsettings, h.producer, h.topic]
    simp only [pure, Except.pure, ← h.partition_dst]

end Setup

end KafkaK3.ProducerSetup
