import KafkaK3.ConfCreation
import KafkaK3.LastValue

/-!
# Where a setting of the consumer comes from

The settings of the file, the `KAFKA_` variables and the marked texts of the
environment go to one configuration object in this order, and a later one replaces an
earlier one of its key. The object is made from the file: there is none without a
file, and what is read from the file must be strings.
-/
namespace KafkaK3.SettingPrecedence
open DecimalText KafkaConfig TopicDiscovery ConfCreation LastValue Fallible

def autoCommit : Text := "enable.auto.commit".toList

/-- The variables which name a setting, with its key. -/
def kafkaVariables : List (Text × Text) :=
  [("KAFKA_GROUP_ID".toList, "group.id".toList),
    ("KAFKA_SECURITY_PROTOCOL".toList, "security.protocol".toList),
    ("KAFKA_SASL_MECHANISMS".toList, "sasl.mechanisms".toList),
    ("KAFKA_USER".toList, "sasl.username".toList), ("KAFKA_PASS".toList, "sasl.password".toList),
    ("KAFKA_BROKERS".toList, "metadata.broker.list".toList)]

def kafkaSettings (env : Environment) : List (Text × Text) :=
  kafkaVariables.filterMap fun entry => (env.getenv entry.1).map fun s => (entry.2, s)

/-- The key which a name behind the mark stands for. -/
def keyOfName (name : Text) : Text := (name.map fun c => if c = '_' then '.' else c).map Char.toLower

/-- The setting in an environment text: the mark, a name, an equals sign and a value. -/
def settingOf (text : Text) : Option (Text × Text) :=
  if text.take setvarMark.length = setvarMark then
    let rest := text.drop setvarMark.length
    let name := rest.takeWhile fun c => c ≠ '='
    let val := (rest.dropWhile fun c => c ≠ '=').tail
    if name ≠ [] ∧ val ≠ [] then some (keyOfName name, val) else none
  else none

def setvarSettings (env : Environment) : List (Text × Text) := (env.envp.getD []).filterMap settingOf

/-- The members of the file's `default_global_conf`. -/
def globalMembers (pjson : Option Json) : List (Text × Json) :=
  match pjson with
  | some pjson =>
      match pjson.object_get "default_global_conf".toList with
      | some (.object members) => members
      | _ => []
  | none => []

/-- The value which a key is to have. -/
def layered (env : Environment) (members : List (Text × Json)) (key : Text) : Option Text :=
  if key = autoCommit then some "false".toList
  else (lastValue (setvarSettings env) key).or ((lastValue (kafkaSettings env) key).or
    ((lastValue (stringPairs members) key).or
      (if key = groupId then some defaultGroup else none)))

/-- `setup` refuses its arguments, or it has started a consumer with a configuration
in which every key has the value it is to have. -/
def Layered (rd : RdKafka) (env : Environment) (pjson : Option Json)
    (result : Except Thrown Consume) : Prop :=
  (∃ what, result = .error (.invalid_argument what)) ∨
    ∃ c conf, result = .ok c ∧ c.pconsumer = true ∧ c.pconf = some conf ∧
      rd.createConsumer conf = none ∧
      ∀ key, lastValue conf.settings key = layered env (globalMembers pjson) key

/-- Every marked text has its equals sign. -/
def SetvarsComplete (env : Environment) : Prop :=
  ∀ texts ∈ env.envp, ∀ text ∈ texts, text.take setvarMark.length = setvarMark → '=' ∈ text

def store (conf : Conf) (pairs : List (Text × Text)) : Conf :=
  { conf with settings := conf.settings ++ pairs }

@[simp] theorem store_nil (conf : Conf) : store conf [] = conf := by
  rw [store, List.append_nil]

@[simp] theorem store_store (conf : Conf) (pairs later : List (Text × Text)) :
    store (store conf pairs) later = store conf (pairs ++ later) := by
  simp only [store, List.append_assoc]

/-- The value begins behind the name and the equals sign. -/
theorem drop_name (rest : Text) : rest.drop ((rest.takeWhile fun c => c ≠ '=').length + 1) =
    (rest.dropWhile fun c => c ≠ '=').tail := by
  have hsplit := @List.takeWhile_append_dropWhile _ (fun c => decide (c ≠ '=')) rest
  have hdrop := @List.drop_left _ (rest.takeWhile fun c => decide (c ≠ '='))
    (rest.dropWhile fun c => decide (c ≠ '='))
  rw [hsplit] at hdrop
  rw [← List.tail_drop, hdrop]

theorem name_shorter {rest : Text} (h : '=' ∈ rest) :
    (rest.takeWhile fun c => c ≠ '=').length < rest.length := by
  have hsplit := congrArg List.length
    (@List.takeWhile_append_dropWhile _ (fun c => decide (c ≠ '=')) rest)
  have hsign : rest.dropWhile (fun c => decide (c ≠ '=')) ≠ [] := by
    intro hnone
    exact absurd (List.dropWhile_eq_nil_iff.mp hnone '=' h) (by decide)
  have hsome := List.length_pos_iff.mpr hsign
  rw [List.length_append] at hsplit
  omega

theorem filterMap_cons_toList {α β : Type} (f : α → Option β) (a : α) (as : List α) :
    (a :: as).filterMap f = (f a).toList ++ as.filterMap f := by
  cases h : f a with
  | none => exact List.filterMap_cons_none h
  | some b => exact List.filterMap_cons_some h

/-- The settings which the library takes. -/
def taken (rd : RdKafka) (type : ConfType) (pairs : List (Text × Text)) : List (Text × Text) :=
  pairs.filter fun pair => (rd.set type pair.1 pair.2).isNone

section Taken
variable (rd : RdKafka)

@[simp] theorem taken_append (type : ConfType) (pairs later : List (Text × Text)) :
    taken rd type (pairs ++ later) = taken rd type pairs ++ taken rd type later :=
  List.filter_append ..

@[simp] theorem store_type (conf : Conf) (pairs : List (Text × Text)) :
    (store conf pairs).type = conf.type := rfl

theorem set_taken (conf : Conf) (key val : Text) :
    (conf.set rd key val).1 = store conf (taken rd conf.type [(key, val)]) := by
  unfold Conf.set
  cases hset : rd.set conf.type key val with
  | none => simp [taken, store, hset]
  | some errstr => simp [taken, store, hset]

theorem setFromEnv_taken (env : Environment) (name key : Text) (conf : Conf) :
    setFromEnv rd env name key conf =
      store conf (taken rd conf.type ((env.getenv name).map fun s => (key, s)).toList) := by
  unfold setFromEnv
  cases env.getenv name with
  | none => exact (store_nil conf).symm
  | some s => exact set_taken rd conf key s

/-- The setting of one environment text, which crashes without an equals sign. -/
theorem setvar_crashes (conf : Conf) (text : Text) :
    CrashesUnless Thrown.out_of_range (text.take setvarMark.length = setvarMark → '=' ∈ text)
      (· = .ok (store conf (taken rd conf.type (settingOf text).toList))) (setvar rd conf text) := by
  unfold setvar settingOf
  by_cases hmark : text.take setvarMark.length = setvarMark
  · rw [if_pos hmark, if_pos hmark]
    dsimp only
    have hsplit : text = setvarMark ++ text.drop setvarMark.length := by
      have hfront := List.take_append_drop setvarMark.length text
      rw [hmark] at hfront
      exact hfront.symm
    by_cases hsign : '=' ∈ text.drop setvarMark.length
    · refine .of_outcome (fun _ => hsplit ▸ List.mem_append_right _ hsign) ?_
      rw [if_neg (Nat.not_lt.mpr (name_shorter hsign)), drop_name]
      simp only [List.length_map, List.length_pos_iff, keyOfName]
      split
      · rw [set_taken]
        rfl
      · exact congrArg Except.ok (store_nil conf).symm
    · have hnone : '=' ∉ text := by
        rw [hsplit, List.mem_append]
        exact fun h => h.elim (by decide) hsign
      have hall : (text.drop setvarMark.length).takeWhile (fun c => c ≠ '=') =
          text.drop setvarMark.length := by
        rw [List.takeWhile_eq_self_iff]
        intro c hc
        exact decide_eq_true fun hequal => hsign (hequal ▸ hc)
      refine ⟨fun h => absurd (h hmark) hnone, fun _ => ?_⟩
      rw [hall, if_pos (Nat.lt_succ_self _)]
      rfl
  · rw [if_neg hmark, if_neg hmark]
    exact .of_outcome (fun h => absurd h hmark) (congrArg Except.ok (store_nil conf).symm)

theorem foldlM_setvar_crashes (texts : List Text) (conf : Conf) :
    CrashesUnless Thrown.out_of_range
      (∀ text ∈ texts, text.take setvarMark.length = setvarMark → '=' ∈ text)
      (· = .ok (store conf (taken rd conf.type (texts.filterMap settingOf))))
      (texts.foldlM (setvar rd) conf) := by
  induction texts generalizing conf with
  | nil => exact .of_outcome (fun _ h => absurd h List.not_mem_nil) (congrArg _ (store_nil conf).symm)
  | cons text texts ih =>
      have hhead : CrashesUnless Thrown.out_of_range
          (text.take setvarMark.length = setvarMark → '=' ∈ text)
          (Gives (· = store conf (taken rd conf.type (settingOf text).toList)))
          (setvar rd conf text) := (setvar_crashes rd conf text).mono fun h => ⟨_, h, rfl⟩
      rw [List.foldlM_cons]
      have hall : (∀ t ∈ text :: texts, t.take setvarMark.length = setvarMark → '=' ∈ t) ↔ _ :=
        List.forall_mem_cons
      refine (hhead.bind fun next hnext => (ih next).mono fun h => ?_).congr hall.symm
      rw [h, hnext, store_type, store_store, ← taken_append, ← filterMap_cons_toList]

/-- The settings of all environment texts. -/
theorem setvars_crashes (env : Environment) (conf : Conf) :
    CrashesUnless Thrown.out_of_range (SetvarsComplete env)
      (· = .ok (store conf (taken rd conf.type (setvarSettings env)))) (setvars rd env.envp conf) := by
  unfold setvars setvarSettings SetvarsComplete
  cases env.envp with
  | none => exact .of_outcome (fun _ h => by cases h) (congrArg _ (store_nil conf).symm)
  | some texts =>
      refine (foldlM_setvar_crashes rd texts conf).congr ?_
      simp only [Option.mem_def, Option.some.injEq, forall_eq']

end Taken

section Environment
variable {rd : RdKafka} (hset : ∀ type key val, rd.set type key val = none)
include hset

theorem set_eq (conf : Conf) (key val : Text) :
    conf.set rd key val = (store conf [(key, val)], none) :=
  set_accepted (hset _ _ _)

/-- A library which refuses nothing takes all settings. -/
theorem taken_all (type : ConfType) (pairs : List (Text × Text)) : taken rd type pairs = pairs :=
  List.filter_eq_self.mpr fun pair _ => by rw [hset, Option.isNone_none]

theorem setFromEnv_eq (env : Environment) (name key : Text) (conf : Conf) :
    setFromEnv rd env name key conf =
      store conf ((env.getenv name).map fun s => (key, s)).toList := by
  rw [setFromEnv_taken, taken_all hset]

theorem setvars_eq {env : Environment} (henv : SetvarsComplete env) (conf : Conf) :
    setvars rd env.envp conf = .ok (store conf (setvarSettings env)) := by
  rw [(setvars_crashes rd env conf).of_fit henv, taken_all hset]

theorem foldl_setFromEnv (env : Environment) (entries : List (Text × Text)) (conf : Conf) :
    entries.foldl (fun conf entry => setFromEnv rd env entry.1 entry.2 conf) conf =
      store conf (entries.filterMap fun entry => (env.getenv entry.1).map fun s => (entry.2, s)) := by
  induction entries generalizing conf with
  | nil => exact (store_nil conf).symm
  | cons entry entries ih =>
      rw [List.foldl_cons, setFromEnv_eq hset, ih, store_store, filterMap_cons_toList]

/-- The environment's settings in the order in which they are stored. -/
theorem setupEnv_eq {env : Environment} (henv : SetvarsComplete env) (conf : Conf) :
    setupEnv rd env conf =
      .ok (store conf (kafkaSettings env ++ (setvarSettings env ++ [(autoCommit, "false".toList)]))) := by
  have hvars : setupEnv rd env conf =
      setvars rd env.envp
        (kafkaVariables.foldl (fun conf entry => setFromEnv rd env entry.1 entry.2 conf) conf) >>=
        fun conf => pure (conf.set rd autoCommit "false".toList).1 := rfl
  have hkafka := foldl_setFromEnv hset env kafkaVariables conf
  rw [hvars, hkafka, setvars_eq hset henv, ← store_store, ← store_store]
  exact congrArg (fun result : Conf × Option Text => Except.ok result.1) (set_eq hset _ _ _)

end Environment

/-- A group name of the file goes over the added one. -/
theorem lastValue_addedGroup {members : List (Text × Json)} (hmembers : AllStrings members)
    (key : Text) : lastValue (stringPairs members ++ addedGroup members) key =
      (lastValue (stringPairs members) key).or (if key = groupId then some defaultGroup else none) := by
  rw [lastValue_append]
  by_cases hany : members.any (fun pair => pair.1 = groupId) = true
  · have hadded : addedGroup members = [] := if_pos hany
    rw [hadded, lastValue_nil, Option.none_or]
    by_cases hkey : key = groupId
    · obtain ⟨pair, hpair, hgroup⟩ := List.any_eq_true.mp hany
      obtain ⟨s, hmem⟩ := mem_stringPairs hmembers hpair
      have hsame : pair.1 = key := (of_decide_eq_true hgroup).trans hkey.symm
      cases hlast : lastValue (stringPairs members) key with
      | none => exact absurd hsame (lastValue_eq_none_iff.mp hlast _ hmem)
      | some val => rfl
    · rw [if_neg hkey, Option.or_none]
  · have hadded : addedGroup members = [(groupId, defaultGroup)] := if_neg hany
    rw [hadded, lastValue_singleton]
    by_cases hkey : key = groupId
    · have hnone : lastValue (stringPairs members) key = none := by
        rw [lastValue_eq_none_iff]
        intro entry hentry heq
        obtain ⟨pair, hpair, hval⟩ := List.mem_filterMap.mp hentry
        obtain ⟨val, -, rfl⟩ := Option.map_eq_some_iff.mp hval
        exact hany (List.any_eq_true.mpr ⟨pair, hpair, decide_eq_true (heq.trans hkey)⟩)
      rw [hnone, if_pos hkey, if_pos hkey.symm]
      rfl
    · rw [if_neg hkey, if_neg (Ne.symm hkey), Option.or_none, Option.none_or]

/-- The last value of a key, layer by layer. -/
theorem lastValue_layers (env : Environment) {members : List (Text × Json)}
    (hmembers : AllStrings members) (key : Text) :
    lastValue (stringPairs members ++ addedGroup members ++
      (kafkaSettings env ++ (setvarSettings env ++ [(autoCommit, "false".toList)]))) key =
      layered env members key := by
  rw [lastValue_append, lastValue_append, lastValue_append (setvarSettings env),
    lastValue_addedGroup hmembers, lastValue_singleton, layered, Option.or_assoc, Option.or_assoc]
  by_cases hkey : key = autoCommit
  · rw [if_pos hkey, if_pos hkey.symm]
    rfl
  · rw [if_neg hkey, if_neg (Ne.symm hkey)]
    rfl

section File

/-- An entry of a list of topics has no name, or it is a string. -/
def NameIsString (pval : Json) : Prop :=
  ∀ members, pval = .object members → ∀ pname, pval.object_get "name".toList = some pname →
    ∃ s, pname = .string s

/-- So it is for all entries of a list. -/
def NamesAreStrings (pjson : Json) (key : Text) : Prop :=
  ∀ items, pjson.object_get key = some (.array items) → ∀ item ∈ items, NameIsString item

theorem stdString_readable (val : Json) :
    CrashesUnless .logic_error (∃ s, val = .string s) (Gives fun _ => True)
      (stdString val.string_value) := by
  cases val with
  | string s => exact .of_outcome ⟨s, rfl⟩ ⟨s, rfl, trivial⟩
  | _ => exact ⟨fun ⟨s, hs⟩ => (by cases hs), fun _ => rfl⟩

theorem pushTopic_readable (push : Consume → Text → Consume) (c : Consume) (pval : Json) :
    CrashesUnless .logic_error (NameIsString pval) (Gives fun _ => True) (pushTopic push c pval) := by
  cases pval with
  | object members =>
      unfold pushTopic NameIsString
      cases hname : (Json.object members).object_get "name".toList with
      | none =>
          refine .of_outcome (fun _ _ pname hpname => ?_) ⟨c, rfl, trivial⟩
          cases hpname
      | some pname =>
          refine ((stdString_readable pname).bind fun s _ =>
            .of_outcome trivial ⟨push c s, rfl, trivial⟩).congr ?_
          constructor
          · intro hstring _ _ pname' hpname'
            rw [← Option.some.inj hpname']
            exact hstring.1
          · exact fun h => ⟨h members rfl pname rfl, trivial⟩
  | string s => exact .of_outcome (fun _ h => by cases h) ⟨push c s, rfl, trivial⟩
  | _ => exact .of_outcome (fun _ h => by cases h) ⟨c, rfl, trivial⟩

theorem pushTopics_readable (key : Text) (push : Consume → Text → Consume) (pjson : Json)
    (c : Consume) : CrashesUnless .logic_error (NamesAreStrings pjson key) (Gives fun _ => True)
      (pushTopics key push pjson c) := by
  unfold pushTopics NamesAreStrings
  cases pjson.object_get key with
  | none => exact .of_outcome (fun _ h => by cases h) ⟨c, rfl, trivial⟩
  | some val =>
      cases val with
      | array items =>
          refine (CrashesUnless.foldlM (fun c item _ => pushTopic_readable push c item)
            trivial).congr ?_
          simp only [Option.some.injEq, Json.array.injEq, forall_eq']
      | _ => exact .of_outcome (fun _ h => by cases h) ⟨c, rfl, trivial⟩

end File

section Confs
variable {rd : RdKafka}

def Refused {α : Type} (result : Except Thrown α) : Prop :=
  ∃ what, result = .error (.invalid_argument what)

/-- Refused, or it gives a result of this kind. -/
def RefusesOr {α : Type} (post : α → Prop) (result : Except Thrown α) : Prop :=
  Refused result ∨ Gives post result

theorem RefusesOr.mono {α : Type} {post post' : α → Prop} {result : Except Thrown α}
    (h : RefusesOr post result) (hpost : ∀ a, post a → post' a) : RefusesOr post' result := by
  refine h.imp_right fun hgives => ?_
  obtain ⟨a, hresult, ha⟩ := hgives
  exact ⟨a, hresult, hpost a ha⟩

/-- The members of the settings of a topic are strings, if they are looked at. -/
def TopicReadable (rd : RdKafka) (pjson : Json) : Prop :=
  ∀ members, pjson.object_get "default_topic_conf".toList = some (.object members) →
    rd.createConf .CONF_TOPIC = true → AllStrings members

/-- The members of both objects of settings are, if they are looked at. -/
def ConfsReadable (rd : RdKafka) (pjson : Json) : Prop :=
  ∀ members, pjson.object_get "default_global_conf".toList = some (.object members) →
    rd.createConf .CONF_GLOBAL = true → AllStrings members ∧ TopicReadable rd pjson

theorem create_refused {type : ConfType} (h : ¬ rd.createConf type = true)
    (members : List (Text × Json)) : Refused (KafkaConf.create rd (.object members) type) := by
  have hconf : Conf.create rd type = none := if_neg h
  rw [KafkaConf.create, hconf]
  exact ⟨_, rfl⟩

variable (hset : ∀ type key val, rd.set type key val = none)
include hset

theorem accepted_all (type : ConfType) (pairs : List (Text × Text)) : Accepted rd type pairs :=
  fun _ _ => hset ..

theorem apply_readable (conf : Conf) (pair : Text × Json) :
    CrashesUnless .logic_error (∃ s, pair.2 = .string s) (Gives fun _ => True)
      (KafkaConf.apply rd conf pair) := by
  have hstep : KafkaConf.apply rd conf pair =
      stdString pair.2.string_value >>= fun val => .ok (store conf [(pair.1, val)]) := by
    simp only [KafkaConf.apply, set_eq hset]
    rfl
  rw [hstep]
  exact ((stdString_readable pair.2).bind fun val _ =>
    .of_outcome trivial ⟨_, rfl, trivial⟩).congr (and_iff_left trivial)

theorem create_readable {type : ConfType} (hcreate : rd.createConf type = true)
    (members : List (Text × Json)) :
    CrashesUnless .logic_error (AllStrings members) (Gives fun made => AllStrings members ∧
      made = some ⟨type, stringPairs members ++ addedGroup members, none⟩)
      (KafkaConf.create rd (.object members) type) := by
  constructor
  · intro hmembers
    exact ⟨_, (create_object hcreate hmembers).1 (accepted_all hset _ _), hmembers, rfl⟩
  · intro hmembers
    have hloop : CrashesUnless .logic_error (AllStrings members) (Gives fun _ => True)
        (members.foldlM (KafkaConf.apply rd) ⟨type, [], none⟩) :=
      .foldlM (fun conf pair _ => apply_readable hset conf pair) trivial
    have hconf : Conf.create rd type = some ⟨type, [], none⟩ := if_pos hcreate
    rw [KafkaConf.create, hconf]
    dsimp only
    rw [hloop.of_unfit hmembers]
    rfl

/-- The settings of a topic do not change those which the consumer has. -/
theorem topic_conf_readable (pjson : Json) {c : Consume} {conf : Conf} (hconf : c.pconf = some conf) :
    CrashesUnless .logic_error (TopicReadable rd pjson)
      (RefusesOr fun d => ∃ conf', d.pconf = some conf' ∧ conf'.settings = conf.settings)
      (setup_default_topic_conf rd pjson c) := by
  unfold setup_default_topic_conf TopicReadable
  rw [hconf]
  cases pjson.object_get "default_topic_conf".toList with
  | none => exact .of_outcome (fun _ h => by cases h) (Or.inr ⟨c, rfl, conf, hconf, rfl⟩)
  | some val =>
      cases val with
      | object members =>
          simp only [Option.some.injEq, Json.object.injEq, forall_eq']
          by_cases hcreate : rd.createConf .CONF_TOPIC = true
          · refine ((create_readable hset hcreate members).bind fun made hmade => ?_).congr
              ((and_iff_left trivial).trans (imp_iff_right hcreate).symm)
            rw [hmade.2]
            exact .of_outcome trivial (Or.inr ⟨_, rfl, _, rfl, rfl⟩)
          · obtain ⟨what, hwhat⟩ := create_refused hcreate members
            rw [hwhat]
            exact .of_outcome (fun h => absurd h hcreate) (Or.inl ⟨what, rfl⟩)
      | _ => exact .of_outcome (fun _ h => by cases h) (Or.inr ⟨c, rfl, conf, hconf, rfl⟩)

/-- The consumer has the settings of the global object, and a group name. -/
def HasFileSettings (pjson : Json) (d : Consume) : Prop :=
  ∃ conf, d.pconf = some conf ∧ AllStrings (globalMembers (some pjson)) ∧
    conf.settings = stringPairs (globalMembers (some pjson)) ++
      addedGroup (globalMembers (some pjson))

/-- Both objects of settings: the consumer gets those of the global one. -/
theorem confs_readable (pjson : Json) (c : Consume) :
    CrashesUnless .logic_error (ConfsReadable rd pjson) (RefusesOr (HasFileSettings pjson))
      (setup_default_global_conf rd pjson c >>= setup_default_topic_conf rd pjson) := by
  unfold setup_default_global_conf ConfsReadable
  cases hobject : pjson.object_get "default_global_conf".toList with
  | none => exact .of_outcome (fun _ h => by cases h) (Or.inl ⟨_, rfl⟩)
  | some val =>
      cases val with
      | object members =>
          simp only [Option.some.injEq, Json.object.injEq, forall_eq']
          have hmembers : globalMembers (some pjson) = members := by rw [globalMembers, hobject]
          by_cases hcreate : rd.createConf .CONF_GLOBAL = true
          · have hglobal : CrashesUnless .logic_error (AllStrings members ∧ True)
                (Gives fun d : Consume => AllStrings members ∧
                  d.pconf = some ⟨.CONF_GLOBAL, stringPairs members ++ addedGroup members, none⟩)
                (KafkaConf.create rd (.object members) .CONF_GLOBAL >>= fun pconf =>
                  .ok { c with pconf := pconf }) :=
              (create_readable hset hcreate members).bind fun made hmade =>
                .of_outcome trivial ⟨{ c with pconf := made }, rfl, hmade⟩
            have htopic (d : Consume) (hd : AllStrings members ∧ d.pconf =
                some ⟨.CONF_GLOBAL, stringPairs members ++ addedGroup members, none⟩) :
                CrashesUnless .logic_error (TopicReadable rd pjson)
                  (RefusesOr (HasFileSettings pjson)) (setup_default_topic_conf rd pjson d) := by
              refine (topic_conf_readable hset pjson hd.2).mono fun h => h.mono fun e he => ?_
              obtain ⟨conf, hconf, hsettings⟩ := he
              refine ⟨conf, hconf, ?_⟩
              rw [hmembers]
              exact ⟨hd.1, hsettings⟩
            refine (hglobal.bind htopic).congr ?_
            rw [imp_iff_right hcreate, and_iff_left trivial]
          · obtain ⟨what, hwhat⟩ := create_refused hcreate members
            rw [hwhat]
            exact .of_outcome (fun h => absurd h hcreate) (Or.inl ⟨what, rfl⟩)
      | _ => exact .of_outcome (fun _ h => by cases h) (Or.inl ⟨_, rfl⟩)

end Confs

/-- What is read from the file as a string is one. -/
structure Readable (rd : RdKafka) (pjson : Json) : Prop where
  exclude_topics : NamesAreStrings pjson "exclude_topics".toList
  topics : NamesAreStrings pjson "topics".toList
  confs : ConfsReadable rd pjson

section Setup
variable {rd : RdKafka} (hset : ∀ type key val, rd.set type key val = none)
include hset

/-- The file, part by part. -/
theorem setupFile_readable (pjson : Json) (c : Consume) :
    CrashesUnless .logic_error (Readable rd pjson) (RefusesOr (HasFileSettings pjson))
      (setupFile rd pjson c) := by
  refine ((pushTopics_readable ..).bind fun d _ => (pushTopics_readable ..).bind fun e _ =>
    confs_readable hset pjson (setup_general pjson e)).congr ?_
  exact ⟨fun ⟨hexclude, htopics, hconfs⟩ => ⟨hexclude, htopics, hconfs⟩,
    fun h => ⟨h.exclude_topics, h.topics, h.confs⟩⟩

omit hset in
theorem subscribeConfigured_cases (c : Consume) :
    RefusesOr (fun d => d.pconsumer = c.pconsumer ∧ d.pconf = c.pconf) (subscribeConfigured c) := by
  unfold subscribeConfigured
  split
  · split
    · exact Or.inr ⟨_, rfl, rfl, rfl⟩
    · exact Or.inl ⟨_, rfl⟩
  · exact Or.inr ⟨c, rfl, rfl, rfl⟩

/-- Behind the file nothing goes wrong that is not reported. -/
theorem startConsumer_cases {env : Environment} (henv : SetvarsComplete env) (conf : Conf)
    (c : Consume) :
    RefusesOr (fun d => d.pconsumer = true ∧
      d.pconf = some (store conf (kafkaSettings env ++
        (setvarSettings env ++ [(autoCommit, "false".toList)]))) ∧
      rd.createConsumer (store conf (kafkaSettings env ++
        (setvarSettings env ++ [(autoCommit, "false".toList)]))) = none)
      (startConsumer rd env conf c) := by
  rw [startConsumer, setupEnv_eq hset henv]
  generalize store conf _ = started
  simp only [bind, Except.bind]
  cases hcreate : rd.createConsumer started with
  | some errstr => exact Or.inl ⟨_, rfl⟩
  | none =>
      have hsubscribed := subscribeConfigured_cases
        { c with
          pconf := some started
          message_bundle_limit := limitFromEnv env c
          pconsumer := true }
      exact hsubscribed.mono fun d hd => ⟨hd.1, hd.2, rfl⟩

/-- The settings are layered exactly when there is a file and what is read from it as a
string is one, unless a setup without a file finds the object of an earlier one. -/
theorem setup_layered_iff {env : Environment} (henv : SetvarsComplete env) (pjson : Option Json)
    (c : Consume) (hfirst : pjson = none → c.pconf = none) :
    Layered rd env pjson (Consume.setup rd env pjson c) ↔
      ∃ file, pjson = some file ∧ Readable rd file := by
  have hbad {e : Thrown} (he : ∀ what, e ≠ .invalid_argument what) :
      ¬ Layered rd env pjson (.error e) := by
    intro h
    cases h with
    | inl hrefused =>
        obtain ⟨what, hwhat⟩ := hrefused
        exact he what (Except.error.inj hwhat)
    | inr hdone =>
        obtain ⟨d, conf, hd, -⟩ := hdone
        cases hd
  cases pjson with
  | none =>
      have hundefined : Consume.setup rd env none c = .error .undefined := by
        simp only [Consume.setup, bind, Except.bind, pure, Except.pure, hfirst rfl]
        rfl
      rw [hundefined]
      refine iff_of_false (hbad fun what h => by cases h) ?_
      intro ⟨file, hfile, _⟩
      cases hfile
  | some file =>
      have hfile := setupFile_readable hset file c
      have hcond : (∃ file', some file = some file' ∧ Readable rd file') ↔ Readable rd file := by
        simp
      rw [hcond, Consume.setup]
      by_cases hreadable : Readable rd file
      · refine iff_of_true ?_ hreadable
        cases hfile.of_fit hreadable with
        | inl hrefused =>
            obtain ⟨what, hwhat⟩ := hrefused
            rw [hwhat]
            exact Or.inl ⟨what, rfl⟩
        | inr hdone =>
            obtain ⟨d, hd, conf, hconf, hstrings, hsettings⟩ := hdone
            simp only [hd, bind, Except.bind, hconf]
            cases startConsumer_cases hset henv conf d with
            | inl hrefused => exact Or.inl hrefused
            | inr hstarted =>
                obtain ⟨e, he, hconsumer, hstore, hcreate⟩ := hstarted
                refine Or.inr ⟨e, _, he, hconsumer, hstore, hcreate, fun key => ?_⟩
                rw [store, hsettings]
                exact lastValue_layers env hstrings key
      · rw [hfile.of_unfit hreadable]
        exact iff_of_false (hbad fun what h => by cases h) hreadable

end Setup

def groupFile : Json :=
  .object [("topics".toList, .array [.string ['t']]),
    ("default_global_conf".toList, .object [(groupId, .string ['f'])])]

/-- The group is named twice more. -/
def groupEnvironment : Environment where
  getenv name := if name = "KAFKA_GROUP_ID".toList then some ['v'] else none
  envp := some ["RDKAFKA_SETVAR_GROUP_ID=s".toList]

theorem groupEnvironment_complete : SetvarsComplete groupEnvironment := by
  intro texts htexts text htext _
  cases htexts
  rw [List.mem_singleton.mp htext]
  decide

theorem groupFile_readable : Readable .willing groupFile where
  exclude_topics items hitems := by
    have hnone : groupFile.object_get "exclude_topics".toList = none := by rfl
    rw [hnone] at hitems
    cases hitems
  topics items hitems := by
    have hone : groupFile.object_get "topics".toList = some (.array [.string ['t']]) := by rfl
    rw [hone] at hitems
    cases hitems
    exact List.forall_mem_singleton.mpr fun members h => by cases h
  confs members hmembers _ := by
    have hone : groupFile.object_get "default_global_conf".toList =
        some (.object [(groupId, .string ['f'])]) := by rfl
    have hnone : groupFile.object_get "default_topic_conf".toList = none := by rfl
    rw [hone] at hmembers
    cases hmembers
    refine ⟨List.forall_mem_singleton.mpr ⟨_, rfl⟩, fun others hothers _ => ?_⟩
    rw [hnone] at hothers
    cases hothers

theorem groups_layered :
    Layered .willing groupEnvironment (some groupFile)
      (Consume.setup .willing groupEnvironment (some groupFile) .initial) :=
  (setup_layered_iff (fun _ _ _ => rfl) groupEnvironment_complete _ _ fun h => by cases h).mpr
    ⟨_, rfl, groupFile_readable⟩

example : layered groupEnvironment (globalMembers (some groupFile)) groupId = some ['s'] := by decide

/-- Without a file there is no object to store a setting in. -/
theorem no_file_undefined :
    (∀ type key val, RdKafka.willing.set type key val = none) ∧ SetvarsComplete groupEnvironment ∧
      ¬ Layered .willing groupEnvironment none
        (Consume.setup .willing groupEnvironment none .initial) := by
  refine ⟨fun _ _ _ => rfl, groupEnvironment_complete, fun h => ?_⟩
  cases h with
  | inl hrefused =>
      obtain ⟨what, hwhat⟩ := hrefused
      cases hwhat
  | inr hdone =>
      obtain ⟨d, conf, hd, -⟩ := hdone
      cases hd

end KafkaK3.SettingPrecedence
