import KafkaK3.DecimalText
import Mathlib.Data.Rat.Defs

/-!
# Configuration files, the environment and the Kafka library's settings

The configuration is a JSON value, the environment a function and a list of its
`NAME=value` texts. The Kafka library decides which settings it takes and which
objects it makes of them; its decisions are parameters. What the library or the
standard library throws ends the caller with a `Thrown`.
-/
namespace KafkaK3.KafkaConfig
open DecimalText

/-- A document as the library has parsed it; a real is the value of a double. -/
inductive Json where
  | null
  | boolean (b : Bool)
  | integer (n : Int64)
  | real (x : ℚ)
  | string (s : Text)
  | array (items : List Json)
  | object (members : List (Text × Json))

namespace Json

/-- `json_object_get`. -/
def object_get : Json → Text → Option Json
  | .object members, key => (members.find? fun member => member.1 = key).map Prod.snd
  | _, _ => none

/-- `json_string_value`, a null pointer for what is not a string. -/
def string_value : Json → Option Text
  | .string s => some s
  | _ => none

end Json

inductive Thrown where
  | invalid_argument (what : Text)
  | logic_error
  | out_of_range
  | undefined
  deriving DecidableEq, Repr

/-- A `std::string` made from a C string, which must not be null. -/
def stdString : Option Text → Except Thrown Text
  | some s => .ok s
  | none => .error .logic_error

inductive ConfType where
  | CONF_GLOBAL
  | CONF_TOPIC
  deriving DecidableEq, Repr

/-- The settings which a configuration object has taken, oldest first. -/
structure Conf where
  type : ConfType
  settings : List (Text × Text)
  default_topic_conf : Option (List (Text × Text))
  deriving DecidableEq, Repr

/-- The decisions of the library: an error text where it refuses. -/
structure RdKafka where
  createConf : ConfType → Bool
  set : ConfType → Text → Text → Option Text
  createConsumer : Conf → Option Text
  createProducer : Conf → Option Text
  createTopic : Text → Conf → Option Text

/-- A library which takes everything. -/
def RdKafka.willing : RdKafka :=
  ⟨fun _ => true, fun _ _ _ => none, fun _ => none, fun _ => none, fun _ _ => none⟩

structure Environment where
  getenv : Text → Option Text
  envp : Option (List Text)

def Environment.empty : Environment := ⟨fun _ => none, none⟩

section Settings
variable (rd : RdKafka)

/-- `RdKafka::Conf::create`. -/
def Conf.create (type : ConfType) : Option Conf :=
  if rd.createConf type then some ⟨type, [], none⟩ else none

/-- `RdKafka::Conf::set`, with the error text if the library refuses. -/
def Conf.set (conf : Conf) (key val : Text) : Conf × Option Text :=
  match rd.set conf.type key val with
  | none => ({ conf with settings := conf.settings ++ [(key, val)] }, none)
  | some errstr => (conf, some errstr)

/-- One pair of the loop in `KafkaConf::create`. -/
def KafkaConf.apply (conf : Conf) (pair : Text × Json) : Except Thrown Conf := do
  let val ← stdString pair.2.string_value
  match conf.set rd pair.1 val with
  | (conf, none) => pure conf
  | (_, some errstr) =>
      throw (.invalid_argument ("Configure failure at line 41 ".toList ++ errstr))

/-- `KafkaConf::create`; no object is made from what is not a JSON object. -/
def KafkaConf.create (pjson : Json) (intype : ConfType) : Except Thrown (Option Conf) :=
  match pjson with
  | .object members =>
      match Conf.create rd intype with
      | none => throw (.invalid_argument "Failed to create conf object at 28".toList)
      | some conf => do
          let conf ← members.foldlM (KafkaConf.apply rd) conf
          if members.any fun pair => pair.1 = "group.id".toList then pure (some conf)
          else
            match conf.set rd "group.id".toList "k3consumergroup".toList with
            | (conf, none) => pure (some conf)
            | (_, some errstr) => throw (.invalid_argument
                ("Configure failure for group.id at line 60 ".toList ++ errstr))
  | _ => pure none

/-- A setting from one environment variable, if there is such a variable; what the
library says is not looked at. -/
def setFromEnv (env : Environment) (name key : Text) (conf : Conf) : Conf :=
  match env.getenv name with
  | some s => (conf.set rd key s).1
  | none => conf

def setvarMark : Text := "RDKAFKA_SETVAR_".toList

/-- One environment text which may carry a setting: the name behind the mark, with
dots for its underscores and in small letters, and the value behind the equals sign. -/
def setvar (conf : Conf) (fullenvname : Text) : Except Thrown Conf :=
  if fullenvname.take setvarMark.length = setvarMark then
    let envname := fullenvname.drop setvarMark.length
    let key := envname.takeWhile fun c => c ≠ '='
    if envname.length < key.length + 1 then throw .out_of_range
    else
      let val := envname.drop (key.length + 1)
      let key := key.map fun c => if c = '_' then '.' else c
      let key := key.map Char.toLower
      if 0 < key.length ∧ 0 < val.length then pure (conf.set rd key val).1 else pure conf
  else pure conf

def setvars (envp : Option (List Text)) (conf : Conf) : Except Thrown Conf :=
  match envp with
  | some texts => texts.foldlM (setvar rd) conf
  | none => pure conf

end Settings

end KafkaK3.KafkaConfig
