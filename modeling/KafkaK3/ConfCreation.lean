import KafkaK3.Fallible
import KafkaK3.TopicDiscovery

/-!
# Configuration objects from JSON objects

`KafkaConf::create` hands the members of a JSON object to the Kafka library, one
after the other, and then a group name if none was among them. It does so for both
types of configuration, although only a global one takes a group name.
-/
namespace KafkaK3.ConfCreation
open DecimalText KafkaConfig TopicDiscovery Fallible

def groupId : Text := "group.id".toList

def defaultGroup : Text := "k3consumergroup".toList

/-- All members are strings. -/
def AllStrings (members : List (Text × Json)) : Prop := ∀ pair ∈ members, ∃ s, pair.2 = .string s

/-- The pairs which the strings of an object make. -/
def stringPairs (members : List (Text × Json)) : List (Text × Text) :=
  members.filterMap fun pair => pair.2.string_value.map fun val => (pair.1, val)

theorem mem_stringPairs {members : List (Text × Json)} (hmembers : AllStrings members)
    {pair : Text × Json} (hpair : pair ∈ members) : ∃ s, (pair.1, s) ∈ stringPairs members := by
  obtain ⟨s, hs⟩ := hmembers pair hpair
  exact ⟨s, List.mem_filterMap.mpr ⟨pair, hpair, by rw [hs]; rfl⟩⟩

section Create
variable {rd : RdKafka}

/-- The library takes each of the pairs. -/
def Accepted (rd : RdKafka) (type : ConfType) (pairs : List (Text × Text)) : Prop :=
  ∀ pair ∈ pairs, rd.set type pair.1 pair.2 = none

/-- The group name which is added to the members. -/
def addedGroup (members : List (Text × Json)) : List (Text × Text) :=
  if members.any fun pair => pair.1 = groupId then [] else [(groupId, defaultGroup)]

theorem set_accepted {conf : Conf} {key val : Text} (h : rd.set conf.type key val = none) :
    conf.set rd key val = ({ conf with settings := conf.settings ++ [(key, val)] }, none) := by
  rw [Conf.set, h]

theorem set_rejected {conf : Conf} {key val errstr : Text}
    (h : rd.set conf.type key val = some errstr) : conf.set rd key val = (conf, some errstr) := by
  rw [Conf.set, h]

theorem apply_string (conf : Conf) (key val : Text) :
    KafkaConf.apply rd conf (key, .string val) =
      match rd.set conf.type key val with
      | none => .ok { conf with settings := conf.settings ++ [(key, val)] }
      | some errstr =>
          .error (.invalid_argument ("Configure failure at line 41 ".toList ++ errstr)) := by
  cases h : rd.set conf.type key val with
  | none =>
      have hset : conf.set rd key val = _ := set_accepted h
      simp only [KafkaConf.apply, stdString, Json.string_value, bind, Except.bind, hset]
      rfl
  | some errstr =>
      have hset : conf.set rd key val = _ := set_rejected h
      simp only [KafkaConf.apply, stdString, Json.string_value, bind, Except.bind, hset]
      rfl

theorem stringPairs_string (key val : Text) (members : List (Text × Json)) :
    stringPairs ((key, .string val) :: members) = (key, val) :: stringPairs members := rfl

/-- The loop takes all pairs or stops at one which the library rejects. -/
theorem foldlM_apply {members : List (Text × Json)} (hmembers : AllStrings members) (conf : Conf) :
    (Accepted rd conf.type (stringPairs members) → members.foldlM (KafkaConf.apply rd) conf =
      .ok { conf with settings := conf.settings ++ stringPairs members }) ∧
    (¬ Accepted rd conf.type (stringPairs members) → ∃ what,
      members.foldlM (KafkaConf.apply rd) conf = .error (.invalid_argument what)) := by
  induction members generalizing conf with
  | nil =>
      constructor
      · intro _
        rw [stringPairs, List.filterMap_nil, List.append_nil]
        rfl
      · intro h
        exact absurd (fun pair hpair => absurd hpair List.not_mem_nil) h
  | cons pair members ih =>
      obtain ⟨⟨s, hs⟩, hrest⟩ := List.forall_mem_cons.mp hmembers
      obtain ⟨key, _⟩ := pair
      obtain rfl : _ = Json.string s := hs
      rw [List.foldlM_cons, apply_string, stringPairs_string]
      have hsplit : Accepted rd conf.type ((key, s) :: stringPairs members) ↔
          rd.set conf.type key s = none ∧ Accepted rd conf.type (stringPairs members) :=
        List.forall_mem_cons
      rw [hsplit]
      cases hset : rd.set conf.type key s with
      | some errstr => exact ⟨fun h => absurd h.1 (by simp), fun _ => ⟨_, rfl⟩⟩
      | none =>
          have hnext := ih hrest { conf with settings := conf.settings ++ [(key, s)] }
          constructor
          · intro h
            have hloop := hnext.1 h.2
            rw [List.append_assoc] at hloop
            exact hloop
          · exact fun h => hnext.2 fun hrest => h ⟨rfl, hrest⟩

theorem accepted_append {type : ConfType} {pairs others : List (Text × Text)} :
    Accepted rd type (pairs ++ others) ↔ Accepted rd type pairs ∧ Accepted rd type others :=
  List.forall_mem_append

/-- The end of the routine, when the loop has taken the pairs. -/
theorem create_of_loop {type : ConfType} (hcreate : rd.createConf type = true)
    {members : List (Text × Json)} {conf : Conf}
    (hloop : members.foldlM (KafkaConf.apply rd) ⟨type, [], none⟩ = .ok conf) :
    KafkaConf.create rd (.object members) type =
      if members.any fun pair => pair.1 = groupId then .ok (some conf)
      else
        match rd.set conf.type groupId defaultGroup with
        | none => .ok (some { conf with settings := conf.settings ++ [(groupId, defaultGroup)] })
        | some errstr => .error (.invalid_argument
            ("Configure failure for group.id at line 60 ".toList ++ errstr)) := by
  have hconf : Conf.create rd type = some ⟨type, [], none⟩ := if_pos hcreate
  rw [KafkaConf.create, hconf]
  dsimp only
  rw [hloop]
  cases hset : rd.set conf.type groupId defaultGroup with
  | none =>
      have hgroup : conf.set rd "group.id".toList "k3consumergroup".toList = _ := set_accepted hset
      simp only [bind, Except.bind, hgroup]
      rfl
  | some errstr =>
      have hgroup : conf.set rd "group.id".toList "k3consumergroup".toList = _ := set_rejected hset
      simp only [bind, Except.bind, hgroup]
      rfl

/-- What the routine does: it asks the library for the added group name too. -/
theorem create_object {type : ConfType} (hcreate : rd.createConf type = true)
    {members : List (Text × Json)} (hmembers : AllStrings members) :
    (Accepted rd type (stringPairs members ++ addedGroup members) →
      KafkaConf.create rd (.object members) type =
        .ok (some ⟨type, stringPairs members ++ addedGroup members, none⟩)) ∧
    (¬ Accepted rd type (stringPairs members ++ addedGroup members) → ∃ what,
      KafkaConf.create rd (.object members) type = .error (.invalid_argument what)) := by
  obtain ⟨htaken, hrejected⟩ := @foldlM_apply rd _ hmembers ⟨type, [], none⟩
  rw [accepted_append]
  by_cases hpairs : Accepted rd type (stringPairs members)
  · have hend := create_of_loop hcreate (htaken hpairs)
    dsimp only at hend
    rw [List.nil_append] at hend
    by_cases hany : members.any (fun pair => pair.1 = groupId) = true
    · have hadded : addedGroup members = [] := if_pos hany
      rw [if_pos hany] at hend
      rw [hadded, List.append_nil]
      exact ⟨fun _ => hend, fun h => absurd ⟨hpairs, fun _ hpair => absurd hpair List.not_mem_nil⟩ h⟩
    · have hadded : addedGroup members = [(groupId, defaultGroup)] := if_neg hany
      rw [if_neg hany] at hend
      have hone : Accepted rd type [(groupId, defaultGroup)] ↔
          rd.set type groupId defaultGroup = none := List.forall_mem_singleton
      rw [hadded, hone, and_iff_right hpairs]
      cases hset : rd.set type groupId defaultGroup with
      | none =>
          rw [hset] at hend
          exact ⟨fun _ => hend, fun h => absurd rfl h⟩
      | some errstr =>
          rw [hset] at hend
          exact ⟨fun h => absurd h (Option.some_ne_none _), fun _ => ⟨_, hend⟩⟩
  · obtain ⟨what, hloop⟩ := hrejected hpairs
    have hconf : Conf.create rd type = some ⟨type, [], none⟩ := if_pos hcreate
    refine ⟨fun h => absurd h.1 hpairs, fun _ => ⟨what, ?_⟩⟩
    rw [KafkaConf.create, hconf]
    dsimp only
    rw [hloop]
    rfl

end Create

/-- What the Kafka library says of a group name: it is one of the settings of a
global configuration and none of a topic's. -/
structure KnowsGroups (rd : RdKafka) : Prop where
  creates : ∀ type, rd.createConf type = true
  global : rd.set .CONF_GLOBAL groupId defaultGroup = none
  topic : ∀ val, rd.set .CONF_TOPIC groupId val ≠ none

/-- The routine fails only where the library rejects a member, and otherwise makes an
object of just the members, with a group name if it is a global one. -/
structure CreatesExactly (rd : RdKafka) (type : ConfType) (members : List (Text × Json)) : Prop where
  throws_iff : (∃ thrown, KafkaConf.create rd (.object members) type = .error thrown) ↔
    ¬ Accepted rd type (stringPairs members)
  holds : Accepted rd type (stringPairs members) →
    KafkaConf.create rd (.object members) type = .ok (some ⟨type, stringPairs members ++
      if type = .CONF_GLOBAL then addedGroup members else [], none⟩)
  topic : type = .CONF_TOPIC → Accepted rd type (stringPairs members) →
    ∀ (pjson : Json) (c : Consume), c.pconf.isSome = true →
      pjson.object_get "default_topic_conf".toList = some (.object members) →
      ∃ d, setup_default_topic_conf rd pjson c = .ok d

section Exact
variable {rd : RdKafka} {members : List (Text × Json)}

theorem addedGroup_rejected (h : KnowsGroups rd) (hmembers : AllStrings members)
    (hpairs : Accepted rd .CONF_TOPIC (stringPairs members)) :
    ¬ Accepted rd .CONF_TOPIC (stringPairs members ++ addedGroup members) := by
  have hnogroup : ¬ members.any (fun pair => pair.1 = groupId) = true := by
    intro hany
    obtain ⟨pair, hpair, hkey⟩ := List.any_eq_true.mp hany
    obtain ⟨s, hmem⟩ := mem_stringPairs hmembers hpair
    have hset := hpairs _ hmem
    rw [of_decide_eq_true hkey] at hset
    exact h.topic s hset
  have hadded : addedGroup members = [(groupId, defaultGroup)] := if_neg hnogroup
  intro hall
  exact h.topic defaultGroup (hall (groupId, defaultGroup)
    (List.mem_append_right _ (by rw [hadded]; exact List.mem_singleton_self _)))

theorem addedGroup_accepted (h : KnowsGroups rd) : Accepted rd .CONF_GLOBAL (addedGroup members) := by
  intro pair hpair
  rw [addedGroup] at hpair
  split at hpair
  next => exact absurd hpair List.not_mem_nil
  next =>
    rw [List.mem_singleton.mp hpair]
    exact h.global

/-- It does so for a global configuration, and for a topic's only where it fails. -/
theorem creates_exactly_iff (h : KnowsGroups rd) (type : ConfType) (hmembers : AllStrings members) :
    CreatesExactly rd type members ↔
      type = .CONF_GLOBAL ∨ ¬ Accepted rd type (stringPairs members) := by
  obtain ⟨hmade, hfailed⟩ := create_object (h.creates type) hmembers
  constructor
  · intro hexact
    cases type with
    | CONF_GLOBAL => exact Or.inl rfl
    | CONF_TOPIC =>
        refine Or.inr fun hpairs => ?_
        obtain ⟨what, hwhat⟩ := hfailed (addedGroup_rejected h hmembers hpairs)
        have hok := hexact.holds hpairs
        rw [hwhat] at hok
        cases hok
  · intro hcond
    by_cases hpairs : Accepted rd type (stringPairs members)
    · obtain rfl := hcond.resolve_right (fun hno => hno hpairs)
      have hok := hmade (accepted_append.mpr ⟨hpairs, addedGroup_accepted h⟩)
      refine ⟨iff_of_false ?_ (fun hno => hno hpairs), fun _ => ?_, fun htopic => by cases htopic⟩
      · intro ⟨thrown, hthrown⟩
        rw [hok] at hthrown
        cases hthrown
      · rw [hok, if_pos rfl]
    · obtain ⟨what, hwhat⟩ := hfailed (fun hall => hpairs (accepted_append.mp hall).1)
      exact ⟨iff_of_true ⟨_, hwhat⟩ hpairs, fun h => absurd h hpairs, fun _ h => absurd h hpairs⟩

end Exact

/-- Everything is taken but a group name for a topic. -/
def groupAwareSet : ConfType → Text → Text → Option Text
  | .CONF_GLOBAL, _, _ => none
  | .CONF_TOPIC, key, _ =>
      if key = groupId then some "No such configuration property".toList else none

def groupAware : RdKafka := { RdKafka.willing with set := groupAwareSet }

theorem groupAware_knows : KnowsGroups groupAware where
  creates _ := rfl
  global := rfl
  topic val := by
    have hset : groupAwareSet .CONF_TOPIC groupId val =
        some "No such configuration property".toList := by rw [groupAwareSet, if_pos rfl]
    exact fun h => absurd (hset.symm.trans h) (Option.some_ne_none _)

theorem global_created_exactly : CreatesExactly groupAware .CONF_GLOBAL
    [("metadata.broker.list".toList, .string ['b'])] :=
  (creates_exactly_iff groupAware_knows _ (List.forall_mem_singleton.mpr ⟨_, rfl⟩)).mpr (Or.inl rfl)

/-- An object which the library has no objection to fails as the settings of a topic. -/
theorem topic_conf_fails : KnowsGroups groupAware ∧
    AllStrings [("auto.offset.reset".toList, .string "earliest".toList)] ∧
    ¬ CreatesExactly groupAware .CONF_TOPIC
      [("auto.offset.reset".toList, .string "earliest".toList)] := by
  refine ⟨groupAware_knows, List.forall_mem_singleton.mpr ⟨_, rfl⟩, fun hexact => ?_⟩
  have hpairs : Accepted groupAware .CONF_TOPIC
      (stringPairs [("auto.offset.reset".toList, .string "earliest".toList)]) :=
    List.forall_mem_singleton.mpr rfl
  have hok := hexact.holds hpairs
  cases hok

end KafkaK3.ConfCreation
