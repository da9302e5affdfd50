import KafkaK3.Fallible
import KafkaK3.TopicDiscovery
import Mathlib.Data.List.Induction

/-!
# The list of topics

The list starts with the configured topics which no exclude pattern matches, and
a discovery round appends to it what the metadata has new, in the order of the
metadata. A topic is new if it is not internal, no exclude pattern matches it
and no entry of the list does, read as a pattern: an entry which was appended a
moment ago counts too. Every entry matches itself, so nothing is appended twice.
-/
namespace KafkaK3.TopicList
open DecimalText Wildcard KafkaConfig TopicDiscovery Fallible

/-- What a discovery round has to append, as far as one topic is concerned. -/
structure IsNew (exclude known : List Text) (t : Text) : Prop where
  external : ¬ ['_', '_'] <+: t
  included : ∀ glob ∈ exclude, ¬ GlobMatch glob t
  fresh : ∀ entry ∈ known, ¬ GlobMatch entry t

/-- The topics `ts` of the metadata make the list grow by `new`. -/
inductive Appends (exclude : List Text) : List Text → List Text → List Text → Prop
  | done (known : List Text) : Appends exclude known [] []
  | append {known ts new : List Text} {t : Text} : IsNew exclude known t →
      Appends exclude (known ++ [t]) ts new → Appends exclude known (t :: ts) (t :: new)
  | pass {known ts new : List Text} {t : Text} : ¬ IsNew exclude known t →
      Appends exclude known ts new → Appends exclude known (t :: ts) new

section Append
variable {exclude known ts new : List Text}

theorem Appends.included (h : Appends exclude known ts new) :
    ∀ t ∈ new, ∀ glob ∈ exclude, ¬ GlobMatch glob t := by
  induction h with
  | done known => exact fun t ht => absurd ht List.not_mem_nil
  | append hnew _ ih => exact List.forall_mem_cons.mpr ⟨hnew.included, ih⟩
  | pass _ _ ih => exact ih

theorem Appends.fresh (h : Appends exclude known ts new) :
    ∀ t ∈ new, ∀ entry ∈ known, ¬ GlobMatch entry t := by
  induction h with
  | done known => exact fun t ht => absurd ht List.not_mem_nil
  | append hnew _ ih =>
      refine List.forall_mem_cons.mpr ⟨hnew.fresh, fun t ht entry hentry => ?_⟩
      exact ih t ht entry (List.mem_append_left _ hentry)
  | pass _ _ ih => exact ih

/-- Nothing is appended which is there already, since every text matches itself. -/
theorem Appends.notMem (h : Appends exclude known ts new) : ∀ t ∈ new, t ∉ known :=
  fun t ht hknown => h.fresh t ht t hknown (globMatch_self t)

theorem Appends.nodup (h : Appends exclude known ts new) : new.Nodup := by
  induction h with
  | done known => exact List.nodup_nil
  | @append known ts new t _ hrest ih =>
      refine List.nodup_cons.mpr ⟨fun ht => ?_, ih⟩
      exact hrest.notMem t ht (List.mem_append_right _ (List.mem_singleton_self t))
  | pass _ _ ih => exact ih

theorem Appends.sublist (h : Appends exclude known ts new) : new.Sublist ts := by
  induction h with
  | done known => exact List.Sublist.refl []
  | append _ _ ih => exact ih.cons_cons _
  | pass _ _ ih => exact ih.cons _

/-- Nothing is appended exactly when the metadata has nothing new. -/
theorem Appends.eq_nil_iff (h : Appends exclude known ts new) :
    new = [] ↔ ∀ t ∈ ts, ¬ IsNew exclude known t := by
  induction h with
  | done known => exact iff_of_true rfl fun t ht => absurd ht List.not_mem_nil
  | append hnew _ _ =>
      refine iff_of_false (List.cons_ne_nil _ _) fun h => ?_
      exact h _ List.mem_cons_self hnew
  | pass hold _ ih => rw [ih, List.forall_mem_cons, and_iff_right hold]

end Append

section Round
variable (c : Consume)

theorem topic_excluded_iff (t : Text) :
    c.topic_excluded t = true ↔ ∃ glob ∈ c.exclude_topics, GlobMatch glob t := by
  simp [Consume.topic_excluded, strcmp_iff]

theorem topic_already_in_subscriptions_iff (t : Text) :
    c.topic_already_in_subscriptions t = true ↔ ∃ entry ∈ c.topics, GlobMatch entry t := by
  simp [Consume.topic_already_in_subscriptions, strcmp_iff]

/-- The three tests of the loop ask whether the topic is new. -/
theorem isNew_iff (t : Text) :
    (t.take 2 ≠ ['_', '_'] ∧ ¬ c.topic_excluded t ∧ ¬ c.topic_already_in_subscriptions t) ↔
      IsNew c.exclude_topics c.topics t := by
  have hmark : t.take 2 = ['_', '_'] ↔ ['_', '_'] <+: t := by
    rw [List.prefix_iff_eq_take, eq_comm]
    rfl
  rw [ne_eq, hmark, topic_excluded_iff, topic_already_in_subscriptions_iff]
  constructor
  · intro ⟨hmark, hexclude, hknown⟩
    exact ⟨hmark, fun glob hglob hm => hexclude ⟨glob, hglob, hm⟩,
      fun entry hentry hm => hknown ⟨entry, hentry, hm⟩⟩
  · intro ⟨hmark, hexclude, hknown⟩
    exact ⟨hmark, fun ⟨glob, hglob, hm⟩ => hexclude glob hglob hm,
      fun ⟨entry, hentry, hm⟩ => hknown entry hentry hm⟩

/-- The loop appends what is new, and marks whether there was anything. -/
theorem foldl_discoverTopic (ts : List Text) (updated : Bool) :
    ∃ new, Appends c.exclude_topics c.topics ts new ∧
      ts.foldl discoverTopic (c, updated) =
        ({ c with topics := c.topics ++ new }, updated || !new.isEmpty) := by
  induction ts generalizing c updated with
  | nil => exact ⟨[], .done _, by simp⟩
  | cons t ts ih =>
      by_cases hnew : IsNew c.exclude_topics c.topics t
      · obtain ⟨new, happends, hfold⟩ := ih { c with topics := c.topics ++ [t] } true
        refine ⟨t :: new, .append hnew happends, ?_⟩
        have hstep : discoverTopic (c, updated) t =
            ({ c with topics := c.topics ++ [t] }, true) := if_pos ((isNew_iff c t).mpr hnew)
        rw [List.foldl_cons, hstep, hfold]
        simp
      · obtain ⟨new, happends, hfold⟩ := ih c updated
        refine ⟨new, .pass hnew happends, ?_⟩
        have hstep : discoverTopic (c, updated) t = (c, updated) :=
          if_neg (mt (isNew_iff c t).mp hnew)
        rw [List.foldl_cons, hstep, hfold]

/-- What a discovery round does. -/
theorem autoDiscoverTopics_cases (r : MetadataResponse) :
    ∃ new, Appends c.exclude_topics c.topics r.discovered new ∧
      c.autoDiscoverTopics r =
        { c with
          topics := c.topics ++ new
          subscriptions := c.subscriptions ++ if new = [] then [] else [c.topics ++ new] } := by
  obtain ⟨new, happends, hfold⟩ := foldl_discoverTopic c r.discovered false
  refine ⟨new, happends, ?_⟩
  unfold Consume.autoDiscoverTopics
  rw [hfold]
  cases new with
  | nil => simp
  | cons t new => simp

/-- The round walks through the list of the response. -/
theorem discovered_of_listed {r : MetadataResponse} {ts : List Text} (hok : r.noError = true)
    (hlist : r.pmetadata = some ⟨some ts⟩) : r.discovered = ts := by
  simp [MetadataResponse.discovered, hok, hlist]

theorem discovered_of_listless {r : MetadataResponse} (h : r.pmetadata = some ⟨none⟩) :
    r.discovered = [] := by
  simp [MetadataResponse.discovered, h]

theorem discovered_of_failed {r : MetadataResponse} (h : ¬ r.Succeeded) : r.discovered = [] := by
  unfold MetadataResponse.discovered
  split
  next metadata hm =>
    split
    next hok => exact absurd ⟨hok, by rw [hm]; rfl⟩ h
    next => rfl
  next => rfl

end Round

section Setup
variable {rd : RdKafka} {env : Environment} {config : Json} {c d : Consume}

/-- The topic which one entry of the configuration names. -/
def topicName : Json → Option Text
  | .string s => some s
  | .object members => ((Json.object members).object_get "name".toList).bind Json.string_value
  | _ => none

def topicNames (config : Json) (key : Text) : List Text :=
  match config.object_get key with
  | some (.array items) => items.filterMap topicName
  | _ => []

def excludeTopics (config : Json) : List Text := topicNames config "exclude_topics".toList

/-- The topics of the configuration which no exclude pattern matches. -/
def configuredTopics (config : Json) : List Text :=
  (topicNames config "topics".toList).filter fun t =>
    ¬ (excludeTopics config).any fun glob => strcmp glob t

/-- Whether the configuration turns the discovery of topics on. -/
def autoDiscovers (config : Json) : Bool :=
  match config.object_get "general".toList with
  | some (.object members) =>
      match (Json.object members).object_get "auto_discover_topics".toList with
      | some (.boolean true) => true
      | _ => false
  | _ => false

/-- What the setup of the topics and the discovery rounds look at. -/
structure Outline where
  exclude_topics : List Text
  topics : List Text
  auto_discover_topics : Bool
  subscriptions : List (List Text)

def outline (c : Consume) : Outline :=
  ⟨c.exclude_topics, c.topics, c.auto_discover_topics, c.subscriptions⟩

theorem fields_of_outline {exclude topics : List Text} {auto : Bool} {subscribed : List (List Text)}
    (h : outline c = ⟨exclude, topics, auto, subscribed⟩) :
    c.exclude_topics = exclude ∧ c.topics = topics ∧ c.auto_discover_topics = auto ∧
      c.subscriptions = subscribed := by
  simpa only [outline, Outline.mk.injEq] using h

theorem pushTopic_ok {push : Consume → Text → Consume} {pval : Json}
    (h : pushTopic push c pval = .ok d) :
    d = match topicName pval with
      | some s => push c s
      | none => c := by
  cases pval with
  | string s =>
      cases h
      rfl
  | object members =>
      simp only [pushTopic, topicName] at h ⊢
      cases hname : (Json.object members).object_get "name".toList with
      | none =>
          rw [hname] at h
          cases h
          rfl
      | some pname =>
          rw [hname] at h
          obtain ⟨s, hs, hd⟩ := bind_eq_ok.mp h
          cases hd
          cases hvalue : pname.string_value with
          | none =>
              rw [hvalue] at hs
              cases hs
          | some name =>
              rw [hvalue] at hs
              cases hs
              simp [hvalue]
  | _ =>
      cases h
      rfl

theorem pushTopics_ok {key : Text} {push : Consume → Text → Consume}
    (h : pushTopics key push config c = .ok d) : d = (topicNames config key).foldl push c := by
  unfold pushTopics at h
  unfold topicNames
  cases hentries : config.object_get key with
  | none =>
      rw [hentries] at h
      cases h
      rfl
  | some entries =>
      rw [hentries] at h
      cases entries with
      | array items =>
          have hwalk := eq_foldl_of_foldlM (fun _ _ _ => pushTopic_ok) h
          dsimp only
          rw [hwalk, List.foldl_filterMap]
          congr 1
          funext e pval
          cases topicName pval <;> rfl
      | _ =>
          cases h
          rfl

theorem outline_exclude (h : setup_exclude_topics config c = .ok d) :
    outline d = ⟨c.exclude_topics ++ excludeTopics config, c.topics, c.auto_discover_topics,
      c.subscriptions⟩ := by
  have hfold (names : List Text) (c : Consume) :
      outline (names.foldl (fun c s => { c with exclude_topics := c.exclude_topics ++ [s] }) c) =
        ⟨c.exclude_topics ++ names, c.topics, c.auto_discover_topics, c.subscriptions⟩ := by
    induction names generalizing c with
    | nil => simp [outline]
    | cons s names ih =>
        rw [List.foldl_cons, ih]
        simp
  rw [pushTopics_ok h]
  exact hfold _ c

theorem outline_topics (h : setup_topics config c = .ok d) :
    outline d = ⟨c.exclude_topics, c.topics ++ (topicNames config "topics".toList).filter
        fun t => ¬ c.topic_excluded t, c.auto_discover_topics, c.subscriptions⟩ := by
  have hfold (names : List Text) (c : Consume) :
      outline (names.foldl (fun c s =>
          if c.topic_excluded s then c else { c with topics := c.topics ++ [s] }) c) =
        ⟨c.exclude_topics, c.topics ++ names.filter fun t => ¬ c.topic_excluded t,
          c.auto_discover_topics, c.subscriptions⟩ := by
    induction names generalizing c with
    | nil => simp [outline]
    | cons s names ih =>
        rw [List.foldl_cons, ih]
        by_cases hs : c.topic_excluded s = true
        · simp [hs]
        · rw [if_neg hs, List.filter_cons_of_pos (by simpa using hs), ← List.append_cons]
          rfl
  rw [pushTopics_ok h]
  exact hfold _ c

theorem outline_general (config : Json) (c : Consume) :
    outline (setup_general config c) = ⟨c.exclude_topics, c.topics,
      c.auto_discover_topics || autoDiscovers config, c.subscriptions⟩ := by
  have hflag (member : Option Json) (old : Bool) :
      (match member with
        | some (.boolean true) => true
        | _ => old) =
      (old || match member with
        | some (.boolean true) => true
        | _ => false) := by
    split
    · exact (Bool.or_true old).symm
    · exact (Bool.or_false old).symm
  unfold setup_general autoDiscovers outline
  cases config.object_get "general".toList with
  | none => exact congrArg (Outline.mk _ _ · _) (Bool.or_false _).symm
  | some general =>
      cases general with
      | object members => exact congrArg (Outline.mk _ _ · _) (hflag _ _)
      | _ => exact congrArg (Outline.mk _ _ · _) (Bool.or_false _).symm

theorem outline_global_conf (h : setup_default_global_conf rd config c = .ok d) :
    outline d = outline c := by
  unfold setup_default_global_conf at h
  split at h
  · obtain ⟨pconf, _, hd⟩ := bind_eq_ok.mp h
    cases hd
    rfl
  · cases h

theorem outline_topic_conf (h : setup_default_topic_conf rd config c = .ok d) :
    outline d = outline c := by
  unfold setup_default_topic_conf at h
  split at h
  · obtain ⟨tconf, _, hd⟩ := bind_eq_ok.mp h
    cases tconf with
    | none => cases hd
    | some tconf =>
        cases hd
        rfl
  · cases h
    rfl

theorem outline_file (h : setupFile rd config .initial = .ok c) :
    outline c = ⟨excludeTopics config, configuredTopics config, autoDiscovers config, []⟩ := by
  obtain ⟨c₁, h₁, h⟩ := bind_eq_ok.mp h
  obtain ⟨c₂, h₂, h⟩ := bind_eq_ok.mp h
  obtain ⟨c₃, h₃, h⟩ := bind_eq_ok.mp h
  obtain ⟨hexclude, hnone, hoff, hunsubscribed⟩ := fields_of_outline (outline_exclude h₁)
  obtain ⟨hkept, htopics, hauto, hsubscriptions⟩ := fields_of_outline (outline_topics h₂)
  rw [outline_topic_conf h, outline_global_conf h₃, outline_general, hkept, htopics, hauto,
    hsubscriptions, hexclude, hnone, hoff, hunsubscribed]
  simp only [configuredTopics, Consume.topic_excluded, hexclude]
  rfl

theorem outline_subscribe (h : subscribeConfigured c = .ok d) :
    outline d = ⟨c.exclude_topics, c.topics, c.auto_discover_topics,
      c.subscriptions ++ if c.auto_discover_topics = true then [] else [c.topics]⟩ := by
  unfold subscribeConfigured at h
  split at h
  next hoff =>
    split at h
    next =>
      cases h
      simp only [Bool.not_eq_true'] at hoff
      simp [outline, hoff]
    next => cases h
  next hon =>
    cases h
    simp only [Bool.not_eq_true', Bool.not_eq_false] at hon
    simp [outline, hon]

/-- What a setup which returns leaves to the discovery rounds. -/
theorem outline_setup {pjson : Option Json} (h : Consume.setup rd env pjson .initial = .ok c) :
    outline c = ⟨excludeTopics (pjson.getD .null), configuredTopics (pjson.getD .null),
      autoDiscovers (pjson.getD .null),
      if autoDiscovers (pjson.getD .null) = true then []
        else [configuredTopics (pjson.getD .null)]⟩ := by
  cases pjson with
  | none => cases h
  | some config =>
      obtain ⟨d, hfile, h⟩ := bind_eq_ok.mp h
      obtain ⟨hexclude, htopics, hauto, hsubscriptions⟩ := fields_of_outline (outline_file hfile)
      dsimp only at h
      split at h
      next => cases h
      next conf _ =>
        obtain ⟨conf, _, h⟩ := bind_eq_ok.mp h
        split at h
        next => cases h
        next =>
          rw [outline_subscribe h]
          simp only [hexclude, htopics, hauto, hsubscriptions, List.nil_append]
          rfl

end Setup

section Rounds
variable (c : Consume) (rs : List MetadataResponse) (r : MetadataResponse)

theorem rounds_concat : rounds c (rs ++ [r]) = (rounds c rs).autoDiscoverTopics r := by
  simp [rounds]

theorem exclude_topics_rounds : (rounds c rs).exclude_topics = c.exclude_topics := by
  induction rs using List.reverseRecOn with
  | nil => rfl
  | append_singleton rs r ih =>
      obtain ⟨new, _, hround⟩ := autoDiscoverTopics_cases (rounds c rs) r
      rw [rounds_concat, hround]
      exact ih

theorem autoDiscoverTopics_of_nil (h : r.discovered = []) : c.autoDiscoverTopics r = c := by
  rw [Consume.autoDiscoverTopics, h]
  rfl

theorem autoDiscoverTopics_of_failed (h : ¬ r.Succeeded) : c.autoDiscoverTopics r = c :=
  autoDiscoverTopics_of_nil c r (discovered_of_failed h)

/-- A round keeps the list free of excluded topics, since it asks each topic. -/
theorem clean_rounds (h : ∀ t ∈ c.topics, ∀ glob ∈ c.exclude_topics, ¬ GlobMatch glob t) :
    ∀ t ∈ (rounds c rs).topics, ∀ glob ∈ c.exclude_topics, ¬ GlobMatch glob t := by
  induction rs using List.reverseRecOn with
  | nil => exact h
  | append_singleton rs r ih =>
      obtain ⟨new, happends, hround⟩ := autoDiscoverTopics_cases (rounds c rs) r
      rw [rounds_concat, hround]
      intro t ht
      rcases List.mem_append.mp ht with hold | hnew
      · exact ih t hold
      · rw [← exclude_topics_rounds c rs]
        exact happends.included t hnew

end Rounds

/-- What holds of the topics after the setup and after every discovery round. A response
brings a list of topics, or it leaves everything as it was. -/
structure TopicsKept (config : Json) (c : Consume) : Prop where
  exclude : ∀ rs, (rounds c rs).exclude_topics = excludeTopics config
  clean : ∀ rs, ∀ t ∈ (rounds c rs).topics, ∀ glob ∈ (rounds c rs).exclude_topics,
    ¬ GlobMatch glob t
  grows : ∀ rs r ts, r.noError = true → r.pmetadata = some ⟨some ts⟩ →
    ∃ new, (rounds c (rs ++ [r])).topics = (rounds c rs).topics ++ new ∧
      Appends (rounds c rs).exclude_topics (rounds c rs).topics ts new ∧
      new.Nodup ∧ ∀ t ∈ new, t ∉ (rounds c rs).topics
  listless : ∀ rs r, r.pmetadata = some ⟨none⟩ → rounds c (rs ++ [r]) = rounds c rs
  failed : ∀ rs r, ¬ r.Succeeded → rounds c (rs ++ [r]) = rounds c rs

theorem topics_kept {rd : RdKafka} {env : Environment} {pjson : Option Json} {c : Consume}
    (h : Consume.setup rd env pjson .initial = .ok c) : TopicsKept (pjson.getD .null) c := by
  obtain ⟨hexclude, htopics, -, -⟩ := fields_of_outline (outline_setup h)
  have hclean : ∀ t ∈ c.topics, ∀ glob ∈ c.exclude_topics, ¬ GlobMatch glob t := by
    intro t ht glob hglob hmatch
    rw [htopics] at ht
    have hfree := (List.mem_filter.mp ht).2
    rw [hexclude] at hglob
    simp only [List.any_eq_true, decide_eq_true_eq] at hfree
    exact hfree ⟨glob, hglob, strcmp_iff.mpr hmatch⟩
  constructor
  case exclude => exact fun rs => (exclude_topics_rounds c rs).trans hexclude
  case clean =>
    intro rs
    rw [exclude_topics_rounds]
    exact clean_rounds c rs hclean
  case grows =>
    intro rs r ts hok hlist
    obtain ⟨new, happends, hround⟩ := autoDiscoverTopics_cases (rounds c rs) r
    rw [discovered_of_listed hok hlist] at happends
    refine ⟨new, ?_, happends, happends.nodup, happends.notMem⟩
    rw [rounds_concat, hround]
  case listless =>
    intro rs r hr
    rw [rounds_concat]
    exact autoDiscoverTopics_of_nil _ r (discovered_of_listless hr)
  case failed =>
    intro rs r hr
    rw [rounds_concat]
    exact autoDiscoverTopics_of_failed _ r hr

/-- A configuration with one topic, one exclude pattern and discovery turned on. -/
def discoveringConfig : Json :=
  .object [("topics".toList, .array [.string ['a']]),
    ("exclude_topics".toList, .array [.object [("name".toList, .string ['b', '*'])]]),
    ("general".toList, .object [("auto_discover_topics".toList, .boolean true)]),
    ("default_global_conf".toList, .object [])]

theorem topics_kept_discovering :
    ∃ c, Consume.setup .willing .empty (some discoveringConfig) .initial = .ok c ∧
      TopicsKept discoveringConfig c := by
  have hsetup : Consume.setup .willing .empty (some discoveringConfig) .initial = .ok _ := rfl
  exact ⟨_, hsetup, topics_kept hsetup⟩

end KafkaK3.TopicList
