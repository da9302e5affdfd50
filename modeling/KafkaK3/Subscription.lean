import KafkaK3.TopicList

/-!
# The subscription

With discovery off the setup subscribes to the configured topics. With discovery
on it leaves the subscription to the discovery rounds, and these subscribe only
when they have found something new. Configured topics stay without a
subscription until then, and for ever if nothing new comes up at first.
-/
namespace KafkaK3.Subscription
open DecimalText Wildcard KafkaConfig TopicDiscovery TopicList

/-- The last subscription is to the topics in the list. -/
def Agrees (c : Consume) : Prop := c.topics = c.subscriptions.getLast?.getD []

/-- After a setup without discovery, and after every successful round of one with. -/
structure SubscriptionAgrees (c : Consume) (responses : List MetadataResponse) : Prop where
  configured : c.auto_discover_topics = false → Agrees c
  discovered : c.auto_discover_topics = true → ∀ rs r, rs ++ [r] <+: responses → r.Succeeded →
    Agrees (rounds c (rs ++ [r]))

section Round
variable {c : Consume} {r : MetadataResponse}

theorem agrees_round (h : Agrees c) : Agrees (c.autoDiscoverTopics r) := by
  obtain ⟨new, _, hround⟩ := autoDiscoverTopics_cases c r
  rw [hround]
  by_cases hnew : new = []
  · simpa [hnew, Agrees] using h
  · simp [hnew, Agrees]

/-- A round which finds something new puts the subscription right. -/
theorem agrees_of_new {t : Text} (ht : t ∈ r.discovered)
    (hnew : IsNew c.exclude_topics c.topics t) : Agrees (c.autoDiscoverTopics r) := by
  obtain ⟨new, happends, hround⟩ := autoDiscoverTopics_cases c r
  have hsome : new ≠ [] := fun hnone => happends.eq_nil_iff.mp hnone t ht hnew
  rw [hround]
  simp [hsome, Agrees]

/-- A round which finds nothing new changes nothing. -/
theorem round_of_nothing_new (h : ∀ t ∈ r.discovered, ¬ IsNew c.exclude_topics c.topics t) :
    c.autoDiscoverTopics r = c := by
  obtain ⟨new, happends, hround⟩ := autoDiscoverTopics_cases c r
  have hnone := happends.eq_nil_iff.mpr h
  rw [hround, hnone]
  simp

theorem rounds_append (c : Consume) (rs qs : List MetadataResponse) :
    rounds c (rs ++ qs) = rounds (rounds c rs) qs := List.foldl_append

theorem agrees_rounds (h : Agrees c) (rs : List MetadataResponse) : Agrees (rounds c rs) := by
  induction rs generalizing c with
  | nil => exact h
  | cons r rs ih => exact ih (agrees_round h)

theorem rounds_of_failed {rs : List MetadataResponse} (h : ∀ r ∈ rs, ¬ r.Succeeded) :
    rounds c rs = c := by
  induction rs with
  | nil => rfl
  | cons r rs ih =>
      have hr := autoDiscoverTopics_of_failed c r (h r List.mem_cons_self)
      rw [rounds, List.foldl_cons, hr]
      exact ih fun s hs => h s (List.mem_cons_of_mem _ hs)

end Round

/-- The first response to bring metadata. -/
def firstSuccess (responses : List MetadataResponse) : Option MetadataResponse :=
  responses.find? fun r => r.Succeeded

theorem firstSuccess_split {responses : List MetadataResponse} {r : MetadataResponse}
    (h : firstSuccess responses = some r) :
    r.Succeeded ∧ ∃ pre post, responses = pre ++ r :: post ∧ ∀ s ∈ pre, ¬ s.Succeeded := by
  obtain ⟨hr, pre, post, hsplit, hpre⟩ := List.find?_eq_some_iff_append.mp h
  refine ⟨by simpa using hr, pre, post, hsplit, fun s hs => ?_⟩
  simpa using hpre s hs

/-- The response lists a topic which is new. -/
def ListsNew (exclude known : List Text) (r : MetadataResponse) : Prop :=
  ∃ ts, r.pmetadata = some ⟨some ts⟩ ∧ ∃ t ∈ ts, IsNew exclude known t

/-- A round over a successful response walks through its list. -/
theorem listsNew_iff {exclude known : List Text} {r : MetadataResponse} (h : r.Succeeded) :
    ListsNew exclude known r ↔ ∃ t ∈ r.discovered, IsNew exclude known t := by
  constructor
  · intro ⟨ts, hlist, hnew⟩
    rwa [discovered_of_listed h.1 hlist]
  · intro hnew
    obtain ⟨⟨topics⟩, hmetadata⟩ := Option.isSome_iff_exists.mp h.2
    cases topics with
    | none =>
        rw [discovered_of_listless hmetadata] at hnew
        obtain ⟨t, ht, -⟩ := hnew
        cases ht
    | some ts =>
        rw [discovered_of_listed h.1 hmetadata] at hnew
        exact ⟨ts, hmetadata, hnew⟩

/-- By the time of a success there has been a first one. -/
theorem firstSuccess_by {responses rs : List MetadataResponse} {r : MetadataResponse}
    (hrs : rs ++ [r] <+: responses) (hr : r.Succeeded) :
    ∃ first, firstSuccess responses = some first ∧ firstSuccess (rs ++ [r]) = some first := by
  have hsome : (firstSuccess (rs ++ [r])).isSome := by
    rw [firstSuccess, List.find?_isSome]
    exact ⟨r, List.mem_append_right _ (List.mem_singleton_self r), by simpa using hr⟩
  obtain ⟨first, hfirst⟩ := Option.isSome_iff_exists.mp hsome
  obtain ⟨rest, rfl⟩ := hrs
  refine ⟨first, ?_, hfirst⟩
  rw [firstSuccess, List.find?_append]
  exact congrArg (Option.or · _) hfirst

/-- From the first success on the subscription agrees, if that success brings
something new. -/
theorem agrees_from_first {c : Consume} {responses : List MetadataResponse} {first : MetadataResponse}
    (hfirst : firstSuccess responses = some first)
    (hnew : ListsNew c.exclude_topics c.topics first) : Agrees (rounds c responses) := by
  obtain ⟨hsucceeded, pre, post, hsplit, hpre⟩ := firstSuccess_split hfirst
  obtain ⟨t, ht, hisnew⟩ := (listsNew_iff hsucceeded).mp hnew
  rw [hsplit, List.append_cons, rounds_append, rounds_concat, rounds_of_failed hpre]
  exact agrees_rounds (agrees_of_new ht hisnew) post

/-- The rounds which follow a setup. -/
theorem agrees_rounds_iff {c : Consume}
    (hsubscriptions : c.subscriptions = if c.auto_discover_topics = true then [] else [c.topics])
    (responses : List MetadataResponse) :
    SubscriptionAgrees c responses ↔
      (c.auto_discover_topics = true → c.topics ≠ [] →
        ∀ first, firstSuccess responses = some first →
          ListsNew c.exclude_topics c.topics first) := by
  constructor
  · intro hagrees hon hsome first hfirst
    obtain ⟨hsucceeded, pre, post, hsplit, hpre⟩ := firstSuccess_split hfirst
    rw [listsNew_iff hsucceeded]
    by_contra hnothing
    have hnone : ∀ t ∈ first.discovered, ¬ IsNew c.exclude_topics c.topics t :=
      fun t ht hnew => hnothing ⟨t, ht, hnew⟩
    have hround := hagrees.discovered hon pre first ⟨post, by simp [hsplit]⟩ hsucceeded
    rw [rounds_concat, rounds_of_failed hpre, round_of_nothing_new hnone, Agrees, hsubscriptions,
      if_pos hon] at hround
    exact hsome hround
  · intro hcondition
    constructor
    case configured =>
      intro hoff
      rw [Agrees, hsubscriptions, hoff]
      rfl
    case discovered =>
      intro hon rs r hrs hr
      by_cases hempty : c.topics = []
      · apply agrees_rounds
        rw [Agrees, hsubscriptions, if_pos hon, hempty]
        rfl
      · obtain ⟨first, hfirst, hseen⟩ := firstSuccess_by hrs hr
        exact agrees_from_first hseen (hcondition hon hempty first hfirst)

/-- With discovery on and topics configured, the subscription agrees with the list
exactly when the first metadata bring a topic which is new. -/
theorem subscription_agrees_iff {rd : RdKafka} {env : Environment} {pjson : Option Json}
    {c : Consume} (h : Consume.setup rd env pjson .initial = .ok c)
    (responses : List MetadataResponse) :
    SubscriptionAgrees c responses ↔
      (autoDiscovers (pjson.getD .null) = true → configuredTopics (pjson.getD .null) ≠ [] →
        ∀ first, firstSuccess responses = some first →
          ListsNew (excludeTopics (pjson.getD .null)) (configuredTopics (pjson.getD .null)) first) := by
  obtain ⟨hexclude, htopics, hauto, hsubscriptions⟩ := fields_of_outline (outline_setup h)
  rw [← hexclude, ← htopics, ← hauto]
  rw [← htopics, ← hauto] at hsubscriptions
  exact agrees_rounds_iff hsubscriptions responses

/-- The broker has another topic than the configured one. -/
theorem new_topic_subscribed :
    ∃ c, Consume.setup .willing .empty (some discoveringConfig) .initial = .ok c ∧
      SubscriptionAgrees c [⟨true, some ⟨some [['a'], ['c']]⟩⟩] := by
  have hsetup : Consume.setup .willing .empty (some discoveringConfig) .initial = .ok _ := rfl
  refine ⟨_, hsetup, (subscription_agrees_iff hsetup _).mpr fun _ _ first hfirst => ?_⟩
  cases hfirst
  have hstar : ¬ GlobMatch ['b', '*'] ['c'] := mt strcmp_iff.mpr (by decide)
  have hother : ¬ GlobMatch ['a'] ['c'] := mt strcmp_iff.mpr (by decide)
  refine ⟨_, rfl, ['c'], List.mem_cons_of_mem _ (List.mem_singleton_self _), by decide, ?_, ?_⟩
  · intro glob hglob
    rw [List.mem_singleton.mp hglob]
    exact hstar
  · intro entry hentry
    rw [List.mem_singleton.mp hentry]
    exact hother

/-- The broker has the configured topic only: nothing is subscribed. -/
theorem configured_topic_unsubscribed :
    ∃ c, Consume.setup .willing .empty (some discoveringConfig) .initial = .ok c ∧
      ¬ SubscriptionAgrees c [⟨true, some ⟨some [['a']]⟩⟩] := by
  obtain ⟨c, hsetup⟩ : ∃ c, Consume.setup .willing .empty (some discoveringConfig) .initial = .ok c :=
    ⟨_, rfl⟩
  refine ⟨c, hsetup, fun hagrees => ?_⟩
  have htopics : configuredTopics discoveringConfig = [['a']] := rfl
  have hon : autoDiscovers discoveringConfig = true := rfl
  have houtline := outline_setup hsetup
  simp only [Option.getD_some, htopics, hon] at houtline
  obtain ⟨-, hknown, hauto, hnone⟩ := fields_of_outline houtline
  have hsubscriptions : c.subscriptions = if c.auto_discover_topics = true then [] else [c.topics] := by
    simpa [hauto] using hnone
  have hfound := (agrees_rounds_iff hsubscriptions _).mp hagrees hauto (by simp [hknown]) _ rfl
  obtain ⟨ts, hlist, t, ht, hnew⟩ := hfound
  cases hlist
  rw [List.mem_singleton.mp ht, hknown] at hnew
  exact hnew.fresh ['a'] (List.mem_singleton_self _) (globMatch_self ['a'])

end KafkaK3.Subscription
