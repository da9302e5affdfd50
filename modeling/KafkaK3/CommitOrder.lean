import KafkaK3.ConsumerInvariants
import KafkaK3.EventTrace

/-!
# Commits follow the order of consumption

A commit is a side effect of releasing a wrapper, so its place in the run is
given by the erase loop alone. At every moment, also in the middle of a stash,
the messages committed for a topic are the first ones consumed for it, and a
message is committed only after the stash of its own bundle is past its attempt
to store the bundle.
-/
namespace KafkaK3.CommitOrder
open DecimalText MessageLayout StashImage BackupConsumer Batching TopicChannel ConsumerInvariants
open EventTrace

variable {c : Consume} {w : World}

/-- A stash block which was interrupted has committed nothing yet, or it is past
the attempt to store and has released some wrappers from the front. -/
theorem prefix_stash_by_topic {n : ℕ} {topic : Text} {messages : List MessageWrapper}
    {q : List Event} (h : q <+: stash_by_topic c w n topic messages) :
    (committed q = [] ∧ received q = []) ∨
    (messages ≠ [] ∧ ∃ r, r <+: messages ∧
      q = [.stash topic messages] ++ (storeBundle c w n topic messages ++ r.map .commitAsync)) := by
  by_cases hne : messages = []
  · rw [hne, stash_by_topic_nil, List.prefix_nil] at h
    exact .inl ⟨by rw [h]; rfl, by rw [h]; rfl⟩
  · rw [stash_by_topic_of_ne c w n topic hne, ← List.append_assoc] at h
    rcases prefix_append_cases h with hfront | ⟨p, rfl, hp⟩
    · left
      have hquiet (f : List Event → List MessageWrapper)
          (happ : ∀ t u, f (t ++ u) = f t ++ f u)
          (hzero : f ([.stash topic messages] ++ storeBundle c w n topic messages) = []) :
          f q = [] := by
        obtain ⟨rest, hrest⟩ := hfront
        rw [← hrest, happ] at hzero
        exact (List.append_eq_nil_iff.mp hzero).1
      constructor
      · apply hquiet committed committed_append
        rw [committed_append, committed_storeBundle]
        rfl
      · apply hquiet received received_append
        rw [received_append, received_storeBundle]
        rfl
    · right
      obtain ⟨r, hr, rfl⟩ := List.prefix_map_iff.mp hp
      exact ⟨hne, r, hr, by rw [List.append_assoc]⟩

/-- The committed messages of every topic are its first consumed ones. -/
def InOrder (t : List Event) : Prop :=
  ∀ topic, committedOf topic t <+: receivedOf topic t

/-- The PUT of a bundle, with its image. -/
def Made (entry : Text × List MessageWrapper) (call : PutCall) : Prop :=
  call.topic = entry.1 ∧ call.bundle = entry.2 ∧ call.payload = image (contents entry.2)

/-- A committed message lies in a bundle which was stashed before, and where a
client and a payload made a PUT due, that PUT is made. -/
def Attempted (c : Consume) (t : List Event) : Prop :=
  ∀ x ∈ committed t, ∃ entry ∈ stashes t, x ∈ entry.2 ∧
    (c.ps3.isSome → 0 < messagesSize (contents entry.2) → ∃ call ∈ putCalls t, Made entry call)

theorem inOrder_now {s : State} (h : Consistent c w s) : InOrder s.trace :=
  fun topic => ⟨s.buffer topic, (h.receivedOf_eq topic).symm⟩

/-- The released wrappers come from the front of their topic's buffer. -/
theorem inOrder_stash {s : State} (h : Consistent c w s) (topic : Text) {q : List Event}
    (hq : q <+: stash_by_topic c w (putCalls s.trace).length topic (s.buffer topic)) :
    InOrder (s.trace ++ q) := by
  intro u
  have hfront : committedOf u q <+: s.buffer u ∧ receivedOf u q = [] := by
    rcases prefix_stash_by_topic hq with ⟨hcommit, hreceive⟩ | ⟨_, r, hr, rfl⟩
    · rw [committedOf, hcommit, receivedOf, hreceive]
      exact ⟨List.nil_prefix, rfl⟩
    · constructor
      · have hfilter : committedOf u ([.stash topic (s.buffer topic)] ++ (storeBundle c w
            (putCalls s.trace).length topic (s.buffer topic) ++ r.map .commitAsync)) <+:
              (s.buffer topic).filter fun x => x.pmessage.topic_name = u := by
          rw [committedOf, committed_append, committed_append, committed_storeBundle,
            committed_commits]
          exact hr.filter _
        refine hfilter.trans ?_
        rw [filter_topic fun x hx => h.topic_of_buffer hx]
        split
        next htopic => exact htopic ▸ List.prefix_rfl
        next => exact List.nil_prefix
      · rw [receivedOf, received_append, received_append, received_storeBundle, received_commits]
        rfl
  rw [committedOf_append, receivedOf_append, hfront.2, List.append_nil, h.receivedOf_eq]
  exact List.prefix_self_append_iff.mpr hfront.1

theorem Attempted.append {t : List Event} (h : Attempted c t) {q : List Event}
    (hq : ∀ x ∈ committed q, ∃ entry ∈ stashes q, x ∈ entry.2 ∧
      (c.ps3.isSome → 0 < messagesSize (contents entry.2) → ∃ call ∈ putCalls q, Made entry call)) :
    Attempted c (t ++ q) := by
  intro x hx
  rw [committed_append] at hx
  rw [stashes_append, putCalls_append]
  rcases List.mem_append.mp hx with hx | hx
  · obtain ⟨entry, hentry, hmem, hput⟩ := h x hx
    refine ⟨entry, List.mem_append_left _ hentry, hmem, fun hs3 hsize => ?_⟩
    obtain ⟨call, hcall, heq⟩ := hput hs3 hsize
    exact ⟨call, List.mem_append_left _ hcall, heq⟩
  · obtain ⟨entry, hentry, hmem, hput⟩ := hq x hx
    refine ⟨entry, List.mem_append_right _ hentry, hmem, fun hs3 hsize => ?_⟩
    obtain ⟨call, hcall, heq⟩ := hput hs3 hsize
    exact ⟨call, List.mem_append_right _ hcall, heq⟩

theorem attempted_stash {s : State} (h : Attempted c s.trace) (topic : Text) {q : List Event}
    (hq : q <+: stash_by_topic c w (putCalls s.trace).length topic (s.buffer topic)) :
    Attempted c (s.trace ++ q) := by
  apply h.append
  rcases prefix_stash_by_topic hq with ⟨hcommit, _⟩ | ⟨_, r, hr, rfl⟩
  · simp [hcommit]
  · intro x hx
    rw [committed_append, committed_append, committed_storeBundle, committed_commits] at hx
    refine ⟨(topic, s.buffer topic), List.mem_append_left _ (List.mem_singleton_self _),
      hr.subset hx, fun hs3 hsize => ?_⟩
    rcases storeBundle_cases c w (putCalls s.trace).length topic (s.buffer topic) with
      ⟨s3, _, _, hput⟩ | ⟨hnone, _⟩ | ⟨hzero, _⟩
    · rw [hput]
      exact ⟨putBundle w s3 _ topic (s.buffer topic), List.mem_cons_self, rfl, rfl,
        payload_putBundle⟩
    · rw [hnone] at hs3
      contradiction
    · have hpos : 0 < messagesSize (contents (s.buffer topic)) := hsize
      omega

/-- The order and the attempts hold at every moment of a run. -/
structure Orderly (c : Consume) (w : World) (s : State) : Prop where
  consistent : Consistent c w s
  inOrder : Always InOrder s.trace
  attempted : Always (Attempted c) s.trace

theorem orderly_initial : Orderly c w State.initial where
  consistent := consistent_initial
  inOrder := always_nil.mpr fun _ => List.prefix_rfl
  attempted := always_nil.mpr fun _ hx => absurd hx (by simp [committed])

theorem orderly_preserved : Preserved c w (Orderly c w) where
  push s m h := by
    have hnext := h.consistent.push m
    exact ⟨hnext, h.inOrder.concat (inOrder_now hnext),
      h.attempted.concat (h.attempted.now.append fun _ hx => absurd hx (by simp [committed]))⟩
  stash s topic h :=
    ⟨h.consistent.stash topic,
      h.inOrder.append fun _ hq _ => inOrder_stash h.consistent topic hq,
      h.attempted.append fun _ hq _ => attempted_stash h.attempted.now topic hq⟩
  resetSize s topic h := ⟨h.consistent.resetSize topic, h.inOrder, h.attempted⟩

theorem orderly_run (results : List ConsumeResult) : Orderly c w (State.run c w results) :=
  orderly_preserved.run orderly_initial results

theorem Orderly.destroy {s : State} (h : Orderly c w s) : Orderly c w (s.destroy c w) := by
  have hall := orderly_preserved.stash_all h
  have hnext := h.consistent.destroy
  have htrace := trace_destroy c w s
  refine ⟨hnext, ?_, ?_⟩
  · have hnow := inOrder_now hnext
    rw [htrace] at hnow ⊢
    exact hall.inOrder.concat hnow
  · rw [htrace]
    exact hall.attempted.concat
      (hall.attempted.now.append fun _ hx => absurd hx (by simp [committed]))

theorem Orderly.finish {s : State} (h : Orderly c w s) (e : Ending) :
    Orderly c w (s.finish c w e) := by
  cases e with
  | running => exact h
  | stashAll => exact orderly_preserved.stash_all h
  | destroyed => exact h.destroy

/-- The trace of a whole run, the destructor included. -/
def lifetime (c : Consume) (w : World) (results : List ConsumeResult) : List Event :=
  ((State.run c w results).destroy c w).trace

def OffsetsIncrease (messages : List MessageWrapper) (partition : Int32) : Prop :=
  (messages.filter fun x => x.pmessage.partition = partition).Pairwise
    fun x y => x.pmessage.offset < y.pmessage.offset

/-- What is held back at a moment is what was consumed and not committed yet;
between two calls that is the topic's buffer. What was consumed are the messages
among the answers of `consume`. -/
structure CommitDiscipline (c : Consume) (w : World) (results : List ConsumeResult) : Prop where
  consumed : ∀ rs, rs <+: results → contents (received (State.run c w rs).trace) = delivered rs
  consumed_all : contents (received (lifetime c w results)) = delivered results
  inOrder : Always InOrder (lifetime c w results)
  once : (committed (lifetime c w results)).Nodup
  attempted : Always (Attempted c) (lifetime c w results)
  settled : ∀ p call, p ++ [.put call] <+: lifetime c w results →
    ∀ x ∈ call.bundle, x ∉ committed p
  complete : ∃ p, lifetime c w results = p ++ [.close] ∧
    ∀ topic, committedOf topic p = receivedOf topic (lifetime c w results)
  buffered : ∀ rs, rs <+: results → ∀ topic,
    receivedOf topic (State.run c w rs).trace =
      committedOf topic (State.run c w rs).trace ++ (State.run c w rs).buffer topic
  offsets : ∀ topic partition,
    OffsetsIncrease (receivedOf topic (lifetime c w results)) partition →
    ∀ p, p <+: lifetime c w results →
      OffsetsIncrease (committedOf topic p) partition ∧
      ∀ x ∈ committedOf topic p, x.pmessage.partition = partition →
        ∀ y ∈ receivedOf topic p, y ∉ committedOf topic p → y.pmessage.partition = partition →
          x.pmessage.offset < y.pmessage.offset

/-- A message of an earlier commit cannot lie in a later PUT, since its own
bundle has had its PUT already. -/
theorem Orderly.settled {s : State} (h : Orderly c w s) {p : List Event} {call : PutCall}
    (hp : p ++ [.put call] <+: s.trace) {x : MessageWrapper} (hx : x ∈ call.bundle) :
    x ∉ committed p := by
  intro hcommit
  obtain ⟨rest, hrest⟩ := hp
  have hput : putCalls s.trace = putCalls p ++ call :: putCalls rest := by
    rw [← hrest, putCalls_append, putCalls_append, List.append_assoc]
    rfl
  have hcall : call ∈ putCalls s.trace := hput ▸ List.mem_append_right _ List.mem_cons_self
  obtain ⟨hstash, hs3, hsize⟩ := h.consistent.mem_stashes_of_put hcall
  have hprefix : p <+: s.trace := ⟨[.put call] ++ rest, by rw [← hrest, List.append_assoc]⟩
  obtain ⟨entry, hentry, hmem, hmade⟩ := h.attempted p hprefix x hcommit
  have hentry' : entry ∈ stashes s.trace := by
    rw [← hrest, stashes_append, stashes_append]
    exact List.mem_append_left _ (List.mem_append_left _ hentry)
  have hsame := h.consistent.stash_unique hentry' hstash hmem hx
  rw [hsame] at hmade
  obtain ⟨earlier, hearlier, -, hbundle, -⟩ := hmade hs3 hsize
  obtain ⟨m, hm⟩ := List.mem_iff_getElem?.mp hearlier
  have hlt : m < (putCalls p).length := (List.getElem?_eq_some_iff.mp hm).1
  have hm' : (putCalls s.trace)[m]? = some earlier := by
    rw [hput, List.getElem?_append_left hlt, hm]
  have hn : (putCalls s.trace)[(putCalls p).length]? = some call := by
    rw [hput, List.getElem?_append_right (Nat.le_refl _), Nat.sub_self, List.getElem?_cons_zero]
  have heq := h.consistent.put_unique hm' hn (hbundle ▸ hx) hx
  omega

theorem offsets_of_inOrder {topic : Text} {partition : Int32} {p : List Event}
    (hp : InOrder p) (h : OffsetsIncrease (receivedOf topic p) partition) :
    OffsetsIncrease (committedOf topic p) partition ∧
    ∀ x ∈ committedOf topic p, x.pmessage.partition = partition →
      ∀ y ∈ receivedOf topic p, y ∉ committedOf topic p → y.pmessage.partition = partition →
        x.pmessage.offset < y.pmessage.offset := by
  obtain ⟨held, hheld⟩ := hp topic
  rw [OffsetsIncrease, ← hheld, List.filter_append, List.pairwise_append] at h
  refine ⟨h.1, fun x hx hxp y hy hny hyp => ?_⟩
  rw [← hheld] at hy
  have hyheld : y ∈ held := (List.mem_append.mp hy).resolve_left hny
  exact h.2.2 x (List.mem_filter.mpr ⟨hx, by simpa using hxp⟩) y
    (List.mem_filter.mpr ⟨hyheld, by simpa using hyp⟩)

theorem commit_discipline (c : Consume) (w : World) (results : List ConsumeResult) :
    CommitDiscipline c w results := by
  have hrun := orderly_run (c := c) (w := w) results
  have hlife : Orderly c w ((State.run c w results).destroy c w) := hrun.destroy
  constructor
  case consumed => exact fun rs _ => received_run c w rs
  case consumed_all => rw [lifetime, received_destroy, received_run]
  case inOrder => exact hlife.inOrder
  case once => exact hlife.consistent.committed_nodup
  case attempted => exact hlife.attempted
  case settled => exact fun p call hp x hx => hlife.settled hp hx
  case complete =>
    refine ⟨((State.run c w results).stash_all c w).trace, trace_destroy c w _, fun topic => ?_⟩
    have hall := (orderly_preserved.stash_all hrun).consistent.receivedOf_eq topic
    rw [buffer_stash_all, List.append_nil] at hall
    rw [lifetime, trace_destroy, receivedOf_append, ← hall]
    exact (List.append_nil _).symm
  case buffered => exact fun rs _ topic => (consistent_run rs).receivedOf_eq topic
  case offsets =>
    intro topic partition hincrease p hp
    apply offsets_of_inOrder (hlife.inOrder p hp)
    obtain ⟨rest, hrest⟩ := hp
    have hsub : (receivedOf topic p).Sublist (receivedOf topic (lifetime c w results)) := by
      rw [← hrest, receivedOf_append]
      exact List.sublist_append_left _ _
    exact hincrease.sublist (hsub.filter _)

end KafkaK3.CommitOrder
