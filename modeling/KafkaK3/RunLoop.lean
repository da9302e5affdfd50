import KafkaK3.ConsumerInvariants
import KafkaK3.MemoryCheck
import KafkaK3.Pacing
import KafkaK3.TopicDiscovery

/-!
# The consumer's loop

`Consume::run` calls `run_once` until the signal handler clears the loop control or
the memory check fails. Before each call it may ask for new topics, by the clock,
and every thirty-first round it checks the memory. The environment answers by
round: a round holds all that is read in it. The clock counts nanoseconds.
-/
namespace KafkaK3.RunLoop
open MemoryCheck TopicDiscovery BackupConsumer ConsumerInvariants

structure Round where
  loop_control : Bool
  current_time : ℤ
  metadata : MetadataResponse
  discovered_time : ℤ
  files : Files
  current : ℤ
  result : ConsumeResult

/-- The consumer in its loop, with the loop's variables. -/
structure Running where
  consume : TopicDiscovery.Consume
  state : State
  mem_test_counter : ℕ
  previous_time : ℤ

def Running.start (c : TopicDiscovery.Consume) (now : ℤ) : Running := ⟨c, .initial, 0, now⟩

/-- The interval in nanoseconds. The time passed is compared as it is; the code makes a
double of its seconds, which is another one only where the interval has `2 ^ 23` seconds
or more. -/
def intervalOf (c : TopicDiscovery.Consume) : ℤ := c.auto_discover_interval.toInt * 10 ^ 9

def Running.discover (s : Running) (r : Round) : Running :=
  if s.consume.auto_discover_topics ∧ intervalOf s.consume < r.current_time - s.previous_time then
    { s with
      consume := s.consume.autoDiscoverTopics r.metadata
      previous_time := r.discovered_time }
  else s

def Running.run_once (w : World) (s : Running) (r : Round) : Running :=
  { s with state := s.state.run_once s.consume.toConsume w r.result }

/-- One round, with the code which `run` returns in it, if it does. -/
def round (mem : MemChecker) (w : World) (s : Running) (r : Round) : Option ℤ × Running :=
  if r.loop_control = false then (some 0, s)
  else
    let s := s.discover r
    if 30 < s.mem_test_counter + 1 then
      let s := { s with mem_test_counter := 0 }
      if mem.ok r.files r.current = false then (some 1, s) else (none, s.run_once w r)
    else (none, { s with mem_test_counter := s.mem_test_counter + 1 }.run_once w r)

/-- `Consume::run`. -/
def run (mem : MemChecker) (w : World) : Running → List Round → Option ℤ × Running
  | s, [] => (none, s)
  | s, r :: rounds =>
      match round mem w s r with
      | (some rval, s) => (some rval, s)
      | (none, s) => run mem w s rounds

section Settings

/-- Discovery leaves these settings alone. -/
theorem settings_foldl_discoverTopic (topics : List DecimalText.Text)
    (state : TopicDiscovery.Consume × Bool) :
    (topics.foldl discoverTopic state).1.toConsume = state.1.toConsume ∧
    (topics.foldl discoverTopic state).1.auto_discover_topics = state.1.auto_discover_topics ∧
    (topics.foldl discoverTopic state).1.auto_discover_interval = state.1.auto_discover_interval := by
  induction topics generalizing state with
  | nil => exact ⟨rfl, rfl, rfl⟩
  | cons t topics ih =>
      rw [List.foldl_cons]
      have hstep : (discoverTopic state t).1.toConsume = state.1.toConsume ∧
          (discoverTopic state t).1.auto_discover_topics = state.1.auto_discover_topics ∧
          (discoverTopic state t).1.auto_discover_interval = state.1.auto_discover_interval := by
        unfold discoverTopic
        split
        split <;> exact ⟨rfl, rfl, rfl⟩
      obtain ⟨hconsume, hauto, hinterval⟩ := ih (discoverTopic state t)
      exact ⟨hconsume.trans hstep.1, hauto.trans hstep.2.1, hinterval.trans hstep.2.2⟩

theorem settings_autoDiscoverTopics (c : TopicDiscovery.Consume) (m : MetadataResponse) :
    (c.autoDiscoverTopics m).toConsume = c.toConsume ∧
    (c.autoDiscoverTopics m).auto_discover_topics = c.auto_discover_topics ∧
    (c.autoDiscoverTopics m).auto_discover_interval = c.auto_discover_interval := by
  have hfold := settings_foldl_discoverTopic m.discovered (c, false)
  rw [Consume.autoDiscoverTopics]
  split
  next heq =>
    rw [heq] at hfold
    split <;> exact hfold

end Settings

/-- Where a run stops: it was told to, or the memory check of this round fails. -/
def verdict (mem : MemChecker) (n : ℕ) (r : Round) : Option ℤ :=
  if r.loop_control = false then some 0
  else if 31 ∣ n + 1 ∧ mem.ok r.files r.current = false then some 1
  else none

/-- The loop goes through these rounds. -/
def Quiet (mem : MemChecker) (rounds : List Round) : Prop :=
  ∀ n r, rounds[n]? = some r → verdict mem n r = none

/-- The rounds from the `n`-th on which the loop goes through. -/
def executed (mem : MemChecker) : ℕ → List Round → List Round
  | _, [] => []
  | n, r :: rounds =>
      if verdict mem n r = none then r :: executed mem (n + 1) rounds else []

/-- The rounds in which new topics are asked for. -/
def asked (c : TopicDiscovery.Consume) (now : ℤ) (rounds : List Round) : List Round :=
  if c.auto_discover_topics then
    Pacing.paced Round.current_time Round.discovered_time (intervalOf c) now rounds
  else []

/-- When topics were asked for last. -/
def askedLast (c : TopicDiscovery.Consume) (now : ℤ) (rounds : List Round) : ℤ :=
  if c.auto_discover_topics then
    Pacing.lastDone Round.current_time Round.discovered_time (intervalOf c) now rounds
  else now

/-- The loop behind some rounds, without the loop. -/
def behind (c : TopicDiscovery.Consume) (w : World) (now : ℤ) (rounds : List Round) : Running where
  consume := TopicDiscovery.rounds c ((asked c now rounds).map Round.metadata)
  state := State.run c.toConsume w (rounds.map Round.result)
  mem_test_counter := rounds.length % 31
  previous_time := askedLast c now rounds

section Rounds
variable {mem : MemChecker} {w : World} {c : TopicDiscovery.Consume} {now : ℤ}

theorem settings_rounds (c : TopicDiscovery.Consume) (responses : List MetadataResponse) :
    (TopicDiscovery.rounds c responses).toConsume = c.toConsume ∧
    (TopicDiscovery.rounds c responses).auto_discover_topics = c.auto_discover_topics ∧
    (TopicDiscovery.rounds c responses).auto_discover_interval = c.auto_discover_interval := by
  induction responses generalizing c with
  | nil => exact ⟨rfl, rfl, rfl⟩
  | cons m ms ih =>
      obtain ⟨hconsume, hauto, hinterval⟩ := ih (c.autoDiscoverTopics m)
      have hstep := settings_autoDiscoverTopics c m
      exact ⟨hconsume.trans hstep.1, hauto.trans hstep.2.1, hinterval.trans hstep.2.2⟩

theorem intervalOf_behind (rounds : List Round) :
    intervalOf (behind c w now rounds).consume = intervalOf c := by
  have hsettings := settings_rounds c ((asked c now rounds).map Round.metadata)
  rw [behind, intervalOf, hsettings.2.2]
  rfl

/-- The discovery of one more round. -/
theorem discover_behind (rounds : List Round) (r : Round) :
    (behind c w now rounds).discover r =
      { behind c w now rounds with
        consume := (behind c w now (rounds ++ [r])).consume
        previous_time := (behind c w now (rounds ++ [r])).previous_time } := by
  have hauto : (behind c w now rounds).consume.auto_discover_topics = c.auto_discover_topics :=
    (settings_rounds c _).2.1
  rw [Running.discover, intervalOf_behind, hauto]
  by_cases hc : c.auto_discover_topics = true
  · have hlast : (behind c w now rounds).previous_time = Pacing.lastDone Round.current_time
        Round.discovered_time (intervalOf c) now rounds := if_pos hc
    by_cases hdue : intervalOf c < r.current_time - (behind c w now rounds).previous_time
    · rw [if_pos ⟨hc, hdue⟩]
      rw [hlast] at hdue
      simp [behind, asked, askedLast, hc, Pacing.paced_append, Pacing.lastDone_concat, Pacing.paced,
        Pacing.next, hdue, TopicDiscovery.rounds]
    · rw [if_neg (fun h => hdue h.2)]
      rw [hlast] at hdue
      simp [behind, asked, askedLast, hc, Pacing.paced_append, Pacing.lastDone_concat, Pacing.paced,
        Pacing.next, hdue]
  · rw [if_neg (fun h => hc h.1)]
    simp [behind, asked, askedLast, hc]

theorem counter_due (n : ℕ) : 30 < n % 31 + 1 ↔ 31 ∣ n + 1 := by
  omega

theorem verdict_eq_none_iff {n : ℕ} {r : Round} : verdict mem n r = none ↔
    r.loop_control = true ∧ (31 ∣ n + 1 → mem.ok r.files r.current = true) := by
  unfold verdict
  split
  next h => simp [h]
  next h =>
    rw [Bool.not_eq_false] at h
    split
    next hover => simp [h, hover]
    next hover =>
      rw [not_and, Bool.not_eq_false] at hover
      simpa [h] using hover

theorem verdict_eq_some_iff {n : ℕ} {r : Round} {rval : ℤ} : verdict mem n r = some rval ↔
    (r.loop_control = false ∧ rval = 0) ∨
    (r.loop_control = true ∧ 31 ∣ n + 1 ∧ mem.ok r.files r.current = false ∧ rval = 1) := by
  unfold verdict
  split
  next h =>
    rw [Option.some.injEq]
    simpa [h] using eq_comm
  next h =>
    rw [Bool.not_eq_false] at h
    split
    next hover =>
      rw [Option.some.injEq]
      simpa [h, hover] using eq_comm
    next hover =>
      simp only [h, true_and, reduceCtorEq, Bool.true_eq_false, false_and, false_or, false_iff]
      intro ⟨hdue, hok, _⟩
      exact hover ⟨hdue, hok⟩

/-- `run_once` behind the discovery of its round. -/
theorem run_once_behind (rounds : List Round) (r : Round) (counter : ℕ)
    (hcounter : counter = (rounds.length + 1) % 31) :
    ({ (behind c w now rounds).discover r with mem_test_counter := counter }.run_once w r) =
      behind c w now (rounds ++ [r]) := by
  have hconsume : (behind c w now (rounds ++ [r])).consume.toConsume = c.toConsume :=
    (settings_rounds c _).1
  have hstate : (behind c w now (rounds ++ [r])).state =
      (behind c w now rounds).state.run_once c.toConsume w r.result := by
    simp [behind, State.run]
  have hlength : (behind c w now (rounds ++ [r])).mem_test_counter = counter := by
    rw [hcounter]
    simp [behind]
  rw [discover_behind, Running.run_once, hconsume, ← hstate, ← hlength]

theorem counter_behind (rounds : List Round) (r : Round) :
    ((behind c w now rounds).discover r).mem_test_counter = rounds.length % 31 := by
  rw [discover_behind]
  rfl

/-- A round in which the loop does not stop. -/
theorem round_quiet {rounds : List Round} {r : Round}
    (h : verdict mem rounds.length r = none) :
    round mem w (behind c w now rounds) r = (none, behind c w now (rounds ++ [r])) := by
  obtain ⟨hcontrol, hok⟩ := verdict_eq_none_iff.mp h
  simp only [round, hcontrol, Bool.true_eq_false, if_false, counter_behind]
  split
  next hdue =>
    rw [hok ((counter_due _).mp hdue), if_neg Bool.true_eq_false.mp,
      run_once_behind rounds r 0 (by omega)]
  next hdue => rw [run_once_behind rounds r _ (by omega)]

theorem round_stops {rounds : List Round} {r : Round} {rval : ℤ}
    (h : verdict mem rounds.length r = some rval) :
    (round mem w (behind c w now rounds) r).1 = some rval ∧
      (round mem w (behind c w now rounds) r).2.state = (behind c w now rounds).state := by
  have hstate : ((behind c w now rounds).discover r).state = (behind c w now rounds).state := by
    rw [discover_behind]
  rcases verdict_eq_some_iff.mp h with ⟨hcontrol, rfl⟩ | ⟨hcontrol, hdivides, hok, rfl⟩
  · rw [round, if_pos hcontrol]
    exact ⟨rfl, rfl⟩
  · simp only [round, hcontrol, Bool.true_eq_false, if_false, counter_behind,
      (counter_due _).mpr hdivides, hok, if_true]
    exact ⟨trivial, hstate⟩

theorem Quiet.concat {rounds : List Round} {r : Round} (h : Quiet mem rounds)
    (hr : verdict mem rounds.length r = none) : Quiet mem (rounds ++ [r]) := by
  intro n q hq
  by_cases hn : n < rounds.length
  · rw [List.getElem?_append_left hn] at hq
    exact h n q hq
  · rw [List.getElem?_append_right (Nat.le_of_not_lt hn), List.getElem?_singleton] at hq
    split at hq
    next hzero =>
      obtain rfl : n = rounds.length := by omega
      obtain rfl := Option.some.inj hq
      exact hr
    next => cases hq

/-- What becomes of the loop from a state which it has come to. -/
theorem run_behind {front : List Round} (hfront : Quiet mem front) (rounds : List Round) :
    (Quiet mem (front ++ rounds) ∧
      run mem w (behind c w now front) rounds = (none, behind c w now (front ++ rounds))) ∨
    ∃ quiet r later rval, front ++ rounds = quiet ++ r :: later ∧ Quiet mem quiet ∧
      verdict mem quiet.length r = some rval ∧
      (run mem w (behind c w now front) rounds).1 = some rval ∧
      (run mem w (behind c w now front) rounds).2.state = (behind c w now quiet).state := by
  induction rounds generalizing front with
  | nil =>
      rw [List.append_nil]
      exact .inl ⟨hfront, rfl⟩
  | cons r rounds ih =>
      cases hverdict : verdict mem front.length r with
      | none =>
          have hnext := ih (hfront.concat hverdict)
          rw [List.append_assoc, List.singleton_append] at hnext
          rw [run, round_quiet hverdict]
          exact hnext
      | some rval =>
          obtain ⟨hrval, hstate⟩ := @round_stops mem w c now front r rval hverdict
          have hrun : run mem w (behind c w now front) (r :: rounds) =
              round mem w (behind c w now front) r := by
            rw [run]
            split
            next heq => exact heq.symm
            next heq =>
              rw [heq] at hrval
              cases hrval
          refine .inr ⟨front, r, rounds, rval, rfl, hfront, hverdict, ?_, ?_⟩
          · rw [hrun, hrval]
          · rw [hrun, hstate]

theorem behind_nil : behind c w now [] = Running.start c now := by
  simp [behind, asked, askedLast, Pacing.paced, Pacing.lastDone, Running.start, TopicDiscovery.rounds,
    State.run]

theorem run_cases (mem : MemChecker) (w : World) (c : TopicDiscovery.Consume) (now : ℤ)
    (rounds : List Round) :
    (Quiet mem rounds ∧ run mem w (.start c now) rounds = (none, behind c w now rounds)) ∨
    ∃ quiet r later rval, rounds = quiet ++ r :: later ∧ Quiet mem quiet ∧
      verdict mem quiet.length r = some rval ∧
      (run mem w (.start c now) rounds).1 = some rval ∧
      (run mem w (.start c now) rounds).2.state = (behind c w now quiet).state := by
  have hnone : Quiet mem [] := fun _ _ h => by simp at h
  have hrun := @run_behind mem w c now [] hnone rounds
  rwa [behind_nil] at hrun

/-- The first round at which the loop stops. -/
theorem getElem?_stop {quiet later : List Round} {r : Round} :
    (quiet ++ r :: later)[quiet.length]? = some r := by
  rw [List.getElem?_append_right (Nat.le_refl _), Nat.sub_self, List.getElem?_cons_zero]

theorem Quiet.length_le {quiet quiet' later later' : List Round} {r r' : Round} {rval : ℤ}
    (heq : quiet ++ r :: later = quiet' ++ r' :: later') (hquiet' : Quiet mem quiet')
    (h : verdict mem quiet.length r = some rval) : quiet'.length ≤ quiet.length := by
  by_contra hlt
  have hr : (quiet ++ r :: later)[quiet.length]? = some r := getElem?_stop
  rw [heq, List.getElem?_append_left (Nat.lt_of_not_le hlt)] at hr
  rw [hquiet' _ _ hr] at h
  cases h

theorem executed_eq {quiet later : List Round} {r : Round} {rval : ℤ} {n : ℕ}
    (hquiet : ∀ m q, quiet[m]? = some q → verdict mem (n + m) q = none)
    (hr : verdict mem (n + quiet.length) r = some rval) :
    executed mem n (quiet ++ r :: later) = quiet := by
  induction quiet generalizing n with
  | nil => simp [executed, show verdict mem n r = some rval from hr]
  | cons q quiet ih =>
      have hq : verdict mem n q = none := hquiet 0 q rfl
      rw [List.cons_append, executed, if_pos hq]
      congr 1
      apply ih
      · intro m p hp
        rw [Nat.add_assoc, Nat.add_comm 1]
        exact hquiet (m + 1) p hp
      · rw [Nat.add_assoc, Nat.add_comm 1]
        exact hr

theorem settings_round (mem : MemChecker) (w : World) (s : Running) (r : Round) :
    (round mem w s r).2.consume.toConsume = s.consume.toConsume := by
  have hdiscover : (s.discover r).consume.toConsume = s.consume.toConsume := by
    unfold Running.discover
    split
    · exact (settings_autoDiscoverTopics _ _).1
    · rfl
  unfold round
  split
  · rfl
  · dsimp only
    split
    · split <;> exact hdiscover
    · exact hdiscover

/-- The loop never changes what the backup is made with. -/
theorem settings_run (mem : MemChecker) (w : World) (s : Running) (rounds : List Round) :
    (run mem w s rounds).2.consume.toConsume = s.consume.toConsume := by
  induction rounds generalizing s with
  | nil => rfl
  | cons r rounds ih =>
      have hround := settings_round mem w s r
      rw [run]
      split
      next heq => rwa [heq] at hround
      next heq =>
        rw [heq] at hround
        exact (ih _).trans hround

/-- A loop which has stopped has run the rounds which were executed. -/
theorem state_of_stopped (mem : MemChecker) (w : World) (c : TopicDiscovery.Consume) (now : ℤ)
    {rounds : List Round} {rval : ℤ}
    (h : (run mem w (.start c now) rounds).1 = some rval) :
    (run mem w (.start c now) rounds).2.state =
      State.run c.toConsume w ((executed mem 0 rounds).map Round.result) ∧
    (rval = 0 ∨ rval = 1) := by
  rcases run_cases mem w c now rounds with
    ⟨_, hrun⟩ | ⟨quiet, r, later, code, rfl, hquiet, hverdict, hrval, hstate⟩
  · rw [hrun] at h
    cases h
  · obtain rfl := Option.some.inj (hrval.symm.trans h)
    have hexecuted : executed mem 0 (quiet ++ r :: later) = quiet := by
      have hstop : verdict mem (0 + quiet.length) r = some code := by
        rw [Nat.zero_add]
        exact hverdict
      refine executed_eq (fun m q hq => ?_) hstop
      rw [Nat.zero_add]
      exact hquiet m q hq
    refine ⟨by rw [hexecuted, hstate]; rfl, ?_⟩
    rcases verdict_eq_some_iff.mp hverdict with ⟨_, hzero⟩ | ⟨_, _, _, hone⟩
    · exact .inl hzero
    · exact .inr hone

end Rounds

/-- `run` returns exactly where a round is the first to stop it, and by then it has
called `run_once` in every round before that one and in no other. -/
theorem loop_returns_iff (mem : MemChecker) (w : World) (c : TopicDiscovery.Consume) (now : ℤ)
    (rounds : List Round) (rval : ℤ) :
    (run mem w (.start c now) rounds).1 = some rval ↔
      ∃ quiet r later, rounds = quiet ++ r :: later ∧ Quiet mem quiet ∧
        verdict mem quiet.length r = some rval ∧
        (run mem w (.start c now) rounds).2.state =
          State.run c.toConsume w (quiet.map Round.result) := by
  rcases run_cases mem w c now rounds with
    ⟨hquiet, hrun⟩ | ⟨quiet, r, later, code, rfl, hquiet, hverdict, hrval, hstate⟩
  · rw [hrun]
    constructor
    · intro h
      cases h
    · rintro ⟨quiet, r, later, rfl, _, hverdict, _⟩
      rw [hquiet _ _ getElem?_stop] at hverdict
      cases hverdict
  · constructor
    · intro h
      obtain rfl := Option.some.inj (hrval.symm.trans h)
      exact ⟨quiet, r, later, rfl, hquiet, hverdict, hstate⟩
    · rintro ⟨quiet', r', later', heq, hquiet', hverdict', _⟩
      have hle := Quiet.length_le heq hquiet' hverdict
      have hge := Quiet.length_le heq.symm hquiet hverdict'
      have hlength : quiet.length = quiet'.length := Nat.le_antisymm hge hle
      obtain ⟨rfl, htail⟩ := List.append_inj heq hlength
      obtain rfl := (List.cons.inj htail).1
      rw [hrval, ← hverdict, hverdict']

/-- A usage which stays over the limit ends the loop within thirty-one rounds. -/
theorem overload_ends_loop (mem : MemChecker) (w : World) (c : TopicDiscovery.Consume) (now : ℤ)
    (rounds : List Round) (n : ℕ) (hlong : n + 31 ≤ rounds.length)
    (hcontrol : ∀ m r, m < n + 31 → rounds[m]? = some r → r.loop_control = true)
    (hover : ∀ m r, n ≤ m → m < n + 31 → rounds[m]? = some r →
      mem.ok r.files r.current = false) :
    (run mem w (.start c now) rounds).1 = some 1 ∧
      ∃ m < n + 31, (run mem w (.start c now) rounds).2.state =
        State.run c.toConsume w ((rounds.take m).map Round.result) := by
  -- the check which comes due in the window
  obtain ⟨k, hk⟩ : ∃ k, n ≤ k ∧ k < n + 31 ∧ 31 ∣ k + 1 :=
    ⟨n + (30 - n % 31), by omega, by omega, by omega⟩
  obtain ⟨q, hq⟩ : ∃ q, rounds[k]? = some q :=
    ⟨_, List.getElem?_eq_getElem (by omega)⟩
  have hstop : verdict mem k q = some 1 :=
    verdict_eq_some_iff.mpr (.inr ⟨hcontrol k q hk.2.1 hq, hk.2.2, hover k q hk.1 hk.2.1 hq, rfl⟩)
  rcases run_cases mem w c now rounds with
    ⟨hquiet, _⟩ | ⟨quiet, r, later, rval, hrounds, hquiet, hverdict, hrval, hstate⟩
  · rw [hquiet k q hq] at hstop
    cases hstop
  · have hbefore : quiet.length ≤ k := by
      by_contra hlt
      rw [hrounds, List.getElem?_append_left (Nat.lt_of_not_le hlt)] at hq
      rw [hquiet k q hq] at hstop
      cases hstop
    have hr : rounds[quiet.length]? = some r := by
      rw [hrounds]
      exact getElem?_stop
    have htold := hcontrol quiet.length r (by omega) hr
    have hone : rval = 1 := by
      rcases verdict_eq_some_iff.mp hverdict with ⟨hfalse, _⟩ | ⟨_, _, _, hone⟩
      · rw [htold] at hfalse
        cases hfalse
      · exact hone
    refine ⟨hone ▸ hrval, quiet.length, by omega, ?_⟩
    rw [hstate, hrounds, List.take_left']
    · rfl
    · rfl

/-- A checker which allows six bytes. -/
def sixBytes : MemChecker where
  program_limit := 6
  mem_percent := 3 / 4
  used_filename := some (usageName "/m".toList)
  cgroup_memory_path := "/m".toList

/-- A loop which is never told to stop and always finds the memory used up. -/
theorem overload_ends_loop_at_once :
    (run sixBytes (.constant true) (.start .initial 0)
      (List.replicate 31 ⟨true, 0, ⟨false, none⟩, 0, smallFiles 7, 0, .null⟩)).1 = some 1 := by
  have hround {m : ℕ} {r : Round} (h : (List.replicate 31
      (⟨true, 0, ⟨false, none⟩, 0, smallFiles 7, 0, .null⟩ : Round))[m]? = some r) :
      r = ⟨true, 0, ⟨false, none⟩, 0, smallFiles 7, 0, .null⟩ :=
    List.eq_of_mem_replicate (List.mem_of_getElem? h)
  refine (overload_ends_loop _ _ _ _ _ 0 (by decide) ?_ ?_).1
  · intro m r _ h
    rw [hround h]
  · intro m r _ _ h
    rw [hround h]
    decide

/-- A loop which has not stopped yet has asked for new topics whenever its interval
had passed: what it knows of them is what these answers brought, there are no more
of them than the time allows, and none of its rounds went on with older topics. -/
theorem discovery_cadence (mem : MemChecker) (w : World) (c : TopicDiscovery.Consume)
    (now stop : ℤ) (rounds : List Round) (hauto : c.auto_discover_topics = true)
    (hrunning : (run mem w (.start c now) rounds).1 = none)
    (hclock : Pacing.Forward Round.current_time Round.discovered_time now rounds)
    (hnow : now ≤ stop) (hstop : ∀ r ∈ rounds, r.discovered_time ≤ stop) :
    (run mem w (.start c now) rounds).2.consume =
      TopicDiscovery.rounds c ((asked c now rounds).map Round.metadata) ∧
    (asked c now rounds).length * (intervalOf c + 1) ≤ stop - now ∧
    ∀ front r, front ++ [r] <+: rounds →
      r.current_time - (run mem w (.start c now) (front ++ [r])).2.previous_time ≤
        max 0 (intervalOf c) := by
  have hquiet : Quiet mem rounds := by
    rcases run_cases mem w c now rounds with
      ⟨hquiet, _⟩ | ⟨_, _, _, _, _, _, _, hrval, _⟩
    · exact hquiet
    · rw [hrunning] at hrval
      cases hrval
  have hrun {front : List Round} (h : front <+: rounds) :
      run mem w (.start c now) front = (none, behind c w now front) := by
    rcases run_cases mem w c now front with
      ⟨_, hrun⟩ | ⟨quiet, r, later, rval, rfl, _, hverdict, _, _⟩
    · exact hrun
    · obtain ⟨more, rfl⟩ := h
      have hr : (quiet ++ r :: later ++ more)[quiet.length]? = some r := by
        rw [List.append_assoc]
        exact getElem?_stop
      rw [hquiet _ _ hr] at hverdict
      cases hverdict
  refine ⟨?_, ?_, ?_⟩
  · rw [hrun List.prefix_rfl]
    rfl
  · rw [asked, if_pos hauto]
    exact Pacing.paced_length hclock hnow hstop
  · intro front r hfront
    have hr : r ∈ rounds := hfront.subset (by simp)
    rw [hrun hfront, behind, askedLast, if_pos hauto]
    exact Pacing.fresh (hclock.of_mem r hr)

/-- Two rounds, of which the second one asks for topics. -/
def twoRounds : List Round :=
  [⟨true, 0, ⟨false, none⟩, 0, fun _ => none, 0, .null⟩,
    ⟨true, 60000000001, ⟨false, none⟩, 60000000001, fun _ => none, 0, .null⟩]

theorem discovery_cadence_two :
    (asked { Consume.initial with auto_discover_topics := true } 0 twoRounds).length *
      (intervalOf { Consume.initial with auto_discover_topics := true } + 1) ≤
        60000000001 - (0 : ℤ) :=
  (discovery_cadence { mem_percent := 0, cgroup_memory_path := [] } (.constant true)
    { Consume.initial with auto_discover_topics := true } 0 60000000001 twoRounds rfl rfl
    ⟨by decide, by decide, by decide, by decide, trivial⟩ (by decide) (by decide)).2.1

end KafkaK3.RunLoop
