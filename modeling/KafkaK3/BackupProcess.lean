import KafkaK3.CrashRecovery
import KafkaK3.RunLoop
import KafkaK3.S3Setup

/-!
# The backup process

`main` looks for a configuration file and then starts one consumer after the other:
a consumer whose loop returns a positive number has run out of memory, and is
destroyed and started anew. What the setup throws is caught nowhere and ends the
process. The environment answers by incarnation of the consumer, and decides which of
its commits arrive.
-/
namespace KafkaK3.BackupProcess
open DecimalText KafkaConfig Fallible MessageLayout StashImage BackupConsumer ConsumerInvariants
open CommitSafety Conservation MemoryCheck RunLoop S3Setup BrokerSession CrashRecovery
open CursorLog (rest)

/-- `get_config_file` by the name of the file; what does not load gives nothing. -/
abbrev ConfigFiles := Text → Option Json

def systemFiles : List Text := ["/etc/k3conf.json".toList, "/etc/k3backup.json".toList]

def fileMark : Text := "-f".toList

/-- The walk through the arguments. Each mark takes the argument behind it, and behind the
last argument lies the null pointer which ends `argv`. -/
def conffile : Text → List Text → Except Thrown Text
  | file, [] => .ok file
  | file, arg :: argv =>
      if arg = fileMark then
        match argv.head? with
        | some file => conffile file argv
        | none => .error .undefined
      else conffile file argv

/-- The configuration with which the process works, from the arguments behind its name. -/
def findConfig (files : ConfigFiles) (argv : List Text) : Except Thrown (Option Json) :=
  match systemFiles.findSome? files with
  | some pconf => .ok (some pconf)
  | none => do
      let file ← conffile [] argv
      pure (if file.length < 1 then none else files file)

/-- What one consumer meets with; `arrives` says of each commit whether it gets to the
broker. -/
structure Incarnation where
  rd : RdKafka
  now : ℤ
  files : Files
  w : World
  rounds : List Round
  arrives : ℕ → Bool

/-- The messages at these places. -/
def selected {α : Type*} (arrives : ℕ → Bool) (messages : List α) : List α :=
  (messages.zipIdx.filter fun entry => arrives entry.2).map Prod.fst

section Process
variable (env : Environment) (pconf : Option Json)

/-- The start of `comsume_to_s3`, up to the loop. -/
def prepare (i : Incarnation) : Except Thrown (MemChecker × TopicDiscovery.Consume) := do
  let paws := pconf.bind fun p => p.object_get "aws".toList
  let pkafka := pconf.bind fun p => p.object_get "kafka".toList
  let s3client ← S3.setup env paws {}
  let consumer ← TopicDiscovery.Consume.setup i.rd env pkafka .initial
  let consumer := { consumer with ps3 := some s3client.client }
  pure (MemChecker.create i.files consumer.mem_percent, consumer)

/-- A consumer which came to its end, and for which S3 was there. -/
structure Ended (s : Session) : Prop where
  ending : s.ending = .destroyed
  happened : s.happened = s.trace
  client : ∃ s3, s.c.ps3 = some s3 ∧ s3.sp3client = true

/-- A consumer which has left its loop, with its destructor. -/
def lived (i : Incarnation) (mem : MemChecker) (s : Running) : Session :=
  let happened := (s.state.destroy s.consume.toConsume i.w).trace
  { c := s.consume.toConsume
    w := i.w
    results := (executed mem 0 i.rounds).map Round.result
    ending := .destroyed
    happened := happened
    arrived := selected i.arrives (committed happened) }

inductive Exit where
  | waiting
  | exited (rval : ℤ)
  | terminated (thrown : Thrown)
  deriving DecidableEq, Repr

/-- The loop of `main`, and the consumers which have come to their end in it. -/
def mainLoop : List Incarnation → Exit × List Session
  | [] => (.waiting, [])
  | i :: is =>
      match prepare env pconf i with
      | .error thrown => (.terminated thrown, [])
      | .ok (mem, consumer) =>
          match run mem i.w (.start consumer i.now) i.rounds with
          | (none, _) => (.waiting, [])
          | (some rval, s) =>
              if 0 < rval then
                let (exit, later) := mainLoop is
                (exit, lived i mem s :: later)
              else (.exited rval, [lived i mem s])

end Process

/-- `main`, with the arguments behind its name. -/
def main (files : ConfigFiles) (argv : List Text) (env : Environment) (is : List Incarnation) :
    Exit × List Session :=
  match findConfig files argv with
  | .error thrown => (.terminated thrown, [])
  | .ok pconf => mainLoop env pconf is

section Arguments

/-- Arguments without a mark change nothing. -/
theorem conffile_of_notMem {file : Text} {argv : List Text} (h : fileMark ∉ argv) :
    conffile file argv = .ok file := by
  induction argv with
  | nil => rfl
  | cons arg argv ih =>
      rw [List.mem_cons, not_or] at h
      rw [conffile, if_neg (Ne.symm h.1), ih h.2]

/-- The last mark counts. -/
theorem conffile_append (file name : Text) (front : List Text) {later : List Text}
    (h : fileMark ∉ name :: later) :
    conffile file (front ++ fileMark :: name :: later) = .ok name := by
  induction front generalizing file with
  | nil =>
      rw [List.nil_append, conffile, if_pos rfl]
      exact conffile_of_notMem h
  | cons arg front ih =>
      rw [List.cons_append, conffile]
      split
      · cases front with
        | nil => exact ih _
        | cons next front => exact ih _
      · exact ih file

/-- A mark without a file behind it. -/
theorem conffile_concat (file : Text) (front : List Text) :
    conffile file (front ++ [fileMark]) = .error .undefined := by
  induction front generalizing file with
  | nil => rfl
  | cons arg front ih =>
      rw [List.cons_append, conffile]
      split
      · cases front with
        | nil => exact ih _
        | cons next front => exact ih _
      · exact ih file

/-- The argument behind the last mark. -/
def NamedLast (argv : List Text) (name : Text) : Prop :=
  ∃ front later, argv = front ++ fileMark :: name :: later ∧ fileMark ∉ name :: later

/-- Without a mark, with one as the last argument and with one before it. -/
theorem conffile_cases (file : Text) (argv : List Text) :
    (fileMark ∉ argv ∧ conffile file argv = .ok file) ∨
      (argv.getLast? = some fileMark ∧ conffile file argv = .error .undefined) ∨
      ∃ name, NamedLast argv name ∧ conffile file argv = .ok name := by
  by_cases h : fileMark ∈ argv
  · obtain ⟨later, front, hargv, hlater⟩ := List.eq_append_cons_of_mem (List.mem_reverse.mpr h)
    have hsplit : argv = front.reverse ++ fileMark :: later.reverse := by
      rw [← List.reverse_reverse argv, hargv, List.reverse_append, List.reverse_cons,
        List.append_assoc, List.singleton_append]
    rw [← List.mem_reverse] at hlater
    rw [hsplit]
    generalize later.reverse = later at hlater ⊢
    cases later with
    | nil => exact .inr (.inl ⟨List.getLast?_concat, conffile_concat file _⟩)
    | cons name later =>
        exact .inr (.inr ⟨name, ⟨_, later, rfl, hlater⟩, conffile_append file name _ hlater⟩)
  · exact .inl ⟨h, conffile_of_notMem h⟩

theorem NamedLast.conffile_eq {argv : List Text} {name : Text} (h : NamedLast argv name)
    (file : Text) : conffile file argv = .ok name := by
  obtain ⟨front, later, rfl, hlater⟩ := h
  exact conffile_append file name front hlater

theorem conffile_error_iff {file : Text} {argv : List Text} :
    conffile file argv = .error .undefined ↔ argv.getLast? = some fileMark := by
  constructor
  · intro herror
    rcases conffile_cases file argv with ⟨_, hok⟩ | ⟨hlast, _⟩ | ⟨name, _, hok⟩
    · rw [hok] at herror
      cases herror
    · exact hlast
    · rw [hok] at herror
      cases herror
  · intro hlast
    obtain ⟨front, rfl⟩ := List.getLast?_eq_some_iff.mp hlast
    exact conffile_concat file front

/-- A file is named exactly by the argument behind the last mark. -/
theorem conffile_name_iff {argv : List Text} {name : Text} (hname : name ≠ []) :
    conffile [] argv = .ok name ↔ NamedLast argv name := by
  constructor
  · intro hok
    rcases conffile_cases [] argv with ⟨_, hsame⟩ | ⟨_, herror⟩ | ⟨other, hlast, hother⟩
    · exact absurd (Except.ok.inj (hok.symm.trans hsame)) hname
    · rw [herror] at hok
      cases hok
    · obtain rfl := Except.ok.inj (hok.symm.trans hother)
      exact hlast
  · exact fun h => h.conffile_eq []

/-- The configuration comes from the first of the system's files which loads, else from the
file behind the last mark, and the process dies over its arguments exactly when none of the
system's files loads and the last argument is a mark. -/
theorem configuration_of_arguments (files : ConfigFiles) (argv : List Text) :
    (findConfig files argv = .error .undefined ↔
      (∀ file ∈ systemFiles, files file = none) ∧ argv.getLast? = some fileMark) ∧
    ∀ pconf, findConfig files argv = .ok (some pconf) ↔
      systemFiles.findSome? files = some pconf ∨ (∀ file ∈ systemFiles, files file = none) ∧
        ∃ name, NamedLast argv name ∧ name ≠ [] ∧ files name = some pconf := by
  rw [← List.findSome?_eq_none_iff]
  cases hsystem : systemFiles.findSome? files with
  | some found => simp [findConfig, hsystem]
  | none =>
      have hfind : findConfig files argv = (do
          let file ← conffile [] argv
          pure (if file.length < 1 then none else files file)) := by
        rw [findConfig, hsystem]
      rw [hfind]
      constructor
      · rw [← @conffile_error_iff [] argv]
        cases conffile [] argv with
        | error thrown => simp [bind, Except.bind]
        | ok file => simp [bind, Except.bind, pure, Except.pure]
      · intro pconf
        rw [bind_eq_ok]
        constructor
        · intro ⟨name, hname, hpure⟩
          have hloaded := Except.ok.inj hpure
          split at hloaded
          · cases hloaded
          next hlong =>
            have hne : name ≠ [] := fun h => hlong (by rw [h]; decide)
            exact .inr ⟨rfl, name, (conffile_name_iff hne).mp hname, hne, hloaded⟩
        · rintro (hfound | ⟨-, name, hlast, hne, hloaded⟩)
          · cases hfound
          · have hlong : ¬ name.length < 1 := Nat.not_lt.mpr (List.length_pos_iff.mpr hne)
            refine ⟨name, (conffile_name_iff hne).mpr hlast, ?_⟩
            rw [if_neg hlong, hloaded]
            rfl

end Arguments

section Commits
variable {α : Type*} {arrives : ℕ → Bool} {messages : List α}

theorem selected_all (h : ∀ n, arrives n = true) : selected arrives messages = messages := by
  rw [selected, List.filter_eq_self.mpr fun entry _ => h entry.2, List.zipIdx_map_fst]

end Commits

section Lives
variable {env : Environment} {pconf : Option Json} {i : Incarnation} {mem : MemChecker}
  {c : TopicDiscovery.Consume}

/-- The consumer of an incarnation has its client. -/
theorem client_of_prepare (h : prepare env pconf i = .ok (mem, c)) :
    ∃ s3, c.ps3 = some s3 ∧ s3.sp3client = true := by
  obtain ⟨s3client, hs3, hrest⟩ := bind_eq_ok.mp h
  obtain ⟨consumer, _, hc⟩ := bind_eq_ok.mp hrest
  have hsetup := setup_crashes env (pconf.bind fun p => p.object_get "aws".toList) {}
  have hconfigured : s3client =
      configured env (pconf.bind fun p => p.object_get "aws".toList) {} := by
    by_cases htexts : Texts (pconf.bind fun p => p.object_get "aws".toList)
    · exact Except.ok.inj (hs3.symm.trans (hsetup.of_fit htexts))
    · rw [hsetup.of_unfit htexts] at hs3
      cases hs3
  obtain ⟨-, rfl⟩ := Prod.mk.inj (Except.ok.inj hc)
  exact ⟨s3client.client, rfl, by rw [hconfigured]; rfl⟩

/-- What S3 answers to the PUTs of a process, and the bundles which it was given. -/
structure Served (s : Session) : Prop where
  putObject : ∀ n < (putCalls s.happened).length, s.w.putObject n = true
  payload : ∀ entry ∈ stashes s.happened, 0 < messagesSize (contents entry.2)

/-- A consumer which has left its loop has come to its end, and its PUTs went out. -/
theorem ended_lived (h : prepare env pconf i = .ok (mem, c)) {rval : ℤ} {s : Running}
    (hrun : run mem i.w (.start c i.now) i.rounds = (some rval, s)) :
    Ended (lived i mem s) := by
  have hsettings : s.consume.toConsume = c.toConsume := by
    have hsame := settings_run mem i.w (.start c i.now) i.rounds
    rwa [hrun] at hsame
  have hstate : s.state = State.run s.consume.toConsume i.w
      ((executed mem 0 i.rounds).map Round.result) := by
    have hstopped := state_of_stopped mem i.w c i.now (congrArg Prod.fst hrun)
    rw [hrun] at hstopped
    rw [hsettings]
    exact hstopped.1
  have htrace : (lived i mem s).happened = (lived i mem s).trace := by
    change (s.state.destroy s.consume.toConsume i.w).trace =
      ((State.run _ _ _).destroy s.consume.toConsume i.w).trace
    rw [hstate]
    rfl
  obtain ⟨s3, hs3, hclient⟩ := client_of_prepare h
  exact ⟨rfl, htrace, s3, (congrArg BackupConsumer.Consume.ps3 hsettings).trans hs3, hclient⟩

section Ended
variable {s : Session}

theorem Ended.storable (h : Ended s) (hserved : Served s) : Storable s.c s.w s.happened where
  client _ := h.client
  accepted := hserved.putObject
  payload := hserved.payload

theorem Ended.healthy (h : Ended s) (hserved : Served s) : Healthy s := by
  obtain ⟨s3, hs3, hclient⟩ := h.client
  refine ⟨by rw [hs3]; rfl, fun call hcall => ?_, hserved.payload⟩
  obtain ⟨n, hn⟩ := List.mem_iff_getElem?.mp hcall
  have hanswer := hserved.putObject n (List.getElem?_eq_some_iff.mp hn).1
  rw [h.happened] at hn
  obtain ⟨s3', hs3', hbuilt⟩ := s.orderly.consistent.built n call hn
  obtain rfl := Option.some.inj (hs3.symm.trans hs3')
  rw [hbuilt, rval_putBundle, hclient, hanswer]
  rfl

/-- Every PUT of a consumer which is served is the request for its bundle. -/
theorem Ended.sent (h : Ended s) (hserved : Served s) {call : PutCall}
    (hcall : call ∈ putCalls s.happened) : call.Sent := by
  have hrval := (h.healthy hserved).accepted call hcall
  rw [h.happened] at hcall
  exact s.orderly.consistent.sent_of_put hcall hrval

end Ended

/-- The consumers of a process, and the code with which it ends. -/
theorem mainLoop_lives (env : Environment) (pconf : Option Json) (is : List Incarnation) :
    (∀ s ∈ (mainLoop env pconf is).2, Ended s ∧
      ∃ i ∈ is, s.arrived = selected i.arrives (committed s.happened)) ∧
    ∀ rval, (mainLoop env pconf is).1 = .exited rval → rval = 0 := by
  induction is with
  | nil =>
      refine ⟨fun s hs => ?_, fun rval h => ?_⟩
      · cases hs
      · cases h
  | cons i is ih =>
      have hlater (s : Session) (hs : s ∈ (mainLoop env pconf is).2) : Ended s ∧
          ∃ j ∈ i :: is, s.arrived = selected j.arrives (committed s.happened) := by
        obtain ⟨hended, j, hj, harrived⟩ := ih.1 s hs
        exact ⟨hended, j, List.mem_cons_of_mem i hj, harrived⟩
      rw [mainLoop]
      split
      next thrown _ =>
        refine ⟨fun s hs => ?_, fun rval h => ?_⟩
        · cases hs
        · cases h
      next mem c hprepare =>
        split
        next =>
          refine ⟨fun s hs => ?_, fun rval h => ?_⟩
          · cases hs
          · cases h
        next rval s hrun =>
          have hlived : Ended (lived i mem s) ∧ ∃ j ∈ i :: is, (lived i mem s).arrived =
              selected j.arrives (committed (lived i mem s).happened) :=
            ⟨ended_lived hprepare hrun, i, List.mem_cons_self, rfl⟩
          split
          next => exact ⟨List.forall_mem_cons.mpr ⟨hlived, hlater⟩, ih.2⟩
          next hpos =>
            refine ⟨List.forall_mem_singleton.mpr hlived, fun code hcode => ?_⟩
            have hcodes := (state_of_stopped mem i.w c i.now (congrArg Prod.fst hrun)).2
            obtain rfl := Exit.exited.inj hcode
            omega

theorem main_lives (files : ConfigFiles) (argv : List Text) (env : Environment)
    (is : List Incarnation) :
    (∀ s ∈ (main files argv env is).2, Ended s ∧
      ∃ i ∈ is, s.arrived = selected i.arrives (committed s.happened)) ∧
    ∀ rval, (main files argv env is).1 = .exited rval → rval = 0 := by
  unfold main
  split
  next =>
    refine ⟨fun s hs => ?_, fun rval h => ?_⟩
    · cases hs
    · cases h
  next pconf _ => exact mainLoop_lives env pconf is

end Lives

/-- A process which restarts its consumer any number of times never ends with anything
but zero. As long as S3 takes its bundles, none without payload, every PUT is the request
for its bundle, and every message of the log between the offsets before and after the
consumers which have come to their end went out in one, whichever commits were lost. Where
all commits arrive, it went out in exactly one, in the order of the log. -/
theorem restarts_lose_nothing (files : ConfigFiles) (argv : List Text) (env : Environment)
    (is : List Incarnation) {cluster : Cluster} {offsets later : Offsets}
    (hbroker : History cluster offsets (main files argv env is).2 later)
    (hserved : ∀ s ∈ (main files argv env is).2, Served s) (topic : Text) (partition : Int32) :
    (∀ rval, (main files argv env is).1 = .exited rval → rval = 0) ∧
    (∀ s ∈ (main files argv env is).2, ∀ call ∈ putCalls s.happened,
      call.rval = true ∧ call.Sent) ∧
    (∀ m ∈ cluster.log topic partition, offsets topic partition ≤ offsetOf m →
      offsetOf m < later topic partition →
      ∃ s ∈ (main files argv env is).2, ∃ call ∈ putCalls s.happened, m ∈ contents call.bundle) ∧
    ((∀ i ∈ is, ∀ n, i.arrives n = true) →
      rest offsetOf (cluster.log topic partition) (offsets topic partition) =
        ((main files argv env is).2.flatMap fun s =>
          messagesAt topic partition (contents (uploadedOf topic s.happened))) ++
          rest offsetOf (cluster.log topic partition) (later topic partition)) := by
  obtain ⟨hlives, hexit⟩ := main_lives files argv env is
  refine ⟨hexit, fun s hs call hcall => ?_, fun m hm hfrom hpast => ?_, fun harrives => ?_⟩
  · have hended := (hlives s hs).1
    exact ⟨(hended.healthy (hserved s hs)).accepted call hcall, hended.sent (hserved s hs) hcall⟩
  · obtain ⟨s, hs, x, hx, rfl⟩ := committed_of_passed hbroker topic partition hm hfrom hpast
    have hended := (hlives s hs).1
    have hsaved := saved_of_storable s.orderly (hended.happened ▸ List.prefix_rfl)
      (hended.storable (hserved s hs))
    obtain ⟨call, hcall, -, hbundle, -⟩ := hsaved x hx
    exact ⟨s, hs, call, hcall, List.mem_map_of_mem hbundle⟩
  · refine exactly_once hbroker (fun s hs => ?_) topic partition
    obtain ⟨hended, i, hi, harrived⟩ := hlives s hs
    rw [selected_all (harrives i hi)] at harrived
    exact ⟨⟨hended.ending, hended.happened, harrived⟩, hended.healthy (hserved s hs)⟩

section Restart

def oneTopicFile : Json :=
  .object [("kafka".toList, .object [("topics".toList, .array [.string ['t']]),
    ("default_global_conf".toList, .object [("group.id".toList, .string ['g'])])])]

/-- Only the argument of the process names a file. -/
def namedFile : ConfigFiles := fun file => if file = "k3.json".toList then some oneTopicFile else none

/-- A round in which the loop is not told to stop. -/
def goingOn (result : ConsumeResult) : Round :=
  ⟨true, 0, ⟨false, none⟩, 0, smallFiles 7, 0, result⟩

/-- The first consumer has used up its memory when it looks at it. The second one is told
to stop. -/
def twoIncarnations : List Incarnation :=
  [{ rd := .willing, now := 0, files := smallFiles 0, w := .constant true
     rounds := goingOn (.message oneMessage) :: List.replicate 30 (goingOn .null)
     arrives := fun _ => true },
    { rd := .willing, now := 0, files := smallFiles 0, w := .constant true
      rounds := [goingOn (.message secondMessage), { goingOn .null with loop_control := false }]
      arrives := fun _ => true }]

/-- Six of the eight bytes of its control group. -/
def sixOfEight : MemChecker where
  system_limit := 8
  program_limit := 6
  mem_percent := TopicDiscovery.Consume.initial.mem_percent
  used_filename := some (usageName "/m".toList)
  limit_filename := some (limitName "/m".toList)
  cgroup_memory_path := "/m".toList

theorem create_sixOfEight :
    MemChecker.create (smallFiles 0) TopicDiscovery.Consume.initial.mem_percent = sixOfEight := by
  decide +kernel

def oneTopicConsumer : TopicDiscovery.Consume :=
  match TopicDiscovery.Consume.setup .willing .empty (oneTopicFile.object_get "kafka".toList)
    .initial with
  | .ok c => { c with ps3 := some ⟨true, "k3dump".toList⟩ }
  | .error _ => .initial

theorem prepare_oneTopicFile (i : Incarnation) (hfiles : i.files = smallFiles 0)
    (hrd : i.rd = .willing) :
    prepare .empty (some oneTopicFile) i = .ok (sixOfEight, oneTopicConsumer) := by
  rw [prepare, hrd, hfiles, ← create_sixOfEight]
  rfl

def endedSession (results : List ConsumeResult) : Session :=
  let c : BackupConsumer.Consume := ⟨some ⟨true, "k3dump".toList⟩, 10, 1024 * 1024 * 10⟩
  let s := (State.run c (.constant true) results).destroy c (.constant true)
  ⟨c, .constant true, results, .destroyed, s.trace, committed s.trace⟩

/-- The memory is looked at in the thirty-first round, before the answer of that round. -/
def restartedSessions : List Session :=
  [endedSession (.message oneMessage :: List.replicate 29 .null),
    endedSession [.message secondMessage]]

theorem main_restarted :
    main namedFile ["-f".toList, "k3.json".toList] .empty twoIncarnations =
      (.exited 0, restartedSessions) := by
  change mainLoop .empty (some oneTopicFile) twoIncarnations = _
  rw [twoIncarnations, mainLoop, prepare_oneTopicFile _ rfl rfl]
  dsimp only
  rw [mainLoop, prepare_oneTopicFile _ rfl rfl]
  rfl

theorem restartedHistory : History twoMessageCluster (fun _ _ => 0)
    (main namedFile ["-f".toList, "k3.json".toList] .empty twoIncarnations).2
    (commitOffsets (commitOffsets (fun _ _ => 0) [oneMessage]) [secondMessage]) := by
  rw [main_restarted]
  refine .cons ⟨twoMessage_delivered ?_ ?_, List.prefix_rfl, List.Sublist.refl _⟩
    (.cons ⟨twoMessage_delivered ?_ ?_, List.prefix_rfl, List.Sublist.refl _⟩ .nil)
  all_goals decide

theorem restarts_lose_nothing_two :
    rest offsetOf (twoMessageCluster.log ['t'] 0) 0 =
      ((main namedFile ["-f".toList, "k3.json".toList] .empty twoIncarnations).2.flatMap
        fun s => messagesAt ['t'] 0 (contents (uploadedOf ['t'] s.happened))) ++
        rest offsetOf (twoMessageCluster.log ['t'] 0)
          (commitOffsets (commitOffsets (fun _ _ => 0) [oneMessage]) [secondMessage] ['t'] 0) := by
  refine (restarts_lose_nothing namedFile ["-f".toList, "k3.json".toList] .empty twoIncarnations
    restartedHistory ?_ ['t'] 0).2.2.2 ?_
  · rw [main_restarted, restartedSessions, List.forall_mem_cons, List.forall_mem_singleton]
    exact ⟨⟨fun _ _ => rfl, by decide⟩, ⟨fun _ _ => rfl, by decide⟩⟩
  · rw [twoIncarnations, List.forall_mem_cons, List.forall_mem_singleton]
    exact ⟨fun _ => rfl, fun _ => rfl⟩

end Restart

end KafkaK3.BackupProcess
