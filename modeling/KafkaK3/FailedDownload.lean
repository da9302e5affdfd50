import KafkaK3.Fallible
import KafkaK3.ImageDiscovery
import KafkaK3.LastValue

/-!
# What a failed download leaves in the map

Whether a download succeeded is not looked at: what is decoded is the local file, if
there is one. After a failure that is what an earlier run has left there, and so it is
where the object has arrived and the file could not be opened. What this run has written
itself is what is found by the same downloads on a disk which was empty at first. The
map is the last values of the events of all files which are read.
-/
namespace KafkaK3.FailedDownload
open ByteBuffer DecimalText S3Client MessageLayout StashImage Discovery ImageDiscovery
  Fallible LastValue

/-- What one record puts into the map. -/
abbrev Event := DiscoveryTimestamp × DiscoveryItem

/-- The event of one round, and the next position. -/
def messageEvent (inkey : Text) (buffer : Bytes) (p : ℤ) : Except Fault (ℤ × List Event) := do
  let timestamp ← int64At buffer (p + 32)
  let payload_len ← int64At buffer (p + 8)
  let next := p + (HeaderSize + payload_len.toInt)
  if timestamp ≠ 0 then
    let header ← headerAt buffer p
    let payload ←
      if payload_len ≠ 0 then
        let copy ← setpayload buffer HeaderSize payload_len.toInt32
        pure (some copy)
      else pure none
    let key := discoveryTimestamp header.details.timestamp header.details.offset
    pure (next, [(key, ⟨timestamp, inkey, header, payload⟩)])
  else pure (next, [])

def messageEvents (inkey : Text) (buffer : Bytes) : ℕ → ℤ → Except Fault (List Event)
  | 0, _ => .ok []
  | nummsgs + 1, p => do
      let (p, events) ← messageEvent inkey buffer p
      let rest ← messageEvents inkey buffer nummsgs p
      pure (events ++ rest)

/-- The events of a local file, in the order in which they go into the map. -/
def fileEvents (inkey : Text) (file : Bytes) : Except Fault (List Event) := do
  let buffer := file ++ List.replicate file.length 0
  if file.length * 2 < HeaderSize then pure []
  else
    let index ← int64At buffer 40
    messageEvents inkey buffer (index + 1).toInt32.toUInt32.toNat 0

section Events
variable (inkey : Text) (buffer : Bytes)

theorem discoverMessage_eq (nummsgs : Int32) (p : ℤ) (r : Replay) :
    discoverMessage inkey buffer nummsgs p r =
      (messageEvent inkey buffer p).map fun round => (round.1,
        ⟨insertAll r.output round.2, r.reports ++ [.round nummsgs inkey] ++
          (if round.2.isEmpty then [.zeroTimestamp inkey] else []), r.disk⟩) := by
  unfold discoverMessage messageEvent
  cases int64At buffer (p + 32) with
  | error fault => rfl
  | ok timestamp =>
      cases int64At buffer (p + 8) with
      | error fault => rfl
      | ok payload_len =>
          by_cases hts : timestamp = 0
          · simp [hts, bind, Except.bind, pure, Except.pure, Except.map, insertAll, Replay.report]
          · cases headerAt buffer p with
            | error fault => simp [hts, bind, Except.bind, Except.map]
            | ok header =>
                by_cases hlen : payload_len = 0
                · simp [hts, hlen, bind, Except.bind, pure, Except.pure, Except.map, insertAll,
                    Replay.report, Replay.found]
                · cases hcopy : setpayload buffer HeaderSize payload_len.toInt32 with
                  | error fault => simp [hts, hlen, hcopy, bind, Except.bind, Except.map]
                  | ok copy =>
                      simp [hts, hlen, hcopy, bind, Except.bind, pure, Except.pure, Except.map,
                        insertAll, Replay.report, Replay.found]

/-- The map and the disk of a replay, without its reports. -/
def observed (r : Replay) : DiscoveryMap × Disk := (r.output, r.disk)

theorem discoverMessages_eq (nummsgs : ℕ) (p : ℤ) (r : Replay) :
    (discoverMessages inkey buffer nummsgs p r).map observed =
      (messageEvents inkey buffer nummsgs p).map fun events => (insertAll r.output events, r.disk) := by
  induction nummsgs generalizing p r with
  | zero => rfl
  | succ nummsgs ih =>
      rw [discoverMessages, messageEvents, discoverMessage_eq]
      cases messageEvent inkey buffer p with
      | error fault => rfl
      | ok round =>
          have hrest := ih round.1 ⟨insertAll r.output round.2, r.reports ++
            [.round (Int32.ofNat (nummsgs + 1)) inkey] ++
              (if round.2.isEmpty then [.zeroTimestamp inkey] else []), r.disk⟩
          simp only [Except.map, bind, Except.bind] at hrest ⊢
          rw [hrest]
          cases messageEvents inkey buffer nummsgs round.1 with
          | error fault => rfl
          | ok events => simp only [pure, Except.pure, insertAll_append]

theorem discoverFile_eq (local_target : Text) (file : Bytes) (r : Replay) :
    (discoverFile inkey local_target file r).map observed =
      (fileEvents inkey file).map fun events => (insertAll r.output events, r.disk) := by
  unfold discoverFile fileEvents
  by_cases hshort : file.length * 2 < HeaderSize
  · simp only [hshort, if_true]
    rfl
  · simp only [hshort, if_false]
    cases int64At (file ++ List.replicate file.length 0) 40 with
    | error fault => rfl
    | ok index => exact discoverMessages_eq inkey _ _ 0 r

end Events

/-- What one key adds: whether its download succeeded, whether the local file which is read
after it was written in this run, and the events of that file. -/
structure Contribution where
  arrived : Bool
  own : Bool
  events : Except Fault (List Event)

section Keys
variable (s3 : S3) (indelete : Bool)

/-- The result of `S3::get`, which is the same whatever lies on the disk. -/
def arrived (entry : Text × GetAnswer) : Bool := (s3.get entry.2 (localTarget entry.1) ∅).2

/-- The local file as the decoder finds it. -/
def fileRead (entry : Text × GetAnswer) (disk : Disk) : Option Bytes :=
  (s3.get entry.2 (localTarget entry.1) disk).1[localTarget entry.1]?

/-- The disk when the key is done with. -/
def diskLeft (entry : Text × GetAnswer) (disk : Disk) : Disk :=
  let after := (s3.get entry.2 (localTarget entry.1) disk).1
  if indelete ∧ (fileRead s3 entry disk).isSome then after.erase (localTarget entry.1) else after

def keyEvents (entry : Text × GetAnswer) (disk : Disk) : Except Fault (List Event) :=
  match fileRead s3 entry disk with
  | some file => fileEvents entry.1 file
  | none => .ok []

/-- What the keys add, one after the other. The second disk has the files which this run
has written. -/
def contributions : List (Text × GetAnswer) → Disk → Disk → List Contribution
  | [], _, _ => []
  | entry :: entries, disk, written =>
      ⟨arrived s3 entry, (fileRead s3 entry written).isSome, keyEvents s3 entry disk⟩ ::
        contributions entries (diskLeft s3 indelete entry disk) (diskLeft s3 indelete entry written)

theorem batch_discovery_bykey_eq (entry : Text × GetAnswer) (r : Replay) :
    (batch_discovery_bykey entry.1 s3 entry.2 indelete r).map observed =
      (keyEvents s3 entry r.disk).map fun events =>
        (insertAll r.output events, diskLeft s3 indelete entry r.disk) := by
  unfold batch_discovery_bykey keyEvents diskLeft
  have hread : fileRead s3 entry r.disk =
      (s3.get entry.2 (localTarget entry.1) r.disk).1[localTarget entry.1]? := rfl
  dsimp only
  rw [← hread]
  cases fileRead s3 entry r.disk with
  | none => simp [pure, Except.pure, Except.map, observed, insertAll, Replay.report]
  | some file =>
      have hfile := discoverFile_eq entry.1 (localTarget entry.1) file
        { r with disk := (s3.get entry.2 (localTarget entry.1) r.disk).1 }
      dsimp only
      cases cases_of_map_eq hfile with
      | inl hfault =>
          obtain ⟨fault, hresult, hevents⟩ := hfault
          rw [hresult, hevents]
          rfl
      | inr hdone =>
          obtain ⟨s, events, hresult, hevents, hsame⟩ := hdone
          obtain ⟨houtput, hdisk⟩ := Prod.mk.inj hsame
          rw [hresult, hevents]
          cases indelete with
          | false => simp [bind, Except.bind, pure, Except.pure, Except.map, observed, houtput, hdisk]
          | true => simp [bind, Except.bind, pure, Except.pure, Except.map, observed, houtput, hdisk]

/-- The map is made of what the keys add. -/
theorem batch_discovery_eq (entries : List (Text × GetAnswer)) (r : Replay) (written : Disk) :
    (batch_discovery s3 indelete entries r).map Replay.output =
      (contributions s3 indelete entries r.disk written).foldlM
        (fun map c => c.events.map (insertAll map)) r.output := by
  induction entries generalizing r written with
  | nil => rfl
  | cons entry entries ih =>
      have hkey := batch_discovery_bykey_eq s3 indelete entry r
      rw [batch_discovery, contributions, List.foldlM_cons]
      dsimp only
      cases cases_of_map_eq hkey with
      | inl hfault =>
          obtain ⟨fault, hresult, hevents⟩ := hfault
          rw [hresult, hevents]
          rfl
      | inr hdone =>
          obtain ⟨s, events, hresult, hevents, hsame⟩ := hdone
          obtain ⟨houtput, hdisk⟩ := Prod.mk.inj hsame
          have hrest := ih s (diskLeft s3 indelete entry written)
          rw [hdisk, houtput] at hrest
          rw [hresult, hevents]
          exact hrest

/-- What a download writes to its file, if it comes to that. -/
def written (answer : GetAnswer) : Option Bytes :=
  if s3.sp3client ∧ answer.opened then answer.object else none

theorem get_arrived (answer : GetAnswer) (name : Text) (disk : Disk) :
    (s3.get answer name disk).2 = (s3.sp3client && answer.object.isSome) := by
  unfold S3.get
  cases s3.sp3client with
  | false => rfl
  | true =>
      cases answer.object with
      | none => rfl
      | some body => cases answer.opened <;> rfl

theorem get_disk (answer : GetAnswer) (name : Text) (disk : Disk) :
    (s3.get answer name disk).1 =
      match written s3 answer with
      | some body => disk.insert name body
      | none => disk := by
  unfold S3.get written
  cases s3.sp3client with
  | false => simp
  | true =>
      cases answer.object with
      | none => simp
      | some body => cases answer.opened <;> simp

/-- A failed download writes nothing. -/
theorem written_of_failed {entry : Text × GetAnswer} (h : arrived s3 entry = false) :
    written s3 entry.2 = none := by
  rw [arrived, get_arrived, Bool.and_eq_false_iff] at h
  unfold written
  cases h with
  | inl hclient => simp [hclient]
  | inr hobject =>
      rw [Option.isSome_eq_false_iff, Option.isNone_iff_eq_none] at hobject
      rw [hobject, ite_self]

theorem getElem?_get (answer : GetAnswer) (name target : Text) (disk : Disk) :
    (s3.get answer name disk).1[target]? =
      if name = target then (written s3 answer).or disk[target]? else disk[target]? := by
  rw [get_disk]
  cases written s3 answer with
  | none => simp
  | some body =>
      dsimp only
      rw [Std.TreeMap.getElem?_insert]
      simp only [Std.compare_eq_iff_eq, Option.some_or]

theorem fileRead_eq (entry : Text × GetAnswer) (disk : Disk) :
    fileRead s3 entry disk = (written s3 entry.2).or disk[localTarget entry.1]? := by
  rw [fileRead, getElem?_get, if_pos rfl]

/-- Only the file of the key is another one when the key is done with. -/
theorem getElem?_diskLeft (entry : Text × GetAnswer) (target : Text) (disk : Disk) :
    (diskLeft s3 indelete entry disk)[target]? =
      if localTarget entry.1 = target then (if indelete then none else fileRead s3 entry disk)
      else disk[target]? := by
  have hafter := getElem?_get s3 entry.2 (localTarget entry.1) target disk
  have hread := fileRead_eq s3 entry disk
  unfold diskLeft
  dsimp only
  by_cases htarget : localTarget entry.1 = target
  · rw [if_pos htarget]
    rw [if_pos htarget, ← htarget, ← hread] at hafter
    by_cases hdelete : indelete ∧ (fileRead s3 entry disk).isSome
    · rw [if_pos hdelete, if_pos hdelete.1, Std.TreeMap.getElem?_erase,
        if_pos (Std.compare_eq_iff_eq.mpr htarget)]
    · rw [if_neg hdelete, ← htarget, hafter]
      cases indelete with
      | false => rfl
      | true =>
          cases hfile : fileRead s3 entry disk with
          | none => rfl
          | some file => exact absurd ⟨rfl, by rw [hfile]; rfl⟩ hdelete
  · rw [if_neg htarget]
    rw [if_neg htarget] at hafter
    split
    · rw [Std.TreeMap.getElem?_erase, if_neg (mt Std.compare_eq_iff_eq.mp htarget), hafter]
    · exact hafter

variable {s3 indelete}

theorem keyEvents_congr {entry : Text × GetAnswer} {disk disk' : Disk}
    (h : fileRead s3 entry disk = fileRead s3 entry disk') :
    keyEvents s3 entry disk = keyEvents s3 entry disk' := by
  rw [keyEvents, h]
  rfl

/-- Without the failed keys the others read what they read with them, since a failed key
changes no other file than its own, and deletes only what an earlier run has left. -/
theorem contributions_filter {entries : List (Text × GetAnswer)} {disk disk' : Disk}
    (hagree : ∀ entry ∈ entries, disk[localTarget entry.1]? = disk'[localTarget entry.1]?)
    (hempty : indelete = true → ∀ key, disk[localTarget key]? = none) :
    contributions s3 indelete (entries.filter (arrived s3)) disk' disk' =
      (contributions s3 indelete entries disk disk).filter Contribution.arrived := by
  induction entries generalizing disk disk' with
  | nil => rfl
  | cons entry entries ih =>
      obtain ⟨hfirst, hrest⟩ := List.forall_mem_cons.mp hagree
      have hlater (hdelete : indelete = true) (key : Text) :
          (diskLeft s3 indelete entry disk)[localTarget key]? = none := by
        rw [getElem?_diskLeft, hempty hdelete key, hdelete]
        split <;> rfl
      rw [contributions]
      cases harrived : arrived s3 entry with
      | true =>
          have hread : fileRead s3 entry disk = fileRead s3 entry disk' := by
            rw [fileRead_eq, fileRead_eq, hfirst]
          rw [List.filter_cons_of_pos harrived, contributions, harrived,
            List.filter_cons_of_pos rfl, keyEvents_congr hread, hread]
          refine congrArg (List.cons _) (ih (fun other hother => ?_) hlater)
          rw [getElem?_diskLeft, getElem?_diskLeft, hread, hrest other hother]
      | false =>
          rw [List.filter_cons_of_neg (by simp [harrived]), List.filter_cons_of_neg (by simp)]
          refine ih (fun other hother => ?_) hlater
          rw [getElem?_diskLeft, fileRead_eq, written_of_failed s3 harrived, Option.none_or]
          by_cases htarget : localTarget entry.1 = localTarget other.1
          · rw [if_pos htarget, ← hrest other hother, htarget]
            cases hdelete : indelete with
            | false => rfl
            | true => exact (hempty hdelete other.1).symm
          · rw [if_neg htarget, hrest other hother]

/-- No event is taken from a file which this run has not written. -/
def OwnOnly (cs : List Contribution) : Prop := ∀ c ∈ cs, c.own = false → c.events = .ok []

/-- Then the keys add what they add on a disk which was empty at first. -/
theorem contributions_of_ownOnly {entries : List (Text × GetAnswer)} {disk written : Disk}
    (hin : ∀ key file, written[localTarget key]? = some file → disk[localTarget key]? = some file)
    (h : OwnOnly (contributions s3 indelete entries disk written)) :
    contributions s3 indelete entries disk written =
      contributions s3 indelete entries written written := by
  induction entries generalizing disk written with
  | nil => rfl
  | cons entry entries ih =>
      obtain ⟨hfirst, hrest⟩ := List.forall_mem_cons.mp h
      have hread (file : Bytes) (hfile : fileRead s3 entry written = some file) :
          fileRead s3 entry disk = some file := by
        rw [fileRead_eq, Option.or_eq_some_iff] at hfile ⊢
        exact hfile.imp_right fun ⟨hnone, hold⟩ => ⟨hnone, hin _ _ hold⟩
      have hevents : keyEvents s3 entry disk = keyEvents s3 entry written := by
        cases hfile : fileRead s3 entry written with
        | none =>
            have hnone : keyEvents s3 entry written = .ok [] := by rw [keyEvents, hfile]
            rw [hnone]
            exact hfirst (by rw [hfile]; rfl)
        | some file => exact keyEvents_congr ((hread file hfile).trans hfile.symm)
      rw [contributions, contributions, hevents]
      refine congrArg (List.cons _) (ih (fun key file hfile => ?_) hrest)
      rw [getElem?_diskLeft] at hfile ⊢
      split
      next htarget =>
        rw [if_pos htarget] at hfile
        split at hfile
        · cases hfile
        next hkeep => exact (if_neg hkeep).trans (hread file hfile)
      next htarget =>
        rw [if_neg htarget] at hfile
        exact hin key file hfile

theorem find?_first_cons (entry other : Text × GetAnswer) (entries : List (Text × GetAnswer)) :
    (entry :: entries).find? (fun e => e.1 = other.1) =
      if entry.1 = other.1 then some entry else entries.find? (fun e => e.1 = other.1) := by
  rw [List.find?_cons]
  split <;> simp_all

/-- Only the first listing of a key can read a file which was there before the run, and
does so if it writes none itself. -/
theorem ownOnly_contributions_iff {entries : List (Text × GetAnswer)} {disk seen : Disk} :
    OwnOnly (contributions s3 indelete entries disk seen) ↔
      ∀ entry, entries.find? (fun e => e.1 = entry.1) = some entry → written s3 entry.2 = none →
        seen[localTarget entry.1]? = none →
        ∀ file, disk[localTarget entry.1]? = some file → fileEvents entry.1 file = .ok [] := by
  induction entries generalizing disk seen with
  | nil => exact iff_of_true (fun _ hc => absurd hc List.not_mem_nil) fun _ h => by cases h
  | cons entry entries ih =>
      have hhead : ((fileRead s3 entry seen).isSome = false → keyEvents s3 entry disk = .ok []) ↔
          (written s3 entry.2 = none → seen[localTarget entry.1]? = none →
            ∀ file, disk[localTarget entry.1]? = some file → fileEvents entry.1 file = .ok []) := by
        rw [Option.isSome_eq_false_iff, Option.isNone_iff_eq_none, fileRead_eq, Option.or_eq_none_iff,
          and_imp]
        refine imp_congr_right fun hnone => imp_congr_right fun _ => ?_
        rw [keyEvents, fileRead_eq, hnone, Option.none_or]
        cases disk[localTarget entry.1]? with
        | none => simp
        | some file => simp
      rw [contributions, OwnOnly, List.forall_mem_cons, hhead]
      have htail := @ih (diskLeft s3 indelete entry disk) (diskLeft s3 indelete entry seen)
      rw [OwnOnly] at htail
      rw [htail]
      constructor
      · rintro ⟨hfirst, hrest⟩ other hother hnone hseen file hfile
        rw [find?_first_cons] at hother
        split at hother
        · cases hother
          exact hfirst hnone hseen file hfile
        next hkey =>
          have htarget : localTarget entry.1 ≠ localTarget other.1 :=
            fun h => hkey (List.append_cancel_left h)
          refine hrest other hother hnone ?_ file ?_
          · rw [getElem?_diskLeft, if_neg htarget, hseen]
          · rw [getElem?_diskLeft, if_neg htarget, hfile]
      · intro h
        have hfirst := h entry (by rw [find?_first_cons, if_pos rfl])
        refine ⟨hfirst, fun other hother hnone hseen file hfile => ?_⟩
        rw [getElem?_diskLeft] at hseen hfile
        by_cases hkey : entry.1 = other.1
        · -- A listing which comes later reads what the first one has read.
          rw [hkey, if_pos rfl] at hseen hfile
          cases indelete with
          | true => cases hfile
          | false =>
              simp only [Bool.false_eq_true, if_false] at hseen hfile
              rw [fileRead_eq, Option.or_eq_none_iff] at hseen
              rw [fileRead_eq, hseen.1, Option.none_or] at hfile
              rw [← hkey]
              exact hfirst hseen.1 hseen.2 file hfile
        · have htarget : localTarget entry.1 ≠ localTarget other.1 :=
            fun h => hkey (List.append_cancel_left h)
          rw [if_neg htarget] at hseen hfile
          refine h other ?_ hnone hseen file hfile
          rw [find?_first_cons, if_neg hkey, hother]

/-- What an earlier run has left under the name of a key which is not written where it is
first listed has no event in it. -/
def NothingLeft (s3 : S3) (entries : List (Text × GetAnswer)) (disk : Disk) : Prop :=
  ∀ entry, entries.find? (fun e => e.1 = entry.1) = some entry → written s3 entry.2 = none →
    ∀ file, disk[localTarget entry.1]? = some file → fileEvents entry.1 file = .ok []

theorem ownOnly_iff {entries : List (Text × GetAnswer)} {disk : Disk} :
    OwnOnly (contributions s3 indelete entries disk ∅) ↔ NothingLeft s3 entries disk := by
  rw [ownOnly_contributions_iff]
  exact forall_congr' fun entry => imp_congr_right fun _ => imp_congr_right fun _ =>
    imp_iff_right Std.TreeMap.getElem?_emptyc

/-- The first of the downloads of a key which arrived is the first of all, or follows one
which wrote nothing. -/
theorem NothingLeft.of_filter {entries : List (Text × GetAnswer)} {disk : Disk}
    (h : NothingLeft s3 entries disk) :
    NothingLeft s3 (entries.filter (arrived s3)) disk := by
  intro entry hentry hnone file hfile
  have hmem : entry ∈ entries := (List.mem_filter.mp (List.mem_of_find?_eq_some hentry)).1
  obtain ⟨first, hfirst⟩ : ∃ first, entries.find? (fun e => e.1 = entry.1) = some first := by
    rw [← Option.isSome_iff_exists, List.find?_isSome]
    exact ⟨entry, hmem, by simp⟩
  have hkey : first.1 = entry.1 := by simpa using List.find?_some hfirst
  have hsame : entries.find? (fun e => e.1 = first.1) = some first := by rw [hkey, hfirst]
  cases harrived : arrived s3 first with
  | false =>
      rw [← hkey] at hfile ⊢
      exact h first hsame (written_of_failed s3 harrived) file hfile
  | true =>
      rw [List.find?_filter] at hentry
      obtain ⟨-, front, tail, hsplit, hfront⟩ := List.find?_eq_some_iff_append.mp hfirst
      have hagain : entries.find? (fun e => arrived s3 e ∧ decide (e.1 = entry.1)) = some first := by
        rw [List.find?_eq_some_iff_append]
        refine ⟨by simp [harrived, hkey], front, tail, hsplit, fun e he => ?_⟩
        have hother := hfront e he
        simp only [Bool.not_eq_true', decide_eq_false_iff_not] at hother ⊢
        exact fun hboth => hother (of_decide_eq_true hboth.2)
      obtain rfl : first = entry := Option.some.inj (hagain.symm.trans hentry)
      exact h first hsame hnone file hfile

end Keys

section Log

def Contribution.Decodes (c : Contribution) : Prop := ∃ events, c.events = .ok events

/-- The events, none where the file does not decode. -/
def Contribution.found (c : Contribution) : List Event :=
  match c.events with
  | .ok events => events
  | .error _ => []

/-- The events of all files, those of the failed keys as not belonging there. -/
def eventLog (cs : List Contribution) : List (Marked DiscoveryTimestamp DiscoveryItem) :=
  cs.flatMap fun c => mark c.arrived c.found

theorem eventLog_cons (c : Contribution) (cs : List Contribution) :
    eventLog (c :: cs) = mark c.arrived c.found ++ eventLog cs := List.flatMap_cons

theorem everything_eventLog (cs : List Contribution) :
    everything (eventLog cs) = cs.flatMap Contribution.found := by
  induction cs with
  | nil => rfl
  | cons c cs ih => rw [eventLog_cons, everything_append, everything_mark, ih, List.flatMap_cons]

theorem kept_eventLog (cs : List Contribution) :
    kept (eventLog cs) = (cs.filter Contribution.arrived).flatMap Contribution.found := by
  induction cs with
  | nil => rfl
  | cons c cs ih =>
      rw [eventLog_cons, kept_append, kept_mark, ih]
      cases harrived : c.arrived with
      | true =>
          rw [List.filter_cons_of_pos harrived, List.flatMap_cons]
          rfl
      | false =>
          rw [List.filter_cons_of_neg (by simp [harrived])]
          rfl

theorem foldlM_decodes {cs : List Contribution} (h : ∀ c ∈ cs, c.Decodes) (map : DiscoveryMap) :
    cs.foldlM (fun map c => c.events.map (insertAll map)) map =
      .ok (insertAll map (cs.flatMap Contribution.found)) := by
  induction cs generalizing map with
  | nil => rfl
  | cons c cs ih =>
      obtain ⟨⟨events, hevents⟩, hrest⟩ := List.forall_mem_cons.mp h
      have hfound : c.found = events := by rw [Contribution.found, hevents]
      rw [List.foldlM_cons, List.flatMap_cons, insertAll_append, hfound, hevents]
      exact ih hrest _

theorem foldlM_faults {cs : List Contribution} (h : ¬ ∀ c ∈ cs, c.Decodes) (map : DiscoveryMap) :
    ∃ fault, cs.foldlM (fun map c => c.events.map (insertAll map)) map = .error fault := by
  induction cs generalizing map with
  | nil => exact absurd (fun _ hc => absurd hc List.not_mem_nil) h
  | cons c cs ih =>
      rw [List.foldlM_cons]
      cases hevents : c.events with
      | error fault => exact ⟨fault, rfl⟩
      | ok events =>
          have hrest : ¬ ∀ c ∈ cs, c.Decodes :=
            fun hall => h (List.forall_mem_cons.mpr ⟨⟨events, hevents⟩, hall⟩)
          exact ih hrest _

end Log

/-- Where the second run makes a map, the first one makes the same. -/
def SameMap (full downloaded : Except Fault Replay) : Prop :=
  ∀ s, downloaded = .ok s → ∃ t, full = .ok t ∧ ∀ k : DiscoveryTimestamp, t.output[k]? = s.output[k]?

/-- Where the downloaded files decode, those of the failed keys do too, and their events are
replaced behind them or are the ones which the downloaded files have anyway. -/
def Unaffected (cs : List Contribution) (before : DiscoveryMap) : Prop :=
  (∀ c ∈ cs, c.arrived = true → c.Decodes) →
    (∀ c ∈ cs, c.arrived = false → c.Decodes) ∧
      Harmless (eventLog cs) fun k : DiscoveryTimestamp => before[k]?

/-- A failed download contributes nothing: the map is the one of the keys which arrived, and
no event is taken from a file which this run has not written. -/
structure FailedAddsNothing (s3 : S3) (indelete : Bool) (entries : List (Text × GetAnswer))
    (r : Replay) : Prop where
  same_map : SameMap (batch_discovery s3 indelete entries r)
    (batch_discovery s3 indelete (entries.filter (arrived s3)) r)
  own_only : OwnOnly (contributions s3 indelete entries r.disk ∅)

section Runs
variable {s3 : S3} {indelete : Bool} {entries : List (Text × GetAnswer)} {r : Replay}

/-- Where nothing of an earlier run is read, the map is made of what the keys add on a disk
which was empty at first. -/
theorem batch_discovery_of_nothingLeft (h : NothingLeft s3 entries r.disk) :
    (batch_discovery s3 indelete entries r).map Replay.output =
      (contributions s3 indelete entries ∅ ∅).foldlM
        (fun map c => c.events.map (insertAll map)) r.output := by
  have hempty (key : Text) (file : Bytes) (hfile : (∅ : Disk)[localTarget key]? = some file) :
      r.disk[localTarget key]? = some file := by
    rw [Std.TreeMap.getElem?_emptyc] at hfile
    cases hfile
  rw [batch_discovery_eq s3 indelete entries r ∅,
    contributions_of_ownOnly hempty (ownOnly_iff.mpr h)]

/-- A run whose files all decode makes a map of their events. -/
theorem batch_discovery_decodes (hleft : NothingLeft s3 entries r.disk)
    (h : ∀ c ∈ contributions s3 indelete entries ∅ ∅, c.Decodes) :
    ∃ s, batch_discovery s3 indelete entries r = .ok s ∧
      s.output = insertAll r.output ((contributions s3 indelete entries ∅ ∅).flatMap
        Contribution.found) := by
  have hrun := @batch_discovery_of_nothingLeft s3 indelete entries r hleft
  rw [foldlM_decodes h] at hrun
  cases hresult : batch_discovery s3 indelete entries r with
  | error fault =>
      rw [hresult] at hrun
      cases hrun
  | ok s =>
      rw [hresult] at hrun
      exact ⟨s, rfl, Except.ok.inj hrun⟩

theorem batch_discovery_faults (hleft : NothingLeft s3 entries r.disk)
    (h : ¬ ∀ c ∈ contributions s3 indelete entries ∅ ∅, c.Decodes) (s : Replay) :
    batch_discovery s3 indelete entries r ≠ .ok s := by
  intro hresult
  obtain ⟨fault, hfault⟩ := foldlM_faults h r.output
  have hrun := @batch_discovery_of_nothingLeft s3 indelete entries r hleft
  rw [hresult, hfault] at hrun
  cases hrun

/-- Where nothing of an earlier run is read, only a key which is listed again can make a
difference: its failed downloads read what an earlier one has written. -/
theorem sameMap_iff (hleft : NothingLeft s3 entries r.disk) :
    SameMap (batch_discovery s3 indelete entries r)
        (batch_discovery s3 indelete (entries.filter (arrived s3)) r) ↔
      Unaffected (contributions s3 indelete entries ∅ ∅) r.output := by
  have hfilter : contributions s3 indelete (entries.filter (arrived s3)) ∅ ∅ = _ :=
    @contributions_filter s3 indelete entries ∅ ∅ (fun _ _ => rfl)
      fun _ _ => Std.TreeMap.getElem?_emptyc
  have hleft' := hleft.of_filter
  generalize hcs : contributions s3 indelete entries ∅ ∅ = cs at hfilter ⊢
  by_cases hdownloaded : ∀ c ∈ cs, c.arrived = true → c.Decodes
  · have hkept : ∀ c ∈ contributions s3 indelete (entries.filter (arrived s3)) ∅ ∅, c.Decodes := by
      rw [hfilter]
      exact fun c hc => hdownloaded c (List.mem_filter.mp hc).1 (List.mem_filter.mp hc).2
    obtain ⟨s, hs, houtput⟩ := batch_discovery_decodes hleft' hkept
    rw [hfilter, ← kept_eventLog] at houtput
    have hvalues (k : DiscoveryTimestamp) : s.output[k]? =
        (lastValue (kept (eventLog cs)) k).or r.output[k]? := by
      rw [houtput, getElem?_insertAll]
    by_cases hfailed : ∀ c ∈ cs, c.arrived = false → c.Decodes
    · have hall : ∀ c ∈ contributions s3 indelete entries ∅ ∅, c.Decodes := by
        rw [hcs]
        intro c hc
        cases harrived : c.arrived with
        | true => exact hdownloaded c hc harrived
        | false => exact hfailed c hc harrived
      obtain ⟨t, ht, hfull⟩ := batch_discovery_decodes hleft hall
      rw [hcs, ← everything_eventLog] at hfull
      have hvalues' (k : DiscoveryTimestamp) : t.output[k]? =
          (lastValue (everything (eventLog cs)) k).or r.output[k]? := by
        rw [hfull, getElem?_insertAll]
      rw [Unaffected, imp_iff_right hdownloaded, and_iff_right hfailed, ← same_values_iff, hs, ht]
      constructor
      · intro hsame k
        obtain ⟨t', ht', hmap⟩ := hsame s rfl
        rw [← hvalues, ← hvalues', ← hmap, ← Except.ok.inj ht']
      · intro hsame s' hs'
        refine ⟨t, rfl, fun k => ?_⟩
        rw [← Except.ok.inj hs', hvalues, hvalues', hsame]
    · have hfault : ¬ ∀ c ∈ contributions s3 indelete entries ∅ ∅, c.Decodes := by
        rw [hcs]
        exact fun hall => hfailed fun c hc _ => hall c hc
      refine iff_of_false (fun hsame => ?_) fun h => hfailed (h hdownloaded).1
      obtain ⟨t, ht, -⟩ := hsame s hs
      exact batch_discovery_faults hleft hfault t ht
  · have hfault : ¬ ∀ c ∈ contributions s3 indelete (entries.filter (arrived s3)) ∅ ∅,
        c.Decodes := by
      rw [hfilter]
      exact fun hall => hdownloaded fun c hc harrived =>
        hall c (List.mem_filter.mpr ⟨hc, harrived⟩)
    exact iff_of_true (fun s hs => absurd hs (batch_discovery_faults hleft' hfault s))
      fun h => absurd h hdownloaded

end Runs

/-- A failed key which has left no events on the disk is without effect. -/
theorem unaffected_of_nothing_left {cs : List Contribution} (before : DiscoveryMap)
    (h : ∀ c ∈ cs, c.arrived = false → c.events = .ok []) : Unaffected cs before := by
  intro _
  refine ⟨fun c hc harrived => ⟨[], h c hc harrived⟩, ?_⟩
  intro front k v tail hlog _
  have hmem : (⟨false, k, v⟩ : Marked DiscoveryTimestamp DiscoveryItem) ∈ eventLog cs := by
    rw [hlog]
    exact List.mem_append_right _ List.mem_cons_self
  obtain ⟨c, hc, hmark⟩ := List.mem_flatMap.mp hmem
  obtain ⟨event, hevent, heq⟩ := List.mem_map.mp hmark
  have hnone := h c hc (congrArg Marked.belongs heq)
  rw [Contribution.found, hnone] at hevent
  exact absurd hevent List.not_mem_nil

section Example

def storedMessage : Message := .plain ['t'] 0 0 5 [97] Message.letter_fits Message.letter_fits

/-- A key which is downloaded, then one whose download fails. -/
def secondFails : List (Text × GetAnswer) :=
  [(['a'], ⟨some (image [storedMessage]), true⟩), (['k'], ⟨none, true⟩)]

/-- A key whose download fails. -/
def failedKey : List (Text × GetAnswer) := [(['k'], ⟨none, true⟩)]

/-- The local file which an earlier run has left. -/
def usedDisk : Disk := (∅ : Disk).insert (localTarget ['k']) (image [storedMessage])

end Example

end KafkaK3.FailedDownload
