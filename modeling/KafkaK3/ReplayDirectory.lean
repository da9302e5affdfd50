import KafkaK3.ReplayProcess

/-!
# The directory of a replay

The objects of a topic become files in one directory, which `main` makes first. A
process with privileges can open them there. The mode which `main` gives is a
hexadecimal number without the owner's right to write, so any other process which
makes the directory can open none of them: it downloads all that it should, has
nothing to read and ends as ever.
-/
namespace KafkaK3.ReplayDirectory
open ByteBuffer DecimalText KafkaConfig S3Client Discovery TimeText KeyListing LocalFiles
open ReplayProducer EventReplay FailedDownload S3Setup ReplayProcess

/-- The listed keys of the topic are names of files which are not there yet. -/
def NewFiles (s : Surroundings) (topic : Text) (l : Listing) : Prop :=
  ∀ key ∈ l.keys, topic ++ ['/'] <+: key → ∃ name, name ≠ [] ∧ '/' ∉ name ∧
    key = topic ++ '/' :: name ∧ s.files.entry ["tmp".toList, topic, name] = none

section Paths
variable {topic : Text}

theorem names_directory (htopic : topic ≠ []) (hslash : '/' ∉ topic) :
    names (topicDirectory topic) = ["tmp".toList, topic] := by
  have htmp : topicDirectory topic = ([] ++ '/' :: "tmp".toList) ++ '/' :: topic := rfl
  rw [htmp, names_file _ htopic hslash, names_file _ (by decide) (by decide)]
  rfl

/-- The slash behind the topic names the same directory. -/
theorem names_directory_slash :
    names (topicDirectory (topic ++ ['/'])) = names (topicDirectory topic) := by
  have hsplit : topicDirectory (topic ++ ['/']) = topicDirectory topic ++ '/' :: [] :=
    (List.append_assoc ..).symm
  rw [hsplit, names_append_slash, names_nil, List.append_nil]

theorem localTarget_file (name : Text) :
    localTarget (topic ++ '/' :: name) = topicDirectory topic ++ '/' :: name :=
  (List.append_assoc ..).symm

end Paths

section Directory
variable {s : Surroundings} {topic : Text} {l : Listing} (htopic : topic ≠ []) (hslash : '/' ∉ topic)
  (hnew : NewFiles s topic l)
include htopic hslash hnew

theorem exists_new_file {key : Text} (hkey : key ∈ l.keys) (hstart : topic ++ ['/'] <+: key) :
    ∃ name, name ≠ [] ∧ '/' ∉ name ∧ localTarget key = topicDirectory topic ++ '/' :: name ∧
      s.files.entry (names (topicDirectory topic) ++ [name]) = none := by
  obtain ⟨name, hname, hflat, rfl, hentry⟩ := hnew key hkey hstart
  refine ⟨name, hname, hflat, localTarget_file name, ?_⟩
  rw [names_directory htopic hslash]
  exact hentry

/-- With privileges the files open in a directory which was made or could be written. -/
theorem filesOpen_of_privileged (hprivileged : s.files.privileged = true)
    (htmp : s.files.entry ["tmp".toList] = some (.directory true))
    (hdirectory : s.files.entry ["tmp".toList, topic] = none ∨
      s.files.entry ["tmp".toList, topic] = some (.directory true)) :
    FilesOpen s (topic ++ ['/']) l := by
  intro key hkey hstart
  obtain ⟨name, hname, hflat, htarget, hentry⟩ := exists_new_file htopic hslash hnew hkey hstart
  rw [← names_directory htopic hslash] at hdirectory
  rw [htarget, Surroundings.made, mkdir_congr names_directory_slash]
  refine opens_after_mkdir hprivileged ?_ hdirectory hname hflat hentry
  rw [names_directory htopic hslash]
  exact htmp

/-- Without them no file opens in the directory which the process has made itself. -/
theorem closed_of_unprivileged (hprivileged : s.files.privileged = false)
    (habsent : s.files.entry ["tmp".toList, topic] = none) {key : Text} (hkey : key ∈ l.keys)
    (hstart : topic ++ ['/'] <+: key) :
    (s.made (topic ++ ['/'])).opens (localTarget key) = false := by
  obtain ⟨name, hname, hflat, htarget, hentry⟩ := exists_new_file htopic hslash hnew hkey hstart
  rw [← names_directory htopic hslash] at habsent
  rw [htarget, Surroundings.made, mkdir_congr names_directory_slash]
  exact not_opens_after_mkdir hprivileged (by decide) habsent hname hflat hentry

end Directory

/-- Downloads which write nothing and find no file leave the map as it was. -/
theorem batch_discovery_unwritten (s3 : S3Client.S3) (indelete : Bool)
    {entries : List (Text × GetAnswer)} {r : Replay} (h : ∀ entry ∈ entries, written s3 entry.2 = none ∧
      r.disk[localTarget entry.1]? = none) :
    ∃ reports, batch_discovery s3 indelete entries r = .ok ⟨r.output, reports, r.disk⟩ := by
  induction entries generalizing r with
  | nil => exact ⟨r.reports, rfl⟩
  | cons entry entries ih =>
      obtain ⟨⟨hnone, hempty⟩, hrest⟩ := List.forall_mem_cons.mp h
      have hdisk : (s3.get entry.2 (localTarget entry.1) r.disk).1 = r.disk := by
        rw [get_disk, hnone]
      obtain ⟨reports, hreports⟩ := @ih (r.report (.failedToOpen (localTarget entry.1))) hrest
      refine ⟨reports, ?_⟩
      rw [batch_discovery, batch_discovery_bykey, hdisk]
      simp only [hempty, pure, Except.pure, bind, Except.bind]
      exact hreports

/-- A process without privileges which has to make the directory for its topic hands over
nothing of it, whatever is in the bucket, and ends with the number of every replay. -/
theorem unprivileged_restores_nothing {s : Surroundings} {from_time topic : Text} {l : Listing}
    (hfrom : s.env.getenv "FROM_TIME".toList = some from_time)
    (hasked : s.env.getenv "AWS_TOPIC".toList = some (topic ++ ['/']))
    (hlist : s.listObjects = l.listObjects) {p : Produce} (hp : Produce.setup s.rd s.env = .ok p)
    (htopic : topic ≠ []) (hslash : '/' ∉ topic) (hnew : NewFiles s topic l)
    (hprivileged : s.files.privileged = false)
    (habsent : s.files.entry ["tmp".toList, topic] = none)
    (hempty : ∀ key ∈ l.keys, s.disk[localTarget key]? = none)
    {fuel : ℕ} (hfuel : l.keys.length < fuel) :
    ∃ out, main s fuel = .ok (1, out) ∧ out.calls = [] := by
  have hdiscovery : s3_discovery s.beyond (topic ++ ['/']) (MessageTime.ofText from_time)
      (configured s.env (some paws) {}).client s.listObjects infetch fuel 0 ⟨[], []⟩ =
        .ok (selectedKeys s from_time (topic ++ ['/']) l) := by
    rw [hlist]
    exact s3_discovery_eq l _ infetch hfuel
  obtain ⟨reports, hread⟩ := @batch_discovery_unwritten (configured s.env (some paws) {}).client false
    ((selectedKeys s from_time (topic ++ ['/']) l).map fun key =>
      (key, ⟨s.object key, (s.made (topic ++ ['/'])).opens (localTarget key)⟩)) ⟨∅, [], s.disk⟩ (by
    rw [List.forall_mem_map]
    intro key hkey
    obtain ⟨hin, hstart⟩ := of_mem_selectedKeys hkey
    have hclosed := closed_of_unprivileged htopic hslash hnew hprivileged habsent hin hstart
    refine ⟨?_, hempty key hin⟩
    rw [hclosed]
    exact if_neg fun h => Bool.false_ne_true h.2)
  have hnothing : ∀ e ∈ processed ∅, Whole e.2 := fun _ he => absurd he List.not_mem_nil
  obtain ⟨out, hmain, hcalls⟩ := main_of_map hfrom hasked hdiscovery hread hp hnothing
  exact ⟨out, hmain, hcalls⟩

section Example

/-- The replay of the one object, without privileges. -/
def plainReplay : Surroundings :=
  { oneObjectReplay with files := { emptyTmp with privileged := false } }

theorem plain_newFiles : NewFiles plainReplay ['a'] oneObject := by
  intro key hkey _
  rw [List.mem_singleton.mp hkey]
  exact ⟨"1970-01-01-00-00-00.0-rand-7".toList, by decide, by decide, rfl, by decide⟩

theorem two_messages_not_restored : ∃ out, main plainReplay 2 = .ok (1, out) ∧ out.calls = [] :=
  unprivileged_restores_nothing rfl rfl rfl rfl (by decide) (by decide) plain_newFiles rfl
    (by decide) (fun _ _ => Std.TreeMap.getElem?_emptyc) (by decide)

end Example

end KafkaK3.ReplayDirectory
