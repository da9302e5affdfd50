import KafkaK3.BackupConsumer
import KafkaK3.KeyListing

/-!
# Which topics a replay selects

The keys of a topic have a slash behind its name, and the replay asks for the keys
which begin with the name alone. So the keys of longer names come up as well. What
follows the shorter name is then read as a time like the rest of any other key.
-/
namespace KafkaK3.TopicSelection
open DecimalText S3Client TimeText StashKey KeyTime KeyListing

/-- A bundle which was stored for a topic. -/
structure Backup where
  topic : Text
  tm : Tm
  seed : UInt32
  no_slash : '/' ∉ topic

def Backup.key (b : Backup) : Text :=
  formatKey b.topic (strftime b.tm) b.seed (minstd_rand0 b.seed)

/-- The key which `stash_by_topic` gives to a bundle is the one of a backup. -/
theorem backup_of_put (w : BackupConsumer.World) (s3 : S3) (n : ℕ) {topic : Text}
    (messages : List BackupConsumer.MessageWrapper) (h : '/' ∉ topic) :
    ∃ b : Backup, b.topic = topic ∧
      b.key = (BackupConsumer.putBundle w s3 n topic messages).s3key :=
  ⟨⟨topic, _, _, h⟩, rfl, rfl⟩

/-- The bucket holds the keys of the backups and no others. -/
def FilledBy (l : Listing) (backups : List Backup) : Prop :=
  ∀ key, key ∈ l.keys ↔ ∃ b ∈ backups, b.key = key

/-- The discovery ends with a list of keys which are all of the requested topic. -/
def SelectsTopic (l : Listing) (backups : List Backup) (beyond : Text → ℤ → Int32)
    (bucket intopic : Text) (infrom : MessageTime) (infetch : Int32) : Prop :=
  ∃ output, (∀ fuel, l.keys.length < fuel →
      s3_discovery beyond intopic infrom ⟨true, bucket⟩ l.listObjects infetch fuel 0 ⟨[], []⟩ =
        .ok output) ∧
    ∀ key ∈ output, ∃ b ∈ backups, b.key = key ∧ b.topic = intopic

/-- The topic of a key can be read off it. -/
theorem topic_of_key {a b : Backup} (h : a.key = b.key) : a.topic = b.topic :=
  (append_mark_inj a.no_slash b.no_slash h).1

/-- A key begins with a topic exactly when its own topic does. -/
theorem prefix_key_iff {intopic : Text} (hslash : '/' ∉ intopic) (b : Backup) :
    intopic <+: b.key ↔ intopic <+: b.topic := by
  constructor
  · intro h
    have htopic : b.topic <+: b.key := List.prefix_append ..
    rcases List.prefix_or_prefix_of_prefix h htopic with hle | ⟨rest, hrest⟩
    · exact hle
    · cases rest with
      | nil => exact ⟨[], by simpa using hrest.symm⟩
      | cons c rest =>
          rw [← hrest, Backup.key, formatKey, List.prefix_append_right_inj,
            List.cons_prefix_cons] at h
          rw [← hrest, h.1] at hslash
          exact absurd (List.mem_append_right _ List.mem_cons_self) hslash
  · exact fun h => h.trans (List.prefix_append ..)

section Discovery
variable {l : Listing} {backups : List Backup} {beyond : Text → ℤ → Int32} {bucket intopic : Text}
  {infrom : MessageTime} {infetch : Int32}

theorem selectsTopic_iff_output :
    SelectsTopic l backups beyond bucket intopic infrom infetch ↔
      ∀ key ∈ (l.matching intopic).filter (selected beyond intopic infrom),
        ∃ b ∈ backups, b.key = key ∧ b.topic = intopic := by
  constructor
  · intro ⟨output, hruns, howned⟩
    have hrun := hruns _ (Nat.lt_succ_self _)
    rw [s3_discovery_eq l bucket infetch (Nat.lt_succ_self _)] at hrun
    obtain rfl := Except.ok.inj hrun
    exact howned
  · exact fun howned => ⟨_, fun fuel hfuel => s3_discovery_eq l bucket infetch hfuel, howned⟩

theorem mem_output (hfilled : FilledBy l backups) (key : Text) :
    key ∈ (l.matching intopic).filter (selected beyond intopic infrom) ↔
      (∃ b ∈ backups, b.key = key) ∧ intopic <+: key ∧
        ∃ t, keyTime intopic key = some t ∧ TimeOrder.gt (beyond key) t infrom = true := by
  simp only [Listing.matching, List.mem_filter, decide_eq_true_eq, selected_iff, hfilled key,
    and_assoc]

end Discovery

/-- The output is of the requested topic exactly when no object of a longer topic
name reads as newer. -/
theorem selects_topic_iff {l : Listing} {backups : List Backup} (hfilled : FilledBy l backups)
    {intopic : Text} (hslash : '/' ∉ intopic) (beyond : Text → ℤ → Int32) (bucket : Text)
    (infrom : MessageTime) (infetch : Int32) :
    SelectsTopic l backups beyond bucket intopic infrom infetch ↔
      ∀ b ∈ backups, ∀ v, b.topic = intopic ++ v → v ≠ [] →
        ¬ ∃ t, keyTime intopic b.key = some t ∧ TimeOrder.gt (beyond b.key) t infrom = true := by
  rw [selectsTopic_iff_output]
  constructor
  · intro howned b hb v htopic hv hnewer
    have hstart := (prefix_key_iff hslash b).mpr (htopic ▸ List.prefix_append ..)
    obtain ⟨a, _, hkey, hown⟩ :=
      howned b.key ((mem_output hfilled b.key).mpr ⟨⟨b, hb, rfl⟩, hstart, hnewer⟩)
    have hsame := (topic_of_key hkey).symm.trans hown
    rw [htopic] at hsame
    exact hv (List.append_right_eq_self.mp hsame)
  · intro hlonger key hkey
    obtain ⟨⟨b, hb, rfl⟩, hstart, hnewer⟩ := (mem_output hfilled key).mp hkey
    obtain ⟨v, hv⟩ := (prefix_key_iff hslash b).mp hstart
    by_cases hnone : v = []
    · rw [hnone, List.append_nil] at hv
      exact ⟨b, hb, rfl, hv.symm⟩
    · exact absurd hnewer (hlonger b hb v hv.symm hnone)

section Example

def shortNamed : Backup := ⟨['a'], Tm.epoch, 7, by decide⟩

/-- A topic for which the other name goes on like a date. -/
def longNamed : Backup := ⟨"a2019-01-01".toList, Tm.epoch, 7, by decide⟩

def twoTopics : Listing where
  keys := [shortNamed, longNamed].map Backup.key
  sorted := by decide
  nonempty := by decide
  served := fun _ most => most
  served_range := fun _ _ h => ⟨h, le_rfl⟩

theorem twoTopics_filled : FilledBy twoTopics [shortNamed, longNamed] := fun _ => List.mem_map

/-- From 2020 on the other topic stays out. -/
theorem long_name_left_out :
    SelectsTopic twoTopics [shortNamed, longNamed] (fun _ _ => 0) [] ['a']
      (MessageTime.ofText "2020-01-01".toList) 50 := by
  refine (selects_topic_iff twoTopics_filled (by decide) _ _ _ _).mpr ?_
  intro b hb v htopic hv hnewer
  rcases List.mem_cons.mp hb with rfl | hb
  · exact hv (List.append_right_eq_self.mp htopic.symm)
  · rw [List.mem_singleton.mp hb] at hnewer
    obtain ⟨t, hread, hgt⟩ := hnewer
    obtain rfl := Option.some.inj hread
    revert hgt
    decide +kernel

/-- From 2018 on it comes up. -/
theorem long_name_selected :
    ¬ SelectsTopic twoTopics [shortNamed, longNamed] (fun _ _ => 0) [] ['a']
      (MessageTime.ofText "2018-01-01".toList) 50 := by
  intro hselects
  have hnewer : ∃ t, keyTime ['a'] longNamed.key = some t ∧
      TimeOrder.gt (fun _ => 0) t (MessageTime.ofText "2018-01-01".toList) = true :=
    ⟨_, rfl, by decide +kernel⟩
  have hstored : ∃ b ∈ [shortNamed, longNamed], b.key = longNamed.key :=
    ⟨longNamed, List.mem_cons_of_mem _ (List.mem_singleton_self _), rfl⟩
  obtain ⟨b, hb, hkey, howned⟩ := selectsTopic_iff_output.mp hselects longNamed.key
    ((mem_output twoTopics_filled longNamed.key).mpr ⟨hstored, by decide, hnewer⟩)
  have htopic := (topic_of_key hkey).symm.trans howned
  exact absurd htopic (by decide)

end Example

end KafkaK3.TopicSelection
