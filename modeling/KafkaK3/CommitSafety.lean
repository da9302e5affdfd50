import KafkaK3.CommitOrder

/-!
# When a committed message is a saved message

The erase loop releases and thereby commits every wrapper of a stashed bundle,
whatever became of the bundle. A run commits saved messages only, exactly when
every bundle which reaches `stash_by_topic` has a payload, there is an S3 client
to take it and every PUT of the run succeeds.
-/
namespace KafkaK3.CommitSafety
open S3Client MessageLayout StashImage BackupConsumer ConsumerInvariants CommitOrder EventTrace

variable {c : Consume} {w : World}

/-- Every message committed so far lies in the bundle of a PUT which has already
returned true, and whose request has sent the image of that bundle. -/
def Saved (t : List Event) : Prop :=
  ∀ x ∈ committed t, ∃ call ∈ putCalls t, call.rval = true ∧ x ∈ call.bundle ∧ call.Sent

/-- The condition on the settings, on the answers of S3 and on the bundles with
which `stash_by_topic` is called. -/
structure Storable (c : Consume) (w : World) (t : List Event) : Prop where
  payload : ∀ entry ∈ stashes t, 0 < messagesSize (contents entry.2)
  client : stashes t ≠ [] → ∃ s3, c.ps3 = some s3 ∧ s3.sp3client = true
  accepted : ∀ n < (putCalls t).length, w.putObject n = true

theorem rval_putBundle (s3 : S3) (n : ℕ) (topic : DecimalText.Text)
    (bundle : List MessageWrapper) :
    (putBundle w s3 n topic bundle).rval = (s3.sp3client && w.putObject n) :=
  PutCall.rval_eq _

theorem Storable.of_prefix {t p : List Event} (h : Storable c w t) (hp : p <+: t) :
    Storable c w p := by
  obtain ⟨later, rfl⟩ := hp
  constructor
  · intro entry hentry
    refine h.payload entry ?_
    rw [stashes_append]
    exact List.mem_append_left _ hentry
  · intro hne
    refine h.client ?_
    rw [stashes_append]
    exact fun hnil => hne (List.append_eq_nil_iff.mp hnil).1
  · intro n hn
    refine h.accepted n ?_
    rw [putCalls_append, List.length_append]
    omega

/-- What could be stored so far makes what was committed so far saved. -/
theorem saved_of_storable {s : State} (hs : Orderly c w s) {p : List Event} (hp : p <+: s.trace)
    (h : Storable c w p) : Saved p := by
  intro x hx
  obtain ⟨entry, hentry, hmem, hput⟩ := hs.attempted p hp x hx
  obtain ⟨s3, hs3, hclient⟩ := h.client (List.ne_nil_of_mem hentry)
  obtain ⟨call, hcall, -, hbundle, -⟩ := hput (by rw [hs3]; rfl) (h.payload entry hentry)
  obtain ⟨n, hn⟩ := List.mem_iff_getElem?.mp hcall
  have hlt := (List.getElem?_eq_some_iff.mp hn).1
  have hn' : (putCalls s.trace)[n]? = some call := by
    obtain ⟨later, hlater⟩ := hp
    rw [← hlater, putCalls_append, List.getElem?_append_left hlt, hn]
  obtain ⟨s3', hs3', hbuilt⟩ := hs.consistent.built n call hn'
  obtain rfl : s3 = s3' := Option.some.inj (hs3.symm.trans hs3')
  have hrval : call.rval = true := by
    rw [hbuilt, rval_putBundle, hclient, h.accepted n hlt]
    rfl
  exact ⟨call, hcall, hrval, hbundle ▸ hmem,
    hs.consistent.sent_of_put (List.mem_of_getElem? hn') hrval⟩

/-- A bundle which commits saved messages went through a successful PUT of its own. -/
theorem put_of_saved {s : State} (hs : Consistent c w s) (h : Saved s.trace)
    {entry : DecimalText.Text × List MessageWrapper} (hentry : entry ∈ stashes s.trace) :
    ∃ n call s3, (putCalls s.trace)[n]? = some call ∧ call.bundle = entry.2 ∧
      c.ps3 = some s3 ∧ s3.sp3client = true ∧ w.putObject n = true ∧
      0 < messagesSize (contents entry.2) := by
  obtain ⟨x, hx⟩ := List.exists_mem_of_ne_nil _ (hs.nonempty entry hentry)
  have hcommit : x ∈ committed s.trace := by
    rw [hs.commits]
    exact List.mem_flatMap.mpr ⟨entry, hentry, hx⟩
  obtain ⟨call, hcall, hrval, hmem, -⟩ := h x hcommit
  obtain ⟨hstash, -, hsize⟩ := hs.mem_stashes_of_put hcall
  have hsame := hs.stash_unique hstash hentry hmem hx
  obtain ⟨n, hn⟩ := List.mem_iff_getElem?.mp hcall
  obtain ⟨s3, hs3, hbuilt⟩ := hs.built n call hn
  rw [hbuilt, rval_putBundle, Bool.and_eq_true] at hrval
  refine ⟨n, call, s3, hn, ?_, hs3, hrval.1, hrval.2, ?_⟩
  · rw [← hsame]
  · rw [← hsame]
    exact hsize

theorem storable_of_saved {s : State} (hs : Consistent c w s) (h : Saved s.trace) :
    Storable c w s.trace := by
  constructor
  · intro entry hentry
    obtain ⟨_, _, _, _, _, _, _, _, hsize⟩ := put_of_saved hs h hentry
    exact hsize
  · intro hne
    obtain ⟨entry, hentry⟩ := List.exists_mem_of_ne_nil _ hne
    obtain ⟨_, _, s3, _, _, hs3, hclient, _⟩ := put_of_saved hs h hentry
    exact ⟨s3, hs3, hclient⟩
  · intro n hn
    have hcall := List.getElem?_eq_getElem hn
    obtain ⟨hstash, -⟩ := hs.mem_stashes_of_put (List.getElem_mem hn)
    obtain ⟨m, call, _, hm, hbundle, _, _, hanswer, _⟩ := put_of_saved hs h hstash
    obtain ⟨x, hx⟩ := List.exists_mem_of_ne_nil _ (hs.nonempty _ hstash)
    have hmn := hs.put_unique hm hcall (hbundle ▸ hx) hx
    rw [← hmn]
    exact hanswer

/-- However the run goes on and ends, it never commits an unsaved message if and
only if its bundles were storable and stored. -/
theorem saved_always_iff (c : Consume) (w : World) (results : List ConsumeResult)
    (ending : Ending) :
    Always Saved ((State.run c w results).finish c w ending).trace ↔
      Storable c w ((State.run c w results).finish c w ending).trace := by
  have horderly := (orderly_run (c := c) (w := w) results).finish ending
  constructor
  · exact fun h => storable_of_saved horderly.consistent h.now
  · exact fun h p hp => saved_of_storable horderly hp (h.of_prefix hp)

/-- A bundle of one message whose PUT fails: the message is committed all the same. -/
theorem refused_message_committed :
    ¬ Always Saved ((State.run ⟨some ⟨true, []⟩, 1, 1024⟩ (World.constant false)
      [.message (Message.plain ['t'] 0 0 1 [7])]).finish
        ⟨some ⟨true, []⟩, 1, 1024⟩ (World.constant false) .running).trace := by
  intro h
  have hsaved := h.now
  let message : Message := .plain ['t'] 0 0 1 [7]
  obtain ⟨call, hcall, hrval, -⟩ := hsaved ⟨0, message⟩ (by decide)
  have honly : call = putBundle (World.constant false) ⟨true, []⟩ 0 ['t'] [⟨0, message⟩] :=
    List.mem_singleton.mp hcall
  rw [honly, rval_putBundle] at hrval
  simp [World.constant] at hrval

end KafkaK3.CommitSafety
