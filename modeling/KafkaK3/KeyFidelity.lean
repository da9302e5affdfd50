import KafkaK3.StoredEvents

/-!
# What becomes of a key

The header has 128 bytes for the key, of which the last one stays zero, and the
replay takes the key up to the first zero byte. A key without a zero byte comes
back up to its first 127 bytes.
-/
namespace KafkaK3.KeyFidelity
open ByteBuffer DecimalText MessageLayout Discovery ReplayProducer EventReplay StoredEvents

/-- The event makes one call, and the call has the key. -/
def PassesKey (p : Produce) (item : DiscoveryItem) (key : Bytes) : Prop :=
  ∀ produced index out, ∃ reports call,
    process_event p produced index item out = .ok ⟨reports, out.calls ++ [call]⟩ ∧ call.key = key

/-- Up to the zeros which fill the field. -/
theorem takeWhile_filled {key : Bytes} (hkey : 0 ∉ key) {n : ℕ} (hn : 0 < n) (tail : Bytes) :
    ((key ++ List.replicate n 0) ++ tail).takeWhile (· ≠ 0) = key := by
  obtain ⟨k, rfl⟩ := Nat.exists_eq_succ_of_ne_zero hn.ne'
  have hall : ∀ b ∈ key, (decide (b ≠ 0)) = true := by
    intro b hb
    rw [decide_eq_true_eq]
    rintro rfl
    exact hkey hb
  rw [List.append_assoc, List.replicate_succ, List.cons_append,
    List.takeWhile_append_of_pos hall]
  simp

theorem keyBytes_set {m : Message} (hkey : 0 ∉ m.keyBytes) (index csum : Int64) :
    EventReplay.keyBytes (MessageHeader.set m index csum) = m.keyBytes.take (KeyMaxLen - 1) := by
  have hnone : 0 ∉ m.keyBytes.take (KeyMaxLen - 1) := fun hzero => hkey (List.mem_of_mem_take hzero)
  have hroom : 0 < KeyMaxLen - (m.keyBytes.take (KeyMaxLen - 1)).length := by
    have hlong := List.length_take_le (KeyMaxLen - 1) m.keyBytes
    have hmax : KeyMaxLen = 128 := rfl
    omega
  change (copyField KeyMaxLen m.keyBytes ++ _).takeWhile (· ≠ 0) = _
  have hfits : m.keyBytes.length < 2 ^ 31 := m.key_fits
  rw [copyField_eq hfits]
  exact takeWhile_filled hnone hroom _

section Event
variable {m : Message} {item : DiscoveryItem} {p : Produce}

/-- The key of the call is the one which the header shows. -/
theorem passesKey_iff (h : EventOf m item) (hlen : 0 < m.len) (hp : p.partition_dst = PARTITION_UA)
    (key : Bytes) : PassesKey p item key ↔ EventReplay.keyBytes item._header = key := by
  have hsome : item._payload.getD [] ≠ [] := by
    rw [← List.length_pos_iff, h.payload_length]
    exact hlen
  have hsent : sent p item = [⟨PARTITION_UA, item._payload.getD [], EventReplay.keyBytes item._header⟩] :=
    if_pos ⟨hsome, hp⟩
  constructor
  · intro hpasses
    obtain ⟨reports, hevent⟩ := process_event_whole (p := p) h.whole (fun _ => true) [] .empty
    obtain ⟨reports', call, hcall, hkey⟩ := hpasses (fun _ => true) [] .empty
    rw [hevent, hsent] at hcall
    have hcalls := congrArg Producing.calls (Except.ok.inj hcall)
    obtain rfl := List.singleton_inj.mp hcalls
    exact hkey
  · intro hkey produced index out
    obtain ⟨reports, hevent⟩ := process_event_whole (p := p) h.whole produced index out
    rw [hsent] at hevent
    exact ⟨reports, _, hevent, hkey⟩

/-- A key without a zero byte is replayed up to its first 127 bytes. -/
theorem key_up_to_127 (h : EventOf m item) (hlen : 0 < m.len)
    (hp : p.partition_dst = PARTITION_UA) (hkey : 0 ∉ m.keyBytes) :
    PassesKey p item (m.keyBytes.take 127) := by
  obtain ⟨index, csum, hheader⟩ := h.header
  rw [passesKey_iff h hlen hp, hheader]
  exact keyBytes_set hkey index csum

end Event

/-- A message with a key of so many bytes. -/
def keyed (n : ℕ) (h : n < 2 ^ 31) : Message where
  topic_name := ['t']
  partition := 0
  offset := 0
  timestamp := 5
  key := some (List.replicate n 107)
  payload := some [97]
  topic_fits := Message.letter_fits
  key_fits := by simpa using h
  payload_fits := Message.letter_fits

/-- Its record. -/
def keyedItem (n : ℕ) (h : n < 2 ^ 31) : DiscoveryItem :=
  ⟨5, ['k'], MessageHeader.set (keyed n h) 0 0, some [97]⟩

theorem eventOf_keyedItem (n : ℕ) (h : n < 2 ^ 31) : EventOf (keyed n h) (keyedItem n h) :=
  ⟨⟨0, 0, rfl⟩, rfl⟩

theorem zero_notMem_keyed (n : ℕ) (h : n < 2 ^ 31) : 0 ∉ (keyed n h).keyBytes := fun hzero =>
  absurd (List.eq_of_mem_replicate hzero) (by decide)

theorem short_key_kept :
    PassesKey Produce.unassigned (keyedItem 5 (by decide)) ((keyed 5 (by decide)).keyBytes.take 127) :=
  key_up_to_127 (eventOf_keyedItem 5 _) (by decide) rfl (zero_notMem_keyed 5 _)

/-- Of 128 bytes one is lost. -/
theorem long_key_cut :
    ¬ PassesKey Produce.unassigned (keyedItem 128 (by decide)) (keyed 128 (by decide)).keyBytes := by
  rw [passesKey_iff (eventOf_keyedItem 128 _) (by decide) rfl]
  intro hkey
  have hcut := keyBytes_set (zero_notMem_keyed 128 (by decide)) 0 0
  have hkept := congrArg List.length (hcut.symm.trans hkey)
  have hlong : (keyed 128 (by decide)).keyBytes.length = 128 := List.length_replicate ..
  have hmax : KeyMaxLen = 128 := rfl
  rw [List.length_take, hlong] at hkept
  omega

end KafkaK3.KeyFidelity
