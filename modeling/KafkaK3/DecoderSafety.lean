import KafkaK3.Fallible
import KafkaK3.ImageDiscovery

/-!
# What the decoder touches

The buffer is twice as long as the file, and the number of rounds and every step
come from the file itself. Here the decoder runs with a log of the headers it looks
at and the payloads it copies. The log says for which files all of them lie in the
file and the rounds are no more than the file has room for.
-/
namespace KafkaK3.DecoderSafety
open ByteBuffer DecimalText S3Client MessageLayout StashImage Discovery ImageDiscovery Fallible

/-- What one round touches: the header at its position, and the length of the copy
from behind the first header if it makes one. -/
structure Visit where
  header : ℤ
  copied : Option Int32
  deriving DecidableEq, Repr

/-- What the decoding of one file touches: the header which holds the number of
rounds, and what its rounds do. -/
structure Visits where
  base : List ℤ
  rounds : List Visit

/-- `discoverMessage` with its visit. -/
def visitMessage (inkey : Text) (buffer : Bytes) (nummsgs : Int32) (p : ℤ) (r : Replay) :
    Visit × Except Fault (ℤ × Replay) :=
  let r := r.report (.round nummsgs inkey)
  match int64At buffer (p + 32), int64At buffer (p + 8) with
  | .error fault, _ => (⟨p, none⟩, .error fault)
  | _, .error fault => (⟨p, none⟩, .error fault)
  | .ok timestamp, .ok payload_len =>
      let next := p + (HeaderSize + payload_len.toInt)
      if timestamp ≠ 0 then
        match headerAt buffer p with
        | .error fault => (⟨p, none⟩, .error fault)
        | .ok header =>
            let key := discoveryTimestamp header.details.timestamp header.details.offset
            if payload_len ≠ 0 then
              (⟨p, some payload_len.toInt32⟩,
                (setpayload buffer HeaderSize payload_len.toInt32).map fun copy =>
                  (next, r.found key ⟨timestamp, inkey, header, some copy⟩))
            else (⟨p, none⟩, .ok (next, r.found key ⟨timestamp, inkey, header, none⟩))
      else (⟨p, none⟩, .ok (next, r.report (.zeroTimestamp inkey)))

/-- `discoverMessages` with the visits of its rounds. -/
def visitMessages (inkey : Text) (buffer : Bytes) :
    ℕ → ℤ → Replay → List Visit × Except Fault Replay
  | 0, _, r => ([], .ok r)
  | nummsgs + 1, p, r =>
      match visitMessage inkey buffer (Int32.ofNat (nummsgs + 1)) p r with
      | (visit, .error fault) => ([visit], .error fault)
      | (visit, .ok (p, r)) =>
          let (visits, result) := visitMessages inkey buffer nummsgs p r
          (visit :: visits, result)

/-- `discoverFile` with its visits. -/
def visitFile (inkey local_target : Text) (file : Bytes) (r : Replay) :
    Visits × Except Fault Replay :=
  let size := file.length * 2
  let buffer := file ++ List.replicate file.length 0
  if size < HeaderSize then (⟨[], []⟩, .ok (r.report (.incorrectSize local_target size)))
  else
    match int64At buffer 40 with
    | .error fault => (⟨[0], []⟩, .error fault)
    | .ok index =>
        let nummsgs := (index + 1).toInt32
        let (visits, result) := visitMessages inkey buffer nummsgs.toUInt32.toNat 0 r
        (⟨[0], visits⟩, result)

section Values
variable (inkey : Text) (buffer : Bytes)

theorem visitMessage_value (nummsgs : Int32) (p : ℤ) (r : Replay) :
    (visitMessage inkey buffer nummsgs p r).2 = discoverMessage inkey buffer nummsgs p r := by
  unfold visitMessage discoverMessage
  cases int64At buffer (p + 32) with
  | error fault => rfl
  | ok timestamp =>
      cases int64At buffer (p + 8) with
      | error fault => rfl
      | ok payload_len =>
          by_cases hts : timestamp = 0
          · simp [hts, bind, Except.bind, pure, Except.pure]
          · cases headerAt buffer p with
            | error fault => simp [hts, bind, Except.bind]
            | ok header =>
                by_cases hlen : payload_len = 0
                · simp [hts, hlen, bind, Except.bind, pure, Except.pure]
                · cases hcopy : setpayload buffer HeaderSize payload_len.toInt32 with
                  | error fault => simp [hts, hlen, hcopy, bind, Except.bind, Except.map]
                  | ok copy =>
                      simp [hts, hlen, hcopy, bind, Except.bind, pure, Except.pure, Except.map]

theorem visitMessages_value (nummsgs : ℕ) (p : ℤ) (r : Replay) :
    (visitMessages inkey buffer nummsgs p r).2 = discoverMessages inkey buffer nummsgs p r := by
  induction nummsgs generalizing p r with
  | zero => rfl
  | succ nummsgs ih =>
      have hround := visitMessage_value inkey buffer (Int32.ofNat (nummsgs + 1)) p r
      rw [visitMessages, discoverMessages, ← hround]
      rcases visitMessage inkey buffer (Int32.ofNat (nummsgs + 1)) p r with ⟨visit, fault | ⟨q, s⟩⟩
      · rfl
      · exact ih q s

theorem visitFile_value (local_target : Text) (file : Bytes) (r : Replay) :
    (visitFile inkey local_target file r).2 = discoverFile inkey local_target file r := by
  unfold visitFile discoverFile
  dsimp only
  split
  · rfl
  · cases int64At (file ++ List.replicate file.length 0) 40 with
    | error fault => rfl
    | ok index => exact visitMessages_value ..

end Values

/-- The header and the copied payload lie in the `n` bytes of the file. -/
structure Visit.Inside (v : Visit) (n : ℕ) : Prop where
  header : 0 ≤ v.header ∧ v.header + HeaderSize ≤ n
  copied : ∀ l ∈ v.copied, 0 ≤ l.toInt ∧ HeaderSize + l.toInt ≤ n

/-- Everything does, and the rounds are no more than there is room for headers. -/
structure Visits.Inside (v : Visits) (n : ℕ) : Prop where
  base : ∀ p ∈ v.base, 0 ≤ p ∧ p + HeaderSize ≤ n
  rounds : ∀ visit ∈ v.rounds, visit.Inside n
  count : v.rounds.length ≤ n / HeaderSize

section Chain
variable (file : Bytes)

/-- A field of the header at a position of the file. -/
def fieldAt (p : ℤ) (offset : ℕ) : Int64 := int64Value (window file (p.toNat + offset) 8)

/-- The length of the copy which the header at `p` asks for. -/
def copyAt (p : ℤ) : Option Int32 :=
  if fieldAt file p 32 ≠ 0 ∧ fieldAt file p 8 ≠ 0 then some (fieldAt file p 8).toInt32 else none

/-- So many records follow one another from `p` on, all with their headers and the
copies they ask for in the file. -/
def Chain : ℕ → ℤ → Prop
  | 0, _ => True
  | k + 1, p => (0 ≤ p ∧ p + HeaderSize ≤ file.length) ∧
      (∀ l ∈ copyAt file p, 0 ≤ l.toInt ∧ HeaderSize + l.toInt ≤ file.length) ∧
      Chain k (p + (HeaderSize + (fieldAt file p 8).toInt))

/-- The number of rounds which the first header asks for. -/
def roundsOf : ℕ := (fieldAt file 0 40 + 1).toInt32.toUInt32.toNat

/-- A file which is taken for too short, or a chain of as many records as its first
header says. -/
def Sound : Prop :=
  file.length * 2 < HeaderSize ∨
    HeaderSize ≤ file.length ∧ roundsOf file ≤ file.length / HeaderSize ∧
      Chain file (roundsOf file) 0

end Chain

section Rounds
variable {inkey : Text} {file : Bytes}

/-- The buffer begins with the file. -/
def fileBuffer (file : Bytes) : Bytes := file ++ List.replicate file.length 0

theorem fileBuffer_length (file : Bytes) : (fileBuffer file).length = file.length + file.length := by
  rw [fileBuffer, List.length_append, List.length_replicate]

/-- A word of a header which lies in the file is a word of the file. -/
theorem int64At_fileBuffer {p : ℤ} (hp : 0 ≤ p ∧ p + HeaderSize ≤ file.length) {k : ℕ}
    (hk : k + 8 ≤ HeaderSize) : int64At (fileBuffer file) (p + k) = .ok (fieldAt file p k) := by
  have hlen := fileBuffer_length file
  have hin : 0 ≤ p + k ∧ p + k + (8 : ℕ) ≤ (fileBuffer file).length := by omega
  have hnat : (p + k).toNat = p.toNat + k := by omega
  have hroom : p.toNat + k + 8 ≤ file.length := by omega
  rw [int64At, bytesAt, if_pos hin, hnat, fileBuffer, window_append _ hroom]
  rfl

theorem headerAt_fileBuffer {p : ℤ} (hp : 0 ≤ p ∧ p + HeaderSize ≤ file.length) :
    ∃ header, headerAt (fileBuffer file) p = .ok header := by
  have hlen := fileBuffer_length file
  have hin : 0 ≤ p ∧ p + HeaderSize ≤ (fileBuffer file).length := by omega
  exact ⟨_, dif_pos hin⟩

theorem setpayload_fileBuffer {l : Int32} (hl : 0 ≤ l.toInt ∧ HeaderSize + l.toInt ≤ file.length) :
    ∃ copy, setpayload (fileBuffer file) HeaderSize l = .ok copy := by
  have hlen := fileBuffer_length file
  have hnonneg : ¬ l.toInt < 0 := by omega
  have hin : 0 ≤ (HeaderSize : ℤ) ∧ (HeaderSize : ℤ) + l.toInt.toNat ≤ (fileBuffer file).length := by
    omega
  refine ⟨window (fileBuffer file) HeaderSize l.toInt.toNat, ?_⟩
  rw [setpayload, if_neg hnonneg, bytesAt, if_pos hin]
  rfl

/-- A round on a header in the file asks for the copy which the header says, and with
that copy in the file too it goes on behind the record. -/
theorem visitMessage_inside {p : ℤ} (hp : 0 ≤ p ∧ p + HeaderSize ≤ file.length) (nummsgs : Int32)
    (r : Replay) :
    (visitMessage inkey (fileBuffer file) nummsgs p r).1 = ⟨p, copyAt file p⟩ ∧
      ((∀ l ∈ copyAt file p, 0 ≤ l.toInt ∧ HeaderSize + l.toInt ≤ file.length) →
        ∃ s, (visitMessage inkey (fileBuffer file) nummsgs p r).2 =
          .ok (p + (HeaderSize + (fieldAt file p 8).toInt), s)) := by
  have htimestamp := int64At_fileBuffer hp (k := 32) (by decide)
  have hpayload := int64At_fileBuffer hp (k := 8) (by decide)
  obtain ⟨header, hheader⟩ := headerAt_fileBuffer hp
  push_cast at htimestamp hpayload
  unfold visitMessage copyAt
  simp only [htimestamp, hpayload, hheader]
  by_cases hts : fieldAt file p 32 = 0
  · simp [hts]
  · by_cases hlen : fieldAt file p 8 = 0
    · simp [hts, hlen]
    · simp only [hts, hlen, ne_eq, not_false_eq_true, and_self, if_true, true_and]
      intro hinside
      obtain ⟨copy, hcopy⟩ := setpayload_fileBuffer (hinside _ rfl)
      rw [hcopy]
      exact ⟨_, rfl⟩

theorem visitMessage_header (buffer : Bytes) (nummsgs : Int32) (p : ℤ) (r : Replay) :
    (visitMessage inkey buffer nummsgs p r).1.header = p := by
  unfold visitMessage
  cases int64At buffer (p + 32) with
  | error fault => rfl
  | ok timestamp =>
      cases int64At buffer (p + 8) with
      | error fault => rfl
      | ok payload_len =>
          dsimp only
          split
          · cases headerAt buffer p with
            | error fault => rfl
            | ok header =>
                dsimp only
                split <;> rfl
          · rfl

/-- A visit in the file shows that the record is. -/
theorem inside_of_visit {nummsgs : Int32} {p : ℤ} {r : Replay}
    (h : (visitMessage inkey (fileBuffer file) nummsgs p r).1.Inside file.length) :
    (0 ≤ p ∧ p + HeaderSize ≤ file.length) ∧
      ∀ l ∈ copyAt file p, 0 ≤ l.toInt ∧ HeaderSize + l.toInt ≤ file.length := by
  have hp := h.header
  rw [visitMessage_header] at hp
  have hcopied := h.copied
  rw [(visitMessage_inside hp nummsgs r).1] at hcopied
  exact ⟨hp, hcopied⟩

section Loop
variable {buffer : Bytes} {k : ℕ} {p : ℤ} {r : Replay}

theorem visitMessages_fault {fault : Fault}
    (h : (visitMessage inkey buffer (Int32.ofNat (k + 1)) p r).2 = .error fault) :
    visitMessages inkey buffer (k + 1) p r =
      ([(visitMessage inkey buffer (Int32.ofNat (k + 1)) p r).1], .error fault) := by
  rw [visitMessages]
  generalize visitMessage inkey buffer (Int32.ofNat (k + 1)) p r = round at h ⊢
  obtain ⟨visit, result⟩ := round
  dsimp only at h
  rw [h]

theorem visitMessages_next {q : ℤ} {s : Replay}
    (h : (visitMessage inkey buffer (Int32.ofNat (k + 1)) p r).2 = .ok (q, s)) :
    visitMessages inkey buffer (k + 1) p r =
      ((visitMessage inkey buffer (Int32.ofNat (k + 1)) p r).1 ::
          (visitMessages inkey buffer k q s).1, (visitMessages inkey buffer k q s).2) := by
  rw [visitMessages]
  generalize visitMessage inkey buffer (Int32.ofNat (k + 1)) p r = round at h ⊢
  obtain ⟨visit, result⟩ := round
  dsimp only at h
  rw [h]

/-- The first round makes its visit however it ends. -/
theorem head_mem_visitMessages :
    (visitMessage inkey buffer (Int32.ofNat (k + 1)) p r).1 ∈
      (visitMessages inkey buffer (k + 1) p r).1 := by
  cases hround : (visitMessage inkey buffer (Int32.ofNat (k + 1)) p r).2 with
  | error fault =>
      rw [visitMessages_fault hround]
      exact List.mem_singleton_self _
  | ok next =>
      rw [visitMessages_next hround]
      exact List.mem_cons_self

/-- Every round which ends well makes one visit. -/
theorem visitMessages_length {s : Replay} (h : (visitMessages inkey buffer k p r).2 = .ok s) :
    (visitMessages inkey buffer k p r).1.length = k := by
  induction k generalizing p r with
  | zero => rfl
  | succ k ih =>
      cases hround : (visitMessage inkey buffer (Int32.ofNat (k + 1)) p r).2 with
      | error fault =>
          rw [visitMessages_fault hround] at h
          cases h
      | ok next =>
          rw [visitMessages_next hround] at h ⊢
          exact congrArg Nat.succ (ih h)

end Loop

/-- The rounds end well and stay in the file exactly when there is a chain of as many
records. The induction is on the rounds to go; the visit of each round shows that its
header lies in the file, and so where the next one is. -/
theorem visitMessages_inside_iff (k : ℕ) (p : ℤ) (r : Replay) :
    ((∃ s, (visitMessages inkey (fileBuffer file) k p r).2 = .ok s) ∧
        ∀ visit ∈ (visitMessages inkey (fileBuffer file) k p r).1, visit.Inside file.length) ↔
      Chain file k p := by
  induction k generalizing p r with
  | zero => simp [visitMessages, Chain]
  | succ k ih =>
      rw [Chain]
      constructor
      · intro ⟨hok, hinside⟩
        obtain ⟨hp, hcopied⟩ := inside_of_visit (hinside _ head_mem_visitMessages)
        obtain ⟨t, hround⟩ := (visitMessage_inside hp (Int32.ofNat (k + 1)) r).2 hcopied
        rw [visitMessages_next hround] at hok hinside
        have hrest := (ih _ t).mp ⟨hok, (List.forall_mem_cons.mp hinside).2⟩
        exact ⟨hp, hcopied, hrest⟩
      · intro ⟨hp, hcopied, hchain⟩
        obtain ⟨hvisit, hnext⟩ := @visitMessage_inside inkey _ _ hp (Int32.ofNat (k + 1)) r
        obtain ⟨t, hround⟩ := hnext hcopied
        obtain ⟨hok, hrest⟩ := (ih _ t).mpr hchain
        rw [visitMessages_next hround, hvisit]
        exact ⟨hok, List.forall_mem_cons.mpr ⟨⟨hp, hcopied⟩, hrest⟩⟩

end Rounds

section Reports
variable {inkey : Text} {buffer : Bytes}

/-- Only the size check itself reports a size. -/
def SizeReport : Report → Prop
  | .incorrectSize _ _ => True
  | _ => False

theorem discoverMessage_reports {nummsgs : Int32} {p q : ℤ} {r s : Replay}
    (h : discoverMessage inkey buffer nummsgs p r = .ok (q, s)) :
    ∃ lines, s.reports = r.reports ++ lines ∧ ∀ line ∈ lines, ¬ SizeReport line := by
  obtain ⟨timestamp, _, h⟩ := bind_eq_ok.mp h
  obtain ⟨payload_len, _, h⟩ := bind_eq_ok.mp h
  split at h
  · obtain ⟨header, _, h⟩ := bind_eq_ok.mp h
    dsimp only at h
    split at h
    · obtain ⟨copy, _, h⟩ := bind_eq_ok.mp h
      cases h
      exact ⟨[.round nummsgs inkey], rfl, by simp [SizeReport]⟩
    · cases h
      exact ⟨[.round nummsgs inkey], rfl, by simp [SizeReport]⟩
  · cases h
    exact ⟨[.round nummsgs inkey, .zeroTimestamp inkey], List.append_assoc .., by simp [SizeReport]⟩

theorem discoverMessages_reports {k : ℕ} {p : ℤ} {r s : Replay}
    (h : discoverMessages inkey buffer k p r = .ok s) :
    ∃ lines, s.reports = r.reports ++ lines ∧ ∀ line ∈ lines, ¬ SizeReport line := by
  induction k generalizing p r with
  | zero =>
      cases h
      exact ⟨[], (List.append_nil _).symm, by simp⟩
  | succ k ih =>
      obtain ⟨⟨q, t⟩, hround, hrest⟩ := bind_eq_ok.mp h
      obtain ⟨first, hfirst, hnone⟩ := discoverMessage_reports hround
      obtain ⟨rest, hlater, hnone'⟩ := ih hrest
      refine ⟨first ++ rest, by rw [hlater, hfirst, List.append_assoc], fun line hline => ?_⟩
      rcases List.mem_append.mp hline with hline | hline
      · exact hnone line hline
      · exact hnone' line hline

end Reports

/-- The replay when the download has left its mark on the disk. -/
def downloadedTo (inkey : Text) (s3 : S3) (answer : GetAnswer) (r : Replay) : Replay :=
  { r with disk := (s3.get answer (localTarget inkey) r.disk).1 }

/-- The replay when the local file has been deleted, if that is asked for. -/
def cleared (inkey : Text) (indelete : Bool) (s : Replay) : Replay :=
  if indelete then { s with disk := s.disk.erase (localTarget inkey) } else s

@[simp] theorem cleared_reports (inkey : Text) (indelete : Bool) (s : Replay) :
    (cleared inkey indelete s).reports = s.reports := by
  cases indelete <;> rfl

@[simp] theorem cleared_output (inkey : Text) (indelete : Bool) (s : Replay) :
    (cleared inkey indelete s).output = s.output := by
  cases indelete <;> rfl

/-- The file is reported and nothing is added, or the decoding ends and everything it
touches lies in the file. -/
def DecodesSafely (inkey : Text) (s3 : S3) (answer : GetAnswer) (indelete : Bool) (r : Replay)
    (file : Bytes) : Prop :=
  ∃ s, batch_discovery_bykey inkey s3 answer indelete r = .ok s ∧
    ((s.reports = r.reports ++ [.incorrectSize (localTarget inkey) (file.length * 2)] ∧
        s.output = r.output) ∨
      (visitFile inkey (localTarget inkey) file (downloadedTo inkey s3 answer r)).1.Inside
        file.length)

section File
variable {inkey target : Text} {r : Replay} {file : Bytes}

theorem visitFile_short (h : file.length * 2 < HeaderSize) :
    visitFile inkey target file r =
      (⟨[], []⟩, .ok (r.report (.incorrectSize target (file.length * 2)))) :=
  if_pos h

/-- The header with the number of rounds is looked at in any case. -/
theorem base_visitFile (h : ¬ file.length * 2 < HeaderSize) :
    (visitFile inkey target file r).1.base = [0] := by
  unfold visitFile
  dsimp only
  rw [if_neg h]
  cases int64At (file ++ List.replicate file.length 0) 40 with
  | error fault => rfl
  | ok index => rfl

theorem visitFile_long (h : HeaderSize ≤ file.length) :
    visitFile inkey target file r =
      (⟨[0], (visitMessages inkey (fileBuffer file) (roundsOf file) 0 r).1⟩,
        (visitMessages inkey (fileBuffer file) (roundsOf file) 0 r).2) := by
  have hlong : ¬ file.length * 2 < HeaderSize := by omega
  have hindex := @int64At_fileBuffer file 0 (by omega) 40 (by decide)
  unfold visitFile
  dsimp only
  rw [if_neg hlong]
  have hread : int64At (file ++ List.replicate file.length 0) 40 = .ok (fieldAt file 0 40) := hindex
  rw [hread]
  rfl

/-- Where the size check lets the file pass. -/
theorem visitFile_inside_iff (hlong : ¬ file.length * 2 < HeaderSize) :
    ((∃ s, (visitFile inkey target file r).2 = .ok s) ∧
        (visitFile inkey target file r).1.Inside file.length) ↔ Sound file := by
  constructor
  · intro ⟨⟨s, hs⟩, hinside⟩
    have hbase := (hinside.base 0 (by rw [base_visitFile hlong]; exact List.mem_singleton_self _)).2
    have hfull : HeaderSize ≤ file.length := by omega
    rw [visitFile_long hfull] at hs hinside
    have hcount := hinside.count
    rw [visitMessages_length hs] at hcount
    exact Or.inr ⟨hfull, hcount,
      (visitMessages_inside_iff _ 0 r).mp ⟨⟨s, hs⟩, hinside.rounds⟩⟩
  · rintro (hshort | ⟨hfull, hcount, hchain⟩)
    · exact absurd hshort hlong
    · obtain ⟨⟨s, hs⟩, hrounds⟩ := (@visitMessages_inside_iff inkey file _ 0 r).mpr hchain
      rw [visitFile_long hfull]
      refine ⟨⟨s, hs⟩, ?_, hrounds, ?_⟩
      · intro p hp
        rw [List.mem_singleton.mp hp]
        omega
      · rwa [visitMessages_length hs]

/-- A file of half a header or more is not reported. -/
theorem not_reported (hlong : ¬ file.length * 2 < HeaderSize) {s : Replay}
    (h : discoverFile inkey target file r = .ok s) (size : ℕ) :
    s.reports ≠ r.reports ++ [.incorrectSize target size] := by
  unfold discoverFile at h
  dsimp only at h
  rw [if_neg hlong] at h
  obtain ⟨index, _, h⟩ := bind_eq_ok.mp h
  obtain ⟨lines, hlines, hnone⟩ := discoverMessages_reports h
  intro hreported
  rw [hlines, List.append_cancel_left_eq] at hreported
  rw [hreported] at hnone
  exact hnone _ (List.mem_singleton_self _) trivial

theorem batch_discovery_bykey_eq {s3 : S3} {answer : GetAnswer} (indelete : Bool)
    (hfile : (s3.get answer (localTarget inkey) r.disk).1[localTarget inkey]? = some file) :
    batch_discovery_bykey inkey s3 answer indelete r =
      (visitFile inkey (localTarget inkey) file (downloadedTo inkey s3 answer r)).2.map
        (cleared inkey indelete) := by
  rw [visitFile_value]
  unfold batch_discovery_bykey downloadedTo
  simp only [hfile]
  cases discoverFile inkey (localTarget inkey) file _ with
  | error fault => rfl
  | ok s => rfl

/-- Where the size check lets the file pass, safety is about what is touched. -/
theorem decodesSafely_iff_inside {s3 : S3} {answer : GetAnswer} (indelete : Bool)
    (hfile : (s3.get answer (localTarget inkey) r.disk).1[localTarget inkey]? = some file)
    (hlong : ¬ file.length * 2 < HeaderSize) :
    DecodesSafely inkey s3 answer indelete r file ↔
      (∃ s, (visitFile inkey (localTarget inkey) file (downloadedTo inkey s3 answer r)).2 = .ok s) ∧
        (visitFile inkey (localTarget inkey) file (downloadedTo inkey s3 answer r)).1.Inside
          file.length := by
  unfold DecodesSafely
  rw [batch_discovery_bykey_eq indelete hfile]
  constructor
  · intro ⟨s, hs, hsafe⟩
    cases hresult : (visitFile inkey (localTarget inkey) file
        (downloadedTo inkey s3 answer r)).2 with
    | error fault =>
        rw [hresult] at hs
        cases hs
    | ok t =>
        rw [hresult] at hs
        obtain rfl : cleared inkey indelete t = s := Except.ok.inj hs
        rcases hsafe with ⟨hreported, -⟩ | hinside
        · rw [visitFile_value] at hresult
          rw [cleared_reports] at hreported
          exact absurd hreported (not_reported hlong hresult _)
        · exact ⟨⟨t, rfl⟩, hinside⟩
  · intro ⟨⟨t, ht⟩, hinside⟩
    exact ⟨cleared inkey indelete t, by rw [ht]; rfl, Or.inr hinside⟩

/-- The decoder is safe on a file exactly when the file is sound. -/
theorem decoder_safe_iff {s3 : S3} {answer : GetAnswer} (indelete : Bool)
    (hfile : (s3.get answer (localTarget inkey) r.disk).1[localTarget inkey]? = some file) :
    DecodesSafely inkey s3 answer indelete r file ↔ Sound file := by
  by_cases hlong : file.length * 2 < HeaderSize
  · have hreport : DecodesSafely inkey s3 answer indelete r file := by
      unfold DecodesSafely
      rw [batch_discovery_bykey_eq indelete hfile, visitFile_short hlong]
      refine ⟨_, rfl, Or.inl ⟨?_, ?_⟩⟩
      · rw [cleared_reports]
        rfl
      · rw [cleared_output]
        rfl
    exact iff_of_true hreport (Or.inl hlong)
  · rw [decodesSafely_iff_inside indelete hfile hlong, visitFile_inside_iff hlong]

end File

section Image

/-- The length and the index in the header of a record. -/
theorem fieldAt_record {file front tail : Bytes} {index : Int32} {m : Message}
    (hfile : file = front ++ (record index m ++ tail)) :
    fieldAt file front.length 8 = Int64.ofNat m.len ∧
      fieldAt file front.length 40 = index.toInt64 := by
  have hp := header_in_buffer hfile
  have hsize : HeaderSize = 1024 := rfl
  have hword {k : ℕ} (hk : k + 8 ≤ HeaderSize) :
      int64At file (front.length + k) = .ok (fieldAt file front.length k) := by
    have hcast : (front.length + k : ℤ) = ((front.length + k : ℕ) : ℤ) := by omega
    rw [int64At, hcast, bytesAt_nat (by omega)]
    rfl
  obtain ⟨hpayload, -, hindex⟩ := int64At_header (window_header hfile) hp
  exact ⟨Except.ok.inj ((hword (k := 8) (by decide)).symm.trans hpayload),
    Except.ok.inj ((hword (k := 40) (by decide)).symm.trans hindex)⟩

/-- The records of a stash image follow one another. -/
theorem chain_records {file tail : Bytes} (k : ℕ) :
    ∀ {front : Bytes} {index : Int32} {ms : List Message}, k ≤ ms.length →
      file = front ++ (records index ms ++ tail) →
      (∀ m ∈ ms, HeaderSize + m.len ≤ file.length) → Chain file k front.length := by
  induction k with
  | zero => exact fun _ _ _ => trivial
  | succ k ih =>
      intro front index ms hk hfile hroom
      cases ms with
      | nil => simp at hk
      | cons m ms =>
          rw [records, List.append_assoc] at hfile
          have hp := header_in_buffer hfile
          have hm := hroom m List.mem_cons_self
          have hpayload := (fieldAt_record hfile).1
          have hbehind : file = (front ++ record index m) ++ (records (index - 1) ms ++ tail) := by
            rw [hfile, List.append_assoc]
          refine ⟨by omega, ?_, ?_⟩
          · intro l hl
            rw [copyAt, hpayload] at hl
            split at hl
            · cases hl
              rw [len_toInt32]
              omega
            · cases hl
          · rw [hpayload, behind_record]
            exact ih (Nat.le_of_succ_le_succ hk) hbehind fun x hx => hroom x (List.mem_cons_of_mem _ hx)

/-- What the backup stores is sound. -/
theorem sound_image {ms : List Message} (hms : ms ≠ []) : Sound (image ms) := by
  obtain ⟨m, rest, rfl⟩ := List.exists_cons_of_ne_nil hms
  have hrecords := image_eq (m :: rest)
  have hlength : HeaderSize * (rest.length + 1) ≤ (image (m :: rest)).length := by
    rw [image_length, totalSize]
    exact Nat.le_add_right ..
  have hfull : HeaderSize ≤ (image (m :: rest)).length :=
    Nat.le_trans (Nat.le_mul_of_pos_right _ (Nat.succ_pos _)) hlength
  have hrounds : roundsOf (image (m :: rest)) ≤ (m :: rest).length := by
    have hfirst : image (m :: rest) = [] ++ (record (Int32.ofNat ((m :: rest).length - 1)) m ++
        records (Int32.ofNat ((m :: rest).length - 1) - 1) rest) := hrecords
    have hindex := (fieldAt_record hfirst).2
    rw [List.length_nil, Nat.cast_zero] at hindex
    have hcount := rounds_of_index (n := (m :: rest).length) (Nat.succ_pos _)
    rw [roundsOf, hindex, hcount]
    exact Nat.mod_le ..
  refine Or.inr ⟨hfull, ?_, ?_⟩
  · rw [Nat.le_div_iff_mul_le (by decide), Nat.mul_comm]
    exact Nat.le_trans (Nat.mul_le_mul_left _ hrounds) hlength
  · have hwhole : image (m :: rest) =
        [] ++ (records (Int32.ofNat ((m :: rest).length - 1)) (m :: rest) ++ []) := by
      rw [hrecords, List.append_nil]
      rfl
    exact chain_records _ hrounds hwhole fun x hx => room_in_buffer hx

end Image

section Example

/-- 512 zero bytes: half a header. -/
def halfHeader : Bytes := List.replicate 512 0

/-- Doubled, the size is that of a header, and the header is looked at. -/
theorem half_header_read :
    (((⟨true, []⟩ : S3).get ⟨some halfHeader, true⟩ (localTarget ['k'])
        (∅ : Disk)).1)[localTarget ['k']]? = some halfHeader ∧
      ¬ DecodesSafely ['k'] ⟨true, []⟩ ⟨some halfHeader, true⟩ false ⟨∅, [], ∅⟩ halfHeader := by
  have hfile : (((⟨true, []⟩ : S3).get ⟨some halfHeader, true⟩ (localTarget ['k'])
      (∅ : Disk)).1)[localTarget ['k']]? = some halfHeader := Std.TreeMap.getElem?_insert_self
  have hlength : halfHeader.length = 512 := List.length_replicate ..
  have hlong : ¬ halfHeader.length * 2 < HeaderSize := by
    rw [hlength]
    decide
  refine ⟨hfile, fun hsafe => ?_⟩
  have hinside := ((decodesSafely_iff_inside (r := ⟨∅, [], ∅⟩) false hfile hlong).mp hsafe).2
  have hbase := (hinside.base 0 (by rw [base_visitFile hlong]; exact List.mem_singleton_self _)).2
  rw [hlength] at hbase
  revert hbase
  decide

def twoRecords : List Message :=
  [.plain ['t'] 0 0 5 [97] Message.letter_fits Message.letter_fits,
    .plain ['t'] 0 1 6 [98] Message.letter_fits Message.letter_fits]

/-- An object with two messages is decoded safely. -/
theorem stored_messages_safe :
    DecodesSafely ['k'] ⟨true, []⟩ (downloaded twoRecords) false ⟨∅, [], ∅⟩ (image twoRecords) :=
  (decoder_safe_iff false Std.TreeMap.getElem?_insert_self).mpr (sound_image (List.cons_ne_nil _ _))

end Example

end KafkaK3.DecoderSafety
