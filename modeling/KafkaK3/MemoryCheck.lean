import KafkaK3.DecimalText
import KafkaK3.FloatRounding
import Mathlib.Algebra.Order.Floor.Ring
import Mathlib.Data.Rat.Floor
import Mathlib.Tactic.Linarith
import Mathlib.Tactic.Positivity

/-!
# The memory check

The consumer may use a part of the memory of its control group. The group's
directory is looked up in the table of mounts: it is the second field of the first
line in which the word for memory occurs at all, wherever that is in the line. The
limit is read once, the usage with every check. A limit or a usage which cannot be
read, and a share below one byte, leave the check without effect. The share is a
double, and so is the limit in its product.
-/
namespace KafkaK3.MemoryCheck
open DecimalText FloatRounding

/-- The files which can be opened, with their contents. -/
abbrev Files := Text → Option Text

/-- What `getline` reads, one line after the other. -/
def getlines : Text → List Text
  | [] => []
  | c :: rest =>
      if c = '\n' then [] :: getlines rest
      else
        match getlines rest with
        | [] => [[c]]
        | line :: lines => (c :: line) :: lines

/-- What lies between the first two blanks of a line. -/
def secondField (line : Text) : Option Text :=
  match line.dropWhile (· ≠ ' ') with
  | [] => none
  | _ :: line => if ' ' ∈ line then some (line.takeWhile (· ≠ ' ')) else none

def procMounts : Text := "/proc/mounts".toList

/-- `grep_cgroup_grep`, with the default for `where`. -/
def grep_cgroup_grep (files : Files) (seek : Text) : Text :=
  match files procMounts with
  | none => []
  | some proc_mounts =>
      ((getlines proc_mounts).findSome? fun line =>
        if seek <:+: line then secondField line else none).getD []

/-- `>>` into a `long long`, which stays as it is where nothing but blanks is left. -/
def extract (old : ℤ) (s : Text) : ℤ :=
  if s.dropWhile isSpace = [] then old else max (-2 ^ 63) (min (2 ^ 63 - 1) (atoi s))

/-- Towards zero. -/
def truncate (x : ℚ) : ℤ := x.num.tdiv x.den

/-- The conversion to `long long`, which gives the smallest one for what does not fit. -/
def toLongLong (x : ℚ) : ℤ :=
  if -2 ^ 63 ≤ truncate x ∧ truncate x < 2 ^ 63 then truncate x else -2 ^ 63

/-- The part of the limit which the program may use, a product of doubles. -/
def share (system_limit : ℤ) (mem_percent : ℚ) : ℚ :=
  roundTo 53 (roundTo 53 system_limit * mem_percent)

/-- The percentage is the value of a double. -/
structure MemChecker where
  system_limit : ℤ := 0
  program_limit : ℤ := 0
  mem_percent : ℚ
  used_filename : Option Text := none
  limit_filename : Option Text := none
  cgroup_memory_path : Text
  deriving DecidableEq

def limitName (path : Text) : Text := path ++ "/memory.limit_in_bytes".toList

def usageName (path : Text) : Text := path ++ "/memory.usage_in_bytes".toList

def MemChecker.init (files : Files) (m : MemChecker) : MemChecker :=
  let m :=
    if 0 < m.cgroup_memory_path.length then
      let name := limitName m.cgroup_memory_path
      { m with
        limit_filename := some name
        system_limit := ((files name).map (extract m.system_limit)).getD m.system_limit }
    else m
  if 0 < m.system_limit then
    { m with
      used_filename := some (usageName m.cgroup_memory_path)
      program_limit := toLongLong (share m.system_limit m.mem_percent) }
  else m

/-- The constructor. -/
def MemChecker.create (files : Files) (mem_percent : ℚ) : MemChecker :=
  MemChecker.init files
    { mem_percent := mem_percent, cgroup_memory_path := grep_cgroup_grep files "memory".toList }

/-- `ok`; nothing has set `current` before it is read. -/
def MemChecker.ok (m : MemChecker) (files : Files) (current : ℤ) : Bool :=
  match m.used_filename with
  | some name =>
      if 0 < m.program_limit then
        match files name with
        | some used => !decide (m.program_limit < extract current used)
        | none => true
      else true
  | none => true

section Reading

theorem getlines_line {line rest : Text} (h : '\n' ∉ line) :
    getlines (line ++ '\n' :: rest) = line :: getlines rest := by
  induction line with
  | nil => rfl
  | cons c line ih =>
      rw [List.mem_cons, not_or] at h
      rw [List.cons_append, getlines, if_neg (fun hc => h.1 hc.symm), ih h.2]

/-- Lines which are written each with its end are read back. -/
theorem getlines_flatMap {lines : List Text} (h : ∀ line ∈ lines, '\n' ∉ line) :
    getlines (lines.flatMap fun line => line ++ ['\n']) = lines := by
  induction lines with
  | nil => rfl
  | cons line lines ih =>
      obtain ⟨hline, hlines⟩ := List.forall_mem_cons.mp h
      rw [List.flatMap_cons, List.append_assoc, List.singleton_append, getlines_line hline,
        ih hlines]

theorem dropWhile_blank {field rest : Text} (h : ' ' ∉ field) :
    (field ++ ' ' :: rest).dropWhile (· ≠ ' ') = ' ' :: rest := by
  rw [List.dropWhile_append_of_pos (fun c hc => by
    simpa using fun heq : c = ' ' => h (heq ▸ hc))]
  rfl

theorem takeWhile_blank {field rest : Text} (h : ' ' ∉ field) :
    (field ++ ' ' :: rest).takeWhile (· ≠ ' ') = field := by
  rw [List.takeWhile_append_of_pos (fun c hc => by
    simpa using fun heq : c = ' ' => h (heq ▸ hc))]
  simp

theorem secondField_eq {first second rest : Text} (hfirst : ' ' ∉ first) (hsecond : ' ' ∉ second) :
    secondField (first ++ ' ' :: (second ++ ' ' :: rest)) = some second := by
  rw [secondField, dropWhile_blank hfirst]
  change (if ' ' ∈ second ++ ' ' :: rest then _ else none) = _
  rw [if_pos (by simp), takeWhile_blank hsecond]

/-- A text which starts with a digit starts with a number. -/
theorem atoi_digit {c : Char} (h : c.isDigit = true) (s : Text) :
    isSpace c = false ∧ atoi (c :: s) = leadingNumber (c :: s) := by
  have hc := isDigit_iff.mp h
  have hne {d : Char} (hd : d.toNat < 48) : c ≠ d := by
    intro heq
    rw [heq] at hc
    omega
  have hspace : isSpace c = false := by
    simp only [isSpace, hne (d := ' ') (by decide), false_or, decide_eq_false_iff_not]
    omega
  refine ⟨hspace, ?_⟩
  unfold atoi
  rw [List.dropWhile_cons_of_neg (by simp [hspace])]
  split
  next heq => exact absurd (List.cons.inj heq).1 (hne (by decide))
  next heq => exact absurd (List.cons.inj heq).1 (hne (by decide))
  next => rfl

/-- A number on a line of its own. -/
theorem extract_natText (old : ℤ) {n : ℕ} (h : n < 2 ^ 63) :
    extract old (natText n ++ ['\n']) = n := by
  have hnumber : leadingNumber (natText n ++ ['\n']) = n := by
    rw [leadingNumber, List.takeWhile_append_of_pos (allDigits_natText n)]
    change digitsValue (natText n ++ []) = n
    rw [List.append_nil, digitsValue_natText]
  have hdigits := allDigits_natText n
  obtain ⟨c, cs, hcs⟩ := List.exists_cons_of_ne_nil (natText_ne_nil n)
  obtain ⟨hspace, hatoi⟩ := atoi_digit (hdigits c (hcs ▸ List.mem_cons_self)) (cs ++ ['\n'])
  rw [← List.cons_append, ← hcs, hnumber] at hatoi
  have hstart : (natText n ++ ['\n']).dropWhile isSpace ≠ [] := by
    rw [hcs, List.cons_append, List.dropWhile_cons_of_neg (by simp [hspace])]
    exact List.cons_ne_nil _ _
  rw [extract, if_neg hstart, hatoi]
  omega

end Reading

/-- One line of the table of mounts. -/
structure Mount where
  device : Text
  path : Text
  options : Text
  device_blank : ' ' ∉ device
  path_blank : ' ' ∉ path
  one_line : '\n' ∉ device ∧ '\n' ∉ path ∧ '\n' ∉ options
  deriving DecidableEq

namespace Mount

def line (m : Mount) : Text := m.device ++ ' ' :: (m.path ++ ' ' :: m.options)

/-- The word is found anywhere in the line. -/
def mentions (seek : Text) (m : Mount) : Bool := seek <:+: m.line

/-- The file which lists the mounts. -/
def table (mounts : List Mount) : Text := mounts.flatMap fun m => m.line ++ ['\n']

theorem newline_notMem (m : Mount) : '\n' ∉ m.line := by
  simp [line, m.one_line]

theorem secondField_line (m : Mount) : secondField m.line = some m.path :=
  secondField_eq m.device_blank m.path_blank

theorem getlines_table (mounts : List Mount) : getlines (table mounts) = mounts.map line := by
  have hlines : ∀ l ∈ mounts.map line, '\n' ∉ l := by
    intro l hl
    obtain ⟨m, -, rfl⟩ := List.mem_map.mp hl
    exact m.newline_notMem
  have hread := getlines_flatMap hlines
  rwa [List.flatMap_map] at hread

theorem findSome_line (seek : Text) (mounts : List Mount) :
    (mounts.map line).findSome? (fun l => if seek <:+: l then secondField l else none) =
      (mounts.find? (mentions seek)).map path := by
  induction mounts with
  | nil => rfl
  | cons m ms ih =>
      rw [List.map_cons, List.findSome?_cons, List.find?_cons, secondField_line, ih]
      by_cases hseek : seek <:+: m.line
      · simp [hseek, mentions]
      · simp [hseek, mentions]

end Mount

/-- The path of the first mount which mentions the word. -/
theorem grep_table {files : Files} {mounts : List Mount} (seek : Text)
    (h : files procMounts = some (Mount.table mounts)) :
    grep_cgroup_grep files seek = ((mounts.find? (Mount.mentions seek)).map Mount.path).getD [] := by
  rw [grep_cgroup_grep, h]
  simp only [Mount.getlines_table, Mount.findSome_line]

section Share
variable {files : Files} {group : Mount} {limit : ℕ}

/-- The checker of a control group whose limit can be read. -/
theorem create_limited {mounts : List Mount}
    (hmounts : files procMounts = some (Mount.table mounts))
    (hgroup : mounts.find? (Mount.mentions "memory".toList) = some group) (hpath : group.path ≠ [])
    (hlimit : files (limitName group.path) = some (natText limit ++ ['\n']))
    (hbound : limit < 2 ^ 63) (mem_percent : ℚ) :
    MemChecker.create files mem_percent =
      if 0 < limit then
        { system_limit := limit
          program_limit := toLongLong (share limit mem_percent)
          mem_percent := mem_percent
          used_filename := some (usageName group.path)
          limit_filename := some (limitName group.path)
          cgroup_memory_path := group.path }
      else
        { mem_percent := mem_percent
          limit_filename := some (limitName group.path)
          cgroup_memory_path := group.path } := by
  have hgrep : grep_cgroup_grep files "memory".toList = group.path := by
    rw [grep_table _ hmounts, hgroup]
    rfl
  have hlength : 0 < group.path.length := List.length_pos_iff.mpr hpath
  rw [MemChecker.create, hgrep]
  simp only [MemChecker.init, if_pos hlength, hlimit, Option.map_some, Option.getD_some,
    extract_natText 0 hbound, Int.natCast_pos]
  split
  · rfl
  next hzero =>
    have hnone : limit = 0 := by omega
    rw [hnone]
    rfl

theorem truncate_eq_floor {x : ℚ} (h : 0 ≤ x) : truncate x = ⌊x⌋ := by
  rw [truncate, Int.tdiv_eq_ediv_of_nonneg (Rat.num_nonneg.mpr h), Rat.floor_def']

theorem truncate_pos_iff {x : ℚ} : 0 < truncate x ↔ 1 ≤ x := by
  by_cases hx : 0 ≤ x
  · rw [truncate_eq_floor hx, Int.floor_pos]
  · have hneg : x.num < 0 := Rat.num_neg.mpr (not_le.mp hx)
    have hle : truncate x ≤ 0 := by
      have hquot : 0 ≤ (-x.num).tdiv x.den := Int.tdiv_nonneg (by omega) (Int.natCast_nonneg _)
      rw [Int.neg_tdiv] at hquot
      rw [truncate]
      omega
    constructor
    · intro h
      omega
    · intro h
      linarith

/-- What is passed by a number which fits, where it is positive, fits itself. -/
theorem toLongLong_lt_iff {x : ℚ} {used : ℕ} (hused : used < 2 ^ 63) :
    0 < toLongLong x ∧ toLongLong x < used ↔ 1 ≤ x ∧ x < used := by
  rw [← truncate_pos_iff]
  have hpass (hpos : 0 < truncate x) : truncate x < used ↔ x < used := by
    rw [truncate_eq_floor (zero_le_one.trans (truncate_pos_iff.mp hpos)), Int.floor_lt,
      Int.cast_natCast]
  unfold toLongLong
  split
  next hfits =>
    exact and_congr_right hpass
  next hlarge =>
    constructor
    · rintro ⟨hpos, _⟩
      omega
    · rintro ⟨hpos, hlt⟩
      have hsmall := (hpass hpos).mpr hlt
      omega

/-- With a control group the check fails exactly when the usage has passed the
share, and never for a share of less than a byte. From the exact product the share is
away by no more than three of its `2 ^ 53`-th parts. -/
theorem over_limit_iff (mounts : List Mount) (group : Mount) {later : Files} {used : ℕ}
    (hmounts : files procMounts = some (Mount.table mounts))
    (hgroup : mounts.find? (Mount.mentions "memory".toList) = some group) (hpath : group.path ≠ [])
    (hlimit : files (limitName group.path) = some (natText limit ++ ['\n']))
    (hbound : limit < 2 ^ 63)
    (hused : later (usageName group.path) = some (natText used ++ ['\n'])) (hsmall : used < 2 ^ 63)
    (mem_percent : ℚ) (current : ℤ) :
    ((MemChecker.create files mem_percent).ok later current = false ↔
      1 ≤ share limit mem_percent ∧ share limit mem_percent < used) ∧
    |share limit mem_percent - limit * mem_percent| ≤ 3 * (|limit * mem_percent| / 2 ^ 53) := by
  refine ⟨?_, by exact_mod_cast roundTo_mul_error 53 limit mem_percent⟩
  rw [create_limited hmounts hgroup hpath hlimit hbound, ← toLongLong_lt_iff hsmall]
  by_cases hpos : 0 < limit
  · rw [if_pos hpos]
    by_cases hshare : 0 < toLongLong (share limit mem_percent)
    · simp [MemChecker.ok, hused, extract_natText current hsmall, hshare]
    · simp [MemChecker.ok, hshare]
  · have hzero : limit = 0 := by omega
    have hnone : share 0 mem_percent = 0 := by
      rw [share, Int.cast_zero, roundTo_zero, zero_mul, roundTo_zero]
    simp [hzero, hnone, MemChecker.ok, toLongLong, truncate]

/-- Three quarters of eight bytes. -/
def smallGroup : Mount where
  device := "cgroup".toList
  path := "/m".toList
  options := "memory".toList
  device_blank := by decide
  path_blank := by decide
  one_line := by decide

def smallFiles (used : ℕ) : Files := fun name =>
  if name = procMounts then some (Mount.table [smallGroup])
  else if name = limitName "/m".toList then some (natText 8 ++ ['\n'])
  else if name = usageName "/m".toList then some (natText used ++ ['\n'])
  else none

theorem over_limit_seven :
    (MemChecker.create (smallFiles 0) (3 / 4)).ok (smallFiles 7) 0 = false :=
  (@over_limit_iff (smallFiles 0) 8 [smallGroup] smallGroup (smallFiles 7) 7 (by decide) (by decide)
    (by decide) (by decide) (by decide) (by decide) (by decide) (3 / 4) 0).1.mpr (by decide +kernel)

end Share

end KafkaK3.MemoryCheck
