import Mathlib.Data.List.Basic
import Mathlib.Logic.Function.Basic

/-!
# Directories, and the files which can be opened in them

A file is made where its directory is there and may be written. `mkdir` makes one
directory below another which may be written, with the rights of its mode: a process
without privileges may write to its own directory only where the mode has the bit for
it. The names of a path are what lies between its slashes; the names `.` and `..` are
taken like any other.
-/
namespace KafkaK3.LocalFiles

abbrev Path := List Char

def names (path : Path) : List Path := (path.splitOn '/').filter (· ≠ [])

/-- What lies under a name, and whether the process may write to it. What it may write to
it may also read. -/
inductive Entry where
  | file (writable : Bool)
  | directory (writable : Bool)
  deriving DecidableEq, Repr

structure Files where
  entry : List Path → Option Entry
  privileged : Bool

/-- The bit which lets the owner write. A mask could only take it away. -/
def ownerWrites (mode : ℕ) : Bool := mode.testBit 7

namespace Files

/-- Whatever is in the way, the directory is not made. -/
def mkdir (files : Files) (path : Path) (mode : ℕ) : Files :=
  if files.entry (names path) = none ∧
      files.entry (names path).dropLast = some (.directory true) then
    { files with
      entry := Function.update files.entry (names path)
        (some (.directory (files.privileged || ownerWrites mode))) }
  else files

/-- A file can be opened for writing, and is made if need be. -/
def opens (files : Files) (path : Path) : Bool :=
  decide (path.getLast? ≠ some '/') &&
    match files.entry (names path) with
    | some (.file writable) => writable
    | some (.directory _) => false
    | none => files.entry (names path).dropLast = some (.directory true)

end Files

theorem names_append_slash (path rest : Path) :
    names (path ++ '/' :: rest) = names path ++ names rest := by
  rw [names, List.splitOn_append_cons_self, List.filter_append]
  rfl

theorem names_nil : names [] = [] := rfl

theorem names_single {name : Path} (hname : name ≠ []) (hslash : '/' ∉ name) :
    names name = [name] := by
  rw [names, List.splitOn_eq_singleton hslash]
  simp [hname]

/-- A file in a directory. -/
theorem names_file (path : Path) {name : Path} (hname : name ≠ []) (hslash : '/' ∉ name) :
    names (path ++ '/' :: name) = names path ++ [name] := by
  rw [names_append_slash, names_single hname hslash]

section Mkdir
variable {files : Files} {path name : Path} {mode : ℕ}

theorem mkdir_congr {other : Path} (h : names path = names other) :
    files.mkdir path mode = files.mkdir other mode := by
  rw [Files.mkdir, Files.mkdir, h]

/-- Nothing but the directory is changed. -/
theorem mkdir_entry_of_ne {other : List Path} (h : other ≠ names path) :
    (files.mkdir path mode).entry other = files.entry other := by
  unfold Files.mkdir
  split
  · exact Function.update_of_ne h _ _
  · rfl

theorem mkdir_entry : (files.mkdir path mode).entry (names path) =
    if files.entry (names path) = none ∧
        files.entry (names path).dropLast = some (.directory true) then
      some (.directory (files.privileged || ownerWrites mode))
    else files.entry (names path) := by
  unfold Files.mkdir
  split
  · exact Function.update_self ..
  · rfl

theorem getLast_file (hname : name ≠ []) (hslash : '/' ∉ name) :
    (path ++ '/' :: name).getLast? ≠ some '/' := by
  rw [List.getLast?_append_of_ne_nil _ (List.cons_ne_nil _ _), List.getLast?_cons_of_ne_nil hname]
  exact fun h => hslash (List.mem_of_getLast? h)

/-- A file which is not there yet opens where its directory may be written. -/
theorem opens_new_file (hname : name ≠ []) (hslash : '/' ∉ name)
    (hnew : files.entry (names path ++ [name]) = none) :
    files.opens (path ++ '/' :: name) = decide (files.entry (names path) = some (.directory true)) := by
  rw [Files.opens, names_file path hname hslash, hnew, List.dropLast_concat,
    decide_eq_true (getLast_file hname hslash), Bool.true_and]

theorem ne_file : names path ++ [name] ≠ names path := by
  intro h
  have hlength := congrArg List.length h
  simp at hlength

/-- A privileged process opens every new file in the directory which it has made, or has
found as its own. -/
theorem opens_after_mkdir (hprivileged : files.privileged = true)
    (hparent : files.entry (names path).dropLast = some (.directory true))
    (hpath : files.entry (names path) = none ∨ files.entry (names path) = some (.directory true))
    (hname : name ≠ []) (hslash : '/' ∉ name) (hnew : files.entry (names path ++ [name]) = none) :
    (files.mkdir path mode).opens (path ++ '/' :: name) = true := by
  rw [opens_new_file hname hslash (by rw [mkdir_entry_of_ne ne_file, hnew]), decide_eq_true_iff,
    mkdir_entry, hprivileged, Bool.true_or, hparent]
  obtain habsent | hpresent := hpath
  · rw [if_pos ⟨habsent, rfl⟩]
  · rw [hpresent, ite_self]

/-- Without privileges no file opens in a directory which is made without the bit. -/
theorem not_opens_after_mkdir (hprivileged : files.privileged = false)
    (hmode : ownerWrites mode = false) (habsent : files.entry (names path) = none)
    (hname : name ≠ []) (hslash : '/' ∉ name) (hnew : files.entry (names path ++ [name]) = none) :
    (files.mkdir path mode).opens (path ++ '/' :: name) = false := by
  rw [opens_new_file hname hslash (by rw [mkdir_entry_of_ne ne_file, hnew]), decide_eq_false_iff_not,
    mkdir_entry, hprivileged, hmode, habsent]
  split
  · simp
  · simp

end Mkdir

/-- The mode `0x777` is octal 3567. -/
example : ownerWrites 0x777 = false := by decide

end KafkaK3.LocalFiles
