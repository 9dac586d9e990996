import Depfile.System.Memory

/-!
# Contents of files in memory

Files in memory are known by their locations: what is written at one location is found there, and
nothing changes elsewhere.
-/

namespace Depfile.Memory

variable {files : List (AbsolutePath × ByteArray)} {path other : AbsolutePath}
  {data old : ByteArray} {location : Location}

theorem contents?_insert_self (path : AbsolutePath) (data : ByteArray)
    (files : List (AbsolutePath × ByteArray)) :
    contents? path.location (insert path data files) = some data := by
  induction files with
  | nil => simp [insert, contents?]
  | cons file files ih =>
    by_cases hsame : file.1.location = path.location
    · simp [insert, contents?, hsame]
    · simpa [insert, contents?, hsame] using ih

theorem contents?_insert_of_ne (data : ByteArray) (h : path.location ≠ location) :
    contents? location (insert path data files) = contents? location files := by
  induction files with
  | nil => simp [insert, contents?, h]
  | cons file files ih =>
    by_cases hsame : file.1.location = path.location
    · simp [insert, contents?, hsame, h]
    · by_cases hhere : file.1.location = location
      · simp [insert, contents?, hhere, Ne.symm h]
      · simpa [insert, contents?, hsame, hhere] using ih

/-- Contents of two files that exist are replaced independently, so the order does not matter. -/
theorem insert_comm {otherData : ByteArray} (hne : path.location ≠ other.location)
    (hpath : (contents? path.location files).isSome)
    (hother : (contents? other.location files).isSome) :
    insert other otherData (insert path data files) =
      insert path data (insert other otherData files) := by
  induction files with
  | nil => cases hpath
  | cons file files ih =>
    by_cases hhere : file.1.location = path.location
    · simp [insert, hhere, hne]
    · by_cases hthere : file.1.location = other.location
      · simp [insert, hthere, Ne.symm hne]
      · -- Both files are among the rest.
        have hpath' : (contents? path.location files).isSome := by
          simpa [contents?, hhere] using hpath
        have hother' : (contents? other.location files).isSome := by
          simpa [contents?, hthere] using hother
        simp [insert, hhere, hthere, ih hpath' hother']

/-! ## Reading and writing -/

/-- The contents of the file at a location. -/
def data? (memory : Memory) (location : Location) : Option ByteArray :=
  contents? location memory.files

variable {memory memory' : Memory}

theorem read_eq (memory : Memory) (path : AbsolutePath) :
    FileStore.read memory path =
      match memory.data? path.location with
      | some data => .ok data
      | none => .error .missing :=
  rfl

/-- Writing succeeds exactly if the location is not protected. -/
theorem write_eq_ok_iff :
    FileStore.write memory path data = .ok memory' ↔
      path.location ∉ memory.isProtected ∧
        memory' = { memory with files := insert path data memory.files } := by
  by_cases hprotected : path.location ∈ memory.isProtected
  · simp [FileStore.write, hprotected]
  · simp [FileStore.write, hprotected, eq_comm]

theorem write_eq_error_iff {e : FileError} :
    FileStore.write memory path data = .error e ↔
      path.location ∈ memory.isProtected ∧ e = .readOnly := by
  by_cases hprotected : path.location ∈ memory.isProtected
  · simp [FileStore.write, hprotected, eq_comm]
  · simp [FileStore.write, hprotected]

end Depfile.Memory
