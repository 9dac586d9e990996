import Depfile.Path.Location
import Depfile.System.World

/-!
# Files in memory

A store that holds the contents of files by their location, so that two spellings of a path reach
the same file. There are no directories: every absolute path can name a file. Some locations
are protected, and files there can be read and placed but not written.
-/

namespace Depfile

/-- Files in memory, each under the path that it was first placed at, and the protected
locations. -/
structure Memory where
  files : List (AbsolutePath × ByteArray)
  isProtected : List Location

namespace Memory

/-- No files at all. -/
def empty : Memory :=
  ⟨[], []⟩

/-- The contents of the file at a location. -/
def contents? (location : Location) : List (AbsolutePath × ByteArray) → Option ByteArray
  | [] => none
  | (path, data) :: files =>
    if path.location = location then
      some data
    else
      contents? location files

/-- Replace the contents of the file that a path names, or add the file. -/
def insert (path : AbsolutePath) (data : ByteArray) :
    List (AbsolutePath × ByteArray) → List (AbsolutePath × ByteArray)
  | [] => [(path, data)]
  | (other, old) :: files =>
    if other.location = path.location then
      (other, data) :: files
    else
      (other, old) :: insert path data files

end Memory

instance : FileStore Memory where
  read memory path :=
    match Memory.contents? path.location memory.files with
    | some data => .ok data
    | none => .error .missing
  write memory path data :=
    if memory.isProtected.contains path.location then
      .error .readOnly
    else
      .ok { memory with files := Memory.insert path data memory.files }
  place memory path data :=
    { memory with files := Memory.insert path data memory.files }
  makeDirectory memory _ := memory
  protect memory path :=
    { memory with isProtected := path.location :: memory.isProtected }

end Depfile
