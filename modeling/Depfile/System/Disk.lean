import Depfile.Path.Normal
import Depfile.System.World

/-!
# Files on a disk

A store with directories, in which a path is followed component by component: each component but
the last one has to lead to a directory, `..` leads to the parent, and a separator at the end of
a path asks for a directory. Names and paths have a greatest length in bytes. Nothing is
protected, and there are no links.

* `Disk.read`, `Disk.write`: what a program can do with a file;
* `Disk.place`, `Disk.makeDirectory`: changes from outside, which make the directories that are
  missing on the way.
-/

namespace Depfile

/-- What is found on a disk under the names that lead there from the root. -/
inductive DiskEntry where
  | file (data : ByteArray)
  | directory

/-- The entries of a disk. The root is always a directory. -/
structure Disk where
  entries : List (List Text × DiskEntry)

namespace Disk

/-- A disk with the given directories and all directories above them. -/
def withDirectories (paths : List (List Text)) : Disk :=
  ⟨paths.flatMap (fun path =>
    (List.range (path.length + 1)).map (fun n => (path.take n, DiskEntry.directory)))⟩

def find? (disk : Disk) (names : List Text) : Option DiskEntry :=
  if names.isEmpty then
    some .directory
  else
    disk.entries.lookup names

def set (disk : Disk) (names : List Text) (entry : DiskEntry) : Disk :=
  ⟨(names, entry) :: disk.entries.filter (fun other => !decide (other.1 = names))⟩

/-! ## Following paths -/

/-- The greatest length of a name in bytes. -/
def maxNameSize : Nat := 255

/-- The greatest length of a path in bytes. -/
def maxPathSize : Nat := 4095

/-- Follow components from a directory, given by its names from the last to the first, to the
names of what they lead to. An empty component or `.` asks for a directory and stays there. -/
def follow (disk : Disk) : List Text → List Text → Except FileError (List Text)
  | stack, [] => .ok stack
  | stack, component :: rest =>
    match disk.find? stack.reverse with
    | none => .error .noSuchEntry
    | some (.file _) => .error .notDirectory
    | some .directory =>
      -- Going up from the root stays there, because the stack is empty.
      if component.isEmpty ∨ component = Path.here then
        follow disk stack rest
      else if component = Path.parent then
        follow disk stack.tail rest
      else if maxNameSize < Utf8.size component then
        .error .nameTooLong
      else
        follow disk (component :: stack) rest

/-- The names of what a path leads to, which need not exist. -/
def resolve (disk : Disk) (path : AbsolutePath) : Except FileError (List Text) :=
  if path.text.contains '\x00' then
    .error .nulInPath
  else if maxPathSize < Utf8.size path.text then
    .error .nameTooLong
  else
    (disk.follow [] (Path.segments path.text)).map List.reverse

/-! ## Files -/

def read (disk : Disk) (path : AbsolutePath) : Except FileError ByteArray := do
  let names ← disk.resolve path
  match disk.find? names with
  | none => .error .noSuchEntry
  | some .directory => .error .isDirectory
  | some (.file data) => .ok data

/-- Writing creates the file if only its last component is missing. -/
def write (disk : Disk) (path : AbsolutePath) (data : ByteArray) : Except FileError Disk := do
  let names ← disk.resolve path
  match disk.find? names with
  | some .directory => .error .isDirectory
  | _ => .ok (disk.set names (.file data))

/-! ## Changes from outside -/

/-- Follow components like `follow`, and make each directory that is missing. A file on the way
ends this. -/
def makeDirectories (disk : Disk) : List Text → List Text → Disk
  | _, [] => disk
  | stack, component :: rest =>
    if component.isEmpty ∨ component = Path.here then
      makeDirectories disk stack rest
    else if component = Path.parent then
      makeDirectories disk stack.tail rest
    else
      let stack := component :: stack
      match disk.find? stack.reverse with
      | none => makeDirectories (disk.set stack.reverse .directory) stack rest
      | some .directory => makeDirectories disk stack rest
      | some (.file _) => disk

/-- Make a directory, with those that are missing above it. Separators at the end of its path do
not count, and what is there already stays. -/
def makeDirectory (disk : Disk) (path : AbsolutePath) : Disk :=
  disk.makeDirectories [] (Path.segments path.text)

/-- Place a file, with the directories that are missing above it. Where a directory is, no file is
placed. -/
def place (disk : Disk) (path : AbsolutePath) (data : ByteArray) : Disk :=
  let disk := disk.makeDirectories [] (Path.segments path.text).dropLast
  match disk.write path data with
  | .ok disk => disk
  | .error _ => disk

end Disk

instance : FileStore Disk where
  read := Disk.read
  write := Disk.write
  place := Disk.place
  makeDirectory := Disk.makeDirectory
  protect disk _ := disk

end Depfile
