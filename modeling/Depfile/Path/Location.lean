import Depfile.Path.Absolute

/-!
# Locations

Two absolute paths name the same location if they have the same components, where repeated
separators, a separator at the end and `.` do not count. The component `..` is kept, because
where it leads is not decided by the text of the path alone.
-/

namespace Depfile

/-- A place in the tree of files, given by the components that lead to it. -/
structure Location where
  components : List Text
deriving DecidableEq, Repr

/-- The location that an absolute path names. -/
def AbsolutePath.location (path : AbsolutePath) : Location :=
  ⟨(Path.components path.text).filter (fun component => component != ['.'])⟩

end Depfile
