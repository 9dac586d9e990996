import Depfile.Path.Basic

/-!
# Normal forms of paths

Reading the components of a path from left to right is a walk in the tree of directories: a
name goes down, `..` goes up, and `.` stays. The walk is kept as a stack whose top is the
directory reached last. Going up from the root stays at the root, so `..` at the start
of a path is dropped.
-/

namespace Depfile.Path

/-- The component that stays in the same directory. -/
def here : Text :=
  ['.']

/-- The component that goes up to the parent directory. -/
def parent : Text :=
  ['.', '.']

/-- Follow one component from the directory given by a stack of names, innermost first. -/
def follow (stack : List Text) (component : Text) : List Text :=
  if component = here then
    stack
  else if component = parent then
    stack.tail
  else
    component :: stack

/-- The names on the way from the root to where the components lead. -/
def resolve (components : List Text) : List Text :=
  (components.foldl follow []).reverse

/-- The path without repeated separators, `.` and `..`. An absolute path stays absolute; a
relative one is read from the root and written without the leading separator. -/
def normalize (path : Text) : Text :=
  if isAbsolute path then
    '/' :: join (resolve (components path))
  else
    join (resolve (components path))

end Depfile.Path
