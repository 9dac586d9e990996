import Depfile.Path.Absolute
import Depfile.Path.Normal

/-!
# Relative paths

The way from one directory to another goes up to the directory that both share and down from
there. A `Scope` says which paths are written that way: those under its base directory, seen
from its working directory.
-/

namespace Depfile

namespace Path

/-- The steps from the directory `dir` to `target`, both given by the names from the root: what
they have in common at the start is left out, each name that remains of `dir` is one step up,
and the names that remain of `target` follow. -/
def steps : List Text → List Text → List Text
  | d :: dir, t :: target =>
    if d = t then
      steps dir target
    else
      (d :: dir).map (fun _ => parent) ++ t :: target
  | dir, target => dir.map (fun _ => parent) ++ target

/-- The path seen from the directory `dir`, or `.` if it names that directory. A path that is not
absolute has no place relative to `dir` and is only normalized. -/
def relativeTo (dir : AbsolutePath) (path : Text) : Text :=
  if isAbsolute path then
    match steps (resolve (components dir.text)) (resolve (components path)) with
    | [] => here
    | way => join way
  else
    normalize path

end Path

/-- What it takes to make a path relative: the directory under which paths are made relative, and
the directory they are made relative to. An empty base directory switches this off. -/
structure Scope where
  base : Text
  cwd : AbsolutePath

namespace Scope

/-- Are any paths made relative at all? -/
def isActive (scope : Scope) : Bool :=
  !scope.base.isEmpty

/-- A path under the base directory, seen from the working directory. Any other path is kept. -/
def relativize (scope : Scope) (path : Text) : Text :=
  if scope.isActive && Path.isUnder path scope.base then
    Path.relativeTo scope.cwd path
  else
    path

end Scope

end Depfile
