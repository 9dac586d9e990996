import Depfile.Text.Blank

/-!
# Paths

A path is text in which `/` separates components. Everything here is lexical: no file
system is consulted, and symbolic links do not exist.

* `Path.isAbsolute`: the path starts at the root;
* `Path.segments`, `Path.components`: the text between the separators, with and without the
  empty pieces;
* `Path.isUnder`: a path lies in a directory, the match ending at a component boundary.
-/

namespace Depfile.Path

/-- A path is absolute if it starts with a separator. -/
def isAbsolute : Text → Bool
  | '/' :: _ => true
  | _ => false

/-! ## Splitting and joining -/

/-- Put one more character in front of a list of segments: a separator opens a new segment,
and any other character belongs to the first one. -/
def consSegment (c : Char) (segments : List Text) : List Text :=
  if c = '/' then
    [] :: segments
  else
    match segments with
    | [] => [[c]]
    | segment :: rest => (c :: segment) :: rest

/-- The pieces of a path between its separators, empty ones included. -/
def segments (path : Text) : List Text :=
  path.foldr consSegment [[]]

/-- The non-empty pieces of a path between its separators. -/
def components (path : Text) : List Text :=
  (segments path).filter (fun segment => !segment.isEmpty)

/-- Components with one separator between each two neighbours. -/
def join : List Text → Text
  | [] => []
  | [component] => component
  | component :: rest => component ++ '/' :: join rest

/-! ## Directories above a path -/

/-- Does `path` lie in the directory `dir`, or name it? The directory's text has to be a prefix
of the path's text, and the prefix has to end where a component ends, so `/foo/barbaz` is not
under `/foo/bar`. Nothing lies under the empty directory. -/
def isUnder (path dir : Text) : Bool :=
  !path.isEmpty && !dir.isEmpty && dir.isPrefixOf path &&
    -- Either the directory ends with a separator, or the path ends or goes on with one after it.
    (dir.getLast? == some '/' || (path.drop dir.length).head?.all (· == '/'))

end Depfile.Path
