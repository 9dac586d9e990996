import Depfile.Path.Relative
import Depfile.Token.Basic
import Depfile.Token.Scan

/-!
# Dependencies

The files that a compilation depended on are the prerequisites in its dependency file.
-/

namespace Depfile

/-- The prerequisites in a dependency file, in order of appearance and made relative where the
scope allows it, and whether any of them was absolute before. -/
structure Dependencies where
  paths : List Text
  hasAbsolutePaths : Bool
deriving DecidableEq, Repr

/-- The dependencies that a dependency file lists. -/
def Dependencies.ofText (scope : Scope) (text : Text) : Dependencies :=
  let prerequisites := Token.prerequisites (Token.tokenize text)
  { paths := prerequisites.map scope.relativize
    hasAbsolutePaths := prerequisites.any Path.isAbsolute }

end Depfile
