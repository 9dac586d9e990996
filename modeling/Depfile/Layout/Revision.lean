import Depfile.Layout.Piece
import Depfile.Path.Relative
import Depfile.Text.Search

/-!
# Revising a dependency file

In a revised dependency file the absolute paths under the base directory are replaced by
paths relative to the working directory. Only words after the first target are looked at, and
everything but the replaced words stays as it was.

* `Layout.revise`: the new text with the list of replacements, or nothing if no word was
  replaced;
* `Layout.relativize`: the same with the new text alone, for callers who have not made sure
  that there is a base directory.
-/

namespace Depfile.Layout

/-- A path and what stands in its place. -/
structure Replacement where
  old : Text
  new : Text
deriving DecidableEq, Repr

/-- What a word after the first target is replaced by: only absolute paths are touched. -/
def relativizeWord (scope : Scope) (word : Text) : Text :=
  if Path.isAbsolute word then
    scope.relativize word
  else
    word

/-- What a piece after the first target is replaced by. -/
def relativizePiece (scope : Scope) : Piece → Piece
  | .blank c => .blank c
  | .word text => .word (relativizeWord scope text)

/-- The replacement of a piece after the first target, if it changes. -/
def replacement? (scope : Scope) : Piece → Option Replacement
  | .blank _ => none
  | .word text =>
    if relativizeWord scope text = text then
      none
    else
      some ⟨text, relativizeWord scope text⟩

/-- A revised text and the replacements that led to it, in order. -/
structure Revision where
  text : Text
  replacements : List Replacement

/-- The revision of pieces that have been cut from a text. -/
def revisePieces (scope : Scope) (pieces : List Piece) : Revision where
  text := render (throughTarget pieces ++ (afterTarget pieces).map (relativizePiece scope))
  replacements := (afterTarget pieces).filterMap (replacement? scope)

/-- The revision of a text, if it replaces anything. A text that does not mention the base
directory is not cut into pieces at all. -/
def revise (scope : Scope) (text : Text) : Option Revision :=
  if Text.occurs scope.base text then
    let revision := revisePieces scope (pieces text)
    if revision.replacements.isEmpty then
      none
    else
      some revision
  else
    none

/-! ## Callers without a base directory -/

/-- The refusal to revise a text without a base directory. -/
structure BaseRequired where
deriving DecidableEq, Repr

/-- The refusal is always the same. -/
def BaseRequired.message (_ : BaseRequired) : String :=
  "rewriting depfile paths requires a base directory"

/-- The revised text, if any word of it is replaced. A scope without a base directory is
refused. -/
def relativize (scope : Scope) (text : Text) : Except BaseRequired (Option Text) :=
  if scope.isActive then
    .ok ((revise scope text).map Revision.text)
  else
    .error ⟨⟩

end Depfile.Layout
