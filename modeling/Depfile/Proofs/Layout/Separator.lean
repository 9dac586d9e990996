import Depfile.Proofs.Layout.Words

/-!
# Separators

What stands between two words of a text is a list of separators: spaces, tabs and line ends. A
carriage return is one only together with the line feed after it.
-/

namespace Depfile.Layout

/-- One separator between words: a blank or one of the two line ends. -/
inductive Separator where
  | space
  | tab
  | lineFeed
  | carriageReturnLineFeed
deriving DecidableEq, Repr

def Separator.text : Separator → Text
  | space => [' ']
  | tab => ['\t']
  | lineFeed => ['\n']
  | carriageReturnLineFeed => ['\r', '\n']

/-! ## The pieces of separators -/

def separatorPieces (separators : List Separator) : List Piece :=
  (separators.flatMap Separator.text).map Piece.blank

theorem spaced_separatorPieces (separators : List Separator) {rest : List Piece}
    (hrest : Spaced rest) : Spaced (separatorPieces separators ++ rest) := by
  induction separators with
  | nil => exact hrest
  | cons separator separators ih =>
    cases separator with
    | space => exact .blank (by simp) ih
    | tab => exact .blank (by simp) ih
    | lineFeed => exact .blank (by simp) ih
    | carriageReturnLineFeed => exact .lineEnd (.blank (by simp) ih)

theorem startsBlank_separatorPieces (separators : List Separator) {rest : List Piece}
    (hrest : StartsBlank rest) : StartsBlank (separatorPieces separators ++ rest) := by
  cases separators with
  | nil => exact hrest
  | cons separator separators => cases separator <;> exact startsBlank_blank _ _

theorem mapWord_separatorPieces (f : Text → Text) (separators : List Separator) :
    (separatorPieces separators).map (mapWord f) = separatorPieces separators := by
  simp [separatorPieces, mapWord]

theorem isTarget_of_mem_separatorPieces {separators : List Separator} {piece : Piece}
    (h : piece ∈ separatorPieces separators) : piece.isTarget = false := by
  rcases List.mem_map.1 h with ⟨c, _, rfl⟩
  rfl

end Depfile.Layout
