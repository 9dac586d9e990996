import Depfile.Token.Basic

/-!
# The layout of a dependency file

A dependency file can be cut into words and the characters between them without losing
anything: writing the pieces one after the other gives the file back. Words are separated by
spaces, tabs and line ends, where a line ends with a line feed or with a carriage return
and a line feed. Escapes and quotes mean nothing here, so that what is between two words is
kept exactly as it was written.
-/

namespace Depfile.Layout

/-- A piece of a dependency file: one character between words, or a word. -/
inductive Piece where
  | blank (c : Char)
  | word (text : Text)
deriving DecidableEq, Repr

namespace Piece

/-- The text of a piece. -/
def text : Piece → Text
  | blank c => [c]
  | word text => text

/-- Is the piece a word that ends with a colon? -/
def isTarget : Piece → Bool
  | blank _ => false
  | word text => Token.isTarget text

end Piece

/-! ## Cutting -/

/-- Does the character separate words, given the pieces that follow it? A carriage return does so
only in front of a line feed. -/
def separates (c : Char) (following : List Piece) : Bool :=
  c = ' ' || c = '\t' || c = '\n' || (c = '\r' && following.head? = some (.blank '\n'))

/-- Put one more character in front of the pieces of a text. -/
def consPiece (c : Char) (following : List Piece) : List Piece :=
  if separates c following then
    .blank c :: following
  else
    match following with
    -- The character belongs to the word that it touches.
    | .word text :: rest => .word (c :: text) :: rest
    | rest => .word [c] :: rest

/-- The pieces of a text. -/
def pieces (text : Text) : List Piece :=
  text.foldr consPiece []

/-- The text that consists of the pieces. -/
def render (pieces : List Piece) : Text :=
  pieces.flatMap Piece.text

/-- Cutting a text into pieces loses nothing. -/
theorem render_pieces (text : Text) : render (pieces text) = text := by
  induction text with
  | nil => rfl
  | cons c text ih =>
    have hc : render (consPiece c (pieces text)) = c :: render (pieces text) := by
      unfold consPiece
      split
      · rfl
      · split
        · rename_i heq
          rw [heq]
          rfl
        · rfl
    calc
      render (pieces (c :: text)) = c :: render (pieces text) := hc
      _ = c :: text := by rw [ih]

/-! ## The first target -/

/-- The pieces up to the first target and with it. Without a target these are all pieces. -/
def throughTarget (pieces : List Piece) : List Piece :=
  pieces.takeWhile (fun piece => !piece.isTarget) ++
    (pieces.dropWhile (fun piece => !piece.isTarget)).take 1

/-- The pieces after the first target. -/
def afterTarget (pieces : List Piece) : List Piece :=
  (pieces.dropWhile (fun piece => !piece.isTarget)).drop 1

theorem throughTarget_append_afterTarget (pieces : List Piece) :
    throughTarget pieces ++ afterTarget pieces = pieces := by
  rw [throughTarget, afterTarget, List.append_assoc, List.take_append_drop,
    List.takeWhile_append_dropWhile]

end Depfile.Layout
