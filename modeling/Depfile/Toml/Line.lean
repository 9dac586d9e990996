import Depfile.Text.Blank

/-!
# Blanks, comments and line ends in TOML

These readers take text from its start and give the rest. A line ends with a line feed or with a
carriage return and a line feed; a lone carriage return is an error everywhere.
-/

namespace Depfile.Toml

/-- Spaces and tabs separate the parts of a line. -/
def isBlank (c : Char) : Bool :=
  c = ' ' || c = '\t'

/-- Characters outside of ASCII, which may stand in comments and in all strings. -/
def isNonAscii (c : Char) : Bool :=
  0x80 ≤ c.toNat

/-- The characters of a comment: everything but control characters other than tab. -/
def isCommentChar (c : Char) : Bool :=
  c = '\t' || (0x20 ≤ c.toNat && c.toNat ≤ 0x7E) || isNonAscii c

def skipBlanks (text : Text) : Text :=
  text.dropWhile isBlank

/-- The text after a line end. -/
def newline? : Text → Option Text
  | '\n' :: rest => some rest
  | '\r' :: '\n' :: rest => some rest
  | _ => none

/-- The text after the rest of a line, which may hold blanks and a comment and may be the last
one. -/
def endOfLine? (text : Text) : Option Text :=
  let rest :=
    match skipBlanks text with
    | '#' :: comment => comment.dropWhile isCommentChar
    | rest => rest
  match rest with
  | [] => some []
  | rest => newline? rest

/-- The text after blanks, comments and line ends. A comment that a line end does not follow is
not passed over. -/
def skipLines (inComment : Bool) : Text → Text
  | [] => []
  | '\r' :: '\n' :: rest => skipLines false rest
  | c :: rest =>
    if c = '\n' then
      skipLines false rest
    else if inComment then
      if isCommentChar c then skipLines true rest else c :: rest
    else if isBlank c then
      skipLines false rest
    else if c = '#' then
      skipLines true rest
    else
      c :: rest

end Depfile.Toml
