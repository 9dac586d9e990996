import Depfile.Token.Escape

/-!
# Reading tokens

A dependency file is read in one pass from left to right, looking ahead where a character's
meaning depends on the ones after it:

* whitespace ends a token, and a colon ends it as a target, also after whitespace;
* a backslash takes away the meaning of a following backslash, number sign, colon, space or
  tab, and disappears before a line feed;
* two dollar signs stand for one;
* between double quotes every character stands for itself;
* after a single character a colon before a slash or a backslash belongs to a drive letter.

Every text gives some list of tokens. Tokens that hold only whitespace are dropped.
-/

namespace Depfile.Token

/-! ## The token being collected -/

/-- The token being collected is kept with its last character first. It is given out unless it is
blank. -/
def emit (pending : Text) : List Text :=
  if Text.isBlank pending then
    []
  else
    [pending.reverse]

/-- Is the token being collected a single character, not blank and one byte long in UTF-8, so that
it can name a drive? -/
def isDrive : Text → Bool
  | [c] => !Text.isSpace c && c.utf8Size = 1
  | _ => false

/-! ## Looking ahead -/

/-- Does the text go on with a slash or a backslash? -/
def slashFollows : Text → Bool
  | c :: _ => c = '/' || c = '\\'
  | [] => false

/-- Does the text go on with a colon, after any whitespace? -/
def colonFollows : Text → Bool
  | c :: rest => c = ':' || (Text.isSpace c && colonFollows rest)
  | [] => false

/-! ## The scanner -/

/-- What the next character is part of: ordinary text, the inside of double quotes, or the
whitespace and the colon that have already ended a target. -/
inductive Mode where
  | plain
  | quoted
  | ending
deriving DecidableEq, Repr

/-- The tokens of a text, after the characters in `pending` have been collected for the first of
them. -/
def scan (pending : Text) : Mode → Text → List Text
  | _, [] => emit pending
  | .quoted, c :: rest =>
    if c = '"' then
      scan pending .plain rest
    else
      scan (c :: pending) .quoted rest
  | .ending, c :: rest =>
    if c = ':' then
      scan pending .plain rest
    else
      scan pending .ending rest
  | .plain, c :: rest =>
    if c = ':' then
      if isDrive pending && slashFollows rest then
        -- The slash is read next, as the start of the path on the drive.
        scan (c :: pending) .plain rest
      else if Text.isBlank pending then
        -- There is nothing that the colon could make a target.
        scan [] .plain rest
      else
        emit (c :: pending) ++ scan [] .plain rest
    else if Text.isSpace c then
      -- A blank token is dropped here, and a colon after it stands alone.
      if !Text.isBlank pending && colonFollows rest then
        emit (':' :: pending) ++ scan [] .ending rest
      else
        emit pending ++ scan [] .plain rest
    else if c = '\\' then
      match rest with
      | next :: tail =>
        if isProtected next then
          -- The escaped character is collected without being looked at again.
          scan (next :: pending) .plain tail
        else if next = '\n' then
          -- The line feed is read as whitespace.
          scan pending .plain (next :: tail)
        else
          -- In front of anything else a backslash stands for itself.
          scan (c :: pending) .plain (next :: tail)
      | [] => scan (c :: pending) .plain []
    else if c = '$' then
      match rest with
      | '$' :: tail => scan (c :: pending) .plain tail
      | tail => scan (c :: pending) .plain tail
    else if c = '"' then
      scan pending .quoted rest
    else
      scan (c :: pending) .plain rest

/-- The targets and prerequisites of a dependency file, in order of appearance. Escapes are
resolved, and a target keeps its colon. -/
def tokenize (text : Text) : List Text :=
  scan [] .plain text

end Depfile.Token
