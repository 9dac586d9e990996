/-!
# Text and blanks

All text that the library handles (file contents, file names, tokens) is a list of
characters, so that every function on it is a recursion on the list. This file
names that type and says which characters count as whitespace in a dependency file.
-/

namespace Depfile

/-- Text as a sequence of characters. -/
abbrev Text := List Char

namespace Text

/-- The six whitespace characters of a dependency file: space, horizontal tab, line feed,
vertical tab, form feed and carriage return. -/
def isSpace (c : Char) : Bool :=
  c = ' ' || c = '\t' || c = '\n' || c = '\x0b' || c = '\x0c' || c = '\r'

/-- A text is blank if it holds nothing but whitespace. The empty text is blank. -/
def isBlank (text : Text) : Bool :=
  text.all isSpace

end Text

end Depfile
