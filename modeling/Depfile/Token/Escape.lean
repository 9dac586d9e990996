import Depfile.Text.Blank

/-!
# Escaped names

A file name is written in a dependency file with a backslash in front of each character that
would end or change a token there, and with each dollar sign doubled.
-/

namespace Depfile.Token

/-- The characters that a backslash protects: backslash, number sign, colon, space and
horizontal tab. -/
def isProtected (c : Char) : Bool :=
  c = '\\' || c = '#' || c = ':' || c = ' ' || c = '\t'

/-- How one character of a name is written. -/
def escapeChar (c : Char) : Text :=
  if c = '$' then
    ['$', '$']
  else if isProtected c then
    ['\\', c]
  else
    [c]

/-- How a name is written in a dependency file. -/
def escape (name : Text) : Text :=
  name.flatMap escapeChar

end Depfile.Token
