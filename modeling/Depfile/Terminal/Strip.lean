import Depfile.Text.Blank

/-!
# Plain output

Text that is not written to a terminal is freed from escape sequences and control characters. An
automaton reads the text character by character and knows where in an escape sequence it is.
Only tab, line feed, form feed and carriage return are kept of the control characters, also
in the middle of most sequences.

While characters are being kept, they are judged as if outside of a sequence, and the first one
that is not kept is judged again where the automaton was before.
-/

namespace Depfile.Terminal

/-- Where in a sequence the automaton is: outside of any, after an escape character and possibly
further characters, in a control sequence, in the head of a device control string, in a string
that ends with a string terminator, or in a system command. -/
inductive Mode where
  | ground
  | escape
  | escapeIntermediate
  | control
  | deviceEntry
  | deviceParameter
  | deviceIntermediate
  | string
  | command
deriving DecidableEq, Repr

/-- The control characters that are kept. -/
def isKeptControl (c : Char) : Bool :=
  c = '\t' || c = '\n' || c = '\x0c' || c = '\r'

def isAscii (c : Char) : Bool :=
  c.toNat < 0x80

/-- Is the character between two others, given by their numbers? -/
def within (low high : Nat) (c : Char) : Bool :=
  low ≤ c.toNat && c.toNat ≤ high

/-- Is the character kept in the given mode? -/
def isKept (mode : Mode) (c : Char) : Bool :=
  match mode with
  | .ground => isKeptControl c || within 0x20 0x7E c || !isAscii c
  | .escape | .escapeIntermediate | .control => isKeptControl c
  | .deviceEntry | .deviceParameter | .deviceIntermediate | .string | .command => false

/-- Does the encoding of the character contain the byte that terminates strings? -/
def holdsTerminator (c : Char) : Bool :=
  (String.utf8EncodeChar c).contains 0x9C

/-- The mode after a character that is not kept. -/
def next (mode : Mode) (c : Char) : Mode :=
  if c = '\x18' || c = '\x1a' then
    .ground
  else if c = '\x1b' then
    .escape
  else
    match mode with
    | .ground => .ground
    | .escape =>
      if c = '[' then .control
      else if c = ']' then .command
      else if c = 'P' then .deviceEntry
      else if c = 'X' || c = '^' || c = '_' then .string
      else if within 0x20 0x2F c then .escapeIntermediate
      else if within 0x30 0x7E c then .ground
      else .escape
    | .escapeIntermediate => if within 0x30 0x7E c then .ground else .escapeIntermediate
    | .control => if within 0x40 0x7E c then .ground else .control
    | .deviceEntry =>
      if within 0x40 0x7E c then .string
      else if within 0x20 0x2F c then .deviceIntermediate
      else if within 0x30 0x3F c then .deviceParameter
      else .deviceEntry
    | .deviceParameter =>
      if within 0x3C 0x7E c then .string
      else if within 0x20 0x2F c then .deviceIntermediate
      else .deviceParameter
    | .deviceIntermediate => if within 0x30 0x7E c then .string else .deviceIntermediate
    | .string => if holdsTerminator c then .ground else .string
    | .command => if c = '\x07' then .ground else .command

/-- The automaton: its mode, whether it is keeping characters, and the characters kept so far,
the last one first. -/
structure Filter where
  mode : Mode
  isKeeping : Bool
  kept : Text

namespace Filter

def start : Filter :=
  ⟨.ground, false, []⟩

/-- Read one character. A character outside of ASCII that is kept ends any sequence. -/
def step (filter : Filter) (c : Char) : Filter :=
  -- Everything that is kept in some mode is kept outside of sequences too.
  let judged := if filter.isKeeping && isKept .ground c then Mode.ground else filter.mode
  if isKept judged c then
    ⟨if isAscii c then filter.mode else .ground, true, c :: filter.kept⟩
  else
    ⟨next filter.mode c, false, filter.kept⟩

end Filter

/-- The text without escape sequences and control characters. -/
def strip (text : Text) : Text :=
  (text.foldl Filter.step .start).kept.reverse

end Depfile.Terminal
