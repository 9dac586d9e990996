import Depfile.Toml.Value

/-!
# TOML documents

A document is a sequence of lines, each of which is empty, a header or a key with its value, and
may end with a comment.
-/

namespace Depfile.Toml

/-- The effect of the line that a text starts with, and the text after the line. -/
def line? (draft : Draft) (text : Text) : Option (Draft × Text) :=
  match text with
  | '#' :: _ => do
    let rest ← endOfLine? text
    return (draft, rest)
  | '[' :: '[' :: rest => do
    let (path, rest) ← key? rest
    let rest ← expect? ']' rest
    let rest ← expect? ']' rest
    let rest ← endOfLine? rest
    let draft ← draft.openElement path
    return (draft, rest)
  | '[' :: rest => do
    let (path, rest) ← key? rest
    let rest ← expect? ']' rest
    let rest ← endOfLine? rest
    let draft ← draft.openTable path
    return (draft, rest)
  | text =>
    match newline? text with
    | some rest => some (draft, rest)
    | none => do
      let (names, rest) ← key? text
      let rest ← expect? '=' rest
      let (node, rest) ← value? (skipBlanks rest)
      let rest ← endOfLine? rest
      let name ← names.getLast?
      let draft ← draft.insert names.dropLast name node
      return (draft, rest)

/-- The document that the lines of a text add up to. Every line has at least one character, so
`fuel` only has to exceed the length of the text. -/
def linesWith? : Nat → Draft → Text → Option Entries
  | 0, _, _ => none
  | fuel + 1, draft, text =>
    match skipBlanks text with
    | [] => draft.close
    | text => do
      let (draft, rest) ← line? draft text
      linesWith? fuel draft rest

/-- A document may start with a byte order mark. -/
def skipMark : Text → Text
  | '\uFEFF' :: rest => rest
  | text => text

/-- The root table of a document, unless there is an error anywhere in it. -/
def document? (text : Text) : Option Entries :=
  linesWith? (text.length + 1) .empty (skipMark text)

end Depfile.Toml
