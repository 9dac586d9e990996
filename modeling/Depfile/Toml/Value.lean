import Depfile.Toml.Moment

/-!
# TOML keys and values

A key is a name or several names with dots between them. A value is a string, a number, a
boolean, a date or time, an array, or an inline table. Arrays and inline tables may be nested
up to a fixed depth.
-/

namespace Depfile.Toml

/-! ## Keys -/

/-- The characters of a name without quotes. -/
def isBareKeyChar (c : Char) : Bool :=
  ('a' ≤ c && c ≤ 'z') || ('A' ≤ c && c ≤ 'Z') || ('0' ≤ c && c ≤ '9') || c = '_' || c = '-'

/-- One name of a key. -/
def keyPart? : Text → Option (Text × Text)
  | '"' :: rest => basicBody? rest
  | '\x27' :: rest => literalBody? rest
  | text =>
    let name := text.takeWhile isBareKeyChar
    if name.isEmpty then
      none
    else
      some (name, text.dropWhile isBareKeyChar)

/-- At most so many names with dots and blanks between them: the first one, and the others. -/
def keyParts? : Nat → Text → Option ((Text × List Text) × Text)
  | 0, _ => none
  | limit + 1, text => do
    let (name, rest) ← keyPart? (skipBlanks text)
    match skipBlanks rest with
    | '.' :: rest => do
      let ((second, others), rest) ← keyParts? limit rest
      return ((name, second :: others), rest)
    | rest => return ((name, []), rest)

/-- Nesting deeper than this, in keys or in values, is refused. -/
def maxDepth : Nat := 79

/-- All names of a key. -/
def key? (text : Text) : Option (List Text × Text) :=
  (keyParts? maxDepth text).map (fun ((name, others), rest) => (name :: others, rest))

/-! ## Values -/

mutual

/-- A value inside of `depth` arrays and inline tables. -/
def valueWith? : Nat → Nat → Text → Option (Node × Text)
  | 0, _, _ => none
  | fuel + 1, depth, text =>
    match text with
    | [] => none
    | '[' :: rest =>
      if depth < maxDepth then do
        let (items, rest) ← itemsWith? fuel (depth + 1) rest
        return (.array items, rest)
      else
        none
    | '{' :: rest =>
      if depth < maxDepth then
        match skipBlanks rest with
        | '}' :: rest => some (.table .inline [], rest)
        | rest => do
          let (entries, rest) ← membersWith? fuel (depth + 1) [] rest
          return (.table .inline entries, rest)
      else
        none
    | 't' :: 'r' :: 'u' :: 'e' :: rest => some (.boolean true, rest)
    | 'f' :: 'a' :: 'l' :: 's' :: 'e' :: rest => some (.boolean false, rest)
    | c :: rest =>
      if c = '"' || c = '\x27' then
        (string? (c :: rest)).map (fun (value, rest) => (.text value, rest))
      else if startsMoment (c :: rest) then
        (moment? (c :: rest)).map (fun rest => (.moment, rest))
      else
        number? (c :: rest)

/-- The items of an array after its opening bracket or after a comma. -/
def itemsWith? : Nat → Nat → Text → Option (List Node × Text)
  | 0, _, _ => none
  | fuel + 1, depth, text =>
    match skipLines false text with
    | ']' :: rest => some ([], rest)
    | text => do
      let (item, rest) ← valueWith? fuel depth text
      match skipLines false rest with
      | ',' :: rest => do
        let (items, rest) ← itemsWith? fuel depth rest
        return (item :: items, rest)
      | ']' :: rest => return ([item], rest)
      | _ => none

/-- The entries of an inline table from a key on, added to those before it. -/
def membersWith? : Nat → Nat → Entries → Text → Option (Entries × Text)
  | 0, _, _, _ => none
  | fuel + 1, depth, entries, text => do
    let (names, rest) ← key? text
    let rest ← expect? '=' rest
    let (node, rest) ← valueWith? fuel depth (skipBlanks rest)
    let name ← names.getLast?
    let entries ← entries.insert names.dropLast name node
    match skipBlanks rest with
    | ',' :: rest => membersWith? fuel depth entries rest
    | '}' :: rest => return (entries, rest)
    | _ => none

end

/-- A value at the start of the text. Each character is behind at most two of the nested calls,
so the readers never run out of fuel. -/
def value? (text : Text) : Option (Node × Text) :=
  valueWith? (2 * text.length + 2) 0 text

end Depfile.Toml
