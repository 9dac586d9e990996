import Depfile.Toml.Line

/-!
# TOML strings

There are four kinds of strings: between double quotes, with escapes, or between apostrophes,
without, and both on one line or between three delimiters on several. The readers of
bodies start after the opening delimiter and give the text of the string and the rest after
the closing one.
-/

namespace Depfile.Toml

/-! ## Escapes -/

/-- The value of a hexadecimal digit. -/
def hexValue? (c : Char) : Option Nat :=
  if '0' ≤ c ∧ c ≤ '9' then
    some (c.toNat - '0'.toNat)
  else if 'a' ≤ c ∧ c ≤ 'f' then
    some (c.toNat - 'a'.toNat + 10)
  else if 'A' ≤ c ∧ c ≤ 'F' then
    some (c.toNat - 'A'.toNat + 10)
  else
    none

/-- The character with the given number, unless the number is a surrogate or too large. -/
def scalar? (n : Nat) : Option Char :=
  if n < 0xD800 ∨ (0xDFFF < n ∧ n < 0x110000) then
    some (Char.ofNat n)
  else
    none

/-- The character whose number is given by the next `count` hexadecimal digits. -/
def hexEscape? : Nat → Nat → Text → Option (Char × Text)
  | 0, value, rest => (scalar? value).map (fun c => (c, rest))
  | count + 1, value, c :: rest =>
    match hexValue? c with
    | some digit => hexEscape? count (value * 16 + digit) rest
    | none => none
  | _ + 1, _, [] => none

/-- The character that is written after a backslash. -/
def escape? : Text → Option (Char × Text)
  | 'b' :: rest => some ('\x08', rest)
  | 't' :: rest => some ('\t', rest)
  | 'n' :: rest => some ('\n', rest)
  | 'f' :: rest => some ('\x0c', rest)
  | 'r' :: rest => some ('\r', rest)
  | '"' :: rest => some ('"', rest)
  | '\\' :: rest => some ('\\', rest)
  | 'u' :: rest => hexEscape? 4 0 rest
  | 'U' :: rest => hexEscape? 8 0 rest
  | _ => none

theorem length_hexEscape?_le {count value : Nat} {text rest : Text} {c : Char}
    (h : hexEscape? count value text = some (c, rest)) : rest.length ≤ text.length := by
  induction count generalizing value text with
  | zero =>
    rw [hexEscape?] at h
    cases hs : scalar? value with
    | none =>
      rw [hs] at h
      cases h
    | some d =>
      rw [hs] at h
      cases h
      exact Nat.le_refl _
  | succ count ih =>
    cases text with
    | nil => cases h
    | cons d text =>
      rw [hexEscape?] at h
      cases hd : hexValue? d with
      | none =>
        rw [hd] at h
        cases h
      | some digit =>
        rw [hd] at h
        exact Nat.le_succ_of_le (ih h)

theorem length_escape?_lt {text rest : Text} {c : Char} (h : escape? text = some (c, rest)) :
    rest.length < text.length := by
  unfold escape? at h
  split at h
  case h_8 | h_9 => exact Nat.lt_succ_of_le (length_hexEscape?_le h)
  case h_10 => cases h
  all_goals
    cases h
    exact Nat.lt_succ_self _

/-! ## Strings on one line -/

/-- The characters between double quotes that stand for themselves. -/
def isBasicChar (c : Char) : Bool :=
  isCommentChar c && c ≠ '"' && c ≠ '\\'

/-- The characters between apostrophes. -/
def isLiteralChar (c : Char) : Bool :=
  isCommentChar c && c ≠ '\x27'

/-- Put one more character in front of a text that has been read. -/
def consRead (c : Char) (read : Text × Text) : Text × Text :=
  (c :: read.1, read.2)

def basicBody? (text : Text) : Option (Text × Text) :=
  match text with
  | [] => none
  | '"' :: rest => some ([], rest)
  | '\\' :: rest =>
    match _h : escape? rest with
    | some (c, tail) => (basicBody? tail).map (consRead c)
    | none => none
  | c :: rest =>
    if isBasicChar c then
      (basicBody? rest).map (consRead c)
    else
      none
termination_by text.length
decreasing_by
  all_goals simp only [List.length_cons]
  · exact Nat.lt_succ_of_lt (length_escape?_lt (by assumption))
  · exact Nat.lt_succ_self _

def literalBody? : Text → Option (Text × Text)
  | [] => none
  | '\x27' :: rest => some ([], rest)
  | c :: rest =>
    if isLiteralChar c then
      (literalBody? rest).map (consRead c)
    else
      none

/-! ## Strings on several lines -/

/-- The text after blanks and line ends. -/
def skipBlankLines : Text → Text
  | [] => []
  | '\r' :: '\n' :: rest => skipBlankLines rest
  | c :: rest =>
    if isBlank c || c = '\n' then
      skipBlankLines rest
    else
      c :: rest

theorem length_skipBlankLines_le (text : Text) :
    (skipBlankLines text).length ≤ text.length := by
  fun_induction skipBlankLines text with
  | case1 => exact Nat.le_refl _
  | case2 rest ih => exact Nat.le_succ_of_le (Nat.le_succ_of_le ih)
  | case3 c rest _ _ ih => exact Nat.le_succ_of_le ih
  | case4 c rest _ _ => exact Nat.le_refl _

/-- The text after a line end that a backslash takes away, with all blanks and line ends
around it. -/
def joinedLine? (text : Text) : Option Text :=
  (newline? (skipBlanks text)).map skipBlankLines

theorem length_joinedLine?_lt {text rest : Text} (h : joinedLine? text = some rest) :
    rest.length < text.length := by
  have hblanks : (skipBlanks text).length ≤ text.length :=
    (List.dropWhile_suffix isBlank).length_le
  cases hn : newline? (skipBlanks text) with
  | none =>
    rw [joinedLine?, hn] at h
    cases h
  | some tail =>
    rw [joinedLine?, hn] at h
    cases h
    have htail : tail.length < (skipBlanks text).length := by
      unfold newline? at hn
      split at hn
      · rename_i heq
        cases hn
        rw [heq]
        exact Nat.lt_succ_self _
      · rename_i heq
        cases hn
        rw [heq]
        exact Nat.lt_succ_of_lt (Nat.lt_succ_self _)
      · cases hn
    exact Nat.lt_of_le_of_lt (length_skipBlankLines_le tail) (Nat.lt_of_lt_of_le htail hblanks)

/-- Up to two double quotes may stand in front of the three that close the string. -/
def linesBody? (text : Text) : Option (Text × Text) :=
  match text with
  | [] => none
  | '"' :: '"' :: '"' :: '"' :: '"' :: rest => some (['"', '"'], rest)
  | '"' :: '"' :: '"' :: '"' :: rest => some (['"'], rest)
  | '"' :: '"' :: '"' :: rest => some ([], rest)
  | '"' :: rest => (linesBody? rest).map (consRead '"')
  | '\r' :: '\n' :: rest => (linesBody? rest).map (consRead '\n')
  | '\n' :: rest => (linesBody? rest).map (consRead '\n')
  | '\\' :: rest =>
    match _hj : joinedLine? rest with
    | some tail => linesBody? tail
    | none =>
      match _h : escape? rest with
      | some (c, tail) => (linesBody? tail).map (consRead c)
      | none => none
  | c :: rest =>
    if isBasicChar c then
      (linesBody? rest).map (consRead c)
    else
      none
termination_by text.length
decreasing_by
  all_goals simp only [List.length_cons]
  · exact Nat.lt_succ_self _
  · omega
  · exact Nat.lt_succ_self _
  · exact Nat.lt_succ_of_lt (length_joinedLine?_lt (by assumption))
  · exact Nat.lt_succ_of_lt (length_escape?_lt (by assumption))
  · exact Nat.lt_succ_self _

/-- Up to two apostrophes may stand in front of the three that close the string. -/
def literalLinesBody? : Text → Option (Text × Text)
  | [] => none
  | '\x27' :: '\x27' :: '\x27' :: '\x27' :: '\x27' :: rest => some (['\x27', '\x27'], rest)
  | '\x27' :: '\x27' :: '\x27' :: '\x27' :: rest => some (['\x27'], rest)
  | '\x27' :: '\x27' :: '\x27' :: rest => some ([], rest)
  | '\r' :: '\n' :: rest => (literalLinesBody? rest).map (consRead '\n')
  | c :: rest =>
    if c = '\n' || c = '\x27' || isLiteralChar c then
      (literalLinesBody? rest).map (consRead c)
    else
      none

/-- A line end directly after the opening delimiter is not part of the string. -/
def skipFirstNewline (text : Text) : Text :=
  (newline? text).getD text

/-- A string of any kind, from its opening delimiter on. -/
def string? : Text → Option (Text × Text)
  | '"' :: '"' :: '"' :: rest => linesBody? (skipFirstNewline rest)
  | '"' :: rest => basicBody? rest
  | '\x27' :: '\x27' :: '\x27' :: rest => literalLinesBody? (skipFirstNewline rest)
  | '\x27' :: rest => literalBody? rest
  | _ => none

end Depfile.Toml
