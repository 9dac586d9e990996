import Depfile.Toml.Numeral

/-!
# TOML dates and times

A date, a time of day, or both, with an offset from universal time after both. The readers check
that the fields make sense and give the rest of the text; the fields are not kept.
-/

namespace Depfile.Toml

/-- The number given by two decimal digits, if it lies between two bounds. -/
def twoDigits? (low high : Nat) : Text → Option (Nat × Text)
  | a :: b :: rest =>
    let value := ofDigits 10 [a, b]
    if isDigit 10 a && isDigit 10 b && low ≤ value && value ≤ high then
      some (value, rest)
    else
      none
  | _ => none

/-- The text after one given character. -/
def expect? (c : Char) : Text → Option Text
  | [] => none
  | d :: rest => if d = c then some rest else none

/-! ## Dates -/

def isLeapYear (year : Nat) : Bool :=
  year % 4 = 0 && (year % 100 ≠ 0 || year % 400 = 0)

/-- The number of days in a month. -/
def daysIn (year month : Nat) : Nat :=
  if month = 2 then
    if isLeapYear year then 29 else 28
  else if month = 4 ∨ month = 6 ∨ month = 9 ∨ month = 11 then
    30
  else
    31

/-- Four digits and a hyphen start a date. -/
def startsDate : Text → Bool
  | a :: b :: c :: d :: '-' :: _ => [a, b, c, d].all (isDigit 10)
  | _ => false

/-- The text after a date. -/
def date? (text : Text) : Option Text := do
  let year := ofDigits 10 (text.take 4)
  let rest ← expect? '-' (text.drop 4)
  let (month, rest) ← twoDigits? 1 12 rest
  let rest ← expect? '-' rest
  let (day, rest) ← twoDigits? 1 31 rest
  if day ≤ daysIn year month then
    return rest
  else
    none

/-! ## Times -/

/-- Two digits and a colon start a time. -/
def startsTime : Text → Bool
  | a :: b :: ':' :: _ => isDigit 10 a && isDigit 10 b
  | _ => false

/-- The text after hours and minutes. -/
def hoursMinutes? (text : Text) : Option Text := do
  let (_, rest) ← twoDigits? 0 23 text
  let rest ← expect? ':' rest
  let (_, rest) ← twoDigits? 0 59 rest
  return rest

/-- The text after a time, whose seconds may have a fraction. A minute can have 61 seconds. -/
def time? (text : Text) : Option Text := do
  let rest ← hoursMinutes? text
  let rest ← expect? ':' rest
  let (_, rest) ← twoDigits? 0 60 rest
  match rest with
  | '.' :: c :: fraction =>
    if isDigit 10 c then
      return fraction.dropWhile (isDigit 10)
    else
      return rest
  | rest => return rest

/-- The text after an offset, if there is one. -/
def optionalOffset? : Text → Option Text
  | 'Z' :: rest => some rest
  | 'z' :: rest => some rest
  | '+' :: rest => hoursMinutes? rest
  | '-' :: rest => hoursMinutes? rest
  | text => some text

/-! ## Both -/

/-- The text after a date, a time, or a date and a time with a letter or a space between
them. -/
def moment? (text : Text) : Option Text :=
  if startsDate text then do
    let rest ← date? text
    match rest with
    | c :: tail =>
      if (c = 'T' || c = 't' || c = ' ') && startsTime tail then do
        let rest ← time? tail
        optionalOffset? rest
      else
        return c :: tail
    | [] => return []
  else
    time? text

/-- Does the text start with a date or a time, and not with a number? -/
def startsMoment (text : Text) : Bool :=
  startsDate text || startsTime text

end Depfile.Toml
