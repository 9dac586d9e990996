import Depfile.Toml.Node
import Depfile.Toml.Quoted

/-!
# TOML numbers

Whole numbers have 64 bits with a sign and may be written in base 16, 8 or 2. Numbers with a
fraction or an exponent are rounded to double precision. A single underscore may stand
between two digits.
-/

namespace Depfile.Toml

/-- Is the character a digit in the given base? -/
def isDigit (base : Nat) (c : Char) : Bool :=
  match hexValue? c with
  | some digit => digit < base
  | none => false

/-- The number that the digits stand for. -/
def ofDigits (base : Nat) (digits : Text) : Nat :=
  digits.foldl (fun value c => value * base + (hexValue? c).getD 0) 0

/-- The digits that go on after a digit, without the underscores between them. -/
def moreDigits? (base : Nat) : Text → Option (Text × Text)
  | [] => some ([], [])
  | ['_'] => none
  | '_' :: c :: rest =>
    if isDigit base c then
      (moreDigits? base rest).map (consRead c)
    else
      none
  | c :: rest =>
    if isDigit base c then
      (moreDigits? base rest).map (consRead c)
    else
      some ([], c :: rest)

/-- One or more digits. -/
def digits? (base : Nat) : Text → Option (Text × Text)
  | [] => none
  | c :: rest =>
    if isDigit base c then
      (moreDigits? base rest).map (consRead c)
    else
      none

/-- The whole part of a decimal number: a zero alone, or digits that do not start with one. -/
def wholePart? : Text → Option (Text × Text)
  | '0' :: rest => some (['0'], rest)
  | text => digits? 10 text

/-- An optional sign, and whether it is a minus. -/
def sign : Text → Option Bool × Text
  | '+' :: rest => (some false, rest)
  | '-' :: rest => (some true, rest)
  | text => (none, text)

/-! ## Whole numbers -/

/-- The least and the greatest whole number. -/
def minInteger : Int := -9223372036854775808

def maxInteger : Int := 9223372036854775807

def integer? (value : Int) : Option Node :=
  if minInteger ≤ value ∧ value ≤ maxInteger then
    some (.integer value)
  else
    none

def based? (base : Nat) (text : Text) : Option (Node × Text) := do
  let (digits, rest) ← digits? base text
  let node ← integer? (ofDigits base digits)
  return (node, rest)

/-! ## Numbers with a fraction or an exponent -/

/-- The exponent after the letter that announces it. -/
def exponent? (text : Text) : Option (Int × Text) := do
  let (negative, rest) := sign text
  let (digits, rest) ← digits? 10 rest
  let value : Int := ofDigits 10 digits
  return (if negative = some true then -value else value, rest)

/-- A number in decimal notation. Only numbers that would be infinite with a positive sign are
refused. -/
def float? (negative : Bool) (digits : Text) (exponent : Int) : Option Node :=
  match Binary64.ofDecimal negative (ofDigits 10 digits) exponent with
  | .infinite false => none
  | value => some (.float value)

/-- The exponent, if the letter that announces one comes next, or else zero. -/
def optionalExponent? : Text → Option (Int × Text)
  | 'e' :: rest => exponent? rest
  | 'E' :: rest => exponent? rest
  | text => some (0, text)

/-- What follows the whole part of a decimal number decides what kind of number it is. -/
def decimal? (negative : Bool) (text : Text) : Option (Node × Text) := do
  let (whole, rest) ← wholePart? text
  match rest with
  | '.' :: rest => do
    let (fraction, rest) ← digits? 10 rest
    let (exponent, rest) ← optionalExponent? rest
    let node ← float? negative (whole ++ fraction) (exponent - fraction.length)
    return (node, rest)
  | rest =>
    if rest.head? = some 'e' ∨ rest.head? = some 'E' then do
      let (exponent, rest) ← optionalExponent? rest
      let node ← float? negative whole exponent
      return (node, rest)
    else do
      let value : Int := ofDigits 10 whole
      let node ← integer? (if negative then -value else value)
      return (node, rest)

/-- A number of any kind. A base is announced only without a sign. -/
def number? (text : Text) : Option (Node × Text) :=
  match text with
  | '0' :: 'x' :: rest => based? 16 rest
  | '0' :: 'o' :: rest => based? 8 rest
  | '0' :: 'b' :: rest => based? 2 rest
  | text =>
    let negative := (sign text).1 = some true
    match (sign text).2 with
    | 'i' :: 'n' :: 'f' :: rest => some (.float (.infinite negative), rest)
    | 'n' :: 'a' :: 'n' :: rest => some (.float .nan, rest)
    | rest => decimal? negative rest

end Depfile.Toml
