import Depfile.Number.Binary64

/-!
# Shortest decimal notation

A number of double precision is written with the fewest decimal digits that read back as the
same number, and of the decimals with so many digits the nearest one is taken. All
arithmetic is on natural numbers: a value is a fraction, and so are the ends of the interval
of values that are read as the number.

* `Binary64.shortest`: digits and exponent of the shortest decimal;
* `Binary64.text`: positional notation, which always has a decimal point.
-/

namespace Depfile.Binary64

/-- The values that are read as one number: a positive number and the two ends of the interval
around it, all over the same denominator. The ends belong to it if `closed`. -/
structure Interval where
  low : Nat
  value : Nat
  high : Nat
  den : Nat
  closed : Bool

/-- The interval of a positive number. Below a power of two the numbers lie twice as
close. -/
def interval (significand : Nat) (exponent : Int) : Interval :=
  let below := if significand = Nat.pow 2 52 ∧ minExponent < exponent then 1 else 2
  -- In quarters of the number's unit the ends are whole numbers.
  let scale : Nat × Nat :=
    match exponent - 2 with
    | .ofNat e => (Nat.pow 2 e, 1)
    | .negSucc e => (1, Nat.pow 2 (e + 1))
  { low := (4 * significand - below) * scale.1
    value := 4 * significand * scale.1
    high := (4 * significand + 2) * scale.1
    den := scale.2
    closed := significand % 2 = 0 }

namespace Interval

/-- The exponent `p` with `10 ^ (p - 1) ≤ value < 10 ^ p`. -/
def decimalExponent (i : Interval) : Int :=
  if i.den ≤ i.value then
    (decimalLength (i.value / i.den) : Int)
  else
    1 - (decimalLength ((i.den + i.value - 1) / i.value - 1) : Int)

/-- The interval in units of `10 ^ exponent`. -/
def scaled (i : Interval) (exponent : Int) : Interval :=
  match exponent with
  | .ofNat e => { i with den := i.den * Nat.pow 10 e }
  | .negSucc e =>
    { i with
      low := i.low * Nat.pow 10 (e + 1)
      value := i.value * Nat.pow 10 (e + 1)
      high := i.high * Nat.pow 10 (e + 1) }

/-- Does the whole number lie in the interval? -/
def contains (i : Interval) (n : Nat) : Bool :=
  if i.closed then
    i.low ≤ n * i.den && n * i.den ≤ i.high
  else
    i.low < n * i.den && n * i.den < i.high

/-- The whole number in the interval that is nearest to its value, the greater one of two. -/
def nearest? (i : Interval) : Option Nat :=
  let floor := i.value / i.den
  let belowHalf : Bool := 2 * (i.value % i.den) < i.den
  match contains i floor, contains i (floor + 1) with
  | true, true => if belowHalf then some floor else some (floor + 1)
  | true, false => some floor
  | false, true => some (floor + 1)
  | false, false => none

end Interval

/-- A whole number times a power of ten. -/
structure Decimal where
  digits : Nat
  exponent : Int
deriving DecidableEq, Repr

/-- The decimal with `count` digits nearest to a number, if it reads back. -/
def decimal? (i : Interval) (count : Nat) : Option Decimal :=
  let exponent := i.decimalExponent - (count : Int)
  match (i.scaled exponent).nearest? with
  | none => none
  | some digits =>
    -- Rounding up to the next power of ten leaves one digit.
    if digits = Nat.pow 10 count then
      some ⟨1, exponent + count⟩
    else
      some ⟨digits, exponent⟩

/-- The shortest decimal of a positive number. Seventeen digits are always enough. -/
def shortest (significand : Nat) (exponent : Int) : Decimal :=
  let i := interval significand exponent
  ((List.range 17).findSome? (fun k => decimal? i (k + 1))).getD ⟨0, 0⟩

/-! ## Notation -/

/-- A decimal in positional notation, with a zero where no digit stands on a side of the point. -/
def Decimal.text (d : Decimal) : String :=
  let digits := Nat.toDigits 10 d.digits
  match d.exponent with
  | .ofNat e => String.ofList (digits ++ List.replicate e '0' ++ ['.', '0'])
  | .negSucc e =>
    let places := e + 1
    if places < digits.length then
      let whole := digits.length - places
      String.ofList (digits.take whole ++ '.' :: digits.drop whole)
    else
      String.ofList ('0' :: '.' :: List.replicate (places - digits.length) '0' ++ digits)

/-- The text of a number: shortest digits in positional notation, with a sign if it is
negative. -/
def text : Binary64 → String
  | finite negative significand exponent =>
    let sign := if negative then "-" else ""
    if significand = 0 then
      sign ++ "0.0"
    else
      sign ++ (shortest significand exponent).text
  | infinite negative => if negative then "-inf" else "inf"
  | nan => "NaN"

end Depfile.Binary64
