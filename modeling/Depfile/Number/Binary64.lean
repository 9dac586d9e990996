/-!
# Binary numbers of double precision

A finite number of double precision is a whole number below `2 ^ 53` times a power of two whose
exponent is at least `-1074`. Decimal notation is read into the nearest of these numbers,
where a tie goes to the even significand, and what lies beyond the largest of them becomes
infinite.
-/

namespace Depfile

/-- A number of double precision. The value of `finite negative m e` is `m * 2 ^ e`, with its sign
changed if it is negative. -/
inductive Binary64 where
  | finite (negative : Bool) (significand : Nat) (exponent : Int)
  | infinite (negative : Bool)
  | nan
deriving DecidableEq, Repr

namespace Binary64

/-- The least exponent of a number, and the greatest one. -/
def minExponent : Int := -1074

def maxExponent : Int := 971

/-- The quotient of two numbers, rounded to the nearest whole number; a tie goes to the even
one. -/
def roundedQuotient (num den : Nat) : Nat :=
  let quotient := num / den
  let twice := 2 * (num % den)
  if twice < den then
    quotient
  else if den < twice then
    quotient + 1
  else
    quotient + quotient % 2

/-- The quotient `num / den` in units of `2 ^ exponent`, as a fraction. -/
def inUnits (num den : Nat) (exponent : Int) : Nat × Nat :=
  match exponent with
  | .ofNat e => (num, den * Nat.pow 2 e)
  | .negSucc e => (num * Nat.pow 2 (e + 1), den)

/-- The exponent of the unit in which the quotient has 53 binary digits, or the least one. -/
def unitOf (num den : Nat) : Int :=
  -- The quotient of the leading powers of two is off by less than one power.
  let guess : Int := (Nat.log2 num : Int) - (Nat.log2 den : Int) - 53
  let scaled := inUnits num den guess
  let exponent := if Nat.pow 2 53 ≤ scaled.1 / scaled.2 then guess + 1 else guess
  max exponent minExponent

/-- The number nearest to the positive quotient `num / den`. -/
def ofQuotient (negative : Bool) (num den : Nat) : Binary64 :=
  let exponent := unitOf num den
  let scaled := inUnits num den exponent
  let significand := roundedQuotient scaled.1 scaled.2
  -- Rounding up can add a binary digit.
  let carried := significand = Nat.pow 2 53
  let significand := if carried then Nat.pow 2 52 else significand
  let exponent := if carried then exponent + 1 else exponent
  if maxExponent < exponent then
    infinite negative
  else
    finite negative significand exponent

/-- The number of digits that a number has in decimal notation, where zero has none. -/
def decimalLength (n : Nat) : Nat :=
  if n = 0 then
    0
  else
    (Nat.toDigits 10 n).length

/-- The number nearest to `coefficient * 10 ^ exponent`. Numbers from `10 ^ 310` on are
infinite, and numbers below `10 ^ -330` are zero, without computing the power. -/
def ofDecimal (negative : Bool) (coefficient : Nat) (exponent : Int) : Binary64 :=
  let magnitude : Int := (decimalLength coefficient : Int) + exponent
  if coefficient = 0 ∨ magnitude < -330 then
    finite negative 0 minExponent
  else if 310 < magnitude then
    infinite negative
  else
    match exponent with
    | .ofNat e => ofQuotient negative (coefficient * Nat.pow 10 e) 1
    | .negSucc e => ofQuotient negative coefficient (Nat.pow 10 (e + 1))

end Binary64

end Depfile
