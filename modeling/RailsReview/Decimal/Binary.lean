/-!
# Binary floating-point numbers

Numbers with a sign, a significand of 53 bits and an exponent, as they are held in 64 bits, with the
two infinities and the value that is no number.  Everything is exact arithmetic on natural numbers.

* `roundQuotient` rounds a quotient to the nearest integer, and a tie to the even one.
* `Binary64.ofRatio` is the number nearest to a quotient, and `Binary64.ofDecimal` the one nearest
  to a decimal.
* `Binary64.shortest?` gives the fewest decimal digits that read back as the same number, and of
  those the nearest to it.
-/

namespace RailsReview

/-- The quotient rounded to the nearest integer; a tie goes to the even one. -/
def roundQuotient (numerator denominator : Nat) : Nat :=
  let quotient := numerator / denominator
  let rest := 2 * (numerator % denominator)
  if rest < denominator then quotient
  else if denominator < rest then quotient + 1
  else quotient + quotient % 2

/-- A number of 64 bits.  A finite one is `mantissa * 2 ^ exponent`. -/
inductive Binary64 where
  | finite (negative : Bool) (mantissa : Nat) (exponent : Int)
  | infinite (negative : Bool)
  | nan
  deriving DecidableEq, Repr, Inhabited

namespace Binary64

/-- The least exponent. -/
def minExponent : Int := -1074

/-- The exponent at which numbers with a full significand overflow. -/
def maxExponent : Int := 971

/-- The two factors `2 ^ e` and `1`, or `1` and `2 ^ -e`, whose quotient is `2 ^ e`. -/
def powerOfTwo (e : Int) : Nat × Nat :=
  if 0 ≤ e then (Nat.pow 2 e.toNat, 1) else (1, Nat.pow 2 (-e).toNat)

/-- The exponent at which the significand of a positive quotient has 53 bits, or the least
exponent. -/
def exponentOfRatio (numerator denominator : Nat) : Int :=
  let guess : Int := max ((numerator.log2 : Int) - denominator.log2 - 53) minExponent
  let (up, down) := powerOfTwo guess
  if numerator * down / (denominator * up) < Nat.pow 2 53 then guess else guess + 1

/-- The number nearest to a quotient with a positive denominator. -/
def ofRatio (negative : Bool) (numerator denominator : Nat) : Binary64 :=
  if numerator = 0 then finite negative 0 minExponent
  else
    let exponent := exponentOfRatio numerator denominator
    let (up, down) := powerOfTwo exponent
    let mantissa := roundQuotient (numerator * down) (denominator * up)
    let (mantissa, exponent) :=
      if mantissa = Nat.pow 2 53 then (Nat.pow 2 52, exponent + 1) else (mantissa, exponent)
    if maxExponent < exponent then infinite negative else finite negative mantissa exponent

/-- The number nearest to `digits * 10 ^ exponent`.  Decimals that are far out of range are not
written out. -/
def ofDecimal (negative : Bool) (digits : Nat) (exponent : Int) : Binary64 :=
  let size : Int := (Nat.toDigits 10 digits).length + exponent
  if digits = 0 || size < -330 then finite negative 0 minExponent
  else if 310 < size then infinite negative
  else if 0 ≤ exponent then ofRatio negative (digits * Nat.pow 10 exponent.toNat) 1
  else ofRatio negative digits (Nat.pow 10 (-exponent).toNat)

/-! ## Shortest decimals -/

/-- The least `k` from `start` on with `denominator ≤ numerator * 10 ^ k`, if it is among the next
`count` numbers. -/
def leadingZeros (numerator denominator : Nat) : Nat → Nat → Nat
  | 0, start => start
  | count + 1, start =>
    if denominator ≤ numerator * Nat.pow 10 start then start
    else leadingZeros numerator denominator count (start + 1)

/-- The exponent of the first decimal digit of a positive quotient. -/
def decimalExponent (numerator denominator : Nat) : Int :=
  if denominator ≤ numerator then (Nat.toDigits 10 (numerator / denominator)).length - 1
  else -(leadingZeros numerator denominator 400 1 : Int)

/-- A positive number with the bounds between which decimals read back as it: `value`, `low` and
`high` are over one denominator, and the bounds themselves count if `closed`. -/
structure Interval where
  value : Nat
  low : Nat
  high : Nat
  denominator : Nat
  closed : Bool

namespace Interval

/-- The interval around a positive number. -/
def around (mantissa : Nat) (exponent : Int) : Interval :=
  let (up, down) := powerOfTwo exponent
  let below := if mantissa = Nat.pow 2 52 ∧ minExponent < exponent then 1 else 2
  { value := 4 * mantissa * up
    low := (4 * mantissa - below) * up
    high := (4 * mantissa + 2) * up
    denominator := 4 * down
    closed := mantissa % 2 == 0 }

/-- Whether the decimal `digits * up / down` reads back as the number. -/
def holds (interval : Interval) (digits up down : Nat) : Bool :=
  let scaled := digits * up * interval.denominator
  if interval.closed then interval.low * down ≤ scaled && scaled ≤ interval.high * down
  else interval.low * down < scaled && scaled < interval.high * down

/-- The multiple of `10 ^ exponent` that reads back as the number and is nearest to it. -/
def nearestOnGrid (interval : Interval) (exponent : Int) : Option Nat :=
  let up := if 0 ≤ exponent then Nat.pow 10 exponent.toNat else 1
  let down := if 0 ≤ exponent then 1 else Nat.pow 10 (-exponent).toNat
  let unit := interval.denominator * up
  let floor := interval.value * down / unit
  let rest := 2 * (interval.value * down % unit)
  match interval.holds floor up down, interval.holds (floor + 1) up down with
  | true, true =>
    some (if rest < unit then floor else if unit < rest then floor + 1 else floor + floor % 2)
  | true, false => some floor
  | false, true => some (floor + 1)
  | false, false => none

/-- The first grid on which a decimal reads back, with that decimal: grids get finer by one digit,
`count` times. -/
def firstGrid (interval : Interval) : Nat → Int → Option (Nat × Int)
  | 0, _ => none
  | count + 1, exponent =>
    match interval.nearestOnGrid exponent with
    | some digits => some (digits, exponent)
    | none => firstGrid interval count (exponent - 1)

end Interval

/-- The decimal without zeros at its end. -/
def dropZeros : Nat → Nat × Int → Nat × Int
  | 0, decimal => decimal
  | count + 1, (digits, exponent) =>
    if digits ≠ 0 ∧ digits % 10 = 0 then dropZeros count (digits / 10, exponent + 1)
    else (digits, exponent)

/-- The digits and the exponent of the shortest decimal that reads back as
`mantissa * 2 ^ exponent`. -/
def shortest? (mantissa : Nat) (exponent : Int) : Option (Nat × Int) :=
  if mantissa = 0 then some (0, 0)
  else
    let (up, down) := powerOfTwo exponent
    let first := decimalExponent (mantissa * up) down
    ((Interval.around mantissa exponent).firstGrid 17 first).map (dropZeros 17)

end Binary64

end RailsReview
