import RailsReview.Text.Hex
import RailsReview.Toml.Moment

/-!
# TOML scalars

Truth values and numbers, beside the dates and times of `Toml.Moment`.  A scalar is a run of letters,
digits and signs, which is read as a whole: it is a scalar of exactly one kind or of none.

Integers have 64 bits.  A floating-point number is the one nearest to the decimal that is written,
and a positive decimal beyond the range is refused.
-/

namespace RailsReview.Toml

/-! ## Digits -/

/-- Digits with single underscores between them, without the underscores. -/
def digits? (isDigit : Char → Bool) : List Char → Option (List Char)
  | [] => none
  | [c] => if isDigit c then some [c] else none
  | c :: '_' :: rest => if isDigit c then (digits? isDigit rest).map (c :: ·) else none
  | c :: rest => if isDigit c then (digits? isDigit rest).map (c :: ·) else none

/-- Decimal digits without a leading zero, unless zero is all. -/
def wholeDigits? (text : List Char) : Option (List Char) :=
  match digits? Char.isDigit text with
  | some ('0' :: _ :: _) => none
  | result => result

/-- The sign at the start of a number, and what follows it. -/
def splitSign : List Char → Bool × List Char
  | '-' :: rest => (true, rest)
  | '+' :: rest => (false, rest)
  | text => (false, text)

/-! ## Integers -/

/-- The integer with a sign and a size, if 64 bits hold it. -/
def boundedInteger? (negative : Bool) (size : Nat) : Option Int :=
  if negative then if size ≤ Nat.pow 2 63 then some (-(size : Int)) else none
  else if size < Nat.pow 2 63 then some size else none

/-- The value of a digit in a base up to sixteen. -/
def digitOf? (base : Nat) (c : Char) : Option Nat :=
  (Text.hexDigit? c).filter (· < base)

/-- A positive integer in another base. -/
def basedInteger? (base : Nat) (text : List Char) : Option Int := do
  let digits ← digits? (fun c => (digitOf? base c).isSome) text
  let size ← digits.foldlM (fun n c => (digitOf? base c).map (n * base + ·)) 0
  boundedInteger? false size

/-- The integer that a text is. -/
def integer? (text : List Char) : Option Int :=
  match text with
  | '0' :: 'x' :: rest => basedInteger? 16 rest
  | '0' :: 'o' :: rest => basedInteger? 8 rest
  | '0' :: 'b' :: rest => basedInteger? 2 rest
  | text =>
    let (negative, rest) := splitSign text
    match wholeDigits? rest with
    | some digits => boundedInteger? negative (Nat.ofDigitChars 10 digits 0)
    | none => none

/-! ## Floating-point numbers -/

/-- The exponent that a text is. -/
def exponent? (text : List Char) : Option Int :=
  let (negative, rest) := splitSign text
  (digits? Char.isDigit rest).map fun digits =>
    let size : Int := Nat.ofDigitChars 10 digits 0
    if negative then -size else size

/-- The number with given digits, unless it is positive and beyond the range. -/
def floatOfDigits? (negative : Bool) (whole fraction : List Char) (exponent : Int) :
    Option Binary64 :=
  match Binary64.ofDecimal negative (Nat.ofDigitChars 10 (whole ++ fraction) 0)
      (exponent - fraction.length) with
  | .infinite false => none
  | value => some value

/-- The floating-point number that an unsigned text is. -/
def unsignedFloat? (negative : Bool) (text : List Char) : Option Binary64 :=
  let isMark (c : Char) : Bool := c == 'e' || c == 'E'
  let mantissa := text.takeWhile (!isMark ·)
  let exponent := text.dropWhile (!isMark ·)
  let whole := mantissa.takeWhile (· != '.')
  let fraction := mantissa.dropWhile (· != '.')
  match wholeDigits? whole, fraction, exponent with
  | some _, [], [] => none
  | some whole, [], _ :: exponent =>
    (exponent? exponent).bind (floatOfDigits? negative whole [])
  | some whole, _ :: fraction, [] =>
    (digits? Char.isDigit fraction).bind (floatOfDigits? negative whole · 0)
  | some whole, _ :: fraction, _ :: exponent =>
    match digits? Char.isDigit fraction, exponent? exponent with
    | some fraction, some exponent => floatOfDigits? negative whole fraction exponent
    | _, _ => none
  | none, _, _ => none

/-- The floating-point number that a text is. -/
def float? (text : List Char) : Option Binary64 :=
  let (negative, rest) := splitSign text
  if rest = "inf".toList then some (.infinite negative)
  else if rest = "nan".toList then some .nan
  else unsignedFloat? negative rest

/-! ## Scalars -/

/-- Whether a character may stand in a scalar. -/
def isScalarChar (c : Char) : Bool :=
  c.isAlphanum || c == '_' || c == '+' || c == '-' || c == '.' || c == ':'

/-- The scalar that a text is. -/
def scalar? (text : List Char) : Option Value :=
  if text = "true".toList then some (.boolean true)
  else if text = "false".toList then some (.boolean false)
  else match integer? text with
    | some value => some (.integer value)
    | none =>
      match float? text with
      | some value => some (.float value)
      | none => (moment? .written text).map fun text => .moment (.ofList text)

/-- A scalar.  A date is read together with a time after a single space. -/
def readScalar (text : List Char) : Option (Value × List Char) :=
  let first := text.takeWhile isScalarChar
  let rest := text.dropWhile isScalarChar
  match rest with
  | ' ' :: c :: more =>
    if c.isDigit ∧ isDate first then
      let second := (c :: more).takeWhile isScalarChar
      (scalar? (first ++ ' ' :: second)).map (·, (c :: more).dropWhile isScalarChar)
    else (scalar? first).map (·, rest)
  | _ => (scalar? first).map (·, rest)

end RailsReview.Toml
