import RailsReview.Decimal.Binary

/-!
# JSON values

What a JSON text stands for.  Numbers keep apart integers and decimals, since only integers are read
as counts, and objects keep their members in order, repeated ones included.

Some texts follow the grammar without having a value: a string with half of a surrogate pair, an
object with such a member name, a number beyond the range of floating-point numbers.  They are all
read as `Json.valueless`, which can be skipped over but not used.

`Json.height` is the number of containers that are open at once while a value is read.
-/

namespace RailsReview

/-- A JSON number. -/
inductive Number where
  /-- A number without fraction and exponent. -/
  | integer (negative : Bool) (magnitude : Nat)
  /-- The number `digits * 10 ^ exponent`, written with a fraction or an exponent. -/
  | decimal (negative : Bool) (digits : Nat) (exponent : Int)
  deriving DecidableEq, Repr, Inhabited

/-- A JSON value. -/
inductive Json where
  | null
  | bool (value : Bool)
  | number (value : Number)
  | string (text : String)
  | array (items : List Json)
  | object (members : List (String × Json))
  /-- What follows the grammar but has no value. -/
  | valueless
  deriving Repr, Inhabited

/-! ## Numbers -/

namespace Number

/-- One more than the largest unsigned integer. -/
def wordSize : Nat := Nat.pow 2 64

/-- The leading digits that fit a word, with the exponent that makes up for the dropped ones. -/
def leadingDigits : Nat → Nat → Int → Nat × Int
  | 0, digits, exponent => (digits, exponent)
  | count + 1, digits, exponent =>
    if digits < wordSize then (digits, exponent)
    else leadingDigits count (digits / 10) (exponent + 1)

/-- A positive integer rounded to 53 significant bits. -/
def roundToBinary (n : Nat) : Nat :=
  let shift := n.log2 - 52
  roundQuotient n (Nat.pow 2 shift) * Nat.pow 2 shift

/-- Whether a decimal is beyond the range of floating-point numbers: its leading digits and its
power of ten, each rounded to a floating-point number, have a product that is. -/
def exceedsRange (digits : Nat) (exponent : Int) : Bool :=
  let (leading, scale) := leadingDigits digits.log2 digits exponent
  if leading = 0 || scale ≤ 0 then false
  else if 308 < scale then true
  else
    Nat.pow 2 1024 ≤
      roundToBinary (roundToBinary leading * roundToBinary (Nat.pow 10 scale.toNat))

/-- Whether a number is beyond the range of floating-point numbers. -/
def isOutOfRange : Number → Bool
  | integer _ magnitude => if magnitude < wordSize then false else exceedsRange magnitude 0
  | decimal _ digits exponent => exceedsRange digits exponent

/-- The count that a number stands for: an unsigned integer of one word. -/
def count? : Number → Option Nat
  | integer false magnitude => if magnitude < wordSize then some magnitude else none
  | _ => none

end Number

/-! ## Values -/

namespace Json

/-- A count as a value. -/
def count (n : Nat) : Json :=
  number (.integer false n)

/-- An integer as a value. -/
def integer (n : Int) : Json :=
  number (.integer (n < 0) n.natAbs)

/-- An optional value, `null` where there is none. -/
def ofOption (value : Option Json) : Json :=
  value.getD null

/-- The count that a value is. -/
def count? : Json → Option Nat
  | number value => value.count?
  | _ => none

/-- The text that a value is. -/
def text? : Json → Option String
  | string text => some text
  | _ => none

/-- The items of an array. -/
def items? : Json → Option (List Json)
  | array items => some items
  | _ => none

mutual

/-- The number of containers that are open at once within a value. -/
def height : Json → Nat
  | array items => 1 + heightItems items
  | object members => 1 + heightMembers members
  | _ => 0

/-- The greatest height among items. -/
def heightItems : List Json → Nat
  | [] => 0
  | item :: items => max (height item) (heightItems items)

/-- The greatest height among the values of members. -/
def heightMembers : List (String × Json) → Nat
  | [] => 0
  | member :: members => max (heightMember member) (heightMembers members)

/-- The height of the value of a member. -/
def heightMember : String × Json → Nat
  | (_, value) => height value

end

mutual

/-- Whether everything within a value has a value. -/
def isValued : Json → Bool
  | valueless => false
  | array items => isValuedItems items
  | object members => isValuedMembers members
  | _ => true

/-- Whether everything within the items has a value. -/
def isValuedItems : List Json → Bool
  | [] => true
  | item :: items => isValued item && isValuedItems items

/-- Whether everything within the members has a value. -/
def isValuedMembers : List (String × Json) → Bool
  | [] => true
  | member :: members => isValuedMember member && isValuedMembers members

/-- Whether everything within a member has a value. -/
def isValuedMember : String × Json → Bool
  | (_, value) => isValued value

end

end Json

end RailsReview
