import RailsReview.Json.Text
import RailsReview.Json.Value

/-!
# Writing JSON

A value has a compact text, without blanks, and a pretty one, in which every item and every member
stands on a line of its own, indented by two spaces for each container around it.  Both write
members in order and escape strings alike.

A decimal is written with a fraction or an exponent: in positional notation if its point is at most
sixteen places to the right of its first digit or five to the left, and otherwise with one digit
before the point.
-/

namespace RailsReview

namespace Number

/-- A decimal whose digits stand before the given place of the point. -/
def positional (digits : List Char) (point : Int) : List Char :=
  if point ≤ 0 then ['0', '.'] ++ List.replicate (-point).toNat '0' ++ digits
  else if (digits.length : Int) ≤ point then
    digits ++ List.replicate (point.toNat - digits.length) '0' ++ ['.', '0']
  else digits.take point.toNat ++ '.' :: digits.drop point.toNat

/-- A decimal with one digit before the point and an exponent. -/
def scientific (digits : List Char) (point : Int) : List Char :=
  let fraction := digits.drop 1
  let exponent := point - 1
  digits.take 1 ++ (if fraction.isEmpty then [] else '.' :: fraction) ++
    'e' :: (if exponent < 0 then ['-'] else []) ++ Nat.toDigits 10 exponent.natAbs

/-- The text of a number. -/
def write : Number → List Char
  | integer negative magnitude => (if negative then ['-'] else []) ++ Nat.toDigits 10 magnitude
  | decimal negative digits exponent =>
    let text := Nat.toDigits 10 digits
    let point : Int := text.length + exponent
    (if negative then ['-'] else []) ++
      if -5 < point ∧ point ≤ 16 then positional text point else scientific text point

end Number

namespace Json

/-! ## Compact text

Every writer takes the text that follows, so that a text is built from its end.
-/

mutual

/-- The compact text of a value, with what follows it. -/
def write : Json → List Char → List Char
  | null, rest => "null".toList ++ rest
  | bool value, rest => (if value then "true" else "false").toList ++ rest
  | number value, rest => value.write ++ rest
  | string text, rest => quote text.toList ++ rest
  | array items, rest => '[' :: writeItems items (']' :: rest)
  | object members, rest => '{' :: writeMembers members ('}' :: rest)
  | valueless, rest => "null".toList ++ rest

/-- The items of an array, separated by commas. -/
def writeItems : List Json → List Char → List Char
  | [], rest => rest
  | item :: items, rest => write item (writeMoreItems items rest)

/-- Further items of an array, each after a comma. -/
def writeMoreItems : List Json → List Char → List Char
  | [], rest => rest
  | item :: items, rest => ',' :: write item (writeMoreItems items rest)

/-- The members of an object, separated by commas. -/
def writeMembers : List (String × Json) → List Char → List Char
  | [], rest => rest
  | member :: members, rest => writeMember member (writeMoreMembers members rest)

/-- Further members of an object, each after a comma. -/
def writeMoreMembers : List (String × Json) → List Char → List Char
  | [], rest => rest
  | member :: members, rest => ',' :: writeMember member (writeMoreMembers members rest)

/-- The name and the value of a member. -/
def writeMember : String × Json → List Char → List Char
  | (name, value), rest => quote name.toList ++ ':' :: write value rest

end

/-! ## Pretty text -/

/-- A new line within `depth` containers. -/
def newLine (depth : Nat) : List Char :=
  '\n' :: List.replicate (2 * depth) ' '

mutual

/-- The pretty text of a value within `depth` containers, with what follows it. -/
def writePretty (depth : Nat) : Json → List Char → List Char
  | null, rest => "null".toList ++ rest
  | bool value, rest => (if value then "true" else "false").toList ++ rest
  | number value, rest => value.write ++ rest
  | string text, rest => quote text.toList ++ rest
  | array [], rest => '[' :: ']' :: rest
  | array (item :: items), rest =>
    '[' :: (newLine (depth + 1) ++ writePretty (depth + 1) item
      (writePrettyItems (depth + 1) items (newLine depth ++ ']' :: rest)))
  | object [], rest => '{' :: '}' :: rest
  | object (member :: members), rest =>
    '{' :: (newLine (depth + 1) ++ writePrettyMember (depth + 1) member
      (writePrettyMembers (depth + 1) members (newLine depth ++ '}' :: rest)))
  | valueless, rest => "null".toList ++ rest

/-- Further items of an array, each after a comma and on a line of its own. -/
def writePrettyItems (depth : Nat) : List Json → List Char → List Char
  | [], rest => rest
  | item :: items, rest =>
    ',' :: (newLine depth ++ writePretty depth item (writePrettyItems depth items rest))

/-- Further members of an object, each after a comma and on a line of its own. -/
def writePrettyMembers (depth : Nat) : List (String × Json) → List Char → List Char
  | [], rest => rest
  | member :: members, rest =>
    ',' :: (newLine depth ++ writePrettyMember depth member (writePrettyMembers depth members rest))

/-- The name and the value of a member, with a space after the colon. -/
def writePrettyMember (depth : Nat) : String × Json → List Char → List Char
  | (name, value), rest => quote name.toList ++ ':' :: ' ' :: writePretty depth value rest

end

/-- The compact text of a value. -/
def compact (value : Json) : String :=
  String.ofList (value.write [])

/-- The pretty text of a value. -/
def pretty (value : Json) : String :=
  String.ofList (value.writePretty 0 [])

end Json

end RailsReview
