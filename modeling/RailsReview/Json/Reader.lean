import RailsReview.Json.Text
import RailsReview.Json.Value

/-!
# Reading JSON

`Json.read?` accepts the texts of the JSON grammar and nothing else: blanks are spaces, tabs and
line ends, numbers have no leading zeros, and nothing but blanks follows the value.  Strings and
numbers without a value are accepted as `Json.valueless`.

The readers take a list of characters and give back what they did not use.  Those of nested values
carry a bound on the number of calls; each call uses a character or hands its text to a call that
does, so twice the length of the text is enough.
-/

namespace RailsReview.Json

/-- Whether a character may stand between the parts of a JSON text. -/
def isSpace (c : Char) : Bool :=
  c == ' ' || c == '\t' || c == '\n' || c == '\r'

/-- The text after the blanks at its start. -/
def skipSpace (text : List Char) : List Char :=
  text.dropWhile isSpace

/-! ## Numbers -/

/-- The digits at the start of a text, at least one, and what follows them. -/
def readDigits (text : List Char) : Option (List Char × List Char) :=
  let digits := text.takeWhile Char.isDigit
  if digits.isEmpty then none else some (digits, text.dropWhile Char.isDigit)

/-- The digits before the fraction: a zero, or digits that do not start with one. -/
def readWhole (text : List Char) : Option (List Char × List Char) :=
  match readDigits text with
  | some ('0' :: _ :: _, _) => none
  | result => result

/-- The digits of a fraction, none if there is no fraction. -/
def readFraction : List Char → Option (List Char × List Char)
  | '.' :: rest => readDigits rest
  | rest => some ([], rest)

/-- The exponent, nothing if there is none. -/
def readExponent : List Char → Option (Option Int × List Char)
  | c :: rest =>
    if c = 'e' ∨ c = 'E' then
      let (negative, digits) : Bool × List Char :=
        match rest with
        | '-' :: rest => (true, rest)
        | '+' :: rest => (false, rest)
        | rest => (false, rest)
      (readDigits digits).map fun (digits, rest) =>
        let size : Int := Nat.ofDigitChars 10 digits 0
        (some (if negative then -size else size), rest)
    else some (none, c :: rest)
  | [] => some (none, [])

/-- A number without its sign. -/
def readUnsigned (negative : Bool) (text : List Char) : Option (Number × List Char) :=
  match readWhole text with
  | none => none
  | some (whole, rest) =>
    match readFraction rest with
    | none => none
    | some (fraction, rest) =>
      match readExponent rest with
      | none => none
      | some (none, rest) =>
        if fraction.isEmpty then some (.integer negative (Nat.ofDigitChars 10 whole 0), rest)
        else some (.decimal negative (Nat.ofDigitChars 10 (whole ++ fraction) 0)
          (-(fraction.length : Int)), rest)
      | some (some exponent, rest) =>
        some (.decimal negative (Nat.ofDigitChars 10 (whole ++ fraction) 0)
          (exponent - fraction.length), rest)

/-- A number. -/
def readNumber : List Char → Option (Number × List Char)
  | '-' :: rest => readUnsigned true rest
  | rest => readUnsigned false rest

/-- The value of a number, if it is in range. -/
def ofNumber (value : Number) : Json :=
  if value.isOutOfRange then valueless else number value

/-! ## Values -/

/-- The text of a string after its opening quote, if it has one, and what follows the string. -/
def readText (text : List Char) : Option (Option String × List Char) :=
  (readUnits text).map fun (units, rest) => ((textOfUnits? units).map String.ofList, rest)

/-- An object with these members, if all their names are texts. -/
def ofMembers (members : List (Option String × Json)) : Json :=
  match members.mapM fun (name, value) => name.map (·, value) with
  | some members => object members
  | none => valueless

mutual

/-- A value, after blanks. -/
def readValue : Nat → List Char → Option (Json × List Char)
  | 0, _ => none
  | fuel + 1, text =>
    match skipSpace text with
    | 'n' :: 'u' :: 'l' :: 'l' :: rest => some (null, rest)
    | 't' :: 'r' :: 'u' :: 'e' :: rest => some (bool true, rest)
    | 'f' :: 'a' :: 'l' :: 's' :: 'e' :: rest => some (bool false, rest)
    | '"' :: rest =>
      (readText rest).map fun (text?, rest) => ((text?.map string).getD valueless, rest)
    | '[' :: rest =>
      match skipSpace rest with
      | ']' :: rest => some (array [], rest)
      | rest => (readItems fuel rest).map fun (items, rest) => (array items, rest)
    | '{' :: rest =>
      match skipSpace rest with
      | '}' :: rest => some (object [], rest)
      | rest => (readMembers fuel rest).map fun (members, rest) => (ofMembers members, rest)
    | rest => (readNumber rest).map fun (value, rest) => (ofNumber value, rest)

/-- The items of an array, at least one, up to its closing bracket. -/
def readItems : Nat → List Char → Option (List Json × List Char)
  | 0, _ => none
  | fuel + 1, text =>
    match readValue fuel text with
    | none => none
    | some (item, rest) =>
      match skipSpace rest with
      | ']' :: rest => some ([item], rest)
      | ',' :: rest => (readItems fuel rest).map fun (items, rest) => (item :: items, rest)
      | _ => none

/-- The members of an object, at least one, up to its closing brace. -/
def readMembers : Nat → List Char → Option (List (Option String × Json) × List Char)
  | 0, _ => none
  | fuel + 1, text =>
    match skipSpace text with
    | '"' :: rest =>
      match readText rest with
      | none => none
      | some (name, rest) =>
        match skipSpace rest with
        | ':' :: rest =>
          match readValue fuel rest with
          | none => none
          | some (value, rest) =>
            match skipSpace rest with
            | '}' :: rest => some ([(name, value)], rest)
            | ',' :: rest =>
              (readMembers fuel rest).map fun (members, rest) => ((name, value) :: members, rest)
            | _ => none
        | _ => none
    | _ => none

end

/-- The value that a list of characters stands for. -/
def readChars? (text : List Char) : Option Json :=
  match readValue (2 * text.length + 2) text with
  | some (value, rest) => if (skipSpace rest).isEmpty then some value else none
  | none => none

/-- The value that a text stands for. -/
def read? (text : String) : Option Json :=
  readChars? text.toList

end RailsReview.Json
