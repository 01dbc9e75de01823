import RailsReview.Text.Hex

/-!
# TOML text

The lexical parts of a TOML text: blanks, comments and line ends, the four kinds of string, and keys.
Every reader takes a list of characters and gives back what it did not use.

Control characters stand nowhere in a text, apart from tabs and line ends.  A carriage return is part
of a line end and is dropped from strings of several lines.
-/

namespace RailsReview.Toml

/-! ## Blanks, comments and line ends -/

/-- Whether a character is a blank within a line. -/
def isSpace (c : Char) : Bool :=
  c == ' ' || c == '\t'

/-- The text after the blanks at its start. -/
def skipSpace (text : List Char) : List Char :=
  text.dropWhile isSpace

/-- Whether a character may stand for itself in a comment or a string. -/
def isPlain (c : Char) : Bool :=
  c == '\t' || (0x20 ≤ c.toNat && c.toNat != 0x7F)

/-- The text after a line end at its start. -/
def lineEnd? : List Char → Option (List Char)
  | '\n' :: rest => some rest
  | '\r' :: '\n' :: rest => some rest
  | _ => none

/-- The text after a comment at its start, if there is one. -/
def skipComment : List Char → List Char
  | '#' :: rest => rest.dropWhile isPlain
  | text => text

/-- The text after the rest of a line that holds nothing but blanks and a comment. -/
def endOfLine? (text : List Char) : Option (List Char) :=
  match skipComment (skipSpace text) with
  | [] => some []
  | rest => lineEnd? rest

/-- The text after blanks, line ends and commented lines. -/
def skipLines : Nat → List Char → List Char
  | 0, text => text
  | fuel + 1, text =>
    match lineEnd? (skipComment (skipSpace text)) with
    | some rest => skipLines fuel rest
    | none => skipSpace text

/-- The text after blanks and line ends. -/
def skipBlankLines : Nat → List Char → List Char
  | 0, text => text
  | fuel + 1, text =>
    match lineEnd? (skipSpace text) with
    | some rest => skipBlankLines fuel rest
    | none => skipSpace text

/-! ## Escapes -/

/-- The character with the code point that `count` hexadecimal digits at the start of a text give,
and what follows them. -/
def readCodePoint (count : Nat) (text : List Char) : Option (Char × List Char) :=
  let digits := text.take count
  if digits.length < count then none
  else
    match Text.hexValue? digits with
    | some value =>
      if value < 0xD800 ∨ (0xE000 ≤ value ∧ value < 0x110000) then
        some (Char.ofNat value, text.drop count)
      else none
    | none => none

/-- The character that an escape stands for, and what follows it.  The backslash is already
read. -/
def readEscape : List Char → Option (Char × List Char)
  | 'b' :: rest => some ('\x08', rest)
  | 't' :: rest => some ('\t', rest)
  | 'n' :: rest => some ('\n', rest)
  | 'f' :: rest => some ('\x0c', rest)
  | 'r' :: rest => some ('\r', rest)
  | '"' :: rest => some ('"', rest)
  | '\\' :: rest => some ('\\', rest)
  | 'u' :: rest => readCodePoint 4 rest
  | 'U' :: rest => readCodePoint 8 rest
  | _ => none

/-! ## Strings

The readers of strings start behind the opening quotes. -/

/-- A string up to its quote, with escapes. -/
def readBasic : Nat → List Char → Option (List Char × List Char)
  | 0, _ => none
  | _, [] => none
  | fuel + 1, c :: rest =>
    if c = '"' then some ([], rest)
    else if c = '\\' then
      match readEscape rest with
      | some (c, rest) => (readBasic fuel rest).map fun (text, rest) => (c :: text, rest)
      | none => none
    else if isPlain c then (readBasic fuel rest).map fun (text, rest) => (c :: text, rest)
    else none

/-- A string up to its apostrophe, without escapes. -/
def readLiteral : List Char → Option (List Char × List Char)
  | [] => none
  | c :: rest =>
    if c = '\x27' then some ([], rest)
    else if isPlain c then (readLiteral rest).map fun (text, rest) => (c :: text, rest)
    else none

/-- What a run of quotes in a string of several lines means: three close the string, and up to two
more belong to it. -/
def closeQuotes (quote : Char) (text : List Char) : Option (List Char × List Char) :=
  let count := min (text.takeWhile (· == quote)).length 5
  if 3 ≤ count then some (List.replicate (count - 3) quote, text.drop count) else none

/-- A string of several lines up to its quotes, with escapes.  A backslash at the end of a line
joins it with the next text. -/
def readBasicLines : Nat → List Char → Option (List Char × List Char)
  | 0, _ => none
  | _, [] => none
  | fuel + 1, c :: rest =>
    if c = '"' then
      match closeQuotes '"' (c :: rest) with
      | some result => some result
      | none => (readBasicLines fuel rest).map fun (text, rest) => (c :: text, rest)
    else if c = '\\' then
      match lineEnd? (skipSpace rest) with
      | some next => readBasicLines fuel (skipBlankLines next.length next)
      | none =>
        match readEscape rest with
        | some (c, rest) => (readBasicLines fuel rest).map fun (text, rest) => (c :: text, rest)
        | none => none
    else
      match lineEnd? (c :: rest) with
      | some next => (readBasicLines fuel next).map fun (text, rest) => ('\n' :: text, rest)
      | none =>
        if isPlain c then (readBasicLines fuel rest).map fun (text, rest) => (c :: text, rest)
        else none

/-- A string of several lines up to its apostrophes, without escapes. -/
def readLiteralLines : Nat → List Char → Option (List Char × List Char)
  | 0, _ => none
  | _, [] => none
  | fuel + 1, c :: rest =>
    if c = '\x27' then
      match closeQuotes '\x27' (c :: rest) with
      | some result => some result
      | none => (readLiteralLines fuel rest).map fun (text, rest) => (c :: text, rest)
    else
      match lineEnd? (c :: rest) with
      | some next => (readLiteralLines fuel next).map fun (text, rest) => ('\n' :: text, rest)
      | none =>
        if isPlain c then (readLiteralLines fuel rest).map fun (text, rest) => (c :: text, rest)
        else none

/-- The text without a line end at its start. -/
def dropLineEnd (text : List Char) : List Char :=
  (lineEnd? text).getD text

/-- A string of any kind. -/
def readString : List Char → Option (List Char × List Char)
  | '"' :: '"' :: '"' :: rest => readBasicLines (rest.length + 1) (dropLineEnd rest)
  | '\x27' :: '\x27' :: '\x27' :: rest => readLiteralLines (rest.length + 1) (dropLineEnd rest)
  | '"' :: rest => readBasic (rest.length + 1) rest
  | '\x27' :: rest => readLiteral rest
  | _ => none

/-! ## Keys -/

/-- Whether a character may stand in a key without quotes. -/
def isKeyChar (c : Char) : Bool :=
  c.isAlphanum || c == '-' || c == '_'

/-- A single key. -/
def readSimpleKey : List Char → Option (String × List Char)
  | '"' :: rest => (readBasic (rest.length + 1) rest).map fun (key, rest) => (.ofList key, rest)
  | '\x27' :: rest => (readLiteral rest).map fun (key, rest) => (.ofList key, rest)
  | text =>
    let key := text.takeWhile isKeyChar
    if key.isEmpty then none else some (.ofList key, text.dropWhile isKeyChar)

/-- The greatest number of parts of a dotted key. -/
def maxKeyParts : Nat := 79

/-- A key, with its parts between dots, and blanks around each part. -/
def readKeyParts : Nat → List Char → Option (List String × List Char)
  | 0, _ => none
  | fuel + 1, text =>
    match readSimpleKey (skipSpace text) with
    | none => none
    | some (part, rest) =>
      match skipSpace rest with
      | '.' :: rest => (readKeyParts fuel rest).map fun (parts, rest) => (part :: parts, rest)
      | rest => some ([part], rest)

/-- A key: the parts before the last one, and the last one. -/
def readKey (text : List Char) : Option ((List String × String) × List Char) :=
  match readKeyParts maxKeyParts text with
  | some (parts, rest) => (parts.getLast?).map fun last => ((parts.dropLast, last), rest)
  | none => none

end RailsReview.Toml
