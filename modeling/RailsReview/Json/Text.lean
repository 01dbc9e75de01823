import RailsReview.Text.Hex

/-!
# JSON strings

The text between the quotes of a JSON string.  It is a list of units: plain characters, and code
units written as four hexadecimal digits.  A code unit from the surrogate range has a meaning only
next to its partner, so a string is first cut into units (`readUnits`) and then given its text
(`textOfUnits?`), which fails if half of a pair stands alone.

`escape` is the writing side: quotes, backslashes and control characters are escaped, and every
other character stands for itself.
-/

namespace RailsReview.Json

/-! ## Reading -/

/-- A unit of a string. -/
inductive TextUnit where
  | char (c : Char)
  | code (value : Nat)
  deriving DecidableEq, Repr

/-- The character that a short escape stands for. -/
def shortEscape? : Char → Option Char
  | '"' => some '"'
  | '\\' => some '\\'
  | '/' => some '/'
  | 'b' => some '\x08'
  | 'f' => some '\x0c'
  | 'n' => some '\n'
  | 'r' => some '\r'
  | 't' => some '\t'
  | _ => none

/-- The units up to the closing quote, and what follows it.  Control characters do not stand for
themselves. -/
def readUnits : List Char → Option (List TextUnit × List Char)
  | [] => none
  | '"' :: rest => some ([], rest)
  | '\\' :: 'u' :: a :: b :: c :: d :: rest =>
    match Text.hexValue? [a, b, c, d], readUnits rest with
    | some value, some (units, rest) => some (.code value :: units, rest)
    | _, _ => none
  | '\\' :: c :: rest =>
    match shortEscape? c, readUnits rest with
    | some c, some (units, rest) => some (.char c :: units, rest)
    | _, _ => none
  | c :: rest =>
    if c.toNat < 0x20 ∨ c = '\\' then none
    else match readUnits rest with
      | some (units, rest) => some (.char c :: units, rest)
      | none => none

/-- The text that units stand for: a high surrogate is followed by a low one, and the two are one
character. -/
def textOfUnits? : List TextUnit → Option (List Char)
  | [] => some []
  | .char c :: units => (textOfUnits? units).map (c :: ·)
  | .code high :: units =>
    if high < 0xD800 ∨ 0xE000 ≤ high then (textOfUnits? units).map (Char.ofNat high :: ·)
    else if 0xDC00 ≤ high then none
    else match units with
      | .code low :: units =>
        if 0xDC00 ≤ low ∧ low < 0xE000 then
          (textOfUnits? units).map
            (Char.ofNat ((high - 0xD800) * 0x400 + (low - 0xDC00) + 0x10000) :: ·)
        else none
      | _ => none

/-! ## Writing -/

/-- The characters that stand for one character in a written string. -/
def escapeChar (c : Char) : List Char :=
  if c = '"' then ['\\', '"']
  else if c = '\\' then ['\\', '\\']
  else if c = '\x08' then ['\\', 'b']
  else if c = '\x0c' then ['\\', 'f']
  else if c = '\n' then ['\\', 'n']
  else if c = '\r' then ['\\', 'r']
  else if c = '\t' then ['\\', 't']
  else if c.toNat < 0x20 then
    ['\\', 'u', '0', '0', Nat.digitChar (c.toNat / 16), Nat.digitChar (c.toNat % 16)]
  else [c]

/-- The text of a string, escaped. -/
def escape (text : List Char) : List Char :=
  text.flatMap escapeChar

/-- A string between quotes. -/
def quote (text : List Char) : List Char :=
  '"' :: (escape text ++ ['"'])

end RailsReview.Json
