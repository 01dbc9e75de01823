import RailsReview.Toml.Value

/-!
# Dates and times in TOML

A date, a time or both, and both with an offset from universal time.  Each has a normal form: a `T`
between date and time, a fraction of a second without zeros at its end, and an offset that is `Z` or
hours and minutes.

Such a moment is met in two places (`MomentLimits`): written as a scalar, or as the text in a table
that shows it, whose first key is `momentKey`.  Where a value is kept as it is, tables of that kind
are read back as the moments that they show (`Value.reveal?`).
-/

namespace RailsReview.Toml

/-- How far the parts of a time may go. -/
structure MomentLimits where
  lastHour : Nat
  lastOffsetHour : Nat
  lastOffsetMinute : Nat
  deriving DecidableEq, Repr

namespace MomentLimits

/-- The limits of a moment that is written as a scalar. -/
def written : MomentLimits := ⟨23, 23, 59⟩

/-- The limits of a moment that a table shows: a day may end with hour 24, and an offset goes up to
a whole day, however it is divided into hours and minutes. -/
def shown : MomentLimits := ⟨24, 24, 99⟩

end MomentLimits

/-! ## Dates -/

/-- The number that a text of exactly `count` digits is, if it lies within bounds. -/
def field? (count low high : Nat) (text : List Char) : Option Nat :=
  if text.length = count ∧ text.all Char.isDigit then
    let value := Nat.ofDigitChars 10 text 0
    if low ≤ value ∧ value ≤ high then some value else none
  else none

/-- The number of days of a month. -/
def daysInMonth (year month : Nat) : Nat :=
  if month = 2 then
    if year % 4 = 0 ∧ (year % 100 ≠ 0 ∨ year % 400 = 0) then 29 else 28
  else if month = 4 ∨ month = 6 ∨ month = 9 ∨ month = 11 then 30
  else 31

/-- Whether a text is a date. -/
def isDate (text : List Char) : Bool :=
  match text.splitOn '-' with
  | [year, month, day] =>
    match field? 4 0 9999 year, field? 2 1 12 month with
    | some year, some month => (field? 2 1 (daysInMonth year month) day).isSome
    | _, _ => false
  | _ => false

/-! ## Times -/

/-- A fraction of a second in normal form: at most nine digits, without zeros at the end. -/
def normalFraction (digits : List Char) : List Char :=
  let kept := ((digits.take 9).reverse.dropWhile (· == '0')).reverse
  if kept.isEmpty then [] else '.' :: kept

/-- The normal form of a time. -/
def time? (limits : MomentLimits) (text : List Char) : Option (List Char) :=
  let whole := text.takeWhile (· != '.')
  let fraction := text.dropWhile (· != '.')
  match whole.splitOn ':' with
  | [hour, minute, second] =>
    if (field? 2 0 limits.lastHour hour).isSome ∧ (field? 2 0 59 minute).isSome ∧
        (field? 2 0 60 second).isSome then
      match fraction with
      | [] => some whole
      | _ :: digits =>
        if digits.isEmpty ∨ !digits.all Char.isDigit then none
        else some (whole ++ normalFraction digits)
    else none
  | _ => none

/-- Two digits of a number below a hundred. -/
def twoDigits (n : Nat) : List Char :=
  [Nat.digitChar (n / 10), Nat.digitChar (n % 10)]

/-- An offset of some minutes in normal form; no offset at all has a plus. -/
def normalOffset (sign : Char) (minutes : Nat) : List Char :=
  (if minutes = 0 then '+' else sign) :: twoDigits (minutes / 60) ++ ':' :: twoDigits (minutes % 60)

/-- The normal form of an offset from universal time, which is no more than a day. -/
def offset? (limits : MomentLimits) : List Char → Option (List Char)
  | ['Z'] | ['z'] => some ['Z']
  | sign :: rest =>
    if sign = '+' ∨ sign = '-' then
      match rest.splitOn ':' with
      | [hour, minute] =>
        match field? 2 0 limits.lastOffsetHour hour, field? 2 0 limits.lastOffsetMinute minute with
        | some hours, some minutes =>
          let total := 60 * hours + minutes
          if total ≤ 24 * 60 then some (normalOffset sign total) else none
        | _, _ => none
      | _ => none
    else none
  | [] => none

/-- The normal form of a time with an optional offset. -/
def timeAndOffset? (limits : MomentLimits) (text : List Char) : Option (List Char) :=
  let isOffset (c : Char) : Bool := c == 'Z' || c == 'z' || c == '+' || c == '-'
  match text.dropWhile (!isOffset ·) with
  | [] => time? limits text
  | offset =>
    match time? limits (text.takeWhile (!isOffset ·)), offset? limits offset with
    | some time, some offset => some (time ++ offset)
    | _, _ => none

/-! ## Moments -/

/-- The normal form of a date, a time or both. -/
def moment? (limits : MomentLimits) (text : List Char) : Option (List Char) :=
  if isDate (text.take 10) then
    match text.drop 10 with
    | [] => some text
    | separator :: rest =>
      if separator = 'T' ∨ separator = 't' ∨ separator = ' ' then
        (timeAndOffset? limits rest).map (text.take 10 ++ 'T' :: ·)
      else none
  else time? limits text

namespace Value

/-- Whether a table is meant to show a moment: its first key says so. -/
def isShownMoment : List (String × Value) → Bool
  | (key, _) :: _ => key == momentKey
  | [] => false

/-- The moment that a table shows.  It holds the text of the moment and nothing else. -/
def shownMoment? : List (String × Value) → Option Value
  | [(_, text shown)] =>
    (moment? .shown shown.toList).map fun normalForm => moment (.ofList normalForm)
  | _ => none

mutual

/-- The value with each table that is meant to show a moment replaced by that moment. -/
def reveal? : Value → Option Value
  | array items => (revealItems? items).map array
  | table entries =>
    if isShownMoment entries then shownMoment? entries
    else (revealEntries? entries).map table
  | value => some value

/-- Items, each with the moments that it shows. -/
def revealItems? : List Value → Option (List Value)
  | [] => some []
  | item :: items => do return (← reveal? item) :: (← revealItems? items)

/-- Entries, each with the moments that its value shows. -/
def revealEntries? : List (String × Value) → Option (List (String × Value))
  | [] => some []
  | entry :: entries => do return (← revealEntry? entry) :: (← revealEntries? entries)

/-- An entry with the moments that its value shows. -/
def revealEntry? : String × Value → Option (String × Value)
  | (key, value) => do return (key, ← reveal? value)

end

end Value

end RailsReview.Toml
