import RailsReview.Path.Basic
import RailsReview.Severity

/-!
# Violations

What a rule finds: where, how serious, and what to do about it.  A violation has three texts: a block
of lines for a terminal (`describe`), a line (`summary`), and the line without the reference to its
documentation (`Violation.line`).

Violations are ordered by their files, compared component by component, then by line, column and
code.
-/

namespace RailsReview

/-- A place in a file. -/
structure Location where
  file : Path
  line : Nat
  column : Nat
  deriving DecidableEq, Repr, Inhabited

/-- A finding of a rule. -/
structure Violation where
  /-- The code of the rule. -/
  code : String
  /-- The name of the rule. -/
  rule : String
  severity : Severity
  location : Location
  message : String
  /-- How to mend it. -/
  suggestion : Option String := none
  /-- Where to read about it. -/
  reference : Option String := none
  deriving DecidableEq, Repr, Inhabited

namespace Location

/-- A place as `file:line:column`. -/
def text (location : Location) : String :=
  s!"{location.file.text}:{location.line}:{location.column}"

end Location

namespace Violation

/-- The violation on one line, without its reference. -/
def line (violation : Violation) : String :=
  violation.location.text ++ ": " ++ violation.severity.name ++ " [" ++ violation.code ++ "] " ++
    violation.message

/-- The violation on one line. -/
def summary (violation : Violation) : String :=
  match violation.reference with
  | some reference => violation.line ++ " (see: " ++ reference ++ ")"
  | none => violation.line

/-- The line of a suggestion. -/
def suggestionLine (violation : Violation) : String :=
  match violation.suggestion with
  | some suggestion => "  = help: " ++ suggestion ++ "\n"
  | none => ""

/-- The line of a reference. -/
def referenceLine (violation : Violation) : String :=
  match violation.reference with
  | some reference => "  = see: " ++ reference ++ "\n"
  | none => ""

/-- The violation as a block of lines. -/
def describe (violation : Violation) : String :=
  violation.code ++ " " ++ violation.rule ++ " at " ++ violation.location.text ++ "\n" ++
    "  " ++ violation.severity.name ++ ": " ++ violation.message ++ "\n" ++
    violation.suggestionLine ++ violation.referenceLine

/-! ## Order -/

/-- Violations by file, line, column and code. -/
def compare (a b : Violation) : Ordering :=
  (Path.compare a.location.file b.location.file).then
    ((Ord.compare a.location.line b.location.line).then
      ((Ord.compare a.location.column b.location.column).then (Ord.compare a.code b.code)))

/-- Whether one violation comes before another or is level with it. -/
def le (a b : Violation) : Bool :=
  (a.compare b).isLE

end Violation

end RailsReview
