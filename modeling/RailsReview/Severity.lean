/-!
# Severity

How serious a finding is.  Severities are ordered, and a run fails when a finding reaches the
threshold it was given.
-/

namespace RailsReview

/-- How serious a finding is. -/
inductive Severity where
  | info
  | warning
  | error
  deriving DecidableEq, Repr, Inhabited

namespace Severity

/-- The name of a severity. -/
def name : Severity → String
  | info => "info"
  | warning => "warning"
  | error => "error"

/-- The severity with a name. -/
def ofName? (name : String) : Option Severity :=
  if name = "error" then some error
  else if name = "warning" then some warning
  else if name = "info" then some info
  else none

/-- The place of a severity in the order, the least serious first. -/
def rank : Severity → Nat
  | info => 0
  | warning => 1
  | error => 2

/-- Whether a severity reaches a threshold. -/
def reaches (severity threshold : Severity) : Bool :=
  threshold.rank ≤ severity.rank

/-- Every severity is read back from its name. -/
@[simp] theorem ofName?_name (severity : Severity) : ofName? severity.name = some severity := by
  cases severity <;> decide

end Severity

end RailsReview
