import RailsReview.Finding.Violation

/-!
# Reports

The result of a review: the violations found, and how many documents were reviewed and skipped.  A
report can be merged with another, sorted, counted and judged against a threshold.
-/

namespace RailsReview

/-- The result of a review. -/
structure Report where
  violations : List Violation := []
  /-- The number of documents that were reviewed. -/
  filesChecked : Nat := 0
  /-- The number of documents that could not be read as trees. -/
  filesSkipped : Nat := 0
  deriving DecidableEq, Repr, Inhabited

/-- Numbers of errors, warnings and notes. -/
structure Tally where
  errors : Nat
  warnings : Nat
  infos : Nat
  deriving DecidableEq, Repr, Inhabited

namespace Report

/-- The violations that reach a threshold, in order. -/
def reaching (report : Report) (threshold : Severity) : List Violation :=
  report.violations.filter (·.severity.reaches threshold)

/-- Whether a violation reaches a threshold. -/
def failsAt (report : Report) (threshold : Severity) : Bool :=
  report.violations.any (·.severity.reaches threshold)

/-- Whether there is an error. -/
def hasErrors (report : Report) : Bool :=
  report.failsAt .error

/-- The number of violations of a severity. -/
def countOf (report : Report) (severity : Severity) : Nat :=
  report.violations.countP (·.severity == severity)

/-- The numbers of violations by severity. -/
def tally (report : Report) : Tally :=
  { errors := report.countOf .error
    warnings := report.countOf .warning
    infos := report.countOf .info }

/-- The report with its violations in order; those that are level keep their order. -/
def sort (report : Report) : Report :=
  { report with violations := report.violations.mergeSort Violation.le }

/-- Two reports in one. -/
def append (report other : Report) : Report :=
  { violations := report.violations ++ other.violations
    filesChecked := report.filesChecked + other.filesChecked
    filesSkipped := report.filesSkipped + other.filesSkipped }

/-! ## Counts by rule -/

/-- The counts with one more for a rule; they are kept in order of the names. -/
def countRule (rule : String) : List (String × Nat) → List (String × Nat)
  | [] => [(rule, 1)]
  | (name, count) :: counts =>
    if rule = name then (name, count + 1) :: counts
    else if rule < name then (rule, 1) :: (name, count) :: counts
    else (name, count) :: countRule rule counts

/-- The number of violations of each rule, in order of the names. -/
def countByRule (violations : List Violation) : List (String × Nat) :=
  violations.foldl (fun counts violation => countRule violation.rule counts) []

/-! ## Text -/

/-- The report of a failed check: the violations that reach the threshold, and the totals. -/
def describeFailure (report : Report) (threshold : Severity) : String :=
  let failing := report.reaching threshold
  let tally := report.tally
  s!"\n=== demeter-lint: {failing.length} violation(s) ===\n\n" ++
    String.join (failing.map fun violation => violation.describe ++ "\n") ++
    s!"Total: {tally.errors} error(s), {tally.warnings} warning(s), {tally.infos} info(s) in " ++
    s!"{report.filesChecked} file(s)\n" ++
    (if 0 < report.filesSkipped then s!"Skipped {report.filesSkipped} unparsable file(s)\n" else "")

end Report

end RailsReview
