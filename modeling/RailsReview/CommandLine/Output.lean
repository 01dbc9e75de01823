import RailsReview.CommandLine.Arguments
import RailsReview.Finding.Codec
import RailsReview.Rule.Basic

/-!
# Output of the command line

How a report is printed: as text for a reader, as JSON, or with one line for each violation.
-/

namespace RailsReview.CommandLine

/-- The escape sequences that colour a text. -/
def colour (code text : String) : String :=
  "\x1b[" ++ code ++ "m" ++ text ++ "\x1b[0m"

/-- The colour of a severity. -/
def severityColour : Severity → String
  | .error => "31"
  | .warning => "33"
  | .info => "34"

/-- A violation in the text for a reader. -/
def violationText (violation : Violation) : String :=
  violation.location.text ++ " - " ++ violation.message ++ "\n" ++
    "  " ++ colour (severityColour violation.severity) violation.severity.name ++
    " [" ++ violation.code ++ " " ++ violation.rule ++ "]\n" ++
    violation.suggestionLine ++ violation.referenceLine ++ "\n"

/-- A text with spaces in front of it, up to a width. -/
def padLeft (width : Nat) (text : String) : String :=
  String.ofList (List.replicate (width - text.length) ' ') ++ text

/-- A text with spaces behind it, up to a width. -/
def padRight (width : Nat) (text : String) : String :=
  text ++ String.ofList (List.replicate (width - text.length) ' ')

/-- The number of violations of a rule. -/
def countText (count : String × Nat) : String :=
  "  " ++ padLeft 5 (toString count.2) ++ "  " ++ count.1 ++ "\n"

/-- The colour of the totals: that of the worst severity found. -/
def totalsColour (tally : Tally) : String :=
  if 0 < tally.errors then "31" else if 0 < tally.warnings then "33" else "32"

/-- The totals of a report. -/
def totalsText (report : Report) : String :=
  let tally := report.tally
  colour (totalsColour tally)
      ("Found " ++ toString tally.errors ++ " error(s), " ++ toString tally.warnings ++
        " warning(s), " ++ toString tally.infos ++ " info(s) in " ++
        toString report.filesChecked ++ " file(s)") ++ "\n" ++
    if 0 < report.filesSkipped then
      colour "33" ("Skipped " ++ toString report.filesSkipped ++
        " file(s) that failed to parse") ++ "\n"
    else ""

/-- A report as text for a reader. -/
def reportText (report : Report) : String :=
  String.join (report.violations.map violationText) ++
    String.join ((Report.countByRule report.violations).map countText) ++ totalsText report

/-- A report in a format. -/
def render (report : Report) : OutputFormat → String
  | .text => reportText report
  | .json => report.toJson.pretty ++ "\n"
  | .compact => String.join (report.violations.map fun violation => violation.line ++ "\n")

/-- Columns of the list of rules. -/
def ruleLine (code name rest : String) : String :=
  padRight 8 code ++ " " ++ padRight 48 name ++ " " ++ rest ++ "\n"

/-- A rule in the list of rules. -/
def ruleText (rule : Rule) : String :=
  ruleLine rule.code rule.name rule.description ++
    match rule.url with
    | some url => ruleLine "" "" url
    | none => ""

/-- The list of rules. -/
def rulesText (rules : List Rule) : String :=
  "Available rules:\n\n" ++ ruleLine "Code" "Name" "Description" ++
    String.ofList (List.replicate 100 '-') ++ "\n" ++
    String.join (rules.map ruleText) ++
    "\nPresets:\n" ++
    "  recommended  - DL001, DL002 (default)\n" ++
    "  minimal      - DL001 only (for gradual adoption)\n" ++
    "\nUse --rules to filter specific rules, e.g.:\n" ++
    "  demeter-lint check --rules law-of-demeter\n" ++
    "  demeter-lint check --rules DL001,DL002\n"

end RailsReview.CommandLine
