import RailsReview.Finding.Report
import RailsReview.Json.Record
import RailsReview.Json.Reader
import RailsReview.Json.Writer

/-!
# Reports in JSON

A report is a record of its violations and its two counters.  A violation writes `null` for a
missing suggestion, and leaves out a missing reference.
-/

namespace RailsReview

open Json (RecordForm)

namespace Severity

/-- The severity that a value is: its name, or an object with that name as its only member and
`null` as the value. -/
def ofJson? : Json → Option Severity
  | .string text => ofName? text
  | .object [(name, .null)] => ofName? name
  | _ => none

end Severity

namespace Location

/-- The record of a location. -/
def form : RecordForm := ⟨["file", "line", "column"], 3⟩

/-- The location that a value is. -/
def ofJson? (value : Json) : Option Location := do
  let field ← form.fields? value
  let file ← Json.required Json.text? (← field "file")
  let line ← Json.required Json.count? (← field "line")
  let column ← Json.required Json.count? (← field "column")
  return { file := ⟨file⟩, line, column }

/-- The record of a location. -/
def toJson (location : Location) : Json :=
  .object [("file", .string location.file.text), ("line", .count location.line),
    ("column", .count location.column)]

end Location

namespace Violation

/-- The record of a suggestion. -/
def suggestionForm : RecordForm := ⟨["message"], 1⟩

/-- The suggestion that a value is. -/
def suggestionOfJson? (value : Json) : Option String := do
  let field ← suggestionForm.fields? value
  Json.required Json.text? (← field "message")

/-- The record of a violation. -/
def form : RecordForm :=
  ⟨["code", "rule", "severity", "location", "message", "suggestion", "doc_ref"], 6⟩

/-- The violation that a value is. -/
def ofJson? (value : Json) : Option Violation := do
  let field ← form.fields? value
  let code ← Json.required Json.text? (← field "code")
  let rule ← Json.required Json.text? (← field "rule")
  let severity ← Json.required Severity.ofJson? (← field "severity")
  let location ← Json.required Location.ofJson? (← field "location")
  let message ← Json.required Json.text? (← field "message")
  let suggestion ← Json.optional suggestionOfJson? (← field "suggestion")
  let reference ← Json.optional Json.text? (← field "doc_ref")
  return { code, rule, severity, location, message, suggestion, reference }

/-- The record of a violation. -/
def toJson (violation : Violation) : Json :=
  .object ([("code", .string violation.code), ("rule", .string violation.rule),
    ("severity", .string violation.severity.name), ("location", violation.location.toJson),
    ("message", .string violation.message),
    ("suggestion", .ofOption (violation.suggestion.map fun text =>
      .object [("message", .string text)]))] ++
    match violation.reference with
    | none => []
    | some reference => [("doc_ref", .string reference)])

end Violation

namespace Report

/-- The record of a report. -/
def form : RecordForm := ⟨["violations", "files_checked", "files_skipped"], 2⟩

/-- The report that a value is. -/
def ofJson? (value : Json) : Option Report := do
  let field ← form.fields? value
  let items ← Json.required Json.items? (← field "violations")
  let violations ← items.mapM Violation.ofJson?
  let filesChecked ← Json.required Json.count? (← field "files_checked")
  let filesSkipped ← Json.defaulted 0 Json.count? (← field "files_skipped")
  return { violations, filesChecked, filesSkipped }

/-- The report that a text holds. -/
def parse? (text : String) : Option Report :=
  (Json.read? text).bind ofJson?

/-- The record of a report. -/
def toJson (report : Report) : Json :=
  .object [("violations", .array (report.violations.map Violation.toJson)),
    ("files_checked", .count report.filesChecked), ("files_skipped", .count report.filesSkipped)]

/-- The compact text of a report. -/
def write (report : Report) : String :=
  report.toJson.compact

end Report

end RailsReview
