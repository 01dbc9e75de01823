import RailsReview.CommandLine.Output
import RailsReview.Proofs.JsonLayout

/-!
# Reading back written reports

A report that is written as JSON is read back as it was: the same violations in the same order,
each with all its fields, and the same two counters.  This holds of the compact text and of the
pretty one that the command line prints, so who reads the output of a check sees all of it.

The two optional fields of a violation are written in two ways.  A missing suggestion is a `null`,
and a missing reference leaves no member behind; the reader takes either sign for a missing field.

The texts and their blanks are the matter of `Proofs.JsonLayout`.  What is left here is that the
record of a report is plain, and that the report is what the record stands for, record by record.

* `Report.Fits`: all numbers of a report fit a word.
* `Violation.ofJson?_toJson`: the record of a violation, whichever fields it has.
* `Report.plain_toJson`, `Report.ofJson?_toJson`: the record of a report.
* `Report.parse?_write_and_render`: the two texts of a report.
-/

namespace RailsReview

open Json (Plain)

/-! ## Locations -/

namespace Location

/-- The line and the column fit a word. -/
def Fits (location : Location) : Prop :=
  location.line < Number.wordSize ∧ location.column < Number.wordSize

instance (location : Location) : Decidable location.Fits :=
  inferInstanceAs (Decidable (_ ∧ _))

theorem plain_toJson {location : Location} (h : location.Fits) : Plain location.toJson := by
  refine .object fun member hmember => ?_
  simp only [List.mem_cons, List.not_mem_nil, or_false] at hmember
  rcases hmember with rfl | rfl | rfl
  · exact .string _
  · exact Json.plain_count h.1
  · exact Json.plain_count h.2

theorem ofJson?_toJson {location : Location} (h : location.Fits) :
    ofJson? location.toJson = some location := by
  have hfields : ofJson? location.toJson =
      (Json.count location.line).count?.bind fun line =>
        (Json.count location.column).count?.bind fun column =>
          some { file := location.file, line, column } := rfl
  rw [hfields, Json.count?_count h.1, Json.count?_count h.2]
  rfl

end Location

/-! ## Violations -/

namespace Violation

theorem plain_suggestion (suggestion : Option String) :
    Plain (.ofOption (suggestion.map fun text => .object [("message", .string text)])) := by
  cases suggestion with
  | none => exact .null
  | some text =>
    refine .object fun member hmember => ?_
    obtain rfl := List.mem_singleton.mp hmember
    exact .string text

theorem plain_toJson {violation : Violation} (h : violation.location.Fits) :
    Plain violation.toJson := by
  obtain ⟨code, rule, severity, location, message, suggestion, reference⟩ := violation
  refine .object fun member hmember => ?_
  rcases List.mem_append.mp hmember with hmember | hmember
  · simp only [List.mem_cons, List.not_mem_nil, or_false] at hmember
    rcases hmember with rfl | rfl | rfl | rfl | rfl | rfl
    · exact .string code
    · exact .string rule
    · exact .string severity.name
    · exact Location.plain_toJson h
    · exact .string message
    · exact plain_suggestion suggestion
  · cases reference with
    | none => exact absurd hmember List.not_mem_nil
    | some reference =>
      obtain rfl := List.mem_singleton.mp hmember
      exact .string reference

/-- The record of a violation stands for the violation, whichever of the two optional fields it
has. -/
theorem ofJson?_toJson {violation : Violation} (h : violation.location.Fits) :
    ofJson? violation.toJson = some violation := by
  obtain ⟨code, rule, severity, location, message, suggestion, reference⟩ := violation
  have hfields : ofJson? (toJson { code, rule, severity, location, message, suggestion, reference }) =
      (Severity.ofName? severity.name).bind fun severity =>
        (Location.ofJson? location.toJson).bind fun location =>
          some { code, rule, severity, location, message, suggestion, reference } := by
    cases suggestion <;> cases reference <;> rfl
  rw [hfields, Severity.ofName?_name, Location.ofJson?_toJson h]
  rfl

end Violation

/-! ## Reports -/

namespace Report

/-- All numbers of a report fit a word. -/
structure Fits (report : Report) : Prop where
  location : ∀ violation ∈ report.violations, violation.location.Fits
  filesChecked : report.filesChecked < Number.wordSize
  filesSkipped : report.filesSkipped < Number.wordSize

theorem plain_toJson {report : Report} (h : report.Fits) : Plain report.toJson := by
  refine .object fun member hmember => ?_
  simp only [List.mem_cons, List.not_mem_nil, or_false] at hmember
  rcases hmember with rfl | rfl | rfl
  · refine .array (List.forall_mem_map.mpr fun violation hviolation => ?_)
    exact Violation.plain_toJson (h.location violation hviolation)
  · exact Json.plain_count h.filesChecked
  · exact Json.plain_count h.filesSkipped

/-- The records of violations stand for them, one by one and in order. -/
theorem mapM_ofJson?_toJson {violations : List Violation}
    (h : ∀ violation ∈ violations, violation.location.Fits) :
    (violations.map Violation.toJson).mapM Violation.ofJson? = some violations := by
  induction violations with
  | nil => rfl
  | cons violation violations ih =>
    rw [List.forall_mem_cons] at h
    rw [List.map_cons, List.mapM_cons, Violation.ofJson?_toJson h.1, ih h.2]
    rfl

/-- The record of a report stands for the report. -/
theorem ofJson?_toJson {report : Report} (h : report.Fits) : ofJson? report.toJson = some report := by
  have hfields : ofJson? report.toJson =
      ((report.violations.map Violation.toJson).mapM Violation.ofJson?).bind fun violations =>
        (Json.count report.filesChecked).count?.bind fun filesChecked =>
          (Json.count report.filesSkipped).count?.bind fun filesSkipped =>
            some { violations, filesChecked, filesSkipped } := rfl
  rw [hfields, mapM_ofJson?_toJson h.location, Json.count?_count h.filesChecked,
    Json.count?_count h.filesSkipped]
  rfl

/-- **A report in JSON is read back as it was,** from its compact text and from what the command
line prints. -/
theorem parse?_write_and_render {report : Report} (h : report.Fits) :
    parse? report.write = some report ∧
      parse? (CommandLine.render report .json) = some report := by
  have hplain := plain_toJson h
  have hrecord := ofJson?_toJson h
  have hnewLine : Json.IsBlank "\n".toList := Json.isBlank_newLine 0
  constructor
  · rw [parse?, write, Json.read?_compact hplain, Option.bind_some, hrecord]
  · have hrender : CommandLine.render report .json = report.toJson.pretty ++ "\n" := rfl
    rw [parse?, hrender, Json.read?_pretty_append hplain hnewLine, Option.bind_some, hrecord]

/-- Two violations with one optional field each, with texts and numbers at the ends of their
ranges. -/
def mixedSample : Report where
  violations :=
    [{ code := "DL\"001\"", rule := "law-of-demeter", severity := .warning,
       location := ⟨⟨"app/views/_é\t\\.erb"⟩, 18446744073709551615, 0⟩, message := "line\nbreak\x01",
       suggestion := some "Delegate \x7f 😀" },
     { code := "", rule := "", severity := .info, location := ⟨⟨""⟩, 0, 18446744073709551615⟩,
       message := "", reference := some "http://example.com/?a=/" }]
  filesChecked := 18446744073709551615
  filesSkipped := 3

theorem parse?_write_and_render_mixedSample :
    mixedSample.Fits ∧ parse? mixedSample.write = some mixedSample ∧
      parse? (CommandLine.render mixedSample .json) = some mixedSample := by
  have h : mixedSample.Fits := ⟨by decide, by decide, by decide⟩
  exact ⟨h, parse?_write_and_render h⟩

end Report

end RailsReview
