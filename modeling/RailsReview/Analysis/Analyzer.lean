import RailsReview.Config.Basic
import RailsReview.FileTree
import RailsReview.Finding.Report
import RailsReview.Glob
import RailsReview.Rule.Basic
import RailsReview.Text.Suffix
import RailsReview.Tree.Document

/-!
# Analyzers

An analyzer reviews the tree documents below a root with a list of rules, as a configuration says:
rules can be switched off and given another severity, and patterns over the path below the root say
which documents are left out.

`AnalyzerBuilder` collects the parts.  The patterns of the builder stand before those of the
configuration; where neither has a pattern of what to leave out, the default ones apply.

The documents are reviewed one by one, and `Outcome` is what becomes of each.  A document that is no
tree is skipped, or ends the analysis if that is asked for; one that cannot be read ends it.
-/

namespace RailsReview

/-- Why there is no report. -/
inductive AnalysisError where
  | unreadable (cause : ReadError)
  | notATree (path : Path)
  | pattern (fault : Glob.Fault)
  deriving DecidableEq, Repr

namespace AnalysisError

/-- The error in words. -/
def message : AnalysisError → String
  | unreadable cause => "IO error: " ++ cause.message
  | notATree path => "Parse error in " ++ path.text ++ ": "
  | pattern fault => "Invalid glob pattern: " ++ fault.message

/-- What led to the error, if that is an error itself. -/
def cause? : AnalysisError → Option String
  | unreadable cause => some cause.message
  | notATree _ => none
  | pattern fault => some fault.message

end AnalysisError

/-- A review of the documents below a root. -/
structure Analyzer where
  root : Path
  rules : List Rule
  excludes : List Glob
  includes : List Glob
  config : Config
  /-- Whether a document that is no tree ends the analysis. -/
  strict : Bool

/-- The parts of an analyzer. -/
structure AnalyzerBuilder where
  root : Option Path := none
  rules : List Rule := []
  excludes : List String := []
  includes : List String := []
  config : Option Config := none
  strict : Bool := false

namespace AnalyzerBuilder

/-- The root: the one that was given, or the configured one, or the current directory. -/
def rootPath (builder : AnalyzerBuilder) : Path :=
  (builder.root.orElse fun _ => builder.config.map (·.analyzer.root)).getD ⟨"."⟩

/-- The patterns of what is left out. -/
def excludePatterns (builder : AnalyzerBuilder) : List String :=
  let patterns := builder.excludes ++ (builder.config.map (·.analyzer.excludes)).getD []
  if patterns.isEmpty then defaultExcludes else patterns

/-- The patterns of what is reviewed. -/
def includePatterns (builder : AnalyzerBuilder) : List String :=
  builder.includes ++ (builder.config.map (·.analyzer.includes)).getD []

/-- The patterns that texts are, or the fault of the first one that is none. -/
def compile (patterns : List String) : Except AnalysisError (List Glob) :=
  patterns.mapM fun text => (Glob.parse text).mapError .pattern

/-- The analyzer; a relative root starts in the current directory. -/
def build (builder : AnalyzerBuilder) (currentDirectory : Path) :
    Except AnalysisError Analyzer := do
  let excludes ← compile builder.excludePatterns
  let includes ← compile builder.includePatterns
  return {
    root := currentDirectory.join builder.rootPath
    rules := builder.rules
    excludes
    includes
    config := builder.config.getD {}
    strict := builder.strict }

end AnalyzerBuilder

/-- What becomes of a document. -/
inductive Outcome where
  | reviewed (violations : List Violation)
  /-- The document at a path is no tree. -/
  | rejected (path : Path)
  | unreadable (cause : ReadError)
  deriving DecidableEq, Repr

namespace Analyzer

/-! ## Documents -/

/-- The end of the file name of a document. -/
def documentSuffix : String := ".ast.json"

/-- Whether a document is left out: by a pattern, or because it fits none of those that say what is
reviewed. -/
def shouldExclude (analyzer : Analyzer) (path : Path) : Bool :=
  let relative := (path.relativeTo analyzer.root).text
  analyzer.excludes.any (·.accepts relative) ||
    (!analyzer.includes.isEmpty && !analyzer.includes.any (·.accepts relative))

/-- The source path of a document that does not name one: its own path below the root, without the
end that makes it a document. -/
def sourcePath (analyzer : Analyzer) (documentPath : Path) : Path :=
  let relative := documentPath.relativeTo analyzer.root
  ⟨(Text.stripSuffix? relative.text documentSuffix).getD relative.text⟩

/-! ## Reviewing -/

/-- The rules that are switched on. -/
def enabledRules (analyzer : Analyzer) : List Rule :=
  analyzer.rules.filter fun rule => analyzer.config.isEnabled rule.name

/-- The violation with the severity that is set for its rule. -/
def adjust (config : Config) (violation : Violation) : Violation :=
  match config.severityOf? violation.rule with
  | some severity => { violation with severity }
  | none => violation

section

variable (config : Config) (violation : Violation)

/-- Only the severity is adjusted. -/
theorem adjust_eq : adjust config violation =
    { violation with
      severity := (config.severityOf? violation.rule).getD violation.severity } := by
  unfold adjust
  cases config.severityOf? violation.rule <;> rfl

@[simp] theorem adjust_code : (adjust config violation).code = violation.code := by
  rw [adjust_eq]

@[simp] theorem adjust_rule : (adjust config violation).rule = violation.rule := by
  rw [adjust_eq]

@[simp] theorem adjust_severity : (adjust config violation).severity =
    (config.severityOf? violation.rule).getD violation.severity := by
  rw [adjust_eq]

@[simp] theorem adjust_location : (adjust config violation).location = violation.location := by
  rw [adjust_eq]

@[simp] theorem adjust_message : (adjust config violation).message = violation.message := by
  rw [adjust_eq]

@[simp] theorem adjust_suggestion :
    (adjust config violation).suggestion = violation.suggestion := by
  rw [adjust_eq]

@[simp] theorem adjust_reference : (adjust config violation).reference = violation.reference := by
  rw [adjust_eq]

end

/-- The violations in the tree of a source file. -/
def reviewSource (analyzer : Analyzer) (path : Path) (root : Node) : List Violation :=
  (review (.locate path analyzer.root) root analyzer.enabledRules).map (adjust analyzer.config)

/-- The violations in a document. -/
def reviewDocument (analyzer : Analyzer) (documentPath : Path) (document : Document) :
    List Violation :=
  analyzer.reviewSource (document.path.getD (analyzer.sourcePath documentPath)) document.root

/-- What becomes of a document with a content. -/
def outcome (analyzer : Analyzer) (path : Path) (content : Except ReadError String) : Outcome :=
  match content with
  | .error cause => .unreadable cause
  | .ok text =>
    match Document.parse? text with
    | some document => .reviewed (analyzer.reviewDocument path document)
    | none => .rejected path

/-! ## Reports -/

/-- The report after one more outcome. -/
def collect (strict : Bool) (report : Report) : Outcome → Except AnalysisError Report
  | .reviewed violations =>
    .ok { report with
      violations := report.violations ++ violations
      filesChecked := report.filesChecked + 1 }
  | .rejected path =>
    if strict then .error (.notATree path)
    else .ok { report with filesSkipped := report.filesSkipped + 1 }
  | .unreadable cause => .error (.unreadable cause)

/-- The report of all outcomes, in order. -/
def summarize (strict : Bool) (outcomes : List Outcome) : Except AnalysisError Report :=
  (outcomes.foldlM (collect strict) {}).map Report.sort

end Analyzer

end RailsReview
