import RailsReview.Path.Basic
import RailsReview.Severity
import RailsReview.Toml.Value

/-!
# Configuration

What a project can set: the preset of rules, the severity at which a check fails, the schema of its
models, which documents are reviewed, and options for each rule.
-/

namespace RailsReview

/-- The settings of a rule. -/
structure RuleSettings where
  enabled : Option Bool := none
  severity : Option Severity := none
  /-- All other keys of the section of the rule. -/
  options : List (String × Toml.Value) := []
  deriving DecidableEq, Repr, Inhabited

namespace RuleSettings

/-- The texts in an option that is an array.  Whatever else is in the array is left out, and so is
an option that is no array. -/
def texts (settings : RuleSettings) (key : String) : List String :=
  match settings.options.lookup key with
  | some (.array items) => items.filterMap Toml.Value.text?
  | _ => []

end RuleSettings

/-- The patterns of documents that are left out unless something else is said. -/
def defaultExcludes : List String :=
  ["**/tmp/**", "**/vendor/**"]

/-- Which documents are reviewed. -/
structure AnalyzerSettings where
  root : Path := ⟨"."⟩
  excludes : List String := defaultExcludes
  includes : List String := []
  /-- How many documents may be reviewed at once; it has no bearing on the result. -/
  parallelism : Option Nat := none
  deriving DecidableEq, Repr, Inhabited

/-- The configuration of a project. -/
structure Config where
  preset : Option String := none
  failOn : Option String := none
  schema : Option Path := none
  analyzer : AnalyzerSettings := {}
  rules : List (String × RuleSettings) := []
  deriving DecidableEq, Repr, Inhabited

namespace Config

/-- The settings of a rule, if it has a section. -/
def rule? (config : Config) (name : String) : Option RuleSettings :=
  config.rules.lookup name

/-- Whether a rule is enabled; rules are, unless they are switched off. -/
def isEnabled (config : Config) (name : String) : Bool :=
  ((config.rule? name).bind RuleSettings.enabled).getD true

/-- The severity that is set for a rule. -/
def severityOf? (config : Config) (name : String) : Option Severity :=
  (config.rule? name).bind RuleSettings.severity

end Config

end RailsReview
