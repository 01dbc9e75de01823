import RailsReview.Analysis.Discovery
import RailsReview.Config.Codec
import RailsReview.Config.Lookup
import RailsReview.Models.Schema
import RailsReview.Rule.Preset

/-!
# Checking a project

A project is a directory with a configuration, a schema of its models and tree documents.  Checking
it loads the first two, reviews the documents and judges the report by the severity at which the
check fails.

`Project.run` is the check as a test of a project: it passes in silence, or it says why not.
-/

namespace RailsReview

/-- Why a project cannot be checked. -/
inductive ProjectError where
  | config (error : ConfigError)
  | schema (error : SchemaError)
  | analysis (error : AnalysisError)
  | unknownPreset (name : String)
  | unknownSeverity (name : String)
  deriving DecidableEq, Repr

namespace ProjectError

/-- The error in words. -/
def message : ProjectError → String
  | config error => error.message
  | schema error => error.message
  | analysis error => error.message
  | unknownPreset name =>
    "unknown preset `" ++ name ++ "`. Valid presets: recommended, minimal"
  | unknownSeverity name =>
    "unknown severity `" ++ name ++ "`. Valid values: error, warning, info"

end ProjectError

/-- What is asked for in place of what the configuration says. -/
structure ProjectOptions where
  preset : Option String := none
  configPath : Option Path := none
  failOn : Option String := none
  deriving DecidableEq, Repr, Inhabited

/-- A report with the severity at which it is a failure. -/
structure Verdict where
  report : Report
  failOn : Severity
  deriving DecidableEq, Repr, Inhabited

namespace Verdict

/-- Whether the check fails. -/
def isFailure (verdict : Verdict) : Bool :=
  verdict.report.failsAt verdict.failOn

/-- The report of the failure. -/
def describe (verdict : Verdict) : String :=
  verdict.report.describeFailure verdict.failOn

end Verdict

namespace Project

/-- The configuration of the project at a root: the file that was given, or a project file in the
root, or the defaults. -/
def loadConfig (files : FileSystem) (root : Path) (given : Option Path) :
    Except ConfigError Config :=
  match given with
  | some path => Config.load files (root.join path)
  | none =>
    match ConfigSource.findIn files.isFile root with
    | some path => Config.load files path
    | none => .ok {}

/-- The models of the project at a root; without a schema no model is known. -/
def loadModels (files : FileSystem) (root : Path) (config : Config) :
    Except SchemaError ModelIndex :=
  match config.schema with
  | some schema => ModelIndex.load files (root.join schema)
  | none => .ok .empty

/-- The preset that is asked for, or configured, or recommended. -/
def choosePreset (asked : Option String) (config : Config) : Except ProjectError Preset :=
  let name := (asked.orElse fun _ => config.preset).getD "recommended"
  match Preset.ofName? name with
  | some preset => .ok preset
  | none => .error (.unknownPreset name)

/-- The severity that is asked for, or configured, or an error. -/
def chooseSeverity (asked : Option String) (config : Config) : Except ProjectError Severity :=
  let name := (asked.orElse fun _ => config.failOn).getD "error"
  match Severity.ofName? name with
  | some severity => .ok severity
  | none => .error (.unknownSeverity name)

/-- The analyzer of the project at a root: it looks for documents below the configured root. -/
def analyzer (files : FileSystem) (root : Path) (preset : Preset) (config : Config) :
    Except ProjectError Analyzer := do
  let models ← (loadModels files root config).mapError .schema
  let builder : AnalyzerBuilder :=
    { root := some (root.join config.analyzer.root)
      rules := preset.rules models config
      config := some config }
  (builder.build files.currentPath).mapError .analysis

/-- The verdict on the project at a root. -/
def check (files : FileSystem) (root : Path) (options : ProjectOptions) :
    Except ProjectError Verdict := do
  let config ← (loadConfig files root options.configPath).mapError .config
  let preset ← choosePreset options.preset config
  let failOn ← chooseSeverity options.failOn config
  let analyzer ← analyzer files root preset config
  let report ← (analyzer.analyze files).mapError .analysis
  return { report, failOn }

/-- The root of the project that a directory belongs to: the nearest directory at or above it with a
project file, or the directory itself.  Without a directory it is the current one. -/
def findRoot (files : FileSystem) (directory : Option Path) : Path :=
  match directory with
  | none => files.currentPath
  | some directory => (ConfigSource.nearestHolder files.isFile directory).getD directory

/-- What a failed test of the project says; nothing if it passes. -/
def run (files : FileSystem) (directory : Option Path) (options : ProjectOptions) :
    Option String :=
  let root := findRoot files directory
  match check files root options with
  | .error error =>
    some ("demeter-lint: check of " ++ root.text ++ " failed: " ++ error.message)
  | .ok verdict => if verdict.isFailure then some verdict.describe else none

end Project

end RailsReview
