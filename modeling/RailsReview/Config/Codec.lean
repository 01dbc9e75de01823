import RailsReview.Config.Basic
import RailsReview.FileTree
import RailsReview.Toml.Moment
import RailsReview.Toml.Record

/-!
# Configuration in TOML

A configuration is read from a TOML text.  Keys that mean nothing are ignored, except in the section
of a rule, which keeps them as options; a value of the wrong type makes the text unreadable.

Where the section of the analyzer is missing, its default patterns apply; where it is there, it has
only the patterns that it lists.

`Config.toJson` shows a configuration as JSON.
-/

namespace RailsReview

namespace Severity

/-- The severity that a value is: its name, or a table with that name as its only key and nothing in
the table or array below it. -/
def ofToml? : Toml.Value → Option Severity
  | .text name => ofName? name
  | .table [(name, .table [])] | .table [(name, .array [])] => ofName? name
  | _ => none

end Severity

namespace RuleSettings

/-- The keys with a meaning of their own. -/
def knownKeys : List String := ["enabled", "severity"]

/-- The settings that a section holds.  Options are kept as they are, except that a table can show a
date or time. -/
def ofToml? (value : Toml.Value) : Option RuleSettings := do
  let entries ← value.entries?
  let enabled ← Toml.optional Toml.Value.boolean? (entries.lookup "enabled")
  let severity ← Toml.optional Severity.ofToml? (entries.lookup "severity")
  let options ← Toml.Value.revealEntries?
    (entries.filter fun entry => !knownKeys.contains entry.1)
  return { enabled, severity, options }

/-- The settings in JSON, the options beside the known keys. -/
def toJson (settings : RuleSettings) : Json :=
  .object (("enabled", .ofOption (settings.enabled.map .bool)) ::
    ("severity", .ofOption (settings.severity.map (.string ·.name))) ::
    Toml.Value.entriesToJson settings.options)

end RuleSettings

namespace AnalyzerSettings

/-- The settings that a section holds. -/
def ofToml? (value : Toml.Value) : Option AnalyzerSettings := do
  let field ← value.fields? ["root", "exclude", "include", "parallelism"]
  let root ← Toml.defaulted "." Toml.Value.text? (field "root")
  let excludes ← Toml.defaulted [] (Toml.Value.listOf? Toml.Value.text?) (field "exclude")
  let includes ← Toml.defaulted [] (Toml.Value.listOf? Toml.Value.text?) (field "include")
  let parallelism ← Toml.optional Toml.Value.count? (field "parallelism")
  return { root := ⟨root⟩, excludes, includes, parallelism }

/-- The settings in JSON. -/
def toJson (settings : AnalyzerSettings) : Json :=
  .object [("root", .string settings.root.text),
    ("exclude", .array (settings.excludes.map .string)),
    ("include", .array (settings.includes.map .string)),
    ("parallelism", .ofOption (settings.parallelism.map .count))]

end AnalyzerSettings

/-- Why there is no configuration. -/
inductive ConfigError where
  | unreadable (path : Path) (cause : ReadError)
  | malformed
  deriving DecidableEq, Repr

namespace ConfigError

/-- The error in words. -/
def message : ConfigError → String
  | unreadable path cause => "Failed to read config file " ++ path.text ++ ": " ++ cause.message
  | malformed => "Failed to parse config: "

/-- What led to the error, if that is an error itself. -/
def cause? : ConfigError → Option String
  | unreadable _ cause => some cause.message
  | malformed => none

end ConfigError

namespace Config

/-- The sections of the rules. -/
def rulesOfToml? (value : Toml.Value) : Option (List (String × RuleSettings)) := do
  let entries ← value.entries?
  entries.mapM fun entry => (RuleSettings.ofToml? entry.2).map (entry.1, ·)

/-- The configuration that the entries of a table hold. -/
def ofEntries? (entries : List (String × Toml.Value)) : Option Config := do
  let preset ← Toml.optional Toml.Value.text? (entries.lookup "preset")
  let failOn ← Toml.optional Toml.Value.text? (entries.lookup "fail_on")
  let schema ← Toml.optional Toml.Value.text? (entries.lookup "schema")
  let analyzer ← Toml.defaulted {} AnalyzerSettings.ofToml? (entries.lookup "analyzer")
  let rules ← Toml.defaulted [] rulesOfToml? (entries.lookup "rules")
  return { preset, failOn, schema := schema.map Path.mk, analyzer, rules }

/-- The configuration that a text holds. -/
def parse (text : String) : Except ConfigError Config :=
  match (Toml.read? text).bind ofEntries? with
  | some config => .ok config
  | none => .error .malformed

/-- The configuration in a file. -/
def load (files : FileSystem) (path : Path) : Except ConfigError Config :=
  match files.read path with
  | .ok text => parse text
  | .error cause => .error (.unreadable path cause)

/-- The configuration in JSON. -/
def toJson (config : Config) : Json :=
  .object [("preset", .ofOption (config.preset.map .string)),
    ("fail_on", .ofOption (config.failOn.map .string)),
    ("schema", .ofOption (config.schema.map (.string ·.text))),
    ("analyzer", config.analyzer.toJson),
    ("rules", .object (config.rules.map fun rule => (rule.1, rule.2.toJson)))]

end Config

end RailsReview
