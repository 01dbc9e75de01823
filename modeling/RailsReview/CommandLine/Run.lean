import RailsReview.CommandLine.Output
import RailsReview.CommandLine.Start
import RailsReview.Project

/-!
# Running a command

A run of the program is a function of what it can see: the files, the environment and the arguments.
It prints something, may complain, ends with an exit code, and leaves files behind.
-/

namespace RailsReview.CommandLine

/-- What the program takes from the environment. -/
structure Environment where
  /-- The configuration file to use. -/
  config : Option String := none
  /-- The directory of the file of the user. -/
  sharedDirectory : Option Path := none
  home : Option Path := none
  deriving DecidableEq, Repr, Inhabited

namespace Environment

/-- The variable that names the configuration file. -/
def configVariable : String := "DEMETER_LINT_CONFIG"

/-- The variable that names the directory of the file of the user. -/
def sharedVariable : String := "DEMETER_LINT_CONFIG_DIR"

/-- The variable that names the home directory. -/
def homeVariable : String := "HOME"

/-- The environment with the given values of variables.  An empty home directory is none. -/
def ofVariables (value? : String → Option String) : Environment :=
  { config := value? configVariable
    sharedDirectory := (value? sharedVariable).map Path.mk
    home := ((value? homeVariable).filter (!·.isEmpty)).map Path.mk }

/-- The directory of the file of the user: the one that is named, or one in the home directory. -/
def userDirectory (environment : Environment) : Option Path :=
  environment.sharedDirectory.orElse fun _ =>
    environment.home.map fun home => home.join ⟨".demeter-lint"⟩

end Environment

/-- Why a check ends without a verdict. -/
inductive CheckError where
  | config (path : Path) (error : ConfigError)
  | severity (name : String)
  | schema (path : Path) (error : SchemaError)
  | preset (name : String)
  | pattern (error : AnalysisError)
  | analysis (error : AnalysisError)
  deriving DecidableEq, Repr

namespace CheckError

/-- What failed, without the cause. -/
def message : CheckError → String
  | config path _ => "Failed to load config: " ++ path.text
  | severity name => "Invalid fail_on severity: " ++ name
  | schema path _ => "Failed to load model schema: " ++ path.text
  | preset name => "Unknown preset: " ++ name
  | pattern _ => "Failed to build analyzer"
  | analysis _ => "Analysis failed"

/-- What led to the error, and what led to that. -/
def causes : CheckError → List String
  | config _ error => error.message :: error.cause?.toList
  | schema _ error => error.message :: error.cause?.toList
  | pattern error | analysis error => error.message :: error.cause?.toList
  | severity _ | preset _ => []

/-- A cause on lines of its own, of which the first one starts with a mark and the others are
indented as far. -/
def causeLines (mark cause : String) : String :=
  let margin := String.ofList (List.replicate mark.length ' ')
  "\n" ++ mark ++ ("\n" ++ margin).intercalate ((cause.toList.splitOn '\n').map String.ofList)

/-- The error in words, and below it what led to it.  Several causes are numbered. -/
def describe (error : CheckError) : String :=
  error.message ++
    match error.causes with
    | [] => ""
    | [cause] => "\n\nCaused by:" ++ causeLines "    " cause
    | causes => "\n\nCaused by:" ++ String.join (causes.mapIdx fun position cause =>
        causeLines ("    " ++ toString position ++ ": ") cause)

end CheckError

/-! ## Checking -/

/-- Where the configuration of a check of a directory comes from. -/
def configSource (files : FileSystem) (environment : Environment) (path : Path)
    (given : Option Path) : ConfigSource :=
  .lookup files.isFile (files.canonical path) given environment.userDirectory

/-- The configuration of a source. -/
def loadConfig (files : FileSystem) (source : ConfigSource) : Except CheckError Config :=
  match source.path? with
  | none => .ok {}
  | some path => (Config.load files path).mapError (.config path)

/-- The severity at which a check fails. -/
def failOn (config : Config) : Except CheckError Severity :=
  match config.failOn with
  | none => .ok .error
  | some name => (Severity.ofName? name).elim (.error (.severity name)) .ok

/-- The path of the schema: the one that was given, or the configured one below the checked
directory. -/
def schemaPath? (options : CheckOptions) (config : Config) : Option Path :=
  options.schema.orElse fun _ => config.schema.map options.path.join

/-- The models of a check. -/
def loadModels (files : FileSystem) (options : CheckOptions) (config : Config) :
    Except CheckError ModelIndex :=
  match schemaPath? options config with
  | none => .ok .empty
  | some path => (ModelIndex.load files path).mapError (.schema path)

/-- The entries of a list of rules, without the blanks around them. -/
def ruleEntries (list : String) : List String :=
  (list.toList.splitOn ',').map fun entry => String.ofList (Text.trim entry)

/-- The rules of a check: those that were picked, or those of the configured preset. -/
def chooseRules (options : CheckOptions) (models : ModelIndex) (config : Config) :
    Except CheckError (List Rule) :=
  match options.rules with
  | some list => .ok (pickRules (ruleEntries list) models config)
  | none =>
    match config.preset with
    | none => .ok (Preset.recommended.rules models config)
    | some name =>
      match Preset.ofName? name with
      | some preset => .ok (preset.rules models config)
      | none => .error (.preset name)

/-- The analyzer of a check: it looks for documents below the checked directory, whatever root is
configured. -/
def analyzer (files : FileSystem) (options : CheckOptions) (config : Config) :
    Except CheckError Analyzer := do
  let models ← loadModels files options config
  let rules ← chooseRules options models config
  let builder : AnalyzerBuilder :=
    { root := some options.path, rules, excludes := options.excludes, config := some config }
  (builder.build files.currentPath).mapError .pattern

/-- The verdict of a check with a configuration from a source. -/
def check (files : FileSystem) (options : CheckOptions) (source : ConfigSource) :
    Except CheckError Verdict := do
  let config ← loadConfig files source
  let failOn ← failOn config
  let analyzer ← analyzer files options config
  let report ← (analyzer.analyze files).mapError .analysis
  return { report, failOn }

/-! ## Running -/

/-- What a run leaves behind. -/
structure Result where
  exitCode : Nat
  output : String := ""
  /-- What the program complains about. -/
  complaint : Option String := none
  files : FileSystem

/-- The version of the program. -/
def versionText : String := "demeter-lint 0.3.0\n"

/-- The help on the program. -/
def helpText : String :=
  "Law of Demeter and partial-view reviews for Rails code\n\n" ++
  "Usage: demeter-lint [-v] [-c FILE] check [PATH] [-s SCHEMA] [-f FORMAT] [--rules LIST] " ++
  "[-e PATTERN]\n" ++
  "       demeter-lint list-rules\n" ++
  "       demeter-lint init [--force]\n"

/-- The run of a command. -/
def runCommand (files : FileSystem) (environment : Environment) (invocation : Invocation) :
    Result :=
  match invocation.command with
  | .check options =>
    match check files options (configSource files environment options.path invocation.config) with
    | .ok verdict =>
      { exitCode := if verdict.isFailure then 1 else 0
        output := render verdict.report options.format
        files }
    | .error error => { exitCode := 1, complaint := some error.describe, files }
  | .listRules => { exitCode := 0, output := rulesText (allRules .empty {}), files }
  | .init force =>
    match startProject files ⟨"."⟩ force with
    | .ok files => { exitCode := 0, output := startedText, files }
    | .error error => { exitCode := 1, complaint := some error.message, files }

/-- The run of the program. -/
def run (files : FileSystem) (environment : Environment) (arguments : List String) : Result :=
  match read arguments environment.config with
  | .ok invocation => runCommand files environment invocation
  | .error .usage => { exitCode := 2, files }
  | .error .help => { exitCode := 0, output := helpText, files }
  | .error .version => { exitCode := 0, output := versionText, files }

end RailsReview.CommandLine
