import RailsReview.FileTree

/-!
# Starting a project

Two files are written for a new project: a configuration and a schema without models.  An existing
configuration is only replaced if that is asked for, and an existing schema is kept.
-/

namespace RailsReview.CommandLine

/-- The name of the configuration. -/
def configName : String := "demeter-lint.toml"

/-- The name of the schema. -/
def schemaName : String := "models.toml"

/-- The configuration of a new project. -/
def starterConfig : String :=
  "# demeter-lint configuration\n" ++
  "\n" ++
  "# Rule preset: \"recommended\" (default) or \"minimal\"\n" ++
  "preset = \"recommended\"\n" ++
  "\n" ++
  "# Fail (exit code 1) when findings reach this severity\n" ++
  "fail_on = \"error\"\n" ++
  "\n" ++
  "# Model schema declaring associations and attributes\n" ++
  "schema = \"models.toml\"\n" ++
  "\n" ++
  "[analyzer]\n" ++
  "# Directory holding the *.ast.json documents (default: current directory)\n" ++
  "# root = \"./ast\"\n" ++
  "\n" ++
  "# Glob patterns to exclude from analysis\n" ++
  "exclude = [\n" ++
  "    \"**/tmp/**\",\n" ++
  "    \"**/vendor/**\",\n" ++
  "]\n" ++
  "\n" ++
  "# Number of files reviewed in parallel (default: one per CPU)\n" ++
  "# parallelism = 4\n" ++
  "\n" ++
  "# Rule configurations\n" ++
  "# Each rule can be enabled/disabled and have its severity overridden\n" ++
  "\n" ++
  "[rules.law-of-demeter]\n" ++
  "enabled = true\n" ++
  "# severity = \"error\"\n" ++
  "\n" ++
  "[rules.replace-instance-variable-with-local-variable]\n" ++
  "enabled = true\n" ++
  "# Extra files to treat as partial views\n" ++
  "# patterns = [\"app/components/**/_*.erb\"]\n"

/-- The schema of a new project. -/
def starterSchema : String :=
  "# Models, their attributes, and associations.\n" ++
  "# kind: belongs_to, has_one, has_many (anything else is ignored)\n" ++
  "# class_name defaults to the classified association name.\n" ++
  "\n" ++
  "# [[models]]\n" ++
  "# name = \"Invoice\"\n" ++
  "# attributes = [\"total\"]\n" ++
  "# associations = [\n" ++
  "#     \x7b name = \"user\", kind = \"belongs_to\" \x7d,\n" ++
  "#     \x7b name = \"items\", kind = \"has_many\", class_name = \"LineItem\" \x7d,\n" ++
  "# ]\n"

/-- Why a project is not started. -/
inductive StartError where
  /-- There is a configuration. -/
  | alreadyThere (path : Path)
  | unwritable (cause : ReadError)
  deriving DecidableEq, Repr

namespace StartError

/-- The error in words. -/
def message : StartError → String
  | alreadyThere path =>
    "Configuration file already exists at " ++ path.text ++ ". Use --force to overwrite."
  | unwritable cause => cause.message

end StartError

/-- The files with those of a new project in a directory. -/
def startProject (files : FileSystem) (directory : Path) (force : Bool) :
    Except StartError FileSystem := do
  let configPath := directory.join ⟨configName⟩
  if files.holds configPath && !force then throw (.alreadyThere configPath)
  let files ← (files.write configPath starterConfig).mapError .unwritable
  let schemaPath := directory.join ⟨schemaName⟩
  if files.holds schemaPath then return files
  (files.write schemaPath starterSchema).mapError .unwritable

/-- What is said about a new project. -/
def startedText : String :=
  "Created demeter-lint.toml\n" ++
  "\nNext steps:\n" ++
  "  1. Declare your models in models.toml\n" ++
  "  2. Export AST documents (*.ast.json) for your sources\n" ++
  "  3. Run: demeter-lint check\n"

end RailsReview.CommandLine
