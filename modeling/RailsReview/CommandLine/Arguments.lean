import RailsReview.Path.Basic

/-!
# Arguments of the command line

The arguments are read from left to right.  First come the options that belong to every command,
then the name of a command, then its options and arguments, among which the common options may stand
as well.

* A long option is `--name`, with its value behind `=` or as the next argument.
* Short options may share one dash; the value of the last one is the rest of the argument, with or
  without `=`, or the next argument.
* A value that is an argument of its own does not start with a dash, unless it is a lone dash.
* Asking for the help or the version ends the reading.
* Behind `--` nothing is an option.
* Every option stands at most once among the options of its command, except `--exclude`.

A path is never empty.
-/

namespace RailsReview.CommandLine

/-- The form in which a report is printed. -/
inductive OutputFormat where
  | text
  | json
  | compact
  deriving DecidableEq, Repr, Inhabited

namespace OutputFormat

/-- The format with a name. -/
def ofName? (name : String) : Option OutputFormat :=
  if name = "text" then some text
  else if name = "json" then some json
  else if name = "compact" then some compact
  else none

end OutputFormat

/-- What a check is asked to do. -/
structure CheckOptions where
  path : Path := ⟨"."⟩
  schema : Option Path := none
  format : OutputFormat := .text
  /-- Names and codes of rules, separated by commas. -/
  rules : Option String := none
  excludes : List String := []
  deriving DecidableEq, Repr, Inhabited

/-- A command. -/
inductive Command where
  | check (options : CheckOptions)
  | listRules
  | init (force : Bool)
  deriving DecidableEq, Repr, Inhabited

/-- A command with the configuration file that is asked for. -/
structure Invocation where
  command : Command
  config : Option Path := none
  verbose : Bool := false
  deriving DecidableEq, Repr, Inhabited

/-- Why there is nothing to run. -/
inductive Refusal where
  /-- The arguments make no sense. -/
  | usage
  /-- The help was asked for. -/
  | help
  /-- The version was asked for. -/
  | version
  deriving DecidableEq, Repr, Inhabited

/-! ## Options -/

/-- The options of all commands. -/
inductive OptionName where
  | verbose
  | config
  | help
  | version
  | schema
  | format
  | rules
  | exclude
  | force
  deriving DecidableEq, Repr, Inhabited

namespace OptionName

/-- Whether an option has a value. -/
def takesValue : OptionName → Bool
  | config | schema | format | rules | exclude => true
  | _ => false

/-- The long name of an option. -/
def long : OptionName → String
  | verbose => "verbose"
  | config => "config"
  | help => "help"
  | version => "version"
  | schema => "schema"
  | format => "format"
  | rules => "rules"
  | exclude => "exclude"
  | force => "force"

/-- The short name of an option. -/
def short? : OptionName → Option Char
  | verbose => some 'v'
  | config => some 'c'
  | help => some 'h'
  | version => some 'V'
  | schema => some 's'
  | format => some 'f'
  | exclude => some 'e'
  | rules | force => none

end OptionName

/-- Where arguments stand: before the command, or behind its name. -/
inductive Place where
  | top
  | check
  | listRules
  | init
  deriving DecidableEq, Repr, Inhabited

namespace Place

/-- The options that may stand in a place. -/
def options : Place → List OptionName
  | top => [.verbose, .config, .help, .version]
  | check => [.verbose, .config, .help, .schema, .format, .rules, .exclude]
  | listRules => [.verbose, .config, .help]
  | init => [.verbose, .config, .help, .force]

/-- The option with a long name. -/
def long? (place : Place) (name : String) : Option OptionName :=
  place.options.find? (·.long == name)

/-- The option with a short name. -/
def short? (place : Place) (name : Char) : Option OptionName :=
  place.options.find? (·.short? == some name)

/-- The place behind the name of a command. -/
def ofCommand? (name : String) : Option Place :=
  if name = "check" then some check
  else if name = "list-rules" then some listRules
  else if name = "init" then some init
  else none

end Place

/-! ## Reading -/

/-- One argument, or several short options that share a dash, taken apart. -/
inductive Part where
  /-- An option without its value. -/
  | option (name : OptionName)
  /-- An option with its value. -/
  | valued (name : OptionName) (value : String)
  /-- An argument that is no option. -/
  | plain (text : String)
  deriving DecidableEq, Repr

/-- Short options that share a dash, up to one that ends the reading. -/
def splitShort (place : Place) : List Char → Except Refusal (List Part)
  | [] => .ok []
  | c :: rest =>
    match place.short? c with
    | none => .error .usage
    | some name =>
      if name.takesValue then
        match rest with
        | [] => .ok [.option name]
        | '=' :: value => .ok [.valued name (String.ofList value)]
        | value => .ok [.valued name (String.ofList value)]
      else if name = .help ∨ name = .version then .ok [.option name]
      else (splitShort place rest).map (.option name :: ·)

/-- A long option. -/
def splitLong (place : Place) (text : List Char) : Except Refusal Part :=
  let name := text.takeWhile (· != '=')
  match place.long? (String.ofList name), text.dropWhile (· != '=') with
  | none, _ => .error .usage
  | some name, [] => .ok (.option name)
  | some name, _ :: value =>
    if name.takesValue then .ok (.valued name (String.ofList value)) else .error .usage

/-- Whether an argument can be the value of an option before it. -/
def isValue (argument : String) : Bool :=
  match argument.toList with
  | '-' :: _ :: _ => false
  | _ => true

/-- The options and arguments read so far. -/
structure Settings where
  verbose : Bool := false
  config : Option Path := none
  force : Bool := false
  path : Option Path := none
  schema : Option Path := none
  format : Option OutputFormat := none
  rules : Option String := none
  excludes : List String := []
  deriving DecidableEq, Repr, Inhabited

/-- A path that is not empty. -/
def readPath (text : String) : Except Refusal Path :=
  if text.isEmpty then .error .usage else .ok ⟨text⟩

/-- A setting that may be made only once. -/
def once {α : Type} (current : Option α) (value : Except Refusal α) :
    Except Refusal (Option α) :=
  match current with
  | some _ => .error .usage
  | none => value.map some

namespace Settings

/-- The settings after an option without a value. -/
def switchOn (settings : Settings) : OptionName → Except Refusal Settings
  | .verbose => if settings.verbose then .error .usage else .ok { settings with verbose := true }
  | .force => if settings.force then .error .usage else .ok { settings with force := true }
  | .help => .error .help
  | .version => .error .version
  | _ => .error .usage

/-- The settings after an option with a value. -/
def assign (settings : Settings) (name : OptionName) (value : String) : Except Refusal Settings :=
  match name with
  | .config => (once settings.config (readPath value)).map fun config => { settings with config }
  | .schema => (once settings.schema (readPath value)).map fun schema => { settings with schema }
  | .format =>
    (once settings.format ((OutputFormat.ofName? value).elim (.error .usage) .ok)).map
      fun format => { settings with format }
  | .rules => (once settings.rules (.ok value)).map fun rules => { settings with rules }
  | .exclude => .ok { settings with excludes := settings.excludes ++ [value] }
  | _ => .error .usage

/-- The settings after an argument that is no option: only a check takes one. -/
def addPlain (settings : Settings) (place : Place) (text : String) : Except Refusal Settings :=
  if place = .check then
    (once settings.path (readPath text)).map fun path => { settings with path }
  else .error .usage

/-- The settings after short options that share a dash; the option whose value is still to come, if
any. -/
def addShort (settings : Settings) : List Part → Except Refusal (Settings × Option OptionName)
  | [] => .ok (settings, none)
  | .option name :: parts =>
    if name.takesValue then .ok (settings, some name)
    else (settings.switchOn name).bind fun settings => settings.addShort parts
  | .valued name value :: parts =>
    (settings.assign name value).bind fun settings => settings.addShort parts
  | .plain _ :: _ => .error .usage

end Settings

/-- The parts of an argument that is no plain text; nothing for a plain text. -/
def splitArgument (place : Place) (argument : String) : Except Refusal (List Part) :=
  match argument.toList with
  | '-' :: '-' :: text => (splitLong place text).map ([·])
  | '-' :: c :: text => splitShort place (c :: text)
  | _ => .ok []

/-- The settings after the arguments that stand behind a command. -/
def readArguments (place : Place) : Settings → List String → Except Refusal Settings
  | settings, [] => .ok settings
  | settings, "--" :: rest => rest.foldlM (·.addPlain place ·) settings
  | settings, [argument] =>
    if isValue argument then settings.addPlain place argument
    else do
      let (settings, pending) ← settings.addShort (← splitArgument place argument)
      if pending.isSome then .error .usage else .ok settings
  | settings, argument :: next :: rest =>
    if isValue argument then do
      readArguments place (← settings.addPlain place argument) (next :: rest)
    else do
      let (settings, pending) ← settings.addShort (← splitArgument place argument)
      match pending with
      | none => readArguments place settings (next :: rest)
      | some name =>
        if isValue next then readArguments place (← settings.assign name next) rest
        else .error .usage

/-- The command that settings make in a place. -/
def Settings.command? (settings : Settings) : Place → Option Command
  | .top => none
  | .listRules => some .listRules
  | .init => some (.init settings.force)
  | .check => some (.check
    { path := settings.path.getD ⟨"."⟩
      schema := settings.schema
      format := settings.format.getD .text
      rules := settings.rules
      excludes := settings.excludes })

/-- What is asked for when the help on a command is asked for by name. -/
def readHelp (names : List String) : Refusal :=
  match names with
  | [] => .help
  | [name] => if name = "help" ∨ (Place.ofCommand? name).isSome then .help else .usage
  | _ => .usage

/-- The settings before the command, with the place behind its name and the arguments that stand
there. -/
def readTop : Settings → List String → Except Refusal (Settings × Place × List String)
  | _, [] => .error .usage
  | settings, argument :: rest =>
    if isValue argument then
      match Place.ofCommand? argument with
      | some place => .ok (settings, place, rest)
      | none => .error (if argument = "help" then readHelp rest else .usage)
    else do
      let (settings, pending) ← settings.addShort (← splitArgument .top argument)
      match pending with
      | none => readTop settings rest
      | some name =>
        match rest with
        | [] => .error .usage
        | next :: rest =>
          if isValue next then readTop (← settings.assign name next) rest else .error .usage

/-- The configuration file among those named behind the command, in front of it and by the
environment, the first one that is there.  What the environment names counts unless an option is
in both places, and then it has to be a path. -/
def chooseConfig (behind front : Option Path) (configured : Option String) :
    Except Refusal (Option Path) :=
  match behind, front, configured with
  | some path, some _, _ => .ok (some path)
  | behind, front, some text =>
    (readPath text).map fun path => some ((behind.orElse fun _ => front).getD path)
  | behind, front, none => .ok (behind.orElse fun _ => front)

/-- What the arguments ask for.  The configuration file can also be named by the environment
(`configured`). -/
def read (arguments : List String) (configured : Option String) : Except Refusal Invocation := do
  let (top, place, rest) ← readTop {} arguments
  let settings ← readArguments place {} rest
  let config ← chooseConfig settings.config top.config configured
  match settings.command? place with
  | some command => return { command, config, verbose := settings.verbose || top.verbose }
  | none => .error .usage

end RailsReview.CommandLine
