import RailsReview.CommandLine.Run
import RailsReview.Proofs.ExcludedDocuments
import RailsReview.Proofs.PathResolution

/-!
# Two ways to check a directory

A directory can be checked from the command line, and as a project by a test of it.  Both load a
configuration, choose rules and a severity, and review documents, but each in its own way: the
command line looks for a configuration at and above the canonical path of the directory, and reviews
the documents below the directory itself, whatever root is configured.

* `CommandLine.loadConfig_configSource`: for a directory with a project file both load that file.
* `CommandLine.failOn_eq_ok_iff`, `CommandLine.loadModels_eq_ok_iff`,
  `CommandLine.chooseRules_eq_ok_iff`: what is chosen is the same.
* `AnalyzerBuilder.build_root`: no other part of an analyzer depends on its root.
* `CommandLine.analyzer_eq_ok_iff`: so the two analyzers differ in their roots only.
* `CommandLine.agrees_of_samePlace`: if the configured root is the directory itself, they agree.
* `CommandLine.not_agrees_elsewhere`: if it is not, they need not be.
-/

namespace RailsReview

/-- No other part of an analyzer depends on its root. -/
theorem AnalyzerBuilder.build_root (builder : AnalyzerBuilder) (currentDirectory root : Path) :
    build { builder with root := some root } currentDirectory =
      (builder.build currentDirectory).map fun analyzer =>
        analyzer.relocate (currentDirectory.join root) := by
  have hexcludes : excludePatterns { builder with root := some root } = builder.excludePatterns :=
    rfl
  have hincludes : includePatterns { builder with root := some root } = builder.includePatterns :=
    rfl
  rw [build, build, hexcludes, hincludes]
  cases compile builder.excludePatterns with
  | error fault => rfl
  | ok excludes => cases compile builder.includePatterns <;> rfl

namespace CommandLine

variable {files : FileSystem} {environment : Environment} {directory : Path} {config : Config}

/-! ## Configurations -/

/-- The path of the first project file that counts in a directory. -/
def configPath (directory : Path) : Path :=
  directory.join ⟨configName⟩

theorem isEntryName_configName : IsEntryName configName := by
  constructor <;> decide

theorem find_of_load {path : Path} (h : Config.load files path = .ok config) :
    ∃ content, files.find path = .ok (.text content) ∧ Config.parse content = .ok config := by
  unfold Config.load FileSystem.read at h
  cases hfind : files.find path with
  | error cause =>
    rw [hfind] at h
    cases h
  | ok tree =>
    rw [hfind] at h
    cases tree with
    | text content => exact ⟨content, rfl, h⟩
    | binary => cases h
    | directory entries => cases h

theorem load_of_find {path : Path} {content : String} (h : files.find path = .ok (.text content)) :
    Config.load files path = Config.parse content := by
  rw [Config.load, FileSystem.read, h]
  rfl

theorem isFile_of_find {path : Path} {content : String}
    (h : files.find path = .ok (.text content)) : files.isFile path = true := by
  rw [FileSystem.isFile, h]
  rfl

theorem findIn_of_isFile {isFile : Path → Bool} (h : isFile (configPath directory) = true) :
    ConfigSource.findIn isFile directory = some (configPath directory) :=
  List.find?_cons_of_pos h

/-- A project is checked with the project file in its directory. -/
theorem project_loadConfig (hconfig : Config.load files (configPath directory) = .ok config) :
    Project.loadConfig files directory none = .ok config := by
  obtain ⟨content, hfind, -⟩ := find_of_load hconfig
  have hfile := findIn_of_isFile (isFile_of_find hfind)
  rw [Project.loadConfig, hfile]
  exact hconfig

/-- The command line checks a directory with the project file in it. -/
theorem loadConfig_configSource (hcurrent : files.Leads files.current)
    (hdirectory : directory.text ≠ "")
    (hsize : (configPath (files.canonical directory)).text.utf8ByteSize ≤ FileSystem.maxPathSize)
    (hconfig : Config.load files (configPath directory) = .ok config) :
    loadConfig files (configSource files environment directory none) = .ok config := by
  obtain ⟨content, hfind, hparse⟩ := find_of_load hconfig
  have hcanonical : files.find (configPath (files.canonical directory)) = .ok (.text content) :=
    FileSystem.find_canonical_join hcurrent hdirectory isEntryName_configName hsize hfind
  have habove : ConfigSource.findAbove files.isFile (files.canonical directory) =
      some (configPath (files.canonical directory)) := by
    rw [ConfigSource.findAbove, Path.ancestors, List.findSome?_cons,
      findIn_of_isFile (isFile_of_find hcanonical)]
  have hsource : configSource files environment directory none =
      .project (configPath (files.canonical directory)) := by
    rw [configSource, ConfigSource.lookup, habove]
  rw [hsource]
  change (Config.load files _).mapError _ = _
  rw [Except.mapError_eq_ok_iff, load_of_find hcanonical, hparse]

/-! ## Choices -/

/-- A project fails at the severity that is configured, or at errors. -/
theorem project_chooseSeverity_eq_ok_iff {severity : Severity} :
    Project.chooseSeverity none config = .ok severity ↔
      Severity.ofName? (config.failOn.getD "error") = some severity := by
  have hname : (none.orElse fun _ => config.failOn) = config.failOn := rfl
  unfold Project.chooseSeverity
  rw [hname]
  cases hseverity : Severity.ofName? (config.failOn.getD "error") with
  | none => simp [hseverity]
  | some other => simp [hseverity]

/-- On the command line a check fails at the severity that is configured, or at errors. -/
theorem failOn_eq_ok_iff {severity : Severity} :
    failOn config = .ok severity ↔
      Severity.ofName? (config.failOn.getD "error") = some severity := by
  unfold failOn
  cases config.failOn with
  | none =>
    have herror : Severity.ofName? "error" = some .error := rfl
    rw [Option.getD_none, herror, Except.ok.injEq, Option.some.injEq]
  | some name =>
    rw [Option.getD_some]
    cases hname : Severity.ofName? name with
    | none => exact iff_of_false (fun h => by simp [hname] at h) fun h => by cases h
    | some other => simp [hname]

/-- A project is checked with the preset that is configured, or the recommended one. -/
theorem project_choosePreset_eq_ok_iff {preset : Preset} :
    Project.choosePreset none config = .ok preset ↔
      Preset.ofName? (config.preset.getD "recommended") = some preset := by
  have hname : (none.orElse fun _ => config.preset) = config.preset := rfl
  unfold Project.choosePreset
  rw [hname]
  cases hpreset : Preset.ofName? (config.preset.getD "recommended") with
  | none => simp [hpreset]
  | some other => simp [hpreset]

/-- Unless rules are listed, those on the command line are the ones of the preset that is
configured, or of the recommended one. -/
theorem chooseRules_none_eq_ok_iff {options : CheckOptions} {models : ModelIndex}
    {rules : List Rule} :
    chooseRules { options with rules := none } models config = .ok rules ↔
      ∃ preset, Preset.ofName? (config.preset.getD "recommended") = some preset ∧
        preset.rules models config = rules := by
  unfold chooseRules
  cases config.preset with
  | none =>
    have hrecommended : Preset.ofName? "recommended" = some .recommended := by decide
    rw [Option.getD_none, hrecommended]
    exact ⟨fun h => ⟨.recommended, rfl, Except.ok.inj h⟩, fun ⟨_, hpreset, hrules⟩ => by
      cases hpreset
      exact congrArg Except.ok hrules⟩
  | some name =>
    rw [Option.getD_some]
    cases hname : Preset.ofName? name with
    | none => simp [hname]
    | some preset => simp [hname]

/-- So they are the ones of the project. -/
theorem chooseRules_eq_ok_iff {models : ModelIndex} {rules : List Rule} :
    chooseRules { path := directory } models config = .ok rules ↔
      ∃ preset, Project.choosePreset none config = .ok preset ∧
        preset.rules models config = rules := by
  simp only [project_choosePreset_eq_ok_iff]
  exact @chooseRules_none_eq_ok_iff config { path := directory } models rules

theorem loadModels_eq_ok_iff {models : ModelIndex} :
    loadModels files { path := directory } config = .ok models ↔
      Project.loadModels files directory config = .ok models := by
  unfold loadModels schemaPath? Project.loadModels
  cases config.schema with
  | none => exact ⟨fun h => by cases h; rfl, fun h => by cases h; rfl⟩
  | some schema => exact Except.mapError_eq_ok_iff

/-! ## Analyzers -/

/-- **The two analyzers differ in their roots only.** -/
theorem analyzer_eq_ok_iff {own : Analyzer} :
    analyzer files { path := directory } config = .ok own ↔
      ∃ preset analyzer, Project.choosePreset none config = .ok preset ∧
        Project.analyzer files directory preset config = .ok analyzer ∧
        analyzer.relocate (files.currentPath.join directory) = own := by
  have hbuild : ∀ rules, AnalyzerBuilder.build
      { root := some directory, rules, config := some config } files.currentPath =
        (AnalyzerBuilder.build
          { root := some (directory.join config.analyzer.root), rules, config := some config }
          files.currentPath).map (·.relocate (files.currentPath.join directory)) := fun rules =>
    AnalyzerBuilder.build_root
      { root := some (directory.join config.analyzer.root), rules, config := some config }
      files.currentPath directory
  unfold analyzer Project.analyzer
  simp only [Except.bind_eq_ok_iff, Except.mapError_eq_ok_iff, loadModels_eq_ok_iff,
    chooseRules_eq_ok_iff, hbuild, Except.map_eq_ok_iff]
  constructor
  · rintro ⟨models, hmodels, -, ⟨preset, hpreset, rfl⟩, analyzer, hanalyzer, hown⟩
    exact ⟨preset, analyzer, hpreset, ⟨models, hmodels, hanalyzer⟩, hown⟩
  · rintro ⟨preset, analyzer, hpreset, ⟨models, hmodels, hanalyzer⟩, hown⟩
    exact ⟨models, hmodels, _, ⟨preset, hpreset, rfl⟩, analyzer, hanalyzer, hown⟩

/-- The root of the analyzer of a project. -/
theorem root_of_project_analyzer {preset : Preset} {analyzer : Analyzer}
    (h : Project.analyzer files directory preset config = .ok analyzer) :
    analyzer.root = files.currentPath.join (directory.join config.analyzer.root) ∧
      analyzer.strict = false := by
  unfold Project.analyzer at h
  simp only [Except.bind_eq_ok_iff, Except.mapError_eq_ok_iff] at h
  obtain ⟨models, -, hbuild⟩ := h
  obtain ⟨excludes, includes, -, -, rfl⟩ := AnalyzerBuilder.build_eq_ok_iff.mp hbuild
  exact ⟨rfl, rfl⟩

/-! ## Verdicts -/

theorem check_eq_ok_iff {source : ConfigSource} (hconfig : loadConfig files source = .ok config)
    {options : CheckOptions} {verdict : Verdict} :
    check files options source = .ok verdict ↔
      failOn config = .ok verdict.failOn ∧
        ∃ own, analyzer files options config = .ok own ∧
          own.analyze files = .ok verdict.report := by
  unfold check
  rw [hconfig]
  simp only [Except.bind_eq_ok_iff, Except.mapError_eq_ok_iff]
  constructor
  · rintro ⟨_, hloaded, failOn, hfailOn, own, hown, report, hreport, hverdict⟩
    cases hloaded
    cases hverdict
    exact ⟨hfailOn, own, hown, hreport⟩
  · rintro ⟨hfailOn, own, hown, hreport⟩
    exact ⟨config, rfl, verdict.failOn, hfailOn, own, hown, verdict.report, hreport, rfl⟩

theorem project_check_eq_ok_iff (hconfig : Project.loadConfig files directory none = .ok config)
    {verdict : Verdict} :
    Project.check files directory {} = .ok verdict ↔
      ∃ preset, Project.choosePreset none config = .ok preset ∧
        Project.chooseSeverity none config = .ok verdict.failOn ∧
        ∃ analyzer, Project.analyzer files directory preset config = .ok analyzer ∧
          analyzer.analyze files = .ok verdict.report := by
  unfold Project.check
  rw [hconfig]
  simp only [Except.bind_eq_ok_iff, Except.mapError_eq_ok_iff]
  constructor
  · rintro ⟨_, hloaded, preset, hpreset, failOn, hfailOn, analyzer, hanalyzer, report, hreport,
      hverdict⟩
    cases hloaded
    cases hverdict
    exact ⟨preset, hpreset, hfailOn, analyzer, hanalyzer, hreport⟩
  · rintro ⟨preset, hpreset, hfailOn, analyzer, hanalyzer, hreport⟩
    exact ⟨config, rfl, preset, hpreset, verdict.failOn, hfailOn, analyzer, hanalyzer,
      verdict.report, hreport, rfl⟩

/-! ## Runs -/

/-- A directory is all that a check needs to be told. -/
theorem read_check {text : String} (hvalue : isValue text = true) (htext : text ≠ "") :
    read ["check", text] none = .ok { command := .check { path := ⟨text⟩ } } := by
  have htop : readTop {} ["check", text] = .ok ({}, .check, [text]) := by
    have hcommand : Place.ofCommand? "check" = some .check := by decide
    rw [readTop, if_pos (by decide), hcommand]
  have hpath : readPath text = .ok ⟨text⟩ := by
    rw [readPath, if_neg]
    rwa [String.isEmpty_iff]
  have hplain : Settings.addPlain {} .check text = .ok { path := some ⟨text⟩ } := by
    rw [Settings.addPlain, if_pos rfl, once, hpath]
    rfl
  have harguments : readArguments .check {} [text] = .ok { path := some ⟨text⟩ } := by
    have hdashes : text ≠ "--" := by
      rintro rfl
      exact absurd hvalue (by decide)
    rw [readArguments, if_pos hvalue, hplain]
    exact fun h => hdashes h
  unfold read
  simp only [Except.bind_eq_ok_iff]
  exact ⟨_, htop, _, harguments, none, rfl, rfl⟩

/-- What both ways to check a directory have in common, where a configuration applies. -/
structure Agrees (files : FileSystem) (environment : Environment) (directory : Path)
    (config : Config) : Prop where
  /-- The configuration applies to both. -/
  loadConfig_eq :
    loadConfig files (configSource files environment directory none) = .ok config ∧
      Project.loadConfig files directory none = .ok config
  /-- There are the same analyzers, and they review the same documents. -/
  documents_eq : ∀ own, analyzer files { path := directory } config = .ok own ↔
    ∃ preset analyzer, Project.choosePreset none config = .ok preset ∧
      Project.analyzer files directory preset config = .ok analyzer ∧
      analyzer.relocate (files.currentPath.join directory) = own ∧
      (own.documents files).map (fun found => (found.1.components, found.2)) =
        (analyzer.documents files).map fun found => (found.1.components, found.2)
  /-- There are the same verdicts. -/
  check_eq_ok_iff : ∀ verdict,
    check files { path := directory } (configSource files environment directory none) =
        .ok verdict ↔
      Project.check files directory {} = .ok verdict
  /-- Of a verdict the command line prints the report, and ends with a 1 if it is a failure. -/
  run_of_verdict : environment.config = none → isValue directory.text = true → ∀ verdict,
    Project.check files directory {} = .ok verdict →
      run files environment ["check", directory.text] =
        { exitCode := if verdict.isFailure then 1 else 0
          output := render verdict.report .text
          files }
  /-- Where there is no verdict, it complains. -/
  run_of_error : environment.config = none → isValue directory.text = true → ∀ error,
    Project.check files directory {} = .error error →
      ∃ complaint, run files environment ["check", directory.text] =
        { exitCode := 1, complaint := some complaint, files }

section

variable (hroot : SamePlace files (files.currentPath.join directory)
  (files.currentPath.join (directory.join config.analyzer.root))) {preset : Preset}
  {analyzer : Analyzer} (hanalyzer : Project.analyzer files directory preset config = .ok analyzer)

include hroot hanalyzer

/-- The same documents are reviewed, if the configured root is the directory itself. -/
theorem documents_relocate_directory :
    ((analyzer.relocate (files.currentPath.join directory)).documents files).map
        (fun found => (found.1.components, found.2)) =
      (analyzer.documents files).map fun found => (found.1.components, found.2) := by
  obtain ⟨hanalyzerRoot, -⟩ := root_of_project_analyzer hanalyzer
  have habsolute : analyzer.root.isAbsolute = true :=
    hanalyzerRoot ▸ files.isAbsolute_currentPath_join _
  rw [← hanalyzerRoot] at hroot
  exact Analyzer.documents_relocate habsolute (files.isAbsolute_currentPath_join directory) hroot

/-- So the reports are equal. -/
theorem analyze_relocate_directory :
    (analyzer.relocate (files.currentPath.join directory)).analyze files =
      analyzer.analyze files := by
  obtain ⟨hanalyzerRoot, hstrict⟩ := root_of_project_analyzer hanalyzer
  have habsolute : analyzer.root.isAbsolute = true :=
    hanalyzerRoot ▸ files.isAbsolute_currentPath_join _
  rw [← hanalyzerRoot] at hroot
  exact Analyzer.analyze_relocate hstrict habsolute
    (files.isAbsolute_currentPath_join directory) hroot

end

/-- Unless a root is configured, it is the directory itself. -/
theorem samePlace_of_root_here {entries : List (String × FileTree)}
    (hdirectory : directory.text ≠ "")
    (hfind : files.find (files.currentPath.join directory) = .ok (.directory entries))
    (hsize : ((files.currentPath.join directory).join ⟨"."⟩).text.utf8ByteSize ≤
      FileSystem.maxPathSize)
    (hroot : config.analyzer.root = ⟨"."⟩) :
    SamePlace files (files.currentPath.join directory)
      (files.currentPath.join (directory.join config.analyzer.root)) := by
  rw [hroot, Path.join_assoc _ hdirectory rfl]
  exact (FileSystem.samePlace_join_here (files.isAbsolute_currentPath_join directory) hfind
    hsize).symm

/-- The run of a check of a directory. -/
theorem run_check_eq (hconfig : environment.config = none)
    (hvalue : isValue directory.text = true) (hdirectory : directory.text ≠ "") :
    run files environment ["check", directory.text] =
      runCommand files environment { command := .check { path := directory } } := by
  rw [run, hconfig, read_check hvalue hdirectory]

/-- The verdicts are the same, if the same configuration applies and its root is the directory. -/
theorem check_eq_ok_iff_project {source : ConfigSource}
    (hown : loadConfig files source = .ok config)
    (hproject : Project.loadConfig files directory none = .ok config)
    (hroot : SamePlace files (files.currentPath.join directory)
      (files.currentPath.join (directory.join config.analyzer.root))) {verdict : Verdict} :
    check files { path := directory } source = .ok verdict ↔
      Project.check files directory {} = .ok verdict := by
  rw [check_eq_ok_iff hown, project_check_eq_ok_iff hproject, failOn_eq_ok_iff,
    ← project_chooseSeverity_eq_ok_iff]
  simp only [analyzer_eq_ok_iff]
  constructor
  · rintro ⟨hfailOn, _, ⟨preset, analyzer, hpreset, hanalyzer, rfl⟩, hreport⟩
    rw [analyze_relocate_directory hroot hanalyzer] at hreport
    exact ⟨preset, hpreset, hfailOn, analyzer, hanalyzer, hreport⟩
  · rintro ⟨preset, hpreset, hfailOn, analyzer, hanalyzer, hreport⟩
    rw [← analyze_relocate_directory hroot hanalyzer] at hreport
    exact ⟨hfailOn, _, ⟨preset, analyzer, hpreset, hanalyzer, rfl⟩, hreport⟩

/-- **Both ways to check a directory agree,** if its project file can be loaded and the root that is
configured there is the directory itself.  The command line loads the file by its canonical path,
which starts from the current directory: that has to be there, and the path has to be one that can
be followed. -/
theorem agrees_of_samePlace (hcurrent : files.Leads files.current)
    (hdirectory : directory.text ≠ "")
    (hsize : (configPath (files.canonical directory)).text.utf8ByteSize ≤ FileSystem.maxPathSize)
    (hconfig : Config.load files (configPath directory) = .ok config)
    (hroot : SamePlace files (files.currentPath.join directory)
      (files.currentPath.join (directory.join config.analyzer.root))) :
    Agrees files environment directory config := by
  have hown : loadConfig files (configSource files environment directory none) = .ok config :=
    loadConfig_configSource hcurrent hdirectory hsize hconfig
  have hproject : Project.loadConfig files directory none = .ok config := project_loadConfig hconfig
  have hcheck : ∀ verdict, check files { path := directory }
      (configSource files environment directory none) = .ok verdict ↔
        Project.check files directory {} = .ok verdict := fun verdict =>
    check_eq_ok_iff_project hown hproject hroot
  refine ⟨⟨hown, hproject⟩, fun own => ?_, hcheck, fun henvironment hvalue verdict hverdict => ?_,
    fun henvironment hvalue error herror => ?_⟩
  · rw [analyzer_eq_ok_iff]
    constructor
    · rintro ⟨preset, analyzer, hpreset, hanalyzer, rfl⟩
      exact ⟨preset, analyzer, hpreset, hanalyzer, rfl,
        documents_relocate_directory hroot hanalyzer⟩
    · rintro ⟨preset, analyzer, hpreset, hanalyzer, hown, -⟩
      exact ⟨preset, analyzer, hpreset, hanalyzer, hown⟩
  · rw [run_check_eq henvironment hvalue hdirectory]
    dsimp only [runCommand]
    rw [(hcheck verdict).mpr hverdict]
  · rw [run_check_eq henvironment hvalue hdirectory]
    dsimp only [runCommand]
    cases hresult : check files { path := directory }
        (configSource files environment directory none) with
    | ok verdict =>
      rw [hcheck verdict, herror] at hresult
      cases hresult
    | error failure => exact ⟨failure.describe, rfl⟩

/-- The configuration of a shop, in TOML. -/
def shopConfigText : String :=
  "preset = \"minimal\"\nfail_on = \"warning\"\nschema = \"models.toml\"\n"

/-- The configuration of a shop. -/
def shopConfig : Config where
  preset := some "minimal"
  failOn := some "warning"
  schema := some ⟨"models.toml"⟩

/-- The models of a shop, in TOML. -/
def shopSchemaText : String :=
  "[[models]]\nname = \"Post\"\n" ++
  "associations = [\x7b name = \"user\", kind = \"belongs_to\" \x7d]\n\n" ++
  "[[models]]\nname = \"User\"\nattributes = [\"name\"]\n"

/-- The models of a shop. -/
def shopModels : ModelIndex :=
  ((ModelIndex.empty.addAssociation "Post" "user" .belongsTo "User").addAttribute "User" "name")

/-- A document with the name of the user of a post, in JSON. -/
def shopText : String :=
  "\x7b\"root\":\x7b\"type\":\"call\",\"message\":\"name\",\"subject\":" ++
  "\x7b\"type\":\"call\",\"message\":\"user\",\"subject\":" ++
  "\x7b\"type\":\"reference\",\"kind\":\"ivar\",\"name\":\"@post\"\x7d\x7d\x7d\x7d"

/-- A document with the name of the user of a post. -/
def shopDocument : Document where
  path := none
  root := .call (some (.call (some (.reference .instanceVariable "@post" {})) "user" [] {})) "name"
    [] {}

/-- A shop below the current directory, with this document and one that cannot be parsed. -/
def shopFiles : FileSystem where
  tree := .directory [("home", .directory [("shop", .directory
    [("app", .directory [("cart.erb.ast.json", .text ""), ("page.erb.ast.json", .text shopText)]),
      ("demeter-lint.toml", .text shopConfigText), ("models.toml", .text shopSchemaText)])])]
  current := ["home"]

/-- The configured root of the shop. -/
def shopRoot : Path := ⟨"/home/shop/."⟩

/-- The analyzer of the shop as a project. -/
def shopAnalyzer : Analyzer where
  root := shopRoot
  rules := [LawOfDemeter.rule shopModels .error]
  excludes := [⟨"**/tmp/**", [.anyComponents, .literal 't', .literal 'm', .literal 'p', .literal '/',
      .anyComponents]⟩,
    ⟨"**/vendor/**", [.anyComponents, .literal 'v', .literal 'e', .literal 'n', .literal 'd',
      .literal 'o', .literal 'r', .literal '/', .anyComponents]⟩]
  includes := []
  config := shopConfig
  strict := false

theorem load_shopConfig : Config.load shopFiles (configPath ⟨"shop"⟩) = .ok shopConfig := by
  have hfind : shopFiles.find (configPath ⟨"shop"⟩) = .ok (.text shopConfigText) :=
    FileSystem.find_eq_ok_iff.mpr
      ⟨["home", "shop", "demeter-lint.toml"], by decide +kernel, rfl⟩
  have hparse : Config.parse shopConfigText = .ok shopConfig := by decide +kernel
  rw [load_of_find hfind, hparse]

theorem analyzer_shop :
    Project.analyzer shopFiles ⟨"shop"⟩ .minimal shopConfig = .ok shopAnalyzer := by
  have hmodels : Project.loadModels shopFiles ⟨"shop"⟩ shopConfig = .ok shopModels := by
    decide +kernel
  rw [Project.analyzer, hmodels]
  rfl

theorem analyze_shop :
    shopAnalyzer.analyze shopFiles =
      Analyzer.summarize false [.rejected (shopRoot.join ⟨"app/cart.erb.ast.json"⟩),
        .reviewed (shopAnalyzer.reviewDocument (shopRoot.join ⟨"app/page.erb.ast.json"⟩)
          shopDocument)] := by
  have hdocuments : shopAnalyzer.documents shopFiles =
      [(shopRoot.join ⟨"app/cart.erb.ast.json"⟩, .text ""),
        (shopRoot.join ⟨"app/page.erb.ast.json"⟩, .text shopText)] := by rfl
  have hcart : Document.parse? "" = none := by decide +kernel
  have hpage : Document.parse? shopText = some shopDocument := by decide +kernel
  rw [Analyzer.analyze_eq_summarize, hdocuments, List.map_cons, List.map_singleton,
    Analyzer.outcomeOfFound_of_parse?_eq_none _ _ hcart,
    Analyzer.outcomeOfFound_of_parse?_eq_some _ _ hpage]
  rfl

/-- The check of the shop as a project fails, for what is in the document that can be parsed. -/
theorem exists_project_check_shop :
    ∃ verdict, Project.check shopFiles ⟨"shop"⟩ {} = .ok verdict ∧ verdict.isFailure = true ∧
      verdict.report.filesSkipped = 1 ∧
      verdict.report.violations.map (·.location) = [⟨⟨"app/page.erb"⟩, 1, 1⟩] := by
  have hfound : (shopAnalyzer.analyze shopFiles).map (fun report => (report.failsAt .warning,
      report.filesSkipped, report.violations.map (·.location))) =
        .ok (true, 1, [⟨⟨"app/page.erb"⟩, 1, 1⟩]) := by
    rw [analyze_shop]
    decide +kernel
  obtain ⟨report, hreport, hparts⟩ := Except.map_eq_ok_iff.mp hfound
  obtain ⟨hfailure, hparts⟩ := Prod.mk.inj hparts
  obtain ⟨hskipped, hlocations⟩ := Prod.mk.inj hparts
  refine ⟨{ report, failOn := .warning }, ?_, hfailure, hskipped, hlocations⟩
  exact (project_check_eq_ok_iff (project_loadConfig load_shopConfig)).mpr
    ⟨.minimal, rfl, rfl, shopAnalyzer, analyzer_shop, hreport⟩

/-- In the shop both ways find the name of the user of a post. -/
theorem agrees_of_samePlace_shop :
    shopFiles.Leads shopFiles.current ∧ (⟨"shop"⟩ : Path).text ≠ "" ∧
      (configPath (shopFiles.canonical ⟨"shop"⟩)).text.utf8ByteSize ≤ FileSystem.maxPathSize ∧
      Config.load shopFiles (configPath ⟨"shop"⟩) = .ok shopConfig ∧
      SamePlace shopFiles (shopFiles.currentPath.join ⟨"shop"⟩)
        (shopFiles.currentPath.join (Path.join ⟨"shop"⟩ shopConfig.analyzer.root)) ∧
      Agrees shopFiles {} ⟨"shop"⟩ shopConfig ∧
      ∃ verdict, Project.check shopFiles ⟨"shop"⟩ {} = .ok verdict ∧
        verdict.report.filesSkipped = 1 ∧
        verdict.report.violations.map (·.location) = [⟨⟨"app/page.erb"⟩, 1, 1⟩] ∧
        run shopFiles {} ["check", "shop"] =
          { exitCode := 1, output := render verdict.report .text, files := shopFiles } := by
  have hcurrent : shopFiles.Leads shopFiles.current := by
    refine ⟨fun name hname => ?_, by decide⟩
    rw [List.mem_singleton.mp hname]
    constructor <;> decide
  have hdirectory : (⟨"shop"⟩ : Path).text ≠ "" := by decide
  have hsize : (configPath (shopFiles.canonical ⟨"shop"⟩)).text.utf8ByteSize ≤
      FileSystem.maxPathSize := by decide +kernel
  have hroot : SamePlace shopFiles (shopFiles.currentPath.join ⟨"shop"⟩)
      (shopFiles.currentPath.join (Path.join ⟨"shop"⟩ shopConfig.analyzer.root)) :=
    samePlace_of_root_here hdirectory
      (FileSystem.find_eq_ok_iff.mpr ⟨["home", "shop"], by decide +kernel, rfl⟩)
      (by decide +kernel) rfl
  have hagrees : Agrees shopFiles {} ⟨"shop"⟩ shopConfig :=
    agrees_of_samePlace hcurrent hdirectory hsize load_shopConfig hroot
  obtain ⟨verdict, hverdict, hfailure, hskipped, hlocations⟩ := exists_project_check_shop
  have hrun := hagrees.run_of_verdict rfl (by decide) verdict hverdict
  rw [if_pos hfailure] at hrun
  exact ⟨hcurrent, hdirectory, hsize, load_shopConfig, hroot, hagrees, verdict, hverdict, hskipped,
    hlocations, hrun⟩

/-! ## Another root -/

/-- A document with an instance variable, in JSON. -/
def strayText : String :=
  "\x7b\"root\":\x7b\"type\":\"reference\",\"kind\":\"ivar\",\"name\":\"@post\"\x7d\x7d"

/-- A document with an instance variable. -/
def strayDocument : Document where
  path := none
  root := .reference .instanceVariable "@post" {}

/-- A configuration with a root of its own, in TOML. -/
def strayConfigText : String :=
  "[analyzer]\nroot = \"ast\"\nexclude = [\"*.bak\"]\n"

/-- A configuration with a root of its own. -/
def strayConfig : Config where
  analyzer := { root := ⟨"ast"⟩, excludes := ["*.bak"] }

/-- A shop with a document that is not below the configured root. -/
def strayFiles : FileSystem where
  tree := .directory [("shop", .directory
    [("app", .directory [("views", .directory [("_row.erb.ast.json", .text strayText)])]),
      ("ast", .directory []), ("demeter-lint.toml", .text strayConfigText)])]

/-- The path of the document. -/
def strayPath : Path := ⟨"/shop/app/views/_row.erb.ast.json"⟩

/-- The analyzer of the shop on the command line. -/
def strayAnalyzer : Analyzer where
  root := ⟨"/shop"⟩
  rules := allRules .empty strayConfig
  excludes := [⟨"*.bak", [.anyText, .literal '.', .literal 'b', .literal 'a', .literal 'k']⟩]
  includes := []
  config := strayConfig
  strict := false

theorem analyze_stray :
    strayAnalyzer.analyze strayFiles =
      Analyzer.summarize false
        [.reviewed (strayAnalyzer.reviewDocument strayPath strayDocument)] := by
  have hdocuments : strayAnalyzer.documents strayFiles = [(strayPath, .text strayText)] := by rfl
  have hparse : Document.parse? strayText = some strayDocument := by decide +kernel
  rw [Analyzer.analyze_eq_summarize, hdocuments, List.map_singleton,
    Analyzer.outcomeOfFound_of_parse?_eq_some _ _ hparse]
  rfl

/-- The command line reviews what is outside of the configured root, and fails where the project
does not. -/
theorem not_agrees_elsewhere :
    Config.load strayFiles (configPath ⟨"/shop"⟩) = .ok strayConfig ∧
      (∃ verdict, Project.check strayFiles ⟨"/shop"⟩ {} = .ok verdict ∧
        verdict.isFailure = false) ∧
      ∃ verdict, check strayFiles { path := ⟨"/shop"⟩ }
          (configSource strayFiles {} ⟨"/shop"⟩ none) = .ok verdict ∧
        verdict.isFailure = true := by
  have hfind : strayFiles.find (configPath ⟨"/shop"⟩) = .ok (.text strayConfigText) :=
    FileSystem.find_eq_ok_iff.mpr ⟨["shop", "demeter-lint.toml"], by decide +kernel, rfl⟩
  have hparse : Config.parse strayConfigText = .ok strayConfig := by decide +kernel
  have hconfig : Config.load strayFiles (configPath ⟨"/shop"⟩) = .ok strayConfig := by
    rw [load_of_find hfind, hparse]
  have hcommand : loadConfig strayFiles (configSource strayFiles {} ⟨"/shop"⟩ none) =
      .ok strayConfig :=
    loadConfig_configSource FileSystem.leads_nil (by decide) (by decide +kernel) hconfig
  refine ⟨hconfig, ⟨{ report := {}, failOn := .error }, ?_, rfl⟩, ?_⟩
  · unfold Project.check
    rw [project_loadConfig hconfig]
    decide +kernel
  · have hfails : (Analyzer.summarize false [.reviewed (strayAnalyzer.reviewDocument strayPath
        strayDocument)]).map (·.failsAt .error) = .ok true := by decide +kernel
    obtain ⟨report, hreport, hfailure⟩ := Except.map_eq_ok_iff.mp hfails
    refine ⟨{ report, failOn := .error }, (check_eq_ok_iff hcommand).mpr ?_, hfailure⟩
    exact ⟨rfl, strayAnalyzer, by rfl, analyze_stray.trans hreport⟩

end CommandLine

end RailsReview
