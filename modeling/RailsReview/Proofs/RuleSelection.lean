import Mathlib.Data.List.Forall2
import Mathlib.Data.List.TakeWhile
import RailsReview.Proofs.FrontEnds
import RailsReview.Proofs.PickedRules

/-!
# Selecting rules

The rules of a check can be listed by name or by code, in any order and with blanks around them.
The report is then the one by all rules, less the violations of rules that the list does not name.
The minimal preset selects as a list with a single rule does.

Nothing keeps a list from naming a rule several times, be it once by name and once by code.  The
rule then finds everything as many times.

* `Text.pads_iff`: trimming finds what stands between blanks.
* `CommandLine.Lists`, `CommandLine.lists_iff`: which entries a text lists.
* `CommandLine.report`, `CommandLine.check_eq_report`: the report of a check.
* `CommandLine.report_pick`: checks that differ in their rules only.
* `CommandLine.Selects`: what lists of rules and the minimal preset select from the full report.
* `CommandLine.selects_of_presets`: they do.
* `CommandLine.report_rules_repeated`: a rule that is listed twice finds everything twice.
-/

namespace RailsReview

/-- The rules have no bearing on the other parts of an analyzer, and neither has the preset that a
configuration asks for. -/
theorem AnalyzerBuilder.build_pick (builder : AnalyzerBuilder) (entries : List String)
    (config : Config) (preset other : Option String) (currentDirectory : Path) :
    build { builder with
        rules := pick entries builder.rules, config := some { config with preset } }
        currentDirectory =
      (build { builder with config := some { config with preset := other } } currentDirectory).map
        (·.pick entries { config with preset }) := by
  have hexcludes : excludePatterns { builder with
      rules := pick entries builder.rules, config := some { config with preset } } =
        excludePatterns { builder with config := some { config with preset := other } } := rfl
  have hincludes : includePatterns { builder with
      rules := pick entries builder.rules, config := some { config with preset } } =
        includePatterns { builder with config := some { config with preset := other } } := rfl
  rw [build, build, hexcludes, hincludes]
  cases compile (excludePatterns { builder with config := some { config with preset := other } })
    with
  | error fault => rfl
  | ok excludes =>
    cases compile (includePatterns { builder with config := some { config with preset := other } })
      <;> rfl

/-! ## Lists of rules -/

namespace Text

/-- A text is an entry with blanks around it.  The entry itself does not start or end with one. -/
structure Pads (text entry : List Char) : Prop where
  exists_blanks : ∃ before after, text = before ++ entry ++ after ∧
    (∀ c ∈ before, isBlank c = true) ∧ ∀ c ∈ after, isBlank c = true
  head?_not_blank : ∀ c ∈ entry.head?, isBlank c = false
  getLast?_not_blank : ∀ c ∈ entry.getLast?, isBlank c = false

theorem dropWhile_isBlank_append {before text : List Char}
    (hbefore : ∀ c ∈ before, isBlank c = true) (htext : ∀ c ∈ text.head?, isBlank c = false) :
    (before ++ text).dropWhile isBlank = text := by
  rw [List.dropWhile_append_of_pos hbefore]
  cases text with
  | nil => rfl
  | cons c text => exact List.dropWhile_cons_of_neg (by simpa using htext c rfl)

/-- Trimming takes off the blanks around the entry. -/
theorem trim_eq_of_pads {text entry : List Char} (h : Pads text entry) : trim text = entry := by
  obtain ⟨⟨before, after, rfl, hbefore, hafter⟩, hhead, hlast⟩ := h
  rw [trim, List.append_assoc]
  by_cases hentry : entry = []
  · have hblank : ∀ c ∈ before ++ after, isBlank c = true :=
      List.forall_mem_append.mpr ⟨hbefore, hafter⟩
    rw [hentry, List.nil_append, List.dropWhile_eq_nil_iff.mpr hblank]
    rfl
  · rw [dropWhile_isBlank_append hbefore fun c hc => hhead c ?_, List.reverse_append,
      dropWhile_isBlank_append (by simpa using hafter) fun c hc => hlast c ?_,
      List.reverse_reverse]
    · rwa [List.head?_reverse] at hc
    · rwa [List.head?_append_of_ne_nil _ hentry] at hc

theorem not_isBlank_of_mem_head?_dropWhile {text : List Char} :
    ∀ c ∈ (text.dropWhile isBlank).head?, isBlank c = false := fun c hc => by
  have h := List.head?_dropWhile_not isBlank text
  rw [hc] at h
  exact h

theorem dropWhile_isBlank_eq_trim_append (text : List Char) :
    text.dropWhile isBlank =
      trim text ++ ((text.dropWhile isBlank).reverse.takeWhile isBlank).reverse := by
  rw [trim, ← List.reverse_append, List.takeWhile_append_dropWhile, List.reverse_reverse]

/-- What trimming leaves is the entry. -/
theorem pads_trim (text : List Char) : Pads text (trim text) where
  exists_blanks := by
    refine ⟨text.takeWhile isBlank,
      ((text.dropWhile isBlank).reverse.takeWhile isBlank).reverse, ?_,
      fun c => List.mem_takeWhile_imp, fun c hc => ?_⟩
    · rw [List.append_assoc, ← dropWhile_isBlank_eq_trim_append, List.takeWhile_append_dropWhile]
    · exact List.mem_takeWhile_imp (List.mem_reverse.mp hc)
  head?_not_blank c hc := by
    have hhead : c ∈ (text.dropWhile isBlank).head? := by
      rw [dropWhile_isBlank_eq_trim_append, List.head?_append, hc]
      rfl
    exact not_isBlank_of_mem_head?_dropWhile c hhead
  getLast?_not_blank c hc := by
    rw [trim, List.getLast?_reverse] at hc
    exact not_isBlank_of_mem_head?_dropWhile c hc

theorem pads_iff {text entry : List Char} : Pads text entry ↔ trim text = entry :=
  ⟨trim_eq_of_pads, fun h => h ▸ pads_trim text⟩

end Text

namespace CommandLine

/-- The entries that a text lists: what stands between its commas, less the blanks around it. -/
def Lists (list : String) (entries : List String) : Prop :=
  List.Forall₂ Text.Pads (list.toList.splitOn ',') (entries.map String.toList)

theorem lists_iff {list : String} {entries : List String} :
    Lists list entries ↔ ruleEntries list = entries := by
  have hentry : ∀ piece (entry : String),
      Text.Pads piece entry.toList ↔ String.ofList (Text.trim piece) = entry := by
    intro piece entry
    rw [Text.pads_iff, ← String.toList_inj, String.toList_ofList]
  rw [Lists, List.forall₂_map_right_iff, ruleEntries]
  simp only [hentry]
  rw [← List.forall₂_map_left_iff, List.forall₂_eq_eq_eq]

variable {files : FileSystem} {options : CheckOptions} {config : Config}

/-! ## Reports -/

/-- The report of a check with a configuration. -/
def report (files : FileSystem) (options : CheckOptions) (config : Config) :
    Except CheckError Report := do
  let analyzer ← analyzer files options config
  (analyzer.analyze files).mapError .analysis

theorem report_of_analyzer {own : Analyzer} (h : analyzer files options config = .ok own) :
    report files options config = (own.analyze files).mapError .analysis := by
  rw [report, h]
  rfl

/-- A check makes the report with the configuration that it loads. -/
theorem check_eq_report (files : FileSystem) (options : CheckOptions) (source : ConfigSource) :
    check files options source = (do
      let config ← loadConfig files source
      let failOn ← failOn config
      let report ← report files options config
      return { report, failOn }) := by
  simp only [check, report, bind_assoc]

/-! ## Rules -/

/-- The names and codes of rules do not depend on the models or the configuration. -/
theorem exists_mem_allRules {models : ModelIndex} {rule : Rule}
    (h : rule ∈ allRules models config) :
    ∃ listed ∈ allRules .empty {}, listed.name = rule.name ∧ listed.code = rule.code := by
  rw [allRules, List.mem_cons, List.mem_singleton] at h
  rcases h with rfl | rfl
  · exact ⟨_, List.mem_cons_self, rfl, rfl⟩
  · exact ⟨_, List.mem_cons_of_mem _ List.mem_cons_self, rfl, rfl⟩

theorem chooseRules_of_preset {name? : Option String} {preset : Preset} (models : ModelIndex)
    (h : Preset.ofName? (name?.getD "recommended") = some preset) :
    chooseRules { options with rules := none } models { config with preset := name? } =
      .ok (preset.rules models config) :=
  chooseRules_none_eq_ok_iff.mpr ⟨preset, h, rfl⟩

/-- The rules of the minimal preset are those that the name of one of them picks. -/
theorem minimal_rules_eq_pickRules (models : ModelIndex) :
    Preset.minimal.rules models config = pickRules [LawOfDemeter.name] models config := by
  rfl

/-- The analyzer of a check whose rules are known once the models are. -/
theorem analyzer_eq_bind {chosen : ModelIndex → List Rule}
    (h : ∀ models, chooseRules options models config = .ok (chosen models)) :
    analyzer files options config = (do
      let models ← loadModels files options config
      let builder : AnalyzerBuilder :=
        { root := some options.path
          rules := chosen models
          excludes := options.excludes
          config := some config }
      (builder.build files.currentPath).mapError .pattern) := by
  unfold analyzer
  simp only [h]
  rfl

section

variable {recommended : Option String}
  (hrecommended : Preset.ofName? (recommended.getD "recommended") = some .recommended)

include hrecommended

/-- The full analyzer has all rules. -/
theorem exists_rules_eq_allRules {analyzer : Analyzer}
    (h : CommandLine.analyzer files { options with rules := none }
      { config with preset := recommended } = .ok analyzer) :
    (∃ models, analyzer.rules = allRules models config) ∧
      analyzer.config = { config with preset := recommended } := by
  unfold CommandLine.analyzer at h
  simp only [Except.bind_eq_ok_iff, Except.mapError_eq_ok_iff, chooseRules_of_preset _ hrecommended,
    AnalyzerBuilder.build_eq_ok_iff] at h
  obtain ⟨models, -, _, hrules, excludes, includes, -, -, rfl⟩ := h
  cases hrules
  exact ⟨⟨models, rfl⟩, rfl⟩

variable {rules preset : Option String} {entries : List String}
  (hrules : ∀ models, chooseRules { options with rules } models { config with preset } =
    .ok (pickRules entries models config))

include hrules

/-- A check with other rules has another analyzer, which differs in its rules only. -/
theorem analyzer_pick :
    analyzer files { options with rules } { config with preset } =
      (analyzer files { options with rules := none } { config with preset := recommended }).map
        (·.pick entries { config with preset }) := by
  rw [analyzer_eq_bind hrules,
    analyzer_eq_bind fun models => chooseRules_of_preset models hrecommended]
  have hmodels : loadModels files { options with rules } { config with preset } =
      loadModels files { options with rules := none } { config with preset := recommended } := rfl
  rw [hmodels]
  cases loadModels files { options with rules := none } { config with preset := recommended } with
  | error error => rfl
  | ok models =>
    have hbuild := AnalyzerBuilder.build_pick
      { root := some options.path
        rules := allRules models config
        excludes := options.excludes }
      entries config preset recommended files.currentPath
    rw [← pickRules_eq_pick] at hbuild
    exact (congrArg (Except.mapError CheckError.pattern) hbuild).trans (Except.mapError_map _ _ _)

theorem report_pick {times : String → String → Nat}
    (htimes : ∀ rule ∈ allRules .empty {},
      times rule.name rule.code = timesNamed entries rule.name rule.code) :
    report files { options with rules } { config with preset } =
      (report files { options with rules := none } { config with preset := recommended }).map
        (·.repeatEach times) := by
  rw [report, report, analyzer_pick hrecommended hrules]
  cases hfull : analyzer files { options with rules := none }
      { config with preset := recommended } with
  | error error => rfl
  | ok full =>
    obtain ⟨⟨models, hmodels⟩, hconfig⟩ := exists_rules_eq_allRules hrecommended hfull
    have htimes' : ∀ rule ∈ full.rules,
        times rule.name rule.code = timesNamed entries rule.name rule.code := by
      intro rule hrule
      obtain ⟨listed, hlisted, hname, hcode⟩ := exists_mem_allRules (hmodels ▸ hrule)
      rw [← hname, ← hcode, htimes listed hlisted]
    have hanalyze : (full.pick entries { config with preset }).analyze files =
        (full.analyze files).map (·.repeatEach times) := by
      refine Analyzer.analyze_pick (by rw [hconfig]) htimes' (fun file node => ?_) files
      rw [hmodels]
      exact length_flatMap_found_allRules file node models config
    exact (congrArg (Except.mapError CheckError.analysis) hanalyze).trans (Except.mapError_map _ _ _)

end

/-- Rules that are listed are picked, whatever preset is configured. -/
theorem report_rules_eq {recommended : Option String}
    (hrecommended : Preset.ofName? (recommended.getD "recommended") = some .recommended)
    (files : FileSystem) (options : CheckOptions) (config : Config) {list : String}
    {times : String → String → Nat} (htimes : ∀ rule ∈ allRules .empty {},
      times rule.name rule.code = timesNamed (ruleEntries list) rule.name rule.code) :
    report files { options with rules := some list } config =
      (report files { options with rules := none } { config with preset := recommended }).map
        (·.repeatEach times) := by
  have hpicked : ∀ models, chooseRules { options with rules := some list } models
      { config with preset := config.preset } =
        .ok (pickRules (ruleEntries list) models config) := fun models => rfl
  exact report_pick hrecommended hpicked htimes

/-! ## Selections -/

/-- What lists of rules and the minimal preset select from the report with all rules, where the
presets are asked for by `recommended` and `minimal`. -/
structure Selects (files : FileSystem) (options : CheckOptions) (config : Config)
    (recommended minimal : Option String) : Prop where
  /-- Every text lists entries, and in one way only. -/
  existsUnique_lists : ∀ list, ∃! entries, Lists list entries
  /-- With a list of rules, each violation is reported as often as the list names its rule. -/
  report_rules : ∀ list entries, Lists list entries →
    report files { options with rules := some list } config =
      (report files { options with rules := none } { config with preset := recommended }).map
        (·.repeatEach (timesNamed entries))
  /-- If the list names no rule twice, violations are reported as in the full report, or not at
  all. -/
  report_rules_of_once : ∀ list entries, Lists list entries →
    (∀ rule ∈ allRules .empty {}, timesNamed entries rule.name rule.code ≤ 1) →
    report files { options with rules := some list } config =
      (report files { options with rules := none } { config with preset := recommended }).map
        (·.restrict fun name code => name ∈ entries ∨ code ∈ entries)
  /-- The minimal preset reports the violations of one rule. -/
  report_minimal :
    report files { options with rules := none } { config with preset := minimal } =
      (report files { options with rules := none } { config with preset := recommended }).map
        (·.restrict fun name _ => name = LawOfDemeter.name)

theorem timesNamed_pos_iff {entries : List String} {name code : String} :
    0 < timesNamed entries name code ↔ name ∈ entries ∨ code ∈ entries := by
  rw [timesNamed, List.countP_pos_iff]
  simp only [decide_eq_true_eq]
  constructor
  · rintro ⟨entry, hentry, rfl | rfl⟩
    · exact .inl hentry
    · exact .inr hentry
  · rintro (hname | hcode)
    · exact ⟨name, hname, .inl rfl⟩
    · exact ⟨code, hcode, .inr rfl⟩

/-- **Listing rules selects from the full report.**  Whatever the project and its configuration are
and whatever the list is, the report is the one by all rules, with each violation as often as the
list names its rule.  So the list restricts the report, if it names no rule twice. -/
theorem selects_of_presets {recommended minimal : Option String}
    (hrecommended : Preset.ofName? (recommended.getD "recommended") = some .recommended)
    (hminimal : Preset.ofName? (minimal.getD "recommended") = some .minimal)
    (files : FileSystem) (options : CheckOptions) (config : Config) :
    Selects files options config recommended minimal where
  existsUnique_lists list :=
    ⟨ruleEntries list, lists_iff.mpr rfl, fun entries hentries => (lists_iff.mp hentries).symm⟩
  report_rules list entries hlist := by
    obtain rfl := lists_iff.mp hlist
    exact report_rules_eq hrecommended files options config fun rule _ => rfl
  report_rules_of_once list entries hlist honce := by
    obtain rfl := lists_iff.mp hlist
    simp only [← Report.repeatEach_ite]
    refine report_rules_eq hrecommended files options config fun rule hrule => ?_
    have hle := honce rule hrule
    simp only [← timesNamed_pos_iff, decide_eq_true_eq]
    split <;> omega
  report_minimal := by
    have hpicked : ∀ models, chooseRules { options with rules := none } models
        { config with preset := minimal } =
          .ok (pickRules [LawOfDemeter.name] models config) := fun models => by
      rw [chooseRules_of_preset models hminimal, minimal_rules_eq_pickRules]
    simp only [← Report.repeatEach_ite]
    exact report_pick hrecommended hpicked (by decide)

theorem selects_of_presets_stray :
    Preset.ofName? ((none : Option String).getD "recommended") = some .recommended ∧
      Preset.ofName? ((some "Minimal").getD "recommended") = some .minimal ∧
      Selects strayFiles { path := ⟨"/shop"⟩ } strayConfig none (some "Minimal") := by
  have hrecommended : Preset.ofName? ((none : Option String).getD "recommended") =
      some .recommended := by decide
  have hminimal : Preset.ofName? ((some "Minimal").getD "recommended") = some .minimal := by decide
  exact ⟨hrecommended, hminimal,
    selects_of_presets hrecommended hminimal strayFiles { path := ⟨"/shop"⟩ } strayConfig⟩

theorem report_stray :
    report strayFiles { path := ⟨"/shop"⟩ } strayConfig =
      (Analyzer.summarize false
        [.reviewed (strayAnalyzer.reviewDocument strayPath strayDocument)]).mapError .analysis := by
  have hanalyzer : analyzer strayFiles { path := ⟨"/shop"⟩ } strayConfig = .ok strayAnalyzer := by
    rfl
  rw [report_of_analyzer hanalyzer, analyze_stray]

/-- A list with the code and the name of the same rule. -/
def repeatedList : String := "DL002,replace-instance-variable-with-local-variable"

/-- A rule that is listed by its code and by its name finds everything twice, so that the report is
no restriction of the full one. -/
theorem report_rules_repeated :
    ∃ full listed, report strayFiles { path := ⟨"/shop"⟩ } strayConfig = .ok full ∧
      report strayFiles { path := ⟨"/shop"⟩, rules := some repeatedList } strayConfig =
        .ok listed ∧
      full.violations.length = 1 ∧ listed.violations.length = 2 ∧
      ∀ keeps, listed ≠ full.restrict keeps := by
  have hlengths : (Analyzer.summarize false [.reviewed (strayAnalyzer.reviewDocument strayPath
      strayDocument)]).map (fun report => (report.violations.length,
        (report.repeatEach (timesNamed (ruleEntries repeatedList))).violations.length)) =
      .ok (1, 2) := by decide +kernel
  obtain ⟨full, hsummary, hlength⟩ := Except.map_eq_ok_iff.mp hlengths
  obtain ⟨hone, htwo⟩ := Prod.mk.inj hlength
  have hfull : report strayFiles { path := ⟨"/shop"⟩ } strayConfig = .ok full := by
    rw [report_stray, hsummary]
    rfl
  have hlisted : report strayFiles { path := ⟨"/shop"⟩, rules := some repeatedList } strayConfig =
      (report strayFiles { path := ⟨"/shop"⟩ } strayConfig).map
        (·.repeatEach (timesNamed (ruleEntries repeatedList))) := by
    have hrecommended : Preset.ofName? ((none : Option String).getD "recommended") =
        some .recommended := by decide
    exact report_rules_eq hrecommended strayFiles { path := ⟨"/shop"⟩ } strayConfig
      fun rule _ => rfl
  rw [hfull] at hlisted
  refine ⟨full, full.repeatEach (timesNamed (ruleEntries repeatedList)), hfull, hlisted, hone, htwo,
    fun keeps h => ?_⟩
  have hle : (full.restrict keeps).violations.length ≤ full.violations.length :=
    List.length_filter_le _ _
  rw [← h, hone, htwo] at hle
  exact absurd hle (by decide)

end CommandLine

end RailsReview
