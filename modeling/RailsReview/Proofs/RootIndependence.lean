import RailsReview.Proofs.JoinedPaths
import RailsReview.Proofs.OrderIndependence
import RailsReview.Proofs.Relocation

/-!
# Where the project stands does not matter

The root is taken off a path in three places: off the path of a document before the patterns see
it, off the same path when a document does not name its source file, and off the path of the source
file before the rules see it.  Each falls back on the whole path if the root is not where the path
starts.

Below the root, all three give the path of the source file as it is written there.  So nothing that
is reported depends on the root, nor on whether a document names its source file from the root, from
the start of all paths or not at all.

## What a rule may look at

A rule is handed the path of the source file as the document names it, beside the path relative to
the root.  Which documents name it with the root in front shows in the former, so there a rule has
to keep to the latter.  The rules that come with the program do.

* `review_eq_of_looksBelowRoot`: such rules make no difference between paths to one source file.
* `BuiltIn.looksBelowRoot`: the rules that come with the program are such rules.
* `Analyzer.sourcePath_storedAt`, `Analyzer.relativePath_sourceFile`: the three places agree.
* `Analyzer.seesBelowRoot`: so patterns, rules and violations see the path below the root.
* `Analyzer.independent_of_root`: the findings in a document below another root.
* `Analyzer.analyze_moved`: the report on a project that stands somewhere else.
-/

namespace RailsReview

/-! ## Rules that look below the root -/

/-- Two source files agree below the root. -/
structure SourceFile.AgreesBelowRoot (file other : SourceFile) : Prop where
  relativePath_eq : file.relativePath = other.relativePath
  isPartialView_eq : file.isPartialView = other.isPartialView

/-- A rule makes no difference between source files that agree below the root. -/
structure Rule.LooksBelowRoot (rule : Rule) : Prop where
  appliesTo_eq : ∀ {file other : SourceFile}, file.AgreesBelowRoot other →
    rule.appliesTo file = rule.appliesTo other
  inspect_eq : ∀ {file other : SourceFile}, file.AgreesBelowRoot other →
    rule.inspect file = rule.inspect other

/-- Rules that look below the root find the same in source files that agree there. -/
theorem review_eq_of_looksBelowRoot {rules : List Rule} {file other : SourceFile}
    (hrules : ∀ rule ∈ rules, rule.LooksBelowRoot) (h : file.AgreesBelowRoot other)
    (root : Node) : review file root rules = review other root rules := by
  have hactive : rules.filter (·.appliesTo file) = rules.filter (·.appliesTo other) :=
    List.filter_congr fun rule hrule => (hrules rule hrule).appliesTo_eq h
  rw [review_eq_flatMap_preorder, review_eq_flatMap_preorder, hactive]
  refine List.flatMap_congr fun node _ => List.flatMap_congr fun rule hrule => ?_
  have hviolation : rule.violation file = rule.violation other := by
    funext remark
    rw [Rule.violation, Rule.violation, h.relativePath_eq]
  rw [Rule.visit, Rule.visit, (hrules rule (List.mem_of_mem_filter hrule)).inspect_eq h, hviolation]

theorem LawOfDemeter.looksBelowRoot_rule (models : ModelIndex) (severity : Severity) :
    (rule models severity).LooksBelowRoot :=
  ⟨fun _ => rfl, fun _ => rfl⟩

theorem PartialView.looksBelowRoot_rule (view : PartialView) : view.rule.LooksBelowRoot := by
  refine ⟨fun {file other} h => ?_, fun _ => rfl⟩
  change view.appliesTo file = view.appliesTo other
  rw [appliesTo, appliesTo, h.relativePath_eq, h.isPartialView_eq]

/-- The rules that come with the program look below the root. -/
theorem BuiltIn.looksBelowRoot {rules : List Rule} (h : BuiltIn rules) :
    ∀ rule ∈ rules, rule.LooksBelowRoot := by
  obtain ⟨models, config, hrules⟩ := h.exists_mem_allRules
  intro rule hrule
  have hmem := hrules rule hrule
  rw [allRules, List.mem_cons, List.mem_singleton] at hmem
  rcases hmem with rfl | rfl
  · exact LawOfDemeter.looksBelowRoot_rule models .error
  · exact PartialView.looksBelowRoot_rule _

namespace Analyzer

/-! ## The document of a source file -/

/-- Where the document of a source file is found: at its own path below the root. -/
def storedAt (analyzer : Analyzer) (source : Path) : Path :=
  analyzer.root.join source.documentOf

/-- The ways in which a document can name a source file: not at all, relative to the root, and with
the root in front. -/
def declarations (analyzer : Analyzer) (source : Path) : List (Option Path) :=
  [none, some source, some (analyzer.root.join source)]

/-- The source file of a document that names it as declared. -/
def sourceFile (analyzer : Analyzer) (documentPath : Path) (declared : Option Path) : SourceFile :=
  .locate (declared.getD (analyzer.sourcePath documentPath)) analyzer.root

/-- Whether a file is a partial view shows below the root. -/
theorem isPartialView_sourceFile (analyzer : Analyzer) (documentPath : Path)
    (declared : Option Path) :
    (analyzer.sourceFile documentPath declared).isPartialView =
      SourceFile.isPartial (analyzer.sourceFile documentPath declared).relativePath := by
  rw [sourceFile, SourceFile.locate]

/-- The violations in the document of a source file. -/
def findingsIn (analyzer : Analyzer) (source : Path) (declared : Option Path) (tree : Node) :
    List Violation :=
  analyzer.reviewDocument (analyzer.storedAt source) ⟨declared, tree⟩

/-- Whether the patterns leave out a path relative to the root. -/
def leavesOut (analyzer : Analyzer) (relative : Path) : Bool :=
  analyzer.excludes.any (·.accepts relative.text) ||
    (!analyzer.includes.isEmpty && !analyzer.includes.any (·.accepts relative.text))

/-- A review of a document is a review of its source file. -/
theorem reviewDocument_eq (analyzer : Analyzer) (documentPath : Path) (document : Document) :
    analyzer.reviewDocument documentPath document =
      (review (analyzer.sourceFile documentPath document.path) document.root
        analyzer.enabledRules).map (adjust analyzer.config) := rfl

/-- Violations are reported in the source file, by its path relative to the root. -/
theorem file_of_mem_reviewDocument {analyzer : Analyzer} {documentPath : Path}
    {document : Document} {violation : Violation}
    (h : violation ∈ analyzer.reviewDocument documentPath document) :
    violation.location.file = (analyzer.sourceFile documentPath document.path).relativePath := by
  rw [reviewDocument_eq] at h
  obtain ⟨found, hfound, rfl⟩ := List.mem_map.mp h
  obtain ⟨node, -, rule, -, -, hvisit⟩ := mem_review_iff.mp hfound
  obtain ⟨remark, -, rfl⟩ := Rule.exists_remark_of_mem_visit hvisit
  rw [adjust_location]
  rfl

/-! ## The three places -/

section

variable {analyzer : Analyzer} (habsolute : analyzer.root.isAbsolute = true) {source : Path}
  (hsource : source.IsPlain)

include habsolute hsource

theorem relativeTo_storedAt :
    (analyzer.storedAt source).relativeTo analyzer.root = source.documentOf := by
  rw [storedAt, hsource.documentOf.relativeTo_join_eq habsolute]

theorem shouldExclude_storedAt :
    analyzer.shouldExclude (analyzer.storedAt source) = analyzer.leavesOut source.documentOf := by
  rw [shouldExclude, relativeTo_storedAt habsolute hsource, leavesOut]

/-- The source file that a document does not name is found again. -/
theorem sourcePath_storedAt : analyzer.sourcePath (analyzer.storedAt source) = source := by
  have hstrip : Text.stripSuffix? source.documentOf.text documentSuffix = some source.text :=
    Text.stripSuffix?_eq_some_iff.mpr rfl
  rw [sourcePath, relativeTo_storedAt habsolute hsource, hstrip]
  rfl

/-- However a source file is named, its path relative to the root is the one below the root. -/
theorem relativePath_sourceFile {declared : Option Path}
    (h : declared ∈ analyzer.declarations source) :
    (analyzer.sourceFile (analyzer.storedAt source) declared).relativePath = source := by
  have hrelative := Path.relativeTo_of_relative hsource.isAbsolute_eq habsolute
  simp only [declarations, List.mem_cons, List.not_mem_nil, or_false] at h
  rcases h with rfl | rfl | rfl
  · rw [sourceFile, sourcePath_storedAt habsolute hsource]
    exact hrelative
  · exact hrelative
  · exact hsource.relativeTo_join_eq habsolute

end

/-! ## Findings -/

/-- What there is of a source file for the patterns, the rules and the report is its path below the
root, however its document names it. -/
structure SeesBelowRoot (analyzer : Analyzer) (source : Path) : Prop where
  shouldExclude_eq :
    analyzer.shouldExclude (analyzer.storedAt source) = analyzer.leavesOut source.documentOf
  relativePath_eq : ∀ declared ∈ analyzer.declarations source,
    (analyzer.sourceFile (analyzer.storedAt source) declared).relativePath = source
  isPartialView_eq : ∀ declared ∈ analyzer.declarations source,
    (analyzer.sourceFile (analyzer.storedAt source) declared).isPartialView =
      SourceFile.isPartial source
  file_eq : ∀ declared ∈ analyzer.declarations source, ∀ tree,
    ∀ violation ∈ analyzer.findingsIn source declared tree, violation.location.file = source

theorem seesBelowRoot {analyzer : Analyzer} (habsolute : analyzer.root.isAbsolute = true)
    {source : Path} (hsource : source.IsPlain) : analyzer.SeesBelowRoot source := by
  have hrelative : ∀ declared ∈ analyzer.declarations source,
      (analyzer.sourceFile (analyzer.storedAt source) declared).relativePath = source :=
    fun _ hdeclared => relativePath_sourceFile habsolute hsource hdeclared
  constructor
  case shouldExclude_eq => exact shouldExclude_storedAt habsolute hsource
  case relativePath_eq => exact hrelative
  case isPartialView_eq =>
    intro declared hdeclared
    rw [isPartialView_sourceFile, hrelative declared hdeclared]
  case file_eq =>
    intro declared hdeclared tree violation hviolation
    rw [findingsIn] at hviolation
    exact (file_of_mem_reviewDocument hviolation).trans (hrelative declared hdeclared)

/-- A source file that is named relative to the root, or not at all. -/
theorem sourceFile_of_relative {analyzer : Analyzer} (habsolute : analyzer.root.isAbsolute = true)
    {source : Path} (hsource : source.IsPlain) {declared : Option Path}
    (h : declared ∈ [none, some source]) :
    analyzer.sourceFile (analyzer.storedAt source) declared =
      ⟨source, source, SourceFile.isPartial source⟩ := by
  have hpath : declared.getD (analyzer.sourcePath (analyzer.storedAt source)) = source := by
    simp only [List.mem_cons, List.not_mem_nil, or_false] at h
    rcases h with rfl | rfl
    · exact sourcePath_storedAt habsolute hsource
    · rfl
  rw [sourceFile, hpath, SourceFile.locate,
    Path.relativeTo_of_relative hsource.isAbsolute_eq habsolute]

/-- **Where the project stands does not matter.**  For a source file on a plain path below either
of two absolute roots, patterns, rules and violations see its path below the root, its document is
left out for both or for none, and the findings in it are the same.  This is so for any rules at
all as long as documents name the source file relative to the root or not at all.  For rules that
look below the root, as those that come with the program do, it is so as well if a document names
the source file with the root in front. -/
theorem independent_of_root {analyzer : Analyzer} {root : Path}
    (habsolute : analyzer.root.isAbsolute = true) (hroot : root.isAbsolute = true)
    {source : Path} (hsource : source.IsPlain) :
    analyzer.SeesBelowRoot source ∧
      (analyzer.relocate root).SeesBelowRoot source ∧
      (analyzer.relocate root).shouldExclude ((analyzer.relocate root).storedAt source) =
        analyzer.shouldExclude (analyzer.storedAt source) ∧
      (∀ tree, ∀ declared ∈ [none, some source], ∀ other ∈ [none, some source],
        (analyzer.relocate root).findingsIn source other tree =
          analyzer.findingsIn source declared tree) ∧
      ((∀ rule ∈ analyzer.rules, rule.LooksBelowRoot) →
        ∀ tree, ∀ declared ∈ analyzer.declarations source,
          ∀ other ∈ (analyzer.relocate root).declarations source,
            (analyzer.relocate root).findingsIn source other tree =
              analyzer.findingsIn source declared tree) := by
  have hrelocated : (analyzer.relocate root).root.isAbsolute = true := hroot
  have hsees := seesBelowRoot habsolute hsource
  have hother := seesBelowRoot hrelocated hsource
  refine ⟨hsees, hother, hother.shouldExclude_eq.trans hsees.shouldExclude_eq.symm, ?_, ?_⟩
  · intro tree declared hdeclared other hdeclared'
    rw [findingsIn, findingsIn, reviewDocument_eq, reviewDocument_eq,
      sourceFile_of_relative hrelocated hsource hdeclared',
      sourceFile_of_relative habsolute hsource hdeclared, enabledRules_relocate, config_relocate]
  · intro hrules tree declared hdeclared other hdeclared'
    have hagrees : ((analyzer.relocate root).sourceFile
        ((analyzer.relocate root).storedAt source) other).AgreesBelowRoot
          (analyzer.sourceFile (analyzer.storedAt source) declared) :=
      ⟨(hother.relativePath_eq other hdeclared').trans
          (hsees.relativePath_eq declared hdeclared).symm,
        (hother.isPartialView_eq other hdeclared').trans
          (hsees.isPartialView_eq declared hdeclared).symm⟩
    have henabled : ∀ rule ∈ analyzer.enabledRules, rule.LooksBelowRoot := fun rule hrule =>
      hrules rule (List.mem_of_mem_filter hrule)
    rw [findingsIn, findingsIn, reviewDocument_eq, reviewDocument_eq, enabledRules_relocate,
      config_relocate, review_eq_of_looksBelowRoot henabled hagrees]

/-- A partial view of posts. -/
def postView : Path :=
  .along ["app", "views", "posts", "_post.html.erb"]

/-- All rules, for a project that stands in a directory which its own patterns would leave out,
among the views of another one. -/
def vendoredAnalyzer : Analyzer where
  root := ⟨"/srv/tmp/app/views"⟩
  rules := Preset.recommended.rules .empty {}
  excludes := [⟨"**/tmp/**",
    [.anyComponents, .literal 't', .literal 'm', .literal 'p', .literal '/', .anyComponents]⟩]
  includes := []
  config := {}
  strict := false

theorem independent_of_root_vendored :
    vendoredAnalyzer.root.isAbsolute = true ∧ (⟨"/"⟩ : Path).isAbsolute = true ∧
      postView.IsPlain ∧ (∀ rule ∈ vendoredAnalyzer.rules, rule.LooksBelowRoot) ∧
      vendoredAnalyzer.SeesBelowRoot postView ∧
      (vendoredAnalyzer.relocate ⟨"/"⟩).SeesBelowRoot postView ∧
      (vendoredAnalyzer.relocate ⟨"/"⟩).shouldExclude
          ((vendoredAnalyzer.relocate ⟨"/"⟩).storedAt postView) =
        vendoredAnalyzer.shouldExclude (vendoredAnalyzer.storedAt postView) ∧
      (∀ tree, ∀ declared ∈ [none, some postView], ∀ other ∈ [none, some postView],
        (vendoredAnalyzer.relocate ⟨"/"⟩).findingsIn postView other tree =
          vendoredAnalyzer.findingsIn postView declared tree) ∧
      ∀ tree, ∀ declared ∈ vendoredAnalyzer.declarations postView,
        ∀ other ∈ (vendoredAnalyzer.relocate ⟨"/"⟩).declarations postView,
          (vendoredAnalyzer.relocate ⟨"/"⟩).findingsIn postView other tree =
            vendoredAnalyzer.findingsIn postView declared tree := by
  have habsolute : vendoredAnalyzer.root.isAbsolute = true := by decide
  have hroot : (⟨"/"⟩ : Path).isAbsolute = true := by decide
  have hsource : postView.IsPlain := ⟨_, by decide, rfl⟩
  have hrules : ∀ rule ∈ vendoredAnalyzer.rules, rule.LooksBelowRoot :=
    (BuiltIn.preset .recommended .empty {}).looksBelowRoot
  obtain ⟨hsees, hother, hexcluded, hrelative, hdeclared⟩ :=
    independent_of_root habsolute hroot hsource
  exact ⟨habsolute, hroot, hsource, hrules, hsees, hother, hexcluded, hrelative, hdeclared hrules⟩

example : vendoredAnalyzer.shouldExclude
    ⟨"/srv/tmp/app/views/app/views/posts/_post.html.erb.ast.json"⟩ = false := by decide +kernel

example : (vendoredAnalyzer.reviewDocument
    ⟨"/srv/tmp/app/views/app/views/posts/_post.html.erb.ast.json"⟩
    ⟨none, .reference .instanceVariable "@post" ⟨1, 4⟩⟩).map (·.location) =
      [⟨⟨"app/views/posts/_post.html.erb"⟩, 1, 4⟩] := by decide +kernel

/-! ## Reports -/

/-- The source file that a document does not name is relative to the root. -/
theorem isAbsolute_sourcePath_documentPath {analyzer : Analyzer}
    (habsolute : analyzer.root.isAbsolute = true) {names : List String} (hnames : names ≠ []) :
    (analyzer.sourcePath (analyzer.documentPath names)).isAbsolute = false := by
  have hslash : ∀ text ∈ names.flatMap fun name => name.toList.splitOn '/', '/' ∉ text := by
    intro text htext
    obtain ⟨name, -, hname⟩ := List.mem_flatMap.mp htext
    exact (List.subset_and_not_mem_of_mem_splitOn hname).2
  have hrelative : ((analyzer.documentPath names).relativeTo analyzer.root).isAbsolute = false := by
    rw [relativeTo_documentPath habsolute hnames, namePieces]
    exact Path.isAbsolute_ofPieces_trimPieces hslash
  rw [sourcePath]
  cases hstrip : Text.stripSuffix? ((analyzer.documentPath names).relativeTo analyzer.root).text
      documentSuffix with
  | none => exact hrelative
  | some rest =>
    -- a text that starts with a slash does so with a longer ending
    rw [← Bool.not_eq_true, Path.isAbsolute, beq_iff_eq] at hrelative ⊢
    rw [Text.stripSuffix?_eq_some_iff.mp hstrip, String.toList_append,
      List.head?_append] at hrelative
    intro hhead
    have hrest : rest.toList.head? = some '/' := hhead
    exact hrelative (by rw [hrest, Option.some_or])

/-- **A project that stands somewhere else gives the same report,** unless a document names its
source file from the start of all paths, or the analysis is strict: then an error can name a path. -/
theorem analyze_moved {analyzer : Analyzer} {root : Path} {files others : FileSystem}
    (hstrict : analyzer.strict = false) (habsolute : analyzer.root.isAbsolute = true)
    (hroot : root.isAbsolute = true) (hfind : others.find root = files.find analyzer.root)
    (hdeclared : ∀ tree, files.find analyzer.root = .ok tree → ∀ found ∈ analyzer.keptBelow tree,
      ∀ document, found.2.content.map Document.parse? = .ok (some document) →
        ∀ path ∈ document.path, path.isAbsolute = false) :
    (analyzer.relocate root).analyze others = analyzer.analyze files := by
  refine analyze_relocate_of_findings hstrict habsolute hroot hfind
    fun tree htree found hfound document hdocument => ?_
  have hnames := ne_nil_of_mem_keptBelow hfound
  have hpath : (document.path.getD
      (analyzer.sourcePath (analyzer.documentPath found.1))).isAbsolute = false := by
    cases hpath : document.path with
    | none => exact isAbsolute_sourcePath_documentPath habsolute hnames
    | some path => exact hdeclared tree htree found hfound document hdocument path hpath
  have hlocate : SourceFile.locate (document.path.getD
      (analyzer.sourcePath (analyzer.documentPath found.1))) root =
        .locate (document.path.getD (analyzer.sourcePath (analyzer.documentPath found.1)))
          analyzer.root := by
    rw [SourceFile.locate, SourceFile.locate, Path.relativeTo_of_relative hpath hroot,
      Path.relativeTo_of_relative hpath habsolute]
  rw [reviewDocument_eq, reviewDocument_eq, sourceFile, sourceFile,
    sourcePath_relocate habsolute hroot hnames, root_relocate, hlocate, enabledRules_relocate,
    config_relocate]

end Analyzer

end RailsReview
