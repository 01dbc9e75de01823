import RailsReview.Proofs.Isolation
import RailsReview.Proofs.RelativePaths

/-!
# Two roots for one place

A root can be written in more than one way.  Two analyzers that differ only in how their root is
written find the same documents, though under paths that are written differently, and report the
same: patterns and findings see the path of a document relative to the root, and of the root itself
only the components.

* `SamePlace`: two paths lead to one place and have the same components.
* `Analyzer.shouldExclude_relocate`: the same documents are left out.
* `Analyzer.reviewDocument_relocate`: the same is found in a document.
* `Analyzer.documents_relocate`: the same documents are reviewed.
* `Analyzer.analyze_relocate`: the reports are equal.
-/

namespace RailsReview

/-- Two paths lead to one place and have the same components. -/
structure SamePlace (files : FileSystem) (path other : Path) : Prop where
  components_eq : path.components = other.components
  find_eq : files.find path = files.find other

theorem SamePlace.symm {files : FileSystem} {path other : Path} (h : SamePlace files path other) :
    SamePlace files other path :=
  ⟨h.components_eq.symm, h.find_eq.symm⟩

/-! ## Paths that do not matter -/

/-- The outcome without the path of a document that is no tree. -/
def Outcome.withoutPath : Outcome → Outcome
  | reviewed violations => reviewed violations
  | rejected _ => rejected ⟨""⟩
  | unreadable cause => unreadable cause

namespace Analyzer

theorem collect_withoutPath (report : Report) (outcome : Outcome) :
    collect false report outcome.withoutPath = collect false report outcome := by
  cases outcome <;> rfl

/-- Unless the analysis is strict, the path of a document that is no tree does not matter. -/
theorem summarize_map_withoutPath (outcomes : List Outcome) :
    summarize false (outcomes.map Outcome.withoutPath) = summarize false outcomes := by
  rw [summarize, summarize, List.foldlM_map]
  simp only [collect_withoutPath]

/-! ## Another root -/

/-- The analyzer with another root. -/
def relocate (analyzer : Analyzer) (root : Path) : Analyzer :=
  { analyzer with root }

@[simp] theorem root_relocate (analyzer : Analyzer) (root : Path) :
    (analyzer.relocate root).root = root := rfl

@[simp] theorem excludes_relocate (analyzer : Analyzer) (root : Path) :
    (analyzer.relocate root).excludes = analyzer.excludes := rfl

@[simp] theorem includes_relocate (analyzer : Analyzer) (root : Path) :
    (analyzer.relocate root).includes = analyzer.includes := rfl

@[simp] theorem config_relocate (analyzer : Analyzer) (root : Path) :
    (analyzer.relocate root).config = analyzer.config := rfl

@[simp] theorem enabledRules_relocate (analyzer : Analyzer) (root : Path) :
    (analyzer.relocate root).enabledRules = analyzer.enabledRules := rfl

@[simp] theorem strict_relocate (analyzer : Analyzer) (root : Path) :
    (analyzer.relocate root).strict = analyzer.strict := rfl

section

variable {analyzer : Analyzer} {root : Path} (habsolute : analyzer.root.isAbsolute = true)
  (hroot : root.isAbsolute = true) {names : List String} (hnames : names ≠ [])

include habsolute hroot hnames

/-- Relative to the root, the path of a document is the same for both. -/
theorem relativeTo_documentPath_relocate :
    ((analyzer.relocate root).documentPath names).relativeTo root =
      (analyzer.documentPath names).relativeTo analyzer.root := by
  have hrelocated : (analyzer.relocate root).root.isAbsolute = true := hroot
  rw [relativeTo_documentPath habsolute hnames]
  exact relativeTo_documentPath hrelocated hnames

theorem shouldExclude_relocate :
    (analyzer.relocate root).shouldExclude ((analyzer.relocate root).documentPath names) =
      analyzer.shouldExclude (analyzer.documentPath names) := by
  have h := relativeTo_documentPath_relocate habsolute hroot hnames
  rw [shouldExclude, shouldExclude, root_relocate, h, excludes_relocate, includes_relocate]

theorem sourcePath_relocate :
    (analyzer.relocate root).sourcePath ((analyzer.relocate root).documentPath names) =
      analyzer.sourcePath (analyzer.documentPath names) := by
  have h := relativeTo_documentPath_relocate habsolute hroot hnames
  rw [sourcePath, sourcePath, root_relocate, h]

/-- What is found in a document does not depend on how the root is written. -/
theorem reviewDocument_relocate (hcomponents : root.components = analyzer.root.components)
    (document : Document) :
    (analyzer.relocate root).reviewDocument ((analyzer.relocate root).documentPath names) document =
      analyzer.reviewDocument (analyzer.documentPath names) document := by
  have hlocate : ∀ path, SourceFile.locate path root = SourceFile.locate path analyzer.root := by
    intro path
    rw [SourceFile.locate, SourceFile.locate, Path.relativeTo_congr hcomponents]
  rw [reviewDocument, reviewDocument, sourcePath_relocate habsolute hroot hnames, reviewSource,
    reviewSource, root_relocate, hlocate, enabledRules_relocate, config_relocate]

end

/-- What becomes of a document does not depend on the root if what is found in it does not. -/
theorem withoutPath_outcomeOfFound_relocate {analyzer : Analyzer} {root : Path}
    {names : List String} {tree : FileTree}
    (h : ∀ document, tree.content.map Document.parse? = .ok (some document) →
      (analyzer.relocate root).reviewDocument ((analyzer.relocate root).documentPath names)
        document = analyzer.reviewDocument (analyzer.documentPath names) document) :
    ((analyzer.relocate root).outcomeOfFound
        ((analyzer.relocate root).documentPath names, tree)).withoutPath =
      (analyzer.outcomeOfFound (analyzer.documentPath names, tree)).withoutPath := by
  rw [outcomeOfFound_eq, outcomeOfFound_eq, held, held]
  cases hcontent : tree.content.map Document.parse? with
  | error cause => simp only [Outcome.withoutPath]
  | ok document =>
    cases document with
    | none => simp only [Outcome.withoutPath]
    | some document => exact congrArg Outcome.reviewed (h document hcontent)

/-! ## The documents -/

/-- The documents below the root of a tree that are not left out, each with the names that lead to
it. -/
def keptBelow (analyzer : Analyzer) (tree : FileTree) : List (List String × FileTree) :=
  (tree.documentsBelow []).filter fun found =>
    !analyzer.shouldExclude (analyzer.documentPath found.1)

/-- The names that lead to the documents are all that their paths are made from. -/
theorem documents_eq (analyzer : Analyzer) (files : FileSystem) :
    analyzer.documents files =
      match files.find analyzer.root with
      | .error _ => []
      | .ok tree =>
        (analyzer.keptBelow tree).map fun found => (analyzer.documentPath found.1, found.2) := by
  unfold documents
  cases files.find analyzer.root with
  | error cause => rfl
  | ok tree => exact List.filter_map

variable {analyzer : Analyzer} {root : Path}

theorem ne_nil_of_mem_keptBelow {tree : FileTree} {found : List String × FileTree}
    (h : found ∈ analyzer.keptBelow tree) : found.1 ≠ [] :=
  FileTree.ne_nil_of_mem_documentsBelow [] tree found (List.mem_of_mem_filter h)

theorem keptBelow_relocate (habsolute : analyzer.root.isAbsolute = true)
    (hroot : root.isAbsolute = true) (tree : FileTree) :
    (analyzer.relocate root).keptBelow tree = analyzer.keptBelow tree := by
  refine List.filter_congr fun found hfound => ?_
  have hnames := FileTree.ne_nil_of_mem_documentsBelow [] tree found hfound
  rw [shouldExclude_relocate habsolute hroot hnames]

/-- **The same documents are reviewed,** under paths with the same components. -/
theorem documents_relocate {files : FileSystem} (habsolute : analyzer.root.isAbsolute = true)
    (hroot : root.isAbsolute = true) (hplace : SamePlace files root analyzer.root) :
    ((analyzer.relocate root).documents files).map (fun found => (found.1.components, found.2)) =
      (analyzer.documents files).map fun found => (found.1.components, found.2) := by
  rw [documents_eq, documents_eq, root_relocate, hplace.find_eq]
  cases files.find analyzer.root with
  | error cause => simp only [List.map_nil]
  | ok tree =>
    simp only [List.map_map, keptBelow_relocate habsolute hroot]
    refine List.map_congr_left fun found hfound => ?_
    have hnames := ne_nil_of_mem_keptBelow hfound
    have hrelocated : (analyzer.relocate root).root.isAbsolute = true := hroot
    rw [Function.comp_apply, Function.comp_apply, components_documentPath habsolute hnames,
      components_documentPath hrelocated hnames, root_relocate, hplace.components_eq]

/-- The reports are equal if the roots lead to the same tree and what is found in each document is
the same. -/
theorem analyze_relocate_of_findings {files others : FileSystem}
    (hstrict : analyzer.strict = false) (habsolute : analyzer.root.isAbsolute = true)
    (hroot : root.isAbsolute = true) (hfind : others.find root = files.find analyzer.root)
    (hfindings : ∀ tree, files.find analyzer.root = .ok tree → ∀ found ∈ analyzer.keptBelow tree,
      ∀ document, found.2.content.map Document.parse? = .ok (some document) →
        (analyzer.relocate root).reviewDocument ((analyzer.relocate root).documentPath found.1)
          document = analyzer.reviewDocument (analyzer.documentPath found.1) document) :
    (analyzer.relocate root).analyze others = analyzer.analyze files := by
  rw [analyze_eq_summarize, analyze_eq_summarize, strict_relocate, hstrict]
  have houtcomes :
      (((analyzer.relocate root).documents others).map
          (analyzer.relocate root).outcomeOfFound).map Outcome.withoutPath =
        ((analyzer.documents files).map analyzer.outcomeOfFound).map Outcome.withoutPath := by
    rw [documents_eq, documents_eq, root_relocate, hfind]
    cases htree : files.find analyzer.root with
    | error cause => simp only [List.map_nil]
    | ok tree =>
      simp only [List.map_map, keptBelow_relocate habsolute hroot]
      refine List.map_congr_left fun found hfound => ?_
      exact withoutPath_outcomeOfFound_relocate (hfindings tree htree found hfound)
  rw [← summarize_map_withoutPath, houtcomes, summarize_map_withoutPath]

/-- **The reports are equal.** -/
theorem analyze_relocate {files : FileSystem} (hstrict : analyzer.strict = false)
    (habsolute : analyzer.root.isAbsolute = true) (hroot : root.isAbsolute = true)
    (hplace : SamePlace files root analyzer.root) :
    (analyzer.relocate root).analyze files = analyzer.analyze files :=
  analyze_relocate_of_findings hstrict habsolute hroot hplace.find_eq
    fun _ _ _ hfound document _ =>
      reviewDocument_relocate habsolute hroot (ne_nil_of_mem_keptBelow hfound)
        hplace.components_eq document

end Analyzer

end RailsReview
