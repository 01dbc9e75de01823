import RailsReview.Analysis.Discovery
import RailsReview.Proofs.Summary

/-!
# One bad document leaves the others alone

A document that was found is read and then parsed, and either step can fail.  A document that is no
tree is only counted, unless the analysis is strict; one that cannot be read ends the analysis, and
so does one that is no tree if the analysis is strict.

* `Outcome.error?`: with which error an outcome ends the analysis.
* `Analyzer.summarize_eq_error`: the first such outcome decides.
* `Analyzer.collect_skipOne`, `Analyzer.foldlM_collect_skipOne`: one document more that was skipped
  has no bearing on what is collected later.
* `Analyzer.summarize_insert_rejected`: so a document that is no tree changes one number.
* `Analyzer.Isolates`: what an analysis makes of the documents, in terms of what they hold.
* `Analyzer.isolates`: every analysis does.
-/

namespace RailsReview

/-! ## Outcomes that end the analysis -/

namespace Outcome

/-- The error with which the outcome ends the analysis, if it does. -/
def error? (strict : Bool) : Outcome → Option AnalysisError
  | reviewed _ => none
  | rejected path => if strict then some (.notATree path) else none
  | unreadable cause => some (.unreadable cause)

theorem continues_eq_true_iff {strict : Bool} {outcome : Outcome} :
    outcome.continues strict = true ↔ outcome.error? strict = none := by
  cases outcome with
  | reviewed violations => exact iff_of_true rfl rfl
  | rejected path => cases strict <;> simp [continues, error?]
  | unreadable cause => exact iff_of_false Bool.false_ne_true (Option.some_ne_none _)

end Outcome

/-- The report with one more document that was skipped. -/
def Report.skipOne (report : Report) : Report :=
  { report with filesSkipped := report.filesSkipped + 1 }

namespace Analyzer

theorem collect_eq_error {strict : Bool} {outcome : Outcome} {error : AnalysisError}
    (h : outcome.error? strict = some error) (report : Report) :
    collect strict report outcome = .error error := by
  cases outcome with
  | reviewed violations => exact absurd h.symm (Option.some_ne_none error)
  | rejected path =>
    cases strict with
    | false => exact absurd h.symm (Option.some_ne_none error)
    | true =>
      cases h
      rfl
  | unreadable cause =>
    cases h
    rfl

/-- The first outcome that ends the analysis decides with which error. -/
theorem summarize_eq_error {strict : Bool} {before after : List Outcome} {outcome : Outcome}
    {error : AnalysisError} (hbefore : ∀ other ∈ before, other.error? strict = none)
    (h : outcome.error? strict = some error) :
    summarize strict (before ++ outcome :: after) = .error error := by
  have hcontinues : ∀ other ∈ before, other.continues strict = true := fun other hother =>
    Outcome.continues_eq_true_iff.mpr (hbefore other hother)
  rw [summarize, List.foldlM_append, foldlM_collect hcontinues]
  change Except.map Report.sort ((outcome :: after).foldlM (collect strict) _) = _
  rw [List.foldlM_cons, collect_eq_error h]
  rfl

/-! ## Documents that are skipped -/

theorem collect_skipOne (strict : Bool) (report : Report) (outcome : Outcome) :
    collect strict report.skipOne outcome = (collect strict report outcome).map Report.skipOne := by
  cases outcome with
  | reviewed violations => rfl
  | rejected path => cases strict <;> rfl
  | unreadable cause => rfl

/-- Whether a document was skipped before has no bearing on what is collected. -/
theorem foldlM_collect_skipOne (strict : Bool) (report : Report) (outcomes : List Outcome) :
    outcomes.foldlM (collect strict) report.skipOne =
      (outcomes.foldlM (collect strict) report).map Report.skipOne := by
  have hfold := foldlM_collect_of_commutes (collect_skipOne strict) report outcomes
  rwa [List.map_id'] at hfold

/-- A document that is no tree adds one to the number of documents that were skipped, wherever it
stands and whatever becomes of the others. -/
theorem summarize_insert_rejected (before after : List Outcome) (path : Path) :
    summarize false (before ++ .rejected path :: after) =
      (summarize false (before ++ after)).map Report.skipOne := by
  rw [summarize, summarize, List.foldlM_append, List.foldlM_append]
  cases before.foldlM (collect false) {} with
  | error error => rfl
  | ok report =>
    change Except.map Report.sort (after.foldlM (collect false) report.skipOne) =
      Except.map Report.skipOne (Except.map Report.sort (after.foldlM (collect false) report))
    rw [foldlM_collect_skipOne]
    cases after.foldlM (collect false) report with
    | error error => rfl
    | ok report => rfl

/-! ## Documents that were found -/

/-- What a document that was found holds: a tree, or no tree, if it can be read. -/
def held (found : Path × FileTree) : Except ReadError (Option Document) :=
  found.2.content.map Document.parse?

/-- Whether a document that was found holds a tree. -/
def isAccepted (found : Path × FileTree) : Bool :=
  match held found with
  | .ok (some _) => true
  | _ => false

/-- Whether a document that was found can be read, but is no tree. -/
def isRejected (found : Path × FileTree) : Bool :=
  match held found with
  | .ok none => true
  | _ => false

/-- Whether a document that was found can be read. -/
def isReadable (found : Path × FileTree) : Bool :=
  match held found with
  | .ok _ => true
  | .error _ => false

/-- What is found in a document if it holds a tree. -/
def findings (analyzer : Analyzer) (found : Path × FileTree) : List Violation :=
  match held found with
  | .ok (some document) => analyzer.reviewDocument found.1 document
  | _ => []

/-- What becomes of a document that was found. -/
def outcomeOfFound (analyzer : Analyzer) (found : Path × FileTree) : Outcome :=
  analyzer.outcome found.1 found.2.content

theorem analyze_eq_summarize (analyzer : Analyzer) (files : FileSystem) :
    analyzer.analyze files =
      summarize analyzer.strict ((analyzer.documents files).map analyzer.outcomeOfFound) := rfl

theorem outcomeOfFound_eq (analyzer : Analyzer) (found : Path × FileTree) :
    analyzer.outcomeOfFound found =
      match held found with
      | .ok (some document) => .reviewed (analyzer.reviewDocument found.1 document)
      | .ok none => .rejected found.1
      | .error cause => .unreadable cause := by
  unfold outcomeOfFound outcome held
  cases found.2.content with
  | error cause => rfl
  | ok text =>
    simp only [Except.map]
    cases Document.parse? text <;> rfl

theorem outcomeOfFound_of_parse?_eq_some (analyzer : Analyzer) (path : Path) {text : String}
    {document : Document} (h : Document.parse? text = some document) :
    analyzer.outcomeOfFound (path, .text text) =
      .reviewed (analyzer.reviewDocument path document) := by
  have hheld : held (path, .text text) = .ok (some document) := congrArg Except.ok h
  rw [outcomeOfFound_eq, hheld]

theorem outcomeOfFound_of_parse?_eq_none (analyzer : Analyzer) (path : Path) {text : String}
    (h : Document.parse? text = none) :
    analyzer.outcomeOfFound (path, .text text) = .rejected path := by
  have hheld : held (path, .text text) = .ok none := congrArg Except.ok h
  rw [outcomeOfFound_eq, hheld]

section

variable (analyzer : Analyzer) (found : Path × FileTree)

theorem violations_outcomeOfFound :
    (analyzer.outcomeOfFound found).violations = analyzer.findings found := by
  rw [outcomeOfFound_eq, findings]
  rcases held found with cause | (_ | document) <;> rfl

theorem isReviewed_outcomeOfFound :
    (analyzer.outcomeOfFound found).isReviewed = isAccepted found := by
  rw [outcomeOfFound_eq, isAccepted]
  rcases held found with cause | (_ | document) <;> rfl

theorem isRejected_outcomeOfFound :
    (analyzer.outcomeOfFound found).isRejected = isRejected found := by
  rw [outcomeOfFound_eq, isRejected]
  rcases held found with cause | (_ | document) <;> rfl

end

/-- What the documents that were found say together. -/
theorem ofOutcomes_map_outcomeOfFound (analyzer : Analyzer) (documents : List (Path × FileTree)) :
    Report.ofOutcomes (documents.map analyzer.outcomeOfFound) =
      { violations := documents.flatMap analyzer.findings
        filesChecked := documents.countP isAccepted
        filesSkipped := documents.countP isRejected } := by
  simp only [Report.ofOutcomes, List.flatMap_map, List.countP_map, Function.comp_def,
    violations_outcomeOfFound, isReviewed_outcomeOfFound, isRejected_outcomeOfFound]

theorem error?_outcomeOfFound_of_accepted {analyzer : Analyzer} {found : Path × FileTree}
    (h : isAccepted found = true) (strict : Bool) :
    (analyzer.outcomeOfFound found).error? strict = none := by
  rw [outcomeOfFound_eq]
  unfold isAccepted at h
  split at h
  · next document hheld =>
    rw [hheld]
    rfl
  · exact absurd h Bool.false_ne_true

theorem error?_outcomeOfFound_of_readable {analyzer : Analyzer} {found : Path × FileTree}
    (h : isReadable found = true) : (analyzer.outcomeOfFound found).error? false = none := by
  rw [outcomeOfFound_eq]
  unfold isReadable at h
  split at h
  · next document hheld =>
    rw [hheld]
    cases document <;> rfl
  · exact absurd h Bool.false_ne_true

/-! ## Analyses -/

/-- What an analysis makes of the documents that it finds, of which any may be bad. -/
structure Isolates (analyzer : Analyzer) (files : FileSystem) : Prop where
  /-- If all can be read, the report says what is found in those that hold trees, in order, and how
  many do and do not. -/
  analyze_of_readable : analyzer.strict = false →
    (∀ found ∈ analyzer.documents files, isReadable found = true) →
      analyzer.analyze files = .ok
        { violations :=
            ((analyzer.documents files).flatMap analyzer.findings).mergeSort Violation.le
          filesChecked := (analyzer.documents files).countP isAccepted
          filesSkipped := (analyzer.documents files).countP isRejected }
  /-- The two numbers account for all documents. -/
  countP_add_countP : (∀ found ∈ analyzer.documents files, isReadable found = true) →
    (analyzer.documents files).countP isAccepted + (analyzer.documents files).countP isRejected =
      (analyzer.documents files).length
  /-- One more document that is no tree changes one number. -/
  analyze_insert_rejected : analyzer.strict = false →
    ∀ (others : FileSystem) (before after : List (Path × FileTree)) (found : Path × FileTree),
      analyzer.documents files = before ++ after →
        analyzer.documents others = before ++ found :: after → held found = .ok none →
          analyzer.analyze others = (analyzer.analyze files).map Report.skipOne
  /-- The first document that cannot be read ends the analysis, whatever stands before it. -/
  analyze_unreadable : analyzer.strict = false →
    ∀ (before after : List (Path × FileTree)) (found : Path × FileTree) (cause : ReadError),
      analyzer.documents files = before ++ found :: after →
        (∀ other ∈ before, isReadable other = true) → held found = .error cause →
          analyzer.analyze files = .error (.unreadable cause)
  /-- A strict analysis ends at the first document that does not hold a tree, be it no tree -/
  analyze_strict_rejected : analyzer.strict = true →
    ∀ (before after : List (Path × FileTree)) (found : Path × FileTree),
      analyzer.documents files = before ++ found :: after →
        (∀ other ∈ before, isAccepted other = true) → held found = .ok none →
          analyzer.analyze files = .error (.notATree found.1)
  /-- or not to be read. -/
  analyze_strict_unreadable : analyzer.strict = true →
    ∀ (before after : List (Path × FileTree)) (found : Path × FileTree) (cause : ReadError),
      analyzer.documents files = before ++ found :: after →
        (∀ other ∈ before, isAccepted other = true) → held found = .error cause →
          analyzer.analyze files = .error (.unreadable cause)
  /-- If all documents hold trees, it makes no difference whether the analysis is strict. -/
  analyze_strict_of_accepted : analyzer.strict = true →
    (∀ found ∈ analyzer.documents files, isAccepted found = true) →
      analyzer.analyze files = analyze { analyzer with strict := false } files

/-- An analysis none of whose documents ends it. -/
theorem analyze_eq_ok {analyzer : Analyzer} {files : FileSystem}
    (h : ∀ found ∈ analyzer.documents files,
      (analyzer.outcomeOfFound found).error? analyzer.strict = none) :
    analyzer.analyze files = .ok
      { violations :=
          ((analyzer.documents files).flatMap analyzer.findings).mergeSort Violation.le
        filesChecked := (analyzer.documents files).countP isAccepted
        filesSkipped := (analyzer.documents files).countP isRejected } := by
  have hcontinues : ∀ outcome ∈ (analyzer.documents files).map analyzer.outcomeOfFound,
      outcome.continues analyzer.strict = true := by
    refine List.forall_mem_map.mpr fun found hfound => ?_
    exact Outcome.continues_eq_true_iff.mpr (h found hfound)
  rw [analyze_eq_summarize, summarize_eq_ok hcontinues, ofOutcomes_map_outcomeOfFound, Report.sort]

/-- An analysis that a document ends. -/
theorem analyze_eq_error {analyzer : Analyzer} {files : FileSystem}
    {before after : List (Path × FileTree)} {found : Path × FileTree} {error : AnalysisError}
    (hdocuments : analyzer.documents files = before ++ found :: after)
    (hbefore : ∀ other ∈ before, (analyzer.outcomeOfFound other).error? analyzer.strict = none)
    (hfound : (analyzer.outcomeOfFound found).error? analyzer.strict = some error) :
    analyzer.analyze files = .error error := by
  rw [analyze_eq_summarize, hdocuments, List.map_append, List.map_cons]
  exact summarize_eq_error (List.forall_mem_map.mpr hbefore) hfound

theorem countP_isAccepted_add_countP_isRejected {documents : List (Path × FileTree)}
    (h : ∀ found ∈ documents, isReadable found = true) :
    documents.countP isAccepted + documents.countP isRejected = documents.length := by
  have hrejected : documents.countP isRejected =
      documents.countP fun found => ¬ isAccepted found := by
    refine List.countP_congr fun found hfound => ?_
    have hreadable := h found hfound
    unfold isReadable at hreadable
    unfold isRejected isAccepted
    rcases hheld : held found with cause | (_ | document) <;> simp [hheld] at hreadable ⊢
  rw [hrejected]
  exact (List.length_eq_countP_add_countP isAccepted).symm

/-- **One bad document leaves the others alone.** -/
theorem isolates (analyzer : Analyzer) (files : FileSystem) : analyzer.Isolates files where
  analyze_of_readable hstrict hreadable := analyze_eq_ok fun found hfound => by
    rw [hstrict]
    exact error?_outcomeOfFound_of_readable (hreadable found hfound)
  countP_add_countP := countP_isAccepted_add_countP_isRejected
  analyze_insert_rejected hstrict others before after found hfiles hothers hheld := by
    have houtcome : analyzer.outcomeOfFound found = .rejected found.1 := by
      rw [outcomeOfFound_eq, hheld]
    rw [analyze_eq_summarize, analyze_eq_summarize, hfiles, hothers, hstrict, List.map_append,
      List.map_append, List.map_cons, houtcome]
    exact summarize_insert_rejected _ _ _
  analyze_unreadable hstrict before after found cause hdocuments hbefore hheld := by
    refine analyze_eq_error hdocuments (fun other hother => ?_) ?_
    · rw [hstrict]
      exact error?_outcomeOfFound_of_readable (hbefore other hother)
    · rw [outcomeOfFound_eq, hheld]
      rfl
  analyze_strict_rejected hstrict before after found hdocuments hbefore hheld := by
    refine analyze_eq_error hdocuments (fun other hother => ?_) ?_
    · exact error?_outcomeOfFound_of_accepted (hbefore other hother) _
    · rw [outcomeOfFound_eq, hheld, hstrict]
      rfl
  analyze_strict_unreadable hstrict before after found cause hdocuments hbefore hheld := by
    refine analyze_eq_error hdocuments (fun other hother => ?_) ?_
    · exact error?_outcomeOfFound_of_accepted (hbefore other hother) _
    · rw [outcomeOfFound_eq, hheld]
      rfl
  analyze_strict_of_accepted _ haccepted := by
    have hfound : ∀ (strict : Bool), ∀ found ∈ analyzer.documents files,
        (analyzer.outcomeOfFound found).error? strict = none := fun strict found hfound =>
      error?_outcomeOfFound_of_accepted (haccepted found hfound) strict
    have hlenient : analyze { analyzer with strict := false } files = .ok _ :=
      analyze_eq_ok (hfound false)
    rw [analyze_eq_ok (hfound analyzer.strict), hlenient]
    rfl

end Analyzer

end RailsReview
