import RailsReview.Analysis.Analyzer

/-!
# The report of all outcomes

A report is collected outcome by outcome.  As long as no outcome ends the analysis, what has been
collected is the violations of the outcomes one after the other, and the numbers of documents that
were reviewed and rejected.

* `Report.ofOutcomes`: what the outcomes say together.
* `Analyzer.collect_eq_ok`: one outcome is appended to the report.
* `Analyzer.foldlM_collect`: so are several.
* `Analyzer.foldlM_collect_of_commutes`: what goes through one step goes through all.
* `Analyzer.summarize_eq_ok`: the report of all outcomes, sorted.
-/

namespace RailsReview

namespace Outcome

/-- What was found in a document that was reviewed. -/
def violations : Outcome → List Violation
  | reviewed violations => violations
  | rejected _ => []
  | unreadable _ => []

/-- Whether the document was reviewed. -/
def isReviewed : Outcome → Bool
  | reviewed _ => true
  | _ => false

/-- Whether the document is no tree. -/
def isRejected : Outcome → Bool
  | rejected _ => true
  | _ => false

/-- Whether the analysis goes on after the outcome. -/
def continues (strict : Bool) : Outcome → Bool
  | reviewed _ => true
  | rejected _ => !strict
  | unreadable _ => false

end Outcome

namespace Report

/-- What outcomes say together, in order. -/
def ofOutcomes (outcomes : List Outcome) : Report where
  violations := outcomes.flatMap Outcome.violations
  filesChecked := outcomes.countP Outcome.isReviewed
  filesSkipped := outcomes.countP Outcome.isRejected

theorem append_ofOutcomes_nil (report : Report) : report.append (ofOutcomes []) = report := by
  obtain ⟨violations, filesChecked, filesSkipped⟩ := report
  rw [ofOutcomes, append, List.flatMap_nil, List.append_nil]
  rfl

theorem append_ofOutcomes_cons (report : Report) (outcome : Outcome) (outcomes : List Outcome) :
    report.append (ofOutcomes (outcome :: outcomes)) =
      (report.append (ofOutcomes [outcome])).append (ofOutcomes outcomes) := by
  have hcons : outcome :: outcomes = [outcome] ++ outcomes := rfl
  rw [hcons]
  simp only [append, ofOutcomes, List.flatMap_append, List.countP_append, List.append_assoc,
    Nat.add_assoc]

end Report

namespace Analyzer

/-! ## Collecting -/

/-- An outcome that does not end the analysis is appended to the report. -/
theorem collect_eq_ok {strict : Bool} {outcome : Outcome} (h : outcome.continues strict = true)
    (report : Report) :
    collect strict report outcome = .ok (report.append (.ofOutcomes [outcome])) := by
  cases outcome with
  | reviewed violations =>
    simp [collect, Report.append, Report.ofOutcomes, Outcome.violations, Outcome.isReviewed,
      Outcome.isRejected]
  | rejected path =>
    have hstrict : strict = false := by simpa [Outcome.continues] using h
    simp [collect, hstrict, Report.append, Report.ofOutcomes, Outcome.violations,
      Outcome.isReviewed, Outcome.isRejected]
  | unreadable cause => exact absurd h (by simp [Outcome.continues])

/-- So are several, one after the other. -/
theorem foldlM_collect {strict : Bool} {outcomes : List Outcome}
    (h : ∀ outcome ∈ outcomes, outcome.continues strict = true) (report : Report) :
    outcomes.foldlM (collect strict) report = .ok (report.append (.ofOutcomes outcomes)) := by
  induction outcomes generalizing report with
  | nil => rw [Report.append_ofOutcomes_nil]; rfl
  | cons outcome outcomes ih =>
    have hfirst := h outcome List.mem_cons_self
    have hrest := fun other hother => h other (List.mem_cons_of_mem outcome hother)
    rw [Report.append_ofOutcomes_cons report outcome outcomes, List.foldlM_cons,
      collect_eq_ok hfirst]
    exact ih hrest (report.append (.ofOutcomes [outcome]))

/-- A change of the report that goes through the collecting of one outcome, which may be changed as
well, goes through that of several. -/
theorem foldlM_collect_of_commutes {strict : Bool} {update : Report → Report}
    {change : Outcome → Outcome}
    (h : ∀ report outcome, collect strict (update report) (change outcome) =
      (collect strict report outcome).map update) (report : Report) (outcomes : List Outcome) :
    (outcomes.map change).foldlM (collect strict) (update report) =
      (outcomes.foldlM (collect strict) report).map update := by
  induction outcomes generalizing report with
  | nil => rfl
  | cons outcome outcomes ih =>
    rw [List.map_cons, List.foldlM_cons, List.foldlM_cons, h]
    cases collect strict report outcome with
    | error error => rfl
    | ok next => exact ih next

/-- The report of outcomes none of which ends the analysis. -/
theorem summarize_eq_ok {strict : Bool} {outcomes : List Outcome}
    (h : ∀ outcome ∈ outcomes, outcome.continues strict = true) :
    summarize strict outcomes = .ok (Report.ofOutcomes outcomes).sort := by
  have hempty : Report.append {} (.ofOutcomes outcomes) = .ofOutcomes outcomes := by
    rw [Report.append, List.nil_append, Nat.zero_add, Nat.zero_add]
  rw [summarize, foldlM_collect h, hempty]
  rfl

end Analyzer

end RailsReview
