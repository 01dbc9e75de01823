import RailsReview.Proofs.ReportOrder

/-!
# Sorting reports bit by bit

A report that is put together from others can be sorted whenever there is time for it.  What it has
been sorted for before does not show once it is sorted at the end.

The reason is that sorting is stable.  All that it keeps of the order of the violations is the order
of those with the same key, and all that it reads of a list is that as well, so lists that agree key
by key are sorted to the same list (`Violation.mergeSort_eq_of_filter_sortKey_eq`).  Sorting a part
does not change it key by key, and neither does it change a report that the part is put into.

* `Report.SortedStably`: what a sorted report has to be.
* `Report.sortedStably_iff`: it is one report.
* `Report.sort_append`: parts may be sorted before they are put together.
* `Report.Assembly`: reports that are put together, with sorts in between.
* `Report.Assembly.sort_result`: the sorts in between make no difference to a last one.
-/

namespace RailsReview

namespace Report

/-! ## Sorted reports -/

/-- A report with the violations of another one in order, in which those with the same key stand as
they stood before. -/
structure SortedStably (report sorted : Report) : Prop where
  perm : sorted.violations.Perm report.violations
  /-- Violations are in order by file, component by component, then by line, column and code. -/
  ordered : sorted.violations.Pairwise fun a b => (SortKey.compare a.sortKey b.sortKey).isLE = true
  stable : ∀ key,
    sorted.violations.filter (·.sortKey = key) = report.violations.filter (·.sortKey = key)
  filesChecked : sorted.filesChecked = report.filesChecked
  filesSkipped : sorted.filesSkipped = report.filesSkipped

theorem sortedStably_sort (report : Report) : report.SortedStably report.sort where
  perm := List.mergeSort_perm report.violations Violation.le
  ordered := Violation.pairwise_le_mergeSort report.violations
  stable := Violation.filter_sortKey_mergeSort report.violations
  filesChecked := rfl
  filesSkipped := rfl

/-- There is one way to sort a report. -/
theorem sortedStably_iff {report sorted : Report} :
    report.SortedStably sorted ↔ sorted = report.sort := by
  constructor
  · intro h
    have hsort := report.sortedStably_sort
    have hviolations : sorted.violations = report.sort.violations :=
      Violation.eq_of_filter_sortKey_eq h.ordered hsort.ordered fun key =>
        (h.stable key).trans (hsort.stable key).symm
    obtain ⟨violations, filesChecked, filesSkipped⟩ := sorted
    rw [sort, mk.injEq]
    exact ⟨hviolations, h.filesChecked, h.filesSkipped⟩
  · rintro rfl
    exact report.sortedStably_sort

/-! ## Parts -/

/-- Parts may be sorted before they are put together. -/
theorem sort_append (report other : Report) :
    (report.append other).sort = (report.sort.append other.sort).sort := by
  have hviolations : (report.violations ++ other.violations).mergeSort Violation.le =
      (report.violations.mergeSort Violation.le ++
        other.violations.mergeSort Violation.le).mergeSort Violation.le := by
    refine Violation.mergeSort_eq_of_filter_sortKey_eq fun key => ?_
    rw [List.filter_append, List.filter_append, Violation.filter_sortKey_mergeSort,
      Violation.filter_sortKey_mergeSort]
  simp only [sort, append, hviolations]

/-- A sorted report is not changed by sorting it again. -/
theorem sort_sort (report : Report) : report.sort.sort = report.sort := by
  have hviolations := Violation.mergeSort_eq_of_filter_sortKey_eq
    (Violation.filter_sortKey_mergeSort report.violations)
  simp only [sort, hviolations]

/-! ## Sorts in between -/

/-- How a report is put together: it is there, or one is extended by another, or one is sorted. -/
inductive Assembly where
  | part (report : Report)
  | extend (first second : Assembly)
  | sort (assembly : Assembly)

namespace Assembly

/-- The report that is put together. -/
def result : Assembly → Report
  | part report => report
  | extend first second => first.result.append second.result
  | sort assembly => assembly.result.sort

/-- The report that is put together if nothing is sorted. -/
def unsorted : Assembly → Report
  | part report => report
  | extend first second => first.unsorted.append second.unsorted
  | sort assembly => assembly.unsorted

/-- Sorts in between make no difference to a last one. -/
theorem sort_result (assembly : Assembly) : assembly.result.sort = assembly.unsorted.sort := by
  induction assembly with
  | part report => rfl
  | extend first second ihFirst ihSecond =>
    calc (first.result.append second.result).sort
      _ = (first.result.sort.append second.result.sort).sort := sort_append _ _
      _ = (first.unsorted.sort.append second.unsorted.sort).sort := by rw [ihFirst, ihSecond]
      _ = (first.unsorted.append second.unsorted).sort := (sort_append _ _).symm
  | sort assembly ih => exact (sort_sort assembly.result).trans ih

end Assembly

/-- **Sorting reports bit by bit.**  Sorting a report is the one way to put its violations in order
and leave those with the same key as they are; parts may be sorted before they are put together; and
whatever is put together and sorted in between, a last sort gives what it gives without them. -/
theorem sorts_incrementally :
    (∀ report sorted : Report, report.SortedStably sorted ↔ sorted = report.sort) ∧
      (∀ report other : Report,
        (report.append other).sort = (report.sort.append other.sort).sort) ∧
      ∀ assembly : Assembly, assembly.sort.result = assembly.unsorted.sort :=
  ⟨fun _ _ => sortedStably_iff, sort_append, fun assembly => assembly.sort_result⟩

end Report

end RailsReview
