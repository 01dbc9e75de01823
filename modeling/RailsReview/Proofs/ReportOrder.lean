import Mathlib.Data.List.Forall2
import RailsReview.Finding.Report

/-!
# The order of violations

A report is sorted by what stands in the `SortKey` of a violation: the components of its file, its
line, its column and its code.  Comparing violations is comparing their keys, and two keys that are
level are equal, so that sorting the same violations from two different orders gives the same keys
one after the other.

Keys do not tell violations apart: paths that are spelled in different ways have the same
components.  Violations with the same key stay in the order in which they were found.

* `Component.compare`, `Path.compare`, `SortKey.compare`: each is a total order, on components, on
  paths up to spelling, and on keys.
* `Violation.pairwise_le_mergeSort`: a sorted report is in order.
* `Violation.map_sortKey_mergeSort_of_perm`: the keys of a sorted report do not depend on where the
  sort started from.
* `Violation.filter_sortKey_mergeSort`: the violations with a key keep their order.
* `Violation.eq_of_filter_sortKey_eq`: this and the order of the keys decide a sorted report.
* `Violation.mergeSort_eq_of_filter_sortKey_eq`: so nothing else of a list shows once it is sorted.
-/

namespace RailsReview

open Std (TransCmp OrientedCmp LawfulEqCmp)

/-! ## Components and paths -/

namespace Component

theorem compare_eq_compareLex : Component.compare = compareLex (compareOn rank) (compareOn label) :=
  rfl

instance : TransCmp Component.compare :=
  inferInstanceAs (TransCmp (compareLex (compareOn rank) (compareOn label)))

/-- The rank and the label of a component are all there is to it. -/
theorem eq_of_rank_eq_of_label_eq {a b : Component} (hrank : a.rank = b.rank)
    (hlabel : a.label = b.label) : a = b := by
  cases a <;> cases b <;> simp_all [rank, label]

instance : LawfulEqCmp Component.compare where
  eq_of_compare {a b} h := by
    rw [compare_eq_compareLex, compareLex_eq_eq] at h
    exact eq_of_rank_eq_of_label_eq (LawfulEqCmp.eq_of_compare h.1) (LawfulEqCmp.eq_of_compare h.2)

end Component

/-! ## Keys -/

/-- What decides where a violation stands in a sorted report. -/
structure SortKey where
  file : List Component
  line : Nat
  column : Nat
  code : String
  deriving DecidableEq, Repr

namespace SortKey

/-- Keys by file, line, column and code. -/
def compare : SortKey → SortKey → Ordering :=
  compareLex (fun a b => List.compareLex Component.compare a.file b.file)
    (compareLex (compareOn line) (compareLex (compareOn column) (compareOn code)))

instance : TransCmp fun a b : SortKey => List.compareLex Component.compare a.file b.file where
  eq_swap {a b} := (OrientedCmp.eq_swap : List.compareLex Component.compare a.file b.file = _)
  isLE_trans {a b c} := (TransCmp.isLE_trans :
    (List.compareLex Component.compare a.file b.file).isLE = true →
      (List.compareLex Component.compare b.file c.file).isLE = true → _)

instance : TransCmp SortKey.compare :=
  inferInstanceAs (TransCmp (compareLex _ (compareLex _ (compareLex _ _))))

instance : LawfulEqCmp SortKey.compare where
  eq_of_compare {a b} h := by
    rw [SortKey.compare, compareLex_eq_eq, compareLex_eq_eq, compareLex_eq_eq] at h
    obtain ⟨hfile, hline, hcolumn, hcode⟩ := h
    obtain ⟨file, line, column, code⟩ := a
    obtain rfl : file = b.file := LawfulEqCmp.eq_of_compare hfile
    obtain rfl : line = b.line := LawfulEqCmp.eq_of_compare hline
    obtain rfl : column = b.column := LawfulEqCmp.eq_of_compare hcolumn
    obtain rfl : code = b.code := LawfulEqCmp.eq_of_compare hcode
    rfl

end SortKey

/-! ## Violations -/

namespace Violation

/-- What decides where the violation stands. -/
def sortKey (violation : Violation) : SortKey where
  file := violation.location.file.components
  line := violation.location.line
  column := violation.location.column
  code := violation.code

theorem compare_eq (a b : Violation) : a.compare b = SortKey.compare a.sortKey b.sortKey := rfl

theorem le_trans (a b c : Violation) (hab : a.le b = true) (hbc : b.le c = true) :
    a.le c = true := by
  rw [le, compare_eq] at hab hbc ⊢
  exact TransCmp.isLE_trans hab hbc

theorem le_total (a b : Violation) : (a.le b || b.le a) = true := by
  have hswap : SortKey.compare b.sortKey a.sortKey =
      (SortKey.compare a.sortKey b.sortKey).swap := OrientedCmp.eq_swap
  rw [le, le, compare_eq, compare_eq, hswap]
  cases SortKey.compare a.sortKey b.sortKey <;> rfl

theorem pairwise_le_mergeSort (violations : List Violation) :
    (violations.mergeSort le).Pairwise fun a b => a.le b = true :=
  List.pairwise_mergeSort le_trans le_total violations

/-- Sorting the same violations gives the same keys, from whatever order the sort starts. -/
theorem map_sortKey_mergeSort_of_perm {a b : List Violation} (h : a.Perm b) :
    (a.mergeSort le).map sortKey = (b.mergeSort le).map sortKey := by
  have hsorted : ∀ violations : List Violation, ((violations.mergeSort le).map sortKey).Pairwise
      fun a b => (SortKey.compare a b).isLE = true := fun violations =>
    List.pairwise_map.mpr (pairwise_le_mergeSort violations)
  refine List.Perm.eq_of_pairwise ?_ (hsorted a) (hsorted b) ?_
  · intro key other _ _ hle hge
    exact LawfulEqCmp.eq_of_compare (OrientedCmp.isLE_antisymm hle hge)
  · exact (((List.mergeSort_perm a le).trans h).trans (List.mergeSort_perm b le).symm).map sortKey

/-! ## Violations with the same key -/

theorem le_of_sortKey_eq {a b : Violation} (h : a.sortKey = b.sortKey) : a.le b = true := by
  have hself : SortKey.compare b.sortKey b.sortKey = .eq := Std.ReflCmp.compare_self
  rw [le, compare_eq, h, hself]
  rfl

/-- Violations that are level have the same key. -/
theorem sortKey_eq_of_le_of_le {a b : Violation} (hle : a.le b = true) (hge : b.le a = true) :
    a.sortKey = b.sortKey := by
  rw [le, compare_eq] at hle hge
  exact LawfulEqCmp.eq_of_compare (OrientedCmp.isLE_antisymm hle hge)

/-- Sorting leaves violations with the same key in the order in which they were. -/
theorem filter_sortKey_mergeSort (violations : List Violation) (key : SortKey) :
    (violations.mergeSort le).filter (·.sortKey = key) =
      violations.filter (·.sortKey = key) := by
  have hkey : ∀ violation ∈ violations.filter (·.sortKey = key), violation.sortKey = key :=
    fun violation hviolation => by simpa using List.of_mem_filter hviolation
  have hlevel : (violations.filter (·.sortKey = key)).Pairwise fun a b => a.le b = true :=
    List.pairwise_of_forall_mem_list fun a ha b hb =>
      le_of_sortKey_eq ((hkey a ha).trans (hkey b hb).symm)
  have hsublist := (List.sublist_mergeSort le_trans le_total hlevel List.filter_sublist).filter
    (·.sortKey = key)
  rw [List.filter_filter, funext fun _ => Bool.and_self _] at hsublist
  -- neither list has more violations with the key than the other
  refine (hsublist.eq_of_length ?_).symm
  exact ((List.mergeSort_perm violations le).filter _).length_eq.symm

/-- Lists of violations in order are equal if, for each key, the violations with it are. -/
theorem eq_of_filter_sortKey_eq {violations others : List Violation}
    (hviolations : violations.Pairwise fun a b => a.le b = true)
    (hothers : others.Pairwise fun a b => a.le b = true)
    (h : ∀ key, violations.filter (·.sortKey = key) = others.filter (·.sortKey = key)) :
    violations = others := by
  have hmem : ∀ violation, violation ∈ violations ↔ violation ∈ others := fun violation => by
    simpa using congrArg (violation ∈ ·) (h violation.sortKey)
  induction violations generalizing others with
  | nil => exact (List.eq_nil_iff_forall_not_mem.mpr fun other => by simp [← hmem]).symm
  | cons first violations ih =>
    cases others with
    | nil => exact absurd ((hmem first).mp List.mem_cons_self) List.not_mem_nil
    | cons other others =>
      rw [List.pairwise_cons] at hviolations hothers
      -- each of the two comes first in one list and stands somewhere in the other
      have hkey : first.sortKey = other.sortKey := by
        rcases List.mem_cons.mp ((hmem first).mp List.mem_cons_self) with rfl | hfirst
        · rfl
        rcases List.mem_cons.mp ((hmem other).mpr List.mem_cons_self) with rfl | hother
        · rfl
        exact sortKey_eq_of_le_of_le (hviolations.1 other hother) (hothers.1 first hfirst)
      have hheads := h first.sortKey
      rw [List.filter_cons_of_pos (by simp), List.filter_cons_of_pos (by simp [hkey])] at hheads
      obtain ⟨rfl, -⟩ := List.cons.inj hheads
      have hrest : ∀ key, violations.filter (·.sortKey = key) =
          others.filter (·.sortKey = key) := by
        intro key
        have hboth := h key
        rw [List.filter_cons, List.filter_cons] at hboth
        split at hboth
        · exact (List.cons.inj hboth).2
        · exact hboth
      rw [ih hviolations.2 hothers.2 hrest fun violation => by
        simpa using congrArg (violation ∈ ·) (hrest violation.sortKey)]

/-- Lists with the same violations in the same order under each key are sorted to the same list. -/
theorem mergeSort_eq_of_filter_sortKey_eq {violations others : List Violation}
    (h : ∀ key, violations.filter (·.sortKey = key) = others.filter (·.sortKey = key)) :
    violations.mergeSort le = others.mergeSort le := by
  refine eq_of_filter_sortKey_eq (pairwise_le_mergeSort violations) (pairwise_le_mergeSort others)
    fun key => ?_
  rw [filter_sortKey_mergeSort, filter_sortKey_mergeSort, h]

end Violation

end RailsReview
