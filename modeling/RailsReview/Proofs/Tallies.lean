import Mathlib.Algebra.GroupWithZero.Nat
import RailsReview.Project

/-!
# Verdicts, counts and reports agree

A report is summed up in five ways: by whether it fails, by its counts by severity, by its counts by
rule, by the text of its failure and by the number in that text.  They are computed one by one from
the same violations, and they agree.

All of them count the violations with a property, and the property is one of the severity or one of
the rule.  So they follow from two facts: a property of the severity holds of as many violations as
there are of the severities that have it (`Report.sum_map_countOf`), and the counts by rule hold for
each rule the number of its violations (`Report.countIn_countByRule`).  Both numbers are sums over
the violations, so that they add up when reports are put together and do not see their order.

* `Report.length_reaching`: the number of violations that reach a threshold.
* `Report.failsAt_iff`: a report fails if that number is positive.
* `Report.sorted_countByRule`, `Report.sum_countByRule`: the counts by rule, in order and in total.
* `Verdict.Agrees`: how the summaries go together, for a report and for what becomes of it.
* `Verdict.agrees`: they do.
-/

namespace RailsReview

/-! ## Counts by severity -/

/-- All severities, the most serious first. -/
def Severity.all : List Severity := [.error, .warning, .info]

theorem Severity.mem_all (severity : Severity) : severity ∈ all := by
  cases severity <;> decide

namespace Tally

/-- The number of violations of a severity. -/
def of (tally : Tally) : Severity → Nat
  | .error => tally.errors
  | .warning => tally.warnings
  | .info => tally.infos

/-- The number of violations of the severities at a threshold or above it. -/
def reaching (tally : Tally) (threshold : Severity) : Nat :=
  ((Severity.all.filter (·.reaches threshold)).map tally.of).sum

/-- Two tallies in one. -/
def add (tally other : Tally) : Tally where
  errors := tally.errors + other.errors
  warnings := tally.warnings + other.warnings
  infos := tally.infos + other.infos

end Tally

namespace Report

theorem of_tally (report : Report) : report.tally.of = report.countOf := by
  funext severity
  cases severity <;> rfl

/-- The counts of some severities add up to the number of violations with one of them. -/
theorem sum_map_countOf (report : Report) {severities : List Severity} (h : severities.Nodup) :
    (severities.map report.countOf).sum =
      report.violations.countP fun violation => violation.severity ∈ severities := by
  induction severities with
  | nil => simp
  | cons severity severities ih =>
    rw [List.nodup_cons] at h
    have hsplit := List.countP_eq_countP_filter_add report.violations
      (fun violation => decide (violation.severity ∈ severity :: severities))
      (fun violation => violation.severity == severity)
    rw [List.map_cons, List.sum_cons, ih h.2, hsplit, List.countP_filter, List.countP_filter,
      countOf]
    congr 1
    · refine List.countP_congr fun violation _ => ?_
      simp only [List.mem_cons, decide_eq_true_eq, Bool.and_eq_true, beq_iff_eq]
      exact ⟨fun heq => ⟨.inl heq, heq⟩, And.right⟩
    · refine List.countP_congr fun violation _ => ?_
      simp only [List.mem_cons, decide_eq_true_eq, Bool.and_eq_true, Bool.not_eq_true',
        beq_eq_false_iff_ne]
      constructor
      · intro hmem
        exact ⟨.inr hmem, fun heq => h.1 (heq ▸ hmem)⟩
      · rintro ⟨heq | hmem, hne⟩
        · exact absurd heq hne
        · exact hmem

/-- The counts of all severities add up to the number of violations. -/
theorem sum_tally (report : Report) :
    report.tally.errors + report.tally.warnings + report.tally.infos =
      report.violations.length := by
  have hnodup : Severity.all.Nodup := by decide
  have hsum := report.sum_map_countOf hnodup
  rw [List.countP_eq_length.mpr fun violation _ =>
    decide_eq_true (Severity.mem_all violation.severity)] at hsum
  rw [← hsum]
  exact Nat.add_assoc _ _ _

/-- The number of violations that reach a threshold. -/
theorem length_reaching (report : Report) (threshold : Severity) :
    (report.reaching threshold).length = report.tally.reaching threshold := by
  have hnodup : (Severity.all.filter (·.reaches threshold)).Nodup := by
    cases threshold <;> decide
  rw [Tally.reaching, of_tally, sum_map_countOf report hnodup, reaching,
    ← List.countP_eq_length_filter]
  refine List.countP_congr fun violation _ => ?_
  simp [Severity.mem_all]

/-- A report fails if there is a violation of a severity at the threshold or above it. -/
theorem failsAt_iff (report : Report) (threshold : Severity) :
    report.failsAt threshold = true ↔ 0 < report.tally.reaching threshold := by
  rw [← length_reaching, reaching, List.length_filter_pos_iff, failsAt, List.any_eq_true]

/-- A lower threshold never turns a failure into a pass. -/
theorem failsAt_of_rank_le {report : Report} {threshold lower : Severity}
    (hlower : lower.rank ≤ threshold.rank) (h : report.failsAt threshold = true) :
    report.failsAt lower = true := by
  obtain ⟨violation, hviolation, hreaches⟩ := List.any_eq_true.mp h
  refine List.any_eq_true.mpr ⟨violation, hviolation, ?_⟩
  exact decide_eq_true (Nat.le_trans hlower (of_decide_eq_true hreaches))

/-! ## Counts by rule -/

/-- The number that counts by rule hold for a rule. -/
def countIn (counts : List (String × Nat)) (rule : String) : Nat :=
  (counts.lookup rule).getD 0

/-- The names in counts by rule are in order, and none stands there twice. -/
def SortedByName (counts : List (String × Nat)) : Prop :=
  counts.Pairwise fun entry other => entry.1 < other.1

theorem countIn_cons (name rule : String) (count : Nat) (counts : List (String × Nat)) :
    countIn ((name, count) :: counts) rule =
      if rule = name then count else countIn counts rule := by
  unfold countIn
  by_cases h : rule = name
  · rw [if_pos h, List.lookup_cons, beq_iff_eq.mpr h, Option.getD_some]
  · rw [if_neg h, List.lookup_cons, beq_eq_false_iff_ne.mpr h]

/-- Counts hold nothing for a rule that stands before all their names. -/
theorem countIn_of_lt {counts : List (String × Nat)} {rule : String}
    (h : ∀ entry ∈ counts, rule < entry.1) : countIn counts rule = 0 := by
  have hnone : counts.lookup rule = none := List.lookup_eq_none_iff.mpr fun entry hentry =>
    bne_iff_ne.mpr fun heq => String.lt_irrefl rule (heq ▸ h entry hentry)
  rw [countIn, hnone, Option.getD_none]

theorem name_of_mem_countRule {rule : String} {counts : List (String × Nat)}
    {entry : String × Nat} (h : entry ∈ countRule rule counts) :
    entry.1 = rule ∨ ∃ other ∈ counts, other.1 = entry.1 := by
  induction counts with
  | nil => exact .inl (congrArg Prod.fst (List.mem_singleton.mp h))
  | cons first counts ih =>
    obtain ⟨name, count⟩ := first
    rw [countRule] at h
    split at h
    · next heq =>
      rcases List.mem_cons.mp h with rfl | h
      · exact .inl heq.symm
      · exact .inr ⟨entry, List.mem_cons_of_mem _ h, rfl⟩
    · split at h
      · rcases List.mem_cons.mp h with rfl | h
        · exact .inl rfl
        · exact .inr ⟨entry, h, rfl⟩
      · rcases List.mem_cons.mp h with rfl | h
        · exact .inr ⟨_, List.mem_cons_self, rfl⟩
        · exact (ih h).imp_right fun ⟨other, hother, heq⟩ =>
            ⟨other, List.mem_cons_of_mem _ hother, heq⟩

/-- One violation more leaves the names in order. -/
theorem SortedByName.countRule {counts : List (String × Nat)} (h : SortedByName counts)
    (rule : String) : SortedByName (countRule rule counts) := by
  induction counts with
  | nil => exact List.pairwise_singleton _ _
  | cons first counts ih =>
    obtain ⟨name, count⟩ := first
    obtain ⟨hfirst, hcounts⟩ := List.pairwise_cons.mp h
    rw [Report.countRule]
    split
    · exact List.pairwise_cons.mpr ⟨hfirst, hcounts⟩
    · next hne =>
      split
      · next hlt =>
        refine List.pairwise_cons.mpr ⟨fun entry hentry => ?_, h⟩
        rcases List.mem_cons.mp hentry with rfl | hentry
        · exact hlt
        · exact String.lt_trans hlt (hfirst entry hentry)
      · next hlt =>
        refine List.pairwise_cons.mpr ⟨fun entry hentry => ?_, ih hcounts⟩
        rcases name_of_mem_countRule hentry with heq | ⟨other, hother, heq⟩
        · exact heq ▸ Std.lt_of_le_of_ne (String.not_lt.mp hlt) (Ne.symm hne)
        · exact heq ▸ hfirst other hother

/-- One violation more adds one for its rule. -/
theorem countIn_countRule {counts : List (String × Nat)} (h : SortedByName counts)
    (rule name : String) :
    countIn (countRule rule counts) name = countIn counts name + if rule = name then 1 else 0 := by
  induction counts with
  | nil =>
    rw [countRule, countIn_cons]
    simp [countIn, eq_comm]
  | cons first counts ih =>
    obtain ⟨found, count⟩ := first
    obtain ⟨hfirst, hcounts⟩ := List.pairwise_cons.mp h
    rw [countRule]
    split
    · next heq =>
      subst heq
      rw [countIn_cons, countIn_cons]
      by_cases hname : name = rule
      · simp [hname]
      · simp [hname, Ne.symm hname]
    · next hne =>
      split
      · next hlt =>
        rw [countIn_cons]
        by_cases hname : name = rule
        · have hnone : countIn ((found, count) :: counts) rule = 0 :=
            countIn_of_lt (List.forall_mem_cons.mpr
              ⟨hlt, fun entry hentry => String.lt_trans hlt (hfirst entry hentry)⟩)
          simp [hname, hnone]
        · simp [hname, Ne.symm hname]
      · rw [countIn_cons, countIn_cons, ih hcounts]
        by_cases hname : name = found
        · subst hname
          simp [hne]
        · simp [hname]

theorem sum_countRule (rule : String) (counts : List (String × Nat)) :
    ((countRule rule counts).map Prod.snd).sum = (counts.map Prod.snd).sum + 1 := by
  induction counts with
  | nil => rfl
  | cons first counts ih =>
    obtain ⟨name, count⟩ := first
    rw [countRule]
    split
    · simp only [List.map_cons, List.sum_cons]
      omega
    · split
      · simp only [List.map_cons, List.sum_cons]
        omega
      · simp only [List.map_cons, List.sum_cons, ih]
        omega

section

variable (violations : List Violation)

/-- **What counting preserves,** from whatever counts it starts. -/
theorem foldl_countRule {counts : List (String × Nat)} (h : SortedByName counts) :
    SortedByName (violations.foldl (fun counts violation => countRule violation.rule counts)
        counts) ∧
      (∀ rule, countIn (violations.foldl (fun counts violation =>
          countRule violation.rule counts) counts) rule =
        countIn counts rule + violations.countP (·.rule = rule)) ∧
      ((violations.foldl (fun counts violation => countRule violation.rule counts)
        counts).map Prod.snd).sum = (counts.map Prod.snd).sum + violations.length := by
  induction violations generalizing counts with
  | nil => exact ⟨h, fun _ => rfl, rfl⟩
  | cons violation violations ih =>
    obtain ⟨hsorted, hcount, hsum⟩ := ih (h.countRule violation.rule)
    refine ⟨hsorted, fun rule => ?_, ?_⟩
    · rw [List.foldl_cons, hcount, countIn_countRule h, List.countP_cons]
      simp only [decide_eq_true_eq]
      omega
    · rw [List.foldl_cons, hsum, sum_countRule, List.length_cons]
      omega

theorem sorted_countByRule : SortedByName (countByRule violations) :=
  (foldl_countRule violations List.Pairwise.nil).1

/-- The counts by rule hold for each rule the number of its violations. -/
theorem countIn_countByRule (rule : String) :
    countIn (countByRule violations) rule = violations.countP (·.rule = rule) :=
  ((foldl_countRule violations List.Pairwise.nil).2.1 rule).trans (Nat.zero_add _)

theorem sum_countByRule :
    ((countByRule violations).map Prod.snd).sum = violations.length :=
  (foldl_countRule violations List.Pairwise.nil).2.2.trans (Nat.zero_add _)

end

/-! ## Reports that are put together or sorted -/

theorem tally_append (report other : Report) :
    (report.append other).tally = report.tally.add other.tally := by
  simp only [tally, countOf, append, Tally.add, List.countP_append]

theorem failsAt_append (report other : Report) (threshold : Severity) :
    (report.append other).failsAt threshold =
      (report.failsAt threshold || other.failsAt threshold) :=
  List.any_append

theorem tally_sort (report : Report) : report.sort.tally = report.tally := by
  simp only [tally, countOf, sort, (List.mergeSort_perm _ _).countP_eq]

/-! ## Texts -/

/-- How the report of a failure begins. -/
def heading (count : Nat) : String :=
  s!"\n=== demeter-lint: {count} violation(s) ===\n\n"

/-- How the report of a failure ends: with the totals. -/
def closing (report : Report) : String :=
  let tally := report.tally
  s!"Total: {tally.errors} error(s), {tally.warnings} warning(s), {tally.infos} info(s) in " ++
    (s!"{report.filesChecked} file(s)\n" ++
      if 0 < report.filesSkipped then s!"Skipped {report.filesSkipped} unparsable file(s)\n"
      else "")

/-- Between the heading and the totals, a failure lists the violations that reach the threshold. -/
theorem describeFailure_eq (report : Report) (threshold : Severity) :
    report.describeFailure threshold =
      heading (report.reaching threshold).length ++
        String.join ((report.reaching threshold).map fun violation => violation.describe ++ "\n") ++
        report.closing := by
  unfold describeFailure heading closing
  dsimp only
  rw [String.append_assoc, String.append_assoc]

end Report

/-! ## Verdicts -/

namespace Verdict

/-- How the summaries of a report go together, for the report that is judged and for what becomes of
it. -/
structure Agrees (verdict : Verdict) : Prop where
  sum_tally : verdict.report.tally.errors + verdict.report.tally.warnings +
    verdict.report.tally.infos = verdict.report.violations.length
  sum_countByRule : ((Report.countByRule verdict.report.violations).map Prod.snd).sum =
    verdict.report.violations.length
  sorted_countByRule : Report.SortedByName (Report.countByRule verdict.report.violations)
  countIn_countByRule : ∀ rule, Report.countIn (Report.countByRule verdict.report.violations) rule =
    verdict.report.violations.countP (·.rule = rule)
  isFailure_iff : verdict.isFailure = true ↔ 0 < verdict.report.tally.reaching verdict.failOn
  /-- The failure announces that number, and lists the violations that it counts, in order. -/
  describe_eq : verdict.describe = Report.heading (verdict.report.tally.reaching verdict.failOn) ++
    String.join ((verdict.report.violations.filter fun violation =>
      verdict.failOn.rank ≤ violation.severity.rank).map fun violation =>
        violation.describe ++ "\n") ++
    verdict.report.closing
  isFailure_of_lower : ∀ lower : Severity, lower.rank ≤ verdict.failOn.rank →
    verdict.isFailure = true → isFailure { verdict with failOn := lower } = true
  tally_append : ∀ other : Report,
    (verdict.report.append other).tally = verdict.report.tally.add other.tally
  countByRule_append : ∀ (other : Report) (rule : String),
    Report.countIn (Report.countByRule (verdict.report.append other).violations) rule =
      Report.countIn (Report.countByRule verdict.report.violations) rule +
        Report.countIn (Report.countByRule other.violations) rule
  isFailure_append : ∀ other : Report,
    isFailure { verdict with report := verdict.report.append other } =
      (verdict.isFailure || isFailure { verdict with report := other })
  tally_sort : verdict.report.sort.tally = verdict.report.tally
  countByRule_sort : ∀ rule,
    Report.countIn (Report.countByRule verdict.report.sort.violations) rule =
      Report.countIn (Report.countByRule verdict.report.violations) rule
  isFailure_sort : isFailure { verdict with report := verdict.report.sort } = verdict.isFailure

/-- **Verdicts, counts and reports agree.** -/
theorem agrees (verdict : Verdict) : verdict.Agrees where
  sum_tally := verdict.report.sum_tally
  sum_countByRule := Report.sum_countByRule _
  sorted_countByRule := Report.sorted_countByRule _
  countIn_countByRule := Report.countIn_countByRule _
  isFailure_iff := verdict.report.failsAt_iff verdict.failOn
  describe_eq := by
    rw [← Report.length_reaching]
    exact verdict.report.describeFailure_eq verdict.failOn
  isFailure_of_lower _ hlower h := Report.failsAt_of_rank_le hlower h
  tally_append := verdict.report.tally_append
  countByRule_append other rule := by
    simp only [Report.countIn_countByRule, Report.append, List.countP_append]
  isFailure_append other := verdict.report.failsAt_append other verdict.failOn
  tally_sort := verdict.report.tally_sort
  countByRule_sort rule := by
    rw [Report.countIn_countByRule, Report.countIn_countByRule]
    exact (List.mergeSort_perm _ _).countP_eq _
  isFailure_sort := by
    rw [Bool.eq_iff_iff, isFailure, isFailure, Report.failsAt_iff, Report.failsAt_iff,
      Report.tally_sort]

end Verdict

end RailsReview
