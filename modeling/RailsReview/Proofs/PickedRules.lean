import Mathlib.Data.List.Flatten
import RailsReview.Proofs.ConfiguredFindings
import RailsReview.Proofs.Data.List
import RailsReview.Proofs.Isolation
import RailsReview.Proofs.ReportOrder
import RailsReview.Rule.Preset

/-!
# Picked rules

Rules can be picked from a list of rules, by name or by code.  A rule that is picked several times
is run several times, and then everything that it finds is found several times.

So a report by picked rules is the report by all rules, with each violation repeated as often as its
rule is picked, or left out if it is not.

* `Violation.repeatEach`: some violations, each several times in a row or not at all.
* `Violation.mergeSort_repeatEach`: they can be sorted before or after.
* `length_flatMap_found_allRules`: no node is remarked on by two rules.
* `flatMap_found_pick`: what picked rules find at a node.
* `review_pick`, `Analyzer.reviewSource_pick`: what they find in a tree, and in a source file.
* `Analyzer.summarize_repeatEach`: violations can be repeated before or after they are collected.
* `Analyzer.analyze_pick`: what they find in all documents.

## Why the order in which rules are picked does not matter

The rules that are picked stand in the order in which they are, with the repetitions in between.
But only one of the rules has something to say about a node.  So at a node the copies of its remark
stand next to each other, as they do if the review by all rules is made first and each violation is
repeated then.  Sorting keeps the order of violations with the same key, and so keeps them there.
-/

namespace RailsReview

/-! ## Repeated violations -/

namespace Violation

/-- Some violations, each as many times in a row as a function of its rule and code says. -/
def repeatEach (times : String → String → Nat) (violations : List Violation) : List Violation :=
  violations.flatMap fun violation =>
    List.replicate (times violation.rule violation.code) violation

variable (times : String → String → Nat)

theorem repeatEach_append (violations others : List Violation) :
    repeatEach times (violations ++ others) =
      repeatEach times violations ++ repeatEach times others :=
  List.flatMap_append

theorem repeatEach_flatMap {α : Type} (entries : List α) (found : α → List Violation) :
    repeatEach times (entries.flatMap found) =
      entries.flatMap fun entry => repeatEach times (found entry) :=
  List.flatMap_assoc

/-- What happens to each violation can happen before it is repeated, if its rule and code stay. -/
theorem repeatEach_map {change : Violation → Violation}
    (h : ∀ violation, (change violation).rule = violation.rule ∧
      (change violation).code = violation.code) (violations : List Violation) :
    repeatEach times (violations.map change) = (repeatEach times violations).map change := by
  rw [repeatEach, repeatEach, List.flatMap_map, List.map_flatMap]
  simp only [h, List.map_replicate]

theorem filter_repeatEach (keeps : Violation → Bool) (violations : List Violation) :
    (repeatEach times violations).filter keeps = repeatEach times (violations.filter keeps) := by
  induction violations with
  | nil => rfl
  | cons violation violations ih =>
    rw [repeatEach, List.flatMap_cons, List.filter_append, List.filter_replicate,
      List.filter_cons]
    split
    · exact congrArg _ ih
    · exact ih

/-- Keeping some violations is repeating them once, and the others not at all. -/
theorem repeatEach_ite (keeps : String → String → Bool) (violations : List Violation) :
    repeatEach (fun name code => if keeps name code then 1 else 0) violations =
      violations.filter fun violation => keeps violation.rule violation.code := by
  induction violations with
  | nil => rfl
  | cons violation violations ih =>
    rw [repeatEach, List.flatMap_cons, List.filter_cons]
    split
    · exact congrArg _ ih
    · exact ih

/-- Violations in order stay in order if they are repeated. -/
theorem pairwise_le_repeatEach {violations : List Violation}
    (h : violations.Pairwise fun a b => a.le b = true) :
    (repeatEach times violations).Pairwise fun a b => a.le b = true := by
  refine List.pairwise_flatMap.mpr ⟨fun violation _ => ?_, h.imp fun hab a ha b hb => ?_⟩
  · exact List.pairwise_replicate.mpr (.inr (le_of_sortKey_eq rfl))
  · rwa [List.eq_of_mem_replicate ha, List.eq_of_mem_replicate hb]

/-- Violations can be sorted before they are repeated as well as after. -/
theorem mergeSort_repeatEach (violations : List Violation) :
    (repeatEach times violations).mergeSort le = repeatEach times (violations.mergeSort le) := by
  refine eq_of_filter_sortKey_eq (pairwise_le_mergeSort _)
    (pairwise_le_repeatEach times (pairwise_le_mergeSort _)) fun key => ?_
  rw [filter_sortKey_mergeSort, filter_repeatEach, filter_repeatEach, filter_sortKey_mergeSort]

end Violation

namespace Report

/-- The report with each violation as many times as a function of its rule and code says. -/
def repeatEach (times : String → String → Nat) (report : Report) : Report :=
  { report with violations := Violation.repeatEach times report.violations }

/-- The report without some violations, as their rule and code say. -/
def restrict (keeps : String → String → Bool) (report : Report) : Report :=
  { report with
    violations := report.violations.filter fun violation => keeps violation.rule violation.code }

theorem repeatEach_ite (keeps : String → String → Bool) (report : Report) :
    report.repeatEach (fun name code => if keeps name code then 1 else 0) =
      report.restrict keeps := by
  rw [repeatEach, restrict, Violation.repeatEach_ite]

theorem sort_repeatEach (times : String → String → Nat) (report : Report) :
    (report.repeatEach times).sort = report.sort.repeatEach times := by
  simp only [sort, repeatEach, Violation.mergeSort_repeatEach]

end Report

/-! ## Picked rules at a node -/

/-- How many of some entries name a rule, by its name or by its code. -/
def timesNamed (entries : List String) (name code : String) : Nat :=
  entries.countP fun entry => name = entry ∨ code = entry

/-- The rules among some that entries name, in the order of the entries. -/
def pick (entries : List String) (rules : List Rule) : List Rule :=
  entries.flatMap fun entry => rules.filter fun rule => rule.name = entry ∨ rule.code = entry

theorem pickRules_eq_pick (entries : List String) (models : ModelIndex) (config : Config) :
    pickRules entries models config = pick entries (allRules models config) := by
  simp only [pickRules, pick, Bool.decide_or, beq_eq_decide]

theorem filter_pick (keeps : Rule → Bool) (entries : List String) (rules : List Rule) :
    (pick entries rules).filter keeps = pick entries (rules.filter keeps) := by
  simp only [pick, List.filter_flatMap, List.filter_filter, Bool.and_comm]

section

variable (file : SourceFile) (node : Node)

/-- A rule finds nothing at a node that it does not want to be shown. -/
theorem found_eq_nil {rule : Rule} (h : node.kind ∉ rule.kinds) : rule.found file node = [] :=
  if_neg fun hfound => h hfound.2

theorem length_found_le (rule : Rule) :
    (rule.found file node).length ≤ (rule.inspect file node).length := by
  unfold Rule.found
  split
  · exact Nat.le_of_eq (List.length_map _)
  · exact Nat.zero_le _

/-- No node is remarked on by two rules, or twice by one. -/
theorem length_flatMap_found_allRules (models : ModelIndex) (config : Config) :
    ((allRules models config).flatMap (·.found file node)).length ≤ 1 := by
  rw [allRules, List.flatMap_cons, List.flatMap_singleton, List.length_append]
  -- only a call is shown to the one, and only an instance variable to the other
  by_cases hkind : node.kind = .call
  · have hview : ∀ view : PartialView, view.rule.found file node = [] := fun view =>
      found_eq_nil file node (by simp [PartialView.rule, hkind])
    have hinspect : ((LawOfDemeter.rule models .error).inspect file node).length ≤ 1 := by
      dsimp only [LawOfDemeter.rule]
      split <;> simp
    rw [hview]
    exact Nat.le_trans (length_found_le file node _) hinspect
  · have hdemeter : (LawOfDemeter.rule models .error).found file node = [] :=
      found_eq_nil file node (by simp [LawOfDemeter.rule, hkind])
    rw [hdemeter, List.length_nil, Nat.zero_add]
    exact length_found_le file node _

/-- What the rules that are picked find at a node, if all rules together find no more than one thing
there. -/
theorem flatMap_found_pick {times : String → String → Nat} {entries : List String}
    {rules : List Rule}
    (htimes : ∀ rule ∈ rules, times rule.name rule.code = timesNamed entries rule.name rule.code)
    (hone : (rules.flatMap (·.found file node)).length ≤ 1) :
    (pick entries rules).flatMap (·.found file node) =
      Violation.repeatEach times (rules.flatMap (·.found file node)) := by
  have hentry : ∀ entry,
      (rules.filter fun rule => rule.name = entry ∨ rule.code = entry).flatMap
          (·.found file node) =
        (rules.flatMap (·.found file node)).filter fun violation =>
          violation.rule = entry ∨ violation.code = entry := fun entry =>
    (filter_flatMap_found (fun name code => name = entry ∨ code = entry) file rules node).symm
  have hfound : ∀ violation ∈ rules.flatMap (·.found file node),
      times violation.rule violation.code =
        timesNamed entries violation.rule violation.code := by
    intro violation hviolation
    obtain ⟨rule, hrule, hmem⟩ := List.mem_flatMap.mp hviolation
    obtain ⟨hname, hcode⟩ := Rule.eq_of_mem_found hmem
    rw [hname, hcode, htimes rule hrule]
  rw [pick, List.flatMap_assoc]
  simp only [hentry]
  rw [List.flatMap_filter_of_length_le_one _ entries hone]
  exact List.flatMap_congr fun violation hviolation => by rw [hfound violation hviolation]; rfl

end

/-- In a tree, picked rules find what all rules find, each thing as often as its rule is picked. -/
theorem review_pick (file : SourceFile) (root : Node) {times : String → String → Nat}
    {entries : List String} {rules : List Rule}
    (htimes : ∀ rule ∈ rules, times rule.name rule.code = timesNamed entries rule.name rule.code)
    (hone : ∀ node, (rules.flatMap (·.found file node)).length ≤ 1) :
    review file root (pick entries rules) =
      Violation.repeatEach times (review file root rules) := by
  rw [review_eq_flatMap_found, review_eq_flatMap_found, Violation.repeatEach_flatMap]
  exact List.flatMap_congr fun node _ => flatMap_found_pick file node htimes (hone node)

/-! ## Picked rules in an analysis -/

/-- The outcome with each violation as many times as a function of its rule and code says. -/
def Outcome.repeatEach (times : String → String → Nat) : Outcome → Outcome
  | reviewed violations => reviewed (Violation.repeatEach times violations)
  | rejected path => rejected path
  | unreadable cause => unreadable cause

namespace Analyzer

theorem collect_repeatEach (strict : Bool) (times : String → String → Nat) (report : Report)
    (outcome : Outcome) :
    collect strict (report.repeatEach times) (outcome.repeatEach times) =
      (collect strict report outcome).map (·.repeatEach times) := by
  cases outcome with
  | reviewed violations =>
    simp only [collect, Outcome.repeatEach, Report.repeatEach, Except.map,
      Violation.repeatEach_append]
  | rejected path => cases strict <;> rfl
  | unreadable cause => rfl

/-- It makes no difference whether violations are repeated document by document or in the report. -/
theorem summarize_repeatEach (strict : Bool) (times : String → String → Nat)
    (outcomes : List Outcome) :
    summarize strict (outcomes.map (·.repeatEach times)) =
      (summarize strict outcomes).map (·.repeatEach times) := by
  have hfold := foldlM_collect_of_commutes (collect_repeatEach strict times) {} outcomes
  rw [summarize, summarize]
  change Except.map Report.sort ((outcomes.map (·.repeatEach times)).foldlM (collect strict)
    (Report.repeatEach times {})) = _
  rw [hfold]
  cases outcomes.foldlM (collect strict) {} with
  | error error => rfl
  | ok report => exact congrArg Except.ok (Report.sort_repeatEach times report)

/-- The analyzer with the rules that entries name, and with another configuration. -/
def pick (analyzer : Analyzer) (entries : List String) (config : Config) : Analyzer :=
  { analyzer with rules := RailsReview.pick entries analyzer.rules, config }

section

variable {analyzer : Analyzer} {config : Config} {times : String → String → Nat}
  {entries : List String} (hconfig : config.rules = analyzer.config.rules)
  (htimes : ∀ rule ∈ analyzer.rules,
    times rule.name rule.code = timesNamed entries rule.name rule.code)
  (hone : ∀ file node, (analyzer.rules.flatMap (·.found file node)).length ≤ 1)

include hconfig

theorem enabledRules_pick :
    (analyzer.pick entries config).enabledRules =
      RailsReview.pick entries analyzer.enabledRules := by
  have henabled : config.isEnabled = analyzer.config.isEnabled := by
    unfold Config.isEnabled Config.rule?
    rw [hconfig]
  rw [enabledRules, enabledRules, ← henabled]
  exact filter_pick _ entries analyzer.rules

theorem adjust_eq_of_rules_eq : adjust config = adjust analyzer.config := by
  unfold adjust Config.severityOf? Config.rule?
  rw [hconfig]

include htimes hone

theorem reviewSource_pick (path : Path) (root : Node) :
    (analyzer.pick entries config).reviewSource path root =
      Violation.repeatEach times (analyzer.reviewSource path root) := by
  have htimes' : ∀ rule ∈ analyzer.enabledRules,
      times rule.name rule.code = timesNamed entries rule.name rule.code := fun rule hrule =>
    htimes rule (List.mem_of_mem_filter hrule)
  have hone' : ∀ node, (analyzer.enabledRules.flatMap
      (·.found (.locate path analyzer.root) node)).length ≤ 1 := fun node =>
    Nat.le_trans (List.filter_sublist.flatMap _).length_le (hone _ node)
  have hadjust : ∀ violation, (adjust analyzer.config violation).rule = violation.rule ∧
      (adjust analyzer.config violation).code = violation.code := fun violation =>
    ⟨adjust_rule _ violation, adjust_code _ violation⟩
  rw [reviewSource, reviewSource, enabledRules_pick hconfig, Violation.repeatEach_map times hadjust,
    ← review_pick _ _ htimes' hone', ← adjust_eq_of_rules_eq hconfig]
  rfl

theorem outcomeOfFound_pick (found : Path × FileTree) :
    (analyzer.pick entries config).outcomeOfFound found =
      (analyzer.outcomeOfFound found).repeatEach times := by
  rw [outcomeOfFound_eq, outcomeOfFound_eq]
  rcases held found with cause | (_ | document)
  · rfl
  · rfl
  · exact congrArg Outcome.reviewed (reviewSource_pick hconfig htimes hone _ document.root)

/-- **In all documents, picked rules find what all rules find,** each thing as often as its rule is
picked. -/
theorem analyze_pick (files : FileSystem) :
    (analyzer.pick entries config).analyze files =
      (analyzer.analyze files).map (·.repeatEach times) := by
  have houtcomes : ((analyzer.documents files).map (analyzer.pick entries config).outcomeOfFound) =
      ((analyzer.documents files).map analyzer.outcomeOfFound).map (·.repeatEach times) := by
    rw [List.map_map]
    exact List.map_congr_left fun found _ => outcomeOfFound_pick hconfig htimes hone found
  rw [analyze_eq_summarize, analyze_eq_summarize, ← summarize_repeatEach, ← houtcomes]
  rfl

end

end Analyzer

end RailsReview
