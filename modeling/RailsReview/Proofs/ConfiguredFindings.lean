import RailsReview.Analysis.Analyzer
import RailsReview.Proofs.OnePass
import RailsReview.Rule.PartialView

/-!
# The configuration sifts what is found

A configuration acts on a review in two places.  Rules that it switches off are dropped before the
walk, so that they are never shown a node, and the severities that it sets are put on the violations
after the walk.  Both go by the name of a rule, and rules may share a name.

Seen from outside the two are one: the review is the one without a configuration, sifted.
Violations of rules that are switched off are taken out where they stand, and what is left has the
severity that is set for its rule.

## Why the two places make no difference

A violation carries the name of the rule that made it, whatever the rule remarks.  So at one node
all violations of a rule are kept or all are taken out, as the rule itself is, and this goes
through the interleaving of the rules at a node and of the nodes on the walk.

* `Rule.eq_of_mem_found`: a violation carries the name and the code of its rule.
* `filter_found`, `filter_flatMap_found`: sifting at one node, for one rule and for several.
* `filter_review`: sifting a whole review.
* `Analyzer.reviewSource_eq_sift`: the review of a source file under a configuration.
-/

namespace RailsReview

/-! ## What a configuration says about a rule -/

namespace Config

/-- The configuration switches a rule off: there is a section of the rule that says so. -/
def SwitchesOff (config : Config) (name : String) : Prop :=
  ∃ settings, config.rule? name = some settings ∧ settings.enabled = some false

/-- A rule is enabled unless it is switched off. -/
theorem isEnabled_eq_false_iff {config : Config} {name : String} :
    config.isEnabled name = false ↔ config.SwitchesOff name := by
  unfold isEnabled SwitchesOff
  cases config.rule? name with
  | none => simp
  | some settings =>
    obtain ⟨enabled, severity, options⟩ := settings
    rcases enabled with _ | (_ | _) <;> simp

instance (config : Config) : DecidablePred config.SwitchesOff := fun _ =>
  decidable_of_iff _ isEnabled_eq_false_iff

/-- The violation with the severity that is set for its rule; all else stays. -/
def regrade (config : Config) (violation : Violation) : Violation :=
  { violation with
    severity := (config.severityOf? violation.rule).getD violation.severity }

theorem adjust_eq_regrade (config : Config) : Analyzer.adjust config = config.regrade :=
  funext (Analyzer.adjust_eq config)

/-- Violations as a configuration leaves them: without those of rules that are switched off, and
with the severities that are set. -/
def sift (config : Config) (violations : List Violation) : List Violation :=
  (violations.filter fun violation => ¬ config.SwitchesOff violation.rule).map config.regrade

end Config

/-! ## Sifting a review -/

namespace Rule

/-- A violation carries the name and the code of the rule that made it. -/
theorem eq_of_mem_found {rule : Rule} {file : SourceFile} {node : Node} {violation : Violation}
    (h : violation ∈ rule.found file node) :
    violation.rule = rule.name ∧ violation.code = rule.code := by
  unfold found at h
  split at h
  · obtain ⟨remark, -, rfl⟩ := List.mem_map.mp h
    exact ⟨rfl, rfl⟩
  · exact absurd h List.not_mem_nil

end Rule

section

variable (keeps : String → String → Bool) (file : SourceFile)

/-- At one node, the violations of a rule are kept or taken out together. -/
theorem filter_found (rule : Rule) (node : Node) :
    (rule.found file node).filter (fun violation => keeps violation.rule violation.code) =
      if keeps rule.name rule.code then rule.found file node else [] := by
  have hname : ∀ violation ∈ rule.found file node,
      keeps violation.rule violation.code = keeps rule.name rule.code :=
    fun violation hviolation => by
      rw [(Rule.eq_of_mem_found hviolation).1, (Rule.eq_of_mem_found hviolation).2]
  rw [List.filter_congr hname]
  cases keeps rule.name rule.code <;> simp

/-- At one node, taking out violations is taking out rules. -/
theorem filter_flatMap_found (rules : List Rule) (node : Node) :
    (rules.flatMap (·.found file node)).filter
        (fun violation => keeps violation.rule violation.code) =
      (rules.filter fun rule => keeps rule.name rule.code).flatMap (·.found file node) := by
  induction rules with
  | nil => rfl
  | cons rule rules ih =>
    rw [List.flatMap_cons, List.filter_append, filter_found, ih, List.filter_cons]
    split
    · rw [List.flatMap_cons]
    · rw [List.nil_append]

end

/-- Over a whole walk, taking out violations is taking out rules. -/
theorem filter_review (keeps : String → Bool) (file : SourceFile) (root : Node)
    (rules : List Rule) :
    (review file root rules).filter (fun violation => keeps violation.rule) =
      review file root (rules.filter fun rule => keeps rule.name) := by
  rw [review_eq_flatMap_found, review_eq_flatMap_found, List.filter_flatMap]
  exact congrArg (List.flatMap · root.preorder) (funext fun node =>
    filter_flatMap_found (fun name _ => keeps name) file rules node)

/-! ## Source files -/

namespace Analyzer

/-- Without a configuration all rules review, and no severity is changed. -/
theorem reviewSource_of_config_eq {plain : Analyzer} (h : plain.config = {}) (path : Path)
    (root : Node) :
    plain.reviewSource path root = review (.locate path plain.root) root plain.rules := by
  have hrules : plain.enabledRules = plain.rules := by
    refine List.filter_eq_self.mpr fun rule _ => ?_
    rw [h]
    rfl
  have hadjust : adjust plain.config = id := by
    rw [h]
    rfl
  rw [reviewSource, hrules, hadjust, List.map_id]

/-- **A configuration sifts what is found.**  The review of a source file under a configuration is
the review by the same rules without one, in the same order, less the violations of rules that are
switched off, and with the severities that are set. -/
theorem reviewSource_eq_sift {analyzer plain : Analyzer} (hroot : plain.root = analyzer.root)
    (hrules : plain.rules = analyzer.rules) (hconfig : plain.config = {}) (path : Path)
    (root : Node) :
    analyzer.reviewSource path root = analyzer.config.sift (plain.reviewSource path root) := by
  have hkeeps : ∀ violation : Violation,
      analyzer.config.isEnabled violation.rule =
        decide (¬ analyzer.config.SwitchesOff violation.rule) := fun violation => by
    rw [Bool.eq_iff_iff, decide_eq_true_iff, ← Config.isEnabled_eq_false_iff, Bool.not_eq_false]
  rw [reviewSource_of_config_eq hconfig, hroot, hrules, Config.sift, ← Config.adjust_eq_regrade,
    ← List.filter_congr fun violation _ => hkeeps violation, filter_review]
  rfl

/-- A rule that remarks the label of every node it is shown. -/
def probe (code : String) (kinds : List NodeKind) : Rule where
  name := "probe"
  code := code
  kinds := kinds
  inspect := fun _ node => [⟨node.span, node.label⟩]

/-- Two rules share a name, for which a severity is set, and one between them is switched off. -/
def probingAnalyzer : Analyzer where
  root := ⟨"/shop"⟩
  rules := [probe "P1" [.call], PartialView.rule {}, probe "P2" [.call, .instanceVariable]]
  excludes := []
  includes := []
  config := { rules := [("probe", { severity := some .info }),
    (PartialView.name, { enabled := some false, severity := some .warning })] }
  strict := false

/-- A partial view with the call `@post.title`. -/
def probedTree : Node :=
  .block "template" [.call (some (.reference .instanceVariable "@post" ⟨1, 5⟩)) "title" [] ⟨1, 5⟩] {}

/-- The same root and the same rules without a configuration. -/
def plainAnalyzer : Analyzer :=
  { probingAnalyzer with config := {} }

theorem reviewSource_eq_sift_probing :
    plainAnalyzer.root = probingAnalyzer.root ∧ plainAnalyzer.rules = probingAnalyzer.rules ∧
      plainAnalyzer.config = {} ∧
      probingAnalyzer.reviewSource ⟨"/shop/app/views/_post.erb"⟩ probedTree =
        probingAnalyzer.config.sift
          (plainAnalyzer.reviewSource ⟨"/shop/app/views/_post.erb"⟩ probedTree) := by
  have hroot : plainAnalyzer.root = probingAnalyzer.root := rfl
  have hrules : plainAnalyzer.rules = probingAnalyzer.rules := rfl
  have hconfig : plainAnalyzer.config = {} := rfl
  exact ⟨hroot, hrules, hconfig, reviewSource_eq_sift hroot hrules hconfig _ _⟩

end Analyzer

end RailsReview
