import Mathlib.Data.List.Nodup
import RailsReview.Proofs.ReportOrder
import RailsReview.Proofs.Summary
import RailsReview.Proofs.Traversal
import RailsReview.Rule.Preset

/-!
# Reports do not depend on the order of the documents

The order of a report looks at the place and the code of a violation and at nothing else, and
violations that are level keep the order in which they were found.  So two orders of the documents
give the same report only if level violations are the same in every respect.

They are, because the rest of a violation is a `Stamp` that its rule puts on it, whatever the tree,
and the rules that come with the program have different codes.  The severity that is set for a rule
changes the stamp of all its violations alike.  This holds for violations of different documents that
declare the same path, and for a rule that has been picked twice.

* `Violation.Same`: equality of violations, with paths up to spelling.
* `Stamp.eq_of_code_eq`: the code tells the stamps apart.
* `BuiltIn.stamp_mem`: each violation of rules that come with the program has one of two stamps.
* `forall₂_same_of_map_sortKey_eq`: the same keys in the same order are the same violations.
* `Analyzer.summarize_same_of_perm`: the report of the documents in another order.
-/

namespace RailsReview

/-! ## Stamps -/

/-- What a violation says apart from where it is. -/
structure Stamp where
  code : String
  rule : String
  severity : Severity
  message : String
  suggestion : Option String
  reference : Option String
  deriving DecidableEq, Repr

namespace Violation

/-- What the violation says apart from where it is. -/
def stamp (violation : Violation) : Stamp where
  code := violation.code
  rule := violation.rule
  severity := violation.severity
  message := violation.message
  suggestion := violation.suggestion
  reference := violation.reference

/-- Equality of violations, with paths that have the same components taken for the same. -/
structure Same (a b : Violation) : Prop where
  code : a.code = b.code
  rule : a.rule = b.rule
  severity : a.severity = b.severity
  file : a.location.file.components = b.location.file.components
  line : a.location.line = b.location.line
  column : a.location.column = b.location.column
  message : a.message = b.message
  suggestion : a.suggestion = b.suggestion
  reference : a.reference = b.reference

/-- The key and the stamp are all there is to a violation. -/
theorem same_iff {a b : Violation} : Same a b ↔ a.sortKey = b.sortKey ∧ a.stamp = b.stamp := by
  rw [sortKey, sortKey, stamp, stamp, SortKey.mk.injEq, Stamp.mk.injEq]
  constructor
  · intro h
    exact ⟨⟨h.file, h.line, h.column, h.code⟩, h.code, h.rule, h.severity, h.message, h.suggestion,
      h.reference⟩
  · rintro ⟨⟨file, line, column, -⟩, code, rule, severity, message, suggestion, reference⟩
    exact ⟨code, rule, severity, file, line, column, message, suggestion, reference⟩

instance : DecidableRel Same := fun _ _ => decidable_of_iff _ same_iff.symm

end Violation

namespace Stamp

/-- The stamp with the severity that is set for its rule. -/
def adjust (config : Config) (stamp : Stamp) : Stamp :=
  { stamp with severity := (config.severityOf? stamp.rule).getD stamp.severity }

theorem stamp_adjust (config : Config) (violation : Violation) :
    (Analyzer.adjust config violation).stamp = violation.stamp.adjust config := by
  simp only [Violation.stamp, Stamp.adjust, Analyzer.adjust_code, Analyzer.adjust_rule,
    Analyzer.adjust_severity, Analyzer.adjust_message, Analyzer.adjust_suggestion,
    Analyzer.adjust_reference]

end Stamp

/-! ## Rules -/

/-- A rule puts a stamp on all its violations. -/
def Rule.Stamps (rule : Rule) (stamp : Stamp) : Prop :=
  ∀ file node, ∀ violation ∈ rule.visit file node, violation.stamp = stamp

/-- The stamp that goes with a message of a rule. -/
def Rule.stampOf (rule : Rule) (message : String) : Stamp where
  code := rule.code
  rule := rule.name
  severity := rule.severity
  message := message
  suggestion := rule.suggestion
  reference := rule.url

/-- A rule with only one message puts one stamp on all its violations. -/
theorem Rule.stamps_of_message {rule : Rule} {message : String}
    (h : ∀ file node, ∀ remark ∈ rule.inspect file node, remark.message = message) :
    rule.Stamps (rule.stampOf message) := by
  intro file node violation hviolation
  obtain ⟨remark, hremark, rfl⟩ := exists_remark_of_mem_visit hviolation
  rw [Violation.stamp, Rule.violation, Rule.stampOf, h file node remark hremark]

theorem LawOfDemeter.stamps_rule (models : ModelIndex) (severity : Severity) :
    (rule models severity).Stamps ((rule models severity).stampOf message) := by
  refine Rule.stamps_of_message fun file node remark hremark => ?_
  have hspan : remark ∈ [(⟨node.span, message⟩ : Remark)] := by
    by_cases hflag : needsDelegate models node = true
    · simpa [rule, hflag] using hremark
    · simp [rule, hflag] at hremark
  rw [List.mem_singleton.mp hspan]

theorem PartialView.stamps_rule (view : PartialView) :
    view.rule.Stamps (view.rule.stampOf message) := by
  refine Rule.stamps_of_message fun file node remark hremark => ?_
  have hspan : remark ∈ [(⟨node.span, message⟩ : Remark)] := hremark
  rw [List.mem_singleton.mp hspan]

/-- Rules as presets and lists of names and codes make them. -/
inductive BuiltIn : List Rule → Prop
  | preset (preset : Preset) (models : ModelIndex) (config : Config) :
    BuiltIn (preset.rules models config)
  | picked (entries : List String) (models : ModelIndex) (config : Config) :
    BuiltIn (pickRules entries models config)

/-- The stamps of all rules that come with the program. -/
def Stamp.all : List Stamp :=
  [(LawOfDemeter.rule .empty .error).stampOf LawOfDemeter.message,
    (PartialView.rule {}).stampOf PartialView.message]

/-- No two rules that come with the program share a code. -/
theorem Stamp.eq_of_code_eq {a b : Stamp} (ha : a ∈ all) (hb : b ∈ all) (h : a.code = b.code) :
    a = b := by
  have hnodup : (all.map Stamp.code).Nodup := by decide
  exact List.inj_on_of_nodup_map hnodup ha hb h

/-- The patterns of the rule on partial views do not show in its stamp. -/
theorem PartialView.stampOf_rule_ofSettings (settings : Option RuleSettings) (message : String) :
    (ofSettings settings).rule.stampOf message = (rule {}).stampOf message := by
  cases settings <;> rfl

theorem stamps_of_mem_allRules {models : ModelIndex} {config : Config} {rule : Rule}
    (h : rule ∈ allRules models config) : ∃ stamp ∈ Stamp.all, rule.Stamps stamp := by
  rw [allRules, List.mem_cons, List.mem_singleton] at h
  rcases h with rfl | rfl
  · exact ⟨_, List.mem_cons_self, LawOfDemeter.stamps_rule models .error⟩
  · have hstamps := PartialView.stamps_rule
      (PartialView.ofSettings (config.rule? PartialView.name))
    rw [PartialView.stampOf_rule_ofSettings] at hstamps
    exact ⟨_, List.mem_cons_of_mem _ List.mem_cons_self, hstamps⟩

namespace BuiltIn

theorem exists_mem_allRules {rules : List Rule} (h : BuiltIn rules) :
    ∃ models config, ∀ rule ∈ rules, rule ∈ allRules models config := by
  cases h with
  | preset preset models config =>
    refine ⟨models, config, fun rule hrule => ?_⟩
    cases preset with
    | recommended => exact hrule
    | minimal => exact List.mem_cons.mpr (.inl (List.mem_singleton.mp hrule))
  | picked entries models config =>
    refine ⟨models, config, fun rule hrule => ?_⟩
    obtain ⟨entry, -, hpicked⟩ := List.mem_flatMap.mp hrule
    exact List.mem_of_mem_filter hpicked

/-- Each violation in a tree has the stamp of a rule, with the severity that is set for it. -/
theorem stamp_mem {analyzer : Analyzer} (h : BuiltIn analyzer.rules) {path : Path} {root : Node}
    {violation : Violation} (hviolation : violation ∈ analyzer.reviewSource path root) :
    ∃ stamp ∈ Stamp.all, violation.stamp = stamp.adjust analyzer.config := by
  obtain ⟨models, config, hrules⟩ := h.exists_mem_allRules
  obtain ⟨found, hfound, rfl⟩ := List.mem_map.mp hviolation
  obtain ⟨node, -, rule, hrule, -, hvisit⟩ := mem_review_iff.mp hfound
  obtain ⟨stamp, hstamp, hstamps⟩ := stamps_of_mem_allRules
    (hrules rule (List.mem_of_mem_filter hrule))
  refine ⟨stamp, hstamp, ?_⟩
  rw [Stamp.stamp_adjust, hstamps _ node found hvisit]

end BuiltIn

/-! ## Reports -/

/-- Violations with the same keys are the same, one after the other, if the key of a violation
decides what it is. -/
theorem forall₂_same_of_map_sortKey_eq {violations others : List Violation}
    (hkeys : violations.map Violation.sortKey = others.map Violation.sortKey)
    (h : ∀ a ∈ violations, ∀ b ∈ others, a.sortKey = b.sortKey → a.Same b) :
    List.Forall₂ Violation.Same violations others := by
  have hlevel := hkeys
  rw [← List.forall₂_eq_eq_eq, List.forall₂_map_left_iff, List.forall₂_map_right_iff,
    List.forall₂_iff_zip] at hlevel
  rw [List.forall₂_iff_zip]
  refine ⟨hlevel.1, fun {a b} hpair => ?_⟩
  obtain ⟨ha, hb⟩ := List.of_mem_zip hpair
  exact h a ha b hb (hlevel.2 hpair)

namespace Analyzer

/-- What becomes of a document at a path, and of a text there that is no document. -/
def outcomeOf (analyzer : Analyzer) : Path × Option Document → Outcome
  | (path, some document) => .reviewed (analyzer.reviewDocument path document)
  | (path, none) => .rejected path

theorem outcome_eq_outcomeOf (analyzer : Analyzer) (path : Path) (text : String) :
    analyzer.outcome path (.ok text) = analyzer.outcomeOf (path, Document.parse? text) := by
  rw [outcome, outcomeOf.eq_def]
  cases Document.parse? text <;> rfl

/-- Level violations of one analyzer are the same. -/
theorem same_of_sortKey_eq {analyzer : Analyzer} (hrules : BuiltIn analyzer.rules)
    {documents others : List (Path × Option Document)} {a b : Violation}
    (ha : a ∈ (Report.ofOutcomes (documents.map analyzer.outcomeOf)).violations)
    (hb : b ∈ (Report.ofOutcomes (others.map analyzer.outcomeOf)).violations)
    (h : a.sortKey = b.sortKey) : a.Same b := by
  have hstamp : ∀ {entries : List (Path × Option Document)} {violation : Violation},
      violation ∈ (Report.ofOutcomes (entries.map analyzer.outcomeOf)).violations →
        ∃ stamp ∈ Stamp.all, violation.stamp = stamp.adjust analyzer.config := by
    intro entries violation hviolation
    obtain ⟨outcome, houtcome, hviolation⟩ := List.mem_flatMap.mp hviolation
    obtain ⟨⟨path, document⟩, -, rfl⟩ := List.mem_map.mp houtcome
    cases document with
    | none => exact absurd hviolation List.not_mem_nil
    | some document => exact hrules.stamp_mem hviolation
  obtain ⟨left, hleft, haleft⟩ := hstamp ha
  obtain ⟨right, hright, hbright⟩ := hstamp hb
  have hcode : left.code = right.code :=
    calc left.code = a.code := congrArg Stamp.code haleft.symm
      _ = b.code := congrArg SortKey.code h
      _ = right.code := congrArg Stamp.code hbright
  rw [Stamp.eq_of_code_eq hleft hright hcode] at haleft
  exact Violation.same_iff.mpr ⟨h, haleft.trans hbright.symm⟩

/-- **Order independence.**  The documents in another order give a report with the same violations,
one after the other, and with the same counts. -/
theorem summarize_same_of_perm {analyzer : Analyzer} (hrules : BuiltIn analyzer.rules)
    {documents permuted : List (Path × Option Document)} (hperm : documents.Perm permuted)
    (hstrict : analyzer.strict = true → ∀ entry ∈ documents, entry.2.isSome = true) :
    ∃ report other : Report,
      summarize analyzer.strict (documents.map analyzer.outcomeOf) = .ok report ∧
        summarize analyzer.strict (permuted.map analyzer.outcomeOf) = .ok other ∧
        List.Forall₂ Violation.Same report.violations other.violations ∧
        report.filesChecked = other.filesChecked ∧ report.filesSkipped = other.filesSkipped := by
  have hcontinues : ∀ entry ∈ documents,
      (analyzer.outcomeOf entry).continues analyzer.strict = true := by
    rintro ⟨path, document⟩ hentry
    cases document with
    | some document => rfl
    | none =>
      cases h : analyzer.strict with
      | false => rfl
      | true => exact absurd (hstrict h _ hentry) (by simp)
  have houtcomes := hperm.map analyzer.outcomeOf
  have hpermuted : ∀ entry ∈ permuted,
      (analyzer.outcomeOf entry).continues analyzer.strict = true := fun entry hentry =>
    hcontinues entry (hperm.mem_iff.mpr hentry)
  refine ⟨_, _, summarize_eq_ok (List.forall_mem_map.mpr hcontinues),
    summarize_eq_ok (List.forall_mem_map.mpr hpermuted), ?_, houtcomes.countP_eq _,
    houtcomes.countP_eq _⟩
  refine forall₂_same_of_map_sortKey_eq
    (Violation.map_sortKey_mergeSort_of_perm (houtcomes.flatMap_right _)) fun a ha b hb => ?_
  exact same_of_sortKey_eq hrules ((List.mergeSort_perm _ _).mem_iff.mp ha)
    ((List.mergeSort_perm _ _).mem_iff.mp hb)

/-- A partial view that reads the name of the user of an invoice. -/
def invoiceView (path : String) : Document where
  path := some ⟨path⟩
  root := .call (some (.call (some (.reference .instanceVariable "@invoice" ⟨2, 3⟩)) "user" []
    ⟨2, 3⟩)) "name" [] ⟨2, 3⟩

/-- All rules, for invoices that belong to users with names. -/
def invoiceAnalyzer : Analyzer where
  root := ⟨"/shop"⟩
  rules := Preset.recommended.rules
    ((ModelIndex.empty.addAssociation "Invoice" "user" .belongsTo "User").addAttribute "User" "name")
    {}
  excludes := []
  includes := []
  config := {}
  strict := false

/-- Two documents that declare the same path, spelled differently, around one that is no tree. -/
def respelled : List (Path × Option Document) :=
  [(⟨"a.ast.json"⟩, some (invoiceView "app/views/_user.erb")), (⟨"b.ast.json"⟩, none),
    (⟨"c.ast.json"⟩, some (invoiceView "app/views/./_user.erb"))]

theorem summarize_same_of_perm_respelled :
    BuiltIn invoiceAnalyzer.rules ∧ respelled.Perm respelled.reverse ∧
      ∃ report other : Report,
        summarize false (respelled.map invoiceAnalyzer.outcomeOf) = .ok report ∧
          summarize false (respelled.reverse.map invoiceAnalyzer.outcomeOf) = .ok other ∧
          List.Forall₂ Violation.Same report.violations other.violations ∧
          report.filesChecked = other.filesChecked ∧
          report.filesSkipped = other.filesSkipped := by
  have hrules : BuiltIn invoiceAnalyzer.rules := .preset .recommended _ {}
  have hperm : respelled.Perm respelled.reverse := (List.reverse_perm respelled).symm
  have hstrict : invoiceAnalyzer.strict = true → ∀ entry ∈ respelled, entry.2.isSome = true :=
    fun h => absurd h Bool.false_ne_true
  exact ⟨hrules, hperm, summarize_same_of_perm hrules hperm hstrict⟩

end Analyzer

end RailsReview
