import Mathlib.Logic.Relation
import RailsReview.Proofs.OrderIndependence

/-!
# The order of siblings does not matter

The arguments of a call and the children of a block can be put in another order, in as many places of
a tree as one likes, also below each other.  The tree is then walked in another order, but what is
found is the same.

`Node.Permuted` is one such change, at one place, and `Node.Rearranged` any number of them.  A rule
may look at the subject of a call, which stays where it is, and at the subject of the subject.  What
it must not look at is the arguments on the way.

* `Node.Permuted.perm_flatMap`: what is gathered from the nodes of a tree after one change.
* `Rule.BlindToOrder`: a rule finds the same at a node after a change at the node or below it.
* `perm_review_of_rearranged`: a review by such rules after any number of changes.
* `eq_of_mem_review_of_sortKey_eq`: violations of one file that are level are equal.
* `Violation.mergeSort_append_eq_of_perm`: so it makes no difference to a sorted report in which order
  they are found.
* `review_of_rearranged`: the rules of a preset.
-/

namespace RailsReview

namespace Node

/-! ## Trees with siblings in another order -/

/-- The arguments of one call or the children of one block, anywhere in a tree, are put in another
order. -/
inductive Permuted : Node → Node → Prop
  | arguments {subject : Option Node} {message : String} {arguments permuted : List Node}
      {span : Span} (h : arguments.Perm permuted) :
      Permuted (.call subject message arguments span) (.call subject message permuted span)
  | children {label : String} {children permuted : List Node} {span : Span}
      (h : children.Perm permuted) :
      Permuted (.block label children span) (.block label permuted span)
  | inSubject {subject permuted : Node} {message : String} {arguments : List Node} {span : Span}
      (h : Permuted subject permuted) :
      Permuted (.call (some subject) message arguments span)
        (.call (some permuted) message arguments span)
  | inArgument {subject : Option Node} {message : String} {before after : List Node}
      {argument permuted : Node} {span : Span} (h : Permuted argument permuted) :
      Permuted (.call subject message (before ++ argument :: after) span)
        (.call subject message (before ++ permuted :: after) span)
  | inChild {label : String} {before after : List Node} {child permuted : Node} {span : Span}
      (h : Permuted child permuted) :
      Permuted (.block label (before ++ child :: after) span)
        (.block label (before ++ permuted :: after) span)

/-- Siblings are put in another order at any number of places. -/
def Rearranged : Node → Node → Prop :=
  Relation.ReflTransGen Permuted

theorem Permuted.kind_eq {node other : Node} (h : Permuted node other) : node.kind = other.kind := by
  cases h <;> rfl

theorem Permuted.span_eq {node other : Node} (h : Permuted node other) : node.span = other.span := by
  cases h <;> rfl

/-! ## Walking a rearranged tree -/

section

variable {α : Type} {gather : Node → List α}

/-- What is gathered from a tree: what the root gives, then what its children give. -/
theorem flatMap_preorder (node : Node) :
    node.preorder.flatMap gather =
      gather node ++ node.children.flatMap fun child => child.preorder.flatMap gather := by
  rw [preorder_eq, preorderList_eq_flatMap, List.flatMap_cons, List.flatMap_assoc]

theorem perm_flatMap_append_cons {child other : Node}
    (h : (child.preorder.flatMap gather).Perm (other.preorder.flatMap gather))
    (before after : List Node) :
    ((before ++ child :: after).flatMap fun child => child.preorder.flatMap gather).Perm
      ((before ++ other :: after).flatMap fun child => child.preorder.flatMap gather) := by
  rw [List.flatMap_append, List.flatMap_append, List.flatMap_cons, List.flatMap_cons]
  exact (h.append_right _).append_left _

theorem perm_flatMap_of_children {node other : Node} (hroot : gather node = gather other)
    (h : (node.children.flatMap fun child => child.preorder.flatMap gather).Perm
      (other.children.flatMap fun child => child.preorder.flatMap gather)) :
    (node.preorder.flatMap gather).Perm (other.preorder.flatMap gather) := by
  rw [flatMap_preorder node, flatMap_preorder other, hroot]
  exact h.append_left _

variable (hgather : ∀ node other, Permuted node other → gather node = gather other)

include hgather

/-- One change puts what is gathered in another order, if the nodes give the same after a change at
them or below them. -/
theorem Permuted.perm_flatMap {node other : Node} (h : Permuted node other) :
    (node.preorder.flatMap gather).Perm (other.preorder.flatMap gather) := by
  induction h with
  | @arguments subject message arguments permuted span h =>
    refine perm_flatMap_of_children (hgather _ _ (.arguments h)) ?_
    exact (h.append_left subject.toList).flatMap_right _
  | children h =>
    refine perm_flatMap_of_children (hgather _ _ (.children h)) ?_
    exact h.flatMap_right _
  | @inSubject subject permuted message arguments span h ih =>
    refine perm_flatMap_of_children (hgather _ _ (.inSubject h)) ?_
    exact perm_flatMap_append_cons ih [] arguments
  | @inArgument subject message before after argument permuted span h ih =>
    refine perm_flatMap_of_children (hgather _ _ (.inArgument h)) ?_
    have hsiblings := perm_flatMap_append_cons ih (subject.toList ++ before) after
    rw [List.append_assoc, List.append_assoc] at hsiblings
    exact hsiblings
  | @inChild label before after child permuted span h ih =>
    refine perm_flatMap_of_children (hgather _ _ (.inChild h)) ?_
    exact perm_flatMap_append_cons ih before after

/-- So do any number of changes. -/
theorem Rearranged.perm_flatMap {node other : Node} (h : Rearranged node other) :
    (node.preorder.flatMap gather).Perm (other.preorder.flatMap gather) := by
  induction h with
  | refl => exact List.Perm.refl _
  | tail _ hstep ih => exact ih.trans (hstep.perm_flatMap hgather)

end

end Node

/-! ## Rules that do not see the order -/

/-- A rule finds the same at a node when siblings at the node or below it are put in another order. -/
def Rule.BlindToOrder (rule : Rule) : Prop :=
  ∀ file node other, Node.Permuted node other → rule.visit file node = rule.visit file other

namespace LawOfDemeter

/-- The message that a node reads from a variable, together with the variable. -/
def reading? : Node → Option (ReferenceKind × String × String)
  | .call (some (.reference kind receiver _)) message _ _ => some (kind, receiver, message)
  | _ => none

/-- A call is judged by what its subject reads, and by its message. -/
theorem needsDelegate_call (models : ModelIndex) (subject : Option Node) (message : String)
    (arguments : List Node) (span : Span) :
    needsDelegate models (.call subject message arguments span) =
      match subject.bind reading? with
      | some (kind, receiver, associationName) =>
        kind.isVariable &&
          readsThrough models (Inflection.classify receiver) associationName message
      | none => false := by
  cases subject with
  | none => rfl
  | some subject =>
    cases subject with
    | call receiver associationName innerArguments innerSpan =>
      cases receiver with
      | none => rfl
      | some receiver => cases receiver <;> rfl
    | reference kind name place => rfl
    | block label children place => rfl

/-- What a node reads does not depend on its arguments, and a variable has nothing below it. -/
theorem reading?_eq_of_permuted {node other : Node} (h : Node.Permuted node other) :
    reading? node = reading? other := by
  cases h with
  | @arguments subject message arguments permuted span h =>
    cases subject with
    | none => rfl
    | some subject => cases subject <;> rfl
  | children h => rfl
  | inSubject h => cases h <;> rfl
  | @inArgument subject message before after argument permuted span h =>
    cases subject with
    | none => rfl
    | some subject => cases subject <;> rfl
  | inChild h => rfl

theorem needsDelegate_eq_of_permuted (models : ModelIndex) {node other : Node}
    (h : Node.Permuted node other) : needsDelegate models node = needsDelegate models other := by
  cases h with
  | arguments h => rw [needsDelegate_call, needsDelegate_call]
  | children h => rfl
  | inSubject h =>
    rw [needsDelegate_call, needsDelegate_call, Option.bind_some, Option.bind_some,
      reading?_eq_of_permuted h]
  | inArgument h => rw [needsDelegate_call, needsDelegate_call]
  | inChild h => rfl

theorem blindToOrder_rule (models : ModelIndex) (severity : Severity) :
    (rule models severity).BlindToOrder := by
  intro file node other h
  have hinspect : (rule models severity).inspect file node =
      (rule models severity).inspect file other := by
    simp only [rule, needsDelegate_eq_of_permuted models h, h.span_eq]
  rw [Rule.visit, Rule.visit, h.kind_eq, hinspect]

end LawOfDemeter

theorem PartialView.blindToOrder_rule (view : PartialView) : view.rule.BlindToOrder := by
  intro file node other h
  have hinspect : view.rule.inspect file node = view.rule.inspect file other := by
    simp only [rule, h.span_eq]
  rw [Rule.visit, Rule.visit, h.kind_eq, hinspect]

theorem blindToOrder_of_mem_allRules {models : ModelIndex} {config : Config} {rule : Rule}
    (h : rule ∈ allRules models config) : rule.BlindToOrder := by
  rw [allRules, List.mem_cons, List.mem_singleton] at h
  rcases h with rfl | rfl
  · exact LawOfDemeter.blindToOrder_rule models .error
  · exact PartialView.blindToOrder_rule _

/-! ## Level violations -/

namespace Violation

theorem eq_of_stamp_eq {a b : Violation} (hstamp : a.stamp = b.stamp)
    (hlocation : a.location = b.location) : a = b := by
  cases a
  cases b
  simp_all [stamp]

/-- If level violations are equal, it makes no difference to a sorted list in which order they were
found, wherever they stood. -/
theorem mergeSort_append_eq_of_perm {found others : List Violation} (hperm : found.Perm others)
    (hlevel : ∀ a ∈ found, ∀ b ∈ others, a.sortKey = b.sortKey → a = b)
    (before after : List Violation) :
    (before ++ found ++ after).mergeSort le = (before ++ others ++ after).mergeSort le := by
  refine mergeSort_eq_of_filter_sortKey_eq fun key => ?_
  -- the violations with one key are all equal, so that any order puts them in order
  have hall : ∀ violations : List Violation, violations.Pairwise fun _ _ => True :=
    fun _ => List.pairwise_of_forall fun _ _ => trivial
  have hfilter : found.filter (·.sortKey = key) = others.filter (·.sortKey = key) := by
    refine List.Perm.eq_of_pairwise ?_ (hall _) (hall _) (hperm.filter _)
    intro a b ha hb _ _
    have hakey : a.sortKey = key := by simpa using List.of_mem_filter ha
    have hbkey : b.sortKey = key := by simpa using List.of_mem_filter hb
    exact hlevel a (List.mem_of_mem_filter ha) b (List.mem_of_mem_filter hb)
      (hakey.trans hbkey.symm)
  rw [List.filter_append, List.filter_append, List.filter_append, List.filter_append, hfilter]

end Violation

/-! ## Reviews -/

/-- Rules that do not see the order of siblings find the same in another order. -/
theorem perm_review_of_rearranged {rules : List Rule} (hblind : ∀ rule ∈ rules, rule.BlindToOrder)
    {tree other : Node} (h : tree.Rearranged other) (file : SourceFile) :
    (review file tree rules).Perm (review file other rules) := by
  rw [review_eq_flatMap_preorder, review_eq_flatMap_preorder]
  refine h.perm_flatMap fun node changed hstep => ?_
  refine List.flatMap_congr fun rule hrule => ?_
  exact hblind rule (List.mem_of_mem_filter hrule) file node changed hstep

section

variable {models : ModelIndex} {config : Config} {rules : List Rule}
  (hrules : ∀ rule ∈ rules, rule ∈ allRules models config) {file : SourceFile}

include hrules

/-- A violation in a file has the path of the file and the stamp of a rule. -/
theorem exists_stamp_of_mem_review {tree : Node} {violation : Violation}
    (h : violation ∈ review file tree rules) :
    violation.location.file = file.relativePath ∧ violation.stamp ∈ Stamp.all := by
  obtain ⟨node, -, rule, hrule, -, hvisit⟩ := mem_review_iff.mp h
  obtain ⟨stamp, hstamp, hstamps⟩ := stamps_of_mem_allRules (hrules rule hrule)
  obtain ⟨remark, -, hremark⟩ := Rule.exists_remark_of_mem_visit hvisit
  constructor
  · rw [← hremark]
    rfl
  · rw [hstamps file node violation hvisit]
    exact hstamp

/-- Violations of one file that are level are equal. -/
theorem eq_of_mem_review_of_sortKey_eq {tree other : Node} {a b : Violation}
    (ha : a ∈ review file tree rules) (hb : b ∈ review file other rules)
    (h : a.sortKey = b.sortKey) : a = b := by
  obtain ⟨hafile, hastamp⟩ := exists_stamp_of_mem_review hrules ha
  obtain ⟨hbfile, hbstamp⟩ := exists_stamp_of_mem_review hrules hb
  have hstamp : a.stamp = b.stamp :=
    Stamp.eq_of_code_eq hastamp hbstamp (congrArg SortKey.code h)
  have hfile : a.location.file = b.location.file := hafile.trans hbfile.symm
  have hline : a.location.line = b.location.line := congrArg SortKey.line h
  have hcolumn : a.location.column = b.location.column := congrArg SortKey.column h
  have hlocation : a.location = b.location :=
    calc a.location = ⟨a.location.file, a.location.line, a.location.column⟩ := rfl
      _ = ⟨b.location.file, b.location.line, b.location.column⟩ := by rw [hfile, hline, hcolumn]
  exact Violation.eq_of_stamp_eq hstamp hlocation

end

/-! ## Reports -/

/-- **The order of siblings does not matter.**  If siblings are put in another order, in any number
of places, then the rules of a preset find the same.  So a report is the same when it is sorted,
whatever else is in it. -/
theorem review_of_rearranged {tree other : Node} (h : tree.Rearranged other) (preset : Preset)
    (models : ModelIndex) (config : Config) (file : SourceFile) :
    (review file tree (preset.rules models config)).Perm
        (review file other (preset.rules models config)) ∧
      ∀ before after checked skipped,
        Report.sort ⟨before ++ review file tree (preset.rules models config) ++ after, checked,
            skipped⟩ =
          Report.sort ⟨before ++ review file other (preset.rules models config) ++ after, checked,
            skipped⟩ := by
  have hrules : ∀ rule ∈ preset.rules models config, rule ∈ allRules models config := by
    intro rule hrule
    cases preset with
    | recommended => exact hrule
    | minimal => exact List.mem_cons.mpr (.inl (List.mem_singleton.mp hrule))
  have hblind : ∀ rule ∈ preset.rules models config, rule.BlindToOrder :=
    fun rule hrule => blindToOrder_of_mem_allRules (hrules rule hrule)
  have hperm := perm_review_of_rearranged hblind h file
  refine ⟨hperm, fun before after checked skipped => ?_⟩
  have hlevel : ∀ a ∈ review file tree (preset.rules models config),
      ∀ b ∈ review file other (preset.rules models config), a.sortKey = b.sortKey → a = b :=
    fun a ha b hb => eq_of_mem_review_of_sortKey_eq hrules ha hb
  rw [Report.sort, Report.sort, Violation.mergeSort_append_eq_of_perm hperm hlevel]

/-- The call `receiver.user.name` with arguments, on an instance variable. -/
def userName (receiver : String) (arguments : List Node) (span : Span) : Node :=
  .call (some (.call (some (.reference .instanceVariable receiver span)) "user" [] span)) "name"
    arguments span

/-- A partial view with two calls, one of which has another one among its arguments. -/
def nestedView : Node :=
  .block "template"
    [userName "@invoice" [.localVariable "width", userName "@payment" [] ⟨1, 20⟩] ⟨1, 1⟩,
      userName "@invoice" [] ⟨2, 1⟩] {}

/-- The same view with the two calls the other way round, and so with the arguments. -/
def turnedView : Node :=
  .block "template"
    [userName "@invoice" [] ⟨2, 1⟩,
      userName "@invoice" [userName "@payment" [] ⟨1, 20⟩, .localVariable "width"] ⟨1, 1⟩] {}

/-- Invoices and payments of users with names. -/
def userModels : ModelIndex :=
  ((ModelIndex.empty.addAssociation "Invoice" "user" .belongsTo "User").addAssociation "Payment"
    "user" .belongsTo "User").addAttribute "User" "name"

theorem rearranged_turnedView : nestedView.Rearranged turnedView := by
  have harguments : Node.Permuted
      (userName "@invoice" [.localVariable "width", userName "@payment" [] ⟨1, 20⟩] ⟨1, 1⟩)
      (userName "@invoice" [userName "@payment" [] ⟨1, 20⟩, .localVariable "width"] ⟨1, 1⟩) :=
    .arguments (List.Perm.swap _ _ [])
  have hinner := @Node.Permuted.inChild "template" [] [userName "@invoice" [] ⟨2, 1⟩] _ _ {}
    harguments
  have houter : Node.Permuted _ turnedView := .children (List.Perm.swap _ _ [])
  exact (Relation.ReflTransGen.single hinner).tail houter

theorem review_of_rearranged_turnedView :
    nestedView.Rearranged turnedView ∧
      (review (.locate ⟨"app/views/_user.erb"⟩ ⟨"/shop"⟩) nestedView
          (Preset.recommended.rules userModels {})).Perm
        (review (.locate ⟨"app/views/_user.erb"⟩ ⟨"/shop"⟩) turnedView
          (Preset.recommended.rules userModels {})) ∧
      ∀ before after checked skipped,
        Report.sort ⟨before ++ review (.locate ⟨"app/views/_user.erb"⟩ ⟨"/shop"⟩) nestedView
            (Preset.recommended.rules userModels {}) ++ after, checked, skipped⟩ =
          Report.sort ⟨before ++ review (.locate ⟨"app/views/_user.erb"⟩ ⟨"/shop"⟩) turnedView
            (Preset.recommended.rules userModels {}) ++ after, checked, skipped⟩ :=
  ⟨rearranged_turnedView,
    review_of_rearranged rearranged_turnedView .recommended userModels {} _⟩

end RailsReview
