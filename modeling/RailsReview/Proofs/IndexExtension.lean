import Mathlib.Data.List.Flatten
import RailsReview.Proofs.Delegation
import RailsReview.Proofs.IndexHistory

/-!
# More models find more

One index extends another if it answers every query that the other one answers, and answers it
alike.  What is found with the smaller index is then found with the larger one, at the same places
and in the same order.

* `ModelIndex.Extends`: the larger index says all that the smaller one says.
* `ModelIndex.extends_run`: an index that was told more, in whatever order, extends one that was
  told less, as long as no association of the smaller one is declared in another way.
* `ModelIndex.mem_classNames_of_association?`: a class with an association is a known class.
* `LawOfDemeter.Delegable.mono`: a call that should be delegated still should.
* `LawOfDemeter.check_sublist_of_extends`: what a review finds.

## Why the indices have a history

An association whose name ends in `able` is judged by a scan over the known classes.  The scan of
the larger index has to meet the class at which that of the smaller one stopped, and all that is
given of this class is that it has an association.  In an index that was made by declarations such a
class is listed; in a list of models with any directory beside it, it need not be.
-/

namespace RailsReview

namespace Declaration

/-- The class and the name under which a declaration puts an association. -/
def key? : Declaration → Option (String × String)
  | addAssociation className name _ _ => some (className, name)
  | _ => none

theorem association?_eq_some_iff {declaration : Declaration} {className name : String}
    {association : Association} : declaration.association? className name = some association ↔
      declaration = .addAssociation className name association.kind association.className := by
  cases declaration with
  | addModel origin => simp [Declaration.association?]
  | addAttribute origin other => simp [Declaration.association?]
  | addAssociation origin other kind target =>
    obtain ⟨kind', target'⟩ := association
    simp [Declaration.association?, and_assoc]

end Declaration

namespace ModelIndex

/-! ## Extensions -/

/-- An index says all that another one says about associations and attributes. -/
structure Extends (larger smaller : ModelIndex) : Prop where
  association?_eq : ∀ {className name : String} {association : Association},
    smaller.association? className name = some association →
      larger.association? className name = some association
  isAttribute_eq : ∀ {className name : String},
    smaller.isAttribute className name = true → larger.isAttribute className name = true

theorem mem_of_association?_run {history : List Declaration} {className name : String}
    {association : Association}
    (h : (run history).association? className name = some association) :
    .addAssociation className name association.kind association.className ∈ history := by
  rw [association?_run] at h
  obtain ⟨declaration, hmem, hdeclared⟩ := List.mem_filterMap.mp (List.mem_of_getLast? h)
  rwa [Declaration.association?_eq_some_iff.mp hdeclared] at hmem

/-- An association that is declared, and that is declared in one way only. -/
theorem association?_run_of_mem {history : List Declaration} {className name : String}
    {association : Association}
    (hmem : .addAssociation className name association.kind association.className ∈ history)
    (honly : ∀ declaration ∈ history, declaration.key? = some (className, name) →
      declaration = .addAssociation className name association.kind association.className) :
    (run history).association? className name = some association := by
  have hdeclared : association ∈
      history.filterMap (Declaration.association? className name) :=
    List.mem_filterMap.mpr ⟨_, hmem, Declaration.association?_eq_some_iff.mpr rfl⟩
  have hlast : ∃ last, (history.filterMap
      (Declaration.association? className name)).getLast? = some last := by
    rw [← Option.isSome_iff_exists, List.getLast?_isSome]
    exact List.ne_nil_of_mem hdeclared
  obtain ⟨last, hlast⟩ := hlast
  obtain ⟨declaration, hmem', hlast'⟩ := List.mem_filterMap.mp (List.mem_of_getLast? hlast)
  have hshape := Declaration.association?_eq_some_iff.mp hlast'
  have hkey : declaration.key? = some (className, name) := by
    rw [hshape]
    rfl
  have hsame : last = association := by
    have h := honly declaration hmem' hkey
    rw [hshape] at h
    obtain ⟨-, -, hkind, htarget⟩ := Declaration.addAssociation.inj h
    cases last
    cases association
    exact congrArg₂ Association.mk hkind htarget
  rw [association?_run, hlast, hsame]

/-- A history that declares more, in whatever order, makes an index that says more, as long as it
declares the old associations in the old way. -/
theorem extends_run {history longer : List Declaration} (hmore : history ⊆ longer)
    (hkept : ∀ declaration ∈ history, ∀ other ∈ longer, declaration.key?.isSome = true →
      other.key? = declaration.key? → other = declaration) :
    (run longer).Extends (run history) where
  association?_eq {className name association} h := by
    have hmem := mem_of_association?_run h
    refine association?_run_of_mem (hmore hmem) fun declaration hdeclaration hkey => ?_
    exact hkept _ hmem declaration hdeclaration rfl hkey
  isAttribute_eq h := isAttribute_run_iff.mpr (hmore (isAttribute_run_iff.mp h))

/-- A class with an association is a known class. -/
theorem mem_classNames_of_association? {history : List Declaration} {className name : String}
    {association : Association}
    (h : (run history).association? className name = some association) :
    className ∈ (run history).classNames := by
  rw [(Refines.run history).classNames_eq, mem_mentioned_iff]
  exact ⟨_, mem_of_association?_run h, rfl⟩

end ModelIndex

namespace LawOfDemeter

open ModelIndex (Extends run)

/-! ## Delegable calls -/

variable {smaller : ModelIndex} {longer : List Declaration}

theorem ReadsSingular.mono (h : (run longer).Extends smaller) {kind : ReferenceKind}
    {receiver associationName : String} {association : Association}
    (hreads : ReadsSingular smaller kind receiver associationName association) :
    ReadsSingular (run longer) kind receiver associationName association where
  onVariable := hreads.onVariable
  declared := h.association?_eq hreads.declared
  singular := hreads.singular

/-- The class that declares the association is among the known classes of the larger index, since it
declares it there too. -/
theorem DeclaredSomewhere.mono (h : (run longer).Extends smaller) {root : String}
    (hdeclared : DeclaredSomewhere smaller root) : DeclaredSomewhere (run longer) root := by
  obtain ⟨className, -, association, hroot | hplural⟩ := hdeclared
  · have hlarger := h.association?_eq hroot
    exact ⟨className, ModelIndex.mem_classNames_of_association? hlarger, association, .inl hlarger⟩
  · have hlarger := h.association?_eq hplural
    exact ⟨className, ModelIndex.mem_classNames_of_association? hlarger, association, .inr hlarger⟩

/-- A call that should be delegated still should when more is known. -/
theorem Delegable.mono (h : (run longer).Extends smaller) {node : Node}
    (hnode : Delegable smaller node) : Delegable (run longer) node := by
  cases hnode with
  | plain reads plainName isAttribute =>
    exact .plain (reads.mono h) plainName (h.isAttribute_eq isAttribute)
  | polymorphic reads declared isAttribute =>
    exact .polymorphic (reads.mono h) (declared.mono h) (h.isAttribute_eq isAttribute)

/-! ## Reviews -/

theorem visit_sublist (h : (run longer).Extends smaller) (severity : Severity) (file : SourceFile)
    (node : Node) :
    ((rule smaller severity).visit file node).Sublist
      ((rule (run longer) severity).visit file node) := by
  rw [visit_eq, visit_eq]
  by_cases hsmaller : Delegable smaller node
  · simp only [if_pos hsmaller, if_pos (hsmaller.mono h), List.Sublist.refl]
  · rw [if_neg hsmaller]
    exact List.nil_sublist _

/-- **Extending the models never hides a finding.**  What a review finds with the smaller index is
among what it finds with the larger one, in the same order. -/
theorem check_sublist_of_extends {history longer : List Declaration}
    (h : (run longer).Extends (run history)) (severity : Severity) (file : SourceFile)
    (root : Node) :
    ((rule (run history) severity).check file root).Sublist
      ((rule (run longer) severity).check file root) := by
  rw [check_eq_flatMap_preorder rfl, check_eq_flatMap_preorder rfl]
  exact List.Sublist.flatMap_right _ fun node _ => visit_sublist h severity file node

/-- Surveys with a name, of something that can be named. -/
def surveyHistory : List Declaration :=
  [.addAttribute "Survey" "name", .addAssociation "Survey" "nameable" .belongsTo "Nameable",
    .addAssociation "Person" "names" .hasMany "Name"]

/-- The same surveys and more, told in another order. -/
def longerSurveyHistory : List Declaration :=
  [.addModel "Zebra", .addAssociation "Survey" "owner" .hasOne "Person",
    .addAssociation "Person" "names" .hasMany "Name", .addAttribute "Person" "email",
    .addAssociation "Survey" "nameable" .belongsTo "Nameable", .addAttribute "Survey" "name",
    .addAssociation "Person" "names" .hasMany "Name"]

/-- A page that reads the name of what a survey is about, and the address of its owner. -/
def surveyPage : Node :=
  .block "template"
    [(((Node.localVariable "survey").send "owner").send "email").withSpan ⟨1, 1⟩,
      (((Node.localVariable "survey").send "nameable").send "name").withSpan ⟨2, 1⟩] {}

/-- What is found with the smaller index is the second of the two findings with the larger one. -/
theorem check_sublist_of_extends_survey :
    (run longerSurveyHistory).Extends (run surveyHistory) ∧
      ((rule (run surveyHistory) .error).check (.locate ⟨"show.erb"⟩ ⟨"/"⟩) surveyPage).Sublist
        ((rule (run longerSurveyHistory) .error).check (.locate ⟨"show.erb"⟩ ⟨"/"⟩) surveyPage) ∧
      ((rule (run surveyHistory) .error).check (.locate ⟨"show.erb"⟩ ⟨"/"⟩) surveyPage).map
          (·.location.line) = [2] ∧
      ((rule (run longerSurveyHistory) .error).check (.locate ⟨"show.erb"⟩ ⟨"/"⟩) surveyPage).map
          (·.location.line) = [1, 2] := by
  have hextends : (run longerSurveyHistory).Extends (run surveyHistory) :=
    ModelIndex.extends_run (by decide) (by decide)
  exact ⟨hextends, check_sublist_of_extends hextends .error _ surveyPage, by decide +kernel,
    by decide +kernel⟩

end LawOfDemeter

end RailsReview
