import RailsReview.Proofs.Traversal
import RailsReview.Rule.LawOfDemeter

/-!
# What the law of Demeter finds

`Delegable` says which calls should be delegated, in the terms of the models alone.  There are two
ways for a call to be one, since an association whose name ends in `able` is judged by other
declarations than an association with a plain name.

* `needsDelegate_eq_true_iff`: the test of the rule decides `Delegable`.
* `check_eq_map_filter_delegable`: a review finds the delegable calls, one by one and in document
  order, and nothing else.
-/

namespace RailsReview.LawOfDemeter

/-! ## Delegable calls -/

/-- A variable reads a singular association: the class that the variable names declares it. -/
structure ReadsSingular (models : ModelIndex) (kind : ReferenceKind)
    (receiver associationName : String) (association : Association) : Prop where
  onVariable : kind = .localVariable ∨ kind = .instanceVariable
  declared :
    models.association? (Inflection.classify receiver) associationName = some association
  singular : association.kind = .belongsTo ∨ association.kind = .hasOne

/-- Some known class declares an association of a name, or of its plural. -/
def DeclaredSomewhere (models : ModelIndex) (root : String) : Prop :=
  ∃ className ∈ models.classNames, ∃ association : Association,
    models.association? className root = some association ∨
      models.association? className (root ++ "s") = some association

/-- A call that should be delegated: the call of an attribute on the call of a singular association
on a variable. -/
inductive Delegable (models : ModelIndex) : Node → Prop where
  /-- The name of the association is plain, and the attribute is one of the class that the
  association points at. -/
  | plain {kind : ReferenceKind} {receiver associationName attributeName : String}
      {association : Association} {arguments innerArguments : List Node}
      {place innerPlace receiverPlace : Span}
      (reads : ReadsSingular models kind receiver associationName association)
      (plainName : ∀ root, associationName ≠ root ++ "able")
      (isAttribute : models.isAttribute association.className attributeName = true) :
      Delegable models
        (.call (some (.call (some (.reference kind receiver receiverPlace)) associationName
          innerArguments innerPlace)) attributeName arguments place)
  /-- The name of the association ends in `able`, what is before that names an association of some
  class, and the attribute is one of the class of the variable. -/
  | polymorphic {kind : ReferenceKind} {receiver root attributeName : String}
      {association : Association} {arguments innerArguments : List Node}
      {place innerPlace receiverPlace : Span}
      (reads : ReadsSingular models kind receiver (root ++ "able") association)
      (declared : DeclaredSomewhere models root)
      (isAttribute : models.isAttribute (Inflection.classify receiver) attributeName = true) :
      Delegable models
        (.call (some (.call (some (.reference kind receiver receiverPlace)) (root ++ "able")
          innerArguments innerPlace)) attributeName arguments place)

/-! ## The test of the rule -/

theorem isVariable_eq_true_iff {kind : ReferenceKind} :
    kind.isVariable = true ↔ kind = .localVariable ∨ kind = .instanceVariable := by
  cases kind <;> simp [ReferenceKind.isVariable]

theorem isSingular_eq_true_iff {kind : AssociationKind} :
    kind.isSingular = true ↔ kind = .belongsTo ∨ kind = .hasOne := by
  cases kind <;> simp [AssociationKind.isSingular]

theorem ableCandidates_eq_none_iff {name : String} :
    ableCandidates name = none ↔ ∀ root, name ≠ root ++ "able" := by
  rw [ableCandidates, Option.map_eq_none_iff, Text.stripSuffix?_eq_none_iff]

theorem ableCandidates_eq_some_iff {name root plural : String} :
    ableCandidates name = some (root, plural) ↔ name = root ++ "able" ∧ plural = root ++ "s" := by
  rw [ableCandidates, Option.map_eq_some_iff]
  constructor
  · rintro ⟨rest, hrest, hpair⟩
    obtain ⟨rfl, rfl⟩ := Prod.mk.inj hpair
    exact ⟨Text.stripSuffix?_eq_some_iff.mp hrest, rfl⟩
  · rintro ⟨hname, rfl⟩
    exact ⟨root, Text.stripSuffix?_eq_some_iff.mpr hname, rfl⟩

/-- The scan over the known classes, whose second half is the same for every class. -/
theorem any_classNames_eq_true_iff {models : ModelIndex} {root : String} {found : Bool} :
    (models.classNames.any fun className =>
      (models.isAssociation className root || models.isAssociation className (root ++ "s")) &&
        found) = true ↔ DeclaredSomewhere models root ∧ found = true := by
  simp only [List.any_eq_true, Bool.and_eq_true, Bool.or_eq_true, ModelIndex.isAssociation,
    Option.isSome_iff_exists, ← exists_or, DeclaredSomewhere]
  constructor
  · rintro ⟨className, hknown, hdeclared, hfound⟩
    exact ⟨⟨className, hknown, hdeclared⟩, hfound⟩
  · rintro ⟨⟨className, hknown, hdeclared⟩, hfound⟩
    exact ⟨className, hknown, hdeclared, hfound⟩

theorem leadsTo_of_plain {models : ModelIndex} {origin associationName attributeName : String}
    {association : Association} (h : ∀ root, associationName ≠ root ++ "able") :
    leadsTo models origin association associationName attributeName =
      models.isAttribute association.className attributeName := by
  rw [leadsTo, ableCandidates_eq_none_iff.mpr h]

theorem leadsTo_able_eq_true_iff {models : ModelIndex} {origin root attributeName : String}
    {association : Association} :
    leadsTo models origin association (root ++ "able") attributeName = true ↔
      DeclaredSomewhere models root ∧ models.isAttribute origin attributeName = true := by
  rw [leadsTo, ableCandidates_eq_some_iff.mpr ⟨rfl, rfl⟩]
  exact any_classNames_eq_true_iff

theorem readsThrough_eq_true_iff {models : ModelIndex}
    {origin associationName attributeName : String} :
    readsThrough models origin associationName attributeName = true ↔
      ∃ association, models.association? origin associationName = some association ∧
        (association.kind = .belongsTo ∨ association.kind = .hasOne) ∧
        leadsTo models origin association associationName attributeName = true := by
  rw [readsThrough]
  cases models.association? origin associationName with
  | none => simp
  | some association => simp [isSingular_eq_true_iff]

/-- The rule tests whether a call is delegable. -/
theorem needsDelegate_eq_true_iff {models : ModelIndex} {node : Node} :
    needsDelegate models node = true ↔ Delegable models node := by
  constructor
  · intro h
    unfold needsDelegate at h
    split at h
    · next kind receiver receiverPlace name innerArguments innerPlace attributeName arguments
        place =>
      rw [Bool.and_eq_true, isVariable_eq_true_iff, readsThrough_eq_true_iff] at h
      obtain ⟨hvariable, association, hdeclared, hsingular, hleads⟩ := h
      have hreads : ReadsSingular models kind receiver name association :=
        ⟨hvariable, hdeclared, hsingular⟩
      by_cases hname : ∀ root, name ≠ root ++ "able"
      · rw [leadsTo_of_plain hname] at hleads
        exact .plain hreads hname hleads
      · obtain ⟨root, rfl⟩ : ∃ root, name = root ++ "able" := by
          simpa using hname
        obtain ⟨hsomewhere, hattribute⟩ := leadsTo_able_eq_true_iff.mp hleads
        exact .polymorphic hreads hsomewhere hattribute
    · exact absurd h (by simp)
  · rintro (⟨⟨hvariable, hdeclared, hsingular⟩, hname, hattribute⟩ |
      ⟨⟨hvariable, hdeclared, hsingular⟩, hsomewhere, hattribute⟩)
    · rw [needsDelegate, Bool.and_eq_true, isVariable_eq_true_iff, readsThrough_eq_true_iff]
      refine ⟨hvariable, _, hdeclared, hsingular, ?_⟩
      rw [leadsTo_of_plain hname, hattribute]
    · rw [needsDelegate, Bool.and_eq_true, isVariable_eq_true_iff, readsThrough_eq_true_iff]
      exact ⟨hvariable, _, hdeclared, hsingular,
        leadsTo_able_eq_true_iff.mpr ⟨hsomewhere, hattribute⟩⟩

instance (models : ModelIndex) : DecidablePred (Delegable models) := fun _ =>
  decidable_of_iff _ needsDelegate_eq_true_iff

/-- Only calls are delegable, and those are what the rule is shown. -/
theorem Delegable.kind_eq {models : ModelIndex} {node : Node} (h : Delegable models node) :
    node.kind = .call := by
  cases h <;> rfl

/-! ## Reviews -/

/-- What is found at a node: the place is the node's own, and all else is the rule's. -/
def findingAt (severity : Severity) (file : SourceFile) (node : Node) : Violation where
  code := "DL001"
  rule := "law-of-demeter"
  severity := severity
  location := ⟨file.relativePath, node.span.line, node.span.column⟩
  message := "law of demeter"
  suggestion := some ("Delegate the attribute on the receiver's class, " ++
    "e.g. `delegate :name, to: :user, prefix: true`")
  reference := some "http://rails-bestpractices.com/posts/15-the-law-of-demeter"

theorem visit_eq (models : ModelIndex) (severity : Severity) (file : SourceFile) (node : Node) :
    (rule models severity).visit file node =
      if Delegable models node then [findingAt severity file node] else [] := by
  rw [Rule.visit]
  by_cases h : Delegable models node
  · have hkind : (rule models severity).kinds.contains node.kind = true := by
      rw [h.kind_eq]; rfl
    have hinspect : (rule models severity).inspect file node = [⟨node.span, message⟩] :=
      if_pos (needsDelegate_eq_true_iff.mpr h)
    rw [if_pos hkind, if_pos h, hinspect]
    rfl
  · have hinspect : (rule models severity).inspect file node = [] :=
      if_neg (mt needsDelegate_eq_true_iff.mp h)
    rw [if_neg h, hinspect, List.map_nil, ite_self]

/-- A review finds every delegable call once, in document order and at the place of the call, and
finds nothing else. -/
theorem check_eq_map_filter_delegable (models : ModelIndex) (severity : Severity)
    (file : SourceFile) (root : Node) :
    (rule models severity).check file root =
      (root.preorder.filter (Delegable models ·)).map (findingAt severity file) :=
  check_eq_map_filter rfl (visit_eq models severity file) root

end RailsReview.LawOfDemeter
