import RailsReview.Inflection
import RailsReview.Models.Index
import RailsReview.Rule.Basic
import RailsReview.Text.Suffix

/-!
# The law of Demeter

A call such as `@invoice.user.name` makes its place know that an invoice has a user and that a user
has a name.  The invoice should have a method for that, to which the call is delegated.

The rule flags a call on a call on a variable when the class that the variable names declares the
inner message as a singular association, and the outer message is an attribute that the association
leads to.  Associations whose names end in `able` are polymorphic: it is enough that some class
declares an association of the name without that ending, or of its plural, and the attribute is one
of the class of the variable itself.
-/

namespace RailsReview.LawOfDemeter

/-- The code of the rule. -/
def code : String := "DL001"

/-- The name of the rule. -/
def name : String := "law-of-demeter"

/-- What the rule remarks. -/
def message : String := "law of demeter"

/-- The name that a polymorphic association is made from, and its plural. -/
def ableCandidates (association : String) : Option (String × String) :=
  (Text.stripSuffix? association "able").map fun root => (root, root ++ "s")

/-- Whether an association leads to an attribute, where `origin` is the class that declares it. -/
def leadsTo (models : ModelIndex) (origin : String) (association : Association)
    (associationName attributeName : String) : Bool :=
  match ableCandidates associationName with
  | some (root, plural) =>
    models.classNames.any fun className =>
      (models.isAssociation className root || models.isAssociation className plural) &&
        models.isAttribute origin attributeName
  | none => models.isAttribute association.className attributeName

/-- Whether an attribute is read through a singular association of a class. -/
def readsThrough (models : ModelIndex) (origin associationName attributeName : String) : Bool :=
  match models.association? origin associationName with
  | some association =>
    association.kind.isSingular &&
      leadsTo models origin association associationName attributeName
  | none => false

/-- Whether a node is a call that should be delegated: it reads an attribute through a singular
association of a variable. -/
def needsDelegate (models : ModelIndex) : Node → Bool
  | .call (some (.call (some (.reference kind receiver _)) associationName _ _)) attributeName _ _ =>
    kind.isVariable &&
      readsThrough models (Inflection.classify receiver) associationName attributeName
  | _ => false

/-- The rule, given what is known about the models. -/
def rule (models : ModelIndex) (severity : Severity) : Rule where
  name := name
  code := code
  description := "Flags attribute reads through belongs_to/has_one associations"
  url := some "http://rails-bestpractices.com/posts/15-the-law-of-demeter"
  suggestion := some ("Delegate the attribute on the receiver's class, " ++
    "e.g. `delegate :name, to: :user, prefix: true`")
  severity := severity
  kinds := [.call]
  inspect := fun _ node => if needsDelegate models node then [⟨node.span, message⟩] else []

end RailsReview.LawOfDemeter
