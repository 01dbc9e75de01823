import RailsReview.Models.Association

/-!
# The model index

What is known about the models of a project: which classes there are, in the order in which they
were first mentioned, and the attributes and associations of each.

Models are stored in that order, and a directory gives the slot of a class by its name, so a lookup
goes through the directory.  Every operation that mentions an unknown class registers it first.
-/

namespace RailsReview

/-- What is known about one class. -/
structure Model where
  name : String
  associations : List (String × Association) := []
  attributes : List String := []
  deriving DecidableEq, Repr, Inhabited

namespace Model

/-- The association declared under a name; the last declaration counts. -/
def association? (model : Model) (name : String) : Option Association :=
  model.associations.lookup name

/-- The model with one more declaration, which hides earlier ones of the same name. -/
def declareAssociation (model : Model) (name : String) (association : Association) : Model :=
  { model with associations := (name, association) :: model.associations }

/-- The model with one more attribute. -/
def declareAttribute (model : Model) (name : String) : Model :=
  { model with attributes := name :: model.attributes }

end Model

/-- The known models in order of first mention, with the slot of each by name. -/
structure ModelIndex where
  models : List Model := []
  slots : List (String × Nat) := []
  deriving DecidableEq, Repr, Inhabited

namespace ModelIndex

/-- The index that knows no class. -/
def empty : ModelIndex := {}

/-- The number of known classes. -/
def size (index : ModelIndex) : Nat :=
  index.models.length

/-- Whether no class is known. -/
def isEmpty (index : ModelIndex) : Bool :=
  index.models.isEmpty

/-- The known classes, in order of first mention. -/
def classNames (index : ModelIndex) : List String :=
  index.models.map Model.name

/-- The slot of a class. -/
def slot? (index : ModelIndex) (className : String) : Option Nat :=
  index.slots.lookup className

/-- What is known about a class. -/
def model? (index : ModelIndex) (className : String) : Option Model :=
  (index.slot? className).bind (index.models[·]?)

/-! ## Queries -/

/-- The association that a class declares under a name. -/
def association? (index : ModelIndex) (className name : String) : Option Association :=
  (index.model? className).bind (·.association? name)

/-- Whether a class declares an association under a name. -/
def isAssociation (index : ModelIndex) (className name : String) : Bool :=
  (index.association? className name).isSome

/-- Whether a class has an attribute. -/
def isAttribute (index : ModelIndex) (className name : String) : Bool :=
  match index.model? className with
  | some model => model.attributes.contains name
  | none => false

/-! ## Declarations -/

/-- The index that knows a class, and the slot of that class in it.  A known class keeps its
slot. -/
def addModel (index : ModelIndex) (className : String) : Nat × ModelIndex :=
  match index.slot? className with
  | some slot => (slot, index)
  | none =>
    (index.models.length,
      { models := index.models ++ [{ name := className }]
        slots := (className, index.models.length) :: index.slots })

/-- The index with one known class changed. -/
def update (index : ModelIndex) (className : String) (change : Model → Model) : ModelIndex :=
  let (slot, known) := index.addModel className
  { known with models := known.models.modify slot change }

/-- The index with an association declared, in place of one with the same class and name. -/
def addAssociation (index : ModelIndex) (className name : String) (kind : AssociationKind)
    (target : String) : ModelIndex :=
  index.update className (·.declareAssociation name ⟨kind, target⟩)

/-- The index with an attribute declared. -/
def addAttribute (index : ModelIndex) (className name : String) : ModelIndex :=
  index.update className (·.declareAttribute name)

end ModelIndex

end RailsReview
