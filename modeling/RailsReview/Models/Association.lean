/-!
# Associations

A model declares associations to other models.  What a review needs of one is its kind and the class
that it points at; the name under which it is declared is the key it is stored by.
-/

namespace RailsReview

/-- The kind of a declared association. -/
inductive AssociationKind where
  | belongsTo
  | hasOne
  | hasMany
  /-- Any other declaration, such as `has_and_belongs_to_many`. -/
  | other
  deriving DecidableEq, Repr, Inhabited

namespace AssociationKind

/-- The name that declares an association of this kind. -/
def name : AssociationKind → String
  | belongsTo => "belongs_to"
  | hasOne => "has_one"
  | hasMany => "has_many"
  | other => "other"

/-- The kind that a declaration stands for. -/
def ofName (name : String) : AssociationKind :=
  if name = "belongs_to" then belongsTo
  else if name = "has_one" then hasOne
  else if name = "has_many" then hasMany
  else other

/-- Whether associations of this kind point at a single record. -/
def isSingular : AssociationKind → Bool
  | belongsTo | hasOne => true
  | hasMany | other => false

/-- Every kind is read back from its name. -/
@[simp] theorem ofName_name (kind : AssociationKind) : ofName kind.name = kind := by
  cases kind <;> decide

end AssociationKind

/-- A declared association. -/
structure Association where
  kind : AssociationKind
  className : String
  deriving DecidableEq, Repr, Inhabited

end RailsReview
