import RailsReview.FileTree
import RailsReview.Inflection
import RailsReview.Models.Index
import RailsReview.Text.Blank
import RailsReview.Toml.Record

/-!
# Model schemas

A schema lists models with their attributes and associations, in TOML.  An association that does not
name its class points at the class that its own name names.

Loading a schema declares everything in order, so a model that is listed twice is one model, and of
two associations of one name the later one counts.  Names must not be blank; the first model with a
blank name in it is reported.
-/

namespace RailsReview

/-- An association in a schema. -/
structure AssociationEntry where
  name : String
  kind : AssociationKind
  className : Option String := none
  deriving DecidableEq, Repr, Inhabited

namespace AssociationEntry

/-- The class that the association points at. -/
def target (entry : AssociationEntry) : String :=
  entry.className.getD (Inflection.classify entry.name)

/-- The association that a value describes. -/
def ofToml? (value : Toml.Value) : Option AssociationEntry := do
  let field ← value.fields? ["name", "kind", "class_name"]
  let name ← Toml.required Toml.Value.text? (field "name")
  let kind ← Toml.required Toml.Value.text? (field "kind")
  let className ← Toml.optional Toml.Value.text? (field "class_name")
  return { name, kind := .ofName kind, className }

end AssociationEntry

/-- A model in a schema. -/
structure ModelEntry where
  name : String
  attributes : List String := []
  associations : List AssociationEntry := []
  deriving DecidableEq, Repr, Inhabited

namespace ModelEntry

/-- The model that a value describes. -/
def ofToml? (value : Toml.Value) : Option ModelEntry := do
  let field ← value.fields? ["name", "attributes", "associations"]
  let name ← Toml.required Toml.Value.text? (field "name")
  let attributes ← Toml.defaulted [] (Toml.Value.listOf? Toml.Value.text?) (field "attributes")
  let associations ←
    Toml.defaulted [] (Toml.Value.listOf? AssociationEntry.ofToml?) (field "associations")
  return { name, attributes, associations }

end ModelEntry

/-- What is named in a schema. -/
inductive NamedThing where
  | model
  | association
  deriving DecidableEq, Repr

/-- Why there is no model index. -/
inductive SchemaError where
  | unreadable (path : Path) (cause : ReadError)
  | malformed
  /-- The model at a position has a blank name, or an association of it has. -/
  | blankName (position : Nat) (thing : NamedThing)
  deriving DecidableEq, Repr

namespace SchemaError

/-- The error in words. -/
def message : SchemaError → String
  | unreadable path cause => "Failed to read schema file " ++ path.text ++ ": " ++ cause.message
  | malformed => "Failed to parse schema: "
  | blankName position thing =>
    "models[" ++ toString position ++ "]: " ++
      (match thing with
        | .model => "model"
        | .association => "association") ++
      " name must not be empty"

/-- What led to the error, if that is an error itself. -/
def cause? : SchemaError → Option String
  | unreadable _ cause => some cause.message
  | malformed | blankName _ _ => none

end SchemaError

/-- The models of a project, as they are declared. -/
structure Schema where
  models : List ModelEntry := []
  deriving DecidableEq, Repr, Inhabited

namespace Schema

/-- The schema that a text holds. -/
def parse (text : String) : Except SchemaError Schema :=
  match Toml.read? text with
  | none => .error .malformed
  | some entries =>
    match Toml.defaulted [] (Toml.Value.listOf? ModelEntry.ofToml?) (entries.lookup "models") with
    | some models => .ok { models }
    | none => .error .malformed

/-- The index with associations of a class declared, whose model stands at a position of the
schema. -/
def declareAssociations (position : Nat) (className : String) (index : ModelIndex) :
    List AssociationEntry → Except SchemaError ModelIndex
  | [] => .ok index
  | entry :: entries =>
    if Text.isBlankName entry.name then .error (.blankName position .association)
    else
      declareAssociations position className
        (index.addAssociation className entry.name entry.kind entry.target) entries

/-- The index with the model at a position of the schema declared: the model, its attributes, its
associations.  The name of an association is looked at when its turn comes. -/
def declareModel (position : Nat) (index : ModelIndex) (entry : ModelEntry) :
    Except SchemaError ModelIndex :=
  if Text.isBlankName entry.name then .error (.blankName position .model)
  else
    let known := (index.addModel entry.name).2
    let described := entry.attributes.foldl (·.addAttribute entry.name ·) known
    declareAssociations position entry.name described entry.associations

/-- The index with models declared, the first of which stands at a position of the schema. -/
def declareModels (position : Nat) (index : ModelIndex) :
    List ModelEntry → Except SchemaError ModelIndex
  | [] => .ok index
  | entry :: entries =>
    match declareModel position index entry with
    | .ok index => declareModels (position + 1) index entries
    | .error error => .error error

/-- The index of the models of a schema. -/
def index (schema : Schema) : Except SchemaError ModelIndex :=
  declareModels 0 .empty schema.models

end Schema

namespace ModelIndex

/-- The index that a schema text describes. -/
def parse (text : String) : Except SchemaError ModelIndex :=
  (Schema.parse text).bind Schema.index

/-- The index that a schema file describes. -/
def load (files : FileSystem) (path : Path) : Except SchemaError ModelIndex :=
  match files.read path with
  | .ok text => parse text
  | .error cause => .error (.unreadable path cause)

end ModelIndex

end RailsReview
