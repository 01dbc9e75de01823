import RailsReview.Json.Record
import RailsReview.Json.Reader
import RailsReview.Json.Writer
import RailsReview.Path.Basic
import RailsReview.Tree.Node

/-!
# Tree documents

A document holds the tree of one source file, as it is handed over by a parser: a JSON record of the
path, if it is known, and the root.

A node is a record with a type.  As an object it names its type in the member `type`, wherever that
stands; as an array it starts with its type.  Below the root a type can also be given by its number.
Fields that have their default may be left out, and members that are no field of the node are
ignored, though they have to have a value.

The number of containers that are open at once is limited to `maxNesting`, counted from the document
through its root.

Reading goes from the leaves up: `Reading` collects what a value is as a node and as a list of
nodes, and the reading of a container is made from the readings inside it.
-/

namespace RailsReview

open Json (Fields RecordForm)

/-! ## Places -/

namespace Span

/-- The record of a place. -/
def form : RecordForm := ⟨["line", "column"], 2⟩

/-- The place that a value describes. -/
def ofJson? (value : Json) : Option Span := do
  let field ← form.fields? value
  let line ← Json.required Json.count? (← field "line")
  let column ← Json.required Json.count? (← field "column")
  return { line, column }

/-- The record of a place. -/
def toJson (span : Span) : Json :=
  .object [("line", .count span.line), ("column", .count span.column)]

end Span

namespace Node

/-! ## Reading -/

/-- What a value is, as such, as a node below the root, and as a list of nodes. -/
structure Reading where
  value : Json
  node? : Option Node := none
  nodes? : Option (List Node) := none

/-- The type of a node. -/
inductive Shape where
  | call
  | reference
  | block
  deriving DecidableEq, Repr

namespace Shape

/-- The name of a type. -/
def name : Shape → String
  | call => "call"
  | reference => "reference"
  | block => "block"

/-- The type with a name. -/
def ofName? (name : String) : Option Shape :=
  if name = "call" then some call
  else if name = "reference" then some reference
  else if name = "block" then some block
  else none

/-- The type with a number. -/
def ofNumber? : Nat → Option Shape
  | 0 => some call
  | 1 => some reference
  | 2 => some block
  | _ => none

/-- The type that a value names, or gives by its number. -/
def ofJson? (value : Json) : Option Shape :=
  match value with
  | .string text => ofName? text
  | value => value.count?.bind ofNumber?

/-- The record of a node of this type, apart from the type. -/
def form : Shape → RecordForm
  | call => ⟨["subject", "message", "arguments", "span"], 2⟩
  | reference => ⟨["kind", "name", "span"], 2⟩
  | block => ⟨["kind", "children", "span"], 1⟩

end Shape

/-- The subject in a field: nothing if it is missing or `null`. -/
def subjectOf : Option Reading → Option (Option Node)
  | none => some none
  | some { value := .null, .. } => some none
  | some reading => reading.node?.map some

/-- The text in a field. -/
def textOf (field : Option Reading) : Option String :=
  Json.required (·.value.text?) field

/-- The nodes in a field, none if it is missing. -/
def nodesOf (field : Option Reading) : Option (List Node) :=
  Json.defaulted [] (·.nodes?) field

/-- The place in a field, the start of the file if it is missing. -/
def spanOf (field : Option Reading) : Option Span :=
  Json.defaulted {} (fun reading => Span.ofJson? reading.value) field

/-- The node of a type with the given fields. -/
def ofFields? (field : Fields Reading) : Shape → Option Node
  | .call => do
    let subject ← subjectOf (← field "subject")
    let message ← textOf (← field "message")
    let arguments ← nodesOf (← field "arguments")
    let span ← spanOf (← field "span")
    return .call subject message arguments span
  | .reference => do
    let kind ← textOf (← field "kind")
    let name ← textOf (← field "name")
    let span ← spanOf (← field "span")
    return .reference (.ofName kind) name span
  | .block => do
    let label ← textOf (← field "kind")
    let children ← nodesOf (← field "children")
    let span ← spanOf (← field "span")
    return .block label children span

/-- The node that an object is. -/
def ofMembers? (members : List (String × Reading)) : Option Node := do
  let type ← Json.memberFields members "type"
  let shape ← Json.required (Shape.ofJson? ·.value) type
  ofFields? (Json.memberFields members) shape

/-- The node that an array is. -/
def ofItems? : List Reading → Option Node
  | [] => none
  | type :: items => do
    let shape ← Shape.ofJson? type.value
    ofFields? (← shape.form.ofItems items) shape

mutual

/-- What a value is. -/
def read : Json → Reading
  | .object members => { value := .object members, node? := ofMembers? (readMembers members) }
  | .array items =>
    let readings := readItems items
    { value := .array items, node? := ofItems? readings, nodes? := readings.mapM (·.node?) }
  | value => { value }

/-- What each item is. -/
def readItems : List Json → List Reading
  | [] => []
  | item :: items => read item :: readItems items

/-- What the value of each member is. -/
def readMembers : List (String × Json) → List (String × Reading)
  | [] => []
  | member :: members => readMember member :: readMembers members

/-- What the value of a member is. -/
def readMember : String × Json → String × Reading
  | (name, value) => (name, read value)

end

/-- Whether a value names its type, as the root of a document does. -/
def namesType : Json → Bool
  | .object members =>
    match Json.memberFields members "type" with
    | some (some (.string _)) => true
    | _ => false
  | .array (.string _ :: _) => true
  | _ => false

/-! ## Writing -/

mutual

/-- The record of a node.  A missing subject and an empty list of arguments are left out. -/
def toJson : Node → Json
  | call subject message arguments span =>
    .object (("type", .string Shape.call.name) ::
      (subjectMember subject ++ ("message", .string message) ::
        (argumentsMember (toJsonList arguments) ++ [("span", span.toJson)])))
  | reference kind name span =>
    .object [("type", .string Shape.reference.name), ("kind", .string kind.name),
      ("name", .string name), ("span", span.toJson)]
  | block label children span =>
    .object [("type", .string Shape.block.name), ("kind", .string label),
      ("children", .array (toJsonList children)), ("span", span.toJson)]

/-- The member that holds the subject of a call. -/
def subjectMember : Option Node → List (String × Json)
  | none => []
  | some node => [("subject", toJson node)]

/-- The records of several nodes. -/
def toJsonList : List Node → List Json
  | [] => []
  | node :: nodes => toJson node :: toJsonList nodes

/-- The member that holds the arguments of a call. -/
def argumentsMember : List Json → List (String × Json)
  | [] => []
  | arguments => [("arguments", .array arguments)]

end

end Node

/-! ## Documents -/

/-- The tree of one source file. -/
structure Document where
  path : Option Path
  root : Node
  deriving DecidableEq, Repr, Inhabited

namespace Document

/-- The greatest number of containers that may be open at once. -/
def maxNesting : Nat := 127

/-- The record of a document. -/
def form : RecordForm := ⟨["path", "root"], 2⟩

/-- The root that a value is, if all of it has a value and it is not nested too deeply within the
document. -/
def rootOf? (value : Json) : Option Node :=
  if value.isValued ∧ 1 + value.height ≤ maxNesting ∧ Node.namesType value then
    (Node.read value).node?
  else none

/-- The document that a value is. -/
def ofJson? (value : Json) : Option Document := do
  let field ← form.fields? value
  let path ← Json.optional (fun path => path.text?.map Path.mk) (← field "path")
  let root ← Json.required rootOf? (← field "root")
  return { path, root }

/-- The document that a text holds. -/
def parse? (text : String) : Option Document :=
  (Json.read? text).bind ofJson?

/-- The record of a document.  A missing path is left out. -/
def toJson (document : Document) : Json :=
  .object ((match document.path with
    | none => []
    | some path => [("path", .string path.text)]) ++ [("root", document.root.toJson)])

/-- The text of a document. -/
def write (document : Document) : String :=
  document.toJson.compact

end Document

end RailsReview
