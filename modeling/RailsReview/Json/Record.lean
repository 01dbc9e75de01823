import RailsReview.Json.Value

/-!
# Records in JSON

A record is written as an object of its fields, in any order and among other members, or as an array
of its fields in the order of their declaration.

Both forms answer the same question, `Fields`: what stands in a field?  In an object a field that
stands twice makes the record unreadable, and one that is missing is reported as missing.  In an
array only fields at the end can be missing, and only those that have a default.
-/

namespace RailsReview.Json

/-- What stands in each field: nothing at all for an unreadable record, and `some none` for a
missing field. -/
abbrev Fields (α : Type) := String → Option (Option α)

/-- The fields of an object. -/
def memberFields {α : Type} (members : List (String × α)) : Fields α := fun name =>
  match members.filter (·.1 == name) with
  | [] => some none
  | [(_, value)] => some (some value)
  | _ => none

/-- The fields of an array, whose items stand in the order of `names`. -/
def itemFields {α : Type} (names : List String) (items : List α) : Fields α := fun name =>
  some items[names.idxOf name]?

/-- The form of a record: the names of its fields in order, and how many of them have no default
when they are written as an array. -/
structure RecordForm where
  names : List String
  required : Nat
  deriving DecidableEq, Repr

namespace RecordForm

/-- Whether an array can hold the fields of the record. -/
def admits (form : RecordForm) (length : Nat) : Bool :=
  form.required ≤ length && length ≤ form.names.length

/-- The fields of a record written as an array. -/
def ofItems {α : Type} (form : RecordForm) (items : List α) : Option (Fields α) :=
  if form.admits items.length then some (itemFields form.names items) else none

/-- The fields of a record. -/
def fields? (form : RecordForm) : Json → Option (Fields Json)
  | object members => some (memberFields members)
  | array items => form.ofItems items
  | _ => none

end RecordForm

/-! ## Fields -/

/-- A field that has to be there. -/
def required {α β : Type} (read : α → Option β) (field : Option α) : Option β :=
  field.bind read

/-- A field with a default. -/
def defaulted {α β : Type} (default : β) (read : α → Option β) : Option α → Option β
  | none => some default
  | some value => read value

/-- A field that may be missing or `null`. -/
def optional {β : Type} (read : Json → Option β) : Option Json → Option (Option β)
  | none | some null => some none
  | some value => (read value).map some

end RailsReview.Json
