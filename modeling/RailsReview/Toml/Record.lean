import RailsReview.Toml.Reader

/-!
# Records in TOML

A record is a table with a key for each field, among other keys, or an array of its fields in the
order of their declaration, where what follows the last field is ignored.
-/

namespace RailsReview.Toml

/-- What stands in each field of a record. -/
abbrev Fields := String → Option Value

namespace Value

/-- The fields of a record with the given names. -/
def fields? (names : List String) : Value → Option Fields
  | array items => some fun name => items[names.idxOf name]?
  | value => value.entries?.map fun entries name => entries.lookup name

/-- The items of an array, each read in the same way. -/
def listOf? {α : Type} (read : Value → Option α) (value : Value) : Option (List α) :=
  value.items?.bind (·.mapM read)

end Value

/-- A field that has to be there. -/
def required {α : Type} (read : Value → Option α) (field : Option Value) : Option α :=
  field.bind read

/-- A field with a default. -/
def defaulted {α : Type} (default : α) (read : Value → Option α) : Option Value → Option α
  | none => some default
  | some value => read value

/-- A field that may be missing. -/
def optional {α : Type} (read : Value → Option α) : Option Value → Option (Option α)
  | none => some none
  | some value => (read value).map some

end RailsReview.Toml
