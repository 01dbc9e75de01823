import RailsReview.Decimal.Binary
import RailsReview.Json.Value

/-!
# TOML values

What a TOML text stands for: a table of values.  Dates and times are kept in their normal form.
-/

namespace RailsReview.Toml

/-- A TOML value. -/
inductive Value where
  | text (value : String)
  | integer (value : Int)
  | float (value : Binary64)
  | boolean (value : Bool)
  /-- A date, a time or both, in normal form. -/
  | moment (normalForm : String)
  | array (items : List Value)
  | table (entries : List (String × Value))
  deriving Repr, Inhabited

namespace Value

mutual

/-- Whether two values are the same. -/
def same : Value → Value → Bool
  | text value, text value' => value == value'
  | integer value, integer value' => value == value'
  | float value, float value' => decide (value = value')
  | boolean value, boolean value' => value == value'
  | moment normalForm, moment normalForm' => normalForm == normalForm'
  | array items, array items' => sameItems items items'
  | table entries, table entries' => sameEntries entries entries'
  | _, _ => false

/-- Whether two lists of values are the same. -/
def sameItems : List Value → List Value → Bool
  | [], [] => true
  | item :: items, item' :: items' => same item item' && sameItems items items'
  | _, _ => false

/-- Whether two lists of entries are the same. -/
def sameEntries : List (String × Value) → List (String × Value) → Bool
  | [], [] => true
  | (key, value) :: entries, (key', value') :: entries' =>
    key == key' && same value value' && sameEntries entries entries'
  | _, _ => false

end

mutual

theorem same_eq_true : ∀ {a b : Value}, same a b = true ↔ a = b
  | text _, b => by cases b <;> simp [same]
  | integer _, b => by cases b <;> simp [same]
  | float _, b => by cases b <;> simp [same]
  | boolean _, b => by cases b <;> simp [same]
  | moment _, b => by cases b <;> simp [same]
  | array items, b => by
    cases b with
    | array items' => rw [same, array.injEq, sameItems_eq_true (a := items) (b := items')]
    | _ => simp [same]
  | table entries, b => by
    cases b with
    | table entries' => rw [same, table.injEq, sameEntries_eq_true (a := entries) (b := entries')]
    | _ => simp [same]

theorem sameItems_eq_true : ∀ {a b : List Value}, sameItems a b = true ↔ a = b
  | [], b => by cases b <;> simp [sameItems]
  | item :: items, [] => by simp [sameItems]
  | item :: items, item' :: items' => by
    rw [sameItems, Bool.and_eq_true, same_eq_true (a := item) (b := item'),
      sameItems_eq_true (a := items) (b := items'), List.cons.injEq]

theorem sameEntries_eq_true : ∀ {a b : List (String × Value)}, sameEntries a b = true ↔ a = b
  | [], b => by cases b <;> simp [sameEntries]
  | (key, value) :: entries, [] => by simp [sameEntries]
  | (key, value) :: entries, (key', value') :: entries' => by
    rw [sameEntries, Bool.and_eq_true, Bool.and_eq_true, beq_iff_eq,
      same_eq_true (a := value) (b := value'),
      sameEntries_eq_true (a := entries) (b := entries'), List.cons.injEq, Prod.mk.injEq]

end

instance : DecidableEq Value := fun _ _ => decidable_of_iff _ same_eq_true

end Value

/-- A floating-point number in JSON: its shortest decimal, and `null` for what is not finite. -/
def jsonOfFloat : Binary64 → Json
  | .finite negative mantissa exponent =>
    match Binary64.shortest? mantissa exponent with
    | some (digits, exponent) => .number (.decimal negative digits exponent)
    | none => .null
  | .infinite _ | .nan => .null

/-- The key of a date or time where it is shown as a table. -/
def momentKey : String := "$__toml_private_datetime"

namespace Value

/-- The text that a value is. -/
def text? : Value → Option String
  | text value => some value
  | _ => none

/-- The truth value that a value is. -/
def boolean? : Value → Option Bool
  | boolean value => some value
  | _ => none

/-- The items of an array. -/
def items? : Value → Option (List Value)
  | array items => some items
  | _ => none

/-- The entries of a table.  A date or time counts as a table of its normal form. -/
def entries? : Value → Option (List (String × Value))
  | table entries => some entries
  | moment normalForm => some [(momentKey, text normalForm)]
  | _ => none

/-- The count that a value is. -/
def count? : Value → Option Nat
  | integer value => if 0 ≤ value then some value.toNat else none
  | _ => none

mutual

/-- The value in JSON. -/
def toJson : Value → Json
  | text value => .string value
  | integer value => .integer value
  | float value => jsonOfFloat value
  | boolean value => .bool value
  | moment normalForm => .object [(momentKey, .string normalForm)]
  | array items => .array (itemsToJson items)
  | table entries => .object (entriesToJson entries)

/-- Items in JSON. -/
def itemsToJson : List Value → List Json
  | [] => []
  | item :: items => toJson item :: itemsToJson items

/-- Entries in JSON. -/
def entriesToJson : List (String × Value) → List (String × Json)
  | [] => []
  | entry :: entries => entryToJson entry :: entriesToJson entries

/-- An entry in JSON. -/
def entryToJson : String × Value → String × Json
  | (key, value) => (key, toJson value)

end

end Value

end RailsReview.Toml
