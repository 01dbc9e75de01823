import RailsReview.Toml.Value

/-!
# Building TOML tables

A table can come about in three ways: by a header of its own, by a longer header that leads through
it, and by a dotted key.  What may be added to it later depends on that, so it is remembered until
the whole text is read (`Item`).

* A header may declare a table that was only led through, but no other table again.  The table then
  stands where it is declared, behind the tables before.
* A dotted key may lead through tables that have no header, and puts its value into a table that
  dotted keys made.
* A header in double brackets adds a table to an array that such headers made.

Every key is given a value at most once.
-/

namespace RailsReview.Toml

/-- How a table came about. -/
inductive Origin where
  /-- By a header or by being the table of the whole text. -/
  | declared
  /-- By a longer header. -/
  | implied
  /-- By a dotted key. -/
  | dotted
  deriving DecidableEq, Repr

/-- What stands under a key while a text is read. -/
inductive Item where
  | value (value : Value)
  | table (origin : Origin) (entries : List (String × Item))
  /-- The tables of an array that is built by headers; the last one is being filled. -/
  | tables (elements : List (List (String × Item)))
  deriving Inhabited

/-- The entries of a table while a text is read. -/
abbrev Entries := List (String × Item)

namespace Entries

/-- The entries with another item under a key that is there. -/
def replace (entries : Entries) (key : String) (item : Item) : Entries :=
  entries.map fun entry => if entry.1 = key then (key, item) else entry

/-- The entries with another item under a key that is there, which becomes the last one. -/
def moveLast (entries : Entries) (key : String) (item : Item) : Entries :=
  entries.filter (·.1 != key) ++ [(key, item)]

/-- The entries with a change made to the table that a path leads to.  Tables on the way are made if
they are missing; `made` is how they come about.  A dotted path stops at a declared table. -/
def change (made : Origin) (f : Origin → Entries → Option Entries) :
    List String → Origin → Entries → Option Entries
  | [], origin, entries => f origin entries
  | key :: path, _, entries =>
    match entries.lookup key with
    | none => (change made f path made []).map fun inner => entries ++ [(key, .table made inner)]
    | some (.value _) => none
    | some (.table origin inner) =>
      if made = .dotted ∧ origin = .declared then none
      else (change made f path origin inner).map fun inner =>
        replace entries key (.table origin inner)
    | some (.tables elements) =>
      match elements.getLast? with
      | none => none
      | some last => (change made f path .declared last).map fun last =>
        replace entries key (.tables (elements.dropLast ++ [last]))

/-- The entries with a value under a dotted key.  The value goes into a table that dotted keys made,
unless the key is a single one. -/
def insert (key : String) (value : Value) (path : List String) (entries : Entries) :
    Option Entries :=
  change .dotted
    (fun origin inner =>
      if decide (origin = .dotted) = path.isEmpty ∨ (inner.lookup key).isSome then none
      else some (inner ++ [(key, .value value)]))
    path .declared entries

/-- The entries with a table declared. -/
def declareTable (key : String) (path : List String) (entries : Entries) : Option Entries :=
  change .implied
    (fun _ inner =>
      match inner.lookup key with
      | none => some (inner ++ [(key, .table .declared [])])
      | some (.table .implied known) => some (moveLast inner key (.table .declared known))
      | some _ => none)
    path .declared entries

/-- The entries with a table added to an array. -/
def declareElement (key : String) (path : List String) (entries : Entries) : Option Entries :=
  change .implied
    (fun _ inner =>
      match inner.lookup key with
      | none => some (inner ++ [(key, .tables [[]])])
      | some (.tables elements) => some (replace inner key (.tables (elements ++ [[]])))
      | some _ => none)
    path .declared entries

end Entries

mutual

/-- The value under a key once the text is read. -/
def Item.toValue : Item → Value
  | .value value => value
  | .table _ entries => .table (entriesToValues entries)
  | .tables elements => .array (elementsToValues elements)

/-- The entries of a table once the text is read. -/
def entriesToValues : List (String × Item) → List (String × Value)
  | [] => []
  | entry :: entries => entryToValue entry :: entriesToValues entries

/-- An entry of a table once the text is read. -/
def entryToValue : String × Item → String × Value
  | (key, item) => (key, item.toValue)

/-- The tables of an array once the text is read. -/
def elementsToValues : List (List (String × Item)) → List Value
  | [] => []
  | element :: elements => .table (entriesToValues element) :: elementsToValues elements

end

end RailsReview.Toml
