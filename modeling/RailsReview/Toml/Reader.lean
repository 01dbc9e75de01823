import RailsReview.Toml.Scalar
import RailsReview.Toml.Table
import RailsReview.Toml.Text

/-!
# Reading TOML

A text is a list of lines, each of which is empty, declares a table or gives a value to a key.
`Toml.read?` reads the lines in turn and keeps the tables that they have built, together with the
table that keys currently go into.

Arrays go over several lines and may end with a comma; tables in braces do neither.  Arrays and such
tables may be nested `maxNesting` deep.
-/

namespace RailsReview.Toml

/-- The greatest number of arrays and tables in braces that may be open at once. -/
def maxNesting : Nat := 79

/-! ## Values -/

mutual

/-- A value within containers, of which `room` more may be opened. -/
def readValue : Nat → Nat → List Char → Option (Value × List Char)
  | 0, _, _ => none
  | fuel + 1, room, text =>
    match text with
    | '"' :: _ | '\x27' :: _ =>
      (readString text).map fun (text, rest) => (.text (.ofList text), rest)
    | '[' :: rest =>
      match room with
      | 0 => none
      | room + 1 => (readItems fuel room rest).map fun (items, rest) => (.array items, rest)
    | '{' :: rest =>
      match room with
      | 0 => none
      | room + 1 =>
        match skipSpace rest with
        | '}' :: rest => some (.table [], rest)
        | rest => (readPairs fuel room [] rest).map fun (entries, rest) =>
          (.table (entriesToValues entries), rest)
    | text => readScalar text

/-- The items of an array up to its closing bracket. -/
def readItems : Nat → Nat → List Char → Option (List Value × List Char)
  | 0, _, _ => none
  | fuel + 1, room, text =>
    match skipLines text.length text with
    | ']' :: rest => some ([], rest)
    | text =>
      match readValue fuel room text with
      | none => none
      | some (item, rest) =>
        match skipLines rest.length rest with
        | ']' :: rest => some ([item], rest)
        | ',' :: rest => (readItems fuel room rest).map fun (items, rest) => (item :: items, rest)
        | _ => none

/-- The entries of a table in braces, at least one, up to its closing brace, after those already
read. -/
def readPairs : Nat → Nat → Entries → List Char → Option (Entries × List Char)
  | 0, _, _, _ => none
  | fuel + 1, room, entries, text =>
    match readKey text with
    | some ((path, key), '=' :: rest) =>
      match readValue fuel room (skipSpace rest) with
      | none => none
      | some (value, rest) =>
        match Entries.insert key value path entries, skipSpace rest with
        | some entries, '}' :: rest => some (entries, rest)
        | some entries, ',' :: rest => readPairs fuel room entries rest
        | _, _ => none
    | _ => none

end

/-! ## Lines -/

/-- What has been read: the tables so far and the header that keys are under. -/
structure Progress where
  entries : Entries := []
  header : List String := []

namespace Progress

/-- A value given to a key. -/
def assign (progress : Progress) (path : List String) (key : String) (value : Value) :
    Option Progress :=
  (Entries.change .implied (fun _ inner => Entries.insert key value path inner)
    progress.header .declared progress.entries).map fun entries => { progress with entries }

/-- A table declared by its header. -/
def openTable (progress : Progress) (path : List String) (key : String) : Option Progress :=
  (Entries.declareTable key path progress.entries).map fun entries =>
    { entries, header := path ++ [key] }

/-- An element of an array of tables declared by its header. -/
def openElement (progress : Progress) (path : List String) (key : String) : Option Progress :=
  (Entries.declareElement key path progress.entries).map fun entries =>
    { entries, header := path ++ [key] }

end Progress

/-- What has been read after one more line, and the text after the line. -/
def readLine (progress : Progress) (text : List Char) : Option (Progress × List Char) :=
  match skipSpace text with
  | '[' :: '[' :: rest =>
    match readKey rest with
    | some ((path, key), ']' :: ']' :: rest) =>
      match progress.openElement path key, endOfLine? rest with
      | some progress, some rest => some (progress, rest)
      | _, _ => none
    | _ => none
  | '[' :: rest =>
    match readKey rest with
    | some ((path, key), ']' :: rest) =>
      match progress.openTable path key, endOfLine? rest with
      | some progress, some rest => some (progress, rest)
      | _, _ => none
    | _ => none
  | text =>
    match endOfLine? text with
    | some rest => some (progress, rest)
    | none =>
      match readKey text with
      | some ((path, key), '=' :: rest) =>
        match readValue (2 * rest.length + 2) maxNesting (skipSpace rest) with
        | some (value, rest) =>
          match progress.assign path key value, endOfLine? rest with
          | some progress, some rest => some (progress, rest)
          | _, _ => none
        | none => none
      | _ => none

/-- What has been read after all lines. -/
def readLines : Nat → Progress → List Char → Option Progress
  | _, progress, [] => some progress
  | 0, _, _ => none
  | fuel + 1, progress, text =>
    match readLine progress text with
    | some (progress, rest) => readLines fuel progress rest
    | none => none

/-- The text without a byte order mark at its start. -/
def dropMark : List Char → List Char
  | '\uFEFF' :: rest => rest
  | text => text

/-- The entries of the table that a text stands for. -/
def read? (text : String) : Option (List (String × Value)) :=
  let text := dropMark text.toList
  (readLines (text.length + 1) {} text).map fun progress => entriesToValues progress.entries

end RailsReview.Toml
