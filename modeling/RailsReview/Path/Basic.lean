/-!
# Paths

A path is a text whose components are separated by slashes.  Two texts can name the components
alike: repeated slashes, a slash at the end and an inner `.` do not count, while `..` does.
Comparing paths and stripping one path from another go by components; what is left after stripping
is a piece of the text that was stripped.

Both views come from one list, `Path.pieces`: the text between slashes, each piece beside the
component that it stands for, if any.
-/

namespace RailsReview

/-- A component of a path. -/
inductive Component where
  /-- The slash at the start of an absolute path. -/
  | root
  /-- The `.` at the start of a relative path. -/
  | current
  /-- A `..`. -/
  | parent
  /-- A plain name. -/
  | name (text : String)
  deriving DecidableEq, Repr, Inhabited

namespace Component

/-- The place of a kind of component in the order of components. -/
def rank : Component → Nat
  | root => 0
  | current => 1
  | parent => 2
  | name _ => 3

/-- The text of a plain name, and the empty text otherwise. -/
def label : Component → String
  | name text => text
  | _ => ""

/-- Components in order: the root, `.`, `..`, and the names by their characters. -/
def compare (a b : Component) : Ordering :=
  (Ord.compare a.rank b.rank).then (Ord.compare a.label b.label)

/-- The component that a piece after the first one stands for. -/
def ofPiece? (piece : List Char) : Option Component :=
  if piece = [] ∨ piece = ['.'] then none
  else if piece = ['.', '.'] then some parent
  else some (name (String.ofList piece))

/-- The component that the first piece of a nonempty path stands for. -/
def ofFirstPiece? (piece : List Char) : Option Component :=
  if piece = [] then some root
  else if piece = ['.'] then some current
  else ofPiece? piece

/-- The text of a plain name. -/
def name? : Component → Option String
  | name text => some text
  | _ => none

end Component

/-- A path, as it is written. -/
structure Path where
  text : String
  deriving DecidableEq, Repr, Inhabited

namespace Path

/-- The text between two slashes, with the component that it stands for. -/
abbrev Piece := Option Component × List Char

/-- Whether a piece stands for no component. -/
def isEmptyPiece (piece : Piece) : Bool :=
  piece.1.isNone

/-- The pieces of a path, from left to right. -/
def pieces (path : Path) : List Piece :=
  match path.text.toList.splitOn '/' with
  | [] | [[]] => []
  | first :: rest =>
    (Component.ofFirstPiece? first, first) :: rest.map fun piece => (Component.ofPiece? piece, piece)

/-- The components of a path, from left to right. -/
def components (path : Path) : List Component :=
  path.pieces.filterMap (·.1)

/-- The path whose pieces are given. -/
def ofPieces : List Piece → Path
  | [(some .root, _)] => ⟨"/"⟩
  | pieces => ⟨String.ofList (['/'].intercalate (pieces.map (·.2)))⟩

/-- Whether a path starts at the root. -/
def isAbsolute (path : Path) : Bool :=
  path.text.toList.head? == some '/'

/-- The path reached from `base` by following `path`. -/
def join (base path : Path) : Path :=
  if path.isAbsolute then path
  else if base.text.isEmpty || base.text.toList.getLast? == some '/' then ⟨base.text ++ path.text⟩
  else ⟨base.text ++ "/" ++ path.text⟩

/-! ## Stripping -/

/-- The pieces without those at the end that stand for no component. -/
def trimPieces (pieces : List Piece) : List Piece :=
  (pieces.reverse.dropWhile isEmptyPiece).reverse

/-- What is left of a list of pieces once the given components are taken off its start. -/
def stripPieces : List Piece → List Component → Option (List Piece)
  | pieces, [] => some pieces
  | [], _ :: _ => none
  | (none, _) :: pieces, component :: components => stripPieces pieces (component :: components)
  | (some found, _) :: pieces, component :: components =>
    if found = component then stripPieces pieces components else none

/-- The path relative to `base`, if `base` is where it starts. -/
def strip? (path base : Path) : Option Path :=
  (stripPieces path.pieces base.components).map fun rest =>
    ofPieces (trimPieces (rest.dropWhile isEmptyPiece))

/-- The path relative to `base`, or the path itself if it does not start there. -/
def relativeTo (path base : Path) : Path :=
  (path.strip? base).getD path

/-! ## Ancestors -/

/-- The pieces of each proper ancestor, the nearest first.  All lists of pieces run from right to
left. -/
def ancestorPieces : List Piece → List (List Piece)
  | [] => []
  | (none, _) :: pieces => ancestorPieces pieces
  | (some .root, _) :: _ => []
  | (some _, _) :: pieces => pieces.dropWhile isEmptyPiece :: ancestorPieces pieces

/-- The path and its ancestors, the nearest first. -/
def ancestors (path : Path) : List Path :=
  path :: (ancestorPieces path.pieces.reverse).map fun pieces => ofPieces pieces.reverse

/-! ## Order -/

/-- Paths in order of their components. -/
def compare (a b : Path) : Ordering :=
  List.compareLex Component.compare a.components b.components

end Path

end RailsReview
