import RailsReview.Path.Basic

/-!
# File trees

The files that a run can see: a tree of directories, with the entries of each in order of their
names, and a directory in which relative paths start.

Paths are followed as they are written.  Every piece of a path needs a directory to stand in, `..`
leads to the directory above, and empty pieces and `.` lead nowhere else.  A path cannot hold a null
character, and neither a path nor a name in it can be too long.
-/

namespace RailsReview

/-- A file or a directory. -/
inductive FileTree where
  | text (content : String)
  /-- A file whose content is no text. -/
  | binary
  /-- A directory with its entries. -/
  | directory (entries : List (String × FileTree))
  deriving Repr, Inhabited

/-- Why a file cannot be read. -/
inductive ReadError where
  | notFound
  | notADirectory
  | isADirectory
  | nameTooLong
  | nullInName
  | notText
  deriving DecidableEq, Repr, Inhabited

namespace ReadError

/-- The error in words. -/
def message : ReadError → String
  | notFound => "No such file or directory (os error 2)"
  | notADirectory => "Not a directory (os error 20)"
  | isADirectory => "Is a directory (os error 21)"
  | nameTooLong => "File name too long (os error 36)"
  | nullInName => "file name contained an unexpected NUL byte"
  | notText => "stream did not contain valid UTF-8"

end ReadError

namespace FileTree

/-- A directory without entries. -/
def empty : FileTree := directory []

/-- Whether a tree is a directory. -/
def isDirectory : FileTree → Bool
  | directory _ => true
  | _ => false

/-- The entries of a directory, none for a file. -/
def entries : FileTree → List (String × FileTree)
  | directory entries => entries
  | _ => []

/-- What the names lead to. -/
def find? : List String → FileTree → Option FileTree
  | [], tree => some tree
  | name :: names, tree => (tree.entries.lookup name).bind (find? names)

/-- The entries with one set, kept in order of the names. -/
def setEntry (name : String) (tree : FileTree) :
    List (String × FileTree) → List (String × FileTree)
  | [] => [(name, tree)]
  | entry :: entries =>
    if name = entry.1 then (name, tree) :: entries
    else if name < entry.1 then (name, tree) :: entry :: entries
    else entry :: setEntry name tree entries

/-- The tree with a change made to what the names lead to; directories on the way are made. -/
def alter (change : Option FileTree → FileTree) : List String → Option FileTree → FileTree
  | [], tree? => change tree?
  | name :: names, tree? =>
    let entries := (tree?.getD empty).entries
    directory (setEntry name (alter change names (entries.lookup name)) entries)

/-- The tree with a file or directory put where the names lead. -/
def put (tree : FileTree) (names : List String) (content : FileTree) : FileTree :=
  alter (fun _ => content) names (some tree)

/-- The tree with a directory where the names lead; one that is there stays as it is. -/
def makeDirectory (tree : FileTree) (names : List String) : FileTree :=
  alter (fun | some (directory entries) => directory entries | _ => empty) names (some tree)

/-- The content of a file. -/
def content : FileTree → Except ReadError String
  | text content => .ok content
  | binary => .error .notText
  | directory _ => .error .isADirectory

end FileTree

/-- A file tree with a current directory. -/
structure FileSystem where
  tree : FileTree := .empty
  /-- The names that lead from the root to the current directory. -/
  current : List String := []
  deriving Repr, Inhabited

namespace FileSystem

/-- The absolute path that names lead along. -/
def pathOf (names : List String) : Path :=
  ⟨"/" ++ "/".intercalate names⟩

/-- The path of the current directory. -/
def currentPath (files : FileSystem) : Path :=
  pathOf files.current

/-- The greatest size of a name in bytes. -/
def maxNameSize : Nat := 255

/-- The greatest size of a path in bytes. -/
def maxPathSize : Nat := 4095

/-- The names after one more piece of a path. -/
def step (files : FileSystem) (here : List String) (piece : List Char) :
    Except ReadError (List String) :=
  match files.tree.find? here with
  | some (.directory entries) =>
    if piece = [] ∨ piece = ['.'] then .ok here
    else if piece = ['.', '.'] then .ok here.dropLast
    else
      let name := String.ofList piece
      if maxNameSize < name.utf8ByteSize then .error .nameTooLong
      else if (entries.lookup name).isSome then .ok (here ++ [name])
      else .error .notFound
  | some _ => .error .notADirectory
  | none => .error .notFound

/-- The names that a path leads along, from the root, without detours. -/
def resolve (files : FileSystem) (path : Path) : Except ReadError (List String) :=
  if path.text.toList.contains '\x00' then .error .nullInName
  else if path.text.isEmpty then .error .notFound
  else if maxPathSize < path.text.utf8ByteSize then .error .nameTooLong
  else
    (path.text.toList.splitOn '/').foldlM files.step
      (if path.isAbsolute then [] else files.current)

/-- What a path leads to. -/
def find (files : FileSystem) (path : Path) : Except ReadError FileTree :=
  (files.resolve path).bind fun names =>
    match files.tree.find? names with
    | some tree => .ok tree
    | none => .error .notFound

/-- Whether a path leads to anything. -/
def holds (files : FileSystem) (path : Path) : Bool :=
  match files.find path with
  | .ok _ => true
  | .error _ => false

/-- Whether a path leads to a file. -/
def isFile (files : FileSystem) (path : Path) : Bool :=
  match files.find path with
  | .ok tree => !tree.isDirectory
  | .error _ => false

/-- The text of the file that a path leads to. -/
def read (files : FileSystem) (path : Path) : Except ReadError String :=
  (files.find path).bind FileTree.content

/-- The path without detours, or the path itself if it leads nowhere. -/
def canonical (files : FileSystem) (path : Path) : Path :=
  match files.resolve path with
  | .ok names => pathOf names
  | .error _ => path

/-- The files with a text written where a path leads. -/
def write (files : FileSystem) (path : Path) (content : String) : Except ReadError FileSystem :=
  match files.find path with
  | .ok (.directory _) => .error .isADirectory
  | _ =>
    let pieces := path.text.toList.splitOn '/'
    let start := if path.isAbsolute then [] else files.current
    match pieces.dropLast.foldlM files.step start, pieces.getLast? with
    | .ok here, some name =>
      .ok { files with tree := files.tree.put (here ++ [String.ofList name]) (.text content) }
    | .ok _, none => .error .notFound
    | .error cause, _ => .error cause

end FileSystem

end RailsReview
