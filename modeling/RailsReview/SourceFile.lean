import RailsReview.Path.Basic

/-!
# Source files

What a rule can know about the file that a tree was made from: its path, its path relative to the
root of the review, and whether it is a partial view.

A partial view is a template in the views of an application whose name starts with an underscore,
such as `app/views/posts/_form.html.erb`.
-/

namespace RailsReview

/-- A source file under review. -/
structure SourceFile where
  path : Path
  relativePath : Path
  isPartialView : Bool
  deriving DecidableEq, Repr, Inhabited

namespace SourceFile

/-- The extensions of templates. -/
def templateExtensions : List String :=
  ["erb", "haml", "slim", "builder", "rhtml", "rxml"]

/-- The text after the last dot of a file name, if there is a dot. -/
def extension? (fileName : String) : Option String :=
  if fileName.toList.contains '.' then
    ((fileName.toList.splitOn '.').getLast?).map String.ofList
  else none

/-- Whether a file name is the name of a template. -/
def isTemplateName (fileName : String) : Bool :=
  match extension? fileName with
  | some extension => templateExtensions.contains extension
  | none => false

/-- Whether a file name is the name of a partial template. -/
def isPartialName (fileName : String) : Bool :=
  fileName.toList.head? == some '_' && isTemplateName fileName

/-- Whether `app` and `views` stand next to each other in a list of names. -/
def underViews (names : List String) : Bool :=
  (names.zip names.tail).contains ("app", "views")

/-- Whether a path, relative to the root of the review, leads to a partial view.  Only the plain
names on the path are looked at. -/
def isPartial (relativePath : Path) : Bool :=
  let names := relativePath.components.filterMap Component.name?
  underViews names &&
    match names.getLast? with
    | some fileName => isPartialName fileName
    | none => false

/-- The source file at a path, in a review of a root. -/
def locate (path root : Path) : SourceFile :=
  let relativePath := path.relativeTo root
  { path, relativePath, isPartialView := isPartial relativePath }

end SourceFile

end RailsReview
