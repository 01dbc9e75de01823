import RailsReview.Path.Basic

/-!
# Looking up the configuration

Where the configuration of a check comes from: a path that was given, or the nearest directory that
holds a project file, or the file in the directory of the user, or nowhere.

Nothing but the question whether a path leads to a file is asked of the file system, so the lookup
is a function of the answer to that question.
-/

namespace RailsReview

/-- Where a configuration comes from. -/
inductive ConfigSource where
  /-- A path that was given, whether or not there is a file. -/
  | explicit (path : Path)
  /-- A file of the project. -/
  | project (path : Path)
  /-- The file of the user. -/
  | shared (path : Path)
  /-- Nowhere: the defaults apply. -/
  | defaults
  deriving DecidableEq, Repr, Inhabited

namespace ConfigSource

/-- The path of the file. -/
def path? : ConfigSource → Option Path
  | explicit path | project path | shared path => some path
  | defaults => none

/-- The names of project files; in one directory the first one counts. -/
def projectNames : List String :=
  ["demeter-lint.toml", ".demeter-lint.toml"]

/-- The name of the file of the user. -/
def sharedName : String := "config.toml"

/-- The project file in a directory. -/
def findIn (isFile : Path → Bool) (directory : Path) : Option Path :=
  (projectNames.map fun name => directory.join ⟨name⟩).find? isFile

/-- The nearest directory at or above a start that holds a project file. -/
def nearestHolder (isFile : Path → Bool) (start : Path) : Option Path :=
  start.ancestors.find? fun directory => (findIn isFile directory).isSome

/-- The project file in the nearest directory at or above a start that holds one. -/
def findAbove (isFile : Path → Bool) (start : Path) : Option Path :=
  start.ancestors.findSome? (findIn isFile)

/-- The file of the user, if it is there. -/
def findShared (isFile : Path → Bool) (directory : Option Path) : Option Path :=
  (directory.map fun directory => directory.join ⟨sharedName⟩).filter isFile

/-- The source of the configuration of a check that starts in a directory. -/
def lookup (isFile : Path → Bool) (start : Path) (given directory : Option Path) : ConfigSource :=
  match given with
  | some path => explicit path
  | none =>
    match findAbove isFile start with
    | some path => project path
    | none =>
      match findShared isFile directory with
      | some path => shared path
      | none => defaults

end ConfigSource

end RailsReview
