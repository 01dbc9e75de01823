import RailsReview.CommandLine.Run

/-!
# The program

The outer layer of the command line.  It copies what a run can see into a file system, has the run
computed, prints what there is to print, and stores the files that the run has changed.

For a check that is the tree of documents below the checked directory, the places where a
configuration can be, and the schema; for the start of a project, the files that it writes.
-/

namespace RailsReview.CommandLine

/-! ## Copying files -/

/-- The content of a file. -/
def ofBytes (bytes : ByteArray) : FileTree :=
  match String.fromUTF8? bytes with
  | some text => .text text
  | none => .binary

/-- What stands at a path: nothing, a file, or a directory, which is shown without its entries. -/
def glance (path : String) : IO (Option FileTree) := do
  try
    let place ← IO.FS.realPath ⟨path⟩
    if ← place.isDir then return some .empty
    return some (ofBytes (← IO.FS.readBinFile place))
  catch _ => return none

/-- The files with what stands along a path added to them.  The first pieces of the path, which are
written in `walked`, lead to the names `here`. -/
def addAlong (files : FileSystem) (walked : String) (here : List String) :
    List String → IO FileSystem
  | [] => return files
  | piece :: pieces => do
    let path := walked ++ piece
    let names :=
      if piece = "" ∨ piece = "." then here
      else if piece = ".." then here.dropLast
      else here ++ [piece]
    match ← glance path with
    | none => return files
    | some (.directory _) =>
      addAlong { files with tree := files.tree.makeDirectory names } (path ++ "/") names pieces
    | some file => return { files with tree := files.tree.put names file }

/-- The files with what stands at a path added to them. -/
def add (files : FileSystem) (path : Path) : IO FileSystem :=
  match path.text.splitOn "/" with
  | "" :: pieces => addAlong files "/" [] pieces
  | pieces => addAlong files "" files.current pieces

/-- How deep the directories below the checked one are copied. -/
def maxDepth : Nat := 256

/-- The documents at and below a path. -/
def copyDocuments : Nat → String → IO FileTree
  | 0, _ => return .empty
  | depth + 1, path => do
    let place ← IO.FS.realPath ⟨path⟩
    if ← place.isDir then
      let mut tree := FileTree.empty
      for entry in ← place.readDir do
        if FileTree.isDocumentName entry.fileName || (← entry.path.isDir) then
          tree := tree.put [entry.fileName] (← copyDocuments depth (path ++ "/" ++ entry.fileName))
      return tree
    else
      return ofBytes (← IO.FS.readBinFile place)

/-- The files with the documents below a directory added to them. -/
def addDocuments (files : FileSystem) (path : Path) : IO FileSystem := do
  match files.resolve path with
  | .error _ => return files
  | .ok names =>
    let documents ← copyDocuments maxDepth path.text
    return { files with tree := files.tree.put names documents }

/-! ## What a run can see -/

/-- The places where the configuration of a check can be. -/
def configPlaces (start : Path) (environment : Environment) (given : Option Path) : List Path :=
  given.toList ++
    start.ancestors.flatMap (fun directory =>
      ConfigSource.projectNames.map fun name => directory.join ⟨name⟩) ++
    (environment.userDirectory.map fun directory => directory.join ⟨ConfigSource.sharedName⟩).toList

/-- The files that a check can see. -/
def filesOfCheck (files : FileSystem) (environment : Environment) (options : CheckOptions)
    (given : Option Path) : IO FileSystem := do
  let files ← add files options.path
  let files ← addDocuments files options.path
  let files ← (configPlaces (files.canonical options.path) environment given).foldlM add files
  match loadConfig files (configSource files environment options.path given) with
  | .error _ => return files
  | .ok config => (schemaPath? options config).toList.foldlM add files

/-- The files that the start of a project writes. -/
def startedFiles : List Path :=
  [⟨configName⟩, ⟨schemaName⟩]

/-- The files that a run can see. -/
def filesOfRun (environment : Environment) (arguments : List String) : IO FileSystem := do
  let here : Path := ⟨(← IO.currentDir).toString⟩
  let files ← add {} here
  let files := { files with current := here.components.filterMap Component.name? }
  match read arguments environment.config with
  | .error _ => return files
  | .ok invocation =>
    match invocation.command with
    | .check options => filesOfCheck files environment options invocation.config
    | .listRules => return files
    | .init _ => startedFiles.foldlM add files

/-! ## Running -/

/-- Stores a file that a run has changed. -/
def store (before after : FileSystem) (path : Path) : IO Unit := do
  let known := (before.read path).toOption
  match (after.read path).toOption with
  | some text => if known != some text then IO.FS.writeFile ⟨path.text⟩ text
  | none => return

/-- The environment of the process. -/
def currentEnvironment : IO Environment := do
  let config ← IO.getEnv Environment.configVariable
  let sharedDirectory ← IO.getEnv Environment.sharedVariable
  let home ← IO.getEnv Environment.homeVariable
  let values := [(Environment.configVariable, config),
    (Environment.sharedVariable, sharedDirectory), (Environment.homeVariable, home)]
  return .ofVariables fun name => (values.lookup name).join

end RailsReview.CommandLine

open RailsReview RailsReview.CommandLine in
/-- Runs the program with its arguments. -/
def main (arguments : List String) : IO UInt32 := do
  let environment ← currentEnvironment
  let files ← filesOfRun environment arguments
  let result := run files environment arguments
  IO.print result.output
  if let some complaint := result.complaint then IO.eprintln ("Error: " ++ complaint)
  startedFiles.forM (store files result.files)
  return result.exitCode.toUInt32
