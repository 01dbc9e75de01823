import RailsReview.Analysis.Analyzer

/-!
# Finding documents

The documents below a root are the entries of its directories, at any depth, whose names end in
`.ast.json`.  They are met in the order of the names, a directory before what is in it, so the paths
come in the order of their components.
-/

namespace RailsReview

namespace FileTree

/-- Whether a name is the name of a document. -/
def isDocumentName (name : String) : Bool :=
  Analyzer.documentSuffix.toList.isSuffixOf name.toList

mutual

/-- The documents below a tree, each with the names that lead to it. -/
def documentsBelow (names : List String) : FileTree → List (List String × FileTree)
  | directory entries => documentsAmong names entries
  | _ => []

/-- The documents among the entries of a directory and below them. -/
def documentsAmong (names : List String) :
    List (String × FileTree) → List (List String × FileTree)
  | [] => []
  | entry :: entries => documentsAt names entry ++ documentsAmong names entries

/-- The entry of a directory if it is a document, and the documents below it. -/
def documentsAt (names : List String) : String × FileTree → List (List String × FileTree)
  | (name, tree) =>
    (if isDocumentName name then [(names ++ [name], tree)] else []) ++
      documentsBelow (names ++ [name]) tree

end

end FileTree

namespace Analyzer

/-- The path of a document, where `names` lead to it from the root.  The root is written with single
slashes. -/
def documentPath (analyzer : Analyzer) (names : List String) : Path :=
  let pieces := (analyzer.root.text.toList.splitOn '/').filter (!·.isEmpty)
  ⟨String.join ((pieces.map String.ofList ++ names).map ("/" ++ ·))⟩

/-- The documents below the root that are not left out. -/
def documents (analyzer : Analyzer) (files : FileSystem) : List (Path × FileTree) :=
  match files.find analyzer.root with
  | .error _ => []
  | .ok tree =>
    ((tree.documentsBelow []).map fun (names, tree) => (analyzer.documentPath names, tree)).filter
      fun (path, _) => !analyzer.shouldExclude path

/-- The report on all documents below the root. -/
def analyze (analyzer : Analyzer) (files : FileSystem) : Except AnalysisError Report :=
  summarize analyzer.strict
    ((analyzer.documents files).map fun (path, tree) => analyzer.outcome path tree.content)

end Analyzer

end RailsReview
