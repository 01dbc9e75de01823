import RailsReview.Analysis.Discovery
import RailsReview.Proofs.Data.List

/-!
# Documents below a root

The path of a document is the root with single slashes, followed by the names that lead from there
to the document.  Taking the root off again leaves these names, however the root is written: the pieces
of the root that stand for no component are passed over on both sides.

* `Path.pieces_of_toList_eq_cons`: the pieces of a path that starts with a slash.
* `Path.stripPieces_append`: taking components off leaves the pieces behind them.
* `Path.relativeTo_congr`: of the path that is taken off, only the components count.
* `Analyzer.relativeTo_documentPath`: the path of a document relative to the root.
* `Analyzer.components_documentPath`: its components.
* `FileTree.ne_nil_of_mem_documentsBelow`: some name leads to every document.
-/

namespace RailsReview

namespace Path

/-! ## Pieces -/

/-- A piece of a path that is not its first one, with the component that it stands for. -/
def pieceOf (piece : List Char) : Piece :=
  (Component.ofPiece? piece, piece)

/-- A path that starts with a slash consists of the root and what stands between later slashes. -/
theorem pieces_of_toList_eq_cons {path : Path} {rest : List Char}
    (h : path.text.toList = '/' :: rest) :
    path.pieces = (some .root, []) :: (rest.splitOn '/').map pieceOf := by
  have hsplit : path.text.toList.splitOn '/' = [] :: rest.splitOn '/' := by
    rw [h]
    exact List.splitOn_append_cons_self [] rest
  rw [pieces, hsplit]
  cases hrest : rest.splitOn '/' with
  | nil => exact absurd hrest (List.splitOn_ne_nil '/' rest)
  | cons first others => rfl

theorem exists_toList_eq_cons_of_isAbsolute {path : Path} (h : path.isAbsolute = true) :
    ∃ rest, path.text.toList = '/' :: rest := by
  rw [isAbsolute, beq_iff_eq] at h
  exact List.head?_eq_some_iff.mp h

theorem isAbsolute_of_toList_eq_cons {path : Path} {rest : List Char}
    (h : path.text.toList = '/' :: rest) : path.isAbsolute = true := by
  rw [isAbsolute, h]
  rfl

/-- The components of an absolute path are the root and what stands between slashes. -/
theorem components_eq_of_isAbsolute {path : Path} (h : path.isAbsolute = true) :
    path.components =
      .root :: (path.text.toList.splitOn '/').filterMap Component.ofPiece? := by
  obtain ⟨rest, hrest⟩ := exists_toList_eq_cons_of_isAbsolute h
  have hsplit : ('/' :: rest).splitOn '/' = [] :: rest.splitOn '/' :=
    List.splitOn_append_cons_self [] rest
  rw [components, pieces_of_toList_eq_cons hrest, hrest, hsplit]
  change Component.root :: _ = Component.root :: _
  rw [List.filterMap_map]
  rfl

/-- What is reached from an absolute path is absolute. -/
theorem isAbsolute_join {base path : Path} (h : base.isAbsolute = true) :
    (base.join path).isAbsolute = true := by
  obtain ⟨rest, hrest⟩ := exists_toList_eq_cons_of_isAbsolute h
  unfold join
  split
  · next hpath => exact hpath
  · split
    · have htext : (base.text ++ path.text).toList = '/' :: (rest ++ path.text.toList) := by
        rw [String.toList_append, hrest, List.cons_append]
      exact isAbsolute_of_toList_eq_cons htext
    · have htext : (base.text ++ "/" ++ path.text).toList =
          '/' :: (rest ++ '/' :: path.text.toList) := by
        simp [hrest]
      exact isAbsolute_of_toList_eq_cons htext

/-! ## Stripping -/

/-- Taking components off pieces that begin with them leaves the other pieces, behind some that
stand for no component. -/
theorem stripPieces_append (pieces rest : List Piece) :
    ∃ blanks, (∀ piece ∈ blanks, isEmptyPiece piece = true) ∧
      stripPieces (pieces ++ rest) (pieces.filterMap (·.1)) = some (blanks ++ rest) := by
  induction pieces with
  | nil => exact ⟨[], fun _ h => absurd h List.not_mem_nil, by simp [stripPieces]⟩
  | cons piece pieces ih =>
    obtain ⟨blanks, hblanks, hstrip⟩ := ih
    obtain ⟨_ | component, text⟩ := piece
    · cases hcomponents : pieces.filterMap (·.1) with
      | nil =>
        refine ⟨(none, text) :: pieces, fun piece hpiece => ?_, ?_⟩
        · rcases List.mem_cons.mp hpiece with rfl | hpiece
          · rfl
          · rw [isEmptyPiece, Option.isNone_iff_eq_none]
            exact List.filterMap_eq_nil_iff.mp hcomponents piece hpiece
        · rw [List.filterMap_cons_none rfl, hcomponents]
          rfl
      | cons first others =>
        refine ⟨blanks, hblanks, ?_⟩
        rw [List.filterMap_cons_none rfl, ← hstrip, hcomponents]
        rfl
    · refine ⟨blanks, hblanks, ?_⟩
      rw [← hstrip]
      exact if_pos rfl

/-- Of the path that is taken off, only the components count. -/
theorem relativeTo_congr {base other : Path} (h : base.components = other.components)
    (path : Path) : path.relativeTo base = path.relativeTo other := by
  rw [relativeTo, relativeTo, strip?, strip?, h]

/-- What is left once a path is taken off one whose pieces begin alike. -/
theorem relativeTo_of_pieces_eq {path base : Path} {pieces rest : List Piece}
    (hpath : path.pieces = pieces ++ rest) (hbase : base.components = pieces.filterMap (·.1)) :
    path.relativeTo base = ofPieces (trimPieces (rest.dropWhile isEmptyPiece)) := by
  obtain ⟨blanks, hblanks, hstrip⟩ := stripPieces_append pieces rest
  rw [relativeTo, strip?, hpath, hbase, hstrip, Option.map_some, Option.getD_some,
    List.dropWhile_append_of_pos hblanks]

end Path

/-! ## Documents -/

namespace FileTree

mutual

/-- Some name leads to every document, besides those that were followed before. -/
theorem ne_nil_of_mem_documentsBelow : ∀ (names : List String) (tree : FileTree)
    (found : List String × FileTree), found ∈ documentsBelow names tree → found.1 ≠ []
  | names, directory entries, found, h => by
    rw [documentsBelow] at h
    exact ne_nil_of_mem_documentsAmong names entries found h
  | _, text _, _, h => absurd h List.not_mem_nil
  | _, binary, _, h => absurd h List.not_mem_nil

theorem ne_nil_of_mem_documentsAmong : ∀ (names : List String)
    (entries : List (String × FileTree)) (found : List String × FileTree),
    found ∈ documentsAmong names entries → found.1 ≠ []
  | _, [], _, h => absurd h (by simp [documentsAmong])
  | names, entry :: entries, found, h => by
    rw [documentsAmong, List.mem_append] at h
    rcases h with h | h
    · exact ne_nil_of_mem_documentsAt names entry found h
    · exact ne_nil_of_mem_documentsAmong names entries found h

theorem ne_nil_of_mem_documentsAt : ∀ (names : List String) (entry : String × FileTree)
    (found : List String × FileTree), found ∈ documentsAt names entry → found.1 ≠ []
  | names, (name, tree), found, h => by
    rw [documentsAt, List.mem_append] at h
    rcases h with h | h
    · split at h
      · rw [List.mem_singleton.mp h]
        exact List.append_ne_nil_of_right_ne_nil names (List.cons_ne_nil name [])
      · exact absurd h List.not_mem_nil
    · exact ne_nil_of_mem_documentsBelow (names ++ [name]) tree found h

end

end FileTree

/-! ## Paths of documents -/

namespace Analyzer

/-- The pieces of a path along names.  A name is a single piece, unless there is a slash in it. -/
def namePieces (names : List String) : List Path.Piece :=
  (names.flatMap fun name => name.toList.splitOn '/').map Path.pieceOf

/-- The texts between the slashes of the root that are not empty. -/
def rootTexts (analyzer : Analyzer) : List (List Char) :=
  (analyzer.root.text.toList.splitOn '/').filter (!·.isEmpty)

/-- The pieces of the root, with single slashes. -/
def rootPieces (analyzer : Analyzer) : List Path.Piece :=
  (some .root, []) :: analyzer.rootTexts.map Path.pieceOf

theorem flatMap_splitOn_rootTexts (analyzer : Analyzer) :
    analyzer.rootTexts.flatMap (·.splitOn '/') = analyzer.rootTexts := by
  have hsingle : ∀ text ∈ analyzer.rootTexts, text.splitOn '/' = [text] := fun text htext =>
    List.splitOn_eq_singleton (List.subset_and_not_mem_of_mem_splitOn (List.mem_of_mem_filter htext)).2
  rw [List.flatMap_congr hsingle]
  exact List.flatMap_singleton' analyzer.rootTexts

/-- The empty pieces of an absolute root do not show in its components. -/
theorem components_root {analyzer : Analyzer} (h : analyzer.root.isAbsolute = true) :
    analyzer.root.components = analyzer.rootPieces.filterMap (·.1) := by
  rw [Path.components_eq_of_isAbsolute h, rootPieces, rootTexts]
  change Component.root :: _ = Component.root :: _
  rw [List.filterMap_map, List.filterMap_filter]
  congr 1
  refine List.filterMap_congr fun text _ => ?_
  cases text with
  | nil => rfl
  | cons c text => rfl

/-- The pieces of the path of a document are those of the root and then those of the names. -/
theorem pieces_documentPath (analyzer : Analyzer) {names : List String} (hnames : names ≠ []) :
    (analyzer.documentPath names).pieces = analyzer.rootPieces ++ namePieces names := by
  obtain ⟨rest, hrest, hsplit⟩ := List.exists_flatMap_cons_eq_cons '/'
    (List.append_ne_nil_of_right_ne_nil analyzer.rootTexts
      (mt List.map_eq_nil_iff.mp hnames : names.map String.toList ≠ []))
  have htext : (analyzer.documentPath names).text.toList = '/' :: rest := by
    rw [← hrest, documentPath, String.toList_join, ← rootTexts, List.flatMap_map]
    simp [List.flatMap_map]
  rw [Path.pieces_of_toList_eq_cons htext, hsplit, List.flatMap_append, flatMap_splitOn_rootTexts,
    List.flatMap_map, List.map_append]
  rfl

/-- The components of the path of a document. -/
theorem components_documentPath {analyzer : Analyzer} (hroot : analyzer.root.isAbsolute = true)
    {names : List String} (hnames : names ≠ []) :
    (analyzer.documentPath names).components =
      analyzer.root.components ++ (namePieces names).filterMap (·.1) := by
  rw [Path.components, pieces_documentPath analyzer hnames, List.filterMap_append,
    components_root hroot]

/-- The path of a document relative to the root has nothing of the root. -/
theorem relativeTo_documentPath {analyzer : Analyzer} (hroot : analyzer.root.isAbsolute = true)
    {names : List String} (hnames : names ≠ []) :
    (analyzer.documentPath names).relativeTo analyzer.root =
      .ofPieces (Path.trimPieces ((namePieces names).dropWhile Path.isEmptyPiece)) :=
  Path.relativeTo_of_pieces_eq (pieces_documentPath analyzer hnames) (components_root hroot)

end Analyzer

end RailsReview
