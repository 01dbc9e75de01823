import RailsReview.Proofs.RelativePaths

/-!
# Parents of paths

The parent of a path is the path without its last component.  It is written with the pieces of the path
that come before that component, so that the ancestors of a path are the path itself, its parent, the
parent of that, and so on.

* `Path.pieces_ofPieces`: a path is made of the pieces that it is written with.
* `Path.ancestors_of_parent?_eq_some`: the ancestors of the parent are the other ancestors of a path.
* `Path.components_of_parent?_eq_some`: one component of a path is no component of its parent.
* `Path.parentInduction`: what a path has if its parent has it.
-/

namespace RailsReview.Path

variable {path parent : Path}

/-- The path without its last component.  The root, and a path without components, have no parent. -/
def parent? (path : Path) : Option Path :=
  match path.pieces.reverse.dropWhile isEmptyPiece with
  | [] | (some .root, _) :: _ => none
  | _ :: rest => some (ofPieces (rest.dropWhile isEmptyPiece).reverse)

/-! ## Pieces -/

/-- The pieces between slashes, of which the first one may stand for the root. -/
def spelledPieces (first : List Char) (texts : List (List Char)) : List Piece :=
  (Component.ofFirstPiece? first, first) :: texts.map pieceOf

theorem pieces_eq (path : Path) : path.pieces = [] ∨ ∃ first texts,
    path.text.toList.splitOn '/' = first :: texts ∧ (first = [] → texts ≠ []) ∧
      path.pieces = spelledPieces first texts := by
  unfold pieces
  split
  · exact .inl rfl
  · exact .inl rfl
  · next first texts hne hsplit =>
    refine .inr ⟨first, texts, hsplit, ?_, rfl⟩
    rintro rfl rfl
    exact hne rfl rfl

theorem ofFirstPiece?_eq_root_iff {piece : List Char} :
    Component.ofFirstPiece? piece = some .root ↔ piece = [] := by
  unfold Component.ofFirstPiece? Component.ofPiece?
  constructor
  · intro h
    by_contra hne
    rw [if_neg hne] at h
    split at h
    · cases h
    · split at h
      · cases h
      · split at h <;> cases h
  · rintro rfl
    rfl

/-- A path that is made of pieces is made of these pieces, the root alone apart. -/
theorem pieces_ofPieces {first : List Char} {texts : List (List Char)}
    (hslash : ∀ text ∈ first :: texts, '/' ∉ text) (hroot : first = [] → texts ≠ []) :
    (ofPieces (spelledPieces first texts)).pieces = spelledPieces first texts := by
  have htexts : (spelledPieces first texts).map (·.2) = first :: texts := by
    simp [spelledPieces, pieceOf, Function.comp_def]
  have hpath : ofPieces (spelledPieces first texts) =
      ⟨String.ofList (['/'].intercalate (first :: texts))⟩ := by
    rw [← htexts, ofPieces]
    rintro text heq
    obtain ⟨hfirst, hnil⟩ := List.cons.inj heq
    have hempty := ofFirstPiece?_eq_root_iff.mp (congrArg Prod.fst hfirst)
    exact hroot hempty (List.map_eq_nil_iff.mp hnil)
  rw [hpath, pieces, String.toList_ofList,
    List.splitOn_intercalate '/' hslash (List.cons_ne_nil first texts)]
  split
  · next heq => cases heq
  · next heq =>
    cases heq
    exact absurd rfl (hroot rfl)
  · next heq =>
    cases heq
    rfl

/-- The first pieces of a path make up a path of these pieces, with at most one more, which stands for
no component. -/
theorem exists_pieces_ofPieces_eq {pieces : List Piece} (h : pieces <+: path.pieces) :
    ∃ blank, (∀ piece ∈ blank, isEmptyPiece piece = true) ∧
      (ofPieces pieces).pieces = pieces ++ blank := by
  cases pieces with
  | nil => exact ⟨[], by simp, rfl⟩
  | cons piece rest =>
    rcases path.pieces_eq with hnil | ⟨first, texts, hsplit, -, hpieces⟩
    · rw [hnil] at h
      exact absurd (List.prefix_nil.mp h) (List.cons_ne_nil piece rest)
    · rw [hpieces, spelledPieces] at h
      obtain ⟨rfl, hrest⟩ := List.cons_prefix_cons.mp h
      obtain ⟨kept, hkept, rfl⟩ := List.prefix_map_iff.mp hrest
      by_cases hroot : first = [] ∧ kept = []
      · -- the root alone is written with a slash, behind which nothing stands
        obtain ⟨rfl, rfl⟩ := hroot
        exact ⟨[(none, [])], by simp [isEmptyPiece], by decide⟩
      · rw [not_and] at hroot
        refine ⟨[], by simp, ?_⟩
        rw [List.append_nil]
        refine pieces_ofPieces (fun text htext => ?_) hroot
        have hmem : text ∈ path.text.toList.splitOn '/' := by
          rw [hsplit]
          exact List.cons_subset_cons first hkept.subset htext
        exact (List.subset_and_not_mem_of_mem_splitOn hmem).2

/-! ## Ancestors -/

theorem ancestorPieces_append_of_isEmptyPiece {blank : List Piece}
    (h : ∀ piece ∈ blank, isEmptyPiece piece = true) (pieces : List Piece) :
    ancestorPieces (blank ++ pieces) = ancestorPieces pieces := by
  induction blank with
  | nil => rfl
  | cons piece blank ih =>
    rw [List.forall_mem_cons] at h
    obtain ⟨_ | component, text⟩ := piece
    · exact ih h.2
    · exact absurd h.1 Bool.false_ne_true

theorem ancestorPieces_dropWhile (pieces : List Piece) :
    ancestorPieces (pieces.dropWhile isEmptyPiece) = ancestorPieces pieces := by
  have hblank : ∀ piece ∈ pieces.takeWhile isEmptyPiece, isEmptyPiece piece = true :=
    List.all_eq_true.mp List.all_takeWhile
  rw [← ancestorPieces_append_of_isEmptyPiece hblank, List.takeWhile_append_dropWhile]

theorem ancestorPieces_cons_some {component : Component} (h : component ≠ .root)
    (text : List Char) (pieces : List Piece) :
    ancestorPieces ((some component, text) :: pieces) =
      pieces.dropWhile isEmptyPiece :: ancestorPieces pieces := by
  cases component with
  | root => exact absurd rfl h
  | current | parent | name => rfl

/-- Where pieces that stand for no component are dropped, one that does comes first. -/
theorem exists_component_of_dropWhile_eq {pieces rest : List Piece} {piece : Piece}
    (h : pieces.dropWhile isEmptyPiece = piece :: rest) :
    ∃ component text, piece = (some component, text) := by
  have hkept := List.head?_dropWhile_not isEmptyPiece pieces
  obtain ⟨_ | component, text⟩ := piece
  · simp [h, isEmptyPiece] at hkept
  · exact ⟨component, text, rfl⟩

/-- What is left of the pieces of a path without the last component belongs to the parent. -/
theorem parent?_eq_some_iff : path.parent? = some parent ↔ ∃ component text rest,
    component ≠ .root ∧ path.pieces.reverse.dropWhile isEmptyPiece = (some component, text) :: rest ∧
      parent = ofPieces (rest.dropWhile isEmptyPiece).reverse := by
  unfold parent?
  split
  · next h => simp [h]
  · next h => simp +contextual [h]
  · next piece rest hroot h =>
    obtain ⟨component, text, rfl⟩ := exists_component_of_dropWhile_eq h
    rw [h, Option.some.injEq]
    constructor
    · rintro rfl
      exact ⟨component, text, rest, fun heq => hroot text (by rw [heq]), rfl, rfl⟩
    · rintro ⟨_, _, _, -, heq, rfl⟩
      cases heq
      rfl

/-- The pieces that the parent is made of come first in the path. -/
theorem prefix_of_reverse_dropWhile_eq {piece : Piece} {rest : List Piece}
    (h : path.pieces.reverse.dropWhile isEmptyPiece = piece :: rest) :
    (rest.dropWhile isEmptyPiece).reverse <+: path.pieces := by
  rw [← List.reverse_suffix, List.reverse_reverse]
  have hrest : rest <:+ path.pieces.reverse :=
    (List.suffix_cons piece rest).trans (h ▸ List.dropWhile_suffix isEmptyPiece)
  exact (List.dropWhile_suffix isEmptyPiece).trans hrest

/-- Without a parent, a path is its only ancestor. -/
theorem ancestors_of_parent?_eq_none (h : path.parent? = none) : path.ancestors = [path] := by
  rw [ancestors, ← ancestorPieces_dropWhile]
  cases hdrop : path.pieces.reverse.dropWhile isEmptyPiece with
  | nil => rfl
  | cons piece rest =>
    obtain ⟨component, text, rfl⟩ := exists_component_of_dropWhile_eq hdrop
    have hroot : component = .root := by
      by_contra hne
      have hsome := parent?_eq_some_iff.mpr ⟨component, text, rest, hne, hdrop, rfl⟩
      rw [h] at hsome
      cases hsome
    rw [hroot]
    rfl

/-- The other ancestors of a path are those of its parent. -/
theorem ancestors_of_parent?_eq_some (h : path.parent? = some parent) :
    path.ancestors = path :: parent.ancestors := by
  obtain ⟨component, text, rest, hroot, hdrop, rfl⟩ := parent?_eq_some_iff.mp h
  obtain ⟨blank, hblank, hpieces⟩ :=
    exists_pieces_ofPieces_eq (prefix_of_reverse_dropWhile_eq hdrop)
  have hparent : ancestorPieces (ofPieces (rest.dropWhile isEmptyPiece).reverse).pieces.reverse =
      ancestorPieces rest := by
    rw [hpieces, List.reverse_append, List.reverse_reverse, ancestorPieces_append_of_isEmptyPiece,
      ancestorPieces_dropWhile]
    exact fun piece hpiece => hblank piece (List.mem_reverse.mp hpiece)
  have hpath : ancestorPieces path.pieces.reverse =
      rest.dropWhile isEmptyPiece :: ancestorPieces rest := by
    rw [← ancestorPieces_dropWhile, hdrop, ancestorPieces_cons_some hroot]
  rw [ancestors, hpath, ancestors, hparent, List.map_cons]

theorem filterMap_dropWhile (pieces : List Piece) :
    (pieces.dropWhile isEmptyPiece).filterMap (·.1) = pieces.filterMap (·.1) := by
  induction pieces with
  | nil => rfl
  | cons piece pieces ih =>
    obtain ⟨_ | component, text⟩ := piece
    · exact ih
    · rfl

/-- The components of a path are those of its parent, and one more. -/
theorem components_of_parent?_eq_some (h : path.parent? = some parent) :
    ∃ component, component ≠ .root ∧ path.components = parent.components ++ [component] := by
  obtain ⟨component, text, rest, hroot, hdrop, rfl⟩ := parent?_eq_some_iff.mp h
  obtain ⟨blank, hblank, hpieces⟩ :=
    exists_pieces_ofPieces_eq (prefix_of_reverse_dropWhile_eq hdrop)
  have hnone : blank.filterMap (·.1) = [] :=
    List.filterMap_eq_nil_iff.mpr fun piece hpiece => Option.isNone_iff_eq_none.mp
      (hblank piece hpiece)
  refine ⟨component, hroot, ?_⟩
  have hreverse : path.pieces.reverse.filterMap (·.1) = component :: rest.filterMap (·.1) := by
    rw [← filterMap_dropWhile, hdrop]
    rfl
  rw [components, components, hpieces, List.filterMap_append, hnone, List.append_nil,
    List.filterMap_reverse, filterMap_dropWhile, ← List.reverse_cons, ← hreverse,
    List.filterMap_reverse, List.reverse_reverse]

/-- What a path has if it has no parent, or if its parent has it, all paths have. -/
theorem parentInduction {motive : Path → Prop}
    (top : ∀ path, path.parent? = none → motive path)
    (below : ∀ path parent, path.parent? = some parent → motive parent → motive path)
    (path : Path) : motive path := by
  cases h : path.parent? with
  | none => exact top path h
  | some parent =>
    have hshorter : parent.components.length < path.components.length := by
      obtain ⟨component, -, hcomponents⟩ := components_of_parent?_eq_some h
      rw [hcomponents, List.length_append, List.length_singleton]
      exact Nat.lt_succ_self _
    exact below path parent h (parentInduction top below parent)
termination_by path.components.length

end RailsReview.Path
