import Mathlib.Data.List.DropRight
import RailsReview.Proofs.PathResolution

/-!
# Paths below a root, and the root taken off again

A path that is reached from an absolute root and then taken relative to that root is what was
followed from there, up to pieces at either end that stand for no component.  How the root is
written, and whether it ends in a slash, does not show.  A path that is relative already stays as
it is: it has no root in front that could be taken off.

Most paths of interest run along plain names with single slashes between them.  Their pieces all
stand for components, so nothing of them is lost.

* `Path.relativeTo_of_relative`: a relative path has nothing of a root.
* `Path.exists_pieces_join`: the pieces of a path below a root are those of the root and its own.
* `Path.relativeTo_join`: the root is taken off again.
* `Path.IsPlain`: paths along plain names.
* `Path.IsPlain.relativeTo_join_eq`: of such a path nothing else is taken off.
* `Path.IsPlain.documentOf`: the document of a source file on such a path stands on one too.
-/

namespace RailsReview

namespace Path

/-! ## Relative paths -/

theorem exists_ofFirstPiece?_cons (c : Char) (piece : List Char) :
    ∃ component, component ≠ .root ∧ Component.ofFirstPiece? (c :: piece) = some component := by
  unfold Component.ofFirstPiece? Component.ofPiece?
  split
  · next h => exact absurd h (List.cons_ne_nil c piece)
  split
  · exact ⟨.current, by decide, rfl⟩
  split
  · next hcurrent hblank =>
    rcases hblank with hblank | hblank
    · exact absurd hblank (List.cons_ne_nil c piece)
    · exact absurd hblank hcurrent
  split
  · exact ⟨.parent, by decide, rfl⟩
  · exact ⟨.name _, Component.noConfusion, rfl⟩

/-- A relative path has nothing of an absolute one that could be taken off. -/
theorem relativeTo_of_relative {path base : Path} (hpath : path.isAbsolute = false)
    (hbase : base.isAbsolute = true) : path.relativeTo base = path := by
  have hstrip : stripPieces path.pieces base.components = none := by
    rw [components_eq_of_isAbsolute hbase, pieces]
    cases htext : path.text.toList with
    | nil => rfl
    | cons c text =>
      have hc : ¬ (c == '/') = true := by
        rwa [isAbsolute, htext, List.head?_cons, ← Bool.not_eq_true, beq_iff_eq,
          Option.some.injEq, ← beq_iff_eq] at hpath
      obtain ⟨first, others, hsplit⟩ := List.exists_cons_of_ne_nil (List.splitOn_ne_nil '/' text)
      obtain ⟨component, hroot, hfirst⟩ := exists_ofFirstPiece?_cons c first
      rw [List.splitOn_cons_eq_if_modifyHead, if_neg hc, hsplit, List.modifyHead_cons]
      change stripPieces ((Component.ofFirstPiece? (c :: first), c :: first) :: _) _ = none
      rw [hfirst]
      exact if_neg hroot
  rw [relativeTo, strip?, hstrip]
  rfl

/-! ## Paths below a root -/

/-- A path that starts with a slash consists of the root and what stands behind the slash. -/
theorem pieces_of_splitOn_eq {path : Path} {texts : List (List Char)}
    (h : path.text.toList.splitOn '/' = [] :: texts) (htexts : texts ≠ []) :
    path.pieces = (some .root, []) :: texts.map pieceOf := by
  rw [pieces, h]
  cases texts with
  | nil => exact absurd rfl htexts
  | cons text texts => rfl

/-- A path below an absolute root stands behind the text of the root and a slash, which may be the
last one of the root. -/
theorem exists_toList_join {root : Path} (hroot : root.isAbsolute = true) :
    ∃ front, (root.text.toList = front ∨ root.text.toList = front ++ ['/']) ∧
      ∀ other : Path, other.isAbsolute = false →
        (root.join other).text.toList = front ++ '/' :: other.text.toList := by
  by_cases hslash : root.text.toList.getLast? = some '/'
  · obtain ⟨front, hfront⟩ := List.getLast?_eq_some_iff.mp hslash
    refine ⟨front, .inr hfront, fun other hother => ?_⟩
    rw [join_of_slash hother hslash, String.toList_append, hfront, List.append_assoc,
      List.singleton_append]
  · refine ⟨root.text.toList, .inl rfl, fun other hother => ?_⟩
    rw [join_of_no_slash (text_ne_of_isAbsolute hroot) hother hslash, String.toList_append,
      String.toList_append, List.append_assoc]
    rfl

/-- The pieces of a path below an absolute root are those of the root and then its own. -/
theorem exists_pieces_join {root : Path} (hroot : root.isAbsolute = true) :
    ∃ pieces, root.components = pieces.filterMap (·.1) ∧
      ∀ other : Path, other.isAbsolute = false →
        (root.join other).pieces = pieces ++ (other.text.toList.splitOn '/').map pieceOf := by
  obtain ⟨front, hfront, hjoin⟩ := exists_toList_join hroot
  obtain ⟨rest, hrest⟩ := exists_toList_eq_cons_of_isAbsolute hroot
  -- the text in front of the slash is empty or starts with a slash itself
  obtain ⟨texts, htexts⟩ : ∃ texts, front.splitOn '/' = [] :: texts := by
    cases front with
    | nil => exact ⟨[], List.splitOn_nil '/'⟩
    | cons c front =>
      have hc : c = '/' := by
        rcases hfront with hfront | hfront <;> exact (List.cons.inj (hfront.symm.trans hrest)).1
      exact ⟨front.splitOn '/', hc ▸ List.splitOn_append_cons_self [] front⟩
  refine ⟨(some .root, []) :: texts.map pieceOf, ?_, fun other hother => ?_⟩
  · have hcomponents : (root.text.toList.splitOn '/').filterMap Component.ofPiece? =
        texts.filterMap Component.ofPiece? := by
      rcases hfront with hfront | hfront
      · rw [hfront, htexts]
        rfl
      · rw [hfront, List.splitOn_append_cons_self, htexts, List.filterMap_append]
        exact List.append_nil _
    rw [components_eq_of_isAbsolute hroot, hcomponents]
    change Component.root :: _ = Component.root :: _
    rw [List.filterMap_map]
    rfl
  · have hsplit : (root.join other).text.toList.splitOn '/' =
        [] :: (texts ++ other.text.toList.splitOn '/') := by
      rw [hjoin other hother, List.splitOn_append_cons_self, htexts, List.cons_append]
    have hne : texts ++ other.text.toList.splitOn '/' ≠ [] :=
      List.append_ne_nil_of_right_ne_nil texts (List.splitOn_ne_nil '/' _)
    rw [pieces_of_splitOn_eq hsplit hne, List.map_append, List.cons_append]

/-- The text of a path that does not start at the root is that of its pieces. -/
theorem toList_ofPieces_cons {piece : Piece} (h : piece.1 ≠ some .root) (pieces : List Piece) :
    (ofPieces (piece :: pieces)).text.toList =
      ['/'].intercalate (piece.2 :: pieces.map (·.2)) := by
  rw [ofPieces, String.toList_ofList, List.map_cons]
  rintro text heq
  cases heq
  exact h rfl

/-- What is left of a path behind the root is relative. -/
theorem isAbsolute_ofPieces_trimPieces {texts : List (List Char)}
    (h : ∀ text ∈ texts, '/' ∉ text) :
    (ofPieces (trimPieces ((texts.map pieceOf).dropWhile isEmptyPiece))).isAbsolute = false := by
  have hprefix : trimPieces ((texts.map pieceOf).dropWhile isEmptyPiece) <+:
      (texts.map pieceOf).dropWhile isEmptyPiece := List.rdropWhile_prefix isEmptyPiece _
  cases htrim : trimPieces ((texts.map pieceOf).dropWhile isEmptyPiece) with
  | nil => rfl
  | cons piece pieces =>
    rw [htrim] at hprefix
    obtain ⟨rest, hdrop⟩ := hprefix
    rw [List.cons_append] at hdrop
    -- the first piece that is left stands for a component, so its text is not empty
    have hkept : isEmptyPiece piece = false := by
      have hhead := List.head?_dropWhile_not isEmptyPiece (texts.map pieceOf)
      rwa [← hdrop, List.head?_cons] at hhead
    have hmem : piece ∈ texts.map pieceOf :=
      (List.dropWhile_sublist isEmptyPiece).subset (hdrop ▸ List.mem_cons_self)
    obtain ⟨text, htext, rfl⟩ := List.mem_map.mp hmem
    cases text with
    | nil => exact absurd hkept (by decide)
    | cons c text =>
      have hroot : (pieceOf (c :: text)).1 ≠ some .root := by
        rw [pieceOf, Component.ofPiece?]
        split
        · exact (Option.some_ne_none _).symm
        split <;> exact fun heq => Component.noConfusion (Option.some.inj heq)
      have hc : c ≠ '/' := fun heq => h _ htext (heq ▸ List.mem_cons_self)
      rw [isAbsolute, toList_ofPieces_cons hroot, List.intercalate_singleton_cons, pieceOf,
        List.cons_append, List.head?_cons, beq_eq_false_iff_ne, ne_eq, Option.some.injEq]
      exact hc

/-- **The root is taken off again.**  What is left has lost only pieces at its ends that stand for
no component. -/
theorem relativeTo_join {root other : Path} (hroot : root.isAbsolute = true)
    (hother : other.isAbsolute = false) :
    (root.join other).relativeTo root = ofPieces (trimPieces
      (((other.text.toList.splitOn '/').map pieceOf).dropWhile isEmptyPiece)) := by
  obtain ⟨pieces, hcomponents, hjoin⟩ := exists_pieces_join hroot
  exact relativeTo_of_pieces_eq (hjoin other hother) hcomponents

end Path

/-! ## Plain names -/

/-- A name that is a component of its own between two slashes. -/
structure IsPlainName (name : String) : Prop where
  ne_nil : name.toList ≠ []
  ne_here : name.toList ≠ ['.']
  ne_above : name.toList ≠ ['.', '.']
  slash_not_mem : '/' ∉ name.toList

namespace IsPlainName

instance (name : String) : Decidable (IsPlainName name) :=
  decidable_of_iff
    (name.toList ≠ [] ∧ name.toList ≠ ['.'] ∧ name.toList ≠ ['.', '.'] ∧ '/' ∉ name.toList)
    ⟨fun ⟨ne_nil, ne_here, ne_above, slash_not_mem⟩ => ⟨ne_nil, ne_here, ne_above, slash_not_mem⟩,
      fun h => ⟨h.ne_nil, h.ne_here, h.ne_above, h.slash_not_mem⟩⟩

theorem pieceOf_eq {name : String} (h : IsPlainName name) :
    Path.pieceOf name.toList = (some (.name name), name.toList) := by
  have hblank : ¬ (name.toList = [] ∨ name.toList = ['.']) := not_or.mpr ⟨h.ne_nil, h.ne_here⟩
  rw [Path.pieceOf, Component.ofPiece?, if_neg hblank, if_neg h.ne_above, String.ofList_toList]

/-- A plain name stays plain with a longer ending that has no slash. -/
theorem append {name ending : String} (hending : 2 < ending.toList.length)
    (hslash : '/' ∉ ending.toList) (h : '/' ∉ name.toList) : IsPlainName (name ++ ending) := by
  have hlength : 2 < (name ++ ending).toList.length := by
    rw [String.toList_append, List.length_append]
    omega
  refine ⟨fun heq => ?_, fun heq => ?_, fun heq => ?_, ?_⟩
  · rw [heq] at hlength
    exact absurd hlength (by decide)
  · rw [heq] at hlength
    exact absurd hlength (by decide)
  · rw [heq] at hlength
    exact absurd hlength (by decide)
  · rw [String.toList_append, List.mem_append, not_or]
    exact ⟨h, hslash⟩

end IsPlainName

namespace Path

/-- The relative path along names, with single slashes between them. -/
def along (names : List String) : Path :=
  ⟨"/".intercalate names⟩

/-- The path of the document of a source file: its own path with the ending of documents. -/
def documentOf (source : Path) : Path :=
  ⟨source.text ++ Analyzer.documentSuffix⟩

variable {names : List String}

theorem toList_along (names : List String) :
    (along names).text.toList = ['/'].intercalate (names.map String.toList) :=
  String.toList_intercalate

/-- Between the slashes of a path along names stand the names. -/
theorem splitOn_along (h : ∀ name ∈ names, IsPlainName name) (hne : names ≠ []) :
    (along names).text.toList.splitOn '/' = names.map String.toList := by
  rw [toList_along]
  refine List.splitOn_intercalate '/' (List.forall_mem_map.mpr fun name hname => ?_)
    (mt List.map_eq_nil_iff.mp hne)
  exact (h name hname).slash_not_mem

theorem isAbsolute_along (h : ∀ name ∈ names, IsPlainName name) :
    (along names).isAbsolute = false := by
  cases names with
  | nil => rfl
  | cons name names =>
    have hname := h name List.mem_cons_self
    obtain ⟨c, rest, hcons⟩ := List.exists_cons_of_ne_nil hname.ne_nil
    have htext : (along (name :: names)).text.toList.head? = some c := by
      rw [toList_along, List.map_cons, List.intercalate_singleton_cons, hcons, List.cons_append,
        List.head?_cons]
    have hslash := hname.slash_not_mem
    rw [hcons, List.mem_cons, not_or] at hslash
    rw [isAbsolute, htext, beq_eq_false_iff_ne, ne_eq, Option.some.injEq]
    exact fun hc => hslash.1 hc.symm

/-- The pieces along plain names make up the path. -/
theorem ofPieces_map_names (names : List String) :
    ofPieces (names.map fun name => (some (Component.name name), name.toList)) = along names := by
  cases names with
  | nil => rfl
  | cons name names =>
    have hroot : (some (Component.name name), name.toList).1 ≠ some Component.root :=
      fun heq => Component.noConfusion (Option.some.inj heq)
    have htext : (ofPieces ((name :: names).map fun name =>
        (some (Component.name name), name.toList))).text = (along (name :: names)).text := by
      rw [← String.toList_inj, List.map_cons, toList_ofPieces_cons hroot, List.map_map,
        toList_along]
      rfl
    exact congrArg Path.mk htext

/-- Pieces that all stand for components are kept at both ends. -/
theorem trimPieces_dropWhile {pieces : List Piece}
    (h : ∀ piece ∈ pieces, isEmptyPiece piece = false) :
    trimPieces (pieces.dropWhile isEmptyPiece) = pieces := by
  have hkept : ∀ kept : List Piece, (∀ piece ∈ kept, isEmptyPiece piece = false) →
      kept.dropWhile isEmptyPiece = kept := by
    intro kept hkept
    cases kept with
    | nil => rfl
    | cons piece kept =>
      exact List.dropWhile_cons_of_neg (by rw [hkept piece List.mem_cons_self]; decide)
  have hreverse : ∀ piece ∈ pieces.reverse, isEmptyPiece piece = false := fun piece hpiece =>
    h piece (List.mem_reverse.mp hpiece)
  rw [trimPieces, hkept pieces h, hkept pieces.reverse hreverse, List.reverse_reverse]

/-- Pieces of plain names, without what stands for no component at their ends. -/
theorem ofPieces_trimPieces_names (h : ∀ name ∈ names, IsPlainName name) :
    ofPieces (trimPieces (((names.map String.toList).map pieceOf).dropWhile isEmptyPiece)) =
      along names := by
  have hpieces : (names.map String.toList).map pieceOf =
      names.map fun name => (some (Component.name name), name.toList) := by
    rw [List.map_map]
    exact List.map_congr_left fun name hname => (h name hname).pieceOf_eq
  have hkept : ∀ piece ∈ (names.map fun name => (some (Component.name name), name.toList)),
      isEmptyPiece piece = false :=
    List.forall_mem_map.mpr fun name _ => rfl
  rw [hpieces, trimPieces_dropWhile hkept, ofPieces_map_names]

/-- Behind the last of some plain names the ending of documents makes another plain name. -/
theorem exists_along_eq_documentOf (h : ∀ name ∈ names, IsPlainName name) :
    ∃ others, others ≠ [] ∧ (∀ name ∈ others, IsPlainName name) ∧
      (along names).documentOf = along others := by
  have hplain : ∀ name : String, '/' ∉ name.toList →
      IsPlainName (name ++ Analyzer.documentSuffix) := fun name =>
    IsPlainName.append (by decide) (by decide)
  induction names with
  | nil =>
    refine ⟨["" ++ Analyzer.documentSuffix], List.cons_ne_nil _ _, ?_, rfl⟩
    exact List.forall_mem_singleton.mpr (hplain "" (by decide))
  | cons name names ih =>
    rw [List.forall_mem_cons] at h
    cases names with
    | nil =>
      refine ⟨[name ++ Analyzer.documentSuffix], List.cons_ne_nil _ _, ?_, ?_⟩
      · exact List.forall_mem_singleton.mpr (hplain name h.1.slash_not_mem)
      · rw [documentOf, along, along, String.intercalate_singleton, String.intercalate_singleton]
    | cons next names =>
      obtain ⟨others, hne, hothers, heq⟩ := ih h.2
      obtain ⟨other, rest, rfl⟩ := List.exists_cons_of_ne_nil hne
      refine ⟨name :: other :: rest, List.cons_ne_nil _ _, List.forall_mem_cons.mpr ⟨h.1, hothers⟩,
        ?_⟩
      have htext : "/".intercalate (next :: names) ++ Analyzer.documentSuffix =
          "/".intercalate (other :: rest) := congrArg Path.text heq
      rw [documentOf, along, along, String.intercalate_cons_cons, String.intercalate_cons_cons,
        ← htext, String.append_assoc]

/-- The path runs along plain names, with single slashes between them. -/
def IsPlain (path : Path) : Prop :=
  ∃ names, (∀ name ∈ names, IsPlainName name) ∧ path = along names

namespace IsPlain

theorem isAbsolute_eq {path : Path} (h : path.IsPlain) : path.isAbsolute = false := by
  obtain ⟨names, hnames, rfl⟩ := h
  exact isAbsolute_along hnames

/-- **Below a root, a plain path is found again.** -/
theorem relativeTo_join_eq {root path : Path} (hroot : root.isAbsolute = true) (h : path.IsPlain) :
    (root.join path).relativeTo root = path := by
  rw [relativeTo_join hroot h.isAbsolute_eq]
  obtain ⟨names, hnames, rfl⟩ := h
  by_cases hne : names = []
  · subst hne
    rfl
  · rw [splitOn_along hnames hne, ofPieces_trimPieces_names hnames]

/-- The document of a source file on a plain path stands on a plain path. -/
theorem documentOf {source : Path} (h : source.IsPlain) : source.documentOf.IsPlain := by
  obtain ⟨names, hnames, rfl⟩ := h
  obtain ⟨others, -, hothers, heq⟩ := exists_along_eq_documentOf hnames
  exact ⟨others, hothers, heq⟩

end IsPlain

end Path

end RailsReview
