import RailsReview.FileTree
import RailsReview.Proofs.Relocation

/-!
# Following paths

Resolving a path leads along names without detours, and the path that is written with these names
leads to the same place.  This is what makes the canonical path of a directory a path of that
directory.

One invariant carries all of it, `FileSystem.Leads`: the names are names that an entry can have, and
there is something where they lead.  Every step along a piece of a path keeps it.

* `FileTree.find?_append`: names are followed one after the other.
* `FileSystem.leads_of_step`, `FileSystem.leads_of_foldlM_step`, `FileSystem.leads_of_resolve`:
  resolving keeps the invariant.
* `FileSystem.walk_join`: a walk along a path below another one.
* `FileSystem.resolve_pathOf`: names that lead somewhere are resolved to themselves.
* `FileSystem.resolve_join_eq_ok_iff`: a path below another one is resolved from there.
* `FileSystem.find_canonical_join`: an entry of a directory is an entry of its canonical path.
* `FileSystem.samePlace_join_here`: a directory and its `.` are one place.
-/

namespace RailsReview

namespace FileTree

/-- Names are followed one after the other. -/
theorem find?_append (names more : List String) (tree : FileTree) :
    find? (names ++ more) tree = (find? names tree).bind (find? more) := by
  induction names generalizing tree with
  | nil => rfl
  | cons name names ih =>
    rw [List.cons_append, find?, find?]
    cases tree.entries.lookup name with
    | none => rfl
    | some next => exact ih next

end FileTree

namespace Path

variable {path other : Path}

theorem join_of_slash (hother : other.isAbsolute = false)
    (hslash : path.text.toList.getLast? = some '/') :
    path.join other = ⟨path.text ++ other.text⟩ := by
  rw [join, hother, hslash]
  simp

theorem join_of_no_slash (hpath : path.text ≠ "") (hother : other.isAbsolute = false)
    (hslash : path.text.toList.getLast? ≠ some '/') :
    path.join other = ⟨path.text ++ "/" ++ other.text⟩ := by
  rw [join, hother]
  simp [hpath, hslash]

/-- The text of a path below another one begins and ends with the texts of the two. -/
theorem exists_text_join (hpath : path.text ≠ "") (hother : other.isAbsolute = false) :
    ∃ gap, (gap = "" ∨ gap = "/") ∧ (path.join other).text = path.text ++ (gap ++ other.text) := by
  by_cases hslash : path.text.toList.getLast? = some '/'
  · exact ⟨"", .inl rfl, by rw [join_of_slash hother hslash, String.empty_append]⟩
  · exact ⟨"/", .inr rfl, by rw [join_of_no_slash hpath hother hslash, String.append_assoc]⟩

/-- A path below another one starts where that one does. -/
theorem isAbsolute_join_eq (hpath : path.text ≠ "") (hother : other.isAbsolute = false) :
    (path.join other).isAbsolute = path.isAbsolute := by
  obtain ⟨gap, -, htext⟩ := exists_text_join hpath hother
  have hne : path.text.toList ≠ [] := mt String.toList_eq_nil_iff.mp hpath
  rw [isAbsolute, isAbsolute, htext, String.toList_append, List.head?_append_of_ne_nil _ hne]

theorem text_ne_of_isAbsolute (h : path.isAbsolute = true) : path.text ≠ "" := by
  rintro hempty
  rw [isAbsolute, hempty] at h
  exact absurd h Bool.false_ne_true

/-- A `.` at the end of a path is no component of it. -/
theorem components_join_here (h : path.isAbsolute = true) :
    (path.join ⟨"."⟩).components = path.components := by
  have htext := text_ne_of_isAbsolute h
  have hjoin : (path.join ⟨"."⟩).isAbsolute = true := isAbsolute_join h
  rw [components_eq_of_isAbsolute h, components_eq_of_isAbsolute hjoin]
  congr 1
  by_cases hslash : path.text.toList.getLast? = some '/'
  · obtain ⟨front, hfront⟩ := List.getLast?_eq_some_iff.mp hslash
    have hsplit : ∀ rest, (front ++ '/' :: rest).splitOn '/' =
        front.splitOn '/' ++ rest.splitOn '/' := List.splitOn_append_cons_self front
    rw [join_of_slash rfl hslash, String.toList_append, hfront, List.append_assoc,
      List.singleton_append, hsplit, hsplit, List.filterMap_append, List.filterMap_append]
    rfl
  · have hsplit : (path.text.toList ++ '/' :: ['.']).splitOn '/' =
        path.text.toList.splitOn '/' ++ [['.']] := List.splitOn_append_cons_self ..
    rw [join_of_no_slash htext rfl hslash, String.toList_append, String.toList_append,
      List.append_assoc]
    change ((path.text.toList ++ '/' :: ['.']).splitOn '/').filterMap _ = _
    rw [hsplit, List.filterMap_append]
    exact List.append_nil _

/-- A relative path is put behind another one in a way that depends on that one alone. -/
theorem exists_join_eq (base : Path) :
    ∃ front, ∀ path : Path, path.isAbsolute = false → base.join path = ⟨front ++ path.text⟩ := by
  by_cases hbase : (base.text.isEmpty || base.text.toList.getLast? == some '/') = true
  · refine ⟨base.text, fun path hpath => ?_⟩
    rw [join, hpath, if_neg Bool.false_ne_true, if_pos hbase]
  · refine ⟨base.text ++ "/", fun path hpath => ?_⟩
    rw [join, hpath, if_neg Bool.false_ne_true, if_neg hbase]

/-- Following two paths one after the other is following them joined. -/
theorem join_assoc (base : Path) (hpath : path.text ≠ "") (hother : other.isAbsolute = false) :
    base.join (path.join other) = (base.join path).join other := by
  have hjoin := isAbsolute_join_eq hpath hother
  cases habsolute : path.isAbsolute with
  | true =>
    rw [habsolute] at hjoin
    rw [join, hjoin, if_pos rfl, join.eq_def base, habsolute, if_pos rfl]
  | false =>
    rw [habsolute] at hjoin
    obtain ⟨front, hfront⟩ := exists_join_eq base
    have hne : front ++ path.text ≠ "" := fun h => hpath (String.append_eq_empty_iff.mp h).2
    have hlast : (front ++ path.text).toList.getLast? = path.text.toList.getLast? := by
      rw [String.toList_append,
        List.getLast?_append_of_ne_nil _ (mt String.toList_eq_nil_iff.mp hpath)]
    rw [hfront _ hjoin, hfront _ habsolute]
    by_cases hslash : path.text.toList.getLast? = some '/'
    · rw [join_of_slash hother hslash, join_of_slash hother (hlast.trans hslash),
        String.append_assoc]
    · rw [join_of_no_slash hpath hother hslash,
        join_of_no_slash hne hother (hlast ▸ hslash), String.append_assoc, String.append_assoc,
        String.append_assoc]

end Path

/-- A text that an entry of a directory can have as its name. -/
structure IsEntryName (name : String) : Prop where
  ne_nil : name.toList ≠ []
  ne_here : name.toList ≠ ['.']
  ne_above : name.toList ≠ ['.', '.']
  slash_not_mem : '/' ∉ name.toList
  null_not_mem : '\x00' ∉ name.toList
  size_le : name.utf8ByteSize ≤ FileSystem.maxNameSize

/-- A name is no absolute path. -/
theorem IsEntryName.isAbsolute_eq {name : String} (h : IsEntryName name) :
    Path.isAbsolute ⟨name⟩ = false := by
  rw [Path.isAbsolute, beq_eq_false_iff_ne]
  exact fun hhead => h.slash_not_mem (List.mem_of_head? hhead)

namespace FileSystem

/-- The names could be those of entries, and there is something where they lead. -/
structure Leads (files : FileSystem) (names : List String) : Prop where
  isEntryName : ∀ name ∈ names, IsEntryName name
  isSome_find? : (files.tree.find? names).isSome = true

variable {files : FileSystem}

theorem leads_nil : files.Leads [] :=
  ⟨fun _ h => absurd h List.not_mem_nil, rfl⟩

/-- Something is on the way to everything. -/
theorem Leads.of_append {names more : List String} (h : files.Leads (names ++ more)) :
    files.Leads names := by
  refine ⟨fun name hname => h.isEntryName name (List.mem_append_left more hname), ?_⟩
  have hfind := h.isSome_find?
  rw [FileTree.find?_append] at hfind
  exact Option.isSome_of_isSome_bind hfind

/-! ## Steps -/

theorem step_eq_of_blank {here : List String} {piece : List Char} (h : piece = [] ∨ piece = ['.'])
    {entries : List (String × FileTree)}
    (hhere : files.tree.find? here = some (.directory entries)) :
    files.step here piece = .ok here := by
  unfold step
  rw [hhere]
  exact if_pos h

/-- Before a step nothing changes where a piece is empty. -/
theorem step_nil_bind_step (here : List String) (piece : List Char) :
    ((files.step here []).bind fun next => files.step next piece) = files.step here piece := by
  cases hhere : files.tree.find? here with
  | none =>
    unfold step
    rw [hhere]
    rfl
  | some tree =>
    cases tree with
    | directory entries =>
      rw [step_eq_of_blank (.inl rfl) hhere]
      rfl
    | text content =>
      unfold step
      rw [hhere]
      rfl
    | binary =>
      unfold step
      rw [hhere]
      rfl

theorem step_nil_bind_foldlM (here : List String) {pieces : List (List Char)} (h : pieces ≠ []) :
    ((files.step here []).bind fun next => pieces.foldlM files.step next) =
      pieces.foldlM files.step here := by
  cases pieces with
  | nil => exact absurd rfl h
  | cons piece pieces =>
    change ((files.step here []).bind fun next =>
      (files.step next piece).bind fun next => pieces.foldlM files.step next) =
        (files.step here piece).bind fun next => pieces.foldlM files.step next
    rw [← step_nil_bind_step here piece]
    cases files.step here [] <;> rfl

/-- A step along a name leads to the entry of that name. -/
theorem step_entryName {here : List String} {name : String} (hname : IsEntryName name)
    {entries : List (String × FileTree)}
    (hhere : files.tree.find? here = some (.directory entries)) :
    files.step here name.toList =
      if (entries.lookup name).isSome then .ok (here ++ [name]) else .error .notFound := by
  unfold step
  rw [hhere]
  simp only [hname.ne_nil, hname.ne_here, hname.ne_above, or_self, if_false, String.ofList_toList,
    Nat.not_lt.mpr hname.size_le]

/-- Where names lead, a step along the last one leads from the others. -/
theorem step_last {here : List String} {name : String} (h : files.Leads (here ++ [name])) :
    files.step here name.toList = .ok (here ++ [name]) := by
  have hname : IsEntryName name := h.isEntryName name (by simp)
  have hfind := h.isSome_find?
  rw [FileTree.find?_append] at hfind
  cases hhere : files.tree.find? here with
  | none =>
    rw [hhere] at hfind
    exact absurd hfind Bool.false_ne_true
  | some tree =>
    rw [hhere, Option.bind_some, FileTree.find?] at hfind
    have hentry : (tree.entries.lookup name).isSome = true := Option.isSome_of_isSome_bind hfind
    -- Only a directory has entries.
    cases tree with
    | text content => exact absurd hentry Bool.false_ne_true
    | binary => exact absurd hentry Bool.false_ne_true
    | directory entries =>
      rw [step_entryName hname hhere]
      exact if_pos hentry

/-- A step along a name leads nowhere else. -/
theorem eq_of_step_name {here next : List String} {name : String} (hname : IsEntryName name)
    (h : files.step here name.toList = .ok next) : next = here ++ [name] := by
  have hstep := h
  unfold step at h
  split at h
  · next entries hentries =>
    rw [step_entryName hname hentries] at hstep
    split at hstep
    · exact (Except.ok.inj hstep).symm
    · cases hstep
  · cases h
  · cases h

theorem isEntryName_ofList {piece : List Char} (hblank : ¬ (piece = [] ∨ piece = ['.']))
    (habove : piece ≠ ['.', '.']) (hslash : '/' ∉ piece) (hnull : '\x00' ∉ piece)
    (hsize : (String.ofList piece).utf8ByteSize ≤ maxNameSize) :
    IsEntryName (String.ofList piece) := by
  rw [not_or] at hblank
  refine ⟨?_, ?_, ?_, ?_, ?_, hsize⟩ <;> rw [String.toList_ofList]
  · exact hblank.1
  · exact hblank.2
  · exact habove
  · exact hslash
  · exact hnull

/-- An entry of a directory that names lead to is led to as well. -/
theorem Leads.append_singleton {here : List String} (h : files.Leads here) {name : String}
    (hname : IsEntryName name) {entries : List (String × FileTree)}
    (hentries : files.tree.find? here = some (.directory entries))
    (hentry : (entries.lookup name).isSome = true) : files.Leads (here ++ [name]) := by
  constructor
  · intro other hother
    rcases List.mem_append.mp hother with hother | hother
    · exact h.isEntryName other hother
    · rw [List.mem_singleton.mp hother]
      exact hname
  · rw [FileTree.find?_append, hentries, Option.bind_some, FileTree.find?]
    change ((entries.lookup name).bind some).isSome = true
    rw [Option.bind_fun_some]
    exact hentry

/-- **What a step preserves.** -/
theorem leads_of_step {here next : List String} {piece : List Char} (hhere : files.Leads here)
    (hslash : '/' ∉ piece) (hnull : '\x00' ∉ piece) (h : files.step here piece = .ok next) :
    files.Leads next := by
  unfold step at h
  split at h
  · next entries hentries =>
    split at h
    · cases h
      exact hhere
    · next hblank =>
      split at h
      · cases h
        -- `..` leads back along the names, and not beyond the root.
        rcases List.eq_nil_or_concat' here with rfl | ⟨names, name, rfl⟩
        · exact leads_nil
        · rw [List.dropLast_concat]
          exact hhere.of_append
      · next habove =>
        dsimp only at h
        split at h
        · cases h
        · next hsize =>
          split at h
          · next hentry =>
            cases h
            exact hhere.append_singleton
              (isEntryName_ofList hblank habove hslash hnull (Nat.not_lt.mp hsize)) hentries hentry
          · cases h
  · cases h
  · cases h

/-! ## Walks -/

/-- The names after all pieces of a path. -/
def walk (files : FileSystem) (start : List String) (path : Path) :
    Except ReadError (List String) :=
  (path.text.toList.splitOn '/').foldlM files.step start

/-- A path without a slash is walked along in one step. -/
theorem walk_eq_step (here : List String) {path : Path} (h : '/' ∉ path.text.toList) :
    files.walk here path = files.step here path.text.toList := by
  rw [walk, List.splitOn_eq_singleton h, List.foldlM_cons]
  cases files.step here path.text.toList <;> rfl

/-- The names at which a path starts. -/
def startOf (files : FileSystem) (path : Path) : List String :=
  if path.isAbsolute then [] else files.current

/-- The text of a path is one that is followed at all. -/
structure Fits (path : Path) : Prop where
  null_not_mem : '\x00' ∉ path.text.toList
  text_ne : path.text ≠ ""
  size_le : path.text.utf8ByteSize ≤ maxPathSize

theorem resolve_eq_ok_iff {path : Path} {names : List String} :
    files.resolve path = .ok names ↔
      Fits path ∧ files.walk (files.startOf path) path = .ok names := by
  unfold resolve
  split
  · next h => exact iff_of_false (by simp) fun hfits => hfits.1.null_not_mem (by simpa using h)
  · next hnull =>
    split
    · next h => exact iff_of_false (by simp) fun hfits => hfits.1.text_ne (by simpa using h)
    · next hempty =>
      split
      · next h => exact iff_of_false (by simp) fun hfits => absurd hfits.1.size_le (by omega)
      · next hsize =>
        have hfits : Fits path := ⟨by simpa using hnull, by simpa using hempty, by omega⟩
        exact (and_iff_right hfits).symm

/-- **What a walk preserves.** -/
theorem leads_of_foldlM_step {pieces : List (List Char)} {here names : List String}
    (hpieces : ∀ piece ∈ pieces, '/' ∉ piece ∧ '\x00' ∉ piece) (hhere : files.Leads here)
    (h : pieces.foldlM files.step here = .ok names) : files.Leads names := by
  induction pieces generalizing here with
  | nil =>
    cases h
    exact hhere
  | cons piece pieces ih =>
    rw [List.foldlM_cons] at h
    cases hstep : files.step here piece with
    | error cause =>
      rw [hstep] at h
      cases h
    | ok next =>
      rw [hstep] at h
      obtain ⟨hslash, hnull⟩ := hpieces piece List.mem_cons_self
      exact ih (fun other hother => hpieces other (List.mem_cons_of_mem piece hother))
        (leads_of_step hhere hslash hnull hstep) h

/-- What is resolved leads somewhere. -/
theorem leads_of_resolve (hcurrent : files.Leads files.current) {path : Path}
    {names : List String} (h : files.resolve path = .ok names) : files.Leads names := by
  obtain ⟨hfits, hwalk⟩ := resolve_eq_ok_iff.mp h
  have hstart : files.Leads (files.startOf path) := by
    unfold startOf
    split
    · exact leads_nil
    · exact hcurrent
  refine leads_of_foldlM_step (fun piece hpiece => ?_) hstart hwalk
  obtain ⟨hsubset, hslash⟩ := List.subset_and_not_mem_of_mem_splitOn hpiece
  exact ⟨hslash, fun hnull => hfits.null_not_mem (hsubset hnull)⟩

/-! ## Below a path -/

variable {path other : Path}

/-- A path is followed as long as one below it is. -/
theorem Fits.of_join (hpath : path.text ≠ "") (hother : other.isAbsolute = false)
    (h : Fits (path.join other)) : Fits path := by
  obtain ⟨gap, -, htext⟩ := Path.exists_text_join hpath hother
  have hnull := h.null_not_mem
  have hsize := h.size_le
  rw [htext, String.toList_append, List.mem_append, not_or] at hnull
  rw [htext, String.utf8ByteSize_append] at hsize
  exact ⟨hnull.1, hpath, by omega⟩

/-- A path below one that is followed is followed, unless it is too long. -/
theorem Fits.join (h : Fits path) (hother : other.isAbsolute = false)
    (hnull : '\x00' ∉ other.text.toList)
    (hsize : (path.join other).text.utf8ByteSize ≤ maxPathSize) : Fits (path.join other) := by
  obtain ⟨gap, hgap, htext⟩ := Path.exists_text_join h.text_ne hother
  have hgapnull : '\x00' ∉ gap.toList := by
    rcases hgap with rfl | rfl <;> decide
  refine ⟨?_, fun hempty => h.text_ne ?_, hsize⟩
  · rw [htext, String.toList_append, String.toList_append, List.mem_append, List.mem_append]
    rintro (hmem | hmem | hmem)
    · exact h.null_not_mem hmem
    · exact hgapnull hmem
    · exact hnull hmem
  · rw [htext, String.append_eq_empty_iff] at hempty
    exact hempty.1

/-- A walk along a path below another one leads along that one first.  A slash at its end makes no
difference, since the walk goes on from there. -/
theorem walk_join (start : List String) (hpath : path.text ≠ "")
    (hother : other.isAbsolute = false) :
    files.walk start (path.join other) =
      (files.walk start path).bind fun here => files.walk here other := by
  by_cases hslash : path.text.toList.getLast? = some '/'
  · obtain ⟨front, hfront⟩ := List.getLast?_eq_some_iff.mp hslash
    have hbelow : (front ++ '/' :: other.text.toList).splitOn '/' =
        front.splitOn '/' ++ other.text.toList.splitOn '/' := List.splitOn_append_cons_self ..
    have habove : (front ++ ['/']).splitOn '/' = front.splitOn '/' ++ [[]] :=
      List.splitOn_append_cons_self ..
    rw [Path.join_of_slash hother hslash, walk, walk, String.toList_append, hfront,
      List.append_assoc, List.singleton_append, hbelow, habove, List.foldlM_append, List.foldlM_append]
    cases (front.splitOn '/').foldlM files.step start with
    | error cause => rfl
    | ok here =>
      -- The path above ends in an empty piece, which the first step below makes up for.
      change (other.text.toList.splitOn '/').foldlM files.step here =
        ((files.step here []).bind .ok).bind fun next =>
          (other.text.toList.splitOn '/').foldlM files.step next
      rw [← step_nil_bind_foldlM here (List.splitOn_ne_nil '/' other.text.toList)]
      cases files.step here [] <;> rfl
  · have hsplit : (path.text.toList ++ '/' :: other.text.toList).splitOn '/' =
        path.text.toList.splitOn '/' ++ other.text.toList.splitOn '/' :=
      List.splitOn_append_cons_self ..
    rw [Path.join_of_no_slash hpath hother hslash, walk, walk, String.toList_append,
      String.toList_append, List.append_assoc]
    change ((path.text.toList ++ '/' :: other.text.toList).splitOn '/').foldlM files.step start = _
    rw [hsplit, List.foldlM_append]
    rfl

/-- **A path below another one is resolved from there.** -/
theorem resolve_join_eq_ok_iff (hpath : path.text ≠ "") (hother : other.isAbsolute = false)
    {names : List String} :
    files.resolve (path.join other) = .ok names ↔
      Fits (path.join other) ∧
        ∃ here, files.resolve path = .ok here ∧ files.walk here other = .ok names := by
  have hstart : files.startOf (path.join other) = files.startOf path := by
    rw [startOf, startOf, Path.isAbsolute_join_eq hpath hother]
  rw [resolve_eq_ok_iff, hstart, walk_join _ hpath hother]
  constructor
  · rintro ⟨hfits, hwalk⟩
    cases hhere : files.walk (files.startOf path) path with
    | error cause =>
      rw [hhere] at hwalk
      cases hwalk
    | ok here =>
      rw [hhere] at hwalk
      exact ⟨hfits, here, resolve_eq_ok_iff.mpr ⟨hfits.of_join hpath hother, hhere⟩, hwalk⟩
  · rintro ⟨hfits, here, hhere, hwalk⟩
    rw [(resolve_eq_ok_iff.mp hhere).2]
    exact ⟨hfits, hwalk⟩

/-! ## Paths along names -/

/-- In the path along names every name stands behind a slash. -/
theorem toList_pathOf {names : List String} (h : names ≠ []) :
    (pathOf names).text.toList = (names.map String.toList).flatMap ('/' :: ·) := by
  cases names with
  | nil => exact absurd rfl h
  | cons name names =>
    rw [pathOf, String.toList_append, String.toList_intercalate]
    change '/' :: ['/'].intercalate ((name :: names).map String.toList) = _
    rw [List.map_cons, List.intercalate_singleton_cons, List.flatMap_cons, List.cons_append]

theorem isAbsolute_pathOf (names : List String) : (pathOf names).isAbsolute = true := by
  rw [Path.isAbsolute, pathOf, String.toList_append]
  rfl

/-- What is reached from the current directory is absolute. -/
theorem isAbsolute_currentPath_join (files : FileSystem) (path : Path) :
    (files.currentPath.join path).isAbsolute = true :=
  Path.isAbsolute_join (isAbsolute_pathOf files.current)

/-- The path along one more name. -/
theorem join_pathOf {names : List String} {name : String}
    (hnames : ∀ name ∈ names, IsEntryName name) (hname : IsEntryName name) :
    (pathOf names).join ⟨name⟩ = pathOf (names ++ [name]) := by
  rcases List.eq_nil_or_concat' names with rfl | ⟨front, last, rfl⟩
  · rw [Path.join_of_slash hname.isAbsolute_eq rfl]
    simp [pathOf]
  · have hlast : IsEntryName last := hnames last (by simp)
    have hne : front ++ [last] ≠ [] := List.append_ne_nil_of_right_ne_nil front (by simp)
    have hslash : (pathOf (front ++ [last])).text.toList.getLast? ≠ some '/' := by
      rw [toList_pathOf hne, List.map_append, List.flatMap_append, List.map_singleton,
        List.flatMap_singleton, List.getLast?_append_of_ne_nil _ (List.cons_ne_nil _ _),
        List.getLast?_cons_of_ne_nil hlast.ne_nil]
      exact fun h => hlast.slash_not_mem (List.mem_of_getLast? h)
    have htext : (pathOf (front ++ [last])).text ≠ "" := by
      rw [← String.toList_eq_nil_iff.ne, toList_pathOf hne]
      simp
    rw [Path.join_of_no_slash htext hname.isAbsolute_eq hslash]
    have hlists : (Path.mk ((pathOf (front ++ [last])).text ++ "/" ++ name)).text.toList =
        (pathOf (front ++ [last] ++ [name])).text.toList := by
      rw [String.toList_append, String.toList_append, toList_pathOf hne,
        toList_pathOf (List.append_ne_nil_of_right_ne_nil _ (by simp)), List.map_append,
        List.map_append, List.flatMap_append]
      simp
    exact congrArg Path.mk (String.toList_inj.mp hlists)

/-- A walk along names leads along them. -/
theorem foldlM_step_names {here names : List String} (h : files.Leads (here ++ names)) :
    (names.map String.toList).foldlM files.step here = .ok (here ++ names) := by
  induction names generalizing here with
  | nil =>
    rw [List.append_nil]
    rfl
  | cons name names ih =>
    rw [List.append_cons here name names] at h ⊢
    rw [List.map_cons, List.foldlM_cons, step_last h.of_append]
    exact ih h

/-- **Names that lead somewhere are resolved to themselves.** -/
theorem resolve_pathOf {names : List String} (hne : names ≠ []) (h : files.Leads names)
    (hsize : (pathOf names).text.utf8ByteSize ≤ maxPathSize) :
    files.resolve (pathOf names) = .ok names := by
  have htexts : names.map String.toList ≠ [] := mt List.map_eq_nil_iff.mp hne
  obtain ⟨rest, hrest, hsplit⟩ := List.exists_flatMap_cons_eq_cons '/' htexts
  have hpieces : (pathOf names).text.toList.splitOn '/' = [] :: names.map String.toList := by
    have hnames : ∀ text ∈ names.map String.toList, text.splitOn '/' = [text] := by
      refine List.forall_mem_map.mpr fun name hname => ?_
      exact List.splitOn_eq_singleton (h.isEntryName name hname).slash_not_mem
    rw [List.flatMap_congr hnames, List.flatMap_singleton'] at hsplit
    rw [toList_pathOf hne, hrest, ← hsplit]
    exact List.splitOn_append_cons_self [] rest
  have hfits : Fits (pathOf names) := by
    refine ⟨fun hnull => ?_, fun hempty => ?_, hsize⟩
    · rw [toList_pathOf hne, List.flatMap_map, List.mem_flatMap] at hnull
      obtain ⟨name, hname, hnull⟩ := hnull
      rcases List.mem_cons.mp hnull with hslash | hnull
      · exact absurd hslash (by decide)
      · exact (h.isEntryName name hname).null_not_mem hnull
    · rw [← String.toList_eq_nil_iff, toList_pathOf hne, hrest] at hempty
      cases hempty
  rw [resolve_eq_ok_iff, startOf, isAbsolute_pathOf, if_pos rfl, walk, hpieces, List.foldlM_cons]
  refine ⟨hfits, ?_⟩
  change ((files.step [] []).bind fun next => (names.map String.toList).foldlM files.step next) = _
  rw [step_nil_bind_foldlM [] htexts]
  exact foldlM_step_names h

theorem find_eq_ok_iff {path : Path} {tree : FileTree} :
    files.find path = .ok tree ↔
      ∃ names, files.resolve path = .ok names ∧ files.tree.find? names = some tree := by
  unfold find
  cases files.resolve path with
  | error cause => simp [Except.bind]
  | ok names =>
    cases hfind : files.tree.find? names with
    | none => simp [Except.bind, hfind]
    | some found => simp [Except.bind, hfind]

/-- **An entry of a directory is an entry of its canonical path,** unless that is too long. -/
theorem find_canonical_join (hcurrent : files.Leads files.current) {directory : Path}
    (hdirectory : directory.text ≠ "") {name : String} (hname : IsEntryName name)
    (hsize : ((files.canonical directory).join ⟨name⟩).text.utf8ByteSize ≤ maxPathSize)
    {tree : FileTree} (h : files.find (directory.join ⟨name⟩) = .ok tree) :
    files.find ((files.canonical directory).join ⟨name⟩) = .ok tree := by
  obtain ⟨names, hresolve, htree⟩ := find_eq_ok_iff.mp h
  have hnames : files.Leads names := leads_of_resolve hcurrent hresolve
  obtain ⟨-, here, hhere, hwalk⟩ :=
    (resolve_join_eq_ok_iff hdirectory hname.isAbsolute_eq).mp hresolve
  -- The last step is along the name, so the names end in it.
  rw [walk_eq_step here hname.slash_not_mem] at hwalk
  obtain rfl : names = here ++ [name] := eq_of_step_name hname hwalk
  have hcanonical : files.canonical directory = pathOf here := by
    rw [canonical, hhere]
  have hjoin : (pathOf here).join ⟨name⟩ = pathOf (here ++ [name]) :=
    join_pathOf hnames.of_append.isEntryName hname
  rw [hcanonical, hjoin] at hsize ⊢
  have hne : here ++ [name] ≠ [] := List.append_ne_nil_of_right_ne_nil here (by simp)
  exact find_eq_ok_iff.mpr ⟨here ++ [name], resolve_pathOf hne hnames hsize, htree⟩

/-! ## A directory and its dot -/

/-- The path of the `.` of a directory. -/
theorem samePlace_join_here {path : Path} (habsolute : path.isAbsolute = true)
    {entries : List (String × FileTree)} (h : files.find path = .ok (.directory entries))
    (hsize : (path.join ⟨"."⟩).text.utf8ByteSize ≤ maxPathSize) :
    SamePlace files (path.join ⟨"."⟩) path := by
  have htext : path.text ≠ "" := Path.text_ne_of_isAbsolute habsolute
  constructor
  · exact Path.components_join_here habsolute
  · obtain ⟨names, hresolve, htree⟩ := find_eq_ok_iff.mp h
    have hfits : Fits (path.join ⟨"."⟩) :=
      (resolve_eq_ok_iff.mp hresolve).1.join rfl (by decide) hsize
    have hwalk : files.walk names ⟨"."⟩ = .ok names := by
      rw [walk_eq_step names (by decide)]
      exact step_eq_of_blank (.inr rfl) htree
    rw [h, find_eq_ok_iff]
    exact ⟨names, (resolve_join_eq_ok_iff htext rfl).mpr ⟨hfits, names, hresolve, hwalk⟩, htree⟩

end FileSystem

end RailsReview
