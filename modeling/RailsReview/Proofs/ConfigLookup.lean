import RailsReview.Project
import RailsReview.Proofs.ParentPaths

/-!
# Which configuration applies

A path that was given comes first, then the project file of the nearest directory at or above the
start that has one, then the file of the user, then the defaults.  How near a directory is counts
before the name of its file: the dotted file of a directory comes before the plain one of its parent.

The order is said as a relation between a start and a source, from one directory to its parent, and the
lookup is a search through the list of all ancestors.

* `ConfigSource.findIn_eq_some_iff`: the project file of one directory.
* `ConfigSource.findAbove_eq_some_iff`: the project file that a directory has or inherits.
* `ConfigSource.applies_lookup`, `ConfigSource.Applies.lookup_eq`: the lookup finds the source that
  applies.
* `ConfigSource.followsPrecedence`: all of it, with the file that a project is checked with.
-/

namespace RailsReview.ConfigSource

variable {files : FileSystem} {directory start path : Path} {given shared : Option Path}

/-! ## Project files -/

/-- A path leads to a file, and not to a directory. -/
def HoldsFile (files : FileSystem) (path : Path) : Prop :=
  ∃ tree, files.find path = .ok tree ∧ tree.isDirectory = false

theorem isFile_eq_true_iff : files.isFile path = true ↔ HoldsFile files path := by
  unfold FileSystem.isFile HoldsFile
  cases files.find path <;> simp

/-- The project file of a directory: the plain one, or the dotted one where there is no plain one. -/
inductive IsProjectFile (files : FileSystem) (directory : Path) : Path → Prop
  | plain (h : HoldsFile files (directory.join ⟨"demeter-lint.toml"⟩)) :
      IsProjectFile files directory (directory.join ⟨"demeter-lint.toml"⟩)
  | dotted (hplain : ¬ HoldsFile files (directory.join ⟨"demeter-lint.toml"⟩))
      (h : HoldsFile files (directory.join ⟨".demeter-lint.toml"⟩)) :
      IsProjectFile files directory (directory.join ⟨".demeter-lint.toml"⟩)

theorem findIn_eq_some_iff :
    findIn files.isFile directory = some path ↔ IsProjectFile files directory path := by
  by_cases hplain : files.isFile (directory.join ⟨"demeter-lint.toml"⟩) = true
  · have hfind : findIn files.isFile directory = some (directory.join ⟨"demeter-lint.toml"⟩) :=
      List.find?_cons_of_pos hplain
    rw [isFile_eq_true_iff] at hplain
    rw [hfind, Option.some.injEq]
    constructor
    · rintro rfl
      exact .plain hplain
    · rintro (_ | ⟨hnot, _⟩)
      · rfl
      · exact absurd hplain hnot
  by_cases hdotted : files.isFile (directory.join ⟨".demeter-lint.toml"⟩) = true
  · have hfind : findIn files.isFile directory = some (directory.join ⟨".demeter-lint.toml"⟩) :=
      (List.find?_cons_of_neg hplain).trans (List.find?_cons_of_pos hdotted)
    rw [isFile_eq_true_iff] at hplain hdotted
    rw [hfind, Option.some.injEq]
    constructor
    · rintro rfl
      exact .dotted hplain hdotted
    · rintro (h | _)
      · exact absurd h hplain
      · rfl
  · have hfind : findIn files.isFile directory = none :=
      (List.find?_cons_of_neg hplain).trans (List.find?_cons_of_neg hdotted)
    rw [isFile_eq_true_iff] at hplain hdotted
    rw [hfind]
    refine iff_of_false (Option.some_ne_none path).symm ?_
    rintro (h | ⟨_, h⟩)
    · exact hplain h
    · exact hdotted h

theorem findIn_eq_none_iff : findIn files.isFile directory = none ↔
    ∀ own, ¬ IsProjectFile files directory own := by
  rw [Option.eq_none_iff_forall_ne_some]
  exact forall_congr' fun own => not_congr findIn_eq_some_iff

/-- The project file that a directory has, or inherits from its parent. -/
inductive Supplies (files : FileSystem) : Path → Path → Prop
  | own {directory path : Path} (h : IsProjectFile files directory path) :
      Supplies files directory path
  | inherited {directory parent path : Path} (hnone : ∀ own, ¬ IsProjectFile files directory own)
      (hparent : directory.parent? = some parent) (h : Supplies files parent path) :
      Supplies files directory path

theorem findAbove_of_findIn_eq_some (h : findIn files.isFile start = some path) :
    findAbove files.isFile start = some path := by
  rw [findAbove, Path.ancestors, List.findSome?_cons, h]

/-- A directory without a project file of its own inherits that of its parent. -/
theorem findAbove_of_parent {parent : Path} (hnone : findIn files.isFile start = none)
    (hparent : start.parent? = some parent) :
    findAbove files.isFile start = findAbove files.isFile parent := by
  rw [findAbove, Path.ancestors_of_parent?_eq_some hparent, List.findSome?_cons, hnone, findAbove]

/-- The search through all ancestors finds what each directory hands down to those below it. -/
theorem findAbove_eq_some_iff :
    findAbove files.isFile start = some path ↔ Supplies files start path := by
  induction start using Path.parentInduction with
  | top start htop =>
    rw [findAbove, Path.ancestors_of_parent?_eq_none htop, List.findSome?_singleton,
      findIn_eq_some_iff]
    refine ⟨.own, fun h => ?_⟩
    cases h with
    | own h => exact h
    | inherited _ hparent _ =>
      rw [htop] at hparent
      cases hparent
  | below start parent hparent ih =>
    cases hown : findIn files.isFile start with
    | some own =>
      have hproject := findIn_eq_some_iff.mp hown
      rw [findAbove_of_findIn_eq_some hown, ← hown, findIn_eq_some_iff]
      refine ⟨.own, fun h => ?_⟩
      cases h with
      | own h => exact h
      | inherited hnone _ _ => exact absurd hproject (hnone own)
    | none =>
      have hnone := findIn_eq_none_iff.mp hown
      rw [findAbove_of_parent hown hparent, ih]
      refine ⟨.inherited hnone hparent, fun h => ?_⟩
      cases h with
      | own h => exact absurd h (hnone path)
      | inherited _ hother h =>
        rw [hparent] at hother
        cases hother
        exact h

theorem findAbove_eq_none_iff :
    findAbove files.isFile start = none ↔ ∀ path, ¬ Supplies files start path := by
  rw [Option.eq_none_iff_forall_ne_some]
  exact forall_congr' fun path => not_congr findAbove_eq_some_iff

/-- The project file that a directory has or inherits is that of the nearest directory with one, among
itself and its ancestors. -/
theorem supplies_iff : Supplies files start path ↔ ∃ nearer holder farther,
    start.ancestors = nearer ++ holder :: farther ∧ IsProjectFile files holder path ∧
      ∀ directory ∈ nearer, ∀ own, ¬ IsProjectFile files directory own := by
  rw [← findAbove_eq_some_iff, findAbove, List.findSome?_eq_some_iff]
  simp only [findIn_eq_some_iff, findIn_eq_none_iff]

/-! ## Sources -/

/-- Which source of a configuration applies. -/
inductive Applies (files : FileSystem) (start : Path) (given shared : Option Path) :
    ConfigSource → Prop
  | explicit {path : Path} (hgiven : given = some path) :
      Applies files start given shared (.explicit path)
  | project {path : Path} (hgiven : given = none) (h : Supplies files start path) :
      Applies files start given shared (.project path)
  | shared {directory : Path} (hgiven : given = none) (hnone : ∀ path, ¬ Supplies files start path)
      (hdirectory : shared = some directory) (h : HoldsFile files (directory.join ⟨"config.toml"⟩)) :
      Applies files start given shared (.shared (directory.join ⟨"config.toml"⟩))
  | defaults (hgiven : given = none) (hnone : ∀ path, ¬ Supplies files start path)
      (hshared : ∀ directory, shared = some directory →
        ¬ HoldsFile files (directory.join ⟨"config.toml"⟩)) :
      Applies files start given shared .defaults

theorem findShared_eq_some_iff : findShared files.isFile shared = some path ↔
    ∃ directory, shared = some directory ∧ directory.join ⟨"config.toml"⟩ = path ∧
      HoldsFile files path := by
  rw [findShared, Option.filter_eq_some_iff, Option.map_eq_some_iff, isFile_eq_true_iff]
  constructor
  · rintro ⟨⟨directory, hdirectory, hpath⟩, h⟩
    exact ⟨directory, hdirectory, hpath, h⟩
  · rintro ⟨directory, hdirectory, hpath, h⟩
    exact ⟨⟨directory, hdirectory, hpath⟩, h⟩

theorem findShared_eq_none_iff : findShared files.isFile shared = none ↔
    ∀ directory, shared = some directory → ¬ HoldsFile files (directory.join ⟨"config.toml"⟩) := by
  rw [Option.eq_none_iff_forall_ne_some]
  constructor
  · intro h directory hdirectory hfile
    exact h _ (findShared_eq_some_iff.mpr ⟨directory, hdirectory, rfl, hfile⟩)
  · intro h path hpath
    obtain ⟨directory, hdirectory, rfl, hfile⟩ := findShared_eq_some_iff.mp hpath
    exact h directory hdirectory hfile

/-- What the lookup finds applies, -/
theorem applies_lookup :
    Applies files start given shared (lookup files.isFile start given shared) := by
  cases given with
  | some path => exact .explicit rfl
  | none =>
    unfold lookup
    cases habove : findAbove files.isFile start with
    | some path => exact .project rfl (findAbove_eq_some_iff.mp habove)
    | none =>
      have hnone := findAbove_eq_none_iff.mp habove
      cases hshared : findShared files.isFile shared with
      | some path =>
        obtain ⟨directory, hdirectory, rfl, hfile⟩ := findShared_eq_some_iff.mp hshared
        exact .shared rfl hnone hdirectory hfile
      | none => exact .defaults rfl hnone (findShared_eq_none_iff.mp hshared)

/-- and nothing else does. -/
theorem Applies.lookup_eq {source : ConfigSource} (h : Applies files start given shared source) :
    lookup files.isFile start given shared = source := by
  cases h with
  | explicit hgiven => rw [hgiven, lookup]
  | project hgiven h => rw [hgiven, lookup, findAbove_eq_some_iff.mpr h]
  | shared hgiven hnone hdirectory hfile =>
    rw [hgiven, lookup, findAbove_eq_none_iff.mpr hnone,
      findShared_eq_some_iff.mpr ⟨_, hdirectory, rfl, hfile⟩]
  | defaults hgiven hnone hshared =>
    rw [hgiven, lookup, findAbove_eq_none_iff.mpr hnone, findShared_eq_none_iff.mpr hshared]

/-- Which configuration applies to a start, and what a directory and its parent, and the check of a
project in it, have to do with each other. -/
structure FollowsPrecedence (files : FileSystem) (start : Path) (given shared : Option Path) :
    Prop where
  /-- The lookup finds the source that applies, and there is only one. -/
  lookup_eq_iff : ∀ source, lookup files.isFile start given shared = source ↔
    Applies files start given shared source
  /-- The project file is that of the nearest directory with one, among the start and its ancestors. -/
  supplies_iff : ∀ path, Supplies files start path ↔ ∃ nearer holder farther,
    start.ancestors = nearer ++ holder :: farther ∧ IsProjectFile files holder path ∧
      ∀ directory ∈ nearer, ∀ own, ¬ IsProjectFile files directory own
  /-- A start without a project file of its own has the source of its parent. -/
  lookup_parent : (∀ own, ¬ IsProjectFile files start own) →
    ∀ parent, start.parent? = some parent →
      lookup files.isFile start given shared = lookup files.isFile parent given shared
  /-- Where the start has a project file of its own and no path is given, the check of the project in
  it reads the same file. -/
  loadConfig_eq : ∀ path, IsProjectFile files start path →
    lookup files.isFile start none shared = .project path ∧
      Project.loadConfig files start none = Config.load files path

/-- **Which configuration applies.** -/
theorem followsPrecedence (files : FileSystem) (start : Path) (given shared : Option Path) :
    FollowsPrecedence files start given shared where
  lookup_eq_iff source := ⟨fun h => h ▸ applies_lookup, Applies.lookup_eq⟩
  supplies_iff path := supplies_iff
  lookup_parent hnone parent hparent := by
    unfold lookup
    rw [findAbove_of_parent (findIn_eq_none_iff.mpr hnone) hparent]
  loadConfig_eq path h := by
    refine ⟨Applies.lookup_eq (.project rfl (.own h)), ?_⟩
    rw [Project.loadConfig, findIn_eq_some_iff.mpr h]

/-- The dotted file of a directory comes before the plain one of its parent, and what is no file does
not count. -/
example : lookup (FileSystem.isFile { tree := .directory [("demeter-lint.toml", .text ""),
    ("views", .directory [(".demeter-lint.toml", .text ""), ("demeter-lint.toml", .directory []),
      ("posts", .directory [])])] }) ⟨"/views/posts"⟩ none none =
        .project ⟨"/views/.demeter-lint.toml"⟩ := by
  decide +kernel

end RailsReview.ConfigSource
