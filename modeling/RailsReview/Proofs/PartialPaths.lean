import Mathlib.Data.List.Infix
import RailsReview.Proofs.Data.List
import RailsReview.SourceFile

/-!
# Paths of partial views

A path leads to a partial view if its last component is the name of a partial template, and `app` and
`views` stand next to each other somewhere before that.

`SourceFile.isPartial` looks at the plain names on a path alone.  Nothing but `..` can stand between
two names, so what it does is to judge the path as if no `..` were there.  No partial view is missed
that way, but a path that ends in `..`, or that goes up between `app` and `views`, can be taken for the
path of a partial view where it is none.

* `SourceFile.isPartialName_eq_true_iff`, `SourceFile.underViews_eq_true_iff`: the tests on names.
* `Path.parent_or_name_of_mem_tail`: the components of a path behind the first one.
* `SourceFile.isPartial_eq_true_iff`: each `..` is passed over.
* `SourceFile.LeadsToPartial.of_withoutParents`: where that makes no difference.
* `SourceFile.detectsPartials`: which paths are taken for those of partial views.
* `SourceFile.not_leadsToPartial_of_isPartialView`: two of them are not.
-/

namespace RailsReview

namespace SourceFile

/-! ## Names -/

/-- The name of a partial template: it starts with an underscore, and what follows its last dot is the
extension of templates. -/
def NamesPartial (fileName : String) : Prop :=
  (∃ rest, fileName = "_" ++ rest) ∧ ∃ stem extension, fileName = stem ++ "." ++ extension ∧
    '.' ∉ extension.toList ∧ extension ∈ templateExtensions

theorem toList_append_dot (stem extension : String) :
    (stem ++ "." ++ extension).toList = stem.toList ++ '.' :: extension.toList := by
  rw [String.toList_append, String.toList_append, List.append_assoc]
  rfl

theorem extension?_append {stem extension : String} (h : '.' ∉ extension.toList) :
    extension? (stem ++ "." ++ extension) = some extension := by
  have hdot : (stem.toList ++ '.' :: extension.toList).contains '.' = true := by simp
  rw [extension?, toList_append_dot, if_pos hdot, List.splitOn_append_cons_self,
    List.splitOn_eq_singleton h, List.getLast?_concat, Option.map_some, String.ofList_toList]

/-- The extension of a file name is what follows its last dot. -/
theorem extension?_eq_some_iff {fileName extension : String} :
    extension? fileName = some extension ↔
      ∃ stem, fileName = stem ++ "." ++ extension ∧ '.' ∉ extension.toList := by
  constructor
  · intro h
    by_cases hdot : '.' ∈ fileName.toList
    · obtain ⟨start, rest, hsplit, hrest⟩ := List.exists_eq_append_cons_last hdot
      have hname : fileName = String.ofList start ++ "." ++ String.ofList rest := by
        rw [← String.toList_inj, toList_append_dot, String.toList_ofList, String.toList_ofList,
          hsplit]
      rw [← String.toList_ofList (l := rest)] at hrest
      rw [hname, extension?_append hrest, Option.some.injEq] at h
      exact ⟨String.ofList start, h ▸ hname, h ▸ hrest⟩
    · rw [extension?, if_neg (mt List.contains_iff_mem.mp hdot)] at h
      cases h
  · rintro ⟨stem, rfl, hdot⟩
    exact extension?_append hdot

theorem isTemplateName_eq_true_iff {fileName : String} :
    isTemplateName fileName = true ↔ ∃ stem extension, fileName = stem ++ "." ++ extension ∧
      '.' ∉ extension.toList ∧ extension ∈ templateExtensions := by
  have hextension : isTemplateName fileName = true ↔
      ∃ extension, extension? fileName = some extension ∧ extension ∈ templateExtensions := by
    unfold isTemplateName
    cases extension? fileName <;> simp
  simp only [hextension, extension?_eq_some_iff]
  constructor
  · rintro ⟨extension, ⟨stem, hname, hdot⟩, hmem⟩
    exact ⟨stem, extension, hname, hdot, hmem⟩
  · rintro ⟨stem, extension, hname, hdot, hmem⟩
    exact ⟨extension, ⟨stem, hname, hdot⟩, hmem⟩

/-- Whether a name is the name of a partial template is told by its two ends. -/
theorem isPartialName_eq_true_iff {fileName : String} :
    isPartialName fileName = true ↔ NamesPartial fileName := by
  rw [isPartialName, Bool.and_eq_true, isTemplateName_eq_true_iff, beq_iff_eq,
    List.head?_eq_some_iff, NamesPartial]
  refine and_congr_left fun _ => ⟨?_, ?_⟩
  · rintro ⟨rest, hrest⟩
    refine ⟨String.ofList rest, ?_⟩
    rw [← String.toList_inj, hrest, String.toList_append, String.toList_ofList (l := rest)]
    rfl
  · rintro ⟨rest, rfl⟩
    exact ⟨rest.toList, by rw [String.toList_append]; rfl⟩

instance : DecidablePred NamesPartial := fun _ =>
  decidable_of_iff _ isPartialName_eq_true_iff

theorem NamesPartial.ne_views {fileName : String} (h : NamesPartial fileName) :
    fileName ≠ "views" := by
  rintro rfl
  exact absurd h (by decide)

/-- Two names stand next to each other. -/
theorem underViews_eq_true_iff {names : List String} :
    underViews names = true ↔ ["app", "views"] <:+: names := by
  induction names with
  | nil => decide
  | cons first names ih =>
    cases names with
    | nil =>
      refine iff_of_false (by simp [underViews]) fun h => ?_
      exact absurd h.length_le (by simp)
    | cons next names =>
      have hzip : underViews (first :: next :: names) = true ↔
          ["app", "views"] <+: first :: next :: names ∨ underViews (next :: names) = true := by
        simp [underViews, List.cons_prefix_cons]
      rw [hzip, ih]
      exact List.infix_cons_iff.symm

end SourceFile

/-! ## Components -/

namespace Component

theorem parent_or_name_of_ofPiece? {piece : List Char} {component : Component}
    (h : ofPiece? piece = some component) : component = .parent ∨ ∃ text, component = .name text := by
  unfold ofPiece? at h
  split at h
  · cases h
  · split at h
    · exact .inl (Option.some.inj h).symm
    · exact .inr ⟨_, (Option.some.inj h).symm⟩

end Component

namespace Path

/-- Behind the first component of a path come only names and `..`. -/
theorem parent_or_name_of_mem_tail {path : Path} {component : Component}
    (h : component ∈ path.components.tail) :
    component = .parent ∨ ∃ text, component = .name text := by
  have hrest : ∀ texts : List (List Char), component ∈ texts.filterMap Component.ofPiece? →
      component = .parent ∨ ∃ text, component = .name text := by
    intro texts hmem
    obtain ⟨text, -, htext⟩ := List.mem_filterMap.mp hmem
    exact Component.parent_or_name_of_ofPiece? htext
  unfold components pieces at h
  split at h
  · exact absurd h List.not_mem_nil
  · exact absurd h List.not_mem_nil
  · next first rest _ _ =>
    rw [List.filterMap_cons, List.filterMap_map] at h
    split at h
    · exact hrest rest (List.mem_of_mem_tail h)
    · exact hrest rest h

end Path

namespace SourceFile

variable {components : List Component} {path root : Path}

/-- The components lead to a partial view: the last one is the name of a partial template, and `app`
and `views` stand next to each other before it. -/
def LeadsToPartial (components : List Component) : Prop :=
  ∃ before fileName, components = before ++ [.name fileName] ∧ NamesPartial fileName ∧
    [.name "app", .name "views"] <:+: before

/-- The components without `..`. -/
def withoutParents (components : List Component) : List Component :=
  components.filter (· ≠ .parent)

/-- Without `..`, only names come behind the first component. -/
theorem withoutParents_eq_map
    (h : ∀ component ∈ components, component = .parent ∨ ∃ text, component = .name text) :
    withoutParents components = (components.filterMap Component.name?).map Component.name := by
  induction components with
  | nil => rfl
  | cons component components ih =>
    rw [List.forall_mem_cons] at h
    rcases h.1 with rfl | ⟨text, rfl⟩
    · exact ih h.2
    · exact congrArg (Component.name text :: ·) (ih h.2)

theorem exists_withoutParents_eq (components : List Component)
    (h : ∀ component ∈ components.tail, component = .parent ∨ ∃ text, component = .name text) :
    ∃ lead, (lead = [] ∨ lead = [.root] ∨ lead = [.current]) ∧
      withoutParents components =
        lead ++ (components.filterMap Component.name?).map Component.name := by
  cases components with
  | nil => exact ⟨[], .inl rfl, rfl⟩
  | cons first others =>
    have hothers := withoutParents_eq_map h
    cases first with
    | root => exact ⟨[.root], .inr (.inl rfl), congrArg (Component.root :: ·) hothers⟩
    | current => exact ⟨[.current], .inr (.inr rfl), congrArg (Component.current :: ·) hothers⟩
    | parent => exact ⟨[], .inl rfl, hothers⟩
    | name text => exact ⟨[], .inl rfl, congrArg (Component.name text :: ·) hothers⟩

/-- What may stand before the names is no name. -/
theorem infix_append_map_iff {lead : List Component}
    (hlead : lead = [] ∨ lead = [.root] ∨ lead = [.current]) {names : List String} :
    [.name "app", .name "views"] <:+: lead ++ names.map Component.name ↔
      ["app", "views"] <:+: names := by
  have hmap : [.name "app", .name "views"] <:+: names.map Component.name ↔
      ["app", "views"] <:+: names := by
    rw [List.infix_map_iff]
    constructor
    · rintro ⟨pair, hpair, heq⟩
      obtain ⟨_, rest, rfl, hname, hrest⟩ := List.map_eq_cons_iff.mp heq.symm
      obtain ⟨_, _, rfl, hnext, hnil⟩ := List.map_eq_cons_iff.mp hrest
      cases hname
      cases hnext
      rwa [List.map_eq_nil_iff.mp hnil] at hpair
    · exact fun h => ⟨_, h, rfl⟩
  rcases hlead with rfl | rfl | rfl
  · exact hmap
  · rw [List.singleton_append, List.infix_cons_iff, hmap, List.cons_prefix_cons]
    simp
  · rw [List.singleton_append, List.infix_cons_iff, hmap, List.cons_prefix_cons]
    simp

/-- Names alone lead to a partial view if the tests on names say so. -/
theorem leadsToPartial_append_map_iff {lead : List Component}
    (hlead : lead = [] ∨ lead = [.root] ∨ lead = [.current]) {names : List String} :
    LeadsToPartial (lead ++ names.map Component.name) ↔
      underViews names = true ∧ ∃ fileName, names.getLast? = some fileName ∧
        NamesPartial fileName := by
  rw [underViews_eq_true_iff]
  constructor
  · rintro ⟨before, fileName, hsplit, hpartial, hviews⟩
    rcases List.eq_nil_or_concat' names with rfl | ⟨names, last, rfl⟩
    · rcases hlead with rfl | rfl | rfl <;> simp [List.singleton_eq_append_iff] at hsplit
    · rw [List.map_append, ← List.append_assoc] at hsplit
      obtain ⟨rfl, hlast⟩ := List.append_inj' hsplit rfl
      cases hlast
      exact ⟨((infix_append_map_iff hlead).mp hviews).trans (List.prefix_append _ _).isInfix,
        fileName, List.getLast?_concat, hpartial⟩
  · rintro ⟨hviews, fileName, hlast, hpartial⟩
    obtain ⟨names, rfl⟩ := List.getLast?_eq_some_iff.mp hlast
    refine ⟨lead ++ names.map Component.name, fileName, ?_, hpartial, ?_⟩
    · rw [List.map_append, ← List.append_assoc]
      rfl
    · rw [infix_append_map_iff hlead]
      rcases List.infix_concat_iff.mp hviews with hsuffix | hinfix
      · -- the last of the names would have to be `views`
        obtain ⟨start, hstart⟩ := hsuffix
        have heq : start ++ ["app"] ++ ["views"] = names ++ [fileName] := by
          rw [← hstart, List.append_assoc]
          rfl
        exact absurd (List.cons.inj (List.append_inj' heq rfl).2).1.symm hpartial.ne_views
      · exact hinfix

/-- **Each `..` is passed over.**  Without them, the path would be judged as it is. -/
theorem isPartial_eq_true_iff : isPartial path = true ↔
    LeadsToPartial (withoutParents path.components) := by
  obtain ⟨lead, hlead, hnames⟩ :=
    exists_withoutParents_eq path.components fun _ => Path.parent_or_name_of_mem_tail
  rw [hnames, leadsToPartial_append_map_iff hlead, isPartial, Bool.and_eq_true]
  refine and_congr_right fun _ => ?_
  cases (path.components.filterMap Component.name?).getLast? with
  | none => simp
  | some fileName => simp [isPartialName_eq_true_iff]

/-! ## Detours -/

/-- The components lead up directly between `app` and `views`. -/
def HasDetour (components : List Component) : Prop :=
  ∃ count, .name "app" :: (List.replicate (count + 1) .parent ++ [.name "views"]) <:+: components

/-- A path to a partial view is still one when `..` is left out. -/
theorem LeadsToPartial.withoutParents (h : LeadsToPartial components) :
    LeadsToPartial (withoutParents components) := by
  obtain ⟨before, fileName, rfl, hpartial, hviews⟩ := h
  have hkept : [.name "app", .name "views"] <:+: before.filter (· ≠ .parent) := by
    simpa using hviews.filter (· ≠ .parent)
  refine ⟨before.filter (· ≠ .parent), fileName, ?_, hpartial, hkept⟩
  rw [SourceFile.withoutParents, List.filter_append]
  rfl

/-- What stands between two components without `..` is a number of `..`. -/
theorem exists_infix_of_infix_filter {first second : Component}
    (h : [first, second] <:+: components.filter (· ≠ .parent)) :
    ∃ count, first :: (List.replicate count .parent ++ [second]) <:+: components := by
  obtain ⟨start, rest, hsplit⟩ := h
  rw [List.append_assoc] at hsplit
  obtain ⟨before, others, rfl, -, hothers⟩ := List.filter_eq_append_iff.mp hsplit.symm
  obtain ⟨skipped, after, rfl, -, -, hafter⟩ := List.filter_eq_cons_iff.mp hothers
  obtain ⟨parents, last, rfl, hparents, -, -⟩ := List.filter_eq_cons_iff.mp hafter
  refine ⟨parents.length, before ++ skipped, last, ?_⟩
  have hreplicate : parents = List.replicate parents.length .parent :=
    List.eq_replicate_iff.mpr ⟨rfl, fun component hmem => by simpa using hparents component hmem⟩
  rw [← hreplicate]
  simp [List.append_assoc]

/-- Where a path does not end in `..`, and goes up nowhere between `app` and `views`, it makes no
difference that `..` is left out. -/
theorem LeadsToPartial.of_withoutParents (h : LeadsToPartial (SourceFile.withoutParents components))
    (hlast : components.getLast? ≠ some .parent) (hdetour : ¬ HasDetour components) :
    LeadsToPartial components := by
  obtain ⟨before, fileName, hsplit, hpartial, hviews⟩ := h
  rcases List.eq_nil_or_concat' components with rfl | ⟨init, last, rfl⟩
  · simp [SourceFile.withoutParents] at hsplit
  · rw [List.getLast?_concat, ne_eq, Option.some.injEq] at hlast
    rw [SourceFile.withoutParents, List.filter_append,
      List.filter_cons_of_pos (by simpa using hlast), List.filter_nil] at hsplit
    obtain ⟨rfl, hname⟩ := List.append_inj' hsplit rfl
    refine ⟨init, fileName, by rw [hname], hpartial, ?_⟩
    obtain ⟨count, hinfix⟩ := exists_infix_of_infix_filter hviews
    cases count with
    | zero => exact hinfix
    | succ count =>
      exact absurd ⟨count, hinfix.trans (List.prefix_append init [last]).isInfix⟩ hdetour

/-! ## Source files -/

/-- Which source files are taken for partial views. -/
structure DetectsPartials (path root : Path) : Prop where
  /-- Those whose path below the root leads to a partial view once each `..` on it is left out. -/
  isPartialView_eq_true_iff : (locate path root).isPartialView = true ↔
    LeadsToPartial (withoutParents (path.relativeTo root).components)
  /-- So no partial view is missed, -/
  isPartialView_of_leadsToPartial : LeadsToPartial (path.relativeTo root).components →
    (locate path root).isPartialView = true
  /-- and nothing else is taken for one, unless its path ends in `..` or goes up between `app` and
  `views`. -/
  isPartialView_eq_true_iff_of_direct :
    (path.relativeTo root).components.getLast? ≠ some .parent →
      ¬ HasDetour (path.relativeTo root).components →
        ((locate path root).isPartialView = true ↔
          LeadsToPartial (path.relativeTo root).components)

/-- **Partial views are told by the directories on their paths**, as far as these do not lead up. -/
theorem detectsPartials (path root : Path) : DetectsPartials path root := by
  have hdetected : (locate path root).isPartialView = true ↔
      LeadsToPartial (withoutParents (path.relativeTo root).components) := by
    rw [locate, isPartial_eq_true_iff]
  exact
    { isPartialView_eq_true_iff := hdetected
      isPartialView_of_leadsToPartial := fun h => hdetected.mpr h.withoutParents
      isPartialView_eq_true_iff_of_direct := fun hlast hdetour =>
        ⟨fun h => (hdetected.mp h).of_withoutParents hlast hdetour,
          fun h => hdetected.mpr h.withoutParents⟩ }

/-- A file outside of `app/views`, and the directory that a partial view stands in, are taken for
partial views. -/
theorem not_leadsToPartial_of_isPartialView :
    ((locate ⟨"app/../views/_row.erb"⟩ ⟨"/project"⟩).isPartialView = true ∧
      ¬ LeadsToPartial (Path.relativeTo ⟨"app/../views/_row.erb"⟩ ⟨"/project"⟩).components) ∧
    (locate ⟨"app/views/_row.erb/.."⟩ ⟨"/project"⟩).isPartialView = true ∧
      ¬ LeadsToPartial (Path.relativeTo ⟨"app/views/_row.erb/.."⟩ ⟨"/project"⟩).components := by
  refine ⟨⟨by decide +kernel, ?_⟩, by decide +kernel, ?_⟩
  · have hcomponents : (Path.relativeTo ⟨"app/../views/_row.erb"⟩ ⟨"/project"⟩).components =
        [.name "app", .parent, .name "views"] ++ [.name "_row.erb"] := by decide +kernel
    rintro ⟨before, fileName, hsplit, -, hviews⟩
    rw [hcomponents] at hsplit
    rw [← (List.append_inj' hsplit rfl).1] at hviews
    exact absurd hviews (by decide)
  · have hlast : (Path.relativeTo ⟨"app/views/_row.erb/.."⟩ ⟨"/project"⟩).components.getLast? =
        some .parent := by decide +kernel
    rintro ⟨before, fileName, hsplit, -, -⟩
    rw [hsplit, List.getLast?_concat] at hlast
    cases hlast

end SourceFile

end RailsReview
