import RailsReview.Analysis.Discovery
import RailsReview.Config.Codec
import RailsReview.Proofs.Data.Except
import RailsReview.Proofs.Data.List

/-!
# Which documents are left out

The patterns of what is left out come from three sources: those that the builder is given, those of
the configuration, and the default ones, which apply where the other two give none.  Once a pattern
is given, one more leaves out at least as much as before.  The first pattern that is given replaces
the default ones, so documents that only these left out are reviewed from then on.

* `AnalyzerBuilder.compile_eq_ok_iff`: patterns are compiled one by one.
* `AnalyzerBuilder.build_eq_ok_iff`: when there is an analyzer, and which.
* `AnalyzerBuilder.shouldExclude_eq_true_iff`: what the analyzer leaves out, in terms of the texts
  of the patterns.
* `AnalyzerBuilder.shouldExclude_exclude`: what is left out once there is one more pattern.
* `AnalyzerBuilder.not_shouldExclude_exclude_first`: the first pattern brings documents back.
-/

namespace RailsReview

/-! ## Patterns -/

/-- One of the patterns that are given as texts stands for a text. -/
def Glob.AnyFits (patterns : List String) (text : String) : Prop :=
  ∃ pattern ∈ patterns, ∃ glob, Glob.parse pattern = .ok glob ∧ glob.accepts text = true

theorem Glob.AnyFits.mono {patterns more : List String} {text : String} (h : AnyFits patterns text)
    (hmore : patterns ⊆ more) : AnyFits more text := by
  obtain ⟨pattern, hpattern, hglob⟩ := h
  exact ⟨pattern, hmore hpattern, hglob⟩

namespace AnalyzerBuilder

/-- The patterns of what is left out that are given, by the builder or by the configuration. -/
def givenExcludes (builder : AnalyzerBuilder) : List String :=
  builder.excludes ++ (builder.config.map (·.analyzer.excludes)).getD []

theorem excludePatterns_of_given {builder : AnalyzerBuilder} (h : builder.givenExcludes ≠ []) :
    builder.excludePatterns = builder.givenExcludes := by
  have hempty : builder.givenExcludes.isEmpty = false := by
    rwa [Bool.eq_false_iff, ne_eq, List.isEmpty_iff]
  rw [excludePatterns, ← givenExcludes, hempty]
  rfl

theorem excludePatterns_of_not_given {builder : AnalyzerBuilder} (h : builder.givenExcludes = []) :
    builder.excludePatterns = defaultExcludes := by
  rw [excludePatterns, ← givenExcludes, h]
  rfl

/-- Patterns are compiled one by one, and all of them have to be patterns. -/
theorem compile_eq_ok_iff {patterns : List String} {globs : List Glob} :
    compile patterns = .ok globs ↔ patterns.map Glob.parse = globs.map .ok := by
  induction patterns generalizing globs with
  | nil =>
    rw [List.map_nil, eq_comm (a := []), List.map_eq_nil_iff]
    exact ⟨fun h => by cases h; rfl, fun h => by rw [h]; rfl⟩
  | cons pattern patterns ih =>
    rw [compile, List.mapM_cons, ← compile, List.map_cons]
    simp only [Except.bind_eq_ok_iff, Except.mapError_eq_ok_iff, ih]
    constructor
    · rintro ⟨glob, hglob, rest, hrest, h⟩
      cases h
      rw [hglob, hrest, List.map_cons]
    · intro h
      obtain ⟨glob, rest, rfl, hglob, hrest⟩ := List.map_eq_cons_iff.mp h.symm
      exact ⟨glob, hglob.symm, rest, hrest.symm, rfl⟩

/-- There is a compiled list if every text is a pattern. -/
theorem exists_compile_eq_ok_iff {patterns : List String} :
    (∃ globs, compile patterns = .ok globs) ↔
      ∀ pattern ∈ patterns, ∃ glob, Glob.parse pattern = .ok glob := by
  constructor
  · rintro ⟨globs, h⟩ pattern hpattern
    have hmem : Glob.parse pattern ∈ globs.map .ok :=
      compile_eq_ok_iff.mp h ▸ List.mem_map_of_mem hpattern
    obtain ⟨glob, -, hglob⟩ := List.mem_map.mp hmem
    exact ⟨glob, hglob.symm⟩
  · intro h
    induction patterns with
    | nil => exact ⟨[], rfl⟩
    | cons pattern patterns ih =>
      obtain ⟨glob, hglob⟩ := h pattern List.mem_cons_self
      obtain ⟨globs, hglobs⟩ := ih fun other hother => h other (List.mem_cons_of_mem _ hother)
      refine ⟨glob :: globs, compile_eq_ok_iff.mpr ?_⟩
      rw [List.map_cons, List.map_cons, hglob, compile_eq_ok_iff.mp hglobs]

/-- Some pattern of a compiled list stands for a text if one of the texts of the list does. -/
theorem any_accepts_iff {patterns : List String} {globs : List Glob}
    (h : compile patterns = .ok globs) (text : String) :
    globs.any (·.accepts text) = true ↔ Glob.AnyFits patterns text := by
  rw [compile_eq_ok_iff] at h
  have hinjective : Function.Injective (Except.ok : Glob → Except Glob.Fault Glob) :=
    fun _ _ => Except.ok.inj
  have hmem : ∀ glob, glob ∈ globs ↔ ∃ pattern ∈ patterns, Glob.parse pattern = .ok glob := by
    intro glob
    rw [← List.mem_map_of_injective hinjective, ← h, List.mem_map]
  rw [List.any_eq_true, Glob.AnyFits]
  constructor
  · rintro ⟨glob, hglob, hfits⟩
    obtain ⟨pattern, hpattern, hparse⟩ := (hmem glob).mp hglob
    exact ⟨pattern, hpattern, glob, hparse, hfits⟩
  · rintro ⟨pattern, hpattern, glob, hparse, hfits⟩
    exact ⟨glob, (hmem glob).mpr ⟨pattern, hpattern, hparse⟩, hfits⟩

/-! ## Analyzers -/

/-- There is an analyzer if all patterns are patterns. -/
theorem build_eq_ok_iff {builder : AnalyzerBuilder} {currentDirectory : Path}
    {analyzer : Analyzer} : builder.build currentDirectory = .ok analyzer ↔
      ∃ excludes includes, compile builder.excludePatterns = .ok excludes ∧
        compile builder.includePatterns = .ok includes ∧
        analyzer = {
          root := currentDirectory.join builder.rootPath
          rules := builder.rules
          excludes
          includes
          config := builder.config.getD {}
          strict := builder.strict } := by
  rw [build]
  simp only [Except.bind_eq_ok_iff]
  constructor
  · rintro ⟨excludes, hexcludes, includes, hincludes, h⟩
    cases h
    exact ⟨excludes, includes, hexcludes, hincludes, rfl⟩
  · rintro ⟨excludes, includes, hexcludes, hincludes, rfl⟩
    exact ⟨excludes, hexcludes, includes, hincludes, rfl⟩

/-- The text of a path that patterns are held against. -/
def textBelowRoot (builder : AnalyzerBuilder) (currentDirectory path : Path) : String :=
  (path.relativeTo (currentDirectory.join builder.rootPath)).text

/-- A document is left out if a pattern says so, or if it fits none of those that say what is
reviewed. -/
theorem shouldExclude_eq_true_iff {builder : AnalyzerBuilder} {currentDirectory : Path}
    {analyzer : Analyzer} (h : builder.build currentDirectory = .ok analyzer) (path : Path) :
    analyzer.shouldExclude path = true ↔
      Glob.AnyFits builder.excludePatterns (builder.textBelowRoot currentDirectory path) ∨
        builder.includePatterns ≠ [] ∧
          ¬ Glob.AnyFits builder.includePatterns (builder.textBelowRoot currentDirectory path) := by
  obtain ⟨excludes, includes, hexcludes, hincludes, rfl⟩ := build_eq_ok_iff.mp h
  have hempty : includes.isEmpty = true ↔ builder.includePatterns = [] := by
    rw [List.isEmpty_iff, ← List.length_eq_zero_iff, ← List.length_eq_zero_iff,
      ← List.length_map (f := Glob.parse),
      compile_eq_ok_iff.mp hincludes, List.length_map]
  rw [Analyzer.shouldExclude, Bool.or_eq_true, any_accepts_iff hexcludes, Bool.and_eq_true,
    Bool.not_eq_true', Bool.not_eq_true', ← Bool.not_eq_true, ← Bool.not_eq_true, hempty,
    any_accepts_iff hincludes]
  rfl

/-! ## One more pattern -/

/-- The builder with one more pattern of what is left out. -/
def exclude (builder : AnalyzerBuilder) (pattern : String) : AnalyzerBuilder :=
  { builder with excludes := builder.excludes ++ [pattern] }

theorem mem_givenExcludes_exclude {builder : AnalyzerBuilder} {pattern other : String} :
    other ∈ (builder.exclude pattern).givenExcludes ↔
      other ∈ builder.givenExcludes ∨ other = pattern := by
  rw [givenExcludes, givenExcludes, exclude, List.mem_append, List.mem_append, List.mem_append,
    List.mem_singleton]
  exact or_right_comm

theorem excludePatterns_exclude (builder : AnalyzerBuilder) (pattern : String) :
    (builder.exclude pattern).excludePatterns = (builder.exclude pattern).givenExcludes :=
  excludePatterns_of_given (List.ne_nil_of_mem (mem_givenExcludes_exclude.mpr (.inr rfl)))

/-- With one more pattern there still is an analyzer. -/
theorem exists_build_exclude {builder : AnalyzerBuilder} {currentDirectory : Path}
    {analyzer : Analyzer} {pattern : String} {glob : Glob}
    (hbuild : builder.build currentDirectory = .ok analyzer)
    (hpattern : Glob.parse pattern = .ok glob) :
    ∃ stricter, (builder.exclude pattern).build currentDirectory = .ok stricter := by
  obtain ⟨excludes, includes, hexcludes, hincludes, -⟩ := build_eq_ok_iff.mp hbuild
  have hvalid : ∀ other ∈ builder.givenExcludes, ∃ glob, Glob.parse other = .ok glob := by
    intro other hother
    rw [← excludePatterns_of_given (List.ne_nil_of_mem hother)] at hother
    exact exists_compile_eq_ok_iff.mp ⟨excludes, hexcludes⟩ other hother
  obtain ⟨more, hmore⟩ : ∃ more, compile (builder.exclude pattern).excludePatterns = .ok more := by
    rw [excludePatterns_exclude, exists_compile_eq_ok_iff]
    intro other hother
    rcases mem_givenExcludes_exclude.mp hother with hother | rfl
    · exact hvalid other hother
    · exact ⟨glob, hpattern⟩
  exact ⟨_, build_eq_ok_iff.mpr ⟨more, includes, hmore, hincludes, rfl⟩⟩

/-- What was left out still is, unless only a default pattern left it out. -/
theorem shouldExclude_of_exclude {builder : AnalyzerBuilder} {currentDirectory : Path}
    {analyzer stricter : Analyzer} {pattern : String}
    (hbuild : builder.build currentDirectory = .ok analyzer)
    (hstricter : (builder.exclude pattern).build currentDirectory = .ok stricter) {path : Path}
    (hpath : analyzer.shouldExclude path = true) :
    stricter.shouldExclude path = true ∨ builder.givenExcludes = [] ∧
      Glob.AnyFits defaultExcludes (builder.textBelowRoot currentDirectory path) := by
  rw [shouldExclude_eq_true_iff hbuild] at hpath
  rw [shouldExclude_eq_true_iff hstricter, excludePatterns_exclude]
  rcases hpath with hfits | hincludes
  · by_cases hgiven : builder.givenExcludes = []
    · rw [excludePatterns_of_not_given hgiven] at hfits
      exact .inr ⟨hgiven, hfits⟩
    · rw [excludePatterns_of_given hgiven] at hfits
      exact .inl (.inl (hfits.mono fun other hother =>
        mem_givenExcludes_exclude.mpr (.inl hother)))
  · exact .inl (.inr hincludes)

/-- The documents of an analyzer are among those of another one with the same root that leaves out
less. -/
theorem documents_sublist {analyzer stricter : Analyzer} (hroot : stricter.root = analyzer.root)
    (h : ∀ path, analyzer.shouldExclude path = true → stricter.shouldExclude path = true)
    (files : FileSystem) : (stricter.documents files).Sublist (analyzer.documents files) := by
  unfold Analyzer.documents Analyzer.documentPath
  rw [hroot]
  cases files.find analyzer.root with
  | error cause => exact List.Sublist.refl []
  | ok tree =>
    refine List.monotone_filter_right _ ?_
    rintro ⟨path, document⟩ hkept
    change (!stricter.shouldExclude path) = true at hkept
    change (!analyzer.shouldExclude path) = true
    cases hexcluded : analyzer.shouldExclude path with
    | false => rfl
    | true =>
      rw [h path hexcluded] at hkept
      exact hkept

/-- **One more pattern never brings a document back,** as long as a pattern was given before.  There
still is an analyzer, it leaves out all that was left out before, and its documents are among those
from before.  Where no pattern was given, the new one takes the place of the default ones, and only
documents that fit one of these can come back. -/
theorem shouldExclude_exclude {builder : AnalyzerBuilder} {currentDirectory : Path}
    {analyzer : Analyzer} {pattern : String} {glob : Glob}
    (hbuild : builder.build currentDirectory = .ok analyzer)
    (hpattern : Glob.parse pattern = .ok glob) :
    ∃ stricter, (builder.exclude pattern).build currentDirectory = .ok stricter ∧
      (∀ path, analyzer.shouldExclude path = true → stricter.shouldExclude path = true ∨
        builder.givenExcludes = [] ∧
          Glob.AnyFits defaultExcludes (builder.textBelowRoot currentDirectory path)) ∧
      (builder.givenExcludes ≠ [] →
        ∀ files, (stricter.documents files).Sublist (analyzer.documents files)) := by
  obtain ⟨stricter, hstricter⟩ := exists_build_exclude hbuild hpattern
  refine ⟨stricter, hstricter, fun path => shouldExclude_of_exclude hbuild hstricter,
    fun hgiven => documents_sublist ?_ fun path hpath => ?_⟩
  · obtain ⟨_, _, -, -, rfl⟩ := build_eq_ok_iff.mp hbuild
    obtain ⟨_, _, -, -, rfl⟩ := build_eq_ok_iff.mp hstricter
    rfl
  · exact (shouldExclude_of_exclude hbuild hstricter hpath).resolve_right fun h => hgiven h.1

/-- A shop whose configuration leaves out a directory. -/
def shopBuilder : AnalyzerBuilder where
  root := some ⟨"/shop"⟩
  excludes := ["**/old/**"]
  includes := ["app/**"]
  config := some { analyzer := { excludes := ["lib/*"] } }

/-- The analyzer of the shop. -/
def shopAnalyzer : Analyzer where
  root := ⟨"/shop"⟩
  rules := []
  excludes :=
    [⟨"**/old/**", [.anyComponents, .literal 'o', .literal 'l', .literal 'd', .literal '/',
      .anyComponents]⟩,
    ⟨"lib/*", [.literal 'l', .literal 'i', .literal 'b', .literal '/', .anyText]⟩]
  includes := [⟨"app/**", [.literal 'a', .literal 'p', .literal 'p', .literal '/', .anyComponents]⟩]
  config := { analyzer := { excludes := ["lib/*"] } }
  strict := false

theorem shouldExclude_exclude_shop :
    shopBuilder.build ⟨"/"⟩ = .ok shopAnalyzer ∧
      Glob.parse "*.bak" = .ok ⟨"*.bak", [.anyText, .literal '.', .literal 'b', .literal 'a',
        .literal 'k']⟩ ∧
      ∃ stricter, (shopBuilder.exclude "*.bak").build ⟨"/"⟩ = .ok stricter ∧
        (∀ path, shopAnalyzer.shouldExclude path = true → stricter.shouldExclude path = true ∨
          shopBuilder.givenExcludes = [] ∧
            Glob.AnyFits defaultExcludes (shopBuilder.textBelowRoot ⟨"/"⟩ path)) ∧
        (shopBuilder.givenExcludes ≠ [] →
          ∀ files, (stricter.documents files).Sublist (shopAnalyzer.documents files)) := by
  have hbuild : shopBuilder.build ⟨"/"⟩ = .ok shopAnalyzer := by rfl
  have hpattern : Glob.parse "*.bak" = .ok ⟨"*.bak", [.anyText, .literal '.', .literal 'b',
      .literal 'a', .literal 'k']⟩ := by decide +kernel
  exact ⟨hbuild, hpattern, shouldExclude_exclude hbuild hpattern⟩

/-- A shop whose configuration has a section of the analyzer without patterns. -/
def barrenBuilder : AnalyzerBuilder where
  root := some ⟨"/shop"⟩
  config := some { analyzer := { excludes := [] } }

/-- The default patterns leave out what is in `tmp`, and a first pattern about something else brings
it back. -/
theorem not_shouldExclude_exclude_first :
    Config.parse "[analyzer]\n" = .ok { analyzer := { excludes := [] } } ∧
      (Glob.parse "**/generated/**").toBool = true ∧
      (barrenBuilder.build ⟨"/"⟩).map (·.shouldExclude ⟨"/shop/tmp/page.ast.json"⟩) = .ok true ∧
      ((barrenBuilder.exclude "**/generated/**").build ⟨"/"⟩).map
        (·.shouldExclude ⟨"/shop/tmp/page.ast.json"⟩) = .ok false :=
  ⟨by decide +kernel, by decide +kernel, by decide +kernel, by decide +kernel⟩

end AnalyzerBuilder

end RailsReview
