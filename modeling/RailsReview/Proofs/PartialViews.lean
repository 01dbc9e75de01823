import RailsReview.Proofs.OnePass
import RailsReview.Rule.PartialView

/-!
# What is found in partial views

The rule on partial views is made from the section that a configuration has for it.  The section may
be missing, its list of patterns may be missing or hold values that are no texts, and a text may be
no pattern.  Nothing of that is an error: what is no pattern counts for nothing.

Another way to the same rule is to start from the default one and to add the patterns one by one,
going on with the rule so far where one is refused.

* `ofSettings_eq_addPatterns`: the two ways lead to the same rule.
* `ofSettings_append_cons`: an entry that is no pattern can as well be left out, wherever it stands.
* `appliesTo_ofSettings_iff`: which files the rule is about.
* `check_of_concerns`: what it finds there, which is each reference to an instance variable once.
* `followsSection`: all of this together.
-/

namespace RailsReview.PartialView

/-! ## Sections -/

/-- An entry stands in the list of patterns of a section. -/
def Lists (settings : Option RuleSettings) (entry : Toml.Value) : Prop :=
  ∃ own entries, settings = some own ∧ own.options.lookup "patterns" = some (.array entries) ∧
    entry ∈ entries

/-- The texts in the list of patterns of a section, in order. -/
def listedTexts (settings : Option RuleSettings) : List String :=
  (settings.map (·.texts "patterns")).getD []

theorem mem_texts_iff {settings : RuleSettings} {key text : String} :
    text ∈ settings.texts key ↔
      ∃ entries, settings.options.lookup key = some (.array entries) ∧ .text text ∈ entries := by
  have htext : ∀ entry : Toml.Value, entry.text? = some text ↔ entry = .text text := by
    intro entry
    cases entry <;> simp [Toml.Value.text?]
  unfold RuleSettings.texts
  split
  · next entries hentries =>
    simp only [List.mem_filterMap, htext, exists_eq_right, hentries, Option.some.injEq,
      Toml.Value.array.injEq, exists_eq_left']
  · next hother =>
    refine iff_of_false List.not_mem_nil ?_
    rintro ⟨entries, hentries, -⟩
    exact hother entries hentries

/-- The texts of a section are the texts that it lists. -/
theorem mem_listedTexts_iff {settings : Option RuleSettings} {text : String} :
    text ∈ listedTexts settings ↔ Lists settings (.text text) := by
  cases settings with
  | none => simp [listedTexts, Lists]
  | some settings =>
    rw [listedTexts, Option.map_some, Option.getD_some, mem_texts_iff]
    simp [Lists]

/-! ## Two ways to the rule -/

/-- The rule with patterns added one by one; where one is refused, it stays as it is. -/
def addPatterns (view : PartialView) (patterns : List String) : PartialView :=
  patterns.foldl (fun view pattern =>
    match view.addPattern pattern with
    | .ok extended => extended
    | .error _ => view) view

theorem addPatterns_eq (view : PartialView) (patterns : List String) :
    view.addPatterns patterns =
      { view with
        patterns := view.patterns ++ patterns.filterMap fun text => (Glob.parse text).toOption } := by
  induction patterns generalizing view with
  | nil => simp [addPatterns]
  | cons pattern patterns ih =>
    have hstep : view.addPatterns (pattern :: patterns) =
        (match view.addPattern pattern with
          | .ok extended => extended
          | .error _ => view).addPatterns patterns := rfl
    rw [hstep, ih, addPattern]
    cases hparse : Glob.parse pattern with
    | ok glob => simp [Except.map, Except.toOption, hparse]
    | error fault => simp [Except.map, Except.toOption, hparse]

/-- The rule of a section is made by adding its texts to the default rule. -/
theorem ofSettings_eq_addPatterns (settings : Option RuleSettings) :
    ofSettings settings = addPatterns {} (listedTexts settings) := by
  rw [addPatterns_eq]
  cases settings with
  | none => rfl
  | some settings => rfl

/-! ## Entries that are no patterns -/

/-- An entry is a text that is a pattern. -/
def IsPattern (entry : Toml.Value) : Prop :=
  ∃ text glob, entry = .text text ∧ Glob.parse text = .ok glob

/-- The pattern that an entry is. -/
def pattern? (entry : Toml.Value) : Option Glob :=
  entry.text?.bind fun text => (Glob.parse text).toOption

theorem pattern?_of_not_isPattern {entry : Toml.Value} (h : ¬ IsPattern entry) :
    pattern? entry = none := by
  cases entry with
  | text text =>
    cases hparse : Glob.parse text with
    | ok glob => exact absurd ⟨text, glob, rfl, hparse⟩ h
    | error fault => simp [pattern?, Toml.Value.text?, hparse, Except.toOption]
  | _ => rfl

/-- The rule of a section has the patterns among the entries of its list. -/
theorem ofSettings_of_lookup {settings : RuleSettings} {entries : List Toml.Value}
    (h : settings.options.lookup "patterns" = some (.array entries)) :
    ofSettings (some settings) = { patterns := entries.filterMap pattern? } := by
  rw [ofSettings, RuleSettings.texts, h]
  dsimp only
  rw [List.filterMap_filterMap]
  rfl

/-- An entry that is no pattern can as well be left out of a list. -/
theorem ofSettings_append_cons {settings other : RuleSettings} {before after : List Toml.Value}
    {entry : Toml.Value} (hentry : ¬ IsPattern entry)
    (hsettings : settings.options.lookup "patterns" = some (.array (before ++ entry :: after)))
    (hother : other.options.lookup "patterns" = some (.array (before ++ after))) :
    ofSettings (some settings) = ofSettings (some other) := by
  rw [ofSettings_of_lookup hsettings, ofSettings_of_lookup hother, List.filterMap_append,
    List.filterMap_cons_none (pattern?_of_not_isPattern hentry), ← List.filterMap_append]

/-! ## Files -/

/-- The rule of a section is about a file: it is a partial view, or its path below the root fits a
pattern of the section. -/
def Concerns (settings : Option RuleSettings) (file : SourceFile) : Prop :=
  file.isPartialView = true ∨ ∃ text glob, Lists settings (.text text) ∧
    Glob.parse text = .ok glob ∧ glob.accepts file.relativePath.text = true

theorem appliesTo_ofSettings_iff {settings : Option RuleSettings} {file : SourceFile} :
    (ofSettings settings).appliesTo file = true ↔ Concerns settings file := by
  have hparse : ∀ text glob, (Glob.parse text).toOption = some glob ↔
      Glob.parse text = .ok glob := by
    intro text glob
    cases Glob.parse text <;> simp [Except.toOption]
  rw [ofSettings_eq_addPatterns, addPatterns_eq, appliesTo, Bool.or_eq_true, Concerns]
  simp only [List.nil_append, List.any_eq_true, List.mem_filterMap, mem_listedTexts_iff, hparse]
  constructor
  · rintro (hpartial | ⟨glob, ⟨text, htext, hglob⟩, hfits⟩)
    · exact .inl hpartial
    · exact .inr ⟨text, glob, htext, hglob, hfits⟩
  · rintro (hpartial | ⟨text, glob, htext, hglob, hfits⟩)
    · exact .inl hpartial
    · exact .inr ⟨glob, ⟨text, htext, hglob⟩, hfits⟩

/-! ## Findings -/

/-- What is found at a reference: the place is the reference's own, and all else is the rule's. -/
def findingAt (file : SourceFile) (node : Node) : Violation where
  code := "DL002"
  rule := "replace-instance-variable-with-local-variable"
  severity := .error
  location := ⟨file.relativePath, node.span.line, node.span.column⟩
  message := "replace instance variable with local variable"
  suggestion := some ("Pass the value as a local, " ++
    "e.g. `render partial: \"post\", locals: \x7b post: @post \x7d`")
  reference := some ("http://rails-bestpractices.com/posts/" ++
    "27-replace-instance-variable-with-local-variable")

/-- A node is a reference to an instance variable. -/
def IsInstanceVariable (node : Node) : Prop :=
  ∃ name place, node = .reference .instanceVariable name place

theorem kind_eq_instanceVariable_iff {node : Node} :
    node.kind = .instanceVariable ↔ IsInstanceVariable node := by
  unfold IsInstanceVariable
  cases node with
  | call => simp [Node.kind]
  | reference kind name span => cases kind <;> simp [Node.kind]
  | block => simp [Node.kind]

instance : DecidablePred IsInstanceVariable := fun _ =>
  decidable_of_iff _ kind_eq_instanceVariable_iff

theorem visit_ofSettings_eq (settings : Option RuleSettings) (file : SourceFile) (node : Node) :
    (ofSettings settings).rule.visit file node =
      if IsInstanceVariable node then [findingAt file node] else [] := by
  rw [Rule.visit]
  by_cases h : IsInstanceVariable node
  · have hkind : (ofSettings settings).rule.kinds.contains node.kind = true := by
      rw [kind_eq_instanceVariable_iff.mpr h]
      rfl
    rw [if_pos hkind, if_pos h]
    cases settings <;> rfl
  · have hkind : ¬ (ofSettings settings).rule.kinds.contains node.kind = true := by
      rw [← kind_eq_instanceVariable_iff] at h
      simpa [rule] using h
    rw [if_neg hkind, if_neg h]

/-- In a file that it is about, the rule finds every reference to an instance variable once, in
document order. -/
theorem check_of_concerns {settings : Option RuleSettings} {file : SourceFile}
    (h : Concerns settings file) (root : Node) :
    (ofSettings settings).rule.check file root =
      (root.preorder.filter (IsInstanceVariable ·)).map (findingAt file) := by
  have happlies : (ofSettings settings).rule.appliesTo file = true :=
    appliesTo_ofSettings_iff.mpr h
  exact check_eq_map_filter happlies (visit_ofSettings_eq settings file) root

/-- In any other file the rule finds nothing. -/
theorem check_of_not_concerns {settings : Option RuleSettings} {file : SourceFile}
    (h : ¬ Concerns settings file) (root : Node) :
    (ofSettings settings).rule.check file root = [] := by
  have happlies : (ofSettings settings).rule.appliesTo file = false :=
    Bool.eq_false_iff.mpr (mt appliesTo_ofSettings_iff.mp h)
  rw [check_eq_flatMap_found, List.flatMap_eq_nil_iff]
  exact fun node _ => found_of_not_applies file happlies node

/-! ## The whole rule -/

/-- What the rule that is made from a section does. -/
structure FollowsSection (settings : Option RuleSettings) : Prop where
  /-- It finds every reference to an instance variable once, in document order and at the place of
  the reference, in partial views and in files that fit a pattern of the section. -/
  check_of_concerns : ∀ path root tree, Concerns settings (.locate path root) →
    (ofSettings settings).rule.check (.locate path root) tree =
      (tree.preorder.filter (IsInstanceVariable ·)).map (findingAt (.locate path root))
  /-- It finds nothing in other files. -/
  check_of_not_concerns : ∀ path root tree, ¬ Concerns settings (.locate path root) →
    (ofSettings settings).rule.check (.locate path root) tree = []
  /-- It is the rule that is made by adding the texts of the section one by one. -/
  mem_listedTexts_iff : ∀ text, text ∈ listedTexts settings ↔ Lists settings (.text text)
  eq_addPatterns : ofSettings settings = addPatterns {} (listedTexts settings)
  /-- It would be the same without an entry that is no pattern. -/
  eq_of_append_cons : ∀ own other before entry after, settings = some own → ¬ IsPattern entry →
    own.options.lookup "patterns" = some (.array (before ++ entry :: after)) →
    other.options.lookup "patterns" = some (.array (before ++ after)) →
    ofSettings settings = ofSettings (some other)

/-- **The rule on partial views follows its section.**  Each file is judged by the patterns among the
entries of the section, whatever else is there, and in a file that the rule is about every reference
to an instance variable is found once. -/
theorem followsSection (settings : Option RuleSettings) : FollowsSection settings where
  check_of_concerns path root tree h := check_of_concerns h tree
  check_of_not_concerns path root tree h := check_of_not_concerns h tree
  mem_listedTexts_iff text := mem_listedTexts_iff
  eq_addPatterns := ofSettings_eq_addPatterns settings
  eq_of_append_cons own other before entry after hsettings hentry hown hother := by
    rw [hsettings]
    exact ofSettings_append_cons hentry hown hother

/-- A pattern between a number and a text that is no pattern is the only one that counts. -/
example : ofSettings (some { options := [("patterns",
    .array [.integer 1, .text "app/components/**/_*.erb", .text "a**"])] }) =
      addPatterns {} ["app/components/**/_*.erb"] := by
  decide +kernel

end RailsReview.PartialView
