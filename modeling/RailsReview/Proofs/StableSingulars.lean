import RailsReview.Proofs.Singulars

/-!
# Singulars of singulars

The singular of a word is a singular, so taking the singular once more should change nothing.  There
are two kinds of words for which it does, and they are listed in `IsUnstable`:

* `useraliases` has the singular `useralias`.  Only the whole word `alias` is known to be singular, so
  that its end is taken for a plural;
* `peoples` loses its plain `s`, and what is left is an irregular plural.

## Why there are no others

What a table puts at the end of a word is a singular from the table.  The next time, the tables can
only find something there that shares an end with it.  Of the pairs of a singular and a plural in
the tables, none does so, with two exceptions: `ss`, `us` and `is` are found again, and replaced by
themselves, and `alias` ends in a plain `s`.

What is left by taking off a plain `s` does not end in `s`, since the word would have ended in `ss`.
So only the plurals that do not end in `s` can be found.

* `Singular.eq_graft`: a replaced end is not replaced again.
* `Singular.eq_graft_alias_iff`: except for `alias` behind something.
* `isUnstable_append_s_iff`: when taking off a plain `s` leaves an irregular plural.
* `Singular.eq_iff_not_isUnstable`: which segments are stable.
* `singularize_singularize_eq_iff`: which words are.
-/

namespace RailsReview.Inflection

namespace Letters

/-! ## The exceptions -/

/-- The irregular plurals that do not end in `s`. -/
def pluralsWithoutS : List String :=
  ["people", "men", "women", "children", "oxen", "mice", "geese"]

/-- The singular of the word has a singular of its own. -/
def IsUnstable (segment : List Char) : Prop :=
  (∃ stem, stem ≠ [] ∧ lower segment = stem ++ "aliases".toList) ∨
    ∃ stem, segment = stem ++ ['s'] ∧ ∃ plural ∈ pluralsWithoutS, lower stem = plural.toList

/-- A word that ends like none of the exceptions is none of them. -/
theorem not_isUnstable_of_suffix {ending : String} {word : List Char}
    (hsuffix : ending.toList <:+ lower word) (haliases : Apart ending "aliases")
    (hplurals : ∀ plural ∈ pluralsWithoutS, ¬ ending.toList <:+ plural.toList ++ ['s']) :
    ¬ IsUnstable word := by
  rintro (⟨stem, -, hword⟩ | ⟨stem, rfl, plural, hplural, hstem⟩)
  · refine haliases.not_suffix hsuffix ?_
    rw [hword]
    exact List.suffix_append _ _
  · refine hplurals plural hplural ?_
    rw [lower_append, hstem] at hsuffix
    exact hsuffix

/-- An entry of the tables has the end of one of the exceptions only if it is `aliases`. -/
theorem apart_aliases_of_ne : ∀ entry ∈ irregulars ++ suffixRules, entry ≠ ("aliases", "alias") →
    Apart entry.1 "aliases" ∧
      ∀ plural ∈ pluralsWithoutS, ¬ entry.1.toList <:+ plural.toList ++ ['s'] := by
  decide +kernel

/-! ## Replaced ends -/

/-- No singular in the tables is the end of an irregular plural. -/
theorem not_singular_suffix_plural : ∀ entry ∈ irregulars ++ suffixRules, ∀ other ∈ irregulars,
    ¬ entry.2.toList <:+ other.1.toList := by
  decide +kernel

theorem not_isIrregular_graft {entry : String × String}
    (hentry : entry ∈ irregulars ++ suffixRules) (head tail : List Char) :
    ¬ IsIrregular (graft head tail entry.2.toList) := by
  rintro ⟨other, hother, hword⟩
  rw [lower_graft hentry] at hword
  exact not_singular_suffix_plural entry hentry other hother ⟨_, hword.symm⟩

/-- The ends that are kept. -/
def keptEnds : List String := ["ss", "us", "is"]

/-- How the singulars in the tables end. -/
theorem end_of_singular : ∀ entry ∈ irregulars ++ suffixRules, entry ≠ ("aliases", "alias") →
    Apart entry.2 "s" ∨ ∃ kept ∈ keptEnds, kept.toList <:+ entry.2.toList := by
  decide +kernel

/-- Where a kept end fits, no other rule does. -/
theorem rule_eq_of_kept : ∀ kept ∈ keptEnds, (kept, kept) ∈ suffixRules ∧
    ∀ rule ∈ suffixRules, rule ≠ (kept, kept) → Apart kept rule.1 := by
  decide +kernel

theorem replaceEnd_camelize_kept : ∀ entry ∈ irregulars ++ suffixRules, ∀ kept ∈ keptEnds,
    kept.toList <:+ entry.2.toList →
      replaceEnd (camelize entry.2.toList) kept.toList.length kept.toList =
        camelize entry.2.toList := by
  decide +kernel

/-- Replacing a kept end by itself changes nothing more. -/
theorem replaceEnd_graft_kept {entry : String × String}
    (hentry : entry ∈ irregulars ++ suffixRules) {kept : String} (hkept : kept ∈ keptEnds)
    (hend : kept.toList <:+ entry.2.toList) (head tail : List Char) :
    replaceEnd (graft head tail entry.2.toList) kept.toList.length kept.toList =
      graft head tail entry.2.toList := by
  have hsmall : ∀ kept ∈ keptEnds, startsUpper kept.toList = false := by decide
  unfold graft
  split
  · exact replaceEnd_camelize_kept entry hentry kept hkept hend
  · obtain ⟨start, hstart⟩ := hend
    rw [← hstart, ← List.append_assoc, replaceEnd_append, graft, hsmall kept hkept,
      if_neg (by simp)]

/-- A word with a singular from the tables as its end is singular, unless that is `alias`. -/
theorem Singular.eq_graft {entry : String × String} {head tail result : List Char}
    (h : Singular (graft head tail entry.2.toList) result)
    (hentry : entry ∈ irregulars ++ suffixRules) (halias : entry ≠ ("aliases", "alias")) :
    result = graft head tail entry.2.toList := by
  have hregular := not_isIrregular_graft hentry head tail
  have hlower := lower_graft hentry head tail
  have hend : entry.2.toList <:+ lower (graft head tail entry.2.toList) := by
    rw [hlower]
    exact List.suffix_append _ _
  rcases end_of_singular entry hentry halias with hs | ⟨kept, hkept, hsuffix⟩
  · exact h.eq_of_not_s (hs.not_suffix hend) hregular
  · have hfits := hsuffix.trans hend
    obtain ⟨hmem, hunique⟩ := rule_eq_of_kept kept hkept
    have hreplaced := replaceEnd_graft_kept hentry hkept hsuffix head tail
    cases h with
    | uncountable _ => rfl
    | irregular hother _ hword => exact absurd ⟨_, hother, hword⟩ hregular
    | @suffixRule rule start rest hrule _ _ hword hrest _ =>
      have heq : rule = (kept, kept) := by
        by_contra hne
        exact (hunique rule hrule hne).not_suffix hfits
          (suffix_lower_iff.mpr ⟨start, rest, hword, hrest⟩)
      have hlength : rest.length = kept.toList.length := by rw [← length_lower, hrest, heq]
      rw [heq, ← replaceEnd_append, hlength, ← hword, hreplaced]
    | consonantIes _ _ hunmatched _ _ _ => exact absurd hfits (hunmatched _ hmem)
    | plainS hunlisted _ _ => exact absurd hfits (hunlisted.unmatched _ hmem)
    | unchanged _ _ => rfl

/-- Words that end in `alias` are in no table, the word itself apart. -/
theorem apart_alias : (∀ name ∈ uncountables, "alias".toList <:+ name.toList → name = "alias") ∧
    ∀ rule ∈ suffixRules, Apart rule.1 "alias" := by
  decide +kernel

/-- The singular of `aliases` is singular as a whole word, but not as the end of a word. -/
theorem Singular.eq_graft_alias_iff {head tail result : List Char}
    (h : Singular (graft head tail "alias".toList) result) :
    result = graft head tail "alias".toList ↔ head = [] := by
  have hmem : ("aliases", "alias") ∈ irregulars ++ suffixRules := by decide
  have hlower := lower_graft hmem head tail
  have hregular := not_isIrregular_graft hmem head tail
  dsimp only at hlower hregular
  constructor
  · intro hsame
    by_contra hhead
    have hend : "alias".toList <:+ lower (graft head tail "alias".toList) := by
      rw [hlower]
      exact List.suffix_append _ _
    have hword : graft head tail "alias".toList = head ++ "alia".toList ++ ['s'] := by
      rw [graft, if_neg fun h => hhead h.1, List.append_assoc]
      rfl
    cases h with
    | uncountable huncountable =>
      obtain ⟨name, hname, heq⟩ := huncountable
      have halias : name = "alias" := apart_alias.1 name hname (heq ▸ hend)
      rw [← heq, halias] at hlower
      have hlength := congrArg List.length hlower
      rw [List.length_append, length_lower, Nat.right_eq_add, List.length_eq_zero_iff] at hlength
      exact hhead hlength
    | irregular hentry _ heq => exact hregular ⟨_, hentry, heq⟩
    | suffixRule hrule _ _ hsplit htail _ =>
      exact (apart_alias.2 _ hrule).not_suffix (suffix_lower_iff.mpr ⟨_, _, hsplit, htail⟩) hend
    | consonantIes _ _ _ hsplit _ htail =>
      have hapart : Apart "ies" "alias" := by decide
      exact hapart.not_suffix (ies_suffix_lower hsplit htail) hend
    | plainS _ _ hsplit =>
      rw [hsame] at hsplit
      simpa using congrArg List.length hsplit
    | unchanged _ hplain => exact hplain (head ++ "alia".toList) (by simp [hhead]) hword
  · rintro rfl
    refine h.eq_of_isUncountable ⟨"alias", by decide, ?_⟩
    rw [hlower, lower_nil, List.nil_append]

/-- A word that ends in `y` is singular. -/
theorem Singular.eq_append_y {head result : List Char} (h : Singular (head ++ ['y']) result) :
    result = head ++ ['y'] := by
  have hend : "y".toList <:+ lower (head ++ ['y']) := by
    rw [lower_append]
    exact List.suffix_append _ _
  have hs : Apart "y" "s" := by decide
  have hplurals : ∀ entry ∈ irregulars, ¬ "y".toList <:+ entry.1.toList := by decide
  refine h.eq_of_not_s (hs.not_suffix hend) ?_
  rintro ⟨entry, hentry, hword⟩
  exact hplurals entry hentry (hword ▸ hend)

/-! ## Irregular plurals -/

/-- The tables of irregular plurals: none is its own singular or its own plural, and those that do
not end in `s` are listed. -/
theorem irregulars_table : ∀ entry ∈ irregulars, entry.2.toList ≠ entry.1.toList ∧
    (∀ name ∈ uncountables, name.toList ≠ entry.1.toList) ∧
    ("s".toList <:+ entry.1.toList ∨ entry.1 ∈ pluralsWithoutS) := by
  decide +kernel

theorem isIrregular_of_pluralsWithoutS : ∀ plural ∈ pluralsWithoutS,
    ∃ entry ∈ irregulars, entry.1 = plural := by
  decide +kernel

/-- An irregular plural is not singular. -/
theorem Singular.ne_of_isIrregular {word result : List Char} (h : Singular word result)
    (hirregular : IsIrregular word) : result ≠ word := by
  cases h with
  | uncountable huncountable =>
    obtain ⟨entry, hentry, hword⟩ := hirregular
    obtain ⟨name, hname, heq⟩ := huncountable
    exact absurd (heq.trans hword.symm) ((irregulars_table entry hentry).2.1 name hname)
  | @irregular entry hentry _ hword =>
    intro hsame
    have hlower := lower_graft (List.mem_append_left suffixRules hentry) [] word
    rw [hsame, lower_nil, List.nil_append, ← hword] at hlower
    exact (irregulars_table entry hentry).1 hlower.symm
  | suffixRule _ _ hregular _ _ _ => exact absurd hirregular hregular
  | consonantIes _ hregular _ _ _ _ => exact absurd hirregular hregular
  | plainS hunlisted _ _ => exact absurd hirregular hunlisted.regular
  | unchanged hunlisted _ => exact absurd hirregular hunlisted.regular

/-! ## Segments -/

/-- A segment that ends in `aliases` is an exception if there is something before that. -/
theorem isUnstable_append_aliases_iff {word head tail : List Char} (hword : word = head ++ tail)
    (htail : lower tail = "aliases".toList) : IsUnstable word ↔ head ≠ [] := by
  have hlower : lower word = lower head ++ "aliases".toList := by
    rw [hword, lower_append, htail]
  constructor
  · rintro (⟨stem, hstem, hsplit⟩ | ⟨stem, rfl, plural, hplural, hstem⟩) rfl
    · rw [hsplit] at hlower
      exact hstem (List.append_cancel_right hlower)
    · have htable : ∀ plural ∈ pluralsWithoutS, plural.toList ++ ['s'] ≠ "aliases".toList := by
        decide
      rw [lower_append, hstem] at hlower
      exact htable plural hplural hlower
  · intro hhead
    refine .inl ⟨lower head, ?_, hlower⟩
    rwa [← List.length_pos_iff, length_lower, List.length_pos_iff]

/-- A segment that is left as it is, is no exception. -/
theorem not_isUnstable_of_unchanged {word : List Char} (hunlisted : IsUnlisted word)
    (hplain : ∀ stem, stem ≠ [] → word ≠ stem ++ ['s']) : ¬ IsUnstable word := by
  rintro (⟨stem, -, hword⟩ | ⟨stem, rfl, plural, hplural, hstem⟩)
  · refine hunlisted.unmatched ("aliases", "alias") (by decide) ?_
    rw [hword]
    exact List.suffix_append _ _
  · have hnonempty : ∀ plural ∈ pluralsWithoutS, plural.toList ≠ [] := by decide
    refine hplain stem ?_ rfl
    rintro rfl
    exact hnonempty plural hplural hstem.symm

/-- A segment from which a plain `s` is taken is an exception if that leaves an irregular plural. -/
theorem isUnstable_append_s_iff {stem : List Char} (hunlisted : IsUnlisted (stem ++ ['s'])) :
    IsUnstable (stem ++ ['s']) ↔ IsIrregular stem := by
  constructor
  · rintro (⟨start, -, hword⟩ | ⟨start, hword, plural, hplural, hstem⟩)
    · refine absurd ?_ (hunlisted.unmatched ("aliases", "alias") (by decide))
      rw [hword]
      exact List.suffix_append _ _
    · obtain rfl := List.append_cancel_right hword
      obtain ⟨entry, hentry, rfl⟩ := isIrregular_of_pluralsWithoutS plural hplural
      exact ⟨entry, hentry, hstem.symm⟩
  · rintro ⟨entry, hentry, hstem⟩
    rcases (irregulars_table entry hentry).2.2 with hs | hlisted
    · exact absurd (hstem ▸ hs) hunlisted.not_s_suffix
    · exact .inr ⟨stem, rfl, entry.1, hlisted, hstem.symm⟩

/-- The singular of a segment is singular, exceptions apart. -/
theorem Singular.eq_iff_not_isUnstable {word once twice : List Char} (honce : Singular word once)
    (htwice : Singular once twice) : twice = once ↔ ¬ IsUnstable word := by
  cases honce with
  | uncountable huncountable =>
    refine iff_of_true (htwice.eq_of_isUncountable huncountable) ?_
    obtain ⟨name, hname, heq⟩ := huncountable
    have htable : ∀ name ∈ uncountables, Apart name "aliases" ∧
        ∀ plural ∈ pluralsWithoutS, ¬ name.toList <:+ plural.toList ++ ['s'] := by decide +kernel
    obtain ⟨haliases, hplurals⟩ := htable name hname
    exact not_isUnstable_of_suffix (heq ▸ List.suffix_rfl) haliases hplurals
  | @irregular entry hentry _ hword =>
    have hmem := List.mem_append_left suffixRules hentry
    have hne : ∀ entry ∈ irregulars, entry ≠ ("aliases", "alias") := by decide
    obtain ⟨haliases, hplurals⟩ := apart_aliases_of_ne entry hmem (hne entry hentry)
    exact iff_of_true (htwice.eq_graft hmem (hne entry hentry))
      (not_isUnstable_of_suffix (hword ▸ List.suffix_rfl) haliases hplurals)
  | @suffixRule rule head tail hrule _ _ hword htail _ =>
    have hmem := List.mem_append_right irregulars hrule
    have hsuffix := suffix_lower_iff.mpr ⟨head, tail, hword, htail⟩
    by_cases halias : rule = ("aliases", "alias")
    · subst halias
      rw [htwice.eq_graft_alias_iff, isUnstable_append_aliases_iff hword htail, not_not]
    · obtain ⟨haliases, hplurals⟩ := apart_aliases_of_ne rule hmem halias
      exact iff_of_true (htwice.eq_graft hmem halias)
        (not_isUnstable_of_suffix hsuffix haliases hplurals)
  | @consonantIes head tail c _ _ _ hword _ htail =>
    have haliases : Apart "ies" "aliases" := by decide
    have hplurals : ∀ plural ∈ pluralsWithoutS, ¬ "ies".toList <:+ plural.toList ++ ['s'] := by
      decide
    exact iff_of_true htwice.eq_append_y
      (not_isUnstable_of_suffix (ies_suffix_lower hword htail) haliases hplurals)
  | @plainS stem hunlisted hstem hword =>
    subst hword
    rw [isUnstable_append_s_iff hunlisted]
    constructor
    · intro hsame hirregular
      exact htwice.ne_of_isIrregular hirregular hsame
    · intro hregular
      exact htwice.eq_of_not_s hunlisted.not_s_suffix hregular
  | unchanged hunlisted hplain =>
    exact iff_of_true (htwice.eq_of_isUnlisted hunlisted hplain)
      (not_isUnstable_of_unchanged hunlisted hplain)

end Letters

/-- **The singular of a singular.**  Taking the singular once more changes nothing, exceptions apart:
words whose last segment ends in `aliases` behind something else, and words whose last segment is an
irregular plural without `s`, followed by an `s`. -/
theorem singularize_singularize_eq_iff (word : String) :
    singularize (singularize word) = singularize word ↔
      ¬ Letters.IsUnstable (Letters.lastSegment word.toList) := by
  obtain ⟨head, hhead, hword⟩ := Letters.exists_eq_append_lastSegment word.toList
  have hsegment := Letters.underscore_not_mem_lastSegment word.toList
  generalize Letters.lastSegment word.toList = segment at *
  have hsingular := Letters.singular_singularizeWord segment
  have honce : (singularize word).toList = head ++ Letters.singularizeWord segment := by
    rw [toList_singularize, hword, Letters.singularize_append hhead hsegment]
  have htwice : (singularize (singularize word)).toList =
      head ++ Letters.singularizeWord (Letters.singularizeWord segment) := by
    rw [toList_singularize, honce,
      Letters.singularize_append hhead (hsingular.underscore_not_mem hsegment)]
  rw [← String.toList_inj, honce, htwice, List.append_right_inj]
  exact hsingular.eq_iff_not_isUnstable (Letters.singular_singularizeWord _)

/-- It matters whether `aliases` is a segment or the end of one. -/
example : singularize (singularize "user_aliases") = "user_alias" ∧
    singularize (singularize "useraliases") = "useralia" := by decide

end RailsReview.Inflection
