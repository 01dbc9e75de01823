import RailsReview.Inflection
import RailsReview.Proofs.Data.List

/-!
# How singulars are made

`singularizeWord` looks through its tables one after the other.  `Singular` says the same as a
relation between a word and its singular, with a constructor for each way to come by one, and with
what the tables that were looked through in vain say about the word.

All tables are read on the word in small letters, but it is the word as it is written that is cut.
The cut is in the right place: what is taken off is what fits in small letters.  What is put there
instead is in small letters, or is capitalised when it is all there is.

* `singularize_append`: only what follows the last underscore is inflected.
* `suffix_lower_iff`: an end of the word in small letters is an end of the word, in small letters.
* `lower_graft`: a replaced word in small letters.
* `singular_singularizeWord`: the ways to come by a singular.
* `Singular.eq_of_not_s`: what does not end in `s` is singular, irregular plurals apart.
-/

namespace RailsReview.Inflection.Letters

/-! ## Segments -/

/-- The part of a word after its last underscore. -/
def lastSegment (word : List Char) : List Char :=
  word.rtakeWhile (· ≠ '_')

/-- Whether nothing stands before the next segment, or an underscore. -/
def EndsSegment (head : List Char) : Prop :=
  head = [] ∨ ∃ start, head = start ++ ['_']

theorem underscore_not_mem_lastSegment (word : List Char) : '_' ∉ lastSegment word := by
  intro hmem
  have hkept := List.mem_rtakeWhile_imp hmem
  simp at hkept

/-- A word is its last segment behind what ends before it. -/
theorem exists_eq_append_lastSegment (word : List Char) :
    ∃ head, EndsSegment head ∧ word = head ++ lastSegment word := by
  refine ⟨word.rdropWhile (· ≠ '_'), ?_, List.rdropWhile_append_rtakeWhile.symm⟩
  by_cases hnil : word.rdropWhile (· ≠ '_') = []
  · exact .inl hnil
  · have hlast := List.rdropWhile_last_not (· ≠ '_') word hnil
    refine .inr ⟨(word.rdropWhile (· ≠ '_')).dropLast, ?_⟩
    conv_lhs => rw [← List.dropLast_append_getLast hnil]
    simpa using hlast

theorem splitLast_append {head last : List Char} (hhead : EndsSegment head) (hlast : '_' ∉ last) :
    splitLast (head ++ last) = (head, last) := by
  induction head with
  | nil =>
    cases last with
    | nil => rfl
    | cons c cs =>
      rw [List.mem_cons, not_or] at hlast
      have hc : c ≠ '_' := fun h => hlast.1 h.symm
      simp [splitLast, hlast.2, hc]
  | cons c cs ih =>
    rw [List.cons_append, splitLast]
    obtain hnil | ⟨start, hstart⟩ := hhead
    · exact absurd hnil (List.cons_ne_nil c cs)
    · cases start with
      | nil =>
        obtain ⟨rfl, rfl⟩ := List.cons.inj hstart
        simp [hlast]
      | cons d start =>
        obtain ⟨rfl, rfl⟩ := List.cons.inj hstart
        rw [ih (.inr ⟨start, rfl⟩)]
        simp

/-- Only the last segment is inflected. -/
theorem singularize_append {head last : List Char} (hhead : EndsSegment head)
    (hlast : '_' ∉ last) : singularize (head ++ last) = head ++ singularizeWord last := by
  rw [singularize, splitLast_append hhead hlast]

/-! ## Small letters -/

@[simp] theorem lower_nil : lower [] = [] := rfl

@[simp] theorem lower_append (word other : List Char) :
    lower (word ++ other) = lower word ++ lower other :=
  List.map_append

@[simp] theorem length_lower (word : List Char) : (lower word).length = word.length :=
  List.length_map Char.toLower

/-- What the word ends in, in small letters, is an end of the word, in small letters. -/
theorem suffix_lower_iff {ending word : List Char} :
    ending <:+ lower word ↔ ∃ head tail, word = head ++ tail ∧ lower tail = ending := by
  constructor
  · rintro ⟨start, hstart⟩
    obtain ⟨head, tail, hword, -, htail⟩ := List.map_eq_append_iff.mp hstart.symm
    exact ⟨head, tail, hword, htail⟩
  · rintro ⟨head, tail, rfl, rfl⟩
    rw [lower_append]
    exact List.suffix_append (lower head) (lower tail)

/-- Two texts of which neither is an end of the other. -/
def Apart (ending other : String) : Prop :=
  ¬ ending.toList <:+ other.toList ∧ ¬ other.toList <:+ ending.toList

instance (ending other : String) : Decidable (Apart ending other) :=
  inferInstanceAs (Decidable (_ ∧ _))

/-- No word ends in both of two texts that are apart. -/
theorem Apart.not_suffix {ending other : String} {word : List Char} (h : Apart ending other)
    (hending : ending.toList <:+ word) : ¬ other.toList <:+ word := by
  intro hother
  rcases List.suffix_or_suffix_of_suffix hending hother with hsuffix | hsuffix
  · exact h.1 hsuffix
  · exact h.2 hsuffix

/-! ## Replaced ends -/

/-- A word with another end, which is capitalised where it takes the place of a capitalised word. -/
def graft (head tail ending : List Char) : List Char :=
  if head = [] ∧ startsUpper tail = true then camelize ending else head ++ ending

theorem replaceEnd_append (head tail ending : List Char) :
    replaceEnd (head ++ tail) tail.length ending = graft head tail ending := by
  have hhead : (head ++ tail).take ((head ++ tail).length - tail.length) = head := by
    rw [List.length_append, Nat.add_sub_cancel, List.take_left]
  rw [replaceEnd, hhead, graft]
  cases head with
  | nil => simp
  | cons c cs => simp

/-- Singulars in the tables are written in small letters. -/
theorem lower_singular : ∀ entry ∈ irregulars ++ suffixRules,
    lower entry.2.toList = entry.2.toList ∧
      lower (camelize entry.2.toList) = entry.2.toList := by
  decide +kernel

/-- A replaced word in small letters. -/
theorem lower_graft {entry : String × String} (hentry : entry ∈ irregulars ++ suffixRules)
    (head tail : List Char) :
    lower (graft head tail entry.2.toList) = lower head ++ entry.2.toList := by
  obtain ⟨hsmall, hcapital⟩ := lower_singular entry hentry
  unfold graft
  split
  · next h => rw [h.1, hcapital, lower_nil, List.nil_append]
  · rw [lower_append, hsmall]

/-! ## Ways to come by a singular -/

/-- The word is its own plural. -/
def IsUncountable (word : List Char) : Prop :=
  ∃ name ∈ uncountables, name.toList = lower word

/-- The word is an irregular plural. -/
def IsIrregular (word : List Char) : Prop :=
  ∃ entry ∈ irregulars, entry.1.toList = lower word

/-- No suffix rule fits the word. -/
def IsUnmatched (word : List Char) : Prop :=
  ∀ rule ∈ suffixRules, ¬ rule.1.toList <:+ lower word

/-- The word ends in `ies` after a character that is no vowel. -/
def EndsInConsonantIes (word : List Char) : Prop :=
  ∃ head c tail, word = head ++ c :: tail ∧ isVowel c.toLower = false ∧
    lower tail = "ies".toList

theorem ies_suffix_lower {word head tail : List Char} {c : Char} (hword : word = head ++ c :: tail)
    (htail : lower tail = "ies".toList) : "ies".toList <:+ lower word := by
  refine suffix_lower_iff.mpr ⟨head ++ [c], tail, ?_, htail⟩
  rw [hword, List.append_assoc]
  rfl

/-- No table has anything to say about the word. -/
structure IsUnlisted (word : List Char) : Prop where
  countable : ¬ IsUncountable word
  regular : ¬ IsIrregular word
  unmatched : IsUnmatched word
  noConsonantIes : ¬ EndsInConsonantIes word

/-- How a word without underscores comes by its singular. -/
inductive Singular (word : List Char) : List Char → Prop
  | uncountable (huncountable : IsUncountable word) : Singular word word
  | irregular {entry : String × String} (hentry : entry ∈ irregulars)
      (hcountable : ¬ IsUncountable word) (hword : entry.1.toList = lower word) :
      Singular word (graft [] word entry.2.toList)
  /-- The first rule that fits is used. -/
  | suffixRule {rule : String × String} {head tail : List Char} (hrule : rule ∈ suffixRules)
      (hcountable : ¬ IsUncountable word) (hregular : ¬ IsIrregular word)
      (hword : word = head ++ tail) (htail : lower tail = rule.1.toList)
      (hfirst : ∀ earlier ∈ suffixRules.takeWhile (· ≠ rule),
        ¬ earlier.1.toList <:+ lower word) :
      Singular word (graft head tail rule.2.toList)
  | consonantIes {head tail : List Char} {c : Char} (hcountable : ¬ IsUncountable word)
      (hregular : ¬ IsIrregular word) (hunmatched : IsUnmatched word)
      (hword : word = head ++ c :: tail) (hconsonant : isVowel c.toLower = false)
      (htail : lower tail = "ies".toList) : Singular word (head ++ [c] ++ ['y'])
  | plainS {stem : List Char} (hunlisted : IsUnlisted word) (hstem : stem ≠ [])
      (hword : word = stem ++ ['s']) : Singular word stem
  | unchanged (hunlisted : IsUnlisted word)
      (hplain : ∀ stem, stem ≠ [] → word ≠ stem ++ ['s']) : Singular word word

theorem any_uncountables_iff {word : List Char} :
    uncountables.any (·.toList == lower word) = true ↔ IsUncountable word := by
  simp only [List.any_eq_true, beq_iff_eq, IsUncountable]

theorem find?_irregulars_eq_none_iff {word : List Char} :
    irregulars.find? (·.1.toList == lower word) = none ↔ ¬ IsIrregular word := by
  simp [IsIrregular]

theorem find?_suffixRules_eq_none_iff {word : List Char} :
    suffixRules.find? (·.1.toList.isSuffixOf (lower word)) = none ↔ IsUnmatched word := by
  simp only [List.find?_eq_none, List.isSuffixOf_iff_suffix, IsUnmatched]

theorem endsInConsonantIes_lower_iff {word : List Char} :
    endsInConsonantIes (lower word) = true ↔ EndsInConsonantIes word := by
  unfold endsInConsonantIes EndsInConsonantIes
  constructor
  · intro h
    split at h
    · next c rest hreverse =>
      have hlower : lower word = rest.reverse ++ c :: "ies".toList := by
        rw [← List.reverse_reverse (lower word), hreverse]
        simp
      obtain ⟨head, last, rfl, -, hlast⟩ := List.map_eq_append_iff.mp hlower
      obtain ⟨d, tail, rfl, rfl, htail⟩ := List.map_eq_cons_iff.mp hlast
      exact ⟨head, d, tail, rfl, by simpa using h, htail⟩
    · exact absurd h Bool.false_ne_true
  · rintro ⟨head, c, tail, rfl, hc, htail⟩
    have hlower : lower (head ++ c :: tail) = lower head ++ c.toLower :: "ies".toList := by
      rw [lower_append, ← htail]
      rfl
    rw [hlower]
    simp [hc]

/-- Without the tables, only an `s` behind something is taken off. -/
theorem singular_dropPlainS {word : List Char} (h : IsUnlisted word) :
    Singular word (dropPlainS word) := by
  unfold dropPlainS
  by_cases hs : (word.getLast? == some 's' && 1 < word.length) = true
  · rw [if_pos hs]
    rw [Bool.and_eq_true, beq_iff_eq, decide_eq_true_eq] at hs
    obtain ⟨stem, rfl⟩ := List.getLast?_eq_some_iff.mp hs.1
    rw [List.dropLast_concat]
    refine .plainS h ?_ rfl
    rintro rfl
    exact absurd hs.2 (by decide)
  · rw [if_neg hs]
    refine .unchanged h ?_
    rintro stem hstem rfl
    have hlength := List.length_pos_of_ne_nil hstem
    simp [hlength] at hs

/-- Every word comes by its singular in one of these ways. -/
theorem singular_singularizeWord (word : List Char) : Singular word (singularizeWord word) := by
  unfold singularizeWord
  by_cases huncountable : uncountables.any (·.toList == lower word) = true
  · rw [if_pos huncountable]
    exact .uncountable (any_uncountables_iff.mp huncountable)
  have hcountable := mt any_uncountables_iff.mpr huncountable
  rw [if_neg huncountable]
  cases hirregular : irregulars.find? (·.1.toList == lower word) with
  | some entry =>
    have hword : entry.1.toList = lower word := by simpa using List.find?_some hirregular
    have hlength : entry.1.toList.length = word.length := by rw [hword, length_lower]
    have hgraft := replaceEnd_append [] word entry.2.toList
    rw [List.nil_append] at hgraft
    dsimp only
    rw [hlength, hgraft]
    exact .irregular (List.mem_of_find?_eq_some hirregular) hcountable hword
  | none =>
    have hregular := find?_irregulars_eq_none_iff.mp hirregular
    dsimp only
    cases hmatched : suffixRules.find? (·.1.toList.isSuffixOf (lower word)) with
    | some rule =>
      have hsuffix : rule.1.toList <:+ lower word := by
        simpa using List.find?_some hmatched
      obtain ⟨head, tail, hword, htail⟩ := suffix_lower_iff.mp hsuffix
      have hlength : rule.1.toList.length = tail.length := by rw [← htail, length_lower]
      dsimp only
      rw [hlength, hword, replaceEnd_append, ← hword]
      refine .suffixRule (List.mem_of_find?_eq_some hmatched) hcountable hregular hword htail ?_
      intro earlier hearlier hfits
      have hfails := List.not_of_mem_takeWhile_of_find? hmatched earlier hearlier
      rw [List.isSuffixOf_iff_suffix.mpr hfits] at hfails
      exact Bool.noConfusion hfails
    | none =>
      have hunmatched := find?_suffixRules_eq_none_iff.mp hmatched
      dsimp only
      by_cases hies : endsInConsonantIes (lower word) = true
      · rw [if_pos hies]
        obtain ⟨head, c, tail, hword, hconsonant, htail⟩ := endsInConsonantIes_lower_iff.mp hies
        have hlength : 3 = tail.length := by rw [← length_lower, htail]; rfl
        have hsplit : word = (head ++ [c]) ++ tail := by rw [hword, List.append_assoc]; rfl
        rw [hlength, hsplit, replaceEnd_append, ← hsplit, graft, if_neg (by simp)]
        exact .consonantIes hcountable hregular hunmatched hword hconsonant htail
      · rw [if_neg hies]
        exact singular_dropPlainS
          ⟨hcountable, hregular, hunmatched, mt endsInConsonantIes_lower_iff.mpr hies⟩

/-- Singulars in the tables are single segments. -/
theorem underscore_not_mem_entry : ∀ entry ∈ irregulars ++ suffixRules,
    '_' ∉ entry.2.toList ∧ '_' ∉ camelize entry.2.toList := by
  decide +kernel

theorem underscore_not_mem_graft {entry : String × String}
    (hentry : entry ∈ irregulars ++ suffixRules) {head : List Char} (hhead : '_' ∉ head)
    (tail : List Char) : '_' ∉ graft head tail entry.2.toList := by
  obtain ⟨hsmall, hcapital⟩ := underscore_not_mem_entry entry hentry
  unfold graft
  split
  · exact hcapital
  · rw [List.mem_append, not_or]
    exact ⟨hhead, hsmall⟩

/-- The singular of a segment is a single segment. -/
theorem Singular.underscore_not_mem {word result : List Char} (h : Singular word result)
    (hword : '_' ∉ word) : '_' ∉ result := by
  cases h with
  | uncountable _ => exact hword
  | irregular hentry _ _ =>
    exact underscore_not_mem_graft (List.mem_append_left _ hentry) List.not_mem_nil word
  | suffixRule hrule _ _ hsplit _ _ =>
    have hhead := fun hmem => hword (hsplit ▸ List.mem_append_left _ hmem)
    exact underscore_not_mem_graft (List.mem_append_right _ hrule) hhead _
  | consonantIes _ _ _ hsplit _ _ =>
    subst hsplit
    simp only [List.mem_append, List.mem_cons, not_or] at hword ⊢
    exact ⟨⟨hword.1, hword.2.1, List.not_mem_nil⟩, by decide, List.not_mem_nil⟩
  | plainS _ _ hsplit => exact fun hmem => hword (hsplit ▸ List.mem_append_left _ hmem)
  | unchanged _ _ => exact hword

/-! ## Words that are singular -/

/-- All suffix rules are about words that end in `s`. -/
theorem s_suffix_of_mem_suffixRules : ∀ rule ∈ suffixRules, "s".toList <:+ rule.1.toList := by
  decide

/-- A word that does not end in `s` and is no irregular plural is singular. -/
theorem Singular.eq_of_not_s {word result : List Char} (h : Singular word result)
    (hs : ¬ "s".toList <:+ lower word) (hregular : ¬ IsIrregular word) : result = word := by
  cases h with
  | uncountable _ => rfl
  | @irregular entry hentry _ hword => exact absurd ⟨entry, hentry, hword⟩ hregular
  | suffixRule hrule _ _ hword htail _ =>
    have hsuffix := suffix_lower_iff.mpr ⟨_, _, hword, htail⟩
    exact absurd ((s_suffix_of_mem_suffixRules _ hrule).trans hsuffix) hs
  | consonantIes _ _ _ hword _ htail =>
    have hies : "s".toList <:+ "ies".toList := by decide
    exact absurd (hies.trans (ies_suffix_lower hword htail)) hs
  | plainS _ _ hword =>
    exact absurd (suffix_lower_iff.mpr ⟨_, _, hword, rfl⟩) hs
  | unchanged _ _ => rfl

/-- What is left of a word without its plain `s` does not end in `s`. -/
theorem IsUnlisted.not_s_suffix {stem : List Char} (h : IsUnlisted (stem ++ ['s'])) :
    ¬ "s".toList <:+ lower stem := by
  rintro ⟨start, hstart⟩
  refine h.unmatched ("ss", "ss") (by decide) ?_
  rw [lower_append, ← hstart, List.append_assoc]
  exact List.suffix_append _ _

/-- A word that is its own plural is singular. -/
theorem Singular.eq_of_isUncountable {word result : List Char} (h : Singular word result)
    (huncountable : IsUncountable word) : result = word := by
  cases h with
  | uncountable _ => rfl
  | irregular _ hcountable _ => exact absurd huncountable hcountable
  | suffixRule _ hcountable _ _ _ _ => exact absurd huncountable hcountable
  | consonantIes hcountable _ _ _ _ _ => exact absurd huncountable hcountable
  | plainS hunlisted _ _ => exact absurd huncountable hunlisted.countable
  | unchanged _ _ => rfl

/-- A word that no table is about is singular, unless there is a plain `s` behind something. -/
theorem Singular.eq_of_isUnlisted {word result : List Char} (h : Singular word result)
    (hunlisted : IsUnlisted word) (hplain : ∀ stem, stem ≠ [] → word ≠ stem ++ ['s']) :
    result = word := by
  cases h with
  | uncountable _ => rfl
  | @irregular entry hentry _ hword => exact absurd ⟨entry, hentry, hword⟩ hunlisted.regular
  | suffixRule hrule _ _ hword htail _ =>
    exact absurd (suffix_lower_iff.mpr ⟨_, _, hword, htail⟩) (hunlisted.unmatched _ hrule)
  | consonantIes _ _ _ hword hconsonant htail =>
    exact absurd ⟨_, _, _, hword, hconsonant, htail⟩ hunlisted.noConsonantIes
  | plainS _ hstem hword => exact absurd hword (hplain _ hstem)
  | unchanged _ _ => rfl

end RailsReview.Inflection.Letters
