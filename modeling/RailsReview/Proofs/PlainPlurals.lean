import RailsReview.Proofs.Singulars

/-!
# Plain plurals

A variable that holds several invoices is called `invoices`, and names the class `Invoice`.  That is
so because the plain `s` is taken off again.  For some words it is not: the tables know the plural,
or take it for the plural of another word.  `IsMisread` lists them, by the word without the `s`:
`menus` is left as it is, since it ends in `us`, `caches` has the singular `cach`, and `curves` has
the singular `curf`.

A word is misread just if a table has its plural, and says something else about it.  The order of the
tables and of the entries in a table matters in three places: `zombies` and `movies` are looked up
before `ies` after a consonant, and `shoes` comes before `oes`.

* `isMisread_of_isUncountable`, `irregular_eq_iff`, `suffixRule_eq_iff`: what each table does to a
  plural with a plain `s`.
* `IsUnlisted.not_isMisread`: words that no table is about are not misread.
* `Singular.eq_iff_not_isMisread`: the segments whose plural is undone.
* `singularize_append_s_iff`: the words whose plural is undone, and the classes that they name.
-/

namespace RailsReview.Inflection

namespace Letters

/-! ## Misread words -/

/-- Words whose plural is its own singular. -/
def misreadWords : List String := ["jean", "new", "alia"]

/-- Ends of words that the suffix rules replace in the plural. -/
def misreadEnds : List String :=
  ["s", "u", "i", "sse", "xe", "che", "she", "lve", "rve", "quizze", "matrice", "vertice", "indice",
    "statuse", "aliase", "buse", "analyse", "these", "crise"]

/-- Whether the word ends in `ie` after a character that is no vowel. -/
def EndsInConsonantIe (word : List Char) : Prop :=
  ∃ c ∈ word, c ∉ "aeiou".toList ∧ c :: "ie".toList <:+ word

instance (word : List Char) : Decidable (EndsInConsonantIe word) :=
  List.decidableBEx _ word

/-- The singular of the word with a plain `s` is not the word. -/
def IsMisread (word : List Char) : Prop :=
  (∃ name ∈ misreadWords, word = name.toList) ∨
    (∃ ending ∈ misreadEnds, ending.toList <:+ word) ∨
    ("oe".toList <:+ word ∧ ¬ "shoe".toList <:+ word) ∨
    (EndsInConsonantIe word ∧ word ≠ "zombie".toList ∧ ¬ "movie".toList <:+ word)

instance (word : List Char) : Decidable (IsMisread word) :=
  inferInstanceAs (Decidable (_ ∨ _ ∨ _ ∨ _))

/-! ## Words in small letters -/

/-- There is no ASCII capital in the word. -/
def IsSmall (word : List Char) : Prop :=
  ∀ c ∈ word, c.isUpper = false

instance (word : List Char) : Decidable (IsSmall word) :=
  List.decidableBAll _ word

theorem toLower_of_mem {word : List Char} (h : IsSmall word) {c : Char} (hc : c ∈ word) :
    c.toLower = c := by
  have hsmall : ¬ (c.val ≥ 'A'.val ∧ c.val ≤ 'Z'.val) := of_decide_eq_false (h c hc)
  exact dif_neg hsmall

theorem lower_of_isSmall {word : List Char} (h : IsSmall word) : lower word = word :=
  (List.map_congr_left fun _ hc => toLower_of_mem h hc).trans (List.map_id word)

theorem graft_of_isSmall {tail : List Char} (h : IsSmall tail) (head ending : List Char) :
    graft head tail ending = head ++ ending := by
  have hstarts : startsUpper tail = false := by
    cases tail with
    | nil => rfl
    | cons c cs => exact h c List.mem_cons_self
  rw [graft, hstarts, if_neg (by simp)]

/-! ## What the tables do to plurals -/

/-- Words whose plural is its own singular are misread. -/
theorem isMisread_of_isUncountable {word : List Char} (hsmall : IsSmall (word ++ ['s']))
    (h : IsUncountable (word ++ ['s'])) : IsMisread word := by
  have htable : ∀ name ∈ uncountables, "s".toList <:+ name.toList →
      IsMisread name.toList.dropLast := by decide +kernel
  obtain ⟨name, hname, hword⟩ := h
  rw [lower_of_isSmall hsmall] at hword
  have hmisread := htable name hname (hword ▸ List.suffix_append _ _)
  rwa [hword, List.dropLast_concat] at hmisread

/-- An irregular plural is undone by its table, or the word is misread. -/
theorem irregular_eq_iff {word : List Char} (hsmall : IsSmall (word ++ ['s']))
    {entry : String × String} (hentry : entry ∈ irregulars)
    (hword : entry.1.toList = lower (word ++ ['s'])) :
    graft [] (word ++ ['s']) entry.2.toList = word ↔ ¬ IsMisread word := by
  have htable : ∀ entry ∈ irregulars, "s".toList <:+ entry.1.toList →
      (entry.2.toList = entry.1.toList.dropLast ↔ ¬ IsMisread entry.1.toList.dropLast) := by
    decide +kernel
  rw [lower_of_isSmall hsmall] at hword
  have hiff := htable entry hentry (hword ▸ List.suffix_append _ _)
  rwa [hword, List.dropLast_concat, ← List.nil_append entry.2.toList,
    ← graft_of_isSmall hsmall] at hiff

/-- What the suffix rules do to plurals with a plain `s`: they take it off, or replace the end of a
misread word. -/
theorem suffixRule_cases : ∀ rule ∈ suffixRules,
    (rule.1.toList = rule.2.toList ++ ['s'] ∧ (rule.2 = "shoe" ∨ rule.2 = "movie")) ∨
      ∃ ending ∈ "oe" :: misreadEnds, rule.1.toList = ending.toList ++ ['s'] ∧
        rule.2.toList ≠ ending.toList ∧ (ending = "oe" → rule = ("oes", "o")) := by
  decide +kernel

theorem EndsInConsonantIe.ie_suffix {word : List Char} (h : EndsInConsonantIe word) :
    "ie".toList <:+ word := by
  obtain ⟨c, -, -, hsuffix⟩ := h
  exact (List.suffix_cons c _).trans hsuffix

/-- Words that end in `shoe` or `movie` are not misread. -/
theorem not_isMisread_of_suffix {kept : String} {word : List Char}
    (hkept : kept = "shoe" ∨ kept = "movie") (hsuffix : kept.toList <:+ word) :
    ¬ IsMisread word := by
  have htable : ∀ kept ∈ ["shoe", "movie"], (∀ name ∈ misreadWords, Apart kept name) ∧
      (∀ ending ∈ misreadEnds, Apart kept ending) := by decide
  obtain ⟨hwords, hends⟩ := htable kept (by simpa using hkept)
  rintro (⟨name, hname, rfl⟩ | ⟨ending, hending, hend⟩ | ⟨hoe, hshoe⟩ | ⟨hie, -, hmovie⟩)
  · exact (hwords name hname).1 hsuffix
  · exact (hends ending hending).not_suffix hsuffix hend
  · rcases hkept with rfl | rfl
    · exact hshoe hsuffix
    · have hapart : Apart "movie" "oe" := by decide
      exact hapart.not_suffix hsuffix hoe
  · rcases hkept with rfl | rfl
    · have hapart : Apart "shoe" "ie" := by decide
      exact hapart.not_suffix hsuffix hie.ie_suffix
    · exact hmovie hsuffix

/-- A suffix rule undoes a plural, or the word is misread. -/
theorem suffixRule_eq_iff {word head tail : List Char} (hsmall : IsSmall (word ++ ['s']))
    {rule : String × String} (hrule : rule ∈ suffixRules) (hword : word ++ ['s'] = head ++ tail)
    (htail : lower tail = rule.1.toList)
    (hfirst : ∀ earlier ∈ suffixRules.takeWhile (· ≠ rule),
      ¬ earlier.1.toList <:+ lower (word ++ ['s'])) :
    graft head tail rule.2.toList = word ↔ ¬ IsMisread word := by
  have hsmallTail : IsSmall tail := by
    intro c hc
    exact hsmall c (hword ▸ List.mem_append_right head hc)
  rw [lower_of_isSmall hsmallTail] at htail
  rw [graft_of_isSmall hsmallTail]
  rw [htail] at hword
  rcases suffixRule_cases rule hrule with ⟨hplural, hkept⟩ | ⟨ending, hending, hplural, hne, hoe⟩
  · rw [hplural, ← List.append_assoc, List.append_left_inj] at hword
    exact iff_of_true hword.symm (not_isMisread_of_suffix hkept ⟨head, hword.symm⟩)
  · rw [hplural, ← List.append_assoc, List.append_left_inj] at hword
    have hend : ending.toList <:+ word := ⟨head, hword.symm⟩
    refine iff_of_false ?_ (not_not.mpr ?_)
    · rw [hword, List.append_right_inj]
      exact hne
    · rcases List.mem_cons.mp hending with rfl | hlisted
      · refine .inr (.inr (.inl ⟨hend, fun hshoe => ?_⟩))
        have hearlier : ("shoes", "shoe") ∈ suffixRules.takeWhile (· ≠ rule) := by
          rw [hoe rfl]
          decide
        refine hfirst ("shoes", "shoe") hearlier ?_
        rw [lower_of_isSmall hsmall]
        exact List.suffix_append_self_iff.mpr hshoe
      · exact .inr (.inl ⟨ending, hlisted, hend⟩)

/-- Words that end in `ie` after a consonant are misread, unless a table is about them. -/
theorem isMisread_of_consonantIes {word : List Char} (hsmall : IsSmall (word ++ ['s']))
    (hregular : ¬ IsIrregular (word ++ ['s'])) (hunmatched : IsUnmatched (word ++ ['s']))
    (hie : EndsInConsonantIe word) : IsMisread word := by
  refine .inr (.inr (.inr ⟨hie, ?_, fun hmovie => ?_⟩))
  · rintro rfl
    exact hregular ⟨("zombies", "zombie"), by decide, by decide⟩
  · refine hunmatched ("movies", "movie") (by decide) ?_
    rw [lower_of_isSmall hsmall]
    exact List.suffix_append_self_iff.mpr hmovie

/-- The plural of a word ends in `ies` after a consonant if the word ends in `ie` after one. -/
theorem endsInConsonantIes_append_s_iff {word : List Char} (hsmall : IsSmall (word ++ ['s'])) :
    EndsInConsonantIes (word ++ ['s']) ↔ EndsInConsonantIe word := by
  have hvowel : ∀ c, isVowel c = false ↔ c ∉ "aeiou".toList := by simp [isVowel]
  constructor
  · rintro ⟨head, c, tail, hword, hconsonant, htail⟩
    have hsmallTail : IsSmall tail := by
      intro d hd
      exact hsmall d (hword ▸ List.mem_append_right head (List.mem_cons_of_mem c hd))
    have hc : c.toLower = c :=
      toLower_of_mem hsmall (hword ▸ List.mem_append_right head List.mem_cons_self)
    rw [lower_of_isSmall hsmallTail] at htail
    have hies : head ++ c :: tail = head ++ c :: "ie".toList ++ ['s'] := by
      rw [htail, List.append_assoc]
      rfl
    rw [hies, List.append_left_inj] at hword
    subst hword
    rw [hc, hvowel] at hconsonant
    exact ⟨c, by simp, hconsonant, List.suffix_append _ _⟩
  · rintro ⟨c, hmem, hconsonant, head, rfl⟩
    have hc : c.toLower = c := toLower_of_mem hsmall (List.mem_append_left _ hmem)
    refine ⟨head, c, "ies".toList, ?_, ?_, rfl⟩
    · rw [List.append_assoc]
      rfl
    · rw [hc, hvowel]
      exact hconsonant

/-- Words that no table is about are not misread. -/
theorem IsUnlisted.not_isMisread {word : List Char} (hsmall : IsSmall (word ++ ['s']))
    (h : IsUnlisted (word ++ ['s'])) : ¬ IsMisread word := by
  have hrules : ∀ ending ∈ "oe" :: misreadEnds, ∃ rule ∈ suffixRules,
      rule.1.toList = ending.toList ++ ['s'] := by decide
  have hunmatched : ∀ ending ∈ "oe" :: misreadEnds, ¬ ending.toList <:+ word := by
    intro ending hending hsuffix
    obtain ⟨rule, hrule, hplural⟩ := hrules ending hending
    refine h.unmatched rule hrule ?_
    rw [hplural, lower_of_isSmall hsmall]
    exact List.suffix_append_self_iff.mpr hsuffix
  rintro (⟨name, hname, rfl⟩ | ⟨ending, hending, hend⟩ | ⟨hoe, -⟩ | ⟨hie, -⟩)
  · have hplurals : ∀ name ∈ misreadWords, ∃ plural ∈ uncountables,
        plural.toList = name.toList ++ ['s'] := by decide
    obtain ⟨plural, hplural, heq⟩ := hplurals name hname
    exact h.countable ⟨plural, hplural, by rw [heq, lower_of_isSmall hsmall]⟩
  · exact hunmatched ending (List.mem_cons_of_mem _ hending) hend
  · exact hunmatched "oe" List.mem_cons_self hoe
  · exact h.noConsonantIes ((endsInConsonantIes_append_s_iff hsmall).mpr hie)

/-! ## Segments -/

/-- The plural of a segment in small letters is undone, unless the segment is misread. -/
theorem Singular.eq_iff_not_isMisread {word result : List Char}
    (hsingular : Singular (word ++ ['s']) result) (hnil : word ≠ []) (h : IsSmall word) :
    result = word ↔ ¬ IsMisread word := by
  have hsmall : IsSmall (word ++ ['s']) := by
    intro c hc
    rcases List.mem_append.mp hc with hc | hc
    · exact h c hc
    · rw [List.mem_singleton.mp hc]
      decide
  cases hsingular with
  | uncountable huncountable =>
    exact iff_of_false (by simp) (not_not.mpr (isMisread_of_isUncountable hsmall huncountable))
  | irregular hentry _ hword => exact irregular_eq_iff hsmall hentry hword
  | suffixRule hrule _ _ hword htail hfirst =>
    exact suffixRule_eq_iff hsmall hrule hword htail hfirst
  | consonantIes _ hregular hunmatched hword hconsonant htail =>
    have hies : EndsInConsonantIes (word ++ ['s']) := ⟨_, _, _, hword, hconsonant, htail⟩
    have hie := (endsInConsonantIes_append_s_iff hsmall).mp hies
    refine iff_of_false ?_
      (not_not.mpr (isMisread_of_consonantIes hsmall hregular hunmatched hie))
    rintro rfl
    have hy : Apart "y" "ie" := by decide
    exact hy.not_suffix (List.suffix_append _ _) hie.ie_suffix
  | plainS hunlisted _ hword =>
    rw [List.append_left_inj] at hword
    exact iff_of_true hword.symm (hunlisted.not_isMisread hsmall)
  | unchanged _ hplain => exact absurd rfl (hplain word hnil)

end Letters

/-! ## Words -/

/-- Whether a sigil stands in front of a word. -/
def HasSigil (word : String) : Prop :=
  word.toList.head? = some '@' ∨ word.toList.head? = some '$'

instance (word : String) : Decidable (HasSigil word) :=
  inferInstanceAs (Decidable (_ ∨ _))

theorem stripSigil_append {word other : String} (hword : word.toList ≠ [])
    (hsigil : ¬ HasSigil word) : stripSigil (word ++ other) = word ++ other := by
  rw [← String.toList_inj, toList_stripSigil, String.toList_append]
  obtain ⟨c, cs, hcons⟩ := List.exists_cons_of_ne_nil hword
  rw [HasSigil, hcons, List.head?_cons, Option.some.injEq, Option.some.injEq] at hsigil
  rw [hcons, Letters.stripSigil, List.cons_append, List.dropWhile_cons_of_neg]
  simpa using hsigil

/-- **Plain plurals.**  If the last segment of a word is in small letters, then the word is the
singular of its plural with a plain `s`, unless the segment is misread.  The class that the plural
names is then the one that the word names. -/
theorem singularize_append_s_iff {word : String}
    (hsegment : Letters.lastSegment word.toList ≠ [])
    (hsmall : Letters.IsSmall (Letters.lastSegment word.toList)) :
    (singularize (word ++ "s") = word ↔ ¬ Letters.IsMisread (Letters.lastSegment word.toList)) ∧
      (¬ Letters.IsMisread (Letters.lastSegment word.toList) → ¬ HasSigil word →
        classify (word ++ "s") = camelize word) := by
  have hiff : singularize (word ++ "s") = word ↔
      ¬ Letters.IsMisread (Letters.lastSegment word.toList) := by
    obtain ⟨head, hhead, hword⟩ := Letters.exists_eq_append_lastSegment word.toList
    have hsingle := Letters.underscore_not_mem_lastSegment word.toList
    rw [← String.toList_inj, toList_singularize, String.toList_append]
    generalize Letters.lastSegment word.toList = segment at *
    have hplural : '_' ∉ segment ++ "s".toList := by simp [hsingle]
    rw [hword, List.append_assoc, Letters.singularize_append hhead hplural, List.append_right_inj]
    exact (Letters.singular_singularizeWord _).eq_iff_not_isMisread hsegment hsmall
  refine ⟨hiff, fun hread hsigil => ?_⟩
  have hword : word.toList ≠ [] := by
    intro hnil
    rw [hnil] at hsegment
    exact hsegment rfl
  rw [classify_eq, stripSigil_append hword hsigil, hiff.mpr hread]

theorem singularize_append_s_iff_movie :
    Letters.lastSegment "old_movie".toList ≠ [] ∧
      Letters.IsSmall (Letters.lastSegment "old_movie".toList) ∧
      ¬ Letters.IsMisread (Letters.lastSegment "old_movie".toList) ∧ ¬ HasSigil "old_movie" ∧
      singularize ("old_movie" ++ "s") = "old_movie" ∧
      classify ("old_movie" ++ "s") = camelize "old_movie" := by
  have hsegment : Letters.lastSegment "old_movie".toList ≠ [] := by decide
  have hsmall : Letters.IsSmall (Letters.lastSegment "old_movie".toList) := by decide
  have hread : ¬ Letters.IsMisread (Letters.lastSegment "old_movie".toList) := by decide +kernel
  have hsigil : ¬ HasSigil "old_movie" := by decide
  obtain ⟨hiff, hclass⟩ := singularize_append_s_iff hsegment hsmall
  exact ⟨hsegment, hsmall, hread, hsigil, hiff.mpr hread, hclass hread hsigil⟩

/-- Variables that miss their models. -/
example : classify "menus" = "Menus" ∧ classify "caches" = "Cach" ∧ classify "curves" = "Curf" := by
  decide +kernel

end RailsReview.Inflection
