import RailsReview.Proofs.Singulars

/-!
# Class names by parts

The class that an identifier names is put together from the classes that its parts name, and it does
not matter where the identifier is taken apart: at any underscore, at any slash, and however many of
them stand next to each other, in front or behind.

Everything about `camelize` follows from what it does at a slash, which is an equation of splitting
and joining, and from what it does at an underscore within one segment of a path.  With them a word
comes apart into parts without separators (`separatedInduction`), and of a part only the first
character is changed.  Its capital is a capital, lies beyond ASCII or is the character itself, so
that no separator can come in that way.

* `Text.isUpper_or_of_mem_upper`: what the capital of a character consists of.
* `Letters.camelize_append_slash`, `Letters.camelize_append_underscore`: words taken apart.
* `Letters.separator_not_mem_camelize`: no separator is left.
* `Letters.singularize_append_underscore`: what stands before an underscore is not inflected.
* `namesByParts`: the class that an identifier names.
-/

namespace RailsReview

namespace Text

/-- The capitals that the runs give are characters beyond ASCII, or ASCII capitals. -/
theorem capitalOf_of_mem_caseRuns : ∀ run ∈ caseRuns,
    (0x80 ≤ run.capital ∧
      (run.capital + (run.last - run.first) < 0xD800 ∨
        0xDFFF < run.capital ∧ run.capital + (run.last - run.first) < 0x110000)) ∨
      run.first = run.last ∧ (Char.ofNat run.capital).isUpper = true := by
  decide +kernel

theorem isUpper_or_of_mem_longCapitals : ∀ entry ∈ longCapitals, ∀ n ∈ entry.2,
    (Char.ofNat n).isUpper = true ∨ 0x80 ≤ (Char.ofNat n).toNat := by
  decide +kernel

theorem toUpper_eq_or_isUpper : ∀ n < 0x80,
    (Char.ofNat n).toUpper = Char.ofNat n ∨ (Char.ofNat n).toUpper.isUpper = true := by
  decide +kernel

/-- The capital that a run gives to a character that it covers. -/
theorem isUpper_or_capitalOf {run : CaseRun} (hrun : run ∈ caseRuns) {n : Nat}
    (h : run.covers n = true) :
    (Char.ofNat (run.capitalOf n)).isUpper = true ∨
      0x80 ≤ (Char.ofNat (run.capitalOf n)).toNat := by
  obtain ⟨⟨hfirst, hlast⟩, -⟩ : (run.first ≤ n ∧ n ≤ run.last) ∧ _ := by
    simpa [CaseRun.covers] using h
  rcases capitalOf_of_mem_caseRuns run hrun with ⟨hbeyond, hrange⟩ | ⟨hsingle, hupper⟩
  · have hvalid : (run.capitalOf n).isValidChar := by
      unfold CaseRun.capitalOf Nat.isValidChar
      omega
    have hcode : (Char.ofNat (run.capitalOf n)).toNat = run.capitalOf n := by
      rw [Char.ofNat, dif_pos hvalid]
      rfl
    refine .inr ?_
    rw [hcode, CaseRun.capitalOf]
    omega
  · obtain rfl : n = run.first := by omega
    refine .inl ?_
    rwa [CaseRun.capitalOf, Nat.sub_self, Nat.add_zero]

/-- A capital consists of ASCII capitals and characters beyond ASCII, unless the character is its
own capital. -/
theorem isUpper_or_of_mem_upper {c d : Char} (h : d ∈ upper c) :
    d = c ∨ d.isUpper = true ∨ 0x80 ≤ d.toNat := by
  unfold upper at h
  split at h
  · next hascii =>
    have htable := toUpper_eq_or_isUpper c.toNat hascii
    rw [Char.ofNat_toNat] at htable
    rw [List.mem_singleton.mp h]
    exact htable.imp_right .inl
  · split at h
    · next capital hlookup =>
      obtain ⟨before, after, htable, -⟩ := List.lookup_eq_some_iff.mp hlookup
      have hentry : (c.toNat, capital) ∈ longCapitals :=
        htable ▸ List.mem_append_right before List.mem_cons_self
      obtain ⟨n, hn, rfl⟩ := List.mem_map.mp h
      exact .inr (isUpper_or_of_mem_longCapitals _ hentry n hn)
    · split at h
      · next run hfind =>
        rw [List.mem_singleton.mp h]
        have hcovers := List.find?_some hfind
        exact .inr (isUpper_or_capitalOf (List.mem_of_find?_eq_some hfind) hcovers)
      · exact .inl (List.mem_singleton.mp h)

end Text

namespace Inflection

namespace Letters

/-! ## Words taken apart -/

/-- A path is taken apart at a slash. -/
theorem camelize_append_slash (word other : List Char) :
    camelize (word ++ '/' :: other) = camelize word ++ [':', ':'] ++ camelize other := by
  have hne : ∀ path : List Char, (path.splitOn '/').map camelizeSegment ≠ [] := fun path h =>
    List.splitOn_ne_nil '/' path (List.map_eq_nil_iff.mp h)
  rw [camelize, List.splitOn_append_cons_self, List.map_append,
    List.intercalate_append_of_ne_nil (hne word) (hne other)]
  rfl

/-- A segment is taken apart at an underscore. -/
theorem camelizeSegment_append_underscore (segment other : List Char) :
    camelizeSegment (segment ++ '_' :: other) =
      camelizeSegment segment ++ camelizeSegment other := by
  rw [camelizeSegment, List.splitOn_append_cons_self, List.map_append, List.flatten_append]
  rfl

theorem camelize_of_slash_not_mem {word : List Char} (h : '/' ∉ word) :
    camelize word = camelizeSegment word := by
  rw [camelize, List.splitOn_eq_singleton h, List.map_singleton, List.intercalate_singleton]

/-- A path is taken apart at an underscore, whichever segments stand next to it. -/
theorem camelize_append_underscore (word other : List Char) :
    camelize (word ++ '_' :: other) = camelize word ++ camelize other := by
  by_cases hword : '/' ∈ word
  · obtain ⟨first, rest, rfl, -⟩ := List.eq_append_cons_of_mem hword
    rw [List.append_assoc, List.cons_append, camelize_append_slash, camelize_append_slash,
      camelize_append_underscore rest other]
    simp only [List.append_assoc]
  by_cases hother : '/' ∈ other
  · obtain ⟨first, rest, rfl, -⟩ := List.eq_append_cons_of_mem hother
    have hsplit : word ++ '_' :: (first ++ '/' :: rest) = word ++ '_' :: first ++ '/' :: rest := by
      rw [List.append_assoc, List.cons_append]
    rw [hsplit, camelize_append_slash, camelize_append_slash,
      camelize_append_underscore word first]
    simp only [List.append_assoc]
  have hboth : '/' ∉ word ++ '_' :: other := by simp [hword, hother]
  rw [camelize_of_slash_not_mem hboth, camelize_of_slash_not_mem hword,
    camelize_of_slash_not_mem hother, camelizeSegment_append_underscore]
termination_by word.length + other.length
decreasing_by all_goals subst_vars; simp only [List.length_append, List.length_cons]; omega

/-! ## Separators -/

/-- Every word is a part without separators, or two words with a separator between them. -/
theorem separatedInduction {motive : List Char → Prop}
    (part : ∀ word, '_' ∉ word → '/' ∉ word → motive word)
    (underscore : ∀ word other, motive word → motive other → motive (word ++ '_' :: other))
    (slash : ∀ word other, motive word → motive other → motive (word ++ '/' :: other))
    (word : List Char) : motive word := by
  by_cases hunderscore : '_' ∈ word
  · obtain ⟨first, rest, rfl, -⟩ := List.eq_append_cons_of_mem hunderscore
    exact underscore first rest (separatedInduction part underscore slash first)
      (separatedInduction part underscore slash rest)
  by_cases hslash : '/' ∈ word
  · obtain ⟨first, rest, rfl, -⟩ := List.eq_append_cons_of_mem hslash
    exact slash first rest (separatedInduction part underscore slash first)
      (separatedInduction part underscore slash rest)
  exact part word hunderscore hslash
termination_by word.length
decreasing_by all_goals subst_vars; simp only [List.length_append, List.length_cons]; omega

/-- A part without separators is only capitalised. -/
theorem camelize_of_separator_not_mem {word : List Char} (hunderscore : '_' ∉ word)
    (hslash : '/' ∉ word) : camelize word = capitalize word := by
  rw [camelize_of_slash_not_mem hslash, camelizeSegment, List.splitOn_eq_singleton hunderscore,
    List.map_singleton, List.flatten_singleton]

theorem not_mem_capitalize {separator : Char} (hseparator : separator = '_' ∨ separator = '/')
    {word : List Char} (h : separator ∉ word) : separator ∉ capitalize word := by
  cases word with
  | nil => exact List.not_mem_nil
  | cons c cs =>
    rw [List.mem_cons, not_or] at h
    rw [capitalize, List.mem_append, not_or]
    refine ⟨fun hmem => ?_, h.2⟩
    have hascii : separator.isUpper = false ∧ separator.toNat < 0x80 := by
      rcases hseparator with rfl | rfl <;> decide
    rcases Text.isUpper_or_of_mem_upper hmem with heq | hupper | hbeyond
    · exact h.1 heq
    · exact Bool.noConfusion (hascii.1.symm.trans hupper)
    · exact absurd hbeyond (Nat.not_le.mpr hascii.2)

/-- A class name holds no separator. -/
theorem separator_not_mem_camelize {separator : Char}
    (hseparator : separator = '_' ∨ separator = '/') (word : List Char) :
    separator ∉ camelize word := by
  induction word using separatedInduction with
  | part word hunderscore hslash =>
    rw [camelize_of_separator_not_mem hunderscore hslash]
    refine not_mem_capitalize hseparator ?_
    rcases hseparator with rfl | rfl
    · exact hunderscore
    · exact hslash
  | underscore word other hword hother =>
    rw [camelize_append_underscore, List.mem_append, not_or]
    exact ⟨hword, hother⟩
  | slash word other hword hother =>
    have hcolon : separator ∉ [':', ':'] := by
      rcases hseparator with rfl | rfl <;> decide
    rw [camelize_append_slash, List.mem_append, List.mem_append, not_or, not_or]
    exact ⟨⟨hword, hcolon⟩, hother⟩

/-! ## Singulars and sigils -/

/-- What stands before an underscore is not inflected. -/
theorem singularize_append_underscore (word other : List Char) :
    singularize (word ++ '_' :: other) = word ++ '_' :: singularize other := by
  obtain ⟨head, hhead, hother⟩ := exists_eq_append_lastSegment other
  have hsingle := underscore_not_mem_lastSegment other
  generalize lastSegment other = last at hother hsingle
  have hends : EndsSegment (word ++ '_' :: head) := by
    rcases hhead with rfl | ⟨start, rfl⟩
    · exact .inr ⟨word, rfl⟩
    · exact .inr ⟨word ++ '_' :: start, by rw [List.append_assoc, List.cons_append]⟩
  have hsplit : word ++ '_' :: (head ++ last) = word ++ '_' :: head ++ last := by
    rw [List.append_assoc, List.cons_append]
  rw [hother, hsplit, singularize_append hends hsingle, singularize_append hhead hsingle,
    List.append_assoc, List.cons_append]

theorem stripSigil_append_underscore (word other : List Char) :
    stripSigil (word ++ '_' :: other) = stripSigil word ++ '_' :: other := by
  rw [stripSigil, List.dropWhile_append]
  split
  · next hempty =>
    rw [stripSigil, List.isEmpty_iff.mp hempty]
    rfl
  · rfl

theorem stripSigil_append_of_sigils {sigils : List Char} (h : ∀ c ∈ sigils, c = '@' ∨ c = '$')
    (word : List Char) : stripSigil (sigils ++ word) = stripSigil word :=
  List.dropWhile_append_of_pos fun c hc => by simpa using h c hc

end Letters

/-! ## Identifiers -/

/-- How the class that an identifier names is made up of what its parts name. -/
structure NamesByParts (word other : String) : Prop where
  camelize_underscore : camelize (word ++ "_" ++ other) = camelize word ++ camelize other
  camelize_slash : camelize (word ++ "/" ++ other) = camelize word ++ "::" ++ camelize other
  /-- Only what follows the last underscore is inflected, -/
  singularize_underscore : singularize (word ++ "_" ++ other) = word ++ "_" ++ singularize other
  /-- so that what stands before an underscore is only stripped of its sigils and capitalised. -/
  classify_underscore :
    classify (word ++ "_" ++ other) = camelize (stripSigil word) ++ camelize (singularize other)
  /-- Sigils in front do not matter. -/
  classify_sigils : ∀ sigils : String, (∀ c ∈ sigils.toList, c = '@' ∨ c = '$') →
    classify (sigils ++ word) = classify word
  /-- The class has a name without separators. -/
  separator_not_mem : '_' ∉ (classify word).toList ∧ '/' ∉ (classify word).toList

theorem camelize_append_underscore (word other : String) :
    camelize (word ++ "_" ++ other) = camelize word ++ camelize other := by
  rw [← String.toList_inj]
  simpa using Letters.camelize_append_underscore word.toList other.toList

theorem singularize_append_underscore (word other : String) :
    singularize (word ++ "_" ++ other) = word ++ "_" ++ singularize other := by
  rw [← String.toList_inj]
  simpa using Letters.singularize_append_underscore word.toList other.toList

/-- **Class names by parts.**  The class that an identifier names is made up of what its parts
name, wherever the identifier is taken apart. -/
theorem namesByParts (word other : String) : NamesByParts word other where
  camelize_underscore := camelize_append_underscore word other
  camelize_slash := by
    rw [← String.toList_inj]
    simpa using Letters.camelize_append_slash word.toList other.toList
  singularize_underscore := singularize_append_underscore word other
  classify_underscore := by
    have hstrip : stripSigil (word ++ "_" ++ other) = stripSigil word ++ "_" ++ other := by
      rw [← String.toList_inj]
      simpa using Letters.stripSigil_append_underscore word.toList other.toList
    rw [classify_eq, hstrip, singularize_append_underscore, camelize_append_underscore]
  classify_sigils sigils hsigils := by
    have hstrip : stripSigil (sigils ++ word) = stripSigil word := by
      rw [← String.toList_inj]
      simpa using Letters.stripSigil_append_of_sigils hsigils word.toList
    rw [classify_eq, hstrip, ← classify_eq]
  separator_not_mem := by
    rw [toList_classify, Letters.classify]
    exact ⟨Letters.separator_not_mem_camelize (.inl rfl) _,
      Letters.separator_not_mem_camelize (.inr rfl) _⟩

/-- Doubled, leading and trailing separators. -/
example : classify "@__admin//line_/_items" = "Admin::::Line::Item" := by
  decide +kernel

end Inflection

end RailsReview
