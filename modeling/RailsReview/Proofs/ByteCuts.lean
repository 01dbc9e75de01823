import RailsReview.Proofs.Data.String
import RailsReview.Proofs.Singulars

/-!
# Cutting words by bytes

Words are cut where an ending starts, and behind their last underscore.  To find the place, one can
count the bytes of the ending, or of what stands before the underscore.  A cut by bytes goes wrong where
it is inside a character, or where there are not enough bytes.

Neither happens.  The tables are in ASCII, and small letters are made of ASCII letters alone, so that
what fits in small letters is as many bytes long as it has letters, whatever else stands in the word.

* `Text.cutAt?_eq_some_iff`: the cuts between characters.
* `Letters.replacement?`, `Letters.singularizeWord_eq`: what is replaced in a word.
* `Letters.exists_tail_of_replacement?`: what is replaced is the end of the word, in ASCII.
* `replacesEnd`: so it can be cut off by bytes.
* `exists_cut_of_lastUnderscore?`: so can what is before the last segment.
* `cutsBetweenCharacters`: no cut goes wrong.
-/

namespace RailsReview

namespace Text

/-! ## Cuts -/

/-- The parts of a text before and behind a byte, if that is not inside a character. -/
def cutAt? (text : String) (byte : Nat) : Option (String × String) :=
  if h : String.Pos.Raw.IsValid text ⟨byte⟩ then
    some ((text.sliceTo ⟨⟨byte⟩, h⟩).copy, (text.sliceFrom ⟨⟨byte⟩, h⟩).copy)
  else none

/-- A text can be cut at a byte into the parts of which the first has as many bytes. -/
theorem cutAt?_eq_some_iff {text head tail : String} {byte : Nat} :
    cutAt? text byte = some (head, tail) ↔ text = head ++ tail ∧ head.utf8ByteSize = byte := by
  unfold cutAt?
  constructor
  · intro h
    split at h
    · next hvalid =>
      cases h
      have hsplits := String.Pos.splits (s := text) ⟨⟨byte⟩, hvalid⟩
      exact ⟨hsplits.eq_append, congrArg String.Pos.Raw.byteIdx hsplits.offset_eq_rawEndPos.symm⟩
    · cases h
  · rintro ⟨rfl, rfl⟩
    have hvalid : String.Pos.Raw.IsValid (head ++ tail) ⟨head.utf8ByteSize⟩ :=
      String.Pos.Raw.isValid_iff_exists_append.mpr ⟨head, tail, rfl, rfl⟩
    have hsplits : String.Pos.Splits ⟨⟨head.utf8ByteSize⟩, hvalid⟩ head tail := ⟨rfl, rfl⟩
    rw [dif_pos hvalid, hsplits.copy_sliceTo_eq, hsplits.copy_sliceFrom_eq]

/-- A text is in ASCII. -/
def IsAscii (text : List Char) : Prop :=
  ∀ c ∈ text, c.toNat ≤ 127

instance : DecidablePred IsAscii := fun text =>
  List.decidableBAll _ text

/-- In ASCII, there is one byte for each character. -/
theorem IsAscii.utf8ByteSize_eq {text : List Char} (h : IsAscii text) :
    (String.ofList text).utf8ByteSize = text.length := by
  induction text with
  | nil => rfl
  | cons c text ih =>
    rw [IsAscii, List.forall_mem_cons] at h
    rw [String.ofList_cons, String.utf8ByteSize_append, String.utf8ByteSize_singleton,
      Char.utf8Size_eq_one_iff.mpr h.1, ih h.2, List.length_cons, Nat.add_comm]

end Text

namespace Inflection

namespace Letters

/-- Only ASCII letters have small letters in ASCII. -/
theorem isAscii_of_lower {word : List Char} (h : Text.IsAscii (lower word)) :
    Text.IsAscii word := by
  intro c hc
  have hsmall := h c.toLower (List.mem_map_of_mem hc)
  unfold Char.toLower at hsmall
  split at hsmall
  · next hupper =>
      have hle : c.toNat ≤ 'Z'.toNat := UInt32.le_iff_toNat_le.mp hupper.2
      exact hle.trans (by decide)
  · exact hsmall

/-! ## What is replaced -/

/-- What is replaced at the end of a word, as it is listed, with what comes in its place. -/
def replacement? (word : List Char) : Option (String × String) :=
  if uncountables.any (·.toList == lower word) then none
  else (irregulars.find? (·.1.toList == lower word)).or
    ((suffixRules.find? (·.1.toList.isSuffixOf (lower word))).or
      (if endsInConsonantIes (lower word) then some ("ies", "y") else none))

/-- Where nothing is replaced, the word is its own plural, or at most an `s` is dropped. -/
theorem singularizeWord_eq (word : List Char) :
    singularizeWord word = match replacement? word with
      | some (plural, singular) => replaceEnd word plural.toList.length singular.toList
      | none => if uncountables.any (·.toList == lower word) then word else dropPlainS word := by
  unfold singularizeWord replacement?
  by_cases huncountable : uncountables.any (·.toList == lower word) = true
  · rw [if_pos huncountable, if_pos huncountable, if_pos huncountable]
  · rw [if_neg huncountable, if_neg huncountable, if_neg huncountable]
    cases irregulars.find? (·.1.toList == lower word) with
    | some entry => rfl
    | none =>
      cases suffixRules.find? (·.1.toList.isSuffixOf (lower word)) with
      | some rule => rfl
      | none =>
        dsimp only
        split <;> rfl

/-- At most an `s` at the end is dropped. -/
theorem dropPlainS_eq_or (word : List Char) :
    dropPlainS word = word ∨ word = dropPlainS word ++ ['s'] := by
  unfold dropPlainS
  split
  · next hs =>
    rw [Bool.and_eq_true, beq_iff_eq] at hs
    exact .inr (List.dropLast_append_getLast? 's' hs.1).symm
  · exact .inl rfl

theorem singularizeWord_of_replacement?_eq_none {word : List Char} (h : replacement? word = none) :
    singularizeWord word = word ∨ word = singularizeWord word ++ ['s'] := by
  rw [singularizeWord_eq, h]
  dsimp only
  split
  · exact .inl rfl
  · exact dropPlainS_eq_or word

/-- All that can be replaced, and with what. -/
def replacements : List (String × String) :=
  irregulars ++ suffixRules ++ [("ies", "y")]

/-- What is replaced is listed, and in small letters it is the end of the word. -/
theorem mem_and_suffix_of_replacement? {word : List Char} {entry : String × String}
    (h : replacement? word = some entry) :
    entry ∈ replacements ∧ entry.1.toList <:+ lower word := by
  unfold replacement? at h
  rw [Option.ite_none_left_eq_some, Option.or_eq_some_iff, Option.or_eq_some_iff] at h
  rw [replacements, List.mem_append, List.mem_append]
  rcases h with ⟨-, hirregular | ⟨-, hrule | ⟨-, hies⟩⟩⟩
  · have hword : entry.1.toList = lower word := by simpa using List.find?_some hirregular
    exact ⟨.inl (.inl (List.mem_of_find?_eq_some hirregular)), hword ▸ List.suffix_rfl⟩
  · have hsuffix : entry.1.toList <:+ lower word := by simpa using List.find?_some hrule
    exact ⟨.inl (.inr (List.mem_of_find?_eq_some hrule)), hsuffix⟩
  · rw [Option.ite_none_right_eq_some, Option.some.injEq] at hies
    obtain ⟨hconsonant, rfl⟩ := hies
    obtain ⟨head, c, tail, hword, -, htail⟩ := endsInConsonantIes_lower_iff.mp hconsonant
    exact ⟨.inr (List.mem_singleton_self _), ies_suffix_lower hword htail⟩

/-- The tables are in ASCII, and of a singular only the first letter is ever capitalised. -/
theorem replacements_table : ∀ entry ∈ replacements, Text.IsAscii entry.1.toList ∧
    camelize entry.2.toList = entry.2.toList.modifyHead Char.toUpper := by
  decide +kernel

/-- What is replaced is an end of the word in ASCII, which is what is listed in small letters. -/
theorem exists_tail_of_replacement? {word : List Char} {plural singular : String}
    (h : replacement? word = some (plural, singular)) :
    ∃ head tail, word = head ++ tail ∧ lower tail = plural.toList ∧ Text.IsAscii tail ∧
      singularizeWord word = if head = [] ∧ startsUpper word = true
        then singular.toList.modifyHead Char.toUpper else head ++ singular.toList := by
  obtain ⟨hmem, hsuffix⟩ := mem_and_suffix_of_replacement? h
  obtain ⟨hascii, hcapital⟩ := replacements_table _ hmem
  obtain ⟨head, tail, rfl, htail⟩ := suffix_lower_iff.mp hsuffix
  refine ⟨head, tail, rfl, htail, isAscii_of_lower (htail ▸ hascii), ?_⟩
  have hlength : plural.toList.length = tail.length := by rw [← length_lower tail, htail]
  have hsingular := singularizeWord_eq (head ++ tail)
  rw [h] at hsingular
  dsimp only at hsingular
  rw [hsingular, hlength, replaceEnd_append, graft, hcapital]
  refine if_congr (and_congr_right fun hhead => ?_) rfl rfl
  rw [hhead, List.nil_append]

end Letters

/-! ## Singulars by bytes -/

/-- The word with its last `size` bytes replaced, unless that cuts through a character, or there are
not so many.  Where they are the whole word, an ASCII capital at its start is kept. -/
def replaceSuffix? (word : String) (size : Nat) (ending : String) : Option String :=
  if size ≤ word.utf8ByteSize then
    (Text.cutAt? word (word.utf8ByteSize - size)).map fun (head, _) =>
      if head.isEmpty && Letters.startsUpper word.toList then camelize ending else head ++ ending
  else none

/-- The singular of a word without underscores, whose end is cut off by bytes. -/
def singularizeWordByBytes? (word : String) : Option String :=
  match Letters.replacement? word.toList with
  | some (plural, singular) => replaceSuffix? word plural.utf8ByteSize singular
  | none =>
    some (if uncountables.any (·.toList == Letters.lower word.toList) then word
      else String.ofList (Letters.dropPlainS word.toList))

/-- The byte at which the last underscore of a word stands. -/
def lastUnderscore? (word : String) : Option Nat :=
  if '_' ∈ word.toList then
    some (String.ofList (word.toList.rdropWhile (· ≠ '_')).dropLast).utf8ByteSize
  else none

/-- The singular of an underscored word, which is cut by bytes behind its last underscore. -/
def singularizeByBytes? (word : String) : Option String :=
  match lastUnderscore? word with
  | some byte => (Text.cutAt? word (byte + 1)).bind fun (head, last) =>
      (singularizeWordByBytes? last).map (head ++ ·)
  | none => singularizeWordByBytes? word

/-- The end of a word is replaced: it can be cut off by bytes, it is what is listed, and nothing else
is lost. -/
structure ReplacesEnd (word plural singular : String) : Prop where
  /-- The word has as many bytes as are cut off, -/
  size_le : plural.utf8ByteSize ≤ word.utf8ByteSize
  /-- and no character has bytes on both sides of the cut. -/
  isValid : String.Pos.Raw.IsValid word ⟨word.utf8ByteSize - plural.utf8ByteSize⟩
  /-- So the cut goes well, and leads to the singular. -/
  replaceSuffix?_eq : replaceSuffix? word plural.utf8ByteSize singular =
    some (String.ofList (Letters.singularizeWord word.toList))
  /-- What is cut off is what is listed, but for ASCII capitals.  The other part is kept, and where it
  is empty, a capital at the start. -/
  exists_parts : ∃ head tail, word = head ++ tail ∧ tail.utf8ByteSize = plural.utf8ByteSize ∧
    Text.IsAscii tail.toList ∧ Letters.lower tail.toList = plural.toList ∧
      String.ofList (Letters.singularizeWord word.toList) =
        if head = "" ∧ Letters.startsUpper word.toList = true
          then String.ofList (singular.toList.modifyHead Char.toUpper) else head ++ singular

theorem replaceSuffix?_append (head tail singular : String) :
    replaceSuffix? (head ++ tail) tail.utf8ByteSize singular =
      some (if head = "" ∧ Letters.startsUpper (head ++ tail).toList = true
        then camelize singular else head ++ singular) := by
  have hcut : Text.cutAt? (head ++ tail) ((head ++ tail).utf8ByteSize - tail.utf8ByteSize) =
      some (head, tail) := by
    rw [Text.cutAt?_eq_some_iff, String.utf8ByteSize_append, Nat.add_sub_cancel]
    exact ⟨rfl, rfl⟩
  rw [replaceSuffix?, if_pos (String.utf8ByteSize_le_append head tail), hcut, Option.map_some]
  simp only [Bool.and_eq_true, String.isEmpty_iff]

/-- The parts of a word whose end is replaced. -/
theorem exists_parts_of_replacement? {word plural singular : String}
    (h : Letters.replacement? word.toList = some (plural, singular)) :
    ∃ head tail, word = head ++ tail ∧ tail.utf8ByteSize = plural.utf8ByteSize ∧
      Text.IsAscii tail.toList ∧ Letters.lower tail.toList = plural.toList ∧
        String.ofList (Letters.singularizeWord word.toList) =
          if head = "" ∧ Letters.startsUpper word.toList = true
            then String.ofList (singular.toList.modifyHead Char.toUpper) else head ++ singular := by
  have hmem := (Letters.mem_and_suffix_of_replacement? h).1
  obtain ⟨head, tail, hword, htail, hascii, hsingular⟩ := Letters.exists_tail_of_replacement? h
  have hplural : plural.utf8ByteSize = plural.toList.length := by
    rw [← (Letters.replacements_table _ hmem).1.utf8ByteSize_eq, String.ofList_toList]
  refine ⟨String.ofList head, String.ofList tail, ?_, ?_, ?_, ?_, ?_⟩
  · rw [← String.ofList_append, ← hword, String.ofList_toList]
  · rw [hascii.utf8ByteSize_eq, hplural, ← htail, Letters.length_lower]
  · rwa [String.toList_ofList]
  · rwa [String.toList_ofList]
  · rw [hsingular, apply_ite String.ofList, String.ofList_append, String.ofList_toList]
    exact if_congr (and_congr_left fun _ => String.ofList_eq_empty_iff.symm) rfl rfl

/-- Whatever is replaced can be cut off by bytes. -/
theorem replacesEnd {word plural singular : String}
    (h : Letters.replacement? word.toList = some (plural, singular)) :
    ReplacesEnd word plural singular := by
  have hmem := (Letters.mem_and_suffix_of_replacement? h).1
  have hparts := exists_parts_of_replacement? h
  obtain ⟨head, tail, rfl, hsize, -, -, hsingular⟩ := exists_parts_of_replacement? h
  have hcapital : camelize singular = String.ofList (singular.toList.modifyHead Char.toUpper) := by
    rw [camelize, (Letters.replacements_table _ hmem).2]
  refine ⟨?_, ?_, ?_, hparts⟩
  · rw [← hsize]
    exact String.utf8ByteSize_le_append head tail
  · rw [← hsize, String.utf8ByteSize_append, Nat.add_sub_cancel]
    exact String.Pos.Raw.isValid_iff_exists_append.mpr ⟨head, tail, rfl, rfl⟩
  · rw [← hsize, replaceSuffix?_append, hsingular, hcapital]

theorem singularizeWordByBytes?_eq (word : String) :
    singularizeWordByBytes? word = some (String.ofList (Letters.singularizeWord word.toList)) := by
  unfold singularizeWordByBytes?
  cases h : Letters.replacement? word.toList with
  | some entry => exact (replacesEnd h).replaceSuffix?_eq
  | none =>
    rw [Letters.singularizeWord_eq, h]
    dsimp only
    rw [apply_ite String.ofList, String.ofList_toList]

/-! ## Segments -/

theorem lastUnderscore?_append {start last : String} (h : '_' ∉ last.toList) :
    lastUnderscore? (start ++ "_" ++ last) = some start.utf8ByteSize := by
  have hword : (start ++ "_" ++ last).toList = start.toList ++ '_' :: last.toList := by
    rw [String.toList_append, String.toList_append, List.append_assoc]
    rfl
  have hmem : '_' ∈ start.toList ++ '_' :: last.toList := by simp
  have hlast : ∀ c ∈ last.toList, decide (c ≠ '_') = true := fun c hc =>
    decide_eq_true fun heq => h (heq ▸ hc)
  rw [lastUnderscore?, hword, if_pos hmem, List.rdropWhile_append_cons (by simp) start.toList hlast,
    List.dropLast_concat, String.ofList_toList]

theorem lastUnderscore?_eq_none_iff {word : String} :
    lastUnderscore? word = none ↔ '_' ∉ word.toList := by
  rw [lastUnderscore?, ite_eq_right_iff]
  exact ⟨fun h hmem => Option.some_ne_none _ (h hmem), fun h hmem => absurd hmem h⟩

/-- The parts of a word around its last underscore. -/
theorem exists_append_of_lastUnderscore? {word : String} {byte : Nat}
    (h : lastUnderscore? word = some byte) :
    ∃ start last, word = start ++ "_" ++ last ∧ '_' ∉ last.toList ∧ start.utf8ByteSize = byte := by
  obtain ⟨head, hhead, hword⟩ := Letters.exists_eq_append_lastSegment word.toList
  have hlast := Letters.underscore_not_mem_lastSegment word.toList
  generalize Letters.lastSegment word.toList = last at hword hlast
  rcases hhead with rfl | ⟨start, rfl⟩
  · rw [List.nil_append] at hword
    rw [lastUnderscore?_eq_none_iff.mpr (hword ▸ hlast)] at h
    cases h
  · have hsplit : word = String.ofList start ++ "_" ++ String.ofList last := by
      rw [← String.toList_inj, hword, String.toList_append, String.toList_append,
        String.toList_ofList (l := start), String.toList_ofList (l := last)]
      rfl
    rw [← String.toList_ofList (l := last)] at hlast
    rw [hsplit, lastUnderscore?_append hlast] at h
    exact ⟨_, _, hsplit, hlast, Option.some.inj h⟩

/-- The byte behind the last underscore of a word is not inside a character, and only what starts
there is inflected. -/
theorem exists_cut_of_lastUnderscore? {word : String} {byte : Nat}
    (h : lastUnderscore? word = some byte) :
    ∃ start last, Text.cutAt? word (byte + 1) = some (start ++ "_", last) ∧
      word = start ++ "_" ++ last ∧ '_' ∉ last.toList ∧
        singularize word = start ++ "_" ++ String.ofList (Letters.singularizeWord last.toList) := by
  obtain ⟨start, last, rfl, hlast, rfl⟩ := exists_append_of_lastUnderscore? h
  have hcut : Text.cutAt? (start ++ "_" ++ last) (start.utf8ByteSize + 1) =
      some (start ++ "_", last) := by
    rw [Text.cutAt?_eq_some_iff, String.utf8ByteSize_append]
    exact ⟨rfl, rfl⟩
  have hends : Letters.EndsSegment (start ++ "_").toList := by
    rw [String.toList_append]
    exact .inr ⟨start.toList, rfl⟩
  refine ⟨start, last, hcut, rfl, hlast, ?_⟩
  rw [singularize, String.toList_append, Letters.singularize_append hends hlast,
    String.ofList_append, String.ofList_toList]

/-- A word without underscores is inflected as a whole. -/
theorem singularize_of_lastUnderscore?_eq_none {word : String} (h : lastUnderscore? word = none) :
    singularize word = String.ofList (Letters.singularizeWord word.toList) :=
  congrArg String.ofList
    (Letters.singularize_append (.inl rfl) (lastUnderscore?_eq_none_iff.mp h))

/-- Counting bytes leads to the singular, whatever the word. -/
theorem singularizeByBytes?_eq (word : String) :
    singularizeByBytes? word = some (singularize word) := by
  unfold singularizeByBytes?
  cases h : lastUnderscore? word with
  | some byte =>
    obtain ⟨start, last, hcut, -, -, hsingular⟩ := exists_cut_of_lastUnderscore? h
    dsimp only
    rw [hcut, Option.bind_some, singularizeWordByBytes?_eq, Option.map_some, hsingular]
  | none =>
    dsimp only
    rw [singularizeWordByBytes?_eq, singularize_of_lastUnderscore?_eq_none h]

/-- No cut by bytes is inside a character of the word, or loses one. -/
structure CutsBetweenCharacters (word : String) : Prop where
  /-- The singular can be made with cuts by bytes. -/
  singularizeByBytes?_eq : singularizeByBytes? word = some (singularize word)
  /-- Every end that is replaced can be cut off, in a word that is a segment as in any other. -/
  replacesEnd : ∀ plural singular, Letters.replacement? word.toList = some (plural, singular) →
    ReplacesEnd word plural singular
  /-- Where no end is replaced, the word stays as it is, or an `s` is dropped at its end. -/
  singularizeWord_eq_or : Letters.replacement? word.toList = none →
    Letters.singularizeWord word.toList = word.toList ∨
      word.toList = Letters.singularizeWord word.toList ++ ['s']
  /-- Behind the last underscore, the word falls into two parts, of which the second is inflected. -/
  exists_cut : ∀ byte, lastUnderscore? word = some byte →
    ∃ start last, Text.cutAt? word (byte + 1) = some (start ++ "_", last) ∧
      word = start ++ "_" ++ last ∧ '_' ∉ last.toList ∧
        singularize word = start ++ "_" ++ String.ofList (Letters.singularizeWord last.toList)
  /-- Where there is no underscore, the word is inflected as a whole. -/
  eq_of_lastUnderscore?_eq_none : lastUnderscore? word = none →
    '_' ∉ word.toList ∧ singularize word = String.ofList (Letters.singularizeWord word.toList)

/-- Words in any script are cut between their characters. -/
theorem cutsBetweenCharacters (word : String) : CutsBetweenCharacters word where
  singularizeByBytes?_eq := singularizeByBytes?_eq word
  replacesEnd _ _ := replacesEnd
  singularizeWord_eq_or := Letters.singularizeWord_of_replacement?_eq_none
  exists_cut _ := exists_cut_of_lastUnderscore?
  eq_of_lastUnderscore?_eq_none h :=
    ⟨lastUnderscore?_eq_none_iff.mp h, singularize_of_lastUnderscore?_eq_none h⟩

/-- The cut is between the two bytes of `É` and the three bytes of `IES`. -/
example : singularizeByBytes? "straße_ÉIES" = some "straße_Éy" := by decide +kernel

end Inflection

end RailsReview
