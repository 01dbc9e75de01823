/-!
# Suffixes

What is left of a text without a given ending.
-/

namespace RailsReview.Text

/-- The text without an ending, if it ends so. -/
def stripSuffix? (text ending : String) : Option String :=
  if ending.toList.isSuffixOf text.toList then
    some (String.ofList (text.toList.take (text.toList.length - ending.toList.length)))
  else none

/-- What is left of a text is what the ending has to be put after to get the text back. -/
theorem stripSuffix?_eq_some_iff {text ending rest : String} :
    stripSuffix? text ending = some rest ↔ text = rest ++ ending := by
  constructor
  · intro h
    rw [stripSuffix?] at h
    split at h
    · next hsuffix =>
      obtain ⟨start, hstart⟩ := List.isSuffixOf_iff_suffix.mp hsuffix
      have htake : text.toList.take (text.toList.length - ending.toList.length) = start := by
        rw [← hstart, List.length_append, Nat.add_sub_cancel, List.take_left]
      rw [htake, Option.some.injEq] at h
      rw [← String.toList_inj, String.toList_append, ← hstart, ← h, String.toList_ofList]
    · exact absurd h (by simp)
  · rintro rfl
    have hsuffix : ending.toList.isSuffixOf (rest ++ ending).toList = true := by
      rw [String.toList_append]
      exact List.isSuffixOf_iff_suffix.mpr (List.suffix_append _ _)
    rw [stripSuffix?, if_pos hsuffix, String.toList_append, List.length_append,
      Nat.add_sub_cancel, List.take_left, String.ofList_toList]

theorem stripSuffix?_eq_none_iff {text ending : String} :
    stripSuffix? text ending = none ↔ ∀ rest, text ≠ rest ++ ending := by
  rw [Option.eq_none_iff_forall_ne_some]
  exact forall_congr' fun rest => not_congr stripSuffix?_eq_some_iff

end RailsReview.Text
