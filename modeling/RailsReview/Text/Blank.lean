/-!
# Blank characters

The characters with the Unicode property `White_Space`, and texts without anything else.  A name is
blank when it is empty or made of such characters only; a list entry is read without the blanks
around it.
-/

namespace RailsReview.Text

/-- Whether `c` has the Unicode property `White_Space`. -/
def isBlank (c : Char) : Bool :=
  let n := c.toNat
  (9 ≤ n && n ≤ 13) || n == 0x20 || n == 0x85 || n == 0xA0 || n == 0x1680 ||
    (0x2000 ≤ n && n ≤ 0x200A) || n == 0x2028 || n == 0x2029 || n == 0x202F || n == 0x205F ||
    n == 0x3000

/-- The text without the blanks at its start and at its end. -/
def trim (text : List Char) : List Char :=
  ((text.dropWhile isBlank).reverse.dropWhile isBlank).reverse

/-- Whether nothing is left of a name once its blanks are trimmed. -/
def isBlankName (name : String) : Bool :=
  (trim name.toList).isEmpty

/-- Nothing is left of a text that has no other characters than blanks. -/
theorem trim_eq_nil_iff {text : List Char} : trim text = [] ↔ ∀ c ∈ text, isBlank c = true := by
  rw [trim, List.reverse_eq_nil_iff]
  induction text with
  | nil => simp
  | cons c cs ih =>
    by_cases hc : isBlank c = true
    · rw [List.dropWhile_cons_of_pos hc, ih]
      simp [hc]
    · rw [List.dropWhile_cons_of_neg hc, List.reverse_cons, List.dropWhile_append]
      split <;> simp [hc]

theorem isBlankName_eq_true_iff {name : String} :
    isBlankName name = true ↔ ∀ c ∈ name.toList, isBlank c = true := by
  rw [isBlankName, List.isEmpty_iff, trim_eq_nil_iff]

end RailsReview.Text
