/-!
# Strings and digits

* `String.utf8ByteSize_le_append`: the end of a string has no more bytes than the string.
* `Nat.exists_toDigits_eq_cons`, `Nat.toDigits_ne_zero_cons`: the decimal digits of a number, and
  which of them comes first.
-/

theorem String.utf8ByteSize_le_append (head tail : String) :
    tail.utf8ByteSize ≤ (head ++ tail).utf8ByteSize := by
  rw [String.utf8ByteSize_append]
  exact Nat.le_add_left _ _

namespace Nat

/-- There is a first digit. -/
theorem exists_toDigits_eq_cons (n : Nat) :
    ∃ c digits, toDigits 10 n = c :: digits ∧ c.isDigit = true := by
  cases h : toDigits 10 n with
  | nil => exact absurd h toDigits_ne_nil
  | cons c digits =>
    exact ⟨c, digits, rfl, isDigit_of_mem_toDigits (b := 10) (n := n) (by decide) (by decide)
      (h ▸ List.mem_cons_self)⟩

theorem head?_toDigits_ne_zero (n : Nat) (hn : 0 < n) : (toDigits 10 n).head? ≠ some '0' := by
  induction n using Nat.strongRecOn with
  | ind n ih =>
    by_cases h : n < 10
    · have hdigit : ∀ d < 10, 0 < d → [digitChar d].head? ≠ some '0' := by decide
      rw [toDigits_of_lt_base h]
      exact hdigit n h hn
    · rw [toDigits_of_base_le (by decide) (by omega), List.head?_append]
      intro hzero
      rcases Option.or_eq_some_iff.mp hzero with hzero | ⟨hnil, -⟩
      · exact ih (n / 10) (by omega) (by omega) hzero
      · exact toDigits_ne_nil (List.head?_eq_none_iff.mp hnil)

/-- The digits of a number start with a zero only where they are a single one. -/
theorem toDigits_ne_zero_cons (n : Nat) (c : Char) (digits : List Char) :
    toDigits 10 n ≠ '0' :: c :: digits := by
  intro h
  rcases Nat.eq_zero_or_pos n with rfl | hn
  · rw [toDigits_zero] at h
    exact absurd h (by simp)
  · exact head?_toDigits_ne_zero n hn (by rw [h]; rfl)

end Nat
