import RailsReview.Json.Reader
import RailsReview.Json.Writer
import RailsReview.Proofs.Data.String

/-!
# Reading back strings and integers

A written string is read back as the string, and a written integer as the integer, whatever follows
them; an integer must not be followed by what would continue it.

* `exists_units_escape`: the units of an escaped text stand for the text.
* `readText_escape`: a string up to its closing quote.
* `EndsNumber`: nothing in a text continues a number that stands before it.
* `readNumber_integer`: a written integer.
-/

namespace RailsReview.Json

/-! ## Strings -/

/-- The four digits of an escaped control character have its value. -/
theorem hexValue?_control : ∀ n < 0x20,
    Text.hexValue? ['0', '0', Nat.digitChar (n / 16), Nat.digitChar (n % 16)] = some n := by
  decide

theorem textOfUnits?_control {c : Char} (h : c.toNat < 0x20) (units : List TextUnit) :
    textOfUnits? (.code c.toNat :: units) = (textOfUnits? units).map (c :: ·) := by
  rw [textOfUnits?.eq_def]
  simp only [Char.ofNat_toNat]
  exact if_pos (Or.inl (by omega))

theorem readUnits_short {escaped c : Char} (hu : escaped ≠ 'u') (h : shortEscape? escaped = some c)
    (rest : List Char) :
    readUnits ('\\' :: escaped :: rest) =
      (readUnits rest).map fun read => (.char c :: read.1, read.2) := by
  rw [readUnits.eq_4 _ _ (by rintro _ _ _ _ _ rfl; exact absurd rfl hu), h]
  cases readUnits rest <;> rfl

theorem readUnits_code {digits : List Char} {value : Nat} (hlength : digits.length = 4)
    (h : Text.hexValue? digits = some value) (rest : List Char) :
    readUnits ('\\' :: 'u' :: (digits ++ rest)) =
      (readUnits rest).map fun read => (.code value :: read.1, read.2) := by
  obtain ⟨a, b, c, d, rfl⟩ : ∃ a b c d, digits = [a, b, c, d] := by
    match digits, hlength with
    | [a, b, c, d], _ => exact ⟨a, b, c, d, rfl⟩
  simp only [List.cons_append, List.nil_append, readUnits, h]
  cases readUnits rest <;> rfl

theorem readUnits_plain {c : Char} (hquote : c ≠ '"') (hslash : c ≠ '\\') (h : ¬ c.toNat < 0x20)
    (rest : List Char) :
    readUnits (c :: rest) = (readUnits rest).map fun read => (.char c :: read.1, read.2) := by
  rw [readUnits, if_neg (by simp [h, hslash])]
  · cases readUnits rest <;> rfl
  all_goals simp [hquote, hslash]

/-- Each character is written so that it is read as one unit, which stands for it. -/
theorem exists_unit_escapeChar (c : Char) :
    ∃ unit, (∀ rest, readUnits (escapeChar c ++ rest) =
      (readUnits rest).map fun read => (unit :: read.1, read.2)) ∧
      ∀ units, textOfUnits? (unit :: units) = (textOfUnits? units).map (c :: ·) := by
  unfold escapeChar
  split
  · next h => subst h; exact ⟨.char '"', readUnits_short (by decide) rfl, fun _ => rfl⟩
  split
  · next h => subst h; exact ⟨.char '\\', readUnits_short (by decide) rfl, fun _ => rfl⟩
  split
  · next h => subst h; exact ⟨.char '\x08', readUnits_short (by decide) rfl, fun _ => rfl⟩
  split
  · next h => subst h; exact ⟨.char '\x0c', readUnits_short (by decide) rfl, fun _ => rfl⟩
  split
  · next h => subst h; exact ⟨.char '\n', readUnits_short (by decide) rfl, fun _ => rfl⟩
  split
  · next h => subst h; exact ⟨.char '\r', readUnits_short (by decide) rfl, fun _ => rfl⟩
  split
  · next h => subst h; exact ⟨.char '\t', readUnits_short (by decide) rfl, fun _ => rfl⟩
  split
  · next h =>
    exact ⟨.code c.toNat, readUnits_code rfl (hexValue?_control c.toNat h),
      textOfUnits?_control h⟩
  · next hquote hslash _ _ _ _ _ h =>
    exact ⟨.char c, readUnits_plain hquote hslash h, fun _ => rfl⟩

/-- An escaped text up to the closing quote is read as units that stand for the text. -/
theorem exists_units_escape (text : List Char) :
    ∃ units, textOfUnits? units = some text ∧
      ∀ rest, readUnits (escape text ++ '"' :: rest) = some (units, rest) := by
  induction text with
  | nil => exact ⟨[], rfl, fun rest => by rw [escape, List.flatMap_nil, List.nil_append, readUnits]⟩
  | cons c text ih =>
    obtain ⟨units, htext, hread⟩ := ih
    obtain ⟨unit, hunit, hchar⟩ := exists_unit_escapeChar c
    refine ⟨unit :: units, ?_, fun rest => ?_⟩
    · rw [hchar, htext, Option.map_some]
    · have hescape : escape (c :: text) = escapeChar c ++ escape text := List.flatMap_cons
      rw [hescape, List.append_assoc, hunit, hread, Option.map_some]

/-- A written string is read back. -/
theorem readText_escape (text : String) (rest : List Char) :
    readText (escape text.toList ++ '"' :: rest) = some (some text, rest) := by
  obtain ⟨units, htext, hread⟩ := exists_units_escape text.toList
  rw [readText, hread, Option.map_some]
  simp only [htext, Option.map_some, String.ofList_toList]

/-! ## Integers -/

/-- A text starts with nothing that continues a number: no digit, no point and no exponent. -/
def EndsNumber (text : List Char) : Prop :=
  ∀ c ∈ text.head?, c.isDigit = false ∧ c ≠ '.' ∧ c ≠ 'e' ∧ c ≠ 'E'

theorem endsNumber_nil : EndsNumber [] := by
  intro c hc
  exact absurd hc (by simp)

theorem endsNumber_cons {c : Char} {rest : List Char}
    (h : c.isDigit = false ∧ c ≠ '.' ∧ c ≠ 'e' ∧ c ≠ 'E') : EndsNumber (c :: rest) := by
  intro d hd
  obtain rfl : c = d := by simpa using hd
  exact h

theorem readDigits_append {digits rest : List Char} (hne : digits ≠ [])
    (hdigits : ∀ c ∈ digits, c.isDigit = true) (hrest : EndsNumber rest) :
    readDigits (digits ++ rest) = some (digits, rest) := by
  have htake : rest.takeWhile Char.isDigit = [] ∧ rest.dropWhile Char.isDigit = rest := by
    cases rest with
    | nil => exact ⟨rfl, rfl⟩
    | cons c rest =>
      have hc : ¬ c.isDigit = true := by simp [(hrest c rfl).1]
      exact ⟨List.takeWhile_cons_of_neg hc, List.dropWhile_cons_of_neg hc⟩
  rw [readDigits, List.takeWhile_append_of_pos hdigits, List.dropWhile_append_of_pos hdigits,
    htake.1, htake.2, List.append_nil, if_neg (by simpa using hne)]

theorem readWhole_toDigits (n : Nat) {rest : List Char} (hrest : EndsNumber rest) :
    readWhole (Nat.toDigits 10 n ++ rest) = some (Nat.toDigits 10 n, rest) := by
  have hdigits : ∀ c ∈ Nat.toDigits 10 n, c.isDigit = true := fun c hc =>
    Nat.isDigit_of_mem_toDigits (by decide) (by decide) hc
  rw [readWhole, readDigits_append Nat.toDigits_ne_nil hdigits hrest]
  split
  · next h =>
    obtain ⟨hdigits, -⟩ := Prod.mk.inj (Option.some.inj h)
    exact absurd hdigits (Nat.toDigits_ne_zero_cons n _ _)
  · rfl

theorem readFraction_of_endsNumber {rest : List Char} (hrest : EndsNumber rest) :
    readFraction rest = some ([], rest) := by
  rw [readFraction]
  rintro rest rfl
  exact (hrest '.' rfl).2.1 rfl

theorem readExponent_of_endsNumber {rest : List Char} (hrest : EndsNumber rest) :
    readExponent rest = some (none, rest) := by
  cases rest with
  | nil => rfl
  | cons c rest =>
    obtain ⟨-, -, he, hE⟩ := hrest c rfl
    rw [readExponent.eq_def]
    exact if_neg (by simp [he, hE])

theorem readUnsigned_toDigits (negative : Bool) (n : Nat) {rest : List Char}
    (hrest : EndsNumber rest) :
    readUnsigned negative (Nat.toDigits 10 n ++ rest) = some (.integer negative n, rest) := by
  rw [readUnsigned, readWhole_toDigits n hrest]
  simp only [readFraction_of_endsNumber hrest, readExponent_of_endsNumber hrest,
    List.isEmpty_nil, if_true, Nat.ofDigitChars_ten_toDigits]

/-- A written integer is read back. -/
theorem readNumber_integer (negative : Bool) (n : Nat) {rest : List Char}
    (hrest : EndsNumber rest) :
    readNumber ((Number.integer negative n).write ++ rest) = some (.integer negative n, rest) := by
  cases negative with
  | true => exact readUnsigned_toDigits true n hrest
  | false =>
    obtain ⟨c, digits, hdigits, hc⟩ := Nat.exists_toDigits_eq_cons n
    have hwrite : (Number.integer false n).write = Nat.toDigits 10 n := rfl
    rw [hwrite, readNumber, readUnsigned_toDigits false n hrest]
    rintro rest' h
    rw [hdigits, List.cons_append] at h
    obtain ⟨rfl, -⟩ := List.cons.inj h
    exact absurd hc (by decide)

end RailsReview.Json
