import RailsReview.Proofs.JsonTokens

/-!
# Reading back written values

The compact and the pretty text of a value differ in their blanks only, and the reader passes over
blanks.  A `Layout` says where which blanks stand, both writers write in a layout, and one induction
shows that what is written in any layout is read back.

It is the `Plain` values that are read back: those without decimals, without integers beyond the
range, and with a value throughout.  The number of calls that the reader is granted is twice the
length of the text, which is the bound that the induction carries.

* `Layout.write_compact`, `Layout.write_pretty`: the two writers.
* `Layout.write_append`: what follows a value comes behind its text.
* `Plain.readsBack`: the induction.
* `read?_compact`, `read?_pretty_append`: whole texts.
-/

namespace RailsReview.Json

/-! ## Layouts -/

/-- A text of blanks. -/
def IsBlank (text : List Char) : Prop :=
  ∀ c ∈ text, isSpace c = true

/-- The blanks of a written value. -/
structure Layout where
  /-- What stands before an item or a closing bracket within some containers. -/
  line : Nat → List Char
  /-- What stands after a colon. -/
  gap : List Char
  isBlank_line : ∀ depth, IsBlank (line depth)
  isBlank_gap : IsBlank gap

theorem isBlank_newLine (depth : Nat) : IsBlank (newLine depth) := by
  intro c hc
  rw [newLine, List.mem_cons, List.mem_replicate] at hc
  rcases hc with rfl | ⟨-, rfl⟩ <;> rfl

theorem isBlank_nil : IsBlank [] := by
  intro c hc
  exact absurd hc List.not_mem_nil

namespace Layout

/-- No blanks at all. -/
def compact : Layout where
  line := fun _ => []
  gap := []
  isBlank_line := fun _ => isBlank_nil
  isBlank_gap := isBlank_nil

/-- Each item and each member on a line of its own. -/
def pretty : Layout where
  line := newLine
  gap := [' ']
  isBlank_line := isBlank_newLine
  isBlank_gap := by
    intro c hc
    obtain rfl := List.mem_singleton.mp hc
    rfl

variable (layout : Layout)

mutual

/-- The text of a value within `depth` containers, with what follows it. -/
def write (depth : Nat) : Json → List Char → List Char
  | .null, rest => "null".toList ++ rest
  | .bool value, rest => (if value then "true" else "false").toList ++ rest
  | .number value, rest => value.write ++ rest
  | .string text, rest => quote text.toList ++ rest
  | .array [], rest => '[' :: ']' :: rest
  | .array (item :: items), rest =>
    '[' :: (layout.line (depth + 1) ++ write (depth + 1) item
      (writeItems (depth + 1) items (layout.line depth ++ ']' :: rest)))
  | .object [], rest => '{' :: '}' :: rest
  | .object (member :: members), rest =>
    '{' :: (layout.line (depth + 1) ++ writeMember (depth + 1) member
      (writeMembers (depth + 1) members (layout.line depth ++ '}' :: rest)))
  | .valueless, rest => "null".toList ++ rest

/-- Further items of an array, each after a comma. -/
def writeItems (depth : Nat) : List Json → List Char → List Char
  | [], rest => rest
  | item :: items, rest =>
    ',' :: (layout.line depth ++ write depth item (writeItems depth items rest))

/-- Further members of an object, each after a comma. -/
def writeMembers (depth : Nat) : List (String × Json) → List Char → List Char
  | [], rest => rest
  | member :: members, rest =>
    ',' :: (layout.line depth ++ writeMember depth member (writeMembers depth members rest))

/-- The name and the value of a member. -/
def writeMember (depth : Nat) : String × Json → List Char → List Char
  | (name, value), rest => quote name.toList ++ ':' :: (layout.gap ++ write depth value rest)

end

/-! ## The two writers -/

mutual

theorem write_compact :
    ∀ (depth : Nat) (value : Json) (rest : List Char), compact.write depth value rest = value.write rest
  | _, .null, _ => rfl
  | _, .bool _, _ => rfl
  | _, .number _, _ => rfl
  | _, .string _, _ => rfl
  | _, .array [], _ => rfl
  | depth, .array (item :: items), rest => by
    rw [write, Json.write, Json.writeItems, writeItems_compact, write_compact]
    rfl
  | _, .object [], _ => rfl
  | depth, .object (member :: members), rest => by
    rw [write, Json.write, Json.writeMembers, writeMembers_compact, writeMember_compact]
    rfl
  | _, .valueless, _ => rfl

theorem writeItems_compact :
    ∀ (depth : Nat) (items : List Json) (rest : List Char),
      compact.writeItems depth items rest = writeMoreItems items rest
  | _, [], _ => rfl
  | depth, item :: items, rest => by
    rw [writeItems, writeMoreItems, writeItems_compact, write_compact]
    rfl

theorem writeMembers_compact :
    ∀ (depth : Nat) (members : List (String × Json)) (rest : List Char),
      compact.writeMembers depth members rest = writeMoreMembers members rest
  | _, [], _ => rfl
  | depth, member :: members, rest => by
    rw [writeMembers, writeMoreMembers, writeMembers_compact, writeMember_compact]
    rfl

theorem writeMember_compact :
    ∀ (depth : Nat) (member : String × Json) (rest : List Char),
      compact.writeMember depth member rest = Json.writeMember member rest
  | depth, (name, value), rest => by
    rw [writeMember, Json.writeMember, write_compact]
    rfl

end

mutual

theorem write_pretty :
    ∀ (depth : Nat) (value : Json) (rest : List Char),
      pretty.write depth value rest = value.writePretty depth rest
  | _, .null, _ => rfl
  | _, .bool _, _ => rfl
  | _, .number _, _ => rfl
  | _, .string _, _ => rfl
  | _, .array [], _ => rfl
  | depth, .array (item :: items), rest => by
    rw [write, writePretty, writeItems_pretty, write_pretty]
    rfl
  | _, .object [], _ => rfl
  | depth, .object (member :: members), rest => by
    rw [write, writePretty, writeMembers_pretty, writeMember_pretty]
    rfl
  | _, .valueless, _ => rfl

theorem writeItems_pretty :
    ∀ (depth : Nat) (items : List Json) (rest : List Char),
      pretty.writeItems depth items rest = writePrettyItems depth items rest
  | _, [], _ => rfl
  | depth, item :: items, rest => by
    rw [writeItems, writePrettyItems, writeItems_pretty, write_pretty]
    rfl

theorem writeMembers_pretty :
    ∀ (depth : Nat) (members : List (String × Json)) (rest : List Char),
      pretty.writeMembers depth members rest = writePrettyMembers depth members rest
  | _, [], _ => rfl
  | depth, member :: members, rest => by
    rw [writeMembers, writePrettyMembers, writeMembers_pretty, writeMember_pretty]
    rfl

theorem writeMember_pretty :
    ∀ (depth : Nat) (member : String × Json) (rest : List Char),
      pretty.writeMember depth member rest = writePrettyMember depth member rest
  | depth, (name, value), rest => by
    rw [writeMember, writePrettyMember, write_pretty]
    rfl

end

/-! ## The text that follows -/

mutual

/-- What follows a value comes behind its text, whatever it is. -/
theorem write_append :
    ∀ (depth : Nat) (value : Json) (rest more : List Char),
      layout.write depth value (rest ++ more) = layout.write depth value rest ++ more
  | _, .null, _, _ => by rw [write, write, List.append_assoc]
  | _, .bool _, _, _ => by rw [write, write, List.append_assoc]
  | _, .number _, _, _ => by rw [write, write, List.append_assoc]
  | _, .string _, _, _ => by rw [write, write, List.append_assoc]
  | _, .array [], _, _ => by rw [write, write, List.cons_append, List.cons_append]
  | depth, .array (item :: items), rest, more => by
    have hitems := writeItems_append (depth + 1) items (layout.line depth ++ ']' :: rest) more
    rw [List.append_assoc, List.cons_append] at hitems
    rw [write, write, hitems, write_append (depth + 1) item, List.cons_append, List.append_assoc]
  | _, .object [], _, _ => by rw [write, write, List.cons_append, List.cons_append]
  | depth, .object (member :: members), rest, more => by
    have hmembers := writeMembers_append (depth + 1) members (layout.line depth ++ '}' :: rest) more
    rw [List.append_assoc, List.cons_append] at hmembers
    rw [write, write, hmembers, writeMember_append (depth + 1) member, List.cons_append,
      List.append_assoc]
  | _, .valueless, _, _ => by rw [write, write, List.append_assoc]

theorem writeItems_append :
    ∀ (depth : Nat) (items : List Json) (rest more : List Char),
      layout.writeItems depth items (rest ++ more) = layout.writeItems depth items rest ++ more
  | _, [], _, _ => rfl
  | depth, item :: items, rest, more => by
    rw [writeItems, writeItems, writeItems_append depth items, write_append depth item,
      List.cons_append, List.append_assoc]

theorem writeMembers_append :
    ∀ (depth : Nat) (members : List (String × Json)) (rest more : List Char),
      layout.writeMembers depth members (rest ++ more) =
        layout.writeMembers depth members rest ++ more
  | _, [], _, _ => rfl
  | depth, member :: members, rest, more => by
    rw [writeMembers, writeMembers, writeMembers_append depth members,
      writeMember_append depth member, List.cons_append, List.append_assoc]

theorem writeMember_append :
    ∀ (depth : Nat) (member : String × Json) (rest more : List Char),
      layout.writeMember depth member (rest ++ more) = layout.writeMember depth member rest ++ more
  | depth, (name, value), rest, more => by
    rw [writeMember, writeMember, write_append depth value, List.append_assoc, List.cons_append,
      List.append_assoc]

end

theorem length_le_write (depth : Nat) (value : Json) (rest : List Char) :
    rest.length ≤ (layout.write depth value rest).length := by
  have happend := layout.write_append depth value [] rest
  rw [List.nil_append] at happend
  rw [happend, List.length_append]
  exact Nat.le_add_left _ _

theorem length_le_writeMember (depth : Nat) (member : String × Json) (rest : List Char) :
    rest.length ≤ (layout.writeMember depth member rest).length := by
  have happend := layout.writeMember_append depth member [] rest
  rw [List.nil_append] at happend
  rw [happend, List.length_append]
  exact Nat.le_add_left _ _

end Layout

/-! ## Plain values -/

/-- A value that is read back as it is written: it has no decimal, no integer beyond the range, and
nothing without a value. -/
inductive Plain : Json → Prop where
  | null : Plain .null
  | bool (value : Bool) : Plain (.bool value)
  | integer {negative : Bool} {magnitude : Nat}
      (inRange : (Number.integer negative magnitude).isOutOfRange = false) :
      Plain (.number (.integer negative magnitude))
  | string (text : String) : Plain (.string text)
  | array {items : List Json} (items_plain : ∀ item ∈ items, Plain item) : Plain (.array items)
  | object {members : List (String × Json)} (members_plain : ∀ member ∈ members, Plain member.2) :
      Plain (.object members)

theorem plain_count {n : Nat} (h : n < Number.wordSize) : Plain (.count n) :=
  .integer (by rw [Number.isOutOfRange, if_pos h])

/-- A count that fits a word is read back. -/
theorem count?_count {n : Nat} (h : n < Number.wordSize) : (Json.count n).count? = some n :=
  if_pos h

/-! ## Blanks before a value -/

theorem skipSpace_blank {blank : List Char} (h : IsBlank blank) (text : List Char) :
    skipSpace (blank ++ text) = skipSpace text :=
  List.dropWhile_append_of_pos h

theorem skipSpace_cons {c : Char} (h : isSpace c = false) (text : List Char) :
    skipSpace (c :: text) = c :: text :=
  List.dropWhile_cons_of_neg (by simp [h])

theorem isSpace_eq_false_of_isDigit {c : Char} (h : c.isDigit = true) : isSpace c = false := by
  simp only [isSpace, Bool.or_eq_false_iff, beq_eq_false_iff_ne]
  refine ⟨⟨⟨?_, ?_⟩, ?_⟩, ?_⟩ <;> (rintro rfl; exact absurd h (by decide))

/-- A written integer starts with a digit or with a sign. -/
theorem exists_write_integer (negative : Bool) (n : Nat) :
    ∃ c text, (Number.integer negative n).write = c :: text ∧ (c.isDigit = true ∨ c = '-') := by
  cases negative with
  | true => exact ⟨'-', Nat.toDigits 10 n, rfl, Or.inr rfl⟩
  | false =>
    obtain ⟨c, digits, hdigits, hc⟩ := Nat.exists_toDigits_eq_cons n
    exact ⟨c, digits, hdigits, Or.inl hc⟩

/-- A written value starts with no blank, and with no closing bracket. -/
theorem exists_write_eq_cons (layout : Layout) (depth : Nat) {value : Json} (h : Plain value)
    (rest : List Char) :
    ∃ c text, layout.write depth value rest = c :: text ∧ isSpace c = false ∧ c ≠ ']' := by
  cases h with
  | null => exact ⟨'n', _, rfl, rfl, by decide⟩
  | bool value => cases value with
    | true => exact ⟨'t', _, rfl, rfl, by decide⟩
    | false => exact ⟨'f', _, rfl, rfl, by decide⟩
  | @integer negative magnitude _ =>
    obtain ⟨c, text, htext, hc⟩ := exists_write_integer negative magnitude
    refine ⟨c, text ++ rest, by rw [Layout.write, htext, List.cons_append], ?_⟩
    rcases hc with hc | rfl
    · exact ⟨isSpace_eq_false_of_isDigit hc, by rintro rfl; exact absurd hc (by decide)⟩
    · exact ⟨rfl, by decide⟩
  | string text => exact ⟨'"', _, rfl, rfl, by decide⟩
  | @array items _ => cases items with
    | nil => exact ⟨'[', _, rfl, rfl, by decide⟩
    | cons item items => exact ⟨'[', _, rfl, rfl, by decide⟩
  | @object members _ => cases members with
    | nil => exact ⟨'{', _, rfl, rfl, by decide⟩
    | cons member members => exact ⟨'{', _, rfl, rfl, by decide⟩

/-- A written member starts with the quote of its name. -/
theorem exists_writeMember_eq_cons (layout : Layout) (depth : Nat) (member : String × Json)
    (rest : List Char) : ∃ text, layout.writeMember depth member rest = '"' :: text := by
  obtain ⟨name, value⟩ := member
  exact ⟨_, rfl⟩

/-! ## Reading one value -/

variable {blank : List Char} {fuel : Nat}

theorem readValue_string (h : IsBlank blank) (text : String) (rest : List Char) :
    readValue (fuel + 1) (blank ++ (quote text.toList ++ rest)) = some (.string text, rest) := by
  have hquote : quote text.toList ++ rest = '"' :: (escape text.toList ++ '"' :: rest) := by
    rw [quote, List.cons_append, List.append_assoc, List.singleton_append]
  rw [readValue, skipSpace_blank h, hquote, skipSpace_cons rfl]
  simp only [readText_escape, Option.map_some, Option.getD_some]

theorem readValue_integer (h : IsBlank blank) {negative : Bool} {magnitude : Nat}
    (inRange : (Number.integer negative magnitude).isOutOfRange = false) {rest : List Char}
    (hrest : EndsNumber rest) :
    readValue (fuel + 1) (blank ++ ((Number.integer negative magnitude).write ++ rest)) =
      some (.number (.integer negative magnitude), rest) := by
  obtain ⟨c, text, htext, hc⟩ := exists_write_integer negative magnitude
  have hspace : isSpace c = false := by
    rcases hc with hc | rfl
    · exact isSpace_eq_false_of_isDigit hc
    · rfl
  have hread := readNumber_integer negative magnitude hrest
  rw [htext, List.cons_append] at hread ⊢
  rw [readValue, skipSpace_blank h, skipSpace_cons hspace]
  -- the other readings start with a sign that starts no number
  split
  case h_7 =>
    simp only [hread, Option.map_some, ofNumber, inRange, Bool.false_eq_true, if_false]
  all_goals
    next heq =>
      obtain ⟨rfl, -⟩ := List.cons.inj heq
      exact absurd hc (by decide)

theorem readValue_array_nil (h : IsBlank blank) (rest : List Char) :
    readValue (fuel + 1) (blank ++ '[' :: ']' :: rest) = some (.array [], rest) := by
  rw [readValue, skipSpace_blank h, skipSpace_cons rfl]
  simp only [skipSpace_cons (show isSpace ']' = false from rfl)]

theorem readValue_array {body rest : List Char} {items : List Json} {c : Char} {text : List Char}
    (h : IsBlank blank) (hbody : skipSpace body = c :: text) (hc : c ≠ ']')
    (hitems : readItems fuel (c :: text) = some (items, rest)) :
    readValue (fuel + 1) (blank ++ '[' :: body) = some (.array items, rest) := by
  rw [readValue, skipSpace_blank h, skipSpace_cons rfl]
  simp only [hbody]
  split
  · next heq =>
    obtain ⟨rfl, -⟩ := List.cons.inj heq
    exact absurd rfl hc
  · rw [hitems, Option.map_some]

theorem readValue_object_nil (h : IsBlank blank) (rest : List Char) :
    readValue (fuel + 1) (blank ++ '{' :: '}' :: rest) = some (.object [], rest) := by
  rw [readValue, skipSpace_blank h, skipSpace_cons rfl]
  simp only [skipSpace_cons (show isSpace '}' = false from rfl)]

theorem readValue_object {body rest : List Char} {members : List (Option String × Json)}
    {text : List Char} (h : IsBlank blank) (hbody : skipSpace body = '"' :: text)
    (hmembers : readMembers fuel ('"' :: text) = some (members, rest)) :
    readValue (fuel + 1) (blank ++ '{' :: body) = some (ofMembers members, rest) := by
  rw [readValue, skipSpace_blank h, skipSpace_cons rfl]
  simp only [hbody]
  split
  · next heq => exact absurd (List.cons.inj heq).1 (by decide)
  · rw [hmembers, Option.map_some]

/-! ## Reading items and members -/

/-- A value is read back from its text in a layout, wherever that stands and whatever follows it,
with twice as many calls as there are characters. -/
def ReadsBack (layout : Layout) (value : Json) : Prop :=
  ∀ (blank rest : List Char) (depth fuel : Nat), IsBlank blank → EndsNumber rest →
    2 * (blank ++ layout.write depth value rest).length ≤ fuel →
    readValue fuel (blank ++ layout.write depth value rest) = some (value, rest)

/-- Blanks end a number, and so does what ends one behind blanks. -/
theorem IsBlank.endsNumber_append {blank : List Char} (h : IsBlank blank) {rest : List Char}
    (hrest : EndsNumber rest) : EndsNumber (blank ++ rest) := by
  cases blank with
  | nil => exact hrest
  | cons space blank =>
    have hspace : isSpace space = true := h space List.mem_cons_self
    simp only [isSpace, Bool.or_eq_true, beq_iff_eq] at hspace
    rw [List.cons_append]
    refine endsNumber_cons ?_
    rcases hspace with ((rfl | rfl) | rfl) | rfl <;> decide

/-- The items of an array are read up to its closing bracket. -/
theorem readItems_write {layout : Layout} (depth : Nat) {closing : List Char}
    (hclosing : IsBlank closing) (rest : List Char) :
    ∀ (items : List Json) (item : Json) (blank : List Char) (fuel : Nat),
      (∀ value ∈ item :: items, ReadsBack layout value) → IsBlank blank →
      2 * (blank ++ layout.write depth item
        (layout.writeItems depth items (closing ++ ']' :: rest))).length + 1 ≤ fuel →
      readItems fuel (blank ++ layout.write depth item
        (layout.writeItems depth items (closing ++ ']' :: rest))) = some (item :: items, rest)
  | [], item, blank, fuel + 1, hread, hblank, hfuel => by
    have hends : EndsNumber (closing ++ ']' :: rest) :=
      hclosing.endsNumber_append (endsNumber_cons (by decide))
    rw [Layout.writeItems] at hfuel ⊢
    rw [readItems, hread item List.mem_cons_self blank _ depth fuel hblank hends (by omega)]
    simp only [skipSpace_blank hclosing, skipSpace_cons (show isSpace ']' = false from rfl)]
  | next :: items, item, blank, fuel + 1, hread, hblank, hfuel => by
    have ih := readItems_write depth hclosing rest items next (layout.line depth) fuel
      (fun value hvalue => hread value (List.mem_cons_of_mem _ hvalue)) (layout.isBlank_line depth)
    rw [Layout.writeItems] at hfuel ⊢
    rw [readItems, hread item List.mem_cons_self blank _ depth fuel hblank
      (endsNumber_cons (by decide)) (by omega)]
    have hlength := layout.length_le_write depth item (',' :: (layout.line depth ++
      layout.write depth next (layout.writeItems depth items (closing ++ ']' :: rest))))
    rw [List.length_append] at hfuel
    rw [List.length_cons] at hlength
    simp only [skipSpace_cons (show isSpace ',' = false from rfl)]
    rw [ih (by omega), Option.map_some]

/-- What is read behind a member: the closing brace, or more members. -/
def readMoreMembers (fuel : Nat) (member : Option String × Json) :
    List Char → Option (List (Option String × Json) × List Char)
  | '}' :: rest => some ([member], rest)
  | ',' :: rest => (readMembers fuel rest).map fun (members, rest) => (member :: members, rest)
  | _ => none

/-- Reading members comes to what stands behind the first of them. -/
theorem readMembers_member {layout : Layout} {depth fuel : Nat} {name : String} {value : Json}
    {blank rest : List Char} (hread : ReadsBack layout value) (hblank : IsBlank blank)
    (hrest : EndsNumber rest)
    (hfuel : 2 * (blank ++ layout.writeMember depth (name, value) rest).length ≤ fuel + 1) :
    readMembers (fuel + 1) (blank ++ layout.writeMember depth (name, value) rest) =
      readMoreMembers fuel (some name, value) (skipSpace rest) := by
  rw [Layout.writeMember, quote, List.cons_append, List.append_assoc,
    List.singleton_append] at hfuel ⊢
  simp only [List.length_append, List.length_cons] at hfuel
  have hvalue := hread layout.gap rest depth fuel layout.isBlank_gap hrest
    (by rw [List.length_append]; omega)
  rw [readMembers, skipSpace_blank hblank, skipSpace_cons rfl]
  simp only [readText_escape, skipSpace_cons (show isSpace ':' = false from rfl), hvalue]
  rfl

/-- The members of an object are read up to its closing brace. -/
theorem readMembers_write {layout : Layout} (depth : Nat) {closing : List Char}
    (hclosing : IsBlank closing) (rest : List Char) :
    ∀ (members : List (String × Json)) (member : String × Json) (blank : List Char) (fuel : Nat),
      (∀ other ∈ member :: members, ReadsBack layout other.2) → IsBlank blank →
      2 * (blank ++ layout.writeMember depth member
        (layout.writeMembers depth members (closing ++ '}' :: rest))).length + 1 ≤ fuel →
      readMembers fuel (blank ++ layout.writeMember depth member
        (layout.writeMembers depth members (closing ++ '}' :: rest))) =
          some ((member :: members).map fun other => (some other.1, other.2), rest)
  | [], (name, value), blank, fuel + 1, hread, hblank, hfuel => by
    have hends : EndsNumber (closing ++ '}' :: rest) :=
      hclosing.endsNumber_append (endsNumber_cons (by decide))
    have hvalue : ReadsBack layout value := hread (name, value) List.mem_cons_self
    rw [Layout.writeMembers] at hfuel ⊢
    rw [readMembers_member hvalue hblank hends (by omega)]
    rw [skipSpace_blank hclosing, skipSpace_cons rfl, readMoreMembers]
    rfl
  | next :: members, (name, value), blank, fuel + 1, hread, hblank, hfuel => by
    have ih := readMembers_write depth hclosing rest members next (layout.line depth) fuel
      (fun other hother => hread other (List.mem_cons_of_mem _ hother)) (layout.isBlank_line depth)
    have hvalue : ReadsBack layout value := hread (name, value) List.mem_cons_self
    rw [Layout.writeMembers] at hfuel ⊢
    rw [readMembers_member hvalue hblank (endsNumber_cons (by decide)) (by omega)]
    have hlength := layout.length_le_writeMember depth (name, value) (',' :: (layout.line depth ++
      layout.writeMember depth next (layout.writeMembers depth members (closing ++ '}' :: rest))))
    rw [List.length_append] at hfuel
    rw [List.length_cons] at hlength
    rw [skipSpace_cons rfl, readMoreMembers, ih (by omega), Option.map_some]
    rfl

theorem ofMembers_map_some (members : List (String × Json)) :
    ofMembers (members.map fun member => (some member.1, member.2)) = .object members := by
  have hnames : (members.map fun member => (some member.1, member.2)).mapM
      (fun (member : Option String × Json) => member.1.map (·, member.2)) = some members := by
    induction members with
    | nil => rfl
    | cons member members ih =>
      rw [List.map_cons, List.mapM_cons, ih]
      rfl
  rw [ofMembers, hnames]

/-! ## Reading values and whole texts -/

/-- A written value has a character, so that there always is a call to read it with. -/
theorem readsBack_of_succ {layout : Layout} {value : Json} (h : Plain value)
    (hread : ∀ (blank rest : List Char) (depth fuel : Nat), IsBlank blank → EndsNumber rest →
      2 * (blank ++ layout.write depth value rest).length ≤ fuel + 1 →
      readValue (fuel + 1) (blank ++ layout.write depth value rest) = some (value, rest)) :
    ReadsBack layout value := by
  intro blank rest depth fuel hblank hrest hfuel
  obtain ⟨c, text, htext, -⟩ := exists_write_eq_cons layout depth h rest
  obtain ⟨calls, rfl⟩ : ∃ calls, fuel = calls + 1 := by
    rw [htext, List.length_append, List.length_cons] at hfuel
    exact ⟨fuel - 1, by omega⟩
  exact hread blank rest depth calls hblank hrest hfuel

/-- Plain values are read back. -/
theorem Plain.readsBack (layout : Layout) {value : Json} (h : Plain value) :
    ReadsBack layout value := by
  induction h with
  | null =>
    refine readsBack_of_succ .null fun blank rest depth fuel hblank _ _ => ?_
    rw [readValue, skipSpace_blank hblank]
    rfl
  | bool value =>
    refine readsBack_of_succ (.bool value) fun blank rest depth fuel hblank _ _ => ?_
    rw [readValue, skipSpace_blank hblank]
    cases value <;> rfl
  | integer inRange =>
    exact readsBack_of_succ (.integer inRange) fun _ _ _ _ hblank hrest _ =>
      readValue_integer hblank inRange hrest
  | string text =>
    exact readsBack_of_succ (.string text) fun _ rest _ _ hblank _ _ =>
      readValue_string hblank text rest
  | @array items items_plain ih =>
    refine readsBack_of_succ (.array items_plain) fun blank rest depth fuel hblank _ hfuel => ?_
    cases items with
    | nil => exact readValue_array_nil hblank rest
    | cons item items =>
      obtain ⟨c, text, htext, hspace, hc⟩ := exists_write_eq_cons layout (depth + 1)
        (items_plain item List.mem_cons_self)
        (layout.writeItems (depth + 1) items (layout.line depth ++ ']' :: rest))
      have hitems := readItems_write (depth + 1) (layout.isBlank_line depth) rest items item [] fuel
        ih isBlank_nil
      rw [Layout.write] at hfuel ⊢
      simp only [List.length_append, List.length_cons] at hfuel
      have hread := hitems (by rw [List.nil_append]; omega)
      have hbody := skipSpace_blank (layout.isBlank_line (depth + 1)) (c :: text)
      rw [skipSpace_cons hspace] at hbody
      rw [List.nil_append, htext] at hread
      rw [htext]
      exact readValue_array hblank hbody hc hread
  | @object members members_plain ih =>
    refine readsBack_of_succ (.object members_plain) fun blank rest depth fuel hblank _ hfuel => ?_
    cases members with
    | nil => exact readValue_object_nil hblank rest
    | cons member members =>
      have hmembers := readMembers_write (depth + 1) (layout.isBlank_line depth) rest members member
        [] fuel ih isBlank_nil
      rw [Layout.write] at hfuel ⊢
      obtain ⟨text, htext⟩ := exists_writeMember_eq_cons layout (depth + 1) member
        (layout.writeMembers (depth + 1) members (layout.line depth ++ '}' :: rest))
      simp only [List.length_append, List.length_cons] at hfuel
      have hread := hmembers (by rw [List.nil_append]; omega)
      have hbody := skipSpace_blank (layout.isBlank_line (depth + 1)) ('"' :: text)
      rw [skipSpace_cons rfl] at hbody
      rw [List.nil_append, htext] at hread
      rw [htext, ← ofMembers_map_some]
      exact readValue_object hblank hbody hread

/-- A plain value that is written in a layout is the value of the whole text, blanks at the end
included. -/
theorem readChars?_write (layout : Layout) {value : Json} (h : Plain value) {blank : List Char}
    (hblank : IsBlank blank) : readChars? (layout.write 0 value blank) = some value := by
  have hends : EndsNumber blank := by
    have hnil := hblank.endsNumber_append endsNumber_nil
    rwa [List.append_nil] at hnil
  have hread := h.readsBack layout [] blank 0 (2 * (layout.write 0 value blank).length + 2)
    isBlank_nil hends (by rw [List.nil_append]; omega)
  have hrest : skipSpace blank = [] := by
    have hskip := skipSpace_blank hblank []
    rwa [List.append_nil] at hskip
  rw [List.nil_append] at hread
  rw [readChars?, hread]
  simp only [hrest, List.isEmpty_nil, if_true]

/-- The compact text of a plain value stands for the value. -/
theorem read?_compact {value : Json} (h : Plain value) : read? value.compact = some value := by
  rw [read?, Json.compact, String.toList_ofList, ← Layout.write_compact 0]
  exact readChars?_write .compact h isBlank_nil

/-- The pretty text of a plain value stands for the value, whatever blanks follow. -/
theorem read?_pretty_append {value : Json} (h : Plain value) {blank : String}
    (hblank : IsBlank blank.toList) : read? (value.pretty ++ blank) = some value := by
  rw [read?, Json.pretty, String.toList_append, String.toList_ofList, ← Layout.write_pretty,
    ← Layout.write_append, List.nil_append]
  exact readChars?_write .pretty h hblank

end RailsReview.Json
