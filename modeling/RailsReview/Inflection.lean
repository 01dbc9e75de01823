import RailsReview.Text.Upper

/-!
# Inflection

How a variable or an association names a model class: `@invoices` names `Invoice`, `line_items`
names `LineItem` and `people` names `Person`.

The work is done on lists of characters, in three steps that are also useful alone.

* `Letters.stripSigil` drops the sigils `@` and `$` in front of a name.
* `Letters.singularize` inflects the part after the last underscore: words that have no plural, then
  irregular plurals, then the suffix rules in order, then `ies` after a consonant, then a plain `s`.
  The tables are read without regard to ASCII case.
* `Letters.camelize` capitalises each part between underscores and writes a slash as `::`.

`classify` is the composition of the three on strings.
-/

namespace RailsReview.Inflection

/-! ## Tables -/

/-- Plurals that no suffix rule covers, with their singulars. -/
def irregulars : List (String × String) :=
  [("people", "person"), ("men", "man"), ("women", "woman"), ("children", "child"),
    ("sexes", "sex"), ("moves", "move"), ("zombies", "zombie"), ("oxen", "ox"),
    ("mice", "mouse"), ("geese", "goose")]

/-- Words whose plural is the word itself. -/
def uncountables : List String :=
  ["equipment", "information", "rice", "money", "species", "series", "fish", "sheep", "jeans",
    "police", "news", "status", "alias"]

/-- Plural endings and the singular endings that replace them.  The first that fits is used. -/
def suffixRules : List (String × String) :=
  [("quizzes", "quiz"), ("matrices", "matrix"), ("vertices", "vertex"), ("indices", "index"),
    ("statuses", "status"), ("aliases", "alias"), ("buses", "bus"), ("shoes", "shoe"),
    ("movies", "movie"), ("analyses", "analysis"), ("theses", "thesis"), ("crises", "crisis"),
    ("sses", "ss"), ("xes", "x"), ("ches", "ch"), ("shes", "sh"), ("oes", "o"), ("lves", "lf"),
    ("rves", "rf"), ("ss", "ss"), ("us", "us"), ("is", "is")]

namespace Letters

/-! ## Class names -/

/-- The word with its first character in upper case. -/
def capitalize : List Char → List Char
  | [] => []
  | c :: cs => Text.upper c ++ cs

/-- The parts between underscores, each capitalised, written without a gap. -/
def camelizeSegment (segment : List Char) : List Char :=
  ((segment.splitOn '_').map capitalize).flatten

/-- The class name of an underscored word; the segments of a path are joined by `::`. -/
def camelize (word : List Char) : List Char :=
  [':', ':'].intercalate ((word.splitOn '/').map camelizeSegment)

/-! ## Singulars -/

/-- The identifier without the sigils in front of it. -/
def stripSigil (identifier : List Char) : List Char :=
  identifier.dropWhile fun c => c == '@' || c == '$'

/-- The word with its ASCII capitals made small. -/
def lower (word : List Char) : List Char :=
  word.map Char.toLower

/-- Whether the word starts with an ASCII capital. -/
def startsUpper : List Char → Bool
  | [] => false
  | c :: _ => c.isUpper

/-- The word with its last `count` characters replaced.  Where they are the whole word, an ASCII
capital at its start is kept. -/
def replaceEnd (word : List Char) (count : Nat) (ending : List Char) : List Char :=
  let head := word.take (word.length - count)
  if head.isEmpty && startsUpper word then camelize ending else head ++ ending

/-- Whether `c` is one of the vowels `a`, `e`, `i`, `o`, `u`. -/
def isVowel (c : Char) : Bool :=
  "aeiou".toList.contains c

/-- Whether the lower-case word ends in `ies` after a character that is no vowel. -/
def endsInConsonantIes (lowered : List Char) : Bool :=
  match lowered.reverse with
  | 's' :: 'e' :: 'i' :: c :: _ => !isVowel c
  | _ => false

/-- The word without a small `s` at its end, unless that is the whole word. -/
def dropPlainS (word : List Char) : List Char :=
  if word.getLast? == some 's' && 1 < word.length then word.dropLast else word

/-- The singular of a word without underscores. -/
def singularizeWord (word : List Char) : List Char :=
  let lowered := lower word
  if uncountables.any (·.toList == lowered) then word
  else match irregulars.find? (·.1.toList == lowered) with
    | some (plural, singular) => replaceEnd word plural.toList.length singular.toList
    | none =>
      match suffixRules.find? (·.1.toList.isSuffixOf lowered) with
      | some (suffix, ending) => replaceEnd word suffix.toList.length ending.toList
      | none =>
        if endsInConsonantIes lowered then replaceEnd word 3 ['y'] else dropPlainS word

/-- The part up to and with the last underscore, and the part after it. -/
def splitLast : List Char → List Char × List Char
  | [] => ([], [])
  | c :: cs =>
    if cs.contains '_' then ((c :: (splitLast cs).1), (splitLast cs).2)
    else if c == '_' then ([c], cs)
    else ([], c :: cs)

/-- The singular of an underscored word: only the part after the last underscore is inflected. -/
def singularize (word : List Char) : List Char :=
  (splitLast word).1 ++ singularizeWord (splitLast word).2

/-- The class that an identifier names. -/
def classify (identifier : List Char) : List Char :=
  camelize (singularize (stripSigil identifier))

end Letters

/-! ## Strings -/

/-- The identifier without the sigils in front of it. -/
def stripSigil (identifier : String) : String :=
  String.ofList (Letters.stripSigil identifier.toList)

/-- The singular of an underscored word. -/
def singularize (word : String) : String :=
  String.ofList (Letters.singularize word.toList)

/-- The class name of an underscored word. -/
def camelize (word : String) : String :=
  String.ofList (Letters.camelize word.toList)

/-- The class that a variable or an association names. -/
def classify (identifier : String) : String :=
  String.ofList (Letters.classify identifier.toList)

@[simp] theorem toList_stripSigil (s : String) :
    (stripSigil s).toList = Letters.stripSigil s.toList :=
  String.toList_ofList

@[simp] theorem toList_singularize (s : String) :
    (singularize s).toList = Letters.singularize s.toList :=
  String.toList_ofList

@[simp] theorem toList_camelize (s : String) :
    (camelize s).toList = Letters.camelize s.toList :=
  String.toList_ofList

@[simp] theorem toList_classify (s : String) :
    (classify s).toList = Letters.classify s.toList :=
  String.toList_ofList

/-- Classifying is stripping, singularizing and camelizing. -/
theorem classify_eq (s : String) : classify s = camelize (singularize (stripSigil s)) := by
  simp [classify, camelize, Letters.classify]

end RailsReview.Inflection
