/-!
# Glob patterns

Patterns over the text of a path.  `?` stands for one character and `*` for any number of them, a
slash included; `[...]` and `[!...]` stand for one character in or outside a class.  `**` is a whole
component of the pattern and stands for any number of components, also none.

`Glob.parse` refuses three kinds of text, and says where: three or more stars in a row, a `**` that
shares its component, and a class that is not closed.  Positions count characters from zero.
-/

namespace RailsReview

namespace Glob

/-! ## Patterns -/

/-- One entry of a character class. -/
inductive ClassEntry where
  | single (c : Char)
  | range (first last : Char)
  deriving DecidableEq, Repr

/-- One element of a pattern. -/
inductive Token where
  | literal (c : Char)
  /-- `?` -/
  | anyChar
  /-- `*` -/
  | anyText
  /-- `**`, together with the slash after it. -/
  | anyComponents
  /-- `[...]`, or `[!...]` if negated. -/
  | charClass (negated : Bool) (entries : List ClassEntry)
  deriving DecidableEq, Repr

/-- Why a text is no pattern, and where. -/
inductive Fault where
  /-- Three or more stars in a row. -/
  | wildcards (position : Nat)
  /-- A `**` that is not a whole component. -/
  | recursiveWildcards (position : Nat)
  /-- A class that is not closed. -/
  | range (position : Nat)
  deriving DecidableEq, Repr

namespace Fault

/-- Where the fault is. -/
def position : Fault → Nat
  | wildcards position => position
  | recursiveWildcards position => position
  | range position => position

/-- What is wrong. -/
def reason : Fault → String
  | wildcards _ => "wildcards are either regular `*` or recursive `**`"
  | recursiveWildcards _ => "recursive wildcards must form a single path component"
  | range _ => "invalid range pattern"

/-- The fault in words. -/
def message (fault : Fault) : String :=
  "Pattern syntax error near position " ++ toString fault.position ++ ": " ++ fault.reason

end Fault

end Glob

/-- A pattern, with the text that it was made from. -/
structure Glob where
  text : String
  tokens : List Glob.Token
  deriving DecidableEq, Repr

namespace Glob

/-! ## Parsing -/

/-- The entries of a class. -/
def classEntries : List Char → List ClassEntry
  | first :: '-' :: last :: rest => .range first last :: classEntries rest
  | c :: rest => .single c :: classEntries rest
  | [] => []

/-- The characters of a class up to the bracket that closes it, and what follows it.  The first
character belongs to the class even if it is a bracket. -/
def readClass : List Char → Option (List Char × List Char)
  | [] => none
  | first :: rest =>
    if rest.contains ']' then
      some (first :: rest.takeWhile (· != ']'), (rest.dropWhile (· != ']')).drop 1)
    else none

/-- The tokens of a pattern from a position on, where `before` is the character before it, if any.
Each step uses at least one of the `fuel` characters. -/
def parseFrom : Nat → Nat → Option Char → List Char → Except Fault (List Token)
  | 0, _, _, _ => .ok []
  | _, _, _, [] => .ok []
  | fuel + 1, position, before, c :: rest =>
    match c with
    | '?' => (parseFrom fuel (position + 1) (some c) rest).map (.anyChar :: ·)
    | '*' =>
      let stars := 1 + (rest.takeWhile (· == '*')).length
      let rest := rest.dropWhile (· == '*')
      if 2 < stars then .error (.wildcards (position + 2))
      else if stars = 2 then
        if before = none ∨ before = some '/' then
          match rest with
          | [] => .ok [.anyComponents]
          | '/' :: rest =>
            (parseFrom fuel (position + 3) (some '/') rest).map (.anyComponents :: ·)
          | _ => .error (.recursiveWildcards (position + 2))
        else .error (.recursiveWildcards (position - 1))
      else (parseFrom fuel (position + 1) (some c) rest).map (.anyText :: ·)
    | '[' =>
      let (negated, body) : Bool × List Char :=
        match rest with
        | '!' :: body => (true, body)
        | body => (false, body)
      match readClass body with
      | some (characters, after) =>
        (parseFrom fuel (position + (rest.length - after.length) + 1) (some ']') after).map
          (.charClass negated (classEntries characters) :: ·)
      | none => .error (.range position)
    | c => (parseFrom fuel (position + 1) (some c) rest).map (.literal c :: ·)

/-- The pattern that a text is. -/
def parse (text : String) : Except Fault Glob :=
  (parseFrom text.toList.length 0 none text.toList).map fun tokens => { text, tokens }

/-! ## Matching -/

/-- Whether a class entry holds for a character. -/
def ClassEntry.holds (c : Char) : ClassEntry → Bool
  | single d => c == d
  | range first last => first ≤ c && c ≤ last

/-- Whether a token that stands for one character stands for this one. -/
def Token.admits (c : Char) : Token → Bool
  | literal d => c == d
  | charClass negated entries => entries.any (·.holds c) != negated
  | _ => true

/-! A text is matched against the tokens of a pattern from the last one to the first.  A table says
of each end of the text, from the whole text to the empty end, whether the tokens so far stand for
it. -/

/-- The table of no tokens: they stand for the empty end alone. -/
def emptyTable : List Char → List Bool
  | [] => [true]
  | _ :: text => false :: emptyTable text

/-- The table of a token for one character, in front of tokens with a table. -/
def charTable (admits : Char → Bool) : List Char → List Bool → List Bool
  | c :: text, _ :: ends => (admits c && ends.headD false) :: charTable admits text ends
  | _, _ => [false]

/-- The table of any text, in front of tokens with a table. -/
def textTable : List Bool → List Bool
  | [] => []
  | holds :: ends =>
    let further := textTable ends
    (holds || further.headD false) :: further

/-- The table of at least one component: what follows it stands behind a slash or is empty. -/
def componentTable : List Char → List Bool → List Bool
  | c :: text, _ :: ends =>
    let further := componentTable text ends
    ((c == '/' && ends.headD false) || further.headD false) :: further
  | _, ends => ends

/-- The table of a token in front of tokens with a table. -/
def Token.table (text : List Char) (ends : List Bool) : Token → List Bool
  | anyText => textTable ends
  | anyComponents => ends.zipWith (· || ·) (componentTable text ends)
  | token => charTable token.admits text ends

/-- Whether the pattern stands for a text. -/
def accepts (glob : Glob) (text : String) : Bool :=
  let text := text.toList
  (glob.tokens.foldr (fun token ends => token.table text ends) (emptyTable text)).headD false

end Glob

end RailsReview
