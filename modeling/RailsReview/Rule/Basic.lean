import RailsReview.Finding.Violation
import RailsReview.SourceFile
import RailsReview.Tree.Walk

/-!
# Rules and reviews

A rule says which kinds of node it wants to be shown, in which files, and what it remarks on a node.
A review of a tree shows every node to every rule that is interested, node by node in document order
and rule by rule in the order in which they are listed, and turns each remark into a violation that
carries what the rule says about itself.
-/

namespace RailsReview

/-- What a rule has to say about a place. -/
structure Remark where
  span : Span
  message : String
  deriving DecidableEq, Repr, Inhabited

/-- A rule of a review. -/
structure Rule where
  name : String
  code : String
  description : String := ""
  /-- Where to read about the rule. -/
  url : Option String := none
  /-- How to mend what it finds. -/
  suggestion : Option String := none
  severity : Severity := .error
  /-- The kinds of node that the rule is shown. -/
  kinds : List NodeKind
  /-- The files that the rule is about. -/
  appliesTo : SourceFile → Bool := fun _ => true
  /-- What the rule remarks on a node. -/
  inspect : SourceFile → Node → List Remark := fun _ _ => []

namespace Rule

/-- The violation that a remark becomes. -/
def violation (rule : Rule) (file : SourceFile) (remark : Remark) : Violation :=
  { code := rule.code
    rule := rule.name
    severity := rule.severity
    location :=
      { file := file.relativePath, line := remark.span.line, column := remark.span.column }
    message := remark.message
    suggestion := rule.suggestion
    reference := rule.url }

/-- The violations of a rule at one node. -/
def visit (rule : Rule) (file : SourceFile) (node : Node) : List Violation :=
  if rule.kinds.contains node.kind then (rule.inspect file node).map (rule.violation file) else []

end Rule

/-- The violations of several rules in one tree, in the order of the walk. -/
def review (file : SourceFile) (root : Node) (rules : List Rule) : List Violation :=
  let active := rules.filter (·.appliesTo file)
  root.walk.toList.flatMap fun node => active.flatMap (·.visit file node)

/-- The violations of one rule in one tree. -/
def Rule.check (rule : Rule) (file : SourceFile) (root : Node) : List Violation :=
  review file root [rule]

end RailsReview
