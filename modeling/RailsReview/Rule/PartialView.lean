import RailsReview.Config.Basic
import RailsReview.Glob
import RailsReview.Rule.Basic

/-!
# Instance variables in partial views

A partial view that reads `@post` depends on the action that rendered it.  Handing `post` over as a
local variable makes that visible.

The rule flags every reference to an instance variable in a partial view, and in any other file
whose path, relative to the root of the review, fits one of its patterns.
-/

namespace RailsReview

/-- The patterns of files that are treated as partial views, and the severity of what is found. -/
structure PartialView where
  patterns : List Glob := []
  severity : Severity := .error
  deriving DecidableEq, Repr, Inhabited

namespace PartialView

/-- The code of the rule. -/
def code : String := "DL002"

/-- The name of the rule. -/
def name : String := "replace-instance-variable-with-local-variable"

/-- What the rule remarks. -/
def message : String := "replace instance variable with local variable"

/-- The rule with one more pattern. -/
def addPattern (view : PartialView) (pattern : String) : Except Glob.Fault PartialView :=
  (Glob.parse pattern).map fun glob => { view with patterns := view.patterns ++ [glob] }

/-- The rule with the patterns of a section; those that are no patterns are left out. -/
def ofSettings (settings : Option RuleSettings) : PartialView :=
  match settings with
  | none => {}
  | some settings =>
    { patterns := (settings.texts "patterns").filterMap fun text => (Glob.parse text).toOption }

/-- Whether a file is treated as a partial view. -/
def appliesTo (view : PartialView) (file : SourceFile) : Bool :=
  file.isPartialView || view.patterns.any (·.accepts file.relativePath.text)

/-- The rule. -/
def rule (view : PartialView) : Rule where
  name := name
  code := code
  description := "Forbids instance variables in partial views"
  url := some ("http://rails-bestpractices.com/posts/" ++
    "27-replace-instance-variable-with-local-variable")
  suggestion := some ("Pass the value as a local, " ++
    "e.g. `render partial: \"post\", locals: \x7b post: @post \x7d`")
  severity := view.severity
  kinds := [.instanceVariable]
  appliesTo := view.appliesTo
  inspect := fun _ node => [⟨node.span, message⟩]

end PartialView

end RailsReview
