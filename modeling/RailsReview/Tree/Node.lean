/-!
# Syntax trees

The trees that are reviewed have three shapes of node: a call of a method, a reference to a name,
and a block for everything else.  A node knows its place in the source.
-/

namespace RailsReview

/-- A place in a source file; lines and columns are counted from one. -/
structure Span where
  line : Nat := 1
  column : Nat := 1
  deriving DecidableEq, Repr, Inhabited

/-- What a reference refers to. -/
inductive ReferenceKind where
  | localVariable
  | instanceVariable
  /-- A constant, a global, `self`. -/
  | other
  deriving DecidableEq, Repr, Inhabited

namespace ReferenceKind

/-- The short name of a kind. -/
def name : ReferenceKind → String
  | localVariable => "lvar"
  | instanceVariable => "ivar"
  | other => "other"

/-- The kind with a short or a long name. -/
def ofName (name : String) : ReferenceKind :=
  if name = "lvar" ∨ name = "local_variable" then localVariable
  else if name = "ivar" ∨ name = "instance_variable" then instanceVariable
  else other

/-- Whether references of this kind name a variable. -/
def isVariable : ReferenceKind → Bool
  | localVariable | instanceVariable => true
  | other => false

/-- Every kind is read back from its short name. -/
@[simp] theorem ofName_name (kind : ReferenceKind) : ofName kind.name = kind := by
  cases kind <;> decide

end ReferenceKind

/-- The kinds of node that a rule can ask to be shown. -/
inductive NodeKind where
  | call
  | localVariable
  | instanceVariable
  | otherReference
  | block
  deriving DecidableEq, Repr, Inhabited

/-- A node of a syntax tree. -/
inductive Node where
  /-- The call `subject.message(arguments)`; without a subject, a call such as `render`. -/
  | call (subject : Option Node) (message : String) (arguments : List Node) (span : Span)
  /-- A reference to a name, as it is written, sigil included. -/
  | reference (kind : ReferenceKind) (name : String) (span : Span)
  /-- Any other construct, under a label such as `class` or `template`. -/
  | block (label : String) (children : List Node) (span : Span)
  deriving Repr, Inhabited

namespace Node

/-! ## Building trees -/

/-- The call `subject.message` without arguments. -/
def send (subject : Node) (message : String) : Node :=
  call (some subject) message [] {}

/-- The call `message` without subject and arguments. -/
def bareCall (message : String) : Node :=
  call none message [] {}

/-- The local variable `name`. -/
def localVariable (name : String) : Node :=
  reference .localVariable name {}

/-- The instance variable `name`. -/
def instanceVariable (name : String) : Node :=
  reference .instanceVariable name {}

/-- The node moved to another place. -/
def withSpan (span : Span) : Node → Node
  | call subject message arguments _ => call subject message arguments span
  | reference kind name _ => reference kind name span
  | block label children _ => block label children span

/-! ## Looking at nodes -/

/-- The kind of a node. -/
def kind : Node → NodeKind
  | call .. => .call
  | reference .localVariable _ _ => .localVariable
  | reference .instanceVariable _ _ => .instanceVariable
  | reference .other _ _ => .otherReference
  | block .. => .block

/-- The place of a node. -/
def span : Node → Span
  | call _ _ _ span => span
  | reference _ _ span => span
  | block _ _ span => span

/-- What a node is called: its message, its name or its label. -/
def label : Node → String
  | call _ message _ _ => message
  | reference _ name _ => name
  | block label _ _ => label

/-- The children of a node in document order: the subject of a call comes before its arguments. -/
def children : Node → List Node
  | call subject _ arguments _ => subject.toList ++ arguments
  | reference .. => []
  | block _ children _ => children

/-- The message of a call. -/
def message? : Node → Option String
  | call _ message _ _ => some message
  | _ => none

/-- The subject of a call that has one. -/
def subject? : Node → Option Node
  | call subject _ _ _ => subject
  | _ => none

/-- The name of a reference. -/
def referenceName? : Node → Option String
  | reference _ name _ => some name
  | _ => none

/-! ## Equality

Two trees are compared node by node; the lists and the optional subject are compared alongside. -/

mutual

/-- Whether two trees are the same. -/
def same : Node → Node → Bool
  | call subject message arguments span, call subject' message' arguments' span' =>
    sameSubject subject subject' && message == message' && sameList arguments arguments' &&
      decide (span = span')
  | reference kind name span, reference kind' name' span' =>
    decide (kind = kind') && name == name' && decide (span = span')
  | block label children span, block label' children' span' =>
    label == label' && sameList children children' && decide (span = span')
  | _, _ => false

/-- Whether two optional subjects are the same. -/
def sameSubject : Option Node → Option Node → Bool
  | none, none => true
  | some node, some node' => same node node'
  | _, _ => false

/-- Whether two lists of trees are the same. -/
def sameList : List Node → List Node → Bool
  | [], [] => true
  | node :: nodes, node' :: nodes' => same node node' && sameList nodes nodes'
  | _, _ => false

end

mutual

theorem same_eq_true : ∀ {a b : Node}, same a b = true ↔ a = b
  | call subject _ arguments _, call subject' _ arguments' _ => by
    simp only [same, Bool.and_eq_true, beq_iff_eq, decide_eq_true_eq, call.injEq,
      sameSubject_eq_true (a := subject) (b := subject'),
      sameList_eq_true (a := arguments) (b := arguments'), and_assoc]
  | reference .., reference .. => by simp [same, and_assoc]
  | block _ children _, block _ children' _ => by
    simp only [same, Bool.and_eq_true, beq_iff_eq, decide_eq_true_eq, block.injEq,
      sameList_eq_true (a := children) (b := children'), and_assoc]
  | call .., reference .. => by simp [same]
  | call .., block .. => by simp [same]
  | reference .., call .. => by simp [same]
  | reference .., block .. => by simp [same]
  | block .., call .. => by simp [same]
  | block .., reference .. => by simp [same]

theorem sameSubject_eq_true : ∀ {a b : Option Node}, sameSubject a b = true ↔ a = b
  | none, none => by simp [sameSubject]
  | some x, some y => by simp only [sameSubject, same_eq_true (a := x) (b := y), Option.some.injEq]
  | none, some _ => by simp [sameSubject]
  | some _, none => by simp [sameSubject]

theorem sameList_eq_true : ∀ {a b : List Node}, sameList a b = true ↔ a = b
  | [], [] => by simp [sameList]
  | x :: xs, y :: ys => by
    simp only [sameList, Bool.and_eq_true, same_eq_true (a := x) (b := y),
      sameList_eq_true (a := xs) (b := ys), List.cons.injEq]
  | [], _ :: _ => by simp [sameList]
  | _ :: _, [] => by simp [sameList]

end

instance : DecidableEq Node := fun _ _ => decidable_of_iff _ same_eq_true

end Node

end RailsReview
