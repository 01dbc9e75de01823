import RailsReview.Tree.Node

/-!
# Walking a tree

The nodes of a tree in document order: a node before its children, the subject of a call before its
arguments.

The order is given twice.  `Node.preorder` says what it is, by recursion on the tree.  `Walk` is how
a review goes about it, with a stack of the trees that are still to be visited: the topmost tree is
taken off, and its children take its place.  Each step takes one node off the stack for good, so the
total number of nodes on the stack bounds the walk.
-/

namespace RailsReview

namespace Node

/-! ## The order -/

mutual

/-- The nodes of a tree in document order. -/
def preorder : Node → List Node
  | call subject message arguments span =>
    call subject message arguments span :: (preorderSubject subject ++ preorderList arguments)
  | reference kind name span => [reference kind name span]
  | block label children span => block label children span :: preorderList children

/-- The nodes of an optional subject in document order. -/
def preorderSubject : Option Node → List Node
  | none => []
  | some node => preorder node

/-- The nodes of several trees in document order, tree by tree. -/
def preorderList : List Node → List Node
  | [] => []
  | node :: nodes => preorder node ++ preorderList nodes

end

/-! ## Size -/

mutual

/-- The number of nodes of a tree. -/
def size : Node → Nat
  | call subject _ arguments _ => 1 + sizeSubject subject + sizeList arguments
  | reference .. => 1
  | block _ children _ => 1 + sizeList children

/-- The number of nodes of an optional subject. -/
def sizeSubject : Option Node → Nat
  | none => 0
  | some node => size node

/-- The number of nodes of several trees. -/
def sizeList : List Node → Nat
  | [] => 0
  | node :: nodes => size node + sizeList nodes

end

end Node

/-! ## The walk -/

/-- A walk under way: the trees still to be visited, the next one first. -/
structure Walk where
  stack : List Node
  deriving DecidableEq, Repr, Inhabited

namespace Walk

/-- The next node and the walk after it. -/
def next? : Walk → Option (Node × Walk)
  | ⟨[]⟩ => none
  | ⟨node :: stack⟩ => some (node, ⟨node.children ++ stack⟩)

/-- The nodes met in at most `count` steps. -/
def take : Nat → Walk → List Node
  | 0, _ => []
  | count + 1, walk =>
    match walk.next? with
    | none => []
    | some (node, rest) => node :: take count rest

/-- The number of nodes still to be visited. -/
def remaining (walk : Walk) : Nat :=
  Node.sizeList walk.stack

/-- All nodes that the walk still meets. -/
def toList (walk : Walk) : List Node :=
  walk.take walk.remaining

end Walk

/-- The walk that starts at the root of a tree. -/
def Node.walk (root : Node) : Walk :=
  ⟨[root]⟩

end RailsReview
