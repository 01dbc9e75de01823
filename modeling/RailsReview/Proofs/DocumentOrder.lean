import RailsReview.Proofs.Traversal

/-!
# Each node once

A tree can hold one node many times, so that a list of its nodes does not tell which of them is where.
Their places do: the place of a node is the way to it from the root, child by child.  In the order of
lists, a node comes before what is below it, and that before what is below its next sibling.

`Node.places` gives the nodes of a tree with their places, and the walk meets them one by one.  That a
walk ends is said by `Walk.Meets`, which follows it step by step to its end.

* `Walk.remaining_of_next`: each step leaves one node less on the stack.
* `Walk.meets_iff`: a walk ends, and meets the nodes on its stack tree by tree.
* `Node.mem_places_iff`: every place of a tree is listed, and nothing else is.
* `Node.pairwise_places`: the places are listed in order, so none is listed twice.
* `Node.map_snd_places`: what stands there is the tree in document order.
* `meetsEachOnce`: the walk through a tree meets every node once, in document order.
-/

namespace RailsReview

namespace Walk

/-! ## The end of a walk -/

/-- Step by step, a walk meets these nodes, and then it ends. -/
inductive Meets : Walk → List Node → Prop
  | done {walk : Walk} (h : walk.next? = none) : Meets walk []
  | step {walk rest : Walk} {node : Node} {nodes : List Node}
      (h : walk.next? = some (node, rest)) (hrest : Meets rest nodes) : Meets walk (node :: nodes)

/-- Each step leaves one node less on the stack. -/
theorem remaining_of_next {walk rest : Walk} {node : Node} (h : walk.next? = some (node, rest)) :
    walk.remaining = rest.remaining + 1 := by
  rw [remaining, remaining, ← Node.length_preorderList, preorderList_of_next h, List.length_cons,
    Node.length_preorderList]

theorem next?_eq_none_iff {walk : Walk} : walk.next? = none ↔ walk.stack = [] := by
  obtain ⟨_ | ⟨node, stack⟩⟩ := walk <;> simp [next?]

/-- Every walk ends.  The number of nodes that are left bounds it, since the stack itself can grow. -/
theorem meets_preorderList (walk : Walk) : Meets walk (Node.preorderList walk.stack) := by
  cases h : walk.next? with
  | none =>
    rw [next?_eq_none_iff.mp h]
    exact .done h
  | some step =>
    obtain ⟨node, rest⟩ := step
    have hless := remaining_of_next h
    rw [preorderList_of_next h]
    exact .step h (meets_preorderList rest)
termination_by walk.remaining
decreasing_by omega

/-- What a walk meets are the nodes on its stack, tree by tree in document order. -/
theorem meets_iff {walk : Walk} {nodes : List Node} :
    Meets walk nodes ↔ nodes = Node.preorderList walk.stack := by
  constructor
  · intro h
    induction h with
    | done h => rw [next?_eq_none_iff.mp h, Node.preorderList]
    | step h _ ih => rw [ih, preorderList_of_next h]
  · rintro rfl
    exact meets_preorderList walk

end Walk

namespace Node

/-! ## Places -/

/-- The place of a node in a tree: the way to it from the root, child by child. -/
abbrev Place := List Nat

/-- What stands at a place. -/
def at? : Place → Node → Option Node
  | [], node => some node
  | index :: place, node => node.children[index]?.bind (at? place)

/-- A node at a place of a child, seen from its parent. -/
def inChild (index : Nat) (entry : Place × Node) : Place × Node :=
  (index :: entry.1, entry.2)

mutual

/-- The nodes of a tree with their places. -/
def places : Node → List (Place × Node)
  | call subject message arguments span =>
    ([], call subject message arguments span) ::
      (placesSubject subject ++ placesList subject.toList.length arguments)
  | reference kind name span => [([], reference kind name span)]
  | block label children span => ([], block label children span) :: placesList 0 children

/-- The nodes of an optional subject with their places. -/
def placesSubject : Option Node → List (Place × Node)
  | none => []
  | some node => (places node).map (inChild 0)

/-- The nodes of several children, of which the first has the given index, with their places. -/
def placesList : Nat → List Node → List (Place × Node)
  | _, [] => []
  | index, node :: nodes => (places node).map (inChild index) ++ placesList (index + 1) nodes

end

theorem placesList_append (index : Nat) (nodes others : List Node) :
    placesList index (nodes ++ others) =
      placesList index nodes ++ placesList (index + nodes.length) others := by
  induction nodes generalizing index with
  | nil => rfl
  | cons node nodes ih =>
    rw [List.cons_append, placesList, placesList, ih, List.append_assoc, List.length_cons,
      Nat.add_comm nodes.length, Nat.add_assoc]

/-- The root stands at the empty place, and the rest below its children. -/
theorem places_eq (node : Node) : node.places = ([], node) :: placesList 0 node.children := by
  cases node with
  | call subject message arguments span =>
    rw [places, children, placesList_append, Nat.zero_add]
    cases subject with
    | none => rfl
    | some subject => rw [placesSubject, Option.toList_some, placesList, placesList, List.append_nil]
  | reference kind name span => rfl
  | block label children span => rfl

/-- The entries of several children are those of the children, each below its index. -/
theorem mem_placesList_iff {first : Nat} {nodes : List Node} {place : Place} {node : Node} :
    (place, node) ∈ placesList first nodes ↔ ∃ index rest child,
      place = (first + index) :: rest ∧ nodes[index]? = some child ∧
        (rest, node) ∈ child.places := by
  induction nodes generalizing first with
  | nil => simp [placesList]
  | cons child nodes ih =>
    rw [placesList, List.mem_append, ih, List.mem_map]
    constructor
    · rintro (⟨⟨rest, other⟩, hmem, heq⟩ | ⟨index, rest, other, rfl, hother, hmem⟩)
      · cases heq
        exact ⟨0, rest, child, rfl, rfl, hmem⟩
      · refine ⟨index + 1, rest, other, ?_, hother, hmem⟩
        rw [Nat.add_assoc, Nat.add_comm 1]
    · rintro ⟨_ | index, rest, other, rfl, hother, hmem⟩
      · cases hother
        exact .inl ⟨(rest, node), hmem, rfl⟩
      · refine .inr ⟨index, rest, other, ?_, hother, hmem⟩
        rw [Nat.add_assoc, Nat.add_comm 1]

/-- The places of a tree are those where something stands, and that is what is listed with them. -/
theorem mem_places_iff {root node : Node} {place : Place} :
    (place, node) ∈ root.places ↔ root.at? place = some node := by
  induction place generalizing root with
  | nil =>
    rw [places_eq, List.mem_cons, mem_placesList_iff, at?]
    simp [eq_comm]
  | cons index place ih =>
    have hroot : (index :: place, node) ≠ ([], root) := by simp
    rw [places_eq, List.mem_cons, or_iff_right hroot, mem_placesList_iff, at?,
      Option.bind_eq_some_iff]
    simp only [Nat.zero_add, ← ih]
    constructor
    · rintro ⟨_, _, child, heq, hchild, hmem⟩
      cases heq
      exact ⟨child, hchild, hmem⟩
    · rintro ⟨child, hchild, hmem⟩
      exact ⟨index, place, child, rfl, hchild, hmem⟩

/-! ## The order of places -/

theorem size_eq (node : Node) : node.size = sizeList node.children + 1 := by
  rw [← length_preorder, preorder_eq, List.length_cons, length_preorderList]

/-- What holds of several trees if it holds of the children of the first one and of the others, holds
of any trees. -/
theorem childrenInduction {motive : List Node → Prop} (nil : motive [])
    (cons : ∀ node nodes, motive node.children → motive nodes → motive (node :: nodes))
    (nodes : List Node) : motive nodes := by
  cases nodes with
  | nil => exact nil
  | cons node nodes =>
    have hsize := size_eq node
    exact cons node nodes (childrenInduction nil cons node.children)
      (childrenInduction nil cons nodes)
termination_by sizeList nodes
decreasing_by all_goals (rw [sizeList]; omega)

/-- One entry stands before another in document order. -/
def Precedes (entry other : Place × Node) : Prop :=
  entry.1 < other.1

/-- What stands below a child comes before what stands below the children behind it. -/
theorem precedes_of_mem_placesList {index first : Nat} {nodes : List Node} {other : Place × Node}
    (h : other ∈ placesList first nodes) (hindex : index < first) (entry : Place × Node) :
    Precedes (inChild index entry) other := by
  obtain ⟨_, node⟩ := other
  obtain ⟨next, rest, child, rfl, -, -⟩ := mem_placesList_iff.mp h
  exact List.cons_lt_cons_iff.mpr (.inl (by omega))

theorem root_precedes_of_mem_placesList {first : Nat} {nodes : List Node} {other : Place × Node}
    (h : other ∈ placesList first nodes) (root : Node) : Precedes ([], root) other := by
  obtain ⟨_, node⟩ := other
  obtain ⟨next, rest, child, rfl, -, -⟩ := mem_placesList_iff.mp h
  exact List.nil_lt_cons _ _

theorem pairwise_places_of_children {root : Node}
    (h : (placesList 0 root.children).Pairwise Precedes) : root.places.Pairwise Precedes := by
  rw [places_eq, List.pairwise_cons]
  exact ⟨fun other hother => root_precedes_of_mem_placesList hother root, h⟩

/-- The places of several children are listed in order. -/
theorem pairwise_placesList (first : Nat) (nodes : List Node) :
    (placesList first nodes).Pairwise Precedes := by
  induction nodes using childrenInduction generalizing first with
  | nil => exact .nil
  | cons node nodes hchildren hnodes =>
    have hnode := pairwise_places_of_children (hchildren 0)
    rw [placesList, List.pairwise_append]
    refine ⟨hnode.map (inChild first) fun _ _ hless => ?_, hnodes (first + 1), ?_⟩
    · exact List.cons_lt_cons_iff.mpr (.inr ⟨rfl, hless⟩)
    · intro entry hentry other hother
      obtain ⟨below, -, rfl⟩ := List.mem_map.mp hentry
      exact precedes_of_mem_placesList hother (Nat.lt_succ_self first) below

/-- The places of a tree are listed in order, and so each of them once. -/
theorem pairwise_places (root : Node) : root.places.Pairwise Precedes :=
  pairwise_places_of_children (pairwise_placesList 0 root.children)

theorem map_snd_placesList (first : Nat) (nodes : List Node) :
    (placesList first nodes).map Prod.snd = preorderList nodes := by
  induction nodes using childrenInduction generalizing first with
  | nil => rfl
  | cons node nodes hchildren hnodes =>
    have hnode : node.places.map Prod.snd = node.preorder := by
      rw [places_eq, preorder_eq, List.map_cons, hchildren]
    rw [placesList, List.map_append, List.map_map, hnodes, preorderList, ← hnode]
    rfl

/-- What stands at the places is the tree in document order. -/
theorem map_snd_places (root : Node) : root.places.map Prod.snd = root.preorder := by
  rw [places_eq, preorder_eq, List.map_cons, map_snd_placesList]

end Node

/-! ## Walks -/

/-- What a walk from a stack of trees meets, and what a walk through a tree meets. -/
structure MeetsEachOnce (stack : List Node) (root : Node) : Prop where
  /-- A walk from any stack on ends, and meets the trees one by one, each of them in document order, -/
  meets_iff : ∀ nodes, Walk.Meets ⟨stack⟩ nodes ↔ nodes = stack.flatMap Node.preorder
  /-- and that is the list of what it meets. -/
  toList_eq : Walk.toList ⟨stack⟩ = stack.flatMap Node.preorder
  /-- A walk through a tree ends, and meets what stands at the places of the tree, one by one. -/
  meets_walk_iff : ∀ nodes, root.walk.Meets nodes ↔ nodes = root.places.map Prod.snd
  /-- These are all places where something stands, -/
  mem_places_iff : ∀ place node, (place, node) ∈ root.places ↔ root.at? place = some node
  /-- and they are in document order, so that none of them is met twice. -/
  pairwise_places : (root.places.map Prod.fst).Pairwise (· < ·)
  /-- So there are as many steps as the tree has nodes. -/
  length_toList : root.walk.toList.length = root.size

/-- **A walk ends, and meets each node once, in document order.** -/
theorem meetsEachOnce (stack : List Node) (root : Node) : MeetsEachOnce stack root where
  meets_iff nodes := by rw [Walk.meets_iff, Node.preorderList_eq_flatMap]
  toList_eq := by rw [Walk.toList_eq_preorderList, Node.preorderList_eq_flatMap]
  meets_walk_iff nodes := by
    rw [Walk.meets_iff, ← Walk.toList_eq_preorderList, Walk.toList_walk, Node.map_snd_places]
  mem_places_iff place node := Node.mem_places_iff
  pairwise_places := List.pairwise_map.mpr root.pairwise_places
  length_toList := by rw [Walk.toList_walk, Node.length_preorder]

end RailsReview
