import RailsReview.Rule.Basic

/-!
# The walk meets the nodes in document order

`Node.preorder` is the order by recursion on the tree, and `Walk` goes about it with a stack.  The
two agree from any stack on and after any number of steps, so they agree as a whole.

* `Node.preorder_eq`: a tree in document order is its root before the trees of its children.
* `Node.length_preorderList`: the order has one entry for each node.
* `Walk.take_eq_take_preorderList`: the first steps of a walk from any stack.
* `Walk.toList_eq_preorderList`: the whole walk.
* `check_eq_flatMap_preorder`: the review of a tree by a single rule.
* `mem_review_iff`: a violation comes from a rule about the file, at a node of the tree.
-/

namespace RailsReview

namespace Node

/-! ## The order and the children -/

theorem preorderList_eq_flatMap (nodes : List Node) :
    preorderList nodes = nodes.flatMap preorder := by
  induction nodes with
  | nil => rfl
  | cons node nodes ih => rw [preorderList, ih, List.flatMap_cons]

theorem preorderList_append (nodes others : List Node) :
    preorderList (nodes ++ others) = preorderList nodes ++ preorderList others := by
  induction nodes with
  | nil => rfl
  | cons node nodes ih => rw [List.cons_append, preorderList, preorderList, ih, List.append_assoc]

theorem preorderSubject_eq (subject : Option Node) :
    preorderSubject subject = preorderList subject.toList := by
  cases subject with
  | none => rfl
  | some node => rw [preorderSubject, Option.toList_some, preorderList, preorderList,
      List.append_nil]

/-- A tree in document order: its root, then its children one after the other. -/
theorem preorder_eq (node : Node) : node.preorder = node :: preorderList node.children := by
  cases node with
  | call subject message arguments span =>
    rw [preorder, children, preorderList_append, preorderSubject_eq]
  | reference kind name span => rfl
  | block label children span => rfl

/-! ## The number of nodes -/

mutual

theorem length_preorder : ∀ node : Node, node.preorder.length = node.size
  | call subject message arguments span => by
    rw [preorder, size, List.length_cons, List.length_append, length_preorderSubject subject,
      length_preorderList arguments]
    omega
  | reference kind name span => rfl
  | block label children span => by
    rw [preorder, size, List.length_cons, length_preorderList children]
    omega

theorem length_preorderSubject :
    ∀ subject : Option Node, (preorderSubject subject).length = sizeSubject subject
  | none => rfl
  | some node => length_preorder node

/-- Several trees in document order are as long as they have nodes. -/
theorem length_preorderList :
    ∀ nodes : List Node, (preorderList nodes).length = sizeList nodes
  | [] => rfl
  | node :: nodes => by
    rw [preorderList, sizeList, List.length_append, length_preorder node,
      length_preorderList nodes]

end

end Node

/-! ## The walk -/

namespace Walk

/-- A step takes the next node of the document order off the stack, and leaves the rest. -/
theorem preorderList_of_next {walk rest : Walk} {node : Node}
    (h : walk.next? = some (node, rest)) :
    Node.preorderList walk.stack = node :: Node.preorderList rest.stack := by
  obtain ⟨_ | ⟨first, stack⟩⟩ := walk
  · exact absurd h (by simp [next?])
  · obtain ⟨rfl, rfl⟩ : first = node ∧ ⟨first.children ++ stack⟩ = rest := by
      simpa [next?] using h
    rw [Node.preorderList, Node.preorder_eq, Node.preorderList_append, List.cons_append]

/-- The first steps of a walk meet the first nodes in document order. -/
theorem take_eq_take_preorderList (count : Nat) (walk : Walk) :
    walk.take count = (Node.preorderList walk.stack).take count := by
  induction count generalizing walk with
  | zero => rfl
  | succ count ih =>
    rw [take]
    cases h : walk.next? with
    | none =>
      obtain ⟨_ | ⟨first, stack⟩⟩ := walk
      · rfl
      · exact absurd h (by simp [next?])
    | some step =>
      obtain ⟨node, rest⟩ := step
      rw [preorderList_of_next h, List.take_succ_cons, ← ih rest]

/-- A walk meets all nodes on its stack, tree by tree, in document order. -/
theorem toList_eq_preorderList (walk : Walk) :
    walk.toList = Node.preorderList walk.stack := by
  rw [toList, take_eq_take_preorderList, remaining, ← Node.length_preorderList, List.take_length]

theorem toList_walk (root : Node) : root.walk.toList = root.preorder := by
  rw [toList_eq_preorderList, Node.walk, Node.preorderList, Node.preorderList, List.append_nil]

end Walk

/-! ## Reviews -/

/-- A violation at a node is made from a remark on the node. -/
theorem Rule.exists_remark_of_mem_visit {rule : Rule} {file : SourceFile} {node : Node}
    {violation : Violation} (h : violation ∈ rule.visit file node) :
    ∃ remark ∈ rule.inspect file node, rule.violation file remark = violation := by
  unfold visit at h
  split at h
  · exact List.mem_map.mp h
  · exact absurd h List.not_mem_nil

/-- A review shows every node to every interested rule, in document order. -/
theorem review_eq_flatMap_preorder (file : SourceFile) (root : Node) (rules : List Rule) :
    review file root rules = root.preorder.flatMap fun node =>
      (rules.filter (·.appliesTo file)).flatMap (·.visit file node) := by
  rw [review, Walk.toList_walk]

/-- Each violation of a review comes from a rule about the file, at a node of the tree. -/
theorem mem_review_iff {file : SourceFile} {root : Node} {rules : List Rule}
    {violation : Violation} :
    violation ∈ review file root rules ↔ ∃ node ∈ root.preorder, ∃ rule ∈ rules,
      rule.appliesTo file = true ∧ violation ∈ rule.visit file node := by
  rw [review_eq_flatMap_preorder]
  simp only [List.mem_flatMap, List.mem_filter, and_assoc]

/-- The review of a tree by a rule that is about its file. -/
theorem check_eq_flatMap_preorder {rule : Rule} {file : SourceFile}
    (h : rule.appliesTo file = true) (root : Node) :
    rule.check file root = root.preorder.flatMap (rule.visit file) := by
  have hactive : [rule].filter (·.appliesTo file) = [rule] :=
    List.filter_eq_self.mpr fun other hother => by rwa [List.mem_singleton.mp hother]
  rw [Rule.check, review_eq_flatMap_preorder, hactive]
  simp only [List.flatMap_singleton]

/-- The review by a rule that finds one thing at the nodes with a property, and nothing at others. -/
theorem check_eq_map_filter {rule : Rule} {file : SourceFile} {p : Node → Prop} [DecidablePred p]
    {finding : Node → Violation} (h : rule.appliesTo file = true)
    (hvisit : ∀ node, rule.visit file node = if p node then [finding node] else [])
    (root : Node) : rule.check file root = (root.preorder.filter (p ·)).map finding := by
  rw [check_eq_flatMap_preorder h]
  induction root.preorder with
  | nil => rfl
  | cons node nodes ih =>
    rw [List.flatMap_cons, hvisit, ih]
    by_cases hnode : p node
    · rw [if_pos hnode, List.filter_cons_of_pos (by simpa using hnode), List.map_cons,
        List.singleton_append]
    · rw [if_neg hnode, List.filter_cons_of_neg (by simpa using hnode), List.nil_append]

end RailsReview
