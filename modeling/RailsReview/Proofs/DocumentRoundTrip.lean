import RailsReview.Proofs.JsonLayout
import RailsReview.Proofs.Traversal
import RailsReview.Tree.Document

/-!
# Reading back written documents

A written document is read back as it was, unless its tree is nested too deeply.  How deeply a tree
is nested once it is written is a number that can be told from the tree: a subject stands directly in
the record of its call, arguments and children stand in a list within the record, and the place of a
node is a record of its own.

* `Node.nesting`: the number of containers that are open at once within a written tree.
* `Node.plain_toJson`: the record of a tree is read back as a value.
* `Node.height_toJson`: the record of a tree is as high as the tree is nested.
* `Node.node?_read_toJson`: the record of a tree stands for the tree.
* `Document.parse?_write_eq`: a written document.
-/

namespace RailsReview

open Json (Plain)

/-! ## Nesting and places -/

/-- The line and the column of a place fit a word. -/
def Span.Fits (span : Span) : Prop :=
  span.line < Number.wordSize ∧ span.column < Number.wordSize

instance (span : Span) : Decidable span.Fits :=
  inferInstanceAs (Decidable (_ ∧ _))

namespace Node

mutual

/-- The number of containers that are open at once within a written tree. -/
def nesting : Node → Nat
  | reference .. => 2
  | call subject _ arguments _ =>
    1 + max 1 (max (nestingSubject subject)
      (if arguments.isEmpty then 0 else 1 + nestingList arguments))
  | block _ children _ => 1 + max 1 (if children.isEmpty then 0 else 1 + nestingList children)

/-- The nesting of a subject, nothing if there is none. -/
def nestingSubject : Option Node → Nat
  | none => 0
  | some node => nesting node

/-- The greatest nesting among several trees. -/
def nestingList : List Node → Nat
  | [] => 0
  | node :: nodes => max (nesting node) (nestingList nodes)

end

/-- Every place in a tree fits. -/
def SpansFit (root : Node) : Prop :=
  ∀ node ∈ root.preorder, node.span.Fits

instance (root : Node) : Decidable root.SpansFit :=
  inferInstanceAs (Decidable (∀ node ∈ root.preorder, node.span.Fits))

end Node

namespace Span

theorem plain_toJson {span : Span} (h : span.Fits) : Plain span.toJson := by
  refine .object fun member hmember => ?_
  rw [List.mem_cons, List.mem_singleton] at hmember
  rcases hmember with rfl | rfl
  · exact Json.plain_count h.1
  · exact Json.plain_count h.2

theorem ofJson?_toJson {span : Span} (h : span.Fits) : ofJson? span.toJson = some span := by
  have hfields : ofJson? span.toJson = (Json.count span.line).count?.bind fun line =>
      (Json.count span.column).count?.bind fun column => some { line, column } := rfl
  rw [hfields, Json.count?_count h.1, Json.count?_count h.2]
  rfl

theorem height_toJson (span : Span) : span.toJson.height = 1 := rfl

end Span

namespace Node

/-! ## The record of a tree is plain -/

/-- The members of a record that are left out for some nodes. -/
theorem argumentsMember_eq (values : List Json) :
    argumentsMember values = if values.isEmpty then [] else [("arguments", .array values)] := by
  cases values <;> rfl

theorem subjectMember_eq (subject : Option Node) :
    subjectMember subject = subject.toList.map fun node => ("subject", node.toJson) := by
  cases subject <;> rfl

mutual

theorem plain_toJson : ∀ node : Node, node.SpansFit → Plain node.toJson
  | call subject message arguments span, h => by
    rw [SpansFit, preorder, List.forall_mem_cons, List.forall_mem_append] at h
    obtain ⟨hspan, hsubject, harguments⟩ := h
    refine .object fun member hmember => ?_
    rw [subjectMember_eq, argumentsMember_eq] at hmember
    simp only [List.mem_cons, List.mem_append, List.mem_map, Option.mem_toList,
      List.not_mem_nil, or_false] at hmember
    rcases hmember with rfl | ⟨node, hnode, rfl⟩ | rfl | hmember | rfl
    · exact .string _
    · exact plain_toJsonSubject subject hsubject node hnode
    · exact .string message
    · split at hmember
      · exact absurd hmember List.not_mem_nil
      · obtain rfl := List.mem_singleton.mp hmember
        exact .array (plain_toJsonList arguments harguments)
    · exact Span.plain_toJson hspan
  | reference kind name span, h => by
    refine .object fun member hmember => ?_
    simp only [List.mem_cons, List.not_mem_nil, or_false] at hmember
    rcases hmember with rfl | rfl | rfl | rfl
    · exact .string _
    · exact .string _
    · exact .string name
    · exact Span.plain_toJson (h _ List.mem_cons_self)
  | block label children span, h => by
    rw [SpansFit, preorder, List.forall_mem_cons] at h
    refine .object fun member hmember => ?_
    simp only [List.mem_cons, List.not_mem_nil, or_false] at hmember
    rcases hmember with rfl | rfl | rfl | rfl
    · exact .string _
    · exact .string label
    · exact .array (plain_toJsonList children h.2)
    · exact Span.plain_toJson h.1

theorem plain_toJsonSubject : ∀ subject : Option Node,
    (∀ node ∈ preorderSubject subject, node.span.Fits) → ∀ node ∈ subject, Plain node.toJson
  | none, _ => fun node hnode => absurd hnode (Option.not_mem_none node)
  | some node, h => by
    intro other hother
    obtain rfl := Option.mem_some.mp hother
    exact plain_toJson node h

theorem plain_toJsonList : ∀ nodes : List Node,
    (∀ node ∈ preorderList nodes, node.span.Fits) → ∀ value ∈ toJsonList nodes, Plain value
  | [], _ => fun value hvalue => absurd hvalue List.not_mem_nil
  | node :: nodes, h => by
    rw [preorderList, List.forall_mem_append] at h
    intro value hvalue
    rcases List.mem_cons.mp hvalue with rfl | hvalue
    · exact plain_toJson node h.1
    · exact plain_toJsonList nodes h.2 value hvalue

end

/-! ## The height of the record -/

theorem heightMembers_append (members others : List (String × Json)) :
    Json.heightMembers (members ++ others) =
      max (Json.heightMembers members) (Json.heightMembers others) := by
  induction members with
  | nil => rw [List.nil_append, Json.heightMembers, Nat.zero_max]
  | cons member members ih =>
    rw [List.cons_append, Json.heightMembers, Json.heightMembers, ih, Nat.max_assoc]

theorem heightMembers_argumentsMember (values : List Json) :
    Json.heightMembers (argumentsMember values) =
      if values.isEmpty then 0 else 1 + Json.heightItems values := by
  cases values with
  | nil => rfl
  | cons value values =>
    rw [argumentsMember_eq, List.isEmpty_cons]
    exact Nat.max_zero _

theorem isEmpty_toJsonList (nodes : List Node) : (toJsonList nodes).isEmpty = nodes.isEmpty := by
  cases nodes <;> rfl

theorem height_string (text : String) : (Json.string text).height = 0 := rfl

mutual

/-- The record of a tree is as high as the tree is nested. -/
theorem height_toJson : ∀ node : Node, node.toJson.height = node.nesting
  | call subject message arguments span => by
    rw [toJson, Json.height, Json.heightMembers, heightMembers_append, Json.heightMembers,
      heightMembers_append, heightMembers_subjectMember subject, heightMembers_argumentsMember,
      heightItems_toJsonList arguments, isEmpty_toJsonList, nesting, Json.heightMembers,
      Json.heightMembers, Json.heightMember, Json.heightMember, Json.heightMember, height_string,
      height_string, Span.height_toJson]
    omega
  | reference kind name span => rfl
  | block label children span => by
    rw [toJson, Json.height, Json.heightMembers, Json.heightMembers, Json.heightMembers,
      Json.heightMembers, Json.heightMembers, Json.heightMember, Json.heightMember,
      Json.heightMember, Json.heightMember, Json.height, heightItems_toJsonList children,
      height_string, height_string, Span.height_toJson, nesting]
    cases children with
    | nil => rfl
    | cons child children =>
      rw [List.isEmpty_cons, if_neg Bool.false_ne_true]
      omega

theorem heightMembers_subjectMember : ∀ subject : Option Node,
    Json.heightMembers (subjectMember subject) = nestingSubject subject
  | none => rfl
  | some node => by
    rw [subjectMember, Json.heightMembers, Json.heightMember, Json.heightMembers,
      height_toJson node, nestingSubject, Nat.max_zero]

theorem heightItems_toJsonList : ∀ nodes : List Node,
    Json.heightItems (toJsonList nodes) = nestingList nodes
  | [] => rfl
  | node :: nodes => by
    rw [toJsonList, Json.heightItems, height_toJson node, heightItems_toJsonList nodes, nestingList]

end

/-! ## Reading the record -/

theorem readItems_eq_map (items : List Json) : readItems items = items.map read := by
  induction items with
  | nil => rfl
  | cons item items ih => rw [readItems, ih, List.map_cons]

theorem readMembers_eq_map (members : List (String × Json)) :
    readMembers members = members.map fun member => (member.1, read member.2) := by
  induction members with
  | nil => rfl
  | cons member members ih => rw [readMembers, ih, List.map_cons, readMember]

theorem readMembers_append (members others : List (String × Json)) :
    readMembers (members ++ others) = readMembers members ++ readMembers others := by
  rw [readMembers_eq_map, readMembers_eq_map, readMembers_eq_map, List.map_append]

theorem readMembers_subjectMember (subject : Option Node) :
    readMembers (subjectMember subject) =
      (subject.map fun node => read node.toJson).toList.map (("subject", ·)) := by
  cases subject <;> rfl

/-- What is read as the arguments of a call, nothing if there are none. -/
def argumentsReading (arguments : List Node) : Option Reading :=
  if arguments.isEmpty then none else some (read (.array (toJsonList arguments)))

theorem readMembers_argumentsMember (arguments : List Node) :
    readMembers (argumentsMember (toJsonList arguments)) =
      (argumentsReading arguments).toList.map (("arguments", ·)) := by
  cases arguments <;> rfl

/-- The fields of the record of a call, two of which may be left out. -/
theorem ofMembers?_call (subject arguments : Option Reading) (message span : Reading) :
    ofMembers? (("type", read (.string Shape.call.name)) ::
      (subject.toList.map (("subject", ·)) ++ ("message", message) ::
        (arguments.toList.map (("arguments", ·)) ++ [("span", span)]))) = do
      let subject ← subjectOf subject
      let message ← textOf (some message)
      let arguments ← nodesOf arguments
      let span ← spanOf (some span)
      return .call subject message arguments span := by
  cases subject <;> cases arguments <;> rfl

theorem spanOf_read {span : Span} (h : span.Fits) : spanOf (some (read span.toJson)) = some span :=
  Span.ofJson?_toJson h

/-- A tree is no `null`, so where its record stands as a subject, there is one. -/
theorem subjectOf_read_toJson (node : Node) :
    subjectOf (some (read node.toJson)) = (read node.toJson).node?.map some := by
  cases node <;> rfl

theorem nodesOf_argumentsReading {arguments : List Node}
    (h : (readItems (toJsonList arguments)).mapM (·.node?) = some arguments) :
    nodesOf (argumentsReading arguments) = some arguments := by
  cases arguments with
  | nil => rfl
  | cons argument arguments => exact h

mutual

/-- The record of a tree stands for the tree. -/
theorem node?_read_toJson : ∀ node : Node, node.SpansFit → (read node.toJson).node? = some node
  | call subject message arguments span, h => by
    rw [SpansFit, preorder, List.forall_mem_cons, List.forall_mem_append] at h
    have hspan : spanOf (some (read span.toJson)) = some span := spanOf_read h.1
    rw [toJson, read, readMembers, readMembers_append, readMembers, readMembers_append,
      readMembers_subjectMember, readMembers_argumentsMember]
    refine (ofMembers?_call _ _ _ _).trans ?_
    rw [subjectOf_read subject h.2.1, hspan,
      nodesOf_argumentsReading (mapM_readItems_toJsonList arguments h.2.2)]
    rfl
  | reference kind name span, h => by
    have hfields : (read (reference kind name span).toJson).node? =
        (spanOf (some (read span.toJson))).bind fun span =>
          some (reference (.ofName kind.name) name span) := rfl
    have hspan : spanOf (some (read span.toJson)) = some span :=
      spanOf_read (h _ List.mem_cons_self)
    rw [hfields, hspan, ReferenceKind.ofName_name]
    rfl
  | block label children span, h => by
    rw [SpansFit, preorder, List.forall_mem_cons] at h
    have hfields : (read (block label children span).toJson).node? =
        (nodesOf (some (read (.array (toJsonList children))))).bind fun children =>
          (spanOf (some (read span.toJson))).bind fun span =>
            some (block label children span) := rfl
    have hchildren : nodesOf (some (read (.array (toJsonList children)))) = some children :=
      mapM_readItems_toJsonList children h.2
    have hspan : spanOf (some (read span.toJson)) = some span := spanOf_read h.1
    rw [hfields, hchildren, hspan]
    rfl

theorem subjectOf_read : ∀ subject : Option Node,
    (∀ node ∈ preorderSubject subject, node.span.Fits) →
      subjectOf (subject.map fun node => read node.toJson) = some subject
  | none, _ => rfl
  | some node, h => by
    rw [Option.map_some, subjectOf_read_toJson, node?_read_toJson node h, Option.map_some]

theorem mapM_readItems_toJsonList : ∀ nodes : List Node,
    (∀ node ∈ preorderList nodes, node.span.Fits) →
      (readItems (toJsonList nodes)).mapM (·.node?) = some nodes
  | [], _ => rfl
  | node :: nodes, h => by
    rw [preorderList, List.forall_mem_append] at h
    rw [toJsonList, readItems, List.mapM_cons, node?_read_toJson node h.1,
      mapM_readItems_toJsonList nodes h.2]
    rfl

end

theorem namesType_toJson (node : Node) : namesType node.toJson = true := by
  cases node with
  | call subject message arguments span => cases subject <;> cases arguments <;> rfl
  | reference kind name span => rfl
  | block label children span => rfl

end Node

/-! ## Values without a value -/

namespace Json

theorem isValuedItems_eq_all (items : List Json) : isValuedItems items = items.all isValued := by
  induction items with
  | nil => rfl
  | cons item items ih => rw [isValuedItems, ih, List.all_cons]

theorem isValuedMembers_eq_all (members : List (String × Json)) :
    isValuedMembers members = members.all fun member => isValued member.2 := by
  induction members with
  | nil => rfl
  | cons member members ih => rw [isValuedMembers, ih, List.all_cons, isValuedMember]

theorem Plain.isValued {value : Json} (h : Plain value) : value.isValued = true := by
  induction h with
  | null => rfl
  | bool value => rfl
  | integer inRange => rfl
  | string text => rfl
  | array items_plain ih => rwa [Json.isValued, isValuedItems_eq_all, List.all_eq_true]
  | object members_plain ih => rwa [Json.isValued, isValuedMembers_eq_all, List.all_eq_true]

end Json

/-! ## Documents -/

namespace Document

theorem plain_toJson {document : Document} (h : document.root.SpansFit) :
    Plain document.toJson := by
  obtain ⟨path, root⟩ := document
  refine .object fun member hmember => ?_
  rcases List.mem_append.mp hmember with hmember | hmember
  · cases path with
    | none => exact absurd hmember List.not_mem_nil
    | some path =>
      obtain rfl := List.mem_singleton.mp hmember
      exact .string path.text
  · obtain rfl := List.mem_singleton.mp hmember
    exact Node.plain_toJson root h

theorem rootOf?_toJson {root : Node} (h : root.SpansFit) :
    rootOf? root.toJson = if 1 + root.nesting ≤ maxNesting then some root else none := by
  simp only [rootOf?, (Node.plain_toJson root h).isValued, Node.height_toJson,
    Node.namesType_toJson, Node.node?_read_toJson root h, true_and, and_true]

/-- The record of a document stands for the document, if it is not nested too deeply. -/
theorem ofJson?_toJson {document : Document} (h : document.root.SpansFit) :
    ofJson? document.toJson =
      if 1 + document.root.nesting ≤ maxNesting then some document else none := by
  have hfields : ofJson? document.toJson =
      (rootOf? document.root.toJson).map fun root => { path := document.path, root } := by
    obtain ⟨_ | path, root⟩ := document <;> exact Option.map_eq_bind.symm
  rw [hfields, rootOf?_toJson h]
  split <;> rfl

/-- A written document is read back, unless its tree is nested too deeply; then it is refused. -/
theorem parse?_write_eq (document : Document) (h : document.root.SpansFit) :
    parse? document.write =
      if 1 + document.root.nesting ≤ 127 then some document else none := by
  rw [parse?, write, Json.read?_compact (plain_toJson h), Option.bind_some, ofJson?_toJson h]
  rfl

/-- A call with a subject and an argument, in a path and with names that have to be escaped. -/
def escapedSample : Document where
  path := some ⟨"app/views/\"quoted\"\n_é.erb"⟩
  root := .call (some (.reference .instanceVariable "@invoice" ⟨3, 5⟩)) "back\\slash\x01"
    [.block "template" [] ⟨3, 18446744073709551615⟩] ⟨3, 5⟩

theorem parse?_write_escapedSample :
    escapedSample.root.SpansFit ∧ parse? escapedSample.write = some escapedSample := by
  have h : escapedSample.root.SpansFit := by decide
  refine ⟨h, ?_⟩
  rw [parse?_write_eq escapedSample h]
  exact if_pos (by decide)

end Document

end RailsReview
