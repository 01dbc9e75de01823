import RailsReview.Proofs.DocumentRoundTrip

/-!
# Accepted texts written again

A text can hold a document in many ways: with members in any order and among others, with defaults
left out, as arrays, with numbers for types and long names for kinds.  Once it is written the
document has one form, and that can be nested more deeply than the text was, since the place of a
node is always written, and so are the children of a block.

It is nested more deeply by one container at most.  So a document whose text leaves room for one
container is read back as it was, and without that room it may be refused.

## Why one container is enough

What is written and need not have been there holds no node: a place is a record of two numbers, and
children that were left out are an empty list.  So each node is nested as deeply in its record as it
was in its value, and only the innermost ones have containers that their values may not have had.

* `Json.mem_of_memberFields`, `Json.mem_of_itemFields`: what stands in a field is part of the
  record.
* `Node.Reading.Bounded`: what is read from a value needs at most one container more.
* `Node.bounded_ofFields?`: the fields of a node pass this on to the node.
* `Node.bounded_read`: so it holds of every value.
* `Document.nesting_le`: and of the root of every document that is accepted.
* `Document.parse?_write_of_parse?`: a document is read back if there is room, and need not be
  without.
-/

namespace RailsReview

open Json (Fields Plain)

/-! ## Parts of a record -/

namespace Json

theorem height_le_heightItems {items : List Json} {item : Json} (h : item ∈ items) :
    item.height ≤ heightItems items := by
  induction items with
  | nil => exact absurd h List.not_mem_nil
  | cons first items ih =>
    rw [heightItems]
    rcases List.mem_cons.mp h with rfl | h
    · exact Nat.le_max_left _ _
    · exact Nat.le_trans (ih h) (Nat.le_max_right _ _)

theorem height_le_heightMembers {members : List (String × Json)} {member : String × Json}
    (h : member ∈ members) : member.2.height ≤ heightMembers members := by
  induction members with
  | nil => exact absurd h List.not_mem_nil
  | cons first members ih =>
    rw [heightMembers, heightMember]
    rcases List.mem_cons.mp h with rfl | h
    · exact Nat.le_max_left _ _
    · exact Nat.le_trans (ih h) (Nat.le_max_right _ _)

theorem mem_of_memberFields {α : Type} {members : List (String × α)} {name : String} {value : α}
    (h : memberFields members name = some (some value)) : (name, value) ∈ members := by
  unfold memberFields at h
  split at h
  · exact absurd (Option.some.inj h) (Option.some_ne_none value).symm
  · next found other hfilter =>
    have hmem : (found, other) ∈ members.filter (·.1 == name) := hfilter ▸ List.mem_singleton_self _
    obtain ⟨hmem, hname⟩ := List.mem_filter.mp hmem
    obtain rfl := Option.some.inj (Option.some.inj h)
    rwa [← eq_of_beq hname]
  · exact absurd h.symm (Option.some_ne_none _)

theorem mem_of_itemFields {α : Type} {names : List String} {items : List α} {name : String}
    {value : α} (h : itemFields names items name = some (some value)) : value ∈ items :=
  List.mem_of_getElem? (Option.some.inj h)

theorem lt_of_count?_eq_some {value : Json} {n : Nat} (h : value.count? = some n) :
    n < Number.wordSize := by
  unfold count? at h
  split at h
  · unfold Number.count? at h
    split at h
    · split at h
      · next hlt => rwa [← Option.some.inj h]
      · exact absurd h.symm (Option.some_ne_none n)
    · exact absurd h.symm (Option.some_ne_none n)
  · exact absurd h.symm (Option.some_ne_none n)

end Json

/-- Every place that is read fits. -/
theorem Span.fits_of_ofJson? {value : Json} {span : Span} (h : ofJson? value = some span) :
    span.Fits := by
  simp only [ofJson?, Json.required, Option.bind_eq_bind, Option.bind_eq_some_iff,
    Option.pure_def, Option.some.injEq] at h
  obtain ⟨field, -, line, -, n, ⟨_, -, hline⟩, column, -, m, ⟨_, -, hcolumn⟩, rfl⟩ := h
  exact ⟨Json.lt_of_count?_eq_some hline, Json.lt_of_count?_eq_some hcolumn⟩

/-! ## Readings -/

namespace Node

/-- What is read from a value fits, and takes at most one container more when it is written. -/
structure Reading.Bounded (reading : Reading) : Prop where
  node : ∀ node ∈ reading.node?, node.SpansFit ∧ node.nesting ≤ reading.value.height + 1
  nodes : ∀ nodes ∈ reading.nodes?, (∀ node ∈ preorderList nodes, node.span.Fits) ∧
    nestingList nodes ≤ reading.value.height

section

variable {field : Option Reading} {height : Nat}
  (hfield : ∀ reading ∈ field, reading.Bounded ∧ reading.value.height ≤ height)

include hfield

theorem bounded_subjectOf {subject : Option Node} (h : subjectOf field = some subject) :
    (∀ node ∈ preorderSubject subject, node.span.Fits) ∧ nestingSubject subject ≤ height + 1 := by
  unfold subjectOf at h
  split at h
  · obtain rfl := Option.some.inj h
    exact ⟨fun _ hnode => absurd hnode List.not_mem_nil, Nat.zero_le _⟩
  · obtain rfl := Option.some.inj h
    exact ⟨fun _ hnode => absurd hnode List.not_mem_nil, Nat.zero_le _⟩
  · next reading _ =>
    obtain ⟨node, hnode, rfl⟩ := Option.map_eq_some_iff.mp h
    obtain ⟨hbounded, hheight⟩ := hfield reading rfl
    obtain ⟨hfits, hnesting⟩ := hbounded.node node hnode
    exact ⟨hfits, Nat.le_trans hnesting (Nat.succ_le_succ hheight)⟩

theorem bounded_nodesOf {nodes : List Node} (h : nodesOf field = some nodes) :
    (∀ node ∈ preorderList nodes, node.span.Fits) ∧ nestingList nodes ≤ height := by
  cases field with
  | none =>
    obtain rfl := Option.some.inj h
    exact ⟨fun _ hnode => absurd hnode List.not_mem_nil, Nat.zero_le _⟩
  | some reading =>
    obtain ⟨hbounded, hheight⟩ := hfield reading rfl
    obtain ⟨hfits, hnesting⟩ := hbounded.nodes nodes h
    exact ⟨hfits, Nat.le_trans hnesting hheight⟩

omit hfield in
theorem fits_spanOf {span : Span} (h : spanOf field = some span) : span.Fits := by
  cases field with
  | none =>
    obtain rfl := Option.some.inj h
    decide
  | some reading => exact Span.fits_of_ofJson? h

end

/-- The node of a record takes one container more than the record if its fields do. -/
theorem bounded_ofFields? {fields : Fields Reading} {height : Nat}
    (hfields : ∀ name reading, fields name = some (some reading) →
      reading.Bounded ∧ reading.value.height ≤ height) {shape : Shape} {node : Node}
    (h : ofFields? fields shape = some node) : node.SpansFit ∧ node.nesting ≤ 1 + height + 1 := by
  have hfield : ∀ {name field}, fields name = some field →
      ∀ reading ∈ field, reading.Bounded ∧ reading.value.height ≤ height := by
    rintro name field hname reading rfl
    exact hfields name reading hname
  cases shape with
  | call =>
    simp only [ofFields?, Option.bind_eq_bind, Option.bind_eq_some_iff, Option.pure_def,
      Option.some.injEq] at h
    obtain ⟨_, hsubject, subject, hsubjectOf, _, -, message, -, _, harguments, arguments, hnodesOf,
      _, -, span, hspanOf, rfl⟩ := h
    obtain ⟨hsubjectFits, hsubjectNesting⟩ := bounded_subjectOf (hfield hsubject) hsubjectOf
    obtain ⟨hargumentsFit, hargumentsNesting⟩ := bounded_nodesOf (hfield harguments) hnodesOf
    constructor
    · rw [SpansFit, preorder, List.forall_mem_cons, List.forall_mem_append]
      exact ⟨fits_spanOf hspanOf, hsubjectFits, hargumentsFit⟩
    · rw [nesting]
      split <;> omega
  | reference =>
    simp only [ofFields?, Option.bind_eq_bind, Option.bind_eq_some_iff, Option.pure_def,
      Option.some.injEq] at h
    obtain ⟨_, -, kind, -, _, -, name, -, _, -, span, hspanOf, rfl⟩ := h
    constructor
    · rw [SpansFit, preorder]
      exact List.forall_mem_singleton.mpr (fits_spanOf hspanOf)
    · rw [nesting]
      omega
  | block =>
    simp only [ofFields?, Option.bind_eq_bind, Option.bind_eq_some_iff, Option.pure_def,
      Option.some.injEq] at h
    obtain ⟨_, -, label, -, _, hchildren, children, hnodesOf, _, -, span, hspanOf, rfl⟩ := h
    obtain ⟨hchildrenFit, hchildrenNesting⟩ := bounded_nodesOf (hfield hchildren) hnodesOf
    constructor
    · rw [SpansFit, preorder, List.forall_mem_cons]
      exact ⟨fits_spanOf hspanOf, hchildrenFit⟩
    · rw [nesting]
      split <;> omega

/-- The node that an object is. -/
theorem bounded_ofMembers? {members : List (String × Reading)} {height : Nat}
    (hmembers : ∀ member ∈ members, member.2.Bounded ∧ member.2.value.height ≤ height)
    {node : Node} (h : ofMembers? members = some node) :
    node.SpansFit ∧ node.nesting ≤ 1 + height + 1 := by
  simp only [ofMembers?, Option.bind_eq_bind, Option.bind_eq_some_iff] at h
  obtain ⟨_, -, shape, -, hnode⟩ := h
  exact bounded_ofFields? (fun _ _ hname => hmembers _ (Json.mem_of_memberFields hname)) hnode

/-- The node that an array is. -/
theorem bounded_ofItems? {readings : List Reading} {height : Nat}
    (hreadings : ∀ reading ∈ readings, reading.Bounded ∧ reading.value.height ≤ height)
    {node : Node} (h : ofItems? readings = some node) :
    node.SpansFit ∧ node.nesting ≤ 1 + height + 1 := by
  cases readings with
  | nil => exact absurd h.symm (Option.some_ne_none node)
  | cons type items =>
    simp only [ofItems?, Json.RecordForm.ofItems, Option.bind_eq_bind, Option.bind_eq_some_iff,
      Option.ite_none_right_eq_some, Option.some.injEq] at h
    obtain ⟨shape, -, _, ⟨-, rfl⟩, hnode⟩ := h
    refine bounded_ofFields? (fun name reading hname => ?_) hnode
    exact hreadings reading (List.mem_cons_of_mem type (Json.mem_of_itemFields hname))

/-- The nodes that an array holds. -/
theorem bounded_mapM {readings : List Reading} {height : Nat}
    (hreadings : ∀ reading ∈ readings, reading.Bounded ∧ reading.value.height ≤ height)
    {nodes : List Node} (h : readings.mapM (·.node?) = some nodes) :
    (∀ node ∈ preorderList nodes, node.span.Fits) ∧ nestingList nodes ≤ height + 1 := by
  induction readings generalizing nodes with
  | nil =>
    obtain rfl := Option.some.inj h
    exact ⟨fun _ hnode => absurd hnode List.not_mem_nil, Nat.zero_le _⟩
  | cons reading readings ih =>
    rw [List.forall_mem_cons] at hreadings
    simp only [List.mapM_cons, Option.bind_eq_bind, Option.bind_eq_some_iff, Option.pure_def,
      Option.some.injEq] at h
    obtain ⟨node, hnode, rest, hrest, rfl⟩ := h
    obtain ⟨hbounded, hheight⟩ := hreadings.1
    obtain ⟨hfits, hnesting⟩ := hbounded.node node hnode
    obtain ⟨hrestFit, hrestNesting⟩ := ih hreadings.2 hrest
    rw [preorderList, List.forall_mem_append, nestingList]
    exact ⟨⟨hfits, hrestFit⟩, by omega⟩

/-- What is read from a scalar is no node. -/
theorem bounded_scalar (value : Json) : Reading.Bounded { value } where
  node := fun _ hnode => absurd hnode (Option.not_mem_none _)
  nodes := fun _ hnodes => absurd hnodes (Option.not_mem_none _)

theorem value_read (value : Json) : (read value).value = value := by
  cases value <;> rfl

mutual

/-- **Whatever is read takes at most one container more when it is written.** -/
theorem bounded_read : ∀ value : Json, (read value).Bounded
  | .object members => by
    have hmembers : ∀ member ∈ readMembers members, member.2.Bounded ∧
        member.2.value.height ≤ Json.heightMembers members := by
      rw [readMembers_eq_map, List.forall_mem_map]
      intro member hmember
      rw [value_read]
      exact ⟨bounded_members members member hmember, Json.height_le_heightMembers hmember⟩
    exact ⟨fun _ hnode => bounded_ofMembers? hmembers hnode,
      fun _ hnodes => absurd hnodes (Option.not_mem_none _)⟩
  | .array items => by
    have hitems : ∀ reading ∈ readItems items, reading.Bounded ∧
        reading.value.height ≤ Json.heightItems items := by
      rw [readItems_eq_map, List.forall_mem_map]
      intro item hitem
      rw [value_read]
      exact ⟨bounded_items items item hitem, Json.height_le_heightItems hitem⟩
    refine ⟨fun _ hnode => bounded_ofItems? hitems hnode, fun nodes hnodes => ?_⟩
    obtain ⟨hfits, hnesting⟩ := bounded_mapM hitems hnodes
    exact ⟨hfits, by rwa [Nat.add_comm] at hnesting⟩
  | .null => bounded_scalar .null
  | .bool value => bounded_scalar (.bool value)
  | .number value => bounded_scalar (.number value)
  | .string text => bounded_scalar (.string text)
  | .valueless => bounded_scalar .valueless

theorem bounded_items : ∀ items : List Json, ∀ item ∈ items, (read item).Bounded
  | [] => List.forall_mem_nil _
  | item :: items => List.forall_mem_cons.mpr ⟨bounded_read item, bounded_items items⟩

theorem bounded_members : ∀ members : List (String × Json),
    ∀ member ∈ members, (read member.2).Bounded
  | [] => List.forall_mem_nil _
  | (_, value) :: members =>
    List.forall_mem_cons.mpr ⟨bounded_read value, bounded_members members⟩

end

end Node

/-! ## Documents -/

namespace Document

/-- The number of containers that are open at once in a document, apart from values that are
ignored. -/
def openContainers : Json → Nat
  | .object members =>
    1 + Json.heightMembers (members.filter fun member => form.names.contains member.1)
  | value => value.height

/-- The number of containers that are open at once in the text of a document. -/
def opened (text : String) : Nat :=
  ((Json.read? text).map openContainers).getD 0

/-- What stands in the field of the root is not ignored. -/
theorem height_le_openContainers {value root : Json} {contents : Fields Json}
    (hcontents : form.fields? value = some contents) (hroot : contents "root" = some (some root)) :
    1 + root.height ≤ openContainers value := by
  cases value with
  | object members =>
    obtain rfl := Option.some.inj hcontents
    have hname : form.names.contains "root" = true := by decide
    have hmem : ("root", root) ∈ members.filter fun member => form.names.contains member.1 :=
      List.mem_filter.mpr ⟨Json.mem_of_memberFields hroot, hname⟩
    exact Nat.add_le_add_left (Json.height_le_heightMembers hmem) 1
  | array items =>
    simp only [Json.RecordForm.fields?, Json.RecordForm.ofItems, Option.ite_none_right_eq_some,
      Option.some.injEq] at hcontents
    obtain ⟨-, rfl⟩ := hcontents
    exact Nat.add_le_add_left (Json.height_le_heightItems (Json.mem_of_itemFields hroot)) 1
  | _ => exact absurd hcontents.symm (Option.some_ne_none contents)

/-- The root of a document stands in its value, and is not ignored. -/
theorem exists_root {value : Json} {document : Document} (h : ofJson? value = some document) :
    ∃ root : Json, rootOf? root = some document.root ∧ 1 + root.height ≤ openContainers value := by
  simp only [ofJson?, Json.required, Option.bind_eq_bind, Option.bind_eq_some_iff, Option.pure_def,
    Option.some.injEq] at h
  obtain ⟨contents, hcontents, _, -, path, -, _, hfield, node, ⟨root, rfl, hroot⟩, rfl⟩ := h
  exact ⟨root, hroot, height_le_openContainers hcontents hfield⟩

/-- **Writing a document that was accepted takes at most one container more than its text.** -/
theorem nesting_le {text : String} {document : Document} (h : parse? text = some document) :
    document.root.SpansFit ∧ document.root.nesting ≤ opened text := by
  obtain ⟨value, hvalue, hdocument⟩ := Option.bind_eq_some_iff.mp h
  obtain ⟨root, hroot, hopen⟩ := exists_root hdocument
  obtain ⟨-, hnode⟩ := Option.ite_none_right_eq_some.mp hroot
  obtain ⟨hfits, hnesting⟩ := (Node.bounded_read root).node document.root hnode
  rw [Node.value_read] at hnesting
  refine ⟨hfits, ?_⟩
  rw [opened, hvalue, Option.map_some, Option.getD_some]
  omega

/-- A written document is read back as its record is. -/
theorem parse?_write {document : Document} (h : document.root.SpansFit) :
    parse? document.write = ofJson? document.toJson := by
  rw [parse?, write, Json.read?_compact (plain_toJson h), Option.bind_some]

end Document

/-! ## Chains of calls -/

namespace Node

/-- A chain of calls on a local variable. -/
def chain : Nat → Node
  | 0 => localVariable "x"
  | length + 1 => send (chain length) "next"

/-- The value of a chain, without places. -/
def chainJson : Nat → Json
  | 0 => .object [("type", .string "reference"), ("kind", .string "lvar"), ("name", .string "x")]
  | length + 1 =>
    .object [("type", .string "call"), ("subject", chainJson length), ("message", .string "next")]

theorem plain_chainJson (length : Nat) : Plain (chainJson length) := by
  induction length with
  | zero =>
    exact .object (List.forall_mem_cons.mpr ⟨.string _,
      List.forall_mem_cons.mpr ⟨.string _, List.forall_mem_singleton.mpr (.string _)⟩⟩)
  | succ length ih =>
    exact .object (List.forall_mem_cons.mpr ⟨.string _,
      List.forall_mem_cons.mpr ⟨ih, List.forall_mem_singleton.mpr (.string _)⟩⟩)

theorem height_chainJson (length : Nat) : (chainJson length).height = length + 1 := by
  induction length with
  | zero => rfl
  | succ length ih =>
    rw [chainJson, Json.height]
    simp only [Json.heightMembers, Json.heightMember, height_string, ih]
    omega

theorem node?_read_chainJson (length : Nat) :
    (read (chainJson length)).node? = some (chain length) := by
  induction length with
  | zero => rfl
  | succ length ih =>
    have hfields : (read (chainJson (length + 1))).node? =
        (subjectOf (some (read (chainJson length)))).map fun subject =>
          .call subject "next" [] {} := Option.map_eq_bind.symm
    have hsubject : subjectOf (some (read (chainJson length))) =
        (read (chainJson length)).node?.map some := by
      cases length <;> rfl
    rw [hfields, hsubject, ih]
    rfl

theorem nesting_chain (length : Nat) : (chain length).nesting = length + 2 := by
  induction length with
  | zero => rfl
  | succ length ih =>
    rw [chain, send, nesting, nestingSubject, ih, if_pos List.isEmpty_nil]
    omega

theorem namesType_chainJson (length : Nat) : namesType (chainJson length) = true := by
  cases length <;> rfl

end Node

namespace Document

/-- The text of a chain, without places. -/
def chainText (length : Nat) : String :=
  (Json.object [("root", Node.chainJson length)]).compact

theorem read?_chainText (length : Nat) :
    Json.read? (chainText length) = some (.object [("root", Node.chainJson length)]) :=
  Json.read?_compact (.object (List.forall_mem_singleton.mpr (Node.plain_chainJson length)))

theorem opened_chainText (length : Nat) : opened (chainText length) = length + 2 := by
  rw [opened, read?_chainText, Option.map_some, Option.getD_some]
  have hopen : openContainers (.object [("root", Node.chainJson length)]) =
      1 + max (Node.chainJson length).height 0 := rfl
  rw [hopen, Node.height_chainJson]
  omega

theorem parse?_chainText {length : Nat} (h : length ≤ 125) :
    parse? (chainText length) = some { path := none, root := Node.chain length } := by
  have hroot : rootOf? (Node.chainJson length) = some (Node.chain length) := by
    rw [rootOf?, if_pos, Node.node?_read_chainJson]
    refine ⟨(Node.plain_chainJson length).isValued, ?_, Node.namesType_chainJson length⟩
    rw [Node.height_chainJson, maxNesting]
    omega
  have hfields : ofJson? (.object [("root", Node.chainJson length)]) =
      (rootOf? (Node.chainJson length)).bind fun root => some { path := none, root } := rfl
  rw [parse?, read?_chainText, Option.bind_some, hfields, hroot, Option.bind_some]

/-! ## Accepted texts -/

/-- **A document is read back once it is written if its text leaves room for one container,** and
there are texts without that room that are not. -/
theorem parse?_write_of_parse? :
    (∀ text document, parse? text = some document → opened text ≤ 126 →
      parse? document.write = some document) ∧
    ∃ text document, parse? text = some document ∧ opened text = 127 ∧
      parse? document.write = none := by
  constructor
  · intro text document haccepted hopened
    obtain ⟨hfits, hnesting⟩ := nesting_le haccepted
    rw [parse?_write hfits, ofJson?_toJson hfits, if_pos]
    rw [maxNesting]
    omega
  · have haccepted := parse?_chainText (Nat.le_refl 125)
    obtain ⟨hfits, -⟩ := nesting_le haccepted
    refine ⟨_, _, haccepted, opened_chainText 125, ?_⟩
    rw [parse?_write hfits, ofJson?_toJson hfits, if_neg]
    rw [Node.nesting_chain, maxNesting]
    omega

/-- A text with values that are ignored, in which fields stand in another order and are left out,
one node is an array and another one gives its type by its number. -/
def looseText : String :=
  "\x7b\"of\": [[[]]], \"root\": [\"call\", \x7b\"name\": \"@post\", \"of\": [[]], " ++
    "\"kind\": \"instance_variable\", \"type\": 1\x7d, \"title\"]\x7d"

theorem parse?_write_of_parse?_looseText :
    parse? looseText = some { path := none, root := .send (.instanceVariable "@post") "title" } ∧
      opened looseText = 5 ∧
      parse? (write { path := none, root := .send (.instanceVariable "@post") "title" }) =
        some { path := none, root := .send (.instanceVariable "@post") "title" } := by
  have haccepted : parse? looseText =
      some { path := none, root := .send (.instanceVariable "@post") "title" } := by
    decide +kernel
  have hopened : opened looseText = 5 := by decide +kernel
  exact ⟨haccepted, hopened, parse?_write_of_parse?.1 _ _ haccepted (hopened ▸ by decide)⟩

end Document

end RailsReview
