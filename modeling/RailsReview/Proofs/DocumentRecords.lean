import RailsReview.Proofs.RecordFields
import RailsReview.Proofs.Reserialization

/-!
# The records of a document

A document is a record of records: places stand in nodes, nodes in nodes and in the document.  This
file has the fields of each record with what they hold and their defaults, and shows that nothing
but these fields is read: records with the same fields are read as the same.

What `same` means depends on the `Part` of the document that the values are.  Nodes are the same if
they are read as the same node, scalars if they are the same text and the same count.  Fields are
the same if they hold the same, and also if one is missing and the other holds its default.

* `Document.fields`, `Node.Shape.fields`, `Span.fields`: the records, from which their forms follow.
* `RecordField.Same.bind_eq`: a reader that respects a field cannot tell fields that are the same.
* `Part.IsRecord.same`: records with the same fields are the same, whatever form they have.
* `Document.ofJson?_eq_content?`: a document is its content, unless it is nested too deeply.
-/

namespace RailsReview

open Json (Fields RecordForm)

/-! ## Parts of a document -/

/-- What a value within a document is. -/
inductive Part where
  | document
  | node
  | nodes
  | span
  /-- The kind of a reference. -/
  | kind
  /-- A text or a count. -/
  | scalar
  deriving DecidableEq, Repr

/-- A field of a record: what it is called, what it holds, and its default if it can be missing. -/
structure RecordField where
  name : String
  part : Part
  default? : Option Json

/-- The form of a record: in an array only fields at the end can be missing. -/
def Json.RecordForm.ofFields (fields : List RecordField) : RecordForm where
  names := fields.map (·.name)
  required := (fields.reverse.dropWhile (·.default?.isSome)).length

theorem Json.RecordForm.admits_eq_true {form : RecordForm} {length : Nat} :
    form.admits length = true ↔ form.required ≤ length ∧ length ≤ form.names.length := by
  rw [admits, Bool.and_eq_true, decide_eq_true_iff, decide_eq_true_iff]

namespace Span

/-- The fields of a place. -/
def fields : List RecordField :=
  [⟨"line", .scalar, none⟩, ⟨"column", .scalar, none⟩]

theorem form_eq : form = .ofFields fields := rfl

end Span

namespace Node

/-- The field of the type of a node. -/
def typeField : RecordField :=
  ⟨"type", .scalar, none⟩

/-- The fields of a node apart from its type. -/
def Shape.fields : Shape → List RecordField
  | call => [⟨"subject", .node, some .null⟩, ⟨"message", .scalar, none⟩,
      ⟨"arguments", .nodes, some (.array [])⟩, ⟨"span", .span, some (Span.toJson {})⟩]
  | reference => [⟨"kind", .kind, none⟩, ⟨"name", .scalar, none⟩,
      ⟨"span", .span, some (Span.toJson {})⟩]
  | block => [⟨"kind", .scalar, none⟩, ⟨"children", .nodes, some (.array [])⟩,
      ⟨"span", .span, some (Span.toJson {})⟩]

theorem Shape.form_eq (shape : Shape) : shape.form = .ofFields shape.fields := by
  cases shape <;> rfl

end Node

namespace Document

/-- The fields of a document. -/
def fields : List RecordField :=
  [⟨"path", .scalar, some .null⟩, ⟨"root", .node, none⟩]

theorem form_eq : form = .ofFields fields := rfl

/-! ## The content of a document -/

/-- The root that a value is, however deeply it is nested. -/
def rootContent? (value : Json) : Option Node :=
  if value.isValued ∧ Node.namesType value then (Node.read value).node? else none

/-- The path in a field. -/
def pathOf (field : Option Json) : Option (Option Path) :=
  Json.optional (fun path => path.text?.map Path.mk) field

/-- The document with the given fields, however deeply it is nested. -/
def ofFields? (contents : Fields Json) : Option Document :=
  ((contents "path").bind pathOf).bind fun path =>
    ((contents "root").bind (Json.required rootContent?)).bind fun root => some { path, root }

/-- The document that a value is, however deeply it is nested. -/
def content? (value : Json) : Option Document :=
  (form.fields? value).bind ofFields?

/-- A document is its content if it is not nested too deeply. -/
theorem ofJson?_eq_content? {value : Json} (h : openContainers value ≤ maxNesting) :
    ofJson? value = content? value := by
  unfold ofJson? content?
  refine Option.bind_congr fun contents hcontents => ?_
  have hroot : (contents "root").bind (Json.required rootOf?) =
      (contents "root").bind (Json.required rootContent?) := by
    refine Option.bind_congr fun field hfield => ?_
    cases field with
    | none => rfl
    | some root =>
      have hheight : 1 + root.height ≤ maxNesting :=
        Nat.le_trans (height_le_openContainers hcontents hfield) h
      simp only [Json.required, Option.bind_some, rootOf?, rootContent?, hheight, true_and]
  rw [ofFields?, ← hroot]
  simp only [pathOf, Option.bind_eq_bind, Option.bind_assoc, Option.pure_def]

/-- What is accepted has this content. -/
theorem content?_of_ofJson? {value : Json} {document : Document}
    (h : ofJson? value = some document) : content? value = some document := by
  have hroot {root : Json} {node : Node} (h : rootOf? root = some node) :
      rootContent? root = some node := by
    obtain ⟨⟨hvalued, -, htype⟩, hnode⟩ := Option.ite_none_right_eq_some.mp h
    rw [rootContent?, if_pos ⟨hvalued, htype⟩, hnode]
  simp only [ofJson?, Json.required, Option.bind_eq_bind, Option.bind_eq_some_iff, Option.pure_def,
    Option.some.injEq] at h
  obtain ⟨contents, hcontents, path, hpath, path', hpathOf, _, hfield, node, ⟨root, rfl, hnode⟩,
    rfl⟩ := h
  simp only [content?, hcontents, ofFields?, hpath, Option.bind_some, pathOf, hpathOf, hfield,
    Json.required, hroot hnode]

end Document

/-! ## Records -/

namespace Part

/-- Whether a record with these contents has these fields; those of a node depend on its type. -/
inductive HasFields : Part → Fields Json → List RecordField → Prop
  | document (contents : Fields Json) : HasFields document contents Document.fields
  | node {contents : Fields Json} {shape : Node.Shape}
      (htype : (contents "type").bind (Json.required Node.Shape.ofJson?) = some shape) :
      HasFields node contents (Node.typeField :: shape.fields)
  | span (contents : Fields Json) : HasFields span contents Span.fields

/-- Whether a value is a record: the fields that it has, and what stands in them. -/
structure IsRecord (part : Part) (value : Json) (fields : List RecordField)
    (contents : Fields Json) : Prop where
  hasFields : part.HasFields contents fields
  fields?_eq : (RecordForm.ofFields fields).fields? value = some contents

namespace HasFields

variable {part : Part} {contents : Fields Json} {fields : List RecordField}

theorem nodup (h : part.HasFields contents fields) : (fields.map (·.name)).Nodup := by
  cases h with
  | document => decide
  | node => rename_i shape _; cases shape <;> decide
  | span => decide

/-- No record holds a document. -/
theorem part_ne_document (h : part.HasFields contents fields) :
    ∀ field ∈ fields, field.part ≠ .document := by
  cases h with
  | document => decide
  | node => rename_i shape _; cases shape <;> decide
  | span => decide

/-- Every default has a value. -/
theorem isValued_default (h : part.HasFields contents fields) :
    ∀ field ∈ fields, ∀ value ∈ field.default?, value.isValued = true := by
  cases h with
  | document => decide
  | node => rename_i shape _; cases shape <;> decide
  | span => decide

end HasFields

/-! ## Values that are read as the same -/

/-- Whether two values are the same as this part of a document. -/
def Same : Part → Json → Json → Prop
  | document, value, other => Document.content? value = Document.content? other
  | node, value, other => (Node.read value).node? = (Node.read other).node? ∧
      Node.namesType value = Node.namesType other ∧ (value = .null ↔ other = .null)
  | nodes, value, other => (Node.read value).nodes? = (Node.read other).nodes?
  | span, value, other => Span.ofJson? value = Span.ofJson? other
  | kind, value, other =>
    value.text?.map ReferenceKind.ofName = other.text?.map ReferenceKind.ofName
  | scalar, value, other => value.text? = other.text? ∧ value.count? = other.count? ∧
      (value = .null ↔ other = .null)

theorem Same.refl (part : Part) (value : Json) : part.Same value value := by
  cases part with
  | node => exact ⟨rfl, rfl, .rfl⟩
  | scalar => exact ⟨rfl, rfl, .rfl⟩
  | _ => rfl

end Part

/-- Whether a field is the same in two records. -/
inductive RecordField.Same (field : RecordField) :
    Option (Option Json) → Option (Option Json) → Prop
  | unreadable : Same field none none
  | missing : Same field (some none) (some none)
  | leftOut {value : Json} (hdefault : field.default? = some value) :
      Same field (some none) (some (some value))
  | present {value other : Json} (hsame : field.part.Same value other)
      (hvalued : value.isValued = other.isValued) :
      Same field (some (some value)) (some (some other))

namespace RecordField.Same

variable {field : RecordField}

theorem refl (found : Option (Option Json)) : field.Same found found :=
  match found with
  | none => unreadable
  | some none => missing
  | some (some value) => present (.refl field.part value) rfl

section

variable {α : Type} {found other : Option (Option Json)} {read : Option Json → Option α}
  (h : field.Same found other)
  (hread : ∀ value other, field.part.Same value other → value.isValued = other.isValued →
    read (some value) = read (some other))

include h hread

/-- **A reader that respects a field cannot tell fields that are the same.** -/
theorem bind_eq (hdefault : ∀ value ∈ field.default?, read none = read (some value)) :
    found.bind read = other.bind read := by
  cases h with
  | unreadable => rfl
  | missing => rfl
  | leftOut hvalue => exact hdefault _ hvalue
  | present hsame hvalued => exact hread _ _ hsame hvalued

theorem bind_eq_of_required (hdefault : field.default? = none) :
    found.bind read = other.bind read :=
  h.bind_eq hread fun value hvalue =>
    absurd (hvalue.symm.trans hdefault) (Option.some_ne_none value)

theorem bind_eq_of_default {default : Json} (hdefault : field.default? = some default)
    (hmissing : read none = read (some default)) : found.bind read = other.bind read :=
  h.bind_eq hread fun value hvalue => by
    rwa [← Option.some.inj (hdefault.symm.trans hvalue)]

end

end RecordField.Same

/-! ## The fields of a node -/

namespace Node

/-- What stands in each field, read. -/
def readings (contents : Fields Json) : Fields Reading := fun name =>
  (contents name).map (·.map read)

theorem bind_readings {α : Type} (contents : Fields Json) (name : String)
    (reader : Option Reading → Option α) :
    (readings contents name).bind reader =
      (contents name).bind fun field => reader (field.map read) :=
  Option.bind_map

/-- The kind in a field. -/
def kindOf (field : Option Reading) : Option ReferenceKind :=
  (textOf field).map ReferenceKind.ofName

theorem subjectOf_some_read {value : Json} (h : value ≠ .null) :
    subjectOf (some (read value)) = (read value).node?.map some := by
  cases value with
  | null => exact absurd rfl h
  | _ => rfl

theorem textOf_some_read (value : Json) : textOf (some (read value)) = value.text? :=
  congrArg Json.text? (value_read value)

theorem spanOf_some_read (value : Json) : spanOf (some (read value)) = Span.ofJson? value :=
  congrArg Span.ofJson? (value_read value)

section

variable {name : String} {found other : Option (Option Json)}

theorem bind_subjectOf_eq (h : RecordField.Same ⟨name, .node, some .null⟩ found other) :
    (found.bind fun field => subjectOf (field.map read)) =
      other.bind fun field => subjectOf (field.map read) := by
  refine h.bind_eq_of_default (fun value other hsame _ => ?_) rfl rfl
  obtain ⟨hnode, -, hnull⟩ := hsame
  by_cases hvalue : value = .null
  · rw [hvalue, hnull.mp hvalue]
  · rw [Option.map_some, Option.map_some, subjectOf_some_read hvalue,
      subjectOf_some_read (mt hnull.mpr hvalue), hnode]

theorem bind_textOf_eq (h : RecordField.Same ⟨name, .scalar, none⟩ found other) :
    (found.bind fun field => textOf (field.map read)) =
      other.bind fun field => textOf (field.map read) := by
  refine h.bind_eq_of_required (fun value other hsame _ => ?_) rfl
  rw [Option.map_some, Option.map_some, textOf_some_read, textOf_some_read, hsame.1]

theorem bind_kindOf_eq (h : RecordField.Same ⟨name, .kind, none⟩ found other) :
    (found.bind fun field => kindOf (field.map read)) =
      other.bind fun field => kindOf (field.map read) := by
  refine h.bind_eq_of_required (fun value other hsame _ => ?_) rfl
  rw [Option.map_some, Option.map_some, kindOf, kindOf, textOf_some_read, textOf_some_read]
  exact hsame

theorem bind_nodesOf_eq (h : RecordField.Same ⟨name, .nodes, some (.array [])⟩ found other) :
    (found.bind fun field => nodesOf (field.map read)) =
      other.bind fun field => nodesOf (field.map read) :=
  h.bind_eq_of_default (fun _ _ hsame _ => hsame) rfl rfl

theorem bind_spanOf_eq (h : RecordField.Same ⟨name, .span, some (Span.toJson {})⟩ found other) :
    (found.bind fun field => spanOf (field.map read)) =
      other.bind fun field => spanOf (field.map read) := by
  refine h.bind_eq_of_default (fun value other hsame _ => ?_) rfl rfl
  rw [Option.map_some, Option.map_some, spanOf_some_read, spanOf_some_read]
  exact hsame

/-- Types that are the same text and the same count are the same type. -/
theorem bind_shapeOf_eq (h : typeField.Same found other) :
    found.bind (Json.required Shape.ofJson?) = other.bind (Json.required Shape.ofJson?) := by
  have hshape (value : Json) : Shape.ofJson? value =
      value.text?.elim (value.count?.bind Shape.ofNumber?) Shape.ofName? := by
    cases value <;> rfl
  refine h.bind_eq_of_required (fun value other hsame _ => ?_) rfl
  obtain ⟨htext, hcount, -⟩ := hsame
  rw [Json.required, Json.required, Option.bind_some, Option.bind_some, hshape, hshape, htext,
    hcount]

end

/-- **A node is made of the fields of its type.** -/
theorem ofFields?_readings_eq {shape : Shape} {contents others : Fields Json}
    (h : ∀ field ∈ shape.fields, field.Same (contents field.name) (others field.name)) :
    ofFields? (readings contents) shape = ofFields? (readings others) shape := by
  cases shape with
  | call =>
    have hfields (contents : Fields Json) : ofFields? (readings contents) .call =
        ((readings contents "subject").bind subjectOf).bind fun subject =>
          ((readings contents "message").bind textOf).bind fun message =>
            ((readings contents "arguments").bind nodesOf).bind fun arguments =>
              ((readings contents "span").bind spanOf).map fun span =>
                .call subject message arguments span := by
      simp only [ofFields?, Option.bind_eq_bind, Option.bind_assoc, Option.pure_def,
        Option.map_eq_bind, Function.comp_def]
    simp only [Shape.fields, List.forall_mem_cons] at h
    obtain ⟨hsubject, hmessage, harguments, hspan, -⟩ := h
    simp only [hfields, bind_readings, bind_subjectOf_eq hsubject, bind_textOf_eq hmessage,
      bind_nodesOf_eq harguments, bind_spanOf_eq hspan]
  | reference =>
    have hfields (contents : Fields Json) : ofFields? (readings contents) .reference =
        ((readings contents "kind").bind kindOf).bind fun kind =>
          ((readings contents "name").bind textOf).bind fun name =>
            ((readings contents "span").bind spanOf).map fun span => .reference kind name span := by
      simp only [ofFields?, kindOf, Option.bind_eq_bind, Option.bind_assoc, Option.bind_some,
        Option.pure_def, Option.map_eq_bind, Function.comp_def]
    simp only [Shape.fields, List.forall_mem_cons] at h
    obtain ⟨hkind, hname, hspan, -⟩ := h
    simp only [hfields, bind_readings, bind_kindOf_eq hkind, bind_textOf_eq hname,
      bind_spanOf_eq hspan]
  | block =>
    have hfields (contents : Fields Json) : ofFields? (readings contents) .block =
        ((readings contents "kind").bind textOf).bind fun label =>
          ((readings contents "children").bind nodesOf).bind fun children =>
            ((readings contents "span").bind spanOf).map fun span =>
              .block label children span := by
      simp only [ofFields?, Option.bind_eq_bind, Option.bind_assoc, Option.pure_def,
        Option.map_eq_bind, Function.comp_def]
    simp only [Shape.fields, List.forall_mem_cons] at h
    obtain ⟨hlabel, hchildren, hspan, -⟩ := h
    simp only [hfields, bind_readings, bind_textOf_eq hlabel,
      bind_nodesOf_eq hchildren, bind_spanOf_eq hspan]

/-- A field of a node stands in the same place whether its type counts or not. -/
theorem itemFields_type {names : List String} {name : String} (h : name ≠ "type") (type : Json)
    (items : List Json) :
    Json.itemFields ("type" :: names) (type :: items) name = Json.itemFields names items name := by
  rw [Json.itemFields, Json.itemFields, List.idxOf_cons_ne names h.symm, List.getElem?_cons_succ]

/-- No other field of a node is called as that of its type. -/
theorem name_ne_type {shape : Shape} : ∀ field ∈ shape.fields, field.name ≠ "type" := by
  cases shape <;> decide

/-- An array that is a record of a node starts with its type. -/
theorem exists_cons_of_fields?_eq {shape : Shape} {items : List Json} {contents : Fields Json}
    (h : (RecordForm.ofFields (typeField :: shape.fields)).fields? (.array items) = some contents) :
    ∃ type rest, items = type :: rest ∧ shape.form.admits rest.length ∧
      contents = Json.itemFields ("type" :: shape.form.names) (type :: rest) := by
  have hform : RecordForm.ofFields (typeField :: shape.fields) =
      ⟨"type" :: shape.form.names, shape.form.required + 1⟩ := by
    cases shape <;> rfl
  rw [hform] at h
  obtain ⟨hadmits, hcontents⟩ := Option.ite_none_right_eq_some.mp h
  obtain ⟨hle, hge⟩ := RecordForm.admits_eq_true.mp hadmits
  cases items with
  | nil => exact absurd hle (Nat.not_succ_le_zero _)
  | cons type rest =>
    refine ⟨type, rest, rfl, ?_, (Option.some.inj hcontents).symm⟩
    exact RecordForm.admits_eq_true.mpr ⟨Nat.le_of_succ_le_succ hle, Nat.le_of_succ_le_succ hge⟩

/-- Only the fields of its type matter to a node. -/
theorem ofFields?_congr {shape : Shape} {fields others : Fields Reading}
    (h : ∀ field ∈ shape.fields, fields field.name = others field.name) :
    ofFields? fields shape = ofFields? others shape := by
  cases shape <;>
    simp only [Shape.fields, List.forall_mem_cons] at h <;>
    simp only [ofFields?, h]

section

variable {value : Json} {shape : Shape} {contents : Fields Json}
  (hcontents : (RecordForm.ofFields (typeField :: shape.fields)).fields? value = some contents)

include hcontents

/-- The node that a record is. -/
theorem node?_read_of_fields?_eq
    (htype : (contents "type").bind (Json.required Shape.ofJson?) = some shape) :
    (read value).node? = ofFields? (readings contents) shape := by
  cases value with
  | object members =>
    obtain rfl := Option.some.inj hcontents
    have hreadings : Json.memberFields (readMembers members) =
        readings (Json.memberFields members) := by
      funext name
      rw [readMembers_eq_map, Json.memberFields_map, readings]
    have htype' : ((readings (Json.memberFields members)) "type").bind
        (Json.required (Shape.ofJson? ·.value)) = some shape := by
      rw [bind_readings, ← htype]
      refine Option.bind_congr fun field _ => ?_
      cases field with
      | none => rfl
      | some type => exact congrArg Shape.ofJson? (value_read type)
    have hread : (read (.object members)).node? =
        ((Json.memberFields (readMembers members) "type").bind
          (Json.required (Shape.ofJson? ·.value))).bind
            (ofFields? (Json.memberFields (readMembers members))) := (Option.bind_assoc ..).symm
    rw [hread, hreadings, htype', Option.bind_some]
  | array items =>
    obtain ⟨type, rest, rfl, hadmits, rfl⟩ := exists_cons_of_fields?_eq hcontents
    have hshape : Shape.ofJson? type = some shape := htype
    have hread : (read (.array (type :: rest))).node? =
        (Shape.ofJson? (read type).value).bind fun shape =>
          (shape.form.ofItems (readItems rest)).bind fun fields => ofFields? fields shape := rfl
    rw [hread, value_read, hshape, Option.bind_some, RecordForm.ofItems, readItems_eq_map,
      List.length_map, if_pos hadmits, Option.bind_some]
    refine ofFields?_congr fun field hfield => ?_
    rw [readings, itemFields_type (name_ne_type field hfield), Json.itemFields, Json.itemFields,
      List.getElem?_map, Option.map_some]
  | _ => exact absurd hcontents.symm (Option.some_ne_none contents)

/-- A record names its type if its type is a text. -/
theorem namesType_eq :
    namesType value = ((contents "type").bind fun type => type.bind (·.text?)).isSome := by
  cases value with
  | object members =>
    obtain rfl := Option.some.inj hcontents
    rw [namesType]
    rcases Json.memberFields members "type" with _ | _ | _ | _ <;> rfl
  | array items =>
    obtain ⟨type, rest, rfl, -, rfl⟩ := exists_cons_of_fields?_eq hcontents
    cases type <;> rfl
  | _ => exact absurd hcontents.symm (Option.some_ne_none contents)

end

end Node

/-! ## Records with the same fields -/

namespace Span

/-- The place with the given fields. -/
def ofFields? (contents : Fields Json) : Option Span :=
  ((contents "line").bind (Json.required Json.count?)).bind fun line =>
    ((contents "column").bind (Json.required Json.count?)).bind fun column => some { line, column }

theorem ofJson?_eq (value : Json) : ofJson? value = (form.fields? value).bind ofFields? := by
  refine Option.bind_congr fun contents _ => ?_
  simp only [ofFields?, Option.bind_eq_bind, Option.bind_assoc, Option.pure_def]

theorem bind_countOf_eq {name : String} {found other : Option (Option Json)}
    (h : RecordField.Same ⟨name, .scalar, none⟩ found other) :
    found.bind (Json.required Json.count?) = other.bind (Json.required Json.count?) :=
  h.bind_eq_of_required (fun _ _ hsame _ => hsame.2.1) rfl

theorem ofFields?_eq {contents others : Fields Json}
    (h : ∀ field ∈ fields, field.Same (contents field.name) (others field.name)) :
    ofFields? contents = ofFields? others := by
  simp only [fields, List.forall_mem_cons] at h
  obtain ⟨hline, hcolumn, -⟩ := h
  rw [ofFields?, ofFields?, bind_countOf_eq hline, bind_countOf_eq hcolumn]

end Span

namespace Document

theorem bind_pathOf_eq {name : String} {found other : Option (Option Json)}
    (h : RecordField.Same ⟨name, .scalar, some .null⟩ found other) :
    found.bind pathOf = other.bind pathOf := by
  have hpath {value : Json} (h : value ≠ .null) :
      pathOf (some value) = (value.text?.map Path.mk).map some := by
    cases value with
    | null => exact absurd rfl h
    | _ => rfl
  refine h.bind_eq_of_default (fun value other hsame _ => ?_) rfl rfl
  obtain ⟨htext, -, hnull⟩ := hsame
  by_cases hvalue : value = .null
  · rw [hvalue, hnull.mp hvalue]
  · rw [hpath hvalue, hpath (mt hnull.mpr hvalue), htext]

theorem bind_rootContent?_eq {name : String} {found other : Option (Option Json)}
    (h : RecordField.Same ⟨name, .node, none⟩ found other) :
    found.bind (Json.required rootContent?) = other.bind (Json.required rootContent?) := by
  refine h.bind_eq_of_required (fun value other hsame hvalued => ?_) rfl
  obtain ⟨hnode, htype, -⟩ := hsame
  rw [Json.required, Json.required, Option.bind_some, Option.bind_some, rootContent?, rootContent?,
    hvalued, htype, hnode]

theorem ofFields?_eq {contents others : Fields Json}
    (h : ∀ field ∈ fields, field.Same (contents field.name) (others field.name)) :
    ofFields? contents = ofFields? others := by
  simp only [fields, List.forall_mem_cons] at h
  obtain ⟨hpath, hroot, -⟩ := h
  rw [ofFields?, ofFields?, bind_pathOf_eq hpath, bind_rootContent?_eq hroot]

end Document

namespace Part

/-- **Records with the same fields are the same,** as objects and as arrays. -/
theorem IsRecord.same {part : Part} {value other : Json} {fields : List RecordField}
    {contents others : Fields Json} (h : part.IsRecord value fields contents)
    (hothers : (RecordForm.ofFields fields).fields? other = some others)
    (hsame : ∀ field ∈ fields, field.Same (contents field.name) (others field.name)) :
    part.Same value other := by
  obtain ⟨hfields, hcontents⟩ := h
  cases hfields with
  | document =>
    rw [← Document.form_eq] at hcontents hothers
    rw [Same, Document.content?, Document.content?, hcontents, hothers]
    exact Document.ofFields?_eq hsame
  | node htype =>
    rename_i shape
    rw [List.forall_mem_cons] at hsame
    obtain ⟨htypes, hsame⟩ := hsame
    have htype' : (others "type").bind (Json.required Node.Shape.ofJson?) = some shape :=
      (Node.bind_shapeOf_eq htypes).symm.trans htype
    refine ⟨?_, ?_, ?_⟩
    · rw [Node.node?_read_of_fields?_eq hcontents htype,
        Node.node?_read_of_fields?_eq hothers htype', Node.ofFields?_readings_eq hsame]
    · rw [Node.namesType_eq hcontents, Node.namesType_eq hothers]
      exact congrArg Option.isSome
        (htypes.bind_eq_of_required (fun _ _ hsame _ => hsame.1) rfl)
    · have hnull {value : Json} {contents : Fields Json} (form : RecordForm)
          (h : form.fields? value = some contents) : value ≠ .null := by
        rintro rfl
        exact absurd h.symm (Option.some_ne_none contents)
      exact iff_of_false (hnull _ hcontents) (hnull _ hothers)
  | span =>
    rw [← Span.form_eq] at hcontents hothers
    rw [Same, Span.ofJson?_eq, Span.ofJson?_eq, hcontents, hothers]
    exact Span.ofFields?_eq hsame

/-- The order of members does not matter, in a record or elsewhere. -/
theorem same_of_perm (part : Part) {members others : List (String × Json)}
    (h : members.Perm others) : part.Same (.object members) (.object others) := by
  have hfields (form : RecordForm) :
      form.fields? (.object members) = form.fields? (.object others) :=
    congrArg some (Json.memberFields_of_perm h)
  cases part with
  | document => rw [Same, Document.content?, Document.content?, hfields]
  | node =>
    refine ⟨?_, ?_, by simp⟩
    · have hreadings : Json.memberFields (Node.readMembers members) =
          Json.memberFields (Node.readMembers others) := by
        rw [Node.readMembers_eq_map, Node.readMembers_eq_map, Json.memberFields_of_perm (h.map _)]
      rw [Node.read, Node.read]
      dsimp only
      rw [Node.ofMembers?, Node.ofMembers?, hreadings]
    · rw [Node.namesType, Node.namesType, Json.memberFields_of_perm h]
  | nodes => rfl
  | span => rw [Same, Span.ofJson?_eq, Span.ofJson?_eq, hfields]
  | kind => rfl
  | scalar => exact ⟨rfl, rfl, by simp⟩

end Part

end RailsReview
