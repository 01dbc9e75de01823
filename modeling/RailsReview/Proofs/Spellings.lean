import Mathlib.Logic.Relation
import RailsReview.Proofs.DocumentRecords

/-!
# Spellings of a document

There are many ways to spell a document.  Members can stand in any order and among others, fields
that hold their default can be written out or left out, the kind of a reference has several names,
and a record can be an array or an object.  All of this can be done at any depth, and more than once.

A `Respelled` value is one with a single such change in a single place.  Whether a member is ignored
depends on the record around it: a subject is a field of a call, and means nothing to a reference.

* `Respelled.same`: after one change the value is still the same as its part of the document.
* `Document.content?_eq_of_eqvGen`: so a document has the same content after any number of changes.
* `Document.parse?_of_spelledAlike`: texts that spell the same document are accepted alike, as long
  as they are not nested too deeply.
-/

namespace RailsReview

open Json (Fields Plain RecordForm)
open Relation (EqvGen)

/-- Values that differ by one change in one place. -/
inductive Respelled : Part → Json → Json → Prop
  /-- The members of an object are put in another order. -/
  | reordered {part : Part} {members others : List (String × Json)} (hperm : members.Perm others) :
      Respelled part (.object members) (.object others)
  /-- A member that is no field of the record is added.  It has to have a value, except right in the
  document. -/
  | ignored {part : Part} {members : List (String × Json)} {fields : List RecordField}
      {contents : Fields Json} {name : String} {value : Json}
      (hrecord : part.IsRecord (.object members) fields contents)
      (hname : ∀ field ∈ fields, name ≠ field.name)
      (hvalued : part = .document ∨ value.isValued = true) :
      Respelled part (.object members) (.object ((name, value) :: members))
  /-- A member that was left out is written out with its default. -/
  | writtenOut {part : Part} {members : List (String × Json)} {fields : List RecordField}
      {contents : Fields Json} {field : RecordField} {value : Json}
      (hrecord : part.IsRecord (.object members) fields contents) (hfield : field ∈ fields)
      (hdefault : field.default? = some value)
      (hmissing : ∀ member ∈ members, member.1 ≠ field.name) :
      Respelled part (.object members) (.object ((field.name, value) :: members))
  /-- The item after the last one is written out with its default. -/
  | extended {part : Part} {items : List Json} {fields : List RecordField} {contents : Fields Json}
      {field : RecordField} {value : Json}
      (hrecord : part.IsRecord (.array items) fields contents)
      (hfield : fields[items.length]? = some field) (hdefault : field.default? = some value) :
      Respelled part (.array items) (.array (items ++ [value]))
  /-- An array is written as an object. -/
  | named {part : Part} {items : List Json} {fields : List RecordField} {contents : Fields Json}
      (hrecord : part.IsRecord (.array items) fields contents) :
      Respelled part (.array items) (.object ((fields.map (·.name)).zip items))
  /-- The kind of a reference gets another name. -/
  | renamed {text other : String} (hkind : ReferenceKind.ofName text = .ofName other) :
      Respelled .kind (.string text) (.string other)
  /-- The change is made in a field of an object. -/
  | inMember (before after : List (String × Json)) {part : Part} {fields : List RecordField}
      {contents : Fields Json} {field : RecordField} {value other : Json}
      (hrecord : part.IsRecord (.object (before ++ (field.name, value) :: after)) fields contents)
      (hfield : field ∈ fields) (hvalue : Respelled field.part value other) :
      Respelled part (.object (before ++ (field.name, value) :: after))
        (.object (before ++ (field.name, other) :: after))
  /-- The change is made in a field of an array. -/
  | inItem (before after : List Json) {part : Part} {fields : List RecordField}
      {contents : Fields Json} {field : RecordField} {value other : Json}
      (hrecord : part.IsRecord (.array (before ++ value :: after)) fields contents)
      (hfield : fields[before.length]? = some field) (hvalue : Respelled field.part value other) :
      Respelled part (.array (before ++ value :: after)) (.array (before ++ other :: after))
  /-- The change is made in one of several nodes. -/
  | inNodes (before after : List Json) {value other : Json}
      (hvalue : Respelled .node value other) :
      Respelled .nodes (.array (before ++ value :: after)) (.array (before ++ other :: after))

/-! ## Records of one form -/

namespace Part.IsRecord

variable {part : Part} {fields : List RecordField} {contents : Fields Json}

section

variable {members : List (String × Json)} (h : part.IsRecord (.object members) fields contents)

include h

/-- Objects with the same fields are the same. -/
theorem same_object {others : List (String × Json)}
    (hsame : ∀ field ∈ fields,
      field.Same (Json.memberFields members field.name) (Json.memberFields others field.name)) :
    part.Same (.object members) (.object others) := by
  obtain rfl := Option.some.inj h.fields?_eq
  exact h.same rfl hsame

/-- A member that is no field does not matter. -/
theorem same_cons_of_ne {name : String} (hname : ∀ field ∈ fields, name ≠ field.name)
    (value : Json) : part.Same (.object members) (.object ((name, value) :: members)) := by
  refine h.same_object fun field hfield => ?_
  rw [Json.memberFields_cons_of_ne (hname field hfield)]
  exact .refl _

/-- A missing member is the same as one that holds the default. -/
theorem same_cons_of_default {field : RecordField} {value : Json} (hfield : field ∈ fields)
    (hdefault : field.default? = some value)
    (hmissing : ∀ member ∈ members, member.1 ≠ field.name) :
    part.Same (.object members) (.object ((field.name, value) :: members)) := by
  refine h.same_object fun other hother => ?_
  by_cases hname : field.name = other.name
  · obtain rfl := List.inj_on_of_nodup_map h.hasFields.nodup hfield hother hname
    rw [Json.memberFields_of_ne hmissing, Json.memberFields_cons_self hmissing]
    exact .leftOut hdefault
  · rw [Json.memberFields_cons_of_ne hname]
    exact .refl _

end

/-- A member can be exchanged for one that holds the same. -/
theorem same_exchangeMember {before after : List (String × Json)} {field : RecordField}
    {value other : Json}
    (h : part.IsRecord (.object (before ++ (field.name, value) :: after)) fields contents)
    (hfield : field ∈ fields) (hsame : field.part.Same value other)
    (hvalued : value.isValued = other.isValued) :
    part.Same (.object (before ++ (field.name, value) :: after))
      (.object (before ++ (field.name, other) :: after)) := by
  refine h.same_object fun found hfound => ?_
  rcases Json.memberFields_exchange before after field.name value other found.name with
    heq | ⟨hname, hvalueField, hotherField⟩
  · rw [heq]
    exact .refl _
  · obtain rfl := List.inj_on_of_nodup_map h.hasFields.nodup hfield hfound hname
    rw [hvalueField, hotherField]
    exact .present hsame hvalued

section

variable {items : List Json} (h : part.IsRecord (.array items) fields contents)

include h

theorem array_eq : ((RecordForm.ofFields fields).required ≤ items.length ∧
    items.length ≤ (fields.map (·.name)).length) ∧
      Json.itemFields (fields.map (·.name)) items = contents := by
  obtain ⟨hadmits, hcontents⟩ := Option.ite_none_right_eq_some.mp h.fields?_eq
  exact ⟨RecordForm.admits_eq_true.mp hadmits, Option.some.inj hcontents⟩

theorem names_getElem? {i : Nat} {field : RecordField} (hfield : fields[i]? = some field) :
    (fields.map (·.name)).Nodup ∧ (fields.map (·.name))[i]? = some field.name := by
  rw [List.getElem?_map, hfield]
  exact ⟨h.hasFields.nodup, rfl⟩

/-- Arrays with the same fields are the same. -/
theorem same_array {others : List Json} (hrequired : items.length ≤ others.length)
    (hlength : others.length ≤ (fields.map (·.name)).length)
    (hsame : ∀ (i : Nat) (field : RecordField), fields[i]? = some field →
      field.Same (some items[i]?) (some others[i]?)) :
    part.Same (.array items) (.array others) := by
  obtain ⟨⟨hle, -⟩, rfl⟩ := h.array_eq
  have hadmits : (RecordForm.ofFields fields).admits others.length = true :=
    RecordForm.admits_eq_true.mpr ⟨Nat.le_trans hle hrequired, hlength⟩
  refine h.same (if_pos hadmits) fun field hfield => ?_
  obtain ⟨i, hi⟩ := List.getElem?_of_mem hfield
  obtain ⟨hnames, hname⟩ := h.names_getElem? hi
  rw [Json.itemFields_eq hnames hname, RecordForm.ofFields, Json.itemFields_eq hnames hname]
  exact hsame i field hi

/-- An array and the object that it is short for are the same. -/
theorem same_zip : part.Same (.array items) (.object ((fields.map (·.name)).zip items)) := by
  obtain ⟨-, rfl⟩ := h.array_eq
  refine h.same rfl fun field hfield => ?_
  obtain ⟨i, hi⟩ := List.getElem?_of_mem hfield
  obtain ⟨hnames, hname⟩ := h.names_getElem? hi
  rw [Json.itemFields_eq hnames hname, Json.memberFields_zip hnames hname]
  exact .refl _

/-- A missing item is the same as one that holds the default. -/
theorem same_concat_of_default {field : RecordField} {value : Json}
    (hfield : fields[items.length]? = some field) (hdefault : field.default? = some value) :
    part.Same (.array items) (.array (items ++ [value])) := by
  obtain ⟨hlt, -⟩ := List.getElem?_eq_some_iff.mp hfield
  refine h.same_array (by simp) (by simpa using Nat.succ_le_of_lt hlt) fun i other hother => ?_
  rcases Nat.lt_trichotomy i items.length with hi | rfl | hi
  · rw [List.getElem?_append_left hi]
    exact .refl _
  · obtain rfl := Option.some.inj (hfield.symm.trans hother)
    rw [List.getElem?_concat_length, List.getElem?_eq_none (Nat.le_refl _)]
    exact .leftOut hdefault
  · rw [List.getElem?_eq_none (Nat.le_of_lt hi),
      List.getElem?_eq_none (by simpa using Nat.succ_le_of_lt hi)]
    exact .missing

end

/-- An item can be exchanged for one that holds the same. -/
theorem same_exchangeItem {before after : List Json} {field : RecordField} {value other : Json}
    (h : part.IsRecord (.array (before ++ value :: after)) fields contents)
    (hfield : fields[before.length]? = some field) (hsame : field.part.Same value other)
    (hvalued : value.isValued = other.isValued) :
    part.Same (.array (before ++ value :: after)) (.array (before ++ other :: after)) := by
  obtain ⟨⟨-, hlength⟩, -⟩ := h.array_eq
  refine h.same_array (by simp) (by simpa using hlength) fun i found hfound => ?_
  by_cases hi : i = before.length
  · subst hi
    obtain rfl := Option.some.inj (hfield.symm.trans hfound)
    rw [List.getElem?_append_right (Nat.le_refl _), List.getElem?_append_right (Nat.le_refl _),
      Nat.sub_self, List.getElem?_cons_zero, List.getElem?_cons_zero]
    exact .present hsame hvalued
  · rw [List.getElem?_append_cons_of_ne value other hi]
    exact .refl _

end Part.IsRecord

/-! ## One change -/

theorem Json.isValued_array (items : List Json) :
    (array items).isValued = items.all isValued :=
  isValuedItems_eq_all items

theorem Json.isValued_object (members : List (String × Json)) :
    (object members).isValued = members.all fun member => member.2.isValued :=
  isValuedMembers_eq_all members

/-- Items with a value can be exchanged for each other, and so can items without. -/
theorem Json.isValued_exchangeItem {value other : Json} (h : value.isValued = other.isValued)
    (before after : List Json) :
    (array (before ++ value :: after)).isValued = (array (before ++ other :: after)).isValued := by
  simp only [isValued_array, List.all_append, List.all_cons, h]

namespace Respelled

/-- A change leaves things with a value as they are, and those without. -/
theorem isValued_eq {part : Part} {value other : Json} (h : Respelled part value other)
    (hpart : part ≠ .document) : value.isValued = other.isValued := by
  induction h with
  | reordered hperm => rw [Json.isValued_object, Json.isValued_object, hperm.all_eq]
  | ignored _ _ hvalued =>
    rw [Json.isValued_object, Json.isValued_object, List.all_cons, hvalued.resolve_left hpart,
      Bool.true_and]
  | writtenOut hrecord hfield hdefault _ =>
    have hvalued := hrecord.hasFields.isValued_default _ hfield _ hdefault
    rw [Json.isValued_object, Json.isValued_object, List.all_cons, hvalued, Bool.true_and]
  | extended hrecord hfield hdefault =>
    have hvalued := hrecord.hasFields.isValued_default _ (List.mem_of_getElem? hfield) _ hdefault
    rw [Json.isValued_array, Json.isValued_array, List.all_append, List.all_cons, hvalued,
      List.all_nil, Bool.and_true, Bool.and_true]
  | named hrecord =>
    rename_i items fields _
    obtain ⟨⟨-, hlength⟩, -⟩ := hrecord.array_eq
    have hitems : ((fields.map (·.name)).zip items).map Prod.snd = items :=
      List.map_snd_zip hlength
    rw [Json.isValued_array, Json.isValued_object]
    exact (congrArg (·.all Json.isValued) hitems.symm).trans List.all_map
  | renamed _ => rfl
  | inMember _ _ hrecord hfield _ ih =>
    have hvalued := ih (hrecord.hasFields.part_ne_document _ hfield)
    rw [Json.isValued_object, Json.isValued_object, List.all_append, List.all_append,
      List.all_cons, List.all_cons, hvalued]
  | inItem before after hrecord hfield _ ih =>
    have hvalued := ih (hrecord.hasFields.part_ne_document _ (List.mem_of_getElem? hfield))
    exact Json.isValued_exchangeItem hvalued before after
  | inNodes before after _ ih => exact Json.isValued_exchangeItem (ih (by decide)) before after

/-- **After one change in one place a value is the same as before.** -/
theorem same {part : Part} {value other : Json} (h : Respelled part value other) :
    part.Same value other := by
  induction h with
  | reordered hperm => exact Part.same_of_perm _ hperm
  | ignored hrecord hname _ => exact hrecord.same_cons_of_ne hname _
  | writtenOut hrecord hfield hdefault hmissing =>
    exact hrecord.same_cons_of_default hfield hdefault hmissing
  | extended hrecord hfield hdefault => exact hrecord.same_concat_of_default hfield hdefault
  | named hrecord => exact hrecord.same_zip
  | renamed hkind => exact congrArg some hkind
  | inMember _ _ hrecord hfield hvalue ih =>
    have hvalued := hvalue.isValued_eq (hrecord.hasFields.part_ne_document _ hfield)
    exact hrecord.same_exchangeMember hfield ih hvalued
  | inItem _ _ hrecord hfield hvalue ih =>
    have hvalued := hvalue.isValued_eq
      (hrecord.hasFields.part_ne_document _ (List.mem_of_getElem? hfield))
    exact hrecord.same_exchangeItem hfield ih hvalued
  | inNodes _ _ _ ih =>
    rw [Part.Same, Node.read, Node.read]
    dsimp only
    rw [Node.readItems_eq_map, Node.readItems_eq_map, List.map_append, List.map_append,
      List.map_cons, List.map_cons, List.mapM_append, List.mapM_append, List.mapM_cons,
      List.mapM_cons, ih.1]

end Respelled

/-! ## Any number of changes -/

namespace Document

/-- Documents that spell alike have the same content. -/
theorem content?_eq_of_eqvGen {value other : Json}
    (h : EqvGen (Respelled .document) value other) : content? value = content? other := by
  induction h with
  | rel _ _ hstep => exact hstep.same
  | refl _ => rfl
  | symm _ _ _ ih => exact ih.symm
  | trans _ _ _ _ _ ih ih' => exact ih.trans ih'

/-- Texts whose values differ by any number of changes in any places, made and undone. -/
def SpelledAlike (text other : String) : Prop :=
  ∃ value value', Json.read? text = some value ∧ Json.read? other = some value' ∧
    EqvGen (Respelled .document) value value'

/-- **A document is accepted however it is spelled,** unless it is nested too deeply. -/
theorem parse?_of_spelledAlike {text other : String} {document : Document}
    (h : SpelledAlike text other) (haccepted : parse? text = some document)
    (hnesting : opened other ≤ maxNesting) : parse? other = some document := by
  obtain ⟨value, value', hvalue, hvalue', halike⟩ := h
  rw [parse?, hvalue, Option.bind_some] at haccepted
  rw [opened, hvalue', Option.map_some, Option.getD_some] at hnesting
  rw [parse?, hvalue', Option.bind_some, ofJson?_eq_content? hnesting,
    ← content?_eq_of_eqvGen halike, content?_of_ofJson? haccepted]

/-- What changes the root changes the document, which is an array here. -/
theorem eqvGen_array {value other : Json} (h : EqvGen (Respelled .node) value other) :
    EqvGen (Respelled .document) (.array [.null, value]) (.array [.null, other]) := by
  induction h with
  | rel value other hstep =>
    have hrecord : Part.document.IsRecord (.array [.null, value]) fields _ := ⟨.document _, rfl⟩
    exact .rel _ _ (.inItem [.null] [] hrecord rfl hstep)
  | refl _ => exact .refl _
  | symm _ _ _ ih => exact ih.symm
  | trans _ _ _ _ _ ih ih' => exact ih.trans _ _ _ ih'

/-- A reference as an object with a short name for its kind. -/
def shortReference : Json :=
  .object [("type", .string "reference"), ("kind", .string "ivar"), ("name", .string "@post")]

/-- The reference as an array, up to its place. -/
def referenceItems (kind : String) (place : List Json) : Json :=
  .array (.string "reference" :: .string kind :: .string "@post" :: place)

/-- The same reference as an array with a long name for its kind, and with its place. -/
def longReference : Json :=
  referenceItems "instance_variable" [.object [("column", .count 1), ("line", .count 1)]]

theorem eqvGen_longReference : EqvGen (Respelled .node) shortReference longReference := by
  have hshort : Part.node.IsRecord (referenceItems "ivar" [])
      (Node.typeField :: Node.Shape.reference.fields) _ := ⟨.node rfl, rfl⟩
  have hlong : Part.node.IsRecord (referenceItems "instance_variable" [])
      (Node.typeField :: Node.Shape.reference.fields) _ := ⟨.node rfl, rfl⟩
  have hplace : Part.node.IsRecord (referenceItems "instance_variable" [Span.toJson {}])
      (Node.typeField :: Node.Shape.reference.fields) _ := ⟨.node rfl, rfl⟩
  have hnamed : EqvGen (Respelled .node) (referenceItems "ivar" []) shortReference :=
    .rel _ _ (.named hshort)
  have hrenamed : EqvGen (Respelled .node) (referenceItems "ivar" [])
      (referenceItems "instance_variable" []) :=
    .rel _ _ (.inItem [.string "reference"] [.string "@post"] hshort rfl (.renamed (by decide)))
  have hextended : EqvGen (Respelled .node) (referenceItems "instance_variable" [])
      (referenceItems "instance_variable" [Span.toJson {}]) :=
    .rel _ _ (.extended hlong rfl rfl)
  have hreordered : EqvGen (Respelled .node)
      (referenceItems "instance_variable" [Span.toJson {}]) longReference :=
    .rel _ _ (.inItem [.string "reference", .string "instance_variable", .string "@post"] []
      hplace rfl (.reordered (.swap _ _ _)))
  exact hnamed.symm.trans _ _ _ (hrenamed.trans _ _ _ (hextended.trans _ _ _ hreordered))

/-- A document as an object without a path. -/
def shortSpelling : Json :=
  .object [("root", shortReference)]

/-- The same document as an array. -/
def longSpelling : Json :=
  .array [.null, longReference]

theorem spelledAlike_longSpelling : SpelledAlike shortSpelling.compact longSpelling.compact := by
  have hcount : Plain (.count 1) := Json.plain_count (by decide)
  have hshort : Plain shortSpelling := by
    refine .object (List.forall_mem_singleton.mpr (.object ?_))
    simp only [List.forall_mem_cons]
    exact ⟨.string _, .string _, .string _, List.forall_mem_nil _⟩
  have hlong : Plain longSpelling := by
    refine .array (List.forall_mem_cons.mpr ⟨.null, List.forall_mem_singleton.mpr (.array ?_)⟩)
    simp only [List.forall_mem_cons]
    refine ⟨.string _, .string _, .string _, .object ?_, List.forall_mem_nil _⟩
    exact List.forall_mem_cons.mpr ⟨hcount, List.forall_mem_singleton.mpr hcount⟩
  refine ⟨_, _, Json.read?_compact hshort, Json.read?_compact hlong, ?_⟩
  have hobject : Part.document.IsRecord shortSpelling fields _ := ⟨.document _, rfl⟩
  have hwritten : EqvGen (Respelled .document) shortSpelling
      (.object [("path", .null), ("root", shortReference)]) :=
    .rel _ _ (.writtenOut hobject List.mem_cons_self rfl (by decide))
  have harray : Part.document.IsRecord (.array [.null, shortReference]) fields _ :=
    ⟨.document _, rfl⟩
  have hnamed : EqvGen (Respelled .document) (.array [.null, shortReference])
      (.object [("path", .null), ("root", shortReference)]) :=
    .rel _ _ (.named harray)
  exact hwritten.trans _ _ _ (hnamed.symm.trans _ _ _ (eqvGen_array eqvGen_longReference))

theorem parse?_of_spelledAlike_longSpelling :
    SpelledAlike shortSpelling.compact longSpelling.compact ∧
      parse? shortSpelling.compact = some { path := none, root := .instanceVariable "@post" } ∧
      opened longSpelling.compact = 3 ∧
      parse? longSpelling.compact = some { path := none, root := .instanceVariable "@post" } := by
  have haccepted : parse? shortSpelling.compact =
      some { path := none, root := .instanceVariable "@post" } := by
    decide +kernel
  have hopened : opened longSpelling.compact = 3 := by decide +kernel
  exact ⟨spelledAlike_longSpelling, haccepted, hopened,
    parse?_of_spelledAlike spelledAlike_longSpelling haccepted (hopened ▸ by decide)⟩

end Document

end RailsReview
