import Mathlib.Data.List.Induction
import RailsReview.Models.Index
import RailsReview.Proofs.Data.List

/-!
# What an index knows of its history

An index is made from the empty one by declarations: of a class, of an attribute of a class, of an
association of a class.  The history of an index is the list of these declarations, the earliest
first, and it decides what the index is.

* `mentioned`: the classes of a history, in order of first mention.
* `portrait`: what a history says about one class.
* `Refines`: the models are the portraits of the mentioned classes, and the directory gives each
  class its place among them.
* `Refines.addModel`, `Refines.apply`: one more declaration keeps that.
* `Refines.foldl_apply`, `Refines.run`: so do any number of them.
* `Recounts`: what the queries answer, in terms of the history.
* `recounts_run`: so they answer after any history.

## Why the invariant speaks of whole models

Each declaration registers its class if need be and then changes the model at the slot of the class.
If the invariant only spoke of the answers to queries, it could not be kept: that a change at a slot
leaves the other classes alone rests on every class having one slot and every slot one class.  With
the list of models given outright, the change at a slot is the change of one portrait.
-/

namespace RailsReview

/-! ## Declarations -/

/-- A declaration that is made to an index. -/
inductive Declaration where
  | addModel (className : String)
  | addAttribute (className name : String)
  | addAssociation (className name : String) (kind : AssociationKind) (target : String)
  deriving DecidableEq, Repr

namespace Declaration

/-- The class that the declaration is about. -/
def className : Declaration → String
  | addModel className => className
  | addAttribute className _ => className
  | addAssociation className _ _ _ => className

/-- The attribute that is declared for a class. -/
def attribute? (origin : String) : Declaration → Option String
  | addAttribute className name => if className = origin then some name else none
  | _ => none

/-- The association that is declared for a class, by its name. -/
def entry? (origin : String) : Declaration → Option (String × Association)
  | addAssociation className name kind target =>
    if className = origin then some (name, ⟨kind, target⟩) else none
  | _ => none

/-- The association that is declared for a class under a name. -/
def association? (origin name : String) : Declaration → Option Association
  | addAssociation className associationName kind target =>
    if className = origin ∧ associationName = name then some ⟨kind, target⟩ else none
  | _ => none

theorem attribute?_of_ne {declaration : Declaration} {origin : String}
    (h : declaration.className ≠ origin) : declaration.attribute? origin = none := by
  cases declaration with
  | addAttribute className name => exact if_neg h
  | _ => rfl

theorem entry?_of_ne {declaration : Declaration} {origin : String}
    (h : declaration.className ≠ origin) : declaration.entry? origin = none := by
  cases declaration with
  | addAssociation className name kind target => exact if_neg h
  | _ => rfl

/-- What the declaration does to the model of its class. -/
def change : Declaration → Model → Model
  | addModel _ => id
  | addAttribute _ name => (·.declareAttribute name)
  | addAssociation _ name kind target => (·.declareAssociation name ⟨kind, target⟩)

/-- The index with the declaration made. -/
def apply (index : ModelIndex) : Declaration → ModelIndex
  | addModel className => (index.addModel className).2
  | addAttribute className name => index.addAttribute className name
  | addAssociation className name kind target => index.addAssociation className name kind target

/-- Every declaration registers its class and then changes the model of it. -/
theorem apply_eq_update (index : ModelIndex) (declaration : Declaration) :
    declaration.apply index = index.update declaration.className declaration.change := by
  cases declaration with
  | addModel className =>
    change (index.addModel className).2 = { (index.addModel className).2 with
      models := (index.addModel className).2.models.modify (index.addModel className).1 id }
    rw [List.modify_id]
  | addAttribute className name => rfl
  | addAssociation className name kind target => rfl

end Declaration

namespace ModelIndex

/-- The index after a history of declarations. -/
def run (history : List Declaration) : ModelIndex :=
  history.foldl Declaration.apply empty

/-! ## The mentioned classes -/

/-- The classes that a history mentions, in order of first mention. -/
def mentioned (history : List Declaration) : List String :=
  (history.map Declaration.className).eraseDups

theorem mem_mentioned_iff {history : List Declaration} {className : String} :
    className ∈ mentioned history ↔ ∃ declaration ∈ history, declaration.className = className := by
  rw [mentioned, List.mem_eraseDups, List.mem_map]

/-- A class that was mentioned before is not mentioned again. -/
theorem mentioned_append_of_mem {history : List Declaration} {declaration : Declaration}
    (h : declaration.className ∈ mentioned history) :
    mentioned (history ++ [declaration]) = mentioned history := by
  rw [mentioned, List.mem_eraseDups] at h
  rw [mentioned, mentioned, List.map_append, List.eraseDups_append]
  simp [List.removeAll, -List.mem_map, h]

/-- A class that was not is mentioned last. -/
theorem mentioned_append_of_not_mem {history : List Declaration} {declaration : Declaration}
    (h : declaration.className ∉ mentioned history) :
    mentioned (history ++ [declaration]) = mentioned history ++ [declaration.className] := by
  rw [mentioned, List.mem_eraseDups] at h
  rw [mentioned, mentioned, List.map_append, List.eraseDups_append]
  simp [List.removeAll, List.eraseDups_cons, -List.mem_map, h]

/-- Later declarations only mention classes after those that were mentioned before. -/
theorem mentioned_prefix_append (history later : List Declaration) :
    mentioned history <+: mentioned (history ++ later) := by
  rw [mentioned, mentioned, List.map_append, List.eraseDups_append]
  exact List.prefix_append _ _

theorem nodup_mentioned (history : List Declaration) : (mentioned history).Nodup := by
  induction history using List.reverseRecOn with
  | nil => exact List.nodup_nil
  | append_singleton history declaration ih =>
    by_cases h : declaration.className ∈ mentioned history
    · rw [mentioned_append_of_mem h]
      exact ih
    · rw [mentioned_append_of_not_mem h]
      refine List.nodup_append.mpr ⟨ih, List.pairwise_singleton _ _, ?_⟩
      rintro className hmem _ hlast rfl
      exact h (List.mem_singleton.mp hlast ▸ hmem)

/-! ## Portraits -/

/-- What a history says about a class. -/
def portrait (history : List Declaration) (className : String) : Model where
  name := className
  associations := history.reverse.filterMap (Declaration.entry? className)
  attributes := history.reverse.filterMap (Declaration.attribute? className)

/-- One more declaration changes the portrait of its class. -/
theorem portrait_append (history : List Declaration) (declaration : Declaration)
    (className : String) :
    portrait (history ++ [declaration]) className =
      if declaration.className = className then declaration.change (portrait history className)
      else portrait history className := by
  have hreverse : (history ++ [declaration]).reverse = declaration :: history.reverse := by
    rw [List.reverse_append, List.reverse_singleton, List.singleton_append]
  rw [portrait, hreverse, List.filterMap_cons, List.filterMap_cons]
  by_cases h : declaration.className = className
  · rw [if_pos h]
    subst h
    cases declaration with
    | addModel origin => rfl
    | addAttribute origin name =>
      have hname : Declaration.attribute? origin (.addAttribute origin name) = some name :=
        if_pos rfl
      rw [Declaration.className, hname]
      rfl
    | addAssociation origin name kind target =>
      have hentry : Declaration.entry? origin (.addAssociation origin name kind target) =
          some (name, ⟨kind, target⟩) := if_pos rfl
      rw [Declaration.className, hentry]
      rfl
  · rw [if_neg h, Declaration.entry?_of_ne h, Declaration.attribute?_of_ne h]
    rfl

/-- Registering a class adds nothing to any portrait. -/
theorem portrait_append_addModel (history : List Declaration) (origin className : String) :
    portrait (history ++ [.addModel origin]) className = portrait history className := by
  rw [portrait_append]
  split <;> rfl

/-- Of a class that is not mentioned, only the name is known. -/
theorem portrait_of_not_mem {history : List Declaration} {className : String}
    (h : className ∉ mentioned history) : portrait history className = { name := className } := by
  induction history using List.reverseRecOn with
  | nil => rfl
  | append_singleton history declaration ih =>
    have hother : declaration.className ≠ className := fun heq =>
      h (mem_mentioned_iff.mpr ⟨declaration, by simp, heq⟩)
    have hbefore : className ∉ mentioned history := fun hmem =>
      h ((mentioned_prefix_append history [declaration]).subset hmem)
    rw [portrait_append, if_neg hother, ih hbefore]

/-! ## The invariant -/

/-- An index is what a history says: its models are the portraits of the mentioned classes, and its
directory gives each class its place among them. -/
structure Refines (index : ModelIndex) (history : List Declaration) : Prop where
  models_eq : index.models = (mentioned history).map (portrait history)
  slot?_eq_some_iff : ∀ (className : String) (slot : Nat),
    index.slot? className = some slot ↔ (mentioned history)[slot]? = some className

/-- The slot that registering a class gives is the one that is looked up afterwards. -/
theorem slot?_addModel (index : ModelIndex) (className : String) :
    (index.addModel className).2.slot? className = some (index.addModel className).1 := by
  unfold addModel
  cases h : index.slot? className with
  | some slot => exact h
  | none => exact List.lookup_cons_self

namespace Refines

variable {index : ModelIndex} {history : List Declaration}

theorem length_models (h : Refines index history) :
    index.models.length = (mentioned history).length := by
  rw [h.models_eq, List.length_map]

theorem slot?_eq_none_iff (h : Refines index history) (className : String) :
    index.slot? className = none ↔ className ∉ mentioned history := by
  constructor
  · intro hnone hmem
    obtain ⟨slot, hslot⟩ := List.getElem?_of_mem hmem
    rw [(h.slot?_eq_some_iff className slot).mpr hslot] at hnone
    exact absurd hnone (Option.some_ne_none slot)
  · intro hmem
    cases hslot : index.slot? className with
    | none => rfl
    | some slot =>
      exact absurd (List.mem_of_getElem? ((h.slot?_eq_some_iff className slot).mp hslot)) hmem

theorem empty : Refines ModelIndex.empty [] where
  models_eq := rfl
  slot?_eq_some_iff className slot := by
    rw [slot?, ModelIndex.empty, List.lookup_nil]
    exact ⟨fun h => absurd h.symm (Option.some_ne_none slot), fun h => by simp [mentioned] at h⟩

/-- Registering a class keeps the invariant. -/
theorem addModel (h : Refines index history) (className : String) :
    Refines (index.addModel className).2 (history ++ [.addModel className]) := by
  unfold ModelIndex.addModel
  cases hslot : index.slot? className with
  | some slot =>
    have hmem := List.mem_of_getElem? ((h.slot?_eq_some_iff className slot).mp hslot)
    have hmentioned : mentioned (history ++ [.addModel className]) = mentioned history :=
      mentioned_append_of_mem hmem
    constructor
    · rw [hmentioned, funext (portrait_append_addModel history className)]
      exact h.models_eq
    · rw [hmentioned]
      exact h.slot?_eq_some_iff
  | none =>
    have hnew := (h.slot?_eq_none_iff className).mp hslot
    have hmentioned : mentioned (history ++ [.addModel className]) =
        mentioned history ++ [className] := mentioned_append_of_not_mem hnew
    constructor
    · rw [hmentioned, funext (portrait_append_addModel history className), List.map_append,
        List.map_singleton, portrait_of_not_mem hnew, ← h.models_eq]
    · intro other slot
      change List.lookup other ((className, index.models.length) :: index.slots) = some slot ↔ _
      rw [hmentioned, List.getElem?_concat_eq_some_iff, ← h.slot?_eq_some_iff,
        ← h.length_models, List.lookup_cons]
      by_cases heq : other = className
      · subst heq
        rw [hslot]
        simp [eq_comm]
      · have hbeq : (other == className) = false := beq_false_of_ne heq
        rw [hbeq]
        simp [slot?, Ne.symm heq]

/-- So does every declaration. -/
theorem apply (h : Refines index history) (declaration : Declaration) :
    Refines (declaration.apply index) (history ++ [declaration]) := by
  have hmentioned : mentioned (history ++ [.addModel declaration.className]) =
      mentioned (history ++ [declaration]) := by
    rw [mentioned, mentioned, List.map_append, List.map_append]
    rfl
  have hknown := h.addModel declaration.className
  have hslot := (hknown.slot?_eq_some_iff _ _).mp (slot?_addModel index declaration.className)
  rw [hmentioned] at hslot
  rw [declaration.apply_eq_update]
  constructor
  · change (index.addModel declaration.className).2.models.modify
      (index.addModel declaration.className).1 declaration.change = _
    rw [hknown.models_eq, hmentioned, List.modify_map_of_nodup (nodup_mentioned _) hslot]
    refine List.map_congr_left fun className _ => ?_
    rw [portrait_append_addModel, portrait_append]
  · rw [← hmentioned]
    exact hknown.slot?_eq_some_iff

/-- And so do any number of them, one after the other. -/
theorem foldl_apply (h : Refines index history) (later : List Declaration) :
    Refines (later.foldl Declaration.apply index) (history ++ later) := by
  induction later generalizing index history with
  | nil =>
    rw [List.append_nil]
    exact h
  | cons declaration later ih =>
    rw [List.append_cons]
    exact ih (h.apply declaration)

theorem run (history : List Declaration) : Refines (ModelIndex.run history) history :=
  empty.foldl_apply history

end Refines

/-! ## Queries -/

namespace Refines

variable {index : ModelIndex} {history : List Declaration}

theorem classNames_eq (h : Refines index history) : index.classNames = mentioned history := by
  rw [classNames, h.models_eq, List.map_map]
  exact List.map_id (mentioned history)

/-- What is known about a class is its portrait, if it is mentioned. -/
theorem model?_eq (h : Refines index history) (className : String) :
    index.model? className =
      if className ∈ mentioned history then some (portrait history className) else none := by
  unfold model?
  by_cases hmem : className ∈ mentioned history
  · obtain ⟨slot, hslot⟩ := List.getElem?_of_mem hmem
    rw [if_pos hmem, (h.slot?_eq_some_iff className slot).mpr hslot, Option.bind_some,
      h.models_eq, List.getElem?_map, hslot, Option.map_some]
  · rw [if_neg hmem, (h.slot?_eq_none_iff className).mpr hmem, Option.bind_none]

/-- A query for an association is a query of the portrait; that of a class that is not mentioned
has none. -/
theorem association?_eq (h : Refines index history) (className name : String) :
    index.association? className name = (portrait history className).association? name := by
  rw [association?, h.model?_eq]
  by_cases hmem : className ∈ mentioned history
  · rw [if_pos hmem, Option.bind_some]
  · rw [if_neg hmem, portrait_of_not_mem hmem]
    rfl

theorem isAttribute_eq (h : Refines index history) (className name : String) :
    index.isAttribute className name = (portrait history className).attributes.contains name := by
  rw [isAttribute, h.model?_eq]
  by_cases hmem : className ∈ mentioned history
  · rw [if_pos hmem]
  · rw [if_neg hmem, portrait_of_not_mem hmem]
    rfl

end Refines

/-- The association that stands first in a portrait is the one that was declared last. -/
theorem association?_portrait (history : List Declaration) (className name : String) :
    (portrait history className).association? name =
      (history.filterMap (Declaration.association? className name)).getLast? := by
  induction history using List.reverseRecOn with
  | nil => rfl
  | append_singleton history declaration ih =>
    have hentries : (portrait (history ++ [declaration]) className).associations =
        [declaration].filterMap (Declaration.entry? className) ++
          (portrait history className).associations := by
      rw [portrait, portrait, List.reverse_append, List.filterMap_append, List.reverse_singleton]
    rw [Model.association?, hentries, List.lookup_append, ← Model.association?, ih,
      List.filterMap_append, List.getLast?_append]
    congr 1
    cases declaration with
    | addModel origin => rfl
    | addAttribute origin other => rfl
    | addAssociation origin other kind target =>
      by_cases horigin : origin = className
      · by_cases hname : other = name
        · simp [Declaration.entry?, Declaration.association?, horigin, hname]
        · have hbeq : (name == other) = false := beq_false_of_ne (Ne.symm hname)
          simp [Declaration.entry?, Declaration.association?, horigin, hname, List.lookup_cons, hbeq]
      · simp [Declaration.entry?, Declaration.association?, horigin]

theorem mem_attributes_portrait_iff {history : List Declaration} {className name : String} :
    name ∈ (portrait history className).attributes ↔
      Declaration.addAttribute className name ∈ history := by
  rw [portrait, List.mem_filterMap]
  constructor
  · rintro ⟨declaration, hdeclaration, hname⟩
    cases declaration with
    | addModel origin => exact absurd hname.symm (Option.some_ne_none name)
    | addAttribute origin other =>
      obtain ⟨rfl, rfl⟩ : origin = className ∧ other = name := by
        simpa [Declaration.attribute?] using hname
      exact List.mem_reverse.mp hdeclaration
    | addAssociation origin other kind target =>
      exact absurd hname.symm (Option.some_ne_none name)
  · intro hmem
    exact ⟨_, List.mem_reverse.mpr hmem, if_pos rfl⟩

/-- An index answers with the association that was declared last. -/
theorem association?_run (history : List Declaration) (className name : String) :
    (run history).association? className name =
      (history.filterMap (Declaration.association? className name)).getLast? := by
  rw [(Refines.run history).association?_eq, association?_portrait]

theorem isAttribute_run_iff {history : List Declaration} {className name : String} :
    (run history).isAttribute className name = true ↔ .addAttribute className name ∈ history := by
  rw [(Refines.run history).isAttribute_eq, List.contains_iff_mem, mem_attributes_portrait_iff]

/-! ## The history in the answers -/

/-- What an index answers after a history of declarations. -/
structure Recounts (index : ModelIndex) (history : List Declaration) : Prop where
  /-- Each class is listed once, in order of first mention. -/
  classNames_eq : index.classNames = (history.map Declaration.className).eraseDups
  classNames_nodup : index.classNames.Nodup
  size_eq : index.size = index.classNames.length
  /-- Each class keeps its place in the list, whatever is declared later. -/
  classNames_later : ∀ (later : List Declaration) (className : String) (slot : Nat),
    index.classNames[slot]? = some className →
      (later.foldl Declaration.apply index).classNames[slot]? = some className
  /-- Registering a class gives its place in the list. -/
  classNames_addModel : ∀ className,
    (index.addModel className).2.classNames[(index.addModel className).1]? = some className
  /-- The last declaration of an association counts. -/
  association?_eq : ∀ className name, index.association? className name =
    (history.filterMap (Declaration.association? className name)).getLast?
  isAttribute_iff : ∀ className name,
    index.isAttribute className name = true ↔ .addAttribute className name ∈ history
  /-- The directory leads to the models of the classes that it is about, and misses none. -/
  slot?_iff : ∀ (className : String) (slot : Nat),
    index.slot? className = some slot ↔ ∃ model, index.models[slot]? = some model ∧
      model.name = className

/-- **An index recounts its history.** -/
theorem recounts_run (history : List Declaration) : Recounts (run history) history := by
  have h := Refines.run history
  constructor
  · exact h.classNames_eq
  · rw [h.classNames_eq]
    exact nodup_mentioned history
  · rw [size, classNames, List.length_map]
  · intro later className slot hslot
    rw [h.classNames_eq] at hslot
    obtain ⟨others, hothers⟩ := mentioned_prefix_append history later
    rw [(h.foldl_apply later).classNames_eq, ← hothers]
    have hlt : slot < (mentioned history).length := (List.getElem?_eq_some_iff.mp hslot).1
    rw [List.getElem?_append_left hlt]
    exact hslot
  · intro className
    have hknown := h.addModel className
    rw [hknown.classNames_eq, ← hknown.slot?_eq_some_iff]
    exact slot?_addModel (run history) className
  · intro className name
    rw [h.association?_eq, association?_portrait]
  · intro className name
    rw [h.isAttribute_eq, List.contains_iff_mem, mem_attributes_portrait_iff]
  · intro className slot
    rw [h.slot?_eq_some_iff, ← h.classNames_eq, classNames, List.getElem?_map,
      Option.map_eq_some_iff]

end ModelIndex

end RailsReview
