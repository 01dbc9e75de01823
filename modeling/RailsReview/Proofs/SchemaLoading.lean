import RailsReview.Models.Schema
import RailsReview.Proofs.Data.List
import RailsReview.Proofs.IndexHistory

/-!
# What is loaded from a schema

Loading a schema makes its declarations one after the other, and stops at the first blank name.
The names are looked at when their turn comes, that of a model before anything is declared and that
of an association in the middle of its model.  What has been declared by then is dropped with the
error, so that in the end a schema is loaded as a whole or not at all.

* `ModelEntry.declarations`: the declarations that a model stands for.
* `Schema.declareAssociations_eq`, `Schema.declareModel_eq`: they are made, unless a name is blank.
* `Schema.declareModels_eq_ok_iff`, `Schema.declareModels_eq_error_iff`: all models are declared, or
  the first one with a blank name in it is reported.
* `Schema.Answers`, `Schema.answers_of_index_eq_ok`: what the index answers, in terms of the schema.
* `ModelEntry.IsSplitInto`: a model that is listed in parts.
* `Schema.LoadsExactly`, `Schema.loadsExactly`: what becomes of a schema.

## Why a model may be listed in parts

The answers of the index only look at the models of one name, in order, and at what they list
together.  So nothing is changed when what a model lists is spread over several models of its name
that take its place.
-/

namespace RailsReview

/-! ## Models -/

/-- A name without any other characters than blanks. -/
def IsBlank (name : String) : Prop :=
  ∀ c ∈ name.toList, Text.isBlank c = true

instance : DecidablePred IsBlank := fun name =>
  inferInstanceAs (Decidable (∀ c ∈ name.toList, Text.isBlank c = true))

namespace AssociationEntry

/-- The declaration that an association of a class stands for. -/
def declaration (className : String) (entry : AssociationEntry) : Declaration :=
  .addAssociation className entry.name entry.kind entry.target

/-- The association itself: its class is the one that is named, or else the one that its own name
names. -/
def association (entry : AssociationEntry) : Association where
  kind := entry.kind
  className := entry.className.getD (Inflection.classify entry.name)

end AssociationEntry

namespace ModelEntry

/-- There is a blank name in a model: its own, or that of an association. -/
def HasBlank (entry : ModelEntry) : Prop :=
  IsBlank entry.name ∨ ∃ association ∈ entry.associations, IsBlank association.name

instance : DecidablePred HasBlank := fun entry =>
  inferInstanceAs (Decidable
    (IsBlank entry.name ∨ ∃ association ∈ entry.associations, IsBlank association.name))

/-- What is blank in a model with a blank name in it; its own name comes first. -/
def blankThing (entry : ModelEntry) : NamedThing :=
  if IsBlank entry.name then .model else .association

/-- The declarations that a model stands for. -/
def declarations (entry : ModelEntry) : List Declaration :=
  .addModel entry.name :: (entry.attributes.map (.addAttribute entry.name) ++
    entry.associations.map (·.declaration entry.name))

/-- A model is split into parts of its name: what the parts list, one after the other, is what the
model lists. -/
structure IsSplitInto (entry : ModelEntry) (parts : List ModelEntry) : Prop where
  ne_nil : parts ≠ []
  name_eq : ∀ part ∈ parts, part.name = entry.name
  attributes_eq : parts.flatMap ModelEntry.attributes = entry.attributes
  associations_eq : parts.flatMap ModelEntry.associations = entry.associations

end ModelEntry

/-- One index answers every query as another one does. -/
structure ModelIndex.AnswersLike (index other : ModelIndex) : Prop where
  classNames_eq : index.classNames = other.classNames
  size_eq : index.size = other.size
  isEmpty_eq : index.isEmpty = other.isEmpty
  association?_eq : ∀ className name,
    index.association? className name = other.association? className name
  isAssociation_eq : ∀ className name,
    index.isAssociation className name = other.isAssociation className name
  isAttribute_eq : ∀ className name,
    index.isAttribute className name = other.isAttribute className name

/-- Three of the queries decide the others. -/
theorem ModelIndex.AnswersLike.of_queries {index other : ModelIndex}
    (hclassNames : index.classNames = other.classNames)
    (hassociation : ∀ className name,
      index.association? className name = other.association? className name)
    (hattribute : ∀ className name,
      index.isAttribute className name = other.isAttribute className name) :
    index.AnswersLike other where
  classNames_eq := hclassNames
  size_eq := by simpa [classNames, size] using congrArg List.length hclassNames
  isEmpty_eq := by simpa [classNames, isEmpty] using congrArg List.isEmpty hclassNames
  association?_eq := hassociation
  isAssociation_eq className name := by rw [isAssociation, isAssociation, hassociation]
  isAttribute_eq := hattribute

namespace Schema

/-! ## Loading -/

/-- Associations are declared one after the other, unless one of them has a blank name. -/
theorem declareAssociations_eq (position : Nat) (className : String) (index : ModelIndex)
    (entries : List AssociationEntry) :
    declareAssociations position className index entries =
      if ∃ entry ∈ entries, IsBlank entry.name then .error (.blankName position .association)
      else .ok ((entries.map (·.declaration className)).foldl Declaration.apply index) := by
  induction entries generalizing index with
  | nil => rw [declareAssociations, if_neg (by simp), List.map_nil, List.foldl_nil]
  | cons entry entries ih =>
    have hsome : (∃ other ∈ entry :: entries, IsBlank other.name) ↔
        IsBlank entry.name ∨ ∃ other ∈ entries, IsBlank other.name := by simp
    rw [declareAssociations]
    by_cases hname : IsBlank entry.name
    · rw [if_pos (Text.isBlankName_eq_true_iff.mpr hname), if_pos (hsome.mpr (.inl hname))]
    · rw [if_neg (mt Text.isBlankName_eq_true_iff.mp hname), ih]
      simp only [hsome, hname, false_or, List.map_cons, List.foldl_cons]
      rfl

/-- A model is declared unless there is a blank name in it. -/
theorem declareModel_eq (position : Nat) (index : ModelIndex) (entry : ModelEntry) :
    declareModel position index entry =
      if entry.HasBlank then .error (.blankName position entry.blankThing)
      else .ok (entry.declarations.foldl Declaration.apply index) := by
  rw [declareModel, ModelEntry.blankThing]
  by_cases hname : IsBlank entry.name
  · rw [if_pos (Text.isBlankName_eq_true_iff.mpr hname), if_pos hname, if_pos (.inl hname)]
  · have hblank : entry.HasBlank ↔ ∃ association ∈ entry.associations, IsBlank association.name :=
      or_iff_right hname
    have hattributes : ∀ known : ModelIndex,
        (entry.attributes.map (.addAttribute entry.name)).foldl Declaration.apply known =
          entry.attributes.foldl (·.addAttribute entry.name ·) known := fun known => List.foldl_map
    rw [if_neg (mt Text.isBlankName_eq_true_iff.mp hname), declareAssociations_eq, if_neg hname,
      ModelEntry.declarations, List.foldl_cons, List.foldl_append, hattributes]
    simp only [hblank]
    rfl

/-- Models are loaded if there is no blank name in any of them, and then all their declarations are
made in order. -/
theorem declareModels_eq_ok_iff {position : Nat} {index loaded : ModelIndex}
    {entries : List ModelEntry} : declareModels position index entries = .ok loaded ↔
      (∀ entry ∈ entries, ¬ entry.HasBlank) ∧
        (entries.flatMap ModelEntry.declarations).foldl Declaration.apply index = loaded := by
  induction entries generalizing position index with
  | nil => simp [declareModels]
  | cons entry entries ih =>
    rw [declareModels, declareModel_eq, List.forall_mem_cons, List.flatMap_cons,
      List.foldl_append]
    by_cases hblank : entry.HasBlank
    · rw [if_pos hblank]
      exact iff_of_false (fun h => by cases h) fun h => h.1.1 hblank
    · rw [if_neg hblank]
      dsimp only
      rw [ih, and_iff_right hblank]

/-- Otherwise the first model with a blank name in it is reported. -/
theorem declareModels_eq_error_iff {position : Nat} {index : ModelIndex}
    {entries : List ModelEntry} {error : SchemaError} :
    declareModels position index entries = .error error ↔
      ∃ before entry after, entries = before ++ entry :: after ∧
        (∀ other ∈ before, ¬ other.HasBlank) ∧ entry.HasBlank ∧
        error = .blankName (position + before.length) entry.blankThing := by
  induction entries generalizing position index with
  | nil => simp [declareModels]
  | cons first entries ih =>
    rw [declareModels, declareModel_eq]
    by_cases hblank : first.HasBlank
    · rw [if_pos hblank]
      constructor
      · rintro ⟨⟩
        exact ⟨[], first, entries, rfl, by simp, hblank, rfl⟩
      · rintro ⟨_ | ⟨other, before⟩, entry, after, hentries, hbefore, -, rfl⟩
        · cases hentries
          rfl
        · cases hentries
          exact absurd hblank (hbefore first List.mem_cons_self)
    · rw [if_neg hblank]
      dsimp only
      rw [ih]
      constructor
      · rintro ⟨before, entry, after, rfl, hbefore, hentry, rfl⟩
        refine ⟨first :: before, entry, after, rfl, List.forall_mem_cons.mpr ⟨hblank, hbefore⟩,
          hentry, ?_⟩
        rw [List.length_cons, Nat.add_right_comm, Nat.add_assoc]
      · rintro ⟨_ | ⟨other, before⟩, entry, after, hentries, hbefore, hentry, rfl⟩
        · cases hentries
          exact absurd hentry hblank
        · cases hentries
          refine ⟨before, entry, after, rfl, (List.forall_mem_cons.mp hbefore).2, hentry, ?_⟩
          rw [List.length_cons, Nat.add_right_comm, Nat.add_assoc]

/-- All declarations of a schema, in order. -/
def declarations (schema : Schema) : List Declaration :=
  schema.models.flatMap ModelEntry.declarations

/-- A schema without blank names is loaded by making its declarations. -/
theorem index_eq_ok_iff {schema : Schema} {index : ModelIndex} :
    schema.index = .ok index ↔
      (∀ entry ∈ schema.models, ¬ entry.HasBlank) ∧ ModelIndex.run schema.declarations = index :=
  declareModels_eq_ok_iff

/-! ## Answers -/

/-- The associations that are declared for a class, in order. -/
def associationsOf (schema : Schema) (className : String) : List AssociationEntry :=
  (schema.models.filter (·.name = className)).flatMap (·.associations)

/-- The classes that are mentioned are those of the models, in the order of the schema. -/
theorem mentioned_declarations (models : List ModelEntry) :
    ModelIndex.mentioned (models.flatMap ModelEntry.declarations) =
      (models.map ModelEntry.name).eraseDups := by
  induction models using List.reverseRecOn with
  | nil => rfl
  | append_singleton models entry ih =>
    have hentry : ∀ other ∈ (entry.attributes.map (Declaration.addAttribute entry.name) ++
        entry.associations.map (·.declaration entry.name)).map Declaration.className,
        other = entry.name := by
      intro other hother
      rw [List.map_append, List.map_map, List.map_map, List.mem_append, List.mem_map,
        List.mem_map] at hother
      obtain ⟨_, -, rfl⟩ | ⟨_, -, rfl⟩ := hother <;> rfl
    rw [ModelIndex.mentioned, List.flatMap_append, List.map_append, List.flatMap_singleton,
      ModelEntry.declarations, List.map_cons, Declaration.className,
      List.eraseDups_append_cons_of_forall_eq hentry, List.map_append, List.map_singleton]
    exact List.eraseDups_append_congr ih _

theorem addAttribute_mem_declarations_iff {schema : Schema} {className name : String} :
    .addAttribute className name ∈ schema.declarations ↔
      ∃ entry ∈ schema.models, entry.name = className ∧ name ∈ entry.attributes := by
  simp [declarations, ModelEntry.declarations, AssociationEntry.declaration, and_comm]

/-- What is declared for a class under a name by a model is what the model lists under that name, if
it is a model of that class. -/
theorem filterMap_association?_entry (entry : ModelEntry) (className name : String) :
    entry.declarations.filterMap (Declaration.association? className name) =
      if entry.name = className then
        (entry.associations.filter (·.name = name)).map (·.association)
      else [] := by
  have hattributes : (entry.attributes.map (Declaration.addAttribute entry.name)).filterMap
      (Declaration.association? className name) = [] := by
    rw [List.filterMap_eq_nil_iff]
    exact List.forall_mem_map.mpr fun _ _ => rfl
  rw [ModelEntry.declarations, List.filterMap_cons_none rfl, List.filterMap_append, hattributes,
    List.nil_append, List.filterMap_map]
  by_cases horigin : entry.name = className
  · have hdeclares : (Declaration.association? className name ∘ (·.declaration entry.name)) =
        fun association : AssociationEntry =>
          if association.name = name then some association.association else none := by
      funext association
      exact if_congr (and_iff_right horigin) rfl rfl
    rw [if_pos horigin, hdeclares, ← List.filterMap_eq_map, List.filterMap_filter]
    simp
  · rw [if_neg horigin]
    exact List.filterMap_eq_nil_iff.mpr fun association _ => if_neg fun h => horigin h.1

/-- The declarations of an association of a class are those of the models of the class. -/
theorem filterMap_association?_declarations (schema : Schema) (className name : String) :
    schema.declarations.filterMap (Declaration.association? className name) =
      ((schema.associationsOf className).filter (·.name = name)).map (·.association) := by
  rw [declarations, associationsOf, List.filterMap_flatMap]
  induction schema.models with
  | nil => rfl
  | cons entry entries ih =>
    rw [List.flatMap_cons, ih, filterMap_association?_entry]
    by_cases horigin : entry.name = className
    · rw [if_pos horigin, List.filter_cons_of_pos (by simpa using horigin), List.flatMap_cons,
        List.filter_append, List.map_append]
    · rw [if_neg horigin, List.filter_cons_of_neg (by simpa using horigin), List.nil_append]

/-- What an index answers that was loaded from a schema. -/
structure Answers (schema : Schema) (index : ModelIndex) : Prop where
  /-- The known classes are those of the models, in the order in which they come first. -/
  classNames_eq : index.classNames = (schema.models.map ModelEntry.name).eraseDups
  isAttribute_iff : ∀ className name, index.isAttribute className name = true ↔
    ∃ entry ∈ schema.models, entry.name = className ∧ name ∈ entry.attributes
  /-- Of the associations that models of a class list under a name, the last one counts. -/
  association?_eq : ∀ className name, index.association? className name =
    ((schema.associationsOf className).filter (·.name = name)).getLast?.map (·.association)

theorem answers_of_index_eq_ok {schema : Schema} {index : ModelIndex}
    (h : schema.index = .ok index) : schema.Answers index := by
  obtain ⟨-, rfl⟩ := index_eq_ok_iff.mp h
  constructor
  · rw [(ModelIndex.Refines.run _).classNames_eq, declarations, mentioned_declarations]
  · intro className name
    rw [ModelIndex.isAttribute_run_iff, addAttribute_mem_declarations_iff]
  · intro className name
    rw [ModelIndex.association?_run, filterMap_association?_declarations, List.getLast?_map]

/-! ## Models in parts -/

section

variable {before after parts : List ModelEntry} {entry : ModelEntry} (h : entry.IsSplitInto parts)

include h

/-- There is a blank name in a model if there is one in a part. -/
theorem hasBlank_iff_of_isSplitInto : entry.HasBlank ↔ ∃ part ∈ parts, part.HasBlank := by
  constructor
  · rintro (hname | ⟨association, hassociation, hblank⟩)
    · obtain ⟨part, hpart⟩ := List.exists_mem_of_ne_nil parts h.ne_nil
      exact ⟨part, hpart, .inl (h.name_eq part hpart ▸ hname)⟩
    · rw [← h.associations_eq, List.mem_flatMap] at hassociation
      obtain ⟨part, hpart, hassociation⟩ := hassociation
      exact ⟨part, hpart, .inr ⟨association, hassociation, hblank⟩⟩
  · rintro ⟨part, hpart, hname | ⟨association, hassociation, hblank⟩⟩
    · exact .inl (h.name_eq part hpart ▸ hname)
    · refine .inr ⟨association, ?_, hblank⟩
      rw [← h.associations_eq, List.mem_flatMap]
      exact ⟨part, hpart, hassociation⟩

/-- The classes are mentioned in the same order. -/
theorem eraseDups_names_split :
    ((before ++ parts ++ after).map ModelEntry.name).eraseDups =
      ((before ++ entry :: after).map ModelEntry.name).eraseDups := by
  obtain ⟨first, others, rfl⟩ := List.exists_cons_of_ne_nil h.ne_nil
  have hnames : ∀ name ∈ others.map ModelEntry.name, name = first.name := by
    refine List.forall_mem_map.mpr fun other hother => ?_
    rw [h.name_eq other (List.mem_cons_of_mem _ hother), h.name_eq first List.mem_cons_self]
  have hfirst := List.eraseDups_append_cons_of_forall_eq hnames (before.map ModelEntry.name)
  rw [List.map_append, List.map_append, List.map_cons, List.eraseDups_append_congr hfirst,
    h.name_eq first List.mem_cons_self, List.map_append, List.map_cons, ← List.append_cons]

/-- The associations that are listed for a class are the same, in the same order. -/
theorem associationsOf_split (className : String) :
    associationsOf { models := before ++ parts ++ after } className =
      associationsOf { models := before ++ entry :: after } className := by
  have hparts : (parts.filter (·.name = className)).flatMap (·.associations) =
      ([entry].filter (·.name = className)).flatMap (·.associations) := by
    by_cases horigin : entry.name = className
    · have hall : parts.filter (·.name = className) = parts :=
        List.filter_eq_self.mpr fun part hpart => by simp [h.name_eq part hpart, horigin]
      rw [hall, h.associations_eq, List.filter_cons_of_pos (by simpa using horigin)]
      simp
    · have hnone : parts.filter (·.name = className) = [] :=
        List.filter_eq_nil_iff.mpr fun part hpart => by simp [h.name_eq part hpart, horigin]
      rw [hnone, List.filter_cons_of_neg (by simpa using horigin)]
      rfl
  have hcons : before ++ entry :: after = before ++ [entry] ++ after := List.append_cons ..
  rw [hcons]
  simp only [associationsOf, List.filter_append, List.flatMap_append, hparts]

end

/-- What is listed by some model is listed by some model after the split. -/
theorem exists_mem_split_iff {before after parts : List ModelEntry} {entry : ModelEntry}
    {p : ModelEntry → Prop} (h : p entry ↔ ∃ part ∈ parts, p part) :
    (∃ other ∈ before ++ parts ++ after, p other) ↔
      ∃ other ∈ before ++ entry :: after, p other := by
  simp only [List.mem_append, List.mem_cons, or_and_right, exists_or, exists_eq_left, h, or_assoc]

theorem answersLike_of_isSplitInto {before after parts : List ModelEntry} {entry : ModelEntry}
    (h : entry.IsSplitInto parts) {index other : ModelIndex}
    (hother : Answers { models := before ++ parts ++ after } other)
    (hindex : Answers { models := before ++ entry :: after } index) : other.AnswersLike index := by
  refine .of_queries ?_ (fun className name => ?_) fun className name => ?_
  · rw [hother.classNames_eq, hindex.classNames_eq, eraseDups_names_split h]
  · rw [hother.association?_eq, hindex.association?_eq, associationsOf_split h]
  · have hlists : (entry.name = className ∧ name ∈ entry.attributes) ↔
        ∃ part ∈ parts, part.name = className ∧ name ∈ part.attributes := by
      rw [← h.attributes_eq, List.mem_flatMap, ← exists_and_left]
      refine exists_congr fun part => ?_
      rw [and_left_comm]
      exact and_congr_right fun hpart => by rw [h.name_eq part hpart]
    rw [Bool.eq_iff_iff, hother.isAttribute_iff, hindex.isAttribute_iff]
    exact exists_mem_split_iff hlists

/-! ## The whole schema -/

theorem exists_index_eq_error_iff {schema : Schema} :
    (∃ error, schema.index = .error error) ↔ ∃ entry ∈ schema.models, entry.HasBlank := by
  cases hindex : schema.index with
  | ok index =>
    have hclean := (index_eq_ok_iff.mp hindex).1
    exact iff_of_false (fun ⟨_, h⟩ => by cases h) fun ⟨entry, hentry, hblank⟩ =>
      hclean entry hentry hblank
  | error error =>
    obtain ⟨before, entry, after, hmodels, -, hblank, -⟩ := declareModels_eq_error_iff.mp hindex
    exact iff_of_true ⟨error, rfl⟩ ⟨entry, by simp [hmodels], hblank⟩

/-- What becomes of a schema when it is loaded. -/
structure LoadsExactly (schema : Schema) : Prop where
  /-- It is refused if there is a blank name in it. -/
  exists_error_iff : (∃ error, schema.index = .error error) ↔
    ∃ entry ∈ schema.models, IsBlank entry.name ∨
      ∃ association ∈ entry.associations, IsBlank association.name
  /-- The first model with a blank name is reported, and whether the name is its own. -/
  error_iff : ∀ error, schema.index = .error error ↔
    ∃ before entry after, schema.models = before ++ entry :: after ∧
      (∀ other ∈ before, ¬ other.HasBlank) ∧ entry.HasBlank ∧
      error = .blankName before.length (if IsBlank entry.name then .model else .association)
  /-- The index of a schema that is not refused answers with what the schema lists. -/
  answers : ∀ index, schema.index = .ok index → schema.Answers index
  /-- It makes no difference if a model is split into parts that take its place. -/
  exists_error_split_iff : ∀ before entry after parts, schema.models = before ++ entry :: after →
    entry.IsSplitInto parts →
      ((∃ error, Schema.index { models := before ++ parts ++ after } = .error error) ↔
        ∃ error, schema.index = .error error)
  answersLike_split : ∀ before entry after parts, schema.models = before ++ entry :: after →
    entry.IsSplitInto parts → ∀ index, schema.index = .ok index →
      ∃ other, Schema.index { models := before ++ parts ++ after } = .ok other ∧
        other.AnswersLike index

/-- **A schema is loaded exactly as it is written.** -/
theorem loadsExactly (schema : Schema) : schema.LoadsExactly := by
  have hsplit : ∀ before entry after parts, schema.models = before ++ entry :: after →
      entry.IsSplitInto parts →
        ((∃ error, Schema.index { models := before ++ parts ++ after } = .error error) ↔
          ∃ error, schema.index = .error error) := by
    intro before entry after parts hmodels hparts
    rw [exists_index_eq_error_iff, exists_index_eq_error_iff, hmodels]
    exact exists_mem_split_iff (hasBlank_iff_of_isSplitInto hparts)
  refine ⟨exists_index_eq_error_iff, fun error => ?_, fun index => answers_of_index_eq_ok, hsplit,
    ?_⟩
  · rw [index, declareModels_eq_error_iff]
    simp only [Nat.zero_add]
    rfl
  · intro before entry after parts hmodels hparts index hindex
    cases hother : Schema.index { models := before ++ parts ++ after } with
    | error error =>
      obtain ⟨_, herror⟩ := (hsplit before entry after parts hmodels hparts).mp ⟨error, hother⟩
      rw [hindex] at herror
      cases herror
    | ok other =>
      have hanswers := answers_of_index_eq_ok hindex
      refine ⟨other, rfl, answersLike_of_isSplitInto hparts (answers_of_index_eq_ok hother) ?_⟩
      rwa [← hmodels]

/-- The name of an association is looked at after the models before it, and before those behind. -/
example : Schema.index { models := [{ name := "User", attributes := ["name"] },
    { name := "Post", associations := [⟨"user", .belongsTo, none⟩, ⟨"\t ", .hasMany, none⟩] },
    { name := "" }] } = .error (.blankName 1 .association) := by decide

end Schema

end RailsReview
