import RailsReview.Json.Record
import RailsReview.Proofs.Data.List

/-!
# What stands in a field

The same record can be written in many ways, and to read a field is to forget most of them.  Here it
is said what becomes of the fields of an object when its members are put in another order, when a
member is added or its value is exchanged, and how the fields of an array are those of an object.

All that counts for a field of an object is the list of members with its name, so each statement is
one about that list (`memberFields_eq`).

* `memberFields_of_perm`: members in another order.
* `memberFields_cons_of_ne`, `memberFields_cons_self`: one member more.
* `memberFields_exchange`: another value for a member.
* `itemFields_eq`, `memberFields_zip`: the items of an array stand in the order of the names, and so
  do the members of the object that it is short for.
-/

namespace RailsReview.Json

variable {α β : Type}

/-! ## Members -/

/-- What stands in a field of an object, given the members with its name. -/
def onlyValue : List (String × α) → Option (Option α)
  | [] => some none
  | [(_, value)] => some (some value)
  | _ => none

theorem memberFields_eq (members : List (String × α)) (name : String) :
    memberFields members name = onlyValue (members.filter (·.1 == name)) := by
  unfold memberFields onlyValue
  rfl

theorem onlyValue_of_perm {found others : List (String × α)} (h : found.Perm others) :
    onlyValue found = onlyValue others := by
  match found, others, h.length_eq with
  | [], [], _ => rfl
  | [member], [other], _ =>
    obtain rfl := List.cons.inj (List.perm_singleton.mp h) |>.1
    rfl
  | _ :: _ :: _, _ :: _ :: _, _ => rfl

/-- The order of members does not matter. -/
theorem memberFields_of_perm {members others : List (String × α)} (h : members.Perm others) :
    memberFields members = memberFields others := by
  funext name
  rw [memberFields_eq, memberFields_eq, onlyValue_of_perm (h.filter _)]

/-- A member does not matter to fields with other names. -/
theorem memberFields_cons_of_ne {name other : String} (h : name ≠ other) (value : α)
    (members : List (String × α)) :
    memberFields ((name, value) :: members) other = memberFields members other := by
  rw [memberFields_eq, memberFields_eq, List.filter_cons_of_neg (by simpa using h)]

section

variable {members : List (String × α)} {name : String}
  (h : ∀ member ∈ members, member.1 ≠ name)

include h

/-- A field is missing if no member has its name. -/
theorem memberFields_of_ne : memberFields members name = some none := by
  rw [memberFields_eq, List.filter_fst_eq_nil h]
  rfl

/-- A member that is the first with its name holds what stands in the field. -/
theorem memberFields_cons_self (value : α) :
    memberFields ((name, value) :: members) name = some (some value) := by
  rw [memberFields_eq, List.filter_cons_of_pos (by simp), List.filter_fst_eq_nil h]
  rfl

end

/-- Another value for a member matters only to the field with its name, and only if no other member
has that name. -/
theorem memberFields_exchange (before after : List (String × α)) (name : String)
    (value other : α) (field : String) :
    memberFields (before ++ (name, value) :: after) field =
        memberFields (before ++ (name, other) :: after) field ∨
      name = field ∧
        memberFields (before ++ (name, value) :: after) field = some (some value) ∧
        memberFields (before ++ (name, other) :: after) field = some (some other) := by
  by_cases hname : name = field
  · have hfilter (value : α) : (before ++ (name, value) :: after).filter (·.1 == field) =
        before.filter (·.1 == field) ++ (name, value) :: after.filter (·.1 == field) := by
      rw [List.filter_append, List.filter_cons_of_pos (by simpa using hname)]
    rw [memberFields_eq, memberFields_eq, hfilter, hfilter]
    generalize before.filter (·.1 == field) = found
    generalize after.filter (·.1 == field) = others
    match found, others with
    | [], [] => exact .inr ⟨hname, rfl, rfl⟩
    | [], _ :: _ => exact .inl rfl
    | [_], _ => exact .inl rfl
    | _ :: _ :: _, _ => exact .inl rfl
  · have hfilter (value : α) : (before ++ (name, value) :: after).filter (·.1 == field) =
        before.filter (·.1 == field) ++ after.filter (·.1 == field) := by
      rw [List.filter_append, List.filter_cons_of_neg (by simpa using hname)]
    rw [memberFields_eq, memberFields_eq, hfilter, hfilter]
    exact .inl rfl

/-- Members whose values are read have in their fields what is read there. -/
theorem memberFields_map (read : α → β) (members : List (String × α)) (name : String) :
    memberFields (members.map fun member => (member.1, read member.2)) name =
      (memberFields members name).map (·.map read) := by
  rw [memberFields_eq, memberFields_eq, List.filter_map]
  have hfilter : members.filter ((·.1 == name) ∘ fun member => (member.1, read member.2)) =
      members.filter (·.1 == name) := rfl
  rw [hfilter]
  generalize members.filter (·.1 == name) = found
  match found with
  | [] => rfl
  | [_] => rfl
  | _ :: _ :: _ => rfl

/-! ## Items -/

/-- The items of an array stand in the order of the names. -/
theorem itemFields_eq {names : List String} (hnames : names.Nodup) {i : Nat} {name : String}
    (h : names[i]? = some name) (items : List α) :
    itemFields names items name = some items[i]? := by
  obtain ⟨hi, rfl⟩ := List.getElem?_eq_some_iff.mp h
  rw [itemFields, hnames.idxOf_getElem]

/-- The members that an array is short for. -/
theorem memberFields_zip {names : List String} (hnames : names.Nodup) {i : Nat} {name : String}
    (h : names[i]? = some name) (items : List α) :
    memberFields (names.zip items) name = some items[i]? := by
  induction names generalizing items i with
  | nil => exact absurd h (by simp)
  | cons first names ih =>
    rw [List.nodup_cons] at hnames
    cases items with
    | nil => rw [List.zip_nil_right, List.getElem?_nil, memberFields_of_ne (by simp)]
    | cons item items =>
      rw [List.zip_cons_cons]
      cases i with
      | zero =>
        obtain rfl := Option.some.inj h
        have hothers : ∀ member ∈ names.zip items, member.1 ≠ first := by
          rintro ⟨other, value⟩ hmember rfl
          exact hnames.1 (List.of_mem_zip hmember).1
        rw [memberFields_cons_self hothers, List.getElem?_cons_zero]
      | succ i =>
        rw [List.getElem?_cons_succ] at h ⊢
        have hne : first ≠ name := by
          rintro rfl
          exact hnames.1 (List.mem_of_getElem? h)
        rw [memberFields_cons_of_ne hne, ih hnames.2 h]

end RailsReview.Json
