import Mathlib.Data.List.DropRight
import Mathlib.Data.List.Nodup

/-!
# Lists

Facts about lists of anything.

* Lists that are put together: `List.intercalate_append_of_ne_nil`,
  `List.intercalate_singleton_cons`.
* Lists that are taken apart: `List.subset_and_not_mem_of_mem_splitOn`,
  `List.splitOn_append_flatMap_cons`, `List.rdropWhile_append_cons`,
  `List.exists_eq_append_cons_last`.
* Entries in a place: `List.getElem?_concat_eq_some_iff`, `List.getElem?_append_cons_of_ne`,
  `List.modify_map_of_nodup`.
* What is kept of a list: `List.eraseDups_append_congr`, `List.eraseDups_append_cons_of_forall_eq`,
  `List.flatMap_filter_of_length_le_one`.
-/

namespace List

universe u v

variable {α : Type u} {β : Type v}

/-! ## Lists that are put together -/

theorem intercalate_append_of_ne_nil {separator : List α} {parts others : List (List α)}
    (hparts : parts ≠ []) (hothers : others ≠ []) :
    separator.intercalate (parts ++ others) =
      separator.intercalate parts ++ separator ++ separator.intercalate others := by
  induction parts with
  | nil => exact absurd rfl hparts
  | cons part parts ih =>
    cases parts with
    | nil => rw [singleton_append, intercalate_cons_of_ne_nil hothers, intercalate_singleton]
    | cons next parts =>
      rw [cons_append, cons_append, intercalate_cons_cons, ← cons_append,
        ih (cons_ne_nil next parts), intercalate_cons_cons]
      simp only [append_assoc]

/-- Lists with one entry between them are the first one and then each behind that entry. -/
theorem intercalate_singleton_cons (a : α) (list : List α) (lists : List (List α)) :
    [a].intercalate (list :: lists) = list ++ lists.flatMap (a :: ·) := by
  induction lists generalizing list with
  | nil => simp
  | cons next lists ih =>
    rw [intercalate_cons_cons, ih]
    simp

theorem zipWith_append_of_forall_eq_nil {lists others : List (List α)}
    (h : ∀ list ∈ lists, list = []) (hlength : lists.length = others.length) :
    zipWith (· ++ ·) lists others = others := by
  induction lists generalizing others with
  | nil => exact (length_eq_zero_iff.mp hlength.symm).symm ▸ rfl
  | cons list lists ih =>
    obtain ⟨hlist, hlists⟩ := forall_mem_cons.mp h
    cases others with
    | nil => exact absurd hlength (Nat.succ_ne_zero _)
    | cons other others =>
      rw [zipWith_cons_cons, hlist, nil_append, ih hlists (Nat.succ.inj hlength)]

/-! ## Lists that are taken apart -/

section

variable [BEq α] [LawfulBEq α]

/-- The parts between separators, where lists follow that each stand behind a separator. -/
theorem splitOn_append_flatMap_cons (a : α) (list : List α) (lists : List (List α)) :
    (list ++ lists.flatMap (a :: ·)).splitOn a = list.splitOn a ++ lists.flatMap (·.splitOn a) := by
  induction lists generalizing list with
  | nil => rw [flatMap_nil, flatMap_nil, append_nil, append_nil]
  | cons next lists ih =>
    rw [flatMap_cons, flatMap_cons, cons_append, splitOn_append_cons_self, ih]

/-- Lists that each stand behind a separator start with a separator. -/
theorem exists_flatMap_cons_eq_cons (a : α) {lists : List (List α)} (h : lists ≠ []) :
    ∃ rest, lists.flatMap (a :: ·) = a :: rest ∧ rest.splitOn a = lists.flatMap (·.splitOn a) := by
  cases lists with
  | nil => exact absurd rfl h
  | cons list lists =>
    exact ⟨list ++ lists.flatMap (a :: ·), by rw [flatMap_cons, cons_append],
      by rw [splitOn_append_flatMap_cons, flatMap_cons]⟩

/-- Between separators there is some of the list, and no separator. -/
theorem subset_and_not_mem_of_mem_splitOn {a : α} {list part : List α} (h : part ∈ list.splitOn a) :
    part ⊆ list ∧ a ∉ part := by
  induction list generalizing part with
  | nil =>
    rw [splitOn_nil, mem_singleton] at h
    rw [h]
    exact ⟨Subset.refl [], not_mem_nil⟩
  | cons b list ih =>
    rw [splitOn_cons_eq_if_modifyHead] at h
    split at h
    · rcases mem_cons.mp h with rfl | h
      · exact ⟨nil_subset _, not_mem_nil⟩
      · exact ⟨subset_cons_of_subset b (ih h).1, (ih h).2⟩
    · next hb =>
      cases hsplit : list.splitOn a with
      | nil => exact absurd hsplit (splitOn_ne_nil a list)
      | cons first others =>
        rw [hsplit] at h ih
        rcases mem_cons.mp h with rfl | h
        · obtain ⟨hfirst, hseparator⟩ := ih (mem_cons_self (a := first))
          refine ⟨cons_subset_cons b hfirst, ?_⟩
          rw [mem_cons, not_or]
          exact ⟨fun heq => hb (by simp [← heq]), hseparator⟩
        · obtain ⟨hpart, hseparator⟩ := ih (mem_cons_of_mem first h)
          exact ⟨subset_cons_of_subset b hpart, hseparator⟩

end

/-- What stands behind the last entry without a property is dropped. -/
theorem rdropWhile_append_cons {p : α → Bool} {a : α} (ha : ¬ p a) (start : List α) {last : List α}
    (hlast : ∀ b ∈ last, p b) : (start ++ a :: last).rdropWhile p = start ++ [a] := by
  have hreverse : ∀ b ∈ last.reverse, p b := fun b hb => hlast b (mem_reverse.mp hb)
  rw [rdropWhile, reverse_append, reverse_cons, append_assoc, dropWhile_append_of_pos hreverse,
    singleton_append, dropWhile_cons_of_neg ha, reverse_cons, reverse_reverse]

/-- A list is divided at the last place where something stands. -/
theorem exists_eq_append_cons_last {a : α} {list : List α} (h : a ∈ list) :
    ∃ start rest, list = start ++ a :: rest ∧ a ∉ rest := by
  obtain ⟨after, before, hreverse, hafter⟩ := eq_append_cons_of_mem (mem_reverse.mpr h)
  refine ⟨before.reverse, after.reverse, ?_, mt mem_reverse.mp hafter⟩
  rw [← reverse_reverse list, hreverse, reverse_append, reverse_cons, append_assoc,
    singleton_append]

/-- What stands before the first entry with a property does not have it. -/
theorem not_of_mem_takeWhile_of_find? [DecidableEq α] {p : α → Bool} {entries : List α} {entry : α}
    (h : entries.find? p = some entry) :
    ∀ earlier ∈ entries.takeWhile (· ≠ entry), p earlier = false := by
  obtain ⟨hentry, before, after, rfl, hbefore⟩ := find?_eq_some_iff_append.mp h
  have hne : ∀ earlier ∈ before, decide (earlier ≠ entry) = true := by
    intro earlier hearlier
    have hfails := hbefore earlier hearlier
    simp only [ne_eq, decide_not, Bool.not_eq_true', decide_eq_false_iff_not]
    rintro rfl
    simp [hentry] at hfails
  rw [takeWhile_append_of_pos hne, takeWhile_cons_of_neg (by simp), append_nil]
  intro earlier hearlier
  simpa using hbefore earlier hearlier

/-! ## Entries in a place -/

/-- An entry of a list with one more entry is one of the list, or the new one. -/
theorem getElem?_concat_eq_some_iff {entries : List α} {last entry : α} {i : Nat} :
    (entries ++ [last])[i]? = some entry ↔
      entries[i]? = some entry ∨ i = entries.length ∧ last = entry := by
  rcases Nat.lt_trichotomy i entries.length with hlt | rfl | hgt
  · rw [getElem?_append_left hlt]
    exact ⟨.inl, fun h => h.elim id fun hlast => absurd hlast.1 (Nat.ne_of_lt hlt)⟩
  · simp
  · have hnone : (entries ++ [last])[i]? = none := by
      rw [getElem?_eq_none_iff, length_append, length_singleton]
      omega
    have hnone' : entries[i]? = none := getElem?_eq_none (Nat.le_of_lt hgt)
    rw [hnone, hnone']
    simp only [reduceCtorEq, false_or, false_iff]
    omega

/-- Another entry in one place matters only there. -/
theorem getElem?_append_cons_of_ne {before after : List α} (a b : α) {i : Nat}
    (h : i ≠ before.length) : (before ++ a :: after)[i]? = (before ++ b :: after)[i]? := by
  rcases Nat.lt_or_gt_of_ne h with h | h
  · rw [getElem?_append_left h, getElem?_append_left h]
  · obtain ⟨k, rfl⟩ := Nat.exists_eq_add_of_lt h
    rw [getElem?_append_right (by omega), getElem?_append_right (by omega)]
    have hk : before.length + k + 1 - before.length = k + 1 := by omega
    rw [hk, getElem?_cons_succ, getElem?_cons_succ]

/-- The change of one entry, where the entries go with keys that are all different. -/
theorem modify_map_of_nodup [DecidableEq α] {keys : List α} (hnodup : keys.Nodup) {i : Nat}
    {key : α} (hkey : keys[i]? = some key) (f : α → β) (change : β → β) :
    (keys.map f).modify i change =
      keys.map fun other => if key = other then change (f other) else f other := by
  refine ext_getElem? fun place => ?_
  by_cases hplace : i = place
  · rw [← hplace, getElem?_modify_eq, getElem?_map, getElem?_map, hkey]
    simp
  · rw [getElem?_modify_ne change _ hplace, getElem?_map, getElem?_map]
    cases hother : keys[place]? with
    | none => rfl
    | some other =>
      have hlt : i < keys.length := (getElem?_eq_some_iff.mp hkey).1
      have hne : key ≠ other := fun heq => hplace
        ((getElem?_inj hlt hnodup).mp (by rw [hkey, hother, heq]))
      rw [Option.map_some, Option.map_some, if_neg hne]

/-! ## What is kept of a list -/

theorem filter_fst_eq_nil [BEq α] [LawfulBEq α] {entries : List (α × β)} {key : α}
    (h : ∀ entry ∈ entries, entry.1 ≠ key) : entries.filter (·.1 == key) = [] :=
  filter_eq_nil_iff.mpr fun entry hentry => by simpa using h entry hentry

section

variable [BEq α] [LawfulBEq α]

/-- What came before decides what later entries add. -/
theorem eraseDups_append_congr {list other : List α} (h : list.eraseDups = other.eraseDups)
    (later : List α) : (list ++ later).eraseDups = (other ++ later).eraseDups := by
  have hmem : ∀ a, a ∈ list ↔ a ∈ other := fun a => by
    rw [← mem_eraseDups, h, mem_eraseDups]
  rw [eraseDups_append, eraseDups_append, h]
  simp only [removeAll, elem_eq_mem, hmem]

/-- The same entry again adds nothing. -/
theorem eraseDups_append_cons_of_forall_eq {a : α} {again : List α} (h : ∀ b ∈ again, b = a)
    (list : List α) : (list ++ a :: again).eraseDups = (list ++ [a]).eraseDups := by
  have hagain : again.removeAll (list ++ [a]) = [] := by
    refine filter_eq_nil_iff.mpr fun b hb => ?_
    simp [h b hb]
  rw [append_cons, eraseDups_append, hagain, eraseDups_nil, append_nil]

end

/-- What is kept for each of several entries, if there is no more than one thing to keep. -/
theorem flatMap_filter_of_length_le_one (keeps : α → β → Bool) (entries : List α) {list : List β}
    (h : list.length ≤ 1) :
    (entries.flatMap fun entry => list.filter (keeps entry)) =
      list.flatMap fun b => replicate (entries.countP (keeps · b)) b := by
  match list, h with
  | [], _ => simp
  | [b], _ =>
    rw [flatMap_singleton]
    induction entries with
    | nil => rfl
    | cons entry entries ih =>
      rw [flatMap_cons, ih, countP_cons, filter_singleton]
      cases keeps entry b with
      | true => exact replicate_succ.symm
      | false => rfl

end List
