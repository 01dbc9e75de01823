import Mathlib.Algebra.GroupWithZero.Nat
import RailsReview.Proofs.Data.List
import RailsReview.Proofs.Traversal

/-!
# Several rules in one pass

A review walks a tree once, with all rules that are about the file, and puts what they find into one
list.  What a rule finds does not depend on which other rules take part, so the list is the one that
the rules would make one by one, only in another order: it takes from the list of each rule in turn.

* `Interleaving`: a list takes from several lists, always from the front, until nothing is left.
* `Interleaving.sublist_of_mem`, `Interleaving.perm_flatten`: each of the lists keeps its order, and
  nothing is lost or added.
* `Interleaving.flatten`, `Interleaving.append`: lists one after the other are interleaved, and so
  are two interleavings one after the other.
* `Rule.found`: what a rule finds at a node.
* `interleaving_flatMap_found`: a pass over nodes interleaves the passes of the rules.
* `review_interleaves`: so does a review.

A rule may be listed twice.  It is then shown every node twice, and takes part as two rules do.
-/

namespace RailsReview

/-! ## Interleavings -/

/-- A list is made from several lists by taking the first entry of one of them, again and again,
until all are used up. -/
inductive Interleaving {α : Type} : List (List α) → List α → Prop
  | done {lists : List (List α)} (h : ∀ list ∈ lists, list = []) : Interleaving lists []
  | next {before after : List (List α)} {list merged : List α} (first : α)
      (rest : Interleaving (before ++ list :: after) merged) :
      Interleaving (before ++ (first :: list) :: after) (first :: merged)

namespace Interleaving

variable {α : Type} {lists others : List (List α)} {merged later : List α}

/-- Nothing is lost or added. -/
theorem perm_flatten (h : Interleaving lists merged) : merged.Perm lists.flatten := by
  induction h with
  | done h => rw [List.flatten_eq_nil_iff.mpr h]
  | @next before after list merged first rest ih =>
    rw [List.flatten_append, List.flatten_cons] at ih ⊢
    exact (ih.cons first).trans List.perm_middle.symm

/-- Each of the lists keeps its order. -/
theorem sublist_of_mem (h : Interleaving lists merged) :
    ∀ list ∈ lists, list.Sublist merged := by
  induction h with
  | done h =>
    intro list hlist
    exact h list hlist ▸ List.nil_sublist []
  | @next before after list merged first rest ih =>
    intro other hother
    rw [List.mem_append, List.mem_cons] at hother
    rcases hother with hother | rfl | hother
    · exact (ih other (List.mem_append_left _ hother)).cons first
    · exact (ih list (List.mem_append_right _ List.mem_cons_self)).cons_cons first
    · exact (ih other (List.mem_append_right _ (List.mem_cons_of_mem _ hother))).cons first

/-- An empty list takes no part. -/
theorem cons_nil (h : Interleaving lists merged) : Interleaving ([] :: lists) merged := by
  induction h with
  | done h => exact .done (List.forall_mem_cons.mpr ⟨rfl, h⟩)
  | @next before after list merged first rest ih =>
    exact @next α ([] :: before) after list merged first ih

/-- Lists one after the other are interleaved. -/
theorem flatten (lists : List (List α)) : Interleaving lists lists.flatten := by
  induction lists with
  | nil => exact .done fun list hlist => absurd hlist List.not_mem_nil
  | cons list lists ih =>
    induction list with
    | nil => exact ih.cons_nil
    | cons first list ihlist => exact @next α [] lists list _ first ihlist

/-- Two interleavings one after the other are one of the lists that are made by putting each list of
the second behind its list of the first. -/
theorem append (h : Interleaving lists merged) (h' : Interleaving others later)
    (hlength : lists.length = others.length) :
    Interleaving (List.zipWith (· ++ ·) lists others) (merged ++ later) := by
  induction h generalizing others with
  | done h => rwa [List.zipWith_append_of_forall_eq_nil h hlength, List.nil_append]
  | @next before after list merged first rest ih =>
    obtain ⟨front, other, back, rfl, hfront⟩ :
        ∃ front other back, others = front ++ other :: back ∧ before.length = front.length := by
      have hlt : before.length < others.length := by
        rw [← hlength, List.length_append, List.length_cons]
        omega
      refine ⟨others.take before.length, others[before.length], others.drop (before.length + 1),
        ?_, ?_⟩
      · rw [List.getElem_cons_drop, List.take_append_drop]
      · rw [List.length_take_of_le (Nat.le_of_lt hlt)]
    have hrest := ih h' (by simpa using hlength)
    rw [List.zipWith_append hfront, List.zipWith_cons_cons] at hrest ⊢
    exact .next first hrest

end Interleaving

/-! ## Passes -/

/-- What a rule finds at a node, if it is about the file and wants to be shown such nodes. -/
def Rule.found (rule : Rule) (file : SourceFile) (node : Node) : List Violation :=
  if rule.appliesTo file = true ∧ node.kind ∈ rule.kinds then
    (rule.inspect file node).map (rule.violation file)
  else []

section

variable (file : SourceFile)

theorem found_of_applies {rule : Rule} (h : rule.appliesTo file = true) (node : Node) :
    rule.found file node = rule.visit file node := by
  simp only [Rule.found, Rule.visit, h, true_and, List.contains_iff_mem]

theorem found_of_not_applies {rule : Rule} (h : rule.appliesTo file = false) (node : Node) :
    rule.found file node = [] := by
  simp [Rule.found, h]

/-- At a node, rules that are not about the file can as well be asked. -/
theorem flatMap_visit_eq_flatMap_found (rules : List Rule) (node : Node) :
    (rules.filter (·.appliesTo file)).flatMap (·.visit file node) =
      rules.flatMap (·.found file node) := by
  induction rules with
  | nil => rfl
  | cons rule rules ih =>
    rw [List.filter_cons, List.flatMap_cons]
    cases h : rule.appliesTo file with
    | true => rw [if_pos rfl, List.flatMap_cons, ih, found_of_applies file h]
    | false => rw [if_neg Bool.false_ne_true, ih, found_of_not_applies file h, List.nil_append]

/-- A review asks all rules at each node, in document order. -/
theorem review_eq_flatMap_found (root : Node) (rules : List Rule) :
    review file root rules =
      root.preorder.flatMap fun node => rules.flatMap (·.found file node) := by
  rw [review_eq_flatMap_preorder]
  simp only [flatMap_visit_eq_flatMap_found]

theorem check_eq_flatMap_found (root : Node) (rule : Rule) :
    rule.check file root = root.preorder.flatMap (rule.found file) := by
  rw [Rule.check, review_eq_flatMap_found]
  simp only [List.flatMap_singleton]

/-- A pass over nodes interleaves the passes of the rules. -/
theorem interleaving_flatMap_found (nodes : List Node) (rules : List Rule) :
    Interleaving (rules.map fun rule => nodes.flatMap (rule.found file))
      (nodes.flatMap fun node => rules.flatMap (·.found file node)) := by
  induction nodes with
  | nil => exact .done (List.forall_mem_map.mpr fun rule _ => rfl)
  | cons node nodes ih =>
    have hnode := Interleaving.flatten (rules.map (·.found file node))
    have happend := hnode.append ih (by rw [List.length_map, List.length_map])
    rw [List.zipWith_map, List.zipWith_self] at happend
    exact happend

/-- **Several rules in one pass find what they find one by one.**  A review lists what each rule
that is about the file remarks on each node that it wants to be shown, node by node in document order
and rule by rule at a node.  So it interleaves the reviews by each rule alone: each keeps its order, and
nothing is lost or added. -/
theorem review_interleaves (root : Node) (rules : List Rule) :
    review file root rules =
        (root.preorder.flatMap fun node => rules.flatMap fun rule => rule.found file node) ∧
      Interleaving (rules.map (·.check file root)) (review file root rules) ∧
      (∀ rule ∈ rules, (rule.check file root).Sublist (review file root rules)) ∧
      (review file root rules).Perm (rules.flatMap (·.check file root)) ∧
      (review file root rules).length =
        (rules.map fun rule => (rule.check file root).length).sum := by
  have hreview := review_eq_flatMap_found file root rules
  have hinterleaving : Interleaving (rules.map (·.check file root)) (review file root rules) := by
    rw [hreview]
    simp only [check_eq_flatMap_found]
    exact interleaving_flatMap_found file root.preorder rules
  have hperm := hinterleaving.perm_flatten
  refine ⟨hreview, hinterleaving,
    List.forall_mem_map.mp hinterleaving.sublist_of_mem, hperm, ?_⟩
  rw [hperm.length_eq, List.length_flatten, List.map_map]
  rfl

end

end RailsReview
