import Mathlib.Data.List.Induction
import RailsReview.Proofs.Delegation

/-!
# Chains of calls

In a chain such as `@invoice.user.address.city` every call is a node of its own, whose subject is
the chain up to it.  A review meets all of them, the longest first.  The law of Demeter looks at a
call and at the call that is its subject, and wants a variable below these two, so that of all calls
of a chain only the second one can be charged.

* `Start`: what a chain can start from, and `Start.chain`: the chain of calls on it.
* `Start.needsDelegate_chain_of_length_ne`: no other call than the second one needs a delegate.
* `check_chain_append_singleton`: one more link adds what is found at the outermost call.
* `check_chain_cons_cons`: so links behind the second one change nothing.
* `ChargedOnce`, `chargedOnce`: what is found in a chain.
-/

namespace RailsReview.LawOfDemeter

/-! ## Chains -/

/-- What a chain of calls can start from: a node without children. -/
inductive Start where
  | reference (kind : ReferenceKind) (name : String) (span : Span)
  | bareCall (message : String) (span : Span)
  | block (label : String) (span : Span)
  deriving DecidableEq, Repr

/-- A call of a chain: its message and its place. -/
structure Link where
  message : String
  span : Span
  deriving DecidableEq, Repr

namespace Start

/-- The node that the chain starts from. -/
def node : Start → Node
  | reference kind name span => .reference kind name span
  | bareCall message span => .call none message [] span
  | block label span => .block label [] span

/-- The name of the variable that the chain starts from. -/
def variableName? : Start → Option String
  | reference .localVariable name _ => some name
  | reference .instanceVariable name _ => some name
  | _ => none

/-- The chain of calls without arguments on a node. -/
def chain (start : Start) (links : List Link) : Node :=
  links.foldl (fun subject link => .call (some subject) link.message [] link.span) start.node

variable (start : Start)

/-- The last link of a chain is its outermost call. -/
theorem chain_append_singleton (links : List Link) (link : Link) :
    start.chain (links ++ [link]) =
      .call (some (start.chain links)) link.message [] link.span :=
  List.foldl_append ..

theorem preorder_chain_append_singleton (links : List Link) (link : Link) :
    (start.chain (links ++ [link])).preorder =
      start.chain (links ++ [link]) :: (start.chain links).preorder := by
  rw [chain_append_singleton, Node.preorder, Node.preorderSubject, Node.preorderList,
    List.append_nil]

theorem preorder_node : start.node.preorder = [start.node] := by
  cases start <;> rfl

/-! ## Which calls need a delegate -/

variable (models : ModelIndex)

/-- The second call of a chain needs a delegate if the chain starts from a variable and the two
messages read through an association of its class. -/
theorem needsDelegate_chain_pair (first second : Link) :
    needsDelegate models (start.chain [first, second]) =
      match start.variableName? with
      | some name =>
        readsThrough models (Inflection.classify name) first.message second.message
      | none => false := by
  cases start with
  | reference kind name span => cases kind <;> rfl
  | bareCall message span => rfl
  | block label span => rfl

/-- No other call of a chain needs one. -/
theorem needsDelegate_chain_of_length_ne {links : List Link} (h : links.length ≠ 2) :
    needsDelegate models (start.chain links) = false := by
  rcases links.eq_nil_or_concat with rfl | ⟨links, last, rfl⟩
  · cases start <;> rfl
  rw [List.concat_eq_append] at h ⊢
  rcases links.eq_nil_or_concat with rfl | ⟨links, middle, rfl⟩
  · cases start <;> rfl
  rw [List.concat_eq_append] at h ⊢
  rcases links.eq_nil_or_concat with rfl | ⟨links, first, rfl⟩
  · exact absurd rfl h
  -- the subject of the subject is a call
  rw [List.concat_eq_append, chain_append_singleton, chain_append_singleton,
    chain_append_singleton]
  rfl

end Start

/-! ## What is found -/

section

variable (models : ModelIndex) (severity : Severity) (file : SourceFile)

theorem visit_eq_nil {node : Node} (h : needsDelegate models node = false) :
    (rule models severity).visit file node = [] := by
  rw [visit_eq, if_neg]
  rw [← needsDelegate_eq_true_iff, h]
  exact Bool.false_ne_true

variable (start : Start)

/-- One more link adds what is found at the outermost call. -/
theorem check_chain_append_singleton (links : List Link) (link : Link) :
    (rule models severity).check file (start.chain (links ++ [link])) =
      (rule models severity).visit file (start.chain (links ++ [link])) ++
        (rule models severity).check file (start.chain links) := by
  rw [check_eq_flatMap_preorder rfl, check_eq_flatMap_preorder rfl,
    Start.preorder_chain_append_singleton, List.flatMap_cons]

/-- Nothing is found in a chain of less than two calls. -/
theorem check_chain_of_length_lt {links : List Link} (h : links.length < 2) :
    (rule models severity).check file (start.chain links) = [] := by
  induction links using List.reverseRecOn with
  | nil =>
    have hnode : (rule models severity).visit file (start.chain []) = [] :=
      visit_eq_nil models severity file (start.needsDelegate_chain_of_length_ne models (by decide))
    rw [check_eq_flatMap_preorder rfl]
    change start.node.preorder.flatMap _ = []
    rw [start.preorder_node, List.flatMap_singleton]
    exact hnode
  | append_singleton links link ih =>
    rw [List.length_append, List.length_singleton] at h
    rw [check_chain_append_singleton, ih (by omega), List.append_nil]
    refine visit_eq_nil models severity file (start.needsDelegate_chain_of_length_ne models ?_)
    rw [List.length_append, List.length_singleton]
    omega

/-- Links behind the second one change nothing. -/
theorem check_chain_cons_cons (first second : Link) (later : List Link) :
    (rule models severity).check file (start.chain (first :: second :: later)) =
      (rule models severity).check file (start.chain [first, second]) := by
  induction later using List.reverseRecOn with
  | nil => rfl
  | append_singleton later link ih =>
    have houter : (rule models severity).visit file
        (start.chain (first :: second :: later ++ [link])) = [] := by
      refine visit_eq_nil models severity file (start.needsDelegate_chain_of_length_ne models ?_)
      simp
    rw [← List.cons_append, ← List.cons_append, check_chain_append_singleton, houter, ih,
      List.nil_append]

/-- What is found in a chain of two calls is found at the second one. -/
theorem check_chain_pair (first second : Link) :
    (rule models severity).check file (start.chain [first, second]) =
      if needsDelegate models (start.chain [first, second]) then
        [findingAt severity file (start.chain [first, second])]
      else [] := by
  have hpair : [first, second] = [first] ++ [second] := rfl
  have hfirst : (rule models severity).check file (start.chain [first]) = [] :=
    check_chain_of_length_lt models severity file start Nat.one_lt_two
  rw [hpair, check_chain_append_singleton, hfirst, List.append_nil, visit_eq]
  simp only [needsDelegate_eq_true_iff]

/-- What is found in a chain of calls. -/
structure ChargedOnce (links : List Link) : Prop where
  /-- On a variable the second call is charged, or none.  This depends on the name of the variable,
  the first two messages and what is known about the models. -/
  check_of_variable : ∀ name first second later, start.variableName? = some name →
    links = first :: second :: later →
      (rule models severity).check file (start.chain links) =
        if readsThrough models (Inflection.classify name) first.message second.message then
          [findingAt severity file (start.chain [first, second])]
        else []
  check_of_length_lt : links.length < 2 →
    (rule models severity).check file (start.chain links) = []
  check_of_no_variable : start.variableName? = none →
    (rule models severity).check file (start.chain links) = []
  needsDelegate_of_length_ne : links.length ≠ 2 → needsDelegate models (start.chain links) = false

/-- **A chain of calls is charged at most once,** at its second call. -/
theorem chargedOnce (links : List Link) : ChargedOnce models severity file start links where
  check_of_variable name first second later hname hlinks := by
    rw [hlinks, check_chain_cons_cons, check_chain_pair, start.needsDelegate_chain_pair, hname]
  check_of_length_lt := check_chain_of_length_lt models severity file start
  check_of_no_variable hname := by
    match links with
    | [] => exact check_chain_of_length_lt models severity file start (by simp)
    | [link] => exact check_chain_of_length_lt models severity file start (by simp)
    | first :: second :: later =>
      rw [check_chain_cons_cons, check_chain_pair, start.needsDelegate_chain_pair, hname]
      rfl
  needsDelegate_of_length_ne := start.needsDelegate_chain_of_length_ne models

end

end RailsReview.LawOfDemeter
