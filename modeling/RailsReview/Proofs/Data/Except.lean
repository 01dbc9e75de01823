/-!
# Steps that can fail

How steps that can fail succeed, one by one: a chain of them does if each of them does with what the
one before it gives.

* `Except.bind_eq_ok_iff`, `Except.map_eq_ok_iff`: two steps, and a step whose result is changed.
* `Except.mapError_eq_ok_iff`, `Except.mapError_map`: another error is no other success.
-/

namespace Except

universe u v w

variable {ε : Type u} {ε' : Type v} {α β : Type w}

/-- Two steps succeed if the first one does and the second one does with its result. -/
theorem bind_eq_ok_iff {x : Except ε α} {f : α → Except ε β} {b : β} :
    (x >>= f) = .ok b ↔ ∃ a, x = .ok a ∧ f a = .ok b := by
  cases x with
  | error error => exact iff_of_false (fun h => by cases h) fun ⟨_, h, _⟩ => by cases h
  | ok a =>
    refine ⟨fun h => ⟨a, rfl, h⟩, ?_⟩
    rintro ⟨_, h, hf⟩
    cases h
    exact hf

theorem map_eq_ok_iff {x : Except ε α} {f : α → β} {b : β} :
    x.map f = .ok b ↔ ∃ a, x = .ok a ∧ f a = b := by
  cases x with
  | error error => exact iff_of_false (fun h => by cases h) fun ⟨_, h, _⟩ => by cases h
  | ok a =>
    refine ⟨fun h => ⟨a, rfl, Except.ok.inj h⟩, ?_⟩
    rintro ⟨_, h, rfl⟩
    cases h
    rfl

theorem mapError_eq_ok_iff {x : Except ε α} {f : ε → ε'} {a : α} :
    x.mapError f = .ok a ↔ x = .ok a := by
  cases x with
  | error error => exact iff_of_false (fun h => by cases h) fun h => by cases h
  | ok other => exact ⟨fun h => by cases h; rfl, fun h => by cases h; rfl⟩

theorem mapError_map (x : Except ε α) (f : α → β) (g : ε → ε') :
    (x.map f).mapError g = (x.mapError g).map f := by
  cases x <;> rfl

end Except
