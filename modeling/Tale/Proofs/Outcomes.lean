import Mathlib.Logic.Basic

/-!
# Outcomes

A row of steps that may fail gives a value exactly if each of them does (`bind_eq_ok`), and the
error of one of them otherwise.
-/

namespace Tale

variable {ε α β : Type} {x : Except ε α} {f : α → Except ε β} {b : β}

theorem ok_of_bind (h : x >>= f = .ok b) : ∃ a, x = .ok a ∧ f a = .ok b := by
  rcases x with e | a
  · cases h
  · exact ⟨a, rfl, h⟩

theorem bind_eq_ok : x >>= f = .ok b ↔ ∃ a, x = .ok a ∧ f a = .ok b := by
  refine ⟨ok_of_bind, ?_⟩
  rintro ⟨a, rfl, h⟩
  exact h

/-- What comes after a guard is done unless the guard fails. -/
theorem guard_eq_ok {p : Prop} [Decidable p] {e : ε} {g : Unit → Except ε β} :
    (if p then throw e >>= g else g ()) = .ok b ↔ ¬ p ∧ g () = .ok b := by
  by_cases h : p
  · rw [if_pos h]
    exact iff_of_false nofun fun hb => hb.1 h
  · rw [if_neg h]
    exact (and_iff_right h).symm

theorem eq_ok_of_toOption {a : α} (h : x.toOption = some a) : x = .ok a := by
  cases x with
  | error e => cases h
  | ok b => exact congrArg Except.ok (Option.some.inj h)

theorem exists_error (h : ∀ a, x ≠ .ok a) : ∃ e, x = .error e := by
  rcases x with e | a
  · exact ⟨e, rfl⟩
  · exact absurd rfl (h a)

end Tale
