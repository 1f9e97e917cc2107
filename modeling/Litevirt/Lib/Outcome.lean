import Mathlib

/-!
# Computations that may fail

What a value of `Except` that succeeded says about the steps it was computed by.
-/

namespace Litevirt.Lib

variable {ε ε' α β : Type} {x : Except ε α} {f : α → Except ε β} {b : β}

/-- The error of a step is the error of the computation. -/
theorem bind_eq_ok (bound : x >>= f = .ok b) :
    ∃ a, x = .ok a ∧ f a = .ok b := by
  cases x with
  | error err => cases bound
  | ok a => exact ⟨a, rfl, bound⟩

theorem map_eq_ok {f : α → β} (mapped : x.map f = .ok b) :
    ∃ a, x = .ok a ∧ f a = b := by
  cases x with
  | error err => cases mapped
  | ok a => exact ⟨a, rfl, Except.ok.inj mapped⟩

variable {a : α}

theorem mapError_eq_ok {f : ε → ε'} (mapped : x.mapError f = .ok a) :
    x = .ok a := by
  cases x with
  | error err => cases mapped
  | ok value =>
    cases mapped
    rfl

theorem toOption_eq_some (succeeds : x.toOption = some a) :
    x = .ok a := by
  cases x with
  | error _ => cases succeeds
  | ok value => exact congrArg Except.ok (Option.some.inj succeeds)

theorem exists_ok {goal : α → Prop} [DecidablePred goal]
    (reached : x.toOption.any (fun a => decide (goal a)) = true) : ∃ a, x = .ok a ∧ goal a := by
  obtain ⟨a, found, holds⟩ := (Option.any_eq_true ..).mp reached
  exact ⟨a, toOption_eq_some found, of_decide_eq_true holds⟩

theorem bind_eq_ok_iff :
    x >>= f = .ok b ↔ ∃ a, x = .ok a ∧ f a = .ok b :=
  ⟨bind_eq_ok, fun ⟨_, first, second⟩ => first ▸ second⟩

theorem guard_eq_ok {p : Prop} [Decidable p] {err : ε} :
    (if p then .error err else x) = .ok a ↔ ¬ p ∧ x = .ok a := by
  split <;> simp [*]

variable {xs : List α}

theorem forM_eq_ok {f : α → Except ε Unit} {done : Unit} :
    xs.forM f = .ok done ↔ ∀ x ∈ xs, f x = .ok () := by
  induction xs with
  | nil => simp [pure, Except.pure]
  | cons head rest ih =>
    rw [List.forall_mem_cons, ← ih]
    exact bind_eq_ok_iff.trans ⟨fun ⟨_, passed⟩ => passed, fun passed => ⟨(), passed⟩⟩

end Litevirt.Lib
