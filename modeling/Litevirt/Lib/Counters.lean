import Mathlib

/-!
# Counters by key

A map from keys to integers in which a missing key counts zero, as a function.  A pass that
adds an amount at the key of each row leaves the sum of the amounts at every key.
-/

namespace Litevirt.Lib

variable {κ ρ : Type*} [DecidableEq κ]

def bump (counter : κ → Int) (key : κ) (amount : Int) : κ → Int :=
  Function.update counter key (counter key + amount)

theorem bump_apply (counter : κ → Int) (key other : κ) (amount : Int) :
    bump counter key amount other = counter other + if other = key then amount else 0 := by
  unfold bump
  by_cases same : other = key
  · subst same
    simp
  · simp [same]

theorem foldl_bump (key : ρ → κ) (amount : ρ → Int) (rows : List ρ) (counter : κ → Int)
    (wanted : κ) :
    rows.foldl (fun counter row => bump counter (key row) (amount row)) counter wanted =
      counter wanted + (rows.map fun row => if wanted = key row then amount row else 0).sum := by
  induction rows generalizing counter with
  | nil => simp
  | cons row rest ih =>
    rw [List.foldl_cons, ih, bump_apply, List.map_cons, List.sum_cons]
    ring

end Litevirt.Lib
