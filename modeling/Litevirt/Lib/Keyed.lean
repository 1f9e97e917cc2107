import Mathlib

/-!
# Runs with a state for each key

A pass over rows that keeps one state for each key and reports what it finds.  What it does for
one key depends on the rows of that key alone, in their order, and so do its reports.
-/

namespace Litevirt.Lib

open List Function

variable {κ σ ρ ω : Type*}

/-- Rows in their order through a step, with everything it reports. -/
def runRows (step : σ → ρ → σ × List ω) : σ → List ρ → σ × List ω
  | state, [] => (state, [])
  | state, row :: rest =>
    ((runRows step (step state row).1 rest).1,
      (step state row).2 ++ (runRows step (step state row).1 rest).2)

def runKeyed [DecidableEq κ] (key : ρ → κ) (step : σ → ρ → σ × List ω) :
    (κ → σ) → List ρ → (κ → σ) × List ω
  | states, [] => (states, [])
  | states, row :: rest =>
    let next := step (states (key row)) row
    let final := runKeyed key step (Function.update states (key row) next.1) rest
    (final.1, next.2 ++ final.2)

section Rows

variable (step : σ → ρ → σ × List ω)

@[simp] theorem runRows_nil (state : σ) : runRows step state [] = (state, []) := rfl

theorem runRows_cons (state : σ) (row : ρ) (rest : List ρ) :
    runRows step state (row :: rest) =
      ((runRows step (step state row).1 rest).1,
        (step state row).2 ++ (runRows step (step state row).1 rest).2) := rfl

theorem runRows_append (state : σ) (rows more : List ρ) :
    runRows step state (rows ++ more) =
      ((runRows step (runRows step state rows).1 more).1,
        (runRows step state rows).2 ++ (runRows step (runRows step state rows).1 more).2) := by
  induction rows generalizing state with
  | nil => rfl
  | cons row rest ih =>
    rw [cons_append, runRows_cons, ih, runRows_cons, append_assoc]

end Rows

section Keyed

variable [DecidableEq κ] {key : ρ → κ} {step : σ → ρ → σ × List ω}

theorem runKeyed_cons (states : κ → σ) (row : ρ) (rest : List ρ) :
    runKeyed key step states (row :: rest) =
      ((runKeyed key step
          (Function.update states (key row) (step (states (key row)) row).1) rest).1,
        (step (states (key row)) row).2 ++
          (runKeyed key step
            (Function.update states (key row) (step (states (key row)) row).1) rest).2) := rfl

theorem runKeyed_state (states : κ → σ) (rows : List ρ) (k : κ) :
    (runKeyed key step states rows).1 k =
      (runRows step (states k) (rows.filter (key · = k))).1 := by
  induction rows generalizing states with
  | nil => rfl
  | cons row rest ih =>
    rw [runKeyed_cons, ih]
    by_cases here : key row = k
    · subst here
      rw [update_self, filter_cons_of_pos (by simp), runRows_cons]
    · rw [update_of_ne (Ne.symm here), filter_cons_of_neg (by simpa using here)]

theorem mem_runKeyed {states : κ → σ} {rows : List ρ} {report : ω} :
    report ∈ (runKeyed key step states rows).2 ↔
      ∃ k, report ∈ (runRows step (states k) (rows.filter (key · = k))).2 := by
  induction rows generalizing states with
  | nil => simp [runKeyed]
  | cons row rest ih =>
    rw [runKeyed_cons, mem_append, ih]
    constructor
    · rintro (now | ⟨k, later⟩)
      · refine ⟨key row, ?_⟩
        rw [filter_cons_of_pos (by simp)]
        exact mem_append_left _ now
      refine ⟨k, ?_⟩
      by_cases here : key row = k
      · subst here
        rw [update_self] at later
        rw [filter_cons_of_pos (by simp)]
        exact mem_append_right _ later
      · rw [update_of_ne (Ne.symm here)] at later
        rwa [filter_cons_of_neg (by simpa using here)]
    · rintro ⟨k, made⟩
      by_cases here : key row = k
      · subst here
        rw [filter_cons_of_pos (by simp)] at made
        rcases mem_append.mp made with now | later
        · exact .inl now
        · exact .inr ⟨key row, by rwa [update_self]⟩
      · rw [filter_cons_of_neg (by simpa using here)] at made
        exact .inr ⟨k, by rwa [update_of_ne (Ne.symm here)]⟩

end Keyed

end Litevirt.Lib
