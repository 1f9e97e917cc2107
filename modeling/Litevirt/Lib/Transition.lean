import Mathlib

/-!
# Runs of a labelled partial step function

A component is given by a step function that is partial in its label.  A run performs enabled
labels one after the other, each under a side condition, so that "in every run whose steps all
meet the condition" is one relation.
-/

namespace Litevirt.Lib

variable {σ α : Type*}

/-- Perform the labels from left to right; `none` once one of them is disabled. -/
def exec (step : σ → α → Option σ) : List α → σ → Option σ
  | [], state => some state
  | label :: rest, state => (step state label).bind (exec step rest)

/-- `Run step ok first last` holds when `last` is reached from `first` by
enabled labels, each of which meets `ok` in the state it is taken in. -/
inductive Run (step : σ → α → Option σ) (ok : σ → α → Prop) : σ → σ → Prop where
  | refl (state : σ) : Run step ok state state
  | tail {first middle last : σ} {label : α} :
      Run step ok first middle →
      ok middle label →
      step middle label = some last →
      Run step ok first last

namespace Run

variable {step : σ → α → Option σ} {ok : σ → α → Prop}

/-- A property that every permitted step preserves holds at the end of a run. -/
theorem invariant {first last : σ} (run : Run step ok first last)
    (Inv : σ → Prop) (initial : Inv first)
    (preserved : ∀ state label next, ok state label →
      step state label = some next → Inv state → Inv next) :
    Inv last := by
  induction run with
  | refl => exact initial
  | tail _ permitted enabled ih => exact preserved _ _ _ permitted enabled ih

/-- A run under a condition is one under every weaker condition. -/
theorem mono {weaker : σ → α → Prop} {first last : σ} (run : Run step ok first last)
    (weakens : ∀ state label, ok state label → weaker state label) :
    Run step weaker first last := by
  induction run with
  | refl => exact .refl _
  | tail _ permitted enabled ih => exact .tail ih (weakens _ _ permitted) enabled

end Run

/-- Perform the labels while the executable condition admits each of them. -/
def execWhile (step : σ → α → Option σ) (admits : σ → α → Bool) :
    List α → σ → Option σ
  | [], state => some state
  | label :: rest, state =>
    if admits state label then (step state label).bind (execWhile step admits rest)
    else none

variable {step : σ → α → Option σ} {ok : σ → α → Prop} {admits : σ → α → Bool} {first : σ}

/-- An execution under an executable condition is a run under any condition
that the executable one decides positively. -/
theorem Run.of_execWhile (sound : ∀ state label, admits state label = true → ok state label)
    {labels : List α} {start last : σ} (prior : Run step ok start first)
    (executed : execWhile step admits labels first = some last) : Run step ok start last := by
  induction labels generalizing first with
  | nil =>
    cases executed
    exact prior
  | cons label rest ih =>
    unfold execWhile at executed
    split at executed
    · rename_i admitted
      obtain ⟨next, enabled, remaining⟩ := Option.bind_eq_some_iff.mp executed
      exact ih (.tail prior (sound _ _ admitted) enabled) remaining
    · cases executed

theorem Run.executed {goal : σ → Prop} [DecidablePred goal]
    (sound : ∀ state label, admits state label = true → ok state label) (labels : List α)
    (reached : (execWhile step admits labels first).any (fun last => decide (goal last)) = true) :
    ∃ last, Run step ok first last ∧ goal last := by
  cases final : execWhile step admits labels first with
  | none => simp [final] at reached
  | some last =>
    exact ⟨last, .of_execWhile sound (.refl first) final, by simpa [final] using reached⟩

/-- Performing the labels under a decidable condition is a run to where they end. -/
theorem Run.reaches [∀ state label, Decidable (ok state label)] {goal : σ → Prop}
    [DecidablePred goal] (labels : List α)
    (reached : (execWhile step (fun state label => decide (ok state label)) labels first).any
      (fun last => decide (goal last)) = true) : ∃ last, Run step ok first last ∧ goal last :=
  Run.executed (fun _ _ => of_decide_eq_true) labels reached

end Litevirt.Lib
