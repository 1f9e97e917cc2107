import Mathlib

/-!
# Folding a choice between two

A choice keeps one of the two values it meets.  Folded over the values that arrive, it
ends with the same one for every order and every repetition exactly when one of them is
kept against each of the others.
-/

namespace Litevirt.Lib

open List

variable {α : Type*} {pick : α → α → α} {start w : α} {l : List α}

/-- The result is one of the two. -/
def Selects (pick : α → α → α) : Prop := ∀ a b, pick a b = a ∨ pick a b = b

theorem foldl_pick_keeps (keeps : ∀ x ∈ l, pick w x = w) : l.foldl pick w = w := by
  induction l with
  | nil => rfl
  | cons x rest ih =>
    rw [foldl_cons, keeps x mem_cons_self]
    exact ih fun y member => keeps y (mem_cons_of_mem _ member)

/-- A value that wins both against what is held and against what arrives stays. -/
theorem foldl_pick_winner (selects : Selects pick) (member : w ∈ l)
    (wins : ∀ x, x = start ∨ x ∈ l → pick x w = w) (keeps : ∀ x ∈ l, pick w x = w) :
    l.foldl pick start = w := by
  induction l generalizing start with
  | nil => cases member
  | cons x rest ih =>
    rw [foldl_cons]
    have restKeeps : ∀ y ∈ rest, pick w y = w := fun y inRest =>
      keeps y (mem_cons_of_mem _ inRest)
    rcases mem_cons.mp member with rfl | inRest
    · rw [wins start (.inl rfl)]
      exact foldl_pick_keeps restKeeps
    refine ih inRest (fun y held => ?_) restKeeps
    rcases held with rfl | held
    · rcases selects start x with same | same
      · rw [same]
        exact wins start (.inl rfl)
      · rw [same]
        exact wins x (.inr mem_cons_self)
    · exact wins y (.inr (mem_cons_of_mem _ held))

theorem foldl_pick_mem (selects : Selects pick) (start : α) (l : List α) :
    l.foldl pick start = start ∨ l.foldl pick start ∈ l := by
  induction l generalizing start with
  | nil => exact .inl rfl
  | cons x rest ih =>
    rw [foldl_cons]
    rcases ih (pick start x) with same | member
    · rw [same]
      rcases selects start x with held | taken
      · exact .inl held
      · rw [taken]
        exact .inr mem_cons_self
    · exact .inr (mem_cons_of_mem _ member)

/-- The folds over all lists of the same values agree. -/
def OrderFree (pick : α → α → α) (start : α) (l : List α) : Prop :=
  ∀ l₁ l₂ : List α, (∀ x, x ∈ l₁ ↔ x ∈ l) → (∀ x, x ∈ l₂ ↔ x ∈ l) →
    l₁.foldl pick start = l₂.foldl pick start

/-- A choice that takes anything over its start is free of order exactly when one value is
kept against all. -/
theorem orderFree_iff (selects : Selects pick) (comm : ∀ a b, pick a b = pick b a)
    (takes : ∀ x, pick start x = x) (some : l ≠ []) :
    OrderFree pick start l ↔ ∃ w ∈ l, ∀ x ∈ l, pick w x = w := by
  constructor
  · intro free
    have keeps : ∀ x ∈ l, pick (l.foldl pick start) x = l.foldl pick start := by
      intro x member
      have again := free (l ++ [x]) l (fun y => by simp; rintro rfl; exact member) fun _ => .rfl
      rwa [foldl_append] at again
    rcases foldl_pick_mem selects start l with none | member
    · obtain ⟨x, member⟩ := exists_mem_of_ne_nil l some
      have same : x = start := by
        have kept := keeps x member
        rwa [none, takes] at kept
      exact ⟨x, member, same ▸ none ▸ keeps⟩
    · exact ⟨_, member, keeps⟩
  · rintro ⟨w, member, keeps⟩ l₁ l₂ same₁ same₂
    have wins : ∀ {m : List α}, (∀ x, x ∈ m ↔ x ∈ l) → m.foldl pick start = w := by
      intro m same
      refine foldl_pick_winner selects ((same w).mpr member) (fun x held => ?_) fun x inM =>
        keeps x ((same x).mp inM)
      rcases held with rfl | inM
      · exact takes w
      · rw [comm]
        exact keeps x ((same x).mp inM)
    rw [wins same₁, wins same₂]

end Litevirt.Lib
