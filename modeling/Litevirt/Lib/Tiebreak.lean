import Mathlib

/-!
# Chains of contests

A contest compares two competitors and may pass, name a winner, or refuse to name one; a chain
asks its contests in turn.  Chains of fair contests have no cyclic winners when each contest that
puts one competitor above another also separates any third from one of the two.
-/

namespace Litevirt.Lib

open List

variable {α : Type*}

inductive Verdict where
  | pass
  | first
  | second
  | unresolved
  deriving DecidableEq, Repr

namespace Verdict

def swap : Verdict → Verdict
  | .first => .second
  | .second => .first
  | verdict => verdict

def andThen : Verdict → Verdict → Verdict
  | .pass, later => later
  | verdict, _ => verdict

@[simp] theorem pass_andThen (later : Verdict) : andThen .pass later = later := rfl

@[simp] theorem andThen_pass (verdict : Verdict) : verdict.andThen .pass = verdict := by
  cases verdict <;> rfl

theorem andThen_assoc (u v w : Verdict) : (u.andThen v).andThen w = u.andThen (v.andThen w) := by
  cases u <;> rfl

theorem swap_andThen (u v : Verdict) : (u.andThen v).swap = u.swap.andThen v.swap := by
  cases u <;> rfl

end Verdict

abbrev Contest (α : Type*) := α → α → Verdict

def chain : List (Contest α) → Contest α
  | [], _, _ => .pass
  | contest :: rest, x, y => (contest x y).andThen (chain rest x y)

theorem chain_append (front back : List (Contest α)) (x y : α) :
    chain (front ++ back) x y = (chain front x y).andThen (chain back x y) := by
  induction front with
  | nil => rfl
  | cons contest rest ih => rw [cons_append, chain, chain, ih, Verdict.andThen_assoc]

theorem chain_block (front block back : List (Contest α)) (x y : α) :
    chain (front ++ block ++ back) x y = chain (front ++ chain block :: back) x y := by
  rw [chain_append, chain_append, chain_append front, Verdict.andThen_assoc]
  rfl

variable {contests : List (Contest α)}

theorem chain_pass {x y : α}
    (pass : ∀ contest ∈ contests, contest x y = .pass) : chain contests x y = .pass := by
  induction contests with
  | nil => rfl
  | cons contest rest ih =>
    rw [chain, pass contest mem_cons_self,
      ih fun later member => pass later (mem_cons_of_mem _ member)]
    rfl

/-- The verdict does not depend on the order of the two. -/
def Fair (contest : Contest α) (x y : α) : Prop := contest y x = (contest x y).swap

theorem chain_fair {x y : α}
    (fair : ∀ contest ∈ contests, Fair contest x y) : Fair (chain contests) x y := by
  induction contests with
  | nil => rfl
  | cons contest rest ih =>
    have head := fair contest mem_cons_self
    have tail := ih fun later member => fair later (mem_cons_of_mem _ member)
    unfold Fair at head tail ⊢
    rw [chain, chain, Verdict.swap_andThen, head, tail]

/-- When `x` is above `y`, then `z` is below `x` or above `y`, or no winner is named there. -/
def Separates (contest : Contest α) (x y z : α) : Prop :=
  contest x y = .first →
    contest x z = .first ∨ contest z y = .first ∨
      contest x z = .unresolved ∨ contest z y = .unresolved

/-- The larger key wins and equal keys pass. -/
def byKey {β : Type*} [LinearOrder β] (key : α → β) : Contest α := fun x y =>
  if key y < key x then .first else if key x < key y then .second else .pass

variable {β : Type*}

theorem byKey_fair [LinearOrder β] (key : α → β) (x y : α) :
    Fair (byKey key) x y := by
  unfold Fair byKey
  rcases lt_trichotomy (key x) (key y) with below | same | above
  · simp [below, below.not_gt, Verdict.swap]
  · simp [same, Verdict.swap]
  · simp [above, above.not_gt, Verdict.swap]

theorem byKey_separates [LinearOrder β] (key : α → β) (x y z : α) :
    Separates (byKey key) x y z := by
  unfold Separates byKey
  intro above
  by_cases below : key y < key x
  · rcases lt_or_ge (key z) (key x) with under | atLeast
    · simp [under]
    · simp [below.trans_le atLeast]
  · rw [if_neg below] at above
    split at above <;> cases above

def sameKey {β : Type*} [DecidableEq β] (key : α → β) : Contest α := fun x y =>
  if key x = key y then .pass else .unresolved

theorem sameKey_fair [DecidableEq β] (key : α → β) (x y : α) :
    Fair (sameKey key) x y := by
  unfold Fair sameKey
  by_cases same : key x = key y
  · simp [same, Verdict.swap]
  · simp [same, Ne.symm same, Verdict.swap]

theorem sameKey_separates [DecidableEq β] (key : α → β) (x y z : α) :
    Separates (sameKey key) x y z := by
  unfold Separates sameKey
  intro above
  split at above <;> cases above

theorem chain_acyclic {a b c : α}
    (fair : ∀ contest ∈ contests, Fair contest a b ∧ Fair contest b c ∧ Fair contest c a)
    (separates : ∀ contest ∈ contests,
      Separates contest a b c ∧ Separates contest b c a ∧ Separates contest c a b) :
    ¬ (chain contests a b = .first ∧ chain contests b c = .first ∧
      chain contests c a = .first) := by
  induction contests with
  | nil => simp [chain]
  | cons contest rest ih =>
    rintro ⟨first, second, third⟩
    obtain ⟨fairAB, fairBC, fairCA⟩ := fair contest mem_cons_self
    obtain ⟨sepABC, sepBCA, sepCAB⟩ := separates contest mem_cons_self
    rw [chain] at first second third
    by_cases allPass : contest a b = .pass ∧ contest b c = .pass ∧ contest c a = .pass
    · rw [allPass.1] at first
      rw [allPass.2.1] at second
      rw [allPass.2.2] at third
      exact ih (fun later member => fair later (mem_cons_of_mem _ member))
        (fun later member => separates later (mem_cons_of_mem _ member))
        ⟨first, second, third⟩
    · -- each pair passes or has the winner of the circle, and one of them does not pass
      unfold Separates at sepABC sepBCA sepCAB
      rw [fairCA, fairBC] at sepABC
      rw [fairAB, fairCA] at sepBCA
      rw [fairBC, fairAB] at sepCAB
      generalize contest a b = ab at *
      generalize contest b c = bc at *
      generalize contest c a = ca at *
      cases ab <;> cases bc <;> cases ca <;> simp_all [Verdict.swap, Verdict.andThen]

end Litevirt.Lib
