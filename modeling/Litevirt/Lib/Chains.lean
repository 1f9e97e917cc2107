import Mathlib

/-!
# Chains of rules

A rule applies to a packet or not; one that applies ends the evaluation with a verdict or sends
the packet through another chain, and a chain that says nothing returns to the rule behind the
jump.  A set of chains loads when the jumps from its start are bounded, which no cycle is.
-/

namespace Litevirt.Lib

open List

inductive Branch (κ ν : Type) where
  | final (verdict : ν)
  | jump (chain : κ)

structure Chains (π σ κ ν : Type) where
  rules : κ → List σ
  applies : π → σ → Bool
  /-- A rule may do nothing. -/
  branch : σ → Option (Branch κ ν)

namespace Chains

variable {π σ κ ν : Type} (chains : Chains π σ κ ν)

def say (packet : π) (behind : κ → Option ν) (rule : σ) : Option ν :=
  if chains.applies packet rule then
    match chains.branch rule with
    | some (.final verdict) => some verdict
    | some (.jump chain) => behind chain
    | none => none
  else none

/-- The verdict of a chain, with at most so many nested jumps. -/
def eval (packet : π) : Nat → κ → Option ν
  | 0, _ => none
  | depth + 1, name => (chains.rules name).findSome? (chains.say packet (eval packet depth))

/-- Jumps from a chain nest at most so deep. -/
def bounded : Nat → κ → Bool
  | 0, _ => false
  | depth + 1, name => (chains.rules name).all fun rule =>
    match chains.branch rule with
    | some (.jump chain) => bounded depth chain
    | _ => true

variable {chains} {name : κ}

theorem bounded_of_self_jump {rule : σ} (member : rule ∈ chains.rules name)
    (jumps : chains.branch rule = some (.jump name)) (depth : Nat) :
    chains.bounded depth name = false := by
  induction depth with
  | zero => rfl
  | succ depth ih =>
    refine all_eq_false.mpr ⟨rule, member, ?_⟩
    simp [jumps, ih]

variable {depth : Nat}

theorem bounded_succ
    (behind : ∀ rule ∈ chains.rules name, ∀ chain, chains.branch rule = some (.jump chain) →
      chains.bounded depth chain = true) : chains.bounded (depth + 1) name = true := by
  refine all_eq_true.mpr fun rule member => ?_
  split
  · rename_i chain jumps
    exact behind rule member chain jumps
  · rfl

theorem bounded_of_jump {chain : κ} {rule : σ}
    (whole : chains.bounded (depth + 1) name = true) (member : rule ∈ chains.rules name)
    (jumps : chains.branch rule = some (.jump chain)) : chains.bounded depth chain = true := by
  have inside := all_eq_true.mp whole rule member
  simpa [jumps] using inside

end Chains

theorem findSome?_congr {α β : Type} {f g : α → Option β} {list : List α}
    (same : ∀ entry ∈ list, f entry = g entry) : list.findSome? f = list.findSome? g := by
  induction list with
  | nil => rfl
  | cons first rest ih =>
    rw [findSome?_cons, findSome?_cons, same first mem_cons_self,
      ih fun entry member => same entry (mem_cons_of_mem _ member)]

theorem findSome?_flatMap {α β γ : Type} (list : List α) (parts : α → List β) (f : β → Option γ) :
    (list.flatMap parts).findSome? f = list.findSome? fun entry => (parts entry).findSome? f := by
  induction list with
  | nil => rfl
  | cons first rest ih =>
    rw [flatMap_cons, findSome?_append, findSome?_cons, ih]
    cases (parts first).findSome? f <;> rfl

theorem findSome?_eq_of_split {α β : Type} {f : α → Option β} {before after : List α} {entry : α}
    {answer : β} (found : f entry = some answer)
    (agree : ∀ other ∈ before, f other = none ∨ f other = some answer) :
    (before ++ entry :: after).findSome? f = some answer := by
  induction before with
  | nil => simp [found]
  | cons first rest ih =>
    have rests := ih fun other member => agree other (mem_cons_of_mem _ member)
    rcases agree first mem_cons_self with silent | same
    · simpa [silent] using rests
    · simp [same]

theorem findSome?_ite {α β : Type} (list : List α) (holds : α → Bool) (f : α → β) :
    (list.findSome? fun entry => if holds entry then some (f entry) else none) =
      (list.find? holds).map f := by
  induction list with
  | nil => rfl
  | cons first rest ih =>
    rw [findSome?_cons, find?_cons]
    cases holds first <;> simp [ih]

theorem findSome?_filter {α β : Type} (list : List α) (among : α → Bool) (f : α → Option β) :
    (list.filter among).findSome? f =
      list.findSome? fun entry => if among entry then f entry else none := by
  induction list with
  | nil => rfl
  | cons first rest ih =>
    rw [filter_cons, findSome?_cons]
    cases among first <;> simp [ih, findSome?_cons]

theorem findSome?_of_sorted {α β κ : Type} [PartialOrder κ] [DecidableEq κ] {key : α → κ}
    {list : List α} (sorted : list.Pairwise fun a b => key a ≤ key b) {low high : κ}
    (order : low < high) (f g : α → Option β) :
    (list.findSome? fun entry =>
        if key entry = low then f entry else if key entry = high then g entry else none) =
      ((list.filter (key · = low)).findSome? f).or ((list.filter (key · = high)).findSome? g) := by
  induction list with
  | nil => rfl
  | cons first rest ih =>
    obtain ⟨above, rests⟩ := pairwise_cons.mp sorted
    rw [findSome?_cons, ih rests]
    by_cases isLow : key first = low
    · cases answer : f first <;> simp [isLow, answer, ne_of_lt order]
    by_cases isHigh : key first = high
    · have none_low : rest.filter (key · = low) = [] := by
        refine filter_eq_nil_iff.mpr fun entry member => ?_
        have bound := above entry member
        rw [isHigh] at bound
        simpa using ne_of_gt (lt_of_lt_of_le order bound)
      cases answer : g first <;> simp [isHigh, none_low, answer, ne_of_gt order]
    · simp [isLow, isHigh]

end Litevirt.Lib
