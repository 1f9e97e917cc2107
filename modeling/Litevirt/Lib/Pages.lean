import Mathlib

/-!
# Reading an ordered table in pages

A reader that keeps the last row it saw and asks for the next rows after it, a bounded
number at a time, sees every row once and in order.
-/

namespace Litevirt.Lib

open List

section Pages

variable {α : Type*} (after : α → α → Bool)

/-- The rows after the mark; all of them when there is none yet. -/
def rowsAfter (rows : List α) : Option α → List α
  | none => rows
  | some mark => rows.filter (after mark)

def pageAfter (limit : Nat) (rows : List α) (mark : Option α) : List α :=
  (rowsAfter after rows mark).take limit

variable {after}

theorem rowsAfter_seen (asymm : ∀ a b, after a b = true → after b a = false)
    {seen unseen : List α} (sorted : (seen ++ unseen).Pairwise fun a b => after a b = true) :
    rowsAfter after (seen ++ unseen) seen.getLast? = unseen := by
  obtain ⟨ordered, _, crossing⟩ := pairwise_append.mp sorted
  cases last : seen.getLast? with
  | none => simp [getLast?_eq_none_iff.mp last, rowsAfter]
  | some mark =>
    obtain ⟨front, rfl⟩ := getLast?_eq_some_iff.mp last
    have kept : unseen.filter (after mark) = unseen :=
      filter_eq_self.mpr fun row member => crossing mark (by simp) row member
    have dropped : (front ++ [mark]).filter (after mark) = [] := by
      refine filter_eq_nil_iff.mpr fun row member => ?_
      rcases mem_append.mp member with earlier | same
      · have before := (pairwise_append.mp ordered).2.2 row earlier mark (by simp)
        simp [asymm row mark before]
      obtain rfl := mem_singleton.mp same
      intro itself
      rw [asymm row row itself] at itself
      cases itself
    rw [rowsAfter, filter_append, dropped, kept, nil_append]

end Pages

end Litevirt.Lib
