import Mathlib

/-!
# Prefix codes

A code whose words are read off the front of a text in one way only, so that a list of words
strung together is determined by the text.  Writing the length of a word before it makes a prefix
code, as long as the headers have one width and are distinct; so does writing a mark after a
word, as long as no word holds the mark.
-/

namespace Litevirt.Lib

open List

variable {α β : Type*}

/-- A prefix code on the values that are `valid`. -/
structure PrefixCode (code : β → List α) (valid : β → Prop) : Prop where
  nonempty : ∀ value, code value ≠ []
  unique : ∀ {value other : β} {rest otherRest : List α}, valid value → valid other →
    code value ++ rest = code other ++ otherRest → value = other

namespace PrefixCode

variable {code : β → List α} {valid : β → Prop}

theorem cons (coded : PrefixCode code valid) {value other : β} {rest otherRest : List α}
    (validValue : valid value) (validOther : valid other)
    (same : code value ++ rest = code other ++ otherRest) : value = other ∧ rest = otherRest := by
  have equal := coded.unique validValue validOther same
  rw [equal] at same
  exact ⟨equal, append_cancel_left same⟩

theorem flatMap (coded : PrefixCode code valid) {values others : List β}
    (validValues : ∀ value ∈ values, valid value) (validOthers : ∀ other ∈ others, valid other)
    (same : values.flatMap code = others.flatMap code) : values = others := by
  induction values generalizing others with
  | nil =>
    cases others with
    | nil => rfl
    | cons other rest =>
      exact absurd (append_eq_nil_iff.mp same.symm).1 (coded.nonempty other)
  | cons value values ih =>
    cases others with
    | nil =>
      exact absurd (append_eq_nil_iff.mp same).1 (coded.nonempty value)
    | cons other others =>
      obtain ⟨rfl, rest⟩ := coded.cons (validValues value mem_cons_self)
        (validOthers other mem_cons_self) same
      rw [ih (fun v member => validValues v (mem_cons_of_mem _ member))
        (fun v member => validOthers v (mem_cons_of_mem _ member)) rest]

theorem lengthPrefixed (header : Nat → List α) (width bound : Nat) (wide : 0 < width)
    (header_length : ∀ n, (header n).length = width)
    (header_inj : ∀ {m n : Nat}, m < bound → n < bound → header m = header n → m = n) :
    PrefixCode (fun word : List α => header word.length ++ word)
      (fun word => word.length < bound) where
  nonempty word empty := by
    have none := congrArg List.length empty
    rw [length_append, header_length, length_nil] at none
    omega
  unique {word other rest otherRest} short otherShort same := by
    rw [append_assoc, append_assoc] at same
    obtain ⟨headers, bodies⟩ :=
      append_inj same ((header_length _).trans (header_length _).symm)
    exact (append_inj bodies (header_inj short otherShort headers)).1

theorem terminated (mark : α) :
    PrefixCode (fun word : List α => word ++ [mark]) (fun word => mark ∉ word) where
  nonempty word empty := by simp at empty
  unique {word other rest otherRest} clean otherClean same := by
    rw [append_assoc, append_assoc] at same
    rcases append_eq_append_iff.mp same with ⟨gap, rfl, rest⟩ | ⟨gap, rfl, rest⟩
    · cases gap with
      | nil => rw [append_nil]
      | cons first tail =>
        rw [cons_append, cons_append, List.cons.injEq] at rest
        exact absurd (by simp [rest.1]) otherClean
    cases gap with
    | nil => rw [append_nil]
    | cons first tail =>
      rw [cons_append, cons_append, List.cons.injEq] at rest
      exact absurd (by simp [rest.1]) clean

end PrefixCode

variable [DecidableEq α]

theorem count_terminated (mark : α) (words : List (List α)) :
    (words.flatMap (· ++ [mark])).count mark =
      words.length + (words.map (List.count mark)).sum := by
  induction words with
  | nil => rfl
  | cons word rest ih =>
    rw [flatMap_cons, count_append, count_append, count_singleton_self,
      length_cons, map_cons, sum_cons]
    omega

/-- As many words, each before a mark: when the words of one list are free of marks, the text
determines them, for the marks of the other list are then all at the ends of its words. -/
theorem terminated_inj {mark : α} {words others : List (List α)}
    (sameLength : words.length = others.length) (clean : ∀ word ∈ words, mark ∉ word)
    (same : words.flatMap (· ++ [mark]) = others.flatMap (· ++ [mark])) : words = others := by
  have counts := congrArg (List.count mark) same
  rw [count_terminated, count_terminated] at counts
  have none : (words.map (List.count mark)).sum = 0 :=
    sum_eq_zero fun count member => by
      obtain ⟨word, inWords, rfl⟩ := mem_map.mp member
      exact count_eq_zero.mpr (clean word inWords)
  have otherNone : (others.map (List.count mark)).sum = 0 := by omega
  have otherClean : ∀ other ∈ others, mark ∉ other := fun other member => by
    refine count_eq_zero.mp ?_
    exact sum_eq_zero_iff.mp otherNone _ (mem_map_of_mem member)
  exact (PrefixCode.terminated mark).flatMap clean otherClean same

end Litevirt.Lib
