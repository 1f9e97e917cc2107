import Mathlib

/-!
# Words of a text

A text is cut into words at separators; runs of separators leave no empty words.
-/

namespace Litevirt.Lib

variable {α : Type*} (sep : α → Bool)

def flushWord (pending : List α) : List (List α) := if pending = [] then [] else [pending]

def wordsFrom (pending : List α) : List α → List (List α)
  | [] => flushWord pending
  | c :: rest =>
    if sep c then flushWord pending ++ wordsFrom [] rest else wordsFrom (pending ++ [c]) rest

def words (text : List α) : List (List α) := wordsFrom sep [] text

variable {sep} {c : α}

theorem wordsFrom_append_sep (separates : sep c = true) (left right pending : List α) :
    wordsFrom sep pending (left ++ c :: right) = wordsFrom sep pending left ++ words sep right := by
  induction left generalizing pending with
  | nil => simp [wordsFrom, separates, words]
  | cons head tail ih =>
    simp only [List.cons_append, wordsFrom, ih]
    split
    · rw [List.append_assoc]
    · rfl

theorem words_append_sep (separates : sep c = true) (left right : List α) :
    words sep (left ++ c :: right) = words sep left ++ words sep right :=
  wordsFrom_append_sep separates left right []

@[simp] theorem words_nil : words sep ([] : List α) = [] := rfl

theorem words_cons_sep (separates : sep c = true) (text : List α) :
    words sep (c :: text) = words sep text := by
  simpa using words_append_sep separates [] text

theorem words_concat_sep (separates : sep c = true) (text : List α) :
    words sep (text ++ [c]) = words sep text := by
  simpa using words_append_sep separates text []

variable {p : α → Bool}

theorem words_dropWhile (only : ∀ c, p c = true → sep c = true) (text : List α) :
    words sep (text.dropWhile p) = words sep text := by
  induction text with
  | nil => rfl
  | cons head tail ih =>
    rw [List.dropWhile_cons]
    split
    · rename_i dropped
      rw [ih, words_cons_sep (only head dropped)]
    · rfl

theorem words_rdropWhile (only : ∀ c, p c = true → sep c = true) (text : List α) :
    words sep (text.rdropWhile p) = words sep text := by
  induction text using List.reverseRecOn with
  | nil => rfl
  | append_singleton front last ih =>
    rw [List.rdropWhile_concat]
    split
    · rename_i dropped
      rw [ih, words_concat_sep (only last dropped)]
    · rfl

def isSpace (c : Char) : Bool :=
  (9 ≤ c.toNat && c.toNat ≤ 13) || c = ' ' || c.toNat = 0x85 || c.toNat = 0xA0 ||
    c.toNat = 0x1680 || (0x2000 ≤ c.toNat && c.toNat ≤ 0x200a) || c.toNat = 0x2028 ||
    c.toNat = 0x2029 || c.toNat = 0x202f || c.toNat = 0x205f || c.toNat = 0x3000

def trimSpace (text : String) : String :=
  String.ofList ((text.toList.dropWhile isSpace).rdropWhile isSpace)

end Litevirt.Lib
