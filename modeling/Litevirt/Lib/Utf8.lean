import Mathlib

/-!
# UTF-8

Byte strings read as UTF-8: the length of the character that a string starts with, valid strings,
and the repair that puts U+FFFD in the place of every byte that starts no character.
-/

namespace Litevirt.Lib.Utf8

/-- How many bytes follow a first byte. -/
def follow (first : UInt8) : Nat :=
  if 0xC2 ≤ first ∧ first ≤ 0xDF then 1
  else if 0xE0 ≤ first ∧ first ≤ 0xEF then 2
  else if 0xF0 ≤ first ∧ first ≤ 0xF4 then 3
  else 0

/-- The range of the second byte, which leaves out surrogates and overlong forms. -/
def accepts (first second : UInt8) : Bool :=
  (if first = 0xE0 then 0xA0 else if first = 0xF0 then 0x90 else 0x80) ≤ second &&
    second ≤ if first = 0xED then 0x9F else if first = 0xF4 then 0x8F else 0xBF

/-- The length of the character at the start of a string, zero when there is none. -/
def runeLength : List UInt8 → Nat
  | [] => 0
  | first :: rest =>
    let others := rest.take (follow first)
    if first < 0x80 then 1
    else if follow first = 0 ∨ others.length < follow first then 0
    else if others.head?.all (accepts first) && others.all (fun byte => 0x80 ≤ byte && byte ≤ 0xBF)
    then follow first + 1
    else 0

def runeError : List UInt8 := [0xEF, 0xBF, 0xBD]

/-- Whether a string is valid after so many bytes that belong to the character before. -/
def valid : Nat → List UInt8 → Bool
  | _, [] => true
  | behind + 1, _ :: rest => valid behind rest
  | 0, byte :: rest =>
    match runeLength (byte :: rest) with
    | 0 => false
    | length + 1 => valid length rest

/-- The repair of a string after so many bytes that belong to the character before. -/
def repair : Nat → List UInt8 → List UInt8
  | _, [] => []
  | behind + 1, byte :: rest => byte :: repair behind rest
  | 0, byte :: rest =>
    match runeLength (byte :: rest) with
    | 0 => runeError ++ repair 0 rest
    | length + 1 => byte :: repair length rest

theorem repair_eq_self_iff (behind : Nat) (s : List UInt8) :
    repair behind s = s ↔ valid behind s = true := by
  induction s generalizing behind with
  | nil => simp [repair, valid]
  | cons byte rest ih =>
    cases behind with
    | succ behind => simp [repair, valid, ih]
    | zero =>
      unfold repair valid
      split
      · rename_i none
        -- the replacement is itself a character
        simp only [Bool.false_eq_true, iff_false]
        rintro same
        obtain ⟨rfl, tail⟩ := List.cons.inj same
        rw [← tail] at none
        exact absurd none (by simp +decide [runeLength, follow, accepts])
      · simp [ih]

theorem valid_of_ascii {s : List UInt8} (ascii : s.all (· < 128) = true) : valid 0 s = true := by
  induction s with
  | nil => rfl
  | cons byte rest ih =>
    simp only [List.all_cons, Bool.and_eq_true, decide_eq_true_eq] at ascii
    simp only [valid, runeLength, ascii.1, ↓reduceIte]
    exact ih ascii.2

end Litevirt.Lib.Utf8
