import Mathlib

/-!
# Decimal digits of fixed width

Numbers written with a fixed number of digits.  The digits of a number that fits
read back as the number, and texts that begin with such digits compare as the
numbers do, and on equal numbers as what follows them.
-/

namespace Litevirt.Lib

open List

/-- The last `width` decimal digits of a number. -/
def pad : Nat → Nat → List UInt8
  | 0, _ => []
  | width + 1, n => pad width (n / 10) ++ [UInt8.ofNat (48 + n % 10)]

/-- The number of decimal digits; `fuel` bounds it. -/
def digitCount : Nat → Nat → Nat
  | 0, _ => 1
  | fuel + 1, n => if n < 10 then 1 else digitCount fuel (n / 10) + 1

/-- Zero-padded to a minimal width. -/
def padMin (width n : Nat) : List UInt8 := pad (max width (digitCount n n)) n

def isDigit (byte : UInt8) : Bool := decide (48 ≤ byte) && decide (byte ≤ 57)

def digitsValue (digits : List UInt8) : Nat :=
  digits.foldl (fun n byte => n * 10 + (byte.toNat - 48)) 0

@[simp] theorem length_pad (width n : Nat) : (pad width n).length = width := by
  induction width generalizing n with
  | zero => rfl
  | succ width ih => simp [pad, ih]

theorem toNat_digit (n : Nat) : (UInt8.ofNat (48 + n % 10)).toNat = 48 + n % 10 := by
  rw [UInt8.toNat_ofNat']
  omega

theorem isDigit_digit (n : Nat) : isDigit (UInt8.ofNat (48 + n % 10)) = true := by
  simp only [isDigit, UInt8.le_iff_toNat_le, toNat_digit, Bool.and_eq_true, decide_eq_true_eq]
  change 48 ≤ 48 + n % 10 ∧ 48 + n % 10 ≤ 57
  omega

theorem isDigit_of_mem_pad {width n : Nat} {byte : UInt8} (member : byte ∈ pad width n) :
    isDigit byte = true := by
  induction width generalizing n with
  | zero => cases member
  | succ width ih =>
    rcases mem_append.mp member with front | last
    · exact ih front
    · rw [mem_singleton.mp last]
      exact isDigit_digit n

theorem digitsValue_pad {width n : Nat} (fits : n < 10 ^ width) :
    digitsValue (pad width n) = n := by
  induction width generalizing n with
  | zero =>
    have : n = 0 := by simpa using fits
    rw [this]
    rfl
  | succ width ih =>
    have front : digitsValue (pad width (n / 10)) = n / 10 := by
      apply ih
      omega
    unfold digitsValue at front ⊢
    rw [pad, foldl_append, foldl_cons, foldl_nil, toNat_digit]
    omega

theorem digitCount_le {width n : Nat} (positive : 0 < width) (fits : n < 10 ^ width) (fuel : Nat) :
    digitCount fuel n ≤ width := by
  induction fuel generalizing n width with
  | zero => exact positive
  | succ fuel ih =>
    unfold digitCount
    split
    · exact positive
    obtain ⟨front, rfl⟩ := Nat.exists_eq_succ_of_ne_zero positive.ne'
    have room : 0 < front := by
      rcases Nat.eq_zero_or_pos front with rfl | room
      · omega
      · exact room
    have := ih room (show n / 10 < 10 ^ front by omega)
    omega

theorem lt_pow_digitCount {fuel n : Nat} (enough : n ≤ fuel) : n < 10 ^ digitCount fuel n := by
  induction fuel generalizing n with
  | zero =>
    rw [Nat.le_zero.mp enough]
    exact Nat.pow_pos (by decide)
  | succ fuel ih =>
    unfold digitCount
    split
    · omega
    · have := ih (show n / 10 ≤ fuel by omega)
      omega

theorem padMin_eq {width n : Nat} (positive : 0 < width) (fits : n < 10 ^ width) :
    padMin width n = pad width n := by
  rw [padMin, max_eq_left (digitCount_le positive fits n)]

def byteValues (text : List UInt8) : List ℕ := text.map UInt8.toNat

theorem byteValues_injective : Function.Injective byteValues :=
  map_injective_iff.mpr fun _ _ equal => UInt8.toNat_inj.mp equal

theorem byteValues_pad_lt {width m n : Nat} (fitsM : m < 10 ^ width) (fitsN : n < 10 ^ width)
    (restM restN : List UInt8) :
    byteValues (pad width m ++ restM) < byteValues (pad width n ++ restN) ↔
      m < n ∨ m = n ∧ byteValues restM < byteValues restN := by
  induction width generalizing m n restM restN with
  | zero =>
    have isZero : m = 0 := by simpa using fitsM
    have isZeroToo : n = 0 := by simpa using fitsN
    simp [isZero, isZeroToo, pad]
  | succ width ih =>
    rw [pad, pad, append_assoc, append_assoc, ih (by omega) (by omega)]
    simp only [byteValues, cons_append, nil_append, map_cons, toNat_digit,
      cons_lt_cons_iff]
    constructor
    · rintro (front | ⟨front, last | ⟨last, rest⟩⟩)
      · exact .inl (by omega)
      · exact .inl (by omega)
      · exact .inr ⟨by omega, rest⟩
    · rintro (less | ⟨rfl, rest⟩)
      · rcases Nat.lt_or_eq_of_le (show m / 10 ≤ n / 10 by omega) with front | front
        · exact .inl front
        · exact .inr ⟨front, .inl (by omega)⟩
      · exact .inr ⟨rfl, .inr ⟨rfl, rest⟩⟩

end Litevirt.Lib
