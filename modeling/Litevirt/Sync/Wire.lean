import Litevirt.Sync.Order

/-!
# Clock timestamps as texts

`Timestamp.String`, `Parse` and `After` of `internal/hlc/clock.go` together: which timestamps the
text keeps, which texts `Parse` accepts without giving them back, and how texts compare.
-/

namespace Litevirt.Sync

open Litevirt.Lib Litevirt.Hlc List Option

variable {s : Bytes}

theorem pad_foldlM {n : Nat} (read : s.foldlM digitStep 0 = some n) :
    pad s.length n = s := by
  -- from the last digit, as the padding is written
  induction s using reverseRecOn generalizing n with
  | nil => rfl
  | append_singleton front byte ih =>
    rw [foldlM_append] at read
    obtain ⟨m, before, last⟩ := bind_eq_some_iff.mp read
    simp only [foldlM_cons, foldlM_nil, digitStep] at last
    split at last
    · rename_i digit
      obtain rfl : m * 10 + (byte.toNat - 48) = n := by simpa using last
      have lower : 48 ≤ byte.toNat := digit.1
      have upper : byte.toNat ≤ 57 := digit.2
      have quotient : (m * 10 + (byte.toNat - 48)) / 10 = m := by omega
      have remainder : 48 + (m * 10 + (byte.toNat - 48)) % 10 = byte.toNat := by omega
      rw [length_append, length_singleton, pad, quotient, remainder, ih before,
        UInt8.ofNat_toNat]
    · simp at last

theorem pad_parseUint {bitSize n : Nat} (parsed : parseUint bitSize s = some n) :
    pad s.length n = s := by
  unfold parseUint at parsed
  split at parsed
  · cases parsed
  obtain ⟨m, read, ranged⟩ := bind_eq_some_iff.mp parsed
  split at ranged
  · cases ranged
    exact pad_foldlM read
  · cases ranged

variable {first : UInt8} {rest : Bytes}

theorem pad_ne_cons {width n : Nat}
    (noDigit : isDigit first = false) : pad width n ≠ first :: rest := by
  intro same
  have digit : isDigit first = true := isDigit_of_mem_pad (by rw [same]; exact mem_cons_self)
  rw [noDigit] at digit
  cases digit

/-- A text that `Parse` reads without losing its sign: no plus, and no minus before zeros. -/
def SignKept (s : Bytes) : Prop := s.head? ≠ some 43 ∧ s.take 13 ≠ 45 :: replicate 12 48

instance (s : Bytes) : Decidable (SignKept s) := inferInstanceAs (Decidable (_ ∧ _))

/-- The texts that `ParseInt` reads: a plus, a minus or no sign before the digits. -/
theorem parseInt_forms {bitSize : Nat} {n : Int}
    (parsed : parseInt bitSize (first :: rest) = some n) :
    ∃ un : Nat, first = 43 ∧ parseUint bitSize rest = some un ∧ n = un ∨
      first = 45 ∧ parseUint bitSize rest = some un ∧ n = -un ∨
      first ≠ 43 ∧ first ≠ 45 ∧ parseUint bitSize (first :: rest) = some un ∧ n = un := by
  obtain ⟨un, digits, ranged⟩ := bind_eq_some_iff.mp parsed
  refine ⟨un, ?_⟩
  simp only at ranged
  split at ranged
  · cases ranged
  obtain rfl := some.inj ranged
  by_cases plus : first = 43
  · subst plus
    exact .inl ⟨rfl, digits, rfl⟩
  by_cases minus : first = 45
  · subst minus
    exact .inr (.inl ⟨rfl, digits, rfl⟩)
  · simp only [beq_iff_eq, plus, minus, Bool.or_eq_true, false_or, ↓reduceIte] at digits
    exact .inr (.inr ⟨plus, minus, digits, by simp [minus]⟩)

theorem zeroPadded_parseInt {n : Int} (long : s.length = 13) (parsed : parseInt 64 s = some n) :
    zeroPadded 13 n = s ↔ s.head? ≠ some 43 ∧ s ≠ 45 :: replicate 12 48 := by
  cases s with
  | nil => cases parsed
  | cons first rest =>
    have twelve : rest.length = 12 := by simpa using long
    obtain ⟨un, form⟩ := parseInt_forms parsed
    rcases form with ⟨rfl, digits, rfl⟩ | ⟨rfl, digits, rfl⟩ | ⟨plus, minus, digits, rfl⟩
    all_goals
      have below := parseUint_lt digits
      have written := pad_parseUint digits
    · rw [twelve] at below
      rw [zeroPadded, if_neg (by omega), padMin_eq (by decide) (by omega)]
      simp [pad_ne_cons (show isDigit 43 = false by decide)]
    · rw [twelve] at below written
      have zeros : pad 12 0 = replicate 12 48 := by decide
      rcases Nat.eq_zero_or_pos un with rfl | positive
      · rw [← written, ← zeros]
        simp [zeroPadded, padMin_eq, pad_ne_cons (show isDigit 45 = false by decide)]
      have kept : rest ≠ replicate 12 48 := by
        rw [← written, ← zeros]
        intro same
        have value := congrArg digitsValue same
        rw [digitsValue_pad below, digitsValue_pad (by decide)] at value
        omega
      rw [zeroPadded, if_pos (by omega), Int.natAbs_neg, Int.natAbs_natCast,
        padMin_eq (by decide) below, written]
      simpa using kept
    · rw [long] at below written
      rw [zeroPadded, Int.natAbs_natCast, padMin_eq (by decide) below, written]
      simp [plus, minus]

theorem drop_of_getElem? {k : Nat} {byte : UInt8} (there : s[k]? = some byte) :
    s.drop k = byte :: s.drop (k + 1) := by
  obtain ⟨bound, rfl⟩ := List.getElem?_eq_some_iff.mp there
  exact drop_eq_getElem_cons bound

theorem string_parse {t : Timestamp} (parsed : Hlc.parse s = some t) :
    string t = s ↔ SignKept s := by
  unfold Hlc.parse at parsed
  split at parsed
  · cases parsed
  split at parsed
  · cases parsed
  rename_i dashes
  obtain ⟨phys, physical, parsed⟩ := bind_eq_some_iff.mp parsed
  obtain ⟨logical, logicalParsed, parsed⟩ := bind_eq_some_iff.mp parsed
  simp only at parsed
  split at parsed
  · cases parsed
  cases parsed
  simp only [not_or, not_not] at dashes
  have layout : s = s.take 13 ++ 45 :: ((s.drop 14).take 4 ++ 45 :: s.drop 19) := by
    have later : s.drop 18 = (s.drop 14).drop 4 := by simp
    rw [← drop_of_getElem? dashes.2, later, take_append_drop, ← drop_of_getElem? dashes.1,
      take_append_drop]
  have physicalBound := parseInt_natAbs_lt physical
  have logicalBound := parseUint_lt logicalParsed
  have logicalText := pad_parseUint logicalParsed
  have four : ((s.drop 14).take 4).length = 4 := by
    rw [length_take, length_drop]
    omega
  have thirteen : (s.take 13).length = 13 := by
    rw [length_take]
    omega
  rw [four] at logicalBound logicalText
  rw [thirteen] at physicalBound
  rw [string, Int64.toInt_ofInt_of_le (by omega) (by omega), UInt16.toNat_ofNat',
    Nat.mod_eq_of_lt (by omega), padMin_eq (by decide) logicalBound, logicalText]
  nth_rewrite 3 [layout]
  rw [append_left_inj, zeroPadded_parseInt thirteen physical, SignKept, head?_take]
  simp

theorem byteValues_lt_iff {a b : Bytes} : byteValues a < byteValues b ↔ a < b := by
  induction a generalizing b with
  | nil => cases b <;> simp [byteValues]
  | cons x xs ih =>
    cases b with
    | nil => simp [byteValues]
    | cons y ys =>
      have heads := UInt8.toNat_inj (a := x) (b := y)
      simp only [byteValues, map_cons, cons_lt_cons_iff, UInt8.lt_iff_toNat_lt, heads] at ih ⊢
      rw [ih]

theorem Canonical.string_lt_iff (c d : Canonical) :
    byteValues (string c.timestamp) < byteValues (string d.timestamp) ↔
      d.timestamp.after c.timestamp = true := by
  have physicalC := c.physical
  have physicalD := d.physical
  have logicalC := c.logical
  have logicalD := d.logical
  have dash : ∀ a b : Bytes, byteValues (45 :: a) < byteValues (45 :: b) ↔
      byteValues a < byteValues b := by simp [byteValues]
  rw [c.string_eq, d.string_eq, wireText, wireText, byteValues_pad_lt (by omega) (by omega), dash,
    byteValues_pad_lt (by omega) (by omega), dash, byteValues_lt_iff]
  unfold Timestamp.after
  split
  · rename_i different
    have := Int64.toInt_inj.not.mpr different
    rw [decide_eq_true_iff, Int64.lt_iff_toInt_lt]
    omega
  rename_i same
  have physical := congrArg Int64.toInt (not_not.mp same)
  split
  · rename_i different
    have := UInt16.toNat_inj.not.mpr different
    rw [decide_eq_true_iff, UInt16.lt_iff_toNat_lt]
    omega
  · rename_i level
    rw [not_not.mp level, physical]
    simp

/-- Timestamps read back from their texts, a text that keeps its sign is the text of what is read
from it, and texts compare as `After` does. -/
theorem string_code (s : Bytes) (t : Timestamp) :
    (∀ c : Canonical, Hlc.parse (string c.timestamp) = some c.timestamp) ∧
      (Hlc.parse s = some t → (string t = s ↔ SignKept s)) ∧
      ∀ c d : Canonical, byteValues (string c.timestamp) < byteValues (string d.timestamp) ↔
        d.timestamp.after c.timestamp = true :=
  ⟨Canonical.parse_string, string_parse, Canonical.string_lt_iff⟩

theorem string_code_node1 : Hlc.parse (bytes "1710633600000-0003-node1") =
      some ⟨1710633600000, 3, bytes "node1"⟩ ∧
    string ⟨1710633600000, 3, bytes "node1"⟩ = bytes "1710633600000-0003-node1" :=
  ⟨by decide +kernel, ((string_code _ _).2.1 (by decide +kernel)).mpr (by decide +kernel)⟩

/-- `Parse` takes a plus sign for one of the thirteen digits. -/
theorem string_code_plus : Hlc.parse (bytes "+123456789012-0001-n") =
      some ⟨123456789012, 1, bytes "n"⟩ ∧
    string ⟨123456789012, 1, bytes "n"⟩ = bytes "0123456789012-0001-n" := by
  decide +kernel

end Litevirt.Sync
