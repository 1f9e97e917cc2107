import Mathlib

/-!
# Hybrid logical clock timestamps

The timestamp record of `internal/hlc/clock.go`, its order and the parser of its wire format.  Go
strings are lists of bytes, and the decimal parsers are written out as far as `Parse` uses them.
-/

namespace Litevirt.Hlc

open Option

/-- A Go string. -/
abbrev Bytes := List UInt8

instance : LawfulBEq Bytes := inferInstance

def bytes (text : String) : Bytes := text.toUTF8.toList

/-- One step of the digit loop of `strconv.ParseUint` in base 10. -/
def digitStep (acc : Nat) (byte : UInt8) : Option Nat :=
  if 48 ≤ byte ∧ byte ≤ 57 then some (acc * 10 + (byte.toNat - 48)) else none

/-- `strconv.ParseUint(s, 10, bitSize)`; `none` is a syntax or a range error. -/
def parseUint (bitSize : Nat) (s : Bytes) : Option Nat :=
  if s = [] then none
  else (s.foldlM digitStep 0).bind fun n => if n < 2 ^ bitSize then some n else none

/-- `strconv.ParseInt(s, 10, bitSize)`: one optional sign, then digits. -/
def parseInt (bitSize : Nat) (s : Bytes) : Option Int :=
  match s with
  | [] => none
  | first :: rest =>
    let neg := first == 45
    let digits := if first == 43 || first == 45 then rest else s
    (parseUint bitSize digits).bind fun un =>
      let cutoff := 2 ^ (bitSize - 1)
      if (!neg && decide (cutoff ≤ un)) || (neg && decide (cutoff < un)) then none
      else some (if neg then -(un : Int) else un)

variable {s : Bytes}

theorem digits_lt {acc n : Nat} (parsed : s.foldlM digitStep acc = some n) :
    n < (acc + 1) * 10 ^ s.length := by
  induction s generalizing acc with
  | nil =>
    cases parsed
    simp
  | cons byte rest ih =>
    obtain ⟨next, digit, remaining⟩ := bind_eq_some_iff.mp parsed
    unfold digitStep at digit
    split at digit
    case isFalse => cases digit
    case isTrue isDigit =>
      cases digit
      have digitBound : byte.toNat ≤ 57 := isDigit.2
      calc n < (acc * 10 + (byte.toNat - 48) + 1) * 10 ^ rest.length := ih remaining
        _ ≤ ((acc + 1) * 10) * 10 ^ rest.length := Nat.mul_le_mul_right _ (by omega)
        _ = (acc + 1) * 10 ^ (byte :: rest).length := by
          rw [List.length_cons, Nat.pow_succ', Nat.mul_assoc]

variable {bitSize : Nat}

theorem parseUint_lt {n : Nat} (parsed : parseUint bitSize s = some n) : n < 10 ^ s.length := by
  unfold parseUint at parsed
  split at parsed
  · cases parsed
  obtain ⟨m, digits, fits⟩ := bind_eq_some_iff.mp parsed
  split at fits
  · cases fits
    simpa using digits_lt digits
  · cases fits

theorem parseInt_natAbs_lt {n : Int}
    (parsed : parseInt bitSize s = some n) : n.natAbs < 10 ^ s.length := by
  unfold parseInt at parsed
  split at parsed
  · cases parsed
  rename_i first rest
  obtain ⟨un, digits, ranged⟩ := bind_eq_some_iff.mp parsed
  have unBound : un < 10 ^ (first :: rest).length := by
    split at digits
    · exact Nat.lt_of_lt_of_le (parseUint_lt digits)
        (Nat.pow_le_pow_right (by decide) (by simp))
    · exact parseUint_lt digits
  simp only at ranged
  split at ranged
  · cases ranged
  · cases ranged
    split <;> simpa using unBound

structure Timestamp where
  physicalMS : Int64
  logical : UInt16
  nodeID : Bytes
  deriving DecidableEq, Repr

namespace Timestamp

/-- `Timestamp.After`: strictly after the other timestamp. -/
def after (t other : Timestamp) : Bool :=
  if t.physicalMS ≠ other.physicalMS then decide (other.physicalMS < t.physicalMS)
  else if t.logical ≠ other.logical then decide (other.logical < t.logical)
  else decide (other.nodeID < t.nodeID)

/-- The counter position of a timestamp: with a logical part of at most four
digits, position order is the order of the pairs (physical, logical). -/
def position (t : Timestamp) : Int := t.physicalMS.toInt * 10000 + t.logical.toNat

theorem after_of_position_lt {t other : Timestamp}
    (fits : t.logical.toNat ≤ 9999) (otherFits : other.logical.toNat ≤ 9999)
    (smaller : other.position < t.position) : t.after other = true := by
  unfold position at smaller
  unfold after
  split
  · rename_i different
    have := Int64.toInt_inj.not.mpr different
    rw [decide_eq_true_iff, Int64.lt_iff_toInt_lt]
    omega
  rename_i same
  have physical : t.physicalMS.toInt = other.physicalMS.toInt :=
    Int64.toInt_inj.mpr (not_not.mp same)
  have logical : other.logical.toNat < t.logical.toNat := by omega
  rw [if_pos (fun equal => by rw [equal] at logical; omega), decide_eq_true_iff]
  exact logical

end Timestamp

/-- `hlc.Parse`; `none` where the source returns `false`. -/
def parse (s : Bytes) : Option Timestamp :=
  if s.length < 20 then none
  else if s[13]? ≠ some 45 ∨ s[18]? ≠ some 45 then none
  else do
    let phys ← parseInt 64 (s.take 13)
    let logical ← parseUint 16 ((s.drop 14).take 4)
    let nodeID := s.drop 19
    if nodeID = [] then none
    else some ⟨Int64.ofInt phys, UInt16.ofNat logical, nodeID⟩

/-- A parsed timestamp has a four-digit logical part and a physical part of at
most thirteen digits. -/
theorem parse_bounds {t : Timestamp} (parsed : parse s = some t) :
    t.logical.toNat ≤ 9999 ∧ t.physicalMS.toInt.natAbs < 10 ^ 13 := by
  unfold parse at parsed
  split at parsed
  · cases parsed
  split at parsed
  · cases parsed
  obtain ⟨phys, physical, parsed⟩ := bind_eq_some_iff.mp parsed
  obtain ⟨logical, logicalParsed, parsed⟩ := bind_eq_some_iff.mp parsed
  simp only at parsed
  split at parsed
  · cases parsed
  cases parsed
  have physicalBound : phys.natAbs < 10 ^ 13 :=
    Nat.lt_of_lt_of_le (parseInt_natAbs_lt physical)
      (Nat.pow_le_pow_right (by decide) (List.length_take_le 13 s))
  have logicalBound : logical < 10 ^ 4 :=
    Nat.lt_of_lt_of_le (parseUint_lt logicalParsed)
      (Nat.pow_le_pow_right (by decide) (List.length_take_le 4 _))
  constructor
  · rw [UInt16.toNat_ofNat']
    omega
  · rw [Int64.toInt_ofInt_of_le (by omega) (by omega)]
    exact physicalBound

example :
    parse (bytes "1710633600000-0003-node1") = some ⟨1710633600000, 3, bytes "node1"⟩ := by
  decide +kernel

end Litevirt.Hlc
