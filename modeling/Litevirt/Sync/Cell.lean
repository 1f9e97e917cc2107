import Litevirt.Sync.Order

/-!
# Cells of replicated rows

The dynamic values that a row is read as, and their texts: `coerceString`, which the tie rules
compare, and the order-invariant encoding `encodeRowCellsV2`.  A double that is an integer below
2^53 is kept as that integer; Go's formatting of the others is a parameter.
-/

namespace Litevirt.Sync

open Litevirt.Lib Litevirt.Hlc List

inductive Double where
  /-- An integer below 2^53 in size. -/
  | whole (n : Int)
  | other (bits : UInt64)
  deriving DecidableEq, Repr

/-- Go's `strconv` and `encoding/json` on values the model does not write out. -/
class GoValues where
  /-- `strconv.FormatFloat(f, 'g', -1, 64)`. -/
  formatG : UInt64 → Bytes
  /-- The plain decimal of an integral double and the shortest form of another one. -/
  plain : UInt64 → Bytes
  /-- The double nearest to an integer of 2^53 or more in size. -/
  nearest : Int64 → UInt64
  /-- A string that is not ASCII, encoded and decoded. -/
  recoded : Bytes → Bytes

/-- A value of a row: a SQL column's, or an element of a decoded dump. -/
inductive Cell where
  | null
  | int (n : Int64)
  | float (x : Double)
  | text (s : Bytes)
  | blob (s : Bytes)
  deriving DecidableEq, Repr

/-- `strconv.FormatInt(n, 10)`. -/
def formatInt (n : Int) : Bytes :=
  if n < 0 then 45 :: padMin 1 n.natAbs else padMin 1 n.natAbs

/-- `d.ddde+XX` of a positive integer: its digits without trailing zeros. -/
def exponentForm (n : Nat) : Bytes :=
  let digits := padMin 1 n
  let significant := (digits.reverse.dropWhile (· == 48)).reverse
  let exponent := [101, 43] ++ padMin 2 (digits.length - 1)
  match significant with
  | [] => exponent
  | [first] => first :: exponent
  | first :: rest => first :: 46 :: (rest ++ exponent)

/-- `fmt.Sprintf("%v", f)` of a double. -/
def formatV [GoValues] : Double → Bytes
  | .whole n =>
    if n.natAbs < 1000000 then formatInt n
    else if n < 0 then 45 :: exponentForm n.natAbs
    else exponentForm n.natAbs
  | .other bits => GoValues.formatG bits

def coerceString [GoValues] : Cell → Bytes
  | .null => []
  | .text s => s
  | .blob s => s
  | .int n => formatInt n.toInt
  | .float x => formatV x

/-- `canonicalCellValue` of a value that is not nil; every double is finite. -/
def canonicalCellValue [GoValues] : Cell → Bytes
  | .null => []
  | .text s => s
  | .blob s => s
  | .int n => formatInt n.toInt
  | .float (.whole n) => formatInt n
  | .float (.other bits) => GoValues.plain bits

/-- `json.Marshal` and `json.Unmarshal` of a scanned value, with bytes read as a string. -/
def jsonRoundTrip [GoValues] : Cell → Cell
  | .null => .null
  | .int n =>
    .float (if n.toInt.natAbs < 2 ^ 53 then .whole n.toInt else .other (GoValues.nearest n))
  | .float x => .float x
  | .text s => .text (if s.all (· < 128) then s else GoValues.recoded s)
  | .blob s => .text (if s.all (· < 128) then s else GoValues.recoded s)

abbrev Column := Bytes

def encodeCell [GoValues] : Cell → Bytes
  | .null => [78, 59]
  | cell =>
    86 :: (padMin 1 (canonicalCellValue cell).length ++ 58 :: canonicalCellValue cell)

def encodePair [GoValues] (pair : Column × Cell) : Bytes :=
  padMin 1 pair.1.length ++ 58 :: (pair.1 ++ 61 :: encodeCell pair.2)

def NameLE (a b : Column × Cell) : Prop := ¬ byteValues b.1 < byteValues a.1

instance : DecidableRel NameLE := fun a b =>
  inferInstanceAs (Decidable (¬ byteValues b.1 < byteValues a.1))

/-- `encodeRowCellsV2`; `none` is its error. -/
def encodeRowCellsV2 [GoValues] (cols : List Column) (vals : List Cell) : Option Bytes :=
  if cols.length ≠ vals.length then none
  else if ¬ cols.Nodup then none
  else some (((cols.zip vals).insertionSort NameLE).flatMap encodePair)

instance : Std.Total NameLE :=
  ⟨fun a b => by
    unfold NameLE
    rcases lt_or_ge (byteValues a.1) (byteValues b.1) with below | above
    · exact .inl (not_lt.mpr below.le)
    · exact .inr (not_lt.mpr above)⟩

instance : IsTrans (Column × Cell) NameLE :=
  ⟨fun a b c ab bc => by
    unfold NameLE at *
    exact not_lt.mpr ((not_lt.mp ab).trans (not_lt.mp bc))⟩

theorem zip_map_row (row : Column → Cell) (cols : List Column) :
    cols.zip (cols.map row) = cols.map fun name => (name, row name) := by
  induction cols with
  | nil => rfl
  | cons name rest ih => simp [ih]

theorem digitsValue_padMin (width n : Nat) : digitsValue (padMin width n) = n :=
  digitsValue_pad (Nat.lt_of_lt_of_le (lt_pow_digitCount (Nat.le_refl _))
    (Nat.pow_le_pow_right (by decide) (Nat.le_max_right _ _)))

theorem digits_colon_inj {ds es x y : Bytes} (digitsD : ∀ byte ∈ ds, isDigit byte = true)
    (digitsE : ∀ byte ∈ es, isDigit byte = true) (same : ds ++ 58 :: x = es ++ 58 :: y) :
    ds = es ∧ x = y := by
  have colon : isDigit 58 = false := by decide
  induction ds generalizing es with
  | nil =>
    cases es with
    | nil => exact ⟨rfl, List.cons.inj same |>.2⟩
    | cons e rest =>
      have head := (List.cons.inj same).1
      rw [head, digitsE e mem_cons_self] at colon
      cases colon
  | cons d rest ih =>
    cases es with
    | nil =>
      have head := (List.cons.inj same).1
      rw [← head, digitsD d mem_cons_self] at colon
      cases colon
    | cons e others =>
      obtain ⟨head, tail⟩ := List.cons.inj same
      obtain ⟨equal, rests⟩ := ih (fun byte member => digitsD byte (mem_cons_of_mem _ member))
        (fun byte member => digitsE byte (mem_cons_of_mem _ member)) tail
      exact ⟨by rw [head, equal], rests⟩

def cellValue [GoValues] : Cell → Option Bytes
  | .null => none
  | cell => some (canonicalCellValue cell)

theorem encodeCell_eq [GoValues] (cell : Cell) :
    encodeCell cell = match cellValue cell with
      | none => [78, 59]
      | some value => 86 :: (padMin 1 value.length ++ 58 :: value) := by
  cases cell <;> rfl

theorem prefixed_inj {a b rest rest' : Bytes}
    (same : padMin 1 a.length ++ 58 :: (a ++ rest) = padMin 1 b.length ++ 58 :: (b ++ rest')) :
    a = b ∧ rest = rest' := by
  obtain ⟨lengths, values⟩ := digits_colon_inj (fun _ => isDigit_of_mem_pad)
    (fun _ => isDigit_of_mem_pad) same
  have length : digitsValue (padMin 1 a.length) = digitsValue (padMin 1 b.length) :=
    congrArg digitsValue lengths
  rw [digitsValue_padMin, digitsValue_padMin] at length
  exact append_inj values length

theorem encodeCell_inj [GoValues] {c c' : Cell} {rest rest' : Bytes}
    (same : encodeCell c ++ rest = encodeCell c' ++ rest') :
    cellValue c = cellValue c' ∧ rest = rest' := by
  rw [encodeCell_eq, encodeCell_eq] at same
  cases left : cellValue c <;> cases right : cellValue c' <;>
    simp only [left, right, cons_append, append_assoc, nil_append, cons.injEq,
      true_and] at same
  · exact ⟨rfl, same⟩
  · exact absurd same.1 (by decide)
  · exact absurd same.1 (by decide)
  · exact (prefixed_inj same).imp_left (congrArg some)

/-- A column of a row and what its cell holds: null or a canonical text. -/
def entry [GoValues] (pair : Column × Cell) : Column × Option Bytes := (pair.1, cellValue pair.2)

def content [GoValues] (cols : List Column) (vals : List Cell) : List (Column × Option Bytes) :=
  (cols.zip vals).map entry

theorem flatMap_encodePair_inj [GoValues] {pairs pairs' : List (Column × Cell)} :
    pairs.flatMap encodePair = pairs'.flatMap encodePair ↔ pairs.map entry = pairs'.map entry := by
  constructor
  · intro same
    induction pairs generalizing pairs' with
    | nil => cases pairs' with
      | nil => rfl
      | cons pair rest => simp [encodePair] at same
    | cons pair rest ih => cases pairs' with
      | nil => simp [encodePair] at same
      | cons pair' rest' =>
        simp only [flatMap_cons, encodePair, append_assoc, cons_append] at same
        obtain ⟨names, cells⟩ := prefixed_inj same
        obtain ⟨values, tail⟩ := encodeCell_inj (List.cons.inj cells).2
        rw [map_cons, map_cons, ih tail, entry, entry, names, values]
  · have through (pairs : List (Column × Cell)) : pairs.flatMap encodePair =
        (pairs.map entry).flatMap fun held => padMin 1 held.1.length ++ 58 :: (held.1 ++ 61 ::
          match held.2 with
          | none => [78, 59]
          | some value => 86 :: (padMin 1 value.length ++ 58 :: value)) := by
      rw [flatMap_map]
      exact flatMap_congr fun pair _ => by rw [encodePair, encodeCell_eq]; rfl
    intro same
    rw [through, through, same]

theorem encodeRowCellsV2_eq_some [GoValues] {cols : List Column} {vals : List Cell}
    {bytes : Bytes} : encodeRowCellsV2 cols vals = some bytes ↔ cols.length = vals.length ∧
      cols.Nodup ∧ ((cols.zip vals).insertionSort NameLE).flatMap encodePair = bytes := by
  unfold encodeRowCellsV2
  split <;> [skip; split] <;> simp_all

/-- Rows have equal encodings exactly when their columns hold the same. -/
theorem encodeRowCellsV2_inj [GoValues] {cols cols' : List Column} {vals vals' : List Cell}
    {bytes bytes' : Bytes} (first : encodeRowCellsV2 cols vals = some bytes)
    (second : encodeRowCellsV2 cols' vals' = some bytes') :
    bytes = bytes' ↔ ∀ held, held ∈ content cols vals ↔ held ∈ content cols' vals' := by
  obtain ⟨length, distinct, rfl⟩ := encodeRowCellsV2_eq_some.mp first
  obtain ⟨length', distinct', rfl⟩ := encodeRowCellsV2_eq_some.mp second
  have sorted (cols : List Column) (vals : List Cell) :
      (((cols.zip vals).insertionSort NameLE).map entry).Perm (content cols vals) :=
    (perm_insertionSort NameLE _).map entry
  have names {cols : List Column} {vals : List Cell} (length : cols.length = vals.length)
      (distinct : cols.Nodup) : ((content cols vals).map Prod.fst).Nodup := by
    rw [content, map_map]
    exact (map_fst_zip length.le).symm ▸ distinct
  rw [flatMap_encodePair_inj]
  constructor
  · intro same held
    rw [← (sorted cols vals).mem_iff, same, (sorted cols' vals').mem_iff]
  intro same
  have perm := (perm_ext_iff_of_nodup (names length distinct).of_map
    (names length' distinct').of_map).mpr same
  have ordered (pairs : List (Column × Cell)) : ((pairs.insertionSort NameLE).map entry).Pairwise
      fun a b => ¬ byteValues b.1 < byteValues a.1 :=
    pairwise_map.mpr (pairwise_insertionSort NameLE _)
  refine Perm.eq_of_pairwise ?_ (ordered _) (ordered _)
    (((sorted cols vals).trans perm).trans (sorted cols' vals').symm)
  intro a b memberA memberB notAbove notBelow
  refine inj_on_of_nodup_map (names length distinct) ((sorted cols vals).mem_iff.mp memberA)
    (perm.mem_iff.mpr ((sorted cols' vals').mem_iff.mp memberB)) ?_
  exact byteValues_injective (le_antisymm (not_lt.mp notAbove) (not_lt.mp notBelow))

theorem encodeRowCellsV2_perm [GoValues] {cols cols' : List Column} (row : Column → Cell)
    (perm : cols.Perm cols') :
    encodeRowCellsV2 cols (cols.map row) = encodeRowCellsV2 cols' (cols'.map row) := by
  by_cases distinct : cols.Nodup
  · have encoded {cols : List Column} (distinct : cols.Nodup) :
        encodeRowCellsV2 cols (cols.map row) = some _ :=
      encodeRowCellsV2_eq_some.mpr ⟨(length_map _).symm, distinct, rfl⟩
    have distinct' := perm.nodup_iff.mp distinct
    rw [encoded distinct, encoded distinct', Option.some.injEq,
      encodeRowCellsV2_inj (encoded distinct) (encoded distinct')]
    simp [content, zip_map_row, perm.mem_iff]
  · simp [encodeRowCellsV2, distinct, perm.nodup_iff.not.mp distinct]

/-- The white space of Go's `unicode.IsSpace` in UTF-8. -/
def spaces : List Bytes :=
  [[9], [10], [11], [12], [13], [32], [0xC2, 0x85], [0xC2, 0xA0], [0xE1, 0x9A, 0x80]] ++
    ((List.range 11).map fun i => [0xE2, 0x80, 0x80 + UInt8.ofNat i]) ++
    [[0xE2, 0x80, 0xA8], [0xE2, 0x80, 0xA9], [0xE2, 0x80, 0xAF], [0xE2, 0x81, 0x9F],
      [0xE3, 0x80, 0x80]]

/-- Drop leading occurrences of the patterns; `fuel` bounds their number. -/
def dropPatterns (patterns : List Bytes) : Nat → Bytes → Bytes
  | 0, s => s
  | fuel + 1, s =>
    match patterns.find? fun pattern => pattern.isPrefixOf s with
    | none => s
    | some pattern => dropPatterns patterns fuel (s.drop pattern.length)

def trimSpace (s : Bytes) : Bytes :=
  let front := dropPatterns spaces s.length s
  (dropPatterns (spaces.map List.reverse) front.length front.reverse).reverse

def printable (byte : UInt8) : Bool := decide (32 < byte) && decide (byte < 128)

variable {s : Bytes}

theorem dropPatterns_printable {patterns : List Bytes}
    (marked : ∀ pattern ∈ patterns, pattern.head?.any (fun first => !printable first) = true)
    (solid : ∀ byte ∈ s, printable byte = true) (fuel : Nat) :
    dropPatterns patterns fuel s = s := by
  cases fuel with
  | zero => rfl
  | succ fuel =>
    have none : patterns.find? (fun pattern => pattern.isPrefixOf s) = none := by
      rw [find?_eq_none]
      intro pattern member starts
      have blank := marked pattern member
      cases pattern with
      | nil => simp at blank
      | cons first rest =>
        cases s with
        | nil => simp at starts
        | cons head tail =>
          simp only [isPrefixOf_cons_cons, Bool.and_eq_true, beq_iff_eq] at starts
          simp [starts.1, solid head mem_cons_self] at blank
    simp [dropPatterns, none]

theorem trimSpace_printable (solid : ∀ byte ∈ s, printable byte = true) :
    trimSpace s = s := by
  unfold trimSpace
  simp only
  rw [dropPatterns_printable (by decide) solid, dropPatterns_printable (by decide),
    reverse_reverse]
  intro byte member
  exact solid byte (mem_reverse.mp member)

variable {byte : UInt8}

theorem printable_of_isDigit (digit : isDigit byte = true) :
    printable byte = true := by
  simp only [isDigit, Bool.and_eq_true, decide_eq_true_eq, UInt8.le_iff_toNat_le] at digit
  simp only [printable, Bool.and_eq_true, decide_eq_true_eq, UInt8.lt_iff_toNat_lt]
  have lower : (48 : UInt8).toNat = 48 := rfl
  have upper : (57 : UInt8).toNat = 57 := rfl
  have space : (32 : UInt8).toNat = 32 := rfl
  have ascii : (128 : UInt8).toNat = 128 := rfl
  omega

theorem isDigit_of_mem_padMin {width n : Nat} (member : byte ∈ padMin width n) :
    isDigit byte = true := isDigit_of_mem_pad member

theorem printable_formatInt (n : Int) : ∀ byte ∈ formatInt n, printable byte = true := by
  intro byte member
  unfold formatInt at member
  split at member
  · rcases mem_cons.mp member with rfl | digit
    · decide
    · exact printable_of_isDigit (isDigit_of_mem_padMin digit)
  · exact printable_of_isDigit (isDigit_of_mem_padMin member)

theorem parseInt_formatInt {n : Int} (fits : n.natAbs < 2 ^ 63) :
    parseInt 64 (formatInt n) = some n := by
  have width : n.natAbs < 10 ^ max 1 (digitCount n.natAbs n.natAbs) :=
    Nat.lt_of_lt_of_le (lt_pow_digitCount (Nat.le_refl _))
      (Nat.pow_le_pow_right (by decide) (Nat.le_max_right _ _))
  unfold formatInt
  split
  · have digits : parseUint 64 (padMin 1 n.natAbs) = some n.natAbs :=
      parseUint_pad (by omega) width (by omega)
    have within : ¬ 2 ^ (64 - 1) < n.natAbs := by omega
    have negated : -(n.natAbs : Int) = n := by omega
    simp only [parseInt, beq_self_eq_true, Bool.or_true, if_true, digits, Option.bind_some, within,
      Bool.not_true, Bool.false_and, decide_false, Bool.and_false, Bool.or_self, Bool.false_eq_true,
      if_false, negated]
  · rw [padMin, parseInt_pad (by omega) width (by omega) (by omega)]
    congr 1
    omega

theorem parseUint_of_mem_not_digit (member : byte ∈ s)
    (noDigit : isDigit byte = false) : parseUint 64 s = none := by
  have stops : ∀ acc, s.foldlM digitStep acc = none := by
    induction s with
    | nil => cases member
    | cons head tail ih =>
      intro acc
      rw [foldlM_cons]
      rcases mem_cons.mp member with rfl | later
      · have stop : digitStep acc byte = none := by
          simpa [digitStep, isDigit] using noDigit
        rw [stop]
        rfl
      · cases digitStep acc head with
        | none => rfl
        | some next => exact ih later next
  unfold parseUint
  split
  · rfl
  · rw [stops]
    rfl

theorem parseInt_exponent (exponent : 101 ∈ s) : parseInt 64 s = none := by
  cases s with
  | nil => rfl
  | cons first rest =>
    -- the exponent letter is no sign, so it is among the digits
    have among : 101 ∈ (if first == 43 || first == 45 then rest else first :: rest) := by
      split
      · rename_i sign
        rcases mem_cons.mp exponent with rfl | later
        · exact absurd sign (by decide)
        · exact later
      · exact exponent
    simp only [parseInt, parseUint_of_mem_not_digit among (by decide), Option.bind_none]

theorem mem_exponentForm (n : Nat) : 101 ∈ exponentForm n := by
  unfold exponentForm
  simp only
  split <;> simp

theorem printable_exponentForm (n : Nat) : ∀ byte ∈ exponentForm n, printable byte = true := by
  have exponent : ∀ byte ∈ [101, 43] ++ padMin 2 ((padMin 1 n).length - 1),
      printable byte = true := by
    intro byte member
    rcases mem_append.mp member with marks | digits
    · rcases mem_pair.mp marks with rfl | rfl <;> decide
    · exact printable_of_isDigit (isDigit_of_mem_padMin digits)
  have digits : ∀ byte ∈ ((padMin 1 n).reverse.dropWhile (· == 48)).reverse,
      printable byte = true := by
    intro byte member
    have inDigits := (dropWhile_suffix _).mem (mem_reverse.mp member)
    exact printable_of_isDigit (isDigit_of_mem_padMin (mem_reverse.mp inDigits))
  intro byte member
  unfold exponentForm at member
  simp only at member
  generalize ((padMin 1 n).reverse.dropWhile (· == 48)).reverse = significant at digits member
  split at member
  · exact exponent byte member
  · rcases mem_cons.mp member with rfl | later
    · exact digits _ mem_cons_self
    · exact exponent byte later
  · rcases mem_cons.mp member with rfl | member
    · exact digits _ mem_cons_self
    rcases mem_cons.mp member with rfl | member
    · decide
    · rcases mem_append.mp member with front | back
      · exact digits _ (mem_cons_of_mem _ front)
      · exact exponent byte back

/-- The integer that a tie rule reads from a cell's text. -/
def counterOf [GoValues] (cell : Cell) : Option Int := parseInt 64 (trimSpace (coerceString cell))

theorem counterOf_whole [GoValues] (n : Int) :
    counterOf (.float (.whole n)) = if n.natAbs < 1000000 then some n else none := by
  simp only [counterOf, coerceString, formatV]
  split
  · rw [trimSpace_printable (printable_formatInt n), parseInt_formatInt (by omega)]
  split
  · rw [trimSpace_printable, parseInt_exponent (mem_cons_of_mem _ (mem_exponentForm _))]
    intro byte member
    rcases mem_cons.mp member with rfl | later
    · decide
    · exact printable_exponentForm _ byte later
  · rw [trimSpace_printable (printable_exponentForm _), parseInt_exponent (mem_exponentForm _)]

end Litevirt.Sync
