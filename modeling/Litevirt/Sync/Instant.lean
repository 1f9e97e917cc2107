import Litevirt.Lib.Calendar
import Litevirt.Lib.Decimal
import Litevirt.Hlc.Timestamp

/-!
# Texts of row clocks

An `updated_at` cell is a hybrid logical clock timestamp or an RFC 3339 time.  Both are written
out with their parsers: `Timestamp.String` and `Parse` of `internal/hlc`, and Go's strict parser
for `time.RFC3339` with the layout `nowTSLayout`.  An instant is the nanoseconds since 1970-01-01
UTC.
-/

namespace Litevirt.Sync

open Litevirt.Lib Litevirt.Hlc List Option

/-- Go's generic layout parser, which `time.Parse` falls back to. -/
class GoLayout where
  lenient : Bytes → Option Int

def instantOf (d : Date) (hour minute second nanos : Int) : Int :=
  (((d.toDays * 24 + hour) * 60 + minute) * 60 + second) * 1000000000 + nanos

def slice (s : Bytes) (start length : Nat) : Bytes := (s.drop start).take length

/-- `parseUint` of `parseRFC3339`: digits within a range. -/
def fieldIn (low high : Nat) (s : Bytes) : Option Nat :=
  if s.all isDigit && decide (low ≤ digitsValue s) && decide (digitsValue s ≤ high) then
    some (digitsValue s)
  else none

/-- `parseNanoseconds`: nine digits count. -/
def parseNanoseconds (digits : Bytes) : Nat :=
  digitsValue (digits.take 9) * 10 ^ (9 - (digits.take 9).length)

/-- The fraction of a second and what follows it. -/
def readFraction : Bytes → Nat × Bytes
  | 46 :: first :: rest =>
    if isDigit first then
      (parseNanoseconds ((first :: rest).takeWhile isDigit), (first :: rest).dropWhile isDigit)
    else (0, 46 :: first :: rest)
  | rest => (0, rest)

/-- The seconds of a time zone: `Z`, or a sign with hours and minutes. -/
def zone (s : Bytes) : Option Int :=
  if s = [90] then some 0
  else if s.length = 6 ∧ (s[0]? = some 43 ∨ s[0]? = some 45) ∧ s[3]? = some 58 then do
    let hours ← fieldIn 0 23 (slice s 1 2)
    let minutes ← fieldIn 0 59 (slice s 4 2)
    let offset : Int := (hours * 60 + minutes) * 60
    some (if s[0]? = some 45 then -offset else offset)
  else none

def separated (s : Bytes) : Bool :=
  s[4]? = some 45 && s[7]? = some 45 && s[10]? = some 84 && s[13]? = some 58 && s[16]? = some 58

/-- `parseRFC3339` of Go's `time` package. -/
def parseRFC3339 (s : Bytes) : Option Int :=
  if s.length < 19 then none
  else do
    let year ← fieldIn 0 9999 (slice s 0 4)
    let month ← fieldIn 1 12 (slice s 5 2)
    let day ← fieldIn 1 (Date.daysIn month year) (slice s 8 2)
    let hour ← fieldIn 0 23 (slice s 11 2)
    let minute ← fieldIn 0 59 (slice s 14 2)
    let second ← fieldIn 0 59 (slice s 17 2)
    if separated s then do
      let (nanos, tail) := readFraction (s.drop 19)
      let offset ← zone tail
      some (instantOf ⟨year, month, day⟩ hour minute second nanos - offset * 1000000000)
    else none

def timeParse [GoLayout] (s : Bytes) : Option Int := (parseRFC3339 s).or (GoLayout.lenient s)

/-- An RFC 3339 text in UTC with a four-digit year. -/
structure Rfc3339 where
  year : Nat
  month : Nat
  day : Nat
  hour : Nat
  minute : Nat
  second : Nat
  /-- The digits after the decimal point, none when there is no fraction. -/
  fraction : Bytes
  fourDigits : year ≤ 9999
  date : Date.Valid ⟨year, month, day⟩
  time : hour ≤ 23 ∧ minute ≤ 59 ∧ second ≤ 59
  digits : ∀ byte ∈ fraction, isDigit byte = true
  deriving DecidableEq

namespace Rfc3339

def stem (r : Rfc3339) : Bytes :=
  pad 4 r.year ++ 45 :: (pad 2 r.month ++ 45 :: (pad 2 r.day ++ 84 :: (pad 2 r.hour ++
    58 :: (pad 2 r.minute ++ 58 :: pad 2 r.second))))

def text (r : Rfc3339) : Bytes :=
  r.stem ++ (if r.fraction = [] then [90] else 46 :: (r.fraction ++ [90]))

def instant (r : Rfc3339) : Int :=
  instantOf ⟨r.year, r.month, r.day⟩ r.hour r.minute r.second (parseNanoseconds r.fraction)

end Rfc3339

theorem fieldIn_pad {width low high n : Nat} (fits : n < 10 ^ width) (lower : low ≤ n)
    (upper : n ≤ high) : fieldIn low high (pad width n) = some n := by
  have digits : (pad width n).all isDigit = true :=
    all_eq_true.mpr fun byte member => isDigit_of_mem_pad member
  simp [fieldIn, digits, digitsValue_pad fits, lower, upper]

theorem takeWhile_isDigit {digits : Bytes} (all : ∀ byte ∈ digits, isDigit byte = true) :
    (digits ++ [90]).takeWhile isDigit = digits ∧ (digits ++ [90]).dropWhile isDigit = [90] := by
  have stops : isDigit 90 = false := by decide
  rw [takeWhile_append_of_pos all, dropWhile_append_of_pos all]
  simp [stops]

namespace Rfc3339

theorem length_stem (r : Rfc3339) : r.stem.length = 19 := by simp [stem]

theorem slices (r : Rfc3339) (rest : Bytes) :
    slice (r.stem ++ rest) 0 4 = pad 4 r.year ∧ slice (r.stem ++ rest) 5 2 = pad 2 r.month ∧
      slice (r.stem ++ rest) 8 2 = pad 2 r.day ∧ slice (r.stem ++ rest) 11 2 = pad 2 r.hour ∧
      slice (r.stem ++ rest) 14 2 = pad 2 r.minute ∧
      slice (r.stem ++ rest) 17 2 = pad 2 r.second := by
  simp [slice, stem, pad]

theorem separated_stem (r : Rfc3339) (rest : Bytes) : separated (r.stem ++ rest) = true := by
  simp [separated, stem, pad]

theorem readFraction_tail (r : Rfc3339) :
    readFraction (r.text.drop 19) = (parseNanoseconds r.fraction, [90]) := by
  have tail : r.text.drop 19 = if r.fraction = [] then [90] else 46 :: (r.fraction ++ [90]) := by
    rw [text, drop_append_of_le_length (by simp [length_stem]),
      drop_of_length_le (by simp [length_stem]), nil_append]
  rw [tail]
  cases digits : r.fraction with
  | nil => rfl
  | cons first rest =>
    have all := r.digits
    rw [digits] at all
    obtain ⟨taken, dropped⟩ := takeWhile_isDigit all
    rw [cons_append] at taken dropped
    simp [readFraction, all first mem_cons_self, taken, dropped]

theorem parse_text (r : Rfc3339) : parseRFC3339 r.text = some r.instant := by
  obtain ⟨year, month, day, hour, minute, second⟩ := r.slices
    (if r.fraction = [] then [90] else 46 :: (r.fraction ++ [90]))
  have separators := r.separated_stem
    (if r.fraction = [] then [90] else 46 :: (r.fraction ++ [90]))
  rw [← text] at year month day hour minute second separators
  have long : ¬ r.text.length < 19 := by simp [text, length_stem]
  have dayBound : r.day ≤ 31 := Nat.le_trans r.date.day.2 (Date.daysIn_le _ _)
  obtain ⟨hourLe, minuteLe, secondLe⟩ := r.time
  have monthLe := r.date.month.2
  have fourDigits := r.fourDigits
  unfold parseRFC3339
  rw [if_neg long, year, month, day, hour, minute, second,
    fieldIn_pad (by omega) (Nat.zero_le _) r.fourDigits,
    fieldIn_pad (Nat.lt_of_le_of_lt monthLe (by decide)) r.date.month.1 r.date.month.2]
  simp only [bind_eq_bind, bind_some]
  rw [fieldIn_pad (Nat.lt_of_le_of_lt dayBound (by decide)) r.date.day.1 r.date.day.2]
  rw [fieldIn_pad (by omega) (Nat.zero_le _) hourLe,
    fieldIn_pad (by omega) (Nat.zero_le _) minuteLe,
    fieldIn_pad (by omega) (Nat.zero_le _) secondLe]
  simp [separators, r.readFraction_tail, zone, instant]

theorem timeParse_text [GoLayout] (r : Rfc3339) : timeParse r.text = some r.instant := by
  rw [timeParse, parse_text, some_or]

theorem not_hlc (r : Rfc3339) : Hlc.parse r.text = none := by
  have colon : r.text[13]? = some 58 := by simp [text, stem, pad]
  simp [Hlc.parse, colon]

end Rfc3339

/-- `appendInt` of Go's `time` package at width four. -/
def appendYear (year : Int) : Bytes :=
  if year < 0 then 45 :: padMin 4 year.natAbs else padMin 4 year.natAbs

/-- `t.UTC().Format(nowTSLayout)`. -/
def formatTS (t : Int) : Bytes :=
  let date := Date.ofDays (t / 86400000000000)
  let second := (t / 1000000000 % 86400).toNat
  appendYear date.year ++ 45 :: (pad 2 date.month ++ 45 :: (pad 2 date.day ++
    84 :: (pad 2 (second / 3600) ++ 58 :: (pad 2 (second / 60 % 60) ++ 58 :: (pad 2 (second % 60) ++
      46 :: (pad 9 (t % 1000000000).toNat ++ [90]))))))

/-- The RFC 3339 text of an instant in a year of four digits. -/
def Rfc3339.ofInstant (t : Int) (lower : 0 ≤ (Date.ofDays (t / 86400000000000)).year)
    (upper : (Date.ofDays (t / 86400000000000)).year ≤ 9999) : Rfc3339 where
  year := (Date.ofDays (t / 86400000000000)).year.toNat
  month := (Date.ofDays (t / 86400000000000)).month
  day := (Date.ofDays (t / 86400000000000)).day
  hour := (t / 1000000000 % 86400).toNat / 3600
  minute := (t / 1000000000 % 86400).toNat / 60 % 60
  second := (t / 1000000000 % 86400).toNat % 60
  fraction := pad 9 (t % 1000000000).toNat
  fourDigits := by omega
  date := by
    rw [Int.toNat_of_nonneg lower]
    exact Date.ofDays_valid _
  time := by omega
  digits := fun _ member => isDigit_of_mem_pad member

theorem parseNanoseconds_pad {n : Nat} (fits : n < 10 ^ 9) : parseNanoseconds (pad 9 n) = n := by
  have whole : (pad 9 n).take 9 = pad 9 n := take_of_length_le (by simp)
  simp [parseNanoseconds, whole, digitsValue_pad fits]

theorem Rfc3339.instant_ofInstant {t : Int} {lower upper} :
    (Rfc3339.ofInstant t lower upper).instant = t := by
  have days := Date.toDays_ofDays (t / 86400000000000)
  have nanos := parseNanoseconds_pad (n := (t % 1000000000).toNat) (by omega)
  simp only [Rfc3339.instant, instantOf, Rfc3339.ofInstant, nanos, Int.toNat_of_nonneg lower]
  rw [show (⟨(Date.ofDays (t / 86400000000000)).year, (Date.ofDays (t / 86400000000000)).month,
    (Date.ofDays (t / 86400000000000)).day⟩ : Date) = Date.ofDays (t / 86400000000000) from rfl]
  omega

theorem Rfc3339.text_ofInstant {t : Int} {lower upper} :
    (Rfc3339.ofInstant t lower upper).text = formatTS t := by
  have year : appendYear (Date.ofDays (t / 86400000000000)).year =
      pad 4 (Date.ofDays (t / 86400000000000)).year.toNat := by
    rw [appendYear, if_neg (by omega), padMin_eq (by decide) (by omega)]
    congr 1
    omega
  have fractional : pad 9 (t % 1000000000).toNat ≠ [] := by
    intro empty
    have length := congrArg List.length empty
    simp at length
  simp [Rfc3339.text, Rfc3339.stem, Rfc3339.ofInstant, formatTS, year, fractional]

/-- `%0*d`: a sign counts towards the width. -/
def zeroPadded (width : Nat) (n : Int) : Bytes :=
  if n < 0 then 45 :: padMin (width - 1) n.natAbs else padMin width n.natAbs

def string (t : Timestamp) : Bytes :=
  zeroPadded 13 t.physicalMS.toInt ++ 45 :: (padMin 4 t.logical.toNat ++ 45 :: t.nodeID)

/-- A timestamp whose text has the wire layout: thirteen digits, four digits and a
node name. -/
structure Canonical where
  timestamp : Timestamp
  physical : 0 ≤ timestamp.physicalMS.toInt ∧ timestamp.physicalMS.toInt < 10 ^ 13
  logical : timestamp.logical.toNat ≤ 9999
  named : timestamp.nodeID ≠ []
  deriving DecidableEq

theorem foldlM_digitStep {s : Bytes} (digits : ∀ byte ∈ s, isDigit byte = true) (acc : Nat) :
    s.foldlM digitStep acc =
      some (s.foldl (fun sum byte => sum * 10 + (byte.toNat - 48)) acc) := by
  induction s generalizing acc with
  | nil => rfl
  | cons byte rest ih =>
    have isDigit := digits byte mem_cons_self
    have step : digitStep acc byte = some (acc * 10 + (byte.toNat - 48)) := by
      simpa [digitStep, Lib.isDigit] using isDigit
    rw [foldlM_cons, step]
    exact ih (fun later member => digits later (mem_cons_of_mem byte member)) _

theorem parseUint_pad {bitSize width n : Nat} (positive : 0 < width) (fits : n < 10 ^ width)
    (ranged : n < 2 ^ bitSize) : parseUint bitSize (pad width n) = some n := by
  have filled : pad width n ≠ [] := by
    intro empty
    have length := congrArg List.length empty
    rw [length_pad] at length
    exact absurd length (Nat.ne_of_gt positive)
  have value := digitsValue_pad fits
  unfold digitsValue at value
  rw [parseUint, if_neg filled, foldlM_digitStep fun _ member => isDigit_of_mem_pad member]
  simp [value, ranged]

theorem parseInt_pad {bitSize width n : Nat} (positive : 0 < width) (fits : n < 10 ^ width)
    (unsigned : n < 2 ^ bitSize) (ranged : n < 2 ^ (bitSize - 1)) :
    parseInt bitSize (pad width n) = some (n : Int) := by
  have parsed := parseUint_pad positive fits unsigned
  cases text : pad width n with
  | nil =>
    have length := congrArg List.length text
    rw [length_pad] at length
    exact absurd length (Nat.ne_of_gt positive)
  | cons first rest =>
    have digit : isDigit first = true :=
      isDigit_of_mem_pad (by rw [text]; exact mem_cons_self)
    have notMinus : first ≠ 45 := by rintro rfl; exact absurd digit (by decide)
    have notPlus : first ≠ 43 := by rintro rfl; exact absurd digit (by decide)
    rw [text] at parsed
    simp [parseInt, notMinus, notPlus, parsed, ranged]

def wireText (physical logical : Nat) (node : Bytes) : Bytes :=
  pad 13 physical ++ 45 :: (pad 4 logical ++ 45 :: node)

theorem wireText_parts (physical logical : Nat) (node : Bytes) :
    (wireText physical logical node)[13]? = some 45 ∧
      (wireText physical logical node)[18]? = some 45 ∧
      (wireText physical logical node).take 13 = pad 13 physical ∧
      ((wireText physical logical node).drop 14).take 4 = pad 4 logical ∧
      (wireText physical logical node).drop 19 = node := by
  simp [wireText, pad]

namespace Canonical

theorem string_eq (c : Canonical) :
    string c.timestamp = wireText c.timestamp.physicalMS.toInt.toNat c.timestamp.logical.toNat
      c.timestamp.nodeID := by
  have physical := c.physical
  have logical := c.logical
  rw [string, zeroPadded, if_neg (by omega), padMin_eq (by decide) (by omega),
    padMin_eq (by decide) (by omega)]
  congr 2
  omega

theorem parse_string (c : Canonical) : Hlc.parse (string c.timestamp) = some c.timestamp := by
  have physical := c.physical
  have logical := c.logical
  have nameLength := length_pos_of_ne_nil c.named
  have parsedPhysical : parseInt 64 (pad 13 c.timestamp.physicalMS.toInt.toNat) =
      some c.timestamp.physicalMS.toInt := by
    rw [parseInt_pad (by decide) (by omega) (by omega) (by omega)]
    congr 1
    omega
  have parsedLogical : parseUint 16 (pad 4 c.timestamp.logical.toNat) =
      some c.timestamp.logical.toNat := parseUint_pad (by decide) (by omega) (by omega)
  rw [string_eq]
  generalize text : wireText c.timestamp.physicalMS.toInt.toNat c.timestamp.logical.toNat
    c.timestamp.nodeID = s
  have long : ¬ s.length < 20 := by
    simp only [← text, wireText, length_append, length_pad, length_cons]
    omega
  obtain ⟨first, second, physicalText, logicalText, nodeText⟩ := wireText_parts
    c.timestamp.physicalMS.toInt.toNat c.timestamp.logical.toNat c.timestamp.nodeID
  rw [text] at first second physicalText logicalText nodeText
  rw [Hlc.parse, if_neg long, if_neg (by simp [first, second]), physicalText, logicalText, nodeText,
    parsedPhysical, parsedLogical]
  simp [c.named]

end Canonical

end Litevirt.Sync
