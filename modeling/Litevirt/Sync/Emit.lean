import Litevirt.Hlc.Restart
import Litevirt.Sync.Order

/-!
# Emitting row clocks

`NowTS` of `internal/corrosion/client.go` returns the key of the next row write: a clock
timestamp while those are on, and otherwise an RFC 3339 time above the last one and above the
clock.  Each form has a high-water mark in `nowts.hwm`, stored ahead and loaded by the next
process.
-/

namespace Litevirt.Sync

open Litevirt.Lib Litevirt.Hlc Option

structure Marks where
  lww : Int
  hlcMS : Int64
  deriving DecidableEq, Repr

/-- Go's zero `time.Time`, the start of year 1. -/
def zeroTime : Int := -62135596800 * 1000000000

/-- What `load` returns for a file that does not exist. -/
def Marks.fresh : Marks := ⟨zeroTime, 0⟩

/-- Whether `parseHWM` accepts the marks it wrote: the layout has four digits for
the year, and a negative `hlc_ms` is refused. -/
def Marks.readable (m : Marks) : Bool :=
  decide (0 ≤ (Date.ofDays (m.lww / 86400000000000)).year) &&
    decide ((Date.ofDays (m.lww / 86400000000000)).year ≤ 9999) && decide (0 ≤ m.hlcMS)

/-- `hwmStore.load`; `none` is a corrupt file. -/
def load : Option Marks → Option Marks
  | none => some .fresh
  | some m => if m.readable then some m else none

/-- What `hwmStore.store` writes: marks never fall below a readable file's. -/
def mergeMarks (file : Option Marks) (m : Marks) : Marks :=
  match file.filter Marks.readable with
  | none => m
  | some cur =>
    ⟨if m.lww < cur.lww then cur.lww else m.lww,
      if m.hlcMS < cur.hlcMS then cur.hlcMS else m.hlcMS⟩

/-- How an attempt to store ends; it can fail after the file was replaced. -/
inductive Attempt where
  | stored
  | failed
  | replaced
  deriving DecidableEq, Repr

/-- The attempts of one call, up to the first that succeeds. -/
def storeRetrying (file : Option Marks) (m : Marks) : List Attempt → Option Marks × Bool
  | [] => (file, false)
  | .stored :: _ => (some (mergeMarks file m), true)
  | .failed :: rest => storeRetrying file m rest
  | .replaced :: rest => storeRetrying (some (mergeMarks file m)) m rest

def nowTSPersistRetries : Nat := 3

def nowTSPersistAhead : Int := 2000000000

/-- The clock fields of `Client`, with a data directory. -/
structure Client where
  lastTS : Int
  durableTS : Int
  durableHLCMS : Int64
  clock : Clock
  deriving DecidableEq, Repr

inductive Emitted where
  | hlc (timestamp : Timestamp)
  | rfc (instant : Int)
  deriving DecidableEq, Repr

def Emitted.time : Emitted → Option Int
  | .hlc _ => none
  | .rfc instant => some instant

def Emitted.text : Emitted → Bytes
  | .hlc timestamp => string timestamp
  | .rfc instant => formatTS instant

/-- What a call leaves: the file, and its key with the client unless it exited the process. -/
structure Served where
  file : Option Marks
  result : Option (Emitted × Client)
  deriving DecidableEq, Repr

def unixMilli (t : Int) : Int64 := Int64.ofInt (t / 1000000)

def ofMilli (ms : Int64) : Int := ms.toInt * 1000000

namespace Client

/-- `initClockPersistence` with the marks it loaded. -/
def init (nodeID : Bytes) (m : Marks) : Client :=
  ⟨m.lww, m.lww, m.hlcMS, (Clock.newClock nodeID).setPersistence m.hlcMS true true⟩

/-- `advanceDurableLWWLocked` with the rest of `NowWallTS`. -/
def advanceDurableLWWLocked (c : Client) (file : Option Marks) (t : Int)
    (attempts : Nat → Attempt) : Served :=
  let newCeil := t + nowTSPersistAhead
  match storeRetrying file ⟨newCeil, c.durableHLCMS⟩
      ((List.range nowTSPersistRetries).map attempts) with
  | (file, true) => ⟨file, some (.rfc t, { c with lastTS := t, durableTS := newCeil })⟩
  | (file, false) =>
    let t := if c.durableTS < t then c.durableTS else t
    if t ≤ c.lastTS then ⟨file, none⟩
    else ⟨file, some (.rfc t, { c with lastTS := t })⟩

def nowWallTS (c : Client) (file : Option Marks) (wall : Int) (attempts : Nat → Attempt) :
    Served :=
  let hlcFloor := ofMilli c.clock.lastPhys
  let t := if wall ≤ c.lastTS then c.lastTS + 1 else wall
  let t := if t ≤ hlcFloor then hlcFloor + 1 else t
  if c.durableTS < t then c.advanceDurableLWWLocked file t attempts
  else ⟨file, some (.rfc t, { c with lastTS := t })⟩

/-- The file after the clock's attempts at `persistHLCCeiling`. -/
def persistHLCCeiling (c : Client) (file : Option Marks) (counter : Clock)
    (attempts : Nat → Attempt) : Option Marks :=
  if counter.lastPhys ≤ counter.ceilMS then file
  else (storeRetrying file ⟨c.durableTS, counter.lastPhys + hlcPersistAheadMS⟩
    ((List.range hlcPersistRetries).map attempts)).1

/-- The branch of `NowTS` that returns `c.clock.Now().String()`. -/
def nowHLC (c : Client) (file : Option Marks) (wallMS : Int64) (attempts : Nat → Attempt) :
    Served :=
  ⟨c.persistHLCCeiling file (c.clock.advanceLocal wallMS).normalizeLogicalLocked attempts,
    (c.clock.now wallMS fun i => decide (attempts i = .stored)).map fun emission =>
      (.hlc emission.timestamp,
        { c with
          clock := emission.clock
          durableHLCMS := emission.committed.getD c.durableHLCMS })⟩

def nowTS (c : Client) (file : Option Marks) (hlcEmit : Bool) (wall : Int)
    (attempts : Nat → Attempt) : Served :=
  if hlcEmit then c.nowHLC file (unixMilli wall) attempts else c.nowWallTS file wall attempts

end Client

/-- A node with its file, the client of its running process and all its keys, newest first. -/
structure Emitter where
  nodeID : Bytes
  client : Option Client
  file : Option Marks
  emitted : List Emitted
  deriving DecidableEq, Repr

inductive EmitEvent where
  | nowTS (hlcEmit : Bool) (wall : Int) (attempts : Nat → Attempt)
  | crash
  /-- The process dies inside a call, before the key is used. -/
  | crashIn (hlcEmit : Bool) (wall : Int) (attempts : Nat → Attempt)
  | restart

namespace Emitter

def boot (nodeID : Bytes) : Emitter := ⟨nodeID, none, none, []⟩

def step (n : Emitter) : EmitEvent → Option Emitter
  | .nowTS hlcEmit wall attempts => do
      let client ← n.client
      let served := client.nowTS n.file hlcEmit wall attempts
      match served.result with
      | none => some { n with client := none, file := served.file }
      | some (key, client) =>
        some { n with client := some client, file := served.file, emitted := key :: n.emitted }
  | .crash => do
      let _ ← n.client
      some { n with client := none }
  | .crashIn hlcEmit wall attempts => do
      let client ← n.client
      some { n with client := none, file := (client.nowTS n.file hlcEmit wall attempts).file }
  | .restart =>
    match n.client with
    | some _ => none
    | none => (load n.file).map fun m => { n with client := some (.init n.nodeID m) }

/-- Every key is strictly newer than the keys before it. -/
def NeverRegresses [GoLayout] (n : Emitter) : Prop :=
  n.emitted.Pairwise fun later earlier => lwwOrder later.text earlier.text = .gt

/-- The first instant whose year has five digits. -/
def yearTenThousand : Int := 2932897 * 86400000000000

/-- A call stays within the formats: thirteen digits of milliseconds, and a mark
ahead of the time in a year of four digits. -/
def InFormat (c : Client) (hlcEmit : Bool) (wall : Int) : Prop :=
  if hlcEmit then max (unixMilli wall).toInt c.clock.lastPhys.toInt + 1 < 10 ^ 13
  else max wall (max c.lastTS (ofMilli c.clock.lastPhys)) + 1 + nowTSPersistAhead < yearTenThousand

instance (c : Client) (hlcEmit : Bool) (wall : Int) : Decidable (InFormat c hlcEmit wall) := by
  unfold InFormat
  infer_instance

/-- A call of a node with a name stays within the formats.  A clock timestamp is
asked for only when the wall or the clock has reached every RFC 3339 key; an RFC 3339 time
is asked for only when the file can be stored or the stored mark is past the clock.  A process
does not end while its clock holds a counter that climbed at the ceiling. -/
def Bridged (n : Emitter) : EmitEvent → Prop
  | .nowTS true wall attempts => ∀ c ∈ n.client, n.nodeID ≠ [] ∧ InFormat c true wall ∧
      (c.clock.OffCeiling ∨ ∃ i < hlcPersistRetries, attempts i = .stored) ∧
      ∀ t, .rfc t ∈ n.emitted →
        t ≤ max (unixMilli wall).toInt c.clock.lastPhys.toInt * 1000000
  | .nowTS false wall attempts => ∀ c ∈ n.client, InFormat c false wall ∧
      ((∃ i < nowTSPersistRetries, attempts i = .stored) ∨
        ofMilli c.clock.lastPhys < c.durableTS ∧
          (c.clock.OffCeiling ∨ c.lastTS < c.durableTS))
  | .crash => ∀ c ∈ n.client, c.clock.OffCeiling
  | .crashIn hlcEmit wall _ => ∀ c ∈ n.client, InFormat c hlcEmit wall ∧ c.clock.OffCeiling
  | .restart => True

instance decidableForallTime (keys : List Emitted) (p : Int → Prop) [DecidablePred p] :
    Decidable (∀ t, .rfc t ∈ keys → p t) :=
  decidable_of_iff (∀ key ∈ keys, ∀ t ∈ key.time, p t)
    ⟨fun holds t member => holds _ member t rfl, fun holds key member t isTime => by
      cases key with
      | hlc _ => cases isTime
      | rfc _ => exact Option.some.inj isTime ▸ holds _ member⟩

instance (n : Emitter) : (event : EmitEvent) → Decidable (Bridged n event)
  | .nowTS true .. | .nowTS false .. | .crash | .crashIn .. | .restart => by
    unfold Bridged
    infer_instance

end Emitter

namespace Emitted

/-- The key is in the format of its form. -/
def InFormat : Emitted → Prop
  | .hlc t => (0 ≤ t.physicalMS.toInt ∧ t.physicalMS.toInt < 10 ^ 13) ∧
      t.logical.toNat ≤ 9999 ∧ t.nodeID ≠ []
  | .rfc t => zeroTime ≤ t ∧ t < Emitter.yearTenThousand

/-- A later key by the values that were formatted. -/
def Above : Emitted → Emitted → Prop
  | .hlc later, .hlc earlier => earlier.position < later.position
  | .hlc later, .rfc earlier => earlier ≤ ofMilli later.physicalMS
  | .rfc later, .hlc earlier => ofMilli earlier.physicalMS < later
  | .rfc later, .rfc earlier => earlier < later

theorem fourDigits {t : Int} (inFormat : InFormat (.rfc t)) :
    0 ≤ (Date.ofDays (t / 86400000000000)).year ∧
      (Date.ofDays (t / 86400000000000)).year ≤ 9999 := by
  obtain ⟨lower, upper⟩ := inFormat
  unfold zeroTime at lower
  unfold Emitter.yearTenThousand at upper
  exact Date.ofDays_fourDigits (by omega) (by omega)

/-- The key of the order that a value is formatted as. -/
inductive Formats : Emitted → Key → Prop where
  | hlc (c : Canonical) : Formats (.hlc c.timestamp) (.hlc c)
  | rfc (r : Rfc3339) : Formats (.rfc r.instant) (.rfc r)

theorem exists_key {e : Emitted} (inFormat : e.InFormat) :
    ∃ key, e.Formats key ∧ key.text = e.text := by
  cases e with
  | hlc t => exact ⟨_, .hlc ⟨t, inFormat.1, inFormat.2.1, inFormat.2.2⟩, rfl⟩
  | rfc t =>
    obtain ⟨lower, upper⟩ := fourDigits inFormat
    have formats := Formats.rfc (.ofInstant t lower upper)
    rw [Rfc3339.instant_ofInstant] at formats
    exact ⟨_, formats, Rfc3339.text_ofInstant⟩

end Emitted

theorem Canonical.rank_lt {c d : Canonical} (below : c.timestamp.position < d.timestamp.position) :
    (Key.hlc c).rank < (Key.hlc d).rank := by
  have logicalD := d.logical
  unfold Timestamp.position at below
  simp only [Key.rank, Prod.Lex.toLex_lt_toLex, Nat.lt_irrefl, false_or, true_and]
  rcases lt_or_ge c.timestamp.physicalMS.toInt d.timestamp.physicalMS.toInt with lower | upper
  · exact .inl (by omega)
  have same : c.timestamp.physicalMS.toInt = d.timestamp.physicalMS.toInt := by omega
  refine .inr ⟨by rw [same], ?_⟩
  have physicalD := d.physical
  rw [c.string_eq, d.string_eq, same, wireText, wireText,
    byteValues_pad_lt (by omega) (by omega)]
  simp only [byteValues, List.map_cons, List.cons_lt_cons_iff, Nat.lt_irrefl, false_or, true_and]
  exact (byteValues_pad_lt (by omega) (by omega) _ _).mpr (.inl (by omega))

theorem Emitted.lwwOrder_gt [GoLayout] {later earlier : Emitted} (inFormat : later.InFormat)
    (inFormatToo : earlier.InFormat) (above : later.Above earlier) :
    lwwOrder later.text earlier.text = .gt := by
  obtain ⟨a, formatsA, textA⟩ := exists_key inFormat
  obtain ⟨b, formatsB, textB⟩ := exists_key inFormatToo
  rw [← textA, ← textB, lwwOrder_text, cmp_eq_gt_iff]
  cases formatsA with
  | hlc c =>
    cases formatsB with
    | hlc d => exact Canonical.rank_lt above
    | rfc r =>
      simp only [Above, ofMilli] at above
      simp only [Key.rank, Prod.Lex.toLex_lt_toLex]
      omega
  | rfc r =>
    cases formatsB with
    | hlc d =>
      simp only [Above, ofMilli] at above
      simp only [Key.rank, Prod.Lex.toLex_lt_toLex]
      omega
    | rfc q =>
      simp only [Above] at above
      simp only [Key.rank, Prod.Lex.toLex_lt_toLex]
      omega

def current (file : Option Marks) : Marks := file.getD .fresh

namespace Marks

structure Sound (m : Marks) : Prop where
  lower : zeroTime ≤ m.lww
  upper : m.lww < Emitter.yearTenThousand
  hlc : 0 ≤ m.hlcMS.toInt

def AtMost (m cur : Marks) : Prop := m.lww ≤ cur.lww ∧ m.hlcMS.toInt ≤ cur.hlcMS.toInt

theorem Sound.readable {m : Marks} (sound : m.Sound) : m.readable = true := by
  obtain ⟨lower, upper⟩ := Emitted.fourDigits (t := m.lww) ⟨sound.lower, sound.upper⟩
  have hlc : (0 : Int64) ≤ m.hlcMS := Int64.le_iff_toInt_le.mpr sound.hlc
  simp [Marks.readable, lower, upper, hlc]

theorem fresh_sound : fresh.Sound := ⟨by decide, by decide, by decide⟩

theorem AtMost.refl (m : Marks) : m.AtMost m := ⟨le_refl _, le_refl _⟩

theorem AtMost.trans {a b c : Marks} (first : a.AtMost b) (second : b.AtMost c) : a.AtMost c :=
  ⟨first.1.trans second.1, first.2.trans second.2⟩

end Marks

variable {file : Option Marks}

theorem load_sound (sound : (current file).Sound) :
    load file = some (current file) := by
  cases file with
  | none => rfl
  | some m =>
    have := sound.readable
    simp only [current, getD_some] at this
    simp [load, current, this]

variable {m : Marks}

theorem mergeMarks_spec (sound : (current file).Sound) (mSound : m.Sound) :
    (mergeMarks file m).Sound ∧ (current file).AtMost (mergeMarks file m) ∧
      m.AtMost (mergeMarks file m) := by
  cases file with
  | none => exact ⟨mSound, ⟨mSound.lower, mSound.hlc⟩, .refl m⟩
  | some cur =>
    have readable := sound.readable
    obtain ⟨lower, upper, hlc⟩ := sound
    obtain ⟨lowerM, upperM, hlcM⟩ := mSound
    simp only [current, getD_some] at readable lower upper hlc ⊢
    simp only [mergeMarks, filter_some, readable, ↓reduceIte, Int64.lt_iff_toInt_lt]
    split
    all_goals split
    all_goals
      refine ⟨⟨?_, ?_, ?_⟩, ⟨?_, ?_⟩, ?_, ?_⟩
      all_goals simp only
      all_goals omega

theorem storeRetrying_spec (mSound : m.Sound) (attempts : List Attempt)
    (sound : (current file).Sound) :
    (current (storeRetrying file m attempts).1).Sound ∧
      (current file).AtMost (current (storeRetrying file m attempts).1) ∧
      ((storeRetrying file m attempts).2 = true →
        m.AtMost (current (storeRetrying file m attempts).1)) := by
  induction attempts generalizing file with
  | nil => exact ⟨sound, .refl _, nofun⟩
  | cons attempt rest ih =>
    obtain ⟨merged, above, covers⟩ := mergeMarks_spec sound mSound
    cases attempt with
    | stored => exact ⟨merged, above, fun _ => covers⟩
    | failed => exact ih sound
    | replaced =>
      have replaced : (current (some (mergeMarks file m))).Sound := merged
      obtain ⟨later, grown, stored⟩ := ih replaced
      exact ⟨later, above.trans grown, stored⟩

theorem storeRetrying_stored (file : Option Marks) (m : Marks) (attempts : List Attempt) :
    (storeRetrying file m attempts).2 = true ↔ .stored ∈ attempts := by
  induction attempts generalizing file with
  | nil => simp [storeRetrying]
  | cons attempt rest ih => cases attempt <;> simp [storeRetrying, ih]

end Litevirt.Sync
