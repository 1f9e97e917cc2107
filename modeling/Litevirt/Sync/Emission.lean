import Litevirt.Sync.Emit

/-!
# Row clocks across switches and restarts

The values of both forms are followed through a run of an emitter: what was emitted
is below the marks of the file, and below the counters of the running process.
-/

namespace Litevirt.Hlc.Clock

theorem spill_persistFatal (fuel : Nat) (c : Clock) :
    (spill fuel c).persistFatal = c.persistFatal := by
  induction fuel generalizing c with
  | zero => rfl
  | succ fuel ih =>
    unfold spill
    split
    · exact ih _
    · rfl

theorem advanceLocal_frame (c : Clock) (phys : Int64) :
    (c.advanceLocal phys).nodeID = c.nodeID ∧ (c.advanceLocal phys).ceilMS = c.ceilMS ∧
      (c.advanceLocal phys).persist = c.persist ∧
      (c.advanceLocal phys).persistFatal = c.persistFatal := by
  unfold advanceLocal
  split <;> exact ⟨rfl, rfl, rfl, rfl⟩

/-- The counter that a call of `Now` leaves, before the ceiling is looked at. -/
def counter (c : Clock) (phys : Int64) : Clock := (c.advanceLocal phys).normalizeLogicalLocked

theorem counter_frame (c : Clock) (phys : Int64) :
    (c.counter phys).nodeID = c.nodeID ∧ (c.counter phys).ceilMS = c.ceilMS ∧
      (c.counter phys).persist = c.persist ∧ (c.counter phys).persistFatal = c.persistFatal := by
  obtain ⟨node, ceiling, wired, fatal⟩ := advanceLocal_frame c phys
  obtain ⟨spilledNode, spilledCeiling, spilledWired⟩ :=
    spill_frame (c.advanceLocal phys).lastLog.toNat (c.advanceLocal phys)
  exact ⟨spilledNode.trans node, spilledCeiling.trans ceiling, spilledWired.trans wired,
    (spill_persistFatal _ _).trans fatal⟩

/-- A call that exits on failure returns what it returns when storing succeeds, and
it did store if it needed to. -/
theorem now_of_fatal {c : Clock} {phys : Int64} {persists : Nat → Bool} {emission : Emission}
    (fatal : c.persistFatal = true) (emitted : c.now phys persists = some emission) :
    c.now phys succeeding = some emission ∧
      (c.persist = true → (c.counter phys).ceilMS < (c.counter phys).lastPhys →
        (List.range hlcPersistRetries).any persists = true) := by
  have attempted : (List.range hlcPersistRetries).any succeeding = true := rfl
  have frame := c.counter_frame phys
  rw [← frame.2.2.2] at fatal
  rw [← frame.2.2.1]
  unfold counter at fatal ⊢
  unfold now emit afterAdvanceLocked persistAheadLocked at emitted ⊢
  split at emitted
  · rename_i idle
    rw [if_pos idle]
    refine ⟨emitted, fun wired ahead => ?_⟩
    rw [wired, Bool.not_true, Bool.false_or, decide_eq_true_iff, Int64.le_iff_toInt_le] at idle
    rw [Int64.lt_iff_toInt_lt] at ahead
    omega
  · rename_i busy
    rw [if_neg busy]
    split at emitted
    · rename_i stored
      exact ⟨emitted, fun _ _ => stored⟩
    · cases emitted

end Litevirt.Hlc.Clock

namespace Litevirt.Sync

open Litevirt.Lib Litevirt.Hlc List Option Clock Client

namespace Client

/-- What a process knows of the marks in the file. -/
structure Backed (c : Client) (file : Option Marks) : Prop where
  wired : c.clock.persist = true
  fatal : c.clock.persistFatal = true
  logical : c.clock.lastLog.toNat ≤ 9999
  physical : 0 ≤ c.clock.lastPhys.toInt
  last : zeroTime ≤ c.lastTS
  durable : zeroTime ≤ c.durableTS ∧ c.durableTS ≤ (current file).lww
  durableHLC : 0 ≤ c.durableHLCMS.toInt
  within : c.clock.lastPhys.toInt ≤ c.clock.ceilMS.toInt
  ceiling : c.clock.ceilMS.toInt ≤ (current file).hlcMS.toInt

variable {file : Option Marks}

theorem backed_init {nodeID : Bytes} (sound : (current file).Sound) :
    (init nodeID (current file)).Backed file := by
  obtain ⟨logical, physical⟩ := loaded_counter nodeID (current file).hlcMS true true
  refine ⟨rfl, rfl, ?_, ?_, sound.lower, ⟨sound.lower, le_refl _⟩, sound.hlc, ?_, le_refl _⟩
  · simp [init, logical]
  · change 0 ≤ ((Clock.newClock nodeID).setPersistence _ true true).lastPhys.toInt
    rw [physical]
    exact le_max_left _ _
  · change ((Clock.newClock nodeID).setPersistence _ true true).lastPhys.toInt ≤ _
    rw [physical]
    exact max_le sound.hlc (le_refl _)

/-! ## RFC 3339 times -/

/-- What one call leaves: the file grows, and a time that is returned is above the
last one, above the clock where the mark allowed it, and covered by the mark. -/
structure WallSpec (c : Client) (file : Option Marks) (attempts : Nat → Attempt)
    (served : Served) : Prop where
  sound : (current served.file).Sound
  grown : (current file).AtMost (current served.file)
  returned : ∀ key after, served.result = some (key, after) →
    ∃ t, key = .rfc t ∧ after.lastTS = t ∧ after.clock = c.clock ∧ c.lastTS < t ∧
      t < Emitter.yearTenThousand ∧
      ((∃ i < nowTSPersistRetries, attempts i = .stored) ∨
        ofMilli c.clock.lastPhys < c.durableTS → ofMilli c.clock.lastPhys < t) ∧
      t ≤ (current served.file).lww ∧ after.Backed served.file
  exits : served.result = none →
    (∀ i < nowTSPersistRetries, attempts i ≠ .stored) ∧ c.durableTS ≤ c.lastTS

variable {c : Client}

theorem advanceDurableLWWLocked_spec {t : Int} {attempts : Nat → Attempt} (backed : c.Backed file)
    (sound : (current file).Sound) (later : c.lastTS < t) (floor : ofMilli c.clock.lastPhys < t)
    (upper : t + nowTSPersistAhead < Emitter.yearTenThousand) (past : c.durableTS < t) :
    WallSpec c file attempts (c.advanceDurableLWWLocked file t attempts) := by
  have ahead : nowTSPersistAhead = 2000000000 := rfl
  have durable := backed.durable
  have markSound : Marks.Sound ⟨t + nowTSPersistAhead, c.durableHLCMS⟩ :=
    ⟨by simp only; omega, by simp only; omega, backed.durableHLC⟩
  obtain ⟨stillSound, grown, covers⟩ := storeRetrying_spec markSound
    ((List.range nowTSPersistRetries).map attempts) sound
  have stored := storeRetrying_stored file ⟨t + nowTSPersistAhead, c.durableHLCMS⟩
    ((List.range nowTSPersistRetries).map attempts)
  unfold advanceDurableLWWLocked
  simp only [if_pos past]
  generalize storeRetrying file ⟨t + nowTSPersistAhead, c.durableHLCMS⟩
    ((List.range nowTSPersistRetries).map attempts) = result at stillSound grown covers stored ⊢
  obtain ⟨file', isStored⟩ := result
  cases isStored with
  | true =>
    refine ⟨stillSound, grown, ?_, nofun⟩
    rintro key after ⟨⟩
    have covered := (covers rfl).1
    simp only at covered
    exact ⟨t, rfl, rfl, rfl, later, by omega, fun _ => floor, by simp only; omega,
      { backed with
        last := by simp only; omega
        durable := ⟨by simp only; omega, covered⟩
        ceiling := backed.ceiling.trans grown.2 }⟩
  | false =>
    -- every attempt failed: the time falls back to the mark that is stored
    simp only at stillSound grown ⊢
    have failed (i : Nat) (bound : i < nowTSPersistRetries) : attempts i ≠ .stored := by
      intro isStored
      have : Attempt.stored ∈ (List.range nowTSPersistRetries).map attempts :=
        mem_map.mpr ⟨i, mem_range.mpr bound, isStored⟩
      exact absurd (stored.mpr this) (by simp)
    split
    · rename_i stuck
      exact ⟨stillSound, grown, nofun, fun _ => ⟨failed, stuck⟩⟩
    refine ⟨stillSound, grown, ?_, nofun⟩
    rintro key after ⟨⟩
    obtain ⟨lww, hlc⟩ := grown
    refine ⟨c.durableTS, rfl, rfl, rfl, by omega, by omega, ?_, by simp only; omega,
      { backed with
        last := by simp only; omega
        durable := ⟨durable.1, by simp only; omega⟩
        ceiling := backed.ceiling.trans hlc }⟩
    rintro (⟨i, bound, isStored⟩ | room)
    · exact absurd isStored (failed i bound)
    · exact room

theorem nowWallTS_spec {wall : Int} (attempts : Nat → Attempt) (backed : c.Backed file)
    (sound : (current file).Sound) (inFormat : Emitter.InFormat c false wall) :
    WallSpec c file attempts (c.nowWallTS file wall attempts) := by
  simp only [Emitter.InFormat, Bool.false_eq_true, ↓reduceIte] at inFormat
  have ahead : nowTSPersistAhead = 2000000000 := rfl
  have last := backed.last
  have durable := backed.durable
  unfold nowWallTS
  simp only
  -- the reading raised above the last time, then above the clock
  generalize raised : (if wall ≤ c.lastTS then c.lastTS + 1 else wall) = r
  generalize floored :
    (if r ≤ ofMilli c.clock.lastPhys then ofMilli c.clock.lastPhys + 1 else r) = t
  have bounds : c.lastTS < t ∧ ofMilli c.clock.lastPhys < t ∧
      t + nowTSPersistAhead < Emitter.yearTenThousand := by
    rw [← floored]
    split <;> omega
  split
  · rename_i past
    exact advanceDurableLWWLocked_spec backed sound bounds.1 bounds.2.1 bounds.2.2 past
  refine ⟨sound, .refl _, ?_, nofun⟩
  rintro key after ⟨⟩
  exact ⟨t, rfl, rfl, rfl, bounds.1, by omega, fun _ => bounds.2.1, by simp only; omega,
    { backed with last := by simp only; omega }⟩

/-! ## Clock timestamps -/

/-- A timestamp that a call returned with the client and the file it leaves. -/
structure Counted (c : Client) (wallMS : Int64) (file : Option Marks) (t : Timestamp)
    (after : Client) : Prop where
  last : after.lastTS = c.lastTS
  node : after.clock.nodeID = c.clock.nodeID ∧ t.nodeID = c.clock.nodeID
  logical : t.logical.toNat ≤ 9999
  physical : max wallMS.toInt c.clock.lastPhys.toInt ≤ t.physicalMS.toInt ∧
    t.physicalMS.toInt < 10 ^ 13
  above : c.clock.position < t.position ∧ after.clock.position = t.position
  backed : after.Backed file

structure ClockSpec (c : Client) (file : Option Marks) (wallMS : Int64)
    (attempts : Nat → Attempt) (served : Served) : Prop where
  sound : (current served.file).Sound
  grown : (current file).AtMost (current served.file)
  returned : ∀ key after, served.result = some (key, after) →
    ∃ t, key = .hlc t ∧ c.Counted wallMS served.file t after
  exits : served.result = none → ∀ i < hlcPersistRetries, attempts i ≠ .stored

theorem target_bounds {c : Clock} (wallMS : Int64) (logical : c.lastLog.toNat ≤ 9999) :
    max wallMS.toInt c.lastPhys.toInt * 10000 ≤ c.target (.now wallMS) ∧
      c.target (.now wallMS) ≤ (max wallMS.toInt c.lastPhys.toInt + 1) * 10000 := by
  simp only [Clock.target, Clock.incremented, Int64.lt_iff_toInt_lt]
  by_cases later : c.lastPhys.toInt < wallMS.toInt
  · simp only [if_pos later, Call.wall]
    omega
  · simp only [if_neg later]
    omega

variable {wallMS : Int64} {emission : Clock.Emission} {persists : Nat → Bool}

theorem now_returns (backed : c.Backed file)
    (served : c.clock.now wallMS persists = some emission) :
    emission = ⟨⟨(c.clock.counter wallMS).lastPhys, (c.clock.counter wallMS).lastLog,
        c.clock.nodeID⟩,
      { c.clock.counter wallMS with
        ceilMS := (c.clock.counter wallMS).aheadCeiling.getD c.clock.ceilMS },
      (c.clock.counter wallMS).aheadCeiling⟩ := by
  obtain ⟨-, ceilEq, -, -⟩ := c.clock.counter_frame wallMS
  have explicit := (now_of_fatal backed.fatal served).1.symm.trans
    (emit_succeeding (c.clock.advanceLocal wallMS))
  rw [Option.some.inj explicit, (advanceLocal_frame c.clock wallMS).1]
  rw [← ceilEq]
  rfl

theorem counter_bounds (backed : c.Backed file)
    (inFormat : max wallMS.toInt c.clock.lastPhys.toInt + 1 < 10 ^ 13) :
    (c.clock.counter wallMS).position = c.clock.target (.now wallMS) ∧
      (c.clock.counter wallMS).lastLog.toNat ≤ 9999 ∧
      max wallMS.toInt c.clock.lastPhys.toInt ≤ (c.clock.counter wallMS).lastPhys.toInt ∧
      (c.clock.counter wallMS).lastPhys.toInt < 10 ^ 13 ∧
      ((c.clock.counter wallMS).lastPhys + hlcPersistAheadMS).toInt =
        (c.clock.counter wallMS).lastPhys.toInt + 2000 := by
  have fits : Node.CeilingFits c.clock (.now wallMS) :=
    ⟨trivial, by change wallMS.toInt + 2001 < 2 ^ 63; omega, by omega⟩
  obtain ⟨emission, emitted, position, -, logical, -⟩ :=
    serve_persisted backed.wired backed.logical fits
  rw [now_returns backed emitted] at position logical
  change (c.clock.counter wallMS).position = _ at position
  simp only at logical
  have target := target_bounds wallMS backed.logical
  have physical := backed.physical
  have bounds : max wallMS.toInt c.clock.lastPhys.toInt ≤ (c.clock.counter wallMS).lastPhys.toInt ∧
      (c.clock.counter wallMS).lastPhys.toInt < 10 ^ 13 := by
    unfold Clock.position at position
    omega
  refine ⟨position, logical, bounds.1, bounds.2, ?_⟩
  rw [Int64.toInt_add]
  change Int.bmod (_ + 2000) _ = _
  rw [Int.bmod_eq_of_le (by omega) (by omega)]

theorem counted_of_returned {stored : Option Marks} (backed : c.Backed file)
    (inFormat : max wallMS.toInt c.clock.lastPhys.toInt + 1 < 10 ^ 13)
    (grown : (current file).AtMost (current stored))
    (held : (c.clock.counter wallMS).ceilMS < (c.clock.counter wallMS).lastPhys →
      (c.clock.counter wallMS).lastPhys.toInt + 2000 ≤ (current stored).hlcMS.toInt)
    (served : c.clock.now wallMS persists = some emission) :
    c.Counted wallMS stored emission.timestamp
      { c with
        clock := emission.clock
        durableHLCMS := emission.committed.getD c.durableHLCMS } := by
  obtain ⟨position, logical, reached, below, markEq⟩ := counter_bounds backed inFormat
  obtain ⟨node, ceilEq, wiredEq, fatalEq⟩ := c.clock.counter_frame wallMS
  have later : c.clock.position < c.clock.target (.now wallMS) :=
    (lt_target backed.logical fun remote member => by cases member).1
  have physical := backed.physical
  have durable := backed.durable
  rw [now_returns backed served]
  refine ⟨rfl, ⟨node, rfl⟩, logical, ⟨reached, below⟩,
    ⟨by rw [← position] at later; exact later, rfl⟩, ?_⟩
  have ceilings : ((c.clock.counter wallMS).aheadCeiling.getD c.clock.ceilMS).toInt ≤
      (current stored).hlcMS.toInt ∧
      (c.clock.counter wallMS).lastPhys.toInt ≤
        ((c.clock.counter wallMS).aheadCeiling.getD c.clock.ceilMS).toInt ∧
      0 ≤ ((c.clock.counter wallMS).aheadCeiling.getD c.durableHLCMS).toInt := by
    unfold Clock.aheadCeiling
    split
    · rename_i ahead
      have := held ahead.2
      simp only [getD_some]
      omega
    · rename_i idle
      have behind : ¬ (c.clock.counter wallMS).ceilMS < (c.clock.counter wallMS).lastPhys :=
        fun ahead => idle ⟨wiredEq.trans backed.wired, ahead⟩
      rw [ceilEq, Int64.lt_iff_toInt_lt] at behind
      exact ⟨backed.ceiling.trans grown.2, not_lt.mp behind, backed.durableHLC⟩
  exact ⟨wiredEq.trans backed.wired, fatalEq.trans backed.fatal, logical, by simp only; omega,
    backed.last, ⟨durable.1, durable.2.trans grown.1⟩, ceilings.2.2, ceilings.2.1, ceilings.1⟩

/-- A call that exits has stored nothing. -/
theorem now_eq_none (exits : c.clock.now wallMS persists = none) :
    (List.range hlcPersistRetries).any persists = false := by
  unfold Clock.now Clock.emit Clock.afterAdvanceLocked Clock.persistAheadLocked at exits
  split at exits
  · cases exits
  · split at exits
    · cases exits
    · rename_i failed
      exact Bool.eq_false_iff.mpr failed

theorem nowHLC_spec (attempts : Nat → Attempt) (backed : c.Backed file)
    (sound : (current file).Sound)
    (inFormat : max wallMS.toInt c.clock.lastPhys.toInt + 1 < 10 ^ 13) :
    ClockSpec c file wallMS attempts (c.nowHLC file wallMS attempts) := by
  obtain ⟨-, -, reached, -, markEq⟩ := counter_bounds backed inFormat
  have physical := backed.physical
  have markSound :
      Marks.Sound ⟨c.durableTS, (c.clock.counter wallMS).lastPhys + hlcPersistAheadMS⟩ :=
    ⟨backed.durable.1, lt_of_le_of_lt backed.durable.2 sound.upper, by simp only [markEq]; omega⟩
  have exits (none : (c.nowHLC file wallMS attempts).result = none) (i : Nat)
      (bound : i < hlcPersistRetries) : attempts i ≠ .stored := by
    intro isStored
    have := any_eq_false.mp (now_eq_none (map_eq_none_iff.mp none)) i (mem_range.mpr bound)
    exact this (decide_eq_true isStored)
  unfold nowHLC persistHLCCeiling at exits ⊢
  rw [show (c.clock.advanceLocal wallMS).normalizeLogicalLocked = c.clock.counter wallMS from rfl]
  split
  · -- the counter is within the ceiling: the file is not touched
    rename_i within
    refine ⟨sound, .refl _, fun key after returned => ?_, exits⟩
    obtain ⟨emission, served, pair⟩ := map_eq_some_iff.mp returned
    cases pair
    refine ⟨_, rfl, counted_of_returned backed inFormat (.refl _) (fun ahead => ?_) served⟩
    rw [Int64.le_iff_toInt_le] at within
    rw [Int64.lt_iff_toInt_lt] at ahead
    omega
  · obtain ⟨stillSound, grown, covers⟩ := storeRetrying_spec markSound
      ((List.range hlcPersistRetries).map attempts) sound
    refine ⟨stillSound, grown, fun key after returned => ?_, exits⟩
    obtain ⟨emission, served, pair⟩ := map_eq_some_iff.mp returned
    cases pair
    refine ⟨_, rfl, counted_of_returned backed inFormat grown (fun ahead => ?_) served⟩
    have attempted := (now_of_fatal backed.fatal served).2 backed.wired ahead
    obtain ⟨i, bound, isStored⟩ := any_eq_true.mp attempted
    have := (covers ((storeRetrying_stored _ _ _).mpr
      (mem_map.mpr ⟨i, bound, of_decide_eq_true isStored⟩))).2
    simp only [markEq] at this
    exact this

end Client

/-! ## Runs -/

namespace Emitter

/-- Below the counters of a running process. -/
def Below (c : Client) : Emitted → Prop
  | .hlc t => t.position ≤ c.clock.position
  | .rfc t => t ≤ c.lastTS

def Covered (m : Marks) : Emitted → Prop
  | .hlc t => t.position ≤ m.hlcMS.toInt * 10000
  | .rfc t => t ≤ m.lww

/-- The marks of the file cover the RFC 3339 keys, and every key once the process has ended. -/
structure Invariant (n : Emitter) : Prop where
  inFormat : ∀ key ∈ n.emitted, key.InFormat
  ordered : n.emitted.Pairwise Emitted.Above
  sound : (current n.file).Sound
  times : ∀ t, .rfc t ∈ n.emitted → t ≤ (current n.file).lww
  covered : n.client = none → ∀ key ∈ n.emitted, Covered (current n.file) key
  running : ∀ c ∈ n.client, c.Backed n.file ∧ c.clock.nodeID = n.nodeID ∧
    ∀ key ∈ n.emitted, Below c key

variable {n : Emitter}

theorem Invariant.neverRegresses [GoLayout] (invariant : Invariant n) : NeverRegresses n :=
  invariant.ordered.imp_of_mem fun laterMember earlierMember above =>
    Emitted.lwwOrder_gt (invariant.inFormat _ laterMember) (invariant.inFormat _ earlierMember)
      above

variable {key : Emitted}

theorem boot_invariant (nodeID : Bytes) : Invariant (boot nodeID) :=
  ⟨nofun, .nil, Marks.fresh_sound, nofun, nofun, nofun⟩

variable {file : Option Marks} {c : Client}

/-- A process that ends off its ceiling leaves every key below the marks. -/
theorem Invariant.stopped (invariant : Invariant n) (runs : n.client = some c)
    (off : c.clock.OffCeiling) (sound : (current file).Sound)
    (grown : (current n.file).AtMost (current file)) :
    Invariant { n with client := none, file := file } := by
  refine ⟨invariant.inFormat, invariant.ordered, sound,
    fun t member => (invariant.times t member).trans grown.1, fun _ key member => ?_, nofun⟩
  obtain ⟨backed, -, below⟩ := invariant.running c runs
  cases key with
  | rfc t => exact (invariant.times t member).trans grown.1
  | hlc t =>
    have start : t.position ≤ c.clock.ceilMS.toInt * 10000 :=
      (below _ member).trans (off.position_le backed.logical backed.within)
    have held := backed.ceiling.trans grown.2
    exact start.trans (Int.mul_le_mul_of_nonneg_right held (by decide))

variable {wall : Int}

theorem Invariant.extend (invariant : Invariant n)
    (inFormat : key.InFormat) (older : ∀ earlier ∈ n.emitted, key.Above earlier ∧ Below c earlier)
    (sound : (current file).Sound) (grown : (current n.file).AtMost (current file))
    (covered : ∀ t, key = .rfc t → t ≤ (current file).lww) (backed : c.Backed file)
    (node : c.clock.nodeID = n.nodeID) (below : Below c key) :
    Invariant { n with client := some c, file := file, emitted := key :: n.emitted } := by
  refine ⟨forall_mem_cons.mpr ⟨inFormat, invariant.inFormat⟩,
    .cons (fun earlier member => (older earlier member).1) invariant.ordered,
    sound, fun t member => ?_, nofun, ?_⟩
  · rcases mem_cons.mp member with own | earlier
    · exact covered t own.symm
    · exact (invariant.times t earlier).trans grown.1
  rintro _ ⟨⟩
  exact ⟨backed, node, forall_mem_cons.mpr ⟨below, fun earlier member => (older earlier member).2⟩⟩

variable {next : Emitter} {attempts : Nat → Attempt}

theorem Invariant.nowHLC (invariant : Invariant n) (bridged : Bridged n (.nowTS true wall attempts))
    (stepped : step n (.nowTS true wall attempts) = some next) : Invariant next := by
  obtain ⟨c, running, served⟩ := bind_eq_some_iff.mp stepped
  obtain ⟨backed, node, below⟩ := invariant.running c running
  obtain ⟨named, inFormat, ends, reached⟩ := bridged c running
  have spec := nowHLC_spec attempts backed invariant.sound inFormat
  simp only [Client.nowTS, ↓reduceIte] at served
  generalize c.nowHLC n.file (unixMilli wall) attempts = result at spec served
  obtain ⟨file, returned⟩ := result
  cases returned with
  | none =>
    cases served
    refine invariant.stopped running (ends.resolve_right ?_) spec.sound spec.grown
    exact fun ⟨i, bound, isStored⟩ => spec.exits rfl i bound isStored
  | some pair =>
    obtain ⟨key, after⟩ := pair
    cases served
    obtain ⟨t, rfl, counted⟩ := spec.returned _ _ rfl
    have physical := backed.physical
    have bounds := counted.physical
    obtain ⟨later, position⟩ := counted.above
    have nodeID : t.nodeID = n.nodeID := counted.node.2.trans node
    refine invariant.extend ⟨⟨by omega, bounds.2⟩, counted.logical, by rw [nodeID]; exact named⟩
      (fun earlier member => ?_) spec.sound spec.grown nofun counted.backed
      (counted.node.1.trans node) (le_of_eq position.symm)
    have belowEarlier := below earlier member
    cases earlier with
    | hlc u =>
      refine ⟨lt_of_le_of_lt belowEarlier later, ?_⟩
      simp only [Below] at belowEarlier ⊢
      omega
    | rfc u =>
      have := reached u member
      simp only [Below, Emitted.Above, ofMilli, counted.last] at belowEarlier ⊢
      omega

theorem Invariant.nowWallTS (invariant : Invariant n)
    (bridged : Bridged n (.nowTS false wall attempts))
    (stepped : step n (.nowTS false wall attempts) = some next) : Invariant next := by
  obtain ⟨c, running, served⟩ := bind_eq_some_iff.mp stepped
  obtain ⟨backed, node, below⟩ := invariant.running c running
  obtain ⟨inFormat, storable⟩ := bridged c running
  have spec := nowWallTS_spec attempts backed invariant.sound inFormat
  simp only [Client.nowTS, Bool.false_eq_true, ↓reduceIte] at served
  generalize c.nowWallTS n.file wall attempts = result at spec served
  obtain ⟨file, returned⟩ := result
  cases returned with
  | none =>
    cases served
    obtain ⟨failed, stuck⟩ := spec.exits rfl
    have off : c.clock.OffCeiling := by
      rcases storable with ⟨i, bound, isStored⟩ | ⟨-, off | free⟩
      · exact absurd isStored (failed i bound)
      · exact off
      · exact absurd free (not_lt.mpr stuck)
    exact invariant.stopped running off spec.sound spec.grown
  | some pair =>
    obtain ⟨key, after⟩ := pair
    cases served
    obtain ⟨t, rfl, last, clock, later, inYear, floor, covered, afterBacked⟩ :=
      spec.returned _ _ rfl
    have floored := floor (storable.imp_right And.left)
    have logical := backed.logical
    have started := backed.last
    refine invariant.extend ⟨by omega, inYear⟩ (fun earlier member => ?_) spec.sound spec.grown
      (fun u own => by cases own; exact covered) afterBacked (by rw [clock, node])
      (le_of_eq last.symm)
    have belowEarlier := below earlier member
    cases earlier with
    | hlc u =>
      -- a timestamp up to the counter is at most the clock's millisecond
      simp only [Below, Timestamp.position, Clock.position, clock, Emitted.Above,
        ofMilli] at belowEarlier floored ⊢
      omega
    | rfc u =>
      simp only [Below, Emitted.Above, last] at belowEarlier ⊢
      omega

theorem Invariant.restart (invariant : Invariant n) (stepped : step n .restart = some next) :
    Invariant next := by
  simp only [step] at stepped
  split at stepped
  · cases stepped
  rename_i ended
  rw [load_sound invariant.sound] at stepped
  cases stepped
  refine ⟨invariant.inFormat, invariant.ordered, invariant.sound, invariant.times, nofun, ?_⟩
  rintro _ ⟨⟩
  obtain ⟨logical, physical⟩ := loaded_counter n.nodeID (current n.file).hlcMS true true
  refine ⟨backed_init invariant.sound, ?_, fun key member => ?_⟩
  · simp only [Client.init, Clock.setPersistence]
    split <;> rfl
  have covered := invariant.covered ended key member
  cases key with
  | hlc t =>
    simp only [Covered] at covered
    simp only [Below, Client.init, Clock.position, logical, physical]
    omega
  | rfc t => exact covered

theorem Invariant.step {event : EmitEvent} (invariant : Invariant n) (bridged : Bridged n event)
    (stepped : Emitter.step n event = some next) : Invariant next := by
  cases event with
  | nowTS hlcEmit wall attempts =>
    cases hlcEmit with
    | true => exact invariant.nowHLC bridged stepped
    | false => exact invariant.nowWallTS bridged stepped
  | crash =>
    obtain ⟨c, running, crashed⟩ := bind_eq_some_iff.mp stepped
    cases crashed
    exact invariant.stopped running (bridged c running) invariant.sound (.refl _)
  | crashIn hlcEmit wall attempts =>
    obtain ⟨c, running, crashed⟩ := bind_eq_some_iff.mp stepped
    cases crashed
    have backed := (invariant.running c running).1
    obtain ⟨inFormat, off⟩ := bridged c running
    cases hlcEmit with
    | true =>
      have spec := nowHLC_spec attempts backed invariant.sound inFormat
      exact invariant.stopped running off spec.sound spec.grown
    | false =>
      have spec := nowWallTS_spec attempts backed invariant.sound inFormat
      exact invariant.stopped running off spec.sound spec.grown
  | restart => exact invariant.restart stepped

/-- In every run whose switches are bridged, every key is strictly newer than every
key emitted before it. -/
theorem neverRegresses_of_bridged [GoLayout] (nodeID : Bytes) {final : Emitter}
    (run : Run step Bridged (boot nodeID) final) : NeverRegresses final :=
  Invariant.neverRegresses <| run.invariant Invariant (boot_invariant nodeID)
    fun _ _ _ bridged stepped invariant => invariant.step bridged stepped

def storing : Nat → Attempt := fun _ => .stored

/-- A run whose switch to clock timestamps waits for the next millisecond, and which then
returns to RFC 3339 times.  The next process counts at its ceiling, which the wall has not
reached. -/
theorem neverRegresses_after_switch :
    @NeverRegresses strictLayout ⟨bytes "n",
      some ⟨1704067202000500000, 1704067202000500000, 1704067202001,
        ⟨bytes "n", 1704067202001, 1, 0, 1704067202001, true, true⟩⟩,
      some ⟨1704067202000500000, 1704067202001⟩,
      [.hlc ⟨1704067202001, 1, bytes "n"⟩, .rfc 1704067200001000001,
        .hlc ⟨1704067200001, 0, bytes "n"⟩, .rfc 1704067200000500000]⟩ :=
  @neverRegresses_of_bridged strictLayout (bytes "n") _ <|
    .of_execWhile (fun _ _ => of_decide_eq_true) (.refl _)
      (show execWhile step (fun n event => decide (Bridged n event))
        [.restart, .nowTS false 1704067200000500000 storing,
          .nowTS true 1704067200001000000 storing, .nowTS false 1704067200000000000 storing,
          .crash, .restart, .nowTS true 1704067200002000000 storing] (boot (bytes "n")) = some _
        from by decide +kernel)

/-- A clock timestamp of the same millisecond is older than the RFC 3339 time before it. -/
theorem switch_regresses :
    ∃ final, exec step [.restart, .nowTS false 1704067200000500000 storing,
        .nowTS true 1704067200000900000 storing] (boot (bytes "n")) = some final ∧
      final.emitted = [.hlc ⟨1704067200000, 0, bytes "n"⟩, .rfc 1704067200000500000] ∧
      ¬ @NeverRegresses strictLayout final := by
  refine ⟨_, rfl, by decide +kernel, fun ordered => ?_⟩
  exact absurd ((pairwise_cons.mp ordered).1 _ mem_cons_self) (by decide +kernel)

end Emitter

end Litevirt.Sync
