import Litevirt.Lib.Transition
import Litevirt.Hlc.Clock

/-!
# Timestamps of one process increase strictly

The counter of a clock is followed through a call by its position, ten thousand
times the physical part plus the logical part: normalization keeps it, and a
call either restarts it at a later wall reading or raises one earlier position
by one.
-/

namespace Litevirt.Hlc

open List Option Int64 Clock

namespace Clock

def position (c : Clock) : Int := c.lastPhys.toInt * 10000 + c.lastLog.toNat

theorem loaded_counter (nodeID : Bytes) (floorMS : Int64) (persist fatal : Bool) :
    ((newClock nodeID).setPersistence floorMS persist fatal).lastLog = 0 ∧
      ((newClock nodeID).setPersistence floorMS persist fatal).lastPhys.toInt =
        max 0 floorMS.toInt := by
  by_cases later : (0 : Int64) < floorMS
  · have positive : 0 < floorMS.toInt := lt_iff_toInt_lt.mp later
    simp only [setPersistence, newClock, later, ↓reduceIte, true_and]
    omega
  · have negative : floorMS.toInt ≤ 0 := not_lt.mp (lt_iff_toInt_lt.not.mp later)
    simp only [setPersistence, newClock, later, ↓reduceIte, true_and, toInt_zero]
    omega

theorem sub_maxLogical {c : Clock} (large : 9999 < c.lastLog.toNat) :
    (c.lastLog - (hlcMaxLogical + 1)).toNat = c.lastLog.toNat - 10000 :=
  UInt16.toNat_sub_of_le _ _ (show (10000 : Nat) ≤ c.lastLog.toNat by omega)

theorem spill_lastLog_le (fuel : Nat) (c : Clock)
    (enough : c.lastLog.toNat ≤ fuel * 10000 + 9999) :
    (spill fuel c).lastLog.toNat ≤ 9999 := by
  induction fuel generalizing c with
  | zero => simpa [spill] using enough
  | succ fuel ih =>
    unfold spill
    split
    · rename_i spills
      have large : 9999 < c.lastLog.toNat := spills
      apply ih
      simp only [sub_maxLogical large]
      omega
    · rename_i within
      exact Nat.not_lt.mp within

theorem spill_position (fuel : Nat) (c : Clock)
    (room : c.lastPhys.toInt + c.lastLog.toNat / 10000 < 2 ^ 63) :
    (spill fuel c).position = c.position := by
  induction fuel generalizing c with
  | zero => rfl
  | succ fuel ih =>
    unfold spill
    split
    · rename_i spills
      have large : 9999 < c.lastLog.toNat := spills
      have taken := sub_maxLogical large
      have raised : (c.lastPhys + 1).toInt = c.lastPhys.toInt + 1 := by
        have lower := c.lastPhys.le_toInt
        rw [toInt_add, toInt_one, Int.bmod_eq_of_le (by omega) (by omega)]
      rw [ih _ (by simp only [taken, raised]; omega)]
      simp only [position, taken, raised]
      omega
    · rfl

theorem spill_frame (fuel : Nat) (c : Clock) :
    (spill fuel c).nodeID = c.nodeID ∧ (spill fuel c).ceilMS = c.ceilMS ∧
      (spill fuel c).persist = c.persist := by
  induction fuel generalizing c with
  | zero => exact ⟨rfl, rfl, rfl⟩
  | succ fuel ih =>
    unfold spill
    split
    · exact ih _
    · exact ⟨rfl, rfl, rfl⟩

theorem normalizeLogicalLocked_lastLog_le (c : Clock) :
    c.normalizeLogicalLocked.lastLog.toNat ≤ 9999 :=
  spill_lastLog_le _ c (by omega)

theorem normalizeLogicalLocked_position (c : Clock)
    (room : c.lastPhys.toInt + c.lastLog.toNat / 10000 < 2 ^ 63) :
    c.normalizeLogicalLocked.position = c.position :=
  spill_position _ c room

/-- The clock of a call before `afterAdvanceLocked`. -/
def advanced (c : Clock) : Call → Clock
  | .now wall => c.advanceLocal wall
  | .update wall remote =>
    if rejects wall remote then advanceLocal { c with rejected := c.rejected + 1 } wall
    else c.advanceRemote wall remote

theorem serve_eq (c : Clock) (persists : Nat → Bool) (call : Call) :
    c.serve persists call = (c.advanced call).emit persists := by
  cases call with
  | now wall => rfl
  | update wall remote =>
    simp only [serve, update, advanced]
    split <;> rfl

/-- The counter value that a call increments: its own, or that of a remote
which is not behind it.  `none` when the call adopts its wall reading. -/
def incremented (c : Clock) : Call → Option (Int64 × UInt16)
  | .now wall => if c.lastPhys < wall then none else some (c.lastPhys, c.lastLog)
  | .update wall remote =>
    if rejects wall remote then
      if c.lastPhys < wall then none else some (c.lastPhys, c.lastLog)
    else if c.lastPhys < wall ∧ remote.physicalMS < wall then none
    else if c.lastPhys < remote.physicalMS then some (remote.physicalMS, remote.logical)
    else if remote.physicalMS < c.lastPhys then some (c.lastPhys, c.lastLog)
    else some (c.lastPhys, if c.lastLog < remote.logical then remote.logical else c.lastLog)

variable {c : Clock} {call : Call}

/-- A call that increments nothing restarts the counter at its wall reading,
which is later than everything it saw. -/
theorem advanced_of_incremented_none (adopted : c.incremented call = none) :
    (c.advanced call).lastPhys = call.wall ∧ (c.advanced call).lastLog = 0 ∧
      c.lastPhys < call.wall ∧ ∀ remote ∈ call.remote?, remote.physicalMS < call.wall := by
  cases call with
  | now wall =>
    simp only [incremented] at adopted
    split at adopted
    · rename_i later
      simp [advanced, advanceLocal, Call.wall, Call.remote?, later]
    · cases adopted
  | update wall remote =>
    simp only [incremented] at adopted
    split at adopted
    · rename_i rejected
      split at adopted
      · rename_i later
        simp [advanced, advanceLocal, Call.wall, Call.remote?, rejected, later]
      · cases adopted
    rename_i admitted
    split at adopted
    · rename_i later
      simp [advanced, advanceRemote, Call.wall, Call.remote?, admitted, later]
    · repeat' (split at adopted)
      all_goals cases adopted

/-- A call that increments a counter value raises its logical part by one, and
the value is not behind the clock or an admitted remote. -/
theorem advanced_of_incremented_some {q : Int64} {m : UInt16}
    (raised : c.incremented call = some (q, m)) (fits : c.lastLog.toNat ≤ 9999)
    (remoteFits : ∀ remote ∈ call.remote?, remote.logical.toNat ≤ 9999) :
    (c.advanced call).lastPhys = q ∧ (c.advanced call).lastLog = m + 1 ∧
      m.toNat ≤ 9999 ∧ c.position ≤ q.toInt * 10000 + m.toNat ∧
      (∀ remote ∈ call.remote?, remote.position ≤ q.toInt * 10000 + m.toNat) ∧
      (q = c.lastPhys ∨ q ∈ call.inputs) := by
  cases call with
  | now wall =>
    simp only [incremented] at raised
    split at raised
    · cases raised
    · rename_i behind
      cases raised
      simp [advanced, advanceLocal, Call.remote?, behind, fits, position]
  | update wall remote =>
    simp only [incremented] at raised
    split at raised
    · rename_i rejected
      split at raised
      · cases raised
      · rename_i behind
        cases raised
        simp [advanced, advanceLocal, Call.remote?, rejected, behind, fits, position]
    rename_i admitted
    simp only [Call.remote?, admitted, Bool.false_eq_true, ↓reduceIte, mem_def,
      Option.some.injEq, forall_eq'] at remoteFits ⊢
    simp only [advanced, admitted, Bool.false_eq_true, ↓reduceIte, advanceRemote]
    simp only [lt_iff_toInt_lt] at raised ⊢
    split at raised
    · cases raised
    rename_i notLater
    rw [if_neg notLater]
    -- The remaining branches of `Update`: remote ahead, clock ahead, same physical part.
    split at raised
    · rename_i ahead
      cases raised
      simp only [if_pos ahead, remoteFits, position, Timestamp.position, Call.inputs,
        mem_cons, true_or, or_true, true_and, and_true]
      omega
    rename_i notAhead
    rw [if_neg notAhead]
    split at raised
    · rename_i own
      cases raised
      simp only [if_pos own, fits, position, Timestamp.position, true_or, true_and, and_true]
      omega
    rename_i notOwn
    cases raised
    rw [if_neg notOwn]
    by_cases larger : c.lastLog < remote.logical
    · have := UInt16.lt_iff_toNat_lt.mp larger
      simp only [if_pos larger, remoteFits, position, Timestamp.position, true_or, true_and,
        and_true]
      omega
    · have := UInt16.lt_iff_toNat_lt.not.mp larger
      simp only [if_neg larger, fits, position, Timestamp.position, true_or, true_and,
        and_true]
      omega

/-- Every attempt to persist succeeds. -/
def succeeding : Nat → Bool := fun _ => true

/-- The ceiling that a successful `persistAheadLocked` commits, if any. -/
def aheadCeiling (c : Clock) : Option Int64 :=
  if c.persist ∧ c.ceilMS < c.lastPhys then some (c.lastPhys + hlcPersistAheadMS) else none

theorem emit_succeeding (c : Clock) :
    c.emit succeeding =
      some ⟨⟨c.normalizeLogicalLocked.lastPhys, c.normalizeLogicalLocked.lastLog, c.nodeID⟩,
        { c.normalizeLogicalLocked with
          ceilMS := c.normalizeLogicalLocked.aheadCeiling.getD c.normalizeLogicalLocked.ceilMS },
        c.normalizeLogicalLocked.aheadCeiling⟩ := by
  have node : c.normalizeLogicalLocked.nodeID = c.nodeID := (spill_frame _ c).1
  have attempted : (List.range hlcPersistRetries).any succeeding = true := rfl
  have order : c.normalizeLogicalLocked.lastPhys ≤ c.normalizeLogicalLocked.ceilMS ↔
      ¬ c.normalizeLogicalLocked.ceilMS < c.normalizeLogicalLocked.lastPhys := by
    rw [le_iff_toInt_le, lt_iff_toInt_lt]
    exact Int.not_lt.symm
  rw [← node]
  unfold emit afterAdvanceLocked persistAheadLocked aheadCeiling
  cases wired : c.normalizeLogicalLocked.persist with
  | false => simp
  | true =>
    by_cases ahead : c.normalizeLogicalLocked.ceilMS < c.normalizeLogicalLocked.lastPhys
    · simp [order, ahead, attempted, wired]
    · simp [order, ahead]

def maxPhysical : Int64 := 9223372036854775807

/-- The position that a call leads to: its wall reading's, or one more than
that of the counter value it increments. -/
def target (c : Clock) (call : Call) : Int :=
  match c.incremented call with
  | none => call.wall.toInt * 10000
  | some (q, m) => q.toInt * 10000 + m.toNat + 1

/-- A call that does not increment the largest counter value emits a four-digit
logical part at its target position. -/
theorem normalized_position (fits : c.lastLog.toNat ≤ 9999)
    (remoteFits : ∀ remote ∈ call.remote?, remote.logical.toNat ≤ 9999)
    (room : c.incremented call ≠ some (maxPhysical, 9999)) :
    (c.advanced call).normalizeLogicalLocked.position = c.target call := by
  have upper := fun x : Int64 => toInt_lt x
  cases adopted : c.incremented call with
  | none =>
    obtain ⟨physical, logical, -, -⟩ := advanced_of_incremented_none adopted
    rw [normalizeLogicalLocked_position, target, adopted]
    · simp [position, physical, logical]
    · simpa [physical, logical] using upper call.wall
  | some value =>
    obtain ⟨q, m⟩ := value
    obtain ⟨physical, logical, small, -⟩ :=
      advanced_of_incremented_some adopted fits remoteFits
    have next : (m + 1).toNat = m.toNat + 1 := by
      exact Nat.mod_eq_of_lt (by change m.toNat + 1 < 65536; omega)
    rw [normalizeLogicalLocked_position, target, adopted]
    · simp only [position, physical, logical, next]
      omega
    simp only [physical, logical, next]
    have bound := upper q
    by_contra full
    -- No room is left only at the largest physical part with logical 9999.
    have topLogical : m = 9999 := UInt16.toNat_inj.mp (by change m.toNat = 9999; omega)
    have topPhysical : q = maxPhysical :=
      toInt_inj.mp (by change q.toInt = 9223372036854775807; omega)
    exact room (by rw [adopted, topLogical, topPhysical])

theorem lt_target (fits : c.lastLog.toNat ≤ 9999)
    (remoteFits : ∀ remote ∈ call.remote?, remote.logical.toNat ≤ 9999) :
    c.position < c.target call ∧ ∀ remote ∈ call.remote?, remote.position < c.target call := by
  unfold target
  split
  · rename_i adopted
    obtain ⟨-, -, later, remoteLater⟩ := advanced_of_incremented_none adopted
    rw [lt_iff_toInt_lt] at later
    refine ⟨by unfold position; omega, fun remote member => ?_⟩
    have physical := lt_iff_toInt_lt.mp (remoteLater remote member)
    have logical := remoteFits remote member
    unfold Timestamp.position
    omega
  · rename_i q m raised
    obtain ⟨-, -, -, own, remotes, -⟩ := advanced_of_incremented_some raised fits remoteFits
    refine ⟨by omega, fun remote member => ?_⟩
    have := remotes remote member
    omega

end Clock

/-- One process: its clock, the physical milliseconds it was given, and the
calls it served with what they returned, newest first. -/
structure Process where
  clock : Clock
  inputs : List Int64
  returned : List (Call × Timestamp)
  deriving DecidableEq, Repr

namespace Process

/-- A new clock, with or without `SetPersistence`. -/
inductive Started : Process → Prop where
  | bare (nodeID : Bytes) : Started ⟨.newClock nodeID, [], []⟩
  | loaded (nodeID : Bytes) (floorMS : Int64) (persist fatal : Bool) :
      Started ⟨(Clock.newClock nodeID).setPersistence floorMS persist fatal, [floorMS], []⟩

def step (p : Process) (call : Call) : Option Process :=
  (p.clock.serve Clock.succeeding call).map fun emission =>
    ⟨emission.clock, call.inputs ++ p.inputs, (call, emission.timestamp) :: p.returned⟩

def FitsThirteen (ms : Int64) : Prop := ms.toInt.natAbs < 10 ^ 13

/-- What the clock promises about everything a process has returned. -/
structure Increasing (p : Process) : Prop where
  ordered : p.returned.Pairwise fun newer older => newer.2.after older.2 = true
  logical : ∀ entry ∈ p.returned, entry.2.logical ≤ Hlc.hlcMaxLogical
  digits : (∀ ms ∈ p.inputs, FitsThirteen ms) →
    ∀ entry ∈ p.returned, FitsThirteen entry.2.physicalMS
  remotes : ∀ entry ∈ p.returned, ∀ remote ∈ entry.1.remote?, entry.2.after remote = true

/-- No call increments a counter that cannot be carried: logical 9999 at the
largest physical part or, while every input has at most thirteen digits, at the
largest one of thirteen digits. -/
structure Carries (p : Process) (call : Call) : Prop where
  parsed : call.RemoteParsed
  room : p.clock.incremented call ≠ some (Clock.maxPhysical, 9999)
  digitRoom : (∀ ms ∈ call.inputs ++ p.inputs, FitsThirteen ms) →
    p.clock.incremented call ≠ some (9999999999999, 9999)

/-- What carries `Increasing` through a call: the clock is at or above everything
returned, and its counter has a carried form. -/
structure Invariant (p : Process) : Prop where
  increasing : Increasing p
  logical : p.clock.lastLog.toNat ≤ 9999
  nonneg : 0 ≤ p.clock.lastPhys.toInt
  digits : (∀ ms ∈ p.inputs, FitsThirteen ms) → p.clock.lastPhys.toInt < 10 ^ 13
  reached : ∀ entry ∈ p.returned, entry.2.position ≤ p.clock.position

variable {p : Process}

theorem Started.invariant (started : Started p) : Invariant p := by
  cases started with
  | bare nodeID =>
    refine ⟨⟨.nil, nofun, nofun, nofun⟩, ?_, ?_, fun _ => ?_, nofun⟩ <;>
      simp [Clock.newClock]
  | loaded nodeID floorMS persist fatal =>
    obtain ⟨logical, physical⟩ := loaded_counter nodeID floorMS persist fatal
    refine ⟨⟨.nil, nofun, nofun, nofun⟩, ?_, ?_, fun fits => ?_, nofun⟩
    · simp [logical]
    · simp only [physical]
      omega
    · have floorFits : floorMS.toInt.natAbs < 10 ^ 13 := fits floorMS (by simp)
      simp only [physical]
      omega

variable {call : Call}

/-- The state a call leads to. -/
theorem step_spec {q : Process} (stepped : step p call = some q)
    (fits : p.clock.lastLog.toNat ≤ 9999)
    (remoteFits : ∀ remote ∈ call.remote?, remote.logical.toNat ≤ 9999)
    (room : p.clock.incremented call ≠ some (Clock.maxPhysical, 9999)) :
    ∃ timestamp : Timestamp, q.returned = (call, timestamp) :: p.returned ∧
      q.inputs = call.inputs ++ p.inputs ∧
      timestamp.logical.toNat ≤ 9999 ∧ timestamp.position = p.clock.target call ∧
      q.clock.lastPhys = timestamp.physicalMS ∧ q.clock.lastLog = timestamp.logical := by
  unfold step at stepped
  rw [serve_eq, emit_succeeding, map_some, Option.some.injEq] at stepped
  subst stepped
  exact ⟨_, rfl, rfl, normalizeLogicalLocked_lastLog_le _,
    normalized_position fits remoteFits room, rfl, rfl⟩

theorem remote_logical_le (parsed : call.RemoteParsed) :
    ∀ remote ∈ call.remote?, remote.logical.toNat ≤ 9999 := by
  cases call with
  | now wall => exact nofun
  | update wall remote =>
    intro admitted member
    simp only [Call.remote?, mem_def, ite_none_left_eq_some,
      Option.some.injEq] at member
    obtain ⟨s, accepted⟩ := parsed
    exact member.2 ▸ (parse_bounds accepted).1

theorem target_digits {timestamp : Timestamp} (invariant : Invariant p) (carries : Carries p call)
    (fits : ∀ ms ∈ call.inputs ++ p.inputs, FitsThirteen ms)
    (logical : timestamp.logical.toNat ≤ 9999)
    (position : timestamp.position = p.clock.target call) :
    timestamp.physicalMS.toInt < 10 ^ 13 := by
  have bounded : ∀ ms ∈ call.inputs, ms.toInt < 10 ^ 13 := by
    intro ms member
    have : ms.toInt.natAbs < 10 ^ 13 := fits ms (mem_append_left _ member)
    omega
  unfold Timestamp.position Clock.target at position
  split at position
  · have wall : call.wall.toInt < 10 ^ 13 :=
      bounded _ (by cases call <;> simp [Call.wall, Call.inputs])
    omega
  rename_i q m raised
  obtain ⟨-, -, small, -, -, origin⟩ :=
    advanced_of_incremented_some raised invariant.logical
      (remote_logical_le carries.parsed)
  have physical : q.toInt < 10 ^ 13 := by
    rcases origin with own | given
    · rw [own]
      exact invariant.digits fun ms member => fits ms (mem_append_right _ member)
    · exact bounded q given
  by_contra large
  have topLogical : m = 9999 := UInt16.toNat_inj.mp (by change m.toNat = 9999; omega)
  have topPhysical : q = 9999999999999 :=
    toInt_inj.mp (by change q.toInt = 9999999999999; omega)
  exact carries.digitRoom fits (by rw [raised, topLogical, topPhysical])

theorem Invariant.step {q : Process} (invariant : Invariant p) (carries : Carries p call)
    (stepped : step p call = some q) : Invariant q := by
  have remoteFits := remote_logical_le carries.parsed
  obtain ⟨timestamp, returned, inputs, logical, position, clockPhys, clockLog⟩ :=
    step_spec stepped invariant.logical remoteFits carries.room
  obtain ⟨above, aboveRemotes⟩ := lt_target invariant.logical remoteFits
  have clockPosition : q.clock.position = timestamp.position := by
    rw [Clock.position, clockPhys, clockLog, Timestamp.position]
  -- The new timestamp lies above the clock, and the clock above all earlier ones.
  have later : ∀ entry ∈ p.returned, entry.2.position < timestamp.position := by
    intro entry member
    have := invariant.reached entry member
    omega
  have nonneg : 0 ≤ timestamp.physicalMS.toInt := by
    have := invariant.nonneg
    unfold Clock.position at above
    unfold Timestamp.position at position
    omega
  have digits : (∀ ms ∈ q.inputs, FitsThirteen ms) → timestamp.physicalMS.toInt < 10 ^ 13 := by
    intro fits
    rw [inputs] at fits
    exact target_digits invariant carries fits logical position
  refine ⟨⟨?_, ?_, ?_, ?_⟩, ?_, ?_, ?_, ?_⟩
  · rw [returned]
    refine .cons (fun entry member => ?_) invariant.increasing.ordered
    exact Timestamp.after_of_position_lt logical
      (invariant.increasing.logical entry member) (later entry member)
  · rw [returned]
    exact forall_mem_cons.mpr ⟨logical, invariant.increasing.logical⟩
  · intro fits
    rw [returned]
    refine forall_mem_cons.mpr ⟨?_, invariant.increasing.digits fun ms member => ?_⟩
    · have := digits fits
      simp only [FitsThirteen]
      omega
    · exact fits ms (by rw [inputs]; exact mem_append_right _ member)
  · rw [returned]
    refine forall_mem_cons.mpr ⟨fun remote member => ?_, invariant.increasing.remotes⟩
    refine Timestamp.after_of_position_lt logical (remoteFits remote member) ?_
    rw [position]
    exact aboveRemotes remote member
  · rw [clockLog]
    exact logical
  · rw [clockPhys]
    exact nonneg
  · rw [clockPhys]
    exact digits
  · rw [returned, clockPosition]
    refine forall_mem_cons.mpr ⟨le_refl _, fun entry member => ?_⟩
    exact le_of_lt (later entry member)

/-- In every run of a process whose calls all carry, each returned timestamp is
strictly after all earlier ones and after the remote it took into account, with
a four-digit logical part and, on inputs of thirteen digits, a physical part of
thirteen digits. -/
theorem increasing_of_carries {start final : Process} (started : Started start)
    (run : Lib.Run step Carries start final) : Increasing final :=
  Invariant.increasing <| run.invariant Invariant started.invariant
    fun _ _ _ carries stepped invariant => invariant.step carries stepped

/-- Three calls and what they return, newest first: the counter of a remote ahead of the wall is
carried, and then the wall goes back. -/
def pastRemote : List (Call × Timestamp) :=
  [(.now 4, ⟨10, 1, bytes "n"⟩), (.update 7 ⟨9, 9999, bytes "x"⟩, ⟨10, 0, bytes "n"⟩),
    (.now 5, ⟨5, 0, bytes "n"⟩)]

theorem increasing_past_remote :
    ∃ final, Lib.Run step Carries ⟨.newClock (bytes "n"), [], []⟩ final ∧
      final.returned = pastRemote ∧ Increasing final := by
  let calls := (pastRemote.map Prod.fst).reverse
  let admits (p : Process) (call : Call) : Bool := call ∈ calls ∧
    p.clock.incremented call ≠ some (Clock.maxPhysical, 9999) ∧
      p.clock.incremented call ≠ some (9999999999999, 9999)
  have sound : ∀ p call, admits p call = true → Carries p call := by
    intro p call admitted
    obtain ⟨known, room, digitRoom⟩ := of_decide_eq_true admitted
    refine ⟨?_, room, fun _ => digitRoom⟩
    obtain rfl | rfl | rfl : call = .now 5 ∨ call = .update 7 ⟨9, 9999, bytes "x"⟩ ∨
        call = .now 4 := by simpa [calls, pastRemote] using known
    · trivial
    · exact ⟨bytes "0000000000009-9999-x", by decide +kernel⟩
    · trivial
  obtain ⟨final, run, returned⟩ : ∃ final,
      Lib.Run step Carries ⟨.newClock (bytes "n"), [], []⟩ final ∧ final.returned = pastRemote :=
    Lib.Run.executed sound calls (by decide +kernel)
  exact ⟨final, run, returned, increasing_of_carries (.bare _) run⟩

/-- Incrementing logical 9999 at physical 9999999999999 returns fourteen digits,
although the wall reading and the parsed remote have thirteen. -/
theorem update_returns_fourteen_digits :
    ∃ remote final,
      parse (bytes "9999999999999-9999-x") = some remote ∧
      Lib.Run step (fun _ call => call.RemoteParsed) ⟨.newClock (bytes "n"), [], []⟩ final ∧
      final.returned = [(.update 9999999999999 remote, ⟨10000000000000, 0, bytes "n"⟩)] ∧
      (∀ ms ∈ final.inputs, FitsThirteen ms) ∧ ¬ Increasing final := by
  refine ⟨⟨9999999999999, 9999, bytes "x"⟩,
    ⟨{ Clock.newClock (bytes "n") with lastPhys := 10000000000000 },
      [9999999999999, 9999999999999],
      [(.update 9999999999999 ⟨9999999999999, 9999, bytes "x"⟩, ⟨10000000000000, 0, bytes "n"⟩)]⟩,
    by decide +kernel,
    .tail (.refl _)
      (show Call.RemoteParsed (.update 9999999999999 ⟨9999999999999, 9999, bytes "x"⟩) from
        ⟨bytes "9999999999999-9999-x", by decide +kernel⟩)
      (by decide +kernel), rfl, ?_, ?_⟩
  · simp [FitsThirteen]
  · intro increasing
    have fits := increasing.digits (by simp [FitsThirteen]) _ (mem_singleton.mpr rfl)
    simp [FitsThirteen] at fits

end Process

end Litevirt.Hlc
