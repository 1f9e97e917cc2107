import Litevirt.Hlc.Monotone

/-!
# Timestamps across restarts

A node runs one clock process after another.  The persisted ceiling is the only
thing that survives a crash; the next process loads it as its floor.  A crash
may fall between two calls, or inside a call after its ceiling was committed and
before its timestamp was returned.
-/

namespace Litevirt.Hlc

open List Option Process

structure Node where
  nodeID : Bytes
  clock : Option Clock
  durable : Int64
  before : List Timestamp
  current : List Timestamp
  deriving DecidableEq, Repr

inductive Event where
  | call (call : Call)
  | crash
  | crashIn (call : Call)
  | restart (fatal : Bool)
  deriving DecidableEq, Repr

/-- The clock has not climbed at its ceiling. -/
def Clock.OffCeiling (c : Clock) : Prop := c.lastPhys = c.ceilMS → c.lastLog = 0

instance (c : Clock) : Decidable c.OffCeiling := by
  unfold Clock.OffCeiling
  infer_instance

namespace Node

def load (nodeID : Bytes) (durable : Int64) (fatal : Bool) : Clock :=
  (Clock.newClock nodeID).setPersistence durable true fatal

/-- The first process of a node, which has returned nothing. -/
def boot (nodeID : Bytes) (durable : Int64) (fatal : Bool) : Node :=
  ⟨nodeID, some (load nodeID durable fatal), durable, [], []⟩

/-- One event of a node; every attempt to persist succeeds. -/
def step (n : Node) : Event → Option Node
  | .call call => do
      let clock ← n.clock
      let emission ← clock.serve Clock.succeeding call
      some { n with
        clock := some emission.clock
        durable := emission.committed.getD n.durable
        current := emission.timestamp :: n.current }
  | .crash => do
      let _ ← n.clock
      some { n with clock := none, before := n.current ++ n.before, current := [] }
  | .crashIn call => do
      let clock ← n.clock
      let emission ← clock.serve Clock.succeeding call
      some { n with
        clock := none
        durable := emission.committed.getD n.durable
        before := n.current ++ n.before
        current := [] }
  | .restart fatal =>
    match n.clock with
    | some _ => none
    | none => some { n with clock := some (load n.nodeID n.durable fatal) }

/-- Everything the running process returned is after everything returned before it. -/
def NeverGoesBack (n : Node) : Prop :=
  ∀ later ∈ n.current, ∀ earlier ∈ n.before, later.after earlier = true

/-- A call leaves room to commit a ceiling ahead of it. -/
structure CeilingFits (clock : Clock) (call : Call) : Prop where
  parsed : call.RemoteParsed
  wall : call.wall.toInt + 2001 < 2 ^ 63
  own : clock.lastPhys.toInt + 2001 < 2 ^ 63

/-- A process does not die while its clock holds a counter that climbed at the ceiling. -/
def ClearOfCeiling (n : Node) : Event → Prop
  | .call call => ∀ clock ∈ n.clock, CeilingFits clock call
  | .crash => ∀ clock ∈ n.clock, clock.OffCeiling
  | .crashIn call => ∀ clock ∈ n.clock, CeilingFits clock call ∧ clock.OffCeiling
  | .restart _ => True

end Node

namespace Clock

theorem advanced_frame (c : Clock) (call : Call) :
    (c.advanced call).ceilMS = c.ceilMS ∧ (c.advanced call).persist = c.persist := by
  cases call with
  | now wall =>
    simp only [advanced, advanceLocal]
    split <;> exact ⟨rfl, rfl⟩
  | update wall remote =>
    simp only [advanced, advanceLocal, advanceRemote]
    repeat' split
    all_goals exact ⟨rfl, rfl⟩

variable {c : Clock} {call : Call}

theorem incremented_lt {q : Int64} {m : UInt16} (fits : c.lastLog.toNat ≤ 9999)
    (ceiling : Node.CeilingFits c call) (raised : c.incremented call = some (q, m)) :
    q.toInt + 2001 < 2 ^ 63 := by
  obtain ⟨-, -, -, -, -, origin⟩ :=
    advanced_of_incremented_some raised fits (remote_logical_le ceiling.parsed)
  rcases origin with own | given
  · rw [own]
    exact ceiling.own
  cases call with
  | now wall =>
    rw [mem_singleton.mp given]
    exact ceiling.wall
  | update wall remote =>
    rcases mem_pair.mp given with rfl | rfl
    · exact ceiling.wall
    · obtain ⟨s, accepted⟩ := ceiling.parsed
      have := (parse_bounds accepted).2
      omega

theorem target_lt (fits : c.lastLog.toNat ≤ 9999) (ceiling : Node.CeilingFits c call) :
    c.target call < (2 ^ 63 - 2000) * 10000 := by
  unfold target
  split
  · have := ceiling.wall
    omega
  rename_i q m raised
  have := incremented_lt fits ceiling raised
  obtain ⟨-, -, small, -⟩ :=
    advanced_of_incremented_some raised fits (remote_logical_le ceiling.parsed)
  omega

/-- What a call of a clock that persists returns: the target as the counter and as the timestamp,
under a ceiling that has not fallen. -/
structure Persisted (c : Clock) (call : Call) (emission : Emission) : Prop where
  position : emission.clock.position = c.target call
  stamped : emission.timestamp.position = c.target call
  logical : emission.timestamp.logical.toNat ≤ 9999
  counter : emission.clock.lastLog = emission.timestamp.logical
  wired : emission.clock.persist = true
  ceiling : emission.clock.ceilMS = emission.committed.getD c.ceilMS
  grown : c.ceilMS.toInt ≤ emission.clock.ceilMS.toInt
  within : emission.clock.lastPhys.toInt ≤ emission.clock.ceilMS.toInt

theorem serve_persisted (persist : c.persist = true) (fits : c.lastLog.toNat ≤ 9999)
    (ceiling : Node.CeilingFits c call) :
    ∃ emission, c.serve succeeding call = some emission ∧ Persisted c call emission := by
  have remoteFits := remote_logical_le ceiling.parsed
  have room : c.incremented call ≠ some (maxPhysical, 9999) := by
    intro raised
    have := incremented_lt fits ceiling raised
    revert this
    decide
  have normalized := normalized_position fits remoteFits room
  have logical := normalizeLogicalLocked_lastLog_le (c.advanced call)
  obtain ⟨-, ceil, wired⟩ := spill_frame (c.advanced call).lastLog.toNat (c.advanced call)
  change (c.advanced call).normalizeLogicalLocked.ceilMS = _ at ceil
  rw [(advanced_frame c call).1] at ceil
  rw [(advanced_frame c call).2, persist] at wired
  have raised : c.ceilMS.toInt ≤
      ((c.advanced call).normalizeLogicalLocked.aheadCeiling.getD c.ceilMS).toInt ∧
      (c.advanced call).normalizeLogicalLocked.lastPhys.toInt ≤
        ((c.advanced call).normalizeLogicalLocked.aheadCeiling.getD c.ceilMS).toInt := by
    unfold aheadCeiling
    by_cases ahead : c.ceilMS < (c.advanced call).normalizeLogicalLocked.lastPhys
    · have bound := target_lt fits ceiling
      have lower := Int64.le_toInt (c.advanced call).normalizeLogicalLocked.lastPhys
      have higher := Int64.lt_iff_toInt_lt.mp ahead
      unfold position at normalized
      rw [if_pos ⟨wired, by rw [ceil]; exact ahead⟩, getD_some, Int64.toInt_add]
      change _ ≤ Int.bmod (_ + 2000) _ ∧ _ ≤ Int.bmod (_ + 2000) _
      rw [Int.bmod_eq_of_le (by omega) (by omega)]
      omega
    · rw [if_neg (fun both => ahead (by rw [← ceil]; exact both.2))]
      exact ⟨le_refl _, not_lt.mp (Int64.lt_iff_toInt_lt.not.mp ahead)⟩
  rw [← ceil] at raised
  exact ⟨_, (serve_eq c succeeding call).trans (emit_succeeding _), normalized, normalized,
    logical, rfl, wired, by rw [← ceil], by rw [← ceil]; exact raised.1, raised.2⟩

theorem OffCeiling.position_le (off : c.OffCeiling) (fits : c.lastLog.toNat ≤ 9999)
    (within : c.lastPhys.toInt ≤ c.ceilMS.toInt) : c.position ≤ c.ceilMS.toInt * 10000 := by
  unfold position
  by_cases atCeiling : c.lastPhys = c.ceilMS
  · rw [off atCeiling, atCeiling]
    exact Int.le_of_eq (Int.add_zero _)
  · have := Int64.toInt_inj.not.mpr atCeiling
    omega

end Clock

namespace Node

/-- What the running clock of a node knows: the ceiling is the persisted one and covers the
counter once a timestamp was returned, and some level separates what earlier processes returned
from its own timestamps. -/
structure Running (n : Node) (clock : Clock) : Prop where
  persist : clock.persist = true
  ceiling : clock.ceilMS = n.durable
  logical : clock.lastLog.toNat ≤ 9999
  within : ∀ t ∈ n.current,
    t.position ≤ clock.position ∧ clock.lastPhys.toInt ≤ clock.ceilMS.toInt
  separated : ∃ level, (∀ t ∈ n.before, t.position ≤ level) ∧
    (∀ t ∈ n.current, level < t.position) ∧ level ≤ clock.position

/-- Nothing that an earlier process returned is past the start of the persisted millisecond. -/
structure Invariant (n : Node) : Prop where
  logical : ∀ t ∈ n.current ++ n.before, t.logical.toNat ≤ 9999
  covered : ∀ t ∈ n.before, t.position ≤ n.durable.toInt * 10000
  running : ∀ clock ∈ n.clock, Running n clock
  stopped : n.clock = none → n.current = []

variable {n : Node}

theorem Invariant.neverGoesBack (invariant : Invariant n) : NeverGoesBack n := by
  intro later laterMember earlier earlierMember
  cases running : n.clock with
  | none =>
    rw [invariant.stopped running] at laterMember
    cases laterMember
  | some clock =>
    obtain ⟨level, below, above, -⟩ := (invariant.running clock running).separated
    have := below earlier earlierMember
    have := above later laterMember
    exact Timestamp.after_of_position_lt
      (invariant.logical later (mem_append_left _ laterMember))
      (invariant.logical earlier (mem_append_right _ earlierMember)) (by omega)

theorem running_load (fatal : Bool) (idle : n.current = [])
    (covered : ∀ t ∈ n.before, t.position ≤ n.durable.toInt * 10000) :
    Running n (load n.nodeID n.durable fatal) := by
  obtain ⟨logical, physical⟩ := Clock.loaded_counter n.nodeID n.durable true fatal
  change (load n.nodeID n.durable fatal).lastLog = 0 at logical
  change (load n.nodeID n.durable fatal).lastPhys.toInt = _ at physical
  refine ⟨rfl, rfl, by simp [logical], ?_, n.durable.toInt * 10000, covered, ?_, ?_⟩
  · rw [idle]
    exact nofun
  · rw [idle]
    exact nofun
  · rw [Clock.position]
    omega

theorem boot_invariant (nodeID : Bytes) (durable : Int64) (fatal : Bool) :
    Invariant (boot nodeID durable fatal) := by
  refine ⟨nofun, nofun, ?_, nofun⟩
  intro clock running
  cases running
  exact running_load fatal rfl nofun

theorem Invariant.crash {durable : Int64} {clock : Clock} (invariant : Invariant n)
    (runs : n.clock = some clock) (off : clock.OffCeiling)
    (grown : n.durable.toInt ≤ durable.toInt) :
    Invariant { n with
      clock := none, durable := durable, before := n.current ++ n.before, current := [] } := by
  refine ⟨invariant.logical, fun t member => ?_, nofun, fun _ => rfl⟩
  change t.position ≤ durable.toInt * 10000
  rcases List.mem_append.mp member with returned | earlier
  · obtain ⟨-, ceiling, logical, within, -⟩ := invariant.running clock runs
    have below := (within t returned).1
    have covered := off.position_le logical (within t returned).2
    rw [ceiling] at covered
    omega
  · have := invariant.covered t earlier
    omega

theorem Invariant.call {clock : Clock} {call : Call} {emission : Clock.Emission}
    (invariant : Invariant n) (runs : n.clock = some clock)
    (later : clock.position < clock.target call) (persisted : clock.Persisted call emission) :
    Invariant { n with
      clock := some emission.clock
      durable := emission.committed.getD n.durable
      current := emission.timestamp :: n.current } := by
  obtain ⟨-, ceiling, -, within, level, below, above, levelLe⟩ := invariant.running clock runs
  obtain ⟨position, stamped, logical, counter, wired, ceil, grown, covers⟩ := persisted
  rw [ceiling] at ceil grown
  refine ⟨forall_mem_cons.mpr ⟨logical, invariant.logical⟩, fun t member => ?_, ?_, nofun⟩
  · have := invariant.covered t member
    change t.position ≤ (emission.committed.getD n.durable).toInt * 10000
    rw [← ceil]
    omega
  · intro _ isClock
    cases isClock
    refine ⟨wired, ceil, by rw [counter]; exact logical, ?_, level, below,
      forall_mem_cons.mpr ⟨by omega, above⟩, by omega⟩
    refine forall_mem_cons.mpr ⟨⟨by omega, covers⟩, fun t member => ⟨?_, covers⟩⟩
    have := (within t member).1
    omega

theorem Invariant.step {next : Node} {event : Event} (invariant : Invariant n)
    (clear : ClearOfCeiling n event) (stepped : step n event = some next) : Invariant next := by
  cases event with
  | call call =>
    obtain ⟨clock, running, served⟩ := bind_eq_some_iff.mp stepped
    obtain ⟨persist, -, logical, -⟩ := invariant.running clock running
    have fits := clear clock running
    obtain ⟨emission, emitted, persisted⟩ := Clock.serve_persisted persist logical fits
    rw [emitted] at served
    cases served
    exact invariant.call running (Clock.lt_target logical (remote_logical_le fits.parsed)).1
      persisted
  | crash =>
    obtain ⟨clock, running, crashed⟩ := bind_eq_some_iff.mp stepped
    cases crashed
    exact invariant.crash running (clear clock running) (le_refl _)
  | crashIn call =>
    obtain ⟨clock, running, served⟩ := bind_eq_some_iff.mp stepped
    obtain ⟨persist, ceiling, logical, -⟩ := invariant.running clock running
    obtain ⟨fits, off⟩ := clear clock running
    obtain ⟨emission, emitted, persisted⟩ := Clock.serve_persisted persist logical fits
    rw [emitted] at served
    cases served
    refine invariant.crash running off ?_
    have grown := persisted.grown
    rw [persisted.ceiling, ceiling] at grown
    exact grown
  | restart fatal =>
    simp only [Node.step] at stepped
    split at stepped
    · cases stepped
    rename_i stopped
    cases stepped
    have idle := invariant.stopped stopped
    refine ⟨invariant.logical, invariant.covered, ?_, nofun⟩
    intro _ isClock
    cases isClock
    exact running_load (n := { n with clock := _ }) fatal idle invariant.covered

/-- In every run of a node that does not die at its ceiling, every timestamp returned after
a restart is strictly after every timestamp returned before it. -/
theorem neverGoesBack_of_clear (nodeID : Bytes) (durable : Int64) (fatal : Bool) {final : Node}
    (run : Lib.Run step ClearOfCeiling (boot nodeID durable fatal) final) :
    NeverGoesBack final :=
  Invariant.neverGoesBack <| run.invariant Invariant (boot_invariant nodeID durable fatal)
    fun _ _ _ clear stepped invariant => invariant.step clear stepped

/-- A ceiling ahead of the time fits an `Int64`. -/
def leavesRoom (ms : Int64) : Bool := ms.toInt + 2001 < 2 ^ 63

/-- The condition, decided for the events of a node that hears of no remote. -/
def clears (n : Node) : Event → Bool
  | .call (.now wall) => leavesRoom wall && n.clock.all (leavesRoom ·.lastPhys)
  | .crash => n.clock.all fun clock => clock.OffCeiling
  | .restart _ => true
  | _ => false

theorem clearOfCeiling_of_clears (n : Node) (event : Event) (clear : clears n event = true) :
    ClearOfCeiling n event := by
  match event with
  | .call (.now wall) =>
    obtain ⟨small, own⟩ := Bool.and_eq_true_iff.mp clear
    intro clock runs
    rw [Option.mem_def.mp runs] at own
    exact ⟨trivial, of_decide_eq_true small, of_decide_eq_true own⟩
  | .crash =>
    intro clock runs
    change n.clock.all _ = true at clear
    rw [Option.mem_def.mp runs] at clear
    exact of_decide_eq_true clear
  | .restart _ => exact True.intro

/-- Two restarts.  After each the wall is below the ceiling and the counter climbs there; the
first of the two processes leaves the ceiling before it dies. -/
theorem neverGoesBack_after_restart :
    NeverGoesBack ⟨bytes "n",
      some ⟨bytes "n", 5001, 1, 0, 5001, true, true⟩, 5001,
      [⟨3001, 0, bytes "n"⟩, ⟨3000, 1, bytes "n"⟩, ⟨1000, 0, bytes "n"⟩],
      [⟨5001, 1, bytes "n"⟩]⟩ :=
  neverGoesBack_of_clear (bytes "n") 0 true <|
    .of_execWhile clearOfCeiling_of_clears (.refl _)
      (show Lib.execWhile step clears
        [.call (.now 1000), .crash, .restart true, .call (.now 2000), .call (.now 3001),
          .crash, .restart true, .call (.now 3001)] (boot (bytes "n") 0 true) = some _
        from by decide +kernel)

/-- At the ceiling the counter climbs without a new ceiling being persisted, so
the next process, which loads that ceiling, returns the same timestamp again. -/
theorem restart_repeats_at_ceiling :
    ∃ final, Lib.exec step
        [.call (.now 1000), .call (.now 3000), .call (.now 3000), .crash, .restart true,
          .call (.now 3000)]
        (boot (bytes "n") 0 true) = some final ∧
      final.before = [⟨3000, 1, bytes "n"⟩, ⟨3000, 0, bytes "n"⟩, ⟨1000, 0, bytes "n"⟩] ∧
      final.current = [⟨3000, 1, bytes "n"⟩] ∧ ¬ NeverGoesBack final := by
  refine ⟨_, rfl, by decide +kernel, by decide +kernel, fun property => ?_⟩
  exact absurd (property _ mem_cons_self _ mem_cons_self) (by decide +kernel)

end Node

end Litevirt.Hlc
