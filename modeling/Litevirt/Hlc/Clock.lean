import Litevirt.Hlc.Timestamp

/-!
# The hybrid logical clock

`hlc.Clock` as a record and its two emitting calls as functions of the wall
reading and of the outcome of each attempt to persist.  Physical parts are
`Int64` and logical parts `UInt16`, with their wrapping arithmetic.
-/

namespace Litevirt.Hlc

def maxSkewMS : Int64 := 5 * 60 * 1000

def hlcPersistAheadMS : Int64 := 2000

def hlcPersistRetries : Nat := 3

def hlcMaxLogical : UInt16 := 9999

/-- `hlc.Clock`.  The two function fields are kept as whether they are wired;
a wired `persistFatal` exits the process, as production's does. -/
structure Clock where
  nodeID : Bytes
  lastPhys : Int64
  lastLog : UInt16
  rejected : UInt64
  ceilMS : Int64
  persist : Bool
  persistFatal : Bool
  deriving DecidableEq, Repr

namespace Clock

def newClock (nodeID : Bytes) : Clock := ⟨nodeID, 0, 0, 0, 0, false, false⟩

def setPersistence (c : Clock) (floorMS : Int64) (persist fatal : Bool) : Clock :=
  let c := if c.lastPhys < floorMS then { c with lastPhys := floorMS, lastLog := 0 } else c
  { c with ceilMS := floorMS, persist := persist, persistFatal := fatal }

/-- The loop of `normalizeLogicalLocked`, with the number of rounds it may still take. -/
def spill : Nat → Clock → Clock
  | 0, c => c
  | fuel + 1, c =>
    if hlcMaxLogical < c.lastLog then
      spill fuel
        { c with lastPhys := c.lastPhys + 1, lastLog := c.lastLog - (hlcMaxLogical + 1) }
    else c

/-- `normalizeLogicalLocked`.  Every round takes 10000 off the logical counter,
so its value bounds the number of rounds. -/
def normalizeLogicalLocked (c : Clock) : Clock := spill c.lastLog.toNat c

/-- `persistAheadLocked`: the clock it leaves and the ceiling it committed, or
`none` when it exits the process.  `persists i` is whether attempt `i` succeeds. -/
def persistAheadLocked (c : Clock) (persists : Nat → Bool) : Option (Clock × Option Int64) :=
  if !c.persist || decide (c.lastPhys ≤ c.ceilMS) then some (c, none)
  else
    let newCeil := c.lastPhys + hlcPersistAheadMS
    if (List.range hlcPersistRetries).any persists then
      some ({ c with ceilMS := newCeil }, some newCeil)
    else if c.persistFatal then none
    -- A fatal function that returns: the value is clamped to the durable ceiling.
    else if c.ceilMS < c.lastPhys then some ({ c with lastPhys := c.ceilMS }, none)
    else some (c, none)

def afterAdvanceLocked (c : Clock) (persists : Nat → Bool) : Option (Clock × Option Int64) :=
  persistAheadLocked c.normalizeLogicalLocked persists

/-- What one emitting call leaves behind. -/
structure Emission where
  timestamp : Timestamp
  clock : Clock
  committed : Option Int64
  deriving DecidableEq, Repr

/-- The common end of `Now` and `Update`: normalize, persist, return the counter. -/
def emit (c : Clock) (persists : Nat → Bool) : Option Emission :=
  (c.afterAdvanceLocked persists).map fun (c, committed) =>
    ⟨⟨c.lastPhys, c.lastLog, c.nodeID⟩, c, committed⟩

/-- The counter takes a later wall reading and otherwise bumps its logical part. -/
def advanceLocal (c : Clock) (phys : Int64) : Clock :=
  if c.lastPhys < phys then { c with lastPhys := phys, lastLog := 0 }
  else { c with lastLog := c.lastLog + 1 }

/-- `Clock.Now` with wall reading `phys`. -/
def now (c : Clock) (phys : Int64) (persists : Nat → Bool) : Option Emission :=
  (c.advanceLocal phys).emit persists

/-- Whether `Update` rejects the remote timestamp for skew. -/
def rejects (phys : Int64) (remote : Timestamp) : Bool :=
  decide (maxSkewMS < remote.physicalMS - phys)

/-- The counter after the branches of `Update` that look at an admitted remote. -/
def advanceRemote (c : Clock) (phys : Int64) (remote : Timestamp) : Clock :=
  if c.lastPhys < phys ∧ remote.physicalMS < phys then
    { c with lastPhys := phys, lastLog := 0 }
  else if c.lastPhys < remote.physicalMS then
    { c with lastPhys := remote.physicalMS, lastLog := remote.logical + 1 }
  else if remote.physicalMS < c.lastPhys then
    { c with lastLog := c.lastLog + 1 }
  else if c.lastLog < remote.logical then
    { c with lastLog := remote.logical + 1 }
  else { c with lastLog := c.lastLog + 1 }

/-- `Clock.Update` with wall reading `phys`. -/
def update (c : Clock) (phys : Int64) (remote : Timestamp) (persists : Nat → Bool) :
    Option Emission :=
  if rejects phys remote then
    (advanceLocal { c with rejected := c.rejected + 1 } phys).emit persists
  else (c.advanceRemote phys remote).emit persists

end Clock

inductive Call where
  | now (wall : Int64)
  | update (wall : Int64) (remote : Timestamp)
  deriving DecidableEq, Repr

namespace Call

def wall : Call → Int64
  | now wall => wall
  | update wall _ => wall

def remote? : Call → Option Timestamp
  | now _ => none
  | update wall remote => if Clock.rejects wall remote then none else some remote

def inputs : Call → List Int64
  | now wall => [wall]
  | update wall remote => [wall, remote.physicalMS]

/-- A remote timestamp is one that `Parse` returned. -/
def RemoteParsed : Call → Prop
  | now _ => True
  | update _ remote => ∃ s, parse s = some remote

end Call

def Clock.serve (c : Clock) (persists : Nat → Bool) : Call → Option Clock.Emission
  | .now wall => c.now wall persists
  | .update wall remote => c.update wall remote persists

end Litevirt.Hlc
