import Litevirt.Lib.Table
import Litevirt.Lib.Transition

/-!
# Health verdicts about one host

`checkHost` of `internal/health/checker.go` as every observer runs it against one target host,
and the `host_health` rows of that target.  `answers` records what the rows forget.  Instants are
nanoseconds of one clock that every observer reads.
-/

namespace Litevirt.Failover

open Litevirt.Lib

def second : Int := 1000000000

def checkInterval : Int := 2 * second

def probeInterval : Int := checkInterval

def suspectThreshold : Nat := 3

def failuresToFence : Nat := 5

def unreadyFailures : Nat := 1

def heartbeatInterval : Int := 10 * second

inductive ProbeResult where
  | ready
  | notReady
  | unreachable
  deriving DecidableEq, Repr

def ProbeResult.answered : ProbeResult → Bool
  | .unreachable => false
  | _ => true

inductive Status where
  | healthy
  | suspect
  | unready
  deriving DecidableEq, Repr

/-- `peerState`: what an observer remembers of the target. -/
structure PeerState where
  status : Option Status
  failures : Nat
  /-- The first unanswered probe of the run in progress. -/
  runStart : Option Int
  answeredUnready : Bool
  lastWriteAt : Option Int
  stallEpoch : Nat
  deriving DecidableEq, Repr

structure HealthRow where
  status : Status
  consecutiveFailures : Nat
  lastSeen : Option Int
  updatedAt : Int
  deriving DecidableEq, Repr

/-- One probe by an observer, with what its stall detector and its own replica of the host
row said when the result came in. -/
structure Probe where
  observer : String
  result : ProbeResult
  /-- The process was stopped between the start of the probe and its result. -/
  straddled : Bool
  /-- The result came within the grace window after a stall. -/
  inGrace : Bool
  stallEpoch : Nat
  /-- The host row reads `offline` or `fenced`. -/
  recoveryPending : Bool
  deriving DecidableEq, Repr

/-- A result that proves nothing changes no state and writes no row. -/
def Probe.withheld (probe : Probe) : Bool :=
  probe.straddled || (probe.result = .unreachable && probe.inGrace)

def shouldPersistHealth (changed healthy answeredUnready recoveryPending : Bool)
    (sinceLastWrite : Int) : Bool :=
  if changed then true
  else if heartbeatInterval ≤ 0 || sinceLastWrite < heartbeatInterval then false
  else answeredUnready || (healthy && recoveryPending)

/-- A target the observer has not probed since it started, or a run that a stall broke. -/
def PeerState.entered (known : Option PeerState) (stallEpoch : Nat) : PeerState :=
  match known with
  | none => ⟨none, 0, none, false, none, stallEpoch⟩
  | some prev => if prev.stallEpoch = stallEpoch then prev
      else { prev with failures := 0, stallEpoch := stallEpoch }

def PeerState.judge (prev : PeerState) : ProbeResult → Status × Nat
  | .ready => (.healthy, 0)
  | .notReady => (.unready, unreadyFailures)
  | .unreachable =>
    -- the silence count starts over after an unready answer
    let failures := if prev.answeredUnready then 1 else prev.failures + 1
    if suspectThreshold ≤ failures then (.suspect, failures)
    else if prev.status = some .unready then (.unready, failures)
    else (.healthy, failures)

def PeerState.nextRunStart (prev : PeerState) (result : ProbeResult) (failures : Nat)
    (observedAt : Int) : Option Int :=
  if result.answered then none
  else if failures = 1 || prev.runStart.isNone then some observedAt
  else prev.runStart

/-- The row a verdict publishes: a healthy one is stamped with the moment the target was
seen, a failing one with the start of its run. -/
def verdictRow (result : ProbeResult) (status : Status) (failures : Nat)
    (runStart : Option Int) (observedAt : Int) : HealthRow :=
  if result = .ready then ⟨.healthy, 0, some (observedAt / second * second), observedAt⟩
  else ⟨status, failures, runStart, observedAt⟩

/-- `checkHost` once the probe has returned: the memory and the row written, if any. -/
def checkHost (known : Option PeerState) (probe : Probe) (observedAt : Int) :
    PeerState × Option HealthRow :=
  let prev := PeerState.entered known probe.stallEpoch
  if probe.withheld then (prev, none)
  else
    let verdict := prev.judge probe.result
    let runStart := prev.nextRunStart probe.result verdict.2 observedAt
    let changed := known.isNone || decide (prev.status ≠ some verdict.1) ||
      decide (prev.failures ≠ verdict.2)
    let sinceWrite := match prev.lastWriteAt with
      | none => heartbeatInterval
      | some writtenAt => observedAt - writtenAt
    let write := shouldPersistHealth changed (probe.result = .ready) (probe.result = .notReady)
      probe.recoveryPending sinceWrite
    let next : PeerState :=
      ⟨some verdict.1, verdict.2, runStart, probe.result = .notReady,
        if write then some observedAt else prev.lastWriteAt, prev.stallEpoch⟩
    (next, if write then some (verdictRow probe.result verdict.1 verdict.2 runStart observedAt)
      else none)

structure Answer where
  observer : String
  instant : Int
  deriving DecidableEq, Repr

structure Watch where
  now : Int
  peers : String → Option PeerState
  /-- The `host_health` rows with the host as target, by observer. -/
  rows : Table String HealthRow
  answers : List Answer

def Watch.initial (now : Int) : Watch := ⟨now, fun _ => none, Table.empty, []⟩

inductive WatchEvent where
  | pass (elapsed : Nat)
  | probe (probe : Probe)
  /-- The observer's daemon restarts and forgets what it counted. -/
  | restart (observer : String)
  deriving DecidableEq, Repr

def Watch.publish (w : Watch) (observer : String) : Option HealthRow → Watch
  | none => w
  | some row => { w with rows := w.rows.put observer row }

/-- The observer's memory after a probe, and the answer it got. -/
def Watch.noted (w : Watch) (probe : Probe) (peer : PeerState) : Watch :=
  { w with
    peers := Function.update w.peers probe.observer (some peer)
    answers := if probe.result.answered then ⟨probe.observer, w.now⟩ :: w.answers
      else w.answers }

def Watch.observe (w : Watch) (probe : Probe) : Watch :=
  let checked := checkHost (w.peers probe.observer) probe w.now
  (w.noted probe checked.1).publish probe.observer checked.2

def Watch.step (w : Watch) : WatchEvent → Option Watch
  | .pass elapsed => some { w with now := w.now + elapsed }
  | .probe probe => some (w.observe probe)
  | .restart observer => some { w with peers := Function.update w.peers observer none }

theorem judge_unreachable (prev : PeerState) :
    (prev.judge .unreachable).2 = if prev.answeredUnready then 1 else prev.failures + 1 := by
  simp only [PeerState.judge, apply_ite Prod.snd, ite_self]

/-- What a probe leaves of a silent run: the run begins with it, or it was in progress. -/
theorem runStart_checkHost {known : Option PeerState} {probe : Probe} {now since : Int}
    (silent : (checkHost known probe now).1.runStart = some since)
    (counted : (checkHost known probe now).1.failures ≠ 0) :
    since = now ∧ probe.withheld = false ∨
      ∃ peer, known = some peer ∧ peer.failures ≠ 0 ∧ peer.runStart = some since := by
  -- a run that goes on was counted before, in the same epoch
  have going : ∀ {epoch}, (PeerState.entered known epoch).failures ≠ 0 →
      (PeerState.entered known epoch).runStart = some since →
      ∃ peer, known = some peer ∧ peer.failures ≠ 0 ∧ peer.runStart = some since := by
    intro epoch counted silent
    cases known with
    | none => cases silent
    | some peer =>
      simp only [PeerState.entered] at counted silent
      split at counted
      · rw [if_pos (by assumption)] at silent
        exact ⟨peer, rfl, counted, silent⟩
      · exact absurd rfl counted
  simp only [checkHost] at silent counted
  split at silent
  · rename_i withheld
    rw [if_pos withheld] at counted
    exact .inr (going counted silent)
  rename_i counts
  rw [if_neg counts] at counted
  simp only [PeerState.nextRunStart] at silent
  split at silent
  · cases silent
  rename_i missed
  have unreachable : probe.result = .unreachable := by
    cases result : probe.result <;> simp [result, ProbeResult.answered] at missed
    rfl
  split at silent
  · exact .inl ⟨(Option.some.inj silent).symm, by simpa using counts⟩
  · rename_i later
    refine .inr (going ?_ silent)
    intro fresh
    simp [unreachable, judge_unreachable, fresh] at later

end Litevirt.Failover
