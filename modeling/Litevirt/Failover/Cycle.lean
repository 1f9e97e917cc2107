import Litevirt.Failover.Standing

/-!
# The fence loop of the failover coordinator

`run`, `failover`, `recoverFenced`, `recoverHosts` and `clearRecoveredFromFenced` of
`internal/failover/coordinator.go`, with `pauseDeadlinePassed` and `retryPauseWait` of
`partition_pause.go`.  What the loop reads from elsewhere (leases, gates, confirmations, stall
and quorum grace) is an input of the step.  Each recovery that relies on a partition pause is
noted with the moment of its fence.
-/

namespace Litevirt.Failover

open Litevirt.Lib

inductive HostState where
  | active
  | joining
  | upgrading
  | draining
  | maintenance
  | offline
  | fenced
  deriving DecidableEq, Repr

inductive Method where
  | ipmi
  | ssh
  | watchdog
  | manual
  | bestEffortSsh
  deriving DecidableEq, Repr

/-- `fencing_log.result`: `fenced`, `partial` and `manual-confirmed`. -/
inductive LogResult where
  | fenced
  | unfinished
  | manualConfirmed
  deriving DecidableEq, Repr

inductive Strategy where
  | bestEffort
  | ipmi
  | ssh
  | manual
  | watchdog
  deriving DecidableEq, Repr

/-- `hosts.fence_strategy`: the strategy it resolves to, and whether the stored text is the
strategy's own name.  An empty or unknown text resolves to `bestEffort`. -/
structure FenceStrategy where
  resolved : Strategy
  verbatim : Bool
  deriving DecidableEq, Repr

/-- The strategy a re-fence takes from the recorded method. -/
def Method.asStrategy : Method → FenceStrategy
  | .ipmi => ⟨.ipmi, true⟩
  | .ssh => ⟨.ssh, true⟩
  | .watchdog => ⟨.watchdog, true⟩
  | .manual => ⟨.manual, true⟩
  | .bestEffortSsh => ⟨.bestEffort, false⟩

/-- A fence's detail; `relies` when it begins with `FencePauseReliance`. -/
structure Detail where
  relies : Bool
  text : String
  deriving DecidableEq, Repr

structure FenceResult where
  method : Method
  detail : Detail
  success : Bool
  deriving DecidableEq, Repr

structure HostRow where
  state : HostState
  fenceStrategy : FenceStrategy
  /-- `LabelFenceRequiresConfirmation`. -/
  requiresConfirmation : Bool
  deriving DecidableEq, Repr

/-- A row of `fencing_log`.  `recordedAt` is the moment it was written, on the monotonic
clock; the timestamp is the writer's wall clock. -/
structure FenceRow where
  host : String
  method : Method
  result : LogResult
  detail : Detail
  timestamp : Int
  recordedAt : Int
  deriving DecidableEq, Repr

/-- `pauseWait`, with the moment the fence it waits out was recorded. -/
structure PauseWait where
  deadline : Int
  fenceAt : Int
  wait : Int
  recordedAt : Int
  deriving DecidableEq, Repr

/-- A recovery that went ahead on a fence that relies on the host's pause. -/
structure Recovery where
  host : String
  recordedAt : Int
  wait : Int
  recoveredAt : Int
  deriving DecidableEq, Repr

structure Coordinator where
  mono : Int
  wall : Int
  hosts : Table String HostRow
  fencingLog : List FenceRow
  /-- The `host_health` rows about a host. -/
  health : String → List (String × HealthRow)
  adopted : Nat
  /-- The generation and the member count of each voter configuration. -/
  voterConfigs : List (Nat × Nat)
  fenced : String → Bool
  fenceRelocated : String → Option Bool
  pauseWaits : String → Option PauseWait
  recoveries : List Recovery

/-- `ProofGrade`: an IPMI power-off that was seen, or an operator's confirmation. -/
def proofGrade (method : Method) (result : LogResult) : Bool :=
  result = .manualConfirmed || (result = .fenced && method = .ipmi)

def FenceResult.logResult (fr : FenceResult) : LogResult :=
  if fr.success then .fenced else .unfinished

def FenceResult.provedOff (fr : FenceResult) : Bool := proofGrade fr.method fr.logResult

def reliesOnPartitionPause (method : Method) (detail : Detail) : Bool :=
  method = .bestEffortSsh && detail.relies

def asSelfPause (fr : FenceResult) (relied : Bool) : FenceResult :=
  if !fr.success || fr.method ≠ .bestEffortSsh || !relied then fr
  else { fr with detail := { fr.detail with relies := true } }

def legacyFenceProvedOff (h : HostRow) (fr : FenceResult) : Bool :=
  if h.requiresConfirmation then fr.provedOff else fr.success && fr.method ≠ .manual

def fenceRecordState (h : HostRow) (fr : FenceResult) (latched : Bool) : Option HostState :=
  if !fr.success then none
  else if fr.provedOff then some .fenced
  else if !latched && legacyFenceProvedOff h fr then some .fenced
  else some .offline

/-- `ranUnder` is `none` when resuming. -/
def fenceWasBestEffort (method : Method) (ranUnder : Option FenceStrategy) : Bool :=
  if method = .bestEffortSsh then true
  else match ranUnder with
    | some strategy => strategy.resolved = .bestEffort
    | none => method = .ssh

def recentFenceWindow : Int := 300 * second

/-- `readNewestFenceAttempt`: of two attempts in one second the failed one is the newer. -/
def newerAttempt (best : Option FenceRow) (row : FenceRow) : Option FenceRow :=
  match best with
  | none => some row
  | some found =>
    if found.timestamp < row.timestamp ||
        (row.timestamp = found.timestamp && row.result = .unfinished)
    then some row else some found

def newestFenceAttempt (log : List FenceRow) (host : String) : Option FenceRow :=
  (log.filter fun row => row.host = host && row.result ≠ .manualConfirmed).foldl
    newerAttempt none

namespace Coordinator

def recordedFence (c : Coordinator) (host : String) (h : HostRow) : Option FenceRow :=
  if h.state ≠ .fenced && h.state ≠ .offline then none
  else match newestFenceAttempt c.fencingLog host with
    | none => none
    | some row => if row.result ≠ .fenced || row.method = .manual then none else some row

/-- `fenceStillStands` on this replica. -/
def stands (c : Coordinator) (host : String) (fenceAt : Int) : Bool :=
  fenceStillStands host (c.health host) c.wall fenceAt = .ok ()

end Coordinator

inductive ResumeAction where
  | decline
  | fromRecord
  | afterRefence
  deriving DecidableEq, Repr

def Coordinator.resumeActionFor (c : Coordinator) (host : String) (row : FenceRow) :
    ResumeAction :=
  let stands := c.stands host row.timestamp
  if !proofGrade row.method row.result then
    if stands then .fromRecord else .decline
  else if stands && c.wall - recentFenceWindow < row.timestamp then .fromRecord
  else .afterRefence

def checkTimeout : Int := 3 * second

def probeConcurrency : Nat := 16

def probeCycleFor (targets : Nat) : Int :=
  max checkInterval ((max 1 ((targets + probeConcurrency - 1) / probeConcurrency) : Nat) *
    checkTimeout)

def minorityDetectBoundFor (targets : Nat) : Int :=
  ((suspectThreshold + 1 : Nat) : Int) * probeCycleFor targets

def partitionPauseAfter : Int := failuresToFence * checkInterval

/-- Two ticks of the pauser, the budget for the pauses and the slack. -/
def partitionPauseMarginFor (targets : Nat) : Int :=
  max 0 (minorityDetectBoundFor targets - ((failuresToFence : Int) - 1) * checkInterval) +
    2 * second + 5 * second + 2 * second

def partitionPauseWaitFor (targets : Nat) : Int :=
  partitionPauseAfter + partitionPauseMarginFor targets

namespace Coordinator

/-- `W`: for the hosts out of maintenance or the largest voter generation in force. -/
def partitionPauseWait (c : Coordinator) : Int :=
  let hosts := (c.hosts.rows.filter fun entry => entry.2.state ≠ .maintenance).length
  let size := c.voterConfigs.foldl
    (fun size config => if c.adopted ≤ config.1 && size < config.2 then config.2 else size) hosts
  partitionPauseWaitFor (max 1 (size - 1))

/-- The wait that the first call for a host starts. -/
def startWait (c : Coordinator) (lastContact : Option Int) (recordedAt : Int) : PauseWait :=
  let anchor := match lastContact with
    | some contact => if c.mono < contact then contact else c.mono
    | none => c.mono
  ⟨anchor + c.partitionPauseWait, c.wall, c.partitionPauseWait, recordedAt⟩

def pauseDeadlinePassed (c : Coordinator) (host : String) (lastContact : Option Int)
    (recordedAt : Int) : Bool × Coordinator :=
  match c.pauseWaits host with
  | some w => (decide (w.deadline ≤ c.mono), c)
  | none => (decide (c.partitionPauseWait ≤ 0),
      { c with pauseWaits :=
          Function.update c.pauseWaits host (some (c.startWait lastContact recordedAt)) })

def forgetWait (c : Coordinator) (host : String) : Coordinator :=
  { c with pauseWaits := Function.update c.pauseWaits host none }

def markHandled (c : Coordinator) (host : String) : Coordinator :=
  { c with fenced := Function.update c.fenced host true }

def unmark (c : Coordinator) (host : String) : Coordinator :=
  { c with fenced := Function.update c.fenced host false }

/-- `recoverWorkloads`, as far as the fence loop sees it: whether anything moved. -/
def recoverWorkloads (c : Coordinator) (host : String) (moved : Bool) : Coordinator :=
  if moved then { c with fenceRelocated := Function.update c.fenceRelocated host (some true) }
  else c

def note (c : Coordinator) (host : String) (recordedAt wait : Int) : Coordinator :=
  { c with recoveries := ⟨host, recordedAt, wait, c.mono⟩ :: c.recoveries }

def markHostState (c : Coordinator) (host : String) (state : HostState) : Coordinator :=
  match c.hosts.find host with
  | some row => { c with hosts := c.hosts.put host { row with state := state } }
  | none => c

def retryPauseWait (c : Coordinator) (host : String) (moved : Bool) : Bool × Coordinator :=
  match c.pauseWaits host with
  | none => (false, c)
  | some w =>
    match c.hosts.find host with
    | none => (true, c)
    | some h =>
      if h.state ≠ .fenced && h.state ≠ .offline then (true, c.forgetWait host)
      else if c.mono < w.deadline then (true, c)
      else if c.stands host w.fenceAt then
        (true, ((c.forgetWait host).note host w.recordedAt w.wait).recoverWorkloads host moved)
      else (true, c.forgetWait host)

end Coordinator

/-- What the loop reads from elsewhere while it handles one candidate. -/
structure Circumstances where
  retryClaims : Bool
  confirmationResumed : Bool
  confirmationFencesAfresh : Bool
  turnedActive : Bool
  upgradingTimedOut : Bool
  recentlyFenced : Bool
  localStall : Bool
  quorumRegain : Bool
  fenceStateLatched : Bool
  relyOnPartitionPause : Bool
  /-- The lease is long enough to fence, and still held once the fence is recorded. -/
  leaseToFence : Bool
  leaseAfterFence : Bool
  /-- What the fencer returns, how long it takes, and the time from its record on. -/
  fenceResult : FenceResult
  fencing : Nat
  recording : Nat
  safeFenceRequiresProof : Bool
  manualFenceConfirmed : Bool
  /-- `LastContact`, on the monotonic clock. -/
  lastContact : Option Int
  moved : Bool
  deriving DecidableEq, Repr

namespace Coordinator

/-- The refusals of `recoverFenced` that come before the pause wait. -/
def refusesRecovery (h : HostRow) (fr : FenceResult) (ranUnder : Option FenceStrategy)
    (o : Circumstances) : Bool :=
  (fenceWasBestEffort fr.method ranUnder && o.safeFenceRequiresProof &&
      !o.manualFenceConfirmed) ||
    (h.requiresConfirmation && fr.success && !fr.provedOff && !o.manualFenceConfirmed) ||
    (!fr.success &&
      -- a failed fence goes ahead for best-effort, and for manual once it is confirmed
      !(h.fenceStrategy = ⟨.bestEffort, true⟩) &&
      !(h.fenceStrategy = ⟨.manual, true⟩ && o.manualFenceConfirmed))

/-- The host is handled for this outage; a fence that did not record it fenced leaves it
offline. -/
def markDown (c : Coordinator) (host : String) (h : HostRow) (fr : FenceResult)
    (latched : Bool) : Coordinator :=
  if fenceRecordState h fr latched ≠ some .fenced && h.state ≠ .offline
  then (c.markHandled host).markHostState host .offline else c.markHandled host

/-- `recoverFenced`; `recordedAt` is the moment of the fence it acts on. -/
def recoverFenced (c : Coordinator) (host : String) (h : HostRow) (fr : FenceResult)
    (ranUnder : Option FenceStrategy) (latched : Bool) (recordedAt : Int)
    (o : Circumstances) : Coordinator :=
  let marked := c.markDown host h fr latched
  if refusesRecovery h fr ranUnder o then marked
  else if reliesOnPartitionPause fr.method fr.detail then
    let gate := marked.pauseDeadlinePassed host o.lastContact recordedAt
    if gate.1 then
      ((gate.2.forgetWait host).note host recordedAt gate.2.partitionPauseWait).recoverWorkloads
        host o.moved
    else gate.2
  else (marked.forgetWait host).recoverWorkloads host o.moved

def elapse (c : Coordinator) (time : Nat) : Coordinator :=
  { c with mono := c.mono + time, wall := c.wall + time }

/-- The record of a fence that ran, with the host state it establishes. -/
def recordFence (c : Coordinator) (host : String) (h : HostRow) (fr : FenceResult)
    (latched : Bool) : Coordinator :=
  let row : FenceRow := ⟨host, fr.method, fr.logResult, fr.detail, c.wall / second * second, c.mono⟩
  let logged := { c with fencingLog := c.fencingLog ++ [row] }
  match fenceRecordState h fr latched with
  | some state => logged.markHostState host state
  | none => logged

/-- This coordinator fenced the host and has moved nothing off it. -/
def commit (c : Coordinator) (host : String) : Coordinator :=
  { c with fenceRelocated := Function.update c.fenceRelocated host (some false) }

def failover (c : Coordinator) (host : String) (h : HostRow) (o : Circumstances) : Coordinator :=
  let pauseRelied := h.fenceStrategy.resolved = .bestEffort && o.relyOnPartitionPause
  if !o.leaseToFence then c
  else
    let fr := asSelfPause o.fenceResult pauseRelied
    let fencedAt := c.elapse o.fencing
    let recorded := (fencedAt.recordFence host h fr o.fenceStateLatched).elapse o.recording
    if !o.leaseAfterFence then recorded
    else
      let seen := match fenceRecordState h fr o.fenceStateLatched with
        | some state => { h with state := state }
        | none => h
      (recorded.commit host).recoverFenced host seen fr (some h.fenceStrategy) o.fenceStateLatched
        fencedAt.mono o

def terminal (state : HostState) : Bool :=
  state = .offline || state = .maintenance || state = .fenced

/-- The skips between the terminal states and the fence, and the fence. -/
def fencePath (c : Coordinator) (host : String) (h : HostRow) (afresh : Bool)
    (o : Circumstances) : Coordinator :=
  if h.state = .upgrading && !o.upgradingTimedOut then c
  else if !afresh && o.recentlyFenced then c
  else if o.localStall || o.quorumRegain then c
  else c.failover host h o

/-- The end of the terminal-state branch: fence afresh on a confirmation, or skip. -/
def skipOrFence (c : Coordinator) (host : String) (h : HostRow) (recorded : Bool)
    (o : Circumstances) : Coordinator :=
  if o.confirmationResumed then (c.markHandled host).recoverWorkloads host o.moved
  else if o.confirmationFencesAfresh && (h.state = .offline || h.state = .fenced) then
    c.fencePath host h true o
  else if h.state ≠ .fenced && !recorded then c.markHandled host
  else c

/-- A candidate that is not, or no longer, marked as handled. -/
def judge (c : Coordinator) (host : String) (afresh : Bool) (o : Circumstances) : Coordinator :=
  match c.hosts.find host with
  | none => c
  | some h =>
    if h.state = .joining || o.turnedActive then c
    else if !afresh && terminal h.state then
      match c.recordedFence host h with
      | some row =>
        match c.resumeActionFor host row with
        | .fromRecord =>
          c.recoverFenced host h ⟨row.method, row.detail, true⟩ none o.fenceStateLatched
            row.recordedAt o
        | .afterRefence =>
          if o.localStall then c.skipOrFence host h true o
          else c.failover host { h with fenceStrategy := row.method.asStrategy } o
        | .decline => c.skipOrFence host h true o
      | none => c.skipOrFence host h false o
    else c.fencePath host h afresh o

def candidate (c : Coordinator) (host : String) (o : Circumstances) : Coordinator :=
  if c.fenced host then
    let retried := c.retryPauseWait host o.moved
    if retried.1 then retried.2
    else if o.retryClaims then retried.2.recoverWorkloads host o.moved
    else if o.confirmationResumed then
      (retried.2.markHandled host).recoverWorkloads host o.moved
    else match retried.2.hosts.find host with
      | none => retried.2
      | some h =>
        if o.confirmationFencesAfresh && (h.state = .offline || h.state = .fenced) then
          (retried.2.unmark host).judge host true o
        else retried.2
  else c.judge host false o

def isActive (c : Coordinator) (host : String) : Bool :=
  match c.hosts.find host with
  | some row => row.state = .active
  | none => false

def clearRecoveredFromFenced (c : Coordinator) : Coordinator :=
  let cleared := fun host => c.fenced host && c.isActive host
  { c with
    fenced := fun host => if cleared host then false else c.fenced host
    fenceRelocated := fun host => if cleared host then none else c.fenceRelocated host
    pauseWaits := fun host => if cleared host then none else c.pauseWaits host }

/-- Whether `recoverHosts` may put a host back in service; `recent` lists the hosts that
`recentlyFenced` holds for. -/
def recoverable (c : Coordinator) (recent : List String) (host : String) (h : HostRow) : Bool :=
  let mineUnmoved := c.fenceRelocated host = some false
  match h.state with
  | .offline =>
    match newestFenceAttempt c.fencingLog host with
    | some row => if row.result = .fenced then mineUnmoved else host ∉ recent
    | none => host ∉ recent
  | .fenced => mineUnmoved
  | _ => false

/-- Whether `recoverHosts` puts a host back in service; `healthy` lists the hosts that a
fresh quorum reports healthy. -/
def promotes (c : Coordinator) (healthy recent : List String) (host : String) : Bool :=
  match c.hosts.find host with
  | some h => c.recoverable recent host h && host ∈ healthy
  | none => false

def recoverHost (healthy recent : List String) (c : Coordinator) (host : String) : Coordinator :=
  if c.promotes healthy recent host then
    let active := c.markHostState host .active
    { active with
      fenced := Function.update active.fenced host false
      fenceRelocated := Function.update active.fenceRelocated host none }
  else c

def recoverHosts (c : Coordinator) (healthy recent : List String) : Coordinator :=
  (c.hosts.rows.map Prod.fst).foldl (recoverHost healthy recent) c

end Coordinator

/-- The parts of a cycle, and what changes around the coordinator. -/
inductive CycleEvent where
  | elapse (mono : Nat) (wall : Int)
  | setHost (host : String) (row : HostRow)
  | setHealth (host : String) (rows : List (String × HealthRow))
  | setVoters (adopted : Nat) (configs : List (Nat × Nat))
  | recorded (host : String) (method : Method) (result : LogResult) (detail : Detail)
      (timestamp : Int)
  | restart
  | clearRecovered
  | candidate (host : String) (o : Circumstances)
  | recoverHosts (healthy recent : List String)
  deriving DecidableEq, Repr

def Coordinator.step (c : Coordinator) : CycleEvent → Option Coordinator
  | .elapse mono wall => some { c with mono := c.mono + mono, wall := c.wall + wall }
  | .setHost host row => some { c with hosts := c.hosts.put host row }
  | .setHealth host rows => some { c with health := Function.update c.health host rows }
  | .setVoters adopted configs => some { c with adopted := adopted, voterConfigs := configs }
  | .recorded host method result detail timestamp =>
    some { c with fencingLog :=
      c.fencingLog ++ [⟨host, method, result, detail, timestamp, c.mono⟩] }
  | .restart => some { c with
      fenced := fun _ => false, fenceRelocated := fun _ => none, pauseWaits := fun _ => none }
  | .clearRecovered => some c.clearRecoveredFromFenced
  | .candidate host o => some (c.candidate host o)
  | .recoverHosts healthy recent => some (c.recoverHosts healthy recent)

/-- A coordinator that has just started, with an empty replica. -/
def Coordinator.initial (mono wall : Int) : Coordinator :=
  ⟨mono, wall, Table.empty, [], fun _ => [], 0, [], fun _ => false, fun _ => none,
    fun _ => none, []⟩

end Litevirt.Failover
