import Litevirt.Claims.VoteSpec

/-!
# The resume check of a paused workload

A host that paused its workloads while it was cut off asks the other voters before it resumes one
(`internal/grpcapi/partition_pause.go`).  `DecideResume` of `internal/health/partition_pause.go`
wants clean answers from enough of them that, with the asking host, they are a majority.
-/

namespace Litevirt.Pause

open Litevirt.Claims

inductive PauseKind where
  | vm
  | ct
  deriving DecidableEq, Repr

def PauseKind.text : PauseKind → String
  | vm => "vm"
  | ct => "ct"

def claimKindOf : PauseKind → TargetKind
  | .ct => .container
  | .vm => .vm

structure PauseRecord where
  kind : PauseKind
  name : String
  host : String
  ownerEpoch : Int
  incarnation : String
  deriving DecidableEq, Repr

namespace PauseRecord

def key (r : PauseRecord) : String := r.kind.text ++ "/" ++ r.name

/-- The claim that a recovery of the workload is decided under. -/
def claimKey (r : PauseRecord) : ClaimKey :=
  ⟨claimKindOf r.kind, r.name, r.ownerEpoch, 0, r.incarnation⟩

end PauseRecord

structure WorkloadRow where
  ownerEpoch : Int
  createdAt : String
  deriving DecidableEq, Repr

/-- What a voter's replica holds: the states of hosts, the live VMs with the host that has them,
and the live containers by host and name. -/
structure Replica where
  hostState : String → Option String
  vm : String → Option (String × WorkloadRow)
  container : (host name : String) → Option WorkloadRow

def incarnationOf (createdAt : String) : String :=
  if createdAt = "" then "unstamped" else createdAt

structure PausedWorkload where
  kind : TargetKind
  name : String
  ownerEpoch : Int
  incarnation : String
  deriving DecidableEq, Repr

structure RowView where
  live : Bool
  host : String
  ownerEpoch : Int
  incarnation : String
  deriving DecidableEq, Repr

structure PausedWorkloadView where
  kind : TargetKind
  name : String
  row : RowView
  acceptedDest : String
  deriving DecidableEq, Repr

structure ConfirmResponse where
  voter : String
  callerState : String
  views : List PausedWorkloadView

/-- The destination that a voter's accepted value at a key names, if any. -/
def destOf (db : VoterDB) (key : ClaimKey) : String :=
  match (db.loadClaimRowTx key).1.value with
  | some v =>
    match v.proof with
    | some p => p.destHost
    | none => ""
  | none => ""

def rowView (replica : Replica) (caller : String) (kind : TargetKind) (name : String) :
    Except String RowView :=
  let found : String × WorkloadRow → RowView := fun (host, row) =>
    ⟨true, host, row.ownerEpoch, incarnationOf row.createdAt⟩
  let absent : RowView := ⟨false, "", 0, ""⟩
  match kind with
  | .vm => .ok ((replica.vm name).elim absent found)
  | .container => .ok ((replica.container caller name).elim absent fun row => found (caller, row))
  | other => .error ("unknown workload kind \"" ++ other.text ++ "\"")

/-- The view of one workload: its row, and the destination that was accepted for it under the key
with its incarnation or under the legacy key. -/
def workloadView (replica : Replica) (db : VoterDB) (caller : String) (w : PausedWorkload) :
    Except String PausedWorkloadView := do
  let row ← rowView replica caller w.kind w.name
  let key : ClaimKey := ⟨w.kind, w.name, w.ownerEpoch, 0, w.incarnation⟩
  let dest := if destOf db key.legacy ≠ "" then destOf db key.legacy else destOf db key
  return ⟨w.kind, w.name, row, dest⟩

def confirmPartitionResume (me : String) (replica : Replica) (db : VoterDB) (caller : String)
    (workloads : List PausedWorkload) : Except String ConfirmResponse :=
  if caller = "" then .error "partition resume check: no caller identity"
  else do
    let views ← workloads.mapM (workloadView replica db caller)
    return ⟨me, (replica.hostState caller).getD "absent", views⟩

/-- `VoterAnswer`; the maps are functions of the record's key. -/
structure VoterAnswer where
  voter : String
  err : Option String
  hostDown : Bool
  hostState : String
  accepted : String → Option String
  rows : String → Option RowView

/-- `views[kind + "/" + name]`: the last view of a workload. -/
def viewOf (views : List PausedWorkloadView) (r : PauseRecord) : Option PausedWorkloadView :=
  views.reverse.find? fun v =>
    v.kind.text ++ "/" ++ v.name = (claimKindOf r.kind).text ++ "/" ++ r.name

/-- The loop over the records: a record without a view ends it. -/
def noteViews (views : List PausedWorkloadView) : List PauseRecord → VoterAnswer → VoterAnswer
  | [], a => a
  | r :: rest, a =>
    match viewOf views r with
    | none => { a with err := some ("no view of " ++ r.key) }
    | some v =>
      noteViews views rest { a with
        rows := Function.update a.rows r.key (some v.row)
        accepted := if v.acceptedDest ≠ "" then
          Function.update a.accepted r.key (some v.acceptedDest) else a.accepted }

/-- `askPartitionResume`, from what the call returned. -/
def askPartitionResume (voter : String) (reply : Except String ConfirmResponse)
    (recs : List PauseRecord) : VoterAnswer :=
  match reply with
  | .error text => ⟨voter, some text, false, "", fun _ => none, fun _ => none⟩
  | .ok resp =>
    noteViews resp.views recs
      ⟨voter, none,
        resp.callerState = "fenced" ∨ resp.callerState = "offline" ∨ resp.callerState = "absent",
        resp.callerState, fun _ => none, fun _ => none⟩

structure ResumeVerdict where
  ok : Bool
  reason : String
  deriving DecidableEq, Repr

/-- What one answer adds: an objection, an answer that does not count, or a clean one. -/
inductive AnswerKind where
  | objects (reason : String)
  | missing (text : String)
  | clean

/-- One round of the loop of `DecideResume`. -/
def readAnswer (rec_ : PauseRecord) (a : VoterAnswer) : AnswerKind :=
  match a.err with
  | some text => .missing (a.voter ++ ": " ++ text)
  | none =>
    if a.hostDown then .objects ("voter " ++ a.voter ++ " has " ++ rec_.host ++ " " ++ a.hostState)
    else
      match a.accepted rec_.key with
      | some dest =>
        .objects ("voter " ++ a.voter ++ " accepted a recovery claim moving " ++ rec_.key ++
          " to " ++ dest ++ s!" at epoch {rec_.ownerEpoch}")
      | none =>
        match a.rows rec_.key with
        | none => .missing (a.voter ++ ": no row view")
        | some row =>
          if row.live = false then
            .objects ("voter " ++ a.voter ++ " has no live row for " ++ rec_.key)
          else if row.host ≠ rec_.host ∨ row.ownerEpoch ≠ rec_.ownerEpoch ∨
              row.incarnation ≠ rec_.incarnation then
            .objects ("voter " ++ a.voter ++ " has " ++ rec_.key ++ " on " ++ row.host ++
              s!" at epoch {row.ownerEpoch} (incarnation " ++ row.incarnation ++
              "); the pause recorded " ++ rec_.host ++ s!" at epoch {rec_.ownerEpoch}")
          else .clean

def decideResume (rec_ : PauseRecord) (answers : List VoterAnswer) (needOthers : Nat) :
    ResumeVerdict :=
  loop answers 0 []
where
  loop : List VoterAnswer → Nat → List String → ResumeVerdict
    | [], clean, errs =>
      if clean < needOthers then
        let why := s!"only {clean} of the {needOthers} voter answers a majority needs"
        ⟨false, if errs = [] then why else why ++ " (" ++ "; ".intercalate errs ++ ")"⟩
      else
        ⟨true, s!"majority regained; {clean} voters confirm " ++ rec_.host ++ " owns " ++
          rec_.key ++ s!" at epoch {rec_.ownerEpoch}"⟩
    | a :: rest, clean, errs =>
      match readAnswer rec_ a with
      | .objects reason => ⟨false, reason⟩
      | .missing text => loop rest clean (errs ++ [text])
      | .clean => loop rest (clean + 1) errs

/-- The clean answers that are needed beside the asking host. -/
def needOthers (voters : List String) (me : String) : Nat :=
  let need := voters.length / 2 + 1
  if me ∈ voters then need - 1 else need

def resumeRequest (recs : List PauseRecord) : List PausedWorkload :=
  recs.map fun r => ⟨claimKindOf r.kind, r.name, r.ownerEpoch, r.incarnation⟩

/-- `CheckPartitionResume` for one of the records; `call` is what asking a voter returned. -/
def checkPartitionResume (me : String) (voters : Except String (List String))
    (call : String → List PausedWorkload → Except String ConfirmResponse)
    (recs : List PauseRecord) (rec_ : PauseRecord) : ResumeVerdict :=
  match voters with
  | .error text => ⟨false, "voter set unreadable: " ++ text⟩
  | .ok voters =>
    let names := (voters.filter (· ≠ me)).insertionSort (· ≤ ·)
    let answers := names.map fun voter =>
      askPartitionResume voter (call voter (resumeRequest recs)) recs
    decideResume rec_ answers (needOthers voters me)

end Litevirt.Pause
