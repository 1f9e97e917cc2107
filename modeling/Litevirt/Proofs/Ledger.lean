import Litevirt.Lib.Table
import Litevirt.Lib.Words
import Litevirt.Claims.Types

/-!
# Action proofs at their destination

The rows a destination host keeps about the proofs it may execute, and the transactions that
abandon a proof, claim it and record its start checkpoint (`internal/corrosion/action_proofs.go`
and `recovery_claims_supersede.go`).  A transaction that fails writes nothing.
-/

namespace Litevirt.Proofs

open Litevirt.Lib Litevirt.Claims

inductive Action where
  | reschedule
  | promote
  | relocate
  | lbApply
  | ownerAssert
  deriving DecidableEq, Repr

def Action.text : Action → String
  | reschedule => "reschedule"
  | promote => "promote"
  | relocate => "relocate"
  | lbApply => "lb_apply"
  | ownerAssert => "owner_assert"

inductive Status where
  | prepared
  | inProgress
  | completed
  | failed
  deriving DecidableEq, Repr

/-- The columns of `runtime_action_proofs` that the three transactions use. -/
structure ProofRow where
  action : Action
  status : Status
  executorHost : String
  stepState : List Char
  startedAt : String
  updatedAt : String
  deleted : Bool
  deriving DecidableEq, Repr

structure Abandonment where
  targetKind : TargetKind
  targetName : String
  ownerEpoch : Int
  attempt : Int
  reason : String
  abandonedAt : String
  deriving DecidableEq, Repr

structure TermFence where
  key : String
  term : Int
  coordinator : String
  deriving DecidableEq, Repr

structure Host where
  hostName : String
  proofs : Table String ProofRow
  abandoned : Table String Abandonment
  /-- `local_term_bindings`: executor, lease key and term to coordinator. -/
  bindings : Table (String × String × Int) String

inductive ProofError where
  | needsProofID
  | executed (detail : String)
  | abandoned
  | spent
  | termClaimantConflict
  deriving DecidableEq, Repr

def ProofError.text : ProofError → String
  | needsProofID => "abandon needs a proof id"
  | executed detail =>
    "this node has started executing the proof; it cannot abandon it: " ++ detail
  | abandoned => "this node abandoned the proof and will never execute it"
  | spent => "runtime action proof is terminal or missing"
  | termClaimantConflict => "lease term already claimed on this host by another coordinator"

/-- `ProofStepDone`: the step is one of the `strings.Fields`. -/
def proofStepDone (stepState step : List Char) : Bool := decide (step ∈ words isSpace stepState)

def sqlTrim (text : List Char) : List Char :=
  (text.dropWhile (· = ' ')).rdropWhile (· = ' ')

/-- `instr(' ' || step_state || ' ', ' ' || step || ' ') <> 0`. -/
def recorded (stepState step : List Char) : Bool :=
  decide (' ' :: step ++ [' '] <:+: ' ' :: stepState ++ [' '])

def startAttempted : List Char := "start_attempted".toList

def started : List Char := "started".toList

def proofStartSteps : List (List Char) := [startAttempted, started]

namespace Host

/-- The first reason of `AbandonProof` to hold a row for executed, if any. -/
def executionOf (h : Host) (proofID : String) (row : ProofRow) : Option String :=
  if row.status = .completed then some ("proof " ++ proofID ++ " is completed")
  else if row.executorHost ≠ "" ∧ row.executorHost ≠ h.hostName then
    some ("proof " ++ proofID ++ " is held by " ++ row.executorHost)
  else if row.executorHost = h.hostName ∧ row.action ≠ .promote then
    some ("this node has claimed " ++ row.action.text ++ " proof " ++ proofID)
  else (proofStartSteps.find? fun step => proofStepDone row.stepState step).map fun step =>
    "proof " ++ proofID ++ " recorded \"" ++ String.ofList step ++ "\""

def abandonProof (h : Host) (proofID : String) (key : ClaimKey) (reason now : String) :
    Except ProofError Host :=
  if proofID = "" then .error .needsProofID
  else if (h.abandoned.find proofID).isSome then .ok h
  else
    let executed :=
      match h.proofs.find proofID with
      | some row => if row.deleted then none else h.executionOf proofID row
      | none => none
    match executed with
    | some detail => .error (.executed detail)
    | none =>
      let row : Abandonment :=
        ⟨key.targetKind, key.targetName, key.ownerEpoch, key.attempt, reason, now⟩
      .ok { h with abandoned := h.abandoned.put proofID row }

/-- The rows `claimProofSQL` updates. -/
def claimable (row : ProofRow) (executor : String) : Bool :=
  !row.deleted && (row.status = .prepared || row.status = .inProgress) &&
    (row.executorHost = "" || row.executorHost = executor)

def claimRow (row : ProofRow) (executor now : String) : ProofRow :=
  { row with
    status := .inProgress
    executorHost := executor
    startedAt := if row.startedAt = "" then now else row.startedAt
    updatedAt := now }

/-- `ClaimActionProofFenced`; without a fence it is `ClaimActionProof`. -/
def claimActionProofFenced (h : Host) (id executor : String) (fence : Option TermFence)
    (now : String) : Except ProofError Host :=
  if (h.abandoned.find id).isSome then .error .abandoned
  else
    match h.proofs.find id with
    | none => .error .spent
    | some row =>
      if !claimable row executor then .error .spent
      else
        let claimed := { h with proofs := h.proofs.put id (claimRow row executor now) }
        match fence with
        | none => .ok claimed
        | some f =>
          match h.bindings.find (executor, f.key, f.term) with
          | none => .ok { claimed with
              bindings := h.bindings.put (executor, f.key, f.term) f.coordinator }
          | some bound =>
            if bound ≠ f.coordinator then .error .termClaimantConflict else .ok claimed

/-- The row update of `AppendProofStep`. -/
def appendStep (row : ProofRow) (step : List Char) (now : String) : ProofRow :=
  if row.deleted || row.status = .completed || row.status = .failed ||
      recorded row.stepState step then row
  else { row with stepState := sqlTrim (row.stepState ++ ' ' :: step), updatedAt := now }

def appendProofStepUnlessAbandoned (h : Host) (id : String) (step : List Char) (now : String) :
    Except ProofError Host :=
  if (h.abandoned.find id).isSome then .error .abandoned
  else
    match h.proofs.find id with
    | none => .ok h
    | some row => .ok { h with proofs := h.proofs.put id (appendStep row step now) }

end Host

end Litevirt.Proofs
