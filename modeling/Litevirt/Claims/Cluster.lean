import Litevirt.Claims.Decide

/-!
# The cluster

Any number of nodes with their voters, proposer processes and `Decide` calls, and every message
ever sent: a request can be served late, twice or not at all.  One action is one transaction at a
voter or one step of a `Decide` call.

The owner and supersede checks in front of a vote only refuse, which is a lost message here;
forced generations are left out.  An accept is authentic when the voter it names has signed it.
-/

namespace Litevirt.Claims

open Litevirt.Lib VoterConfig

structure PrepareRequest where
  key : ClaimKey
  ballot : Ballot
  generation : Int
  targets : List String
  deriving DecidableEq, Repr

structure AcceptRequest where
  key : ClaimKey
  ballot : Ballot
  value : ClaimValue
  generation : Int
  targets : List String
  deriving DecidableEq, Repr

structure PrepareReply where
  voter : String
  key : ClaimKey
  ballot : Ballot
  generation : Int
  result : PrepareResult
  deriving DecidableEq, Repr

structure AcceptReply where
  voter : String
  key : ClaimKey
  ballot : Ballot
  generation : Int
  result : AcceptResult
  deriving DecidableEq, Repr

/-- An answer to `ListRecoveryClaims`, with the incarnation that gave it. -/
structure ImportReply where
  incarnation : String
  generation : Int
  source : ClaimImportSource
  deriving DecidableEq, Repr

/-- A `Decide` call of the process with this boot nonce. -/
structure DecideCall where
  process : List UInt8
  decision : Decision

structure Cluster where
  nodes : String → VoterDB
  proposers : Table (List UInt8) Proposer
  calls : List DecideCall
  prepares : List PrepareRequest
  accepts : List AcceptRequest
  promises : List PrepareReply
  votes : List AcceptReply
  imports : List ImportReply
  /-- The incarnations that lost their state. -/
  retired : List VoterMember

inductive ProposerAction where
  | boot (host : String) (nonce : List UInt8)
  | decideRecovery (process : List UInt8) (key : ClaimKey) (proposal : ClaimValue)
      (startRound : UInt64) (keep : ClaimValue → Bool)
  | decideVoterChange (process : List UInt8) (ch : ProposedChange) (now : String)
  | beginRound (call : Nat)
  | countPromises (call : Nat) (replies : List Nat)
  | countAccepts (call : Nat) (replies : List Nat)

inductive NodeAction where
  | prepare (request : Nat) (voter : String)
  | accept (request : Nat) (voter : String) (ownerChecked : Bool)
  | learn (host : String) (row : VoterConfig)
  | listClaims (voter : String) (generation : Int)
  | adopt (host : String) (replies : List Nat)
  | reimage (host : String) (incarnation : String)

inductive Action where
  | proposer (action : ProposerAction)
  | node (action : NodeAction)

namespace Cluster

def start (nodes : String → VoterDB) : Cluster := ⟨nodes, .empty, [], [], [], [], [], [], []⟩

def signed (s : Cluster) : List ClaimAccept := s.votes.filterMap (·.result.accept)

/-- An accept whose signature verifies is one its voter signed. -/
def authentic (s : Cluster) (a : ClaimAccept) : Bool := decide (a ∈ s.signed)

def setNode (s : Cluster) (host : String) (db : VoterDB) : Cluster :=
  { s with nodes := Function.update s.nodes host db }

def setProposer (s : Cluster) (p : Proposer) : Cluster :=
  { s with proposers := s.proposers.put p.nonce p }

def setCall (s : Cluster) (i : Nat) (call : DecideCall) (decision : Decision) : Cluster :=
  { s with calls := s.calls.set i { call with decision := decision } }

def addCall (s : Cluster) (process : List UInt8) (spec : Spec) : Cluster :=
  { s with calls := s.calls ++ [⟨process, .start spec⟩] }

/-- A process starts on a host and draws a nonce that no other one has. -/
def boot (s : Cluster) (host : String) (nonce : List UInt8) : Option Cluster :=
  if (s.proposers.find nonce).isSome then none
  else some (s.setProposer (.newProposer host nonce))

def decideRecovery (s : Cluster) (process : List UInt8) (key : ClaimKey) (proposal : ClaimValue)
    (startRound : UInt64) (keep : ClaimValue → Bool) : Option Cluster := do
  let p ← s.proposers.find process
  let spec ← (recoverySpec (s.nodes p.self) p.self key proposal startRound keep).toOption
  some (s.addCall process spec)

/-- `remoteIncarnation`: what a host answers about itself. -/
def remoteIncarnation (s : Cluster) (host : String) : Except String String :=
  if (s.nodes host).incarnation = "" then
    .error (host ++ " did not report an incarnation as itself")
  else .ok (s.nodes host).incarnation

def decideVoterChange (s : Cluster) (process : List UInt8) (ch : ProposedChange) (now : String) :
    Option Cluster := do
  let p ← s.proposers.find process
  let spec ← (voterChangeSpec (s.nodes p.self) ch now s.remoteIncarnation).toOption
  some (s.addCall process spec)

def beginRound (s : Cluster) (i : Nat) : Option Cluster := do
  let call ← s.calls[i]?
  let p ← s.proposers.find call.process
  match call.decision.phase with
  | .round =>
    let spec := call.decision.spec
    let (b, p, decision) := call.decision.beginRound p
    let s := (s.setProposer p).setCall i call decision
    some { s with prepares := s.prepares ++ [⟨spec.key, b, spec.generation, dedup spec.voters⟩] }
  | _ => none

def noAnswer : String := "context deadline exceeded"

/-- What the asked voters answered; the others did not. -/
def answersOf {α : Type} (asked : List String) (answered : List (String × α)) : Answers α :=
  answered.map (fun answer => (answer.1, .ok answer.2)) ++
    (asked.filter fun voter => voter ∉ answered.map Prod.fst).map (·, .error noAnswer)

def pick {α : Type} (sent : List α) (indices : List Nat) : List α :=
  indices.filterMap (sent[·]?)

/-- One reply from each voter at most, and only from those that were asked. -/
def oneEach (asked voters : List String) : Bool := decide (voters.Nodup ∧ voters ⊆ asked)

def countPromises [Sha256] (s : Cluster) (i : Nat) (replies : List Nat) : Option Cluster := do
  let call ← s.calls[i]?
  let p ← s.proposers.find call.process
  match call.decision.phase with
  | .preparing b =>
    let spec := call.decision.spec
    let asked := dedup spec.voters
    let picked := pick s.promises replies
    if oneEach asked (picked.map (·.voter)) && picked.all fun r =>
        r.key = spec.key && r.ballot = b && r.generation = spec.generation then
      let answers := answersOf asked (picked.map fun r => (r.voter, r.result))
      let (p, decision) := call.decision.afterPrepare p b answers
      let s := (s.setProposer p).setCall i call decision
      match decision.phase with
      | .accepting prop =>
        some { s with accepts := s.accepts ++
          [⟨spec.key, b, prop.value, spec.generation, dedup prop.targets⟩] }
      | _ => some s
    else none
  | _ => none

def countAccepts (s : Cluster) (i : Nat) (replies : List Nat) : Option Cluster := do
  let call ← s.calls[i]?
  match call.decision.phase with
  | .accepting prop =>
    let spec := call.decision.spec
    let asked := dedup prop.targets
    let picked := pick s.votes replies
    if oneEach asked (picked.map (·.voter)) && picked.all fun r =>
        r.key = spec.key && r.ballot = prop.ballot && r.generation = spec.generation then
      some (s.setCall i call (call.decision.afterAccept prop
        (answersOf asked (picked.map fun r => (r.voter, r.result)))))
    else none
  | _ => none

def prepare (s : Cluster) (i : Nat) (voter : String) : Option Cluster := do
  let req ← s.prepares[i]?
  if voter ∈ req.targets then
    match (s.nodes voter).claimPrepare voter req.key req.ballot req.generation with
    | .ok (res, db) =>
      let s := s.setNode voter db
      some { s with promises := s.promises ++ [⟨voter, req.key, req.ballot, req.generation, res⟩] }
    | .error _ => none
  else none

def accept [Sha256] (s : Cluster) (i : Nat) (voter : String) (ownerChecked : Bool) :
    Option Cluster := do
  let req ← s.accepts[i]?
  if voter ∈ req.targets then
    match (s.nodes voter).claimAccept voter req.key req.ballot req.value req.generation
        ownerChecked with
    | .ok (.answer res, db) =>
      let s := s.setNode voter db
      some { s with votes := s.votes ++ [⟨voter, req.key, req.ballot, req.generation, res⟩] }
    | _ => none
  else none

def learn (s : Cluster) (host : String) (row : VoterConfig) : Option Cluster :=
  some (s.setNode host ((s.nodes host).mergeVoterConfig row))

def listClaims (s : Cluster) (voter : String) (generation : Int) : Option Cluster := do
  let source ← ((s.nodes voter).claimStatesForImport voter generation).toOption
  some { s with imports := s.imports ++ [⟨(s.nodes voter).incarnation, generation, source⟩] }

/-- One round of `AdoptVoterConfigs`: the row after the adopted generation is
verified, and adopted with what the members of the old one answered. -/
def adopt [Sha256] (s : Cluster) (host : String) (replies : List Nat) : Option Cluster := do
  let db := s.nodes host
  let prev ← db.adoptedVoterConfig.toOption
  let row ← db.getVoterConfig (generationOf prev + 1)
  let picked := pick s.imports replies
  if !isForcedChange row.change && (verifyVoterConfigRow s.authentic prev row).isNone &&
      oneEach ((membersOf prev).map (·.name)) (picked.map (·.source.voter)) &&
      picked.all (·.generation = generationOf prev) then do
    let db ← (db.adoptOne host prev row (picked.map (·.source))).toOption
    some (s.setNode host db)
  else none

/-- A host loses its state and comes back as an incarnation that was never used. -/
def reimage (s : Cluster) (host : String) (incarnation : String) : Option Cluster :=
  let old := (s.nodes host).incarnation
  if incarnation = "" ∨ incarnation = old ∨ ⟨host, incarnation⟩ ∈ s.retired then none
  else
    let s := s.setNode host ⟨incarnation, [], [], .empty, .empty, []⟩
    some { s with retired := ⟨host, old⟩ :: s.retired }

def proposerStep [Sha256] (s : Cluster) : ProposerAction → Option Cluster
  | .boot host nonce => s.boot host nonce
  | .decideRecovery process key proposal startRound keep =>
    s.decideRecovery process key proposal startRound keep
  | .decideVoterChange process ch now => s.decideVoterChange process ch now
  | .beginRound i => s.beginRound i
  | .countPromises i replies => s.countPromises i replies
  | .countAccepts i replies => s.countAccepts i replies

def nodeStep [Sha256] (s : Cluster) : NodeAction → Option Cluster
  | .prepare i voter => s.prepare i voter
  | .accept i voter ownerChecked => s.accept i voter ownerChecked
  | .learn host row => s.learn host row
  | .listClaims voter generation => s.listClaims voter generation
  | .adopt host replies => s.adopt host replies
  | .reimage host incarnation => s.reimage host incarnation

def step [Sha256] (s : Cluster) : Action → Option Cluster
  | .proposer action => s.proposerStep action
  | .node action => s.nodeStep action

end Cluster

end Litevirt.Claims
