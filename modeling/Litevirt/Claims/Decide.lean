import Litevirt.Lib.Words
import Litevirt.Claims.Import
import Litevirt.Claims.Proposer

/-!
# What the server proposes

The two callers of the proposer: `DecideRecoveryClaim` for a workload and
`decideVoterChange` for the voter set, up to the decision each of them drives.
Both read the generation this node has adopted.
-/

namespace Litevirt.Claims

open Litevirt.Lib VoterConfig

/-- The targets and the quorum of a decision by a majority of the members. -/
def majoritySpec (key : ClaimKey) (cfg : VoterConfig) (proposal : ClaimValue)
    (startRound : UInt64) : Spec :=
  let names := cfg.names
  let quorum := majorityOf names.length
  { key := key
    generation := cfg.generation
    voters := names
    prepareQuorum := quorum
    electorate := some fun _ => (names, quorum)
    propose := some fun _ => .ok proposal
    startRound := startRound
    maxRounds := 0
    reuseRound := false
    adoptLegacy := none }

/-- `DecideRecoveryClaim` on a node: the decision it drives.  `keep` answers
whether a legacy value is not excluded. -/
def recoverySpec (db : VoterDB) (host : String) (key : ClaimKey) (proposal : ClaimValue)
    (startRound : UInt64) (keep : ClaimValue → Bool) : Except String Spec :=
  if !key.isWorkload then .error (key.string ++ " is not a workload key")
  else do
    match ← db.adoptedVoterConfig with
    | some cfg =>
      if !explicit (some cfg) then
        .error ("no voter generation with members is adopted on " ++ host)
      else
        .ok { majoritySpec key cfg proposal startRound with
          reuseRound := true
          adoptLegacy := if key.incarnation ≠ "" then some keep else none }
    | none => .error ("no voter generation with members is adopted on " ++ host)

inductive VoterOp where
  | genesis
  | init
  | add
  | rm
  | reset
  deriving DecidableEq, Repr

structure ProposedChange where
  op : VoterOp
  host : String
  members : List String
  createdBy : String
  startRound : UInt64
  deriving DecidableEq, Repr

def dedupSorted (names : List String) : List String := dedup (names.map trimSpace)

/-- The value of a change to generation `g + 1`. -/
def changeValue (g : Int) (ch : ProposedChange) (now : String) (members : List VoterMember)
    (change : VoterChange) : ClaimValue :=
  .ofConfig ⟨g + 1, sortMembers members, change, ch.createdBy, now⟩

def genesisMembers (promises : List (String × PrepareResult)) :
    List String → Except String (List VoterMember)
  | [] => .ok []
  | n :: rest =>
    match promises.find? (·.1 = n) with
    | some (_, res) =>
      if res.incarnation = "" then .error (n ++ " did not report its incarnation")
      else do
        let members ← genesisMembers promises rest
        .ok (⟨n, res.incarnation⟩ :: members)
    | none => .error (n ++ " did not report its incarnation")

/-- The phase-2 targets of a genesis: the members of the value. -/
def genesisElectorate (v : ClaimValue) : List String × Nat :=
  match v.config with
  | none => ([], 1)
  | some cfg => (cfg.members.map (·.name), cfg.members.length)

/-- A genesis is decided by its own members, unanimously. -/
def genesisSpec (g : Int) (ch : ProposedChange) (now : String) (voters : List String) : Spec :=
  { key := .voterConfig g
    generation := g
    voters := voters
    prepareQuorum := voters.length
    electorate := some genesisElectorate
    propose := some fun promises => do
      let members ← genesisMembers promises voters
      .ok (changeValue g ch now members .genesis)
    startRound := ch.startRound
    maxRounds := 0
    reuseRound := false
    adoptLegacy := none }

/-- The value that a change of the generation `prev` proposes. -/
def changeProposal (prev : VoterConfig) (ch : ProposedChange) (now : String)
    (remoteIncarnation : String → Except String String) : Except String ClaimValue :=
  let g := prev.generation
  match ch.op with
  | .add =>
    if (prev.member ch.host).isSome then
      .error (ch.host ++ s!" is already a member of voter generation {g}")
    else
      match remoteIncarnation ch.host with
      | .ok inc =>
        .ok (changeValue g ch now (prev.members ++ [⟨ch.host, inc⟩]) (.add ch.host))
      | .error problem =>
        .error (ch.host ++ " must be reachable to join the voter set (it supplies its " ++
          "incarnation): " ++ problem)
  | .rm =>
    let rest := prev.members.filter (·.name ≠ ch.host)
    if (prev.member ch.host).isNone then
      .error (ch.host ++ s!" is not a member of voter generation {g}")
    else if rest = [] then
      .error (ch.host ++ " is the last voter; `lv cluster voter reset` returns the cluster " ++
        "to the derived set")
    else .ok (changeValue g ch now rest (.rm ch.host))
  | .reset => .ok (changeValue g ch now [] .reset)
  | .genesis | .init =>
    .error (s!"generation {g} is adopted; change it one member at a time with " ++
      "`lv cluster voter add` or `lv cluster voter rm`, or leave it with " ++
      "`lv cluster voter reset`")

/-- `decideVoterChange` when no generation with members is adopted. -/
def foundingSpec (g : Int) (ch : ProposedChange) (now : String) : Except String Spec :=
  if ch.op ≠ .genesis ∧ ch.op ≠ .init then
    .error ("no voter generation with members is adopted; start one with " ++
      "`lv cluster voter init`")
  else if dedupSorted ch.members = [] then .error "a genesis needs members"
  else .ok (genesisSpec g ch now (dedupSorted ch.members))

/-- `decideVoterChange` on a node: the decision it drives. -/
def voterChangeSpec (db : VoterDB) (ch : ProposedChange) (now : String)
    (remoteIncarnation : String → Except String String) : Except String Spec := do
  let prev ← db.adoptedVoterConfig
  let g := generationOf prev
  if (db.getVoterConfig (g + 1)).isSome then
    .error s!"generation {g + 1} already exists on this node but is not adopted yet; retry shortly"
  else
    match prev with
    | some cfg =>
      if explicit prev then do
        let proposal ← changeProposal cfg ch now remoteIncarnation
        .ok (majoritySpec (.voterConfig g) cfg proposal ch.startRound)
      else foundingSpec g ch now
    | none => foundingSpec g ch now

end Litevirt.Claims
