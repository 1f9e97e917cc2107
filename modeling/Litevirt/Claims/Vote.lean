import Litevirt.Claims.BallotOrder
import Litevirt.Claims.Voter

/-!
# Prepare and Accept

The two voting transactions.  `ClaimAccept` runs its transaction again after the
owner check; each run is one call here, told whether the owner has been checked.
-/

namespace Litevirt.Claims

open Litevirt.Lib VoterConfig

structure PrepareResult where
  promised : Bool
  promisedBallot : Ballot
  state : ClaimVoterState
  /-- What the voter accepted at the legacy form of an incarnation-scoped key. -/
  legacy : Option ClaimVoterState
  voter : String
  incarnation : String
  refusal : Option Refusal
  detail : String
  deriving DecidableEq, Repr

structure AcceptResult where
  accepted : Bool
  promisedBallot : Ballot
  accept : Option ClaimAccept
  voter : String
  refusal : Option Refusal
  detail : String
  deriving DecidableEq, Repr

/-- How one transaction of `ClaimAccept` ends: with an answer, or with
`errClaimNeedsOwnerCheck` or `errClaimNeedsSourceCheck`. -/
inductive AcceptOutcome where
  | answer (result : AcceptResult)
  | needsOwnerCheck
  | needsSourceCheck
  deriving DecidableEq, Repr

def AcceptOutcome.accepted : AcceptOutcome → Bool
  | .answer result => result.accepted
  | _ => false

def refusedPrepare (me incarnation : String) (state : ClaimVoterState) (promised : Ballot)
    (refusal : Refusal) (detail : String) : PrepareResult :=
  ⟨false, promised, state, none, me, incarnation, some refusal, detail⟩

def refusedAccept (me : String) (promised : Ballot) (refusal : Refusal) (detail : String) :
    AcceptResult :=
  ⟨false, promised, none, me, some refusal, detail⟩

def ballotDetail : String := "a ballot has a round >= 1 and a coordinator"

def sealedLegacyDetail (me : String) (key : ClaimKey) : String :=
  me ++ " has answered " ++ key.string ++ " at an incarnation-scoped key, which sealed its " ++
    "legacy form here; claim it with its incarnation once claim_incarnation_v1 latches"

def staleDetail (me : String) (promised b : Ballot) : String :=
  me ++ " has promised " ++ promised.string ++ ", above " ++ b.string

namespace VoterDB

/-- What a promise at an incarnation-scoped key reports about the legacy key. -/
def legacyReport (db : VoterDB) (key : ClaimKey) : Option ClaimVoterState :=
  if key.isWorkload && key.incarnation ≠ "" then
    match db.loadClaimRowTx key.legacy with
    | (legacy, found) =>
      if found && !legacy.accepted.isZero && legacy.value.isSome then some legacy else none
  else none

def claimPrepare (db : VoterDB) (me : String) (key : ClaimKey) (b : Ballot) (gen : Int) :
    Except String (PrepareResult × VoterDB) :=
  if b.round = 0 ∨ b.coordinator = "" then
    .ok (refusedPrepare me "" (.empty key) .zero .invalidValue ballotDetail, db)
  else do
    let st ← readStandingTx db me
    match st.admitVote key gen none with
    | some (refusal, detail) =>
      .ok (refusedPrepare me st.incarnation (.empty key) .zero refusal detail, db)
    | none =>
      if db.legacyKeySealedTx key then
        .ok (refusedPrepare me st.incarnation (.empty key) .zero .legacyKeySealed
          (sealedLegacyDetail me key), db)
      else
        let row := (db.loadClaimRowTx key).1
        match Ballot.compareBallots row.promised b with
        | .gt =>
          .ok (refusedPrepare me st.incarnation row row.promised .ballotStale
            (staleDetail me row.promised b), db)
        | .eq =>
          .ok (⟨true, b, row, db.legacyReport key, me, st.incarnation, none, ""⟩, db)
        | .lt =>
          let row := { row with promised := b, configGeneration := gen }
          let db := db.saveClaimRowTx row
          .ok (⟨true, b, row, db.legacyReport key, me, st.incarnation, none, ""⟩, db)

def legacyHeld (db : VoterDB) (key : ClaimKey) (digest : String) : Bool :=
  key.incarnation ≠ "" &&
    match db.loadClaimRowTx key.legacy with
    | (legacy, found) => found && !legacy.accepted.isZero && legacy.valueDigest = digest

/-- The tail of the transaction: a value not accepted before is checked first,
then the accept is signed and the row written. -/
def acceptNew (db : VoterDB) (st : VoterStanding) (key : ClaimKey) (b : Ballot) (v : ClaimValue)
    (gen : Int) (digest : String) (row : ClaimVoterState) (ownerChecked : Bool) :
    AcceptOutcome × VoterDB :=
  if key.isWorkload && row.valueDigest ≠ digest && !ownerChecked then
    (if db.legacyHeld key digest then .needsSourceCheck else .needsOwnerCheck, db)
  else
    let a : ClaimAccept := ⟨st.me, st.incarnation, gen, key, b, digest⟩
    let row := { row with
      promised := b, accepted := b, value := some v, valueDigest := digest, accept := some a,
      configGeneration := gen }
    (.answer ⟨true, b, some a, st.me, none, ""⟩, db.saveClaimRowTx row)

/-- One transaction of `ClaimAccept` at voter `me`, which signs as itself. -/
def claimAccept [Sha256] (db : VoterDB) (me : String) (key : ClaimKey) (b : Ballot)
    (v : ClaimValue) (gen : Int) (ownerChecked : Bool) : Except String (AcceptOutcome × VoterDB) :=
  match v.digest with
  | .error problem => .ok (.answer (refusedAccept me .zero .invalidValue problem), db)
  | .ok digest =>
    if b.round = 0 ∨ b.coordinator = "" then
      .ok (.answer (refusedAccept me .zero .invalidValue ballotDetail), db)
    else do
      let st ← readStandingTx db me
      match st.admitVote key gen (some v) with
      | some (refusal, detail) => .ok (.answer (refusedAccept me .zero refusal detail), db)
      | none =>
        if db.legacyKeySealedTx key then
          .ok (.answer (refusedAccept me .zero .legacyKeySealed (sealedLegacyDetail me key)), db)
        else
          let row := (db.loadClaimRowTx key).1
          if Ballot.compareBallots row.promised b = .gt then
            .ok (.answer (refusedAccept me row.promised .ballotStale
              (staleDetail me row.promised b)), db)
          else if row.accepted.equal b && row.valueDigest ≠ digest then
            .ok (.answer (refusedAccept me .zero .valueConflict
              (me ++ " already accepted a different value at " ++ b.string)), db)
          else
            match row.accept with
            | some a =>
              if row.accepted.equal b && a.configGeneration = gen then
                .ok (.answer ⟨true, row.promised, some a, me, none, ""⟩, db)
              else .ok (db.acceptNew st key b v gen digest row ownerChecked)
            | none => .ok (db.acceptNew st key b v gen digest row ownerChecked)

end VoterDB

end Litevirt.Claims
