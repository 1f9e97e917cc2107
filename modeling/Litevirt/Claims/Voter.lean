import Litevirt.Lib.Table
import Litevirt.Claims.VoterConfig

/-!
# The voter

One voter's node-local database and its transactions
(`internal/corrosion/recovery_claims_voter.go`).  Rounds are unsigned in the protocol and stored
in a signed column, which the two `accepted_round > 0` filters read.  A transaction that refuses
or fails returns the database it was given.
-/

namespace Litevirt.Claims

open Litevirt.Lib VoterConfig

/-- The refusal reasons a voter's transaction answers with. -/
inductive Refusal where
  | wrongGeneration
  | notMember
  | incarnationMismatch
  | noVoterConfig
  | sealed
  | ballotStale
  | valueConflict
  | invalidValue
  | legacyKeySealed
  deriving DecidableEq, Repr

def Refusal.text : Refusal → String
  | wrongGeneration => "recovery_claim_wrong_generation"
  | notMember => "recovery_claim_not_member"
  | incarnationMismatch => "recovery_claim_incarnation_mismatch"
  | noVoterConfig => "recovery_claim_no_voter_config"
  | sealed => "recovery_claim_sealed"
  | ballotStale => "recovery_claim_ballot_stale"
  | valueConflict => "recovery_claim_value_conflict"
  | invalidValue => "recovery_claim_invalid_value"
  | legacyKeySealed => "recovery_claim_legacy_key_sealed"

/-- `ClaimVoterState`: a voter's state for one key. -/
structure ClaimVoterState where
  key : ClaimKey
  promised : Ballot
  accepted : Ballot
  value : Option ClaimValue
  valueDigest : String
  /-- This voter's signed accept; `none` for imported state. -/
  accept : Option ClaimAccept
  configGeneration : Int
  deriving DecidableEq, Repr

def ClaimVoterState.empty (key : ClaimKey) : ClaimVoterState :=
  ⟨key, .zero, .zero, none, "", none, 0⟩

/-- A stored row: `claimRowCols`, with decoded JSON columns. -/
structure ClaimRow where
  promisedRound : Int64
  promisedCoord : String
  promisedNonce : List UInt8
  acceptedRound : Int64
  acceptedCoord : String
  acceptedNonce : List UInt8
  value : Option ClaimValue
  valueDigest : String
  accept : Option ClaimAccept
  configGeneration : Int
  deriving DecidableEq, Repr

def ClaimVoterState.toRow (st : ClaimVoterState) : ClaimRow :=
  ⟨st.promised.round.toInt64, st.promised.coordinator, st.promised.nonce,
    st.accepted.round.toInt64, st.accepted.coordinator, st.accepted.nonce,
    st.value, st.valueDigest, st.accept, st.configGeneration⟩

def scanClaimRow (key : ClaimKey) (r : ClaimRow) : ClaimVoterState :=
  ⟨key, ⟨r.promisedRound.toUInt64, r.promisedCoord, r.promisedNonce⟩,
    ⟨r.acceptedRound.toUInt64, r.acceptedCoord, r.acceptedNonce⟩,
    r.value, r.valueDigest, r.accept, r.configGeneration⟩

/-- The keys of `local_recovery_claims`: it has no incarnation column. -/
abbrev LegacyKey := { key : ClaimKey // key.incarnation = "" }

/-- The keys of `local_incarnation_claims`. -/
abbrev ScopedKey := { key : ClaimKey // key.incarnation ≠ "" }

/-- The node-local tables of one voter, with its replica of `voter_configs`. -/
structure VoterDB where
  /-- `local_voter_incarnation`, empty when none is recorded. -/
  incarnation : String
  adoptions : List Int
  /-- `voter_configs`, with decoded columns. -/
  voterConfigs : List VoterConfig
  /-- `local_recovery_claims`: the legacy and the voter_config keys. -/
  recoveryClaims : Table LegacyKey ClaimRow
  /-- `local_incarnation_claims`: the incarnation-scoped keys. -/
  incarnationClaims : Table ScopedKey ClaimRow
  seals : List Int

namespace VoterDB

/-- `AdoptedVoterGeneration`; generations are positive. -/
def adopted (db : VoterDB) : Int := db.adoptions.foldr max 0

def getVoterConfig (db : VoterDB) (generation : Int) : Option VoterConfig :=
  (db.voterConfigs.find? (·.generation = generation)).map scanVoterConfig

/-- A row of `voter_configs` arrives: it replaces the one of its generation. -/
def mergeVoterConfig (db : VoterDB) (row : VoterConfig) : VoterDB :=
  { db with voterConfigs := row :: db.voterConfigs.filter (·.generation ≠ row.generation) }

def recordAdoptionTx (db : VoterDB) (g : Int) : VoterDB :=
  if g ∈ db.adoptions then db else { db with adoptions := g :: db.adoptions }

def loadClaimRow (db : VoterDB) (key : ClaimKey) : Option ClaimRow :=
  if unscoped : key.incarnation = "" then db.recoveryClaims.find ⟨key, unscoped⟩
  else db.incarnationClaims.find ⟨key, unscoped⟩

/-- `loadClaimRowTx`: the state of a key and whether it has a row. -/
def loadClaimRowTx (db : VoterDB) (key : ClaimKey) : ClaimVoterState × Bool :=
  match db.loadClaimRow key with
  | some row => (scanClaimRow key row, true)
  | none => (.empty key, false)

def saveClaimRowTx (db : VoterDB) (st : ClaimVoterState) : VoterDB :=
  if unscoped : st.key.incarnation = "" then
    { db with recoveryClaims := db.recoveryClaims.put ⟨st.key, unscoped⟩ st.toRow }
  else { db with incarnationClaims := db.incarnationClaims.put ⟨st.key, unscoped⟩ st.toRow }

/-- `legacyKeySealedTx`: a legacy key answered under some incarnation. -/
def legacyKeySealedTx (db : VoterDB) (key : ClaimKey) : Bool :=
  key.isWorkload && key.incarnation = "" &&
    db.incarnationClaims.rows.any fun row => row.1.val.legacy = key

/-- Some value of a change of generation `g` was accepted, as SQL reads it. -/
def acceptedChange (db : VoterDB) (g : Int) : Bool :=
  db.recoveryClaims.rows.any fun row =>
    row.1.val.isVoterConfig && row.1.val.ownerEpoch = g && decide (0 < row.2.acceptedRound)

end VoterDB

structure VoterStanding where
  me : String
  incarnation : String
  adopted : Int
  cfg : Option VoterConfig
  sealed : Bool

def readStandingTx (db : VoterDB) (me : String) : Except String VoterStanding := do
  let adopted := db.adopted
  let cfg ←
    if adopted > 0 then
      match db.getVoterConfig adopted with
      | some cfg => .ok (some cfg)
      | none => .error s!"adopted voter generation {adopted} has no voter_configs row"
    else .ok none
  if db.incarnation = "" then .error "no voter incarnation recorded"
  else .ok ⟨me, db.incarnation, adopted, cfg, db.acceptedChange adopted || adopted ∈ db.seals⟩

namespace VoterStanding

def memberCheck (st : VoterStanding) (cfg : VoterConfigValue) : Option (Refusal × String) :=
  match cfg.members.find? (·.name = st.me) with
  | none =>
    some (.notMember, s!"{st.me} is not a member of voter generation {cfg.generation}")
  | some m =>
    if m.incarnation ≠ st.incarnation then
      some (.incarnationMismatch, st.me ++ " abstains: its claim state is incarnation " ++
        short st.incarnation ++ " but it was admitted as " ++ short m.incarnation ++
        " (re-imaged or reseeded?); heal with `lv cluster voter rm " ++ st.me ++
        "` then `lv cluster voter add " ++ st.me ++ "`")
    else none

/-- The members' check against the adopted generation; it has members. -/
def adoptedCheck (st : VoterStanding) : Option (Refusal × String) :=
  match st.cfg with
  | some cfg => st.memberCheck cfg.toVoterConfigValue
  | none => none

def admitConfigValue (st : VoterStanding) (v : ClaimValue) : Option (Refusal × String) :=
  match v.config, v.proof with
  | some config, none =>
    let founding := if !explicit st.cfg then st.memberCheck config else none
    match founding with
    | some refusal => some refusal
    | none => (validateVoterChange st.cfg config).map fun problem => (.invalidValue, problem)
  | _, _ => some (.invalidValue, "a voter_config key decides a voter config")

def admitWorkloadValue (key : ClaimKey) (v : ClaimValue) : Option (Refusal × String) :=
  match v.proof, v.config with
  | some p, none =>
    if p.targetKind ≠ key.targetKind ∨ p.targetName ≠ key.targetName ∨
        p.ownerEpoch ≠ i64 key.ownerEpoch then
      some (.invalidValue, "value binds " ++ p.targetKind.text ++ "/" ++ p.targetName ++ "@" ++
        p.ownerEpoch ++ ", key is " ++ key.string)
    else if p.id = "" ∨ p.destHost = "" ∨ v.sourceHost = "" then
      some (.invalidValue, "a workload value names its proof, destination and source")
    else none
  | _, _ => some (.invalidValue, "a workload key decides a proof")

/-- `admit`: the membership half of every Prepare (`v = none`) and Accept. -/
def admitVote (st : VoterStanding) (key : ClaimKey) (gen : Int) (v : Option ClaimValue) :
    Option (Refusal × String) :=
  match key.validate with
  | some problem => some (.invalidValue, problem)
  | none =>
    if gen ≠ st.adopted then
      some (.wrongGeneration,
        s!"{st.me} has adopted voter generation {st.adopted}, not {gen}")
    else if key.isVoterConfig then
      if key.ownerEpoch ≠ st.adopted then
        some (.wrongGeneration, key.string ++
          s!" decides generation {key.ownerEpoch + 1}, and {st.me} has adopted {st.adopted}")
      else
        let standing := if explicit st.cfg then st.adoptedCheck else none
        match standing, v with
        | some refusal, _ => some refusal
        | none, none => none
        | none, some value => st.admitConfigValue value
    else if !explicit st.cfg then
      some (.noVoterConfig, s!"{st.me} has adopted no member voter generation")
    else
      match st.adoptedCheck with
      | some refusal => some refusal
      | none =>
        if st.sealed then
          some (.sealed, s!"{st.me} has accepted a change of voter generation {st.adopted} " ++
            "and no longer votes on recoveries under it; retry once generation " ++
            s!"{st.adopted + 1} is adopted")
        else
          match v with
          | none => none
          | some value => admitWorkloadValue key value

end VoterStanding

end Litevirt.Claims
