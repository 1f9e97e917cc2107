import Litevirt.Claims.BallotOrder
import Litevirt.Claims.Voter

/-!
# Handing claim state to the next generation

What a voter exports to an importer, and the transaction that imports claim
state and adopts a generation.
-/

namespace Litevirt.Claims

open Litevirt.Lib VoterConfig

structure ClaimImportSource where
  voter : String
  frozen : Bool
  adopted : Int
  states : List ClaimVoterState
  deriving DecidableEq, Repr

namespace VoterDB

/-- The accepted workload states of a table, as SQL selects them. -/
def acceptedStates {p : ClaimKey → Prop} (rows : List ({ key // p key } × ClaimRow)) :
    List ClaimVoterState :=
  (rows.filter fun row => row.1.val.isWorkload && decide (0 < row.2.acceptedRound)).map
    fun row => scanClaimRow row.1.val row.2

/-- `ClaimStatesForImport`; the order of the states is left as the tables have it. -/
def claimStatesForImport (db : VoterDB) (me : String) (gen : Int) :
    Except String ClaimImportSource := do
  let st ← readStandingTx db me
  .ok ⟨me, decide (gen < st.adopted) || (st.adopted = gen && st.sealed), st.adopted,
    acceptedStates db.recoveryClaims.rows ++ acceptedStates db.incarnationClaims.rows⟩

/-- The loop of `ImportClaimsAndAdopt` over the source states: the highest
accepted ballot for each workload key. -/
def bestStates [Sha256] (sources : List String) : List ClaimVoterState →
    Table ClaimKey ClaimVoterState → Except String (Table ClaimKey ClaimVoterState)
  | [], best => .ok best
  | s :: rest, best =>
    match s.value with
    | some v =>
      if !s.key.isWorkload || s.accepted.isZero then bestStates sources rest best
      else if v.digest.toOption ≠ some s.valueDigest then
        .error ("import from " ++ goList sources ++ ": " ++ s.key.string ++
          " carries a value whose digest does not match")
      else
        match best.find s.key with
        | some cur =>
          if Ballot.compareBallots s.accepted cur.accepted = .gt then
            bestStates sources rest (best.put s.key s)
          else bestStates sources rest best
        | none => bestStates sources rest (best.put s.key s)
    | none => bestStates sources rest best

/-- One key of the import: never downgraded, and promised at least as high. -/
def importState (db : VoterDB) (newGen : Int) (k : ClaimKey) (incoming : ClaimVoterState) :
    VoterDB × Nat :=
  let row := (db.loadClaimRowTx k).1
  let higher := Ballot.compareBallots incoming.accepted row.accepted = .gt
  let row := if higher then
      { row with
        accepted := incoming.accepted, value := incoming.value,
        valueDigest := incoming.valueDigest, accept := none }
    else row
  let ahead := Ballot.compareBallots row.accepted row.promised = .gt
  let row := if ahead then { row with promised := row.accepted } else row
  if higher ∨ ahead then (db.saveClaimRowTx { row with configGeneration := newGen }, 1) else (db, 0)

/-- The loop of `ImportClaimsAndAdopt` over the best states. -/
def importStates (newGen : Int) : List (ClaimKey × ClaimVoterState) → VoterDB → VoterDB × Nat
  | [], db => (db, 0)
  | (k, incoming) :: rest, db =>
    let (db, count) := db.importState newGen k incoming
    let (db, more) := importStates newGen rest db
    (db, count + more)

/-- `ImportClaimsAndAdopt`: the number of imported states and the database. -/
def importClaimsAndAdopt [Sha256] (db : VoterDB) (me : String) (newGen : Int)
    (sources : List String) (states : List ClaimVoterState) : Except String (Nat × VoterDB) := do
  let st ← readStandingTx db me
  if newGen ≤ st.adopted then .ok (0, db)
  else if st.adopted ≠ newGen - 1 then
    .error s!"cannot adopt generation {newGen} from {st.adopted}"
  else do
    let best ← bestStates sources states .empty
    let (db, imported) := importStates newGen best.rows db
    .ok (imported, db.recordAdoptionTx newGen)

def adoptedVoterConfig (db : VoterDB) : Except String (Option VoterConfig) :=
  if db.adopted = 0 then .ok none
  else
    match db.getVoterConfig db.adopted with
    | some v => .ok (some v)
    | none => .error s!"adopted voter generation {db.adopted} has no voter_configs row"

/-- One round of `AdoptVoterConfigs` for an ordinary row that verified: a member
that replaces a generation with members imports from the frozen answers of the
members of the old generation, everyone else only records the adoption. -/
def adoptOne [Sha256] (db : VoterDB) (me : String) (prev : Option VoterConfig) (row : VoterConfig)
    (answers : List ClaimImportSource) : Except String VoterDB :=
  if row.memberAs me db.incarnation && explicit prev then
    let counted := answers.filter (·.frozen)
    let sources := counted.map (·.voter)
    let need := majorityOf (membersOf prev).length
    if sources.length < need then
      .error (s!"only {sources.length} of the {need} sealed members of generation " ++
        s!"{generationOf prev} needed to import from answered (" ++
        ",".intercalate (sources.insertionSort (· ≤ ·)) ++ "); retrying")
    else do
      let (_, db) ← db.importClaimsAndAdopt me row.generation sources
        (counted.flatMap (·.states))
      .ok db
  else .ok (db.recordAdoptionTx row.generation)

end VoterDB

end Litevirt.Claims
