import Litevirt.Claims.Vote

/-!
# The proposer

`Proposer.Decide` of `internal/claims/proposer.go`, cut where it waits for voters: a ballot is
sent in phase 1, the promises choose the value that is sent with it in phase 2, and the accepts
become a certificate.  What voters answer, and in which order, is an input of each part.
-/

namespace Litevirt.Claims

open Litevirt.Lib

/-- `Proposer`: a process with its boot nonce, the last round it used for each
key and the digest it sent in phase 2 at each round. -/
structure Proposer where
  self : String
  nonce : List UInt8
  used : Table ClaimKey UInt64
  bound : Table (ClaimKey × UInt64) String

namespace Proposer

def newProposer (self : String) (nonce : List UInt8) : Proposer := ⟨self, nonce, .empty, .empty⟩

/-- `ballot`: a round at or above `want` that is new for the key, or `want` again. -/
def ballot (p : Proposer) (key : ClaimKey) (want : UInt64) (reuse : Bool) : Ballot × Proposer :=
  let last := (p.used.find key).getD 0
  let round :=
    if reuse && decide (0 < want) && want = last then want
    else if want ≤ last then last + 1
    else want
  (⟨round, p.self, p.nonce⟩, { p with used := p.used.put key round })

/-- `bind`; `none` when the round is bound to another digest. -/
def bind (p : Proposer) (key : ClaimKey) (round : UInt64) (digest : String) : Option Proposer :=
  if (p.bound.find (key, round)).any (· ≠ digest) then none
  else some { p with bound := p.bound.put (key, round) digest }

end Proposer

/-- `Spec` without the supersede evidence, which only voters read. -/
structure Spec where
  key : ClaimKey
  generation : Int
  voters : List String
  prepareQuorum : Nat
  electorate : Option (ClaimValue → List String × Nat)
  propose : Option (List (String × PrepareResult) → Except String ClaimValue)
  startRound : UInt64
  maxRounds : Int
  reuseRound : Bool
  adoptLegacy : Option (ClaimValue → Bool)

structure Outcome where
  value : ClaimValue
  digest : String
  certificate : ClaimCertificate
  ours : Bool
  deriving DecidableEq, Repr

inductive Missing where
  | unreachable (problem : String)
  | refused (reason : Option Refusal) (detail : String) (promised : Ballot)
  deriving DecidableEq, Repr

structure VoterRefusal where
  voter : String
  cause : Missing
  deriving DecidableEq, Repr

inductive ClaimPhase where
  | prepare
  | accept
  deriving DecidableEq, Repr

/-- The errors of `try`: a `NoMajorityError`, `errBallotBound`, `ErrNoValue`, or
a proposal that could not be built or digested. -/
inductive TryError where
  | noMajority (phase : ClaimPhase) (got need : Nat) (refusals : List VoterRefusal)
  | ballotBound
  | noValue
  | badValue (problem : String)
  deriving DecidableEq, Repr

/-- What a transport returned for each voter it asked. -/
abbrev Answers (α : Type) := List (String × Except String α)

def promisesOf (answers : Answers PrepareResult) : List (String × PrepareResult) :=
  answers.filterMap fun
    | (voter, .ok res) => if res.promised then some (voter, res) else none
    | (_, .error _) => none

def prepareRefusals (answers : Answers PrepareResult) : List VoterRefusal :=
  answers.filterMap fun
    | (voter, .ok res) =>
      if res.promised then none
      else some ⟨voter, .refused res.refusal res.detail res.promisedBallot⟩
    | (voter, .error problem) => some ⟨voter, .unreachable problem⟩

/-- The accept an answer counts for: the asked voter's, for the asked key. -/
def countedAccept (key : ClaimKey) (voter : String) (res : AcceptResult) : Option ClaimAccept :=
  match res.accept with
  | some a => if res.accepted && a.voter = voter && a.key = key then some a else none
  | none => none

def acceptsOf (key : ClaimKey) (answers : Answers AcceptResult) : List ClaimAccept :=
  answers.filterMap fun
    | (voter, .ok res) => countedAccept key voter res
    | (_, .error _) => none

def acceptRefusals (key : ClaimKey) (answers : Answers AcceptResult) : List VoterRefusal :=
  answers.filterMap fun
    | (voter, .ok res) =>
      if (countedAccept key voter res).isSome then none
      else some ⟨voter, .refused res.refusal res.detail res.promisedBallot⟩
    | (voter, .error problem) => some ⟨voter, .unreachable problem⟩

def noteStale (stale : Ballot) (r : VoterRefusal) : Ballot :=
  match r.cause with
  | .refused (some .ballotStale) _ promised =>
    if Ballot.compareBallots promised stale = .gt then promised else stale
  | _ => stale

def publicRefusals (refusals : List VoterRefusal) : List VoterRefusal :=
  refusals.insertionSort fun a b => a.voter ≤ b.voter

/-- The loops of `try` over what the promises report: the value accepted at the
highest ballot. -/
def bestAccepted : List ClaimVoterState → Ballot → Option ClaimValue → Option ClaimValue
  | [], _, value => value
  | st :: rest, best, value =>
    if st.value.isSome && !st.accepted.isZero &&
        Ballot.compareBallots st.accepted best = .gt then
      bestAccepted rest st.accepted st.value
    else bestAccepted rest best value

/-- The legacy value that an incarnation-scoped decision takes over. -/
def adoptedLegacy (spec : Spec) (promises : List (String × PrepareResult)) : Option ClaimValue :=
  match spec.adoptLegacy with
  | some keep =>
    if spec.key.incarnation ≠ "" then
      (bestAccepted (promises.filterMap (·.2.legacy)) .zero none).filter keep
    else none
  | none => none

/-- The value of phase 2, and whether `Propose` built it. -/
def chooseValue (spec : Spec) (promises : List (String × PrepareResult)) :
    Except TryError (ClaimValue × Bool) :=
  match (bestAccepted (promises.map (·.2.state)) .zero none).or (adoptedLegacy spec promises) with
  | some value => .ok (value, false)
  | none =>
    match spec.propose with
    | none => .error .noValue
    | some propose =>
      match propose promises with
      | .ok value => .ok (value, true)
      | .error problem => .error (.badValue problem)

structure Proposal where
  ballot : Ballot
  value : ClaimValue
  digest : String
  ours : Bool
  targets : List String
  quorum : Nat
  /-- The highest promise a voter refused phase 1 with. -/
  stale : Ballot
  deriving DecidableEq, Repr

/-- `try` up to phase 2: the digests `Propose` built so far, the process, and the
proposal, or the promise to go above with the error. -/
def tryPrepare [Sha256] (p : Proposer) (spec : Spec) (b : Ballot) (own : List String)
    (answers : Answers PrepareResult) :
    List String × Proposer × Except (Ballot × TryError) Proposal :=
  let promises := promisesOf answers
  let refusals := prepareRefusals answers
  let stale := refusals.foldl noteStale .zero
  if promises.length < spec.prepareQuorum then
    (own, p, .error (stale, .noMajority .prepare promises.length spec.prepareQuorum
      (publicRefusals refusals)))
  else
    match chooseValue spec promises with
    | .error problem => (own, p, .error (.zero, problem))
    | .ok (value, built) =>
      match value.digest with
      | .error problem => (own, p, .error (.zero, .badValue problem))
      | .ok digest =>
        let ours := built || digest ∈ own
        let own := if built then digest :: own else own
        match p.bind spec.key b.round digest with
        | none => (own, p, .error (b, .ballotBound))
        | some p =>
          let electorate := match spec.electorate with
            | some electorate => electorate value
            | none => (spec.voters, spec.prepareQuorum)
          (own, p, .ok ⟨b, value, digest, ours, electorate.1, electorate.2, stale⟩)

def tryAccept (spec : Spec) (prop : Proposal) (answers : Answers AcceptResult) :
    Except (Ballot × TryError) Outcome :=
  let accepts := acceptsOf spec.key answers
  let refusals := acceptRefusals spec.key answers
  if accepts.length < prop.quorum then
    .error (refusals.foldl noteStale prop.stale, .noMajority .accept accepts.length prop.quorum
      (publicRefusals refusals))
  else
    .ok ⟨prop.value, prop.digest,
      ⟨spec.key, spec.generation, prop.ballot, prop.digest, prop.value.sourceHost,
        accepts.insertionSort fun a b => a.voter ≤ b.voter⟩, prop.ours⟩

inductive DecidePhase where
  | round
  | preparing (b : Ballot)
  | accepting (prop : Proposal)
  | decided (out : Outcome)
  | failed (problem : TryError)

structure Decision where
  spec : Spec
  attempt : Nat
  round : UInt64
  own : List String
  phase : DecidePhase

namespace Decision

def start (spec : Spec) : Decision :=
  ⟨spec, 0, if spec.startRound = 0 then 1 else spec.startRound, [], .round⟩

def maxRounds (d : Decision) : Nat := if d.spec.maxRounds ≤ 0 then 8 else d.spec.maxRounds.toNat

/-- After an error: go above the promise that was in the way, or give up. -/
def retry (d : Decision) (stale : Ballot) (problem : TryError) : Decision :=
  if stale.isZero then { d with phase := .failed problem }
  else if d.attempt + 1 < d.maxRounds then
    { d with attempt := d.attempt + 1, round := stale.round + 1, phase := .round }
  else { d with phase := .failed problem }

/-- The next round: its ballot, and the process that allocated it. -/
def beginRound (d : Decision) (p : Proposer) : Ballot × Proposer × Decision :=
  let (b, p) := p.ballot d.spec.key d.round (d.spec.reuseRound && d.attempt = 0)
  (b, p, { d with phase := .preparing b })

def afterPrepare [Sha256] (d : Decision) (p : Proposer) (b : Ballot)
    (answers : Answers PrepareResult) : Proposer × Decision :=
  match tryPrepare p d.spec b d.own answers with
  | (own, p, .ok prop) => (p, { d with own := own, phase := .accepting prop })
  | (own, p, .error (stale, problem)) => (p, retry { d with own := own } stale problem)

def afterAccept (d : Decision) (prop : Proposal) (answers : Answers AcceptResult) : Decision :=
  match tryAccept d.spec prop answers with
  | .ok out => { d with phase := .decided out }
  | .error (stale, problem) => retry d stale problem

end Decision

end Litevirt.Claims
