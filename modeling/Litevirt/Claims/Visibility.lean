import Litevirt.Lib.Transition
import Litevirt.Claims.VoteSpec

/-!
# Accepted state is visible to seal and import

A voter serves Prepare and Accept calls one transaction after the other.  What it
accepted last for a workload key is what it exports, and an accepted change
seals its generation, as long as the signed column can hold the round.
-/

namespace Litevirt.Claims

open Litevirt.Lib VoterConfig VoterDB VoterStanding

/-- A vote that `ClaimAccept` returned as accepted. -/
structure AcceptedVote where
  key : ClaimKey
  ballot : Ballot
  value : ClaimValue
  generation : Int
  deriving DecidableEq

/-- A voter and the accepts it has answered, newest first. -/
structure VoterRun where
  db : VoterDB
  log : List AcceptedVote

inductive VoteCall where
  | prepare (key : ClaimKey) (b : Ballot) (gen : Int)
  | accept (key : ClaimKey) (b : Ballot) (v : ClaimValue) (gen : Int) (ownerChecked : Bool)

namespace VoterRun

variable [Sha256] (me : String)

/-- Serve one call; a database error leaves everything as it was. -/
def step (s : VoterRun) : VoteCall → Option VoterRun
  | .prepare key b gen =>
    match s.db.claimPrepare me key b gen with
    | .ok (_, db) => some { s with db := db }
    | .error _ => some s
  | .accept key b v gen ownerChecked =>
    match s.db.claimAccept me key b v gen ownerChecked with
    | .ok (.answer res, db) =>
      some ⟨db, if res.accepted then ⟨key, b, v, gen⟩ :: s.log else s.log⟩
    | .ok (_, db) => some { s with db := db }
    | .error _ => some s

def latest (s : VoterRun) (key : ClaimKey) : Option AcceptedVote :=
  s.log.find? (·.key = key)

/-- What was accepted last is exported, and accepted changes seal. -/
structure Visible (s : VoterRun) : Prop where
  exported : ∀ key vote, s.latest key = some vote → key.isWorkload = true →
    ∃ src, s.db.claimStatesForImport me vote.generation = .ok src ∧
      ∃ st ∈ src.states, st.key = key ∧ st.accepted = vote.ballot ∧
        ∃ v, st.value = some v ∧ v.digest = vote.value.digest
  sealed : ∀ vote ∈ s.log, vote.key.isVoterConfig = true →
    ∀ (key : ClaimKey) (b : Ballot), key.isWorkload = true →
      (∃ res, s.db.claimPrepare me key b vote.generation = .ok (res, s.db) ∧
        res.promised = false ∧ res.refusal.isSome = true) ∧
      ∀ (v : ClaimValue) (ownerChecked : Bool),
        ∃ res, s.db.claimAccept me key b v vote.generation ownerChecked =
            .ok (.answer res, s.db) ∧
          res.accepted = false ∧ res.refusal.isSome = true

/-- The ballot of an accept has a round that a signed 64-bit column holds. -/
def RoundFits (_ : VoterRun) : VoteCall → Prop
  | .prepare .. => True
  | .accept _ b .. => b.round.toNat < 2 ^ 63

end VoterRun

namespace VoterDB

variable {db : VoterDB} {refusal : Refusal × String} {key : ClaimKey} {me : String} {gen : Int}

theorem readStandingTx_eq (me : String) (incarnation : db.incarnation ≠ "")
    (config : 0 < db.adopted → (db.getVoterConfig db.adopted).isSome = true) :
    readStandingTx db me = .ok (db.standing me) := by
  unfold readStandingTx
  by_cases positive : 0 < db.adopted
  · obtain ⟨cfg, found⟩ := Option.isSome_iff_exists.mp (config positive)
    simp [positive, found, incarnation, standing, bind, Except.bind]
  · simp [positive, incarnation, standing, bind, Except.bind]

end VoterDB

theorem VoterStanding.admit_of_sealed {st : VoterStanding} {key : ClaimKey} (gen : Int)
    (v : Option ClaimValue) (sealed : st.sealed = true) (workload : key.isWorkload = true) :
    ∃ refusal, st.admitVote key gen v = some refusal := by
  cases admitted : st.admitVote key gen v with
  | some refusal => exact ⟨refusal, rfl⟩
  | none =>
    have unsealed := (admit_workload workload admitted).1
    rw [sealed] at unsealed
    cases unsealed

namespace VoterRun

def Unvoted (db : VoterDB) : Prop :=
  db.recoveryClaims = .empty ∧ db.incarnationClaims = .empty

variable {db : VoterDB}

theorem state_of_unvoted (unvoted : Unvoted db) (key : ClaimKey) : db.state key = .empty key := by
  refine state_of_not_has ?_
  simp [VoterDB.has, VoterDB.loadClaimRow, unvoted.1, unvoted.2]

theorem latest_cons (db : VoterDB) (vote : AcceptedVote) (log : List AcceptedVote)
    (key : ClaimKey) :
    (VoterRun.mk db (vote :: log)).latest key =
      if vote.key = key then some vote else (VoterRun.mk db log).latest key := by
  unfold latest
  split <;> simp_all

variable [Sha256]

def Backed (st : ClaimVoterState) : Prop :=
  ∃ v, st.value = some v ∧ v.digest = .ok st.valueDigest

structure Invariant (s : VoterRun) : Prop where
  backed : ∀ key a, (s.db.state key).accept = some a → Backed (s.db.state key)
  latest : ∀ key vote, s.latest key = some vote →
    (s.db.state key).accepted = vote.ballot ∧ VoterDB.SqlPositive vote.ballot ∧
      vote.value.digest = .ok (s.db.state key).valueDigest ∧ Backed (s.db.state key)
  admitted : ∀ vote ∈ s.log, vote.generation = s.db.adopted ∧ vote.key.validate = none ∧
    (vote.key.isVoterConfig = true → vote.key.ownerEpoch = s.db.adopted) ∧
    s.db.incarnation ≠ "" ∧
    (0 < s.db.adopted → (s.db.getVoterConfig s.db.adopted).isSome = true)

variable {s : VoterRun}

theorem Invariant.of_same (invariant : Invariant s) (standing : VoterDB.SameStanding s.db db)
    (same : ∀ key, VoterDB.SameAccepted (s.db.state key) (db.state key)) :
    Invariant { s with db := db } := by
  have backed : ∀ key, Backed (s.db.state key) → Backed (db.state key) := by
    rintro key ⟨v, value, digest⟩
    exact ⟨v, (same key).value.trans value, by rw [(same key).valueDigest]; exact digest⟩
  refine ⟨fun key a stored => ?_, fun key vote last => ?_, fun vote member => ?_⟩
  · exact backed key (invariant.backed key a ((same key).accept ▸ stored))
  · obtain ⟨accepted, positive, digest, value⟩ := invariant.latest key vote last
    refine ⟨(same key).accepted.trans accepted, positive, ?_, backed key value⟩
    rw [(same key).valueDigest]
    exact digest
  · simp only [standing.adopted, standing.incarnation, VoterDB.getVoterConfig,
      standing.voterConfigs]
    exact invariant.admitted vote member

variable {me : String}

theorem Invariant.accept {key : ClaimKey} {b : Ballot} {v : ClaimValue} {gen : Int}
    {ownerChecked : Bool} {res : AcceptResult} (invariant : Invariant s)
    (fits : b.round.toNat < 2 ^ 63)
    (done : s.db.claimAccept me key b v gen ownerChecked = .ok (.answer res, db)) :
    Invariant ⟨db, if res.accepted then ⟨key, b, v, gen⟩ :: s.log else s.log⟩ := by
  rcases claimAccept_ok done with ⟨rfl, refused⟩ | ⟨digest, digestEq, admits, same, voted⟩
  · rw [(refused res rfl).1]
    exact invariant
  have accepted : res.accepted = true := by
    rcases voted with ⟨a, -, -, -, -, answer⟩ | ⟨-, answer⟩ <;> cases answer <;> rfl
  rw [accepted, if_pos rfl]
  have valid := admit_valid admits.admitted
  have joined : (AcceptedVote.mk key b v gen).generation = s.db.adopted ∧
      key.validate = none ∧ (key.isVoterConfig = true → key.ownerEpoch = s.db.adopted) ∧
      s.db.incarnation ≠ "" ∧
      (0 < s.db.adopted → (s.db.getVoterConfig s.db.adopted).isSome = true) :=
    ⟨valid.2, valid.1, fun config => (admit_voterConfig config admits.admitted).1,
      admits.incarnation, admits.config⟩
  have positive : VoterDB.SqlPositive b := ⟨admits.round, fits⟩
  rcases voted with ⟨a, stored, current, -, rfl, -⟩ | ⟨rfl, -⟩
  · -- A repeated accept: the row already holds the ballot and its digest.
    have backed := invariant.backed key a stored
    refine ⟨invariant.backed, fun k vote last => ?_,
      List.forall_mem_cons.mpr ⟨joined, invariant.admitted⟩⟩
    rw [latest_cons] at last
    split at last
    · rename_i equal
      cases last
      subst equal
      exact ⟨current, positive, by rw [same current]; exact digestEq, backed⟩
    · exact invariant.latest k vote last
  -- A new accept: only the row of its key changes.
  have standing := saveClaimRowTx_standing s.db (s.db.acceptRow me key b v gen digest)
  have own : (s.db.saveClaimRowTx (s.db.acceptRow me key b v gen digest)).state key =
      s.db.acceptRow me key b v gen digest := by
    rw [state_save, if_pos (by simp [VoterDB.acceptRow])]
  have others : ∀ k, k ≠ key →
      (s.db.saveClaimRowTx (s.db.acceptRow me key b v gen digest)).state k = s.db.state k := by
    intro k different
    rw [state_save, if_neg (by simpa [VoterDB.acceptRow] using different)]
  have backed : Backed (s.db.acceptRow me key b v gen digest) := ⟨v, rfl, digestEq⟩
  refine ⟨fun k a stored => ?_, fun k vote last => ?_, ?_⟩
  · by_cases equal : k = key
    · rw [equal, own]
      exact backed
    · rw [others k equal] at stored ⊢
      exact invariant.backed k a stored
  · rw [latest_cons] at last
    split at last
    · rename_i equal
      cases last
      subst equal
      rw [own]
      exact ⟨rfl, positive, digestEq, backed⟩
    · rename_i different
      rw [others k fun equal => different equal.symm]
      exact invariant.latest k vote last
  · simp only [standing.adopted, standing.incarnation, VoterDB.getVoterConfig,
      standing.voterConfigs]
    exact List.forall_mem_cons.mpr ⟨joined, invariant.admitted⟩

theorem Invariant.step {next : VoterRun} {call : VoteCall} (invariant : Invariant s)
    (fits : RoundFits s call) (stepped : step me s call = some next) : Invariant next := by
  cases call with
  | prepare key b gen =>
    simp only [VoterRun.step] at stepped
    split at stepped
    · rename_i res db done
      cases stepped
      obtain ⟨standing, same⟩ := claimPrepare_keeps done
      exact invariant.of_same standing fun k => (same k).1
    · cases stepped
      exact invariant
  | accept key b v gen ownerChecked =>
    simp only [VoterRun.step] at stepped
    split at stepped
    · rename_i res db done
      cases stepped
      exact invariant.accept fits done
    · rename_i out db pending done
      cases stepped
      rcases claimAccept_ok done with ⟨rfl, -⟩ | ⟨digest, -, -, -, voted⟩
      · exact invariant
      · rcases voted with ⟨a, -, -, -, -, answer⟩ | ⟨-, answer⟩ <;>
          exact absurd answer (pending _)
    · cases stepped
      exact invariant

theorem Invariant.visible (me : String) (invariant : Invariant s) : Visible me s := by
  refine ⟨fun key vote last workload => ?_, fun vote member config key b workload => ?_⟩
  · obtain ⟨accepted, positive, digest, v, value, backed⟩ := invariant.latest key vote last
    obtain ⟨-, -, -, incarnation, row⟩ := invariant.admitted vote (List.mem_of_find?_eq_some last)
    refine ⟨_, by
      rw [VoterDB.claimStatesForImport, readStandingTx_eq me incarnation row]; rfl,
      s.db.state key, mem_acceptedStates workload (accepted ▸ positive),
      state_key _ _, accepted, v, value, by rw [backed, digest]⟩
  obtain ⟨generation, valid, epoch, incarnation, row⟩ := invariant.admitted vote member
  have read := readStandingTx_eq me incarnation row
  obtain ⟨last, found⟩ : ∃ last, s.latest vote.key = some last :=
    Option.isSome_iff_exists.mp (List.find?_isSome.mpr ⟨vote, member, by simp⟩)
  have key_eq : vote.key = .voterConfig s.db.adopted := by
    rcases ClaimKey.validate_eq_none valid with isWorkload | shape
    · rw [ClaimKey.not_isVoterConfig_of_isWorkload isWorkload] at config
      cases config
    · rw [shape, epoch config]
  obtain ⟨accepted, positive, -⟩ := invariant.latest vote.key last found
  have sealed : (s.db.standing me).sealed = true := by
    have seen : s.db.acceptedChange s.db.adopted = true :=
      acceptedChange_of_state (by rw [← key_eq, accepted]; exact positive)
    simp [VoterDB.standing, seen]
  refine ⟨?_, fun v ownerChecked => ?_⟩
  · obtain ⟨refusal, refused⟩ := admit_of_sealed vote.generation none
      sealed workload
    unfold VoterDB.claimPrepare
    split
    · exact ⟨_, rfl, rfl, rfl⟩
    · simp only [read, bind, Except.bind, refused]
      exact ⟨_, rfl, rfl, rfl⟩
  · obtain ⟨refusal, refused⟩ := admit_of_sealed vote.generation (some v)
      sealed workload
    unfold VoterDB.claimAccept
    split
    · exact ⟨_, rfl, rfl, rfl⟩
    split
    · exact ⟨_, rfl, rfl, rfl⟩
    · simp only [read, bind, Except.bind, refused]
      exact ⟨_, rfl, rfl, rfl⟩

/-- In every sequence of calls at a voter, with every accepted ballot's round
below 2^63, the last accepted value of each workload key is exported and an
accepted change seals its generation. -/
theorem visible_of_roundFits {me : String} {db : VoterDB} {final : VoterRun}
    (unvoted : Unvoted db) (run : Run (step me) RoundFits ⟨db, []⟩ final) : Visible me final := by
  have initial : Invariant ⟨db, []⟩ := by
    refine ⟨fun key a stored => ?_, fun key vote last => ?_, fun vote member => ?_⟩
    · simp only [state_of_unvoted unvoted] at stored
      cases stored
    · simp [latest] at last
    · cases member
  exact (run.invariant Invariant initial
    fun _ _ _ fits stepped invariant => invariant.step fits stepped).visible me

end VoterRun

def soleVoter : VoterDB :=
  { incarnation := "i"
    adoptions := [1]
    voterConfigs := [⟨⟨1, [⟨"a", "i"⟩], .genesis, "a", "t"⟩, "", none⟩]
    recoveryClaims := .empty
    incarnationClaims := .empty
    seals := [] }

def webKey : ClaimKey := ⟨.vm, "web", 0, 0, ""⟩

def webValue : ClaimValue :=
  .ofProof ⟨"p1", "reschedule", .vm, "web", "b", "a", "", "", "0", 1, ""⟩ "c"

def soleAccept (round : UInt64) : VoteCall := .accept webKey ⟨round, "a", [1]⟩ webValue 1 true

def serve (s : VoterRun) (call : VoteCall) : VoterRun :=
  (@VoterRun.step Sha256.verbatim "a" s call).getD s

def soleAfter (round : UInt64) : VoterRun := serve ⟨soleVoter, []⟩ (soleAccept round)

theorem run_serve {s first : VoterRun} {call : VoteCall}
    (run : Run (@VoterRun.step Sha256.verbatim "a") VoterRun.RoundFits first s)
    (fits : VoterRun.RoundFits s call) :
    Run (@VoterRun.step Sha256.verbatim "a") VoterRun.RoundFits first (serve s call) := by
  cases stepped : @VoterRun.step Sha256.verbatim "a" s call with
  | none =>
    rw [serve, stepped]
    exact run
  | some next =>
    rw [serve, stepped]
    exact run.tail fits stepped

/-- The change of the voters that adds `b`. -/
def addB : ClaimValue := .ofConfig ⟨2, [⟨"a", "i"⟩, ⟨"b", "j"⟩], .add "b", "a", "t"⟩

/-- A recovery was accepted and then a change of the voters. -/
def soleSealed : VoterRun :=
  serve (soleAfter 1) (.accept (.voterConfig 1) ⟨1, "a", [1]⟩ addB 1 true)

/-- An accepted recovery at round 1 is exported, and a change accepted behind it seals the
generation. -/
theorem accepted_round_one_visible :
    soleSealed.log.map (·.key) = [.voterConfig 1, webKey] ∧
      @VoterRun.Visible Sha256.verbatim "a" soleSealed :=
  have fits : (1 : UInt64).toNat < 2 ^ 63 := by decide
  ⟨by decide +kernel, @VoterRun.visible_of_roundFits Sha256.verbatim _ _ _ ⟨rfl, rfl⟩
    (run_serve (run_serve (.refl _) fits) fits)⟩

/-- The same accept at round 2^63 is answered as accepted, and the voter then
exports nothing: the stored round is negative. -/
theorem accepted_round_hidden :
    (soleAfter 9223372036854775808).log.length = 1 ∧
      (soleAfter 9223372036854775808).db.claimStatesForImport "a" 1 = .ok ⟨"a", false, 1, []⟩ ∧
      ¬ @VoterRun.Visible Sha256.verbatim "a" (soleAfter 9223372036854775808) := by
  refine ⟨by decide +kernel,
    (and_iff_left_of_imp fun hidden visible => ?_).mpr (by decide +kernel)⟩
  have last : (soleAfter 9223372036854775808).latest webKey =
      some ⟨webKey, ⟨9223372036854775808, "a", [1]⟩, webValue, 1⟩ := by decide +kernel
  obtain ⟨_, export_, _, member, -⟩ :=
    @VoterRun.Visible.exported Sha256.verbatim _ _ visible webKey _ last (by decide)
  rw [hidden] at export_
  cases export_
  cases member

end Litevirt.Claims
