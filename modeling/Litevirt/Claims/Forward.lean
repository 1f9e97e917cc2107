import Litevirt.Claims.ImportSpec
import Litevirt.Claims.Visibility

/-!
# Claim rows only move forward

`ClaimPrepare`, `ClaimAccept` and `ImportClaimsAndAdopt` are the writers of a voter's claim
rows.  Each runs in `ExecuteLocal`, between writes of other parts of the node that leave
the claim tables alone.
-/

namespace Litevirt.Claims

open Litevirt.Lib

/-- How the state of a key may change. -/
structure Forward (before after : ClaimVoterState) : Prop where
  promised : before.promised ≤ after.promised
  accepted : before.accepted ≤ after.accepted
  digest : before.accepted = after.accepted → before.valueDigest = after.valueDigest
  within : before.accepted ≤ before.promised → after.accepted ≤ after.promised

theorem Forward.refl (st : ClaimVoterState) : Forward st st :=
  ⟨le_refl _, le_refl _, fun _ => rfl, fun within => within⟩

theorem Forward.trans {first second third : ClaimVoterState} (one : Forward first second)
    (other : Forward second third) : Forward first third := by
  refine ⟨one.promised.trans other.promised, one.accepted.trans other.accepted, fun same => ?_,
    fun within => other.within (one.within within)⟩
  have stays : first.accepted = second.accepted :=
    le_antisymm one.accepted (same ▸ other.accepted)
  exact (one.digest stays).trans (other.digest (stays.symm.trans same))

namespace VoterDB

/-- A transaction on the voter's database. -/
inductive Call where
  | prepare (key : ClaimKey) (b : Ballot) (gen : Int)
  | accept (key : ClaimKey) (b : Ballot) (v : ClaimValue) (gen : Int) (ownerChecked : Bool)
  | importAndAdopt (newGen : Int) (sources : List String) (states : List ClaimVoterState)
  /-- Any write elsewhere. -/
  | other (incarnation : String) (adoptions : List Int) (voterConfigs : List VoterConfig)
      (seals : List Int)

/-- `ExecuteLocal`: an error rolls back, and so does a database that fails. -/
def executeLocal {α : Type} (commits : Bool) (db : VoterDB) (tx : Except String (α × VoterDB)) :
    Option α × VoterDB :=
  match tx with
  | .ok (result, written) => if commits then (some result, written) else (none, db)
  | .error _ => (none, db)

section

variable [Sha256]

/-- Whether a call succeeded, and the database after it. -/
def call (me : String) (db : VoterDB) (commits : Bool) : Call → Bool × VoterDB
  | .prepare key b gen =>
    let done := db.executeLocal commits (db.claimPrepare me key b gen)
    (done.1.any (·.promised), done.2)
  | .accept key b v gen ownerChecked =>
    let done := db.executeLocal commits (db.claimAccept me key b v gen ownerChecked)
    (done.1.any (·.accepted), done.2)
  | .importAndAdopt newGen sources states =>
    let done := db.executeLocal commits (db.importClaimsAndAdopt me newGen sources states)
    (done.1.isSome, done.2)
  | .other incarnation adoptions voterConfigs seals =>
    (true, { db with incarnation, adoptions, voterConfigs, seals })

def step (me : String) (db : VoterDB) (label : Bool × Call) : Option VoterDB :=
  some (db.call me label.1 label.2).2

variable {db : VoterDB} {me : String} {commits : Bool}

omit [Sha256] in
theorem executeLocal_cases {α : Type} (commits : Bool) (db : VoterDB)
    (tx : Except String (α × VoterDB)) :
    db.executeLocal commits tx = (none, db) ∨
      ∃ result written, tx = .ok (result, written) ∧
        db.executeLocal commits tx = (some result, written) := by
  rcases tx with problem | ⟨result, written⟩
  · exact .inl rfl
  · cases commits with
    | false => exact .inl rfl
    | true => exact .inr ⟨result, written, rfl, rfl⟩

omit [Sha256] in
theorem forward_save {st : ClaimVoterState} (key : ClaimKey) (isKey : st.key = key)
    (forward : Forward (db.state key) st) (k : ClaimKey) :
    Forward (db.state k) ((db.saveClaimRowTx st).state k) := by
  rw [state_save, isKey]
  split
  · rename_i same
    rw [same]
    exact forward
  · exact .refl _

variable {db' : VoterDB} {key : ClaimKey}

omit [Sha256] in
theorem importState_digest {newGen : Int} {k : ClaimKey} {incoming : ClaimVoterState}
    (lower : ¬ (db.state k).accepted < incoming.accepted) :
    ((db.importState newGen k incoming).1.state k).valueDigest = (db.state k).valueDigest := by
  have loaded : (db.loadClaimRowTx k).1 = db.state k := rfl
  unfold importState
  simp only [loaded, Ballot.compareBallots_eq_gt, lower, if_false, false_or]
  split
  · rw [state_save, if_pos (by simp)]
  · rfl

omit [Sha256] in
theorem importState_forward (db : VoterDB) (newGen : Int) (k : ClaimKey)
    (incoming : ClaimVoterState) (key : ClaimKey) :
    Forward (db.state key) ((db.importState newGen k incoming).1.state key) := by
  obtain ⟨-, others, imported, -⟩ := importState_spec db newGen k incoming
  by_cases isKey : key = k
  · subst isKey
    refine ⟨imported.promised, imported.accepted, fun same => ?_, imported.within⟩
    rcases imported.origin with unchanged | ⟨src, isSource, accepted, -⟩
    · exact unchanged.valueDigest.symm
    · obtain rfl := List.mem_singleton.mp isSource
      exact (importState_digest (same.trans accepted.symm).not_lt).symm
  · rw [others key isKey]
    exact .refl _

omit [Sha256] in
theorem importStates_forward (newGen : Int) (rows : List (ClaimKey × ClaimVoterState))
    (db : VoterDB) (key : ClaimKey) :
    Forward (db.state key) ((importStates newGen rows db).1.state key) := by
  induction rows generalizing db with
  | nil => exact .refl _
  | cons row rest ih => exact (importState_forward db newGen row.1 row.2 key).trans (ih _)

theorem importClaimsAndAdopt_forward {newGen : Int} {sources : List String}
    {states : List ClaimVoterState} {count : Nat}
    (done : db.importClaimsAndAdopt me newGen sources states = .ok (count, db')) (key : ClaimKey) :
    Forward (db.state key) (db'.state key) := by
  obtain ⟨st, -, done⟩ := bind_eq_ok done
  split at done
  · cases done
    exact .refl _
  split at done
  · cases done
  obtain ⟨best, -, done⟩ := bind_eq_ok done
  cases done
  rw [(recordAdoptionTx_frame (importStates newGen best.rows db).1 newGen).2]
  exact importStates_forward newGen best.rows db key

theorem call_forward (within : ∀ key, (db.state key).accepted ≤ (db.state key).promised)
    (commits : Bool) (c : Call) (key : ClaimKey) :
    Forward (db.state key) ((db.call me commits c).2.state key) := by
  have transaction : ∀ {α : Type} (tx : Except String (α × VoterDB)),
      (∀ result written, tx = .ok (result, written) → Forward (db.state key) (written.state key)) →
      Forward (db.state key) ((db.executeLocal commits tx).2.state key) := by
    intro α tx forward
    rcases executeLocal_cases commits db tx with rolled | ⟨result, written, done, committed⟩
    · rw [rolled]
      exact .refl _
    · rw [committed]
      exact forward result written done
  cases c with
  | prepare k b gen =>
    refine transaction _ fun _ _ done => ?_
    rcases claimPrepare_ok done with ⟨-, rfl⟩ | ⟨-, ⟨-, rfl⟩ | ⟨higher, rfl⟩, -⟩
    · exact .refl _
    · exact .refl _
    · refine forward_save k (by simp [promiseRow]) ?_ key
      exact ⟨higher.le, le_refl _, fun _ => rfl, fun within => within.trans higher.le⟩
  | accept k b v gen ownerChecked =>
    -- a new accept is at the promise or above it, and at its own ballot only for its own value
    refine transaction _ fun _ _ done => ?_
    rcases claimAccept_ok done with ⟨rfl, -⟩ | ⟨digest, -, admits, oneValue,
      ⟨-, -, -, -, rfl, -⟩ | ⟨rfl, -⟩⟩
    · exact .refl _
    · exact .refl _
    · refine forward_save k (by simp [acceptRow]) ?_ key
      exact ⟨admits.promised, (within k).trans admits.promised, oneValue, fun _ => le_refl _⟩
  | importAndAdopt newGen sources states =>
    exact transaction _ fun _ _ done => importClaimsAndAdopt_forward done key
  | other incarnation adoptions voterConfigs seals => exact .refl _

theorem call_unsuccessful {c : Call} (failed : (db.call me commits c).1 = false) :
    (db.call me commits c).2 = db := by
  cases c with
  | prepare k b gen =>
    rcases executeLocal_cases commits db (db.claimPrepare me k b gen) with
      rolled | ⟨res, written, done, committed⟩
    · exact congrArg Prod.snd rolled
    have refused : res.promised = false := by simpa [call, committed] using failed
    refine (congrArg Prod.snd committed).trans ?_
    rcases claimPrepare_ok done with ⟨-, same⟩ | ⟨-, -, rfl⟩
    · exact same
    · cases refused
  | accept k b v gen ownerChecked =>
    rcases executeLocal_cases commits db (db.claimAccept me k b v gen ownerChecked) with
      rolled | ⟨out, written, done, committed⟩
    · exact congrArg Prod.snd rolled
    have refused : out.accepted = false := by
      simpa [call, committed] using failed
    refine (congrArg Prod.snd committed).trans ?_
    rcases claimAccept_ok done with ⟨same, -⟩ | ⟨digest, -, -, -,
      ⟨_, -, -, -, same, -⟩ | ⟨-, answered⟩⟩
    · exact same
    · exact same
    · rw [answered] at refused
      cases refused
  | importAndAdopt newGen sources states =>
    rcases executeLocal_cases commits db (db.importClaimsAndAdopt me newGen sources states) with
      rolled | ⟨count, written, done, committed⟩
    · exact congrArg Prod.snd rolled
    · simp [call, committed] at failed
  | other incarnation adoptions voterConfigs seals => cases failed

abbrev Runs (me : String) : VoterDB → VoterDB → Prop := Run (step me) fun _ _ => True

/-- From a voter without claim rows, in every two states of a run, one after the other: no promised
and no accepted ballot decreases, none is accepted above its promise, and one ballot has one
digest; and a call without success leaves the database as it is. -/
theorem claim_rows_move_forward (me : String) {fresh middle last : VoterDB}
    (new : ∀ key, fresh.has key = false) (before : Runs me fresh middle)
    (after : Runs me middle last) :
    (∀ key, (middle.state key).promised ≤ (last.state key).promised ∧
      (middle.state key).accepted ≤ (last.state key).accepted ∧
      (last.state key).accepted ≤ (last.state key).promised ∧
      ((middle.state key).accepted = (last.state key).accepted →
        (middle.state key).valueDigest = (last.state key).valueDigest)) ∧
    ∀ commits c, (last.call me commits c).1 = false → (last.call me commits c).2 = last := by
  have start : ∀ key, (fresh.state key).accepted ≤ (fresh.state key).promised := by
    intro key
    rw [state_of_not_has (new key)]
    exact le_refl _
  -- along a run every key moves forward of where the run began
  have moves : ∀ {first last : VoterDB}, (∀ key, (first.state key).accepted ≤
      (first.state key).promised) → Runs me first last →
      ∀ key, Forward (first.state key) (last.state key) := by
    intro first last within run
    refine run.invariant (fun db => ∀ key, Forward (first.state key) (db.state key))
      (fun key => .refl _) ?_
    rintro db ⟨commits, c⟩ next - ⟨⟩ forward key
    exact (forward key).trans
      (call_forward (fun k => (forward k).within (within k)) commits c key)
  have within := fun key => (moves start before key).within (start key)
  refine ⟨fun key => ?_, fun commits c => call_unsuccessful⟩
  have forward := moves within after key
  exact ⟨forward.promised, forward.accepted, forward.within (within key), forward.digest⟩

end

/-- The sole voter after a promise, and after an accept at the next ballot. -/
def solePromised : VoterDB :=
  (@call .verbatim "a" soleVoter true (.prepare webKey ⟨1, "a", [1]⟩ 1)).2

def soleAccepted : VoterDB :=
  (@call .verbatim "a" solePromised true (.accept webKey ⟨2, "a", [1]⟩ webValue 1 true)).2

theorem claim_rows_move_forward_sole :
    (solePromised.state webKey).promised = ⟨1, "a", [1]⟩ ∧
      (soleAccepted.state webKey).accepted = ⟨2, "a", [1]⟩ ∧
      (solePromised.state webKey).promised ≤ (soleAccepted.state webKey).promised := by
  have unvoted : ∀ key, soleVoter.has key = false := by
    intro key
    unfold has loadClaimRow
    split <;> rfl
  have promises : @step .verbatim "a" soleVoter (true, .prepare webKey ⟨1, "a", [1]⟩ 1) =
      some solePromised := rfl
  have accepts : @step .verbatim "a" solePromised
      (true, .accept webKey ⟨2, "a", [1]⟩ webValue 1 true) = some soleAccepted := rfl
  have forward := (@claim_rows_move_forward .verbatim "a" _ _ _ unvoted
    (.tail (.refl _) trivial promises) (.tail (.refl _) trivial accepts)).1 webKey
  exact ⟨by decide +kernel, by decide +kernel, forward.1⟩

end VoterDB

end Litevirt.Claims
