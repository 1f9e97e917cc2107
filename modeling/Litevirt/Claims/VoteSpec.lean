import Litevirt.Lib.Outcome
import Litevirt.Claims.Vote
import Litevirt.Claims.Import

/-!
# What the voting transactions do

One statement per transaction, with everything it checked and everything it
wrote, over the state a voter has for a key.
-/

namespace Litevirt.Claims

open Litevirt.Lib VoterConfig List Table Ballot

theorem scanClaimRow_toRow (st : ClaimVoterState) : scanClaimRow st.key st.toRow = st := by
  simp [scanClaimRow, ClaimVoterState.toRow]

namespace VoterDB

def state (db : VoterDB) (key : ClaimKey) : ClaimVoterState := (db.loadClaimRowTx key).1

def has (db : VoterDB) (key : ClaimKey) : Bool := (db.loadClaimRow key).isSome

variable {db : VoterDB} {key : ClaimKey}

theorem state_of_not_has (absent : db.has key = false) : db.state key = .empty key := by
  unfold has at absent
  unfold state loadClaimRowTx
  split
  · simp_all
  · rfl

@[simp] theorem state_key (db : VoterDB) (key : ClaimKey) : (db.state key).key = key := by
  unfold state loadClaimRowTx
  split <;> rfl

theorem loadClaimRow_save (db : VoterDB) (st : ClaimVoterState) (key : ClaimKey) :
    (db.saveClaimRowTx st).loadClaimRow key =
      if key = st.key then some st.toRow else db.loadClaimRow key := by
  unfold saveClaimRowTx loadClaimRow
  by_cases same : key = st.key
  · subst same
    by_cases unscoped : st.key.incarnation = "" <;> simp [unscoped]
  · by_cases unscoped : st.key.incarnation = "" <;> by_cases other : key.incarnation = "" <;>
      simp [unscoped, other, same, find_put]

theorem state_save (db : VoterDB) (st : ClaimVoterState) (key : ClaimKey) :
    (db.saveClaimRowTx st).state key = if key = st.key then st else db.state key := by
  unfold state loadClaimRowTx
  rw [loadClaimRow_save]
  by_cases same : key = st.key
  · subst same
    simp [scanClaimRow_toRow]
  · simp [same]

theorem has_save (db : VoterDB) (st : ClaimVoterState) (key : ClaimKey) :
    (db.saveClaimRowTx st).has key = (decide (key = st.key) || db.has key) := by
  unfold has
  rw [loadClaimRow_save]
  split <;> simp_all

/-- A signed column is positive exactly for the unsigned rounds below 2^63. -/
theorem signed_pos_iff (r : Int64) : 0 < r ↔ r.toUInt64 ≠ 0 ∧ r.toUInt64.toNat < 2 ^ 63 := by
  have nonzero : r.toUInt64 ≠ 0 ↔ r.toUInt64.toNat ≠ 0 := by
    rw [ne_eq, ← UInt64.toNat_inj]
    rfl
  have unsigned : r.toUInt64.toNat = r.toBitVec.toNat := rfl
  have signed : r.toInt = r.toBitVec.toInt := rfl
  rw [Int64.lt_iff_toInt_lt, Int64.toInt_zero, nonzero, signed,
    BitVec.toInt_eq_toNat_cond]
  split <;> omega

/-- A round that SQL's `accepted_round > 0` sees. -/
def SqlPositive (b : Ballot) : Prop := b.round ≠ 0 ∧ b.round.toNat < 2 ^ 63

theorem exists_row_of_accepted (accepted : SqlPositive (db.state key).accepted) :
    ∃ row, db.loadClaimRow key = some row ∧ scanClaimRow key row = db.state key ∧
      0 < row.acceptedRound := by
  cases found : db.loadClaimRow key with
  | none =>
    rw [state_of_not_has (by simp [has, found])] at accepted
    exact absurd rfl accepted.1
  | some row =>
    have scanned : scanClaimRow key row = db.state key := by
      simp [state, loadClaimRowTx, found]
    refine ⟨row, rfl, scanned, (signed_pos_iff _).mpr ?_⟩
    rw [← scanned] at accepted
    exact accepted

theorem mem_acceptedStates (workload : key.isWorkload = true)
    (accepted : SqlPositive (db.state key).accepted) :
    db.state key ∈
      acceptedStates db.recoveryClaims.rows ++ acceptedStates db.incarnationClaims.rows := by
  obtain ⟨row, found, scanned, positive⟩ := exists_row_of_accepted accepted
  unfold loadClaimRow at found
  split at found
  · rename_i unscoped
    refine mem_append_left _ (mem_map.mpr ⟨(⟨key, unscoped⟩, row), ?_, scanned⟩)
    exact mem_filter.mpr ⟨mem_rows_iff.mpr found, by simp [workload, positive]⟩
  · rename_i hasIncarnation
    refine mem_append_right _ (mem_map.mpr ⟨(⟨key, hasIncarnation⟩, row), ?_, scanned⟩)
    exact mem_filter.mpr ⟨mem_rows_iff.mpr found, by simp [workload, positive]⟩

theorem state_of_mem_acceptedStates {st : ClaimVoterState}
    (exported : st ∈
      acceptedStates db.recoveryClaims.rows ++ acceptedStates db.incarnationClaims.rows) :
    st = db.state st.key ∧ st.key.isWorkload = true := by
  have loaded : ∃ row, db.loadClaimRow st.key = some row ∧ st = scanClaimRow st.key row ∧
      st.key.isWorkload = true := by
    rcases mem_append.mp exported with listed | listed
    all_goals
      obtain ⟨⟨⟨key, scope⟩, row⟩, kept, rfl⟩ := mem_map.mp listed
      obtain ⟨stored, selected⟩ := mem_filter.mp kept
      rw [Bool.and_eq_true, decide_eq_true_iff] at selected
      refine ⟨row, ?_, rfl, selected.1⟩
    · exact (dif_pos scope).trans (mem_rows_iff.mp stored)
    · exact (dif_neg scope).trans (mem_rows_iff.mp stored)
  obtain ⟨row, found, scanned, workload⟩ := loaded
  refine ⟨?_, workload⟩
  rw [VoterDB.state, loadClaimRowTx, found]
  exact scanned

theorem acceptedChange_of_state {g : Int}
    (accepted : SqlPositive (db.state (.voterConfig g)).accepted) : db.acceptedChange g = true := by
  obtain ⟨row, found, -, positive⟩ := exists_row_of_accepted accepted
  refine any_eq_true.mpr ⟨(⟨.voterConfig g, rfl⟩, row), mem_rows_iff.mpr found, ?_⟩
  simp [ClaimKey.isVoterConfig, ClaimKey.voterConfig, positive]

/-- Everything a transaction leaves alone when it votes. -/
structure SameStanding (db db' : VoterDB) : Prop where
  incarnation : db'.incarnation = db.incarnation
  adoptions : db'.adoptions = db.adoptions
  voterConfigs : db'.voterConfigs = db.voterConfigs
  seals : db'.seals = db.seals

theorem SameStanding.refl (db : VoterDB) : SameStanding db db := ⟨rfl, rfl, rfl, rfl⟩

theorem saveClaimRowTx_standing (db : VoterDB) (st : ClaimVoterState) :
    SameStanding db (db.saveClaimRowTx st) := by
  unfold saveClaimRowTx
  split <;> exact ⟨rfl, rfl, rfl, rfl⟩

theorem SameStanding.adopted {db' : VoterDB} (same : SameStanding db db') :
    db'.adopted = db.adopted := by
  rw [VoterDB.adopted, same.adoptions, VoterDB.adopted]

/-- The standing that a database gives voter `me`. -/
def standing (db : VoterDB) (me : String) : VoterStanding :=
  ⟨me, db.incarnation, db.adopted,
    if 0 < db.adopted then db.getVoterConfig db.adopted else none,
    db.acceptedChange db.adopted || db.adopted ∈ db.seals⟩

theorem readStandingTx_ok {me : String} {st : VoterStanding}
    (read : readStandingTx db me = .ok st) :
    st = db.standing me ∧ db.incarnation ≠ "" ∧
      (0 < db.adopted → (db.getVoterConfig db.adopted).isSome = true) := by
  unfold readStandingTx at read
  dsimp only at read
  split at read
  · rename_i positive
    split at read
    · rename_i row isRow
      obtain ⟨_, ⟨⟩, read⟩ := bind_eq_ok read
      obtain ⟨present, ⟨⟩⟩ := guard_eq_ok.mp read
      exact ⟨by rw [standing, if_pos positive, isRow], present, fun _ => by rw [isRow]; rfl⟩
    · cases read
  · rename_i none
    obtain ⟨_, ⟨⟩, read⟩ := bind_eq_ok read
    obtain ⟨present, ⟨⟩⟩ := guard_eq_ok.mp read
    exact ⟨by rw [standing, if_neg none], present, fun positive => absurd positive none⟩

end VoterDB

theorem ClaimKey.validate_eq_none {key : ClaimKey} (valid : key.validate = none) :
    key.isWorkload = true ∨ key = .voterConfig key.ownerEpoch := by
  unfold ClaimKey.validate at valid
  split at valid
  · rename_i config
    obtain ⟨kind, name, epoch, attempt, incarnation⟩ := key
    simp only [ClaimKey.isVoterConfig, decide_eq_true_eq] at config
    simp_all [ClaimKey.voterConfig]
  · split at valid
    · rename_i workload
      exact .inl workload
    · cases valid

namespace VoterStanding

variable {st : VoterStanding} {key : ClaimKey} {gen : Int} {v : Option ClaimValue}

theorem admit_workload (workload : key.isWorkload = true)
    (admitted : st.admitVote key gen v = none) :
    st.sealed = false ∧ ∀ value, v = some value → admitWorkloadValue key value = none := by
  unfold admitVote at admitted
  split at admitted
  · cases admitted
  split at admitted
  · cases admitted
  rw [if_neg (by simp [ClaimKey.not_isVoterConfig_of_isWorkload workload])] at admitted
  split at admitted
  · cases admitted
  split at admitted
  · cases admitted
  split at admitted
  · cases admitted
  rename_i unsealed
  refine ⟨by simpa using unsealed, ?_⟩
  rintro value rfl
  exact admitted

theorem admit_voterConfig (config : key.isVoterConfig = true)
    (admitted : st.admitVote key gen v = none) :
    key.ownerEpoch = st.adopted ∧
      ∀ value, v = some value → st.admitConfigValue value = none := by
  unfold admitVote at admitted
  split at admitted
  · cases admitted
  split at admitted
  · cases admitted
  split at admitted
  · cases admitted
  rename_i epoch
  simp only at admitted
  split at admitted
  · cases admitted
  · exact ⟨not_not.mp epoch, nofun⟩
  · refine ⟨not_not.mp epoch, ?_⟩
    rintro value ⟨⟩
    exact admitted

theorem admit_valid (admitted : st.admitVote key gen v = none) :
    key.validate = none ∧ gen = st.adopted := by
  unfold admitVote at admitted
  split at admitted
  · cases admitted
  rename_i valid
  split at admitted
  · cases admitted
  rename_i same
  exact ⟨valid, not_not.mp same⟩

end VoterStanding

namespace VoterDB

/-- What a voter checked before it wrote anything for a vote. -/
structure Admits (db : VoterDB) (me : String) (key : ClaimKey) (b : Ballot) (gen : Int)
    (v : Option ClaimValue) : Prop where
  round : b.round ≠ 0
  coordinator : b.coordinator ≠ ""
  incarnation : db.incarnation ≠ ""
  config : 0 < db.adopted → (db.getVoterConfig db.adopted).isSome = true
  admitted : (db.standing me).admitVote key gen v = none
  unsealed : db.legacyKeySealedTx key = false
  promised : (db.state key).promised ≤ b

def promiseRow (db : VoterDB) (key : ClaimKey) (b : Ballot) (gen : Int) : ClaimVoterState :=
  { db.state key with promised := b, configGeneration := gen }

def signedAccept (db : VoterDB) (me : String) (key : ClaimKey) (b : Ballot) (gen : Int)
    (digest : String) : ClaimAccept :=
  ⟨me, db.incarnation, gen, key, b, digest⟩

def acceptRow (db : VoterDB) (me : String) (key : ClaimKey) (b : Ballot) (v : ClaimValue)
    (gen : Int) (digest : String) : ClaimVoterState :=
  { db.state key with
    promised := b, accepted := b, value := some v, valueDigest := digest,
    accept := some (db.signedAccept me key b gen digest), configGeneration := gen }

variable {b : Ballot} {db db' : VoterDB} {me : String} {key : ClaimKey} {gen : Int}
  {res : PrepareResult}

/-- `ClaimPrepare` refuses and writes nothing, or promises the ballot. -/
theorem claimPrepare_ok (done : db.claimPrepare me key b gen = .ok (res, db')) :
    res.promised = false ∧ db' = db ∨
      db.Admits me key b gen none ∧
        ((db.state key).promised = b ∧ db' = db ∨
          (db.state key).promised < b ∧ db' = db.saveClaimRowTx (db.promiseRow key b gen)) ∧
        res = ⟨true, b, db'.state key, db'.legacyReport key, me, db.incarnation, none, ""⟩ := by
  unfold claimPrepare at done
  split at done
  · cases done
    exact .inl ⟨rfl, rfl⟩
  rename_i ballot
  obtain ⟨noRound, noCoordinator⟩ := not_or.mp ballot
  obtain ⟨st, read, done⟩ := bind_eq_ok done
  obtain ⟨rfl, incarnation, config⟩ := readStandingTx_ok read
  simp only at done
  split at done
  · cases done
    exact .inl ⟨rfl, rfl⟩
  rename_i admitted
  split at done
  · cases done
    exact .inl ⟨rfl, rfl⟩
  rename_i unsealed
  have admits : ∀ le : (db.state key).promised ≤ b, db.Admits me key b gen none := fun le =>
    ⟨noRound, noCoordinator, incarnation, config, admitted, by simpa using unsealed, le⟩
  split at done
  · cases done
    exact .inl ⟨rfl, rfl⟩
  · rename_i same
    have promised : (db.state key).promised = b := compareBallots_eq_eq.mp same
    cases done
    exact .inr ⟨admits promised.le, .inl ⟨promised, rfl⟩, rfl⟩
  · rename_i below
    have promised : (db.state key).promised < b := compareBallots_eq_lt.mp below
    cases done
    refine .inr ⟨admits promised.le, .inr ⟨promised, rfl⟩, ?_⟩
    change _ =
      PrepareResult.mk true b ((db.saveClaimRowTx (db.promiseRow key b gen)).state key) _ _ _ _ _
    rw [state_save, if_pos (by simp [promiseRow])]
    rfl

/-- What a key's state says about its accepted value is unchanged. -/
structure SameAccepted (before after : ClaimVoterState) : Prop where
  accepted : after.accepted = before.accepted
  value : after.value = before.value
  valueDigest : after.valueDigest = before.valueDigest
  accept : after.accept = before.accept

theorem claimPrepare_keeps (done : db.claimPrepare me key b gen = .ok (res, db')) :
    SameStanding db db' ∧
      ∀ k, SameAccepted (db.state k) (db'.state k) ∧
        (db.state k).promised ≤ (db'.state k).promised ∧ (db.has k = true → db'.has k = true) := by
  have unchanged : SameStanding db db ∧ ∀ k, SameAccepted (db.state k) (db.state k) ∧
      (db.state k).promised ≤ (db.state k).promised ∧ (db.has k = true → db.has k = true) :=
    ⟨.refl db, fun k => ⟨⟨rfl, rfl, rfl, rfl⟩, le_refl _, fun present => present⟩⟩
  rcases claimPrepare_ok done with ⟨-, rfl⟩ | ⟨-, ⟨-, rfl⟩ | ⟨higher, rfl⟩, -⟩
  · exact unchanged
  · exact unchanged
  refine ⟨saveClaimRowTx_standing db _, fun k => ?_⟩
  rw [state_save, has_save]
  split
  · rename_i same
    rw [show k = key by simpa [promiseRow] using same]
    exact ⟨⟨rfl, rfl, rfl, rfl⟩, higher.le, fun present => by simp [present]⟩
  · exact ⟨⟨rfl, rfl, rfl, rfl⟩, le_refl _, fun present => by simp [present]⟩

variable {ownerChecked : Bool} {out : AcceptOutcome} {v : ClaimValue}

theorem acceptNew_eq {digest : String}
    (done : db.acceptNew (db.standing me) key b v gen digest (db.state key) ownerChecked =
      (out, db')) :
    db' = db ∧ (∀ result, out = .answer result → result.accepted = false ∧ result.accept = none) ∨
      db' = db.saveClaimRowTx (db.acceptRow me key b v gen digest) ∧
        out = .answer ⟨true, b, some (db.signedAccept me key b gen digest), me, none, ""⟩ := by
  unfold acceptNew at done
  split at done
  · obtain ⟨rfl, rfl⟩ := Prod.mk.inj done
    refine .inl ⟨rfl, fun result => ?_⟩
    split <;> nofun
  · obtain ⟨rfl, rfl⟩ := Prod.mk.inj done
    exact .inr ⟨rfl, rfl⟩

/-- `ClaimAccept` writes nothing and signs nothing, repeats the stored accept, or
signs and stores a new one. -/
theorem claimAccept_ok [Sha256]
    (done : db.claimAccept me key b v gen ownerChecked = .ok (out, db')) :
    db' = db ∧ (∀ result, out = .answer result → result.accepted = false ∧ result.accept = none) ∨
      ∃ digest, v.digest = .ok digest ∧ db.Admits me key b gen (some v) ∧
        ((db.state key).accepted = b → (db.state key).valueDigest = digest) ∧
        ((∃ a, (db.state key).accept = some a ∧ (db.state key).accepted = b ∧
            a.configGeneration = gen ∧ db' = db ∧
            out = .answer ⟨true, (db.state key).promised, some a, me, none, ""⟩) ∨
          db' = db.saveClaimRowTx (db.acceptRow me key b v gen digest) ∧
            out = .answer ⟨true, b, some (db.signedAccept me key b gen digest), me, none, ""⟩) := by
  have refused : ∀ {promised refusal detail} (result : AcceptResult),
      AcceptOutcome.answer (refusedAccept me promised refusal detail) = .answer result →
      result.accepted = false ∧ result.accept = none := by
    rintro promised refusal detail result ⟨⟩
    exact ⟨rfl, rfl⟩
  unfold claimAccept at done
  split at done
  · cases done
    exact .inl ⟨rfl, refused⟩
  rename_i digest digestEq
  split at done
  · cases done
    exact .inl ⟨rfl, refused⟩
  rename_i ballot
  obtain ⟨noRound, noCoordinator⟩ := not_or.mp ballot
  obtain ⟨st, read, done⟩ := bind_eq_ok done
  obtain ⟨rfl, incarnation, config⟩ := readStandingTx_ok read
  simp only at done
  split at done
  · cases done
    exact .inl ⟨rfl, refused⟩
  rename_i admitted
  split at done
  · cases done
    exact .inl ⟨rfl, refused⟩
  rename_i unsealed
  split at done
  · cases done
    exact .inl ⟨rfl, refused⟩
  rename_i notStale
  split at done
  · cases done
    exact .inl ⟨rfl, refused⟩
  rename_i noConflict
  have admits : db.Admits me key b gen (some v) :=
    ⟨noRound, noCoordinator, incarnation, config, admitted, by simpa using unsealed,
      not_lt.mp (compareBallots_eq_gt.not.mp notStale)⟩
  have oneValue : (db.state key).accepted = b → (db.state key).valueDigest = digest := by
    intro same
    by_contra differs
    refine noConflict ?_
    rw [Bool.and_eq_true, equal_iff, decide_eq_true_iff]
    exact ⟨same, differs⟩
  split at done
  · rename_i a stored
    split at done
    · rename_i repeated
      rw [Bool.and_eq_true, equal_iff, decide_eq_true_iff] at repeated
      cases done
      exact .inr ⟨digest, digestEq, admits, oneValue,
        .inl ⟨a, stored, repeated.1, repeated.2, rfl, rfl⟩⟩
    · exact (acceptNew_eq (Except.ok.inj done)).imp_right fun written =>
        ⟨digest, digestEq, admits, oneValue, .inr written⟩
  · exact (acceptNew_eq (Except.ok.inj done)).imp_right fun written =>
      ⟨digest, digestEq, admits, oneValue, .inr written⟩

end VoterDB

end Litevirt.Claims
