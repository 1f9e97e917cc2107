import Litevirt.Claims.VoteSpec

/-!
# What an import does

An import raises the state of every workload key to the highest accepted ballot
among its sources, and changes nothing else but the adopted generation.
-/

namespace Litevirt.Claims

open Litevirt.Lib VoterConfig List Table Ballot

namespace ClaimVoterState

structure Importable (st : ClaimVoterState) : Prop where
  workload : st.key.isWorkload = true
  value : st.value.isSome = true
  accepted : st.accepted ≠ .zero

def Digested [Sha256] (st : ClaimVoterState) : Prop :=
  ∃ v, st.value = some v ∧ v.digest = .ok st.valueDigest

end ClaimVoterState

namespace VoterDB

/-- `final` holds `best` and the importable states, or for each of them one that
is at least as high. -/
structure Best [Sha256] (best : Table ClaimKey ClaimVoterState) (states : List ClaimVoterState)
    (final : Table ClaimKey ClaimVoterState) : Prop where
  origin : ∀ k st, final.find k = some st →
    best.find k = some st ∨ st ∈ states ∧ st.key = k ∧ st.Importable ∧ st.Digested
  keeps : ∀ k st, best.find k = some st →
    ∃ top, final.find k = some top ∧ st.accepted ≤ top.accepted
  covers : ∀ st ∈ states, st.Importable →
    ∃ top, final.find st.key = some top ∧ st.accepted ≤ top.accepted

variable {best final : Table ClaimKey ClaimVoterState} {rest : List ClaimVoterState}
  {s : ClaimVoterState}

theorem Best.skip [Sha256] (done : Best best rest final)
    (covered : s.Importable → ∃ cur, best.find s.key = some cur ∧ s.accepted ≤ cur.accepted) :
    Best best (s :: rest) final := by
  refine ⟨fun k st found => ?_, done.keeps, fun st member importable => ?_⟩
  · rcases done.origin k st found with old | ⟨member, facts⟩
    · exact .inl old
    · exact .inr ⟨mem_cons_of_mem s member, facts⟩
  · rcases mem_cons.mp member with rfl | member
    · obtain ⟨cur, found, below⟩ := covered importable
      obtain ⟨top, above, most⟩ := done.keeps _ _ found
      exact ⟨top, above, below.trans most⟩
    · exact done.covers st member importable

theorem Best.take [Sha256]
    (done : Best (best.put s.key s) rest final) (importable : s.Importable) (digested : s.Digested)
    (lower : ∀ cur, best.find s.key = some cur → cur.accepted ≤ s.accepted) :
    Best best (s :: rest) final := by
  refine ⟨fun k st found => ?_, fun k st found => ?_, fun st member isImportable => ?_⟩
  · rcases done.origin k st found with put | ⟨member, facts⟩
    · rw [find_put] at put
      split at put
      · rename_i same
        cases put
        exact .inr ⟨mem_cons_self, same.symm, importable, digested⟩
      · exact .inl put
    · exact .inr ⟨mem_cons_of_mem s member, facts⟩
  · by_cases same : k = s.key
    · subst same
      obtain ⟨top, above, most⟩ := done.keeps s.key s (find_put_self ..)
      exact ⟨top, above, (lower st found).trans most⟩
    · exact done.keeps k st (by rw [find_put_of_ne _ _ same, found])
  · rcases mem_cons.mp member with rfl | member
    · exact done.keeps _ _ (find_put_self ..)
    · exact done.covers st member isImportable

theorem bestStates_ok [Sha256] {sources : List String} {states : List ClaimVoterState}
    (done : bestStates sources states best = .ok final) : Best best states final := by
  induction states generalizing best with
  | nil =>
    cases done
    exact ⟨fun k st found => .inl found, fun k st found => ⟨st, found, le_refl _⟩, by simp⟩
  | cons s rest ih =>
    unfold bestStates at done
    cases present : s.value with
    | none =>
      rw [present] at done
      refine (ih done).skip fun importable => ?_
      have value := importable.value
      rw [present] at value
      cases value
    | some v =>
      simp only [present] at done
      split at done
      · rename_i unwanted
        refine (ih done).skip fun importable => ?_
        simp only [Bool.or_eq_true, Bool.not_eq_true', isZero_iff] at unwanted
        rcases unwanted with other | zero
        · rw [importable.workload] at other
          cases other
        · exact absurd zero importable.accepted
      rename_i wanted
      simp only [Bool.or_eq_true, Bool.not_eq_true', isZero_iff, not_or,
        Bool.not_eq_false] at wanted
      have importable : s.Importable := ⟨wanted.1, by simp [present], wanted.2⟩
      split at done
      · cases done
      rename_i matching
      have digested : s.Digested := by
        refine ⟨v, present, ?_⟩
        cases digest : v.digest with
        | error problem => simp [digest, Except.toOption] at matching
        | ok d => simpa [digest, Except.toOption] using matching
      split at done
      · rename_i cur found
        split at done
        · rename_i higher
          refine (ih done).take importable digested fun other isCur => ?_
          rw [found] at isCur
          cases isCur
          exact (compareBallots_eq_gt.mp higher).le
        · rename_i notHigher
          exact (ih done).skip fun _ => ⟨cur, found,
            not_lt.mp fun higher => notHigher (compareBallots_eq_gt.mpr higher)⟩
      · rename_i absent
        refine (ih done).take importable digested fun cur found => ?_
        rw [absent] at found
        cases found

/-- A key's state after an import from `sources`. -/
structure Imported (sources : List ClaimVoterState) (before after : ClaimVoterState) : Prop where
  promised : before.promised ≤ after.promised
  accepted : before.accepted ≤ after.accepted
  within : before.accepted ≤ before.promised → after.accepted ≤ after.promised
  origin : SameAccepted before after ∨ ∃ src ∈ sources, src.accepted = after.accepted ∧
    src.value = after.value ∧ src.valueDigest = after.valueDigest ∧ after.accept = none

theorem Imported.refl (sources : List ClaimVoterState) (st : ClaimVoterState) :
    Imported sources st st :=
  ⟨le_refl _, le_refl _, fun within => within, .inl ⟨rfl, rfl, rfl, rfl⟩⟩

theorem Imported.mono {sources more : List ClaimVoterState} {before after : ClaimVoterState}
    (imported : Imported sources before after) (fewer : sources ⊆ more) :
    Imported more before after := by
  refine ⟨imported.promised, imported.accepted, imported.within, ?_⟩
  rcases imported.origin with same | ⟨src, member, facts⟩
  · exact .inl same
  · exact .inr ⟨src, fewer member, facts⟩

theorem Imported.trans {sources : List ClaimVoterState} {first second third : ClaimVoterState}
    (one : Imported sources first second) (other : Imported sources second third) :
    Imported sources first third := by
  refine ⟨one.promised.trans other.promised, one.accepted.trans other.accepted,
    fun within => other.within (one.within within), ?_⟩
  rcases other.origin with same | found
  · rcases one.origin with unchanged | ⟨src, member, accepted, value, digest, accept⟩
    · exact .inl ⟨same.accepted.trans unchanged.accepted, same.value.trans unchanged.value,
        same.valueDigest.trans unchanged.valueDigest, same.accept.trans unchanged.accept⟩
    · exact .inr ⟨src, member, accepted.trans same.accepted.symm, value.trans same.value.symm,
        digest.trans same.valueDigest.symm, same.accept.trans accept⟩
  · exact .inr found

theorem importState_spec (db : VoterDB) (newGen : Int) (k : ClaimKey)
    (incoming : ClaimVoterState) :
    SameStanding db (db.importState newGen k incoming).1 ∧
      (∀ key, key ≠ k → (db.importState newGen k incoming).1.state key = db.state key) ∧
      Imported [incoming] (db.state k) ((db.importState newGen k incoming).1.state k) ∧
      incoming.accepted ≤ ((db.importState newGen k incoming).1.state k).accepted := by
  have loaded : (db.loadClaimRowTx k).1 = db.state k := rfl
  unfold importState
  simp only [loaded, compareBallots_eq_gt]
  by_cases higher : (db.state k).accepted < incoming.accepted
  · simp only [higher, if_true, true_or]
    refine ⟨saveClaimRowTx_standing db _, fun key other => ?_, ?_⟩
    · rw [state_save, if_neg]
      split <;> simpa using other
    rw [state_save, if_pos (by split <;> simp)]
    split
    · rename_i ahead
      exact ⟨⟨ahead.le, higher.le, fun _ => le_refl _,
        .inr ⟨incoming, mem_singleton_self _, rfl, rfl, rfl, rfl⟩⟩, le_refl _⟩
    · rename_i within
      exact ⟨⟨le_refl _, higher.le, fun _ => not_lt.mp within,
        .inr ⟨incoming, mem_singleton_self _, rfl, rfl, rfl, rfl⟩⟩, le_refl _⟩
  · simp only [higher, if_false, false_or]
    split
    · rename_i ahead
      refine ⟨saveClaimRowTx_standing db _, fun key other => ?_, ?_⟩
      · rw [state_save, if_neg (by simpa using other)]
      · rw [state_save, if_pos (by simp)]
        exact ⟨⟨ahead.le, le_refl _, fun _ => le_refl _, .inl ⟨rfl, rfl, rfl, rfl⟩⟩,
          not_lt.mp higher⟩
    · exact ⟨.refl db, fun key _ => rfl, .refl _ _, not_lt.mp higher⟩

theorem SameStanding.trans {first second third : VoterDB} (one : SameStanding first second)
    (other : SameStanding second third) : SameStanding first third :=
  ⟨other.incarnation.trans one.incarnation, other.adoptions.trans one.adoptions,
    other.voterConfigs.trans one.voterConfigs, other.seals.trans one.seals⟩

def statesOf (rows : List (ClaimKey × ClaimVoterState)) (key : ClaimKey) : List ClaimVoterState :=
  (rows.filter (·.1 = key)).map Prod.snd

theorem mem_statesOf {rows : List (ClaimKey × ClaimVoterState)} {key : ClaimKey}
    {st : ClaimVoterState} : st ∈ statesOf rows key ↔ (key, st) ∈ rows := by
  unfold statesOf
  simp only [mem_map, mem_filter, decide_eq_true_eq]
  constructor
  · rintro ⟨⟨k, v⟩, ⟨member, rfl⟩, rfl⟩
    exact member
  · intro member
    exact ⟨(key, st), ⟨member, rfl⟩, rfl⟩

theorem importStates_spec (newGen : Int) (rows : List (ClaimKey × ClaimVoterState))
    (db : VoterDB) :
    SameStanding db (importStates newGen rows db).1 ∧
      (∀ key, Imported (statesOf rows key) (db.state key)
        ((importStates newGen rows db).1.state key)) ∧
      ∀ row ∈ rows, row.2.accepted ≤ ((importStates newGen rows db).1.state row.1).accepted := by
  induction rows generalizing db with
  | nil => exact ⟨.refl db, fun key => .refl _ _, by simp⟩
  | cons row rest ih =>
    obtain ⟨k, incoming⟩ := row
    obtain ⟨standing, others, imported, raised⟩ := importState_spec db newGen k incoming
    obtain ⟨restStanding, restImported, restRaised⟩ := ih (db.importState newGen k incoming).1
    have fewer : ∀ key, statesOf rest key ⊆ statesOf ((k, incoming) :: rest) key := by
      intro key st member
      exact mem_statesOf.mpr (mem_cons_of_mem _ (mem_statesOf.mp member))
    refine ⟨standing.trans restStanding, fun key => ?_, fun other member => ?_⟩
    · by_cases same : key = k
      · subst same
        have here : [incoming] ⊆ statesOf ((key, incoming) :: rest) key := by
          rintro st (_ | ⟨_, ⟨⟩⟩)
          exact mem_statesOf.mpr mem_cons_self
        exact (imported.mono here).trans ((restImported key).mono (fewer key))
      · have rest := (restImported key).mono (fewer key)
        rw [others key same] at rest
        exact rest
    · rcases mem_cons.mp member with rfl | member
      · exact raised.trans (restImported k).accepted
      · exact restRaised other member

variable {db : VoterDB} {row : VoterConfig}

theorem getVoterConfig_generation {g : Int}
    (found : db.getVoterConfig g = some row) : row.generation = g := by
  obtain ⟨stored, isStored, rfl⟩ := Option.map_eq_some_iff.mp found
  have matching := find?_some isStored
  exact of_decide_eq_true matching

theorem generationOf_adoptedVoterConfig {cfg : Option VoterConfig}
    (read : db.adoptedVoterConfig = .ok cfg) : generationOf cfg = db.adopted := by
  unfold adoptedVoterConfig at read
  split at read
  · rename_i zero
    cases read
    exact zero.symm
  split at read
  · rename_i row found
    cases read
    exact getVoterConfig_generation found
  · cases read

theorem adopted_record {g : Int} (higher : db.adopted < g) :
    (db.recordAdoptionTx g).adopted = g := by
  have absent : g ∉ db.adoptions := by
    intro member
    have bound : ∀ (gens : List Int), g ∈ gens → g ≤ gens.foldr max 0 := by
      intro gens
      induction gens with
      | nil => simp
      | cons head rest ih =>
        intro member
        rcases mem_cons.mp member with rfl | member
        · exact le_max_left _ _
        · exact (ih member).trans (le_max_right _ _)
    exact absurd (bound _ member) (not_le.mpr higher)
  rw [recordAdoptionTx, if_neg absent]
  exact max_eq_left higher.le

/-- The parts of a database that adopting leaves alone. -/
structure SameIdentity (db db' : VoterDB) : Prop where
  incarnation : db'.incarnation = db.incarnation
  voterConfigs : db'.voterConfigs = db.voterConfigs
  seals : db'.seals = db.seals

theorem recordAdoptionTx_frame (db : VoterDB) (g : Int) :
    SameIdentity db (db.recordAdoptionTx g) ∧
      ∀ k, (db.recordAdoptionTx g).state k = db.state k := by
  unfold recordAdoptionTx
  split <;> exact ⟨⟨rfl, rfl, rfl⟩, fun k => rfl⟩

def Offered [Sha256] (answers : List ClaimImportSource) (key : ClaimKey)
    (src : ClaimVoterState) : Prop :=
  src.key = key ∧ src.Digested ∧ ∃ answer ∈ answers, answer.frozen = true ∧ src ∈ answer.states

structure Adopts [Sha256] (db : VoterDB) (me : String) (prev : Option VoterConfig)
    (row : VoterConfig) (answers : List ClaimImportSource) (db' : VoterDB) : Prop where
  identity : SameIdentity db db'
  adopted : db'.adopted = row.generation
  state : ∀ key, ∃ sources, Imported sources (db.state key) (db'.state key) ∧
    ∀ src ∈ sources, Offered answers key src
  majority : row.memberAs me db.incarnation = true → explicit prev = true →
    majorityOf (membersOf prev).length ≤ (answers.filter (·.frozen)).length
  covers : row.memberAs me db.incarnation = true → explicit prev = true →
    ∀ answer ∈ answers, answer.frozen = true → ∀ st ∈ answer.states, st.Importable →
      st.accepted ≤ (db'.state st.key).accepted

theorem adoptOne_ok [Sha256] {db' : VoterDB} {me : String} {prev : Option VoterConfig}
    {answers : List ClaimImportSource} (next : db.adopted < row.generation)
    (done : db.adoptOne me prev row answers = .ok db') : Adopts db me prev row answers db' := by
  unfold adoptOne at done
  split at done
  · simp only at done
    split at done
    · cases done
    rename_i enough
    obtain ⟨⟨count, after⟩, imported, done⟩ := bind_eq_ok done
    cases done
    obtain ⟨st, read, imported⟩ := bind_eq_ok imported
    obtain ⟨rfl, -, -⟩ := readStandingTx_ok read
    split at imported
    · rename_i adopted
      exact absurd adopted (not_le.mpr next)
    split at imported
    · cases imported
    obtain ⟨best, chosen, imported⟩ := bind_eq_ok imported
    cases imported
    obtain ⟨standing, raised, reaches⟩ := importStates_spec row.generation best.rows db
    have better := bestStates_ok chosen
    have higher : (importStates row.generation best.rows db).1.adopted < row.generation := by
      rw [standing.adopted]
      exact next
    obtain ⟨identity, states⟩ := recordAdoptionTx_frame (importStates row.generation best.rows db).1
      row.generation
    refine ⟨⟨identity.incarnation.trans standing.incarnation,
      identity.voterConfigs.trans standing.voterConfigs, identity.seals.trans standing.seals⟩,
      adopted_record higher,
      fun key => ⟨statesOf best.rows key, ?_, fun src member => ?_⟩, fun _ _ => ?_,
      fun _ _ answer member frozen src inStates importable => ?_⟩
    · rw [states]
      exact raised key
    · have found := mem_rows_iff.mp (mem_statesOf.mp member)
      rcases better.origin key src found with none | ⟨inStates, sameKey, -, digested⟩
      · cases none
      · obtain ⟨answer, counted, held⟩ := mem_flatMap.mp inStates
        obtain ⟨inAnswers, frozen⟩ := mem_filter.mp counted
        exact ⟨sameKey, digested, answer, inAnswers, frozen, held⟩
    · rw [length_map] at enough
      exact not_lt.mp enough
    · rw [states]
      obtain ⟨top, found, below⟩ := better.covers src
        (mem_flatMap.mpr ⟨answer, mem_filter.mpr ⟨member, frozen⟩, inStates⟩) importable
      exact below.trans (reaches (src.key, top) (mem_rows_iff.mpr found))
  · rename_i alone
    cases done
    obtain ⟨identity, states⟩ := recordAdoptionTx_frame db row.generation
    refine ⟨identity, adopted_record next, fun key => ⟨[], ?_, by simp⟩, fun member members => ?_,
      fun member members => ?_⟩
    · rw [states]
      exact .refl _ _
    · exact absurd (by simp [member, members]) alone
    · exact absurd (by simp [member, members]) alone

end VoterDB

end Litevirt.Claims
