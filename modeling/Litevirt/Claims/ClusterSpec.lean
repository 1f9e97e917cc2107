import Litevirt.Claims.ImportSpec
import Litevirt.Claims.Cluster

/-!
# What one step of the cluster does

One statement for each kind of action: what it needed, what it left alone and
what it added to the messages.
-/

namespace Litevirt.Claims

open Litevirt.Lib VoterConfig List
open Option hiding all_eq_true

def ClaimVoterState.Reports (st : ClaimVoterState) : Prop :=
  st.value.isSome = true ∧ st.accepted ≠ .zero

/-- The loop keeps what it has when no report is higher, and otherwise ends with
the value of a highest report. -/
theorem bestAccepted_spec (states : List ClaimVoterState) (best : Ballot)
    (value : Option ClaimValue) :
    bestAccepted states best value = value ∧
        (∀ st ∈ states, st.Reports → st.accepted ≤ best) ∨
      ∃ st ∈ states, st.Reports ∧ bestAccepted states best value = st.value ∧
        best < st.accepted ∧ ∀ other ∈ states, other.Reports → other.accepted ≤ st.accepted := by
  induction states generalizing best value with
  | nil => exact .inl ⟨rfl, by simp⟩
  | cons st rest ih =>
    unfold bestAccepted
    split
    · rename_i taken
      simp only [Bool.and_eq_true, Bool.not_eq_true', decide_eq_true_eq,
        Ballot.compareBallots_eq_gt] at taken
      obtain ⟨⟨present, nonzero⟩, higher⟩ := taken
      have reports : st.Reports := by
        refine ⟨present, fun zero => ?_⟩
        rw [Ballot.isZero_iff.mpr zero] at nonzero
        cases nonzero
      rcases ih st.accepted st.value with ⟨same, below⟩ | ⟨top, member, topReports, eq, above, most⟩
      · refine .inr ⟨st, mem_cons_self, reports, same, higher, ?_⟩
        exact forall_mem_cons.mpr ⟨fun _ => le_refl _, below⟩
      · refine .inr ⟨top, mem_cons_of_mem st member, topReports, eq, higher.trans above, ?_⟩
        exact forall_mem_cons.mpr ⟨fun _ => above.le, most⟩
    · rename_i skipped
      have low : st.Reports → st.accepted ≤ best := by
        intro reports
        refine not_lt.mp fun higher => skipped ?_
        simp only [Bool.and_eq_true, Bool.not_eq_true', decide_eq_true_eq,
          Ballot.compareBallots_eq_gt]
        refine ⟨⟨reports.1, ?_⟩, higher⟩
        exact Bool.eq_false_iff.mpr fun zero => reports.2 (Ballot.isZero_iff.mp zero)
      rcases ih best value with ⟨same, below⟩ | ⟨top, member, topReports, eq, above, most⟩
      · exact .inl ⟨same, forall_mem_cons.mpr ⟨low, below⟩⟩
      · refine .inr ⟨top, mem_cons_of_mem st member, topReports, eq, above, ?_⟩
        exact forall_mem_cons.mpr ⟨fun reports => (low reports).trans above.le, most⟩

theorem promisesOf_answersOf (asked : List String) (picked : List PrepareReply) :
    promisesOf (Cluster.answersOf asked (picked.map fun r => (r.voter, r.result))) =
      (picked.filter (·.result.promised)).map fun r => (r.voter, r.result) := by
  have unanswered : ∀ voters : List String,
      promisesOf (voters.map (·, .error Cluster.noAnswer)) = [] := by
    simp [promisesOf]
  have answered : promisesOf ((picked.map fun r => (r.voter, r.result)).map
      fun answer => (answer.1, .ok answer.2)) =
      (picked.filter (·.result.promised)).map fun r => (r.voter, r.result) := by
    induction picked with
    | nil => rfl
    | cons r rest ih =>
      simp only [promisesOf, map_cons, filterMap_cons] at ih ⊢
      cases promised : r.result.promised <;> simpa [promised] using ih
  rw [Cluster.answersOf, promisesOf, filterMap_append]
  change promisesOf _ ++ promisesOf _ = _
  rw [answered, unanswered, append_nil]

/-- What a value sent in phase 2 rests on. -/
structure Proposes [Sha256] (p : Proposer) (spec : Spec) (b : Ballot)
    (promises : List (String × PrepareResult)) (prop : Proposal) (after : Proposer) : Prop where
  enough : spec.prepareQuorum ≤ promises.length
  chosen : ∃ built, chooseValue spec promises = .ok (prop.value, built)
  digest : prop.value.digest = .ok prop.digest
  bound : p.bind spec.key b.round prop.digest = some after

theorem tryPrepare_spec [Sha256] (p : Proposer) (spec : Spec) (b : Ballot) (own : List String)
    (answers : Answers PrepareResult) :
    (∃ own' problem, tryPrepare p spec b own answers = (own', p, .error problem)) ∨
      ∃ own' after prop, tryPrepare p spec b own answers = (own', after, .ok prop) ∧
        Proposes p spec b (promisesOf answers) prop after := by
  unfold tryPrepare
  simp only
  split
  · exact .inl ⟨_, _, rfl⟩
  rename_i enough
  split
  · exact .inl ⟨_, _, rfl⟩
  rename_i value built chosen
  split
  · exact .inl ⟨_, _, rfl⟩
  rename_i digest digested
  split
  · exact .inl ⟨_, _, rfl⟩
  rename_i after bound
  exact .inr ⟨_, after, _, rfl, not_lt.mp enough, ⟨built, chosen⟩, digested, bound⟩

namespace Decision

theorem retry_spec (d : Decision) (stale : Ballot) (problem : TryError) :
    (d.retry stale problem).spec = d.spec ∧
      (∀ b, (d.retry stale problem).phase ≠ .preparing b) ∧
      ∀ prop, (d.retry stale problem).phase ≠ .accepting prop := by
  unfold retry
  split
  · simp
  split <;> simp

/-- Phase 1 ends with a proposal, or without one and with the process unchanged. -/
theorem afterPrepare_spec [Sha256] (d : Decision) (p : Proposer) (b : Ballot)
    (answers : Answers PrepareResult) :
    ((d.afterPrepare p b answers).2.spec = d.spec ∧
        ∀ b', (d.afterPrepare p b answers).2.phase ≠ .preparing b') ∧
      ((d.afterPrepare p b answers).1 = p ∧
          (∀ prop, (d.afterPrepare p b answers).2.phase ≠ .accepting prop) ∨
        ∃ prop, (d.afterPrepare p b answers).2.phase = .accepting prop ∧
          Proposes p d.spec b (promisesOf answers) prop (d.afterPrepare p b answers).1) := by
  unfold afterPrepare
  rcases tryPrepare_spec p d.spec b d.own answers with
    ⟨own, ⟨stale, problem⟩, failed⟩ | ⟨own, after, prop, proposed, proposes⟩
  · rw [failed]
    obtain ⟨spec, preparing, accepting⟩ := retry_spec { d with own := own } stale problem
    exact ⟨⟨spec, preparing⟩, .inl ⟨rfl, accepting⟩⟩
  · rw [proposed]
    exact ⟨⟨rfl, by simp⟩, .inr ⟨prop, rfl, proposes⟩⟩

theorem afterAccept_spec (d : Decision) (prop : Proposal) (answers : Answers AcceptResult) :
    (d.afterAccept prop answers).spec = d.spec ∧
      ∀ b, (d.afterAccept prop answers).phase ≠ .preparing b := by
  unfold afterAccept
  split
  · simp
  · rename_i stale problem failed
    obtain ⟨spec, preparing, -⟩ := retry_spec d stale problem
    exact ⟨spec, preparing⟩

end Decision

namespace Cluster

structure SameVoters (s s' : Cluster) : Prop where
  nodes : s'.nodes = s.nodes
  promises : s'.promises = s.promises
  votes : s'.votes = s.votes
  imports : s'.imports = s.imports
  retired : s'.retired = s.retired

structure SameProposers (s s' : Cluster) : Prop where
  proposers : s'.proposers = s.proposers
  calls : s'.calls = s.calls
  prepares : s'.prepares = s.prepares
  accepts : s'.accepts = s.accepts

variable {s s' : Cluster}

theorem SameVoters.signed (same : SameVoters s s') : s'.signed = s.signed := by
  rw [Cluster.signed, same.votes, Cluster.signed]

variable {host : String}

theorem boot_ok {nonce : List UInt8} (done : s.boot host nonce = some s') :
    s.proposers.find nonce = none ∧ s' = s.setProposer (.newProposer host nonce) := by
  unfold boot at done
  split at done
  · cases done
  · rename_i fresh
    exact ⟨by simpa using fresh, (Option.some.inj done).symm⟩

/-- Both kinds of decisions start a call with the specification they build. -/
theorem addCall_ok {process : List UInt8} {build : Proposer → Except String Spec}
    (done : ((s.proposers.find process).bind fun p =>
      (build p).toOption.bind fun spec => some (s.addCall process spec)) = some s') :
    ∃ p spec, build p = .ok spec ∧ s' = s.addCall process spec := by
  obtain ⟨p, -, done⟩ := bind_eq_some_iff.mp done
  obtain ⟨spec, built, done⟩ := bind_eq_some_iff.mp done
  exact ⟨p, spec, toOption_eq_some built, (Option.some.inj done).symm⟩

variable {i : Nat}

theorem beginRound_ok (done : s.beginRound i = some s') :
    ∃ call p, s.calls[i]? = some call ∧ s.proposers.find call.process = some p ∧
      (let round := call.decision.beginRound p
       SameVoters s s' ∧ s'.accepts = s.accepts ∧
        s'.proposers = s.proposers.put round.2.1.nonce round.2.1 ∧
        s'.calls = s.calls.set i { call with decision := round.2.2 }) := by
  obtain ⟨call, called, done⟩ := bind_eq_some_iff.mp done
  obtain ⟨p, found, done⟩ := bind_eq_some_iff.mp done
  refine ⟨call, p, called, found, ?_⟩
  split at done
  · cases done
    exact ⟨⟨rfl, rfl, rfl, rfl, rfl⟩, rfl, rfl, rfl⟩
  · cases done

/-- The replies that an action may count for a request. -/
structure Counts (asked : List String) (key : ClaimKey) (b : Ballot) (generation : Int)
    (picked : List PrepareReply) : Prop where
  nodup : (picked.map (·.voter)).Nodup
  asked : picked.map (·.voter) ⊆ asked
  request : ∀ r ∈ picked, r.key = key ∧ r.ballot = b ∧ r.generation = generation

theorem mem_of_mem_pick {α : Type} {sent : List α} {indices : List Nat} {x : α}
    (picked : x ∈ pick sent indices) : x ∈ sent := by
  obtain ⟨i, -, found⟩ := mem_filterMap.mp picked
  exact mem_of_getElem? found

variable {replies : List Nat}

theorem countPromises_ok [Sha256] (done : s.countPromises i replies = some s') :
    ∃ call p b after decision, s.calls[i]? = some call ∧
      s.proposers.find call.process = some p ∧ call.decision.phase = .preparing b ∧
      (let spec := call.decision.spec
       let picked := pick s.promises replies
       Counts (dedup spec.voters) spec.key b spec.generation picked ∧ SameVoters s s' ∧
        s'.proposers = s.proposers.put after.nonce after ∧
        s'.calls = s.calls.set i { call with decision := decision } ∧ decision.spec = spec ∧
        (∀ b', decision.phase ≠ .preparing b') ∧
        (after = p ∧ s'.accepts = s.accepts ∨
          ∃ prop, s'.accepts = s.accepts ++
              [⟨spec.key, b, prop.value, spec.generation, dedup prop.targets⟩] ∧
            Proposes p spec b (promisesOf (answersOf (dedup spec.voters)
              (picked.map fun r => (r.voter, r.result)))) prop after)) := by
  obtain ⟨call, called, done⟩ := bind_eq_some_iff.mp done
  obtain ⟨p, found, done⟩ := bind_eq_some_iff.mp done
  simp only at done
  split at done
  · rename_i b phase
    split at done
    · rename_i counted
      simp only [Bool.and_eq_true, oneEach, decide_eq_true_eq, all_eq_true] at counted
      have counts : Counts (dedup call.decision.spec.voters) call.decision.spec.key b
          call.decision.spec.generation (pick s.promises replies) :=
        ⟨counted.1.1, counted.1.2, fun r picked => by
          have request := counted.2 r picked
          exact ⟨request.1.1, request.1.2, request.2⟩⟩
      obtain ⟨⟨spec, preparing⟩, outcome⟩ := call.decision.afterPrepare_spec p b
        (answersOf (dedup call.decision.spec.voters)
          ((pick s.promises replies).map fun r => (r.voter, r.result)))
      generalize call.decision.afterPrepare p b _ = after at done spec preparing outcome
      refine ⟨call, p, b, after.1, after.2, called, found, phase, counts, ?_⟩
      split at done
      · rename_i prop accepting
        cases done
        refine ⟨⟨rfl, rfl, rfl, rfl, rfl⟩, rfl, rfl, spec, preparing, .inr ⟨prop, rfl, ?_⟩⟩
        obtain ⟨-, none⟩ | ⟨prop', accepting', proposes⟩ := outcome
        · exact absurd accepting (none prop)
        · rw [accepting] at accepting'
          cases accepting'
          exact proposes
      · rename_i other
        cases done
        refine ⟨⟨rfl, rfl, rfl, rfl, rfl⟩, rfl, rfl, spec, preparing, .inl ⟨?_, rfl⟩⟩
        rcases outcome with ⟨same, -⟩ | ⟨prop, accepting, -⟩
        · exact same
        · exact absurd accepting (other prop)
    · cases done
  · cases done

theorem countAccepts_ok (done : s.countAccepts i replies = some s') :
    ∃ call prop answers, s.calls[i]? = some call ∧ SameVoters s s' ∧
      s'.proposers = s.proposers ∧ s'.accepts = s.accepts ∧
      s'.calls =
        s.calls.set i { call with decision := call.decision.afterAccept prop answers } := by
  obtain ⟨call, called, done⟩ := bind_eq_some_iff.mp done
  simp only at done
  split at done
  · rename_i prop phase
    split at done
    · cases done
      exact ⟨call, prop, _, called, ⟨rfl, rfl, rfl, rfl, rfl⟩, rfl, rfl, rfl⟩
    · cases done
  · cases done

theorem proposerStep_voters [Sha256] {action : ProposerAction}
    (done : s.proposerStep action = some s') : SameVoters s s' := by
  cases action with
  | boot host nonce =>
    obtain ⟨-, rfl⟩ := boot_ok done
    exact ⟨rfl, rfl, rfl, rfl, rfl⟩
  | decideRecovery | decideVoterChange =>
    obtain ⟨p, spec, -, rfl⟩ := addCall_ok done
    exact ⟨rfl, rfl, rfl, rfl, rfl⟩
  | beginRound i =>
    obtain ⟨call, p, -, -, same, -⟩ := beginRound_ok done
    exact same
  | countPromises i replies =>
    obtain ⟨call, p, b, -, -, -, -, -, -, same, -⟩ := countPromises_ok done
    exact same
  | countAccepts i replies =>
    obtain ⟨call, prop, answers, -, same, -⟩ := countAccepts_ok done
    exact same

theorem nodes_setNode (s : Cluster) (host : String) (db : VoterDB) (n : String) :
    (s.setNode host db).nodes n = if n = host then db else s.nodes n :=
  Function.update_apply ..

structure Moves (s s' : Cluster) (host : String) (db : VoterDB) : Prop where
  nodes : ∀ n, s'.nodes n = if n = host then db else s.nodes n
  accepts : s'.accepts = s.accepts

theorem moves_setNode (s : Cluster) (host : String) (db : VoterDB) :
    Moves s (s.setNode host db) host db :=
  ⟨s.nodes_setNode host db, rfl⟩

variable {voter : String}

theorem prepare_ok (done : s.prepare i voter = some s') :
    ∃ req res db, s.prepares[i]? = some req ∧
      (s.nodes voter).claimPrepare voter req.key req.ballot req.generation = .ok (res, db) ∧
      Moves s s' voter db ∧
      s'.promises = s.promises ++ [⟨voter, req.key, req.ballot, req.generation, res⟩] ∧
      s'.signed = s.signed ∧ s'.imports = s.imports ∧ s'.retired = s.retired := by
  obtain ⟨req, found, done⟩ := bind_eq_some_iff.mp done
  split at done
  · split at done
    · rename_i res db answered
      cases done
      exact ⟨req, res, db, found, answered, ⟨s.nodes_setNode voter db, rfl⟩, rfl, rfl, rfl, rfl⟩
    · cases done
  · cases done

theorem accept_ok [Sha256] {ownerChecked : Bool} (done : s.accept i voter ownerChecked = some s') :
    ∃ req res db, s.accepts[i]? = some req ∧
      (s.nodes voter).claimAccept voter req.key req.ballot req.value req.generation ownerChecked =
        .ok (.answer res, db) ∧
      Moves s s' voter db ∧ s'.signed = s.signed ++ res.accept.toList ∧
      s'.promises = s.promises ∧ s'.imports = s.imports ∧ s'.retired = s.retired := by
  obtain ⟨req, found, done⟩ := bind_eq_some_iff.mp done
  split at done
  · split at done
    · rename_i res db answered
      cases done
      refine ⟨req, res, db, found, answered, ⟨s.nodes_setNode voter db, rfl⟩, ?_, rfl, rfl, rfl⟩
      rw [Cluster.signed, Cluster.signed]
      cases answer : res.accept <;> simp [answer, setNode]
    · cases done
  · cases done

theorem learn_ok {row : VoterConfig} (done : s.learn host row = some s') :
    Moves s s' host ((s.nodes host).mergeVoterConfig row) ∧ s'.promises = s.promises ∧
      s'.signed = s.signed ∧ s'.imports = s.imports ∧ s'.retired = s.retired := by
  cases done
  exact ⟨s.moves_setNode host _, rfl, rfl, rfl, rfl⟩

theorem listClaims_ok {generation : Int} (done : s.listClaims voter generation = some s') :
    ∃ source, (s.nodes voter).claimStatesForImport voter generation = .ok source ∧
      s'.nodes = s.nodes ∧ s'.accepts = s.accepts ∧ s'.promises = s.promises ∧
      s'.signed = s.signed ∧ s'.retired = s.retired ∧
      s'.imports = s.imports ++ [⟨(s.nodes voter).incarnation, generation, source⟩] := by
  obtain ⟨source, answered, done⟩ := bind_eq_some_iff.mp done
  cases done
  exact ⟨source, toOption_eq_some answered, rfl, rfl, rfl, rfl, rfl, rfl⟩

/-- The row that a host adopts next, and the answers it counts for it. -/
structure AdoptsFrom [Sha256] (s : Cluster) (host : String) (prev : Option VoterConfig)
    (row : VoterConfig) (picked : List ImportReply) (db : VoterDB) : Prop where
  adoptedRow : (s.nodes host).adoptedVoterConfig = .ok prev
  nextRow : (s.nodes host).getVoterConfig (generationOf prev + 1) = some row
  sent : picked ⊆ s.imports
  nodup : (picked.map (·.source.voter)).Nodup
  members : picked.map (·.source.voter) ⊆ (membersOf prev).map (·.name)
  generation : ∀ r ∈ picked, r.generation = generationOf prev
  adopts : (s.nodes host).Adopts host prev row (picked.map (·.source)) db

theorem adopt_ok [Sha256] (done : s.adopt host replies = some s') :
    ∃ prev row db, AdoptsFrom s host prev row (pick s.imports replies) db ∧
      Moves s s' host db ∧ s'.promises = s.promises ∧ s'.signed = s.signed ∧
      s'.imports = s.imports ∧ s'.retired = s.retired := by
  obtain ⟨prev, read, done⟩ := bind_eq_some_iff.mp done
  obtain ⟨row, found, done⟩ := bind_eq_some_iff.mp done
  simp only at done
  split at done
  · rename_i valid
    simp only [Bool.and_eq_true, oneEach, decide_eq_true_eq, all_eq_true] at valid
    obtain ⟨⟨-, nodup, members⟩, generation⟩ := valid
    obtain ⟨db, adopted, done⟩ := bind_eq_some_iff.mp done
    cases done
    have isPrev := toOption_eq_some read
    have next : (s.nodes host).adopted < row.generation := by
      rw [VoterDB.getVoterConfig_generation found, VoterDB.generationOf_adoptedVoterConfig isPrev]
      exact Int.lt_succ _
    exact ⟨prev, row, db, ⟨isPrev, found, fun r picked => mem_of_mem_pick picked, nodup, members,
      generation, VoterDB.adoptOne_ok next (toOption_eq_some adopted)⟩, s.moves_setNode host db,
      rfl, rfl, rfl, rfl⟩
  · cases done

theorem reimage_ok {incarnation : String} (done : s.reimage host incarnation = some s') :
    incarnation ≠ (s.nodes host).incarnation ∧ ⟨host, incarnation⟩ ∉ s.retired ∧
      Moves s s' host ⟨incarnation, [], [], .empty, .empty, []⟩ ∧ s'.promises = s.promises ∧
      s'.signed = s.signed ∧ s'.imports = s.imports ∧
      s'.retired = ⟨host, (s.nodes host).incarnation⟩ :: s.retired := by
  unfold reimage at done
  simp only at done
  split at done
  · cases done
  rename_i fresh
  obtain ⟨-, other, unused⟩ := by simpa only [not_or] using fresh
  cases done
  exact ⟨other, unused, ⟨s.nodes_setNode host _, rfl⟩, rfl, rfl, rfl, rfl⟩

theorem nodeStep_proposers [Sha256] {action : NodeAction} (done : s.nodeStep action = some s') :
    SameProposers s s' := by
  cases action with
  | prepare i voter | accept i voter ownerChecked =>
    obtain ⟨req, -, done⟩ := bind_eq_some_iff.mp done
    split at done
    · split at done <;> cases done
      exact ⟨rfl, rfl, rfl, rfl⟩
    · cases done
  | learn host row =>
    cases done
    exact ⟨rfl, rfl, rfl, rfl⟩
  | listClaims voter generation =>
    obtain ⟨source, -, done⟩ := bind_eq_some_iff.mp done
    cases done
    exact ⟨rfl, rfl, rfl, rfl⟩
  | adopt host replies =>
    obtain ⟨prev, -, done⟩ := bind_eq_some_iff.mp done
    obtain ⟨row, -, done⟩ := bind_eq_some_iff.mp done
    simp only at done
    split at done
    · obtain ⟨db, -, done⟩ := bind_eq_some_iff.mp done
      cases done
      exact ⟨rfl, rfl, rfl, rfl⟩
    · cases done
  | reimage host incarnation =>
    simp only [nodeStep, reimage] at done
    split at done <;> cases done
    exact ⟨rfl, rfl, rfl, rfl⟩

end Cluster

end Litevirt.Claims
