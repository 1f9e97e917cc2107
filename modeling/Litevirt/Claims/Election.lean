import Litevirt.Lib.Voting
import Litevirt.Claims.Votes

/-!
# Elections within a generation

What a proposal rests on, and the runs in which the nodes only vote: nobody
learns or adopts a generation, and nobody loses its state.
-/

namespace Litevirt.Claims

open Litevirt.Lib VoterConfig List VoterDB

/-- A decision that a majority of the members of a generation takes. -/
structure Spec.ByMajority (spec : Spec) (cfg : VoterConfig) : Prop where
  generation : spec.generation = cfg.generation
  voters : spec.voters = cfg.names
  quorum : spec.prepareQuorum = majorityOf cfg.names.length

/-- What a node drives with the generation it has adopted. -/
inductive VoterDB.Drives (db : VoterDB) : Spec → Prop where
  | byMajority {cfg : VoterConfig} {spec : Spec}
      (read : db.adoptedVoterConfig = .ok (some cfg)) (members : explicit (some cfg) = true)
      (byMajority : spec.ByMajority cfg) : Drives db spec
  | genesis {prev : Option VoterConfig} (read : db.adoptedVoterConfig = .ok prev)
      (empty : explicit prev = false) (ch : ProposedChange) (now : String) :
      Drives db (genesisSpec (generationOf prev) ch now (dedupSorted ch.members))

variable {db : VoterDB} {spec : Spec} {key : ClaimKey} {host : String}

theorem recoverySpec_drives {proposal : ClaimValue} {startRound : UInt64}
    {keep : ClaimValue → Bool}
    (built : recoverySpec db host key proposal startRound keep = .ok spec) : db.Drives spec := by
  unfold recoverySpec at built
  split at built
  · cases built
  obtain ⟨config, read, built⟩ := bind_eq_ok built
  split at built
  · split at built
    · cases built
    · rename_i members
      cases built
      exact .byMajority read (by simpa using members) ⟨rfl, rfl, rfl⟩
  · cases built

theorem voterChangeSpec_drives {ch : ProposedChange} {now : String}
    {remoteIncarnation : String → Except String String}
    (built : voterChangeSpec db ch now remoteIncarnation = .ok spec) : db.Drives spec := by
  have founding : ∀ {g : Int}, foundingSpec g ch now = .ok spec →
      spec = genesisSpec g ch now (dedupSorted ch.members) := by
    intro g founded
    unfold foundingSpec at founded
    split at founded
    · cases founded
    split at founded
    · cases founded
    · exact (Except.ok.inj founded).symm
  obtain ⟨prev, read, built⟩ := bind_eq_ok built
  simp only at built
  split at built
  · cases built
  split at built
  · split at built
    · rename_i members
      obtain ⟨proposal, -, built⟩ := bind_eq_ok built
      cases built
      exact .byMajority read members ⟨rfl, rfl, rfl⟩
    · rename_i empty
      obtain rfl := founding built
      exact .genesis read (by simpa using empty) _ _
  · obtain rfl := founding built
    exact .genesis read rfl _ _

variable {cfg : VoterConfig}

theorem VoterDB.adoptedVoterConfig_some (read : db.adoptedVoterConfig = .ok (some cfg)) :
    db.getVoterConfig db.adopted = some cfg ∧ cfg.generation = db.adopted := by
  have generation := generationOf_adoptedVoterConfig read
  unfold adoptedVoterConfig at read
  split at read
  · cases read
  split at read
  · rename_i row found
    cases read
    exact ⟨found, generation⟩
  · cases read

variable {db' : VoterDB}

theorem VoterDB.SameStanding.adoptedVoterConfig (same : db.SameStanding db') :
    db'.adoptedVoterConfig = db.adoptedVoterConfig := by
  unfold VoterDB.adoptedVoterConfig VoterDB.getVoterConfig
  rw [same.adopted, same.voterConfigs]

theorem VoterDB.Drives.of_standing (drives : db'.Drives spec)
    (same : db.SameStanding db') : db.Drives spec := by
  cases drives with
  | byMajority read members byMajority =>
    exact .byMajority (same.adoptedVoterConfig ▸ read) members byMajority
  | genesis read empty ch now => exact .genesis (same.adoptedVoterConfig ▸ read) empty ch now

theorem VoterDB.legacyReport_some {l : ClaimVoterState}
    (reported : db.legacyReport key = some l) : l = db.state key.legacy := by
  unfold legacyReport at reported
  split at reported
  · simp only at reported
    split at reported
    · exact (Option.some.inj reported).symm
    · cases reported
  · cases reported

theorem Cluster.Starts.drives {s : Cluster} {action : Action}
    (starts : Starts s host spec action) : (s.nodes host).Drives spec := by
  cases starts with
  | recovery built => exact recoverySpec_drives built
  | change built => exact voterChangeSpec_drives built

variable {name : String}

theorem mem_names :
    name ∈ cfg.names ↔ name ∈ cfg.members.map (·.name) :=
  (perm_insertionSort _ _).mem_iff

theorem length_names (cfg : VoterConfig) : cfg.names.length = cfg.members.length := by
  rw [names, length_insertionSort, length_map]

theorem mem_of_mem_dedup {names : List String} (member : name ∈ dedup names) :
    name ∈ names := by
  rw [dedup, (perm_insertionSort _ _).mem_iff, mem_dedup] at member
  exact (mem_filter.mp member).1

namespace Cluster

variable [Sha256] {s s' : Cluster} {call : DecideCall} {granted : List PrepareReply}
  {r : AcceptRequest}

theorem Proposed.majority (proposed : Proposed s call granted r) {cfg : VoterConfig}
    (byMajority : call.decision.spec.ByMajority cfg) :
    Majority (cfg.members.map (·.name)) (granted.map (·.voter)) := by
  refine ⟨proposed.nodup, fun name member => ?_, ?_⟩
  · have asked := mem_of_mem_dedup (proposed.asked member)
    rw [byMajority.voters] at asked
    exact mem_names.mp asked
  · have enough := proposed.enough
    rw [byMajority.quorum, length_names] at enough
    rw [length_map, length_map]
    exact enough

/-- The promises of a request reported a highest accepted value, which it carries,
or none of them reported any. -/
theorem Votes.reported (votes : s.Votes) (proposed : Proposed s call granted r) :
    (∃ p ∈ granted, p.result.state.value = some r.value ∧
        ∀ q ∈ granted, q.result.state.accepted ≤ p.result.state.accepted) ∨
      ∀ p ∈ granted, p.result.state.accepted = .zero := by
  have reports : ∀ p ∈ granted, p.result.state.accepted = .zero ∨
      p.result.state.Reports ∧ Ballot.zero < p.result.state.accepted := by
    intro p member
    have sound := votes.promise p (proposed.sent member) (proposed.promise p member).1
    rcases sound.held with ⟨zero, -⟩ | ⟨⟨v, value, -⟩, a, signed, -, ballot, -⟩
    · exact .inl zero
    · have positive := Ballot.zero_lt_of_round (votes.signed a signed).round
      rw [ballot] at positive
      exact .inr ⟨⟨by simp [value], positive.ne'⟩, positive⟩
  obtain ⟨built, chosen⟩ := proposed.chosen
  unfold chooseValue at chosen
  rw [map_map] at chosen
  rcases bestAccepted_spec (granted.map ((·.2.state) ∘ fun p => (p.voter, p.result))) .zero none
    with ⟨-, low⟩ | ⟨top, member, topReports, best, -, most⟩
  · refine .inr fun p member => ?_
    rcases reports p member with zero | ⟨isReport, positive⟩
    · exact zero
    · exact absurd (low _ (mem_map_of_mem member) isReport) (not_le.mpr positive)
  obtain ⟨p, isGranted, rfl⟩ := mem_map.mp member
  obtain ⟨v, value⟩ := Option.isSome_iff_exists.mp topReports.1
  rw [best, value] at chosen
  cases chosen
  refine .inl ⟨p, isGranted, value, fun q isGrantedToo => ?_⟩
  rcases reports q isGrantedToo with zero | ⟨isReport, -⟩
  · rw [zero]
    rcases reports p isGranted with isZero | ⟨-, positive⟩
    · exact isZero.ge
    · exact positive.le
  · exact most _ (mem_map_of_mem isGrantedToo) isReport

def votesOnly (_ : Cluster) : Action → Bool
  | .proposer _ => true
  | .node (.prepare ..) => true
  | .node (.accept ..) => true
  | .node _ => false

def VotesOnly (s : Cluster) (action : Action) : Prop := s.votesOnly action = true

/-- A state is empty, or its value was accepted at generation `g`. -/
def HeldAt (s : Cluster) (g : Int) (st : ClaimVoterState) : Prop :=
  st.accepted = .zero ∨ st.Digested ∧ ∃ a ∈ s.signed, a.key = st.key ∧ a.ballot = st.accepted ∧
    a.valueDigest = st.valueDigest ∧ a.configGeneration = g

theorem HeldAt.mono {g : Int} {st : ClaimVoterState} (held : s.HeldAt g st)
    (signed : s.signed ⊆ s'.signed) : s'.HeldAt g st := by
  rcases held with empty | ⟨digested, a, member, facts⟩
  · exact .inl empty
  · exact .inr ⟨digested, a, signed member, facts⟩

theorem HeldAt.of_same {g : Int} {st st' : ClaimVoterState} (held : s.HeldAt g st)
    (key : st'.key = st.key) (same : VoterDB.SameAccepted st st') : s.HeldAt g st' := by
  obtain ⟨accepted, value, digest, -⟩ := same
  unfold HeldAt ClaimVoterState.Digested at held ⊢
  rw [accepted, value, digest, key]
  exact held

/-- What holds in a run that only votes, from the nodes it started with. -/
structure Static (nodes : String → VoterDB) (s : Cluster) : Prop where
  proposals : s.Proposals
  votes : s.Votes
  retired : s.retired = []
  standing : ∀ n, (nodes n).SameStanding (s.nodes n)
  calls : ∀ call ∈ s.calls, ∃ n, (nodes n).Drives call.decision.spec
  row : ∀ n k, s.HeldAt (nodes n).adopted ((s.nodes n).state k)
  generation : ∀ r ∈ s.promises, r.result.promised = true → r.generation = (nodes r.voter).adopted
  promise : ∀ r ∈ s.promises, r.result.promised = true →
    s.HeldAt r.generation r.result.state ∧
      ∀ l, r.result.legacy = some l → l.key = r.key.legacy ∧ s.HeldAt r.generation l

variable {nodes : String → VoterDB}

theorem Static.start (unvoted : ∀ n k, (nodes n).state k = .empty k) :
    Static nodes (.start nodes) := by
  refine ⟨.start nodes, .start unvoted, rfl, fun n => .refl _, ?_, fun n k => .inl ?_, ?_, ?_⟩
  · simp [Cluster.start]
  · simp [Cluster.start, unvoted, ClaimVoterState.empty]
  · simp [Cluster.start]
  · simp [Cluster.start]

theorem Static.keeps (static : Static nodes s') (progress : Progress s s') (n : String) :
    (s.nodes n).Keeps (s'.nodes n) := by
  rcases progress.node n with keeps | loses
  · exact keeps
  · have gone := loses.retired
    rw [static.retired] at gone
    cases gone

theorem Static.proposer (static : Static nodes s) {action : ProposerAction}
    (done : s.proposerStep action = some s') : Static nodes s' := by
  have same := proposerStep_voters done
  have stepped : s.step (.proposer action) = some s' := done
  have signed : s.signed ⊆ s'.signed := same.signed ▸ List.Subset.refl _
  refine ⟨static.proposals.step stepped, (static.votes.step stepped).1,
    same.retired.trans static.retired, ?_, fun call member => ?_, ?_, ?_, ?_⟩
  · rw [same.nodes]
    exact static.standing
  · rcases new_call stepped member with ⟨old, isOld, spec⟩ | ⟨host, starts⟩
    · rw [← spec]
      exact static.calls old isOld
    · exact ⟨host, starts.drives.of_standing (static.standing host)⟩
  · intro n k
    rw [same.nodes]
    exact (static.row n k).mono signed
  · rw [same.promises]
    exact static.generation
  · intro r sent promised
    rw [same.promises] at sent
    exact (static.promise r sent promised).imp (·.mono signed)
      fun legacy l isLegacy => (legacy l isLegacy).imp id (·.mono signed)

variable {voter : String}

variable (static : Static nodes s)
include static

theorem Static.promised_generation {key : ClaimKey} {b : Ballot}
    {gen : Int} {res : PrepareResult} {db : VoterDB}
    (answered : (s.nodes voter).claimPrepare voter key b gen = .ok (res, db))
    (promised : res.promised = true) : gen = (nodes voter).adopted := by
  rcases claimPrepare_ok answered with ⟨refused, -⟩ | ⟨admits, -, -⟩
  · rw [refused] at promised
    cases promised
  · rw [← (static.standing voter).adopted]
    exact (VoterStanding.admit_valid admits.admitted).2

/-- A voter that votes keeps its standing; what its step says besides is about promises. -/
theorem Static.moved {action : NodeAction} {db : VoterDB}
    (stepped : s.nodeStep action = some s') (moves : Moves s s' voter db)
    (retired : s'.retired = s.retired) (standing : (s.nodes voter).SameStanding db)
    (rows : ∀ k, s'.HeldAt (nodes voter).adopted (db.state k)) (signed : s.signed ⊆ s'.signed)
    (generation : ∀ r ∈ s'.promises, r.result.promised = true →
      r.generation = (nodes r.voter).adopted)
    (promise : ∀ r ∈ s'.promises, r.result.promised = true → s'.HeldAt r.generation r.result.state ∧
      ∀ l, r.result.legacy = some l → l.key = r.key.legacy ∧ s'.HeldAt r.generation l) :
    Static nodes s' := by
  have acted : s.step (.node action) = some s' := stepped
  refine ⟨static.proposals.step acted, (static.votes.step acted).1, retired.trans static.retired,
    fun n => ?_, ?_, fun n k => ?_, generation, promise⟩
  · rw [moves.nodes]
    split
    · rename_i isVoter
      rw [isVoter]
      exact (static.standing voter).trans standing
    · exact static.standing n
  · rw [(nodeStep_proposers stepped).calls]
    exact static.calls
  · rw [moves.nodes]
    split
    · rename_i isVoter
      rw [isVoter]
      exact rows k
    · exact (static.row n k).mono signed

theorem Static.kept_promise (signed : s.signed ⊆ s'.signed)
    {r : PrepareReply} (sent : r ∈ s.promises) (promised : r.result.promised = true) :
    s'.HeldAt r.generation r.result.state ∧
      ∀ l, r.result.legacy = some l → l.key = r.key.legacy ∧ s'.HeldAt r.generation l :=
  (static.promise r sent promised).imp (·.mono signed)
    fun legacy l isLegacy => (legacy l isLegacy).imp id (·.mono signed)

theorem Static.prepare {i : Nat} (done : s.prepare i voter = some s') :
    Static nodes s' := by
  obtain ⟨req, res, db, -, answered, moves, promises, signedSame, -, retired⟩ := prepare_ok done
  obtain ⟨standing, states⟩ := claimPrepare_keeps answered
  have signed : s.signed ⊆ s'.signed := signedSame ▸ List.Subset.refl _
  have rows : ∀ k, s'.HeldAt (nodes voter).adopted (db.state k) := fun k =>
    ((static.row voter k).of_same (by simp) (states k).1).mono signed
  refine static.moved (show s.nodeStep (.prepare i voter) = some s' from done) moves retired
    standing rows signed (fun r sent promised => ?_) (fun r sent promised => ?_)
  all_goals
    rw [promises] at sent
    rcases mem_append.mp sent with old | new
  · exact static.generation r old promised
  · rw [mem_singleton.mp new] at promised ⊢
    exact static.promised_generation answered promised
  · exact static.kept_promise signed old promised
  · rw [mem_singleton.mp new] at promised ⊢
    have generation := static.promised_generation answered promised
    rcases claimPrepare_ok answered with ⟨refused, -⟩ | ⟨admits, -, rfl⟩
    · rw [refused] at promised
      cases promised
    simp only [generation]
    refine ⟨rows req.key, fun l isLegacy => ?_⟩
    obtain rfl := legacyReport_some isLegacy
    exact ⟨by simp, rows req.key.legacy⟩

theorem Static.accept {i : Nat} {ownerChecked : Bool}
    (done : s.accept i voter ownerChecked = some s') : Static nodes s' := by
  have stepped : s.nodeStep (.accept i voter ownerChecked) = some s' := done
  obtain ⟨-, progress⟩ := static.votes.step
    (show s.step (.node (.accept i voter ownerChecked)) = some s' from done)
  obtain ⟨-, -, -, -, -, -, -, promises, -, retired⟩ := accept_ok done
  have generation := static.generation
  have promise := fun r => static.kept_promise (r := r) progress.signed
  rw [← promises] at generation promise
  obtain ⟨req, -, ⟨moves, -, -⟩ | ⟨digest, digested, admits, moves, signed⟩⟩ :=
    accept_effect static.votes done
  · exact static.moved stepped moves retired (.refl _)
      (fun k => (static.row voter k).mono progress.signed) progress.signed generation promise
  have standing := saveClaimRowTx_standing (s.nodes voter) ((s.nodes voter).acceptRow
    voter req.key req.ballot req.value req.generation digest)
  refine static.moved stepped moves retired standing (fun k => ?_) progress.signed generation
    promise
  rw [state_acceptRow]
  split
  · have new : (s.nodes voter).signedAccept voter req.key req.ballot req.generation digest ∈
        s'.signed := by
      rw [signed]
      exact mem_append_right _ (mem_singleton_self _)
    have here : req.generation = (nodes voter).adopted := by
      rw [← (static.standing voter).adopted]
      exact (VoterStanding.admit_valid admits.admitted).2
    refine .inr ⟨⟨req.value, rfl, digested⟩, _, new, ?_, rfl, rfl, here⟩
    simp [VoterDB.signedAccept, VoterDB.acceptRow]
  · exact (static.row voter k).mono progress.signed

theorem Static.step {action : Action} (allowed : VotesOnly s action)
    (done : s.step action = some s') : Static nodes s' := by
  cases action with
  | proposer action => exact static.proposer done
  | node action =>
    cases action with
    | prepare i voter => exact static.prepare done
    | accept i voter ownerChecked => exact static.accept done
    | learn host row | listClaims voter generation | adopt host replies
    | reimage host incarnation => simp [VotesOnly, votesOnly] at allowed

end Cluster

end Litevirt.Claims
