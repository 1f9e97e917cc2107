import Litevirt.Claims.Visibility
import Litevirt.Claims.Election

/-!
# Agreement inside one generation

All voters of a generation see the same members, and nobody changes the
generation or loses its state.  Then two majorities that accepted a value for one
key accepted the same value, whatever the proposers do.
-/

namespace Litevirt.Claims.Cluster

open Litevirt.Lib VoterConfig

/-- Nodes that have not voted yet and agree on the members of generation `g`. -/
structure Generation (nodes : String → VoterDB) (g : Int) (members : List VoterMember) :
    Prop where
  positive : 0 < g
  explicit : members ≠ []
  rows : ∀ n row, (nodes n).getVoterConfig g = some row → row.members = members
  unvoted : ∀ n k, (nodes n).state k = .empty k

/-- A voter signed an accept for the key at generation `g`. -/
def Signed (s : Cluster) (key : ClaimKey) (g : Int) (n : String) (b : Ballot) (d : String) : Prop :=
  ∃ a ∈ s.signed, a.voter = n ∧ a.key = key ∧ a.configGeneration = g ∧ a.ballot = b ∧
    a.valueDigest = d

def MajorityAccepted (s : Cluster) (key : ClaimKey) (g : Int) (members : List VoterMember)
    (b : Ballot) (d : String) : Prop :=
  ∃ voters, Majority (members.map (·.name)) voters ∧ ∀ n ∈ voters, s.Signed key g n b d

/-- The vote on a key within a generation, ranked by ballot. -/
def ballots (s : Cluster) (key : ClaimKey) (g : Int) (members : List VoterMember) :
    Voting String Ballot String where
  vote n b d := s.Signed key g n b d
  closed n b := b < ((s.nodes n).state key).promised
  quorum _ _ Q := Majority (members.map (·.name)) Q

section

variable [Sha256] {nodes : String → VoterDB} {s s' : Cluster} {key : ClaimKey} {g : Int}
  {members : List VoterMember}

theorem ballots_later (static : Static nodes s') (progress : Progress s s') :
    (s.ballots key g members).Later (s'.ballots key g members) := by
  refine ⟨fun _ _ Q quorum => quorum, fun n b closed => ?_, ?_⟩
  · exact lt_of_lt_of_le closed ((static.keeps progress n).promised key)
  · rintro n b d closed ⟨a, signed, rfl, rfl, rfl, rfl, rfl⟩
    rcases progress.vote a signed with old | ⟨⟨r, signs⟩, -, -⟩
    · exact ⟨a, old, rfl, rfl, rfl, rfl, rfl⟩
    · exact absurd signs.admits.promised (not_le.mpr closed)

variable {call : DecideCall}

theorem Static.byMajority (static : Static nodes s) (generation : Generation nodes g members)
    (called : call ∈ s.calls) (here : call.decision.spec.generation = g) :
    ∃ cfg : VoterConfig, cfg.members = members ∧ call.decision.spec.ByMajority cfg := by
  obtain ⟨n, drives⟩ := static.calls call called
  generalize call.decision.spec = spec at drives here
  cases drives with
  | byMajority read explicitCfg byMajority =>
    rename_i cfg
    obtain ⟨found, adopted⟩ := VoterDB.adoptedVoterConfig_some read
    rw [← adopted, ← byMajority.generation, here] at found
    exact ⟨cfg, generation.rows n cfg found, byMajority⟩
  | genesis read empty ch now =>
    rename_i prev
    have same : generationOf prev = g := here
    cases prev with
    | none =>
      have positive := generation.positive
      rw [← same] at positive
      exact absurd positive (lt_irrefl _)
    | some cfg =>
      obtain ⟨found, adopted⟩ := VoterDB.adoptedVoterConfig_some read
      have isGeneration : cfg.generation = g := same
      rw [← adopted, isGeneration] at found
      have listed := generation.rows n cfg found
      simp [explicit, membersOf, listed, generation.explicit] at empty

variable {a : ClaimAccept}

theorem Static.current (static : Static nodes s) (signed : a ∈ s.signed) :
    a.voterIncarnation = (s.nodes a.voter).incarnation := by
  rcases (static.votes.signed a signed).live with ⟨current, -⟩ | gone
  · exact current
  · rw [static.retired] at gone
    cases gone

variable {r : PrepareReply}

theorem Static.promised (static : Static nodes s) (sent : r ∈ s.promises)
    (promised : r.result.promised = true) :
    r.result.incarnation = (s.nodes r.voter).incarnation ∧
      r.ballot ≤ ((s.nodes r.voter).state r.key).promised := by
  rcases (static.votes.promise r sent promised).live with live | gone
  · exact live
  · rw [static.retired] at gone
    cases gone

theorem oneDigest (proposals : s.Proposals) (votes : s.Votes) {other : ClaimAccept}
    (signed : a ∈ s.signed) (signedToo : other ∈ s.signed) (sameKey : other.key = a.key)
    (ballot : other.ballot = a.ballot) : other.valueDigest = a.valueDigest := by
  obtain ⟨r, sent, rKey, rBallot, -, digest⟩ := (votes.signed a signed).request
  obtain ⟨r', sent', rKey', rBallot', -, digest'⟩ := (votes.signed other signedToo).request
  have same := proposals.oneValue sent sent' (by rw [rKey', sameKey, rKey])
    (by rw [rBallot', ballot, rBallot])
  rw [digest, digest', Except.ok.injEq] at same
  exact same

variable {d : String}

theorem HeldAt.origin {st : ClaimVoterState} (held : s.HeldAt g st)
    (accepted : st.accepted ≠ .zero) {v : ClaimValue} (value : st.value = some v)
    (digest : v.digest = .ok d) :
    ∃ a ∈ s.signed, a.key = st.key ∧ a.ballot = st.accepted ∧ a.valueDigest = d ∧
      a.configGeneration = g := by
  rcases held with zero | ⟨⟨v', value', digest'⟩, a, signed, sameKey, ballot, sameDigest, here⟩
  · exact absurd zero accepted
  rw [value, Option.some.injEq] at value'
  rw [← value', digest, Except.ok.injEq] at digest'
  exact ⟨a, signed, sameKey, ballot, sameDigest.trans digest'.symm, here⟩

/-- What is sent in phase 2 is safe. -/
def RequestsSafe (s : Cluster) (g : Int) (members : List VoterMember) : Prop :=
  ∀ r ∈ s.accepts, r.generation = g → ∀ d, r.value.digest = .ok d →
    (s.ballots r.key g members).SafeAt r.ballot d

theorem Static.safe_of_proposed (static : Static nodes s)
    (generation : Generation nodes g members) (safe : s.RequestsSafe g members)
    {granted : List PrepareReply} {r : AcceptRequest}
    (proposed : Proposed s call granted r) (here : r.generation = g)
    (digest : r.value.digest = .ok d) : (s.ballots r.key g members).SafeAt r.ballot d := by
  obtain ⟨cfg, rfl, byMajority⟩ := static.byMajority generation proposed.called
    (proposed.generation.symm.trans here)
  refine .of_reports fun lower below e Q quorum => ?_
  obtain ⟨n, inQ, answered⟩ := quorum.meets (proposed.majority byMajority)
  obtain ⟨p, isGranted, rfl⟩ := List.mem_map.mp answered
  obtain ⟨promised, sameKey, sameBallot, sameGeneration⟩ := proposed.promise p isGranted
  have sent := proposed.sent isGranted
  refine ⟨p.voter, inQ, ?_, ?_⟩
  · have atLeast := (static.promised sent promised).2
    rw [sameKey, sameBallot] at atLeast
    exact below.trans_le atLeast
  rintro ⟨a, signed, voter, aKey, aGeneration, rfl, rfl⟩
  have current : a.voterIncarnation = p.result.incarnation := by
    rw [static.current signed, voter, (static.promised sent promised).1]
  have covered := (static.votes.promise p sent promised).report a signed voter current
    (aKey.trans sameKey.symm) (sameBallot ▸ below)
  have positive := Ballot.zero_lt_of_round (static.votes.signed a signed).round
  rcases static.votes.reported proposed with ⟨top, isTop, value, most⟩ | none
  · -- The value is the one that was accepted at the highest reported ballot.
    have above := covered.trans (most p isGranted)
    obtain ⟨topPromised, topKey, -, topGeneration⟩ := proposed.promise top isTop
    have topSent := proposed.sent isTop
    obtain ⟨origin, isSigned, originKey, originBallot, originDigest, originGeneration⟩ :=
      (static.promise top topSent topPromised).1.origin (positive.trans_le above).ne' value digest
    rw [(static.votes.promise top topSent topPromised).key, topKey] at originKey
    rcases above.eq_or_lt with same | higher
    · left
      rw [← originDigest]
      exact oneDigest static.proposals static.votes isSigned signed (aKey.trans originKey.symm)
        (same.trans originBallot.symm)
    right
    refine ⟨origin.ballot, originBallot ▸ higher, ?_⟩
    obtain ⟨request, isSent, requestKey, requestBallot, requestGeneration, requestDigest⟩ :=
      (static.votes.signed origin isSigned).request
    have safeOrigin := safe request isSent (requestGeneration.trans (originGeneration.trans
      (topGeneration.trans here))) _ requestDigest
    rw [requestKey, requestBallot, originKey, originDigest] at safeOrigin
    exact safeOrigin
  · rw [none p isGranted] at covered
    exact absurd (positive.trans_le covered) (lt_irrefl _)

theorem Static.requestsSafe (static : Static nodes s) (generation : Generation nodes g members)
    (safe : s.RequestsSafe g members) {action : Action} (allowed : VotesOnly s action)
    (done : s.step action = some s') : s'.RequestsSafe g members := by
  have later : ∀ key, (s.ballots key g members).Later (s'.ballots key g members) :=
    fun key => ballots_later (static.step allowed done) (static.votes.step done).2
  intro r sent here d digest
  rcases new_request done sent with old | ⟨call, granted, proposed⟩
  · exact (safe r old here d digest).later (later r.key)
  · exact (static.safe_of_proposed generation safe proposed here digest).later (later r.key)

/-- Two majorities of a generation that accepted a value for one key accepted the
same value. -/
theorem agreement (generation : Generation nodes g members)
    (run : Run step VotesOnly (.start nodes) s) {b b' : Ballot} {d d' : String}
    (first : s.MajorityAccepted key g members b d)
    (second : s.MajorityAccepted key g members b' d') : d = d' := by
  obtain ⟨static, safe⟩ := run.invariant (fun s => Static nodes s ∧ s.RequestsSafe g members)
    ⟨.start generation.unvoted, by simp [RequestsSafe, start]⟩
    fun _ _ _ allowed done ⟨static, safe⟩ =>
      ⟨static.step allowed done, static.requestsSafe generation safe allowed done⟩
  refine Voting.Chosen.agree (p := s.ballots key g members) ?_ ?_ ?_ first second
  · rintro n b d ⟨a, signed, rfl, rfl, rfl, rfl, rfl⟩
    obtain ⟨r, sent, sameKey, ballot, here, digest⟩ := (static.votes.signed a signed).request
    have safeRequest := safe r sent here _ digest
    rw [sameKey, ballot] at safeRequest
    exact safeRequest
  · rintro n m b d e ⟨a, signed, -, aKey, -, aBallot, rfl⟩ ⟨a', signed', -, aKey', -, aBallot', rfl⟩
    exact (oneDigest static.proposals static.votes signed signed' (aKey'.trans aKey.symm)
      (aBallot'.trans aBallot.symm)).symm
  · exact fun _ _ Q quorum => quorum.exists_mem

end

instance (s : Cluster) (key : ClaimKey) (g : Int) (n : String) (b : Ballot) (d : String) :
    Decidable (s.Signed key g n b d) :=
  inferInstanceAs (Decidable (∃ a ∈ s.signed, _))

def trio : List VoterMember := [⟨"a", "i"⟩, ⟨"b", "i"⟩, ⟨"c", "i"⟩]

def trioNode : VoterDB :=
  { soleVoter with voterConfigs := [⟨⟨1, trio, .genesis, "a", "t"⟩, "", none⟩] }

def webTo (id host : String) : ClaimValue :=
  .ofProof ⟨id, "reschedule", .vm, "web", host, "a", "", "", "0", 1, ""⟩ "o"

/-- `a` gets its value accepted by `a` and `b`, then `c` finds it at `b`. -/
def rivals : List Action :=
  [.proposer (.boot "a" [1]),
    .proposer (.decideRecovery [1] webKey (webTo "p" "a") 1 fun _ => true),
    .proposer (.beginRound 0), .node (.prepare 0 "a"), .node (.prepare 0 "b"),
    .proposer (.countPromises 0 [0, 1]), .node (.accept 0 "a" true), .node (.accept 0 "b" true),
    .proposer (.boot "c" [2]),
    .proposer (.decideRecovery [2] webKey (webTo "q" "c") 2 fun _ => true),
    .proposer (.beginRound 1), .node (.prepare 1 "b"), .node (.prepare 1 "c"),
    .proposer (.countPromises 1 [2, 3]), .node (.accept 1 "b" true), .node (.accept 1 "c" true)]

/-- Both majorities accepted the first value, and no majority accepts another one. -/
theorem rivals_agree :
    ∃ s d, Run (@step .checksum) VotesOnly (.start fun _ => trioNode) s ∧
      s.MajorityAccepted webKey 1 trio ⟨1, "a", [1]⟩ d ∧
      s.MajorityAccepted webKey 1 trio ⟨2, "c", [2]⟩ d ∧
      ∀ b' d', s.MajorityAccepted webKey 1 trio b' d' → d' = d := by
  obtain ⟨s, run, first, second⟩ : ∃ s,
      Run (@step .checksum) VotesOnly (.start fun _ => trioNode) s ∧
      (∀ n ∈ ["a", "b"], s.Signed webKey 1 n ⟨1, "a", [1]⟩ "2acbfe16") ∧
      ∀ n ∈ ["b", "c"], s.Signed webKey 1 n ⟨2, "c", [2]⟩ "2acbfe16" :=
    Run.executed (show ∀ s l, votesOnly s l = true → VotesOnly s l from fun _ _ => id) rivals
      (by decide +kernel)
  have generation : Generation (fun _ => trioNode) 1 trio := by
    refine ⟨by decide, by decide, fun n row found => ?_,
      fun n => VoterRun.state_of_unvoted ⟨rfl, rfl⟩⟩
    cases found
    decide +kernel
  have accepted : s.MajorityAccepted webKey 1 trio ⟨1, "a", [1]⟩ "2acbfe16" :=
    ⟨["a", "b"], ⟨by decide, by decide, by decide⟩, first⟩
  exact ⟨s, _, run, accepted, ⟨["b", "c"], ⟨by decide, by decide, by decide⟩, second⟩,
    fun b' d' other => @agreement .checksum _ _ _ _ _ generation run _ _ _ _ other accepted⟩

/-- In every run, changes of the generation, imports and lost voters among its steps: one ballot
of a key carries one value; a voter that has not been replaced since it signed an accept holds one
at least as high; and a promise reports what its voter had accepted below it. -/
theorem votes_last [Sha256] {nodes : String → VoterDB} {s : Cluster}
    (unvoted : ∀ n k, (nodes n).state k = .empty k)
    (run : Run step (fun _ _ => True) (.start nodes) s) :
    (∀ a ∈ s.signed, ∀ a' ∈ s.signed, a'.key = a.key → a'.ballot = a.ballot →
        a'.valueDigest = a.valueDigest) ∧
      (∀ a ∈ s.signed, a.voterIncarnation = (s.nodes a.voter).incarnation →
        a.ballot ≤ ((s.nodes a.voter).state a.key).accepted) ∧
      ∀ r ∈ s.promises, r.result.promised = true → ∀ a ∈ s.signed, a.voter = r.voter →
        a.voterIncarnation = r.result.incarnation → a.key = r.key → a.ballot < r.ballot →
          a.ballot ≤ r.result.state.accepted := by
  obtain ⟨proposals, votes⟩ := run.invariant (fun s => s.Proposals ∧ s.Votes)
    ⟨.start nodes, .start unvoted⟩
    fun _ _ _ _ done ⟨proposals, votes⟩ => ⟨proposals.step done, (votes.step done).1⟩
  refine ⟨fun a signed a' => oneDigest proposals votes signed, fun a signed current => ?_,
    fun r sent promised => (votes.promise r sent promised).report⟩
  rcases (votes.signed a signed).live with ⟨-, held⟩ | retired
  · exact held
  · rw [current] at retired
    exact absurd retired (votes.fresh a.voter)

/-- `b` loses its state after both majorities accepted; what `c` signed still binds it. -/
theorem votes_last_reimaged : ∃ s, Run (@step .checksum) (fun _ _ => True)
    (.start fun _ => trioNode) s ∧ (s.nodes "b").incarnation = "j" ∧
      ∃ a ∈ s.signed, a.voter = "c" ∧ a.ballot ≤ ((s.nodes "c").state a.key).accepted := by
  obtain ⟨s, run, replaced, a, signed, voter, current⟩ : ∃ s, Run (@step .checksum)
      (fun _ _ => True) (.start fun _ => trioNode) s ∧ (s.nodes "b").incarnation = "j" ∧
        ∃ a ∈ s.signed, a.voter = "c" ∧ a.voterIncarnation = (s.nodes a.voter).incarnation :=
    Run.reaches (rivals ++ [.node (.reimage "b" "j")]) (by decide +kernel)
  have held := (@votes_last .checksum _ _ (fun _ => VoterRun.state_of_unvoted ⟨rfl, rfl⟩) run).2.1
    a signed current
  exact ⟨s, run, replaced, a, signed, voter, voter ▸ held⟩

end Litevirt.Claims.Cluster
