import Litevirt.Claims.Record

/-!
# Signed accepts and promises hold

A voter that keeps its state covers every accept it signed and every promise it
gave: it has accepted at least as high a ballot and promised at least as high a
one.  So a promise reports every lower accept its voter ever signs.
-/

namespace Litevirt.Claims

open Litevirt.Lib VoterConfig List VoterDB

/-- A voter keeps its state, and what it promised, accepted and adopted only rises. -/
structure VoterDB.Keeps (db db' : VoterDB) : Prop where
  incarnation : db'.incarnation = db.incarnation
  promised : ∀ k, (db.state k).promised ≤ (db'.state k).promised
  accepted : ∀ k, (db.state k).accepted ≤ (db'.state k).accepted
  adopted : db.adopted ≤ db'.adopted

theorem VoterDB.Keeps.refl (db : VoterDB) : db.Keeps db :=
  ⟨rfl, fun _ => le_refl _, fun _ => le_refl _, le_refl _⟩

namespace VoterDB

theorem state_acceptRow (db : VoterDB) (me : String) (key : ClaimKey) (b : Ballot)
    (v : ClaimValue) (gen : Int) (d : String) (k : ClaimKey) :
    (db.saveClaimRowTx (db.acceptRow me key b v gen d)).state k =
      if k = key then db.acceptRow me key b v gen d else db.state k := by
  rw [state_save]
  simp [acceptRow]

theorem keeps_acceptRow {db : VoterDB} {me : String} {key : ClaimKey} {b : Ballot}
    {v : ClaimValue} {gen : Int} {d : String}
    (within : (db.state key).accepted ≤ (db.state key).promised)
    (promised : (db.state key).promised ≤ b) :
    db.Keeps (db.saveClaimRowTx (db.acceptRow me key b v gen d)) := by
  have standing := saveClaimRowTx_standing db (db.acceptRow me key b v gen d)
  refine ⟨standing.incarnation, fun k => ?_, fun k => ?_, standing.adopted.ge⟩
  · rw [state_acceptRow]
    split
    · rename_i same
      rw [same]
      exact promised
    · exact le_refl _
  · rw [state_acceptRow]
    split
    · rename_i same
      rw [same]
      exact within.trans promised
    · exact le_refl _

end VoterDB

namespace Cluster

variable [Sha256]

/-- A state is empty, or its value was sent and accepted by some voter at its ballot. -/
def Held (s : Cluster) (st : ClaimVoterState) : Prop :=
  st.accepted = .zero ∧ st.value = none ∨
    st.Digested ∧ ∃ a ∈ s.signed, a.key = st.key ∧ a.ballot = st.accepted ∧
      a.valueDigest = st.valueDigest ∧
      ∃ r ∈ s.accepts, r.key = st.key ∧ r.ballot = st.accepted ∧ st.value = some r.value

variable {s s' : Cluster} {st : ClaimVoterState}

theorem Held.mono (held : s.Held st) (signed : s.signed ⊆ s'.signed)
    (accepts : s.accepts ⊆ s'.accepts) : s'.Held st := by
  rcases held with empty | ⟨digested, a, member, key, ballot, digest, r, sent, facts⟩
  · exact .inl empty
  · exact .inr ⟨digested, a, signed member, key, ballot, digest, r, accepts sent, facts⟩

structure RowSound (s : Cluster) (st : ClaimVoterState) : Prop where
  within : st.accepted ≤ st.promised
  held : s.Held st
  accept : ∀ a, st.accept = some a → a ∈ s.signed

structure SignedSound (s : Cluster) (a : ClaimAccept) : Prop where
  request : ∃ r ∈ s.accepts, r.key = a.key ∧ r.ballot = a.ballot ∧
    r.generation = a.configGeneration ∧ r.value.digest = .ok a.valueDigest
  round : a.ballot.round ≠ 0
  live : a.voterIncarnation = (s.nodes a.voter).incarnation ∧
      a.ballot ≤ ((s.nodes a.voter).state a.key).accepted ∨
    ⟨a.voter, a.voterIncarnation⟩ ∈ s.retired

structure PromiseSound (s : Cluster) (r : PrepareReply) : Prop where
  live : r.result.incarnation = (s.nodes r.voter).incarnation ∧
      r.ballot ≤ ((s.nodes r.voter).state r.key).promised ∨
    ⟨r.voter, r.result.incarnation⟩ ∈ s.retired
  report : ∀ a ∈ s.signed, a.voter = r.voter → a.voterIncarnation = r.result.incarnation →
    a.key = r.key → a.ballot < r.ballot → a.ballot ≤ r.result.state.accepted
  held : s.Held r.result.state
  key : r.result.state.key = r.key

structure Votes (s : Cluster) : Prop where
  row : ∀ n k, s.RowSound ((s.nodes n).state k)
  fresh : ∀ n, ⟨n, (s.nodes n).incarnation⟩ ∉ s.retired
  signed : ∀ a ∈ s.signed, s.SignedSound a
  promise : ∀ r ∈ s.promises, r.result.promised = true → s.PromiseSound r
  imports : ∀ r ∈ s.imports, ∀ st ∈ r.source.states, s.Held st

/-- A voter lost its state and its incarnation is retired. -/
structure Loses (s s' : Cluster) (n : String) : Prop where
  retired : ⟨n, (s.nodes n).incarnation⟩ ∈ s'.retired
  state : ∀ k, (s'.nodes n).state k = .empty k

/-- What a voter checked when it signed an accept. -/
structure Signs (s : Cluster) (a : ClaimAccept) (r : AcceptRequest) : Prop where
  sent : r ∈ s.accepts
  key : r.key = a.key
  ballot : r.ballot = a.ballot
  generation : r.generation = a.configGeneration
  digest : r.value.digest = .ok a.valueDigest
  incarnation : a.voterIncarnation = (s.nodes a.voter).incarnation
  admits : (s.nodes a.voter).Admits a.voter a.key a.ballot a.configGeneration (some r.value)

/-- What any step does to the voters. -/
structure Progress (s s' : Cluster) : Prop where
  accepts : s.accepts ⊆ s'.accepts
  signed : s.signed ⊆ s'.signed
  retired : s.retired ⊆ s'.retired
  node : ∀ n, (s.nodes n).Keeps (s'.nodes n) ∨ Loses s s' n
  fresh : ∀ n, ⟨n, (s'.nodes n).incarnation⟩ ∉ s'.retired
  vote : ∀ a ∈ s'.signed, a ∈ s.signed ∨ (∃ r, Signs s a r) ∧
    (s.nodes a.voter).Keeps (s'.nodes a.voter) ∧
    a.ballot ≤ ((s'.nodes a.voter).state a.key).accepted

theorem Progress.held (progress : Progress s s') (held : s.Held st) : s'.Held st :=
  held.mono progress.signed progress.accepts

theorem Progress.row (progress : Progress s s') (sound : s.RowSound st) : s'.RowSound st :=
  ⟨sound.within, progress.held sound.held, fun a stored => progress.signed (sound.accept a stored)⟩

/-- The incarnation that a voter had keeps its state or is retired. -/
theorem Progress.incarnation (progress : Progress s s') {n incarnation : String}
    (current : incarnation = (s.nodes n).incarnation) :
    incarnation = (s'.nodes n).incarnation ∧ (s.nodes n).Keeps (s'.nodes n) ∨
      ⟨n, incarnation⟩ ∈ s'.retired := by
  rw [current]
  exact (progress.node n).imp (fun keeps => ⟨keeps.incarnation.symm, keeps⟩) Loses.retired

theorem PromiseSound.progress {r : PrepareReply} (sound : s.PromiseSound r) (votes : s.Votes)
    (progress : Progress s s') : s'.PromiseSound r := by
  refine ⟨?_, fun a signed voter incarnation key below => ?_, progress.held sound.held, sound.key⟩
  · rcases sound.live with ⟨current, promised⟩ | retired
    · exact (progress.incarnation current).imp_left fun ⟨same, keeps⟩ =>
        ⟨same, promised.trans (keeps.promised r.key)⟩
    · exact .inr (progress.retired retired)
  rcases progress.vote a signed with old | ⟨⟨req, signs⟩, -, -⟩
  · exact sound.report a old voter incarnation key below
  exfalso
  have current := signs.incarnation
  rw [incarnation, voter] at current
  rcases sound.live with ⟨-, promised⟩ | retired
  · have admitted := signs.admits.promised
    rw [voter, key] at admitted
    exact absurd (below.trans_le (promised.trans admitted)) (lt_irrefl _)
  · rw [current] at retired
    exact votes.fresh r.voter retired

theorem SignedSound.progress {a : ClaimAccept} (sound : s.SignedSound a)
    (progress : Progress s s') : s'.SignedSound a := by
  obtain ⟨r, sent, facts⟩ := sound.request
  refine ⟨⟨r, progress.accepts sent, facts⟩, sound.round, ?_⟩
  rcases sound.live with ⟨current, accepted⟩ | retired
  · exact (progress.incarnation current).imp_left fun ⟨same, keeps⟩ =>
      ⟨same, accepted.trans (keeps.accepted a.key)⟩
  · exact .inr (progress.retired retired)

theorem rowSound_empty (k : ClaimKey) : s.RowSound (.empty k) :=
  ⟨le_refl _, .inl ⟨rfl, rfl⟩, by simp [ClaimVoterState.empty]⟩

theorem Votes.advance (votes : s.Votes) (progress : Progress s s')
    (row : ∀ n, (s.nodes n).Keeps (s'.nodes n) → ∀ k, s'.RowSound ((s'.nodes n).state k))
    (promise : ∀ r ∈ s'.promises, r.result.promised = true → r ∈ s.promises ∨ s'.PromiseSound r)
    (imports : ∀ r ∈ s'.imports, r ∈ s.imports ∨ ∀ st ∈ r.source.states, s'.Held st) :
    s'.Votes := by
  refine ⟨fun n k => ?_, progress.fresh, fun a signed => ?_, fun r sent promised => ?_,
    fun r sent => ?_⟩
  · rcases progress.node n with keeps | loses
    · exact row n keeps k
    · rw [loses.state]
      exact rowSound_empty k
  · rcases progress.vote a signed with old | ⟨⟨r, signs⟩, keeps, accepted⟩
    · exact (votes.signed a old).progress progress
    · exact ⟨⟨r, progress.accepts signs.sent, signs.key, signs.ballot, signs.generation,
        signs.digest⟩, signs.admits.round,
        .inl ⟨signs.incarnation.trans keeps.incarnation.symm, accepted⟩⟩
  · rcases promise r sent promised with old | sound
    · exact (votes.promise r old promised).progress votes progress
    · exact sound
  · rcases imports r sent with old | held
    · exact fun st member => progress.held (votes.imports r old st member)
    · exact held

theorem RowSound.of_same {st' : ClaimVoterState} (sound : s.RowSound st) (key : st'.key = st.key)
    (same : VoterDB.SameAccepted st st') (promised : st.promised ≤ st'.promised) :
    s.RowSound st' := by
  obtain ⟨accepted, value, digest, accept⟩ := same
  refine ⟨?_, ?_, ?_⟩
  · rw [accepted]
    exact sound.within.trans promised
  · have held := sound.held
    unfold Held ClaimVoterState.Digested at held ⊢
    rw [accepted, value, digest, key]
    exact held
  · rw [accept]
    exact sound.accept

variable {host : String} {db : VoterDB}

omit [Sha256] in
theorem Moves.keeps (moves : Moves s s' host db) (keeps : (s.nodes host).Keeps db) (n : String) :
    (s.nodes n).Keeps (s'.nodes n) := by
  rw [moves.nodes]
  split
  · rename_i same
    rw [same]
    exact keeps
  · exact .refl _

/-- A step after which every voter keeps its state. -/
theorem Progress.of_keeps (votes : s.Votes) (node : ∀ n, (s.nodes n).Keeps (s'.nodes n))
    (accepts : s.accepts ⊆ s'.accepts) (signed : s.signed ⊆ s'.signed)
    (retired : s'.retired = s.retired)
    (vote : ∀ a ∈ s'.signed, a ∈ s.signed ∨ (∃ r, Signs s a r) ∧
      (s.nodes a.voter).Keeps (s'.nodes a.voter) ∧
      a.ballot ≤ ((s'.nodes a.voter).state a.key).accepted) : Progress s s' := by
  refine ⟨accepts, signed, retired ▸ List.Subset.refl _, fun n => .inl (node n), fun n => ?_, vote⟩
  rw [retired, (node n).incarnation]
  exact votes.fresh n

theorem Progress.of_moves (votes : s.Votes) (moves : Moves s s' host db)
    (keeps : (s.nodes host).Keeps db) (signed : s'.signed = s.signed)
    (retired : s'.retired = s.retired) : Progress s s' :=
  .of_keeps votes (moves.keeps keeps) (moves.accepts ▸ List.Subset.refl _)
    (signed ▸ List.Subset.refl _) retired fun _ member => .inl (signed ▸ member)

theorem Votes.rows (votes : s.Votes) (moves : Moves s s' host db) (progress : Progress s s')
    (moved : ∀ k, s'.RowSound (db.state k)) (n : String) (k : ClaimKey) :
    s'.RowSound ((s'.nodes n).state k) := by
  rw [moves.nodes]
  split
  · exact moved k
  · exact progress.row (votes.row n k)

/-- A step at one voter that answers no proposer and lists no claims. -/
theorem Votes.moved (votes : s.Votes) (progress : Progress s s') (moves : Moves s s' host db)
    (promises : s'.promises = s.promises) (imports : s'.imports = s.imports)
    (rows : ∀ k, s'.RowSound (db.state k)) : s'.Votes ∧ Progress s s' :=
  ⟨votes.advance progress (fun n _ k => votes.rows moves progress rows n k)
    (fun _ sent _ => .inl (promises ▸ sent)) (fun _ sent => .inl (imports ▸ sent)), progress⟩

variable {i : Nat} {voter : String}

section

variable (votes : s.Votes)
include votes

theorem Votes.prepare (done : s.prepare i voter = some s') :
    s'.Votes ∧ Progress s s' := by
  obtain ⟨req, res, db, -, answered, moves, promises, signed, imports, retired⟩ := prepare_ok done
  obtain ⟨standing, states⟩ := claimPrepare_keeps answered
  have progress : Progress s s' := .of_moves votes moves
    ⟨standing.incarnation, fun k => (states k).2.1, fun k => (states k).1.accepted.ge,
      standing.adopted.ge⟩ signed retired
  have rows : ∀ k, s'.RowSound (db.state k) := fun k =>
    progress.row ((votes.row voter k).of_same (by simp) (states k).1 (states k).2.1)
  have here : s'.nodes voter = db := by rw [moves.nodes, if_pos rfl]
  refine ⟨votes.advance progress (fun n _ k => votes.rows moves progress rows n k)
    (fun r sent promised => ?_) (fun r sent => .inl (imports ▸ sent)), progress⟩
  rw [promises] at sent
  rcases mem_append.mp sent with old | new
  · exact .inl old
  rw [mem_singleton.mp new] at promised ⊢
  right
  rcases claimPrepare_ok answered with ⟨refused, -⟩ | ⟨admits, written, rfl⟩
  · rw [refused] at promised
    cases promised
  refine ⟨.inl ⟨?_, ?_⟩, fun a isSigned isVoter incarnation key below => ?_, (rows req.key).held,
    by simp⟩
  · simp only [here]
    exact standing.incarnation.symm
  · simp only [here]
    rcases written with ⟨same, rfl⟩ | ⟨-, rfl⟩
    · exact same.ge
    · rw [state_save, if_pos (by simp [VoterDB.promiseRow])]
      exact le_refl _
  · rw [signed] at isSigned
    rcases (votes.signed a isSigned).live with ⟨-, accepted⟩ | gone
    · rw [isVoter, key] at accepted
      exact accepted.trans (states req.key).1.accepted.ge
    · rw [incarnation, isVoter] at gone
      exact absurd gone (votes.fresh voter)

variable {ownerChecked : Bool}

theorem accept_effect (done : s.accept i voter ownerChecked = some s') :
    ∃ req, s.accepts[i]? = some req ∧
      (Moves s s' voter (s.nodes voter) ∧ s.signed ⊆ s'.signed ∧ s'.signed ⊆ s.signed ∨
        ∃ digest, req.value.digest = .ok digest ∧
          (s.nodes voter).Admits voter req.key req.ballot req.generation (some req.value) ∧
          Moves s s' voter ((s.nodes voter).saveClaimRowTx ((s.nodes voter).acceptRow voter
            req.key req.ballot req.value req.generation digest)) ∧
          s'.signed = s.signed ++
            [(s.nodes voter).signedAccept voter req.key req.ballot req.generation digest]) := by
  obtain ⟨req, res, db, found, answered, moves, signed, -⟩ := accept_ok done
  refine ⟨req, found, ?_⟩
  rcases claimAccept_ok answered with ⟨rfl, nothing⟩ | ⟨digest, digested, admits, -, effect⟩
  · rw [(nothing res rfl).2, Option.toList_none, append_nil] at signed
    exact .inl ⟨moves, signed ▸ List.Subset.refl _, signed ▸ List.Subset.refl _⟩
  rcases effect with ⟨a, stored, -, -, rfl, answer⟩ | ⟨rfl, answer⟩
  · cases answer
    refine .inl ⟨moves, signed ▸ subset_append_left _ _, ?_⟩
    rw [signed]
    refine append_subset.mpr ⟨List.Subset.refl _, fun other member => ?_⟩
    rw [mem_singleton.mp member]
    exact (votes.row voter req.key).accept a stored
  · cases answer
    exact .inr ⟨digest, digested, admits, moves, signed⟩

theorem Votes.accept
    (done : s.accept i voter ownerChecked = some s') : s'.Votes ∧ Progress s s' := by
  obtain ⟨-, -, -, -, -, -, -, promises, imports, retired⟩ := accept_ok done
  obtain ⟨req, found, effect⟩ := accept_effect votes done
  rcases effect with ⟨moves, more, less⟩ | ⟨digest, digested, admits, moves, signed⟩
  · have progress : Progress s s' := .of_keeps votes (moves.keeps (.refl _))
      (moves.accepts ▸ List.Subset.refl _) more retired fun a signed => .inl (less signed)
    exact votes.moved progress moves promises imports fun k => progress.row (votes.row voter k)
  have new : (s.nodes voter).signedAccept voter req.key req.ballot req.generation digest ∈
      s'.signed := by
    rw [signed]
    exact mem_append_right _ (mem_singleton_self _)
  have keeps := moves.keeps (keeps_acceptRow (votes.row voter req.key).within admits.promised)
  have progress : Progress s s' := by
    refine .of_keeps votes keeps (moves.accepts ▸ List.Subset.refl _)
      (signed ▸ subset_append_left _ _) retired fun a member => ?_
    rw [signed] at member
    rcases mem_append.mp member with old | isNew
    · exact .inl old
    rw [mem_singleton.mp isNew]
    refine .inr ⟨⟨req, mem_of_getElem? found, rfl, rfl, rfl, digested, rfl, admits⟩,
      keeps voter, ?_⟩
    change req.ballot ≤ ((s'.nodes voter).state req.key).accepted
    rw [moves.nodes, if_pos rfl, state_acceptRow, if_pos rfl]
    exact le_refl _
  refine votes.moved progress moves promises imports fun k => ?_
  rw [state_acceptRow]
  split
  · refine ⟨le_refl _, .inr ⟨⟨req.value, rfl, digested⟩, _, new, ?_, rfl, rfl, req,
      progress.accepts (mem_of_getElem? found), ?_, rfl, rfl⟩, fun a stored => ?_⟩
    · simp [VoterDB.signedAccept, VoterDB.acceptRow]
    · simp [VoterDB.acceptRow]
    · cases stored
      exact new
  · exact progress.row (votes.row voter k)

theorem Votes.learn {row : VoterConfig} (done : s.learn host row = some s') :
    s'.Votes ∧ Progress s s' := by
  obtain ⟨moves, promises, signed, imports, retired⟩ := learn_ok done
  have progress : Progress s s' := .of_moves votes moves
    ⟨rfl, fun _ => le_refl _, fun _ => le_refl _, le_refl _⟩ signed retired
  exact votes.moved progress moves promises imports fun k => progress.row (votes.row host k)

theorem Votes.listClaims {generation : Int}
    (done : s.listClaims voter generation = some s') : s'.Votes ∧ Progress s s' := by
  obtain ⟨source, answered, nodes, accepts, promises, signed, retired, imports⟩ :=
    listClaims_ok done
  have progress : Progress s s' := .of_moves votes
    ⟨fun n => by rw [nodes]; split <;> simp_all, accepts⟩ (.refl (s.nodes voter)) signed retired
  refine ⟨votes.advance progress (fun n _ k => ?_) (fun r sent _ => .inl (promises ▸ sent))
    (fun r sent => ?_), progress⟩
  · rw [nodes]
    exact progress.row (votes.row n k)
  rw [imports] at sent
  rcases mem_append.mp sent with old | new
  · exact .inl old
  rw [mem_singleton.mp new]
  refine .inr fun st member => ?_
  obtain ⟨standing, -, answered⟩ := bind_eq_ok answered
  cases answered
  rw [(state_of_mem_acceptedStates member).1]
  exact progress.held (votes.row voter st.key).held

theorem Votes.adopt {replies : List Nat} (done : s.adopt host replies = some s') :
    s'.Votes ∧ Progress s s' := by
  obtain ⟨prev, row, db, from_, moves, promises, signed, imports, retired⟩ := adopt_ok done
  have adopts := from_.adopts
  have later : (s.nodes host).adopted ≤ db.adopted := by
    rw [adopts.adopted, getVoterConfig_generation from_.nextRow,
      generationOf_adoptedVoterConfig from_.adoptedRow]
    exact (Int.lt_succ _).le
  have progress : Progress s s' := by
    refine .of_moves votes moves ⟨adopts.identity.incarnation, fun k => ?_, fun k => ?_, later⟩
      signed retired
    · obtain ⟨sources, imported, -⟩ := adopts.state k
      exact imported.promised
    · obtain ⟨sources, imported, -⟩ := adopts.state k
      exact imported.accepted
  refine votes.moved progress moves promises imports fun k => ?_
  have before := votes.row host k
  obtain ⟨sources, imported, offered⟩ := adopts.state k
  rcases imported.origin with same | ⟨src, member, accepted, value, digest, accept⟩
  · exact progress.row (before.of_same (by simp) same imported.promised)
  -- The row is the state that an answer reported.
  obtain ⟨sameKey, digested, answer, picked, -, inStates⟩ := offered src member
  obtain ⟨reply, sent, rfl⟩ := mem_map.mp picked
  have held := votes.imports reply (from_.sent sent) src inStates
  refine ⟨imported.within before.within, ?_, fun a stored => ?_⟩
  · have heldNow := progress.held held
    unfold Held ClaimVoterState.Digested at heldNow ⊢
    rw [accepted, value, digest, sameKey] at heldNow
    rw [state_key]
    exact heldNow
  · rw [accept] at stored
    cases stored

theorem Votes.reimage {incarnation : String}
    (done : s.reimage host incarnation = some s') : s'.Votes ∧ Progress s s' := by
  obtain ⟨other, unused, moves, promises, signed, imports, retired⟩ := reimage_ok done
  have progress : Progress s s' := by
    refine ⟨moves.accepts ▸ List.Subset.refl _, signed ▸ List.Subset.refl _,
      retired ▸ subset_cons_self _ _, fun n => ?_, fun n => ?_,
      fun a member => .inl (signed ▸ member)⟩
    · by_cases same : n = host
      · subst same
        refine .inr ⟨?_, fun k => ?_⟩
        · rw [retired]
          exact mem_cons_self
        · rw [moves.nodes]
          exact state_of_not_has (by simp [VoterDB.has, VoterDB.loadClaimRow])
      · rw [moves.nodes, if_neg same]
        exact .inl (.refl _)
    · rw [moves.nodes, retired]
      split
      · rename_i same
        rw [same, mem_cons, VoterMember.mk.injEq]
        exact not_or.mpr ⟨fun equal => other equal.2, unused⟩
      · rename_i different
        rw [mem_cons, VoterMember.mk.injEq]
        exact not_or.mpr ⟨fun equal => different equal.1, votes.fresh n⟩
  refine votes.moved progress moves promises imports fun k => ?_
  rw [state_of_not_has (by simp [VoterDB.has, VoterDB.loadClaimRow])]
  exact rowSound_empty k

theorem Votes.proposer {action : ProposerAction}
    (done : s.proposerStep action = some s') : s'.Votes ∧ Progress s s' := by
  have same := proposerStep_voters done
  have grow : s.accepts ⊆ s'.accepts :=
    accepts_grow (show s.step (.proposer action) = some s' from done)
  have progress : Progress s s' := .of_keeps votes (fun n => same.nodes ▸ .refl _) grow
    (same.signed ▸ List.Subset.refl _) same.retired fun _ member => .inl (same.signed ▸ member)
  refine ⟨votes.advance progress (fun n _ k => ?_) (fun r sent _ => .inl (same.promises ▸ sent))
    (fun r sent => .inl (same.imports ▸ sent)), progress⟩
  rw [same.nodes]
  exact progress.row (votes.row n k)

theorem Votes.step {action : Action} (done : s.step action = some s') :
    s'.Votes ∧ Progress s s' := by
  cases action with
  | proposer action => exact votes.proposer done
  | node action =>
    cases action with
    | prepare i voter => exact votes.prepare done
    | accept i voter ownerChecked => exact votes.accept done
    | learn host row => exact votes.learn done
    | listClaims voter generation => exact votes.listClaims done
    | adopt host replies => exact votes.adopt done
    | reimage host incarnation => exact votes.reimage done

end

theorem Votes.start {nodes : String → VoterDB}
    (unvoted : ∀ n k, (nodes n).state k = .empty k) : (Cluster.start nodes).Votes := by
  refine ⟨fun n k => ?_, fun n => ?_, ?_, ?_, ?_⟩
  · simp only [Cluster.start, unvoted]
    exact rowSound_empty k
  · simp [Cluster.start]
  · simp [Cluster.start, Cluster.signed]
  · simp [Cluster.start]
  · simp [Cluster.start]

end Cluster

end Litevirt.Claims
