import Litevirt.Claims.ClusterSpec

/-!
# Accepted destinations last

What a voter accepted at a workload key names a destination, and only another
value that names one takes its place, whether the voter accepts it or imports it
with a generation.  So a voter that accepted a recovery holds a destination ever
after, as long as it keeps its state.
-/

namespace Litevirt.Claims

open Litevirt.Lib VoterConfig VoterDB

def ClaimValue.NamesDest (v : ClaimValue) : Prop := ∃ p, v.proof = some p ∧ p.destHost ≠ ""

/-- What is accepted names a destination, and nothing is signed without a value. -/
structure ClaimVoterState.Naming (st : ClaimVoterState) : Prop where
  dest : ∀ v, st.value = some v → v.NamesDest
  signed : st.accept.isSome = true → st.value.isSome = true

theorem ClaimVoterState.Naming.empty (key : ClaimKey) : (ClaimVoterState.empty key).Naming where
  dest v isValue := by cases isValue
  signed isSigned := by cases isSigned

theorem admitWorkloadValue_namesDest {key : ClaimKey} {v : ClaimValue}
    (admitted : VoterStanding.admitWorkloadValue key v = none) : v.NamesDest := by
  unfold VoterStanding.admitWorkloadValue at admitted
  split at admitted
  · rename_i p isProof _
    split at admitted
    · cases admitted
    split at admitted
    · cases admitted
    · rename_i named
      exact ⟨p, isProof, fun empty => named (.inr (.inl empty))⟩
  · cases admitted

namespace Cluster

/-- Everything accepted or exported at a workload key names a destination. -/
structure Naming (s : Cluster) : Prop where
  nodes : ∀ host key, key.isWorkload = true → ((s.nodes host).state key).Naming
  imports : ∀ r ∈ s.imports, ∀ st ∈ r.source.states, st.Naming

theorem naming_start {nodes : String → VoterDB} (unvoted : ∀ n k, (nodes n).state k = .empty k) :
    (Cluster.start nodes).Naming := by
  refine ⟨fun host key _ => ?_, fun r member => by cases member⟩
  rw [show (Cluster.start nodes).nodes = nodes from rfl, unvoted]
  exact .empty key

variable [Sha256] {s s' : Cluster} {key : ClaimKey} {action : NodeAction}

/-- What a step of a node may make of the state that a host has of a workload key: it is lost,
its accepted value stays, a value with a destination is accepted, or a value is imported. -/
def Follows (s : Cluster) (action : NodeAction) (host : String) (key : ClaimKey)
    (after : ClaimVoterState) : Prop :=
  (∃ incarnation, action = .reimage host incarnation) ∧ after = .empty key ∨
    SameAccepted ((s.nodes host).state key) after ∨ (∃ v, after.value = some v ∧ v.NamesDest) ∨
    ∃ r ∈ s.imports, ∃ src ∈ r.source.states, src.key = key ∧ src.value = after.value ∧
      src.value.isSome = true ∧ after.accept = none

theorem nodeStep_state (done : s.nodeStep action = some s') (host : String)
    (workload : key.isWorkload = true) : Follows s action host key ((s'.nodes host).state key) := by
  have same : Follows s action host key ((s.nodes host).state key) :=
    .inr (.inl ⟨rfl, rfl, rfl, rfl⟩)
  -- a node that does not move keeps everything
  have moved : ∀ {other db}, Moves s s' other db →
      (host = other → Follows s action host key (db.state key)) →
      Follows s action host key ((s'.nodes host).state key) := by
    intro other db moves here
    rw [moves.nodes]
    split
    · exact here (by assumption)
    · exact same
  cases action with
  | prepare i voter =>
    obtain ⟨req, res, db, -, answered, moves, -⟩ := prepare_ok done
    refine moved moves ?_
    rintro rfl
    exact .inr (.inl ((claimPrepare_keeps answered).2 key).1)
  | accept i voter ownerChecked =>
    obtain ⟨req, res, db, -, answered, moves, -⟩ := accept_ok done
    refine moved moves ?_
    rintro rfl
    rcases claimAccept_ok answered with
      ⟨rfl, -⟩ | ⟨digest, -, admits, -, ⟨a, -, -, -, rfl, -⟩ | ⟨rfl, -⟩⟩
    · exact same
    · exact same
    rw [state_save]
    split
    · rename_i isKey
      have atKey : key = req.key := by simpa [VoterDB.acceptRow] using isKey
      subst atKey
      obtain ⟨-, valid⟩ := VoterStanding.admit_workload workload admits.admitted
      exact .inr (.inr (.inl ⟨req.value, rfl, admitWorkloadValue_namesDest (valid _ rfl)⟩))
    · exact same
  | learn other row =>
    obtain ⟨moves, -⟩ := learn_ok done
    refine moved moves ?_
    rintro rfl
    exact same
  | listClaims voter generation =>
    obtain ⟨source, -, nodes, -⟩ := listClaims_ok done
    rw [nodes]
    exact same
  | adopt other replies =>
    obtain ⟨prev, row, db, adopts, moves, -⟩ := adopt_ok done
    refine moved moves ?_
    rintro rfl
    obtain ⟨sources, imported, offered⟩ := adopts.adopts.state key
    rcases imported.origin with unchanged | ⟨src, among, -, value, -, unsigned⟩
    · exact .inr (.inl unchanged)
    obtain ⟨isKey, ⟨v, hasValue, -⟩, answer, counted, -, held⟩ := offered src among
    obtain ⟨r, picked, rfl⟩ := List.mem_map.mp counted
    exact .inr (.inr (.inr ⟨r, adopts.sent picked, src, held, isKey, value, by simp [hasValue],
      unsigned⟩))
  | reimage other incarnation =>
    obtain ⟨-, -, moves, -⟩ := reimage_ok done
    refine moved moves ?_
    rintro rfl
    refine .inl ⟨⟨incarnation, rfl⟩, ?_⟩
    exact state_of_not_has (by simp [VoterDB.has, VoterDB.loadClaimRow])

/-- The exported states are the stored ones, so a step exports only what names a destination. -/
theorem nodeStep_imports (done : s.nodeStep action = some s')
    (naming : s.Naming) : ∀ r ∈ s'.imports, ∀ st ∈ r.source.states, st.Naming := by
  cases action with
  | prepare i voter =>
    obtain ⟨req, res, db, -, -, -, -, -, imports, -⟩ := prepare_ok done
    exact imports ▸ naming.imports
  | accept i voter ownerChecked =>
    obtain ⟨req, res, db, -, -, -, -, -, imports, -⟩ := accept_ok done
    exact imports ▸ naming.imports
  | learn host row =>
    obtain ⟨-, -, -, imports, -⟩ := learn_ok done
    exact imports ▸ naming.imports
  | adopt host replies =>
    obtain ⟨prev, row, db, -, -, -, -, imports, -⟩ := adopt_ok done
    exact imports ▸ naming.imports
  | reimage host incarnation =>
    obtain ⟨-, -, -, -, -, imports, -⟩ := reimage_ok done
    exact imports ▸ naming.imports
  | listClaims voter generation =>
    obtain ⟨source, answered, -, -, -, -, -, imports⟩ := listClaims_ok done
    rw [imports]
    intro r member st exported
    rcases List.mem_append.mp member with old | new
    · exact naming.imports r old st exported
    rw [List.mem_singleton.mp new] at exported
    obtain ⟨standing, -, answered⟩ := bind_eq_ok answered
    cases answered
    obtain ⟨stored, workload⟩ := state_of_mem_acceptedStates exported
    rw [stored]
    exact naming.nodes voter _ workload

theorem naming_step {action : Action} (done : s.step action = some s') (naming : s.Naming) :
    s'.Naming := by
  cases action with
  | proposer action =>
    have same := proposerStep_voters done
    refine ⟨fun host key workload => ?_, ?_⟩
    · rw [same.nodes]
      exact naming.nodes host key workload
    · rw [same.imports]
      exact naming.imports
  | node action =>
    refine ⟨fun host key workload => ?_, nodeStep_imports done naming⟩
    rcases nodeStep_state done host workload with
      ⟨-, lost⟩ | kept | ⟨v, accepted, names⟩ | ⟨r, sent, src, exported, -, value, -, unsigned⟩
    · rw [lost]
      exact .empty key
    · have old := naming.nodes host key workload
      exact ⟨fun v isValue => old.dest v (kept.value ▸ isValue),
        fun isSigned => kept.value ▸ old.signed (kept.accept ▸ isSigned)⟩
    · exact ⟨fun other isValue => by rw [accepted] at isValue; cases isValue; exact names,
        fun _ => by rw [accepted]; rfl⟩
    · refine ⟨fun v isValue => (naming.imports r sent src exported).dest v (value.trans isValue),
        fun isSigned => ?_⟩
      rw [unsigned] at isSigned
      cases isSigned

theorem value_isSome_step {action : Action} (done : s.step action = some s') {host : String}
    (keeps : ∀ incarnation, action ≠ .node (.reimage host incarnation))
    (workload : key.isWorkload = true) (held : ((s.nodes host).state key).value.isSome = true) :
    ((s'.nodes host).state key).value.isSome = true := by
  cases action with
  | proposer action =>
    rw [(proposerStep_voters done).nodes]
    exact held
  | node action =>
    rcases nodeStep_state done host workload with
      ⟨⟨incarnation, rfl⟩, -⟩ | kept | ⟨v, accepted, -⟩ | ⟨r, -, src, -, -, value, present, -⟩
    · exact absurd rfl (keeps incarnation)
    · rw [kept.value]
      exact held
    · rw [accepted]
      rfl
    · rw [← value]
      exact present

def answersAccept (s : Cluster) (i : Nat) (voter : String) (ownerChecked : Bool) : Bool :=
  match s.accepts[i]? with
  | some req =>
    match (s.nodes voter).claimAccept voter req.key req.ballot req.value req.generation
        ownerChecked with
    | .ok (.answer res, _) => res.accepted
    | _ => false
  | none => false

def Accepts (s : Cluster) (voter : String) (key : ClaimKey) (s' : Cluster) : Prop :=
  ∃ i ownerChecked, (s.accepts[i]?).map (·.key) = some key ∧
    s.answersAccept i voter ownerChecked = true ∧ s.accept i voter ownerChecked = some s'

variable {voter : String}

theorem Accepts.naming (accepts : s.Accepts voter key s') (naming : s.Naming) : s'.Naming := by
  obtain ⟨i, ownerChecked, -, -, done⟩ := accepts
  have stepped : s.step (.node (.accept i voter ownerChecked)) = some s' := done
  exact naming_step stepped naming

theorem Accepts.value_isSome (accepts : s.Accepts voter key s')
    (workload : key.isWorkload = true) (naming : s.Naming) :
    ((s'.nodes voter).state key).value.isSome = true := by
  obtain ⟨i, ownerChecked, isKey, accepted, done⟩ := accepts
  obtain ⟨req, res, db, found, answered, moves, -⟩ := accept_ok done
  rw [found, Option.map_some, Option.some.injEq] at isKey
  subst isKey
  simp only [answersAccept, found, answered] at accepted
  rw [moves.nodes, if_pos rfl]
  rcases claimAccept_ok answered with
    ⟨-, refused⟩ | ⟨digest, -, -, -, ⟨a, stored, -, -, rfl, -⟩ | ⟨rfl, -⟩⟩
  · rw [(refused res rfl).1] at accepted
    cases accepted
  · exact (naming.nodes voter _ workload).signed (by simp [stored])
  · rw [state_save, if_pos (by simp [VoterDB.acceptRow])]
    rfl

end Cluster

end Litevirt.Claims
