import Litevirt.Lib.Transition
import Litevirt.Claims.ClusterSpec

/-!
# What every run keeps on record

Two invariants hold in every run of the cluster.  A ballot carries one value,
because a process binds each of its rounds.  A signed accept is covered by the
voter that signed it, and a promise by the voter that gave it, for as long as the
voter keeps its state.
-/

namespace Litevirt.Claims

open Litevirt.Lib VoterConfig List Table

namespace Proposer

structure Extends (p after : Proposer) : Prop where
  self : after.self = p.self
  nonce : after.nonce = p.nonce
  bound : ∀ slot digest, p.bound.find slot = some digest → after.bound.find slot = some digest

theorem Extends.refl (p : Proposer) : Extends p p := ⟨rfl, rfl, fun _ _ found => found⟩

theorem bind_extends {p after : Proposer} {key : ClaimKey} {round : UInt64} {digest : String}
    (bound : p.bind key round digest = some after) :
    Extends p after ∧ after.bound.find (key, round) = some digest := by
  unfold bind at bound
  split at bound
  · cases bound
  rename_i unbound
  cases bound
  refine ⟨⟨rfl, rfl, fun slot other found => ?_⟩, find_put_self ..⟩
  by_cases same : slot = (key, round)
  · subst same
    have equal : other = digest := by simpa [found] using unbound
    rw [equal]
    exact find_put_self ..
  · rw [find_put_of_ne _ _ same, found]

end Proposer

namespace Cluster

/-- Every ballot in use belongs to one process, which has bound it to the value it
sent with it. -/
structure Proposals [Sha256] (s : Cluster) : Prop where
  named : ∀ nonce p, s.proposers.find nonce = some p → p.nonce = nonce
  preparing : ∀ call ∈ s.calls, ∀ b, call.decision.phase = .preparing b → b.nonce = call.process
  bound : ∀ r ∈ s.accepts, ∃ p digest, s.proposers.find r.ballot.nonce = some p ∧
    p.bound.find (r.key, r.ballot.round) = some digest ∧ r.value.digest = .ok digest

namespace Proposals

variable [Sha256] {s s' : Cluster}

theorem start (nodes : String → VoterDB) : Proposals (.start nodes) :=
  ⟨by simp [Cluster.start], by simp [Cluster.start], by simp [Cluster.start]⟩

variable (record : Proposals s)
include record

theorem of_same (same : SameProposers s s') : Proposals s' := by
  refine ⟨?_, ?_, ?_⟩
  · rw [same.proposers]
    exact record.named
  · rw [same.calls]
    exact record.preparing
  · rw [same.proposers, same.accepts]
    exact record.bound

theorem oneValue {r other : AcceptRequest} (sent : r ∈ s.accepts)
    (sentToo : other ∈ s.accepts) (key : other.key = r.key) (ballot : other.ballot = r.ballot) :
    other.value.digest = r.value.digest := by
  obtain ⟨p, digest, found, bound, digested⟩ := record.bound r sent
  obtain ⟨q, digestToo, foundToo, boundToo, digestedToo⟩ := record.bound other sentToo
  rw [ballot, found, Option.some.injEq] at foundToo
  rw [key, ballot, ← foundToo, bound, Option.some.injEq] at boundToo
  rw [digested, digestedToo, boundToo]

/-- A call moves on, its process allocates or binds a ballot, and what is sent is bound. -/
theorem advance {i : Nat} {call : DecideCall} {p after : Proposer} {decision : Decision}
    (found : s.proposers.find call.process = some p) (extends_ : p.Extends after)
    (phase : ∀ b, decision.phase = .preparing b → b.nonce = call.process)
    (proposers : s'.proposers = s.proposers.put after.nonce after)
    (calls : s'.calls = s.calls.set i { call with decision := decision })
    (sends : ∀ r ∈ s'.accepts, r ∈ s.accepts ∨ r.ballot.nonce = call.process ∧
      ∃ digest, after.bound.find (r.key, r.ballot.round) = some digest ∧
        r.value.digest = .ok digest) : Proposals s' := by
  have name : after.nonce = call.process := by
    rw [extends_.nonce, record.named _ _ found]
  rw [name] at proposers
  constructor
  · intro nonce q isFound
    rw [proposers, find_put] at isFound
    split at isFound
    · rename_i same
      cases isFound
      rw [name, same]
    · exact record.named nonce q isFound
  · intro c member b isPreparing
    rw [calls] at member
    rcases mem_or_eq_of_mem_set member with old | rfl
    · exact record.preparing c old b isPreparing
    · exact phase b isPreparing
  · intro r sent
    rw [proposers]
    rcases sends r sent with old | ⟨own, digest, bound, digested⟩
    · obtain ⟨q, digest, isFound, bound, digested⟩ := record.bound r old
      by_cases same : r.ballot.nonce = call.process
      · rw [same, found, Option.some.injEq] at isFound
        rw [same]
        exact ⟨after, digest, find_put_self .., extends_.bound _ _ (isFound ▸ bound), digested⟩
      · exact ⟨q, digest, by rw [find_put_of_ne _ _ same, isFound], bound, digested⟩
    · rw [own]
      exact ⟨after, digest, find_put_self .., bound, digested⟩

theorem addCall (process : List UInt8) (spec : Spec) :
    Proposals (s.addCall process spec) := by
  refine ⟨record.named, fun call member b isPreparing => ?_, record.bound⟩
  rcases mem_append.mp member with old | new
  · exact record.preparing call old b isPreparing
  · rw [mem_singleton.mp new] at isPreparing
    cases isPreparing

theorem step {action : Action} (done : s.step action = some s') :
    Proposals s' := by
  cases action with
  | node action => exact record.of_same (nodeStep_proposers done)
  | proposer action =>
    cases action with
    | boot host nonce =>
      obtain ⟨fresh, rfl⟩ := boot_ok done
      refine ⟨fun name p found => ?_, record.preparing, fun r sent => ?_⟩
      · simp only [setProposer, find_put] at found
        split at found
        · rename_i same
          cases found
          exact same.symm
        · exact record.named name p found
      · obtain ⟨p, digest, found, facts⟩ := record.bound r sent
        have different : r.ballot.nonce ≠ nonce := by
          intro same
          rw [same, fresh] at found
          cases found
        exact ⟨p, digest, (find_put_of_ne _ _ different).trans found, facts⟩
    | decideRecovery process | decideVoterChange process =>
      obtain ⟨p, spec, -, rfl⟩ := addCall_ok done
      exact record.addCall process spec
    | beginRound i =>
      obtain ⟨call, p, -, found, -, accepts, proposers, calls⟩ := beginRound_ok done
      have allocated : p.Extends (call.decision.beginRound p).2.1 :=
        ⟨rfl, rfl, fun _ _ bound => bound⟩
      refine record.advance found allocated (fun b phase => ?_) proposers calls
        fun r sent => .inl (accepts ▸ sent)
      cases phase
      exact record.named _ _ found
    | countPromises i replies =>
      obtain ⟨call, p, b, after, decision, called, found, phase, -, -, proposers, calls, -,
        notPreparing, outcome⟩ := countPromises_ok done
      have moved := fun extends_ => record.advance found extends_
        (fun b isPreparing => absurd isPreparing (notPreparing b)) proposers calls
      rcases outcome with ⟨rfl, unchanged⟩ | ⟨prop, added, proposes⟩
      · exact moved (.refl _) fun r sent => .inl (unchanged ▸ sent)
      obtain ⟨extends_, boundNow⟩ := Proposer.bind_extends proposes.bound
      refine moved extends_ fun r sent => ?_
      rw [added] at sent
      rcases mem_append.mp sent with old | new
      · exact .inl old
      · rw [mem_singleton.mp new]
        have ballot := record.preparing call (mem_of_getElem? called) b phase
        exact .inr ⟨ballot, prop.digest, boundNow, proposes.digest⟩
    | countAccepts i replies =>
      obtain ⟨call, prop, answers, called, -, proposers, accepts, calls⟩ := countAccepts_ok done
      refine ⟨?_, fun c member b isPreparing => ?_, ?_⟩
      · rw [proposers]
        exact record.named
      · rw [calls] at member
        rcases mem_or_eq_of_mem_set member with old | rfl
        · exact record.preparing c old b isPreparing
        · exact absurd isPreparing ((call.decision.afterAccept_spec prop answers).2 b)
      · rw [proposers, accepts]
        exact record.bound

end Proposals

variable {s s' : Cluster} {action : Action}

/-- What a new request rests on: the promises its `Decide` call counted. -/
structure Proposed [Sha256] (s : Cluster) (call : DecideCall) (granted : List PrepareReply)
    (r : AcceptRequest) : Prop where
  called : call ∈ s.calls
  key : r.key = call.decision.spec.key
  generation : r.generation = call.decision.spec.generation
  sent : granted ⊆ s.promises
  nodup : (granted.map (·.voter)).Nodup
  asked : granted.map (·.voter) ⊆ dedup call.decision.spec.voters
  promise : ∀ p ∈ granted, p.result.promised = true ∧ p.key = r.key ∧ p.ballot = r.ballot ∧
    p.generation = r.generation
  enough : call.decision.spec.prepareQuorum ≤ granted.length
  chosen : ∃ built, chooseValue call.decision.spec
    (granted.map fun p => (p.voter, p.result)) = .ok (r.value, built)

/-- A step sends no accept request or one that rests on counted promises. -/
theorem accepts_step [Sha256] (done : s.step action = some s') :
    s'.accepts = s.accepts ∨
      ∃ r call granted, s'.accepts = s.accepts ++ [r] ∧ Proposed s call granted r := by
  cases action with
  | node action => exact .inl (nodeStep_proposers done).accepts
  | proposer action =>
    cases action with
    | boot host nonce =>
      obtain ⟨-, rfl⟩ := boot_ok done
      exact .inl rfl
    | decideRecovery | decideVoterChange =>
      obtain ⟨p, spec, -, rfl⟩ := addCall_ok done
      exact .inl rfl
    | beginRound i =>
      obtain ⟨call, p, -, -, -, accepts, -⟩ := beginRound_ok done
      exact .inl accepts
    | countAccepts i replies =>
      obtain ⟨call, prop, answers, -, -, -, accepts, -⟩ := countAccepts_ok done
      exact .inl accepts
    | countPromises i replies =>
      obtain ⟨call, p, b, after, decision, called, -, -, counts, -, -, -, -, -, outcome⟩ :=
        countPromises_ok done
      rcases outcome with ⟨-, unchanged⟩ | ⟨prop, added, proposes⟩
      · exact .inl unchanged
      have enough := proposes.enough
      have chosen := proposes.chosen
      rw [promisesOf_answersOf] at enough chosen
      rw [length_map] at enough
      refine .inr ⟨_, call, (pick s.promises replies).filter (·.result.promised), added,
        mem_of_getElem? called, rfl, rfl, fun p member => ?_, ?_, fun voter member => ?_,
        fun p member => ?_, enough, chosen⟩
      · exact mem_of_mem_pick (mem_filter.mp member).1
      · exact counts.nodup.sublist (filter_sublist.map _)
      · obtain ⟨p, granted, rfl⟩ := mem_map.mp member
        exact counts.asked (mem_map_of_mem (mem_filter.mp granted).1)
      · obtain ⟨picked, promised⟩ := mem_filter.mp member
        exact ⟨promised, counts.request p picked⟩

theorem accepts_grow [Sha256] (done : s.step action = some s') : s.accepts ⊆ s'.accepts := by
  rcases accepts_step done with same | ⟨r, call, granted, added, -⟩
  · exact same ▸ List.Subset.refl _
  · exact added ▸ subset_append_left _ _

theorem new_request [Sha256] (done : s.step action = some s') {r : AcceptRequest}
    (sent : r ∈ s'.accepts) : r ∈ s.accepts ∨ ∃ call granted, Proposed s call granted r := by
  rcases accepts_step done with same | ⟨new, call, granted, added, proposed⟩
  · exact .inl (same ▸ sent)
  rw [added] at sent
  rcases mem_append.mp sent with old | isNew
  · exact .inl old
  · rw [mem_singleton.mp isNew]
    exact .inr ⟨call, granted, proposed⟩

/-- The action that starts a call with this decision on a host. -/
inductive Starts (s : Cluster) (host : String) (spec : Spec) : Action → Prop where
  | recovery {process : List UInt8} {key : ClaimKey} {proposal : ClaimValue}
      {startRound : UInt64} {keep : ClaimValue → Bool}
      (built : recoverySpec (s.nodes host) host key proposal startRound keep = .ok spec) :
      Starts s host spec (.proposer (.decideRecovery process key proposal startRound keep))
  | change {process : List UInt8} {ch : ProposedChange} {now : String}
      (built : voterChangeSpec (s.nodes host) ch now s.remoteIncarnation = .ok spec) :
      Starts s host spec (.proposer (.decideVoterChange process ch now))

theorem new_call [Sha256] (done : s.step action = some s') {call : DecideCall}
    (member : call ∈ s'.calls) :
    (∃ old ∈ s.calls, old.decision.spec = call.decision.spec) ∨
      ∃ host, Starts s host call.decision.spec action := by
  -- A call that moves on is the old one with the same decision.
  have moved : ∀ {i : Nat} {old : DecideCall} {decision : Decision}, s.calls[i]? = some old →
      decision.spec = old.decision.spec →
      s'.calls = s.calls.set i { old with decision := decision } →
      ∃ old ∈ s.calls, old.decision.spec = call.decision.spec := by
    intro i old decision called same calls
    rw [calls] at member
    rcases mem_or_eq_of_mem_set member with unchanged | rfl
    · exact ⟨call, unchanged, rfl⟩
    · exact ⟨old, mem_of_getElem? called, same.symm⟩
  cases action with
  | node action =>
    rw [(nodeStep_proposers done).calls] at member
    exact .inl ⟨call, member, rfl⟩
  | proposer action =>
    cases action with
    | boot host nonce =>
      obtain ⟨-, rfl⟩ := boot_ok done
      exact .inl ⟨call, member, rfl⟩
    | decideRecovery | decideVoterChange =>
      obtain ⟨p, spec, built, rfl⟩ := addCall_ok done
      rcases mem_append.mp member with old | new
      · exact .inl ⟨call, old, rfl⟩
      · rw [mem_singleton.mp new]
        refine .inr ⟨p.self, ?_⟩
        constructor
        exact built
    | beginRound i =>
      obtain ⟨old, p, called, -, -, -, -, calls⟩ := beginRound_ok done
      have same : (old.decision.beginRound p).2.2.spec = old.decision.spec := rfl
      exact .inl (moved called same calls)
    | countPromises i replies =>
      obtain ⟨old, p, b, after, decision, called, -, -, -, -, -, calls, same, -⟩ :=
        countPromises_ok done
      exact .inl (moved called same calls)
    | countAccepts i replies =>
      obtain ⟨old, prop, answers, called, -, -, -, calls⟩ := countAccepts_ok done
      exact .inl (moved called (old.decision.afterAccept_spec prop answers).1 calls)

end Cluster

end Litevirt.Claims
