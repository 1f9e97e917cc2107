import Litevirt.Claims.VoterConfig
import Litevirt.Lib.Voting

/-!
# Consecutive electorates

An ordinary change of the voter set adds one member or removes one and keeps every other entry,
so no majority of the one generation avoids a majority of the other.  `ValidateVoterChange`
checks the entries of the new generation only: the old one was checked when it was decided.
-/

namespace Litevirt.Claims

open VoterConfig Litevirt.Lib List

variable {members : List VoterMember}

theorem names_of_invalidEntry {seen : List String} (valid : invalidEntry seen members = none) :
    (members.map (·.name)).Nodup ∧ ∀ m ∈ members, m.name ∉ seen := by
  induction members generalizing seen with
  | nil => exact ⟨nodup_nil, by simp⟩
  | cons m rest ih =>
    rw [invalidEntry] at valid
    split at valid
    · cases valid
    split at valid
    · cases valid
    rename_i fresh
    obtain ⟨nodup, unseen⟩ := ih valid
    refine ⟨?_, ?_⟩
    · rw [map_cons, nodup_cons]
      refine ⟨fun again => ?_, nodup⟩
      obtain ⟨other, member, same⟩ := mem_map.mp again
      exact unseen other member (by simp [same])
    · intro other member
      rcases mem_cons.mp member with rfl | later
      · exact fresh
      · exact fun known => unseen other later (mem_cons_of_mem _ known)

theorem electorateEntry_mem {name incarnation : String}
    (entry : electorateEntry members name = some incarnation) : ⟨name, incarnation⟩ ∈ members := by
  obtain ⟨m, found, rfl⟩ := Option.map_eq_some_iff.mp entry
  have named : m.name = name := by simpa using find?_some found
  rw [← named]
  exact mem_reverse.mp (mem_of_find?_eq_some found)

theorem electorateEntry_isNone {name : String} :
    electorateEntry members name = none ↔ name ∉ members.map (·.name) := by
  simp [electorateEntry]

theorem electorateEntry_iff (distinct : (members.map (·.name)).Nodup) {name incarnation : String} :
    electorateEntry members name = some incarnation ↔ ⟨name, incarnation⟩ ∈ members := by
  refine ⟨electorateEntry_mem, fun member => ?_⟩
  cases entry : electorateEntry members name with
  | none => exact absurd (mem_map_of_mem member) (electorateEntry_isNone.mp entry)
  | some other =>
    cases inj_on_of_nodup_map distinct (electorateEntry_mem entry) member rfl
    rfl

/-- A generation gives each name one incarnation. -/
def NamesOnce (members : List VoterMember) : Prop :=
  ∀ m ∈ members, ∀ other ∈ members, m.name = other.name → m = other

theorem namesOnce_of_nodup (nodup : (members.map (·.name)).Nodup) : NamesOnce members :=
  fun _ member _ otherMember same => inj_on_of_nodup_map nodup member otherMember same

theorem names_of_validateVoterChange {prev : Option VoterConfig} {next : VoterConfigValue}
    (accepted : validateVoterChange prev next = none) : (next.members.map (·.name)).Nodup := by
  unfold validateVoterChange at accepted
  simp only at accepted
  split at accepted
  · cases accepted
  split at accepted
  · cases accepted
  rename_i valid
  exact (names_of_invalidEntry valid).1

/-- An ordinary change: neither the genesis after an empty generation nor a reset. -/
structure OrdinaryChange (prev next : VoterConfig) : Prop where
  prevExplicit : explicit (some prev)
  nextExplicit : explicit (some next)
  notReset : next.change ≠ .reset
  accepted : validateVoterChange (some prev) next.toVoterConfigValue = none

namespace OrdinaryChange

variable {prev next : VoterConfig}

variable (change : OrdinaryChange prev next)
include change

theorem names_nodup : (next.members.map (·.name)).Nodup :=
  names_of_validateVoterChange change.accepted

theorem difference :
    changedIncarnation prev.members next.members = none ∧
      ((∃ host, addedNames prev.members next.members = [host] ∧
          removedNames prev.members next.members = []) ∨
        ∃ host, addedNames prev.members next.members = [] ∧
          removedNames prev.members next.members = [host]) := by
  have accepted := change.accepted
  unfold validateVoterChange at accepted
  simp only [change.prevExplicit, change.notReset, membersOf, Bool.not_true, Bool.false_eq_true,
    if_false] at accepted
  split at accepted
  · cases accepted
  split at accepted
  · cases accepted
  split at accepted
  · cases accepted
  rename_i unchanged
  refine ⟨unchanged, ?_⟩
  split at accepted
  · exact .inl ⟨_, ‹_›, ‹_›⟩
  · exact .inr ⟨_, ‹_›, ‹_›⟩
  · cases accepted

theorem mem_prev {m : VoterMember} (member : m ∈ next.members)
    (listed : m.name ∈ prev.members.map (·.name)) : m ∈ prev.members := by
  have unchanged := find?_eq_none.mp change.difference.1 m member
  cases entry : electorateEntry prev.members m.name with
  | none => exact absurd listed (electorateEntry_isNone.mp entry)
  | some incarnation =>
    have same : incarnation = m.incarnation := by simpa [entry] using unchanged
    rw [same] at entry
    exact electorateEntry_mem entry

theorem mem_next (once : NamesOnce prev.members)
    {m : VoterMember} (member : m ∈ prev.members) (listed : m.name ∈ next.members.map (·.name)) :
    m ∈ next.members := by
  obtain ⟨kept, keptMember, same⟩ := mem_map.mp listed
  have there := change.mem_prev keptMember (same ▸ mem_map_of_mem member)
  rw [← once kept there m member same]
  exact keptMember

theorem grown (once : NamesOnce prev.members)
    {host : String} (added : addedNames prev.members next.members = [host])
    (removed : removedNames prev.members next.members = []) :
    prev.members ⊆ next.members ∧ next.members.length ≤ prev.members.length + 1 := by
  refine ⟨fun m member => ?_, ?_⟩
  · refine change.mem_next once member ?_
    by_contra gone
    have here : m.name ∈ removedNames prev.members next.members :=
      mem_filter.mpr ⟨mem_dedup.mpr (mem_map_of_mem member), by simpa using gone⟩
    rw [removed] at here
    exact not_mem_nil here
  have one : (next.members.filter fun m =>
      (electorateEntry prev.members m.name).isNone).length = 1 := by
    rw [← length_map (f := (·.name)), ← addedNames, added, length_singleton]
  have kept : (next.members.filter fun m =>
      !(electorateEntry prev.members m.name).isNone) ⊆ prev.members := by
    intro m member
    obtain ⟨inNext, known⟩ := mem_filter.mp member
    refine change.mem_prev inNext ?_
    by_contra unlisted
    rw [electorateEntry_isNone.mpr unlisted] at known
    cases known
  have fewer := (subperm_of_subset
    ((List.Nodup.of_map _ change.names_nodup).filter _) kept).length_le
  have split := length_eq_length_filter_add (l := next.members)
    fun m => (electorateEntry prev.members m.name).isNone
  omega

theorem shrunk (once : NamesOnce prev.members)
    {host : String} (added : addedNames prev.members next.members = [])
    (removed : removedNames prev.members next.members = [host]) :
    next.members.length + 1 ≤ prev.members.length ∧
      ∃ gone, prev.members ⊆ gone :: next.members := by
  have kept : next.members ⊆ prev.members := by
    intro m member
    refine change.mem_prev member ?_
    by_contra unlisted
    have here : m.name ∈ addedNames prev.members next.members :=
      mem_map_of_mem
        (mem_filter.mpr ⟨member, by simp [electorateEntry_isNone.mpr unlisted]⟩)
    rw [added] at here
    exact not_mem_nil here
  have single : host ∈ removedNames prev.members next.members := by simp [removed]
  obtain ⟨wasListed, unlisted⟩ := mem_filter.mp single
  obtain ⟨gone, goneMember, named⟩ := mem_map.mp (mem_dedup.mp wasListed)
  have missing : gone ∉ next.members := by
    intro still
    have absent : ∀ m ∈ next.members, m.name ≠ host := by simpa using unlisted
    exact absent gone still named
  refine ⟨?_, gone, fun m member => ?_⟩
  · have nodup : (gone :: next.members).Nodup :=
      nodup_cons.mpr ⟨missing, List.Nodup.of_map _ change.names_nodup⟩
    exact (subperm_of_subset nodup (cons_subset.mpr ⟨goneMember, kept⟩)).length_le
  by_cases listed : m.name ∈ next.members.map (·.name)
  · exact mem_cons_of_mem _ (change.mem_next once member listed)
  have here : m.name ∈ removedNames prev.members next.members :=
    mem_filter.mpr
      ⟨mem_dedup.mpr (mem_map_of_mem member), by simpa using listed⟩
  rw [removed, mem_singleton] at here
  rw [once m member gone goneMember (here.trans named.symm)]
  exact mem_cons_self

end OrdinaryChange

end Litevirt.Claims
