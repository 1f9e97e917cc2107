import Mathlib

/-!
# Ranked voting

Voters vote for values at ranks of a linear order, and close a rank when they will cast no
further vote there.  A value is chosen at a rank when a quorum voted for it, and choosable as
long as no closed voter of some quorum withheld its vote.  A proposal is safe when nothing else
is choosable below it; safe votes make two chosen values equal.
-/

namespace Litevirt.Lib

section Majority

variable {α : Type*}

theorem exists_common_of_length_lt {all first second : List α} (firstNodup : first.Nodup)
    (secondNodup : second.Nodup) (firstWithin : first ⊆ all) (secondWithin : second ⊆ all)
    (crowded : all.length < first.length + second.length) : ∃ voter ∈ first, voter ∈ second := by
  by_contra disjoint
  have nodup : (first ++ second).Nodup := by
    refine List.nodup_append.mpr ⟨firstNodup, secondNodup, ?_⟩
    rintro voter inFirst _ inSecond rfl
    exact disjoint ⟨voter, inFirst, inSecond⟩
  have within : first ++ second ⊆ all := List.append_subset.mpr ⟨firstWithin, secondWithin⟩
  have bound := (List.subperm_of_subset nodup within).length_le
  rw [List.length_append] at bound
  omega

/-- Distinct entries of a list, more than half as many as it has. -/
structure Majority (all picked : List α) : Prop where
  nodup : picked.Nodup
  subset : picked ⊆ all
  many : all.length / 2 + 1 ≤ picked.length

namespace Majority

theorem meets {all first second : List α} (one : Majority all first)
    (other : Majority all second) : ∃ voter ∈ first, voter ∈ second := by
  have enough := one.many
  have enoughToo := other.many
  exact exists_common_of_length_lt one.nodup other.nodup one.subset other.subset (by omega)

theorem exists_mem {all picked : List α} (majority : Majority all picked) :
    ∃ voter, voter ∈ picked := by
  obtain ⟨voter, member, -⟩ := majority.meets majority
  exact ⟨voter, member⟩

end Majority

end Majority

/-- What has been voted, what can still be voted, and which voters decide. -/
structure Voting (V R D : Type*) where
  vote : V → R → D → Prop
  closed : V → R → Prop
  quorum : R → D → List V → Prop

namespace Voting

variable {V R D : Type*}

def Chosen (p : Voting V R D) (r : R) (d : D) : Prop :=
  ∃ Q, p.quorum r d Q ∧ ∀ v ∈ Q, p.vote v r d

def Choosable (p : Voting V R D) (r : R) (d : D) : Prop :=
  ∃ Q, p.quorum r d Q ∧ ∀ v ∈ Q, p.closed v r → p.vote v r d

variable {p : Voting V R D} {r : R} {d : D}

theorem Chosen.choosable (chosen : p.Chosen r d) : p.Choosable r d := by
  obtain ⟨Q, quorum, voted⟩ := chosen
  exact ⟨Q, quorum, fun v member _ => voted v member⟩

/-- `q` is a later state of the vote `p`: quorums stay, closing is final, and a
closed voter votes no more. -/
structure Later (p q : Voting V R D) : Prop where
  quorum : ∀ r d Q, q.quorum r d Q → p.quorum r d Q
  closed : ∀ v r, p.closed v r → q.closed v r
  vote : ∀ v r d, p.closed v r → q.vote v r d → p.vote v r d

theorem Choosable.earlier {q : Voting V R D} (later : Later p q) (choosable : q.Choosable r d) :
    p.Choosable r d := by
  obtain ⟨Q, quorum, open_⟩ := choosable
  refine ⟨Q, later.quorum r d Q quorum, fun v member closed => ?_⟩
  exact later.vote v r d closed (open_ v member (later.closed v r closed))

variable [LinearOrder R]

/-- Nothing but `d` can still be chosen below `r`. -/
def SafeAt (p : Voting V R D) (r : R) (d : D) : Prop :=
  ∀ lower, lower < r → ∀ e, p.Choosable lower e → e = d

theorem SafeAt.later {q : Voting V R D} (later : Later p q) (safe : p.SafeAt r d) :
    q.SafeAt r d := by
  intro lower below e choosable
  exact safe lower below e (choosable.earlier later)

/-- A proposal is safe when every lower quorum has a closed voter, and every vote
of such a voter is for the proposed value or ranks below a safe proposal of it. -/
theorem SafeAt.of_reports
    (reported : ∀ lower, lower < r → ∀ e Q, p.quorum lower e Q →
      ∃ v ∈ Q, p.closed v lower ∧
        (p.vote v lower e → e = d ∨ ∃ origin, lower < origin ∧ p.SafeAt origin d)) :
    p.SafeAt r d := by
  intro lower below e choosable
  obtain ⟨Q, quorum, open_⟩ := choosable
  obtain ⟨v, member, closed, report⟩ := reported lower below e Q quorum
  rcases report (open_ v member closed) with same | ⟨origin, higher, safe⟩
  · exact same
  · exact safe lower higher e ⟨Q, quorum, open_⟩

theorem Chosen.agree {s : R} {e : D} (safe : ∀ v r d, p.vote v r d → p.SafeAt r d)
    (oneValue : ∀ v w r d e, p.vote v r d → p.vote w r e → d = e)
    (nonempty : ∀ r d Q, p.quorum r d Q → ∃ v, v ∈ Q) (first : p.Chosen r d)
    (second : p.Chosen s e) : d = e := by
  have voter : ∀ {r d}, p.Chosen r d → ∃ v, p.vote v r d := by
    rintro r d ⟨Q, quorum, voted⟩
    obtain ⟨v, member⟩ := nonempty r d Q quorum
    exact ⟨v, voted v member⟩
  obtain ⟨v, voted⟩ := voter first
  obtain ⟨w, votedToo⟩ := voter second
  rcases lt_trichotomy r s with below | rfl | above
  · exact safe w s e votedToo r below d first.choosable
  · exact oneValue v w r d e voted votedToo
  · exact (safe v r d voted s above e second.choosable).symm

end Voting

end Litevirt.Lib
