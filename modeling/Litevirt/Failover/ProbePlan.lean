import Litevirt.Failover.Cycle

/-!
# Who probes whom

Voters probe every peer and every host probes the voters.  The probes among non-voters, which no
quorum counts, are sampled: each non-voter probes its successors on a ring of their names, which
every observer computes for itself.
-/

namespace Litevirt.Failover

open List

def nonVoterProbeSample : Nat := 3

structure HostRecord where
  name : String
  state : HostState
  deriving DecidableEq, Repr

/-- `sort.SearchStrings` on a sorted list: the first place whose name is not below. -/
def searchStrings (sorted : List String) (name : String) : Nat := sorted.findIdx (name ≤ ·)

/-- The ring as the observer `self` computes it. -/
def ringOf (self : String) (candidates voters : List String) : List String :=
  (self :: candidates.filter (· ∉ voters)).insertionSort (· ≤ ·)

/-- The Go maps of names to true are the lists of their keys. -/
def probePlan (self : String) (candidates voters : List String) (sample : Nat) : List String :=
  if voters = [] ∨ self ∈ voters then candidates
  else
    let ring := ringOf self candidates voters
    let place := searchStrings ring self
    candidates.filter (· ∈ voters) ++
      (range (min sample (ring.length - 1))).map fun i =>
        ring.getD ((place + (i + 1)) % ring.length) ""

def planCandidates (observer : String) (hosts : List HostRecord) : List String :=
  (hosts.filter fun h => h.name ≠ observer ∧ h.state ≠ .maintenance ∧ h.state ≠ .joining).map
    HostRecord.name

def observerPlan (observer : String) (hosts : List HostRecord) (voters : List String) :
    List String :=
  probePlan observer (planCandidates observer hosts) voters nonVoterProbeSample

/-- Hosts that are all probed, and a voter set. -/
structure Fleet where
  hosts : List HostRecord
  voters : List String
  distinct : (hosts.map HostRecord.name).Nodup
  probed : ∀ h ∈ hosts, h.state ≠ .maintenance ∧ h.state ≠ .joining
  someVoter : voters ≠ []

namespace Fleet

variable (fleet : Fleet)

def plan (observer : String) : List String := observerPlan observer fleet.hosts fleet.voters

/-- The names of the non-voters, sorted. -/
def ring : List String :=
  ((fleet.hosts.map HostRecord.name).filter (· ∉ fleet.voters)).insertionSort (· ≤ ·)

variable {fleet} {observer name : String}

theorem mem_planCandidates : name ∈ planCandidates observer fleet.hosts ↔
    name ∈ fleet.hosts.map HostRecord.name ∧ name ≠ observer := by
  simp only [planCandidates, mem_map, mem_filter, decide_eq_true_eq]
  constructor
  · rintro ⟨h, ⟨listed, other, -⟩, rfl⟩
    exact ⟨⟨h, listed, rfl⟩, other⟩
  · rintro ⟨⟨h, listed, rfl⟩, other⟩
    exact ⟨h, ⟨listed, other, fleet.probed h listed⟩, rfl⟩

theorem nodup_ring : fleet.ring.Nodup :=
  (perm_insertionSort _ _).nodup_iff.mpr (fleet.distinct.filter _)

theorem mem_ring : name ∈ fleet.ring ↔
    name ∈ fleet.hosts.map HostRecord.name ∧ name ∉ fleet.voters := by
  simp [ring, mem_insertionSort]

/-- Every non-voter computes the same ring. -/
theorem ringOf_eq (onRing : observer ∈ fleet.ring) :
    ringOf observer (planCandidates observer fleet.hosts) fleet.voters = fleet.ring := by
  obtain ⟨known, nonVoter⟩ := mem_ring.mp onRing
  have nodup : (planCandidates observer fleet.hosts).Nodup :=
    fleet.distinct.sublist (filter_sublist.map _)
  have fresh : observer ∉ (planCandidates observer fleet.hosts).filter (· ∉ fleet.voters) :=
    fun listed => (mem_planCandidates.mp (mem_filter.mp listed).1).2 rfl
  have same : (observer :: (planCandidates observer fleet.hosts).filter (· ∉ fleet.voters)).Perm
      ((fleet.hosts.map HostRecord.name).filter (· ∉ fleet.voters)) := by
    refine (perm_ext_iff_of_nodup (nodup_cons.mpr ⟨fresh, nodup.filter _⟩)
      (fleet.distinct.filter _)).mpr fun name => ?_
    simp only [mem_cons, mem_filter, mem_planCandidates, decide_eq_true_eq]
    by_cases own : name = observer
    · simp [own, nonVoter, mem_map.mp known]
    · simp [own]
  refine Perm.eq_of_pairwise' (pairwise_insertionSort _ _) (pairwise_insertionSort _ _) ?_
  exact (perm_insertionSort _ _).trans (same.trans (perm_insertionSort _ _).symm)

theorem searchStrings_ring {place : Nat} (inside : place < fleet.ring.length) :
    searchStrings fleet.ring fleet.ring[place] = place := by
  have sorted : fleet.ring.Pairwise (· ≤ ·) := pairwise_insertionSort _ _
  rw [searchStrings, findIdx_eq inside]
  refine ⟨decide_eq_true le_rfl, fun earlier before => decide_eq_false fun above => ?_⟩
  have below := pairwise_iff_getElem.mp sorted earlier place (before.trans inside) inside before
  exact before.ne ((nodup_ring.getElem_inj_iff).mp (le_antisymm below above))

/-- On the ring a host is probed from the places before its own. -/
theorem mem_plan_iff {place target : Nat} (inside : place < fleet.ring.length)
    (targetInside : target < fleet.ring.length) :
    fleet.ring[target] ∈ fleet.plan fleet.ring[place] ↔
      ∃ i < min nonVoterProbeSample (fleet.ring.length - 1),
        (place + (i + 1)) % fleet.ring.length = target := by
  have observes := getElem_mem inside
  have nonVoter := (mem_ring.mp (getElem_mem targetInside)).2
  rw [plan, observerPlan, probePlan, ringOf_eq observes,
    if_neg (not_or.mpr ⟨fleet.someVoter, (mem_ring.mp observes).2⟩)]
  simp only [searchStrings_ring inside, mem_append, mem_filter, nonVoter, decide_false,
    Bool.false_eq_true, and_false, false_or, mem_map, mem_range]
  refine exists_congr fun i => and_congr_right fun _ => ?_
  have within : (place + (i + 1)) % fleet.ring.length < fleet.ring.length :=
    Nat.mod_lt _ (Nat.zero_lt_of_lt inside)
  rw [getD_eq_getElem _ _ within, nodup_ring.getElem_inj_iff]

theorem mod_of_lt_two_mul {a n : Nat} (small : a < 2 * n) :
    a % n = if a < n then a else a - n := by
  split
  · exact Nat.mod_eq_of_lt ‹_›
  · rw [Nat.mod_eq_sub_mod (by omega), Nat.mod_eq_of_lt (by omega)]

theorem length_filter_nonVoters (fleet : Fleet) (p : String → Bool) :
    (fleet.hosts.filter fun h => h.name ∉ fleet.voters ∧ p h.name).length =
      (fleet.ring.filter p).length := by
  rw [ring, ((perm_insertionSort _ _).filter p).length_eq, filter_filter, filter_map, length_map]
  congr 2
  funext h
  simp [Bool.and_comm]

/-- As many non-voters probe a non-voter as it probes itself. -/
theorem length_observers {target : Nat} (inside : target < fleet.ring.length) :
    (fleet.ring.filter fun name => fleet.ring[target] ∈ fleet.plan name).length =
      min nonVoterProbeSample (fleet.ring.length - 1) := by
  have behind (i : Nat) : (target + (fleet.ring.length - (i + 1))) % fleet.ring.length <
      fleet.ring.length := Nat.mod_lt _ (Nat.zero_lt_of_lt inside)
  let observerAt (i : Nat) : String :=
    fleet.ring.getD ((target + (fleet.ring.length - (i + 1))) % fleet.ring.length) ""
  have same : (fleet.ring.filter fun name => fleet.ring[target] ∈ fleet.plan name).Perm
      ((range (min nonVoterProbeSample (fleet.ring.length - 1))).map observerAt) := by
    refine (perm_ext_iff_of_nodup (nodup_ring.filter _) ?_).mpr fun name => ?_
    · refine nodup_range.map_on fun i small j smallJ equal => ?_
      simp only [mem_range, observerAt] at small smallJ equal
      rw [getD_eq_getElem _ _ (behind i), getD_eq_getElem _ _ (behind j),
        nodup_ring.getElem_inj_iff, mod_of_lt_two_mul (by omega), mod_of_lt_two_mul (by omega)]
        at equal
      split_ifs at equal <;> omega
    simp only [mem_filter, mem_map, mem_range, decide_eq_true_eq, observerAt]
    constructor
    · rintro ⟨onRing, planned⟩
      obtain ⟨place, within, rfl⟩ := getElem_of_mem onRing
      obtain ⟨i, small, reaches⟩ := (mem_plan_iff within inside).mp planned
      refine ⟨i, small, ?_⟩
      rw [getD_eq_getElem _ _ (behind i)]
      congr 1
      rw [mod_of_lt_two_mul (by omega)] at reaches ⊢
      split_ifs at reaches ⊢ <;> omega
    · rintro ⟨i, small, rfl⟩
      rw [getD_eq_getElem _ _ (behind i)]
      refine ⟨getElem_mem _, (mem_plan_iff (behind i) inside).mpr ⟨i, small, ?_⟩⟩
      rw [mod_of_lt_two_mul (a := target + _) (by omega), mod_of_lt_two_mul (by split <;> omega)]
      split_ifs <;> omega
  rw [same.length_eq, length_map, length_range]

variable (fleet)

/-- Taken together, the plans of a fleet keep every probe that a quorum counts, and each
non-voter is probed by the same number of other non-voters. -/
theorem plans_keep_quorum_edges :
    (∀ voter ∈ fleet.hosts, voter.name ∈ fleet.voters → ∀ h ∈ fleet.hosts, h.name ≠ voter.name →
        h.name ∈ observerPlan voter.name fleet.hosts fleet.voters) ∧
      (∀ h ∈ fleet.hosts, ∀ voter ∈ fleet.hosts, voter.name ∈ fleet.voters →
        voter.name ≠ h.name → voter.name ∈ observerPlan h.name fleet.hosts fleet.voters) ∧
      ∀ target ∈ fleet.hosts, target.name ∉ fleet.voters →
        (fleet.hosts.filter fun h => h.name ∉ fleet.voters ∧
            target.name ∈ observerPlan h.name fleet.hosts fleet.voters).length =
          min 3 (fleet.hosts.filter fun h =>
            h.name ∉ fleet.voters ∧ h.name ≠ target.name).length := by
  refine ⟨fun voter _ votes h listed other => ?_, fun h _ voter listed votes other => ?_,
    fun target listed nonVoter => ?_⟩
  · rw [observerPlan, probePlan, if_pos (.inr votes)]
    exact mem_planCandidates.mpr ⟨mem_map_of_mem listed, other⟩
  · have candidate := mem_planCandidates.mpr ⟨mem_map_of_mem (f := HostRecord.name) listed, other⟩
    rw [observerPlan, probePlan]
    split
    · exact candidate
    · exact mem_append_left _ (mem_filter.mpr ⟨candidate, decide_eq_true votes⟩)
  · have onRing := mem_ring.mpr ⟨mem_map_of_mem listed, nonVoter⟩
    obtain ⟨place, inside, isTarget⟩ := getElem_of_mem onRing
    have probes := length_filter_nonVoters fleet fun name =>
      target.name ∈ observerPlan name fleet.hosts fleet.voters
    have others := length_filter_nonVoters fleet (· != target.name)
    simp only [decide_eq_true_eq, bne_iff_ne] at probes others
    rw [probes, others, ← nodup_ring.erase_eq_filter, length_erase_of_mem onRing, ← isTarget]
    exact length_observers inside

/-- Six hosts, one of them a voter. -/
def ofSix : Fleet where
  hosts := ["f", "b", "e", "c", "a", "d"].map (⟨·, .active⟩)
  voters := ["c"]
  distinct := by decide
  probed := by decide
  someVoter := by decide

/-- The ring of the five non-voters wraps: three of the other four probe `a`. -/
theorem plans_of_six_keep_edges :
    observerPlan "e" ofSix.hosts ofSix.voters = ["c", "f", "a", "b"] ∧
      "a" ∉ observerPlan "b" ofSix.hosts ofSix.voters ∧
      (ofSix.hosts.filter fun h => h.name ∉ ofSix.voters ∧
        "a" ∈ observerPlan h.name ofSix.hosts ofSix.voters).length = 3 :=
  ⟨by decide +kernel, by decide +kernel,
    (ofSix.plans_keep_quorum_edges.2.2 ⟨"a", .active⟩ (by decide) (by decide)).trans
      (by decide +kernel)⟩

end Fleet

end Litevirt.Failover
