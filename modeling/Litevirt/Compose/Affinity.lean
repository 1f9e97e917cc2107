import Mathlib.Data.List.Dedup
import Mathlib.Data.List.Sort
import Mathlib.Data.Prod.Lex
import Mathlib.Data.String.Basic
import Mathlib.Logic.Relation
import Litevirt.Lib.Table

/-!
# Contradictory affinity rules

Workloads that affinity references connect must run on one host.  The compose file is refused for
each anti-affinity rule between two of them; the groups are kept as a forest of leaders whose
paths are compressed as they are followed.
-/

namespace Litevirt.Compose

open Litevirt.Lib List Function Relation

/-- The placement section of a workload. -/
structure PlacementRules where
  affinity : List String
  antiAffinity : List String

/-- The workloads of a file by name; no name and no target is empty. -/
structure Workloads where
  vms : Table String (Option PlacementRules)
  named : ∀ row ∈ vms.rows, row.1 ≠ "" ∧ ∀ placement ∈ row.2,
    "" ∉ placement.affinity ∧ "" ∉ placement.antiAffinity

/-- The references of every workload; a map of targets holds each once. -/
def references (file : Workloads) (listed : PlacementRules → List String) :
    List (String × String) :=
  file.vms.rows.flatMap fun row =>
    (row.2.elim [] listed).dedup.map (row.1, ·)

/-- The orders in which the loops over the two maps of references meet them. -/
structure Walk (file : Workloads) where
  affinity : List (String × String)
  antiAffinity : List (String × String)
  affinity_perm : affinity.Perm (references file PlacementRules.affinity)
  antiAffinity_perm : antiAffinity.Perm (references file PlacementRules.antiAffinity)

/-- The leader of a workload, or the empty string. -/
abbrev Group := String → String

/-- `find` with path compression; the first argument bounds the recursion. -/
def find : Nat → Group → String → Group × String
  | 0, group, v => (group, v)
  | fuel + 1, group, v =>
    if group v = "" ∨ group v = v then (group, v)
    else
      let found := find fuel group (group v)
      (update found.1 v found.2, found.2)

def union (fuel : Nat) (group : Group) (reference : String × String) : Group :=
  let ga := find fuel group reference.1
  let gb := find fuel ga.1 reference.2
  if ga.2 ≠ gb.2 then update gb.1 ga.2 gb.2 else gb.1

def conflicts (fuel : Nat) : Group → List (String × String) → List (String × String)
  | _, [] => []
  | group, rule :: rest =>
    let own := find fuel group rule.1
    let other := find fuel own.1 rule.2
    if own.2 = other.2 then rule :: conflicts fuel other.1 rest
    else conflicts fuel other.1 rest

def affinityConflicts {file : Workloads} (walk : Walk file) : List (String × String) :=
  let fuel := walk.affinity.length
  (conflicts fuel (walk.affinity.foldl (union fuel) fun _ => "") walk.antiAffinity).insertionSort
    fun a b => toLex a ≤ toLex b

/-- A forest of leaders: the roots have none, and a leader has its follower's root and is nearer
to it. -/
structure Forest (group : Group) (root : String → String) (depth : String → Nat) : Prop where
  own : ∀ v, depth v = 0 → (group v = "" ∨ group v = v) ∧ root v = v
  leader : ∀ v, depth v ≠ 0 → group v ≠ "" ∧ group v ≠ v ∧ root (group v) = root v ∧
    depth (group v) < depth v
  flat : ∀ v, depth (root v) = 0
  named : ∀ v, v ≠ "" → root v ≠ ""

section Forest

variable {group : Group} {root : String → String} {depth : String → Nat} {fuel : Nat}

theorem Forest.root_root (forest : Forest group root depth) (v : String) :
    root (root v) = root v := (forest.own _ (forest.flat v)).2

theorem Forest.compress (forest : Forest group root depth) {v : String} (present : v ≠ "")
    (below : depth v ≠ 0) : Forest (update group v (root v)) root depth := by
  have moved : root v ≠ v := fun own => below (own ▸ forest.flat v)
  refine ⟨fun w top => ?_, fun w under => ?_, forest.flat, forest.named⟩
  · rw [update_of_ne (by rintro rfl; exact below top)]
    exact forest.own w top
  · by_cases here : w = v
    · subst here
      rw [update_self, forest.root_root, forest.flat]
      exact ⟨forest.named _ present, moved, rfl, Nat.pos_of_ne_zero below⟩
    · rw [update_of_ne here]
      exact forest.leader w under

theorem Forest.find (forest : Forest group root depth) {v : String} (present : v ≠ "")
    (enough : depth v ≤ fuel) :
    (find fuel group v).2 = root v ∧ Forest (find fuel group v).1 root depth := by
  induction fuel generalizing v with
  | zero => exact ⟨(forest.own v (Nat.le_zero.mp enough)).2.symm, forest⟩
  | succ fuel ih =>
    unfold Compose.find
    by_cases top : depth v = 0
    · obtain ⟨leaderless, own⟩ := forest.own v top
      rw [if_pos leaderless]
      exact ⟨own.symm, forest⟩
    · obtain ⟨led, away, same, nearer⟩ := forest.leader v top
      obtain ⟨found, kept⟩ := ih led (by omega)
      rw [if_neg (not_or.mpr ⟨led, away⟩)]
      dsimp only
      rw [found, same]
      exact ⟨rfl, kept.compress present top⟩

/-- The first root takes the second one as its leader. -/
theorem Forest.link (forest : Forest group root depth) {a b : String} (namedB : b ≠ "")
    (apart : root a ≠ root b) :
    Forest (update group (root a) (root b)) (fun v => if root v = root a then root b else root v)
      (fun v => if root v = root a then depth v + 1 else depth v) := by
  have rootB := forest.root_root b
  refine ⟨fun w top => ?_, fun w under => ?_, fun w => ?_, fun w present => ?_⟩
  · split_ifs at top with joined
    rw [if_neg joined, update_of_ne (by rintro rfl; exact joined (forest.root_root a))]
    exact forest.own w top
  · by_cases here : w = root a
    · subst here
      simp [forest.root_root, apart.symm, forest.flat, forest.named b namedB]
    · have inner : depth w ≠ 0 := fun top => by
        have own := (forest.own w top).2
        simp [own, here, top] at under
      obtain ⟨led, away, same, nearer⟩ := forest.leader w inner
      rw [update_of_ne here, same]
      refine ⟨led, away, rfl, ?_⟩
      split <;> omega
  · by_cases under : root w = root a
    · simp [under, rootB, apart.symm, forest.flat]
    · simp [under, forest.root_root, forest.flat]
  · split
    · exact forest.named b namedB
    · exact forest.named w present

/-- A union gives the workloads under the first root the second one, at most one step deeper. -/
theorem Forest.union (forest : Forest group root depth) (shallow : ∀ v, depth v ≤ fuel)
    {reference : String × String} (named : reference.1 ≠ "" ∧ reference.2 ≠ "") :
    ∃ deeper : String → Nat, (∀ v, deeper v ≤ depth v + 1) ∧
      Forest (union fuel group reference)
        (fun v => if root v = root reference.1 then root reference.2 else root v) deeper := by
  obtain ⟨isA, first⟩ := forest.find named.1 (shallow reference.1)
  obtain ⟨isB, second⟩ := first.find named.2 (shallow reference.2)
  unfold Compose.union
  dsimp only
  rw [isA, isB]
  split
  · rename_i apart
    refine ⟨_, fun v => ?_, second.link named.2 apart⟩
    split <;> omega
  · rename_i same
    have unchanged : (fun v => if root v = root reference.1 then root reference.2 else root v) =
        root := by
      funext v
      split
      · rw [‹root v = _›, not_not.mp same]
      · rfl
    rw [unchanged]
    exact ⟨depth, fun v => Nat.le_succ _, second⟩

/-- The unions join the references they are given, and only workloads that these connect. -/
theorem Forest.unions {linked : String → String → Prop} {joined : List (String × String)}
    (forest : Forest group root depth) {used : Nat} (shallow : ∀ v, depth v ≤ used)
    (enough : used + joined.length ≤ fuel)
    (named : ∀ reference ∈ joined, reference.1 ≠ "" ∧ reference.2 ≠ "")
    (within : ∀ reference ∈ joined, linked reference.1 reference.2)
    (connected : ∀ v, EqvGen linked v (root v)) :
    ∃ root' depth', Forest (joined.foldl (Compose.union fuel) group) root' depth' ∧
      (∀ v, depth' v ≤ fuel) ∧ (∀ v, EqvGen linked v (root' v)) ∧
      (∀ u v, root u = root v → root' u = root' v) ∧
      ∀ reference ∈ joined, root' reference.1 = root' reference.2 := by
  induction joined generalizing group root depth used with
  | nil =>
    exact ⟨root, depth, forest, fun v => (shallow v).trans enough, connected, fun _ _ => id, nofun⟩
  | cons reference rest ih =>
    rw [length_cons] at enough
    obtain ⟨namedHere, namedRest⟩ := forall_mem_cons.mp named
    obtain ⟨linkedHere, linkedRest⟩ := forall_mem_cons.mp within
    have reached (v : String) : depth v ≤ fuel := (shallow v).trans (by omega)
    obtain ⟨deeper, bound, next⟩ := forest.union reached namedHere
    obtain ⟨root', depth', last, shallow', connected', keeps, joins⟩ := ih next
      (fun v => (bound v).trans (Nat.succ_le_succ (shallow v))) (by omega) namedRest linkedRest
      fun v => by
        split
        · rename_i under
          exact (under ▸ connected v).trans _ _ _
            (((connected _).symm.trans _ _ _ (.rel _ _ linkedHere)).trans _ _ _ (connected _))
        · exact connected v
    refine ⟨root', depth', last, shallow', connected', fun u v same => keeps u v (by rw [same]),
      forall_mem_cons.mpr ⟨keeps _ _ ?_, joins⟩⟩
    simp

theorem Forest.conflicts (forest : Forest group root depth) (shallow : ∀ v, depth v ≤ fuel)
    {rules : List (String × String)} (named : ∀ rule ∈ rules, rule.1 ≠ "" ∧ rule.2 ≠ "") :
    conflicts fuel group rules = rules.filter fun rule => root rule.1 = root rule.2 := by
  induction rules generalizing group with
  | nil => rfl
  | cons rule rest ih =>
    obtain ⟨here, later⟩ := forall_mem_cons.mp named
    obtain ⟨own, first⟩ := forest.find here.1 (shallow rule.1)
    obtain ⟨other, second⟩ := first.find here.2 (shallow rule.2)
    unfold Compose.conflicts
    dsimp only
    rw [own, other, filter_cons, ih second later]
    simp

end Forest

section References

variable {file : Workloads} {listed : PlacementRules → List String} {v t : String}

/-- The workload `v` names `t` in this list of its placement. -/
def Lists (file : Workloads) (listed : PlacementRules → List String) (v t : String) : Prop :=
  ∃ placement, file.vms.find v = some (some placement) ∧ t ∈ listed placement

theorem mem_references : (v, t) ∈ references file listed ↔ Lists file listed v t := by
  simp only [references, mem_flatMap, mem_map, mem_dedup, Prod.mk.injEq, Lists,
    ← Table.mem_rows_iff]
  constructor
  · rintro ⟨⟨name, _ | placement⟩, member, target, among, rfl, rfl⟩
    · cases among
    · exact ⟨placement, member, among⟩
  · rintro ⟨placement, member, among⟩
    exact ⟨_, member, t, among, rfl, rfl⟩

theorem nodup_references : (references file listed).Nodup := by
  refine nodup_flatMap.mpr ⟨fun row _ => ?_, ?_⟩
  · exact (nodup_dedup _).map fun _ _ same => (Prod.mk.inj same).2
  · refine (pairwise_map.mp file.vms.nodup).imp fun {first second} apart => ?_
    rintro pair inFirst inSecond
    obtain ⟨_, -, rfl⟩ := mem_map.mp inFirst
    obtain ⟨_, -, same⟩ := mem_map.mp inSecond
    exact apart (Prod.mk.inj same).1.symm

theorem named_of_mem (field : listed = PlacementRules.affinity ∨
    listed = PlacementRules.antiAffinity) :
    ∀ reference ∈ references file listed, reference.1 ≠ "" ∧ reference.2 ≠ "" := by
  rintro ⟨v, t⟩ member
  obtain ⟨placement, found, among⟩ := mem_references.mp member
  obtain ⟨name, targets⟩ := file.named _ (Table.mem_rows_iff.mpr found)
  obtain ⟨affine, antiAffine⟩ := targets placement rfl
  refine ⟨name, ?_⟩
  rintro rfl
  rcases field with rfl | rfl
  · exact affine among
  · exact antiAffine among

/-- A pair is reported exactly when its first workload lists the second as anti-affine and
affinity references connect the two, whatever the orders of the loops; the pairs are sorted and
none is repeated. -/
theorem affinityConflicts_exact (walk : Walk file) :
    (affinityConflicts walk).Pairwise (fun a b => toLex a < toLex b) ∧
      ∀ v t, (v, t) ∈ affinityConflicts walk ↔
        Lists file PlacementRules.antiAffinity v t ∧
          EqvGen (Lists file PlacementRules.affinity) v t := by
  have start : Forest (fun _ => "") id fun _ => 0 :=
    ⟨fun _ _ => ⟨.inl rfl, rfl⟩, fun _ under => absurd rfl under, fun _ => rfl, fun _ => id⟩
  obtain ⟨root, depth, forest, shallow, connected, -, joins⟩ := start.unions (fun _ => le_rfl)
    (Nat.zero_add walk.affinity.length).le
    (fun reference among => named_of_mem (.inl rfl) _ (walk.affinity_perm.mem_iff.mp among))
    (fun reference among => mem_references.mp (walk.affinity_perm.mem_iff.mp among)) .refl
  have roots (v t : String) :
      root v = root t ↔ EqvGen (Lists file PlacementRules.affinity) v t := by
    constructor
    · intro same
      exact (connected v).trans _ _ _ (same ▸ (connected t).symm)
    · intro chain
      induction chain with
      | rel v t lists =>
        exact joins (v, t) (walk.affinity_perm.mem_iff.mpr (mem_references.mpr lists))
      | refl v => rfl
      | symm v t _ ih => exact ih.symm
      | trans v t w _ _ ih later => exact ih.trans later
  have found := forest.conflicts shallow fun rule among =>
    named_of_mem (.inr rfl) rule (walk.antiAffinity_perm.mem_iff.mp among)
  unfold affinityConflicts
  dsimp only
  rw [found]
  refine ⟨?_, fun v t => ?_⟩
  · have nodup := (walk.antiAffinity_perm.nodup_iff.mpr nodup_references).filter
      fun rule => root rule.1 = root rule.2
    refine ((pairwise_insertionSort _ _).and
      ((perm_insertionSort _ _).nodup_iff.mpr nodup)).imp fun {a b} both => ?_
    exact lt_of_le_of_ne both.1 (toLex.injective.ne both.2)
  · rw [mem_insertionSort, mem_filter, walk.antiAffinity_perm.mem_iff, mem_references,
      decide_eq_true_eq, roots]

end References

end Litevirt.Compose
