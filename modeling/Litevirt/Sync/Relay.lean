import Mathlib

/-!
# The relay topology

Every node computes the relays and the leaves' two relays from the member list alone.  Nodes
that see the same members agree, and every node reaches every other along the targets, also
when one is gone.
-/

namespace Litevirt.Sync

open List

structure RelayConfig where
  baseRelays : Int
  nodesPerRelay : Int

def RelayConfig.withDefaults (c : RelayConfig) : RelayConfig where
  baseRelays := if c.baseRelays ≤ 0 then 3 else c.baseRelays
  nodesPerRelay := if c.nodesPerRelay ≤ 0 then 50 else c.nodesPerRelay

/-- `R`, in 64-bit arithmetic. -/
def RelayConfig.count (cfg : RelayConfig) (n : Int) : Int :=
  let r := Int.bmod (cfg.baseRelays +
    (Int.bmod (n + cfg.nodesPerRelay - 1) (2 ^ 64)).tdiv cfg.nodesPerRelay) (2 ^ 64)
  if r > n then n else r

/-- The relays and the other nodes, both sorted; the maps of the source are read off them. -/
structure RelaySet where
  relays : List String
  leaves : List String

def memberNames (members : List String) (selfName : String) : List String :=
  (insert selfName members.toFinset).sort

/-- `eligible` is the lookup in `relayEligible`: with no name in it the order stays.  `none` is
a panic, at the slice for a negative count and at the first leaf's modulo for zero. -/
def computeRelays (members : List String) (selfName : String) (cfg : RelayConfig)
    (eligible : String → Bool) : Option RelaySet :=
  let names := memberNames members selfName
  let count := cfg.withDefaults.count names.length
  if count ≤ 0 then none
  else
    let relays :=
      ((names.filter eligible ++ names.filter (!eligible ·)).take count.toNat).mergeSort
    some ⟨relays, names.filter (· ∉ relays)⟩

namespace RelaySet

variable (rs : RelaySet) (alive : String → Prop)

def assignedRelays (leaf : String) : String × String :=
  if leaf ∈ rs.leaves then
    let i := rs.leaves.idxOf leaf
    (rs.relays.getD (i % rs.relays.length) "", rs.relays.getD ((i + 1) % rs.relays.length) "")
  else ("", "")

abbrev Assigned (leaf relay : String) : Prop :=
  (rs.assignedRelays leaf).1 = relay ∨ (rs.assignedRelays leaf).2 = relay

def assignedLeaves (relay : String) : List String :=
  rs.leaves.filter (rs.Assigned · relay)

def dedup (ss : List String) : List String :=
  (ss.filter (· ≠ "")).eraseDups

def targetsFor (hostname : String) (fallback : Bool) (extraLeaves : List String) : List String :=
  if hostname ∈ rs.relays then
    dedup (rs.assignedLeaves hostname ++ rs.relays.filter (· ≠ hostname))
  else
    dedup ([(rs.assignedRelays hostname).1, (rs.assignedRelays hostname).2] ++
      if fallback then extraLeaves else [])

/-- Following targets without fallback through nodes that are up. -/
def Reaches : String → String → Prop :=
  Relation.ReflTransGen fun a b => alive b ∧ b ∈ rs.targetsFor a false []

/-- What connectivity rests on: the roles share out the names, none of which is empty, and some
node is a relay. -/
structure Sound (names : List String) : Prop where
  nodup : rs.relays.Nodup
  apart : ∀ leaf ∈ rs.leaves, leaf ∉ rs.relays
  known : ∀ name, name ∈ rs.relays ∨ name ∈ rs.leaves ↔ name ∈ names
  relay : rs.relays ≠ []

variable {rs alive} {names : List String} {a b leaf : String}

@[simp] theorem mem_dedup {ss : List String} {name : String} :
    name ∈ dedup ss ↔ name ∈ ss ∧ name ≠ "" := by
  simp [dedup]

/-- A leaf's relays are two different ones if there are two. -/
theorem Sound.assigned (sound : rs.Sound names) (isLeaf : leaf ∈ rs.leaves) :
    (rs.assignedRelays leaf).1 ∈ rs.relays ∧ (rs.assignedRelays leaf).2 ∈ rs.relays ∧
      (2 ≤ rs.relays.length → (rs.assignedRelays leaf).1 ≠ (rs.assignedRelays leaf).2) := by
  have below (i : Nat) : i % rs.relays.length < rs.relays.length :=
    Nat.mod_lt _ (length_pos_iff.mpr sound.relay)
  simp only [assignedRelays, if_pos isLeaf, getD_eq_getElem _ _ (below _), ne_eq,
    sound.nodup.getElem_inj_iff, getElem_mem, true_and]
  intro two same
  have wrap : Nat.ModEq _ 0 1 := Nat.ModEq.add_left_cancel' _ same
  rw [Nat.ModEq, Nat.mod_eq_of_lt two] at wrap
  cases wrap

section Connected

variable (sound : rs.Sound names) (named : "" ∉ names)
  (single : ∀ x y, ¬alive x → ¬alive y → x = y)
  (spare : 2 ≤ rs.relays.length ∨ ∀ name, alive name)

include sound named single spare

/-- Every node that is up has a relay that is up with paths both ways. -/
theorem Sound.hub (known : a ∈ names) (up : alive a) :
    ∃ relay ∈ rs.relays, alive relay ∧ rs.Reaches alive a relay ∧ rs.Reaches alive relay a := by
  rcases (sound.known a).mpr known with isRelay | isLeaf
  · exact ⟨a, isRelay, up, .refl, .refl⟩
  obtain ⟨first, second, differ⟩ := sound.assigned isLeaf
  obtain ⟨relay, isRelay, relayUp, own⟩ :
      ∃ relay ∈ rs.relays, alive relay ∧ rs.Assigned a relay := by
    by_cases firstUp : alive (rs.assignedRelays a).1
    · exact ⟨_, first, firstUp, .inl rfl⟩
    have two := spare.resolve_right fun all => firstUp (all _)
    exact ⟨_, second, by_contra fun down => differ two (single _ _ firstUp down), .inr rfl⟩
  have relayNamed : relay ≠ "" := by
    rintro rfl
    exact named ((sound.known "").mp (.inl isRelay))
  -- a leaf and a relay it is assigned are targets of each other
  have edges : a ∈ rs.targetsFor relay false [] ∧ relay ∈ rs.targetsFor a false [] := by
    simp only [targetsFor, if_pos isRelay, if_neg (sound.apart a isLeaf), mem_dedup,
      assignedLeaves, mem_append, mem_filter, decide_eq_true own]
    refine ⟨⟨.inl ⟨isLeaf, trivial⟩, fun empty => named (empty ▸ known)⟩, .inl ?_, relayNamed⟩
    rcases own with rfl | rfl <;> simp
  exact ⟨relay, isRelay, relayUp, .single ⟨relayUp, edges.2⟩, .single ⟨up, edges.1⟩⟩

theorem Sound.reaches (knownA : a ∈ names) (upA : alive a) (knownB : b ∈ names) (upB : alive b) :
    rs.Reaches alive a b := by
  obtain ⟨r, isRelay, _, toR, _⟩ := sound.hub named single spare knownA upA
  obtain ⟨t, isRelay', up, _, fromT⟩ := sound.hub named single spare knownB upB
  by_cases same : r = t
  · exact toR.trans (same ▸ fromT)
  · refine (toR.tail ⟨up, ?_⟩).trans fromT
    have tNamed : t ≠ "" := by
      rintro rfl
      exact named ((sound.known "").mp (.inl isRelay'))
    simpa [targetsFor, isRelay, isRelay', tNamed] using .inr (Ne.symm same)

end Connected

/-- Nothing is sent to the empty name. -/
theorem not_reaches_empty (differ : a ≠ "") : ¬rs.Reaches alive a "" := by
  intro reached
  rcases reached.cases_tail with same | ⟨middle, -, -, target⟩
  · exact differ same.symm
  · unfold targetsFor at target
    split at target
    · exact (mem_dedup.mp target).2 rfl
    · exact (mem_dedup.mp target).2 rfl

/-- A leaf whose only relay is gone reaches nobody. -/
theorem Sound.stranded (sound : rs.Sound names) {relay : String} (only : rs.relays = [relay])
    (isLeaf : a ∈ rs.leaves) (differ : a ≠ b) : ¬rs.Reaches (· ≠ relay) a b := by
  intro reached
  rcases reached.cases_head with same | ⟨next, ⟨up, target⟩, -⟩
  · exact differ same
  · obtain ⟨first, second, -⟩ := sound.assigned isLeaf
    rw [only, mem_singleton] at first second
    simp [targetsFor, sound.apart a isLeaf, first, second, up] at target

end RelaySet

variable {members : List String} {selfName : String} {cfg : RelayConfig} {eligible : String → Bool}

theorem mem_memberNames {name : String} :
    name ∈ memberNames members selfName ↔ name ∈ selfName :: members := by
  simp [memberNames]

/-- The documented count, when it stays in 64 bits. -/
def RelayConfig.Fits (cfg : RelayConfig) (n : Int) : Prop :=
  n + cfg.nodesPerRelay - 1 < 2 ^ 63 ∧
    cfg.baseRelays + (n + cfg.nodesPerRelay - 1) / cfg.nodesPerRelay < 2 ^ 63

/-- The count is at least one, and two when three nodes or more are to survive a loss. -/
def RelayConfig.Ample (cfg : RelayConfig) (n : Int) : Prop :=
  1 ≤ cfg.count n ∧ (2 < n → 2 ≤ cfg.count n)

theorem RelayConfig.count_of_fits {n : Int} (positive : 0 < n) (fits : cfg.withDefaults.Fits n) :
    cfg.withDefaults.Ample n := by
  obtain ⟨sum, total⟩ := fits
  have base : 1 ≤ cfg.withDefaults.baseRelays := by
    simp only [withDefaults]
    split <;> omega
  have per : 1 ≤ cfg.withDefaults.nodesPerRelay := by
    simp only [withDefaults]
    split <;> omega
  have share : 1 ≤ (n + cfg.withDefaults.nodesPerRelay - 1) / cfg.withDefaults.nodesPerRelay :=
    Int.le_ediv_of_mul_le (by omega) (by omega)
  simp only [Ample, count]
  rw [Int.bmod_eq_of_le (n := n + _ - 1) (by omega) (by omega),
    Int.tdiv_eq_ediv_of_nonneg (by omega), Int.bmod_eq_of_le (by omega) (by omega)]
  split <;> omega

theorem computeRelays_sound {count : Int}
    (isCount : cfg.withDefaults.count (memberNames members selfName).length = count)
    (least : 1 ≤ count) :
    ∃ rs, computeRelays members selfName cfg eligible = some rs ∧
      rs.Sound (memberNames members selfName) ∧ rs.relays.length = count.toNat := by
  set names := memberNames members selfName with isNames
  have clamped : count ≤ names.length := by
    rw [← isCount, RelayConfig.count]
    split <;> omega
  simp only [computeRelays, ← isNames, isCount, if_neg (by omega : ¬count ≤ 0)]
  set order := names.filter eligible ++ names.filter (!eligible ·) with isOrder
  have perm : order.Perm names := filter_append_perm ..
  have length : (order.take count.toNat).mergeSort.length = count.toNat := by
    rw [length_mergeSort, length_take, perm.length_eq]
    omega
  refine ⟨_, rfl, ⟨?_, ?_, fun name => ?_, fun empty => ?_⟩, length⟩
  · have distinct : names.Nodup := Finset.sort_nodup ..
    exact (mergeSort_perm ..).nodup_iff.mpr
      ((perm.nodup_iff.mpr distinct).sublist (take_sublist ..))
  · simp
  · have chosen (member : name ∈ order.take count.toNat) : name ∈ names :=
      perm.mem_iff.mp (mem_of_mem_take member)
    by_cases isRelay : name ∈ order.take count.toNat
    · simp [isRelay, chosen isRelay]
    · simp [isRelay]
  · have none := length_eq_zero_iff.mpr empty
    rw [length] at none
    omega

/-- Every node reaches every other and, with three nodes or more, still does so when one node is
taken away. -/
def Connects (cfg : RelayConfig) (eligible : String → Bool) (members : List String)
    (selfName : String) : Prop :=
  ∃ rs, computeRelays members selfName cfg eligible = some rs ∧
    (∀ a ∈ selfName :: members, ∀ b ∈ selfName :: members, rs.Reaches (fun _ => True) a b) ∧
    (2 < (memberNames members selfName).length → ∀ gone, ∀ a ∈ selfName :: members,
      ∀ b ∈ selfName :: members, a ≠ gone → b ≠ gone → rs.Reaches (· ≠ gone) a b)

theorem connects_of_ample (named : "" ∉ memberNames members selfName)
    (ample : cfg.withDefaults.Ample (memberNames members selfName).length) :
    Connects cfg eligible members selfName := by
  obtain ⟨rs, computed, sound, length⟩ :=
    @computeRelays_sound members selfName cfg eligible _ rfl ample.1
  simp only [Connects, ← mem_memberNames]
  refine ⟨rs, computed, fun a knownA b knownB => ?_,
    fun three gone a knownA b knownB upA upB => ?_⟩
  · exact sound.reaches named (by simp) (.inr fun _ => trivial) knownA trivial knownB trivial
  · have two := ample.2 (by omega)
    exact sound.reaches named (fun x y downX downY => by simp_all) (.inl (by omega)) knownA upA
      knownB upB

/-- With a single relay, taking it away parts the leaves. -/
theorem ample_of_connects (connects : Connects cfg eligible members selfName) :
    cfg.withDefaults.Ample (memberNames members selfName).length := by
  obtain ⟨rs, computed, -, survives⟩ := connects
  have least : 1 ≤ cfg.withDefaults.count (memberNames members selfName).length := by
    by_contra small
    rw [computeRelays, if_pos (by omega)] at computed
    cases computed
  refine ⟨least, fun three => by_contra fun small => ?_⟩
  obtain ⟨rs', computed', sound, length⟩ :=
    @computeRelays_sound members selfName cfg eligible _ rfl least
  obtain rfl : rs = rs' := Option.some.inj (computed.symm.trans computed')
  obtain ⟨relay, only⟩ := length_eq_one_iff.mp (show rs.relays.length = 1 by omega)
  set names := memberNames members selfName with isNames
  have many : 1 < (names.toFinset.erase relay).card := by
    have distinct : names.Nodup := Finset.sort_nodup ..
    have := Finset.pred_card_le_card_erase (s := names.toFinset) (a := relay)
    rw [toFinset_card_of_nodup distinct] at this
    omega
  obtain ⟨a, memberA, b, memberB, differ⟩ := Finset.one_lt_card.mp many
  obtain ⟨upA, knownA⟩ := Finset.mem_erase.mp memberA
  obtain ⟨upB, knownB⟩ := Finset.mem_erase.mp memberB
  rw [mem_toFinset] at knownA knownB
  have isLeaf := ((sound.known a).mpr knownA).resolve_left (by simpa [only] using upA)
  rw [isNames, mem_memberNames] at knownA knownB
  exact sound.stranded only isLeaf differ
    (survives (by omega) relay a knownA b knownB upA upB)

theorem named_of_connects (connects : Connects cfg eligible members selfName) :
    "" ∉ selfName :: members ∨ ∀ name ∈ selfName :: members, name = "" := by
  obtain ⟨rs, -, reaches, -⟩ := connects
  by_cases empty : "" ∈ selfName :: members
  · refine .inr fun name member => by_contra fun differ => ?_
    exact RelaySet.not_reaches_empty differ (reaches name member "" empty)
  · exact .inl empty

/-- Nodes that see the same members compute the same relays.  The topology connects the nodes and
survives a loss exactly when no other node has the empty name and the count is ample, which it
is unless it overflows. -/
theorem relays_connect_iff (cfg : RelayConfig) (eligible : String → Bool) (members : List String)
    (selfName : String) :
    (∀ peers peer, (∀ name, name ∈ peer :: peers ↔ name ∈ selfName :: members) →
      computeRelays peers peer cfg eligible = computeRelays members selfName cfg eligible) ∧
    (Connects cfg eligible members selfName ↔
      ("" ∉ selfName :: members ∨ ∀ name ∈ selfName :: members, name = "") ∧
        cfg.withDefaults.Ample (memberNames members selfName).length) ∧
    (cfg.withDefaults.Fits (memberNames members selfName).length →
      cfg.withDefaults.Ample (memberNames members selfName).length) := by
  have present : selfName ∈ memberNames members selfName := mem_memberNames.mpr (by simp)
  refine ⟨fun peers peer same => ?_, ⟨fun connects =>
    ⟨named_of_connects connects, ample_of_connects connects⟩, ?_⟩,
    RelayConfig.count_of_fits (Int.natCast_pos.mpr (length_pos_of_mem present))⟩
  · have sets : insert peer peers.toFinset = insert selfName members.toFinset := by
      ext name
      simpa using same name
    rw [computeRelays, memberNames, sets, computeRelays, memberNames]
  · rintro ⟨named | lone, ample⟩
    · exact connects_of_ample (by rwa [mem_memberNames]) ample
    · obtain ⟨rs, computed, -⟩ := @computeRelays_sound members selfName cfg eligible _ rfl ample.1
      refine ⟨rs, computed, fun a knownA b knownB => ?_, fun _ gone a knownA b knownB _ _ => ?_⟩
      · rw [lone a knownA, lone b knownB]
        exact .refl
      · rw [lone a knownA, lone b knownB]
        exact .refl

/-- Two nodes and a share of the largest integer: the count wraps to zero. -/
theorem relay_count_wraps :
    computeRelays ["a", "b"] "a" ⟨1, 2 ^ 63 - 1⟩ (fun _ => false) = none ∧
      ¬Connects ⟨1, 2 ^ 63 - 1⟩ (fun _ => false) ["a", "b"] "a" := by
  have two : (memberNames ["a", "b"] "a").length = 2 := by
    rw [memberNames, Finset.length_sort]
    decide
  have panics : computeRelays ["a", "b"] "a" ⟨1, 2 ^ 63 - 1⟩ (fun _ => false) = none := by
    rw [computeRelays, two]
    exact if_pos (by decide)
  refine ⟨panics, ?_⟩
  rintro ⟨rs, computed, -⟩
  rw [panics] at computed
  cases computed

end Litevirt.Sync
