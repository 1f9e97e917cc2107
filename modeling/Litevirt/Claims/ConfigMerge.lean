import Litevirt.Lib.Selection

/-!
# Merging the rows of a voter generation

`voterConfigMergeKeepLocalRow`: rows of one decided value differ in their certificate and
`updated_at` and settle on the greater pair, a forced row replaces an ordinary one, and two
values of one kind are flagged, each replica keeping the one it has.
-/

namespace Litevirt.Claims

open Litevirt.Lib List Option

/-- A row of `voter_configs` as anti-entropy carries it. -/
structure VoterConfigCells where
  generation : Int
  membersJSON : String
  membersHash : String
  change : String
  certificate : String
  createdBy : String
  createdAt : String
  updatedAt : String
  deletedAt : Option String
  deriving DecidableEq, Repr

namespace VoterConfigCells

/-- The columns that `rowFactsEqual` compares. -/
def facts (r : VoterConfigCells) : VoterConfigCells :=
  { r with certificate := "", updatedAt := "", deletedAt := none }

def forced (r : VoterConfigCells) : Bool := "force:".toList.isPrefixOf r.change.toList

/-- The generation read back from `fmt.Sprint`, which writes a double of a million or more with
an exponent. -/
def parsedGeneration (r : VoterConfigCells) : Int :=
  if r.generation.natAbs < 1000000 then r.generation else 0

end VoterConfigCells

structure ConfigMergeVerdict where
  keepLocal : Bool
  /-- What `noteRefusedForced` records. -/
  refusedForced : Option (Int × String)
  /-- The pair is tracked as unresolved. -/
  unresolved : Bool
  deriving DecidableEq, Repr

def voterConfigMergeKeepLocalRow (adopted : Int) (localRow : Option VoterConfigCells)
    (row : VoterConfigCells) : ConfigMergeVerdict :=
  match localRow with
  | none => ⟨false, none, false⟩
  | some old =>
    if old.facts = row.facts then
      if old.certificate ≠ row.certificate then ⟨row.certificate < old.certificate, none, false⟩
      else ⟨row.updatedAt ≤ old.updatedAt, none, false⟩
    else if old.forced ≠ row.forced then
      let gen := row.parsedGeneration
      if row.forced ∧ 0 < gen ∧ gen ≤ adopted then
        ⟨true, some (gen, s!"this node adopted the ordinary generation {gen} ({old.change}) " ++
          s!"before forced generation {gen} ({row.change}) reached it; it keeps the one " ++
          "it adopted"), true⟩
      else ⟨old.forced, none, false⟩
    else ⟨true, none, true⟩

/-- The row a replica holds after a merge, with the generation it has adopted by then. -/
def mergeConfigRow (held : Option VoterConfigCells) (arrival : Int × VoterConfigCells) :
    Option VoterConfigCells :=
  if (voterConfigMergeKeepLocalRow arrival.1 held arrival.2).keepLocal then held
  else some arrival.2

def mergeConfigRows (arrivals : List (Int × VoterConfigCells)) : Option VoterConfigCells :=
  arrivals.foldl mergeConfigRow none

theorem VoterConfigCells.forced_of_facts {r s : VoterConfigCells} (same : r.facts = s.facts) :
    r.forced = s.forced := by
  have changes : r.facts.change = s.facts.change := congrArg VoterConfigCells.change same
  exact congrArg (fun change : String => "force:".toList.isPrefixOf change.toList) changes

section Verdicts

variable {adopted : Int} {old row : VoterConfigCells}

theorem keepLocal_of_facts (same : old.facts = row.facts) :
    (voterConfigMergeKeepLocalRow adopted (some old) row).keepLocal =
      if old.certificate ≠ row.certificate then decide (row.certificate < old.certificate)
      else decide (row.updatedAt ≤ old.updatedAt) := by
  rw [voterConfigMergeKeepLocalRow, if_pos same]
  split <;> rfl

theorem keepLocal_of_kinds (differ : old.forced ≠ row.forced)
    (free : ¬ (row.forced = true ∧ 0 < row.parsedGeneration ∧ row.parsedGeneration ≤ adopted)) :
    (voterConfigMergeKeepLocalRow adopted (some old) row).keepLocal = old.forced := by
  rw [voterConfigMergeKeepLocalRow, if_neg (mt VoterConfigCells.forced_of_facts differ),
    if_pos differ]
  exact congrArg ConfigMergeVerdict.keepLocal (if_neg free)

end Verdicts

variable {arrival : Int × VoterConfigCells}

theorem mergeConfigRow_forced {old : VoterConfigCells}
    (forced : old.forced = true) (ordinary : arrival.2.forced = false) :
    mergeConfigRow (some old) arrival = some old := by
  have kept : (voterConfigMergeKeepLocalRow arrival.1 (some old) arrival.2).keepLocal =
      old.forced := keepLocal_of_kinds (by simp [forced, ordinary]) (by simp [ordinary])
  rw [mergeConfigRow, kept, if_pos forced]

/-- The choice a replica makes that has not adopted the generation. -/
def chooseConfigRow (held incoming : Option VoterConfigCells) : Option VoterConfigCells :=
  incoming.elim held fun row => mergeConfigRow held (0, row)

theorem chooseConfigRow_selects : Selects chooseConfigRow := by
  rintro held (_ | row)
  · exact .inl rfl
  · simp only [chooseConfigRow, elim_some, mergeConfigRow]
    split
    · exact .inl rfl
    · exact .inr rfl

theorem mergeConfigRow_eq_choose {held : Option VoterConfigCells}
    (unadopted : arrival.1 < arrival.2.generation) :
    mergeConfigRow held arrival = chooseConfigRow held (some arrival.2) := by
  have free : ∀ adopted, adopted = arrival.1 ∨ adopted = 0 →
      ¬ (0 < arrival.2.parsedGeneration ∧ arrival.2.parsedGeneration ≤ adopted) := by
    unfold VoterConfigCells.parsedGeneration
    split <;> omega
  unfold chooseConfigRow mergeConfigRow voterConfigMergeKeepLocalRow
  simp only [elim_some]
  cases held with
  | none => rfl
  | some old => simp only [free arrival.1 (.inl rfl), free 0 (.inr rfl), and_false, if_false]

/-- Rows of one kind agree in every column but the certificate and `updated_at`. -/
def OneValueEach (rows : List VoterConfigCells) : Prop :=
  ∀ r ∈ rows, ∀ s ∈ rows, r.forced = s.forced → r.facts = s.facts ∧ r.deletedAt = s.deletedAt

/-- What the merge compares in rows that agree. -/
def configRank (r : VoterConfigCells) : Bool ×ₗ String ×ₗ String :=
  toLex (r.forced, toLex (r.certificate, r.updatedAt))

theorem choose_of_rank {rows : List VoterConfigCells} (agree : OneValueEach rows)
    {w x : VoterConfigCells} (memW : w ∈ rows) (memX : x ∈ rows)
    (above : configRank x ≤ configRank w) :
    chooseConfigRow (some w) (some x) = some w ∧ chooseConfigRow (some x) (some w) = some w := by
  unfold configRank at above
  rw [Prod.Lex.toLex_le_toLex] at above
  rcases above with kinds | ⟨kinds, above⟩
  · obtain ⟨ordinary, forced⟩ := Bool.lt_iff.mp kinds
    refine ⟨mergeConfigRow_forced forced ordinary, ?_⟩
    have given : (voterConfigMergeKeepLocalRow 0 (some x) w).keepLocal = x.forced :=
      keepLocal_of_kinds kinds.ne (by omega)
    rw [chooseConfigRow, elim_some, mergeConfigRow, given,
      if_neg (Bool.not_eq_true _ |>.mpr ordinary)]
  obtain ⟨facts, deleted⟩ := agree x memX w memW kinds
  rw [Prod.Lex.toLex_le_toLex] at above
  simp only [chooseConfigRow, elim_some, mergeConfigRow, keepLocal_of_facts facts,
    keepLocal_of_facts facts.symm]
  rcases above with certificates | ⟨certificates, times⟩
  · rw [if_pos certificates.ne', if_pos certificates.ne, decide_eq_true certificates,
      decide_eq_false certificates.not_gt]
    exact ⟨rfl, rfl⟩
  rw [if_neg (not_not.mpr certificates.symm), if_neg (not_not.mpr certificates),
    decide_eq_true times]
  refine ⟨rfl, ?_⟩
  split
  · rename_i back
    have equal := le_antisymm times (of_decide_eq_true back)
    obtain ⟨⟩ := x
    simp_all [VoterConfigCells.facts]
  · rfl

theorem mergeConfigRows_eq_foldl {arrivals : List (Int × VoterConfigCells)}
    (unadopted : ∀ arrival ∈ arrivals, arrival.1 < arrival.2.generation)
    (held : Option VoterConfigCells) :
    arrivals.foldl mergeConfigRow held =
      (arrivals.map fun arrival => some arrival.2).foldl chooseConfigRow held := by
  induction arrivals generalizing held with
  | nil => rfl
  | cons arrival rest ih =>
    rw [foldl_cons, map_cons, mergeConfigRow_eq_choose (unadopted arrival mem_cons_self)]
    exact ih (fun later member => unadopted later (mem_cons_of_mem _ member)) _

/-- Replicas that merge the same rows before they adopt the generation end with the same row when
rows of one kind agree, and an ordinary row replaces a forced one nowhere. -/
theorem voter_config_rows_converge (rows : List VoterConfigCells) (agree : OneValueEach rows)
    (one other : List (Int × VoterConfigCells))
    (oneMerges : ∀ r, r ∈ one.map Prod.snd ↔ r ∈ rows)
    (otherMerges : ∀ r, r ∈ other.map Prod.snd ↔ r ∈ rows)
    (unadopted : ∀ arrival ∈ one ++ other, arrival.1 < arrival.2.generation) :
    mergeConfigRows one = mergeConfigRows other ∧
      ∀ (old : VoterConfigCells) (arrival : Int × VoterConfigCells), old.forced = true →
        arrival.2.forced = false → mergeConfigRow (some old) arrival = some old := by
  refine ⟨?_, fun old arrival => mergeConfigRow_forced⟩
  by_cases none : rows = []
  · subst none
    have empty : ∀ {l : List (Int × VoterConfigCells)},
        (∀ r, r ∈ l.map Prod.snd ↔ r ∈ ([] : List VoterConfigCells)) → l = [] := fun merges =>
      map_eq_nil_iff.mp
        (eq_nil_iff_forall_not_mem.mpr fun r => (merges r).not.mpr not_mem_nil)
    rw [empty oneMerges, empty otherMerges]
  obtain ⟨w, member, highest⟩ := Finset.exists_max_image rows.toFinset configRank
    (toFinset_nonempty_iff rows |>.mpr none)
  have best : ∀ {l : List (Int × VoterConfigCells)}, (∀ r, r ∈ l.map Prod.snd ↔ r ∈ rows) →
      (∀ arrival ∈ l, arrival.1 < arrival.2.generation) → mergeConfigRows l = some w := by
    intro l merges fresh
    have ranked : ∀ x ∈ l.map (fun arrival => some arrival.2),
        chooseConfigRow (some w) x = some w ∧ chooseConfigRow x (some w) = some w := by
      intro x isArrival
      obtain ⟨arrival, isIn, rfl⟩ := mem_map.mp isArrival
      have inRows := (merges arrival.2).mp (mem_map_of_mem isIn)
      exact choose_of_rank agree (mem_toFinset.mp member) inRows
        (highest arrival.2 (mem_toFinset.mpr inRows))
    have arrived : some w ∈ l.map (fun arrival => some arrival.2) := by
      obtain ⟨arrival, isIn, rfl⟩ := mem_map.mp
        ((merges w).mpr (mem_toFinset.mp member))
      exact mem_map_of_mem (f := fun arrival : Int × VoterConfigCells => some arrival.2) isIn
    rw [mergeConfigRows, mergeConfigRows_eq_foldl fresh]
    refine foldl_pick_winner chooseConfigRow_selects arrived (fun x held => ?_)
      fun x isArrival => (ranked x isArrival).1
    rcases held with rfl | isArrival
    · rfl
    · exact (ranked x isArrival).2
  rw [best oneMerges fun arrival isIn => unadopted arrival (mem_append_left _ isIn),
    best otherMerges fun arrival isIn => unadopted arrival (mem_append_right _ isIn)]

/-- Generation 2 by one change, with a certificate and the time it was stored. -/
def second (change certificate updatedAt : String) : VoterConfigCells :=
  ⟨2, "[]", "h", change, certificate, "n1", "t0", updatedAt, none⟩

/-- An ordinary row in two copies and a forced one, in two orders. -/
theorem voter_config_rows_converge_forced :
    mergeConfigRows [(1, second "rm:n3" "a" "t2"), (1, second "force:n3" "c" "t1"),
        (1, second "rm:n3" "b" "t1")] =
      mergeConfigRows [(0, second "rm:n3" "b" "t1"), (1, second "rm:n3" "a" "t2"),
        (1, second "force:n3" "c" "t1")] :=
  (voter_config_rows_converge [second "rm:n3" "a" "t2",
    second "rm:n3" "b" "t1", second "force:n3" "c" "t1"]
    (by unfold OneValueEach; decide +kernel) _ _ (by intro r; simp; tauto) (by intro r; simp; tauto)
    (by decide +kernel)).1

/-- Of two ordinary values each replica keeps the one it met first. -/
theorem ordinary_values_stay_apart :
    mergeConfigRows [(1, second "add:n4" "a" "t1"), (1, second "rm:n3" "b" "t1")] =
      some (second "add:n4" "a" "t1") ∧
    mergeConfigRows [(1, second "rm:n3" "b" "t1"), (1, second "add:n4" "a" "t1")] =
      some (second "rm:n3" "b" "t1") := by
  decide +kernel

end Litevirt.Claims
