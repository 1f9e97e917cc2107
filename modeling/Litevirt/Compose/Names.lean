import Litevirt.Lib.Table
import Litevirt.Placement.AntiAffinity

/-!
# Instance names of a compose file

Validation refuses a file in which two workloads have an instance of one name.  The way back
from an instance to its workload tries the base names first, so it needs more than that.
-/

namespace Litevirt.Compose

open Litevirt.Lib Litevirt.Placement List

/-- The workloads of a file under their base names, in the order in which a walk over the map
meets them.  A negative replica count is refused by a check of its own. -/
abbrev File := Table Text VMDef

/-- Every instance name of a workload, with the workload's base name. -/
def instances (workload : Text × VMDef) : List (Text × Text) :=
  (List.range workload.2.effectiveReplicas).map fun r =>
    (workload.2.instanceName workload.1 r, workload.1)

inductive Problem where
  | conflict (base name owner : Text)
  | temporary (base name rolled : Text)
  deriving DecidableEq

/-- The owners of the names so far; a name of another workload keeps its first owner. -/
def collectNames : List (Text × Text) → Table Text Text → Table Text Text × List Problem
  | [], owners => (owners, [])
  | (name, base) :: rest, owners =>
    match (owners.find name).filter (· ≠ base) with
    | some owner =>
      let done := collectNames rest owners
      (done.1, .conflict base name owner :: done.2)
    | none => collectNames rest (owners.put name base)

/-- What `validate` reports about names: conflicts in the order of the base names, and names
that a rolling update of another workload uses for its replacement. -/
def nameProblems (file : File) : List Problem :=
  let done := collectNames
    ((file.rows.insertionSort fun a b => a.1 ≤ b.1).flatMap instances) .empty
  done.2 ++ (file.rows.flatMap instances).flatMap fun each =>
    done.1.rows.filterMap fun other =>
      if other.2 ≠ each.2 ∧ other.1 = each.1 ++ "-next".toList then
        some (.temporary other.2 other.1 each.1)
      else none

structure ValidFile where
  file : File
  passed : nameProblems file = []

def findVMDef (file : File) (name : Text) : Option (VMDef × Text) :=
  match file.find name with
  | some vm => some (vm, name)
  | none => (file.rows.find? fun workload => (instances workload).any (·.1 = name)).map Prod.swap

variable {file : File} {pairs : List (Text × Text)} {owners : Table Text Text}

theorem mem_instances {workload : Text × VMDef} {each : Text × Text} :
    each ∈ instances workload ↔ ∃ r < workload.2.effectiveReplicas,
      (workload.2.instanceName workload.1 r, workload.1) = each := by
  simp [instances]

theorem instanceName_inj {vm : VMDef} {base : Text} {r r' : Nat} (within : r < vm.effectiveReplicas)
    (within' : r' < vm.effectiveReplicas)
    (same : vm.instanceName base r = vm.instanceName base r') : r = r' := by
  unfold VMDef.instanceName at same
  split at same
  · omega
  · have digits := congrArg (Nat.ofDigitChars 10 · 0) (append_cancel_left same)
    simpa using digits

/-- Names that are collected without a conflict are all recorded under their owners. -/
theorem recorded_of_quiet (quiet : (collectNames pairs owners).2 = []) :
    (∀ name owner, owners.find name = some owner →
      (collectNames pairs owners).1.find name = some owner) ∧
    ∀ each ∈ pairs, (collectNames pairs owners).1.find each.1 = some each.2 := by
  induction pairs generalizing owners with
  | nil => exact ⟨fun _ _ found => found, by simp⟩
  | cons first rest ih =>
    unfold collectNames at quiet ⊢
    split at quiet
    · cases quiet
    rename_i free
    obtain ⟨kept, recorded⟩ := ih quiet
    refine ⟨fun name owner found => kept name owner ?_,
      forall_mem_cons.mpr ⟨kept _ _ (Table.find_put_self ..), recorded⟩⟩
    rw [Table.find_put]
    split
    · rename_i same
      rw [← same, found] at free
      have own : owner = first.2 := by simpa [Option.filter_eq_none_iff] using free
      rw [own]
    · exact found

theorem owner_unique (valid : nameProblems file = []) {each other : Text × Text}
    (member : each ∈ file.rows.flatMap instances) (among : other ∈ file.rows.flatMap instances)
    (same : each.1 = other.1) : each.2 = other.2 := by
  have recorded := (recorded_of_quiet (append_eq_nil_iff.mp valid).1).2
  have sorted := (perm_insertionSort (fun a b : Text × VMDef => a.1 ≤ b.1) file.rows).flatMap_right
    instances
  have first := recorded each (sorted.mem_iff.mpr member)
  rw [same, recorded other (sorted.mem_iff.mpr among)] at first
  exact (Option.some.inj first).symm

/-- No workload has the base name of another as an instance. -/
def BasesApart (file : File) : Prop :=
  ∀ base vm r other, file.find base = some vm → r < vm.effectiveReplicas →
    (file.find other).isSome → vm.instanceName base r = other → other = base

theorem mem_instances_of_find {base : Text} {vm : VMDef} {r : Nat}
    (found : file.find base = some vm) (within : r < vm.effectiveReplicas) :
    (vm.instanceName base r, base) ∈ file.rows.flatMap instances :=
  mem_flatMap.mpr ⟨(base, vm), Table.mem_rows_iff.mpr found, mem_instances.mpr ⟨r, within, rfl⟩⟩

/-- The instances of a file that validates have different names, and each of them is found
under its own workload unless some workload is named as an instance of another. -/
theorem instances_resolve_iff (valid : ValidFile) :
    (∀ base vm r base' vm' r', valid.file.find base = some vm → r < vm.effectiveReplicas →
      valid.file.find base' = some vm' → r' < vm'.effectiveReplicas →
      vm.instanceName base r = vm'.instanceName base' r' → base = base' ∧ r = r') ∧
    ((∀ base vm r, valid.file.find base = some vm → r < vm.effectiveReplicas →
      findVMDef valid.file (vm.instanceName base r) = some (vm, base)) ↔
        BasesApart valid.file) := by
  refine ⟨fun base vm r base' vm' r' found within found' within' same => ?_, ?_, ?_⟩
  · obtain rfl : base = base' := owner_unique valid.passed (mem_instances_of_find found within)
      (mem_instances_of_find found' within') same
    obtain rfl := Option.some.inj (found.symm.trans found')
    exact ⟨rfl, instanceName_inj within within' same⟩
  · intro resolves base vm r other found within isBase same
    obtain ⟨vm', found'⟩ := Option.isSome_iff_exists.mp isBase
    have result := resolves base vm r found within
    rw [same, findVMDef, found'] at result
    cases result
    rfl
  intro apart base vm r found within
  unfold findVMDef
  split
  · rename_i vm' found'
    have own := apart base vm r _ found within (by rw [found']; rfl) rfl
    rw [own] at found' ⊢
    rw [Option.some.inj (found'.symm.trans found)]
  have member := mem_instances_of_find found within
  obtain ⟨workload, isWorkload, listed⟩ := mem_flatMap.mp member
  cases search : valid.file.rows.find? fun workload =>
      (instances workload).any (·.1 = vm.instanceName base r) with
  | none =>
    refine absurd ?_ (find?_eq_none.mp search workload isWorkload)
    exact any_eq_true.mpr ⟨_, listed, by simp⟩
  | some hit =>
    obtain ⟨⟨name, owner⟩, isInstance, named⟩ := any_eq_true.mp (find?_some search :)
    have isRow := mem_of_find?_eq_some search
    have same : owner = base := owner_unique valid.passed
      (mem_flatMap.mpr ⟨hit, isRow, isInstance⟩) member (by simpa using named)
    obtain ⟨r', -, pair⟩ := mem_instances.mp isInstance
    obtain rfl : hit.1 = base := (congrArg Prod.snd pair).trans same
    rw [← Option.some.inj ((Table.mem_rows_iff.mp isRow).symm.trans found)]
    rfl

/-- `web` has the instances `web-1` and `web-2`, and another workload is called `web-1`. -/
def webFile : ValidFile where
  file := ⟨[("web".toList, ⟨some 2⟩), ("web-1".toList, ⟨some 3⟩)], by decide⟩
  passed := by decide +kernel

/-- The first instance of `web` is looked up as the workload of three replicas. -/
theorem web_instance_of_other :
    webFile.file.find "web".toList = some ⟨some 2⟩ ∧
      findVMDef webFile.file (VMDef.instanceName ⟨some 2⟩ "web".toList 0) =
        some (⟨some 3⟩, "web-1".toList) := by
  decide +kernel

end Litevirt.Compose
