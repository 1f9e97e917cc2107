import Mathlib

/-!
# Router ids of load balancers

`AllocVRID` hashes a name to one of 254 slots and `AllocVRIDExcluding` probes
forward from it.  `allocVRID` on the server excludes the slots that the other
stored names hash to, not the ids they were given.
-/

namespace Litevirt.Lb

open List

def allocVRID (name : String) : Nat :=
  name.toList.foldl (fun h c => (h * 31 + c.toNat) % 254) 0 + 1

def allocVRIDExcluding (name : String) (used : Nat → Bool) : Nat :=
  let start := allocVRID name
  if !used start then start
  else
    let probes := (range' 1 253).map fun i => (start - 1 + i) % 254 + 1
    (probes.find? fun cand => !used cand).getD start

/-- The slots the server excludes; none when `ListLBConfigs` fails. -/
def usedVRIDs (listed : Except String (List String)) (lbName : String) (slot : Nat) : Bool :=
  match listed with
  | .ok names => names.any fun name => name ≠ lbName && allocVRID name = slot
  | .error _ => false

/-- `Server.allocVRID`, from the names that `ListLBConfigs` returns. -/
def Server.allocVRID (listed : Except String (List String)) (lbName : String) : Nat :=
  allocVRIDExcluding lbName (usedVRIDs listed lbName)

def spelled (name : String) : Nat := name.toList.foldl (fun h c => h * 31 + c.toNat) 0

theorem foldl_spelled_mod (chars : List Char) (h : Nat) :
    chars.foldl (fun h c => (h * 31 + c.toNat) % 254) (h % 254) =
      chars.foldl (fun h c => h * 31 + c.toNat) h % 254 := by
  induction chars generalizing h with
  | nil => rfl
  | cons c rest ih =>
    have step : (h % 254 * 31 + c.toNat) % 254 = (h * 31 + c.toNat) % 254 :=
      ((Nat.mod_modEq h 254).mul_right 31).add_right c.toNat
    rw [foldl_cons, foldl_cons, step, ih]

theorem allocVRID_eq (name : String) : allocVRID name = spelled name % 254 + 1 :=
  congrArg (· + 1) (foldl_spelled_mod name.toList 0)

theorem allocVRIDExcluding_range (name : String) (used : Nat → Bool) :
    1 ≤ allocVRIDExcluding name used ∧ allocVRIDExcluding name used ≤ 254 := by
  have start : 1 ≤ allocVRID name ∧ allocVRID name ≤ 254 := by
    rw [allocVRID_eq]
    omega
  unfold allocVRIDExcluding
  dsimp only
  split
  · exact start
  cases probed : find? (fun cand => !used cand)
      ((range' 1 253).map fun i => (allocVRID name - 1 + i) % 254 + 1) with
  | none => exact start
  | some cand =>
    obtain ⟨i, -, rfl⟩ := mem_map.mp (mem_of_find?_eq_some probed)
    rw [Option.getD_some]
    omega

/-- Names that hash to one slot exclude the same slots, so both probe to the same id. -/
theorem allocVRID_of_shared {names : List String} {a b : String} (memA : a ∈ names)
    (memB : b ∈ names) (differ : a ≠ b) (shared : allocVRID a = allocVRID b) :
    Server.allocVRID (.ok names) a = Server.allocVRID (.ok names) b := by
  have used : usedVRIDs (.ok names) a = usedVRIDs (.ok names) b := by
    funext slot
    rw [Bool.eq_iff_iff]
    simp only [usedVRIDs, any_eq_true, Bool.and_eq_true, decide_eq_true_eq]
    constructor
    · rintro ⟨name, member, -, rfl⟩
      by_cases isB : name = b
      · exact ⟨a, memA, differ, isB ▸ shared⟩
      · exact ⟨name, member, isB, rfl⟩
    · rintro ⟨name, member, -, rfl⟩
      by_cases isA : name = a
      · exact ⟨b, memB, differ.symm, isA ▸ shared.symm⟩
      · exact ⟨name, member, isA, rfl⟩
  unfold Server.allocVRID allocVRIDExcluding
  rw [used, shared]

/-- The ids of the stored balancers lie between 1 and 254, and they differ exactly when no
two names spell the same number modulo 254. -/
theorem vrids_differ_iff (names : List String) :
    ((∀ name ∈ names, 1 ≤ Server.allocVRID (.ok names) name ∧
        Server.allocVRID (.ok names) name ≤ 254) ∧
      ∀ a ∈ names, ∀ b ∈ names, a ≠ b →
        Server.allocVRID (.ok names) a ≠ Server.allocVRID (.ok names) b) ↔
    ∀ a ∈ names, ∀ b ∈ names, a ≠ b → ¬ spelled a ≡ spelled b [MOD 254] := by
  have slots : ∀ a b, allocVRID a = allocVRID b ↔ spelled a ≡ spelled b [MOD 254] := by
    intro a b
    rw [allocVRID_eq, allocVRID_eq, Nat.add_right_cancel_iff, Nat.ModEq]
  constructor
  · rintro ⟨-, distinct⟩ a memA b memB differ same
    exact distinct a memA b memB differ
      (allocVRID_of_shared memA memB differ ((slots a b).mpr same))
  intro unshared
  -- a name whose slot no other name hashes to is given that slot
  have own : ∀ a ∈ names, Server.allocVRID (.ok names) a = allocVRID a := by
    intro a memA
    have free : usedVRIDs (.ok names) a (allocVRID a) = false := by
      simpa [usedVRIDs] using fun other member differ same =>
        unshared other member a memA differ ((slots other a).mp same)
    unfold Server.allocVRID allocVRIDExcluding
    simp [free]
  refine ⟨fun name _ => allocVRIDExcluding_range name _, fun a memA b memB differ => ?_⟩
  rw [own a memA, own b memB]
  exact fun same => unshared a memA b memB differ ((slots a b).mp same)

/-- Two balancers whose names hash to slot 58 both get router id 59. -/
theorem colliding_names_share_vrid :
    allocVRID "www" = 58 ∧ allocVRID "dns" = 58 ∧
      Server.allocVRID (.ok ["www", "dns"]) "www" = 59 ∧
      Server.allocVRID (.ok ["www", "dns"]) "dns" = 59 := by
  decide +kernel

end Litevirt.Lb
