import Litevirt.Lib.Fields
import Litevirt.Placement.Ledger

/-!
# Anti-affinity within a batch

A request names the VMs it must not share a host with.  The filter compares them with where VMs
run when the request is scored, so a later request that does not name the earlier one is not held
to the earlier one's rule: it must not be left a host of a placed VM that names it.
-/

namespace Litevirt.Placement

open Litevirt.Lib List

/-- A VM definition with its number of replicas. -/
structure VMDef where
  replicas : Option Nat
  deriving DecidableEq

def VMDef.effectiveReplicas (vm : VMDef) : Nat := vm.replicas.getD 1

def VMDef.instanceName (vm : VMDef) (base : Text) (replica : Nat) : Text :=
  if vm.effectiveReplicas = 1 then base
  else base ++ "-".toList ++ Nat.toDigits 10 (replica + 1)

def buildComposeInstanceMap (vms : List (Text × VMDef)) : List (Text × List Text) :=
  vms.map fun each =>
    (each.1, (List.range each.2.effectiveReplicas).map (each.2.instanceName each.1))

/-- The instances a reference stands for; a name that is no definition stands for itself. -/
def instancesOf (instances : List (Text × List Text)) (ref : Text) : List Text :=
  (instances.lookup ref).getD [ref]

/-- The names behind the references, each once and without the VM's own. -/
def expandAntiAffinity (refs : List Text) (selfName : Text) (instances : List (Text × List Text)) :
    List Text :=
  (collect [selfName] (refs.flatMap (instancesOf instances))).tail

section Batch

variable [Ranking]

variable {snap : Snapshot} {requests : List Request} {name : Text}

theorem placeAll_vmHost
    (untouched : ∀ each ∈ placements (placeAll snap requests).2,
      each.1.vmName = name → each.1.container = true) :
    (placeAll snap requests).1.vmHost name = snap.vmHost name := by
  induction requests generalizing snap with
  | nil => rfl
  | cons req rest ih =>
    simp only [placeAll] at untouched ⊢
    have later := ih fun each member => untouched each (by
      obtain ⟨devices, listed⟩ := mem_placements.mp member
      exact mem_placements.mpr ⟨devices, mem_cons_of_mem _ listed⟩)
    rw [later]
    rcases placeOne_cases snap req with ⟨refusal, refused⟩ | ⟨chosen, devices, -, placed, done⟩
    · rw [refused]
    rw [done.vmHost]
    cases container : req.container with
    | true => rfl
    | false =>
      by_cases same : name = req.vmName
      · have isContainer := untouched (req, chosen.name)
          (mem_placements.mpr ⟨devices, by simp [placed]⟩) same.symm
        rw [container] at isContainer
        cases isContainer
      · simp [same]

variable {front back : List (Request × Outcome)}

/-- The snapshot that an entry is evaluated in, and the condition that its request meets there. -/
theorem placeAll_split {condition : Snapshot → List (Request × Text) → Request → Prop}
    {before : List (Request × Text)} {entry : Request × Outcome}
    (split : (placeAll snap requests).2 = front ++ entry :: back) :
    ∃ middle, placeAll snap (front.map Prod.fst) = (middle, front) ∧
      entry.2 = (placeOne middle entry.1).2 ∧
        placeAll (placeOne middle entry.1).1 (back.map Prod.fst) =
          ((placeAll snap requests).1, back) ∧
        (Stepwise condition snap before requests →
          condition middle (before ++ placements front) entry.1) := by
  induction front generalizing snap requests before with
  | nil =>
    cases requests with
    | nil => cases split
    | cons req rest =>
      obtain ⟨first, later⟩ := List.cons.inj split
      refine ⟨snap, rfl, ?_, ?_, fun stepwise => ?_⟩
      · rw [← first]
      · rw [← first, ← later, placeAll_requests, placeAll]
      · rw [← first]
        simpa [placements] using stepwise.1
  | cons head front ih =>
    cases requests with
    | nil => cases split
    | cons req rest =>
      obtain ⟨first, later⟩ := List.cons.inj split
      obtain ⟨middle, played, outcome, remaining, meets⟩ :=
        @ih _ _ (before ++ placements [head]) later
      refine ⟨middle, ?_, outcome, remaining.trans (by rw [placeAll]), fun stepwise => ?_⟩
      · rw [← first, map_cons, placeAll, played]
      · rw [← first] at meets
        have met := meets stepwise.2
        rw [first, append_assoc] at met
        simpa only [placements, ← filterMap_append, singleton_append] using met

variable {req : Request} {host : Text} {devices : List BatchDevice}

theorem vmHost_of_placed (placed : (placeOne snap req).2 = .placed host devices)
    (vm : req.container = false) : (placeOne snap req).1.vmHost req.vmName = some host := by
  rcases placeOne_cases snap req with ⟨refusal, refused⟩ | ⟨chosen, taken, -, onChosen, done⟩
  · rw [refused] at placed
    cases placed
  · rw [onChosen] at placed
    cases placed
    simp [done.vmHost, vm]

variable {other : Text}

theorem placed_apart (placed : (placeOne snap req).2 = .placed host devices)
    (listed : name ∈ req.antiAffinity) (running : snap.vmHost name = some other) :
    host ≠ other := by
  rcases placeOne_cases snap req with ⟨refusal, refused⟩ | ⟨chosen, taken, left, onChosen, -⟩
  · rw [refused] at placed
    cases placed
  rw [onChosen] at placed
  cases placed
  rintro rfl
  refine (mem_openHosts left).2.apart name listed ?_
  rw [Snapshot.releaseAllocation, (adjusted snap req (-1)).vmHost]
  exact running

omit [Ranking] in
/-- The result that stands for a name: the last one, when it is a placement. -/
def settled (results : List (Request × Outcome)) (name : Text) : Option (Request × Text) :=
  (results.reverse.find? fun result => result.1.vmName = name).bind fun result =>
    match result.2 with
    | .placed host _ => some (result.1, host)
    | .refused _ => none

omit [Ranking] in
theorem settled_eq_some {results : List (Request × Outcome)}
    (found : settled results name = some (req, host)) :
    ∃ front devices back, results = front ++ (req, .placed host devices) :: back ∧
      req.vmName = name ∧ ∀ later ∈ back, later.1.vmName ≠ name := by
  obtain ⟨⟨last, outcome⟩, searched, placed⟩ := Option.bind_eq_some_iff.mp found
  obtain ⟨named, before, after, shape, unnamed⟩ := find?_eq_some_iff_append.mp searched
  cases outcome with
  | refused refusal => cases placed
  | placed at' devices =>
    cases placed
    refine ⟨after.reverse, devices, before.reverse, ?_, of_decide_eq_true named, ?_⟩
    · rw [← reverse_reverse results, shape]
      simp
    · intro later member
      have skipped := unnamed later (mem_reverse.mp member)
      simpa using skipped

variable {middle : List (Request × Outcome)} {others : List BatchDevice}

/-- A VM that was placed before on a host that the filters leave to the request, and that is still
there and lists it, is listed back. -/
def ListsBack (snap : Snapshot) (before : List (Request × Text)) (req : Request) : Prop :=
  req.container = false → ∀ each ∈ before, each.1.container = false →
    snap.vmHost each.1.vmName = some each.2 → req.vmName ∈ each.1.antiAffinity →
      each.2 ∈ (openHosts snap req).map HostRecord.name → each.1.vmName ∈ req.antiAffinity

/-- Of two entries the later request is checked against where the earlier VM was placed. -/
theorem later_apart (stepwise : Stepwise ListsBack snap [] requests) {earlier later : Request}
    (results : (placeAll snap requests).2 =
      front ++ (earlier, .placed host devices) :: middle ++ (later, .placed other others) :: back)
    (vm : earlier.container = false) (alsoVM : later.container = false)
    (lastOne : ∀ entry ∈ middle, entry.1.vmName ≠ earlier.vmName)
    (declared : later.vmName ∈ earlier.antiAffinity ∨ earlier.vmName ∈ later.antiAffinity) :
    other ≠ host := by
  obtain ⟨reached, played, outcome, -, meets⟩ :=
    @placeAll_split _ _ _ _ _ ListsBack [] _ results
  obtain ⟨start, -, first, rest, -⟩ :=
    @placeAll_split _ _ _ _ _ (fun _ _ _ => True) [] _ (congrArg Prod.snd played)
  rw [played] at rest
  have running : reached.vmHost earlier.vmName = some host := by
    have kept : (placeAll (placeOne start earlier).1 (middle.map Prod.fst)).1.vmHost
        earlier.vmName = (placeOne start earlier).1.vmHost earlier.vmName := by
      refine placeAll_vmHost fun each member same => ?_
      rw [rest] at member
      obtain ⟨taken, inMiddle⟩ := mem_placements.mp member
      exact absurd same (lastOne _ inMiddle)
    rw [rest, vmHost_of_placed first.symm vm] at kept
    exact kept
  rcases declared with byEarlier | byLater
  · rintro rfl
    have left : other ∈ (openHosts reached later).map HostRecord.name := by
      rcases placeOne_cases reached later with
        ⟨refusal, refused⟩ | ⟨chosen, taken, left, placed, -⟩
      · rw [refused] at outcome
        cases outcome
      · rw [placed] at outcome
        cases outcome
        exact mem_map_of_mem left
    have earlierPlaced : (earlier, other) ∈
        placements (front ++ (earlier, .placed other devices) :: middle) :=
      mem_placements.mpr ⟨devices, mem_append_right _ mem_cons_self⟩
    have listed := meets stepwise alsoVM _ earlierPlaced vm running byEarlier left
    exact placed_apart outcome.symm listed running rfl
  · exact placed_apart outcome.symm byLater running

omit [Ranking] in
theorem entries_ordered {α : Type} {front back front' back' : List α} {x y : α}
    (same : front ++ x :: back = front' ++ y :: back') (different : x ≠ y) :
    (∃ middle, back = middle ++ y :: back' ∧ front' = front ++ x :: middle) ∨
      ∃ middle, back' = middle ++ x :: back ∧ front = front' ++ y :: middle := by
  rcases append_eq_append_iff.mp same with ⟨gap, longer, rest⟩ | ⟨gap, longer, rest⟩
  · cases gap with
    | nil => exact absurd (List.cons.inj rest).1 different
    | cons first middle =>
      obtain ⟨rfl, tail⟩ := List.cons.inj rest
      exact .inl ⟨middle, tail, longer⟩
  cases gap with
  | nil => exact absurd (List.cons.inj rest).1.symm different
  | cons first middle =>
    obtain ⟨rfl, tail⟩ := List.cons.inj rest
    exact .inr ⟨middle, tail, longer⟩

omit [Ranking] in
theorem batchSnapshot_vmHost (hosts : List HostRecord) (vms : List VMRecord)
    (devices : Text → List PCIDevice) (containerMemMiB : List (Text × Int))
    (observations : List HostCapacityObservation) (requests : List Request) :
    (batchSnapshot hosts vms devices containerMemMiB observations requests).vmHost =
      (buildSnapshotFrom hosts vms).vmHost := by
  refine List.foldlRecOn (motive := fun snap : Snapshot =>
    snap.vmHost = (buildSnapshotFrom hosts vms).vmHost) _ _
    (gathered_vmHost hosts vms containerMemMiB observations) fun snap kept each _ => ?_
  rw [← kept]
  unfold Snapshot.seedReplicasForBase
  split_ifs <;> rfl

/-- When every request lists the VMs that list it and were placed on a host it may take, two placed
VMs of which one lists the other are on different hosts.  So are, in every batch, a placed VM and
a VM of the snapshot that it lists and that the batch does not place. -/
theorem anti_affinity_kept (hosts : List HostRecord) (vms : List VMRecord)
    (devices : Text → List PCIDevice) (containerMemMiB : List (Text × Int))
    (observations : List HostCapacityObservation) (requests : List Request)
    (stepwise : Stepwise ListsBack
      (batchSnapshot hosts vms devices containerMemMiB observations requests) [] requests) :
    (∀ a b first second host other,
      settled (selectBatch hosts vms devices containerMemMiB observations requests) a =
          some (first, host) →
        settled (selectBatch hosts vms devices containerMemMiB observations requests) b =
            some (second, other) →
          a ≠ b → first.container = false → second.container = false →
            (b ∈ first.antiAffinity ∨ a ∈ second.antiAffinity) → host ≠ other) ∧
      ∀ a c first host other,
        settled (selectBatch hosts vms devices containerMemMiB observations requests) a =
            some (first, host) →
          c ∈ first.antiAffinity → (buildSnapshotFrom hosts vms).vmHost c = some other →
            (∀ each ∈ placements
              (selectBatch hosts vms devices containerMemMiB observations requests),
              each.1.vmName = c → each.1.container = true) → host ≠ other := by
  unfold selectBatch
  have begins := batchSnapshot_vmHost hosts vms devices containerMemMiB observations requests
  generalize batchSnapshot hosts vms devices containerMemMiB observations requests = snap
    at begins stepwise
  constructor
  · intro a b first second host other given also different vm alsoVM declared
    obtain ⟨front, devices, back, results, rfl, lastOne⟩ := settled_eq_some given
    obtain ⟨front', devices', back', results', rfl, lastOne'⟩ := settled_eq_some also
    have entries : ((first, Outcome.placed host devices) : Request × Outcome) ≠
        (second, Outcome.placed other devices') := fun same =>
      different (congrArg (fun entry : Request × Outcome => entry.1.vmName) same)
    rcases entries_ordered (results.symm.trans results') entries with
      ⟨middle, rest, before⟩ | ⟨middle, rest, before⟩
    · rw [before] at results'
      refine (later_apart stepwise results' vm alsoVM (fun entry inMiddle => ?_) declared).symm
      exact lastOne entry (by rw [rest]; simp [inMiddle])
    · rw [before] at results
      refine later_apart stepwise results alsoVM vm (fun entry inMiddle => ?_) declared.symm
      exact lastOne' entry (by rw [rest]; simp [inMiddle])
  · intro a c first host other given listed running untouched
    obtain ⟨front, devices, back, results, -, -⟩ := settled_eq_some given
    obtain ⟨reached, played, outcome, -, -⟩ :=
      @placeAll_split _ _ _ _ _ (fun _ _ _ => True) [] _ results
    refine placed_apart outcome.symm listed ?_
    have kept : (placeAll snap (front.map Prod.fst)).1.vmHost c = snap.vmHost c := by
      refine placeAll_vmHost fun each member named => ?_
      rw [played] at member
      obtain ⟨taken, inFront⟩ := mem_placements.mp member
      refine untouched each (mem_placements.mpr ⟨taken, ?_⟩) named
      rw [results]
      exact mem_append_left _ inFront
    rw [played, begins] at kept
    exact kept.trans running

end Batch

/-- A VM of a compose file with the definitions `web` and `db`. -/
def composeRequest (name : String) (refs : List String) (pin : String) : Request :=
  { plannedRequest name 0 pin with
    antiAffinity := expandAntiAffinity (refs.map String.toList) name.toList
      (buildComposeInstanceMap [("web".toList, ⟨none⟩), ("db".toList, ⟨none⟩)]) }

attribute [local instance] flatRanking

/-- The VM placed first lists the second one, and both are on one host. -/
theorem listed_vm_joins :
    settled (selectBatch [worker "h1"] [] (fun _ => []) [] []
        [composeRequest "web" ["db"] "", composeRequest "db" [] ""]) "web".toList =
      some (composeRequest "web" ["db"] "", "h1".toList) ∧
    settled (selectBatch [worker "h1"] [] (fun _ => []) [] []
        [composeRequest "web" ["db"] "", composeRequest "db" [] ""]) "db".toList =
      some (composeRequest "db" [] "", "h1".toList) ∧
    "db".toList ∈ (composeRequest "web" ["db"] "").antiAffinity := by
  refine ⟨rfl, rfl, ?_⟩
  decide

/-- The second VM does not list the first one, but it is pinned to another host; a third lists
both. -/
theorem anti_affinity_kept_pinned :
    settled (selectBatch [worker "h1", worker "h2", worker "h3"] [] (fun _ => []) [] []
        [composeRequest "web" ["db"] "h1", composeRequest "db" [] "h2",
          composeRequest "cache" ["web", "db"] ""]) "cache".toList =
      some (composeRequest "cache" ["web", "db"] "", "h3".toList) ∧
    "h1".toList ≠ "h2".toList ∧ "h2".toList ≠ "h3".toList := by
  have apart := (anti_affinity_kept [worker "h1", worker "h2", worker "h3"] [] (fun _ => []) [] []
    [composeRequest "web" ["db"] "h1", composeRequest "db" [] "h2",
      composeRequest "cache" ["web", "db"] ""] ?_).1
  · refine ⟨rfl, ?_, ?_⟩
    · exact apart "web".toList "db".toList (composeRequest "web" ["db"] "h1")
        (composeRequest "db" [] "h2") _ _ rfl rfl (by decide) rfl rfl (.inl (by decide))
    · exact apart "db".toList "cache".toList (composeRequest "db" [] "h2")
        (composeRequest "cache" ["web", "db"] "") _ _ rfl rfl (by decide) rfl rfl
        (.inr (by decide))
  · refine ⟨fun _ => nofun, ?_, ?_, trivial⟩
    · unfold ListsBack
      decide +kernel
    · unfold ListsBack
      decide +kernel

end Litevirt.Placement
