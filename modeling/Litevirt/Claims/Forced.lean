import Litevirt.Claims.Electorates
import Litevirt.Lib.Outcome

/-!
# Forced voter changes

`ValidateForcedShape` of `internal/corrosion/voter_force.go`, the check of a generation that
replaces one whose majority is lost, without the signatures.  A generation that is held has been
accepted as a change or as a forced one, so it lists no name twice, and a majority of it meets
every majority of the generation that an ordinary change decides next.
-/

namespace Litevirt.Claims

open VoterConfig Litevirt.Lib List

/-- What a row of the fencing log establishes about its host. -/
inductive Assurance where
  | verified
  | operatorConfirmed
  | requested
  | assumed
  | awaitingConfirmation
  | failed
  | unknown
  deriving DecidableEq, Repr

/-- `fence.Assurance` of a method and a result. -/
def assurance (method result : String) : Assurance :=
  if result = "manual-confirmed" then .operatorConfirmed
  else if method = "manual" ∧ result = "partial" then .awaitingConfirmation
  else if result = "partial" then
    if method ∈ ["ipmi", "ssh", "watchdog", "best-effort-ssh"] then .failed else .unknown
  else if result = "fenced" then
    if method = "ipmi" then .verified
    else if method ∈ ["ssh", "watchdog"] then .requested
    else if method = "best-effort-ssh" then .assumed
    else .unknown
  else .unknown

def fenceProofGrade (method result : String) : Bool :=
  match assurance method result with
  | .verified | .operatorConfirmed => true
  | _ => false

structure ForcedFence where
  host : String
  fenceID : String
  method : String
  result : String
  deriving DecidableEq, Repr

/-- `ForcedVoterEvidence` without the signatures. -/
structure ForcedVoterEvidence where
  fromGeneration : Int
  lost : List String
  fences : List ForcedFence
  deriving DecidableEq, Repr

def voterChangeForce (lost : List String) : VoterChange :=
  .force (",".intercalate (lost.insertionSort (· ≤ ·)))

/-- The loop over the new members, with the names seen so far. -/
def surviving (prev : VoterConfig) : List String → List VoterMember → Except String (List String)
  | seen, [] => .ok seen
  | seen, m :: rest =>
    match electorateEntry prev.members m.name with
    | none => .error s!"member {m.name} is not a surviving member of generation {prev.generation}"
    | some inc =>
      if m.name ∈ seen then
        .error s!"member {m.name} is not a surviving member of generation {prev.generation}"
      else if inc ≠ m.incarnation then
        .error ("member " ++ m.name ++ "'s incarnation changed across the forced generation")
      else surviving prev (m.name :: seen) rest

/-- The hosts with a proof-grade fence that has an id. -/
def fencedHosts (fences : List ForcedFence) : List String :=
  (fences.filter fun f => fenceProofGrade f.method f.result && f.fenceID ≠ "").map (·.host)

def validateForcedShape (prev : Option VoterConfig) (next : VoterConfigValue)
    (ev : ForcedVoterEvidence) : Except String Unit :=
  match prev with
  | none => .error "a forced reconfiguration replaces a generation with members"
  | some prev =>
    let lost := ev.lost.insertionSort (· ≤ ·)
    if prev.members = [] then .error "a forced reconfiguration replaces a generation with members"
    else if next.generation ≠ prev.generation + 1 ∨ ev.fromGeneration ≠ prev.generation then
      .error s!"forced generation {next.generation} does not follow {prev.generation}"
    else if lost = [] ∨ next.change.text ≠ (voterChangeForce lost).text then
      .error ("change \"" ++ next.change.text ++ "\" does not name the lost hosts " ++ goList lost)
    else do
      lost.forM fun l =>
        if (electorateEntry prev.members l).isNone then
          .error s!"{l} is named lost but is not a member of generation {prev.generation}"
        else .ok ()
      let seen ← surviving prev lost.dedup next.members
      if seen.length ≠ prev.members.length then
        .error s!"members and lost hosts do not cover generation {prev.generation} exactly"
      else if next.members = [] ∨ majorityOf prev.members.length ≤ next.members.length then
        .error (s!"{next.members.length} survivors of {prev.members.length} are a majority, " ++
          "or none: `lv cluster voter rm` is the change, not a forced one")
      else
        lost.forM fun l =>
          if l ∉ fencedHosts ev.fences then
            .error ("the forced generation carries no proof-grade fence of " ++ l)
          else .ok ()

/-- A minority that survives the loss of fenced members. -/
structure MinorityCut (prev : VoterConfig) (next : VoterConfigValue) (ev : ForcedVoterEvidence) :
    Prop where
  apart : ∀ name ∈ ev.lost, name ∉ next.members.map (·.name)
  together : ∀ name, name ∈ prev.members.map (·.name) ↔
    name ∈ ev.lost ∨ name ∈ next.members.map (·.name)
  once : (next.members.map (·.name)).Nodup
  kept : ∀ m ∈ next.members, m ∈ prev.members
  survivors : next.members ≠ [] ∧ next.members.length < majorityOf prev.members.length
  fenced : ∀ name ∈ ev.lost, ∃ f ∈ ev.fences,
    f.host = name ∧ fenceProofGrade f.method f.result = true ∧ f.fenceID ≠ ""

variable {prev : VoterConfig} {next : VoterConfigValue} {ev : ForcedVoterEvidence}

/-- The loop accepts entries of the previous generation under names not seen before. -/
theorem surviving_ok (distinct : (prev.members.map (·.name)).Nodup) {seen out : List String}
    {members : List VoterMember} :
    surviving prev seen members = .ok out ↔
      (∀ m ∈ members, m ∈ prev.members ∧ m.name ∉ seen) ∧ (members.map (·.name)).Nodup ∧
        out = (members.map (·.name)).reverse ++ seen := by
  induction members generalizing seen with
  | nil => simp [surviving, eq_comm]
  | cons m rest ih =>
    unfold surviving
    split
    · rename_i unlisted
      have stranger : m ∉ prev.members := fun member =>
        electorateEntry_isNone.mp unlisted (mem_map_of_mem member)
      simp [stranger]
    rename_i inc entry
    have listed : m ∈ prev.members ↔ inc = m.incarnation := by
      rw [← electorateEntry_iff distinct, entry, Option.some.injEq]
    split
    · rename_i again
      simp [again]
    split
    · rename_i changed
      simp [listed, changed]
    grind

/-- The names seen are as many as the previous members exactly when they cover them. -/
theorem seen_covers {names next : List String} (lost : List String) (distinct : names.Nodup)
    (once : next.Nodup)
    (apart : ∀ name ∈ next, name ∉ lost) (known : ∀ name ∈ lost, name ∈ names)
    (listed : ∀ name ∈ next, name ∈ names) :
    (next.reverse ++ lost.dedup).length = names.length ↔
      ∀ name ∈ names, name ∈ lost ∨ name ∈ next := by
  have nodup : (next.reverse ++ lost.dedup).Nodup := by
    refine nodup_append.mpr ⟨nodup_reverse.mpr once, nodup_dedup _, ?_⟩
    rintro name member _ gone rfl
    exact apart name (mem_reverse.mp member) (mem_dedup.mp gone)
  have within : next.reverse ++ lost.dedup ⊆ names := by
    intro name member
    rcases mem_append.mp member with member | gone
    · exact listed name (mem_reverse.mp member)
    · exact known name (mem_dedup.mp gone)
  have below := subperm_of_subset nodup within
  constructor
  · intro same name member
    have seen := (below.perm_of_length_le same.ge).symm.subset member
    rw [mem_append, mem_reverse, mem_dedup] at seen
    exact seen.symm
  · intro covered
    refine below.length_le.antisymm (subperm_of_subset distinct fun name member => ?_).length_le
    rw [mem_append, mem_reverse, mem_dedup]
    exact (covered name member).symm

theorem mem_fencedHosts {fences : List ForcedFence} {name : String} :
    name ∈ fencedHosts fences ↔ ∃ f ∈ fences,
      f.host = name ∧ fenceProofGrade f.method f.result = true ∧ f.fenceID ≠ "" := by
  simp only [fencedHosts, mem_map, mem_filter, Bool.and_eq_true, decide_eq_true_eq]
  grind

/-- A forced change is accepted exactly for a fenced minority cut. -/
theorem validateForcedShape_iff (distinct : (prev.members.map (·.name)).Nodup)
    (follows : next.generation = prev.generation + 1 ∧ ev.fromGeneration = prev.generation)
    (named : next.change.text = (voterChangeForce ev.lost).text) (someLost : ev.lost ≠ []) :
    validateForcedShape (some prev) next ev = .ok () ↔ MinorityCut prev next ev := by
  have inLost (name : String) : name ∈ ev.lost.insertionSort (· ≤ ·) ↔ name ∈ ev.lost :=
    mem_insertionSort _
  have text : next.change.text = (voterChangeForce (ev.lost.insertionSort (· ≤ ·))).text := by
    rw [named, voterChangeForce, voterChangeForce,
      (pairwise_insertionSort (· ≤ ·) ev.lost).insertionSort_eq]
  obtain ⟨first, member⟩ := exists_mem_of_ne_nil _ someLost
  have filled : ev.lost.insertionSort (· ≤ ·) ≠ [] := ne_nil_of_mem ((inLost first).mpr member)
  simp only [validateForcedShape, guard_eq_ok, bind_eq_ok_iff, forM_eq_ok, surviving_ok distinct,
    follows.1, follows.2, filled, ← text, inLost, mem_dedup, Option.isNone_iff_eq_none,
    electorateEntry_isNone, ne_eq, not_true_eq_false, or_self, not_or, not_not, exists_const,
    not_false_eq_true, true_and, and_true, not_le]
  generalize ev.lost.insertionSort (· ≤ ·) = lost at inLost
  constructor
  · rintro ⟨-, known, _, ⟨entries, once, rfl⟩, covered, size, fenced⟩
    have whole := (seen_covers _ distinct once (by grind) (by grind) (by grind)).mp
      (covered.trans (length_map _).symm)
    exact ⟨by grind, by grind, once, fun m member => (entries m member).1, size,
      fun name lost => mem_fencedHosts.mp (fenced name lost)⟩
  · rintro ⟨apart, together, once, kept, size, fenced⟩
    have whole := (seen_covers lost distinct once (by grind) (by grind) (by grind)).mpr
      (by grind)
    exact ⟨by grind, by grind, _, ⟨by grind, once, rfl⟩, whole.trans (length_map _), size,
      fun name lost => mem_fencedHosts.mpr (fenced name lost)⟩

theorem validateForcedShape_iff_two_lost : MinorityCut
    ⟨⟨4, [⟨"a", "1"⟩, ⟨"b", "2"⟩, ⟨"c", "3"⟩], .genesis, "", ""⟩, "", none⟩
    ⟨5, [⟨"a", "1"⟩], .force "b,c", "a", ""⟩
    ⟨4, ["c", "b"], [⟨"b", "f1", "ipmi", "fenced"⟩, ⟨"c", "f2", "ssh", "manual-confirmed"⟩]⟩ :=
  (validateForcedShape_iff (by decide) ⟨rfl, rfl⟩ (by decide +kernel) (by decide)).mp
    (by decide +kernel)

/-- A generation that is held: it was accepted as a change or as a forced one. -/
inductive Accepted (config : VoterConfig) : Prop where
  | changed (before : Option VoterConfig)
      (valid : validateVoterChange before config.toVoterConfigValue = none) : Accepted config
  | forced (before : Option VoterConfig) (ev : ForcedVoterEvidence)
      (valid : validateForcedShape before config.toVoterConfigValue ev = .ok ()) : Accepted config

theorem names_of_surviving {seen out : List String} {members : List VoterMember}
    (survives : surviving prev seen members = .ok out) :
    (members.map (·.name)).Nodup ∧ ∀ m ∈ members, m.name ∉ seen := by
  induction members generalizing seen with
  | nil => exact ⟨nodup_nil, nofun⟩
  | cons m rest ih =>
    unfold surviving at survives
    split at survives
    · cases survives
    split at survives
    · cases survives
    split at survives
    · cases survives
    rename_i fresh _
    obtain ⟨nodup, unseen⟩ := ih survives
    refine ⟨?_, forall_mem_cons.mpr ⟨fresh, fun other later known =>
      unseen other later (mem_cons_of_mem _ known)⟩⟩
    rw [map_cons, nodup_cons]
    refine ⟨fun again => ?_, nodup⟩
    obtain ⟨other, later, same⟩ := mem_map.mp again
    exact unseen other later (same ▸ mem_cons_self)

theorem Accepted.names_nodup {config : VoterConfig} (accepted : Accepted config) :
    (config.members.map (·.name)).Nodup := by
  cases accepted with
  | changed before valid => exact names_of_validateVoterChange valid
  | forced before ev valid =>
    unfold validateForcedShape at valid
    split at valid
    · cases valid
    simp only [guard_eq_ok, bind_eq_ok_iff] at valid
    obtain ⟨-, -, -, _, -, seen, survives, -⟩ := valid
    exact (names_of_surviving survives).1

/-- Consecutive electorates intersect: a majority of the one and a majority of the other share
a member with its incarnation. -/
theorem electorates_intersect (prev next : VoterConfig) (held : Accepted prev)
    (change : OrdinaryChange prev next) {old new : List VoterMember}
    (oldMajority : Majority prev.members old) (newMajority : Majority next.members new) :
    ∃ m ∈ old, m ∈ new := by
  have once := namesOnce_of_nodup held.names_nodup
  have oldMany := oldMajority.many
  have newMany := newMajority.many
  rcases change.difference.2 with ⟨host, added, removed⟩ | ⟨host, added, removed⟩
  · obtain ⟨kept, bound⟩ := change.grown once added removed
    exact exists_common_of_length_lt oldMajority.nodup newMajority.nodup
      (List.Subset.trans oldMajority.subset kept) newMajority.subset (by omega)
  obtain ⟨bound, gone, within⟩ := change.shrunk once added removed
  refine exists_common_of_length_lt oldMajority.nodup newMajority.nodup
    (List.Subset.trans oldMajority.subset within)
    (List.Subset.trans newMajority.subset (subset_cons_self _ _)) ?_
  rw [length_cons]
  omega

def generationOfMembers (generation : Int) (members : List VoterMember) (change : VoterChange) :
    VoterConfig where
  generation := generation
  members := members
  change := change
  createdBy := "a"
  createdAt := "2026-01-01T00:00:00Z"
  membersHash := ""
  certificate := none

/-- Three members and a fourth: the majorities of two and of three meet in `c`. -/
theorem added_member_electorates_intersect :
    ∃ m ∈ [(⟨"a", "1"⟩ : VoterMember), ⟨"c", "3"⟩],
      m ∈ [(⟨"b", "2"⟩ : VoterMember), ⟨"c", "3"⟩, ⟨"d", "4"⟩] :=
  electorates_intersect
    (generationOfMembers 1 [⟨"a", "1"⟩, ⟨"b", "2"⟩, ⟨"c", "3"⟩] .genesis)
    (generationOfMembers 2 [⟨"a", "1"⟩, ⟨"b", "2"⟩, ⟨"c", "3"⟩, ⟨"d", "4"⟩] (.add "d"))
    (.changed none (by decide)) ⟨by decide, by decide, by decide, by decide⟩
    ⟨by decide, by decide, by decide⟩ ⟨by decide, by decide, by decide⟩

end Litevirt.Claims
