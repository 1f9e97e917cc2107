import Litevirt.Lease.Acquire

/-!
# The start lease of a VM

`TryVMStartLease` and `ReleaseVMStartLease` of `internal/health/reconciler.go`, for one VM and one
database.  Every path that starts a VM takes the lease under a name of its own.  A call writes
the row and then reads it; other calls may come between.  Times are as in `Lease.Acquire`.
-/

namespace Litevirt.Lease.VMStart

open Litevirt.Lib List

def vmLockTTL : Int := 600 * 1000000000

structure VMLock where
  holder : String
  expires : Int
  deriving DecidableEq

/-- The upsert: a lease that stands is left to its holder. -/
def upsert (holder : String) (now : Int) : Option VMLock → VMLock
  | none => ⟨holder, second (now + vmLockTTL)⟩
  | some lock =>
    if lock.expires < second now ∨ lock.holder = holder then ⟨holder, second (now + vmLockTTL)⟩
    else lock

/-- The row, the clock, the callers that have written and not read yet, and the leases as their
holders found them, up to the release. -/
structure State where
  lock : Option VMLock
  clock : Int
  calls : List String
  held : List VMLock

inductive Event where
  | tick (nanos : Nat)
  /-- The first statement of a call, with a time read before it. -/
  | write (holder : String) (now : Int)
  /-- The second statement: the caller holds the lease if the row names it. -/
  | read (holder : String)
  | release (holder : String)

def step (s : State) : Event → Option State
  | .tick nanos => some { s with clock := s.clock + nanos }
  | .write holder now =>
    if now ≤ s.clock then
      some { s with lock := some (upsert holder now s.lock), calls := holder :: s.calls }
    else none
  | .read holder =>
    if holder ∈ s.calls then
      some { s with
        calls := s.calls.erase holder
        held := (s.lock.filter (·.holder = holder)).toList ++ s.held }
    else none
  | .release holder => some { s with
      lock := s.lock.filter (·.holder ≠ holder), held := s.held.filter (·.holder ≠ holder) }

/-- A holder that takes its lease again has not read its clock before the last time. -/
def InOrder (s : State) : Event → Prop
  | .write holder now =>
    ∀ lock ∈ s.lock, lock.holder = holder → lock.expires ≤ second (now + vmLockTTL)
  | _ => True

instance (s : State) (event : Event) : Decidable (InOrder s event) := by
  cases event <;> unfold InOrder <;> infer_instance

/-- The row names the holder of every lease that has not expired. -/
def Backed (s : State) : Prop :=
  ∀ own ∈ s.held, second s.clock ≤ own.expires →
    ∃ lock ∈ s.lock, lock.holder = own.holder ∧ own.expires ≤ lock.expires

theorem Backed.step {s next : State} {event : Event} (backed : Backed s)
    (ordered : InOrder s event) (done : step s event = some next) : Backed next := by
  cases event with
  | tick nanos =>
    cases done
    refine fun own member stands => backed own member ?_
    simp only [second] at stands ⊢
    omega
  | write holder now =>
    obtain ⟨before, ⟨⟩⟩ := Option.ite_none_right_eq_some.mp done
    intro own member stands
    obtain ⟨lock, stored, named, reaches⟩ := backed own member stands
    have stillStands : ¬ lock.expires < second now := by
      simp only [second] at stands ⊢
      omega
    refine ⟨_, rfl, ?_⟩
    rw [Option.mem_def.mp stored, upsert]
    split
    · rename_i free
      have same := free.resolve_left stillStands
      exact ⟨same.symm.trans named, reaches.trans (ordered lock stored same)⟩
    · exact ⟨named, reaches⟩
  | read holder =>
    obtain ⟨-, ⟨⟩⟩ := Option.ite_none_right_eq_some.mp done
    intro own member stands
    rcases mem_append.mp member with new | old
    · have stored := (Option.filter_eq_some_iff.mp (Option.mem_toList.mp new)).1
      exact ⟨own, stored, rfl, Int.le_refl _⟩
    · exact backed own old stands
  | release holder =>
    cases done
    intro own member stands
    obtain ⟨member, other⟩ := mem_filter.mp member
    obtain ⟨lock, stored, named, reaches⟩ := backed own member stands
    exact ⟨lock, Option.filter_eq_some_iff.mpr ⟨stored, named ▸ other⟩, named, reaches⟩

/-- In every interleaving, leases that have not expired or been released are of one holder. -/
theorem start_leases_exclude {start : Int} {s : State}
    (run : Run step InOrder ⟨none, start, [], []⟩ s) : ∀ own ∈ s.held, ∀ other ∈ s.held,
      second s.clock ≤ own.expires → second s.clock ≤ other.expires →
        own.holder = other.holder := by
  have backed := run.invariant Backed nofun fun _ _ _ ordered done backed =>
    backed.step ordered done
  intro own first other next stands standsToo
  obtain ⟨lock, stored, named, -⟩ := backed own first stands
  obtain ⟨lock', stored', named', -⟩ := backed other next standsToo
  obtain rfl := Option.mem_unique stored stored'
  exact named.symm.trans named'

/-- The restart path is refused while the reconciler holds the lease, and takes it later. -/
theorem start_leases_exclude_vmcheck : ∃ s, Run step InOrder ⟨none, 0, [], []⟩ s ∧
    s.held = [⟨"a/vmcheck", 1201⟩, ⟨"a", 600⟩] ∧ ∀ own ∈ s.held, ∀ other ∈ s.held,
      second s.clock ≤ own.expires → second s.clock ≤ other.expires →
        own.holder = other.holder := by
  obtain ⟨s, run, held⟩ : ∃ s, Run step InOrder ⟨none, 0, [], []⟩ s ∧
      s.held = [⟨"a/vmcheck", 1201⟩, ⟨"a", 600⟩] :=
    Run.reaches [.write "a" 0, .write "a/vmcheck" 0, .read "a", .read "a/vmcheck",
      .tick 601000000000, .write "a/vmcheck" 601000000000, .read "a/vmcheck"] (by decide +kernel)
  exact ⟨s, run, held, start_leases_exclude run⟩

end Litevirt.Lease.VMStart
