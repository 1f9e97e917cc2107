import Litevirt.Lib.Transition

/-!
# Restart policy

A VM that stopped unexpectedly is restarted a limited number of times per window, with a delay
between restarts.  One row counts the restarts of a window and remembers the last one; the check
that finds the window over starts it afresh.
-/

namespace Litevirt.Failover.Restarts

open Litevirt.Lib List

/-- Times and durations are in nanoseconds. -/
def second : Int := 1000000000

/-- What RFC 3339 keeps of a time. -/
def stored (time : Int) : Int := time / second * second

structure RestartPolicy where
  maxAttempts : Nat
  window : Int
  delay : Int

structure RestartState where
  attemptCount : Nat
  windowStart : Int
  lastRestart : Option Int
  deriving DecidableEq

def incrementRestart (now : Int) : Option RestartState → RestartState
  | none => ⟨1, stored now, some (stored now)⟩
  | some rs => { rs with attemptCount := rs.attemptCount + 1, lastRestart := some (stored now) }

def resetRestartState (now : Int) : RestartState := ⟨0, stored now, none⟩

/-- A check of the owner: what the clock shows at its start and at each of the two writes,
whether the VM has stopped for a reason to restart it, and whether the gates behind the
counter (quorum, ownership, the lease) let the restart through. -/
structure Check where
  now : Int
  resetAt : Int
  restartAt : Int
  unexpected : Bool
  admitted : Bool

variable (policy : RestartPolicy)

/-- The window of the stored row is over. -/
def windowElapsed (row : Option RestartState) (check : Check) : Bool :=
  row.any fun rs => check.now - rs.windowStart > policy.window

/-- The row after the check and the time of the restart it made. -/
def maybeRestartVM (row : Option RestartState) (check : Check) :
    Option RestartState × Option Int :=
  if !check.unexpected then (row, none)
  else
    let elapsed := windowElapsed policy row check
    let rs := if elapsed then none else row
    let row := if elapsed then some (resetRestartState check.resetAt) else row
    if policy.maxAttempts > 0 && rs.any (·.attemptCount ≥ policy.maxAttempts) then (row, none)
    else if (rs.bind (·.lastRestart)).any fun last => check.now - last < policy.delay then
      (row, none)
    else if !check.admitted then (row, none)
    else (some (incrementRestart check.restartAt row), some check.restartAt)

/-- The row of a VM, its restarts, the latest first, and the end of the last check. -/
structure History where
  row : Option RestartState
  restarts : List Int
  clock : Int

def step (h : History) (check : Check) : Option History :=
  if h.clock ≤ check.now ∧ check.now ≤ check.resetAt ∧ check.resetAt ≤ check.restartAt then
    let (row, restart) := maybeRestartVM policy h.row check
    some ⟨row, restart.toList ++ h.restarts, check.restartAt⟩
  else none

/-- No interval as short as the window has more restarts than allowed. -/
def Bounded (restarts : List Int) : Prop :=
  ∀ first last, last - first ≤ policy.window →
    restarts.countP (fun time => first ≤ time ∧ time ≤ last) ≤ policy.maxAttempts

/-- Between two restarts the delay passes, but for the second that rounding may take. -/
def Spaced (restarts : List Int) : Prop :=
  restarts.IsChain fun later earlier => earlier + policy.delay < later + second

/-- A check that starts a new window comes after the last restart by more than the window and,
but for a second, by the delay. -/
def StartsLate (h : History) (check : Check) : Prop :=
  check.unexpected = true → windowElapsed policy h.row check = true →
    ∀ time ∈ h.restarts, time + policy.window < check.now ∧
      time + policy.delay < check.now + second

instance (h : History) (check : Check) : Decidable (StartsLate policy h check) :=
  inferInstanceAs (Decidable (_ → _ → _))

def History.attempts (h : History) : Nat := (h.row.map (·.attemptCount)).getD 0

/-- Restarts that the row does not count lie a window back; one it does not remember lies a
delay back. -/
structure Kept (h : History) : Prop where
  counted : h.attempts ≤ policy.maxAttempts
  earlier : ∀ time ∈ h.restarts.drop h.attempts, time + policy.window < h.clock
  remembered : ∀ time ∈ h.restarts.head?, h.row.bind (·.lastRestart) = some (stored time) ∨
    time + policy.delay < h.clock + second
  bounded : Bounded policy h.restarts
  spaced : Spaced policy h.restarts

namespace Kept

variable {policy} {h : History} {now : Int}

theorem later (kept : Kept policy h) (after : h.clock ≤ now) :
    Kept policy { h with clock := now } := by
  refine { kept with earlier := fun time member => ?_, remembered := fun time member => ?_ }
  · exact Int.lt_of_lt_of_le (kept.earlier time member) after
  · refine (kept.remembered time member).imp_right fun apart => ?_
    exact Int.lt_of_lt_of_le apart (Int.add_le_add_right after _)

theorem reset (kept : Kept policy h) (written : Int) (late : ∀ time ∈ h.restarts,
      time + policy.window < now ∧ time + policy.delay < now + second) :
    Kept policy ⟨some (resetRestartState written), h.restarts, now⟩ :=
  { kept with
    counted := Nat.zero_le _
    earlier := fun time member => (late time member).1
    remembered := fun time member => .inr (late time (mem_of_mem_head? member)).2 }

theorem bounded_cons (kept : Kept policy h) (room : h.attempts < policy.maxAttempts)
    (after : h.clock ≤ now) : Bounded policy (now :: h.restarts) := by
  intro first last short
  rw [countP_cons]
  split
  · rename_i inside
    obtain ⟨-, upper⟩ := of_decide_eq_true inside
    -- what lies in an interval with this restart was counted by the row
    have outside : countP (fun time => decide (first ≤ time ∧ time ≤ last))
        (h.restarts.drop h.attempts) = 0 := by
      refine countP_eq_zero.mpr fun time member within => ?_
      have far := kept.earlier time member
      obtain ⟨lower, -⟩ := of_decide_eq_true within
      omega
    have recent : countP (fun time => decide (first ≤ time ∧ time ≤ last))
        (h.restarts.take h.attempts) ≤ h.attempts :=
      countP_le_length.trans (length_take_le _ _)
    rw [← take_append_drop h.attempts h.restarts, countP_append, outside]
    omega
  · exact kept.bounded first last short

theorem restart (kept : Kept policy h) (room : h.attempts < policy.maxAttempts)
    (after : h.clock ≤ now)
    (waited : ∀ time ∈ h.restarts.head?, time + policy.delay < now + second) :
    Kept policy ⟨some (incrementRestart now h.row), now :: h.restarts, now⟩ := by
  have attempts : History.attempts ⟨some (incrementRestart now h.row), now :: h.restarts, now⟩ =
      h.attempts + 1 := by
    unfold History.attempts
    cases h.row <;> rfl
  refine ⟨attempts.trans_le room, ?_, ?_, kept.bounded_cons room after,
    kept.spaced.cons waited⟩
  · rw [attempts, drop_succ_cons]
    exact fun time member => Int.lt_of_lt_of_le (kept.earlier time member) after
  · rintro time ⟨⟩
    left
    cases h.row <;> rfl

/-- The delay has passed at a check that remembers no later restart. -/
theorem waited (kept : Kept policy h)
    (free : (h.row.bind (·.lastRestart)).any (fun last => h.clock - last < policy.delay) = false) :
    ∀ time ∈ h.restarts.head?, time + policy.delay < h.clock + second := by
  intro time member
  rcases kept.remembered time member with last | apart
  · rw [last] at free
    have passed := of_decide_eq_false free
    unfold stored second at *
    omega
  · exact apart

/-- What is left of a check whose counter admits a restart. -/
theorem proceed (kept : Kept policy h) (room : h.attempts < policy.maxAttempts)
    (free : (h.row.bind (·.lastRestart)).any (fun last => h.clock - last < policy.delay) = false)
    (after : h.clock ≤ now) (admitted : Bool) :
    let made := if !admitted then (h.row, none) else (some (incrementRestart now h.row), some now)
    Kept policy ⟨made.1, made.2.toList ++ h.restarts, now⟩ := by
  cases admitted with
  | false => exact kept.later after
  | true =>
    refine kept.restart room after fun time member => ?_
    exact Int.lt_of_lt_of_le (kept.waited free time member) (Int.add_le_add_right after _)

theorem step (kept : Kept policy h) (limited : 0 < policy.maxAttempts) {check : Check}
    {next : History} (late : StartsLate policy h check) (done : step policy h check = some next) :
    Kept policy next := by
  simp only [Restarts.step, maybeRestartVM] at done
  split at done
  · rename_i ordered
    obtain rfl := Option.some.inj done
    have begun := kept.later ordered.1
    have ends : check.now ≤ check.restartAt := ordered.2.1.trans ordered.2.2
    split
    · exact begun.later ends
    rename_i unexpected
    cases elapsed : windowElapsed policy h.row check with
    | true =>
      have late := late (by simpa using unexpected) elapsed
      simpa using (begun.reset check.resetAt late).proceed limited rfl ends check.admitted
    | false =>
      simp only [Bool.false_eq_true, if_false]
      split
      · exact begun.later ends
      split
      · exact begun.later ends
      rename_i room free
      refine begun.proceed ?_ (by simpa using free) ends check.admitted
      unfold History.attempts
      cases row : h.row with
      | none => exact limited
      | some rs => simpa [row, limited] using room
  · cases done

end Kept

/-- Where no check starts a new window early, the limits hold over every interval. -/
theorem restarts_within_limits {policy : RestartPolicy} (limited : 0 < policy.maxAttempts)
    {start : Int} {h : History}
    (run : Run (step policy) (StartsLate policy) ⟨none, [], start⟩ h) :
    Bounded policy h.restarts ∧ Spaced policy h.restarts := by
  have initial : Kept policy ⟨none, [], start⟩ :=
    ⟨Nat.zero_le _, nofun, nofun, fun _ _ _ => Nat.zero_le _, .nil⟩
  have kept := run.invariant (Kept policy) initial fun _ _ _ late done kept =>
    kept.step limited late done
  exact ⟨kept.bounded, kept.spaced⟩

/-- Two attempts in ten seconds, five seconds apart. -/
def twice : RestartPolicy := ⟨2, 10 * second, 5 * second⟩

def stopAt (now : Int) : Check := ⟨now * second, now * second, now * second, true, true⟩

theorem restarts_within_limits_twice : ∃ h,
    Run (step twice) (StartsLate twice) ⟨none, [], 0⟩ h ∧
      h.restarts = [21 * second, 9 * second, 0] ∧
      Bounded twice h.restarts ∧ Spaced twice h.restarts := by
  obtain ⟨h, run, made⟩ : ∃ h, Run (step twice) (StartsLate twice) ⟨none, [], 0⟩ h ∧
      h.restarts = [21 * second, 9 * second, 0] :=
    Run.reaches [stopAt 0, stopAt 9, stopAt 21] (by decide +kernel)
  exact ⟨h, run, made, restarts_within_limits (by decide) run⟩

/-- The window that starts with the third restart forgets the second: two seconds lie between
these, and three restarts in seven seconds. -/
theorem restarts_exceed_limits : ∃ h,
    Run (step twice) (fun _ _ => True) ⟨none, [], 0⟩ h ∧
      h.restarts = [16 * second, 11 * second, 9 * second, 0] ∧
      ¬ Bounded twice h.restarts ∧ ¬ Spaced twice h.restarts := by
  obtain ⟨h, run, made⟩ : ∃ h, Run (step twice) (fun _ _ => True) ⟨none, [], 0⟩ h ∧
      h.restarts = [16 * second, 11 * second, 9 * second, 0] :=
    Run.reaches [stopAt 0, stopAt 9, stopAt 11, stopAt 16] (by decide +kernel)
  refine ⟨h, run, made, fun bounded => ?_, fun spaced => ?_⟩
  · exact absurd (bounded (9 * second) (16 * second) (by decide)) (by rw [made]; decide +kernel)
  · rw [made] at spaced
    exact absurd spaced (by unfold Spaced; decide +kernel)

end Litevirt.Failover.Restarts
