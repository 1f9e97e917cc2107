import Litevirt.Failover.Cycle

/-!
# Recoveries that wait out a partition pause

A recovery that relies on the host's partition pause is to come at least the wait `W` after its
fence was recorded.  The wait of a host survives only while the host is marked as handled, but
`recoverHosts` unmarks a host without dropping its wait; its next fence then finds an old
deadline.
-/

namespace Litevirt.Failover

open Litevirt.Lib List Function

/-- At least the wait has passed since the fence was recorded. -/
def Recovery.Waited (recovery : Recovery) : Prop :=
  recovery.recordedAt + recovery.wait ≤ recovery.recoveredAt

/-- `recoverHosts` puts no host back in service while the host's wait is pending. -/
def KeepsWaits (c : Coordinator) : CycleEvent → Prop
  | .recoverHosts healthy recent =>
    ∀ host, c.promotes healthy recent host = true → c.pauseWaits host = none
  | _ => True

/-- What holds in every cycle: only a handled host is waited for, a deadline is its fence's
and every recovery so far waited. -/
structure Waiting (c : Coordinator) : Prop where
  handled : ∀ host w, c.pauseWaits host = some w → c.fenced host = true
  anchored : ∀ host w, c.pauseWaits host = some w → w.recordedAt + w.wait ≤ w.deadline
  logged : ∀ row ∈ c.fencingLog, row.recordedAt ≤ c.mono
  waited : ∀ recovery ∈ c.recoveries, recovery.Waited

/-- A change that touches no wait and no recovery and unmarks no host. -/
structure Kept (c next : Coordinator) : Prop where
  pauseWaits : next.pauseWaits = c.pauseWaits
  recoveries : next.recoveries = c.recoveries
  fencingLog : next.fencingLog = c.fencingLog
  mono : c.mono ≤ next.mono
  fenced : ∀ host, c.fenced host = true → next.fenced host = true

namespace Kept

variable {c next last : Coordinator}

theorem refl (c : Coordinator) : Kept c c :=
  ⟨rfl, rfl, rfl, Int.le_refl _, fun _ => id⟩

theorem trans (first : Kept c next) (second : Kept next last) : Kept c last :=
  ⟨second.pauseWaits.trans first.pauseWaits, second.recoveries.trans first.recoveries,
    second.fencingLog.trans first.fencingLog, Int.le_trans first.mono second.mono,
    fun host marked => second.fenced host (first.fenced host marked)⟩

theorem markHandled (c : Coordinator) (host : String) : Kept c (c.markHandled host) := by
  refine ⟨rfl, rfl, rfl, Int.le_refl _, fun other marked => ?_⟩
  simp only [Coordinator.markHandled, update_apply]
  split
  · rfl
  · exact marked

theorem markHostState (c : Coordinator) (host : String) (state : HostState) :
    Kept c (c.markHostState host state) := by
  unfold Coordinator.markHostState
  split
  · exact ⟨rfl, rfl, rfl, Int.le_refl _, fun _ => id⟩
  · exact refl c

theorem recoverWorkloads (c : Coordinator) (host : String) (moved : Bool) :
    Kept c (c.recoverWorkloads host moved) := by
  unfold Coordinator.recoverWorkloads
  split
  · exact ⟨rfl, rfl, rfl, Int.le_refl _, fun _ => id⟩
  · exact refl c

theorem commit (c : Coordinator) (host : String) : Kept c (c.commit host) :=
  ⟨rfl, rfl, rfl, Int.le_refl _, fun _ => id⟩

theorem markDown (c : Coordinator) (host : String) (h : HostRow) (fr : FenceResult)
    (latched : Bool) : Kept c (c.markDown host h fr latched) ∧
      (c.markDown host h fr latched).fenced host = true := by
  have handled := markHandled c host
  have self : (c.markHandled host).fenced host = true := update_self ..
  unfold Coordinator.markDown
  split
  · have offline := markHostState (c.markHandled host) host .offline
    exact ⟨handled.trans offline, offline.fenced host self⟩
  · exact ⟨handled, self⟩

theorem elapse (c : Coordinator) (time : Nat) : Kept c (c.elapse time) :=
  ⟨rfl, rfl, rfl, Int.le_add_of_nonneg_right (Int.natCast_nonneg time), fun _ => id⟩

end Kept

namespace Waiting

variable {c next : Coordinator}

section

variable (waiting : Waiting c)
include waiting

theorem keep (kept : Kept c next) : Waiting next where
  handled host w pending := by
    rw [kept.pauseWaits] at pending
    exact kept.fenced host (waiting.handled host w pending)
  anchored host w pending := by
    rw [kept.pauseWaits] at pending
    exact waiting.anchored host w pending
  logged row member := by
    rw [kept.fencingLog] at member
    exact Int.le_trans (waiting.logged row member) kept.mono
  waited recovery member := by
    rw [kept.recoveries] at member
    exact waiting.waited recovery member

variable {host : String}

theorem none_of_unmarked (unmarked : c.fenced host = false) :
    c.pauseWaits host = none := by
  cases pending : c.pauseWaits host with
  | none => rfl
  | some w =>
    have marked := waiting.handled host w pending
    rw [unmarked] at marked
    cases marked

theorem forgetWait (host : String) : Waiting (c.forgetWait host) where
  handled other w pending := by
    simp only [Coordinator.forgetWait, update_apply] at pending
    split at pending
    · cases pending
    · exact waiting.handled other w pending
  anchored other w pending := by
    simp only [Coordinator.forgetWait, update_apply] at pending
    split at pending
    · cases pending
    · exact waiting.anchored other w pending
  logged := waiting.logged
  waited := waiting.waited

variable {recordedAt : Int}

theorem note (host : String) {wait : Int}
    (passed : recordedAt + wait ≤ c.mono) : Waiting (c.note host recordedAt wait) where
  handled := waiting.handled
  anchored := waiting.anchored
  logged := waiting.logged
  waited recovery member := by
    rcases mem_cons.mp member with rfl | earlier
    · exact passed
    · exact waiting.waited recovery earlier

theorem startWait (marked : c.fenced host = true)
    (lastContact : Option Int) (past : recordedAt ≤ c.mono) :
    Waiting { c with pauseWaits :=
      Function.update c.pauseWaits host (some (c.startWait lastContact recordedAt)) } where
  handled other w pending := by
    simp only [update_apply] at pending
    split at pending
    · rename_i same
      exact same ▸ marked
    · exact waiting.handled other w pending
  anchored other w pending := by
    simp only [update_apply] at pending
    split at pending
    · cases pending
      have anchor : c.mono ≤ (c.startWait lastContact recordedAt).deadline -
          c.partitionPauseWait := by
        unfold Coordinator.startWait
        cases lastContact with
        | none => simp
        | some contact =>
          dsimp only
          split <;> omega
      have bound : recordedAt + c.partitionPauseWait ≤
          (c.startWait lastContact recordedAt).deadline := by omega
      exact bound
    · exact waiting.anchored other w pending
  logged := waiting.logged
  waited := waiting.waited

theorem recoverFenced (unmarked : c.pauseWaits host = none)
    (past : recordedAt ≤ c.mono) (h : HostRow) (fr : FenceResult)
    (ranUnder : Option FenceStrategy) (latched : Bool) (o : Circumstances) :
    Waiting (c.recoverFenced host h fr ranUnder latched recordedAt o) := by
  obtain ⟨kept, handled⟩ := Kept.markDown c host h fr latched
  unfold Coordinator.recoverFenced
  generalize c.markDown host h fr latched = marked at kept handled
  have holds : Waiting marked := waiting.keep kept
  have free : marked.pauseWaits host = none := by rw [kept.pauseWaits, unmarked]
  have recorded : recordedAt ≤ marked.mono := Int.le_trans past kept.mono
  split
  · exact holds
  split
  · simp only [Coordinator.pauseDeadlinePassed, free]
    have started := holds.startWait handled o.lastContact recorded
    split
    · rename_i waited
      have waited := of_decide_eq_true waited
      refine Waiting.keep ?_ (Kept.recoverWorkloads _ host o.moved)
      refine (started.forgetWait host).note host ?_
      have unwaited : recordedAt + marked.partitionPauseWait ≤ marked.mono := by omega
      exact unwaited
    · exact started
  · exact (holds.forgetWait host).keep (Kept.recoverWorkloads _ host o.moved)

theorem log (host : String) (method : Method) (result : LogResult)
    (detail : Detail) (timestamp : Int) : Waiting { c with
      fencingLog := c.fencingLog ++ [⟨host, method, result, detail, timestamp, c.mono⟩] } := by
  refine ⟨waiting.handled, waiting.anchored, fun row member => ?_, waiting.waited⟩
  rcases mem_append.mp member with earlier | new
  · exact waiting.logged row earlier
  · obtain rfl := mem_singleton.mp new
    exact Int.le_refl _

theorem recordFence (host : String) (h : HostRow) (fr : FenceResult)
    (latched : Bool) : Waiting (c.recordFence host h fr latched) := by
  have logged := waiting.log host fr.method fr.logResult fr.detail (c.wall / second * second)
  unfold Coordinator.recordFence
  split
  · exact logged.keep (Kept.markHostState _ host _)
  · exact logged

end

theorem recordFence_frame (c : Coordinator) (host : String) (h : HostRow) (fr : FenceResult)
    (latched : Bool) : (c.recordFence host h fr latched).pauseWaits = c.pauseWaits ∧
      (c.recordFence host h fr latched).mono = c.mono := by
  unfold Coordinator.recordFence Coordinator.markHostState
  dsimp only
  split
  · split <;> exact ⟨rfl, rfl⟩
  · exact ⟨rfl, rfl⟩

variable {host : String}

theorem failover (waiting : Waiting c) (unmarked : c.pauseWaits host = none)
    (h : HostRow) (o : Circumstances) : Waiting (c.failover host h o) := by
  unfold Coordinator.failover
  dsimp only
  split
  · exact waiting
  generalize asSelfPause o.fenceResult _ = fr
  have fenced := waiting.keep (Kept.elapse c o.fencing)
  have recorded := fenced.recordFence host h fr o.fenceStateLatched
  have frame := recordFence_frame (c.elapse o.fencing) host h fr o.fenceStateLatched
  have later := recorded.keep (Kept.elapse _ o.recording)
  split
  · exact later
  refine (later.keep (Kept.commit _ host)).recoverFenced ?_ ?_ _ fr _ _ o
  · exact (congrFun frame.1 host).trans unmarked
  · have advanced := (Kept.elapse
      ((c.elapse o.fencing).recordFence host h fr o.fenceStateLatched) o.recording).mono
    rw [frame.2] at advanced
    exact advanced

theorem fencePath (waiting : Waiting c) (unmarked : c.pauseWaits host = none)
    (h : HostRow) (afresh : Bool) (o : Circumstances) :
    Waiting (c.fencePath host h afresh o) := by
  unfold Coordinator.fencePath
  split
  · exact waiting
  split
  · exact waiting
  · split
    · exact waiting
    · exact waiting.failover unmarked h o

theorem skipOrFence (waiting : Waiting c) (unmarked : c.pauseWaits host = none)
    (h : HostRow) (recorded : Bool) (o : Circumstances) :
    Waiting (c.skipOrFence host h recorded o) := by
  have handled := waiting.keep (Kept.markHandled c host)
  unfold Coordinator.skipOrFence
  split
  · exact handled.keep (Kept.recoverWorkloads _ host o.moved)
  split
  · exact waiting.fencePath unmarked h true o
  · split
    · exact handled
    · exact waiting

variable {row : FenceRow}

theorem mem_of_newestFenceAttempt {log : List FenceRow}
    (newest : newestFenceAttempt log host = some row) : row ∈ log := by
  have fold : ∀ (rows : List FenceRow) (best : Option FenceRow),
      rows.foldl newerAttempt best = some row → best = some row ∨ row ∈ rows := by
    intro rows
    induction rows with
    | nil => exact fun best found => .inl found
    | cons first rest ih =>
      intro best found
      rcases ih _ found with chosen | member
      · unfold newerAttempt at chosen
        split at chosen
        · cases chosen
          exact .inr mem_cons_self
        split at chosen
        · cases chosen
          exact .inr mem_cons_self
        · exact .inl chosen
      · exact .inr (mem_cons_of_mem first member)
  rcases fold _ none newest with absurd | member
  · cases absurd
  · exact mem_of_mem_filter member

theorem mem_of_recordedFence {h : HostRow}
    (found : c.recordedFence host h = some row) : row ∈ c.fencingLog := by
  unfold Coordinator.recordedFence at found
  split at found
  · cases found
  split at found
  · cases found
  rename_i newest
  split at found
  · cases found
  · cases found
    exact mem_of_newestFenceAttempt newest

theorem judge (waiting : Waiting c) (unmarked : c.pauseWaits host = none)
    (afresh : Bool) (o : Circumstances) : Waiting (c.judge host afresh o) := by
  unfold Coordinator.judge
  split
  · exact waiting
  rename_i h _
  split
  · exact waiting
  split
  · split
    · rename_i row found
      split
      · exact waiting.recoverFenced unmarked
          (waiting.logged row (mem_of_recordedFence found)) h _ _ _ o
      · split
        · exact waiting.skipOrFence unmarked h true o
        · exact waiting.failover unmarked _ o
      · exact waiting.skipOrFence unmarked h true o
    · exact waiting.skipOrFence unmarked h false o
  · exact waiting.fencePath unmarked h afresh o

/-- `retryPauseWait` recovers only once the deadline of the host's own fence has passed. -/
theorem retryPauseWait (waiting : Waiting c) (host : String) (moved : Bool) :
    Waiting (c.retryPauseWait host moved).2 := by
  unfold Coordinator.retryPauseWait
  split
  · exact waiting
  rename_i w pending
  split
  · exact waiting
  split
  · exact waiting.forgetWait host
  split
  · exact waiting
  rename_i reached
  split
  · refine Waiting.keep ?_ (Kept.recoverWorkloads _ host moved)
    refine (waiting.forgetWait host).note host ?_
    exact Int.le_trans (waiting.anchored host w pending) (Int.not_lt.mp reached)
  · exact waiting.forgetWait host

theorem retryPauseWait_unhandled {moved : Bool}
    (unhandled : (c.retryPauseWait host moved).1 = false) :
    (c.retryPauseWait host moved).2 = c ∧ c.pauseWaits host = none := by
  unfold Coordinator.retryPauseWait at unhandled ⊢
  cases pending : c.pauseWaits host with
  | none => exact ⟨rfl, rfl⟩
  | some w =>
    simp only [pending] at unhandled
    split at unhandled
    · cases unhandled
    split at unhandled
    · cases unhandled
    · split at unhandled
      · cases unhandled
      · split at unhandled <;> cases unhandled

theorem unmark (waiting : Waiting c) (free : c.pauseWaits host = none) :
    Waiting (c.unmark host) where
  handled other w pending := by
    have different : other ≠ host := by
      rintro rfl
      have pending : c.pauseWaits other = some w := pending
      rw [free] at pending
      cases pending
    have marked := waiting.handled other w pending
    simpa only [Coordinator.unmark, update_of_ne different] using marked
  anchored := waiting.anchored
  logged := waiting.logged
  waited := waiting.waited

theorem candidate (waiting : Waiting c) (host : String) (o : Circumstances) :
    Waiting (c.candidate host o) := by
  unfold Coordinator.candidate
  split
  · have retried := waiting.retryPauseWait host o.moved
    dsimp only
    split
    · exact retried
    rename_i unhandled
    obtain ⟨same, free⟩ := retryPauseWait_unhandled (Bool.eq_false_iff.mpr unhandled)
    rw [same]
    split
    · exact waiting.keep (Kept.recoverWorkloads c host o.moved)
    split
    · exact waiting.keep ((Kept.markHandled c host).trans
        (Kept.recoverWorkloads _ host o.moved))
    split
    · exact waiting
    · split
      · exact (waiting.unmark free).judge free true o
      · exact waiting
  · rename_i unmarked
    exact waiting.judge (waiting.none_of_unmarked (Bool.eq_false_iff.mpr unmarked)) false o

theorem clearRecoveredFromFenced (waiting : Waiting c) :
    Waiting c.clearRecoveredFromFenced where
  handled host w pending := by
    simp only [Coordinator.clearRecoveredFromFenced] at pending ⊢
    split at pending
    · cases pending
    · rename_i kept
      rw [if_neg kept]
      exact waiting.handled host w pending
  anchored host w pending := by
    simp only [Coordinator.clearRecoveredFromFenced] at pending
    split at pending
    · cases pending
    · exact waiting.anchored host w pending
  logged := waiting.logged
  waited := waiting.waited

theorem find_markHostState (c : Coordinator) (host other : String) (state : HostState) :
    (c.markHostState host state).hosts.find other =
      if other = host then (c.hosts.find host).map fun row => { row with state := state }
      else c.hosts.find other := by
  unfold Coordinator.markHostState
  split
  · rename_i row found
    rw [found]
    exact Table.find_put ..
  rename_i absent
  split
  · rename_i same
    rw [same, absent]
    rfl
  · rfl

theorem markHostState_frame (c : Coordinator) (host : String) (state : HostState) :
    (c.markHostState host state).fenceRelocated = c.fenceRelocated ∧
      (c.markHostState host state).fencingLog = c.fencingLog ∧
      (c.markHostState host state).pauseWaits = c.pauseWaits := by
  unfold Coordinator.markHostState
  split <;> exact ⟨rfl, rfl, rfl⟩

theorem promotes_recoverHost {healthy recent : List String} {other : String}
    (promoted : (Coordinator.recoverHost healthy recent c host).promotes healthy recent other =
      true) : c.promotes healthy recent other = true := by
  unfold Coordinator.recoverHost at promoted
  split at promoted
  · obtain ⟨relocated, log, -⟩ := markHostState_frame c host .active
    simp only [Coordinator.promotes, find_markHostState] at promoted
    split at promoted
    · rename_i row found
      split at found
      · -- the host itself is active now
        obtain ⟨stored, -, rfl⟩ := Option.map_eq_some_iff.mp found
        simp [Coordinator.recoverable] at promoted
      rename_i different
      simp only [Coordinator.recoverable, relocated, log,
        update_of_ne different] at promoted
      simp only [Coordinator.promotes, found]
      exact promoted
    · cases promoted
  · exact promoted

theorem recoverHost (waiting : Waiting c) {healthy recent : List String}
    (free : c.promotes healthy recent host = true → c.pauseWaits host = none) :
    Waiting (Coordinator.recoverHost healthy recent c host) := by
  unfold Coordinator.recoverHost
  split
  · rename_i promoted
    have frame := (markHostState_frame c host .active).2.2
    have active := waiting.keep (Kept.markHostState c host .active)
    have unmarked := active.unmark ((congrFun frame host).trans (free promoted))
    exact ⟨unmarked.handled, unmarked.anchored, unmarked.logged, unmarked.waited⟩
  · exact waiting

theorem pauseWaits_recoverHost (c : Coordinator) (healthy recent : List String) (host : String) :
    (Coordinator.recoverHost healthy recent c host).pauseWaits = c.pauseWaits := by
  unfold Coordinator.recoverHost
  split
  · exact (markHostState_frame c host .active).2.2
  · rfl

theorem recoverHosts (waiting : Waiting c) {healthy recent : List String}
    (free : ∀ host, c.promotes healthy recent host = true → c.pauseWaits host = none) :
    Waiting (c.recoverHosts healthy recent) := by
  unfold Coordinator.recoverHosts
  generalize c.hosts.rows.map Prod.fst = names
  induction names generalizing c with
  | nil => exact waiting
  | cons name names ih =>
    refine ih (waiting.recoverHost (free name)) fun host promoted => ?_
    rw [pauseWaits_recoverHost]
    exact free host (promotes_recoverHost promoted)

theorem step (waiting : Waiting c) {event : CycleEvent} (permitted : KeepsWaits c event)
    (stepped : c.step event = some next) : Waiting next := by
  cases event with
  | elapse mono wall =>
    cases stepped
    exact waiting.keep ⟨rfl, rfl, rfl,
      Int.le_add_of_nonneg_right (Int.natCast_nonneg mono), fun _ => id⟩
  | setHost host row | setHealth host rows | setVoters adopted configs =>
    cases stepped
    exact waiting.keep ⟨rfl, rfl, rfl, Int.le_refl _, fun _ => id⟩
  | recorded host method result detail timestamp =>
    cases stepped
    exact waiting.log ..
  | restart =>
    cases stepped
    exact ⟨(fun _ _ pending => nomatch pending), (fun _ _ pending => nomatch pending),
      waiting.logged, waiting.waited⟩
  | clearRecovered =>
    cases stepped
    exact waiting.clearRecoveredFromFenced
  | candidate host o =>
    cases stepped
    exact waiting.candidate host o
  | recoverHosts healthy recent =>
    cases stepped
    exact waiting.recoverHosts permitted

end Waiting

theorem Waiting.initial (mono wall : Int) : Waiting (Coordinator.initial mono wall) :=
  ⟨(fun _ _ pending => nomatch pending), (fun _ _ pending => nomatch pending),
    (fun _ member => nomatch member), (fun _ member => nomatch member)⟩

/-- In every run in which no host is put back in service while its wait is pending, every
recovery on a fence that relies on the host's pause waited out that fence. -/
theorem recoveries_waited {mono wall : Int} {c : Coordinator}
    (run : Run Coordinator.step KeepsWaits (Coordinator.initial mono wall) c) :
    ∀ recovery ∈ c.recoveries, recovery.Waited :=
  (Run.invariant run Waiting (.initial mono wall) fun _ _ _ permitted stepped waiting =>
    waiting.step permitted stepped).waited

def exampleHost : HostRow := ⟨.active, ⟨.bestEffort, true⟩, false⟩

/-- A cycle that fences the host, fails to reach it and relies on its pause. -/
def relying : Circumstances where
  retryClaims := false
  confirmationResumed := false
  confirmationFencesAfresh := false
  turnedActive := false
  upgradingTimedOut := false
  recentlyFenced := false
  localStall := false
  quorumRegain := false
  fenceStateLatched := true
  relyOnPartitionPause := true
  leaseToFence := true
  leaseAfterFence := true
  fenceResult := ⟨.bestEffortSsh, ⟨false, "unreachable"⟩, true⟩
  fencing := 0
  recording := 0
  safeFenceRequiresProof := false
  manualFenceConfirmed := false
  lastContact := none
  moved := false

/-- The rows of an observer that has missed the host since long before the fence. -/
def missedSince (started updated : Int) : List (String × HealthRow) :=
  [("a", ⟨.suspect, 20, some (started * second), updated * second⟩)]

/-- The host is fenced and recovered once its wait is over, comes back and is put in service,
and all of this happens again but for the end. -/
def waitedOut : List CycleEvent :=
  [.setHost "h" exampleHost, .elapse 60000000000 (60 * second), .clearRecovered,
    .candidate "h" relying, .recoverHosts [] [],
    .elapse 23000000000 (23 * second), .setHealth "h" (missedSince 30 83), .clearRecovered,
    .candidate "h" relying, .recoverHosts [] [],
    .elapse 400000000000 (400 * second), .clearRecovered, .recoverHosts ["h"] [],
    .elapse 60000000000 (60 * second), .clearRecovered, .candidate "h" relying,
    .recoverHosts [] [],
    .elapse 23000000000 (23 * second), .setHealth "h" (missedSince 490 566), .clearRecovered,
    .candidate "h" relying]

/-- The host fails and is fenced, comes back and is put in service, and fails again long
after `recentFenceWindow`. -/
def failsTwice : List CycleEvent :=
  [.setHost "h" exampleHost, .elapse 60000000000 (60 * second), .clearRecovered,
    .candidate "h" relying, .recoverHosts [] [],
    .elapse 10000000000 (10 * second), .clearRecovered, .recoverHosts ["h"] [],
    .elapse 400000000000 (400 * second), .clearRecovered, .candidate "h" relying]

/-- Whether an event meets the condition; only healthy hosts are put back. -/
def keepsWaits (c : Coordinator) : CycleEvent → Bool
  | .recoverHosts healthy recent =>
    healthy.all fun host => !c.promotes healthy recent host || (c.pauseWaits host).isNone
  | _ => true

theorem keepsWaits_sound (c : Coordinator) (event : CycleEvent)
    (kept : keepsWaits c event = true) : KeepsWaits c event := by
  cases event with
  | recoverHosts healthy recent =>
    intro host promoted
    have listed : host ∈ healthy := by
      unfold Coordinator.promotes at promoted
      split at promoted
      · exact of_decide_eq_true (Bool.and_eq_true_iff.mp promoted).2
      · cases promoted
    have free := all_eq_true.mp kept host listed
    simpa [promoted] using free
  | _ => trivial

/-- Two recoveries that are made, each twenty-three seconds after its fence; the host was in
service between them. -/
theorem recovery_after_wait : ∃ c, Run Coordinator.step KeepsWaits (Coordinator.initial 0 0) c ∧
    c.recoveries = [⟨"h", 543 * second, 23 * second, 566 * second⟩,
      ⟨"h", 60 * second, 23 * second, 83 * second⟩] ∧
    ∀ recovery ∈ c.recoveries, recovery.Waited :=
  (Run.executed keepsWaits_sound waitedOut (by decide +kernel)).imp fun _ ⟨run, recovered⟩ =>
    ⟨run, recovered, recoveries_waited run⟩

/-- The second fence of the host is recovered on at once, on the deadline of the first. -/
theorem recovery_on_old_deadline : ∃ c,
    Run Coordinator.step (fun _ _ => True) (Coordinator.initial 0 0) c ∧
    (⟨"h", 470 * second, 23 * second, 470 * second⟩ : Recovery) ∈ c.recoveries :=
  Run.reaches failsTwice (by decide +kernel)

end Litevirt.Failover
