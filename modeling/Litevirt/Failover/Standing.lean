import Litevirt.Failover.Health

/-!
# Whether a recorded fence still stands

`fenceStillStands`, `observerStreakSpans` and `observerRunStart` of
`internal/failover/coordinator.go`.  A fence stands when one observer's failing run spans it and
no other row shows an answer since.  A row that shows silence says nothing of the answers before
its run, so the fence can stand although the host answered.  It does not when every answer is
written and an observer that got one falls silent only after the runs from before it have ended.
-/

namespace Litevirt.Failover

open Litevirt.Lib

def offlineThreshold : Nat := failuresToFence

def healthFreshness : Int := 30 * second

def fenceSkewMargin : Int := 5 * second

def observerRunStart (n : Nat) (lastSeen : Option Int) (updatedAt : Int) : Int :=
  match lastSeen with
  | some started =>
    if started ≤ updatedAt then started else updatedAt - ((n : Int) - 1) * probeInterval
  | none => updatedAt - ((n : Int) - 1) * probeInterval

/-- Whether a row is of a fresh failing run that began before `instant`, by the margin. -/
def HealthRow.spans (row : HealthRow) (now instant : Int) : Bool :=
  row.status ≠ .unready && offlineThreshold ≤ row.consecutiveFailures &&
    now - healthFreshness < row.updatedAt &&
    observerRunStart row.consecutiveFailures row.lastSeen row.updatedAt ≤
      instant - fenceSkewMargin

def observerStreakSpans (rows : List (String × HealthRow)) (now instant : Int) : Bool :=
  rows.any fun entry => entry.2.spans now instant

/-- The verdict is that the host answered, healthy or unready. -/
def HealthRow.showsAnswer (row : HealthRow) : Bool :=
  row.consecutiveFailures = 0 || row.status = .unready

/-- Whether an observer's row says that the host answered since the fence. -/
def sawAnswer (host : String) (instant : Int) (entry : String × HealthRow) : Bool :=
  entry.1 ≠ host && entry.2.showsAnswer && instant - fenceSkewMargin < entry.2.updatedAt

def fenceStillStands (host : String) (rows : List (String × HealthRow)) (now instant : Int) :
    Except String Unit :=
  if observerStreakSpans rows now instant then
    match rows.find? (sawAnswer host instant) with
    | some entry => .error ("observer " ++ entry.1 ++ " saw the host answer after the fence")
    | none => .ok ()
  else .error "no observer has watched the host stay down since the fence"

/-- A fence that stands is spanned by a failing run. -/
theorem spanned_of_fenceStillStands {host : String} {rows : List (String × HealthRow)}
    {now instant : Int} (stands : fenceStillStands host rows now instant = .ok ()) :
    ∃ entry ∈ rows, entry.2.spans now instant = true := by
  unfold fenceStillStands at stands
  split at stands
  · rename_i spans
    exact List.any_eq_true.mp spans
  · cases stands

/-- A fence that stands was answered in no other row. -/
theorem quiet_of_fenceStillStands {host : String} {rows : List (String × HealthRow)}
    {now instant : Int} (stands : fenceStillStands host rows now instant = .ok ()) :
    ∀ entry ∈ rows, sawAnswer host instant entry = false := by
  unfold fenceStillStands at stands
  split at stands
  · split at stands
    · cases stands
    · rename_i none
      intro entry member
      exact Bool.eq_false_iff.mpr (List.find?_eq_none.mp none entry member)
  · cases stands

/-- The host has answered no observer but itself since the instant. -/
def Unanswered (host : String) (instant : Int) (w : Watch) : Prop :=
  ∀ answer ∈ w.answers, answer.observer ≠ host → answer.instant ≤ instant

/-! ## Runs of silence -/

/-- The starts of the runs that an observer's row shows and that its memory counts. -/
def Watch.runsOf (w : Watch) (entry : String × HealthRow) : List Int :=
  (if entry.2.showsAnswer then []
    else [observerRunStart entry.2.consecutiveFailures entry.2.lastSeen entry.2.updatedAt]) ++
  ((w.peers entry.1).filter (·.failures ≠ 0)).elim [] (·.runStart.toList)

def Watch.runs (w : Watch) : List Int := w.rows.rows.flatMap w.runsOf

/-- The row of an observer shows an answer, stamped at the instant or later. -/
def Watch.shows (w : Watch) (observer : String) (instant : Int) : Bool :=
  (w.rows.find observer).any fun row => row.showsAnswer && instant ≤ row.updatedAt

/-- The condition on a step.  An answer is written to the row of its observer, or the row shows
one that is not older than the margin.  An observer that got an answer counts a miss only when
every run of silence began after the answer, up to the margin. -/
def Traced (host : String) (w : Watch) : WatchEvent → Prop
  | .probe probe => probe.observer ≠ host →
    if probe.result.answered then
      probe.withheld = false ∧
        ((checkHost (w.peers probe.observer) probe w.now).2.isSome = true ∨
          w.shows probe.observer (w.now - fenceSkewMargin) = true)
    else probe.withheld = false → ∀ answer ∈ w.answers, answer.observer = probe.observer →
      ∀ since ∈ w.runs, answer.instant - fenceSkewMargin ≤ since
  | _ => True

instance (host : String) (w : Watch) : ∀ event, Decidable (Traced host w event)
  | .probe _ => by unfold Traced; infer_instance
  | .pass _ | .restart _ => .isTrue trivial

/-- What memory and rows have in common: an observer with a verdict has a row, a run has a
verdict, and neither runs nor answers are of the future. -/
structure Watch.Sound (w : Watch) : Prop where
  rowed : ∀ observer peer, w.peers observer = some peer → peer.status ≠ none →
    (w.rows.find observer).isSome = true
  judged : ∀ observer peer since, w.peers observer = some peer → peer.runStart = some since →
    peer.status ≠ none ∧ since ≤ w.now
  past : ∀ answer ∈ w.answers, answer.instant ≤ w.now

section Step

variable {known : Option PeerState} {probe : Probe} {now : Int}

/-- A failing verdict carries the start of the run that the memory counts. -/
theorem silent_row {row : HealthRow} (written : (checkHost known probe now).2 = some row)
    (silent : row.showsAnswer = false) :
    row.updatedAt = now ∧ (checkHost known probe now).1.failures ≠ 0 ∧
      row.lastSeen = (checkHost known probe now).1.runStart ∧ row.lastSeen ≠ none := by
  simp only [checkHost] at written ⊢
  split at written
  · cases written
  rename_i counts
  rw [if_neg counts]
  obtain rfl := Option.some.inj (Option.ite_none_right_eq_some.mp written).2
  cases result : probe.result with
  | ready => simp [result, verdictRow, HealthRow.showsAnswer] at silent
  | notReady => simp [result, verdictRow, PeerState.judge, HealthRow.showsAnswer] at silent
  | unreachable =>
    simp only [result, verdictRow, HealthRow.showsAnswer, reduceCtorEq, if_false,
      Bool.or_eq_false_iff, decide_eq_false_iff_not] at silent
    refine ⟨by simp [verdictRow], silent.1, by simp [verdictRow], ?_⟩
    simp only [verdictRow, reduceCtorEq, if_false, PeerState.nextRunStart, ProbeResult.answered,
      Bool.false_eq_true]
    split
    · simp
    · rename_i later
      simp only [Bool.or_eq_true, not_or, Bool.not_eq_true, Option.isNone_eq_false_iff] at later
      exact Option.ne_none_iff_isSome.mpr later.2

theorem answer_row {row : HealthRow} (written : (checkHost known probe now).2 = some row)
    (answered : probe.result.answered = true) :
    row.showsAnswer = true ∧ row.updatedAt = now := by
  simp only [checkHost] at written
  split at written
  · cases written
  obtain rfl := Option.some.inj (Option.ite_none_right_eq_some.mp written).2
  cases result : probe.result with
  | ready => simp [verdictRow, HealthRow.showsAnswer]
  | notReady => simp [verdictRow, PeerState.judge, HealthRow.showsAnswer]
  | unreachable => simp [result, ProbeResult.answered] at answered

theorem entered_status (epoch : Nat) :
    (PeerState.entered known epoch).status = known.bind (·.status) := by
  cases known with
  | none => rfl
  | some prev =>
    simp only [PeerState.entered]
    split <;> rfl

theorem entered_runStart (epoch : Nat) :
    (PeerState.entered known epoch).runStart = known.bind (·.runStart) := by
  cases known with
  | none => rfl
  | some prev =>
    simp only [PeerState.entered]
    split <;> rfl

/-- A verdict is written when it is the first. -/
theorem written_or_judged (judged : (checkHost known probe now).1.status ≠ none) :
    (checkHost known probe now).2.isSome = true ∨ known.bind (·.status) ≠ none := by
  rw [← entered_status probe.stallEpoch]
  by_contra neither
  rw [not_or, not_not] at neither
  obtain ⟨unwritten, unjudged⟩ := neither
  simp only [checkHost] at judged unwritten
  split at judged
  · exact judged unjudged
  · rename_i counts
    simp [counts, unjudged, shouldPersistHealth] at unwritten

/-- A run in memory has a verdict if it had one, and began with the probe or before. -/
theorem run_judged {since : Int} (silent : (checkHost known probe now).1.runStart = some since)
    (before : known.bind (·.runStart) = some since → known.bind (·.status) ≠ none) :
    (checkHost known probe now).1.status ≠ none ∧
      (since = now ∨ known.bind (·.runStart) = some since) := by
  rw [← entered_status probe.stallEpoch, ← entered_runStart probe.stallEpoch] at before
  rw [← entered_runStart probe.stallEpoch]
  simp only [checkHost] at silent ⊢
  split at silent
  · rename_i withheld
    rw [if_pos withheld]
    exact ⟨before silent, .inr silent⟩
  · rename_i counts
    rw [if_neg counts]
    refine ⟨Option.some_ne_none _, ?_⟩
    simp only [PeerState.nextRunStart] at silent
    split at silent
    · cases silent
    split at silent
    · exact .inl (Option.some.inj silent).symm
    · exact .inr silent

end Step

section Observe

variable {w : Watch} {probe : Probe}

theorem find_observe (other : String) :
    (w.observe probe).rows.find other =
      if other = probe.observer then
        (checkHost (w.peers probe.observer) probe w.now).2.or (w.rows.find other)
      else w.rows.find other := by
  simp only [Watch.observe]
  cases (checkHost (w.peers probe.observer) probe w.now).2 with
  | none => simp [Watch.publish, Watch.noted]
  | some row => exact w.rows.find_put probe.observer other row

theorem peers_observe (other : String) :
    (w.observe probe).peers other =
      if other = probe.observer then some (checkHost (w.peers probe.observer) probe w.now).1
      else w.peers other := by
  simp only [Watch.observe]
  cases (checkHost (w.peers probe.observer) probe w.now).2 <;>
    simp [Watch.publish, Watch.noted, Function.update_apply]

theorem answers_observe : (w.observe probe).answers =
    if probe.result.answered then ⟨probe.observer, w.now⟩ :: w.answers else w.answers := by
  simp only [Watch.observe]
  cases (checkHost (w.peers probe.observer) probe w.now).2 <;> rfl

theorem now_observe : (w.observe probe).now = w.now := by
  simp only [Watch.observe]
  cases (checkHost (w.peers probe.observer) probe w.now).2 <;> rfl

theorem Watch.Sound.observe (sound : w.Sound) : (w.observe probe).Sound := by
  constructor
  · intro observer peer memory judged
    rw [peers_observe] at memory
    rw [find_observe]
    split at memory
    · rename_i same
      subst same
      obtain rfl := Option.some.inj memory
      rw [if_pos rfl]
      rcases written_or_judged judged with written | before
      · simp [written]
      · obtain ⟨prev, known⟩ : ∃ prev, w.peers probe.observer = some prev :=
          Option.ne_none_iff_exists'.mp fun none => before (by rw [none]; rfl)
        rw [known] at before
        simp [sound.rowed _ prev known before]
    · rename_i other
      rw [if_neg other]
      exact sound.rowed observer peer memory judged
  · intro observer peer since memory silent
    rw [peers_observe] at memory
    rw [now_observe]
    split at memory
    · obtain rfl := Option.some.inj memory
      have before : (w.peers probe.observer).bind (·.runStart) = some since →
          (w.peers probe.observer).bind (·.status) ≠ none ∧ since ≤ w.now := by
        intro silent
        obtain ⟨prev, known, silent⟩ := Option.bind_eq_some_iff.mp silent
        rw [known]
        exact sound.judged _ prev since known silent
      obtain ⟨judged, start⟩ := run_judged silent fun silent => (before silent).1
      exact ⟨judged, start.elim Int.le_of_eq fun silent => (before silent).2⟩
    · exact sound.judged observer peer since memory silent
  · intro answer member
    rw [answers_observe] at member
    rw [now_observe]
    split at member
    · rcases List.mem_cons.mp member with rfl | earlier
      · exact Int.le_refl _
      · exact sound.past answer earlier
    · exact sound.past answer member

theorem mem_runs {since : Int} : since ∈ w.runs ↔ ∃ observer row,
    w.rows.find observer = some row ∧ (row.showsAnswer = false ∧
        observerRunStart row.consecutiveFailures row.lastSeen row.updatedAt = since ∨
      ∃ peer, w.peers observer = some peer ∧ peer.failures ≠ 0 ∧ peer.runStart = some since) := by
  simp only [Watch.runs, List.mem_flatMap, Prod.exists, Table.mem_rows_iff, Watch.runsOf,
    List.mem_append]
  refine exists_congr fun observer => exists_congr fun row => and_congr_right fun _ =>
    or_congr ?_ ?_
  · cases row.showsAnswer <;> simp [eq_comm]
  · cases w.peers observer with
    | none => simp
    | some peer =>
      by_cases counted : peer.failures = 0
      · simp [Option.filter, counted]
      · simp [Option.filter, counted]

/-- A probe begins a run of silence at most now. -/
theorem runs_observe (sound : w.Sound) {since : Int} (run : since ∈ (w.observe probe).runs) :
    since = w.now ∨ since ∈ w.runs := by
  obtain ⟨observer, row, found, kind⟩ := mem_runs.mp run
  rw [find_observe] at found
  rw [peers_observe] at kind
  by_cases same : observer = probe.observer
  swap
  · rw [if_neg same] at found kind
    exact .inr (mem_runs.mpr ⟨observer, row, found, kind⟩)
  subst same
  rw [if_pos rfl] at found kind
  -- a run that the memory counts was counted before, or begins now
  have counted : (checkHost (w.peers probe.observer) probe w.now).1.failures ≠ 0 →
      (checkHost (w.peers probe.observer) probe w.now).1.runStart = some since →
      since = w.now ∨ since ∈ w.runs := by
    intro counted silent
    rcases runStart_checkHost silent counted with ⟨rfl, -⟩ | ⟨peer, known, counted, silent⟩
    · exact .inl rfl
    have judged := (sound.judged _ peer since known silent).1
    obtain ⟨row, found⟩ := Option.isSome_iff_exists.mp (sound.rowed _ peer known judged)
    exact .inr (mem_runs.mpr ⟨_, row, found, .inr ⟨peer, known, counted, silent⟩⟩)
  rcases kind with ⟨silent, start⟩ | ⟨peer, memory, failures, silent⟩
  · cases written : (checkHost (w.peers probe.observer) probe w.now).2 with
    | none =>
      rw [written, Option.none_or] at found
      exact .inr (mem_runs.mpr ⟨_, row, found, .inl ⟨silent, start⟩⟩)
    | some new =>
      rw [written, Option.some_or] at found
      obtain rfl := Option.some.inj found
      obtain ⟨stamped, failures, shown, known⟩ := silent_row written silent
      obtain ⟨started, isStart⟩ := Option.ne_none_iff_exists'.mp known
      have inMemory := shown.symm.trans isStart
      have notLater : started ≤ new.updatedAt := by
        have after := (@Watch.Sound.observe w probe sound).judged probe.observer _ started
          ((peers_observe _).trans (if_pos rfl)) inMemory
        rw [stamped]
        exact now_observe ▸ after.2
      simp only [observerRunStart, isStart, if_pos notLater] at start
      exact counted failures (start ▸ inMemory)
  · obtain rfl := Option.some.inj memory
    exact counted failures silent

/-- For each answer, the row of its observer shows one, or no run of silence is from before it. -/
def Watch.Remembers (host : String) (w : Watch) : Prop :=
  ∀ answer ∈ w.answers, answer.observer ≠ host →
    w.shows answer.observer (answer.instant - fenceSkewMargin) = true ∨
      ∀ since ∈ w.runs, answer.instant - fenceSkewMargin ≤ since

variable {host : String}

theorem Watch.shows_iff {observer : String} {instant : Int} :
    w.shows observer instant = true ↔ ∃ row, w.rows.find observer = some row ∧
      row.showsAnswer = true ∧ instant ≤ row.updatedAt := by
  unfold Watch.shows
  cases w.rows.find observer <;> simp

/-- A traced probe keeps answers remembered. -/
theorem remembers_observe (sound : w.Sound) (remembers : w.Remembers host)
    (traced : Traced host w (.probe probe)) : (w.observe probe).Remembers host := by
  have margin : (0 : Int) ≤ fenceSkewMargin := by decide
  -- the runs of silence that there are now were there, or begin now
  have kept : ∀ answer : Answer, answer.instant ≤ w.now →
      (∀ since ∈ w.runs, answer.instant - fenceSkewMargin ≤ since) →
      ∀ since ∈ (w.observe probe).runs, answer.instant - fenceSkewMargin ≤ since := by
    intro answer past runs since run
    rcases runs_observe sound run with rfl | before
    · omega
    · exact runs since before
  intro answer member other
  have past : answer.instant ≤ w.now :=
    @now_observe w probe ▸ sound.observe.past answer member
  rw [answers_observe] at member
  have still (before : answer ∈ w.answers)
      (row : (w.observe probe).rows.find answer.observer = w.rows.find answer.observer) :
      (w.observe probe).shows answer.observer (answer.instant - fenceSkewMargin) = true ∨
        ∀ since ∈ (w.observe probe).runs, answer.instant - fenceSkewMargin ≤ since := by
    refine (remembers answer before other).imp (fun shown => ?_) (kept answer past)
    rwa [Watch.shows, row]
  by_cases same : answer.observer = probe.observer
  swap
  · refine still ?_ ((find_observe _).trans (if_neg same))
    split at member
    · exact (List.mem_cons.mp member).resolve_left fun new => same (new ▸ rfl)
    · exact member
  have traced := traced (same ▸ other)
  by_cases answered : probe.result.answered = true
  · rw [if_pos answered] at traced
    refine .inl (Watch.shows_iff.mpr ?_)
    rw [find_observe, if_pos same, same]
    cases written : (checkHost (w.peers probe.observer) probe w.now).2 with
    | some row =>
      obtain ⟨shows, stamped⟩ := answer_row written answered
      exact ⟨row, rfl, shows, by omega⟩
    | none =>
      rw [written] at traced
      obtain ⟨row, found, shows, stamped⟩ :=
        Watch.shows_iff.mp (traced.2.resolve_left (by simp))
      exact ⟨row, found, shows, by omega⟩
  rw [if_neg answered] at traced member
  by_cases withheld : probe.withheld = true
  · refine still member ((find_observe _).trans ?_)
    rw [if_pos same, checkHost, if_pos withheld, Option.none_or]
  · exact .inr (kept answer past (traced (Bool.eq_false_iff.mpr withheld) answer member same))

theorem remembers_step {event : WatchEvent} {next : Watch} (traced : Traced host w event)
    (stepped : w.step event = some next) (kept : w.Sound ∧ w.Remembers host) :
    next.Sound ∧ next.Remembers host := by
  obtain ⟨sound, remembers⟩ := kept
  cases event with
  | pass elapsed =>
    cases stepped
    refine ⟨⟨sound.rowed, fun observer peer since memory silent => ?_, fun answer member => ?_⟩,
      remembers⟩
    · exact (sound.judged observer peer since memory silent).imp_right fun past =>
        past.trans (by simp)
    · exact (sound.past answer member).trans (by simp)
  | probe probe =>
    cases stepped
    exact ⟨sound.observe, remembers_observe sound remembers traced⟩
  | restart observer =>
    cases stepped
    have memory {other peer} (known : Function.update w.peers observer none other = some peer) :
        w.peers other = some peer := by
      rw [Function.update_apply] at known
      split at known
      · cases known
      · exact known
    refine ⟨⟨fun other peer known => sound.rowed other peer (memory known),
      fun other peer since known => sound.judged other peer since (memory known), sound.past⟩, ?_⟩
    intro answer member other
    refine (remembers answer member other).imp_right fun runs since run => ?_
    -- a restart forgets runs and begins none
    obtain ⟨observer, row, found, kind⟩ := mem_runs.mp run
    exact runs since (mem_runs.mpr ⟨observer, row, found,
      kind.imp_right fun ⟨peer, known, silent⟩ => ⟨peer, memory known, silent⟩⟩)

end Observe

/-- A probe of an observer that runs without a stall and knows the host to be down. -/
def plainProbe (observer : String) (result : ProbeResult) : WatchEvent :=
  .probe ⟨observer, result, false, false, 0, true⟩

/-- Two seconds in which `a` misses the host and `b` gets the result given. -/
def tickOf (result : ProbeResult) : List WatchEvent :=
  [.pass 2000000000, plainProbe "a" .unreachable, plainProbe "b" result]

/-- Both observers reach the host for four seconds and then miss it: the fence is recorded at
sixteen. -/
def silentHost : List WatchEvent :=
  (List.replicate 2 [.pass 2000000000, plainProbe "a" .ready, plainProbe "b" .ready]).flatten ++
    (List.replicate 10 (tickOf .unreachable)).flatten

/-- Both observers miss the host for twenty seconds, and the fence is recorded at twelve; `b` gets
one answer at fourteen. -/
def answeredHost : List WatchEvent :=
  (List.replicate 6 (tickOf .unreachable)).flatten ++ tickOf .ready ++
    (List.replicate 3 (tickOf .unreachable)).flatten

end Litevirt.Failover
