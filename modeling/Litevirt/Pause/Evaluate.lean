import Litevirt.Failover.Cycle

/-!
# When a host pauses itself

`Evaluate` of `internal/health/partition_pause.go`: a host keeps the quorum readings of the last
`2·T_pause`, pauses once they hold a loss of `T_pause` in total, and forgets them when an unbroken
run of Yes readings has lasted as long.
-/

namespace Litevirt.Pause

open Litevirt.Failover List

def partitionPauseTick : Int := second

inductive QuorumState where
  | unknown
  | no
  | yes
  deriving DecidableEq

structure LossSample where
  time : Int
  lost : Bool

/-- Every interval between two readings counts for the earlier one. -/
def lossCovered : List LossSample → Int
  | first :: next :: rest =>
    (if first.lost then next.time - first.time else 0) + lossCovered (next :: rest)
  | _ => 0

/-- `after` is `T_pause`; instants are nanoseconds of the monotonic clock. -/
structure PartitionPauser where
  after : Int
  samples : List LossSample
  yesSince : Option Int
  sawYes : Bool
  sawNo : Bool

def newPartitionPauser (after : Int) : PartitionPauser := ⟨after, [], none, false, false⟩

/-- What one pass reads. -/
structure Reading where
  now : Int
  state : QuorumState
  enabled : Bool
  exempt : Bool

def Reading.sample (r : Reading) : LossSample := ⟨r.now, r.state ≠ .yes⟩

inductive Decision where
  | resume (hadLoss : Bool)
  | wait
  | pause
  deriving DecidableEq

/-- The last sample stays, however old it is. -/
def dropBefore (cut : Int) : List LossSample → List LossSample
  | first :: next :: rest =>
    if first.time < cut then dropBefore cut (next :: rest) else first :: next :: rest
  | samples => samples

namespace PartitionPauser

/-- The first Yes of the run when only warmup came before it: the samples before it go. -/
def endsWarmup (p : PartitionPauser) (r : Reading) : Bool :=
  r.state = .yes && !p.sawYes && !p.sawNo

def yesSinceAfter (p : PartitionPauser) (r : Reading) : Option Int :=
  if r.state = .yes then some (p.yesSince.getD r.now) else none

def regained (p : PartitionPauser) (r : Reading) : Bool :=
  (p.yesSinceAfter r).any fun since => p.after ≤ r.now - since

def samplesAfter (p : PartitionPauser) (r : Reading) : List LossSample :=
  if p.regained r || p.endsWarmup r then [r.sample]
  else dropBefore (r.now - 2 * p.after) (p.samples ++ [r.sample])

def evaluate (p : PartitionPauser) (r : Reading) : PartitionPauser × Decision :=
  ({ p with
      samples := p.samplesAfter r
      yesSince := p.yesSinceAfter r
      sawYes := p.sawYes || r.state = .yes
      sawNo := p.sawNo || r.state = .no },
    if p.regained r then .resume (p.samples.any LossSample.lost)
    else if r.state = .yes then .wait
    else if lossCovered (p.samplesAfter r) < p.after then .wait
    else if !r.enabled || r.exempt then .wait
    else .pause)

end PartitionPauser

open PartitionPauser

/-- The pauser after the readings of a run. -/
def readAll (after : Int) (history : List Reading) : PartitionPauser :=
  history.foldl (fun p r => (p.evaluate r).1) (newPartitionPauser after)

/-! ## What is meant -/

/-- When the unbroken run of quorum that the readings end in began. -/
def unbrokenSince (readings : List Reading) : Option Int :=
  (readings.reverse.takeWhile fun r => r.state = .yes).getLast?.map Reading.now

/-- The readings end in an unbroken run of quorum as long as `after`. -/
def Resets (after : Int) (readings : List Reading) : Prop :=
  ∃ since ∈ unbrokenSince readings, ∃ last ∈ readings.getLast?, after ≤ last.now - since

/-- Readings in the order of the clock. -/
def InOrder (readings : List Reading) : Prop := readings.Pairwise fun r s => r.now ≤ s.now

/-! ## Samples -/

section Samples

variable {cut : Int} {samples kept : List LossSample}

theorem dropBefore_suffix (cut : Int) (samples : List LossSample) :
    dropBefore cut samples <:+ samples := by
  fun_induction dropBefore cut samples with
  | case1 first next rest old ih => exact ih.trans (suffix_cons _ _)
  | case2 => exact suffix_rfl
  | case3 => exact suffix_rfl

theorem suffix_dropBefore (suffix : kept <:+ samples) (young : ∀ s ∈ kept, cut ≤ s.time) :
    kept <:+ dropBefore cut samples := by
  fun_induction dropBefore cut samples with
  | case1 first next rest old ih =>
    rcases suffix_cons_iff.mp suffix with rfl | within
    · have := young first mem_cons_self
      omega
    · exact ih within
  | case2 => exact suffix
  | case3 => exact suffix

theorem le_of_mem_dropBefore (sorted : samples.Pairwise fun s t => s.time ≤ t.time)
    (recent : ∀ last ∈ samples.getLast?, cut ≤ last.time) :
    ∀ s ∈ dropBefore cut samples, cut ≤ s.time := by
  fun_induction dropBefore cut samples with
  | case1 first next rest old ih => exact ih sorted.of_cons (by simpa using recent)
  | case2 first next rest young =>
    intro s member
    rcases mem_cons.mp member with rfl | later
    · omega
    · have := rel_of_pairwise_cons sorted later
      omega
  | case3 samples short =>
    intro s member
    rcases samples with _ | ⟨only, _ | ⟨next, rest⟩⟩
    · cases member
    · obtain rfl := mem_singleton.mp member
      exact recent s rfl
    · exact absurd rfl (short only next rest)

theorem lossCovered_le (suffix : kept <:+ samples)
    (sorted : samples.Pairwise fun s t => s.time ≤ t.time) :
    lossCovered kept ≤ lossCovered samples := by
  induction samples with
  | nil => exact Int.le_of_eq (congrArg _ (suffix_nil.mp suffix))
  | cons first rest ih =>
    rcases suffix_cons_iff.mp suffix with rfl | within
    · exact Int.le_refl _
    refine Int.le_trans (ih within sorted.of_cons) ?_
    cases rest with
    | nil => exact Int.le_refl _
    | cons next rest =>
      have := rel_of_pairwise_cons sorted mem_cons_self
      simp only [lossCovered]
      split <;> omega

/-- The span of readings that all saw a loss is covered. -/
theorem lossCovered_of_lost {first last : LossSample} (lost : ∀ s ∈ samples, s.lost = true)
    (isFirst : samples.head? = some first) (isLast : samples.getLast? = some last) :
    lossCovered samples = last.time - first.time := by
  induction samples generalizing first with
  | nil => cases isFirst
  | cons head rest ih =>
    cases isFirst
    cases rest with
    | nil =>
      cases isLast
      exact (Int.sub_self _).symm
    | cons next rest =>
      have covered := ih (fun s member => lost s (mem_cons_of_mem _ member)) rfl isLast
      rw [lossCovered, lost _ mem_cons_self, if_pos rfl]
      omega

end Samples

/-! ## The samples of a run -/

/-- What the state says of the readings so far: only the first one of the window may end
a run that resets it. -/
structure Samples (after : Int) (p : PartitionPauser) (readings : List Reading) : Prop where
  threshold : p.after = after
  suffix : p.samples <:+ readings.map Reading.sample
  since : p.yesSince = unbrokenSince readings
  unreset : ∀ front, front <+: readings → readings.length + 2 ≤ front.length + p.samples.length →
    ¬ Resets after front

variable {p : PartitionPauser} {after : Int} {readings : List Reading} {r : Reading}

theorem samplesAfter_suffix (p : PartitionPauser) (r : Reading) :
    p.samplesAfter r <:+ p.samples ++ [r.sample] := by
  unfold samplesAfter
  split
  · exact suffix_append _ _
  · exact dropBefore_suffix _ _

theorem Samples.since_after (samples : Samples after p readings) :
    p.yesSinceAfter r = unbrokenSince (readings ++ [r]) := by
  unfold yesSinceAfter
  rw [samples.since]
  split
  · rename_i yes
    simp [unbrokenSince, yes, getLast?_cons]
  · rename_i lost
    simp [unbrokenSince, lost]

theorem Samples.snoc (samples : Samples after p readings) (r : Reading) :
    p.samples ++ [r.sample] <:+ (readings ++ [r]).map Reading.sample := by
  obtain ⟨dropped, same⟩ := samples.suffix
  exact ⟨dropped, by simp [← same]⟩

theorem Samples.step (samples : Samples after p readings) :
    Samples after (p.evaluate r).1 (readings ++ [r]) := by
  have kept := samplesAfter_suffix p r
  have atMost := kept.length_le
  refine ⟨samples.threshold, kept.trans (samples.snoc r), samples.since_after,
    fun front within inside resets => ?_⟩
  change _ ≤ _ + (p.samplesAfter r).length at inside
  simp only [length_append, length_singleton] at atMost inside
  rcases prefix_concat_iff.mp within with rfl | earlier
  · -- The new reading itself has emptied the window.
    obtain ⟨since, measured, last, isLast, long⟩ := resets
    obtain rfl : r = last := by simpa using isLast
    have emptied : p.samplesAfter r = [r.sample] := by
      simp [samplesAfter, regained, samples.since_after, Option.mem_def.mp measured,
        samples.threshold, long]
    simp only [emptied, length_append, length_singleton] at inside
    omega
  · exact samples.unreset front earlier (by omega) resets

theorem readAll_append (after : Int) (readings : List Reading) (r : Reading) :
    readAll after (readings ++ [r]) = ((readAll after readings).evaluate r).1 := by
  simp [readAll]

theorem samples_readAll (after : Int) (readings : List Reading) :
    Samples after (readAll after readings) readings := by
  induction readings using List.reverseRecOn with
  | nil =>
    refine ⟨rfl, suffix_rfl, rfl, fun front within inside => ?_⟩
    rw [prefix_nil.mp within] at inside
    exact absurd (show 2 ≤ 0 from inside) (by decide)
  | append_singleton front r ih =>
    rw [readAll_append]
    exact ih.step

theorem Samples.after_lost (samples : Samples after p readings) (lost : r.state ≠ .yes) :
    p.samplesAfter r = dropBefore (r.now - 2 * after) (p.samples ++ [r.sample]) := by
  simp [samplesAfter, regained, yesSinceAfter,
    endsWarmup, lost, samples.threshold]

theorem evaluate_pause_iff : (p.evaluate r).2 = .pause ↔
    r.state ≠ .yes ∧ p.after ≤ lossCovered (p.samplesAfter r) ∧
      r.enabled = true ∧ r.exempt = false := by
  by_cases yes : r.state = .yes
  · simp only [evaluate, yes, if_true]
    split <;> simp
  · simp [evaluate, regained, yesSinceAfter, yes, ite_eq_iff]

theorem InOrder.samples (inOrder : InOrder readings) {window : List LossSample}
    (suffix : window <:+ readings.map Reading.sample) :
    window.Pairwise fun s t => s.time ≤ t.time := by
  have sorted : (readings.map Reading.sample).Pairwise fun s t => s.time ≤ t.time :=
    pairwise_map.mpr inOrder
  exact sorted.sublist suffix.sublist

theorem InOrder.between (inOrder : InOrder readings) {first last : Reading}
    (isFirst : readings.head? = some first) (isLast : readings.getLast? = some last) :
    ∀ r ∈ readings, first.now ≤ r.now ∧ r.now ≤ last.now := by
  intro r member
  constructor
  · obtain ⟨later, rfl⟩ := head?_eq_some_iff.mp isFirst
    rcases mem_cons.mp member with rfl | member
    · exact Int.le_refl _
    · exact rel_of_pairwise_cons inOrder member
  · obtain ⟨earlier, rfl⟩ := getLast?_eq_some_iff.mp isLast
    rcases mem_append.mp member with member | member
    · exact (pairwise_append.mp inOrder).2.2 r member last (mem_singleton_self _)
    · exact Int.le_of_eq (congrArg _ (mem_singleton.mp member))

/-- Readings of a loss stay in the window while they are young enough for the last of them. -/
theorem loss_suffix (history : List Reading) {loss : List Reading}
    (lost : ∀ r ∈ loss, r.state ≠ .yes) {now : Int}
    (within : ∀ r ∈ loss, now - 2 * after ≤ r.now ∧ r.now ≤ now) :
    loss.map Reading.sample <:+ (readAll after (history ++ loss)).samples := by
  induction loss using List.reverseRecOn with
  | nil => exact nil_suffix
  | append_singleton front r ih =>
    have kept := ih (fun s member => lost s (mem_append_left _ member))
      fun s member => within s (mem_append_left _ member)
    rw [← append_assoc, readAll_append]
    show _ <:+ samplesAfter _ r
    rw [(samples_readAll after _).after_lost (lost r (by simp))]
    refine suffix_dropBefore ?_ fun s member => ?_
    · obtain ⟨dropped, same⟩ := kept
      exact ⟨dropped, by simp [← same]⟩
    obtain ⟨earlier, listed, rfl⟩ := mem_map.mp member
    have young := within earlier listed
    have recent := within r (by simp)
    simp only [Reading.sample]
    omega

theorem pause_of_loss {gap : Int} (positive : 0 < after) (often : gap ≤ after)
    {history loss : List Reading} (inOrder : InOrder (history ++ loss))
    (lost : ∀ r ∈ loss, r.state ≠ .yes ∧ r.enabled = true ∧ r.exempt = false)
    (gaps : loss.IsChain fun r s => s.now - r.now ≤ gap) {first last : Reading}
    (isFirst : loss.head? = some first) (isLast : loss.getLast? = some last)
    (long : after ≤ last.now - first.now) :
    ∃ front r back, loss = front ++ r :: back ∧
      ((readAll after (history ++ front)).evaluate r).2 = .pause := by
  have reached : (loss.find? fun r => after ≤ r.now - first.now).isSome :=
    find?_isSome.mpr ⟨last, mem_of_getLast? isLast, decide_eq_true long⟩
  obtain ⟨r, found⟩ := Option.isSome_iff_exists.mp reached
  obtain ⟨enough, front, back, rfl, earlier⟩ := find?_eq_some_iff_append.mp found
  refine ⟨front, r, back, rfl, ?_⟩
  have enough := of_decide_eq_true enough
  have isFirst : (front ++ [r]).head? = some first := by simpa [head?_append] using isFirst
  have member : ∀ s ∈ front ++ [r], s ∈ front ++ r :: back := by simp; grind
  rw [append_cons, ← append_assoc] at inOrder
  have upTo := (pairwise_append.mp (pairwise_append.mp inOrder).1).2.1
  have between := InOrder.between upTo isFirst getLast?_concat
  -- The reading before falls short of `after`, so the first is at most `2·after` old.
  have young : r.now - 2 * after ≤ first.now := by
    rcases front.eq_nil_or_concat' with rfl | ⟨before, previous, rfl⟩
    · cases isFirst
      omega
    have short : ¬ after ≤ previous.now - first.now := by simpa using earlier previous (by simp)
    have step : r.now - previous.now ≤ gap := by
      rw [append_assoc] at gaps
      exact (isChain_append_cons_cons.mp gaps).2.1
    omega
  have within : ∀ s ∈ front ++ [r], r.now - 2 * after ≤ s.now ∧ s.now ≤ r.now := by
    intro s listed
    have := between s listed
    omega
  have kept := loss_suffix history (fun s listed => (lost s (member s listed)).1) within
  rw [← append_assoc, readAll_append] at kept
  obtain ⟨lostNow, enabled, covers⟩ := lost r (by simp)
  refine evaluate_pause_iff.mpr ⟨lostNow, ?_, enabled, covers⟩
  have samples := samples_readAll after (history ++ front)
  have covered : lossCovered ((front ++ [r]).map Reading.sample) = r.now - first.now := by
    have isHead : ((front ++ [r]).map Reading.sample).head? = some first.sample := by
      rw [head?_map, isFirst]
      rfl
    have isEnd : ((front ++ [r]).map Reading.sample).getLast? = some r.sample := by simp
    refine lossCovered_of_lost (fun s listed => ?_) isHead isEnd
    obtain ⟨reading, among, rfl⟩ := mem_map.mp listed
    exact decide_eq_true (lost reading (member reading among)).1
  rw [← append_assoc] at inOrder
  have sorted := InOrder.samples (pairwise_append.mp inOrder).1 samples.step.suffix
  calc _ = after := samples.threshold
    _ ≤ _ := enough
    _ = _ := covered.symm
    _ ≤ _ := lossCovered_le kept sorted

/-- A host pauses only on a loss of `T_pause` in total within the window, of which no reading but
the first ends a run that resets it; and it pauses in every unbroken loss as long as `T_pause`. -/
theorem pauses_on_loss :
    (∀ after readings r, 0 < after → InOrder (readings ++ [r]) →
      ((readAll after readings).evaluate r).2 = .pause →
      ∃ window, window <:+ (readings ++ [r]).map Reading.sample ∧
        (∀ s ∈ window, r.now - 2 * after ≤ s.time) ∧ after ≤ lossCovered window ∧
        ∀ front, front <+: readings ++ [r] →
          (readings ++ [r]).length + 2 ≤ front.length + window.length → ¬ Resets after front) ∧
    ∀ history loss first last, InOrder (history ++ loss) →
      (∀ r ∈ loss, r.state ≠ .yes ∧ r.enabled = true ∧ r.exempt = false) →
      loss.IsChain (fun r s => s.now - r.now ≤ partitionPauseTick) →
      loss.head? = some first → loss.getLast? = some last →
      partitionPauseAfter ≤ last.now - first.now →
      ∃ front r back, loss = front ++ r :: back ∧
        ((readAll partitionPauseAfter (history ++ front)).evaluate r).2 = .pause := by
  constructor
  · intro after readings r positive inOrder pauses
    obtain ⟨lost, covered, -⟩ := evaluate_pause_iff.mp pauses
    have samples := samples_readAll after readings
    have next := samples.step (r := r)
    rw [samples.threshold] at covered
    refine ⟨_, next.suffix, fun s member => ?_, covered, next.unreset⟩
    change s ∈ samplesAfter _ r at member
    rw [samples.after_lost lost] at member
    refine le_of_mem_dropBefore (inOrder.samples (samples.snoc r)) (fun last isLast => ?_) s member
    obtain rfl : r.sample = last := by simpa using isLast
    show r.now - 2 * after ≤ r.now
    omega
  · intro history loss first last inOrder lost gaps isFirst isLast long
    exact pause_of_loss (by decide) (by decide) inOrder lost gaps isFirst isLast long

/-- A reading at every tick from one on. -/
def ticks (state : QuorumState) (start count : Nat) : List Reading :=
  (range count).map fun i => ⟨(start + i : Nat) * partitionPauseTick, state, true, false⟩

/-- The reading `T_pause` behind the first loss. -/
def lastTick : Reading := ⟨15 * partitionPauseTick, .no, true, false⟩

/-- Quorum is held for five seconds and then lost: the host pauses, on that loss. -/
theorem lost_quorum_pauses :
    (∃ front r back, ticks .no 5 11 = front ++ r :: back ∧
        ((readAll partitionPauseAfter (ticks .yes 0 5 ++ front)).evaluate r).2 = .pause) ∧
      ∃ window,
        window <:+ (ticks .yes 0 5 ++ ticks .no 5 10 ++ [lastTick]).map Reading.sample ∧
        (∀ s ∈ window, lastTick.now - 2 * partitionPauseAfter ≤ s.time) ∧
        partitionPauseAfter ≤ lossCovered window ∧
        ∀ front, front <+: ticks .yes 0 5 ++ ticks .no 5 10 ++ [lastTick] →
          (ticks .yes 0 5 ++ ticks .no 5 10 ++ [lastTick]).length + 2 ≤
            front.length + window.length → ¬ Resets partitionPauseAfter front :=
  ⟨pauses_on_loss.2 (ticks .yes 0 5) (ticks .no 5 11) ⟨5 * partitionPauseTick, .no, true, false⟩
      lastTick (by unfold InOrder; decide +kernel) (by decide +kernel) (by decide +kernel) rfl rfl
      (by decide),
    pauses_on_loss.1 partitionPauseAfter (ticks .yes 0 5 ++ ticks .no 5 10) lastTick (by decide)
      (by unfold InOrder; decide +kernel) (by decide +kernel)⟩

end Litevirt.Pause
