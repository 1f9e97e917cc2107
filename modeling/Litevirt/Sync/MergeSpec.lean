import Litevirt.Sync.Merge

/-!
# The newest row is kept

A chunk without repeated keys merges its rows one at a time, whatever the chunks before
it did, and merging one at a time keeps a newest clock.  A chunk that repeats a key
compares both rows with the clock at its start, so the later row can replace a newer one.
-/

namespace Litevirt.Sync

open Litevirt.Lib Litevirt.Hlc List Function

/-! ## Cells of a row -/

variable {col : Column}

theorem lookup_zip_map {cols : List Column} (row : Row) (listed : col ∈ cols) :
    (cols.zip (cols.map row)).lookup col = some (row col) := by
  induction cols with
  | nil => cases listed
  | cons name rest ih =>
    rw [map_cons, zip_cons_cons]
    by_cases same : col = name
    · subst same
      exact lookup_cons_self
    · have other : (col == name) = false := beq_false_of_ne same
      rw [lookup_cons, other]
      exact ih ((mem_cons.mp listed).resolve_left same)

theorem cellOf_map {cols : List Column} (row : Row) (listed : col ∈ cols) :
    cellOf cols (cols.map row) col = row col := by
  rw [cellOf, lookup_zip_map row listed, Option.getD_some]

variable {schema : Schema} {cols : List Column}

theorem Schema.accepts_clock (accepted : schema.accepts cols = true) : updatedAt ∈ cols := by
  simp only [Schema.accepts, Bool.and_eq_true, decide_eq_true_eq] at accepted
  exact accepted.2

theorem Schema.accepts_key (accepted : schema.accepts cols = true) :
    ∀ col ∈ schema.pkCols, col ∈ cols := by
  simp only [Schema.accepts, Bool.and_eq_true, all_eq_true, decide_eq_true_eq] at accepted
  exact accepted.1.2

theorem incomingTS_stamped {cells : List Cell} {clock : Key} (stamped : Stamped cols cells clock) :
    incomingTS cols cells = clock.text := by
  rw [incomingTS, stamped]

theorem clocked_upsert (accepted : schema.accepts cols = true) {cells : List Cell} {clock : Key}
    (stamped : Stamped cols cells clock) (stored : Option Row) :
    Clocked (schema.upsert cols cells stored) clock := by
  have listed := Schema.accepts_clock accepted
  have free := schema.clock_free
  cases stored with
  | none =>
    simp only [Clocked, Schema.upsert, listed, ↓reduceIte]
    rw [stamped, schema.store_clock]
  | some row =>
    simp only [Clocked, Schema.upsert, listed, free, not_false_eq_true, and_self, ↓reduceIte]
    rw [stamped, schema.store_clock]

theorem text_ne_nil (clock : Key) : clock.text ≠ [] := by
  intro empty
  cases clock with
  | hlc canonical =>
    have parsed := canonical.parse_string
    rw [show string canonical.timestamp = [] from empty] at parsed
    exact absurd parsed.symm (by simp [show Hlc.parse [] = none by decide +kernel])
  | rfc time =>
    have stem := time.length_stem
    rw [Key.text, Rfc3339.text, append_eq_nil_iff] at empty
    rw [empty.1] at stem
    cases stem

theorem same_rank {cell : Cell} {first second : Key} (one : cell = .text first.text)
    (two : cell = .text second.text) : first.rank = second.rank := by
  have texts : first.text = second.text := Cell.text.inj (one.symm.trans two)
  have tied := @lwwOrder_text strictLayout first second
  rw [texts, @lwwOrder_self strictLayout] at tied
  exact (cmp_eq_eq_iff _ _).mp tied.symm

def Place.clock : Place → Key
  | .low => .rfc { newYear with second := 1, time := by decide }
  | .middle => .rfc { newYear with second := 2, time := by decide }
  | .high => .rfc { newYear with second := 3, time := by decide }

def restamp (cols : List Column) (place : Place) (cells : List Cell) : List Cell :=
  cols.map fun col => if col = updatedAt then .text place.clock.text else cellOf cols cells col

theorem stamped_restamp (accepted : schema.accepts cols = true) (place : Place)
    (cells : List Cell) : Stamped cols (restamp cols place cells) place.clock := by
  rw [Stamped, restamp, cellOf_map _ (Schema.accepts_clock accepted), if_pos rfl]

variable [GoLayout] [GoValues]

variable {row : Row}

omit [GoLayout] in
theorem clockOf_clocked {clock : Key} (clocked : Clocked row clock) :
    clockOf row = clock.text := by
  rw [clockOf, clocked]
  rfl

/-! ## One row at a time -/

theorem settle_some (accepted : schema.accepts cols = true) {cells : List Cell}
    {old new : Key} (clocked : Clocked row old) (stamped : Stamped cols cells new) :
    ∃ clock, Clocked (settle schema cols (some row) cells) clock ∧ (clock = old ∨ clock = new) ∧
      old.rank ≤ clock.rank ∧ new.rank ≤ clock.rank := by
  have written := clocked_upsert accepted stamped (some row)
  simp only [settle, clockOf_clocked clocked, incomingTS_stamped stamped, lwwOrder_text]
  cases order : cmp old.rank new.rank with
  | gt =>
    have above := (cmp_eq_gt_iff _ _).mp order
    exact ⟨old, clocked, .inl rfl, le_rfl, above.le⟩
  | lt =>
    have below := (cmp_eq_lt_iff _ _).mp order
    exact ⟨new, written, .inr rfl, below.le, le_rfl⟩
  | eq =>
    have tied := (cmp_eq_eq_iff _ _).mp order
    simp only
    split
    · exact ⟨old, clocked, .inl rfl, le_rfl, tied.ge⟩
    · exact ⟨new, written, .inr rfl, tied.le, le_rfl⟩

variable {stored : Option Row}

theorem settle_clocked (accepted : schema.accepts cols = true)
    {cells : List Cell} {new : Key} (stamped : Stamped cols cells new)
    (clocked : ∀ row, stored = some row → ∃ clock, Clocked row clock) :
    ∃ clock, Clocked (settle schema cols stored cells) clock ∧
      ((∃ old, stored = some old ∧ clockOf (settle schema cols stored cells) = clockOf old) ∨
        clockOf (settle schema cols stored cells) = incomingTS cols cells) ∧
      (∀ old, stored = some old → ∀ oldClock, Clocked old oldClock →
        oldClock.rank ≤ clock.rank) ∧ new.rank ≤ clock.rank := by
  cases stored with
  | none =>
    have written := clocked_upsert accepted stamped none
    refine ⟨new, written, .inr ?_, nofun, le_rfl⟩
    rw [incomingTS_stamped stamped]
    exact clockOf_clocked written
  | some row =>
    obtain ⟨old, rowClock⟩ := clocked row rfl
    obtain ⟨clock, settled, origin, oldBelow, newBelow⟩ := settle_some accepted rowClock stamped
    refine ⟨clock, settled, ?_, ?_, newBelow⟩
    · rw [clockOf_clocked settled]
      rcases origin with rfl | rfl
      · exact .inl ⟨row, rfl, (clockOf_clocked rowClock).symm⟩
      · exact .inr (incomingTS_stamped stamped).symm
    · intro other isOther oldClock otherClocked
      rw [← Option.some.inj isOther] at otherClocked
      rw [same_rank otherClocked rowClock]
      exact oldBelow

variable {rows : List (List Cell)}

theorem settleAll_newest (accepted : schema.accepts cols = true)
    (stamped : ∀ cells ∈ rows, ∃ clock, Stamped cols cells clock)
    (clocked : ∀ row, stored = some row → ∃ clock, Clocked row clock)
    (final : rows.foldl (fun stored cells => some (settle schema cols stored cells)) stored =
      some row) :
    ∃ clock, Clocked row clock ∧
      (∀ old, stored = some old → ∀ oldClock, Clocked old oldClock →
        oldClock.rank ≤ clock.rank) ∧
      (∀ cells ∈ rows, ∀ new, Stamped cols cells new → new.rank ≤ clock.rank) ∧
      ((∃ old, stored = some old ∧ clockOf row = clockOf old) ∨
        ∃ cells ∈ rows, clockOf row = incomingTS cols cells) := by
  induction rows generalizing stored with
  | nil =>
    rw [foldl_nil] at final
    obtain ⟨clock, rowClock⟩ := clocked row final
    refine ⟨clock, rowClock, ?_, by simp, .inl ⟨row, final, rfl⟩⟩
    intro old isOld oldClock oldClocked
    rw [final, Option.some.injEq] at isOld
    subst isOld
    exact (same_rank rowClock oldClocked).ge
  | cons cells rest ih =>
    obtain ⟨new, isNew⟩ := stamped cells mem_cons_self
    obtain ⟨first, firstClocked, origin, oldBelow, newBelow⟩ :=
      settle_clocked accepted isNew clocked
    obtain ⟨clock, rowClock, above, later, among⟩ :=
      ih (fun other member => stamped other (mem_cons_of_mem _ member))
        (fun next isNext => ⟨first, by rw [← Option.some.inj isNext]; exact firstClocked⟩) final
    have belowFinal := above _ rfl first firstClocked
    refine ⟨clock, rowClock, ?_, ?_, ?_⟩
    · intro old isOld oldClock oldClocked
      exact (oldBelow old isOld oldClock oldClocked).trans belowFinal
    · intro other member otherClock isOther
      rcases mem_cons.mp member with rfl | member
      · rw [same_rank isOther isNew]
        exact newBelow.trans belowFinal
      · exact later other member otherClock isOther
    · rcases among with ⟨next, isNext, same⟩ | ⟨other, member, same⟩
      · rw [← Option.some.inj isNext] at same
        rcases origin with ⟨old, isOld, fromOld⟩ | fromNew
        · exact .inl ⟨old, isOld, same.trans fromOld⟩
        · exact .inr ⟨cells, mem_cons_self, same.trans fromNew⟩
      · exact .inr ⟨other, mem_cons_of_mem _ member, same⟩

/-! ## Chunks without repeated keys -/

variable {node : MergeNode} {before : Stored}

theorem mergeRow_or
    (regular : Regular node cols before rows) {cells : List Cell} (member : cells ∈ rows)
    (stored : Option Row) :
    (mergeRow node schema cols stored stored cells).or stored =
      some (settle schema cols stored cells) := by
  obtain ⟨clock, stamped⟩ := regular.stamped cells member
  have nonempty : incomingTS cols cells ≠ [] := by
    rw [incomingTS_stamped stamped]
    exact text_ne_nil clock
  simp only [mergeRow, regular.complete cells member, regular.unrefused cells member,
    regular.unskewed cells member, nonempty, ne_eq, not_true_eq_false, not_false_eq_true,
    Bool.false_eq_true, and_false, ↓reduceIte]
  cases stored with
  | none => rfl
  | some row =>
    simp only [settle]
    cases lwwOrder (clockOf row) (incomingTS cols cells) with
    | lt => rfl
    | gt => rfl
    | eq =>
      simp only
      split <;> rfl

variable {size : Nat}

theorem mergeTable_eq (accepted : schema.accepts cols = true) (before : Stored) :
    mergeTable node schema size ⟨cols, rows⟩ before =
      writeBatches (pkKeyAt schema cols) (applyMergeRow node schema cols) before
        (chunksOf size rows) := by
  simp only [mergeTable, accepted, ↓reduceIte]
  rfl

theorem find_mergeTable (positive : 0 < size) (accepted : schema.accepts cols = true)
    (regular : Regular node cols before rows)
    (distinct : ∀ chunk ∈ chunksOf size (rows.map (pkKeyAt schema cols)), chunk.Nodup)
    (key : RowKey) :
    (mergeTable node schema size ⟨cols, rows⟩ before).find key =
      (rowsOf schema cols rows key).foldl
        (fun stored cells => some (settle schema cols stored cells)) (before.find key) := by
  have whole := flatten_chunksOf positive rows
  have onlyKey : KeyLocal (pkKeyAt schema cols) (applyMergeRow node schema cols)
      (mergeRow node schema cols) (chunksOf size rows).flatten := by
    rw [whole]
    intro snapshot now cells member
    simp only [applyMergeRow, regular.unrejected cells member now, Bool.false_eq_true, ↓reduceIte]
  have nodup : ∀ chunk ∈ chunksOf size rows, (chunk.map (pkKeyAt schema cols)).Nodup := by
    intro chunk member
    refine distinct _ ?_
    rw [chunksOf_map]
    exact mem_map_of_mem member
  rw [mergeTable_eq accepted, find_writeBatches_of_nodup onlyKey nodup, whole]
  refine foldl_ext _ _ _ fun stored cells member => ?_
  exact mergeRow_or regular (mem_of_mem_filter member) stored

theorem keepsNewest_of_distinct (positive : 0 < size) (accepted : schema.accepts cols = true)
    (regular : Regular node cols before rows)
    (distinct : ∀ chunk ∈ chunksOf size (rows.map (pkKeyAt schema cols)), chunk.Nodup) :
    KeepsNewest schema cols before rows (mergeTable node schema size ⟨cols, rows⟩ before) := by
  have settled := find_mergeTable positive accepted regular distinct
  have stampedOf : ∀ key, ∀ cells ∈ rowsOf schema cols rows key,
      ∃ clock, Stamped cols cells clock :=
    fun key cells member => regular.stamped cells (mem_of_mem_filter member)
  constructor
  case settled => exact settled
  case held =>
    intro cells member
    rw [settled]
    obtain ⟨front, back, split⟩ := append_of_mem
      (show cells ∈ rowsOf schema cols rows (pkKeyAt schema cols cells) from
        mem_filter.mpr ⟨member, by simp⟩)
    rw [split, foldl_append, foldl_cons]
    generalize settle schema cols _ cells = row
    clear split
    induction back generalizing row with
    | nil => exact ⟨row, rfl⟩
    | cons next rest ih => exact ih _
  case newest =>
    intro key row found
    rw [settled] at found
    obtain ⟨clock, rowClock, aboveOld, aboveNew, -⟩ :=
      settleAll_newest accepted (stampedOf key) (regular.clocked key) found
    rw [clockOf_clocked rowClock]
    constructor
    · intro old isOld
      obtain ⟨oldClock, oldClocked⟩ := regular.clocked key old isOld
      rw [clockOf_clocked oldClocked, lwwOrder_text]
      exact fun below => (aboveOld old isOld oldClock oldClocked).not_gt
        ((cmp_eq_lt_iff _ _).mp below)
    · intro cells member
      obtain ⟨new, isNew⟩ := stampedOf key cells member
      rw [incomingTS_stamped isNew, lwwOrder_text]
      exact fun below => (aboveNew cells member new isNew).not_gt ((cmp_eq_lt_iff _ _).mp below)
  case among =>
    intro key row found
    rw [settled] at found
    obtain ⟨-, -, -, -, among⟩ :=
      settleAll_newest accepted (stampedOf key) (regular.clocked key) found
    exact among
  case untouched =>
    intro key none
    rw [settled, none, foldl_nil]

/-! ## A repeated key -/

omit [GoValues] in
theorem lwwOrder_clock (p q : Place) :
    lwwOrder p.clock.text q.clock.text =
      if q.digit < p.digit then .gt else if p.digit < q.digit then .lt else .eq := by
  rw [lwwOrder_text]
  cases p <;> cases q <;> decide +kernel

omit [GoLayout] in
theorem pkKeyAt_restamp (accepted : schema.accepts cols = true) (place : Place)
    (cells : List Cell) :
    pkKeyAt schema cols (restamp cols place cells) = pkKeyAt schema cols cells := by
  refine map_congr_left fun col member => ?_
  have other : col ≠ updatedAt := by
    rintro rfl
    exact schema.clock_free member
  rw [restamp, cellOf_map _ (Schema.accepts_key accepted col member), if_neg other]

def openNode : MergeNode := ⟨none, fun _ _ => false, fun _ _ => false⟩

/-- The key is absent or holds a row with the clock of a place. -/
def AtPlace (place : Place) (stored : Option Row) : Prop :=
  ∀ row, stored = some row → Clocked row place.clock

section OpenNode

variable {place : Place} {rows : List (List Cell)}

variable (accepted : schema.accepts cols = true)
include accepted

theorem mergeRow_openNode (seen stored : Option Row)
    (cells : List Cell) :
    mergeRow openNode schema cols seen stored (restamp cols place cells) =
      match seen with
      | none => some (schema.upsert cols (restamp cols place cells) stored)
      | some snapshot =>
        match lwwOrder (clockOf snapshot) place.clock.text with
        | .gt => none
        | .lt => some (schema.upsert cols (restamp cols place cells) stored)
        | .eq =>
          match stored with
          | none => some (schema.upsert cols (restamp cols place cells) none)
          | some row =>
            if (resolveTie schema.name cols (cols.map (present row))
                (restamp cols place cells)).keepLocal then none
            else some (schema.upsert cols (restamp cols place cells) (some row)) := by
  have complete : (restamp cols place cells).length = cols.length := length_map _
  have stamp := incomingTS_stamped (stamped_restamp accepted place cells)
  unfold mergeRow
  dsimp only
  rw [stamp]
  exact (if_neg (not_not_intro complete)).trans ((if_neg Bool.false_ne_true).trans
    ((if_neg fun skewed => Bool.false_ne_true skewed.2).trans (if_neg (text_ne_nil _))))

theorem pickAll_atPlace (seen : Option Row)
    {stored : Option Row} (start : AtPlace place stored) :
    AtPlace place (pickAll (mergeRow openNode schema cols) seen stored
      (rows.map (restamp cols place))) := by
  unfold pickAll
  induction rows generalizing stored with
  | nil => exact start
  | cons cells rest ih =>
    rw [map_cons, foldl_cons]
    refine ih ?_
    have written := clocked_upsert accepted (stamped_restamp accepted place cells) stored
    rw [mergeRow_openNode accepted]
    intro row found
    repeat' split at found
    all_goals first
      | exact start row found
      | (cases found; exact written)

theorem pickAll_newer {old : Place} {seen : Option Row}
    (before : AtPlace old seen) (newer : old.digit < place.digit) (stored : Option Row)
    (some_row : rows ≠ []) :
    ∃ row, pickAll (mergeRow openNode schema cols) seen stored (rows.map (restamp cols place)) =
      some row ∧ Clocked row place.clock := by
  unfold pickAll
  induction rows generalizing stored with
  | nil => exact absurd rfl some_row
  | cons cells rest ih =>
    have applied :
        (mergeRow openNode schema cols seen stored (restamp cols place cells)).or stored =
        some (schema.upsert cols (restamp cols place cells) stored) := by
      rw [mergeRow_openNode accepted]
      cases seen with
      | none => rfl
      | some snapshot =>
        simp only [clockOf_clocked (before snapshot rfl), lwwOrder_clock, newer,
          UInt8.lt_asymm newer, ↓reduceIte]
        rfl
    rw [map_cons, foldl_cons, applied]
    by_cases last : rest = []
    · rw [last]
      exact ⟨_, rfl, clocked_upsert accepted (stamped_restamp accepted place cells) stored⟩
    · exact ih _ last

theorem pickAll_older {kept : Place} {seen : Row}
    (before : Clocked seen kept.clock) (older : place.digit < kept.digit) (stored : Option Row) :
    pickAll (mergeRow openNode schema cols) (some seen) stored (rows.map (restamp cols place)) =
      stored := by
  unfold pickAll
  induction rows generalizing stored with
  | nil => rfl
  | cons cells rest ih =>
    have skipped : (mergeRow openNode schema cols (some seen) stored
        (restamp cols place cells)).or stored = stored := by
      rw [mergeRow_openNode accepted]
      simp only [clockOf_clocked before, lwwOrder_clock, older, ↓reduceIte]
      rfl
    rw [map_cons, foldl_cons, skipped]
    exact ih _

omit [GoLayout] in
theorem filter_restamp (key : RowKey) :
    ((rows.map (restamp cols place)).filter fun cells => pkKeyAt schema cols cells = key) =
      (rows.filter fun cells => pkKeyAt schema cols cells = key).map (restamp cols place) := by
  rw [filter_map]
  congr 1
  refine filter_congr fun cells _ => ?_
  simp only [comp_apply, pkKeyAt_restamp accepted]

end OpenNode

omit [GoLayout] [GoValues] in
theorem exists_repeated {α β : Type*} {f : α → β} {rows : List α}
    (repeated : ¬ (rows.map f).Nodup) :
    ∃ front row back, rows = front ++ row :: back ∧ ∃ other ∈ back, f other = f row := by
  induction rows with
  | nil => exact absurd nodup_nil repeated
  | cons row rest ih =>
    by_cases again : f row ∈ rest.map f
    · obtain ⟨other, member, same⟩ := mem_map.mp again
      exact ⟨[], row, rest, rfl, other, member, same⟩
    have later : ¬ (rest.map f).Nodup := fun nodup =>
      repeated (nodup_cons.mpr ⟨again, nodup⟩)
    obtain ⟨front, first, back, split, found⟩ := ih later
    exact ⟨row :: front, first, back, by rw [split, cons_append], found⟩

/-- The chunks of a dump whose keys are given, where a row of one chunk is newer than the
later row of its key and both are newer than every row of the other chunks. -/
def overtaken (cols : List Column) (before : List (List (List Cell)))
    (front : List (List Cell)) (row : List Cell) (back : List (List Cell))
    (after : List (List (List Cell))) : List (List (List Cell)) :=
  before.map (List.map (restamp cols .low)) ++
    (front.map (restamp cols .middle) ++ restamp cols .high row ::
        back.map (restamp cols .middle)) ::
      after.map (List.map (restamp cols .low))

section Overtaken

variable {before after : List (List (List Cell))} {front back : List (List Cell)} {row : List Cell}

omit [GoLayout] [GoValues] in
theorem mem_overtaken {cells : List Cell}
    (member : cells ∈ (overtaken cols before front row back after).flatten) :
    ∃ place original, cells = restamp cols place original := by
  simp only [overtaken, mem_flatten, mem_append, mem_cons, mem_map] at member
  obtain ⟨chunk, ⟨original, -, rfl⟩ | rfl | ⟨original, -, rfl⟩, inChunk⟩ := member
  · obtain ⟨cells, -, rfl⟩ := mem_map.mp inChunk
    exact ⟨.low, cells, rfl⟩
  · rcases mem_append.mp inChunk with early | late
    · obtain ⟨cells, -, rfl⟩ := mem_map.mp early
      exact ⟨.middle, cells, rfl⟩
    · rcases mem_cons.mp late with rfl | late
      · exact ⟨.high, row, rfl⟩
      · obtain ⟨cells, -, rfl⟩ := mem_map.mp late
        exact ⟨.middle, cells, rfl⟩
  · obtain ⟨cells, -, rfl⟩ := mem_map.mp inChunk
    exact ⟨.low, cells, rfl⟩

theorem find_overtaken (accepted : schema.accepts cols = true)
    (again : ∃ other ∈ back, pkKeyAt schema cols other = pkKeyAt schema cols row) :
    ∃ kept, (writeBatches (pkKeyAt schema cols) (applyMergeRow openNode schema cols) Table.empty
        (overtaken cols before front row back after)).find (pkKeyAt schema cols row) = some kept ∧
      Clocked kept Place.middle.clock := by
  have onlyKey : KeyLocal (pkKeyAt schema cols) (applyMergeRow openNode schema cols)
      (mergeRow openNode schema cols) (overtaken cols before front row back after).flatten :=
    fun _ _ _ _ => rfl
  rw [find_writeBatches onlyKey, overtaken, foldl_append, foldl_cons, Table.find_empty]
  clear onlyKey
  -- the chunks before leave no newer clock
  have early : AtPlace .low ((before.map (List.map (restamp cols .low))).foldl (fun stored rows =>
      pickAll (mergeRow openNode schema cols) stored stored
        (rows.filter fun cells => pkKeyAt schema cols cells = pkKeyAt schema cols row)) none) := by
    have start : AtPlace .low none := nofun
    generalize (none : Option Row) = value at start ⊢
    induction before generalizing value with
    | nil => exact start
    | cons chunk rest ih =>
      rw [map_cons, foldl_cons, filter_restamp accepted]
      exact ih _ (pickAll_atPlace accepted _ start)
  generalize (before.map (List.map (restamp cols .low))).foldl _ none = seen at early ⊢
  -- in the chunk itself the last row of the key is written
  obtain ⟨kept, found, clocked⟩ : ∃ kept, pickAll (mergeRow openNode schema cols) seen seen
      ((front.map (restamp cols .middle) ++ restamp cols .high row ::
        back.map (restamp cols .middle)).filter fun cells =>
          pkKeyAt schema cols cells = pkKeyAt schema cols row) = some kept ∧
      Clocked kept Place.middle.clock := by
    obtain ⟨other, member, same⟩ := again
    rw [filter_append, filter_cons, if_pos (by simp [pkKeyAt_restamp accepted]),
      filter_restamp accepted, filter_restamp accepted]
    simp only [pickAll, foldl_append, foldl_cons]
    exact pickAll_newer accepted early (by decide) _
      (ne_nil_of_mem (mem_filter.mpr ⟨member, by simpa using same⟩))
  rw [found]
  -- the chunks after are older
  refine ⟨kept, ?_, clocked⟩
  induction after with
  | nil => rfl
  | cons chunk rest ih =>
    rw [map_cons, foldl_cons, filter_restamp accepted,
      pickAll_older accepted clocked (by decide)]
    exact ih

end Overtaken

omit [GoValues] in
theorem regular_openNode (accepted : schema.accepts cols = true)
    (restamped : ∀ cells ∈ rows, ∃ place original, cells = restamp cols place original) :
    Regular openNode cols Table.empty rows := by
  refine ⟨?_, ?_, nofun, fun _ _ _ => rfl, fun _ _ _ => rfl, fun _ _ _ => rfl⟩
  · intro cells member
    obtain ⟨place, original, rfl⟩ := restamped cells member
    exact length_map _
  · intro cells member
    obtain ⟨place, original, rfl⟩ := restamped cells member
    exact ⟨place.clock, stamped_restamp accepted place original⟩

/-- Merging any dump with given keys keeps the newest rows exactly when no chunk repeats
a key. -/
theorem keepsNewest_iff_distinct {size : Nat} (positive : 0 < size)
    (accepted : schema.accepts cols = true) (dump : List (List Cell)) :
    (∀ node before rows, rows.map (pkKeyAt schema cols) = dump.map (pkKeyAt schema cols) →
      Regular node cols before rows →
      KeepsNewest schema cols before rows (mergeTable node schema size ⟨cols, rows⟩ before)) ↔
      ∀ chunk ∈ chunksOf size dump, (chunk.map (pkKeyAt schema cols)).Nodup := by
  constructor
  · intro keeps chunk member
    by_contra repeated
    obtain ⟨front, row, back, rfl, again⟩ := exists_repeated repeated
    obtain ⟨before, after, runs⟩ := append_of_mem member
    have cut : chunksOf size (overtaken cols before front row back after).flatten =
        overtaken cols before front row back after := by
      refine chunksOf_flatten positive (show _ = (chunksOf size dump).map List.length from ?_)
      rw [runs]
      simp [overtaken, comp_def]
    have keys : (overtaken cols before front row back after).flatten.map (pkKeyAt schema cols) =
        dump.map (pkKeyAt schema cols) := by
      rw [← flatten_chunksOf positive dump, runs, map_flatten, map_flatten]
      simp [overtaken, map_map, comp_def, pkKeyAt_restamp accepted]
    have newest := (keeps openNode Table.empty _ keys
      (regular_openNode accepted fun _ inDump => mem_overtaken inDump)).newest
    rw [mergeTable_eq accepted, cut] at newest
    obtain ⟨kept, found, clocked⟩ := find_overtaken accepted again
    refine (newest _ kept found).2 (restamp cols .high row) ?_ ?_
    · refine mem_filter.mpr ⟨?_, by simp [pkKeyAt_restamp accepted]⟩
      simp [overtaken]
    · rw [clockOf_clocked clocked, incomingTS_stamped (stamped_restamp accepted .high row)]
      rfl
  · intro distinct node before rows keys regular
    refine keepsNewest_of_distinct positive accepted regular fun chunk member => ?_
    rw [keys, chunksOf_map] at member
    obtain ⟨run, inRuns, rfl⟩ := mem_map.mp member
    exact distinct run inRuns

end Litevirt.Sync

namespace Litevirt.Sync

open Litevirt.Lib Litevirt.Hlc List

def hostLabels : Schema where
  name := "host_labels"
  columns := [bytes "host_name", bytes "key", bytes "value", updatedAt, bytes "deleted_at"]
  pkCols := [bytes "host_name", bytes "key"]
  defaults := fun _ => .null
  store := fun _ cell => cell
  keyed := by decide
  key_known := by decide +kernel
  clocked := by decide +kernel
  clock_free := by decide +kernel
  store_clock := verbatim_clock

def hostLabel (host value : String) (place : Place) : List Cell :=
  [.text (bytes host), .text (bytes "zone"), .text (bytes value), .text place.clock.text, .null]

theorem stamped_hostLabel (host value : String) (place : Place) :
    Stamped hostLabels.columns (hostLabel host value place) place.clock := by
  have notHost : (updatedAt == bytes "host_name") = false := by decide +kernel
  have notKey : (updatedAt == bytes "key") = false := by decide +kernel
  have notValue : (updatedAt == bytes "value") = false := by decide +kernel
  simp [Stamped, cellOf, hostLabels, hostLabel, lookup_cons, notHost, notKey, notValue]

theorem regular_hostLabels [GoLayout] {before : Stored}
    (clocked : ∀ key row, before.find key = some row → ∃ clock, Clocked row clock)
    (labels : List (String × String × Place)) :
    Regular openNode hostLabels.columns before
      (labels.map fun label => hostLabel label.1 label.2.1 label.2.2) := by
  refine ⟨?_, ?_, clocked, fun _ _ _ => rfl, fun _ _ _ => rfl, fun _ _ _ => rfl⟩
  · intro cells member
    obtain ⟨label, -, rfl⟩ := mem_map.mp member
    rfl
  · intro cells member
    obtain ⟨label, -, rfl⟩ := mem_map.mp member
    exact ⟨_, stamped_hostLabel ..⟩

attribute [local instance] strictLayout plainValues

/-- A node that holds an old label of host `a`. -/
def oldLabel : Stored :=
  Table.empty.put [bytes "a", bytes "zone"]
    (cellOf hostLabels.columns (hostLabel "a" "w" .low))

theorem clocked_oldLabel (key : RowKey) (row : Row) (found : oldLabel.find key = some row) :
    ∃ clock, Clocked row clock := by
  rw [oldLabel, Table.find_put] at found
  split at found
  · obtain rfl := Option.some.inj found
    exact ⟨_, stamped_hostLabel ..⟩
  · cases found

/-- The label of host `a` comes in both chunks, each time newer than the stored one. -/
theorem labels_of_two_hosts_kept :
    KeepsNewest hostLabels hostLabels.columns oldLabel
        [hostLabel "a" "x" .high, hostLabel "b" "y" .low, hostLabel "a" "z" .middle]
        (mergeTable openNode hostLabels 2 ⟨hostLabels.columns,
          [hostLabel "a" "x" .high, hostLabel "b" "y" .low, hostLabel "a" "z" .middle]⟩
          oldLabel) ∧
      ((mergeTable openNode hostLabels 2 ⟨hostLabels.columns,
          [hostLabel "a" "x" .high, hostLabel "b" "y" .low, hostLabel "a" "z" .middle]⟩
          oldLabel).find [bytes "a", bytes "zone"]).map clockOf =
        some Place.high.clock.text :=
  ⟨(keepsNewest_iff_distinct (by decide) (by decide +kernel)
      [hostLabel "a" "x" .high, hostLabel "b" "y" .low, hostLabel "a" "z" .middle]).mpr
      (by decide +kernel) openNode oldLabel _ rfl
      (regular_hostLabels clocked_oldLabel
        [("a", "x", .high), ("b", "y", .low), ("a", "z", .middle)]),
    by decide +kernel⟩

/-- One label twice in one chunk, the newer one first: the older one is stored. -/
theorem older_label_replaces_newer :
    Regular openNode hostLabels.columns Table.empty
        [hostLabel "a" "x" .high, hostLabel "a" "y" .low] ∧
      ((mergeTable openNode hostLabels 1000
          ⟨hostLabels.columns, [hostLabel "a" "x" .high, hostLabel "a" "y" .low]⟩
          Table.empty).find [bytes "a", bytes "zone"]).map clockOf =
        some Place.low.clock.text ∧
      ¬ KeepsNewest hostLabels hostLabels.columns Table.empty
        [hostLabel "a" "x" .high, hostLabel "a" "y" .low]
        (mergeTable openNode hostLabels 1000
          ⟨hostLabels.columns, [hostLabel "a" "x" .high, hostLabel "a" "y" .low]⟩
          Table.empty) := by
  have unclocked (key : RowKey) (row : Row) (found : Table.empty.find key = some row) :
      ∃ clock, Clocked row clock := nomatch found
  refine ⟨regular_hostLabels unclocked [("a", "x", .high), ("a", "y", .low)],
    (and_iff_left_of_imp fun stored keeps => ?_).mpr (by decide +kernel)⟩
  obtain ⟨row, found, clock⟩ := Option.map_eq_some_iff.mp stored
  have newest := (KeepsNewest.newest keeps _ row found).2
    (hostLabel "a" "x" .high) (by decide +kernel)
  rw [clock] at newest
  exact newest (by decide +kernel)

end Litevirt.Sync
