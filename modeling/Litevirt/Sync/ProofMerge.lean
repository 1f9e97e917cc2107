import Litevirt.Lib.Fields
import Litevirt.Sync.MergeSpec

/-!
# Merging action proofs

`proofMergeKeepLocalRow` of `internal/corrosion/sync.go`: the row with the further
lifecycle status stays, and whichever row stays carries the recorded steps of both.  The
steps are a set that is held as a text, so their order is the order of merging.
-/

namespace Litevirt.Sync

open Litevirt.Lib Litevirt.Hlc List

/-! ## The rules -/

def statusCol : Column := bytes "status"

def stepState : Column := bytes "step_state"

def claimCertificate : Column := bytes "claim_certificate"

def proofRank (status : Bytes) : Nat :=
  if status = bytes "in_progress" then 1
  else if status = bytes "completed" ∨ status = bytes "failed" then 2
  else 0

/-- `v.(string)`. -/
def asString : Cell → Bytes
  | .text s => s
  | _ => []

/-- `unionSteps`: the words of both texts in the order they come first. -/
def unionSteps (a b : Bytes) : Bytes :=
  [32].intercalate (collect [] (fields spaces (a ++ 32 :: b)))

def proofBindingColumns : List Column :=
  ["action", "target_kind", "target_name", "dest_host", "coordinator", "relocation_token",
    "fence_epoch", "owner_epoch", "lease_term", "lease_key"].map bytes

section Rules

variable [GoLayout] [GoValues]

def localWinsLWW (localTS incomingTS : Bytes) : Bool := decide (lwwOrder localTS incomingTS ≠ .lt)

def proofMergeKeepLocal (localStatus localTS incomingStatus incomingTS : Bytes) : Bool :=
  if proofRank localStatus ≠ proofRank incomingStatus then
    decide (proofRank incomingStatus < proofRank localStatus)
  else if proofRank localStatus = 2 ∧ localStatus ≠ incomingStatus then true
  else localWinsLWW localTS incomingTS

def sprint : Cell → Bytes
  | .null => bytes "<nil>"
  | cell => coerceString cell

def proofBindingCellsEqual (cols : List Column) (a b : Row) : Bool :=
  proofBindingColumns.all fun name => decide (name ∈ cols) && sprint (a name) == sprint (b name)

def proofRowEncoding (cols : List Column) (row : Row) : Bytes :=
  cols.flatMap fun col => sprint (row col) ++ [0]

/-- One copy completed and the other failed. -/
def proofConflict (a b : Row) : Bool :=
  decide (proofRank (asString (a statusCol)) = 2 ∧ proofRank (asString (b statusCol)) = 2 ∧
    asString (a statusCol) ≠ asString (b statusCol))

/-- The local row stays, before the steps and the certificate are merged. -/
def proofKeepsLocal (cols : List Column) (localRow incomingRow : Row) : Bool :=
  let localTS := asString (localRow updatedAt)
  let incomingTS := asString (incomingRow updatedAt)
  if asString (localRow statusCol) = asString (incomingRow statusCol) ∧
      lwwOrder localTS incomingTS = .eq ∧ proofBindingCellsEqual cols localRow incomingRow then
    decide (compareTexts (proofRowEncoding cols localRow) (proofRowEncoding cols incomingRow) ≠ .lt)
  else
    proofMergeKeepLocal (asString (localRow statusCol)) localTS (asString (incomingRow statusCol))
      incomingTS

/-- A text of the local row after an update that is left out when nothing changes. -/
def updated (cell : Cell) (text : Bytes) : Cell := if text = asString cell then cell else .text text

/-- The row that is stored after a dumped copy met a stored one; `better` picks one of two
claim certificates. -/
def mergeProof (better : Bytes → Bytes → Bytes) (cols : List Column) (localRow incomingRow : Row) :
    Row :=
  let steps := unionSteps (asString (localRow stepState)) (asString (incomingRow stepState))
  let best :=
    better (asString (localRow claimCertificate)) (asString (incomingRow claimCertificate))
  if statusCol ∉ cols then localRow
  else if proofConflict localRow incomingRow then localRow
  else if proofKeepsLocal cols localRow incomingRow then fun col =>
    if col ∉ cols then localRow col
    else if col = stepState then updated (localRow col) steps
    else if col = claimCertificate then updated (localRow col) best
    else localRow col
  else fun col =>
    if col ∉ cols then localRow col
    else if col = stepState then .text steps
    else if col = claimCertificate then .text best
    else incomingRow col

end Rules

/-! ## Exchanges -/

/-- The copies that two replicas have held, the newest first. -/
structure Replicas where
  first : List Row
  second : List Row

/-- A replica merges a copy that the other one holds or has held. -/
inductive Exchange where
  | toFirst (sent : Nat)
  | toSecond (sent : Nat)

section Exchanges

variable [GoLayout] [GoValues] (better : Bytes → Bytes → Bytes) (cols : List Column)

def mergeInto (copies other : List Row) (sent : Nat) : List Row :=
  match copies, other[sent]? with
  | mine :: held, some copy => mergeProof better cols mine copy :: mine :: held
  | copies, _ => copies

def Replicas.exchange (replicas : Replicas) : Exchange → Replicas
  | .toFirst sent =>
    { replicas with first := mergeInto better cols replicas.first replicas.second sent }
  | .toSecond sent =>
    { replicas with second := mergeInto better cols replicas.second replicas.first sent }

def Replicas.run (replicas : Replicas) (exchanges : List Exchange) : Replicas :=
  exchanges.foldl (Replicas.exchange better cols) replicas

/-- After both replicas merged they agree on the status and the steps. -/
def Agree (a b : Row) : Prop :=
  ∀ exchanges x y xs ys,
    Replicas.run better cols ⟨[a], [b]⟩ exchanges = ⟨x :: xs, y :: ys⟩ → xs ≠ [] → ys ≠ [] →
    asString (x statusCol) = asString (y statusCol) ∧
      asString (x stepState) = asString (y stepState)

/-- Two copies of a proof converge, no merge replaces a terminal status, and none loses a
step. -/
structure ProofsConverge (a b : Row) : Prop where
  agree : Agree better cols a b
  terminal : ∀ localRow incomingRow, proofRank (asString (localRow statusCol)) = 2 →
    proofRank (asString (mergeProof better cols localRow incomingRow statusCol)) = 2
  steps : ∀ localRow incomingRow, proofConflict localRow incomingRow = false →
    ∀ step, step ∈ fields spaces (asString (localRow stepState)) ∨
        step ∈ fields spaces (asString (incomingRow stepState)) →
      step ∈ fields spaces (asString (mergeProof better cols localRow incomingRow stepState))

end Exchanges

/-! ## One merge -/

theorem lone_space : LoneSeparator spaces 32 := by
  refine ⟨?_, ?_, ?_⟩ <;> decide +kernel

/-- The recorded steps of a copy in the order they come first. -/
def stepsOf (row : Row) : List Bytes := collect [] (fields spaces (asString (row stepState)))

theorem fields_unionSteps (a b : Bytes) :
    fields spaces (unionSteps a b) = collect (collect [] (fields spaces a)) (fields spaces b) := by
  have single : ∀ word ∈ collect [] (fields spaces (a ++ 32 :: b)),
      fields spaces word = [word] := by
    intro word member
    exact fields_of_mem ((mem_collect.mp member).resolve_left (by simp))
  rw [unionSteps, fields_intercalate lone_space single, fields_append lone_space, collect_append]

theorem unionSteps_eq (a b : Bytes) :
    unionSteps a b =
      [32].intercalate (collect (collect [] (fields spaces a)) (fields spaces b)) := by
  rw [unionSteps, fields_append lone_space, collect_append]

structure Dumped (cols : List Column) : Prop where
  status : statusCol ∈ cols
  steps : stepState ∈ cols
  clock : updatedAt ∈ cols

theorem proof_names : statusCol ≠ stepState ∧ statusCol ≠ claimCertificate ∧
    updatedAt ≠ stepState ∧ updatedAt ≠ claimCertificate := by
  decide +kernel

theorem asString_updated (cell : Cell) (text : Bytes) : asString (updated cell text) = text := by
  unfold updated
  split
  · rename_i same
    exact same.symm
  · rfl

variable {x y a b start row : Row} {Good : Row → Prop}

theorem proofConflict_congr {x' y' : Row} (left : asString (x' statusCol) = asString (x statusCol))
    (right : asString (y' statusCol) = asString (y statusCol)) :
    proofConflict x' y' = proofConflict x y := by
  unfold proofConflict
  rw [left, right]

theorem proofConflict_comm (x y : Row) : proofConflict x y = proofConflict y x := by
  unfold proofConflict
  rw [decide_eq_decide]
  constructor
  all_goals
    rintro ⟨one, two, different⟩
    exact ⟨two, one, different.symm⟩

/-- The copies of a replica: the first one, and merged ones after it. -/
def Held (Good : Row → Prop) (start : Row) (copies : List Row) : Prop :=
  ∃ merged, copies = merged ++ [start] ∧ ∀ row ∈ merged, Good row

theorem Held.mem {copies : List Row} (held : Held Good start copies) (member : row ∈ copies) :
    row = start ∨ Good row := by
  obtain ⟨merged, rfl, good⟩ := held
  rcases mem_append.mp member with inside | last
  · exact .inr (good row inside)
  · exact .inl (mem_singleton.mp last)

theorem Held.head {rest : List Row} (held : Held Good start (row :: rest)) (merged : rest ≠ []) :
    Good row := by
  obtain ⟨copies, split, good⟩ := held
  cases copies with
  | nil => exact absurd (List.cons.inj split).2 merged
  | cons head tail =>
    rw [(List.cons.inj split).1]
    exact good head mem_cons_self

/-- All the steps of two copies, those of the first one before the others. -/
def allSteps (a b : Row) : List Bytes :=
  collect (stepsOf a) (fields spaces (asString (b stepState)))

/-- The row records the steps in their order and nothing else. -/
def Records (steps : List Bytes) (row : Row) : Prop :=
  asString (row stepState) = [32].intercalate steps

theorem fields_records (records : Records (allSteps a b) row) :
    fields spaces (asString (row stepState)) = allSteps a b ∧ stepsOf row = allSteps a b := by
  have single : ∀ word ∈ allSteps a b, fields spaces word = [word] := by
    intro word member
    rcases mem_collect.mp member with inA | inB
    · exact fields_of_mem ((mem_collect.mp inA).resolve_left (by simp))
    · exact fields_of_mem inB
  have words : fields spaces (asString (row stepState)) = allSteps a b := by
    rw [records, fields_intercalate lone_space single]
  have nodup : (allSteps a b).Nodup := nodup_collect (nodup_collect nodup_nil _) _
  refine ⟨words, ?_⟩
  rw [stepsOf, words, collect_of_nodup nodup]

section Merge

variable [GoLayout] [GoValues] {better : Bytes → Bytes → Bytes} {cols : List Column}

variable (better) in
theorem mergeProof_status (dumped : Dumped cols) (l i : Row) :
    mergeProof better cols l i statusCol =
        (if proofConflict l i ∨ proofKeepsLocal cols l i then l else i) statusCol ∧
      mergeProof better cols l i updatedAt =
        (if proofConflict l i ∨ proofKeepsLocal cols l i then l else i) updatedAt := by
  obtain ⟨notSteps, notCertificate, clockNotSteps, clockNotCertificate⟩ := proof_names
  unfold mergeProof
  cases proofConflict l i <;> cases proofKeepsLocal cols l i <;>
    simp [dumped.status, dumped.clock, notSteps, notCertificate, clockNotSteps, clockNotCertificate]

variable {l i : Row}

theorem mergeProof_steps (dumped : Dumped cols) (agree : proofConflict l i = false) :
    asString (mergeProof better cols l i stepState) =
      unionSteps (asString (l stepState)) (asString (i stepState)) := by
  unfold mergeProof
  cases proofKeepsLocal cols l i with
  | true => simp [dumped.status, dumped.steps, agree, asString_updated]
  | false => simp [dumped.status, dumped.steps, agree, asString]

theorem keepsLocal_of_terminal (terminal : proofRank (asString (l statusCol)) = 2)
    (open_ : proofRank (asString (i statusCol)) ≠ 2) : proofKeepsLocal cols l i = true := by
  have bound : proofRank (asString (i statusCol)) ≤ 2 := by
    unfold proofRank
    repeat' split
    all_goals decide
  have different : asString (l statusCol) ≠ asString (i statusCol) := by
    intro same
    rw [same] at terminal
    exact open_ terminal
  simp only [proofKeepsLocal, different, false_and, ↓reduceIte, proofMergeKeepLocal, terminal]
  rw [if_pos (Ne.symm open_)]
  simp only [decide_eq_true_eq]
  omega

theorem terminal_kept (dumped : Dumped cols) (terminal : proofRank (asString (l statusCol)) = 2) :
    proofRank (asString (mergeProof better cols l i statusCol)) = 2 := by
  rw [(mergeProof_status better dumped l i).1]
  by_cases both : proofRank (asString (i statusCol)) = 2
  · split <;> assumption
  · rw [if_pos (.inr (keepsLocal_of_terminal terminal both))]
    exact terminal

/-! ## The status that stays -/

/-- The status of the first copy gives way to the second one's. -/
def Behind (x w : Row) : Prop :=
  asString (x statusCol) ≠ asString (w statusCol) ∧
    (proofRank (asString (x statusCol)) < proofRank (asString (w statusCol)) ∨
      proofRank (asString (x statusCol)) = proofRank (asString (w statusCol)) ∧
        lwwOrder (asString (x updatedAt)) (asString (w updatedAt)) = .lt)

def Front (w r : Row) : Prop :=
  asString (r statusCol) = asString (w statusCol) ∧ asString (r updatedAt) = asString (w updatedAt)

variable {w : Row}

omit [GoValues] in
theorem Behind.congr {x' w' : Row} (left : Front x x') (right : Front w w') (behind : Behind x w) :
    Behind x' w' := by
  unfold Behind at behind ⊢
  rw [left.1, left.2, right.1, right.2]
  exact behind

variable (cols) in
theorem keepsLocal_of_behind (agree : proofConflict x w = false) (behind : Behind x w) :
    proofKeepsLocal cols x w = false ∧ proofKeepsLocal cols w x = true := by
  obtain ⟨different, order⟩ := behind
  have notBoth : ¬ (proofRank (asString (x statusCol)) = 2 ∧
      proofRank (asString (w statusCol)) = 2) := by
    rintro ⟨one, two⟩
    simp [proofConflict, one, two, different] at agree
  have back : lwwOrder (asString (w updatedAt)) (asString (x updatedAt)) =
      (lwwOrder (asString (x updatedAt)) (asString (w updatedAt))).swap := lwwOrder_swap _ _
  simp only [proofKeepsLocal, different, Ne.symm different, false_and, ↓reduceIte,
    proofMergeKeepLocal, localWinsLWW]
  rcases order with lower | ⟨same, older⟩
  · simp only [ne_eq, lower.ne, lower.ne', not_false_eq_true, ↓reduceIte, lower, decide_true,
      and_true, decide_eq_false_iff_not]
    omega
  · have unequal : proofRank (asString (w statusCol)) ≠ 2 :=
      fun two => notBoth ⟨same.trans two, two⟩
    simp [same, unequal, older, back, Ordering.swap]

variable (better) in
theorem front_mergeProof (dumped : Dumped cols) (front : Front w x) (other : Front w y ∨ Behind y w)
    (agree : proofConflict y w = false) :
    Front w (mergeProof better cols x y) ∧ Front w (mergeProof better cols y x) := by
  have forth := mergeProof_status better dumped x y
  have back := mergeProof_status better dumped y x
  unfold Front
  rw [forth.1, forth.2, back.1, back.2]
  rcases other with frontY | behind
  · constructor <;> split <;> assumption
  have apart : proofConflict y x = false := by
    rw [proofConflict_congr rfl front.1]
    exact agree
  obtain ⟨yields, stays⟩ := keepsLocal_of_behind cols apart
    (behind.congr ⟨rfl, rfl⟩ front)
  rw [proofConflict_comm x y, apart, stays, yields]
  exact ⟨front, front⟩

/-! ## Runs -/

theorem Held.mergeInto {other : Row} {copies others : List Row} (held : Held Good start copies)
    (heldOther : Held Good other others)
    (merge : ∀ x y, (x = start ∨ Good x) → (y = other ∨ Good y) → Good (mergeProof better cols x y))
    (sent : Nat) : Held Good start (mergeInto better cols copies others sent) := by
  unfold Sync.mergeInto
  split
  · rename_i mine rest copy found
    have good := merge mine copy (held.mem mem_cons_self)
      (heldOther.mem (mem_of_getElem? found))
    obtain ⟨merged, split, all⟩ := held
    refine ⟨mergeProof better cols mine copy :: merged, by rw [split, cons_append], ?_⟩
    intro row member
    rcases mem_cons.mp member with rfl | inside
    · exact good
    · exact all row inside
  · exact held

theorem Held.run
    (forth : ∀ x y, (x = a ∨ Good x) → (y = b ∨ Good y) → Good (mergeProof better cols x y))
    (back : ∀ x y, (x = b ∨ Good x) → (y = a ∨ Good y) → Good (mergeProof better cols x y))
    (exchanges : List Exchange) {replicas : Replicas} (first : Held Good a replicas.first)
    (second : Held Good b replicas.second) :
    Held Good a (replicas.run better cols exchanges).first ∧
      Held Good b (replicas.run better cols exchanges).second := by
  induction exchanges generalizing replicas with
  | nil => exact ⟨first, second⟩
  | cons exchange rest ih =>
    cases exchange with
    | toFirst sent => exact ih (first.mergeInto second forth sent) second
    | toSecond sent => exact ih first (second.mergeInto first back sent)

/-! ## Convergence -/

/-- The steps of one copy begin as the steps of the other. -/
def StepsNested (a b : Row) : Prop := stepsOf a <+: stepsOf b ∨ stepsOf b <+: stepsOf a

/-- Copies with different statuses have them at different stages or different clocks. -/
def StatusOrdered (a b : Row) : Prop :=
  asString (a statusCol) ≠ asString (b statusCol) →
    proofRank (asString (a statusCol)) ≠ proofRank (asString (b statusCol)) ∨
      lwwOrder (asString (a updatedAt)) (asString (b updatedAt)) ≠ .eq

omit [GoLayout] [GoValues] in
theorem allSteps_of_records (nested : StepsNested a b)
    (left : x = a ∨ x = b ∨ Records (allSteps a b) x)
    (right : y = a ∨ y = b ∨ Records (allSteps a b) y)
    (either : x = a ∧ y = b ∨ x = b ∧ y = a ∨ Records (allSteps a b) x ∨ Records (allSteps a b) y) :
    allSteps x y = allSteps a b := by
  have swapped : allSteps b a = allSteps a b := ((collect_comm_iff _ _).mpr nested).symm
  have begins : ∀ {row}, row = a ∨ row = b ∨ Records (allSteps a b) row →
      stepsOf row <+: allSteps a b ∧
        ∀ step ∈ fields spaces (asString (row stepState)), step ∈ allSteps a b := by
    rintro row (rfl | rfl | records)
    · exact ⟨prefix_collect _ _, fun step member =>
        mem_collect.mpr (.inl (mem_collect.mpr (.inr member)))⟩
    · rw [← swapped]
      exact ⟨prefix_collect _ _, fun step member =>
        mem_collect.mpr (.inl (mem_collect.mpr (.inr member)))⟩
    · obtain ⟨words, steps⟩ := fields_records records
      rw [words, steps]
      exact ⟨prefix_rfl, fun step member => member⟩
  rcases either with ⟨rfl, rfl⟩ | ⟨rfl, rfl⟩ | records | records
  · rfl
  · exact swapped
  · rw [allSteps, (fields_records records).2]
    exact collect_of_subset (begins right).2
  · obtain ⟨words, steps⟩ := fields_records records
    have start := (begins left).1
    have own : collect [] (fields spaces (asString (y stepState))) = allSteps a b := steps
    rw [← own] at start ⊢
    exact collect_of_isPrefix start

theorem agree_of_won (dumped : Dumped cols) (nested : StepsNested a b) {Won : Row → Prop}
    (forth : ∀ x y, (x = a ∨ Won x) → (y = b ∨ Won y) →
      proofConflict x y = false ∧ Won (mergeProof better cols x y))
    (back : ∀ x y, (x = b ∨ Won x) → (y = a ∨ Won y) →
      proofConflict x y = false ∧ Won (mergeProof better cols x y))
    (same : ∀ x y, Won x → Won y → asString (x statusCol) = asString (y statusCol)) :
    Agree better cols a b := by
  intro exchanges x y xs ys ran mergedX mergedY
  have good : ∀ {p q}, p = a ∧ q = b ∨ p = b ∧ q = a →
      (∀ x y, (x = p ∨ Won x) → (y = q ∨ Won y) →
        proofConflict x y = false ∧ Won (mergeProof better cols x y)) →
      ∀ x y, (x = p ∨ Won x ∧ Records (allSteps a b) x) →
        (y = q ∨ Won y ∧ Records (allSteps a b) y) →
        Won (mergeProof better cols x y) ∧ Records (allSteps a b) (mergeProof better cols x y) := by
    intro p q ends wins x y left right
    obtain ⟨agree, won⟩ := wins x y (left.imp_right And.left) (right.imp_right And.left)
    have all : allSteps x y = allSteps a b := by
      refine allSteps_of_records nested ?_ ?_ ?_
      all_goals rcases ends with ⟨rfl, rfl⟩ | ⟨rfl, rfl⟩ <;> tauto
    refine ⟨won, ?_⟩
    rw [Records, mergeProof_steps dumped agree, unionSteps_eq, ← all]
    rfl
  have start : ∀ row, Held (fun row => Won row ∧ Records (allSteps a b) row) row [row] :=
    fun row => ⟨[], rfl, nofun⟩
  obtain ⟨first, second⟩ := Held.run (good (.inl ⟨rfl, rfl⟩) forth)
    (good (.inr ⟨rfl, rfl⟩) back) exchanges
    (show Held _ a (Replicas.mk [a] [b]).first from start a) (start b)
  rw [ran] at first second
  obtain ⟨wonX, stepsX⟩ := first.head mergedX
  obtain ⟨wonY, stepsY⟩ := second.head mergedY
  exact ⟨same x y wonX wonY, stepsX.trans stepsY.symm⟩

omit [GoLayout] [GoValues] in
theorem no_conflict_of_same (same : asString (x statusCol) = asString (y statusCol)) :
    proofConflict x y = false := by
  simp [proofConflict, same]

theorem agree_of_behind (dumped : Dumped cols) (nested : StepsNested a b)
    (copies : a = l ∧ b = w ∨ a = w ∧ b = l) (agree : proofConflict l w = false)
    (behind : Behind l w) : Agree better cols a b := by
  have near : ∀ {row}, row = l ∨ Front w row →
      (Front w row ∨ Behind row w) ∧ proofConflict row w = false := by
    rintro row (rfl | front)
    · exact ⟨.inr behind, agree⟩
    · exact ⟨.inl front, no_conflict_of_same front.1⟩
  -- one of the two rows that meet is at the front
  have meet : ∀ {x y}, Front w x → (y = l ∨ Front w y) →
      (proofConflict x y = false ∧ Front w (mergeProof better cols x y)) ∧
        proofConflict y x = false ∧ Front w (mergeProof better cols y x) := by
    intro x y front other
    have merged := front_mergeProof better dumped front (near other).1 (near other).2
    have apart : proofConflict y x = false := by
      rw [proofConflict_congr rfl front.1]
      exact (near other).2
    exact ⟨⟨by rw [proofConflict_comm]; exact apart, merged.1⟩, apart, merged.2⟩
  have self : Front w w := ⟨rfl, rfl⟩
  have same : ∀ x y, Front w x → Front w y → asString (x statusCol) = asString (y statusCol) :=
    fun x y frontX frontY => frontX.1.trans frontY.1.symm
  rcases copies with ⟨rfl, rfl⟩ | ⟨rfl, rfl⟩
  · refine agree_of_won dumped nested (fun x y left right => ?_) (fun x y left right => ?_) same
    · have front : Front b y := right.elim (fun equal => equal ▸ self) id
      exact (meet front left).2
    · have front : Front b x := left.elim (fun equal => equal ▸ self) id
      exact (meet front right).1
  refine agree_of_won dumped nested (fun x y left right => ?_) (fun x y left right => ?_) same
  · have front : Front a x := left.elim (fun equal => equal ▸ self) id
    exact (meet front right).1
  · have front : Front a y := right.elim (fun equal => equal ▸ self) id
    exact (meet front left).2

theorem agree_of_ordered (dumped : Dumped cols) (agree : proofConflict a b = false)
    (nested : StepsNested a b) (ordered : StatusOrdered a b) : Agree better cols a b := by
  by_cases same : asString (a statusCol) = asString (b statusCol)
  · -- every copy has the one status
    have merged : ∀ x y, asString (x statusCol) = asString (a statusCol) →
        asString (y statusCol) = asString (a statusCol) →
        proofConflict x y = false ∧
          asString (mergeProof better cols x y statusCol) = asString (a statusCol) := by
      intro x y statusX statusY
      refine ⟨no_conflict_of_same (statusX.trans statusY.symm), ?_⟩
      rw [(mergeProof_status better dumped x y).1]
      split <;> assumption
    have status : ∀ {row}, row = a ∨ row = b ∨ asString (row statusCol) = asString (a statusCol) →
        asString (row statusCol) = asString (a statusCol) := by
      rintro row (rfl | rfl | equal)
      · rfl
      · exact same.symm
      · exact equal
    have one : ∀ x y : Row, asString (x statusCol) = asString (a statusCol) →
        asString (y statusCol) = asString (a statusCol) →
        asString (x statusCol) = asString (y statusCol) :=
      fun x y statusX statusY => statusX.trans statusY.symm
    refine agree_of_won dumped nested (fun x y left right => merged x y (status ?_) (status ?_))
      (fun x y left right => merged x y (status ?_) (status ?_)) one
    all_goals tauto
  · have back : lwwOrder (asString (b updatedAt)) (asString (a updatedAt)) =
        (lwwOrder (asString (a updatedAt)) (asString (b updatedAt))).swap := lwwOrder_swap _ _
    have order : Behind a b ∨ Behind b a := by
      rcases Nat.lt_trichotomy (proofRank (asString (a statusCol)))
        (proofRank (asString (b statusCol))) with lower | equal | higher
      · exact .inl ⟨same, .inl lower⟩
      · have apart := (ordered same).resolve_left (not_not_intro equal)
        cases clocks : lwwOrder (asString (a updatedAt)) (asString (b updatedAt)) with
        | lt => exact .inl ⟨same, .inr ⟨equal, clocks⟩⟩
        | gt =>
          rw [clocks] at back
          exact .inr ⟨Ne.symm same, .inr ⟨equal.symm, back⟩⟩
        | eq => exact absurd clocks apart
      · exact .inr ⟨Ne.symm same, .inl higher⟩
    rcases order with behind | behind
    · exact agree_of_behind dumped nested (.inl ⟨rfl, rfl⟩) agree behind
    · rw [proofConflict_comm] at agree
      exact agree_of_behind dumped nested (.inr ⟨rfl, rfl⟩) agree behind

/-- Copies that agree after one merge each have nested steps and ordered statuses. -/
theorem ordered_of_agree (dumped : Dumped cols) (noConflict : proofConflict a b = false)
    (agree : Agree better cols a b) : StepsNested a b ∧ StatusOrdered a b := by
  have conflictBack : proofConflict b a = false := by
    rw [proofConflict_comm]
    exact noConflict
  obtain ⟨status, steps⟩ := agree [.toFirst 0, .toSecond 1] (mergeProof better cols a b)
    (mergeProof better cols b a) [a] [b] rfl (by simp) (by simp)
  constructor
  · rw [mergeProof_steps dumped noConflict, mergeProof_steps dumped conflictBack] at steps
    have words := congrArg (fields spaces) steps
    rw [fields_unionSteps, fields_unionSteps] at words
    exact (collect_comm_iff _ _).mp words
  intro different
  by_contra both
  obtain ⟨sameRank, tied⟩ := not_or.mp both
  have equal := not_not.mp sameRank
  have clocks := not_not.mp tied
  have swapped : lwwOrder (asString (b updatedAt)) (asString (a updatedAt)) = .eq := by
    rw [lwwOrder_swap, clocks]
    rfl
  have keepsA : proofKeepsLocal cols a b = true := by
    simp [proofKeepsLocal, different, proofMergeKeepLocal, equal, localWinsLWW, clocks]
  have keepsB : proofKeepsLocal cols b a = true := by
    simp [proofKeepsLocal, Ne.symm different, proofMergeKeepLocal, equal, localWinsLWW, swapped]
  rw [(mergeProof_status better dumped a b).1, (mergeProof_status better dumped b a).1,
    if_pos (.inr keepsA), if_pos (.inr keepsB)] at status
  exact different status

/-- Two copies without a conflict converge exactly when the steps of one begin as the steps
of the other and different statuses are ordered by their stage or clock. -/
theorem proofsConverge_iff (dumped : Dumped cols) {a b : Row}
    (noConflict : proofConflict a b = false) :
    ProofsConverge better cols a b ↔ StepsNested a b ∧ StatusOrdered a b := by
  constructor
  · intro converge
    exact ordered_of_agree dumped noConflict converge.agree
  rintro ⟨nested, ordered⟩
  refine ⟨agree_of_ordered dumped noConflict nested ordered,
    fun _ _ terminal => terminal_kept dumped terminal, fun _ _ agree _ recorded => ?_⟩
  rw [mergeProof_steps dumped agree, fields_unionSteps, mem_collect, mem_collect]
  tauto

end Merge

end Litevirt.Sync

namespace Litevirt.Sync

open Litevirt.Lib Litevirt.Hlc

def proofColumns : List Column :=
  ["id", "action", "target_kind", "target_name", "dest_host", "coordinator", "lease_holder",
    "lease_expires_at", "quorum_live", "quorum_needed", "owner_epoch", "fence_epoch",
    "relocation_token", "status", "step_state", "result_code", "result_detail", "started_at",
    "completed_at", "executor_host", "created_at", "updated_at", "deleted_at", "lease_term",
    "lease_key", "claim_certificate"].map bytes

def proofCopy (steps : String) : Row := fun col =>
  if col = statusCol then .text (bytes "in_progress")
  else if col = stepState then .text (bytes steps)
  else if col = updatedAt then .text Place.low.clock.text
  else .text []

attribute [local instance] strictLayout plainValues

/-- The copy with an earlier checkpoint takes the later ones. -/
theorem later_checkpoint_converges :
    ProofsConverge (fun mine _ => mine) proofColumns
      (proofCopy "start_attempted") (proofCopy "start_attempted started") :=
  (proofsConverge_iff (by refine ⟨?_, ?_, ?_⟩ <;> decide +kernel) (by decide +kernel)).mpr
    ⟨.inl (by decide +kernel), fun different => absurd (by decide +kernel) different⟩

/-- Two checkpoints that were recorded apart are never held in one order. -/
theorem checkpoints_stay_apart :
    proofBindingCellsEqual proofColumns (proofCopy "start_attempted") (proofCopy "started") = true ∧
      proofConflict (proofCopy "start_attempted") (proofCopy "started") = false ∧
      ¬ ProofsConverge (fun mine _ => mine) proofColumns
        (proofCopy "start_attempted") (proofCopy "started") := by
  refine ⟨by decide +kernel, by decide +kernel, fun converge => ?_⟩
  have agree := ProofsConverge.agree converge
  have steps := (agree [.toFirst 0, .toSecond 1] _ _ _ _ rfl (by simp) (by simp)).2
  exact absurd steps (by decide +kernel)

end Litevirt.Sync
