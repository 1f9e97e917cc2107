import Litevirt.Lib.Table

/-!
# Writing rows in batches

Rows are cut into batches of a bounded size, and a batch is written row by row: what
a row writes may depend on the table at the start of its batch and on the table now.
For one key the batches are a fold over the rows of that key.
-/

namespace Litevirt.Lib

open List

section Chunks

variable {α β : Type*}

/-- Runs of a bounded length from the front of a list. -/
def chunks (size : Nat) : Nat → List α → List (List α)
  | 0, _ => []
  | _ + 1, [] => []
  | fuel + 1, row :: rows =>
    (row :: rows).take size :: chunks size fuel ((row :: rows).drop size)

/-- A list in runs of a length, the last one possibly shorter. -/
def chunksOf (size : Nat) (rows : List α) : List (List α) := chunks size rows.length rows

variable {size : Nat} {rows : List α} {fuel : Nat}

theorem flatten_chunks (positive : 0 < size) (enough : rows.length ≤ fuel) :
    (chunks size fuel rows).flatten = rows := by
  induction fuel generalizing rows with
  | zero => simp [chunks, eq_nil_of_length_eq_zero (Nat.le_zero.mp enough)]
  | succ fuel ih =>
    cases rows with
    | nil => rfl
    | cons row rest =>
      have shorter : ((row :: rest).drop size).length ≤ fuel := by
        rw [length_drop]
        omega
      rw [chunks, flatten_cons, ih shorter, take_append_drop]

theorem flatten_chunksOf (positive : 0 < size) (rows : List α) :
    (chunksOf size rows).flatten = rows :=
  flatten_chunks positive (Nat.le_refl _)

theorem chunks_map (f : α → β) (size fuel : Nat) (rows : List α) :
    chunks size fuel (rows.map f) = (chunks size fuel rows).map (List.map f) := by
  induction fuel generalizing rows with
  | zero => rfl
  | succ fuel ih =>
    cases rows with
    | nil => rfl
    | cons row rest =>
      have tail := ih ((row :: rest).drop size)
      rw [map_drop, map_cons] at tail
      rw [map_cons, chunks, chunks, tail, map_cons, map_take, map_cons]

theorem chunksOf_map (f : α → β) (size : Nat) (rows : List α) :
    chunksOf size (rows.map f) = (chunksOf size rows).map (List.map f) := by
  rw [chunksOf, length_map, chunks_map]
  rfl

variable {runs : List (List β)}

theorem chunks_flatten (positive : 0 < size) (enough : rows.length ≤ fuel)
    (lengths : runs.map List.length = (chunks size fuel rows).map List.length) :
    chunks size fuel runs.flatten = runs := by
  induction fuel generalizing rows runs with
  | zero =>
    rw [chunks, map_nil, map_eq_nil_iff] at lengths
    rw [lengths]
    rfl
  | succ fuel ih =>
    cases rows with
    | nil =>
      rw [chunks, map_nil, map_eq_nil_iff] at lengths
      rw [lengths]
      rfl
    | cons row rest =>
      cases runs with
      | nil => cases lengths
      | cons run later =>
        rw [chunks, map_cons, map_cons, List.cons.injEq, length_take] at lengths
        obtain ⟨first, others⟩ := lengths
        have shorter : ((row :: rest).drop size).length ≤ fuel := by
          rw [length_drop]
          omega
        have tail := ih shorter others
        obtain ⟨value, front, rfl⟩ : ∃ value front, run = value :: front := by
          refine exists_cons_of_ne_nil fun none => ?_
          rw [none, length_nil, length_cons] at first
          omega
        have split : ((value :: front) ++ later.flatten).take size = value :: front ∧
            ((value :: front) ++ later.flatten).drop size = later.flatten := by
          by_cases full : size ≤ (row :: rest).length
          · have length : (value :: front).length = size := by omega
            exact ⟨take_left' length, drop_left' length⟩
          -- a short run is the last one
          have last : later = [] := by
            rw [drop_of_length_le (by omega)] at others
            cases fuel <;> simpa [chunks] using others
          rw [last, flatten_nil, append_nil]
          exact ⟨take_of_length_le (by omega), drop_of_length_le (by omega)⟩
        rw [flatten_cons, cons_append, chunks, ← cons_append, split.1, split.2,
          tail]

theorem chunksOf_flatten (positive : 0 < size)
    (lengths : runs.map List.length = (chunksOf size rows).map List.length) :
    chunksOf size runs.flatten = runs := by
  have same : runs.flatten.length = rows.length := by
    rw [length_flatten, lengths, ← length_flatten, flatten_chunksOf positive]
  rw [chunksOf, same]
  exact chunks_flatten positive (Nat.le_refl _) lengths

end Chunks

section Writes

variable {κ ν ρ : Type*} [DecidableEq κ]

/-- A rule for writing a row, given the table before its batch and the table now. -/
abbrev WriteRule (κ ν ρ : Type*) := Table κ ν → Table κ ν → ρ → Option ν

variable (key : ρ → κ) (write : WriteRule κ ν ρ)

def writeRow (snapshot now : Table κ ν) (row : ρ) : Table κ ν :=
  match write snapshot now row with
  | none => now
  | some value => now.put (key row) value

def writeBatch (table : Table κ ν) (rows : List ρ) : Table κ ν :=
  rows.foldl (writeRow key write table) table

def writeBatches (table : Table κ ν) (batches : List (List ρ)) : Table κ ν :=
  batches.foldl (writeBatch key write) table

/-- On these rows the rule looks only at the two rows stored under the key. -/
def KeyLocal (pick : Option ν → Option ν → ρ → Option ν) (rows : List ρ) : Prop :=
  ∀ snapshot now, ∀ row ∈ rows,
    write snapshot now row = pick (snapshot.find (key row)) (now.find (key row)) row

variable {key write}

/-- The rows of a key in a batch, written one after the other against its first row. -/
def pickAll (pick : Option ν → Option ν → ρ → Option ν) (seen stored : Option ν)
    (rows : List ρ) : Option ν :=
  rows.foldl (fun value row => (pick seen value row).or value) stored

variable {pick : Option ν → Option ν → ρ → Option ν} {rows : List ρ}

theorem find_writeRows (onlyKey : KeyLocal key write pick rows)
    (snapshot now : Table κ ν) (wanted : κ) :
    (rows.foldl (writeRow key write snapshot) now).find wanted =
      pickAll pick (snapshot.find wanted) (now.find wanted)
        (rows.filter fun row => key row = wanted) := by
  induction rows generalizing now with
  | nil => rfl
  | cons row rest ih =>
    have later : KeyLocal key write pick rest :=
      fun before after row member => onlyKey before after row (mem_cons_of_mem _ member)
    have here := onlyKey snapshot now row mem_cons_self
    rw [foldl_cons, ih later]
    by_cases same : key row = wanted
    · subst same
      rw [filter_cons_of_pos (by simp)]
      simp only [pickAll, foldl_cons]
      unfold writeRow
      rw [here]
      cases pick (snapshot.find (key row)) (now.find (key row)) row with
      | none => rfl
      | some value => simp
    · rw [filter_cons_of_neg (by simpa using same)]
      congr 1
      unfold writeRow
      cases write snapshot now row with
      | none => rfl
      | some value => exact now.find_put_of_ne value (Ne.symm same)

variable {batches : List (List ρ)}

theorem find_writeBatches
    (onlyKey : KeyLocal key write pick batches.flatten) (table : Table κ ν) (wanted : κ) :
    (writeBatches key write table batches).find wanted =
      batches.foldl (fun stored rows =>
        pickAll pick stored stored (rows.filter fun row => key row = wanted))
        (table.find wanted) := by
  induction batches generalizing table with
  | nil => rfl
  | cons rows rest ih =>
    have first : KeyLocal key write pick rows := fun before after row member =>
      onlyKey before after row (mem_flatten.mpr ⟨rows, mem_cons_self, member⟩)
    have later : KeyLocal key write pick rest.flatten := fun before after row member =>
      onlyKey before after row (by
        exact mem_append_right _ member)
    have tail := ih later (writeBatch key write table rows)
    unfold writeBatches at tail ⊢
    rw [foldl_cons, foldl_cons, tail, writeBatch, find_writeRows first]

theorem filter_key_of_nodup (nodup : (rows.map key).Nodup) (wanted : κ) :
    (rows.filter fun row => key row = wanted) = [] ∨
      ∃ row, (rows.filter fun row => key row = wanted) = [row] := by
  induction rows with
  | nil => exact .inl rfl
  | cons row rest ih =>
    obtain ⟨fresh, nodupRest⟩ := nodup_cons.mp nodup
    by_cases same : key row = wanted
    · refine .inr ⟨row, ?_⟩
      have none : (rest.filter fun row => key row = wanted) = [] := by
        rw [filter_eq_nil_iff]
        intro other member equal
        exact fresh (mem_map.mpr ⟨other, member, by rw [same]; simpa using equal⟩)
      rw [filter_cons_of_pos (by simpa using same), none]
    · rw [filter_cons_of_neg (by simpa using same)]
      exact ih nodupRest

theorem find_writeBatches_of_nodup (onlyKey : KeyLocal key write pick batches.flatten)
    (nodup : ∀ rows ∈ batches, (rows.map key).Nodup) (table : Table κ ν) (wanted : κ) :
    (writeBatches key write table batches).find wanted =
      (batches.flatten.filter fun row => key row = wanted).foldl
        (fun stored row => (pick stored stored row).or stored) (table.find wanted) := by
  rw [find_writeBatches onlyKey]
  clear onlyKey
  generalize table.find wanted = stored
  induction batches generalizing stored with
  | nil => rfl
  | cons rows rest ih =>
    rw [foldl_cons, ih (fun batch member => nodup batch (mem_cons_of_mem _ member)),
      flatten_cons, filter_append]
    rcases filter_key_of_nodup (nodup rows mem_cons_self) wanted with none | ⟨row, one⟩
    · rw [none]
      rfl
    · rw [one]
      rfl

end Writes

end Litevirt.Lib
