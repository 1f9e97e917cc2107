import Mathlib

/-!
# Keyed tables

A table with a primary key: a list of rows whose keys are distinct.  Distinctness
is a field, so every table that can be built has at most one row for a key.
-/

namespace Litevirt.Lib

open List

variable {κ ν : Type*} [DecidableEq κ]

def lookupRow (key : κ) : List (κ × ν) → Option ν
  | [] => none
  | row :: rest => if row.1 = key then some row.2 else lookupRow key rest

def putRow (key : κ) (value : ν) : List (κ × ν) → List (κ × ν)
  | [] => [(key, value)]
  | row :: rest => if row.1 = key then (key, value) :: rest else row :: putRow key value rest

variable {key : κ} {value : ν} {rows : List (κ × ν)}

theorem mem_keys_putRow {other : κ} :
    other ∈ (putRow key value rows).map Prod.fst ↔ other = key ∨ other ∈ rows.map Prod.fst := by
  induction rows with
  | nil => simp [putRow]
  | cons row rest ih =>
    unfold putRow
    split
    · rename_i same
      simp [same]
    · simp only [map_cons, mem_cons, ih]
      tauto

theorem nodup_keys_putRow (nodup : (rows.map Prod.fst).Nodup) :
    ((putRow key value rows).map Prod.fst).Nodup := by
  induction rows with
  | nil => simp [putRow]
  | cons row rest ih =>
    obtain ⟨fresh, nodupRest⟩ := nodup_cons.mp nodup
    unfold putRow
    split
    · rename_i same
      rw [← same]
      exact nodup
    rename_i different
    refine nodup_cons.mpr ⟨?_, ih nodupRest⟩
    rw [mem_keys_putRow]
    exact not_or.mpr ⟨different, fresh⟩

theorem lookupRow_putRow (key other : κ) (value : ν) (rows : List (κ × ν)) :
    lookupRow other (putRow key value rows) =
      if other = key then some value else lookupRow other rows := by
  induction rows with
  | nil =>
    simp only [putRow, lookupRow]
    simp [eq_comm]
  | cons row rest ih =>
    by_cases same : row.1 = key
    · by_cases wanted : other = key
      · simp [putRow, same, lookupRow, wanted]
      · have skipped : ¬ key = other := fun equal => wanted equal.symm
        simp [putRow, same, lookupRow, wanted, skipped]
    · by_cases found : row.1 = other
      · have differs : ¬ other = key := fun equal => same (found.trans equal)
        simp [putRow, lookupRow, found, differs]
      · simp [putRow, same, lookupRow, found, ih]

theorem mem_iff_lookupRow (nodup : (rows.map Prod.fst).Nodup) :
    (key, value) ∈ rows ↔ lookupRow key rows = some value := by
  induction rows with
  | nil => simp [lookupRow]
  | cons row rest ih =>
    obtain ⟨fresh, nodupRest⟩ := nodup_cons.mp nodup
    unfold lookupRow
    split
    · rename_i same
      have absent : (key, value) ∉ rest := fun member =>
        fresh (same ▸ mem_map_of_mem member)
      rw [mem_cons, or_iff_left absent, Prod.ext_iff, ← same]
      simp [eq_comm]
    · rename_i different
      rw [mem_cons, ← ih nodupRest, or_iff_right]
      intro equal
      exact different (congrArg Prod.fst equal).symm

theorem lookupRow_map (change : κ → ν → ν) (key : κ) (rows : List (κ × ν)) :
    lookupRow key (rows.map fun row => (row.1, change row.1 row.2)) =
      (lookupRow key rows).map (change key) := by
  induction rows with
  | nil => rfl
  | cons row rest ih =>
    by_cases here : row.1 = key
    · simp [lookupRow, here]
    · simpa [lookupRow, here] using ih

structure Table (κ ν : Type*) where
  rows : List (κ × ν)
  nodup : (rows.map Prod.fst).Nodup
  deriving DecidableEq

namespace Table

def empty : Table κ ν := ⟨[], nodup_nil⟩

def find (table : Table κ ν) (key : κ) : Option ν := lookupRow key table.rows

def put (table : Table κ ν) (key : κ) (value : ν) : Table κ ν :=
  ⟨putRow key value table.rows, nodup_keys_putRow table.nodup⟩

@[simp] theorem find_empty (key : κ) : (empty : Table κ ν).find key = none := rfl

theorem find_put (table : Table κ ν) (key other : κ) (value : ν) :
    (table.put key value).find other = if other = key then some value else table.find other :=
  lookupRow_putRow key other value table.rows

@[simp] theorem find_put_self (table : Table κ ν) (key : κ) (value : ν) :
    (table.put key value).find key = some value := by
  rw [find_put, if_pos rfl]

theorem find_put_of_ne (table : Table κ ν) {key other : κ} (value : ν) (different : other ≠ key) :
    (table.put key value).find other = table.find other := by
  rw [find_put, if_neg different]

/-- Rewrite the value of every row. -/
def amend (table : Table κ ν) (change : κ → ν → ν) : Table κ ν where
  rows := table.rows.map fun row => (row.1, change row.1 row.2)
  nodup := by
    rw [map_map]
    exact table.nodup

theorem find_amend (table : Table κ ν) (change : κ → ν → ν) (key : κ) :
    (table.amend change).find key = (table.find key).map (change key) :=
  lookupRow_map change key table.rows

theorem mem_rows_iff {table : Table κ ν} {key : κ} {value : ν} :
    (key, value) ∈ table.rows ↔ table.find key = some value :=
  mem_iff_lookupRow table.nodup

end Table

end Litevirt.Lib
