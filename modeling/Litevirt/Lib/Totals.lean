import Litevirt.Lib.Table

/-!
# Totals of sizes

Sums of non-negative sizes over lists and keyed tables, and the same sums as a program
computes them: in wrapping 64-bit integers, or by a database that refuses a sum that does
not fit.
-/

namespace Litevirt.Lib

open List

/-- A non-negative number that fits a signed 64-bit integer. -/
abbrev Size := Fin (2 ^ 63)

instance size_pos : NeZero (2 ^ 63) := ⟨by decide⟩

theorem foldl_add_ofNat {α : Type*} (f : α → Nat) (xs : List α) (n : Nat) :
    xs.foldl (fun sum x => sum + Int64.ofNat (f x)) (Int64.ofNat n) =
      Int64.ofNat (n + (xs.map f).sum) := by
  induction xs generalizing n with
  | nil => simp
  | cons x rest ih =>
    rw [foldl_cons, ← Int64.ofNat_add, ih, map_cons, sum_cons, Nat.add_assoc]

theorem sum_map_filter {α : Type*} (p : α → Bool) (f : α → Nat) (xs : List α) :
    ((xs.filter p).map f).sum = (xs.map fun x => if p x then f x else 0).sum := by
  induction xs with
  | nil => rfl
  | cons x rest ih =>
    by_cases kept : p x = true
    · simp [kept, ih]
    · simp [kept, ih]

theorem toInt_sub_of_nonneg {a b : Int64} (positive : 0 ≤ a.toInt) (spent : 0 ≤ b.toInt) :
    (a - b).toInt = a.toInt - b.toInt := by
  have above := a.toInt_lt
  have below := b.toInt_lt
  rw [Int64.toInt_sub, Int.bmod_eq_of_le (by omega) (by omega)]

def checkedSum (sizes : List Nat) : Option Int64 :=
  if sizes.sum < 2 ^ 63 then some (Int64.ofNat sizes.sum) else none

theorem checkedSum_eq_some {sizes : List Nat} {sum : Int64} (summed : checkedSum sizes = some sum) :
    sizes.sum < 2 ^ 63 ∧ sum = Int64.ofNat sizes.sum := by
  unfold checkedSum at summed
  split at summed
  · exact ⟨by assumption, (Option.some.inj summed).symm⟩
  · cases summed

theorem checkedSum_of_lt {sizes : List Nat} (fits : sizes.sum < 2 ^ 63) :
    checkedSum sizes = some (Int64.ofNat sizes.sum) := if_pos fits

section Groups

variable {α κ : Type*} [DecidableEq κ] (key : α → κ) (f : α → Nat)

def groupTotal (rows : List α) (wanted : κ) : Nat :=
  ((rows.filter fun row => key row = wanted).map f).sum

/-- The sums of all groups at once: refused when any of them does not fit. -/
def checkedGroupSum (rows : List α) (wanted : κ) : Option Int64 :=
  if rows.all fun row => groupTotal key f rows (key row) < 2 ^ 63 then
    some (Int64.ofNat (groupTotal key f rows wanted))
  else none

variable {key f}

theorem checkedGroupSum_eq_some {rows : List α} {wanted : κ} {sum : Int64}
    (summed : checkedGroupSum key f rows wanted = some sum) :
    groupTotal key f rows wanted < 2 ^ 63 ∧ sum = Int64.ofNat (groupTotal key f rows wanted) := by
  unfold checkedGroupSum at summed
  split at summed
  · rename_i fits
    refine ⟨?_, (Option.some.inj summed).symm⟩
    by_cases present : ∃ row ∈ rows, key row = wanted
    · obtain ⟨row, member, rfl⟩ := present
      exact of_decide_eq_true (all_eq_true.mp fits row member)
    have none : (rows.filter fun row => key row = wanted) = [] :=
      filter_eq_nil_iff.mpr fun row member same =>
        present ⟨row, member, of_decide_eq_true same⟩
    unfold groupTotal
    rw [none, map_nil]
    exact Nat.two_pow_pos 63
  · cases summed

end Groups

variable {κ ν : Type*}

def Table.total (table : Table κ ν) (f : κ → ν → Nat) : Nat :=
  (table.rows.map fun row => f row.1 row.2).sum

theorem Table.total_le {table : Table κ ν} {f g : κ → ν → Nat}
    (below : ∀ row ∈ table.rows, f row.1 row.2 ≤ g row.1 row.2) : table.total f ≤ table.total g :=
  sum_le_sum below

theorem Table.total_congr {table : Table κ ν} {f g : κ → ν → Nat}
    (same : ∀ row ∈ table.rows, f row.1 row.2 = g row.1 row.2) :
    table.total f = table.total g :=
  congrArg List.sum (map_congr_left same)

variable [DecidableEq κ]

theorem sum_putRow (f : κ → ν → Nat) (key : κ) (value : ν) (rows : List (κ × ν)) :
    ((putRow key value rows).map fun row => f row.1 row.2).sum +
        (lookupRow key rows).elim 0 (f key) =
      (rows.map fun row => f row.1 row.2).sum + f key value := by
  induction rows with
  | nil => simp [putRow, lookupRow]
  | cons row rest ih =>
    by_cases same : row.1 = key
    · simp only [putRow, lookupRow, same, ↓reduceIte, map_cons, sum_cons,
        Option.elim_some]
      omega
    · simp only [putRow, lookupRow, same, ↓reduceIte, map_cons, sum_cons]
      omega

theorem Table.total_put (table : Table κ ν) (f : κ → ν → Nat) (key : κ) (value : ν) :
    (table.put key value).total f + (table.find key).elim 0 (f key) =
      table.total f + f key value :=
  sum_putRow f key value table.rows

theorem putRow_putRow (key : κ) (value later : ν) (rows : List (κ × ν)) :
    putRow key later (putRow key value rows) = putRow key later rows := by
  induction rows with
  | nil => simp [putRow]
  | cons row rest ih =>
    by_cases same : row.1 = key
    · simp [putRow, same]
    · simp [putRow, same, ih]

theorem Table.put_put (table : Table κ ν) (key : κ) (value later : ν) :
    (table.put key value).put key later = table.put key later := by
  simp only [Table.put, Table.mk.injEq]
  exact putRow_putRow key value later table.rows

end Litevirt.Lib
