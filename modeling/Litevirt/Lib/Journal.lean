import Mathlib

/-!
# Journals

A journal numbers its records in the order they are committed.  A number is
never given twice: records may be dropped, but the counter does not go back.
Readers page through a journal by number.
-/

namespace Litevirt.Lib

open List

/-- Numbered records in increasing order, below the next number to be given. -/
structure Journal (ρ : Type*) where
  rows : List (Nat × ρ)
  next : Nat
  started : 0 < next
  increasing : rows.Pairwise fun earlier later => earlier.1 < later.1
  issued : ∀ row ∈ rows, 0 < row.1 ∧ row.1 < next

/-- The largest number among the rows, and 0 if there are none. -/
def highest {ρ : Type*} (rows : List (Nat × ρ)) : Nat :=
  rows.foldl (fun largest row => if row.1 > largest then row.1 else largest) 0

namespace Journal

variable {ρ : Type*}

def empty : Journal ρ where
  rows := []
  next := 1
  started := by decide
  increasing := .nil
  issued := nofun

def append (journal : Journal ρ) (record : ρ) : Journal ρ where
  rows := journal.rows ++ [(journal.next, record)]
  next := journal.next + 1
  started := Nat.succ_pos _
  increasing := by
    refine pairwise_append.mpr ⟨journal.increasing, pairwise_singleton _ _, ?_⟩
    intro row member last isLast
    rw [mem_singleton.mp isLast]
    exact (journal.issued row member).2
  issued := by
    intro row member
    rcases mem_append.mp member with earlier | last
    · have bounds := journal.issued row earlier
      exact ⟨bounds.1, Nat.lt_succ_of_lt bounds.2⟩
    · rw [mem_singleton.mp last]
      exact ⟨journal.started, Nat.lt_succ_self _⟩

def appendAll (journal : Journal ρ) (records : List ρ) : Journal ρ :=
  records.foldl append journal

/-- Drop the rows that meet the condition; their numbers stay used. -/
def prune (journal : Journal ρ) (drops : Nat × ρ → Bool) : Journal ρ where
  rows := journal.rows.filter fun row => !drops row
  next := journal.next
  started := journal.started
  increasing := journal.increasing.filter _
  issued row member := journal.issued row (mem_of_mem_filter member)

/-- Drop all but the newest `limit` rows. -/
def keepNewest (journal : Journal ρ) (limit : Nat) : Journal ρ where
  rows := journal.rows.drop (journal.rows.length - limit)
  next := journal.next
  started := journal.started
  increasing := journal.increasing.sublist (drop_sublist _ _)
  issued row member := journal.issued row (mem_of_mem_drop member)

def page (journal : Journal ρ) (after limit : Nat) : List (Nat × ρ) :=
  (journal.rows.filter fun row => after < row.1).take limit

def since (journal : Journal ρ) (number : Nat) : List (Nat × ρ) :=
  journal.rows.filter fun row => number ≤ row.1

variable {journal : Journal ρ}

theorem keepNewest_of_le {limit : Nat} (room : journal.rows.length ≤ limit) :
    journal.keepNewest limit = journal := by
  simp [keepNewest, Nat.sub_eq_zero_of_le room]

theorem since_next (journal : Journal ρ) : journal.since journal.next = [] := by
  refine filter_eq_nil_iff.mpr ?_
  intro row member
  simpa using (journal.issued row member).2

theorem since_prune_next (journal : Journal ρ) (drops : Nat × ρ → Bool) :
    (journal.prune drops).since journal.next = [] :=
  since_next (journal.prune drops)

variable {number : Nat}

theorem since_append (given : number ≤ journal.next) (record : ρ) :
    (journal.append record).since number = journal.since number ++ [(journal.next, record)] := by
  simp [since, append, given]

theorem since_appendAll (given : number ≤ journal.next) (records : List ρ) :
    ((journal.appendAll records).since number).map Prod.snd =
      (journal.since number).map Prod.snd ++ records := by
  induction records generalizing journal with
  | nil => simp [appendAll]
  | cons record rest ih =>
    have later : number ≤ (journal.append record).next := Nat.le_succ_of_le given
    calc ((journal.appendAll (record :: rest)).since number).map Prod.snd
        = ((journal.append record).since number).map Prod.snd ++ rest := ih later
      _ = (journal.since number).map Prod.snd ++ record :: rest := by
          rw [since_append given]
          simp

theorem added_appendAll (journal : Journal ρ) (records : List ρ) :
    ((journal.appendAll records).since journal.next).map Prod.snd = records := by
  rw [since_appendAll (Nat.le_refl _), since_next]
  rfl

private theorem foldl_highest (rows : List (Nat × ρ)) (start : Nat) :
    start ≤ rows.foldl (fun largest row => if row.1 > largest then row.1 else largest) start ∧
      ∀ row ∈ rows, row.1 ≤
        rows.foldl (fun largest row => if row.1 > largest then row.1 else largest) start := by
  induction rows generalizing start with
  | nil => exact ⟨Nat.le_refl _, nofun⟩
  | cons first rest ih =>
    obtain ⟨above, bounds⟩ := ih (if first.1 > start then first.1 else start)
    have taken : start ≤ (if first.1 > start then first.1 else start) ∧
        first.1 ≤ (if first.1 > start then first.1 else start) := by
      split <;> omega
    simp only [foldl_cons, mem_cons, forall_eq_or_imp]
    exact ⟨Nat.le_trans taken.1 above, Nat.le_trans taken.2 above, bounds⟩

variable {rows : List (Nat × ρ)} {row : Nat × ρ}

theorem le_highest (member : row ∈ rows) :
    row.1 ≤ highest rows :=
  (foldl_highest rows 0).2 row member

theorem highest_lt {bound : Nat} (positive : 0 < bound)
    (below : ∀ row ∈ rows, row.1 < bound) : highest rows < bound := by
  unfold highest
  generalize 0 = start at positive ⊢
  induction rows generalizing start with
  | nil => exact positive
  | cons first rest ih =>
    refine ih (fun row member => below row (mem_cons_of_mem _ member)) _ ?_
    dsimp only
    split
    · exact below first mem_cons_self
    · exact positive

/-- A page holds every row of the journal between the number it starts after and
its highest number. -/
theorem mem_page_of_le {after limit : Nat} (member : row ∈ journal.rows)
    (later : after < row.1) (covered : row.1 ≤ highest (journal.page after limit)) :
    row ∈ journal.page after limit := by
  let pending := journal.rows.filter fun row => after < row.1
  have isPending : row ∈ pending.take limit ++ pending.drop limit := by
    rw [take_append_drop]
    exact mem_filter.mpr ⟨member, by simpa using later⟩
  rcases mem_append.mp isPending with inPage | left
  · exact inPage
  -- a row left for a later page is numbered above the whole page
  have ordered : (pending.take limit ++ pending.drop limit).Pairwise
      fun earlier later => earlier.1 < later.1 := by
    rw [take_append_drop]
    exact journal.increasing.filter _
  have above : highest (pending.take limit) < row.1 :=
    highest_lt (Nat.zero_lt_of_lt later) fun read inPage =>
      (pairwise_append.mp ordered).2.2 read inPage row left
  exact absurd covered (Nat.not_le.mpr above)

end Journal

end Litevirt.Lib
