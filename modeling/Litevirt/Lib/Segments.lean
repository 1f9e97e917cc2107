import Mathlib

/-!
# Texts cut into segments

A scanner reads a text one symbol at a time.  A symbol is kept, cuts the text, or opens a remark
that is skipped up to the symbol that closes it.  What is kept does not change in which mode the
scanner goes on behind a cut.  A text written piece by piece is cut at the ends of its pieces
exactly when every piece, read alone, reaches its end and is cut there.
-/

namespace Litevirt.Lib

open List

inductive Scan (μ : Type) where
  | keep (mode : μ)
  | remark
  | cut

structure Scanner (α μ : Type) where
  next : μ → α → Scan μ
  closes : α → Bool
  /-- The mode behind a symbol that cut the text, or closed a remark, in a mode. -/
  restart : μ → α → μ
  steady : ∀ {mode symbol after}, next mode symbol = .keep after →
    ∀ stop, restart after stop = restart mode stop

/-- A piece of a text: what it states, its remark, and the symbol that ends it. -/
structure Piece (α : Type) where
  body : List α
  remark : List α
  stop : α

namespace Piece

variable {α : Type}

def text (piece : Piece α) : List α := piece.body ++ piece.remark ++ [piece.stop]

/-- What a reader keeps of a piece. -/
def kept (piece : Piece α) : List α × α := (piece.body, piece.stop)

end Piece

namespace Scanner

variable {α μ : Type} (scanner : Scanner α μ)

/-- The mode after a text that is kept whole. -/
def read : μ → List α → Option μ
  | mode, [] => some mode
  | mode, symbol :: rest =>
    match scanner.next mode symbol with
    | .keep after => read after rest
    | .remark => none
    | .cut => none

/-- The segments with the symbols that cut them, and what is pending at the end, whether inside a
remark, with its mode. -/
def splitFrom : Bool → μ → List α → List α → List (List α × α) × List α × Bool × μ
  | inRemark, mode, pending, [] => ([], pending, inRemark, mode)
  | true, mode, pending, symbol :: rest =>
    if scanner.closes symbol then
      let done := splitFrom false (scanner.restart mode symbol) [] rest
      ((pending, symbol) :: done.1, done.2)
    else splitFrom true mode pending rest
  | false, mode, pending, symbol :: rest =>
    match scanner.next mode symbol with
    | .keep after => splitFrom false after (pending ++ [symbol]) rest
    | .remark => splitFrom true mode pending rest
    | .cut =>
      let done := splitFrom false (scanner.restart mode symbol) [] rest
      ((pending, symbol) :: done.1, done.2)

def split (mode : μ) (text : List α) : List (List α × α) × List α × Bool × μ :=
  scanner.splitFrom false mode [] text

/-- The body is kept whole and the stop cuts behind it. -/
def Whole (mode : μ) (body : List α) (stop : α) : Prop :=
  ∃ after, scanner.read mode body = some after ∧ scanner.next after stop = .cut

instance (mode : μ) (body : List α) (stop : α) : Decidable (scanner.Whole mode body stop) :=
  match reads : scanner.read mode body with
  | none => isFalse fun ⟨_, reaches, _⟩ => by rw [reads] at reaches; cases reaches
  | some after =>
    match cuts : scanner.next after stop with
    | .cut => isTrue ⟨after, reads, cuts⟩
    | .keep _ => isFalse fun ⟨_, reaches, stops⟩ => by
        rw [reads] at reaches; cases reaches; rw [cuts] at stops; cases stops
    | .remark => isFalse fun ⟨_, reaches, stops⟩ => by
        rw [reads] at reaches; cases reaches; rw [cuts] at stops; cases stops

/-- A piece that is read to its end from a mode and cut there. -/
def Reads (mode : μ) (piece : Piece α) : Prop :=
  match piece.remark with
  | [] => scanner.Whole mode piece.body piece.stop
  | symbol :: rest =>
    (∃ after, scanner.read mode piece.body = some after ∧
      scanner.next after symbol = .remark) ∧
      (∀ other ∈ rest, scanner.closes other = false) ∧ scanner.closes piece.stop = true

/-- Pieces that are read one behind the other. -/
def ReadsAll : μ → List (Piece α) → Prop
  | _, [] => True
  | mode, piece :: rest =>
    scanner.Reads mode piece ∧ ReadsAll (scanner.restart mode piece.stop) rest

/-- The mode behind the stops of the pieces. -/
def behind (mode : μ) (pieces : List (Piece α)) : μ :=
  pieces.foldl (fun mode piece => scanner.restart mode piece.stop) mode

variable {scanner}

theorem read_append (mode : μ) (front back : List α) :
    scanner.read mode (front ++ back) =
      (scanner.read mode front).bind fun middle => scanner.read middle back := by
  induction front generalizing mode with
  | nil => rfl
  | cons symbol rest ih =>
    simp only [cons_append, read]
    cases scanner.next mode symbol with
    | keep after => exact ih after
    | remark => rfl
    | cut => rfl

variable {text : List α}

theorem restart_read {mode after : μ} (reads : scanner.read mode text = some after) (stop : α) :
    scanner.restart after stop = scanner.restart mode stop := by
  induction text generalizing mode with
  | nil => rw [Option.some.inj reads]
  | cons symbol text ih =>
    simp only [read] at reads
    cases next : scanner.next mode symbol with
    | keep middle =>
      rw [next] at reads
      rw [ih reads, scanner.steady next]
    | remark | cut => simp [next] at reads

theorem splitFrom_read {mode after : μ} (reads : scanner.read mode text = some after)
    (pending rest : List α) :
    scanner.splitFrom false mode pending (text ++ rest) =
      scanner.splitFrom false after (pending ++ text) rest := by
  induction text generalizing mode pending with
  | nil =>
    obtain rfl := Option.some.inj reads
    simp
  | cons symbol text ih =>
    simp only [read] at reads
    simp only [cons_append, splitFrom]
    cases next : scanner.next mode symbol with
    | keep middle =>
      rw [next] at reads
      simp only [ih reads, append_assoc, singleton_append]
    | remark | cut => simp [next] at reads

theorem splitFrom_remark {remark : List α} {mode : μ}
    (inside : ∀ symbol ∈ remark, scanner.closes symbol = false) (pending rest : List α) :
    scanner.splitFrom true mode pending (remark ++ rest) =
      scanner.splitFrom true mode pending rest := by
  induction remark with
  | nil => rfl
  | cons symbol remark ih =>
    have stays := inside symbol mem_cons_self
    simp only [cons_append, splitFrom, stays, Bool.false_eq_true, if_false]
    exact ih fun other member => inside other (mem_cons_of_mem _ member)

theorem split_piece {mode : μ} {piece : Piece α} (reads : scanner.Reads mode piece)
    (rest : List α) :
    scanner.split mode (piece.text ++ rest) =
      (piece.kept :: (scanner.split (scanner.restart mode piece.stop) rest).1,
        (scanner.split (scanner.restart mode piece.stop) rest).2) := by
  obtain ⟨body, remark, stop⟩ := piece
  unfold split Piece.text Piece.kept
  cases remark with
  | nil =>
    obtain ⟨after, reaches, cuts⟩ := reads
    simp only [append_nil, append_assoc, splitFrom_read reaches, nil_append,
      singleton_append, splitFrom, cuts, restart_read reaches]
  | cons symbol remark =>
    obtain ⟨⟨after, reaches, opens⟩, stays, closes⟩ := reads
    have closed : scanner.closes stop = true := closes
    simp only [append_assoc, splitFrom_read reaches, nil_append, cons_append,
      splitFrom, opens, splitFrom_remark stays, closed, if_true, restart_read reaches]

variable {pending : List α} {stop : α} {more : List (List α × α)}

theorem pending_prefix_splitFrom {inRemark : Bool} {mode : μ} {segment : List α}
    (first : (scanner.splitFrom inRemark mode pending text).1 = (segment, stop) :: more) :
    pending <+: segment := by
  induction text generalizing inRemark mode pending with
  | nil => cases inRemark <;> cases first
  | cons symbol rest ih =>
    cases inRemark with
    | true =>
      simp only [splitFrom] at first
      split at first
      · obtain ⟨same, -⟩ := List.cons.inj first
        exact (Prod.mk.inj same).1 ▸ prefix_rfl
      · exact ih first
    | false =>
      simp only [splitFrom] at first
      cases next : scanner.next mode symbol with
      | keep after =>
        rw [next] at first
        exact (prefix_append _ _).trans (ih first)
      | remark =>
        rw [next] at first
        exact ih first
      | cut =>
        rw [next] at first
        obtain ⟨same, -⟩ := List.cons.inj first
        exact (Prod.mk.inj same).1 ▸ prefix_rfl

theorem segment_of_remark {mode : μ} {segment : List α}
    (first : (scanner.splitFrom true mode pending text).1 = (segment, stop) :: more) :
    segment = pending := by
  induction text with
  | nil => cases first
  | cons symbol rest ih =>
    simp only [splitFrom] at first
    split at first
    · obtain ⟨same, -⟩ := List.cons.inj first
      exact (Prod.mk.inj same).1.symm
    · exact ih first

/-- When the first segment is the text up to a symbol, that text was kept and the symbol cut. -/
theorem whole_of_splitFrom {mode : μ} {body rest : List α} {last : α}
    (states : ∀ mode, scanner.next mode stop ≠ .remark)
    (first : (scanner.splitFrom false mode pending (body ++ stop :: rest)).1 =
      (pending ++ body, last) :: more) :
    ∃ after, scanner.read mode body = some after ∧ scanner.next after stop = .cut := by
  induction body generalizing mode pending with
  | nil =>
    refine ⟨mode, rfl, ?_⟩
    simp only [nil_append, splitFrom] at first
    cases next : scanner.next mode stop with
    | keep after =>
      rw [next] at first
      have longer := (pending_prefix_splitFrom first).length_le
      simp only [append_nil, length_append, length_singleton] at longer
      omega
    | remark => exact absurd next (states mode)
    | cut => rfl
  | cons symbol body ih =>
    simp only [cons_append, splitFrom] at first
    simp only [read]
    cases next : scanner.next mode symbol with
    | keep after =>
      rw [next] at first
      have shifted : pending ++ symbol :: body = pending ++ [symbol] ++ body := by simp
      rw [shifted] at first
      exact ih first
    | remark =>
      rw [next] at first
      have shorter := congrArg List.length (segment_of_remark first)
      simp at shorter
    | cut =>
      rw [next] at first
      obtain ⟨same, -⟩ := List.cons.inj first
      have shorter := congrArg List.length (Prod.mk.inj same).1
      simp at shorter

/-- A text written in pieces is cut where they end exactly when every piece reads to its end. -/
theorem split_pieces_iff {pieces : List (Piece α)} {fresh : μ → Prop} {mode : μ}
    (states : ∀ piece ∈ pieces, ∀ mode, scanner.next mode piece.stop ≠ .remark)
    (remarks : ∀ piece ∈ pieces, piece.remark ≠ [] → ∀ mode, fresh mode → scanner.Reads mode piece)
    (restarts : ∀ mode stop, fresh (scanner.restart mode stop)) (begins : fresh mode) :
    scanner.split mode (pieces.flatMap Piece.text) =
        (pieces.map Piece.kept, [], false, scanner.behind mode pieces) ↔
      scanner.ReadsAll mode pieces := by
  induction pieces generalizing mode with
  | nil => exact ⟨fun _ => trivial, fun _ => rfl⟩
  | cons piece pieces ih =>
    have rest := @ih (scanner.restart mode piece.stop)
      (fun other member => states other (mem_cons_of_mem _ member))
      (fun other member => remarks other (mem_cons_of_mem _ member)) (restarts mode piece.stop)
    have step (reads : scanner.Reads mode piece) :
        scanner.split mode ((piece :: pieces).flatMap Piece.text) =
            ((piece :: pieces).map Piece.kept, [], false, scanner.behind mode (piece :: pieces)) ↔
          scanner.split (scanner.restart mode piece.stop) (pieces.flatMap Piece.text) =
            (pieces.map Piece.kept, [], false,
              scanner.behind (scanner.restart mode piece.stop) pieces) := by
      rw [flatMap_cons, split_piece reads, map_cons]
      simp only [Prod.ext_iff, List.cons.injEq, true_and]
      rfl
    constructor
    · intro cut
      have reads : scanner.Reads mode piece := by
        cases remark : piece.remark with
        | cons symbol more =>
          exact remarks piece mem_cons_self (by rw [remark]; exact cons_ne_nil _ _) mode
            begins
        | nil =>
          have first := congrArg Prod.fst cut
          simp only [split, flatMap_cons, Piece.text, remark, append_nil,
            append_assoc, singleton_append, map_cons, Piece.kept] at first
          simp only [Reads, remark]
          exact whole_of_splitFrom (states piece mem_cons_self) first
      exact ⟨reads, rest.mp ((step reads).mp cut)⟩
    · rintro ⟨reads, others⟩
      exact (step reads).mpr (rest.mpr others)

end Scanner

end Litevirt.Lib
