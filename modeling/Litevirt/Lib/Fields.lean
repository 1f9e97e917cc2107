import Mathlib

/-!
# Sets of words in a text

A text is cut into words at separators of one or more symbols, and words are collected
in the order in which they come first.  Joining collected words with a separator and
cutting the text again gives the words back.
-/

namespace Litevirt.Lib

open List

variable {α : Type*} [DecidableEq α]

/-- Append the values that are not there yet. -/
def collect (seen values : List α) : List α :=
  values.foldl (fun out value => if value ∈ out then out else out ++ [value]) seen

theorem collect_append (seen front back : List α) :
    collect seen (front ++ back) = collect (collect seen front) back :=
  foldl_append

theorem collect_concat (seen values : List α) (value : α) :
    collect seen (values ++ [value]) =
      if value ∈ collect seen values then collect seen values
      else collect seen values ++ [value] := by
  rw [collect_append]
  rfl

variable {seen values : List α}

theorem mem_collect {value : α} : value ∈ collect seen values ↔ value ∈ seen ∨ value ∈ values := by
  induction values using reverseRecOn with
  | nil => simp [collect]
  | append_singleton front last ih =>
    rw [collect_concat]
    split
    · rename_i known
      rw [ih, mem_append, mem_singleton]
      constructor
      · tauto
      · rintro (inSeen | inFront | rfl)
        · exact .inl inSeen
        · exact .inr inFront
        · exact ih.mp known
    · simp only [mem_append, ih, mem_singleton]
      tauto

theorem nodup_collect (nodup : seen.Nodup) (values : List α) : (collect seen values).Nodup := by
  induction values using reverseRecOn with
  | nil => exact nodup
  | append_singleton front last ih =>
    rw [collect_concat]
    split
    · exact ih
    · rename_i fresh
      exact List.Nodup.append ih (nodup_singleton last) (by simpa using fresh)

theorem collect_eq_append_filter (seen values : List α) :
    collect seen values = seen ++ (collect [] values).filter (· ∉ seen) := by
  induction values using reverseRecOn with
  | nil => simp [collect]
  | append_singleton front last ih =>
    rw [collect_concat, collect_concat]
    by_cases old : last ∈ seen
    · rw [if_pos (mem_collect.mpr (.inl old)), ih]
      split
      · rfl
      · rw [filter_append, filter_cons_of_neg (by simpa using old), filter_nil,
          append_nil]
    by_cases again : last ∈ front
    · rw [if_pos (mem_collect.mpr (.inr again)), if_pos (mem_collect.mpr (.inr again)), ih]
    · rw [if_neg (by simp [mem_collect, old, again]), if_neg (by simp [mem_collect, again]), ih,
        filter_append, filter_cons_of_pos (by simpa using old), filter_nil,
        append_assoc]

theorem prefix_collect (seen values : List α) : seen <+: collect seen values := by
  rw [collect_eq_append_filter]
  exact prefix_append _ _

theorem collect_of_subset (known : ∀ value ∈ values, value ∈ seen) :
    collect seen values = seen := by
  rw [collect_eq_append_filter, filter_eq_nil_iff.mpr, append_nil]
  intro value member
  have inValues := (mem_collect.mp member).resolve_left (by simp)
  simpa using known value inValues

theorem collect_of_nodup (nodup : values.Nodup) : collect [] values = values := by
  induction values using reverseRecOn with
  | nil => rfl
  | append_singleton front last ih =>
    obtain ⟨nodupFront, -, fresh⟩ := nodup_append.mp nodup
    have absent : last ∉ front := fun member => fresh last member last (by simp) rfl
    rw [collect_concat, ih nodupFront, if_neg absent]

theorem collect_of_isPrefix (begins : seen <+: collect [] values) :
    collect seen values = collect [] values := by
  obtain ⟨rest, split⟩ := begins
  have nodup := nodup_collect nodup_nil values
  rw [← split] at nodup
  rw [collect_eq_append_filter, ← split, filter_append,
    filter_eq_nil_iff.mpr (by simp), nil_append, filter_eq_self.mpr]
  intro value member
  have disjoint := disjoint_of_nodup_append nodup
  simpa using fun inSeen => disjoint inSeen member

/-- Two collections merge to one in both orders exactly when one begins as the other. -/
theorem collect_comm_iff (left right : List α) :
    collect (collect [] left) right = collect (collect [] right) left ↔
      collect [] left <+: collect [] right ∨ collect [] right <+: collect [] left := by
  constructor
  · intro same
    have first := prefix_collect (collect [] left) right
    rw [same] at first
    exact prefix_or_prefix_of_prefix first (prefix_collect (collect [] right) left)
  have absorb : ∀ {front back : List α}, collect [] front <+: collect [] back →
      collect (collect [] front) back = collect (collect [] back) front := by
    intro front back begins
    have known : ∀ value ∈ front, value ∈ collect [] back := fun value member =>
      begins.subset (mem_collect.mpr (.inr member))
    rw [collect_of_isPrefix begins, collect_of_subset known]
  rintro (begins | begins)
  · exact absorb begins
  · exact (absorb begins).symm

/-- Read on with a pending word; `skip` symbols of a separator are still to come. -/
def fieldsFrom (separators : List (List α)) : Nat → List α → List α → List (List α)
  | _, pending, [] => if pending = [] then [] else [pending]
  | skip + 1, pending, _ :: rest => fieldsFrom separators skip pending rest
  | 0, pending, symbol :: rest =>
    match separators.find? fun separator => separator.isPrefixOf (symbol :: rest) with
    | some separator =>
      (if pending = [] then [] else [pending]) ++
        fieldsFrom separators (separator.length - 1) [] rest
    | none => fieldsFrom separators 0 (pending ++ [symbol]) rest

def fields (separators : List (List α)) (text : List α) : List (List α) :=
  fieldsFrom separators 0 [] text

def flush (pending : List α) : List (List α) := if pending = [] then [] else [pending]

def leading (separators : List (List α)) (text : List α) : Option (List α) :=
  separators.find? fun separator => separator.isPrefixOf text

variable {separators : List (List α)} {symbol : α}

@[simp] theorem fieldsFrom_nil (skip : Nat) (pending : List α) :
    fieldsFrom separators skip pending [] = flush pending := by
  cases skip <;> rfl

variable {first : α} {rest : List α}

theorem fieldsFrom_found {separator : List α}
    (found : leading separators (first :: rest) = some separator) (pending : List α) :
    fieldsFrom separators 0 pending (first :: rest) =
      flush pending ++ fieldsFrom separators (separator.length - 1) [] rest := by
  rw [fieldsFrom.eq_def]
  simp only [show separators.find? (fun separator => separator.isPrefixOf (first :: rest)) = _
    from found]
  rfl

theorem fieldsFrom_other (other : leading separators (first :: rest) = none) (pending : List α) :
    fieldsFrom separators 0 pending (first :: rest) =
      fieldsFrom separators 0 (pending ++ [first]) rest := by
  rw [fieldsFrom.eq_def]
  simp only [show separators.find? (fun separator => separator.isPrefixOf (first :: rest)) = _
    from other]

variable {text : List α}

theorem leading_spec {separator : List α} (found : leading separators text = some separator) :
    separator ∈ separators ∧ separator <+: text := by
  exact ⟨mem_of_find?_eq_some found,
    isPrefixOf_iff_prefix.mp (find?_some (p := fun s : List α => s.isPrefixOf text) found)⟩

theorem leading_eq_none :
    leading separators text = none ↔ ∀ separator ∈ separators, ¬ separator <+: text := by
  unfold leading
  simp only [find?_eq_none, isPrefixOf_iff_prefix]

structure LoneSeparator (separators : List (List α)) (symbol : α) : Prop where
  listed : [symbol] ∈ separators
  alone : ∀ separator ∈ separators, symbol ∈ separator → separator = [symbol]
  nonempty : [] ∉ separators

variable {word : List α}

omit [DecidableEq α] in
theorem prefix_append_of_not_mem (absent : symbol ∉ word) (rest : List α) :
    word <+: text ++ symbol :: rest ↔ word <+: text := by
  constructor
  · intro begins
    rcases prefix_or_prefix_of_prefix begins (prefix_append _ _) with short | ⟨tail, rfl⟩
    · exact short
    rw [prefix_append_right_inj] at begins
    cases tail with
    | nil => simp
    | cons head tail =>
      rw [cons_prefix_cons] at begins
      exact absurd (by simp [begins.1]) absent
  · intro begins
    exact begins.trans (prefix_append _ _)

section

variable (lone : LoneSeparator separators symbol)
include lone

theorem leading_append (first : α) (text rest : List α) :
    leading separators (first :: text ++ symbol :: rest) = leading separators (first :: text) := by
  unfold leading
  rw [← head?_filter, ← head?_filter]
  congr 1
  refine filter_congr fun separator member => ?_
  rw [Bool.eq_iff_iff, isPrefixOf_iff_prefix, isPrefixOf_iff_prefix]
  by_cases here : symbol ∈ separator
  · rw [lone.alone separator member here]
    simp
  · exact prefix_append_of_not_mem here rest

theorem leading_symbol (rest : List α) :
    leading separators (symbol :: rest) = some [symbol] := by
  cases found : leading separators (symbol :: rest) with
  | none => exact absurd (by simp) (leading_eq_none.mp found [symbol] lone.listed)
  | some separator =>
    obtain ⟨member, begins⟩ := leading_spec found
    cases separator with
    | nil => exact absurd member lone.nonempty
    | cons head tail =>
      rw [cons_prefix_cons] at begins
      rw [lone.alone _ member (by simp [begins.1])]

theorem fieldsFrom_append (left right : List α)
    {skip : Nat} (within : skip ≤ left.length) (pending : List α) :
    fieldsFrom separators skip pending (left ++ symbol :: right) =
      fieldsFrom separators skip pending left ++ fields separators right := by
  induction left generalizing skip pending with
  | nil =>
    obtain rfl := Nat.le_zero.mp within
    rw [nil_append, fieldsFrom_found (leading_symbol lone right)]
    rfl
  | cons first rest ih =>
    cases skip with
    | succ skip =>
      rw [cons_append]
      exact ih (Nat.le_of_succ_le_succ within) pending
    | zero =>
      have same := leading_append lone first rest right
      rw [cons_append] at same ⊢
      cases found : leading separators (first :: rest) with
      | none =>
        rw [fieldsFrom_other (same.trans found), fieldsFrom_other found]
        exact ih (Nat.zero_le _) _
      | some separator =>
        have length := (leading_spec found).2.length_le
        rw [length_cons] at length
        rw [fieldsFrom_found (same.trans found), fieldsFrom_found found, append_assoc,
          ih (by omega)]

theorem fields_append (left right : List α) :
    fields separators (left ++ symbol :: right) =
      fields separators left ++ fields separators right :=
  fieldsFrom_append lone left right (Nat.zero_le _) []

end

def Unbroken (separators : List (List α)) (text : List α) : Prop :=
  ∀ back, back <:+ text → back ≠ [] → leading separators back = none

theorem leading_of_append (other : leading separators (text ++ rest) = none) :
    leading separators text = none := by
  rw [leading_eq_none] at other ⊢
  exact fun separator member begins =>
    other separator member (begins.trans (prefix_append _ _))

/-- Where a word is pending, no separator has begun since its start. -/
def Reading (separators : List (List α)) (pending text : List α) : Prop :=
  ∀ back, back <:+ pending → back ≠ [] → leading separators (back ++ text) = none

variable {pending : List α}

theorem Reading.unbroken (reading : Reading separators pending text)
    (member : word ∈ flush pending) : word ≠ [] ∧ Unbroken separators word := by
  unfold flush at member
  split at member
  · cases member
  · rename_i nonempty
    rw [mem_singleton.mp member]
    exact ⟨nonempty, fun back suffix some => leading_of_append (reading back suffix some)⟩

theorem reading_nil (text : List α) : Reading separators [] text := by
  intro back suffix some
  exact absurd (suffix_nil.mp suffix) some

theorem Reading.push (reading : Reading separators pending (first :: rest))
    (other : leading separators (first :: rest) = none) :
    Reading separators (pending ++ [first]) rest := by
  intro back suffix some
  rcases suffix_concat_iff.mp suffix with rfl | ⟨front, rfl, inside⟩
  · exact absurd rfl some
  rw [append_assoc]
  by_cases start : front = []
  · rw [start]
    exact other
  · exact reading front inside start

theorem unbroken_of_mem_fieldsFrom {skip : Nat} (inWord : skip = 0 ∨ pending = [])
    (reading : Reading separators pending text)
    (member : word ∈ fieldsFrom separators skip pending text) :
    word ≠ [] ∧ Unbroken separators word := by
  induction text generalizing skip pending with
  | nil =>
    exact reading.unbroken member
  | cons first rest ih =>
    cases skip with
    | succ skip =>
      obtain rfl := inWord.resolve_left (Nat.succ_ne_zero skip)
      exact ih (.inr rfl) (reading_nil rest) member
    | zero =>
      cases found : leading separators (first :: rest) with
      | none =>
        rw [fieldsFrom_other found] at member
        exact ih (.inl rfl) (reading.push found) member
      | some separator =>
        rw [fieldsFrom_found found] at member
        rcases mem_append.mp member with before | after
        · exact reading.unbroken before
        · exact ih (.inr rfl) (reading_nil rest) after

theorem fieldsFrom_of_unbroken (unbroken : Unbroken separators text) (pending : List α) :
    fieldsFrom separators 0 pending text = flush (pending ++ text) := by
  induction text generalizing pending with
  | nil => rw [fieldsFrom_nil, append_nil]
  | cons first rest ih =>
    have later : Unbroken separators rest := fun back suffix some =>
      unbroken back (suffix.trans (suffix_cons _ _)) some
    rw [fieldsFrom_other (unbroken _ suffix_rfl (by simp)), ih later, append_assoc]
    rfl

theorem fields_of_mem (member : word ∈ fields separators text) :
    fields separators word = [word] := by
  obtain ⟨nonempty, unbroken⟩ :=
    unbroken_of_mem_fieldsFrom (.inl rfl) (reading_nil text) member
  rw [fields, fieldsFrom_of_unbroken unbroken, nil_append, flush, if_neg nonempty]

theorem fields_intercalate (lone : LoneSeparator separators symbol) {list : List (List α)}
    (single : ∀ word ∈ list, fields separators word = [word]) :
    fields separators ([symbol].intercalate list) = list := by
  induction list with
  | nil => rfl
  | cons word rest ih =>
    have tail := ih fun other member => single other (mem_cons_of_mem _ member)
    have head := single word mem_cons_self
    cases rest with
    | nil => simpa using head
    | cons next later =>
      rw [intercalate_cons_cons]
      simp only [append_assoc, singleton_append]
      rw [fields_append lone, head, tail, singleton_append]

end Litevirt.Lib
