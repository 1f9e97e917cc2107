import Litevirt.Lib.Fields
import Litevirt.Firewall.Ruleset

/-!
# Collapsed sets

Two prefixes nest or are apart.  Among the elements that hold an address the widest, and of
several spellings of it the first, is covered by no other, so no address is lost.
-/

namespace Litevirt.Firewall

open Litevirt.Lib List

/-- The addresses an element stands for; a text that does not parse stands for none. -/
def addresses (element : Text) : Set Nat :=
  {addr | ∃ range, parseElement element = some range ∧ range.contains addr = true}

variable {wide narrow : Prefix} {addr : Nat} {element other : Text}

theorem Prefix.block_eq_of_le (wider : wide.bits ≤ narrow.bits) {a b : Nat}
    (same : narrow.block a = narrow.block b) : wide.block a = wide.block b := by
  have coarser (x : Nat) :
      wide.block x = narrow.block x / 2 ^ (32 - wide.bits - (32 - narrow.bits)) := by
    rw [block, block, Nat.div_div_eq_div_mul, ← Nat.pow_add]
    congr 2
    omega
  rw [coarser, coarser, same]

theorem parseElement_masked {range : Prefix} (parsed : parseElement element = some range) :
    range.addr = range.block range.addr * 2 ^ (32 - range.bits) := by
  unfold parseElement at parsed
  split at parsed
  · rename_i given _
    obtain rfl := Option.some.inj parsed
    simp [Prefix.masked, Prefix.block, Nat.mul_div_cancel _ (Nat.two_pow_pos _)]
  · obtain ⟨value, -, rfl⟩ := Option.map_eq_some_iff.mp parsed
    simp [Prefix.block]

/-- Wider elements come first, and then the texts in their order. -/
def elementRank (element : Text) : ℕ ×ₗ Text :=
  toLex ((parseElement element).elim 0 Prefix.bits, element)

theorem covers_spec (covered : covers other element = true) (held : addr ∈ addresses element) :
    addr ∈ addresses other ∧ elementRank other < elementRank element := by
  obtain ⟨narrow, parsed, within⟩ := held
  unfold covers at covered
  split at covered
  · rename_i wide range isWide isRange
    obtain rfl := Option.some.inj (parsed.symm.trans isRange)
    simp only [Bool.and_eq_true, Bool.or_eq_true, decide_eq_true_eq] at covered
    simp only [elementRank, isWide, parsed, Prod.Lex.toLex_lt_toLex]
    rcases covered.2 with ⟨wider, holds⟩ | ⟨rfl, before⟩
    · refine ⟨⟨wide, isWide, ?_⟩, .inl wider⟩
      simp only [Prefix.contains, decide_eq_true_eq] at within holds ⊢
      exact (Prefix.block_eq_of_le wider.le within).trans holds
    · exact ⟨⟨wide, isWide, within⟩, .inr ⟨rfl, before⟩⟩
  · cases covered

theorem covers_of_shared (differ : other ≠ element) (held : addr ∈ addresses element)
    (shared : addr ∈ addresses other) :
    covers other element = true ∨ covers element other = true := by
  obtain ⟨a, parsedA, inA⟩ := held
  obtain ⟨b, parsedB, inB⟩ := shared
  simp only [Prefix.contains, decide_eq_true_eq] at inA inB
  simp only [covers, parsedA, parsedB, Prefix.contains, Bool.and_eq_true, Bool.or_eq_true,
    decide_eq_true_eq]
  rcases lt_trichotomy a.bits b.bits with less | same | more
  · exact .inr ⟨differ.symm, .inl ⟨less, (Prefix.block_eq_of_le less.le inB).symm.trans inA⟩⟩
  · have blocks : a.block a.addr = b.block b.addr := by
      rw [← inA, ← inB, Prefix.block, Prefix.block, same]
    have equal : a = b := by
      have addrA := parseElement_masked parsedA
      rw [blocks, same, ← parseElement_masked parsedB] at addrA
      cases a
      cases b
      simp_all
    rcases lt_or_gt_of_ne differ with before | after
    · exact .inl ⟨differ, .inr ⟨equal.symm, before⟩⟩
    · exact .inr ⟨differ.symm, .inr ⟨equal, after⟩⟩
  · exact .inl ⟨differ, .inl ⟨more, (Prefix.block_eq_of_le more.le inA).symm.trans inB⟩⟩

variable {elements : List Text}

theorem uncovered_eq_collect (elements : List Text) :
    uncovered elements = collect [] (elements.filter fun e => !elements.any (covers · e)) := by
  rw [uncovered, collect, foldl_filter]
  refine congrArg (foldl · [] elements) (funext₂ fun out element => ?_)
  cases elements.any (covers · element) <;> simp

theorem mem_collapseSetElements :
    element ∈ collapseSetElements elements ↔
      element ∈ elements ∧ ∀ other ∈ elements, covers other element = false := by
  rw [collapseSetElements, sortStrings, mem_insertionSort, uncovered_eq_collect, mem_collect]
  simp

theorem disjoint_collapsed (elements : List Text) :
    (collapseSetElements elements).Pairwise fun a b => Disjoint (addresses a) (addresses b) := by
  have nodup : (collapseSetElements elements).Nodup := by
    rw [collapseSetElements, sortStrings, (perm_insertionSort _ _).nodup_iff, uncovered_eq_collect]
    exact nodup_collect nodup_nil _
  refine nodup.imp_of_mem fun memberA memberB differ => Set.disjoint_left.mpr fun addr inA inB => ?_
  obtain ⟨isA, freeA⟩ := mem_collapseSetElements.mp memberA
  obtain ⟨isB, freeB⟩ := mem_collapseSetElements.mp memberB
  rcases covers_of_shared differ inB inA with coversB | coversA
  · rw [freeB _ isA] at coversB
    cases coversB
  · rw [freeA _ isB] at coversA
    cases coversA

theorem exists_collapsed (member : element ∈ elements) (held : addr ∈ addresses element) :
    ∃ kept ∈ collapseSetElements elements, addr ∈ addresses kept := by
  classical
  have some : argmin elementRank (elements.filter fun e => decide (addr ∈ addresses e)) ≠ none :=
    mt argmin_eq_none.mp (ne_nil_of_mem (mem_filter.mpr ⟨member, decide_eq_true held⟩))
  obtain ⟨first, isFirst⟩ := Option.ne_none_iff_exists'.mp some
  obtain ⟨isElement, holds⟩ := mem_filter.mp (argmin_mem isFirst)
  refine ⟨first, mem_collapseSetElements.mpr ⟨isElement, fun other isOther => ?_⟩,
    of_decide_eq_true holds⟩
  refine Bool.eq_false_iff.mpr fun covered => ?_
  obtain ⟨shared, smaller⟩ := covers_spec covered (of_decide_eq_true holds)
  exact not_lt_of_mem_argmin (mem_filter.mpr ⟨isOther, decide_eq_true shared⟩) isFirst smaller

/-- Collapsed elements are apart and hold the addresses of all of them, and the block of a name
holds the addresses of all sets of that name. -/
theorem collapsed_sets_exact [GoRunes] (elements : List Text) (sets : List IPSet) :
    (collapseSetElements elements).Pairwise (fun a b => Disjoint (addresses a) (addresses b)) ∧
    ⋃ e ∈ collapseSetElements elements, addresses e = ⋃ e ∈ elements, addresses e ∧
    renderIPSets sets = blocksText (setBlocks sets) ∧
    (sortStrings (setNames sets)).Nodup ∧
    (∀ name, name ∈ sortStrings (setNames sets) ↔ ∃ set ∈ sets, set.name = name) ∧
    ∀ name members, .set name members ∈ setBlocks sets →
      ⋃ e ∈ members, addresses e = ⋃ set ∈ {set ∈ sets | set.name = name},
        ⋃ e ∈ set.cidrs, addresses e := by
  have union (elements : List Text) :
      ⋃ e ∈ collapseSetElements elements, addresses e = ⋃ e ∈ elements, addresses e := by
    ext addr
    simp only [Set.mem_iUnion, exists_prop]
    constructor
    · rintro ⟨e, member, held⟩
      exact ⟨e, (mem_collapseSetElements.mp member).1, held⟩
    · rintro ⟨e, member, held⟩
      exact exists_collapsed member held
  have names : setNames sets = collect [] (sets.map (·.name)) := by
    rw [setNames, collect, foldl_map]
    congr!
  refine ⟨disjoint_collapsed elements, union elements, (setBlocks_text sets).symm, ?_, ?_, ?_⟩
  · rw [sortStrings, (perm_insertionSort _ _).nodup_iff, names]
    exact nodup_collect nodup_nil _
  · intro name
    rw [sortStrings, mem_insertionSort, names, mem_collect]
    simp
  · intro name members listed
    obtain ⟨_, -, same⟩ := mem_map.mp listed
    obtain ⟨rfl, rfl⟩ := Block.set.inj same
    rw [union]
    ext addr
    simp [setElements, and_assoc, and_left_comm]

end Litevirt.Firewall
