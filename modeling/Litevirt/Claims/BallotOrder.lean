import Litevirt.Claims.Types

/-!
# The ballot order is linear

`compareBallots` compares rounds upwards, coordinators downwards and nonces
upwards.  Ranks that put these three into one lexicographic order make the
ballots a linear order, and `compareBallots` its comparison.
-/

namespace Litevirt.Claims.Ballot

def rank (b : Ballot) : ℕ ×ₗ (Stringᵒᵈ ×ₗ List ℕ) :=
  toLex (b.round.toNat, toLex (OrderDual.toDual b.coordinator, b.nonce.map UInt8.toNat))

theorem rank_injective : Function.Injective rank := by
  intro a b same
  obtain ⟨roundA, coordinatorA, nonceA⟩ := a
  obtain ⟨roundB, coordinatorB, nonceB⟩ := b
  simp only [rank, EmbeddingLike.apply_eq_iff_eq, Prod.mk.injEq] at same
  obtain ⟨rounds, coordinators, nonces⟩ := same
  have nonceEq : nonceA = nonceB :=
    List.map_injective_iff.mpr (fun _ _ equal => UInt8.toNat_inj.mp equal) nonces
  rw [UInt64.toNat_inj.mp rounds, coordinators, nonceEq]

noncomputable instance : LinearOrder Ballot := LinearOrder.lift' rank rank_injective

variable {a b : Ballot}

theorem compareBytes_eq_cmp (xs ys : List UInt8) :
    compareBytes xs ys = cmp (xs.map UInt8.toNat) (ys.map UInt8.toNat) := by
  induction xs generalizing ys with
  | nil => cases ys <;> simp [compareBytes, cmp, cmpUsing]
  | cons x xs ih =>
    cases ys with
    | nil => simp [compareBytes, cmp, cmpUsing]
    | cons y ys =>
      simp only [compareBytes, ih, cmp, cmpUsing, List.map_cons, List.cons_lt_cons_iff,
        UInt8.lt_iff_toNat_lt]
      rcases Nat.lt_trichotomy x.toNat y.toNat with below | same | above
      · simp [below]
      · simp [same]
      · simp [above, above.not_gt, above.ne']

theorem compareBallots_eq_cmp (a b : Ballot) : compareBallots a b = cmp a b := by
  change _ = cmp (rank a) (rank b)
  simp only [compareBallots, compareBytes_eq_cmp, cmp, cmpUsing, rank, Prod.Lex.toLex_lt_toLex,
    OrderDual.toDual_lt_toDual, UInt64.lt_iff_toNat_lt, EmbeddingLike.apply_eq_iff_eq]
  rcases Nat.lt_trichotomy a.round.toNat b.round.toNat with below | same | above
  · simp [below, below.not_gt]
  · rcases lt_trichotomy a.coordinator b.coordinator with lower | equal | higher
    · simp [same, lower, lower.not_gt, lower.ne]
    · simp [same, equal]
    · simp [same, higher, higher.not_gt]
  · simp [above, above.not_gt, above.ne']

theorem compareBallots_eq_gt : compareBallots a b = .gt ↔ b < a := by
  rw [compareBallots_eq_cmp, cmp_eq_gt_iff]

theorem compareBallots_eq_lt : compareBallots a b = .lt ↔ a < b := by
  rw [compareBallots_eq_cmp, cmp_eq_lt_iff]

theorem compareBallots_eq_eq : compareBallots a b = .eq ↔ a = b := by
  rw [compareBallots_eq_cmp, cmp_eq_eq_iff]

@[simp] theorem equal_iff : equal a b = true ↔ a = b := by
  rw [equal, beq_iff_eq, compareBallots_eq_eq]

@[simp] theorem isZero_iff : b.isZero = true ↔ b = zero := by
  obtain ⟨round, coordinator, nonce⟩ := b
  simp [isZero, zero, and_assoc]

theorem zero_lt_of_round (positive : b.round ≠ 0) : zero < b := by
  have : 0 < b.round.toNat := Nat.pos_of_ne_zero fun none => positive (UInt64.toNat_inj.mp none)
  exact Prod.Lex.toLex_lt_toLex.mpr (.inl this)

end Litevirt.Claims.Ballot
