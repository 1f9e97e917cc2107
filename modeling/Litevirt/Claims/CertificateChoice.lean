import Litevirt.Claims.Certificate
import Litevirt.Lib.Selection

/-!
# Which certificate a proof row keeps

`betterClaimCertificate` chooses between two encoded certificates of one proof.  Among
those that verify here, one replaces another of its key and value at a lower generation,
and all other pairs are settled by their encodings, so the choice can run in a circle.
-/

namespace Litevirt.Claims

open Litevirt.Lib List Option

section Choice

variable (unmarshal : String → Option ClaimCertificate) (verifies : String → Bool)

/-- `DecodeClaimCertificate`; `unmarshal` is `json.Unmarshal`. -/
def decodeClaimCertificate (s : String) : Option ClaimCertificate :=
  if s = "" then none else unmarshal s

def claimCertificateReplaces (current next : String) : Bool :=
  if next = "" ∨ next = current then false
  else
    match decodeClaimCertificate unmarshal next with
    | none => false
    | some n =>
      if current = "" then true
      else
        match decodeClaimCertificate unmarshal current with
        | none => true
        | some c =>
          let sameKey := n.key = c.key ∨ c.key.incarnation = "" ∧ n.key.sameDecision c.key
          if n.valueDigest ≠ c.valueDigest ∨ ¬ sameKey ∨ verifies next = false then false
          else !verifies current || decide (c.configGeneration < n.configGeneration)

def betterClaimCertificate (a b : String) : String :=
  if a = b then a
  else if claimCertificateReplaces unmarshal verifies a b then b
  else if claimCertificateReplaces unmarshal verifies b a then a
  else if a = "" then b
  else if b = "" then a
  else if verifies a ≠ verifies b then if verifies a then a else b
  else if b < a then a
  else b

/-- The certificate a row without one keeps after the given copies arrived in turn. -/
def keptCertificate (copies : List String) : String :=
  copies.foldl (betterClaimCertificate unmarshal verifies) ""

def Certifies (s : String) : Prop :=
  (decodeClaimCertificate unmarshal s).isSome = true ∧ verifies s = true

/-- The decoded `x` certifies the value of `y` at a later generation, under its key or under a
scoped form of its legacy key. -/
def Supersedes (x y : String) : Prop :=
  ∃ n ∈ decodeClaimCertificate unmarshal x, ∃ c ∈ decodeClaimCertificate unmarshal y,
    n.valueDigest = c.valueDigest ∧ c.configGeneration < n.configGeneration ∧
      (n.key = c.key ∨ c.key.incarnation = "" ∧ n.key.sameDecision c.key = true)

/-- Some certifying copy is superseded by none, and supersedes or outranks by its encoding
every other one. -/
def Unrivalled (copies : List String) : Prop :=
  (∃ v ∈ copies, Certifies unmarshal verifies v) →
    ∃ w ∈ copies, Certifies unmarshal verifies w ∧
      ∀ x ∈ copies, Certifies unmarshal verifies x → x ≠ w →
        ¬ Supersedes unmarshal x w ∧ (Supersedes unmarshal w x ∨ x < w)

end Choice

variable {unmarshal : String → Option ClaimCertificate} {verifies : String → Bool} {a b : String}

theorem better_selects : Selects (betterClaimCertificate unmarshal verifies) := by
  intro a b
  unfold betterClaimCertificate
  split_ifs <;> simp

theorem ne_empty_of_decodes (decodes : (decodeClaimCertificate unmarshal a).isSome = true) :
    a ≠ "" := by
  rintro rfl
  cases decodes

theorem replaces_iff : claimCertificateReplaces unmarshal verifies a b = true ↔
    a ≠ b ∧ ∃ n ∈ decodeClaimCertificate unmarshal b, ∀ c ∈ decodeClaimCertificate unmarshal a,
      n.valueDigest = c.valueDigest ∧
        (n.key = c.key ∨ c.key.incarnation = "" ∧ n.key.sameDecision c.key = true) ∧
        verifies b = true ∧ (verifies a = true → c.configGeneration < n.configGeneration) := by
  unfold claimCertificateReplaces
  by_cases same : b = a
  · simp [same]
  by_cases full : b = ""
  · simp [full, decodeClaimCertificate]
  cases decodeClaimCertificate unmarshal b with
  | none => simp [same, full]
  | some n =>
    by_cases empty : a = ""
    · simp [full, empty, decodeClaimCertificate]
    cases decodeClaimCertificate unmarshal a with
    | none => simp [same, full, empty, Ne.symm same]
    | some c =>
      cases verifies a <;> cases verifies b <;>
        simp [same, full, empty, Ne.symm same, and_assoc]

/-- Of two certifying copies one takes the place of the other exactly when it supersedes it. -/
theorem replaces_certifying (certA : Certifies unmarshal verifies a)
    (certB : Certifies unmarshal verifies b) (differ : a ≠ b) :
    claimCertificateReplaces unmarshal verifies a b = true ↔ Supersedes unmarshal b a := by
  obtain ⟨c, isC⟩ := isSome_iff_exists.mp certA.1
  obtain ⟨n, isN⟩ := isSome_iff_exists.mp certB.1
  rw [replaces_iff]
  simp only [Supersedes, isC, isN, certA.2, certB.2, mem_def, Option.some.injEq,
    exists_eq_left', forall_eq', ne_eq, differ, not_false_eq_true, true_and, true_imp_iff]
  exact and_congr_right fun _ => and_comm

theorem Supersedes.asymm {x y : String} (later : Supersedes unmarshal x y) :
    ¬ Supersedes unmarshal y x := by
  obtain ⟨n, isN, c, isC, -, above, -⟩ := later
  rintro ⟨c', isC', n', isN', -, below, -⟩
  cases mem_unique isN isN'
  cases mem_unique isC isC'
  exact absurd above below.not_gt

/-- A copy that does not decode takes no place, and one that does not verify takes only that of a
text that does not decode. -/
theorem not_replaces_of_not_certifies (weak : ¬ Certifies unmarshal verifies b)
    (decodes : (decodeClaimCertificate unmarshal b).isSome = true →
      (decodeClaimCertificate unmarshal a).isSome = true) :
    claimCertificateReplaces unmarshal verifies a b = false := by
  by_contra taken
  obtain ⟨-, n, isN, replaced⟩ := replaces_iff.mp (by simpa using taken)
  have decoded := isSome_of_mem isN
  obtain ⟨c, isC⟩ := isSome_iff_exists.mp (decodes decoded)
  exact weak ⟨decoded, (replaced c isC).2.2.1⟩

/-- What decides between copies of which at most one certifies. -/
def standing (unmarshal : String → Option ClaimCertificate) (verifies : String → Bool)
    (s : String) : Bool ×ₗ Bool ×ₗ String :=
  toLex ((decodeClaimCertificate unmarshal s).isSome, toLex (s ≠ "" && verifies s, s))

theorem standing_injective : Function.Injective (standing unmarshal verifies) :=
  fun _ _ same => (Prod.mk.inj (toLex.injective (Prod.mk.inj (toLex.injective same)).2)).2

theorem replaces_of_decodes (decodes : (decodeClaimCertificate unmarshal b).isSome = true)
    (undecoded : (decodeClaimCertificate unmarshal a).isSome = false) :
    claimCertificateReplaces unmarshal verifies a b = true := by
  obtain ⟨n, isN⟩ := isSome_iff_exists.mp decodes
  have isC := not_isSome_iff_eq_none.mp (by simpa using undecoded)
  refine replaces_iff.mpr ⟨?_, n, isN, by simp [isC]⟩
  rintro rfl
  rw [isC] at isN
  cases isN

/-- Unless both certify, the copy of the higher standing is kept. -/
theorem better_of_standing (weak : ¬ Certifies unmarshal verifies b)
    (above : standing unmarshal verifies b < standing unmarshal verifies a) :
    betterClaimCertificate unmarshal verifies a b = a ∧
      betterClaimCertificate unmarshal verifies b a = a := by
  have differ : a ≠ b := by
    rintro rfl
    exact lt_irrefl _ above
  unfold standing at above
  rw [Prod.Lex.toLex_lt_toLex] at above
  have stays : claimCertificateReplaces unmarshal verifies a b = false := by
    refine not_replaces_of_not_certifies weak fun decodes => ?_
    rcases above with below | ⟨same, -⟩
    · rw [decodes] at below
      exact absurd below (Bool.le_true _).not_gt
    · exact same.symm.trans decodes
  unfold betterClaimCertificate
  simp only [differ, differ.symm, stays, if_false, Bool.false_eq_true]
  by_cases taken : claimCertificateReplaces unmarshal verifies b a = true
  · simp [taken]
  rcases above with below | ⟨-, above⟩
  · obtain ⟨undecoded, decodes⟩ := Bool.lt_iff.mp below
    exact absurd (replaces_of_decodes decodes undecoded) taken
  rw [Prod.Lex.toLex_lt_toLex] at above
  have fullA : a ≠ "" := by
    rintro rfl
    rcases above with below | ⟨-, below⟩
    · exact absurd below (Bool.false_le _).not_gt
    · exact not_lt_nil _ (String.lt_iff_toList_lt.mp below)
  by_cases fullB : b = ""
  · simp [fullA, fullB]
  simp only [taken, fullA, fullB, if_false, ne_eq, not_false_eq_true, decide_true, Bool.true_and]
    at above ⊢
  rcases above with below | ⟨same, below⟩
  · obtain ⟨unverified, verified⟩ := Bool.lt_iff.mp below
    simp [unverified, verified]
  · simp [same, below, below.not_gt]

theorem better_certifying (certA : Certifies unmarshal verifies a)
    (certB : Certifies unmarshal verifies b) (differ : a ≠ b) :
    betterClaimCertificate unmarshal verifies a b = a ↔
      ¬ Supersedes unmarshal b a ∧ (Supersedes unmarshal a b ∨ b < a) := by
  have fullA := ne_empty_of_decodes certA.1
  have fullB := ne_empty_of_decodes certB.1
  rw [← replaces_certifying certA certB differ, ← replaces_certifying certB certA differ.symm]
  unfold betterClaimCertificate
  simp only [differ, fullA, fullB, certA.2, certB.2, if_false, ne_eq, not_true_eq_false]
  split_ifs with later earlier greater
  · simp [later, differ.symm]
  · simp [later, earlier]
  · simp [later, greater]
  · simp [earlier, greater, differ.symm]

theorem replaces_asymm (taken : claimCertificateReplaces unmarshal verifies a b = true) :
    claimCertificateReplaces unmarshal verifies b a = false := by
  obtain ⟨differ, n, isN, -⟩ := replaces_iff.mp taken
  by_cases certA : Certifies unmarshal verifies a
  · by_cases certB : Certifies unmarshal verifies b
    · rw [replaces_certifying certA certB differ] at taken
      rw [← Bool.not_eq_true, replaces_certifying certB certA differ.symm]
      exact taken.asymm
    · rw [not_replaces_of_not_certifies certB fun _ => certA.1] at taken
      cases taken
  · exact not_replaces_of_not_certifies certA fun _ => isSome_of_mem isN

theorem better_comm (a b : String) : betterClaimCertificate unmarshal verifies a b =
    betterClaimCertificate unmarshal verifies b a := by
  by_cases same : a = b
  · rw [same]
  unfold betterClaimCertificate
  simp only [same, Ne.symm same, if_false]
  by_cases taken : claimCertificateReplaces unmarshal verifies a b = true
  · simp [taken, replaces_asymm taken]
  by_cases given : claimCertificateReplaces unmarshal verifies b a = true
  · simp [taken, given]
  simp only [taken, given, if_false, Bool.false_eq_true]
  by_cases emptyA : a = "" <;> by_cases emptyB : b = ""
  · exact absurd (emptyA.trans emptyB.symm) same
  · simp [emptyA, emptyB]
  · simp [emptyA, emptyB]
  · cases verifiedA : verifies a <;> cases verifiedB : verifies b <;>
      rcases lt_or_gt_of_ne same with below | below <;>
      simp [emptyA, emptyB, below, below.not_gt]

theorem better_empty (s : String) : betterClaimCertificate unmarshal verifies "" s = s := by
  by_cases same : "" = s
  · rw [← same, betterClaimCertificate, if_pos rfl]
  · have given : claimCertificateReplaces unmarshal verifies s "" = false := by
      simp [claimCertificateReplaces]
    simp [betterClaimCertificate, same, given]

/-- The copy kept depends neither on order nor on repetition exactly when some certifying one
is without rival. -/
theorem kept_certificate_order_free_iff (unmarshal : String → Option ClaimCertificate)
    (verifies : String → Bool) (copies : List String) :
    (∀ one other : List String, (∀ c, c ∈ one ↔ c ∈ copies) → (∀ c, c ∈ other ↔ c ∈ copies) →
      keptCertificate unmarshal verifies one = keptCertificate unmarshal verifies other) ↔
    Unrivalled unmarshal verifies copies := by
  change OrderFree (betterClaimCertificate unmarshal verifies) "" copies ↔ _
  by_cases none : copies = []
  · subst none
    refine ⟨fun _ ⟨v, member, _⟩ => absurd member not_mem_nil, fun _ l₁ l₂ same₁ same₂ => ?_⟩
    rw [eq_nil_iff_forall_not_mem.mpr fun x => (same₁ x).not.mpr not_mem_nil,
      eq_nil_iff_forall_not_mem.mpr fun x => (same₂ x).not.mpr not_mem_nil]
  rw [orderFree_iff better_selects better_comm better_empty none]
  -- a certifying copy has a higher standing than one that does not certify
  have lower : ∀ {w x : String}, Certifies unmarshal verifies w →
      ¬ Certifies unmarshal verifies x →
      standing unmarshal verifies x < standing unmarshal verifies w := by
    intro w x ⟨decodes, verified⟩ weak
    have full := ne_empty_of_decodes decodes
    unfold standing
    rw [Prod.Lex.toLex_lt_toLex, Prod.Lex.toLex_lt_toLex]
    cases other : (decodeClaimCertificate unmarshal x).isSome with
    | false => exact .inl (by simp [decodes])
    | true =>
      have unverified : verifies x = false := by
        by_contra verifiedX
        exact weak ⟨other, by simpa using verifiedX⟩
      exact .inr ⟨by simp [decodes], .inl (by simp [full, verified, unverified])⟩
  constructor
  · rintro ⟨w, member, keeps⟩ ⟨v, isCopy, strong⟩
    have certifies : Certifies unmarshal verifies w := by
      by_contra weak
      have given := (better_of_standing weak (lower strong weak)).2
      rw [keeps v isCopy] at given
      exact weak (given ▸ strong)
    exact ⟨w, member, certifies, fun x isCopy strong differ =>
      (better_certifying certifies strong differ.symm).mp (keeps x isCopy)⟩
  intro unrivalled
  by_cases some : ∃ v ∈ copies, Certifies unmarshal verifies v
  · obtain ⟨w, member, certifies, wins⟩ := unrivalled some
    refine ⟨w, member, fun x isCopy => ?_⟩
    by_cases same : x = w
    · rw [same, betterClaimCertificate, if_pos rfl]
    by_cases strong : Certifies unmarshal verifies x
    · exact (better_certifying certifies strong (Ne.symm same)).mpr (wins x isCopy strong same)
    · exact (better_of_standing strong (lower certifies strong)).1
  · obtain ⟨w, member, highest⟩ := Finset.exists_max_image copies.toFinset
      (standing unmarshal verifies) (toFinset_nonempty_iff copies |>.mpr none)
    refine ⟨w, mem_toFinset.mp member, fun x isCopy => ?_⟩
    by_cases same : x = w
    · rw [same, betterClaimCertificate, if_pos rfl]
    have below := (highest x (mem_toFinset.mpr isCopy)).lt_of_ne
      (standing_injective.ne same)
    exact (better_of_standing (fun strong => some ⟨x, isCopy, strong⟩) below).1

def webCertificate (copy : String × Nat) : ClaimCertificate :=
  ⟨⟨.vm, "w", 3, 0, copy.1⟩, copy.2, ⟨1, "n", []⟩, "d", "", []⟩

def webText (copy : String × Nat) : String :=
  "\x7b\"key\":\x7b\"target_kind\":\"vm\",\"target_name\":\"w\",\"owner_epoch\":3,\"attempt\":0" ++
    (if copy.1 = "" then "" else ",\"incarnation\":\"" ++ copy.1 ++ "\"") ++
    "\x7d,\"config_generation\":" ++ toString copy.2 ++
    ",\"ballot\":\x7b\"round\":1,\"coordinator\":\"n\",\"nonce\":null\x7d," ++
    "\"value_digest\":\"d\",\"accepts\":null\x7d"

/-- A legacy copy, the copy of one incarnation at the next generation and that of a later
incarnation. -/
def webCopies : List (String × Nat) := [("", 5), ("t1", 6), ("t2", 5)]

def webUnmarshal (s : String) : Option ClaimCertificate :=
  (webCopies.find? fun copy => webText copy = s).map webCertificate

/-- Three copies that all verify, in two orders. -/
theorem web_certificate_depends_on_order :
    keptCertificate webUnmarshal (fun _ => true)
        [webText ("", 5), webText ("t1", 6), webText ("t2", 5)] = webText ("t2", 5) ∧
      keptCertificate webUnmarshal (fun _ => true)
        [webText ("t1", 6), webText ("t2", 5), webText ("", 5)] = webText ("", 5) ∧
      webText ("t2", 5) ≠ webText ("", 5) := by
  decide +kernel

end Litevirt.Claims
