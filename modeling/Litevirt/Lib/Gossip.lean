import Mathlib

/-!
# Gossip by replacement

Places hold at most one value each.  Values that some place held at first reach places
in any order, late or repeatedly, and a value replaces one that it beats.  When no place
would take the value of another, what is held is unbeaten among all first values.
-/

namespace Litevirt.Lib.Gossip

open Function

variable {ι α : Type*}

/-- Every held value is a first value, and every place holds its first value or one that
beats it. -/
structure Grown (beats : α → α → Prop) (first last : ι → Option α) : Prop where
  among : ∀ place value, last place = some value → ∃ origin, first origin = some value
  kept : ∀ place old, first place = some old →
    ∃ new, last place = some new ∧ (new = old ∨ beats new old)

/-- No place would take the value that another one holds. -/
def Quiet (beats : α → α → Prop) (held : ι → Option α) : Prop :=
  ∀ sender receiver value, held sender = some value →
    ∃ old, held receiver = some old ∧ ¬ beats value old

variable {beats : α → α → Prop} {first last : ι → Option α}

theorem Grown.refl (beats : α → α → Prop) (first : ι → Option α) : Grown beats first first :=
  ⟨fun place _ held => ⟨place, held⟩, fun _ old held => ⟨old, held, .inl rfl⟩⟩

variable {value : α}

theorem Grown.adopt [DecidableEq ι] (trans : ∀ a b c, beats a b → beats b c → beats a c)
    (grown : Grown beats first last) {place : ι} (origin : ∃ source, first source = some value)
    (wins : ∀ old, last place = some old → beats value old) :
    Grown beats first (Function.update last place (some value)) := by
  refine ⟨fun other held isHeld => ?_, fun other old isFirst => ?_⟩
  · by_cases same : other = place
    · subst same
      rw [update_self] at isHeld
      exact Option.some.inj isHeld ▸ origin
    · rw [update_of_ne same] at isHeld
      exact grown.among other held isHeld
  · obtain ⟨new, holds, better⟩ := grown.kept other old isFirst
    by_cases same : other = place
    · subst same
      refine ⟨value, update_self .., .inr ?_⟩
      have above := wins new holds
      rcases better with rfl | better
      · exact above
      · exact trans _ _ _ above better
    · exact ⟨new, by rw [update_of_ne same, holds], better⟩

variable {origin : ι}

theorem Grown.unbeaten (trans : ∀ a b c, beats a b → beats b c → beats a c)
    (grown : Grown beats first last) (quiet : Quiet beats last) {place : ι}
    (held : last place = some value) {other : α} (isFirst : first origin = some other) :
    ¬ beats other value := by
  intro wins
  obtain ⟨new, holds, better⟩ := grown.kept origin other isFirst
  obtain ⟨old, isOld, loses⟩ := quiet origin place new holds
  obtain rfl : value = old := Option.some.inj (held.symm.trans isOld)
  rcases better with rfl | better
  · exact loses wins
  · exact loses (trans _ _ _ better wins)

theorem Grown.held (grown : Grown beats first last) (quiet : Quiet beats last)
    (isFirst : first origin = some value) (place : ι) :
    ∃ held, last place = some held := by
  obtain ⟨new, holds, -⟩ := grown.kept origin value isFirst
  obtain ⟨old, isOld, -⟩ := quiet origin place new holds
  exact ⟨old, isOld⟩

theorem Grown.settles (trans : ∀ a b c, beats a b → beats b c → beats a c)
    (grown : Grown beats first last) (quiet : Quiet beats last) {best : α}
    (isFirst : first origin = some best)
    (wins : ∀ place value, first place = some value → value = best ∨ beats best value) (place : ι) :
    last place = some best := by
  obtain ⟨value, holds⟩ := grown.held quiet isFirst place
  obtain ⟨source, fromSource⟩ := grown.among place value holds
  rcases wins source value fromSource with rfl | better
  · exact holds
  · exact absurd better (grown.unbeaten trans quiet holds isFirst)

end Litevirt.Lib.Gossip
