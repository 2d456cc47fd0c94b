import Mathlib.Order.Defs.LinearOrder
import RenewalDrive.Time.Instant

/-!
# The order of instants

Instants are ordered by their seconds and then by their fractions, and that is a linear
order, leap seconds included.
-/

namespace RenewalDrive

namespace Instant

theorem le_iff {a b : Instant} :
    a ≤ b ↔ a.second < b.second ∨ a.second = b.second ∧ a.fraction ≤ b.fraction :=
  Iff.rfl

theorem lt_iff {a b : Instant} :
    a < b ↔ a.second < b.second ∨ a.second = b.second ∧ a.fraction < b.fraction :=
  Iff.rfl

instance : LinearOrder Instant where
  le_refl t := le_iff.mpr (Or.inr ⟨rfl, Nat.le_refl t.fraction⟩)
  le_trans a b c hab hbc := by
    rw [le_iff] at hab hbc ⊢
    omega
  lt_iff_le_not_ge a b := by
    rw [le_iff, le_iff, lt_iff]
    omega
  le_antisymm a b hab hba := by
    rw [le_iff] at hab hba
    rcases a with ⟨second, fraction, _⟩
    rcases b with ⟨second', fraction', _⟩
    have hsecond : second = second' := by
      dsimp only at hab hba
      omega
    have hfraction : fraction = fraction' := by
      dsimp only at hab hba
      omega
    subst hsecond
    subst hfraction
    rfl
  le_total a b := by
    rw [le_iff, le_iff]
    omega
  toDecidableLE := inferInstance
  toDecidableEq := inferInstance
  toDecidableLT := inferInstance

end Instant
end RenewalDrive
