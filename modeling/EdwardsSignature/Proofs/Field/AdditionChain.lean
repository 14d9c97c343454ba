import Mathlib
import EdwardsSignature.Field.AdditionChain
import EdwardsSignature.Proofs.Primality

/-! The exponents of the addition chains, and what they make of residues. -/

set_option autoImplicit false

namespace EdwardsSignature

namespace AdditionChain

section Map

variable {α β : Type} [Mul α] [Mul β] {change : α → β}

theorem map_squareTimes (keeps : ∀ left right, change (left * right) = change left * change right)
    (count : Nat) (base : α) :
    change (squareTimes count base) = squareTimes count (change base) := by
  induction count generalizing base with
  | zero => rfl
  | succ count ih => rw [squareTimes, ih, keeps, squareTimes]

theorem map_inverse (keeps : ∀ left right, change (left * right) = change left * change right)
    (base : α) : change (inverse base) = inverse (change base) := by
  simp only [inverse, common, doubleOnes, keeps, map_squareTimes keeps]

theorem map_root (keeps : ∀ left right, change (left * right) = change left * change right)
    (base : α) : change (root base) = root (change base) := by
  simp only [root, common, doubleOnes, keeps, map_squareTimes keeps]

end Map

section Power

variable {M : Type} [CommMonoid M]

theorem squareTimes_eq_pow (count : Nat) (base : M) : squareTimes count base = base ^ 2 ^ count := by
  induction count generalizing base with
  | zero => simp [squareTimes]
  | succ count ih => rw [squareTimes, ih, ← pow_two, ← pow_mul, pow_succ']

theorem common_eq_pow (base : M) :
    common base = ⟨base ^ 11, base ^ (2 ^ 250 - 1)⟩ := by
  simp only [common, doubleOnes, squareTimes_eq_pow, ← pow_succ', ← pow_two, ← pow_mul, ← pow_add]
  norm_num

theorem inverse_eq_pow (base : M) : inverse base = base ^ (2 ^ 255 - 21) := by
  simp only [inverse, common_eq_pow, squareTimes_eq_pow, ← pow_mul, ← pow_add]
  norm_num

theorem root_eq_pow (base : M) : root base = base ^ (2 ^ 252 - 3) := by
  simp only [root, common_eq_pow, squareTimes_eq_pow, ← pow_mul, ← pow_succ]
  norm_num

end Power

end AdditionChain

/-- The power that inverts every residue but zero, which it keeps. -/
theorem pow_fieldPrime_sub_two (x : ZMod fieldPrime) : x ^ (fieldPrime - 2) = x⁻¹ := by
  by_cases zero : x = 0
  · rw [zero, inv_zero, zero_pow (by decide)]
  · apply eq_inv_of_mul_eq_one_left
    rw [← pow_succ]
    exact ZMod.pow_card_sub_one_eq_one zero

theorem inverse_eq_inv (x : ZMod fieldPrime) : AdditionChain.inverse x = x⁻¹ := by
  rw [AdditionChain.inverse_eq_pow, ← pow_fieldPrime_sub_two]
  rfl

theorem root_eq_rootPower (x : ZMod fieldPrime) :
    AdditionChain.root x = x ^ ((fieldPrime - 5) / 8) := by
  rw [AdditionChain.root_eq_pow]
  rfl

end EdwardsSignature
