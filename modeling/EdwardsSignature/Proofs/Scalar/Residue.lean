import Mathlib
import EdwardsSignature.Proofs.BranchFree
import EdwardsSignature.Proofs.Scalar.Arithmetic

/-! Scalars are written as their least residues.

Whatever the inputs, reduction and multiplication with addition answer the one number below
the order that is congruent to the exact result, and the limbs answer what natural numbers do. -/

set_option autoImplicit false

namespace EdwardsSignature

namespace Scalar

/-- The block writes the only number below the order that is congruent to the given one. -/
def WritesResidue (block : Block 32) (number : Nat) : Prop :=
  ∃ residue, (∀ other, other < order ∧ other ≡ number [MOD order] ↔ other = residue) ∧
    block = Block.ofNat 32 residue

theorem residue_unique (number other : Nat) :
    other < order ∧ other ≡ number [MOD order] ↔ other = number % order := by
  constructor
  · rintro ⟨below, congruent⟩
    rw [← Nat.mod_eq_of_lt below]
    exact congruent
  · rintro rfl
    exact ⟨Nat.mod_lt _ ScalarArithmetic.order_pos, Nat.mod_modEq number order⟩

theorem writesResidue_of_toNat {block : Block 32} {number : Nat}
    (least : block.toNat = number % order) : WritesResidue block number := by
  refine ⟨number % order, residue_unique number, ?_⟩
  rw [← least, Block.ofNat_toNat]

theorem isCanonical_of_toNat {block : Block 32} {number : Nat}
    (least : block.toNat = number % order) : isCanonical block = true := by
  rw [isCanonical_iff, least]
  exact Nat.mod_lt _ ScalarArithmetic.order_pos

/-- A scalar with zeros above, as wide as what reduction takes. -/
def zeroExtend (scalar : Block 32) : Block 64 := scalar ++ Block.ofNat 32 0

theorem toNat_zeroExtend (scalar : Block 32) : (zeroExtend scalar).toNat = scalar.toNat := by
  have zero : (Block.ofNat 32 0).toNat = 0 := Block.toNat_ofNat_of_lt (by decide)
  rw [Block.toNat] at zero
  rw [zeroExtend, Block.toNat, Vector.toList_append, Bytes.toNat_append, zero, Nat.mul_zero,
    Nat.add_zero, Block.toNat]

end Scalar

namespace ScalarArithmetic

open Scalar (WritesResidue zeroExtend)

section Lawful

variable {scalars other : ScalarArithmetic}

/-- What arithmetic promises leaves it no choice. -/
theorem Lawful.reduce_eq (lawful : scalars.Lawful) (others : other.Lawful) (wide : Block 64) :
    scalars.reduce wide = other.reduce wide := by
  apply Block.toNat_injective
  rw [lawful.toNat_reduce, others.toNat_reduce]

theorem Lawful.multiplyAdd_eq (lawful : scalars.Lawful) (others : other.Lawful)
    (left right addend : Block 32) :
    scalars.multiplyAdd left right addend = other.multiplyAdd left right addend := by
  apply Block.toNat_injective
  rw [lawful.toNat_multiplyAdd, others.toNat_multiplyAdd]

theorem Lawful.reduce_zeroExtend_reduce (lawful : scalars.Lawful) (wide : Block 64) :
    scalars.reduce (zeroExtend (scalars.reduce wide)) = scalars.reduce wide := by
  apply Block.toNat_injective
  rw [lawful.toNat_reduce, Scalar.toNat_zeroExtend, lawful.toNat_reduce, Nat.mod_mod]

end Lawful

/-- Reduction in limbs is exact and canonical for all 64 bytes, and changes nothing when it is
applied again. -/
theorem reduce_exact (wide : Block 64) :
    WritesResidue (limbs.reduce wide) wide.toNat ∧
      limbs.reduce wide = naturals.reduce wide ∧
      Scalar.isCanonical (limbs.reduce wide) = true ∧
      limbs.reduce (zeroExtend (limbs.reduce wide)) = limbs.reduce wide := by
  have least := limbs_lawful.toNat_reduce wide
  exact ⟨Scalar.writesResidue_of_toNat least, limbs_lawful.reduce_eq naturals_lawful wide,
    Scalar.isCanonical_of_toNat least, limbs_lawful.reduce_zeroExtend_reduce wide⟩

/-- Multiplication with addition in limbs is exact and canonical for all 32-byte operands,
reduced or not. -/
theorem multiplyAdd_exact (left right addend : Block 32) :
    WritesResidue (limbs.multiplyAdd left right addend)
        (left.toNat * right.toNat + addend.toNat) ∧
      limbs.multiplyAdd left right addend = naturals.multiplyAdd left right addend ∧
      Scalar.isCanonical (limbs.multiplyAdd left right addend) = true := by
  have least := limbs_lawful.toNat_multiplyAdd left right addend
  exact ⟨Scalar.writesResidue_of_toNat least,
    limbs_lawful.multiplyAdd_eq naturals_lawful left right addend,
    Scalar.isCanonical_of_toNat least⟩

end ScalarArithmetic

end EdwardsSignature
