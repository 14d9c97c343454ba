import Mathlib
import EdwardsSignature.Curve.Basic
import EdwardsSignature.Proofs.Field.Exponents
import EdwardsSignature.Proofs.Field.LimbElement
import EdwardsSignature.Proofs.Field.Residue

/-! Powers, inverses and roots of field elements.

The generic power walks over the bits of an exponent. The two fixed powers, by an addition chain
or bit by bit, are those with the exponents that a field's description derives from the prime. -/

set_option autoImplicit false

namespace EdwardsSignature

namespace BaseField

section Power

variable {F : Type} [BaseField F] [LawfulBaseField F]

theorem value_powerStep (base current : F) (bit : Bool) :
    value (powerStep base current bit) = value current ^ 2 * value base ^ bit.toNat := by
  cases bit <;> simp [powerStep]

/-- The bits that have been walked over are the exponent so far. -/
theorem value_power (base : F) (exponent : Bytes) :
    value (power base exponent) = value base ^ Bytes.toNat exponent := by
  rw [power, List.foldl_reverse, ← Bytes.bitsValue_bits]
  induction exponent.bits with
  | nil => exact LawfulBaseField.value_one
  | cons bit rest ih =>
      rw [List.foldr_cons, value_powerStep, ih, bitsValue, pow_add, pow_mul', mul_comm]

theorem toNat_toBlock_power (base : F) (exponent : Bytes) :
    (toBlock (power base exponent)).toNat =
      (toBlock base).toNat ^ Bytes.toNat exponent % fieldPrime := by
  rw [LawfulBaseField.toNat_toBlock, LawfulBaseField.toNat_toBlock, value_power,
    ← ZMod.val_natCast, Nat.cast_pow, ZMod.natCast_zmod_val]

/-- What powers, inverses and quotients come to, with the exponents of a field's description. -/
structure PowersExact (F : Type) [BaseField F] (parameters : FieldParameters) : Prop where
  power_eq : ∀ (base : F) (exponent : Bytes), (toBlock (power base exponent)).toNat =
    (toBlock base).toNat ^ Bytes.toNat exponent % fieldPrime
  invert_eq : ∀ base : F,
    same (invert base) (power base parameters.inversionExponent.toList) = true
  rootPower_eq : ∀ base : F,
    same (rootPower base) (power base parameters.rootExponent.toList) = true
  mul_invert : ∀ base : F, isNonZero base = true → same (base * invert base) 1 = true
  invert_zero : ∀ base : F, isNonZero base = false → same (invert base) 0 = true
  divide_mul : ∀ numerator denominator : F, isNonZero denominator = true →
    same (divide numerator denominator * denominator) numerator = true

variable {parameters : FieldParameters}

theorem isNonZero_eq_false_iff (element : F) : isNonZero element = false ↔ value element = 0 := by
  rw [← Bool.not_eq_true, LawfulBaseField.isNonZero_iff, not_not]

theorem powersExact_of_exponents
    (inversion : parameters.inversionExponent.toNat = fieldPrime - 2)
    (root : parameters.rootExponent.toNat = (fieldPrime - 5) / 8) : PowersExact F parameters where
  power_eq := toNat_toBlock_power
  invert_eq base := by
    rw [Block.toNat] at inversion
    rw [LawfulBaseField.same_iff, LawfulBaseField.value_invert, value_power, inversion,
      pow_fieldPrime_sub_two]
  rootPower_eq base := by
    rw [Block.toNat] at root
    rw [LawfulBaseField.same_iff, LawfulBaseField.value_rootPower, value_power, root]
  mul_invert base nonzero := by
    rw [LawfulBaseField.isNonZero_iff] at nonzero
    rw [LawfulBaseField.same_iff, LawfulBaseField.value_mul, LawfulBaseField.value_invert,
      mul_inv_cancel₀ nonzero, LawfulBaseField.value_one]
  invert_zero base zero := by
    rw [isNonZero_eq_false_iff] at zero
    rw [LawfulBaseField.same_iff, LawfulBaseField.value_invert, zero, inv_zero,
      LawfulBaseField.value_zero]
  divide_mul numerator denominator nonzero := by
    rw [LawfulBaseField.isNonZero_iff] at nonzero
    rw [LawfulBaseField.same_iff, divide, LawfulBaseField.value_mul, LawfulBaseField.value_mul,
      LawfulBaseField.value_invert, inv_mul_cancel_right₀ nonzero]

end Power

/-- The description of the standard field is accepted, its exponents are those of inversion and of
the root, and in both representations the fixed powers are the generic ones with them. -/
theorem powers_exact :
    ∃ parameters,
      FieldParameters.ofBytes Curve.standardWidth Curve.standardModulus.toList = .ok parameters ∧
      parameters.inversionExponent.toNat = fieldPrime - 2 ∧
      parameters.rootExponent.toNat = (fieldPrime - 5) / 8 ∧
      PowersExact LimbElement parameters ∧ PowersExact Residue parameters := by
  let parameters : FieldParameters := ⟨Curve.standardWidth, Curve.standardModulus⟩
  have accepted : FieldParameters.ofBytes Curve.standardWidth Curve.standardModulus.toList =
      .ok parameters := by
    rw [FieldParameters.ofBytes, Block.ofBytes?_toList]
  have modulus : parameters.modulus.toNat = fieldPrime :=
    Block.toNat_ofNat_of_lt (by decide)
  have inversion := parameters.toNat_inversionExponent (by rw [modulus]; decide)
  have root := parameters.toNat_rootExponent (by rw [modulus]; decide)
  rw [modulus] at inversion root
  exact ⟨parameters, accepted, inversion, root, powersExact_of_exponents inversion root,
    powersExact_of_exponents inversion root⟩

end BaseField

end EdwardsSignature
