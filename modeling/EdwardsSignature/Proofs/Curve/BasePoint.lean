import Mathlib
import EdwardsSignature.Curve.Naive
import EdwardsSignature.Scalar.Order
import EdwardsSignature.Proofs.Curve.Encoding
import EdwardsSignature.Proofs.Curve.Table
import EdwardsSignature.Proofs.Field.Residue

/-! The standard base point and its order. -/

set_option autoImplicit false

namespace EdwardsSignature

def basePointX : Nat :=
  15112221349535400772501151409588531511454012693041857206046113283949847762202

def basePointY : Nat :=
  46316835694926478169428394003475163141307993866256225615783033603165251855960

theorem basePoint_equation :
    -(basePointX : ZMod fieldPrime) ^ 2 + (basePointY : ZMod fieldPrime) ^ 2 =
      1 + standardCurve.d * (basePointX : ZMod fieldPrime) ^ 2 *
        (basePointY : ZMod fieldPrime) ^ 2 := by
  have exact : basePointY ^ 2 ≡
      1 + Curve.standardD.toNat * basePointX ^ 2 * basePointY ^ 2 + basePointX ^ 2
        [MOD fieldPrime] := by
    decide
  have equation := (ZMod.natCast_eq_natCast_iff _ _ _).mpr exact
  push_cast at equation
  have d_eq : standardCurve.d = (Curve.standardD.toNat : ZMod fieldPrime) := rfl
  rw [d_eq]
  linear_combination equation

def basePoint : CurvePoint := ⟨basePointX, basePointY, basePoint_equation⟩

theorem val_basePointX : (basePointX : ZMod fieldPrime).val = basePointX :=
  val_natCast_of_lt (by decide)

theorem val_basePointY : (basePointY : ZMod fieldPrime).val = basePointY :=
  val_natCast_of_lt (by decide)

theorem encode_basePoint : basePoint.encode = Curve.standardBase := by
  rw [EdwardsPoint.encode, basePoint, val_basePointX, val_basePointY]
  decide

theorem decodePoint_standardBase (F : Type) [BaseField F] [LawfulBaseField F] :
    ∃ point, (Curve.standard : Curve F).decodePoint Curve.standardBase.toList = .ok point ∧
      point.Names basePoint := by
  rw [← encode_basePoint]
  exact Curve.decodePoint_encode Curve.standard_hasStandardConstants basePoint

def residueBase : Extended Residue :=
  ⟨.ofNat basePointX, .ofNat basePointY, 1, .ofNat (basePointX * basePointY)⟩

theorem residueBase_names : residueBase.Names basePoint := by
  constructor <;>
    simp only [residueBase, basePoint, LawfulBaseField.value_one, mul_one]
  · exact one_ne_zero
  · exact Residue.residue_ofNat basePointX
  · exact Residue.residue_ofNat basePointY
  · rw [← Nat.cast_mul]
    exact Residue.residue_ofNat (basePointX * basePointY)

theorem order_nsmul_basePoint : Scalar.order • basePoint = 0 := by
  have multiple := (residueBase_names.toProjectiveNiels Curve.standard_hasStandardConstants)
    |>.multiplyNaive (Bytes.ofNat 32 Scalar.order)
  have order_bytes : Bytes.toNat (Bytes.ofNat 32 Scalar.order) = Scalar.order := by
    rw [Bytes.toNat_ofNat]
    decide
  -- On least residues the multiple is small enough to evaluate.
  have evaluated :
      let product := (residueBase.toProjectiveNiels Curve.standard).multiplyNaive
        (Bytes.ofNat 32 Scalar.order)
      product.x = 0 ∧ product.y = product.z := by
    decide +kernel
  rw [order_bytes] at multiple
  have x_zero := multiple.x_eq
  have y_one := multiple.y_eq
  rw [evaluated.1, LawfulBaseField.value_zero] at x_zero
  rw [evaluated.2] at y_one
  ext
  · exact (mul_eq_zero.mp x_zero.symm).resolve_right multiple.z_ne_zero
  · exact (mul_eq_right₀ multiple.z_ne_zero).mp y_one.symm

theorem basePoint_x_ne_zero : basePoint.x ≠ 0 := by
  intro vanishes
  have number := congrArg ZMod.val vanishes
  rw [basePoint, val_basePointX, ZMod.val_zero] at number
  exact absurd number (by decide)

theorem basePoint_y_ne_zero : basePoint.y ≠ 0 := by
  intro vanishes
  have number := congrArg ZMod.val vanishes
  rw [basePoint, val_basePointY, ZMod.val_zero] at number
  exact absurd number (by decide)

theorem basePoint_ne_zero : basePoint ≠ 0 := fun vanishes =>
  basePoint_x_ne_zero (congrArg EdwardsPoint.x vanishes)

/-- Multiples of the base point agree exactly for numbers that agree modulo the order. -/
theorem nsmul_basePoint_eq_iff (left right : Nat) :
    left • basePoint = right • basePoint ↔ left ≡ right [MOD Scalar.order] := by
  have exact : addOrderOf basePoint = Scalar.order :=
    addOrderOf_eq_prime order_nsmul_basePoint basePoint_ne_zero
  rw [← exact, nsmul_eq_nsmul_iff_modEq]

theorem mod_order_nsmul_basePoint (number : Nat) :
    (number % Scalar.order) • basePoint = number • basePoint :=
  (nsmul_basePoint_eq_iff _ _).mpr (Nat.mod_modEq number Scalar.order)

end EdwardsSignature
