import Mathlib
import EdwardsSignature.Curve.Basic
import EdwardsSignature.Proofs.Primality
import EdwardsSignature.Proofs.Edwards.Group

/-! The standard curve over the integers modulo the field prime. -/

set_option autoImplicit false

namespace EdwardsSignature

open Primality

theorem two_ne_zero_zmod : (2 : ZMod fieldPrime) ≠ 0 := by
  intro vanishes
  have divides := (ZMod.natCast_eq_zero_iff 2 fieldPrime).mp (by exact_mod_cast vanishes)
  revert divides
  decide

theorem standardRoot_mul_self :
    (Curve.standardRoot.toNat : ZMod fieldPrime) * Curve.standardRoot.toNat = -1 := by
  rw [eq_neg_iff_add_eq_zero, ← Nat.cast_mul, ← Nat.cast_one, ← Nat.cast_add,
    ZMod.natCast_eq_zero_iff]
  decide

/-- By the criterion for squares: the power with exponent `(p - 1) / 2` is not one. -/
theorem standardD_not_square : ¬IsSquare (Curve.standardD.toNat : ZMod fieldPrime) := by
  have nonzero : (Curve.standardD.toNat : ZMod fieldPrime) ≠ 0 := by
    rw [Ne, ZMod.natCast_eq_zero_iff]
    decide
  rw [ZMod.euler_criterion fieldPrime nonzero,
    ← natCast_powerMod fieldPrime Curve.standardD.toNat 256 _ (by decide), ← Nat.cast_one,
    ZMod.natCast_eq_natCast_iff']
  decide +kernel

def standardCurve : EdwardsCurve (ZMod fieldPrime) where
  d := Curve.standardD.toNat
  root := Curve.standardRoot.toNat
  root_mul_root := standardRoot_mul_self
  d_not_square := standardD_not_square
  two_ne_zero := two_ne_zero_zmod

end EdwardsSignature
