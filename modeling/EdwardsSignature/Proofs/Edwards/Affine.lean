import Mathlib
import EdwardsSignature.Proofs.Edwards.Group

/-! The addition law on pairs of affine coordinates, which need not be on the curve. -/

set_option autoImplicit false

namespace EdwardsSignature

variable {K : Type} [Field K]

namespace EdwardsCurve

variable (curve : EdwardsCurve K)

def Contains (x y : K) : Prop := -x ^ 2 + y ^ 2 = 1 + curve.d * x ^ 2 * y ^ 2

theorem contains_iff_root {x y : K} :
    curve.Contains x y ↔ x ^ 2 * (curve.d * y ^ 2 + 1) = y ^ 2 - 1 := by
  unfold Contains
  constructor
  · intro equation
    linear_combination -equation
  · intro root
    linear_combination -root

/-- The sum by the twisted Edwards law. -/
def sum (left right : K × K) : K × K :=
  let cross := curve.cross left.1 left.2 right.1 right.2
  ((left.1 * right.2 + right.1 * left.2) / (1 + cross),
    (left.2 * right.2 + left.1 * right.1) / (1 - cross))

def difference (left right : K × K) : K × K := curve.sum left (-right.1, right.2)

end EdwardsCurve

namespace EdwardsPoint

variable {curve : EdwardsCurve K} {left right : EdwardsPoint curve}

def pair (point : EdwardsPoint curve) : K × K := (point.x, point.y)

theorem pair_inj : left.pair = right.pair ↔ left = right := by
  rw [pair, pair, Prod.mk.injEq, EdwardsPoint.ext_iff]

theorem pair_add : (left + right).pair = curve.sum left.pair right.pair := rfl

theorem pair_sub : (left - right).pair = curve.difference left.pair right.pair := by
  rw [sub_eq_add_neg]
  rfl

end EdwardsPoint

end EdwardsSignature
