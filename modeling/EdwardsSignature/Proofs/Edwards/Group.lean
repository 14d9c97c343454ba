import Mathlib

/-! The group of points on a complete twisted Edwards curve `-x² + y² = 1 + d·x²·y²`.

When `-1` is a square and `d` is not, the denominators of the addition law never vanish,
so one pair of formulas adds all points, equal, opposite and neutral ones included. -/

set_option autoImplicit false

namespace EdwardsSignature

/-- The constants of a curve whose addition law is complete. -/
structure EdwardsCurve (K : Type) [Field K] where
  d : K
  root : K
  root_mul_root : root * root = -1
  d_not_square : ¬IsSquare d
  two_ne_zero : (2 : K) ≠ 0

variable {K : Type} [Field K]

@[ext] structure EdwardsPoint (curve : EdwardsCurve K) where
  (x y : K)
  equation : -x ^ 2 + y ^ 2 = 1 + curve.d * x ^ 2 * y ^ 2

namespace EdwardsCurve

variable (curve : EdwardsCurve K)

/-- The product that both denominators of a sum are built from. -/
def cross (x₁ y₁ x₂ y₂ : K) : K := curve.d * x₁ * x₂ * y₁ * y₂

theorem d_ne_zero : curve.d ≠ 0 := by
  intro vanishes
  apply curve.d_not_square
  rw [vanishes]
  exact IsSquare.zero

theorem eq_zero_of_d_mul_square {w v : K} (same : curve.d * w ^ 2 = v ^ 2) : w = 0 := by
  by_contra nonzero
  apply curve.d_not_square
  refine ⟨v / w, ?_⟩
  field_simp
  exact same

/-- A product of this form whose square is one would make `d` a square. -/
theorem cross_sq_ne_one {x₁ y₁ x₂ y₂ : K}
    (first : -x₁ ^ 2 + y₁ ^ 2 = 1 + curve.d * x₁ ^ 2 * y₁ ^ 2)
    (second : -x₂ ^ 2 + y₂ ^ 2 = 1 + curve.d * x₂ ^ 2 * y₂ ^ 2) :
    curve.cross x₁ y₁ x₂ y₂ ^ 2 ≠ 1 := by
  intro unit
  obtain ⟨d, root, root_mul_root, d_not_square, two_ne_zero⟩ := curve
  set curve : EdwardsCurve K := ⟨d, root, root_mul_root, d_not_square, two_ne_zero⟩
  set ε := curve.cross x₁ y₁ x₂ y₂ with ε_eq
  have ε_def : ε = d * x₁ * x₂ * y₁ * y₂ := ε_eq
  have plus : x₁ * y₁ * (root * x₂ + y₂) = 0 := by
    apply curve.eq_zero_of_d_mul_square (v := root * x₁ + ε * y₁)
    grind
  have minus : x₁ * y₁ * (root * x₂ - y₂) = 0 := by
    apply curve.eq_zero_of_d_mul_square (v := root * x₁ - ε * y₁)
    grind
  have twice : 2 * (x₁ * y₁ * y₂) = 0 := by linear_combination plus - minus
  have none : x₁ * y₁ * y₂ = 0 := (mul_eq_zero.mp twice).resolve_left two_ne_zero
  have vanishes : ε = 0 := by
    rw [ε_def]
    linear_combination d * x₂ * none
  rw [vanishes] at unit
  simp at unit

theorem one_add_cross_ne_zero {x₁ y₁ x₂ y₂ : K}
    (first : -x₁ ^ 2 + y₁ ^ 2 = 1 + curve.d * x₁ ^ 2 * y₁ ^ 2)
    (second : -x₂ ^ 2 + y₂ ^ 2 = 1 + curve.d * x₂ ^ 2 * y₂ ^ 2) :
    1 + curve.cross x₁ y₁ x₂ y₂ ≠ 0 := by
  intro vanishes
  apply curve.cross_sq_ne_one first second
  linear_combination (curve.cross x₁ y₁ x₂ y₂ - 1) * vanishes

theorem one_sub_cross_ne_zero {x₁ y₁ x₂ y₂ : K}
    (first : -x₁ ^ 2 + y₁ ^ 2 = 1 + curve.d * x₁ ^ 2 * y₁ ^ 2)
    (second : -x₂ ^ 2 + y₂ ^ 2 = 1 + curve.d * x₂ ^ 2 * y₂ ^ 2) :
    1 - curve.cross x₁ y₁ x₂ y₂ ≠ 0 := by
  intro vanishes
  apply curve.cross_sq_ne_one first second
  linear_combination (-curve.cross x₁ y₁ x₂ y₂ - 1) * vanishes

end EdwardsCurve

namespace EdwardsPoint

variable {curve : EdwardsCurve K}

def cross (left right : EdwardsPoint curve) : K := curve.cross left.x left.y right.x right.y

theorem one_add_cross_ne_zero (left right : EdwardsPoint curve) : 1 + left.cross right ≠ 0 :=
  curve.one_add_cross_ne_zero left.equation right.equation

theorem one_sub_cross_ne_zero (left right : EdwardsPoint curve) : 1 - left.cross right ≠ 0 :=
  curve.one_sub_cross_ne_zero left.equation right.equation

def add (left right : EdwardsPoint curve) : EdwardsPoint curve where
  x := (left.x * right.y + right.x * left.y) / (1 + left.cross right)
  y := (left.y * right.y + left.x * right.x) / (1 - left.cross right)
  equation := by
    have plus := left.one_add_cross_ne_zero right
    have minus := left.one_sub_cross_ne_zero right
    have first := left.equation
    have second := right.equation
    have cross_eq : left.cross right = curve.d * left.x * right.x * left.y * right.y := rfl
    generalize left.cross right = δ at plus minus cross_eq
    field_simp
    grind

def neg (point : EdwardsPoint curve) : EdwardsPoint curve where
  x := -point.x
  y := point.y
  equation := by rw [neg_sq]; exact point.equation

def zero : EdwardsPoint curve where
  x := 0
  y := 1
  equation := by ring

instance : Add (EdwardsPoint curve) := ⟨add⟩
instance : Neg (EdwardsPoint curve) := ⟨neg⟩
instance : Zero (EdwardsPoint curve) := ⟨zero⟩

@[simp] theorem zero_x : (0 : EdwardsPoint curve).x = 0 := rfl
@[simp] theorem zero_y : (0 : EdwardsPoint curve).y = 1 := rfl
@[simp] theorem neg_x (point : EdwardsPoint curve) : (-point).x = -point.x := rfl
@[simp] theorem neg_y (point : EdwardsPoint curve) : (-point).y = point.y := rfl

theorem add_x_mul (left right : EdwardsPoint curve) :
    (left + right).x * (1 + left.cross right) = left.x * right.y + right.x * left.y :=
  div_mul_cancel₀ _ (left.one_add_cross_ne_zero right)

theorem add_y_mul (left right : EdwardsPoint curve) :
    (left + right).y * (1 - left.cross right) = left.y * right.y + left.x * right.x :=
  div_mul_cancel₀ _ (left.one_sub_cross_ne_zero right)

/-- Coordinates that satisfy the addition law are those of the sum. -/
theorem eq_add_of_mul {left right total : EdwardsPoint curve}
    (x : total.x * (1 + left.cross right) = left.x * right.y + right.x * left.y)
    (y : total.y * (1 - left.cross right) = left.y * right.y + left.x * right.x) :
    total = left + right := by
  ext
  · exact mul_right_cancel₀ (left.one_add_cross_ne_zero right) (x.trans (add_x_mul _ _).symm)
  · exact mul_right_cancel₀ (left.one_sub_cross_ne_zero right) (y.trans (add_y_mul _ _).symm)

protected theorem add_comm (left right : EdwardsPoint curve) : left + right = right + left := by
  have same : right.cross left = left.cross right := by
    simp only [cross, EdwardsCurve.cross]
    ring
  apply eq_add_of_mul
  · rw [same, add_x_mul]
    ring
  · rw [same, add_y_mul]
    ring

protected theorem zero_add (point : EdwardsPoint curve) : 0 + point = point := by
  symm
  apply eq_add_of_mul <;> simp [cross, EdwardsCurve.cross]

protected theorem neg_add_cancel (point : EdwardsPoint curve) : -point + point = 0 := by
  have equation := point.equation
  symm
  apply eq_add_of_mul
  · simp only [neg_x, neg_y, zero_x]
    ring
  · simp only [cross, EdwardsCurve.cross, neg_x, neg_y, zero_y]
    linear_combination -equation

/-- Both ways to add three points agree once every denominator is cleared, first coordinate. -/
theorem assoc_x_numerators {d x₁ y₁ x₂ y₂ x₃ y₃ : K}
    (first : -x₁ ^ 2 + y₁ ^ 2 = 1 + d * x₁ ^ 2 * y₁ ^ 2)
    (second : -x₂ ^ 2 + y₂ ^ 2 = 1 + d * x₂ ^ 2 * y₂ ^ 2)
    (third : -x₃ ^ 2 + y₃ ^ 2 = 1 + d * x₃ ^ 2 * y₃ ^ 2) {α β : K}
    (α_eq : α = d * x₁ * x₂ * y₁ * y₂) (β_eq : β = d * x₂ * x₃ * y₂ * y₃) :
    ((x₁ * y₂ + x₂ * y₁) * (1 - α) * y₃ + x₃ * ((y₁ * y₂ + x₁ * x₂) * (1 + α))) *
        ((1 - β) * (1 + β) + d * x₁ * (x₂ * y₃ + x₃ * y₂) * y₁ * (y₂ * y₃ + x₂ * x₃)) =
      (x₁ * ((y₂ * y₃ + x₂ * x₃) * (1 + β)) + (x₂ * y₃ + x₃ * y₂) * (1 - β) * y₁) *
        ((1 - α) * (1 + α) + d * (x₁ * y₂ + x₂ * y₁) * x₃ * (y₁ * y₂ + x₁ * x₂) * y₃) := by
  subst α_eq β_eq
  grind

theorem assoc_y_numerators {d x₁ y₁ x₂ y₂ x₃ y₃ : K}
    (first : -x₁ ^ 2 + y₁ ^ 2 = 1 + d * x₁ ^ 2 * y₁ ^ 2)
    (second : -x₂ ^ 2 + y₂ ^ 2 = 1 + d * x₂ ^ 2 * y₂ ^ 2)
    (third : -x₃ ^ 2 + y₃ ^ 2 = 1 + d * x₃ ^ 2 * y₃ ^ 2) {α β : K}
    (α_eq : α = d * x₁ * x₂ * y₁ * y₂) (β_eq : β = d * x₂ * x₃ * y₂ * y₃) :
    ((y₁ * y₂ + x₁ * x₂) * (1 + α) * y₃ + (x₁ * y₂ + x₂ * y₁) * (1 - α) * x₃) *
        ((1 - β) * (1 + β) - d * x₁ * (x₂ * y₃ + x₃ * y₂) * y₁ * (y₂ * y₃ + x₂ * x₃)) =
      (y₁ * ((y₂ * y₃ + x₂ * x₃) * (1 + β)) + x₁ * ((x₂ * y₃ + x₃ * y₂) * (1 - β))) *
        ((1 - α) * (1 + α) - d * (x₁ * y₂ + x₂ * y₁) * x₃ * (y₁ * y₂ + x₁ * x₂) * y₃) := by
  subst α_eq β_eq
  grind

theorem inner_denominators_ne_zero (first second third : EdwardsPoint curve) :
    (1 - first.cross second) * (1 + first.cross second) *
      ((1 - second.cross third) * (1 + second.cross third)) ≠ 0 :=
  mul_ne_zero
    (mul_ne_zero (one_sub_cross_ne_zero _ _) (one_add_cross_ne_zero _ _))
    (mul_ne_zero (one_sub_cross_ne_zero _ _) (one_add_cross_ne_zero _ _))

theorem add_assoc_x (first second third : EdwardsPoint curve) :
    (first + second + third).x = (first + (second + third)).x := by
  -- Both sides are multiplied by all denominators, which leaves an identity of polynomials.
  have numerators := assoc_x_numerators first.equation second.equation third.equation
    (α := first.cross second) (β := second.cross third) rfl rfl
  have left := add_x_mul (first + second) third
  have right := add_x_mul first (second + third)
  have left_eq : (first + second).cross third =
      curve.d * (first + second).x * third.x * (first + second).y * third.y := rfl
  have right_eq : first.cross (second + third) =
      curve.d * first.x * (second + third).x * first.y * (second + third).y := rfl
  rw [← add_x_mul first second, ← add_y_mul first second, ← add_x_mul second third,
    ← add_y_mul second third] at numerators
  apply mul_right_cancel₀
    (mul_ne_zero ((first + second).one_add_cross_ne_zero third)
      (first.one_add_cross_ne_zero (second + third)))
  apply mul_right_cancel₀ (inner_denominators_ne_zero first second third)
  rw [left_eq] at left ⊢
  rw [right_eq] at right ⊢
  generalize first.cross second = α at *
  generalize second.cross third = β at *
  linear_combination
    (1 + curve.d * first.x * (second + third).x * first.y * (second + third).y) *
        ((1 - α) * (1 + α) * ((1 - β) * (1 + β))) * left -
      (1 + curve.d * (first + second).x * third.x * (first + second).y * third.y) *
        ((1 - α) * (1 + α) * ((1 - β) * (1 + β))) * right + numerators

theorem add_assoc_y (first second third : EdwardsPoint curve) :
    (first + second + third).y = (first + (second + third)).y := by
  -- Both sides are multiplied by all denominators, which leaves an identity of polynomials.
  have numerators := assoc_y_numerators first.equation second.equation third.equation
    (α := first.cross second) (β := second.cross third) rfl rfl
  have left := add_y_mul (first + second) third
  have right := add_y_mul first (second + third)
  have left_eq : (first + second).cross third =
      curve.d * (first + second).x * third.x * (first + second).y * third.y := rfl
  have right_eq : first.cross (second + third) =
      curve.d * first.x * (second + third).x * first.y * (second + third).y := rfl
  rw [← add_x_mul first second, ← add_y_mul first second, ← add_x_mul second third,
    ← add_y_mul second third] at numerators
  apply mul_right_cancel₀
    (mul_ne_zero ((first + second).one_sub_cross_ne_zero third)
      (first.one_sub_cross_ne_zero (second + third)))
  apply mul_right_cancel₀ (inner_denominators_ne_zero first second third)
  rw [left_eq] at left ⊢
  rw [right_eq] at right ⊢
  generalize first.cross second = α at *
  generalize second.cross third = β at *
  linear_combination
    (1 - curve.d * first.x * (second + third).x * first.y * (second + third).y) *
        ((1 - α) * (1 + α) * ((1 - β) * (1 + β))) * left -
      (1 - curve.d * (first + second).x * third.x * (first + second).y * third.y) *
        ((1 - α) * (1 + α) * ((1 - β) * (1 + β))) * right + numerators

protected theorem add_assoc (first second third : EdwardsPoint curve) :
    first + second + third = first + (second + third) := by
  ext
  · exact add_assoc_x first second third
  · exact add_assoc_y first second third

instance : AddCommGroup (EdwardsPoint curve) where
  add_assoc := EdwardsPoint.add_assoc
  zero_add := EdwardsPoint.zero_add
  add_zero point := (point.add_comm 0).trans point.zero_add
  add_comm := EdwardsPoint.add_comm
  neg_add_cancel := EdwardsPoint.neg_add_cancel
  nsmul := nsmulRec
  zsmul := zsmulRec

end EdwardsPoint

end EdwardsSignature
