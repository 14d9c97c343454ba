import Mathlib
import EdwardsSignature.Curve.Formulas
import EdwardsSignature.Proofs.Edwards.Standard
import EdwardsSignature.Proofs.Field.Lawful

/-! Which curve point coordinates name, and that every formula names the right one.

No coordinates of a named point have a zero denominator, and the addition law is complete,
so none of the formulas has an exception. -/

set_option autoImplicit false

namespace EdwardsSignature

abbrev CurvePoint := EdwardsPoint standardCurve

variable {F : Type} [BaseField F] [LawfulBaseField F]

/-- Curves with the standard constants, whatever they report as their field. -/
structure Curve.HasStandardConstants (curve : Curve F) : Prop where
  d_eq : value curve.d = standardCurve.d
  root_eq : value curve.rootOfMinusOne = standardCurve.root

theorem Curve.HasStandardConstants.twiceD_eq {curve : Curve F}
    (standard : curve.HasStandardConstants) : value curve.twiceD = 2 * standardCurve.d := by
  rw [curve.twiceD_eq, LawfulBaseField.value_add, standard.d_eq, two_mul]

theorem Curve.standard_hasStandardConstants : (Curve.standard : Curve F).HasStandardConstants := by
  constructor
  · rw [Curve.standard, LawfulBaseField.value_ofBlock, Nat.mod_eq_of_lt (by decide)]
    rfl
  · rw [Curve.standard, LawfulBaseField.value_ofBlock, Nat.mod_eq_of_lt (by decide)]
    rfl

structure Projective.Names (point : Projective F) (named : CurvePoint) : Prop where
  z_ne_zero : value point.z ≠ 0
  x_eq : value point.x = named.x * value point.z
  y_eq : value point.y = named.y * value point.z

structure Extended.Names (point : Extended F) (named : CurvePoint) : Prop where
  z_ne_zero : value point.z ≠ 0
  x_eq : value point.x = named.x * value point.z
  y_eq : value point.y = named.y * value point.z
  t_eq : value point.t = named.x * named.y * value point.z

structure Completed.Names (point : Completed F) (named : CurvePoint) : Prop where
  z_ne_zero : value point.z ≠ 0
  t_ne_zero : value point.t ≠ 0
  x_eq : value point.x = named.x * value point.z
  y_eq : value point.y = named.y * value point.t

structure AffineNiels.Names (entry : AffineNiels F) (named : CurvePoint) : Prop where
  yPlusX_eq : value entry.yPlusX = named.y + named.x
  yMinusX_eq : value entry.yMinusX = named.y - named.x
  xy2d_eq : value entry.xy2d = 2 * standardCurve.d * named.x * named.y

structure ProjectiveNiels.Names (operand : ProjectiveNiels F) (named : CurvePoint) : Prop where
  z_ne_zero : value operand.z ≠ 0
  yPlusX_eq : value operand.yPlusX = (named.y + named.x) * value operand.z
  yMinusX_eq : value operand.yMinusX = (named.y - named.x) * value operand.z
  t2d_eq : value operand.t2d = 2 * standardCurve.d * named.x * named.y * value operand.z

section Neutral

theorem Projective.names_neutral : (Projective.neutral : Projective F).Names 0 := by
  constructor <;> simp [Projective.neutral]

theorem Extended.names_neutral : (Extended.neutral : Extended F).Names 0 := by
  constructor <;> simp [Extended.neutral]

theorem Completed.names_neutral : (Completed.neutral : Completed F).Names 0 := by
  constructor <;> simp [Completed.neutral]

theorem AffineNiels.names_neutral : (AffineNiels.neutral : AffineNiels F).Names 0 := by
  constructor <;> simp [AffineNiels.neutral]

theorem ProjectiveNiels.names_neutral : (ProjectiveNiels.neutral : ProjectiveNiels F).Names 0 := by
  constructor <;> simp [ProjectiveNiels.neutral]

end Neutral

section Conversions

variable {named : CurvePoint} {curve : Curve F}

theorem Completed.Names.toProjective {point : Completed F} (names : point.Names named) :
    point.toProjective.Names named where
  z_ne_zero := by
    simpa [Completed.toProjective] using ⟨names.z_ne_zero, names.t_ne_zero⟩
  x_eq := by
    simp only [Completed.toProjective, LawfulBaseField.value_mul, names.x_eq]
    ring
  y_eq := by
    simp only [Completed.toProjective, LawfulBaseField.value_mul, names.y_eq]
    ring

theorem Completed.Names.toExtended {point : Completed F} (names : point.Names named) :
    point.toExtended.Names named where
  z_ne_zero := names.toProjective.z_ne_zero
  x_eq := names.toProjective.x_eq
  y_eq := names.toProjective.y_eq
  t_eq := by
    simp only [Completed.toExtended, LawfulBaseField.value_mul, names.x_eq, names.y_eq]
    ring

theorem Extended.Names.toProjective {point : Extended F} (names : point.Names named) :
    point.toProjective.Names named :=
  ⟨names.z_ne_zero, names.x_eq, names.y_eq⟩

theorem Extended.Names.toProjectiveNiels (standard : curve.HasStandardConstants)
    {point : Extended F} (names : point.Names named) :
    (point.toProjectiveNiels curve).Names named where
  z_ne_zero := names.z_ne_zero
  yPlusX_eq := by
    simp only [Extended.toProjectiveNiels, LawfulBaseField.value_add, names.x_eq, names.y_eq]
    ring
  yMinusX_eq := by
    simp only [Extended.toProjectiveNiels, LawfulBaseField.value_sub, names.x_eq, names.y_eq]
    ring
  t2d_eq := by
    simp only [Extended.toProjectiveNiels, LawfulBaseField.value_mul, names.t_eq,
      standard.twiceD_eq]
    ring

theorem Extended.Names.toAffineNiels (standard : curve.HasStandardConstants)
    {point : Extended F} (names : point.Names named) :
    (point.toAffineNiels curve).Names named := by
  have cancel := names.z_ne_zero
  constructor <;>
    simp only [Extended.toAffineNiels, LawfulBaseField.value_add, LawfulBaseField.value_sub,
      LawfulBaseField.value_mul, LawfulBaseField.value_invert, names.x_eq, names.y_eq,
      standard.twiceD_eq]
  · field_simp
  · field_simp
  · field_simp

end Conversions

section Formulas

variable {left right named : CurvePoint}

/-- Coordinates whose numerators and denominators are those of the addition law, up to a
common factor, name the sum. -/
theorem Completed.names_add {point : Completed F} {factor : ZMod fieldPrime}
    (nonzero : factor ≠ 0)
    (x : value point.x = factor * (left.x * right.y + right.x * left.y))
    (y : value point.y = factor * (left.y * right.y + left.x * right.x))
    (z : value point.z = factor * (1 + left.cross right))
    (t : value point.t = factor * (1 - left.cross right)) : point.Names (left + right) where
  z_ne_zero := by
    rw [z]
    exact mul_ne_zero nonzero (left.one_add_cross_ne_zero right)
  t_ne_zero := by
    rw [t]
    exact mul_ne_zero nonzero (left.one_sub_cross_ne_zero right)
  x_eq := by
    rw [x, z, ← EdwardsPoint.add_x_mul]
    ring
  y_eq := by
    rw [y, t, ← EdwardsPoint.add_y_mul]
    ring

theorem Projective.Names.double {point : Projective F} (names : point.Names named) :
    point.double.Names (named + named) := by
  have equation := named.equation
  apply Completed.names_add (pow_ne_zero 2 names.z_ne_zero) <;>
    simp only [Projective.double, LawfulBaseField.value_add, LawfulBaseField.value_sub,
      LawfulBaseField.value_square, LawfulBaseField.value_doubleSquare, names.x_eq, names.y_eq,
      EdwardsPoint.cross, EdwardsCurve.cross]
  · ring
  · ring
  · linear_combination value point.z ^ 2 * equation
  · linear_combination -value point.z ^ 2 * equation

theorem Extended.Names.double {point : Extended F} (names : point.Names named) :
    point.double.Names (named + named) :=
  names.toProjective.double

theorem Extended.Names.addEntry {point : Extended F} {entry : AffineNiels F}
    (first : point.Names left) (second : entry.Names right) :
    (point.addEntry entry).Names (left + right) := by
  apply Completed.names_add (mul_ne_zero two_ne_zero_zmod first.z_ne_zero) <;>
    simp only [Extended.addEntry, LawfulBaseField.value_add, LawfulBaseField.value_sub,
      LawfulBaseField.value_mul, first.x_eq, first.y_eq, first.t_eq, second.yPlusX_eq,
      second.yMinusX_eq, second.xy2d_eq, EdwardsPoint.cross, EdwardsCurve.cross] <;>
    ring

theorem Extended.Names.add {point : Extended F} {operand : ProjectiveNiels F}
    (first : point.Names left) (second : operand.Names right) :
    (point.add operand).Names (left + right) := by
  have nonzero := mul_ne_zero two_ne_zero_zmod (mul_ne_zero first.z_ne_zero second.z_ne_zero)
  apply Completed.names_add nonzero <;>
    simp only [Extended.add, LawfulBaseField.value_add, LawfulBaseField.value_sub,
      LawfulBaseField.value_mul, first.x_eq, first.y_eq, first.t_eq, second.yPlusX_eq,
      second.yMinusX_eq, second.t2d_eq, EdwardsPoint.cross, EdwardsCurve.cross] <;>
    ring

theorem AffineNiels.Names.negate {entry : AffineNiels F} (names : entry.Names named) :
    entry.negate.Names (-named) where
  yPlusX_eq := by
    rw [AffineNiels.negate, names.yMinusX_eq, EdwardsPoint.neg_x, EdwardsPoint.neg_y]
    ring
  yMinusX_eq := by
    rw [AffineNiels.negate, names.yPlusX_eq, EdwardsPoint.neg_x, EdwardsPoint.neg_y]
    ring
  xy2d_eq := by
    rw [AffineNiels.negate, LawfulBaseField.value_neg, names.xy2d_eq, EdwardsPoint.neg_x,
      EdwardsPoint.neg_y]
    ring

theorem Extended.Names.subEntry {point : Extended F} {entry : AffineNiels F}
    (first : point.Names left) (second : entry.Names right) :
    (point.subEntry entry).Names (left - right) := by
  rw [sub_eq_add_neg]
  apply Completed.names_add (mul_ne_zero two_ne_zero_zmod first.z_ne_zero) <;>
    simp only [Extended.subEntry, LawfulBaseField.value_add, LawfulBaseField.value_sub,
      LawfulBaseField.value_mul, first.x_eq, first.y_eq, first.t_eq, second.yPlusX_eq,
      second.yMinusX_eq, second.xy2d_eq, EdwardsPoint.cross, EdwardsCurve.cross,
      EdwardsPoint.neg_x, EdwardsPoint.neg_y] <;>
    ring

theorem Extended.Names.sub {point : Extended F} {operand : ProjectiveNiels F}
    (first : point.Names left) (second : operand.Names right) :
    (point.sub operand).Names (left - right) := by
  rw [sub_eq_add_neg]
  have nonzero := mul_ne_zero two_ne_zero_zmod (mul_ne_zero first.z_ne_zero second.z_ne_zero)
  apply Completed.names_add nonzero <;>
    simp only [Extended.sub, LawfulBaseField.value_add, LawfulBaseField.value_sub,
      LawfulBaseField.value_mul, first.x_eq, first.y_eq, first.t_eq, second.yPlusX_eq,
      second.yMinusX_eq, second.t2d_eq, EdwardsPoint.cross, EdwardsCurve.cross,
      EdwardsPoint.neg_x, EdwardsPoint.neg_y] <;>
    ring

variable {curve : Curve F}

theorem Extended.Names.plus (standard : curve.HasStandardConstants) {first second : Extended F}
    (first_names : first.Names left) (second_names : second.Names right) :
    (first.plus curve second).Names (left + right) :=
  (first_names.add (second_names.toProjectiveNiels standard)).toExtended

/-- Negation does not read `T`, so the point may come with any `T` at all. -/
theorem Projective.Names.negate {point : Extended F} (names : point.toProjective.Names named) :
    (point.negate curve).Names (-named) := by
  have nonzero := names.z_ne_zero
  have twice := two_ne_zero_zmod
  have x_eq : value point.x = named.x * value point.z := names.x_eq
  have y_eq : value point.y = named.y * value point.z := names.y_eq
  apply Completed.Names.toExtended
  constructor <;>
    simp only [Extended.sub, Extended.neutral, Extended.toProjectiveNiels,
      LawfulBaseField.value_add, LawfulBaseField.value_sub, LawfulBaseField.value_mul,
      LawfulBaseField.value_zero, LawfulBaseField.value_one, x_eq, y_eq, EdwardsPoint.neg_x,
      EdwardsPoint.neg_y]
  · intro vanishes
    apply mul_ne_zero twice nonzero
    simp only [Extended.toProjective]
    linear_combination vanishes
  · intro vanishes
    apply mul_ne_zero twice nonzero
    simp only [Extended.toProjective]
    linear_combination vanishes
  · ring
  · ring

end Formulas

end EdwardsSignature
