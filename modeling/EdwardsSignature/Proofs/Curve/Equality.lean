import Mathlib
import EdwardsSignature.Field.LimbElement
import EdwardsSignature.Proofs.Curve.Validity
import EdwardsSignature.Proofs.Field.LimbElement

/-! Points are compared as affine points.

The comparison looks through the system that a point is written in and through its denominators.
It asks nothing more of the coordinates than that the denominators do not vanish: the points need
not lie on the curve. On the curve, it agrees with the comparison of encodings. -/

set_option autoImplicit false

namespace EdwardsSignature

variable {F : Type} [BaseField F]

namespace Point

/-- The two operand forms are equal to nothing outside their own system. -/
theorem equal_of_system_ne {left right : Point F} (operand : ¬left.IsWorking)
    (different : left.system ≠ right.system) :
    left.equal right = false ∧ right.equal left = false := by
  cases left with
  | projective | extended | completed => exact absurd trivial operand
  | affineNiels entry =>
      cases right with
      | affineNiels => exact absurd rfl different
      | projective | extended | completed | projectiveNiels => exact ⟨rfl, rfl⟩
  | projectiveNiels operand =>
      cases right with
      | projectiveNiels => exact absurd rfl different
      | projective | extended | completed | affineNiels => exact ⟨rfl, rfl⟩

end Point

variable [LawfulBaseField F]

namespace Point

/-- The affine coordinates satisfy the equation of the curve. -/
def OnCurve (point : Point F) : Prop := standardCurve.Contains point.affine.1 point.affine.2

variable {curve : Curve F} {point left right converted : Point F}

section Working

/-- The comparison is an equality of affine points, and so an equivalence. -/
theorem equal_equivalence :
    Equivalence fun left right : { point : Point F // point.HasAffine } =>
      left.val.equal right.val = true where
  refl point := (point.property.equal_iff point.property).mpr rfl
  symm {left right} same := by
    rw [left.property.equal_iff right.property] at same
    exact (right.property.equal_iff left.property).mpr same.symm
  trans {left middle right} first second := by
    rw [left.property.equal_iff middle.property] at first
    rw [middle.property.equal_iff right.property] at second
    exact (left.property.equal_iff right.property).mpr (first.trans second)

theorem HasAffine.convert {target : CoordinateSystem} (defined : point.HasAffine)
    (answered : point.convert curve target = .ok converted) (working : converted.IsWorking) :
    converted.HasAffine ∧ converted.affine = point.affine := by
  unfold Point.convert at answered
  split at answered
  · cases answered
    exact ⟨defined, rfl⟩
  · split at answered
    · cases answered
      exact ⟨defined, rfl⟩
    · cases answered
      exact HasAffine.toProjective defined
    · cases answered
      exact HasAffine.toProjective defined
    · cases answered
      cases working
    · cases answered

/-- On the curve, encodings tell apart what the comparison tells apart. -/
theorem HasAffine.equal_iff_encode (left_defined : left.HasAffine)
    (right_defined : right.HasAffine) (left_onCurve : left.OnCurve)
    (right_onCurve : right.OnCurve) :
    ∃ first second, left.encode = .ok first ∧ right.encode = .ok second ∧
      (left.equal right = true ↔ first = second) := by
  let left_named : CurvePoint := ⟨left.affine.1, left.affine.2, left_onCurve⟩
  let right_named : CurvePoint := ⟨right.affine.1, right.affine.2, right_onCurve⟩
  have left_affine : left.affine = left_named.pair := rfl
  have right_affine : right.affine = right_named.pair := rfl
  refine ⟨left_named.encode, right_named.encode, left_defined.encode_eq left_affine,
    right_defined.encode_eq right_affine, ?_⟩
  rw [left_defined.equal_iff right_defined, left_affine, right_affine, EdwardsPoint.pair_inj]
  constructor
  · intro same
    rw [same]
  · exact EdwardsPoint.encode_injective

end Working

section Operands

/-- Comparing operands across the denominators compares their fractions. -/
theorem equalOperands_iff {first second : ProjectiveNiels F} (first_nonzero : value first.z ≠ 0)
    (second_nonzero : value second.z ≠ 0) :
    equalOperands first second = true ↔
      value first.yPlusX / value first.z = value second.yPlusX / value second.z ∧
      value first.yMinusX / value first.z = value second.yMinusX / value second.z ∧
      value first.t2d / value first.z = value second.t2d / value second.z := by
  simp only [equalOperands, div_eq_div_iff first_nonzero second_nonzero]
  split
  · rename_i same
    rw [BaseField.equal_iff] at same
    simp only [Bool.and_eq_true, BaseField.equal_iff, same, mul_left_inj' second_nonzero,
      and_assoc]
  · simp only [Bool.and_eq_true, BaseField.equal_iff, LawfulBaseField.value_mul, and_assoc]

variable {first second : Extended F}

/-- The third fraction of an operand is settled by the first two, since `T` goes with the other
coordinates of a valid point. -/
theorem fractions_toProjectiveNiels (curve : Curve F) (valid : first.Valid) :
    let operand := first.toProjectiveNiels curve
    let coordinates := (extended first).affine
    value operand.yPlusX / value operand.z = coordinates.2 + coordinates.1 ∧
      value operand.yMinusX / value operand.z = coordinates.2 - coordinates.1 ∧
      value operand.t2d / value operand.z =
        coordinates.1 * coordinates.2 * value curve.twiceD := by
  have nonzero := valid.z_ne_zero
  have product := valid.product_eq
  simp only [Extended.toProjectiveNiels, affine, LawfulBaseField.value_add,
    LawfulBaseField.value_sub, LawfulBaseField.value_mul]
  refine ⟨add_div _ _ _, sub_div _ _ _, ?_⟩
  field_simp
  linear_combination -value curve.twiceD * product

theorem equal_toProjectiveNiels_iff (first_valid : first.Valid) (second_valid : second.Valid) :
    (projectiveNiels (first.toProjectiveNiels curve)).equal
        (projectiveNiels (second.toProjectiveNiels curve)) = true ↔
      (extended first).affine = (extended second).affine := by
  obtain ⟨plus, minus, product⟩ := fractions_toProjectiveNiels curve first_valid
  obtain ⟨other_plus, other_minus, other_product⟩ :=
    fractions_toProjectiveNiels curve second_valid
  rw [Point.equal, equalOperands_iff first_valid.z_ne_zero second_valid.z_ne_zero, plus, minus,
    product, other_plus, other_minus, other_product]
  generalize (extended first).affine = coordinates
  generalize (extended second).affine = others
  constructor
  · rintro ⟨sums, differences, _⟩
    apply Prod.ext
    · apply mul_left_cancel₀ two_ne_zero_zmod
      linear_combination sums - differences
    · apply mul_left_cancel₀ two_ne_zero_zmod
      linear_combination sums + differences
  · rintro rfl
    exact ⟨rfl, rfl, rfl⟩

end Operands

/-- Points whose denominators do not vanish are equal exactly when their affine coordinates are,
whatever their systems and on the curve or off it. So the comparison is an equivalence that
conversions respect, and on the curve it is the comparison of encodings. Operands made from valid
points are compared as those points are, and neither operand form is ever equal to a point in
another system. -/
theorem equality_exact :
    (∀ left right : Point F, left.HasAffine → right.HasAffine →
      (left.equal right = true ↔ left.affine = right.affine)) ∧
    Equivalence (fun left right : { point : Point F // point.HasAffine } =>
      left.val.equal right.val = true) ∧
    (∀ (curve : Curve F) (point converted : Point F) (target : CoordinateSystem),
      point.HasAffine → point.convert curve target = .ok converted → converted.IsWorking →
      converted.HasAffine ∧ converted.equal point = true ∧
        ∀ other : Point F, other.HasAffine → converted.equal other = point.equal other) ∧
    (∀ left right : Point F, left.HasAffine → right.HasAffine → left.OnCurve → right.OnCurve →
      ∃ first second, left.encode = .ok first ∧ right.encode = .ok second ∧
        (left.equal right = true ↔ first = second)) ∧
    (∀ (curve : Curve F) (first second : Extended F), first.Valid → second.Valid →
      ((projectiveNiels (first.toProjectiveNiels curve)).equal
          (projectiveNiels (second.toProjectiveNiels curve)) = true ↔
        (extended first).affine = (extended second).affine)) ∧
    ∀ left right : Point F, ¬left.IsWorking → left.system ≠ right.system →
      left.equal right = false ∧ right.equal left = false := by
  refine ⟨fun left right => HasAffine.equal_iff, equal_equivalence, ?_,
    fun left right => HasAffine.equal_iff_encode,
    fun curve first second => equal_toProjectiveNiels_iff, fun left right => equal_of_system_ne⟩
  intro curve point converted target defined answered working
  obtain ⟨converted_defined, kept⟩ := defined.convert answered working
  refine ⟨converted_defined, (converted_defined.equal_iff defined).mpr kept, ?_⟩
  intro other other_defined
  rw [Bool.eq_iff_iff, converted_defined.equal_iff other_defined,
    defined.equal_iff other_defined, kept]

/-- A point off the curve in two systems, and the point of order two with two denominators. -/
theorem equality_exact_off_curve :
    let curve : Curve LimbElement := .standard
    let left : Point LimbElement := .projective ⟨1, 1, 1⟩
    let right : Point LimbElement := .completed ⟨-1, -1, -1, -1⟩
    let scaled : Extended LimbElement := ⟨0, 1, -1, 0⟩
    ¬left.OnCurve ∧ left.equal right = true ∧ right.equal left = true ∧
      (∃ converted, right.convert curve .extended = .ok converted ∧
        converted.equal left = true) ∧
      (∃ encoding, (extended (.orderTwo : Extended LimbElement)).encode = .ok encoding ∧
        (extended scaled).encode = .ok encoding) ∧
      (projectiveNiels (Extended.orderTwo.toProjectiveNiels curve)).equal
        (projectiveNiels (scaled.toProjectiveNiels curve)) = true ∧
      (projectiveNiels (scaled.toProjectiveNiels curve)).equal (extended scaled) = false := by
  intro curve left right scaled
  have left_defined : left.HasAffine := by simp [left, HasAffine]
  have right_defined : right.HasAffine := by simp [right, HasAffine]
  have same_affine : left.affine = right.affine := by simp [left, right, affine]
  have two_valid : (Extended.orderTwo : Extended LimbElement).Valid := Extended.orderTwo_valid
  have scaled_valid : scaled.Valid := by
    constructor <;> simp [scaled, EdwardsCurve.Contains]
  have scaled_affine :
      (extended (.orderTwo : Extended LimbElement)).affine = (extended scaled).affine := by
    simp [scaled, Extended.orderTwo, affine]
  obtain ⟨equal_iff, equivalence, converts, encodes, operands, apart⟩ :=
    equality_exact (F := LimbElement)
  have same := (equal_iff left right left_defined right_defined).mpr same_affine
  obtain ⟨_, _, kept⟩ := converts curve right _ .extended right_defined rfl trivial
  obtain ⟨first, second, first_encoded, second_encoded, encoded_iff⟩ :=
    encodes (.extended .orderTwo) (.extended scaled) two_valid.z_ne_zero scaled_valid.z_ne_zero
      two_valid.onCurve scaled_valid.onCurve
  have equal_points := (equal_iff (.extended .orderTwo) (.extended scaled) two_valid.z_ne_zero
    scaled_valid.z_ne_zero).mpr scaled_affine
  have back : right.equal left = true :=
    equivalence.symm (x := ⟨left, left_defined⟩) (y := ⟨right, right_defined⟩) same
  obtain ⟨unequal, _⟩ :=
    apart (.projectiveNiels (scaled.toProjectiveNiels curve)) (.extended scaled) id (by decide)
  refine ⟨?_, same, back, ⟨_, rfl, (kept left left_defined).trans back⟩,
    ⟨first, first_encoded, encoded_iff.mp equal_points ▸ second_encoded⟩,
    (operands curve .orderTwo scaled two_valid scaled_valid).mpr scaled_affine, unequal⟩
  -- On the curve `d` would be the square that `-1` is.
  intro onCurve
  apply standardCurve.d_not_square
  refine ⟨standardCurve.root, ?_⟩
  rw [standardCurve.root_mul_root]
  simp only [OnCurve, left, affine, EdwardsCurve.Contains, LawfulBaseField.value_one] at onCurve
  linear_combination -onCurve

end Point

end EdwardsSignature
