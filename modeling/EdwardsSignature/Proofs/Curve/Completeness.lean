import Mathlib
import EdwardsSignature.Field.LimbElement
import EdwardsSignature.Program.Operation
import EdwardsSignature.Proofs.Curve.Validity
import EdwardsSignature.Proofs.Field.LimbElement

/-! The formulas of the group law have no exceptions.

Doubling, addition and subtraction answer for all valid operands, equal, opposite and neutral
ones included, and conversions keep the affine point. So no point that the operations lead to
leaves the curve or gets a zero denominator. -/

set_option autoImplicit false

namespace EdwardsSignature

open Program (PointBinary)

namespace Program.PointBinary

/-- The system that the right operand has to be in; the left one is always extended. -/
def operandSystem : PointBinary → CoordinateSystem
  | add | sub => .projectiveNiels
  | addEntry | subEntry => .affineNiels

def onAffine : PointBinary → ZMod fieldPrime × ZMod fieldPrime →
    ZMod fieldPrime × ZMod fieldPrime → ZMod fieldPrime × ZMod fieldPrime
  | add | addEntry => standardCurve.sum
  | sub | subEntry => standardCurve.difference

def onPoint : PointBinary → CurvePoint → CurvePoint → CurvePoint
  | add, left, right | addEntry, left, right => left + right
  | sub, left, right | subEntry, left, right => left - right

theorem pair_onPoint (operation : PointBinary) (left right : CurvePoint) :
    (operation.onPoint left right).pair = operation.onAffine left.pair right.pair := by
  cases operation with
  | add => exact EdwardsPoint.pair_add
  | sub => exact EdwardsPoint.pair_sub
  | addEntry => exact EdwardsPoint.pair_add
  | subEntry => exact EdwardsPoint.pair_sub

end Program.PointBinary

/-- The conversions that change the system. -/
inductive CoordinateSystem.ConvertsTo : CoordinateSystem → CoordinateSystem → Prop where
  | extendedToProjective : ConvertsTo .extended .projective
  | extendedToProjectiveNiels : ConvertsTo .extended .projectiveNiels
  | completedToProjective : ConvertsTo .completed .projective
  | completedToExtended : ConvertsTo .completed .extended

variable {F : Type} [BaseField F]

/-- What decoding and the neutral points lead to through the operations on points. -/
inductive Point.Reachable (curve : Curve F) : Point F → Prop where
  | neutral (system : CoordinateSystem) : Reachable curve (.neutral system)
  | decoded {bytes : Bytes} {point : Extended F} (decoded : curve.decodePoint bytes = .ok point) :
      Reachable curve (.extended point)
  | double {point : Point F} {twice : Completed F} (reached : Reachable curve point)
      (answered : point.double = .ok twice) : Reachable curve (.completed twice)
  | combine {left right : Point F} {total : Completed F} (operation : PointBinary)
      (left_reached : Reachable curve left) (right_reached : Reachable curve right)
      (answered : operation.apply left right = .ok total) : Reachable curve (.completed total)
  | convert {point converted : Point F} {target : CoordinateSystem}
      (reached : Reachable curve point) (answered : point.convert curve target = .ok converted) :
      Reachable curve converted
  | normalize {point : Extended F} (reached : Reachable curve (.extended point)) :
      Reachable curve (.affineNiels (point.toAffineNiels curve))

namespace Point

section Answers

variable {curve : Curve F} {point left right : Point F}

theorem exists_double (fits : point.system = .projective ∨ point.system = .extended) :
    ∃ twice, point.double = .ok twice := by
  cases point with
  | projective point => exact ⟨_, rfl⟩
  | extended point => exact ⟨_, rfl⟩
  | completed | affineNiels | projectiveNiels => simp [system] at fits

theorem exists_combine (operation : PointBinary) (left_fits : left.system = .extended)
    (right_fits : right.system = operation.operandSystem) :
    ∃ total, operation.apply left right = .ok total := by
  cases left <;> cases left_fits
  cases operation <;> cases right <;> cases right_fits <;> exact ⟨_, rfl⟩

theorem exists_convert {target : CoordinateSystem} (legal : point.system.ConvertsTo target) :
    ∃ converted, point.convert curve target = .ok converted ∧ converted.system = target := by
  cases point <;> cases legal <;> exact ⟨_, rfl, rfl⟩

end Answers

end Point

variable [LawfulBaseField F]

namespace Point

variable {curve : Curve F} {point left right converted : Point F} {total : Completed F}
  {named left_named right_named : CurvePoint}

section Steps

theorem Names.double (names : point.Names named) (answered : point.double = .ok total) :
    total.Names (named + named) := by
  cases point with
  | projective point =>
      cases answered
      exact Projective.Names.double names
  | extended point =>
      cases answered
      exact Extended.Names.double names
  | completed point => cases answered
  | affineNiels entry => cases answered
  | projectiveNiels operand => cases answered

theorem Names.combine (operation : PointBinary) (first : left.Names left_named)
    (second : right.Names right_named) (answered : operation.apply left right = .ok total) :
    total.Names (operation.onPoint left_named right_named) := by
  cases operation with
  | add =>
      cases left <;> cases right <;> cases answered
      exact Extended.Names.add first second
  | sub =>
      cases left <;> cases right <;> cases answered
      exact Extended.Names.sub first second
  | addEntry =>
      cases left <;> cases right <;> cases answered
      exact Extended.Names.addEntry first second
  | subEntry =>
      cases left <;> cases right <;> cases answered
      exact Extended.Names.subEntry first second

theorem Names.convert (standard : curve.HasStandardConstants) {target : CoordinateSystem}
    (names : point.Names named) (answered : point.convert curve target = .ok converted) :
    converted.Names named := by
  unfold Point.convert at answered
  split at answered
  · cases answered
    exact names
  · split at answered
    · cases answered
      exact Extended.Names.toProjective names
    · cases answered
      exact Completed.Names.toProjective names
    · cases answered
      exact Completed.Names.toExtended names
    · cases answered
      exact Extended.Names.toProjectiveNiels standard names
    · cases answered

end Steps

theorem Reachable.names (standard : curve.HasStandardConstants) (reached : Reachable curve point) :
    ∃ named, point.Names named := by
  induction reached with
  | neutral system => exact ⟨0, names_neutral system⟩
  | decoded decoded =>
      obtain ⟨named, names, _⟩ := Curve.decodePoint_names standard decoded
      exact ⟨named, names⟩
  | double _ answered ih =>
      obtain ⟨named, names⟩ := ih
      exact ⟨_, names.double answered⟩
  | combine operation _ _ answered left_ih right_ih =>
      obtain ⟨left_named, first⟩ := left_ih
      obtain ⟨right_named, second⟩ := right_ih
      exact ⟨_, Names.combine operation first second answered⟩
  | convert _ answered ih =>
      obtain ⟨named, names⟩ := ih
      exact ⟨named, names.convert standard answered⟩
  | normalize _ ih =>
      obtain ⟨named, names⟩ := ih
      exact ⟨named, Extended.Names.toAffineNiels standard names⟩

/-- The formulas answer for all valid operands, and answer the valid coordinates of the sum, the
difference or the double, whose denominators do not vanish for any two points of the curve.
Conversions keep validity and the affine point, and so validity is never lost. -/
theorem operations_complete (standard : curve.HasStandardConstants) :
    (∀ left right : CurvePoint, 1 + left.cross right ≠ 0 ∧ 1 - left.cross right ≠ 0) ∧
    (∀ point : Point F, point.Valid curve →
      point.system = .projective ∨ point.system = .extended →
      ∃ twice, point.double = .ok twice ∧ (completed twice).Valid curve ∧
        (completed twice).affine = standardCurve.sum point.affine point.affine) ∧
    (∀ (operation : PointBinary) (left right : Point F), left.Valid curve → right.Valid curve →
      left.system = .extended → right.system = operation.operandSystem →
      ∃ total, operation.apply left right = .ok total ∧ (completed total).Valid curve ∧
        (completed total).affine = operation.onAffine left.affine right.affine) ∧
    (∀ (point : Point F) (target : CoordinateSystem), point.Valid curve →
      point.system.ConvertsTo target →
      ∃ converted, point.convert curve target = .ok converted ∧ converted.system = target ∧
        converted.Valid curve ∧ converted.affine = point.affine) ∧
    ∀ point : Point F, Reachable curve point → point.Valid curve := by
  refine ⟨fun left right => ⟨left.one_add_cross_ne_zero right, left.one_sub_cross_ne_zero right⟩,
    ?_, ?_, ?_, ?_⟩
  · intro point valid fits
    obtain ⟨named, names⟩ := (valid_iff_names standard point).mp valid
    obtain ⟨twice, answered⟩ := exists_double fits
    have doubled : (completed twice).Names (named + named) := names.double answered
    refine ⟨twice, answered, (valid_iff_names standard _).mpr ⟨_, doubled⟩, ?_⟩
    rw [doubled.affine_eq, names.affine_eq, EdwardsPoint.pair_add]
  · intro operation left right left_valid right_valid left_fits right_fits
    obtain ⟨left_named, first⟩ := (valid_iff_names standard left).mp left_valid
    obtain ⟨right_named, second⟩ := (valid_iff_names standard right).mp right_valid
    obtain ⟨total, answered⟩ := exists_combine operation left_fits right_fits
    have combined : (completed total).Names (operation.onPoint left_named right_named) :=
      Names.combine operation first second answered
    refine ⟨total, answered, (valid_iff_names standard _).mpr ⟨_, combined⟩, ?_⟩
    rw [combined.affine_eq, first.affine_eq, second.affine_eq, operation.pair_onPoint]
  · intro point target valid legal
    obtain ⟨named, names⟩ := (valid_iff_names standard point).mp valid
    obtain ⟨converted, answered, reached⟩ := exists_convert legal
    have kept := names.convert standard answered
    refine ⟨converted, answered, reached, (valid_iff_names standard _).mpr ⟨named, kept⟩, ?_⟩
    rw [kept.affine_eq, names.affine_eq]
  · intro point reached
    exact (valid_iff_names standard point).mpr (reached.names standard)

/-- The point of order two is its own negative: it is doubled, added to itself and normalized. -/
theorem operations_complete_order_two :
    let curve : Curve LimbElement := .standard
    let point : Extended LimbElement := .orderTwo
    point.Valid ∧
      (∃ twice, (extended point).double = .ok twice ∧ (completed twice).affine = (0, 1)) ∧
      (∃ operand total, (extended point).convert curve .projectiveNiels = .ok operand ∧
        PointBinary.add.apply (extended point) operand = .ok total ∧
        (completed total).Valid curve ∧ (completed total).affine = (0, 1)) ∧
      (neutral .affineNiels : Point LimbElement).Valid curve := by
  intro curve point
  have standard : curve.HasStandardConstants := Curve.standard_hasStandardConstants
  have valid : (extended point).Valid curve := Extended.orderTwo_valid
  have neutral_sum : standardCurve.sum (extended point).affine (extended point).affine = (0, 1) := by
    simp [affine, point, Extended.orderTwo, EdwardsCurve.sum, EdwardsCurve.cross]
  obtain ⟨_, double, combine, convert, reachable⟩ := operations_complete standard
  obtain ⟨twice, doubled, _, twice_affine⟩ := double (extended point) valid (Or.inr rfl)
  obtain ⟨operand, converted, fits, operand_valid, operand_affine⟩ :=
    convert (extended point) .projectiveNiels valid .extendedToProjectiveNiels
  obtain ⟨total, added, total_valid, total_affine⟩ :=
    combine .add (extended point) operand valid operand_valid rfl fits
  refine ⟨valid, ⟨twice, doubled, twice_affine.trans neutral_sum⟩,
    ⟨operand, total, converted, added, total_valid, ?_⟩, reachable _ (.neutral .affineNiels)⟩
  rw [total_affine, operand_affine]
  exact neutral_sum

end Point

end EdwardsSignature
