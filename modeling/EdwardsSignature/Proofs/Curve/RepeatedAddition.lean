import Mathlib
import EdwardsSignature.Field.LimbElement
import EdwardsSignature.Proofs.Curve.GroupLaws
import EdwardsSignature.Proofs.Curve.TabledMultiples
import EdwardsSignature.Proofs.Field.LimbElement

/-! Double-and-add is repeated addition.

The multiple by a string of bytes is the point added to itself as many times as the string's
number says, whatever the string's length. So zeros above it do not matter, and multiples of
multiples are multiples by products. -/

set_option autoImplicit false

namespace EdwardsSignature

namespace Bytes

theorem toNat_replicate_zero (count : Nat) : toNat (List.replicate count 0) = 0 := by
  induction count with
  | zero => rfl
  | succ count ih => rw [List.replicate_succ, toNat, ih, UInt8.toNat_zero]

theorem toNat_append_zeros (bytes : Bytes) (count : Nat) :
    toNat (bytes ++ List.replicate count 0) = toNat bytes := by
  rw [toNat_append, toNat_replicate_zero, Nat.mul_zero, Nat.add_zero]

end Bytes

variable {F : Type} [BaseField F]

/-- The neutral point with an operand added to it a number of times. -/
def ProjectiveNiels.addRepeatedly (operand : ProjectiveNiels F) : Nat → Extended F
  | 0 => .neutral
  | count + 1 => ((operand.addRepeatedly count).add operand).toExtended

namespace Point

/-- Points in the systems that a multiplication takes: extended ones and the operands that are
made from them. -/
def IsMultiplicand : Point F → Prop
  | extended _ | projectiveNiels _ => True
  | projective _ | completed _ | affineNiels _ => False

variable {curve : Curve F} {point : Point F} {operand : ProjectiveNiels F}

theorem multiplyNaive_of_operand (converted : point.toProjectiveNiels curve = .ok operand)
    (scalar : Bytes) : point.multiplyNaive curve scalar = .ok (operand.multiplyNaive scalar) := by
  rw [multiplyNaive, converted]
  rfl

end Point

variable [LawfulBaseField F] {curve : Curve F} {named : CurvePoint}

theorem ProjectiveNiels.Names.addRepeatedly {operand : ProjectiveNiels F}
    (names : operand.Names named) (count : Nat) :
    (operand.addRepeatedly count).Names (count • named) := by
  induction count with
  | zero =>
      rw [zero_nsmul]
      exact Extended.names_neutral
  | succ count ih =>
      rw [succ_nsmul]
      exact (ih.add names).toExtended

namespace Point

variable {point : Point F}

theorem Names.exists_operand (standard : curve.HasStandardConstants) (names : point.Names named)
    (multiplicand : point.IsMultiplicand) :
    ∃ operand, point.toProjectiveNiels curve = .ok operand ∧ operand.Names named := by
  cases point with
  | extended point => exact ⟨_, rfl, Extended.Names.toProjectiveNiels standard names⟩
  | projectiveNiels operand => exact ⟨operand, rfl, names⟩
  | projective | completed | affineNiels => cases multiplicand

/-- Multiplying twice names the multiple by the product. -/
theorem multiplyNaive_multiplyNaive (standard : curve.HasStandardConstants)
    {operand : ProjectiveNiels F} (names : operand.Names named)
    {scalar other joined : Bytes}
    (product : Bytes.toNat joined = Bytes.toNat scalar * Bytes.toNat other) :
    ∃ twice, (extended (operand.multiplyNaive scalar)).multiplyNaive curve other = .ok twice ∧
      twice.Same (operand.multiplyNaive joined) := by
  obtain ⟨twice, multiplied, twice_names⟩ :=
    (names.multiplyNaive scalar).multiplyNaive standard other
  have once_names := names.multiplyNaive joined
  rw [product, mul_nsmul] at once_names
  exact ⟨twice, multiplied, twice_names.same once_names⟩

/-- Double-and-add answers, for every valid point and for a string of any length, a valid point:
the sum of as many copies of the point as the string's number says. No copies give the neutral
point, zeros at the top of the string change nothing, and multiplying by one number and then by
another is multiplying by their product. -/
theorem multiplyNaive_exact (standard : curve.HasStandardConstants) (valid : point.Valid curve)
    (multiplicand : point.IsMultiplicand) :
    ∃ (operand : ProjectiveNiels F) (named : CurvePoint),
      point.toProjectiveNiels curve = .ok operand ∧ named.pair = point.affine ∧
      point.multiplyNaive curve [] = .ok .neutral ∧
      ∀ scalar : Bytes, ∃ product, point.multiplyNaive curve scalar = .ok product ∧
        product.Valid ∧
        (extended product).affine = (Bytes.toNat scalar • named).pair ∧
        product.Same (operand.addRepeatedly (Bytes.toNat scalar)) ∧
        (Bytes.toNat scalar = 0 → product.Same .neutral) ∧
        (∀ count, ∃ padded,
          point.multiplyNaive curve (scalar ++ List.replicate count 0) = .ok padded ∧
          padded.Same product) ∧
        ∀ other joined : Bytes, Bytes.toNat joined = Bytes.toNat scalar * Bytes.toNat other →
          ∃ twice once, (extended product).multiplyNaive curve other = .ok twice ∧
            point.multiplyNaive curve joined = .ok once ∧ twice.Same once := by
  obtain ⟨named, names⟩ := (valid_iff_names standard point).mp valid
  obtain ⟨operand, converted, operand_names⟩ := names.exists_operand standard multiplicand
  refine ⟨operand, named, converted, names.affine_eq.symm, multiplyNaive_of_operand converted [],
    ?_⟩
  intro scalar
  have product_names := operand_names.multiplyNaive scalar
  refine ⟨operand.multiplyNaive scalar, multiplyNaive_of_operand converted scalar,
    product_names.valid, product_names.affine_eq,
    product_names.same (operand_names.addRepeatedly _), ?_, ?_, ?_⟩
  · intro zero
    rw [zero, zero_nsmul] at product_names
    exact product_names.same Extended.names_neutral
  · intro count
    have padded_names := operand_names.multiplyNaive (scalar ++ List.replicate count 0)
    rw [Bytes.toNat_append_zeros] at padded_names
    exact ⟨_, multiplyNaive_of_operand converted _, padded_names.same product_names⟩
  · intro other joined number
    obtain ⟨twice, multiplied, same⟩ := multiplyNaive_multiplyNaive standard operand_names number
    exact ⟨twice, _, multiplied, multiplyNaive_of_operand converted joined, same⟩

/-- The operand of the point of order two, three times and then a hundred times. -/
theorem multiplyNaive_exact_order_two :
    let curve : Curve LimbElement := .standard
    let point : Point LimbElement := .projectiveNiels (Extended.orderTwo.toProjectiveNiels curve)
    ∃ product padded twice once, point.multiplyNaive curve [3] = .ok product ∧ product.Valid ∧
      (extended product).affine = (0, -1) ∧
      point.multiplyNaive curve [3, 0, 0] = .ok padded ∧ padded.Same product ∧
      (extended product).multiplyNaive curve [100] = .ok twice ∧
      point.multiplyNaive curve [44, 1] = .ok once ∧ twice.Same once := by
  intro curve point
  have standard : curve.HasStandardConstants := Curve.standard_hasStandardConstants
  have point_valid : (Extended.orderTwo : Extended LimbElement).Valid := Extended.orderTwo_valid
  have operand_names := point_valid.names.toProjectiveNiels standard
  have valid : point.Valid curve := operand_names.valid standard
  obtain ⟨operand, named, _, affine_eq, _, multiples⟩ :=
    multiplyNaive_exact standard valid trivial
  obtain ⟨product, multiplied, product_valid, product_affine, _, _, pads, multiplies⟩ :=
    multiples [3]
  obtain ⟨padded, padded_multiplied, padded_same⟩ := pads 2
  obtain ⟨twice, once, twice_multiplied, once_multiplied, same⟩ :=
    multiplies [100] [44, 1] (by decide)
  have named_eq : named = point_valid.curvePoint := by
    rw [← EdwardsPoint.pair_inj, affine_eq]
    exact operand_names.affine_eq
  have odd : Bytes.toNat [3] • named = point_valid.curvePoint := by
    rw [named_eq]
    exact Extended.odd_nsmul_orderTwo 1
  refine ⟨product, padded, twice, once, multiplied, product_valid, ?_, padded_multiplied,
    padded_same, twice_multiplied, once_multiplied, same⟩
  rw [product_affine, odd]
  simp [EdwardsPoint.pair, Extended.Valid.curvePoint, Extended.orderTwo]

end Point

end EdwardsSignature
