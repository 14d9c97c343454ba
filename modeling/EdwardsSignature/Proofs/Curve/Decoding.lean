import Mathlib
import EdwardsSignature.Field.LimbElement
import EdwardsSignature.Proofs.Curve.Validity
import EdwardsSignature.Proofs.Field.LimbElement

/-! What decodes to a point, to which one, and which of its encodings are canonical.

A point has more than one encoding when its `y` is small enough to be written with the prime
added, or when its `x` is zero and so has no sign. -/

set_option autoImplicit false

namespace EdwardsSignature

namespace Block

/-- The `y` that a point encoding writes in its low 255 bits. -/
def writtenY (block : Block 32) : ZMod fieldPrime := (block.toNat % 2 ^ 255 : Nat)

/-- The sign of `x` in a point encoding. -/
def signBit (block : Block 32) : Nat := block.toNat / 2 ^ 255

theorem signBit_le_one (block : Block 32) : block.signBit ≤ 1 := by
  have bound := block.toNat_lt
  unfold signBit
  omega

end Block

namespace EdwardsPoint

/-- A point that agrees with an encoding up to the prime and up to the sign of zero encodes back to
it when there is nothing to agree up to. -/
theorem encode_eq_iff {point : CurvePoint} {block : Block 32} (y_eq : point.y = block.writtenY)
    (sign : point.x = 0 ∨ point.x.val % 2 = block.signBit) :
    point.encode = block ↔
      block.toNat % 2 ^ 255 < fieldPrime ∧ ¬(point.x = 0 ∧ block.signBit = 1) := by
  have parts := Nat.div_add_mod block.toNat (2 ^ 255)
  have y_val : point.y.val = block.toNat % 2 ^ 255 % fieldPrime := by
    rw [y_eq, Block.writtenY, ZMod.val_natCast]
  have y_below := val_lt_two_pow_255 point.y
  have bit := block.signBit_le_one
  have numbers : point.encode = block ↔
      point.y.val = block.toNat % 2 ^ 255 ∧ point.x.val % 2 = block.signBit := by
    constructor
    · intro same
      have number := congrArg Block.toNat same
      rw [toNat_encode] at number
      unfold Block.signBit
      omega
    · rintro ⟨low, high⟩
      apply Block.toNat_injective
      rw [toNat_encode, low, high, Block.signBit]
      omega
  have canonical : point.y.val = block.toNat % 2 ^ 255 ↔ block.toNat % 2 ^ 255 < fieldPrime := by
    rw [y_val]
    constructor
    · intro same
      rw [← same]
      exact Nat.mod_lt _ (by decide)
    · exact Nat.mod_eq_of_lt
  rw [numbers, canonical]
  refine and_congr_right fun _ => ?_
  obtain zero | parity := sign
  · simp only [zero, ZMod.val_zero, true_and]
    omega
  · constructor
    · rintro _ ⟨zero, set⟩
      rw [zero, ZMod.val_zero, set] at parity
      contradiction
    · intro _
      exact parity

end EdwardsPoint

variable {F : Type} [BaseField F]

theorem Curve.decodePoint_of_length_ne (curve : Curve F) {bytes : Bytes}
    (different : bytes.length ≠ 32) :
    curve.decodePoint bytes = .error (.invalidLength 32 bytes.length) := by
  rw [decodePoint, Block.ofBytes?_eq_none_iff.mpr different]

/-- A block of the right length decodes to normalized coordinates or names no point. -/
theorem Curve.decodePoint_toList (curve : Curve F) (block : Block 32) :
    (∃ x, curve.decodePoint block.toList =
        .ok ⟨x, BaseField.ofBlock block, 1, x * BaseField.ofBlock block⟩) ∨
      curve.decodePoint block.toList = .error .invalidPoint := by
  rw [decodePoint, Block.ofBytes?_toList]
  cases recovered : curve.recoverX (BaseField.ofBlock block) with
  | none =>
      right
      simp only [recovered]
  | some root =>
      left
      simp only [recovered]
      exact ⟨_, rfl⟩

variable [LawfulBaseField F]

/-- Normalized coordinates of a curve point with the `y` and the sign that an encoding writes. -/
structure Extended.IsWrittenBy (point : Extended F) (block : Block 32) : Prop where
  onCurve : standardCurve.Contains (value point.x) block.writtenY
  y_eq : value point.y = block.writtenY
  z_eq : point.z = 1
  t_eq : point.t = point.x * point.y
  sign : value point.x = 0 ∨ (value point.x).val % 2 = block.signBit

namespace Curve

variable {curve : Curve F} {block : Block 32} {point : Extended F}

theorem decodePoint_isWrittenBy (standard : curve.HasStandardConstants)
    (decoded : curve.decodePoint block.toList = .ok point) :
    point.IsWrittenBy block ∧ ∃ named, point.Names named ∧ named.x = value point.x ∧
      named.y = block.writtenY := by
  obtain ⟨named, names, _, y_eq, sign⟩ := decodePoint_names standard decoded
  obtain ⟨x, normalized⟩ | refused := curve.decodePoint_toList block
  · obtain rfl := Except.ok.inj (decoded.symm.trans normalized)
    have x_eq := names.x_eq
    rw [LawfulBaseField.value_one, mul_one] at x_eq
    refine ⟨⟨?_, ?_, rfl, rfl, ?_⟩, named, names, x_eq.symm, y_eq⟩
    · have equation := named.equation
      rw [← x_eq, y_eq] at equation
      exact equation
    · exact LawfulBaseField.value_ofBlock block
    · rw [← x_eq] at sign
      exact sign
  · rw [refused] at decoded
    cases decoded

theorem decodePoint_isOk_iff (standard : curve.HasStandardConstants) (block : Block 32) :
    (∃ point, curve.decodePoint block.toList = .ok point) ↔
      ∃ x, standardCurve.Contains x block.writtenY := by
  constructor
  · rintro ⟨point, decoded⟩
    exact ⟨_, (decodePoint_isWrittenBy standard decoded).1.onCurve⟩
  · rintro ⟨x, contained⟩
    have length : block.toList.length = 32 := Vector.length_toList
    exact decodePoint_of_root standard length (standardCurve.contains_iff_root.mp contained)

end Curve

namespace Point

variable {curve : Curve F} {left right : Point F} {left_named right_named : CurvePoint}

theorem Names.encode_eq_iff (first : left.Names left_named) (second : right.Names right_named)
    (left_working : left.IsWorking) (right_working : right.IsWorking) :
    left.encode = right.encode ↔ left.affine = right.affine := by
  rw [first.encode_eq left_working, second.encode_eq right_working, first.affine_eq,
    second.affine_eq, EdwardsPoint.pair_inj, Except.ok.injEq]
  constructor
  · exact EdwardsPoint.encode_injective
  · intro same
    rw [same]

/-- Encoding a point and decoding leads back to the point. -/
theorem Names.decode_encode (standard : curve.HasStandardConstants) (names : left.Names left_named)
    (working : left.IsWorking) :
    ∃ encoding decoded, left.encode = .ok encoding ∧
      curve.decodePoint encoding.toList = .ok decoded ∧
      (extended decoded).equal left = true ∧ (extended decoded).affine = left.affine := by
  obtain ⟨decoded, accepted, decoded_names⟩ := Curve.decodePoint_encode standard left_named
  have same : (extended decoded).Names left_named := decoded_names
  exact ⟨left_named.encode, decoded, names.encode_eq working, accepted,
    (same.equal_iff names trivial working).mpr rfl, same.affine_eq.trans names.affine_eq.symm⟩

end Point

namespace Curve

variable {curve : Curve F}

/-- Decoding accepts the blocks whose `y` belongs to a point of the curve, and answers that point
with the sign that they write. Encoding leads back to the point, and from the point back to the
block exactly when the block is canonical; it tells all points apart. -/
theorem decoding_exact (standard : curve.HasStandardConstants) :
    (∀ bytes : Bytes, bytes.length ≠ 32 →
      curve.decodePoint bytes = .error (.invalidLength 32 bytes.length)) ∧
    (∀ block : Block 32,
      ((∃ point, curve.decodePoint block.toList = .ok point) ↔
        ∃ x, standardCurve.Contains x block.writtenY) ∧
      ((¬∃ x, standardCurve.Contains x block.writtenY) →
        curve.decodePoint block.toList = .error .invalidPoint) ∧
      ∀ point, curve.decodePoint block.toList = .ok point →
        point.IsWrittenBy block ∧ point.Valid ∧
        (point.encode = block ↔ block.toNat % 2 ^ 255 < fieldPrime ∧
          ¬(value point.x = 0 ∧ block.signBit = 1))) ∧
    (∀ point : Point F, point.Valid curve → point.IsWorking →
      ∃ encoding decoded, point.encode = .ok encoding ∧
        curve.decodePoint encoding.toList = .ok decoded ∧
        (Point.extended decoded).equal point = true ∧
        (Point.extended decoded).affine = point.affine) ∧
    ∀ left right : Point F, left.Valid curve → right.Valid curve →
      left.IsWorking → right.IsWorking →
      (left.encode = right.encode ↔ left.affine = right.affine) := by
  refine ⟨fun bytes => curve.decodePoint_of_length_ne, ?_, ?_, ?_⟩
  · intro block
    have accepted := decodePoint_isOk_iff standard block
    refine ⟨accepted, ?_, ?_⟩
    · intro none
      obtain ⟨x, decoded⟩ | refused := curve.decodePoint_toList block
      · exact absurd (accepted.mp ⟨_, decoded⟩) none
      · exact refused
    · intro point decoded
      obtain ⟨written, named, names, x_eq, y_eq⟩ := decodePoint_isWrittenBy standard decoded
      have sign := written.sign
      rw [← x_eq] at sign ⊢
      refine ⟨written, names.valid, ?_⟩
      rw [names.encode_eq]
      exact EdwardsPoint.encode_eq_iff y_eq sign
  · intro point valid working
    obtain ⟨named, names⟩ := (Point.valid_iff_names standard point).mp valid
    exact names.decode_encode standard working
  · intro left right left_valid right_valid left_working right_working
    obtain ⟨left_named, first⟩ := (Point.valid_iff_names standard left).mp left_valid
    obtain ⟨right_named, second⟩ := (Point.valid_iff_names standard right).mp right_valid
    exact first.encode_eq_iff second left_working right_working

/-- One more than the prime writes the `y` of the neutral point, but not canonically. -/
theorem decoding_exact_above_prime :
    let curve : Curve LimbElement := .standard
    let block := Block.ofNat 32 (fieldPrime + 1)
    curve.decodePoint [] = .error (.invalidLength 32 0) ∧
    (∃ point, curve.decodePoint block.toList = .ok point ∧ point.IsWrittenBy block ∧
      point.encode ≠ block) ∧
    ∃ encoding decoded, (Point.extended .orderTwo : Point LimbElement).encode = .ok encoding ∧
      curve.decodePoint encoding.toList = .ok decoded ∧
      (Point.extended decoded).equal (.extended .orderTwo) = true := by
  intro curve block
  have standard : curve.HasStandardConstants := Curve.standard_hasStandardConstants
  obtain ⟨length, blocks, points, _⟩ := decoding_exact standard
  obtain ⟨accepted, _, decodes⟩ := blocks block
  have number : block.toNat % 2 ^ 255 = fieldPrime + 1 := by
    rw [Block.toNat_ofNat_of_lt (by decide)]
    decide
  have one : block.writtenY = 1 := by
    rw [Block.writtenY, number, Nat.cast_add, ZMod.natCast_self, Nat.cast_one, zero_add]
  have contained : standardCurve.Contains 0 block.writtenY := by
    rw [one, EdwardsCurve.contains_iff_root]
    ring
  obtain ⟨point, decoded⟩ := accepted.mpr ⟨0, contained⟩
  obtain ⟨written, _, canonical⟩ := decodes point decoded
  obtain ⟨encoding, back, encoded, back_decoded, same, _⟩ :=
    points (.extended .orderTwo) Extended.orderTwo_valid trivial
  refine ⟨length [] (by decide), ⟨point, decoded, written, ?_⟩,
    encoding, back, encoded, back_decoded, same⟩
  intro agrees
  obtain ⟨below, _⟩ := canonical.mp agrees
  rw [number] at below
  omega

end Curve

end EdwardsSignature
