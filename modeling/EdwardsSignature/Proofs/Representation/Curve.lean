import Mathlib
import EdwardsSignature.Curve.Naive
import EdwardsSignature.Curve.Point
import EdwardsSignature.Curve.TabledPoint
import EdwardsSignature.Parameters.Description
import EdwardsSignature.Proofs.Representation.FieldHom

/-! Points under a change of the representation.

Every operation on points commutes with changing all coordinates, whether or not they are
those of a point on the curve; what is decided about points stays as it was. -/

set_option autoImplicit false

namespace EdwardsSignature

variable {F G : Type} [BaseField F] [BaseField G] (hom : FieldHom F G)

namespace Curve

def map (curve : Curve F) : Curve G where
  field := curve.field
  d := hom curve.d
  rootOfMinusOne := hom curve.rootOfMinusOne
  twiceD := hom curve.twiceD
  twiceD_eq := by rw [curve.twiceD_eq, hom.map_add]

theorem map_standard : (standard : Curve F).map hom = standard := by
  simp [standard, map]

theorem ofBytes_eq_map (field : FieldParameters) (d root : Bytes) :
    (ofBytes field d root : Except Rejection (Curve G)) =
      map hom <$> (ofBytes field d root : Except Rejection (Curve F)) := by
  simp [ofBytes, BaseField.decode_eq_map hom, map]

theorem ofDescription_eq_map (description : CurveDescription) :
    (ofDescription description : Except Rejection (Curve G)) =
      map hom <$> (ofDescription description : Except Rejection (Curve F)) := by
  unfold ofDescription
  cases FieldParameters.ofBytes description.width description.modulus with
  | error cause => rfl
  | ok field => exact ofBytes_eq_map hom field description.d description.rootOfMinusOne

end Curve

section Coordinates

@[simp] theorem Projective.map_neutral : (neutral : Projective F).map hom = neutral := by
  simp [neutral, map]

@[simp] theorem Completed.map_neutral : (neutral : Completed F).map hom = neutral := by
  simp [neutral, map]

@[simp] theorem AffineNiels.map_neutral : (neutral : AffineNiels F).map hom = neutral := by
  simp [neutral, map]

@[simp] theorem ProjectiveNiels.map_neutral :
    (neutral : ProjectiveNiels F).map hom = neutral := by
  simp [neutral, map]

@[simp] theorem Extended.map_neutral : (neutral : Extended F).map hom = neutral := by
  simp [neutral, map]

@[simp] theorem Completed.toProjective_map (point : Completed F) :
    (point.map hom).toProjective = point.toProjective.map hom := by
  simp [toProjective, map, Projective.map]

@[simp] theorem Completed.toExtended_map (point : Completed F) :
    (point.map hom).toExtended = point.toExtended.map hom := by
  simp [toExtended, map, Extended.map]

@[simp] theorem AffineNiels.select_map (unset set : AffineNiels F) (bit : UInt8) :
    (unset.map hom).select (set.map hom) bit = (unset.select set bit).map hom := by
  simp [select, map]

@[simp] theorem AffineNiels.negate_map (entry : AffineNiels F) :
    (entry.map hom).negate = entry.negate.map hom := by
  simp [negate, map]

variable (curve : Curve F) (point : Extended F)

@[simp] theorem Extended.toProjective_map :
    (point.map hom).toProjective = point.toProjective.map hom := rfl

@[simp] theorem Extended.toProjectiveNiels_map :
    (point.map hom).toProjectiveNiels (curve.map hom) =
      (point.toProjectiveNiels curve).map hom := by
  simp [toProjectiveNiels, map, ProjectiveNiels.map, Curve.map]

@[simp] theorem Extended.toAffineNiels_map :
    (point.map hom).toAffineNiels (curve.map hom) = (point.toAffineNiels curve).map hom := by
  simp [toAffineNiels, map, AffineNiels.map, Curve.map]

end Coordinates

section Formulas

@[simp] theorem Projective.double_map (point : Projective F) :
    (point.map hom).double = point.double.map hom := by
  simp [double, map, Completed.map]

namespace Extended

variable (curve : Curve F) (point other : Extended F) (entry : AffineNiels F)
  (operand : ProjectiveNiels F)

@[simp] theorem double_map : (point.map hom).double = point.double.map hom :=
  Projective.double_map hom point.toProjective

@[simp] theorem addEntry_map :
    (point.map hom).addEntry (entry.map hom) = (point.addEntry entry).map hom := by
  simp [addEntry, map, AffineNiels.map, Completed.map]

@[simp] theorem subEntry_map :
    (point.map hom).subEntry (entry.map hom) = (point.subEntry entry).map hom := by
  simp [subEntry, map, AffineNiels.map, Completed.map]

@[simp] theorem add_map : (point.map hom).add (operand.map hom) = (point.add operand).map hom := by
  simp [add, map, ProjectiveNiels.map, Completed.map]

@[simp] theorem sub_map : (point.map hom).sub (operand.map hom) = (point.sub operand).map hom := by
  simp [sub, map, ProjectiveNiels.map, Completed.map]

@[simp] theorem plus_map :
    (point.map hom).plus (curve.map hom) (other.map hom) = (point.plus curve other).map hom := by
  simp [plus]

@[simp] theorem negate_map :
    (point.map hom).negate (curve.map hom) = (point.negate curve).map hom := by
  rw [negate, negate, toProjectiveNiels_map, ← map_neutral hom, sub_map, Completed.toExtended_map]

end Extended

theorem ProjectiveNiels.multiplyNaive_map (operand : ProjectiveNiels F) (scalar : Bytes) :
    (operand.map hom).multiplyNaive scalar = (operand.multiplyNaive scalar).map hom := by
  rw [multiplyNaive, multiplyNaive, ← Extended.map_neutral hom]
  apply List.foldl_hom
  intro total bit
  cases bit with
  | false => simp [multiplyStep]
  | true => simp [multiplyStep]

end Formulas

section Encoding

variable (curve : Curve F)

namespace Projective

variable (point other : Projective F)

theorem affine_map : (point.map hom).affine = (hom point.affine.1, hom point.affine.2) := by
  simp [affine, map]

@[simp] theorem encode_map : (point.map hom).encode = point.encode := by
  simp only [encode, affine_map, hom.toBlock_map, BaseField.isNegative_map]

@[simp] theorem isOnCurve_map : (point.map hom).isOnCurve (curve.map hom) = point.isOnCurve curve := by
  have sides := BaseField.equal_map hom
    (1 + curve.d * BaseField.square point.affine.1 * BaseField.square point.affine.2 +
      BaseField.square point.affine.1) (BaseField.square point.affine.2)
  simpa [isOnCurve, affine_map, Curve.map] using sides

@[simp] theorem equal_map : (point.map hom).equal (other.map hom) = point.equal other := by
  simp only [equal, map, BaseField.equal_map, ← hom.map_mul]

end Projective

@[simp] theorem Extended.encode_map (point : Extended F) : (point.map hom).encode = point.encode :=
  Projective.encode_map hom point.toProjective

@[simp] theorem Extended.isOnCurve_map (point : Extended F) :
    (point.map hom).isOnCurve (curve.map hom) = point.isOnCurve curve :=
  Projective.isOnCurve_map hom curve point.toProjective

namespace Curve

theorem recoverX_map (y : F) : (curve.map hom).recoverX (hom y) = (curve.recoverX y).map hom := by
  simp only [recoverX, map, ← hom.map_one, ← hom.map_square, ← hom.map_mul, ← hom.map_add,
    ← hom.map_sub, ← hom.map_rootPower, hom.isNonZero_map]
  split
  · split <;> rfl
  · rfl

theorem decodePoint_eq_map (bytes : Bytes) :
    (curve.map hom).decodePoint bytes = Extended.map hom <$> curve.decodePoint bytes := by
  unfold decodePoint
  cases Block.ofBytes? 32 bytes with
  | none => rfl
  | some block =>
      simp only [← hom.map_ofBlock, recoverX_map]
      cases curve.recoverX (BaseField.ofBlock block) with
      | none => rfl
      | some root =>
          simp only [Option.map_some, BaseField.isNegative_map]
          split <;> simp [Extended.map]

end Curve

end Encoding

end EdwardsSignature
