import Mathlib
import EdwardsSignature.Proofs.Representation.TabledPoint

/-! Points of any coordinate system under a change of the representation.

Which operations a point has depends on its coordinate system alone, so the changed point is
refused whatever the point is refused, for the same cause. -/

set_option autoImplicit false

namespace EdwardsSignature.Point

variable {F G : Type} [BaseField F] [BaseField G] (hom : FieldHom F G)

@[simp] theorem map_projective (point : Projective F) :
    (projective point).map hom = projective (point.map hom) := rfl

@[simp] theorem map_extended (point : Extended F) :
    (extended point).map hom = extended (point.map hom) := rfl

@[simp] theorem map_completed (point : Completed F) :
    (completed point).map hom = completed (point.map hom) := rfl

@[simp] theorem map_affineNiels (entry : AffineNiels F) :
    (affineNiels entry).map hom = affineNiels (entry.map hom) := rfl

@[simp] theorem map_projectiveNiels (operand : ProjectiveNiels F) :
    (projectiveNiels operand).map hom = projectiveNiels (operand.map hom) := rfl

theorem coordinates_map (point : Point F) :
    (point.map hom).coordinates =
      point.coordinates.map fun named => (named.1, hom named.2) := by
  cases point <;> rfl

theorem coordinateBlocks_map (point : Point F) :
    (point.map hom).coordinateBlocks = point.coordinateBlocks := by
  cases point <;>
    simp [coordinateBlocks, map, Projective.map, Extended.map, Completed.map, AffineNiels.map,
      ProjectiveNiels.map]

theorem map_neutral (system : CoordinateSystem) :
    (neutral system : Point F).map hom = neutral system := by
  cases system <;> simp [neutral]

section Gathering

variable {A ε : Type} {read : A → Except ε F} {changed : A → Except ε G}

theorem mapM_eq_map (agree : ∀ source, changed source = hom <$> read source) (point : Point A) :
    point.mapM changed = map hom <$> point.mapM read := by
  cases point with
  | projective point => simp [mapM, Projective.mapM, agree, Projective.map]
  | extended point => simp [mapM, Extended.mapM, agree, Extended.map]
  | completed point => simp [mapM, Completed.mapM, agree, Completed.map]
  | affineNiels entry => simp [mapM, AffineNiels.mapM, agree, AffineNiels.map]
  | projectiveNiels operand => simp [mapM, ProjectiveNiels.mapM, agree, ProjectiveNiels.map]

theorem decode_eq_map (encoded : Point Bytes) :
    (decode encoded : Except Rejection (Point G)) =
      map hom <$> (decode encoded : Except Rejection (Point F)) :=
  mapM_eq_map hom (BaseField.decode_eq_map hom) encoded

end Gathering

section Operations

variable (curve : Curve F) (point other : Point F)

theorem toProjective_eq_map :
    (point.map hom).toProjective = Projective.map hom <$> point.toProjective := by
  cases point with
  | completed point => exact congrArg Except.ok (Completed.toProjective_map hom point)
  | _ => rfl

theorem toExtended_eq_map :
    (point.map hom).toExtended = Extended.map hom <$> point.toExtended := by
  cases point with
  | completed point => exact congrArg Except.ok (Completed.toExtended_map hom point)
  | _ => rfl

theorem toProjectiveNiels_eq_map :
    (point.map hom).toProjectiveNiels (curve.map hom) =
      ProjectiveNiels.map hom <$> point.toProjectiveNiels curve := by
  cases point with
  | extended point => exact congrArg Except.ok (Extended.toProjectiveNiels_map hom curve point)
  | _ => rfl

theorem convert_eq_map (target : CoordinateSystem) :
    (point.map hom).convert (curve.map hom) target = map hom <$> point.convert curve target := by
  cases point <;> cases target <;> simp [convert, system]

theorem convertExtended_eq_map :
    (point.map hom).convertExtended = Extended.map hom <$> point.convertExtended := by
  cases point with
  | completed point => exact congrArg Except.ok (Completed.toExtended_map hom point)
  | _ => rfl

theorem encode_map : (point.map hom).encode = point.encode := by
  cases point with
  | projective point => exact congrArg Except.ok (Projective.encode_map hom point)
  | extended point => exact congrArg Except.ok (Extended.encode_map hom point)
  | completed point =>
      simp only [map_completed, encode, Completed.toProjective_map, Projective.encode_map]
  | _ => rfl

theorem isOnCurve_map : (point.map hom).isOnCurve (curve.map hom) = point.isOnCurve curve := by
  cases point with
  | projective point => exact congrArg Except.ok (Projective.isOnCurve_map hom curve point)
  | extended point => exact congrArg Except.ok (Extended.isOnCurve_map hom curve point)
  | completed point =>
      simp only [map_completed, isOnCurve, Completed.toProjective_map, Projective.isOnCurve_map]
  | _ => rfl

theorem double_eq_map : (point.map hom).double = Completed.map hom <$> point.double := by
  cases point with
  | projective point => exact congrArg Except.ok (Projective.double_map hom point)
  | extended point => exact congrArg Except.ok (Extended.double_map hom point)
  | _ => rfl

theorem mixedOperands_eq_map :
    mixedOperands (point.map hom) (other.map hom) =
      Prod.map (Extended.map hom) (AffineNiels.map hom) <$> mixedOperands point other := by
  cases point with
  | extended point => cases other <;> rfl
  | _ => rfl

theorem operands_eq_map :
    operands (point.map hom) (other.map hom) =
      Prod.map (Extended.map hom) (ProjectiveNiels.map hom) <$> operands point other := by
  cases point with
  | extended point => cases other <;> rfl
  | _ => rfl

theorem addEntry_eq_map :
    (point.map hom).addEntry (other.map hom) = Completed.map hom <$> point.addEntry other := by
  simp [addEntry, mixedOperands_eq_map]

theorem subEntry_eq_map :
    (point.map hom).subEntry (other.map hom) = Completed.map hom <$> point.subEntry other := by
  simp [subEntry, mixedOperands_eq_map]

theorem add_eq_map :
    (point.map hom).add (other.map hom) = Completed.map hom <$> point.add other := by
  simp [add, operands_eq_map]

theorem sub_eq_map :
    (point.map hom).sub (other.map hom) = Completed.map hom <$> point.sub other := by
  simp [sub, operands_eq_map]

theorem negate_eq_map :
    (point.map hom).negate (curve.map hom) = Extended.map hom <$> point.negate curve := by
  cases point with
  | extended point => exact congrArg Except.ok (Extended.negate_map hom curve point)
  | _ => rfl

theorem multiplyNaive_eq_map (scalar : Bytes) :
    (point.map hom).multiplyNaive (curve.map hom) scalar =
      Extended.map hom <$> point.multiplyNaive curve scalar := by
  rw [multiplyNaive, multiplyNaive, toProjectiveNiels_eq_map]
  cases point.toProjectiveNiels curve with
  | error cause => rfl
  | ok operand => exact congrArg Except.ok (ProjectiveNiels.multiplyNaive_map hom operand scalar)

theorem equalEntries_map (left right : AffineNiels F) :
    equalEntries (left.map hom) (right.map hom) = equalEntries left right := by
  simp only [equalEntries, AffineNiels.map, BaseField.equal_map]

theorem equalOperands_map (left right : ProjectiveNiels F) :
    equalOperands (left.map hom) (right.map hom) = equalOperands left right := by
  simp only [equalOperands, ProjectiveNiels.map, BaseField.equal_map, ← hom.map_mul]

theorem equal_map : (point.map hom).equal (other.map hom) = point.equal other := by
  cases point with
  | affineNiels left =>
      cases other with
      | affineNiels right => exact equalEntries_map hom left right
      | _ => rfl
  | projectiveNiels left =>
      cases other with
      | projectiveNiels right => exact equalOperands_map hom left right
      | _ => rfl
  | _ => cases other <;> simp [equal, projective?]

end Operations

end EdwardsSignature.Point
