import Mathlib
import EdwardsSignature.Field.LimbElement
import EdwardsSignature.Proofs.Curve.Equality
import EdwardsSignature.Proofs.Curve.Multiplication
import EdwardsSignature.Proofs.Curve.Negation
import EdwardsSignature.Proofs.Curve.TabledMultiples
import EdwardsSignature.Proofs.Field.LimbElement
import EdwardsSignature.Proofs.Session.Correctness

/-! Which points are wrapped as public keys, and what the keys hold of them.

The check looks at the affine coordinates. It lets no point through that is off the curve, but
projective coordinates that pass it are still refused by the conversion after it, and extended
ones that pass it keep their `T`, also where it does not belong to the other coordinates. -/

set_option autoImplicit false

namespace EdwardsSignature

open Parameters (standardWith)

variable {F : Type} [BaseField F] [LawfulBaseField F]

namespace Point

/-- No `T` is given that does not belong to the other coordinates. -/
def KeepsProduct : Point F → Prop
  | extended point => value point.x * value point.y = value point.z * value point.t
  | _ => True

variable {curve : Curve F} {point : Point F}

theorem projective_valid_iff (point : Projective F) :
    point.Valid ↔ (projective point).HasAffine ∧ (projective point).OnCurve :=
  ⟨fun valid => ⟨valid.z_ne_zero, valid.onCurve⟩,
    fun ⟨defined, onCurve⟩ => ⟨defined, onCurve⟩⟩

/-- The check of the curve equation answers for all points that can be encoded. It accepts those
that have affine coordinates and have them on the curve. -/
theorem IsWorking.isOnCurve_spec (working : point.IsWorking)
    (standard : curve.HasStandardConstants) :
    ∃ accepted, point.isOnCurve curve = .ok accepted ∧
      (accepted = true ↔ point.HasAffine ∧ point.OnCurve) := by
  have accepts (projected : Projective F) :
      projected.isOnCurve curve = true ↔
        (projective projected).HasAffine ∧ (projective projected).OnCurve := by
    rw [projected.isOnCurve_iff standard, projected.exists_names_iff, projective_valid_iff]
  cases point with
  | projective point => exact ⟨_, rfl, accepts point⟩
  | extended point => exact ⟨_, rfl, accepts point.toProjective⟩
  | completed point =>
      refine ⟨_, rfl, (accepts point.toProjective).trans ?_⟩
      have defined_iff : (projective point.toProjective).HasAffine ↔
          (completed point).HasAffine := by
        simp only [HasAffine, Completed.toProjective, LawfulBaseField.value_mul, mul_ne_zero_iff]
      rw [defined_iff]
      refine and_congr_right fun defined => ?_
      rw [OnCurve, OnCurve, (HasAffine.toProjective defined).2]
  | affineNiels | projectiveNiels => cases working

theorem HasAffine.isWorking (defined : point.HasAffine) : point.IsWorking := by
  cases point with
  | projective | extended | completed => trivial
  | affineNiels | projectiveNiels => cases defined

theorem HasAffine.isOnCurve (defined : point.HasAffine) (onCurve : point.OnCurve)
    (standard : curve.HasStandardConstants) : point.isOnCurve curve = .ok true := by
  obtain ⟨accepted, checked, accepted_iff⟩ := defined.isWorking.isOnCurve_spec standard
  rw [checked, accepted_iff.mpr ⟨defined, onCurve⟩]

/-- Of the systems that can be encoded, only the projective one does not convert. -/
theorem HasAffine.exists_converted (defined : point.HasAffine)
    (convertible : point.system ≠ .projective) :
    ∃ converted, point.convertExtended = .ok converted ∧ (extended converted).HasAffine ∧
      (extended converted).affine = point.affine := by
  cases point with
  | projective => exact absurd rfl convertible
  | extended point => exact ⟨point, rfl, defined, rfl⟩
  | completed point => exact ⟨point.toExtended, rfl, HasAffine.toProjective defined⟩
  | affineNiels | projectiveNiels => cases defined

end Point

/-- The standard base point with its affine coordinates and a `T` of choice. -/
def Extended.baseWith (t : F) : Extended F :=
  ⟨BaseField.ofBlock (Block.ofNat 32 basePointX), BaseField.ofBlock (Block.ofNat 32 basePointY), 1,
    t⟩

theorem Extended.baseWith_names (t : F) : (baseWith t).toProjective.Names basePoint := by
  have read {number : Nat} (fits : number < 256 ^ 32) (below : number < 2 ^ 255) :
      value (BaseField.ofBlock (Block.ofNat 32 number) : F) = (number : ZMod fieldPrime) := by
    rw [LawfulBaseField.value_ofBlock, Block.toNat_ofNat_of_lt fits, Nat.mod_eq_of_lt below]
  constructor <;>
    simp only [baseWith, toProjective, basePoint, LawfulBaseField.value_one, mul_one]
  · exact one_ne_zero
  · exact read (by decide) (by decide)
  · exact read (by decide) (by decide)

theorem Extended.baseWith_zero_not_valid : ¬(baseWith 0 : Extended F).Valid := by
  intro valid
  have names := baseWith_names (0 : F)
  have product := valid.product_eq
  have t_eq : value (baseWith (0 : F)).t = 0 := LawfulBaseField.value_zero
  rw [t_eq, mul_zero] at product
  obtain x_zero | y_zero := mul_eq_zero.mp product
  · exact basePoint_x_ne_zero
      ((mul_eq_zero.mp (names.x_eq.symm.trans x_zero)).resolve_right names.z_ne_zero)
  · exact basePoint_y_ne_zero
      ((mul_eq_zero.mp (names.y_eq.symm.trans y_zero)).resolve_right names.z_ne_zero)

section Wrapping

variable {parameters : Parameters F} {point : Point F}

namespace PublicKey

theorem ofPoint_outside (standard : parameters.IsStandard) (working : point.IsWorking)
    (outside : ¬(point.HasAffine ∧ point.OnCurve)) :
    ofPoint parameters point = .error (.rejected .invalidPoint) := by
  obtain ⟨accepted, checked, accepted_iff⟩ := working.isOnCurve_spec standard.constants
  have refused : accepted = false := Bool.eq_false_iff.mpr (mt accepted_iff.mp outside)
  rw [refused] at checked
  simp only [ofPoint, checked]

theorem ofPoint_projective (standard : parameters.IsStandard) (defined : point.HasAffine)
    (onCurve : point.OnCurve) (system_eq : point.system = .projective) :
    ofPoint parameters point =
      .error (.rejected (.unsupportedConversion .projective .extended)) := by
  have checked := defined.isOnCurve onCurve standard.constants
  cases point with
  | projective point => simp only [ofPoint, checked, Point.convertExtended, Point.system]
  | extended | completed | affineNiels | projectiveNiels => cases system_eq

/-- The key of a point on the curve has the point's encoding, and holds an equal point. -/
theorem ofPoint_onCurve (standard : parameters.IsStandard) (defined : point.HasAffine)
    (onCurve : point.OnCurve) (convertible : point.system ≠ .projective) :
    ∃ key, ofPoint parameters point = .ok key ∧ point.encode = .ok key.encoding ∧
      (Point.extended key.point).equal point = true := by
  obtain ⟨converted, conversion, converted_defined, kept⟩ := defined.exists_converted convertible
  have checked := defined.isOnCurve onCurve standard.constants
  have affine_eq : point.affine = (⟨_, _, onCurve⟩ : CurvePoint).pair := rfl
  have encoded := defined.encode_eq affine_eq
  have converted_encoded := converted_defined.encode_eq (kept.trans affine_eq)
  exact ⟨wrap parameters converted, ofPoint_of_isOnCurve checked conversion,
    encoded.trans converted_encoded.symm, (converted_defined.equal_iff defined).mpr kept⟩

/-- Wrapping tells three kinds of points apart, among all coordinates that can be encoded. Points
off the curve, and those with a denominator that vanishes, are invalid. On the curve, extended and
completed coordinates give a key with the encoding of the point, which holds an equal point;
projective coordinates are refused, although the check accepts them. -/
theorem ofPoint_exact (hash : HashFunction) (scalars : ScalarArithmetic)
    (sha512 : hash.algorithm = .sha512) :
    ∃ parameters : Parameters F, standardWith hash scalars = .ok parameters ∧
      ∀ point : Point F, point.IsWorking →
        ((∃ key, ofPoint parameters point = .ok key) ↔
          (point.HasAffine ∧ point.OnCurve) ∧ point.system ≠ .projective) ∧
        (∀ key, ofPoint parameters point = .ok key →
          point.encode = .ok key.encoding ∧ (Point.extended key.point).equal point = true) ∧
        (point.HasAffine ∧ point.OnCurve → point.system = .projective →
          ofPoint parameters point =
            .error (.rejected (.unsupportedConversion .projective .extended))) ∧
        (¬(point.HasAffine ∧ point.OnCurve) →
          ofPoint parameters point = .error (.rejected .invalidPoint)) := by
  obtain ⟨parameters, assembled, standard, _, _⟩ :=
    Parameters.standardWith_spec (F := F) scalars sha512
  refine ⟨parameters, assembled, ?_⟩
  intro point working
  have accepted {key : PublicKey F} (made : ofPoint parameters point = .ok key) :
      (point.HasAffine ∧ point.OnCurve) ∧ point.system ≠ .projective := by
    by_cases inside : point.HasAffine ∧ point.OnCurve
    · refine ⟨inside, fun system_eq => ?_⟩
      rw [ofPoint_projective standard inside.1 inside.2 system_eq] at made
      cases made
    · rw [ofPoint_outside standard working inside] at made
      cases made
  refine ⟨⟨fun ⟨_, made⟩ => accepted made, ?_⟩, ?_,
    fun ⟨defined, onCurve⟩ => ofPoint_projective standard defined onCurve,
    ofPoint_outside standard working⟩
  · rintro ⟨⟨defined, onCurve⟩, convertible⟩
    obtain ⟨key, made, _⟩ := ofPoint_onCurve standard defined onCurve convertible
    exact ⟨key, made⟩
  · intro key made
    obtain ⟨⟨defined, onCurve⟩, convertible⟩ := accepted made
    obtain ⟨other, same, held⟩ := ofPoint_onCurve standard defined onCurve convertible
    obtain rfl := Except.ok.inj (made.symm.trans same)
    exact held

/-- Extended and completed coordinates, and the two ways to be refused. -/
theorem ofPoint_exact_neutral :
    let vanishing : Point LimbElement := .completed ⟨0, 1, 1, 0⟩
    ∃ parameters : Parameters LimbElement,
      standardWith HashAlgorithm.sha512.function .limbs = .ok parameters ∧
      (∃ key, ofPoint parameters (.neutral .extended) = .ok key ∧
        (Point.neutral .extended : Point LimbElement).encode = .ok key.encoding) ∧
      (∃ key, ofPoint parameters (.neutral .completed) = .ok key ∧
        (Point.neutral .completed : Point LimbElement).encode = .ok key.encoding) ∧
      ofPoint parameters (.neutral .projective) =
        .error (.rejected (.unsupportedConversion .projective .extended)) ∧
      ofPoint parameters vanishing = .error (.rejected .invalidPoint) := by
  intro vanishing
  obtain ⟨parameters, assembled, wraps⟩ :=
    ofPoint_exact (F := LimbElement) _ .limbs (HashAlgorithm.algorithm_function .sha512)
  have inside (system : CoordinateSystem)
      (working : (Point.neutral system : Point LimbElement).IsWorking) :
      (Point.neutral system : Point LimbElement).HasAffine ∧
        (Point.neutral system : Point LimbElement).OnCurve := by
    have names := Point.names_neutral (F := LimbElement) system
    refine ⟨names.hasAffine working, ?_⟩
    rw [Point.OnCurve, names.affine_eq]
    exact EdwardsPoint.equation 0
  have outside : ¬(vanishing.HasAffine ∧ vanishing.OnCurve) := by
    simp [vanishing, Point.HasAffine]
  obtain ⟨extended_iff, extended_held, _, _⟩ := wraps (.neutral .extended) trivial
  obtain ⟨completed_iff, completed_held, _, _⟩ := wraps (.neutral .completed) trivial
  obtain ⟨_, _, refused, _⟩ := wraps (.neutral .projective) trivial
  obtain ⟨_, _, _, invalid⟩ := wraps vanishing trivial
  obtain ⟨first, first_made⟩ := extended_iff.mpr ⟨inside .extended trivial, by decide⟩
  obtain ⟨second, second_made⟩ := completed_iff.mpr ⟨inside .completed trivial, by decide⟩
  exact ⟨parameters, assembled, ⟨first, first_made, (extended_held first first_made).1⟩,
    ⟨second, second_made, (completed_held second second_made).1⟩,
    refused (inside .projective trivial) rfl, invalid outside⟩

/-- The base point is on the curve, and projective coordinates of it make no key. -/
theorem ofPoint_refuses_projective_base :
    let point : Point LimbElement := .projective (Extended.baseWith 0).toProjective
    ∃ parameters : Parameters LimbElement,
      standardWith HashAlgorithm.sha512.function .limbs = .ok parameters ∧
      (point.HasAffine ∧ point.OnCurve) ∧
      ofPoint parameters point =
        .error (.rejected (.unsupportedConversion .projective .extended)) ∧
      ¬∃ key, ofPoint parameters point = .ok key := by
  intro point
  obtain ⟨parameters, assembled, standard, _⟩ := Parameters.exists_standard LimbElement
  have valid := (Extended.baseWith_names (0 : LimbElement)).valid
  have refused : ofPoint parameters point =
      .error (.rejected (.unsupportedConversion .projective .extended)) :=
    ofPoint_projective standard valid.z_ne_zero valid.onCurve rfl
  refine ⟨parameters, assembled, ⟨valid.z_ne_zero, valid.onCurve⟩, refused, ?_⟩
  rintro ⟨key, made⟩
  rw [refused] at made
  cases made

end PublicKey

end Wrapping

namespace PublicKey

variable {parameters : Parameters F} {key : PublicKey F} {named : CurvePoint}

theorem point_valid_of_ofBytes (standard : parameters.IsStandard) {bytes : Bytes}
    (made : ofBytes parameters bytes = .ok key) : key.point.Valid := by
  obtain ⟨point, decoded, wrapped⟩ := ofBytes_ok made
  obtain ⟨_, _, conversion, rfl⟩ := ofPoint_ok wrapped
  obtain rfl := Except.ok.inj conversion
  obtain ⟨_, names, _⟩ := Curve.decodePoint_names standard.constants decoded
  exact names.valid

theorem point_valid_iff_keepsProduct (standard : parameters.IsStandard) {point : Point F}
    (made : ofPoint parameters point = .ok key) :
    key.point.Valid ↔ point.KeepsProduct := by
  obtain ⟨_, names⟩ := ofPoint_names standard made
  obtain ⟨_, _, conversion, rfl⟩ := ofPoint_ok made
  rw [Extended.valid_iff, and_iff_right names.point_names.valid]
  cases point with
  | extended point =>
      obtain rfl := Except.ok.inj conversion
      rfl
  | completed point =>
      obtain rfl := Except.ok.inj conversion
      simp only [Point.KeepsProduct, wrap, Completed.toExtended, LawfulBaseField.value_mul,
        iff_true]
      ring
  | projective | affineNiels | projectiveNiels => cases conversion

/-- A valid point of a key is a point that the key names, with its `T`. -/
theorem Names.extended_names (names : key.Names parameters named) (valid : key.point.Valid) :
    key.point.Names named := by
  rw [names.point_names.unique valid.names.toProjective]
  exact valid.names

theorem Names.affine_eq (names : key.Names parameters named) :
    (Point.extended key.point).affine = named.pair :=
  names.point_names.affine_eq

/-- The sum of a key's point and its prepared negative. -/
theorem Names.sum_spec (names : key.Names parameters named) (standard : parameters.IsStandard) :
    ∃ operand sum,
      (Point.extended key.negated.point).toProjectiveNiels parameters.curve = .ok operand ∧
      (Point.extended key.point).add (.projectiveNiels operand) = .ok sum ∧
      (key.point.Valid → (Point.completed sum).equal (.neutral .extended) = true) ∧
      ((Point.completed sum).HasAffine →
        ((Point.completed sum).equal (.neutral .extended) = true ↔
          key.point.Valid ∨ named.x = 0 ∨ named.y = 0)) := by
  have negated_eq : key.negated.point = key.point.negate parameters.curve := by
    rw [key.negated_point, names.parameters_eq]
  refine ⟨_, _, rfl, rfl, ?_, ?_⟩
  · intro valid
    have negated := names.negated_names.point_names.toProjectiveNiels standard.constants
    have total := (names.extended_names valid).add negated
    rw [add_neg_cancel] at total
    have total_names : (Point.completed _).Names 0 := total
    exact (total_names.equal_iff (Point.names_neutral .extended) trivial trivial).mpr rfl
  · rw [negated_eq]
    exact Extended.add_negate_equal_neutral_iff standard.constants names.point_names

/-- A key that was read from its encoding holds a valid point. So does a wrapped one, unless it was
given a `T` that does not belong to the point, which it then keeps. The sum of a valid point and
the prepared negative is neutral, and a valid point has the multiples of the point that the key's
encoding decodes to; for any other, even the sum is wrong where it exists, but for the points that
have a zero coordinate. -/
theorem heldPoint_exact (hash : HashFunction) (scalars : ScalarArithmetic)
    (sha512 : hash.algorithm = .sha512) :
    ∃ parameters : Parameters F, standardWith hash scalars = .ok parameters ∧
      (∀ bytes key, ofBytes parameters bytes = .ok key → key.point.Valid) ∧
      (∀ point key, ofPoint parameters point = .ok key →
        key.point.toProjective.Valid ∧ (key.point.Valid ↔ point.KeepsProduct)) ∧
      ∀ key, IsMade parameters key →
        (∃ operand sum,
          (Point.extended key.negated.point).toProjectiveNiels parameters.curve = .ok operand ∧
          (Point.extended key.point).add (.projectiveNiels operand) = .ok sum ∧
          (key.point.Valid → (Point.completed sum).equal (.neutral .extended) = true) ∧
          ((Point.completed sum).HasAffine →
            ((Point.completed sum).equal (.neutral .extended) = true ↔
              key.point.Valid ∨ (Point.extended key.point).affine.1 = 0 ∨
                (Point.extended key.point).affine.2 = 0))) ∧
        ∃ decoded, parameters.curve.decodePoint key.encoding.toList = .ok decoded ∧
          (key.point.Valid → (TabledPoint.ofExtended parameters.curve key.point).MultipliesLike
            (.ofExtended parameters.curve decoded)) := by
  obtain ⟨parameters, assembled, standard, _, _⟩ :=
    Parameters.standardWith_spec (F := F) scalars sha512
  refine ⟨parameters, assembled, fun bytes key => point_valid_of_ofBytes standard, ?_, ?_⟩
  · intro point key made
    obtain ⟨named, names⟩ := ofPoint_names standard made
    exact ⟨names.point_names.valid, point_valid_iff_keepsProduct standard made⟩
  · intro key made
    obtain ⟨named, names⟩ := made.names standard
    have sums := names.sum_spec standard
    obtain ⟨decoded, accepted, decoded_names⟩ :=
      Curve.decodePoint_encode standard.constants named
    refine ⟨?_, decoded, ?_, ?_⟩
    · rw [names.affine_eq]
      exact sums
    · rw [names.encoding_eq, accepted]
    · intro valid
      have held : (TabledPoint.ofExtended parameters.curve key.point).Names named :=
        ⟨standard.constants, names.extended_names valid⟩
      exact held.multipliesLike ⟨standard.constants, decoded_names⟩

theorem heldPoint_exact_base :
    ∃ (parameters : Parameters LimbElement) (key : PublicKey LimbElement),
      standardWith HashAlgorithm.sha512.function .limbs = .ok parameters ∧
      ofBytes parameters Curve.standardBase.toList = .ok key ∧ key.point.Valid ∧
      (∃ operand sum,
        (Point.extended key.negated.point).toProjectiveNiels parameters.curve = .ok operand ∧
        (Point.extended key.point).add (.projectiveNiels operand) = .ok sum ∧
        (Point.completed sum).equal (.neutral .extended) = true) ∧
      ∃ decoded, parameters.curve.decodePoint key.encoding.toList = .ok decoded ∧
        (TabledPoint.ofExtended parameters.curve key.point).MultipliesLike
          (.ofExtended parameters.curve decoded) := by
  obtain ⟨parameters, assembled, read, _, sound⟩ :=
    heldPoint_exact (F := LimbElement) _ .limbs (HashAlgorithm.algorithm_function .sha512)
  obtain ⟨known, same, standard, _⟩ := Parameters.exists_standard LimbElement
  obtain rfl := Except.ok.inj (assembled.symm.trans same)
  obtain ⟨key, made, _⟩ := ofBytes_encode standard basePoint
  rw [encode_basePoint] at made
  have valid := read _ key made
  obtain ⟨⟨operand, sum, cached, added, neutral, _⟩, decoded, accepted, alike⟩ :=
    sound key (.ofBytes made)
  exact ⟨parameters, key, assembled, made, valid, ⟨operand, sum, cached, added, neutral valid⟩,
    decoded, accepted, alike valid⟩

/-- The base point with a `T` of zero makes a key, which keeps the zero. The sum of its point and
the prepared negative is then another point than the neutral one. -/
theorem wrap_keeps_foreign_product :
    ∃ (parameters : Parameters LimbElement) (key : PublicKey LimbElement)
      (operand : ProjectiveNiels LimbElement) (sum : Completed LimbElement),
      standardWith HashAlgorithm.sha512.function .limbs = .ok parameters ∧
      ofPoint parameters (.extended (.baseWith 0)) = .ok key ∧ ¬key.point.Valid ∧
      (Point.extended key.negated.point).toProjectiveNiels parameters.curve = .ok operand ∧
      (Point.extended key.point).add (.projectiveNiels operand) = .ok sum ∧
      (Point.completed sum).HasAffine ∧
      (Point.completed sum).equal (.neutral .extended) = false := by
  obtain ⟨parameters, assembled, standard, _⟩ := Parameters.exists_standard LimbElement
  let point : Extended LimbElement := .baseWith 0
  let operand := (point.negate parameters.curve).toProjectiveNiels parameters.curve
  have names : point.toProjective.Names basePoint := Extended.baseWith_names 0
  have invalid : ¬point.Valid := Extended.baseWith_zero_not_valid
  have defined : (Point.completed (point.add operand)).HasAffine :=
    Extended.hasAffine_add_negate_of_t standard.constants names.z_ne_zero LawfulBaseField.value_zero
  refine ⟨parameters, wrap parameters point, operand, point.add operand, assembled,
    ofPoint_extended standard names, invalid, rfl, rfl, defined, ?_⟩
  rw [Bool.eq_false_iff, Ne, Extended.add_negate_equal_neutral_iff standard.constants names defined]
  rintro (valid | x_zero | y_zero)
  · exact invalid valid
  · exact basePoint_x_ne_zero x_zero
  · exact basePoint_y_ne_zero y_zero

end PublicKey

end EdwardsSignature
